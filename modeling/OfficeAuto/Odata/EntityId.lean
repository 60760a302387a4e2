import Mathlib.Data.Finmap
import OfficeAuto.Entity.Value
import OfficeAuto.Text.Split
import OfficeAuto.Text.Uri

/-!
# Entity ids

`Util.createId` writes the id of an entity as the name of its entity set with the key in
parentheses; `Util.odataIdToMap` reads the key back out of such a text. The two were written
apart. The writer puts one value between quotes as it is and quotes several values as URI
literals, in which a quote is doubled, then writes `%20` for every blank and lets the URI
constructor check the text. The reader takes what stands between the parentheses, deletes
every quote, and cuts at commas and equals signs wherever they stand.

The module says exactly which keys survive (`PrimaryKey.Plain`): the values have no quote, no equals
sign and no blank and make a legal URI, and a key of several fields has no comma in its values and
no field called `fromDate`, which the reader takes for a timestamp.
-/

namespace OfficeAuto.Odata

open Text

/-! ### Names, formats and keys -/

/-- A name of an entity set or a property: letters, digits and underscores. -/
structure Identifier where
  text : List Char
  text_ne : text ≠ []
  isName : ∀ c ∈ text, (c.isAlphanum || c == '_') = true
  deriving DecidableEq

/-- The library formats that the ids go through: the URI literal of a string, which quotes it
and doubles its quotes, the text of a date-time-offset value, and the SQL timestamp's printer
and reader. -/
structure KeyFormats where
  toUriLiteral : List Char → List Char
  toUriLiteral_eq : ∀ v, toUriLiteral v =
    ['\''] ++ v.flatMap (fun c => if c = '\'' then ['\'', '\''] else [c]) ++ ['\'']
  dateTimeOffset : Timestamp → List Char
  timestampText : Timestamp → List Char
  valueOf : List Char → Option Timestamp

/-- The types of key properties that `createId` tells apart. -/
inductive EdmKeyType
  | string
  | dateTimeOffset
  deriving DecidableEq, Repr

structure KeyProperty where
  name : Identifier
  type : EdmKeyType
  value : Option Value

/-- A primary key of string values: at least one field, no field twice. -/
structure PrimaryKey where
  fields : List (Identifier × List Char)
  fields_ne : fields ≠ []
  nodup : (fields.map fun p => p.1.text).Nodup

abbrev KeyMap := Finmap fun _ : List Char => Value

def PrimaryKey.toMap (key : PrimaryKey) : KeyMap :=
  key.fields.foldl (fun m p => m.insert p.1.text (.string p.2)) ∅

def PrimaryKey.properties (key : PrimaryKey) : List KeyProperty :=
  key.fields.map fun p => ⟨p.1, .string, some (.string p.2)⟩

/-- The entity of the row: the names of its primary key fields. -/
structure ModelEntity where
  pks : List (List Char)

def PrimaryKey.modelEntity (key : PrimaryKey) : ModelEntity :=
  ⟨key.fields.map fun p => p.1.text⟩

/-- What goes wrong while an id is written or read. -/
inductive IdError
  | classCast
  | uriSyntax
  | indexOutOfBounds
  | illegalArgument
  deriving DecidableEq, Repr

/-! ### The writer -/

def getString (F : KeyFormats) : Value → List Char
  | .string s => s
  | .long n => Decimal.showInt n
  | .bigDecimal b => b.toString
  | .timestamp t => F.timestampText t

/-- `UtilHttp.encodeBlanks`. -/
def encodeBlanks (s : List Char) : List Char :=
  s.flatMap fun c => if c = ' ' then "%20".toList else [c]

/-- The text of one value among several. A missing value is written as the word. -/
def keyLiteral (F : KeyFormats) (p : KeyProperty) : Except IdError (List Char) :=
  match p.type, p.value with
  | _, none => .ok "null".toList
  | .dateTimeOffset, some (.timestamp t) => .ok (Uri.encode (F.dateTimeOffset t))
  | .dateTimeOffset, some _ => .error .classCast
  | .string, some v => .ok (F.toUriLiteral (getString F v))

def keyText (F : KeyFormats) : List KeyProperty → Except IdError (List Char)
  | [p] => .ok (['\''] ++ (p.value.map (getString F)).getD "null".toList ++ ['\''])
  | ps => do
    let pieces ← ps.mapM fun p => do
      let value ← keyLiteral F p
      pure (p.name.text ++ '=' :: value)
    pure ([','].intercalate pieces)

/-- `Util.createId`. -/
def createId (F : KeyFormats) (entitySetName : Identifier) (properties : List KeyProperty) :
    Except IdError (List Char) := do
  let entityId ← keyText F properties
  match Uri.newURI (encodeBlanks (entitySetName.text ++ '(' :: entityId ++ [')'])) with
  | some id => pure id
  | none => throw .uriSyntax

/-! ### The reader -/

def removeQuotes (s : List Char) : List Char := s.filter fun c => c != '\''

/-- The name of the one primary key field; an entity with more has no answer. -/
def ModelEntity.getOnlyPk (e : ModelEntity) : Except IdError (List Char) :=
  match e.pks with
  | [pk] => .ok pk
  | _ => .error .illegalArgument

/-- The body of the reader's loop: one `name=value` piece put into the map. -/
def putPair (F : KeyFormats) (map : KeyMap) (currKey : List Char) :
    Except IdError (KeyMap) :=
  match split '=' currKey with
  | k :: kv :: _ =>
    if k = "fromDate".toList then
      match F.valueOf kv with
      | some t => .ok (map.insert k (.timestamp t))
      | none => .error .illegalArgument
    else .ok (map.insert k (.string (trim (removeQuotes kv))))
  | _ => .error .indexOutOfBounds

/-- `Util.odataIdToMap`. -/
def odataIdToMap (F : KeyFormats) (modelEntity : ModelEntity) (key : List Char) :
    Except IdError (KeyMap) :=
  match substring key (indexOf '(' key + 1) (lastIndexOf ')' key) with
  | none => .error .indexOutOfBounds
  | some key =>
    if '=' ∈ key then (split ',' key).foldlM (putPair F) ∅
    else modelEntity.getOnlyPk.map fun pk => (∅ : KeyMap).insert pk (.string (removeQuotes key))

/-- **The round trip of a key**: it is written, and what is read back is its map. -/
def RoundTrips (F : KeyFormats) (entitySetName : Identifier) (key : PrimaryKey) : Prop :=
  ∃ id, createId F entitySetName key.properties = .ok id ∧
    odataIdToMap F key.modelEntity id = .ok key.toMap

/-- The keys that survive. -/
structure PrimaryKey.Plain (key : PrimaryKey) : Prop where
  values : ∀ p ∈ key.fields, ∀ c ∈ p.2, c ≠ '\'' ∧ c ≠ '=' ∧ c ≠ ' '
  legal : Uri.legal (key.fields.map Prod.snd) = true
  several : 1 < key.fields.length →
    ∀ p ∈ key.fields, ',' ∉ p.2 ∧ p.1.text ≠ "fromDate".toList

/-! ### What the reader returns -/

def IsClean (s : List Char) : Prop := ∀ c ∈ s, c ≠ '\'' ∧ c ≠ '=' ∧ c ≠ ',' ∧ c ≠ ' '

theorem mem_removeQuotes {s : List Char} {c : Char} :
    c ∈ removeQuotes s ↔ c ∈ s ∧ c ≠ '\'' := by
  simp [removeQuotes]

/-- What the reader's loop keeps true of its map: strings are clean, and `fromDate` has no
string. -/
def MapInv (m : KeyMap) : Prop :=
  ∀ k s, m.lookup k = some (.string s) → IsClean s ∧ k ≠ "fromDate".toList

theorem mapInv_putPair {F : KeyFormats} {m m' : KeyMap}
    {piece : List Char} (hm : MapInv m) (hcomma : ',' ∉ piece) (hblank : ' ' ∉ piece)
    (h : putPair F m piece = .ok m') : MapInv m' := by
  unfold putPair at h
  split at h
  · next k kv rest hsplit =>
    have hkv : kv ∈ split '=' piece := by simp [hsplit]
    split_ifs at h with hdate
    · split at h
      · next t _ =>
        obtain rfl := Except.ok.inj h
        intro k' s hs
        by_cases hk : k' = k
        · subst hk
          rw [Finmap.lookup_insert] at hs
          cases hs
        · rw [Finmap.lookup_insert_of_ne _ hk] at hs
          exact hm k' s hs
      · cases h
    · obtain rfl := Except.ok.inj h
      intro k' s hs
      by_cases hk : k' = k
      · subst hk
        rw [Finmap.lookup_insert] at hs
        obtain rfl := Value.string.inj (Option.some.inj hs)
        refine ⟨fun c hc => ?_, hdate⟩
        obtain ⟨hin, hquote⟩ := mem_removeQuotes.mp (mem_of_mem_trim hc)
        refine ⟨hquote, ?_, ?_, ?_⟩
        · rintro rfl
          exact not_mem_of_mem_split hkv hin
        · rintro rfl
          exact hcomma (mem_of_mem_split hkv hin)
        · rintro rfl
          exact hblank (mem_of_mem_split hkv hin)
      · rw [Finmap.lookup_insert_of_ne _ hk] at hs
        exact hm k' s hs
  · cases h

theorem mapInv_foldlM {F : KeyFormats} {pieces : List (List Char)}
    {m m' : KeyMap} (hm : MapInv m)
    (hpieces : ∀ piece ∈ pieces, ',' ∉ piece ∧ ' ' ∉ piece)
    (h : pieces.foldlM (putPair F) m = .ok m') : MapInv m' := by
  -- the invariant of the map is kept by each pair, as the text was split at the commas
  induction pieces generalizing m with
  | nil =>
    obtain rfl := Except.ok.inj h
    exact hm
  | cons piece pieces ih =>
    rw [List.foldlM_cons] at h
    cases hput : putPair F m piece with
    | error e =>
      rw [hput] at h
      cases h
    | ok m₁ =>
      rw [hput] at h
      obtain ⟨hcomma, hblank⟩ := hpieces piece List.mem_cons_self
      have hm₁ : MapInv m₁ := mapInv_putPair hm hcomma hblank hput
      exact ih hm₁ (fun q hq => hpieces q (List.mem_cons_of_mem _ hq)) h

theorem mapInv_empty : MapInv ∅ := by
  intro k s h
  rw [Finmap.lookup_empty] at h
  cases h

theorem odataIdToMap_eq {F : KeyFormats} {e : ModelEntity} {set body : List Char}
    (hset : '(' ∉ set) :
    odataIdToMap F e (set ++ '(' :: body ++ [')']) =
      if '=' ∈ body then (split ',' body).foldlM (putPair F) ∅
      else e.getOnlyPk.map fun pk => (∅ : KeyMap).insert pk (.string (removeQuotes body)) := by
  unfold odataIdToMap
  rw [substring_between hset]

/-- **The reader returns clean values**: of a key without blanks it keeps no quote, equals
sign or blank, and from a key with an equals sign no comma and no string for `fromDate`. -/
theorem clean_of_odataIdToMap {F : KeyFormats} {e : ModelEntity} {set body : List Char}
    {m : KeyMap} (hset : '(' ∉ set) (hblank : ' ' ∉ body)
    (h : odataIdToMap F e (set ++ '(' :: body ++ [')']) = .ok m) {k s : List Char}
    (hk : m.lookup k = some (.string s)) :
    (∀ c ∈ s, c ≠ '\'' ∧ c ≠ '=' ∧ c ≠ ' ') ∧
      ('=' ∈ body → ',' ∉ s ∧ k ≠ "fromDate".toList) := by
  rw [odataIdToMap_eq hset] at h
  split_ifs at h with heq
  · have hinv : MapInv m := by
      refine mapInv_foldlM mapInv_empty (fun piece hpiece => ⟨?_, ?_⟩) h
      · exact not_mem_of_mem_split hpiece
      · exact fun hin => hblank (mem_of_mem_split hpiece hin)
    obtain ⟨hclean, hdate⟩ := hinv k s hk
    refine ⟨fun c hc => ⟨(hclean c hc).1, (hclean c hc).2.1, (hclean c hc).2.2.2⟩, fun _ => ?_⟩
    exact ⟨fun hcomma => (hclean ',' hcomma).2.2.1 rfl, hdate⟩
  · cases hpk : e.getOnlyPk with
    | error err =>
      rw [hpk] at h
      cases h
    | ok pk =>
      rw [hpk] at h
      obtain rfl : (∅ : KeyMap).insert pk (.string (removeQuotes body)) = m := Except.ok.inj h
      by_cases hkpk : k = pk
      · subst hkpk
        rw [Finmap.lookup_insert] at hk
        obtain rfl := Value.string.inj (Option.some.inj hk)
        refine ⟨fun c hc => ?_, fun h => absurd h heq⟩
        obtain ⟨hin, hquote⟩ := mem_removeQuotes.mp hc
        refine ⟨hquote, ?_, ?_⟩
        · rintro rfl
          exact heq hin
        · rintro rfl
          exact hblank hin
      · rw [Finmap.lookup_insert_of_ne _ hkpk, Finmap.lookup_empty] at hk
        cases hk

/-! ### What the writer writes -/

theorem Identifier.ne_of_mem {n : Identifier} {c d : Char} (hc : c ∈ n.text)
    (hd : (d.isAlphanum || d == '_') = false) : c ≠ d := by
  rintro rfl
  rw [n.isName c hc] at hd
  cases hd

theorem Identifier.isPlain {n : Identifier} : ∀ c ∈ n.text, Uri.isPlain c = true := by
  intro c hc
  rcases Bool.or_eq_true_iff.mp (n.isName c hc) with h | h
  · simp [Uri.isPlain, Uri.isUnreserved, h]
  · rw [beq_iff_eq.mp h]
    decide

theorem encodeBlanks_append {s t : List Char} :
    encodeBlanks (s ++ t) = encodeBlanks s ++ encodeBlanks t := by
  simp [encodeBlanks]

theorem encodeBlanks_of_forall {s : List Char} (hs : ∀ c ∈ s, c ≠ ' ') : encodeBlanks s = s := by
  induction s with
  | nil => rfl
  | cons c s ih =>
    have hc : c ≠ ' ' := hs c List.mem_cons_self
    have hrest : encodeBlanks s = s := ih fun d hd => hs d (List.mem_cons_of_mem _ hd)
    simp only [encodeBlanks, List.flatMap_cons, if_neg hc] at hrest ⊢
    rw [hrest]
    rfl

theorem blank_not_mem_encodeBlanks {s : List Char} : ' ' ∉ encodeBlanks s := by
  intro h
  obtain ⟨c, -, hc⟩ := List.mem_flatMap.mp h
  split_ifs at hc with hblank
  · exact absurd hc (by decide)
  · exact hblank (List.mem_singleton.mp hc).symm

def keyBody (F : KeyFormats) : List (Identifier × List Char) → List Char
  | [p] => ['\''] ++ p.2 ++ ['\'']
  | ps => [','].intercalate (ps.map fun p => p.1.text ++ '=' :: F.toUriLiteral p.2)

theorem keyText_properties (F : KeyFormats) (key : PrimaryKey) :
    keyText F key.properties = .ok (keyBody F key.fields) := by
  have hmap : ∀ ps : List (Identifier × List Char),
      (ps.map fun p => (⟨p.1, .string, some (.string p.2)⟩ : KeyProperty)).mapM (fun p => do
          let value ← keyLiteral F p
          pure (p.name.text ++ '=' :: value))
        = Except.ok (ps.map fun p => p.1.text ++ '=' :: F.toUriLiteral p.2) := by
    intro ps
    induction ps with
    | nil => rfl
    | cons p ps ih =>
      rw [List.map_cons, List.mapM_cons, ih]
      rfl
  unfold PrimaryKey.properties
  rcases h : key.fields with _ | ⟨p, _ | ⟨q, ps⟩⟩
  · exact absurd h key.fields_ne
  · rfl
  · have hkey := hmap (p :: q :: ps)
    simp only [List.map_cons] at hkey ⊢
    simp only [keyText, keyBody, hkey, List.map_cons]
    rfl

/-- The text that `createId` builds, before the check of the URI constructor. -/
def idText (F : KeyFormats) (entitySetName : Identifier) (key : PrimaryKey) : List Char :=
  entitySetName.text ++ '(' :: encodeBlanks (keyBody F key.fields) ++ [')']

theorem createId_eq_ok {F : KeyFormats} {n : Identifier} {key : PrimaryKey} {id : List Char} :
    createId F n key.properties = .ok id ↔
      idText F n key = id ∧ ∃ p, Uri.scan Uri.start (idText F n key) = some ⟨p, 0⟩ := by
  have htext : encodeBlanks (n.text ++ '(' :: keyBody F key.fields ++ [')']) = idText F n key := by
    have hn : encodeBlanks n.text = n.text :=
      encodeBlanks_of_forall fun c hc => Identifier.ne_of_mem hc (by decide)
    have hopen : encodeBlanks ['('] = ['('] := by decide
    have hclose : encodeBlanks [')'] = [')'] := by decide
    rw [encodeBlanks_append, encodeBlanks_append, ← List.singleton_append, encodeBlanks_append,
      hn, hopen, hclose, idText, List.singleton_append]
  unfold createId
  rw [keyText_properties]
  simp only [bind, Except.bind, htext]
  rw [← Uri.newURI_eq_some]
  cases Uri.newURI (idText F n key) <;> simp [pure, Except.pure, throw, throwThe,
    MonadExceptOf.throw]

/-! ### Plain keys survive -/

def Unquoted (ps : List (Identifier × List Char)) : Prop :=
  ∀ p ∈ ps, ∀ c ∈ p.2, c ≠ '\'' ∧ c ≠ ' '

def piece (p : Identifier × List Char) : List Char :=
  p.1.text ++ '=' :: (['\''] ++ p.2 ++ ['\''])

theorem toUriLiteral_of_forall {F : KeyFormats} {v : List Char} (hv : ∀ c ∈ v, c ≠ '\'') :
    F.toUriLiteral v = ['\''] ++ v ++ ['\''] := by
  have hdouble : v.flatMap (fun c => if c = '\'' then ['\'', '\''] else [c]) = v := by
    induction v with
    | nil => rfl
    | cons c v ih =>
      have hc : c ≠ '\'' := hv c List.mem_cons_self
      rw [List.flatMap_cons, if_neg hc, ih fun d hd => hv d (List.mem_cons_of_mem _ hd)]
      rfl
  rw [F.toUriLiteral_eq, hdouble]

theorem encodeBlanks_intercalate {pieces : List (List Char)}
    (h : ∀ q ∈ pieces, ∀ c ∈ q, c ≠ ' ') :
    encodeBlanks ([','].intercalate pieces) = [','].intercalate pieces := by
  refine encodeBlanks_of_forall ?_
  induction pieces with
  | nil => simp
  | cons q pieces ih =>
    rcases eq_or_ne pieces [] with rfl | hne
    · simpa using h q List.mem_cons_self
    · rw [List.intercalate_cons_of_ne_nil hne]
      intro c hc
      simp only [List.mem_append, List.mem_singleton] at hc
      rcases hc with (hc | rfl) | hc
      · exact h q List.mem_cons_self c hc
      · decide
      · exact ih (fun r hr => h r (List.mem_cons_of_mem _ hr)) c hc

theorem blank_not_mem_piece {p : Identifier × List Char} (hp : ∀ c ∈ p.2, c ≠ '\'' ∧ c ≠ ' ') :
    ∀ c ∈ piece p, c ≠ ' ' := by
  intro c hc
  simp only [piece, List.mem_append, List.mem_cons, List.not_mem_nil, or_false] at hc
  rcases hc with hc | rfl | (rfl | hc) | rfl
  · exact Identifier.ne_of_mem hc (by decide)
  · decide
  · decide
  · exact (hp c hc).2
  · decide

theorem encodeBlanks_keyBody {F : KeyFormats} {ps : List (Identifier × List Char)}
    (hlen : 1 < ps.length) (hps : Unquoted ps) :
    encodeBlanks (keyBody F ps) = [','].intercalate (ps.map piece) := by
  have hbody : keyBody F ps = [','].intercalate (ps.map piece) := by
    have hmap : (ps.map fun p => p.1.text ++ '=' :: F.toUriLiteral p.2) = ps.map piece := by
      refine List.map_congr_left fun p hp => ?_
      rw [toUriLiteral_of_forall fun c hc => (hps p hp c hc).1, piece]
    rcases ps with _ | ⟨p, _ | ⟨q, ps⟩⟩
    · exact absurd hlen (by simp)
    · exact absurd hlen (by simp)
    · rw [← hmap, keyBody]
      simp
  rw [hbody]
  refine encodeBlanks_intercalate fun q hq => ?_
  obtain ⟨p, hp, rfl⟩ := List.mem_map.mp hq
  exact blank_not_mem_piece (hps p hp)

theorem encodeBlanks_keyBody_single {F : KeyFormats} {p : Identifier × List Char}
    (hp : Unquoted [p]) : encodeBlanks (keyBody F [p]) = ['\''] ++ p.2 ++ ['\''] := by
  refine encodeBlanks_of_forall fun c hc => ?_
  simp only [keyBody, List.mem_append, List.mem_singleton] at hc
  rcases hc with (rfl | hc) | rfl
  · decide
  · exact (hp p (by simp) c hc).2
  · decide

theorem scan_intercalate {ps : List (Identifier × List Char)} (hne : ps ≠ []) {s : Uri.Scan}
    (hs : s.due = 0) :
    Uri.scan s ([','].intercalate (ps.map piece) ++ [')']) =
      (ps.map Prod.snd).foldlM Uri.scanText s := by
  induction ps generalizing s with
  | nil => exact absurd rfl hne
  | cons p ps ih =>
    have hhead : Uri.scan s (p.1.text ++ ['=', '\'']) = some s := by
      refine Uri.scan_of_isPlain hs fun c hc => ?_
      rcases List.mem_append.mp hc with hc | hc
      · exact Identifier.isPlain c hc
      · have hsep : ∀ d ∈ ['=', '\''], Uri.isPlain d = true :=
          List.all_eq_true.mp (by decide)
        exact hsep c hc
    -- the last pair is followed by the bracket, the others by a comma
    rcases eq_or_ne ps [] with rfl | hps
    · have htext : [','].intercalate ([p].map piece) ++ [')']
          = (p.1.text ++ ['=', '\'']) ++ (p.2 ++ ('\'' :: [')']) ++ []) := by
        simp [piece]
      rw [htext, Uri.scan_append, hhead, Option.bind_some,
        Uri.scan_append_separator (by decide) (List.all_eq_true.mp (by decide))]
      simp
    · have htext : [','].intercalate ((p :: ps).map piece) ++ [')']
          = (p.1.text ++ ['=', '\'']) ++
            (p.2 ++ ('\'' :: [',']) ++ ([','].intercalate (ps.map piece) ++ [')'])) := by
        rw [List.map_cons, List.intercalate_cons_of_ne_nil (by simpa using hps)]
        simp [piece]
      rw [htext, Uri.scan_append, hhead, Option.bind_some,
        Uri.scan_append_separator (by decide) (List.all_eq_true.mp (by decide)), List.map_cons,
        List.foldlM_cons]
      cases hp : Uri.scanText s p.2 with
      | none => rfl
      | some s' => exact ih hps (Uri.due_of_scanText hp)

/-- **The URI check of an unquoted key** is the check of its values. -/
theorem scan_idText {F : KeyFormats} {n : Identifier} {key : PrimaryKey}
    (hkey : Unquoted key.fields) :
    Uri.scan Uri.start (idText F n key) =
      (key.fields.map Prod.snd).foldlM Uri.scanText Uri.start := by
  have hopen : ∀ c ∈ n.text ++ ['('], Uri.isPlain c = true := by
    intro c hc
    rcases List.mem_append.mp hc with hc | hc
    · exact Identifier.isPlain c hc
    · rw [List.mem_singleton.mp hc]
      decide
  have htext : idText F n key
      = (n.text ++ ['(']) ++ (encodeBlanks (keyBody F key.fields) ++ [')']) := by
    simp [idText]
  rw [htext, Uri.scan_append, Uri.scan_of_isPlain rfl hopen, Option.bind_some]
  rcases h : key.fields with _ | ⟨p, _ | ⟨q, ps⟩⟩
  · exact absurd h key.fields_ne
  · rw [h] at hkey
    have hbody : encodeBlanks (keyBody F [p]) ++ [')']
        = ['\''] ++ (p.2 ++ ('\'' :: [')']) ++ []) := by
      rw [encodeBlanks_keyBody_single hkey]
      simp
    rw [hbody, Uri.scan_append, Uri.scan_of_isPlain rfl (List.all_eq_true.mp (by decide)),
      Option.bind_some,
      Uri.scan_append_separator (by decide) (List.all_eq_true.mp (by decide))]
    simp
  · rw [h] at hkey
    rw [encodeBlanks_keyBody (by simp) hkey, scan_intercalate (by simp) rfl]

theorem removeQuotes_quoted {v : List Char} (hv : ∀ c ∈ v, c ≠ '\'') :
    removeQuotes (['\''] ++ v ++ ['\'']) = v := by
  have hfilter : v.filter (fun c => c != '\'') = v :=
    List.filter_eq_self.mpr fun c hc => by simpa using hv c hc
  simp [removeQuotes, hfilter]

theorem putPair_piece {F : KeyFormats} {m : KeyMap} {p : Identifier × List Char}
    (hp : ∀ c ∈ p.2, c ≠ '\'' ∧ c ≠ '=' ∧ c ≠ ' ') (hblank : ∀ c ∈ p.2, ' ' < c)
    (hdate : p.1.text ≠ "fromDate".toList) :
    putPair F m (piece p) = .ok (m.insert p.1.text (.string p.2)) := by
  have hname : '=' ∉ p.1.text := fun h => Identifier.ne_of_mem h (by decide) rfl
  have hvalue : '=' ∉ ['\''] ++ p.2 ++ ['\''] := by
    intro h
    simp only [List.mem_append, List.mem_singleton] at h
    rcases h with (h | h) | h
    · exact absurd h (by decide)
    · exact (hp '=' h).2.1 rfl
    · exact absurd h (by decide)
  have hsplit : split '=' (piece p) = [p.1.text, ['\''] ++ p.2 ++ ['\'']] :=
    split_pair hname hvalue (by simp)
  unfold putPair
  rw [hsplit]
  simp only [if_neg hdate, removeQuotes_quoted fun c hc => (hp c hc).1, trim_of_forall hblank]

/-- **The reader's loop undoes the writer** on the pieces of a plain key. -/
theorem foldlM_putPair_pieces {F : KeyFormats} {ps : List (Identifier × List Char)}
    (hps : ∀ p ∈ ps, ∀ c ∈ p.2, c ≠ '\'' ∧ c ≠ '=' ∧ c ≠ ' ')
    (hblank : ∀ p ∈ ps, ∀ c ∈ p.2, ' ' < c)
    (hdate : ∀ p ∈ ps, p.1.text ≠ "fromDate".toList) (m : KeyMap) :
    (ps.map piece).foldlM (putPair F) m =
      .ok (ps.foldl (fun m p => m.insert p.1.text (.string p.2)) m) := by
  induction ps generalizing m with
  | nil => rfl
  | cons p ps ih =>
    have hrest := ih (fun q hq => hps q (List.mem_cons_of_mem _ hq))
      (fun q hq => hblank q (List.mem_cons_of_mem _ hq))
      (fun q hq => hdate q (List.mem_cons_of_mem _ hq))
    rw [List.map_cons, List.foldlM_cons, putPair_piece (hps p List.mem_cons_self)
      (hblank p List.mem_cons_self) (hdate p List.mem_cons_self)]
    exact hrest _

theorem lookup_foldl_insert {ps : List (Identifier × List Char)} {m : KeyMap} {k : List Char}
    (hk : k ∉ ps.map fun p => p.1.text) :
    (ps.foldl (fun m p => m.insert p.1.text (.string p.2)) m).lookup k = m.lookup k := by
  induction ps generalizing m with
  | nil => rfl
  | cons p ps ih =>
    rw [List.map_cons, List.mem_cons, not_or] at hk
    rw [List.foldl_cons, ih hk.2, Finmap.lookup_insert_of_ne _ hk.1]

theorem PrimaryKey.lookup_toMap {key : PrimaryKey} {p : Identifier × List Char}
    (hp : p ∈ key.fields) : key.toMap.lookup p.1.text = some (.string p.2) := by
  have hall : ∀ (ps : List (Identifier × List Char)) (m : KeyMap),
      (ps.map fun p => p.1.text).Nodup → p ∈ ps →
      (ps.foldl (fun m p => m.insert p.1.text (.string p.2)) m).lookup p.1.text
        = some (.string p.2) := by
    intro ps
    induction ps with
    | nil => simp
    | cons q ps ih =>
      intro m hnodup hmem
      rw [List.map_cons, List.nodup_cons] at hnodup
      rw [List.foldl_cons]
      rcases List.mem_cons.mp hmem with rfl | hmem
      · rw [lookup_foldl_insert hnodup.1, Finmap.lookup_insert]
      · exact ih _ hnodup.2 hmem
  exact hall key.fields ∅ key.nodup hp

theorem PrimaryKey.Plain.unquoted {key : PrimaryKey} (h : key.Plain) : Unquoted key.fields :=
  fun p hp c hc => ⟨(h.values p hp c hc).1, (h.values p hp c hc).2.2⟩

theorem Identifier.parenthesis_not_mem (n : Identifier) : '(' ∉ n.text :=
  fun h => Identifier.ne_of_mem h (by decide) rfl

/-- **Plain keys survive.** -/
theorem roundTrips_of_plain {F : KeyFormats} {n : Identifier} {key : PrimaryKey}
    (h : key.Plain) : RoundTrips F n key := by
  have hlt : ∀ p ∈ key.fields, ∀ c ∈ p.2, ' ' < c := fun p hp =>
    Uri.blank_lt_of_legal h.legal p.2 (List.mem_map_of_mem hp)
  refine ⟨idText F n key, createId_eq_ok.mpr ⟨rfl, ?_⟩, ?_⟩
  · obtain ⟨s, hs⟩ := Option.isSome_iff_exists.mp h.legal
    obtain ⟨part, due⟩ := s
    obtain rfl : due = 0 := Uri.due_of_foldlM_scanText rfl hs
    exact ⟨part, by rw [scan_idText h.unquoted, hs]⟩
  · rw [idText, odataIdToMap_eq n.parenthesis_not_mem]
    have hunquoted := h.unquoted
    have hvalues := h.values
    rcases hfields : key.fields with _ | ⟨p, _ | ⟨q, ps⟩⟩
    · exact absurd hfields key.fields_ne
    · rw [hfields] at hunquoted hvalues
      have hp := hvalues p List.mem_cons_self
      rw [encodeBlanks_keyBody_single hunquoted, if_neg,
        removeQuotes_quoted fun c hc => (hp c hc).1]
      · simp [PrimaryKey.modelEntity, ModelEntity.getOnlyPk, PrimaryKey.toMap, hfields,
          Except.map]
      · intro hmem
        simp only [List.mem_append, List.mem_singleton] at hmem
        rcases hmem with (hmem | hmem) | hmem
        · exact absurd hmem (by decide)
        · exact (hp '=' hmem).2.1 rfl
        · exact absurd hmem (by decide)
    · have hlen : 1 < key.fields.length := by simp [hfields]
      have hseveral := h.several hlen
      have hbody := encodeBlanks_keyBody (F := F) hlen hunquoted
      have hpieces : ∀ r ∈ key.fields.map piece, ',' ∉ r ∧ r ≠ [] := by
        intro r hr
        obtain ⟨t, ht, rfl⟩ := List.mem_map.mp hr
        refine ⟨fun hmem => ?_, by simp [piece]⟩
        simp only [piece, List.mem_append, List.mem_cons, List.not_mem_nil, or_false] at hmem
        rcases hmem with hmem | hmem | (hmem | hmem) | hmem
        · exact Identifier.ne_of_mem hmem (by decide) rfl
        · exact absurd hmem (by decide)
        · exact absurd hmem (by decide)
        · exact (hseveral t ht).1 hmem
        · exact absurd hmem (by decide)
      rw [← hfields, hbody, if_pos]
      · rw [split_intercalate_of_forall (by simp [hfields]) hpieces,
          foldlM_putPair_pieces hvalues hlt fun t ht => (hseveral t ht).2]
        rfl
      · rw [hfields, List.map_cons, List.intercalate_cons_of_ne_nil (by simp)]
        simp [piece]

/-- **Only plain keys survive.** -/
theorem plain_of_roundTrips {F : KeyFormats} {n : Identifier} {key : PrimaryKey}
    (h : RoundTrips F n key) : key.Plain := by
  obtain ⟨id, hid, hread⟩ := h
  obtain ⟨rfl, part, hscan⟩ := createId_eq_ok.mp hid
  rw [idText] at hread
  have hclean : ∀ p ∈ key.fields, (∀ c ∈ p.2, c ≠ '\'' ∧ c ≠ '=' ∧ c ≠ ' ') ∧
      ('=' ∈ encodeBlanks (keyBody F key.fields) → ',' ∉ p.2 ∧ p.1.text ≠ "fromDate".toList) :=
    fun p hp => clean_of_odataIdToMap n.parenthesis_not_mem blank_not_mem_encodeBlanks hread
      (key.lookup_toMap hp)
  have hunquoted : Unquoted key.fields := fun p hp c hc =>
    ⟨((hclean p hp).1 c hc).1, ((hclean p hp).1 c hc).2.2⟩
  refine ⟨fun p hp => (hclean p hp).1, ?_, fun hlen p hp => (hclean p hp).2 ?_⟩
  · rw [scan_idText hunquoted] at hscan
    exact Option.isSome_iff_exists.mpr ⟨_, hscan⟩
  · rw [encodeBlanks_keyBody hlen hunquoted]
    rcases hfields : key.fields with _ | ⟨q, _ | ⟨r, ps⟩⟩
    · exact absurd hfields key.fields_ne
    · rw [hfields] at hlen
      exact absurd hlen (by simp)
    · rw [List.map_cons, List.intercalate_cons_of_ne_nil (by simp)]
      simp [piece]

/-- **The round trip of entity ids**: a primary key of strings comes back from its id as the
same map exactly when it is plain. -/
theorem odataIdToMap_createId_iff (F : KeyFormats) (entitySetName : Identifier)
    (key : PrimaryKey) : RoundTrips F entitySetName key ↔ key.Plain :=
  ⟨plain_of_roundTrips, roundTrips_of_plain⟩

def millisFormats : KeyFormats where
  toUriLiteral v :=
    ['\''] ++ v.flatMap (fun c => if c = '\'' then ['\'', '\''] else [c]) ++ ['\'']
  toUriLiteral_eq _ := rfl
  dateTimeOffset t := Decimal.showInt t.getTime
  timestampText t := Decimal.showInt t.getTime
  valueOf _ := none

def quotedKey : PrimaryKey where
  fields := [(⟨"partyId".toList, by decide, List.all_eq_true.mp (by decide)⟩, "O'Neil".toList)]
  fields_ne := by simp
  nodup := by simp

def parties : Identifier := ⟨"Parties".toList, by decide, List.all_eq_true.mp (by decide)⟩

theorem not_roundTrips_quotedKey : ¬ RoundTrips millisFormats parties quotedKey := by
  intro h
  have hvalues := (plain_of_roundTrips h).values _ List.mem_cons_self '\'' (by decide)
  exact hvalues.1 rfl

end OfficeAuto.Odata
