import Mathlib.Data.Finmap
import OfficeAuto.Entity.Value
import OfficeAuto.Text.Split
import OfficeAuto.Text.Uri

/-!
# Key strings of drafts

`Util.mapToStr` writes the key of a draft as `name=value` pairs between commas, and
`Util.StringToKeyMap` reads such a text with the field types of the entity. The text is
stored in the administrative record of the draft and compared for equality when the draft of
an entity is looked for.

A map of the source is an association list here, since the writer walks it in its iteration order,
and two maps are equal when their finite maps are, whatever the order. The writer skips values that
are no string, timestamp or big decimal, writes a timestamp as its milliseconds and a big decimal as
its canonical text, and form-encodes strings; the text of one value says nothing of its type.

The reader never decodes. With the tokenizer, which drops empty pieces, this leaves exactly
the keys of `TypedKey.Survives`: at least one field, strings of safe characters that are not
empty, and timestamps of whole milliseconds.
-/

namespace OfficeAuto.Odata

open Text Decimal

/-! ### The writer -/

/-- A map from names to values in its iteration order. A value may be missing. -/
abbrev FieldMap := AList fun _ : List Char => Option Value

def encodeValue : Option Value → Option (List Char)
  | some (.string s) => some (Uri.encode s)
  | some (.timestamp t) => some (showInt t.getTime)
  | some (.bigDecimal b) => some b.toString
  | _ => none

def appendEntry (acc : List Char × Bool) (entry : Σ _ : List Char, Option Value) :
    List Char × Bool :=
  match encodeValue entry.2 with
  | none => acc
  | some encodedValue =>
    let buf := if acc.2 then acc.1 else acc.1 ++ [',']
    (buf ++ Uri.encode entry.1 ++ '=' :: encodedValue, false)

/-- `Util.mapToStr`. -/
def mapToStr (map : FieldMap) : List Char :=
  (map.entries.foldl appendEntry ([], true)).1

/-! ### The reader -/

/-- What the reader knows of an entity: the types of the fields, and the field names behind
the properties of the entity type. Field names are names. -/
structure EntityTypes where
  fieldType : List Char → Option (List Char)
  ofbizFieldName : List Char → Option (List Char)
  fieldType_name : ∀ k t, fieldType k = some t → k ≠ [] ∧ ∀ c ∈ k, (c.isAlphanum || c == '_')

abbrev DraftKey := Finmap fun _ : List Char => Option Value

/-- What goes wrong while a key string is read. -/
inductive KeyError
  | nullPointer
  | numberFormat
  deriving DecidableEq, Repr

def decimalTypes : List (List Char) :=
  ["fixed-point".toList, "currency-precise".toList, "currency-amount".toList]

/-- The value of a text in a field of a type. A text that is no number of milliseconds gives
no timestamp; one that is no big decimal is an exception. -/
def readValue (fieldType value : List Char) : Except KeyError (Option Value) :=
  if fieldType = "date-time".toList then
    match h : readLong value with
    | some t => .ok (some (.timestamp (.ofMillis t (isLong_of_readLong h))))
    | none => .ok none
  else if fieldType ∈ decimalTypes then
    match BigDecimal.parse value with
    | some b => .ok (some (.bigDecimal b))
    | none => .error .numberFormat
  else .ok (some (.string value))

def fieldName (E : EntityTypes) (name : List Char) : List Char :=
  match E.fieldType name, E.ofbizFieldName name with
  | none, some field => if field.isEmpty then name else field
  | _, _ => name

/-- The body of the reader's loop. A piece that does not split in two is skipped; one without
a token at all leaves a null list. -/
def putElement (E : EntityTypes) (pairsSeparator : Char) (doTrim : Bool) (keyMap : DraftKey)
    (s : List Char) : Except KeyError DraftKey :=
  match tokens pairsSeparator s with
  | [] => .error .nullPointer
  | [name, value] =>
    let name := fieldName E (if doTrim then trim name else name)
    let value := if doTrim then trim value else value
    match E.fieldType name with
    | none => .error .nullPointer
    | some type => (readValue type value).map fun v => keyMap.insert name v
  | _ => .ok keyMap

/-- `Util.StringToKeyMap`; `none` is its null result for the empty text. -/
def stringToKeyMap (E : EntityTypes) (delim pairsSeparator : Char) (doTrim : Bool)
    (str : List Char) : Except KeyError (Option DraftKey) :=
  if str.isEmpty then .ok none
  else match tokens delim str with
    | [] => .error .nullPointer
    | elements => (elements.foldlM (putElement E pairsSeparator doTrim) ∅).map some

/-! ### When two maps have one text -/

def entryText (entry : Σ _ : List Char, Option Value) : Option (List Char) :=
  (encodeValue entry.2).map fun t => Uri.encode entry.1 ++ '=' :: t

theorem mapToStr_eq (map : FieldMap) :
    mapToStr map = [','].intercalate (map.entries.filterMap entryText) := by
  have hloop : ∀ (es : List (Σ _ : List Char, Option Value)) (buf : List Char),
      (es.foldl appendEntry (buf, false)).1 = (es.filterMap entryText).foldl
        (fun buf t => buf ++ ',' :: t) buf := by
    intro es
    induction es with
    | nil => intro buf; rfl
    | cons e es ih =>
      intro buf
      cases he : encodeValue e.2 with
      | none => simp [appendEntry, entryText, he, ih]
      | some t => simp [appendEntry, entryText, he, ih]
  have hjoin : ∀ (ts : List (List Char)) (buf : List Char),
      ts.foldl (fun buf t => buf ++ ',' :: t) buf = [','].intercalate (buf :: ts) := by
    intro ts
    induction ts with
    | nil => intro buf; simp
    | cons t ts ih =>
      intro buf
      rw [List.foldl_cons, ih, List.intercalate_cons_cons]
      rcases ts with _ | ⟨u, ts⟩
      · simp
      · rw [List.intercalate_cons_cons, List.intercalate_cons_cons]
        simp
  unfold mapToStr
  induction map.entries with
  | nil => rfl
  | cons e es ih =>
    cases he : encodeValue e.2 with
    | none => simpa [appendEntry, entryText, he] using ih
    | some t =>
      have hentry : entryText e = some (Uri.encode e.1 ++ '=' :: t) := by simp [entryText, he]
      rw [List.foldl_cons, List.filterMap_cons_some hentry, ← hjoin, ← hloop]
      simp [appendEntry, he]

/-- The characters of encoded texts, which need no quoting in a key string. -/
def IsToken (s : List Char) : Prop := ∀ c ∈ s, c ≠ ',' ∧ c ≠ '=' ∧ ' ' < c

theorem isToken_of_isSafe {s : List Char}
    (hs : ∀ c ∈ s, Uri.isSafe c = true ∨ c = '+' ∨ c = '%') : IsToken s := by
  intro c hc
  rcases hs c hc with h | rfl | rfl
  · refine ⟨?_, ?_, ?_⟩
    · rintro rfl
      exact absurd h (by decide)
    · rintro rfl
      exact absurd h (by decide)
    · exact Uri.blank_lt_of_isSafe h
  · decide
  · decide

theorem isToken_encode {s : List Char} : IsToken (Uri.encode s) :=
  isToken_of_isSafe fun _ hc => Uri.mem_encode hc

theorem isSafe_of_isDigit {c : Char} (hc : c.isDigit = true) : Uri.isSafe c = true := by
  simp [Uri.isSafe, Char.isAlphanum, hc]

theorem isSafe_showInt {n : Int} : ∀ c ∈ showInt n, Uri.isSafe c = true := by
  intro c hc
  rcases mem_showInt hc with h | rfl
  · exact isSafe_of_isDigit h
  · decide

theorem isToken_encodeValue {v : Option Value} {t : List Char} (h : encodeValue v = some t) :
    IsToken t := by
  unfold encodeValue at h
  split at h
  · obtain rfl := Option.some.inj h
    exact isToken_encode
  · obtain rfl := Option.some.inj h
    exact isToken_of_isSafe fun c hc => Or.inl (isSafe_showInt c hc)
  · obtain rfl := Option.some.inj h
    refine isToken_of_isSafe fun c hc => ?_
    rcases BigDecimal.mem_toString hc with h | h
    · exact Or.inl (isSafe_of_isDigit h)
    · have hmark : ['-', '.', 'E', '+'].all
          (fun d => decide (Uri.isSafe d = true ∨ d = '+' ∨ d = '%')) = true := by decide
      exact of_decide_eq_true (List.all_eq_true.mp hmark c h)
  · cases h

theorem tokens_mapToStr (map : FieldMap) :
    tokens ',' (mapToStr map) = map.entries.filterMap entryText := by
  rw [mapToStr_eq]
  refine tokens_intercalate fun q hq => ?_
  obtain ⟨e, -, he⟩ := List.mem_filterMap.mp hq
  obtain ⟨t, ht, rfl⟩ := Option.map_eq_some_iff.mp he
  refine ⟨fun h => ?_, by simp⟩
  rcases List.mem_append.mp h with h | h
  · exact (isToken_encode _ h).1 rfl
  · rcases List.mem_cons.mp h with h | h
    · exact absurd h (by decide)
    · exact (isToken_encodeValue ht _ h).1 rfl

theorem mapToStr_eq_iff {m₁ m₂ : FieldMap} :
    mapToStr m₁ = mapToStr m₂ ↔
      m₁.entries.filterMap entryText = m₂.entries.filterMap entryText := by
  constructor
  · intro h
    rw [← tokens_mapToStr, ← tokens_mapToStr, h]
  · intro h
    rw [mapToStr_eq, mapToStr_eq, h]

/-- **Values that are written alike**: equal strings and equal big decimals, timestamps of one
millisecond, and values of different types with one text. -/
def WrittenAlike : Value → Value → Prop
  | .string s, .string t => s = t
  | .timestamp t, .timestamp u => t.getTime = u.getTime
  | .bigDecimal a, .bigDecimal b => a = b
  | .string s, .timestamp t | .timestamp t, .string s => s = showInt t.getTime
  | .string s, .bigDecimal b | .bigDecimal b, .string s => Uri.encode s = b.toString
  | .timestamp t, .bigDecimal b | .bigDecimal b, .timestamp t => b = ⟨t.getTime, 0⟩
  | _, _ => False

theorem encode_eq_showInt {s : List Char} {n : Int} :
    Uri.encode s = showInt n ↔ s = showInt n := by
  have hself : Uri.encode (showInt n) = showInt n := Uri.encode_eq_self_iff.mpr isSafe_showInt
  constructor
  · intro h
    exact Uri.encode_injective (h.trans hself.symm)
  · rintro rfl
    exact hself

theorem toString_eq_showInt {b : BigDecimal} {n : Int} :
    b.toString = showInt n ↔ b = ⟨n, 0⟩ := by
  have hint : (⟨n, 0⟩ : BigDecimal).toString = showInt n := by
    simp [BigDecimal.toString, BigDecimal.coeff, showInt]
  constructor
  · intro h
    exact BigDecimal.toString_injective (h.trans hint.symm)
  · rintro rfl
    exact hint

theorem encodeValue_eq_iff {v w : Value} {t u : List Char} (hv : encodeValue (some v) = some t)
    (hw : encodeValue (some w) = some u) : t = u ↔ WrittenAlike v w := by
  cases v with
  | string s =>
    obtain rfl := Option.some.inj hv
    cases w with
    | string s' =>
      obtain rfl := Option.some.inj hw
      exact Uri.encode_injective.eq_iff
    | timestamp t' =>
      obtain rfl := Option.some.inj hw
      exact encode_eq_showInt
    | bigDecimal b =>
      obtain rfl := Option.some.inj hw
      rfl
    | long n => cases hw
  | timestamp t' =>
    obtain rfl := Option.some.inj hv
    cases w with
    | string s' =>
      obtain rfl := Option.some.inj hw
      rw [eq_comm]
      exact encode_eq_showInt
    | timestamp u' =>
      obtain rfl := Option.some.inj hw
      exact showInt_injective.eq_iff
    | bigDecimal b =>
      obtain rfl := Option.some.inj hw
      rw [eq_comm]
      exact toString_eq_showInt
    | long n => cases hw
  | bigDecimal b =>
    obtain rfl := Option.some.inj hv
    cases w with
    | string s' =>
      obtain rfl := Option.some.inj hw
      rw [eq_comm]
      rfl
    | timestamp u' =>
      obtain rfl := Option.some.inj hw
      exact toString_eq_showInt
    | bigDecimal b' =>
      obtain rfl := Option.some.inj hw
      exact BigDecimal.toString_injective.eq_iff
    | long n => cases hw
  | long n => cases hv

/-- The entries that are written at all: those with a string, a timestamp or a big decimal. -/
def written (map : FieldMap) : List (Σ _ : List Char, Option Value) :=
  map.entries.filter fun e => (encodeValue e.2).isSome

def EntriesAlike (e f : Σ _ : List Char, Option Value) : Prop :=
  e.1 = f.1 ∧ ∃ v w, e.2 = some v ∧ f.2 = some w ∧ WrittenAlike v w

theorem entryText_eq_iff {e f : Σ _ : List Char, Option Value} {t u : List Char}
    (he : entryText e = some t) (hf : entryText f = some u) : t = u ↔ EntriesAlike e f := by
  obtain ⟨k, v⟩ := e
  obtain ⟨l, w⟩ := f
  obtain ⟨t, ht, rfl⟩ := Option.map_eq_some_iff.mp he
  obtain ⟨u, hu, rfl⟩ := Option.map_eq_some_iff.mp hf
  have hkey : ∀ {s : List Char}, '=' ∉ Uri.encode s := fun h => (isToken_encode _ h).2.1 rfl
  have hval : ∀ {o : Option Value} {s : List Char}, encodeValue o = some s → '=' ∉ s :=
    fun h hmem => (isToken_encodeValue h _ hmem).2.1 rfl
  have hsplit : Uri.encode k ++ '=' :: t = Uri.encode l ++ '=' :: u ↔ k = l ∧ t = u := by
    rw [List.append_cons_inj_of_notMem hkey (hval ht), Uri.encode_injective.eq_iff]
    simp
  rw [hsplit]
  refine and_congr_right fun _ => ?_
  cases v with
  | none => cases ht
  | some v =>
    cases w with
    | none => cases hu
    | some w =>
      rw [encodeValue_eq_iff ht hu]
      constructor
      · intro h
        exact ⟨v, w, rfl, rfl, h⟩
      · rintro ⟨v', w', hv', hw', h⟩
        obtain rfl := Option.some.inj hv'
        obtain rfl := Option.some.inj hw'
        exact h

theorem filterMap_entryText_eq (es : List (Σ _ : List Char, Option Value)) :
    es.filterMap entryText =
      (es.filter fun e => (encodeValue e.2).isSome).filterMap entryText := by
  induction es with
  | nil => rfl
  | cons e es ih =>
    cases he : encodeValue e.2 with
    | none => simp [entryText, he, ih]
    | some t => simp [entryText, he, ih]

/-- **Two maps have one text** exactly when they write the same fields in the same order with
values that are written alike. -/
theorem mapToStr_eq_iff_forall₂ {m₁ m₂ : FieldMap} :
    mapToStr m₁ = mapToStr m₂ ↔ List.Forall₂ EntriesAlike (written m₁) (written m₂) := by
  have hlist : ∀ es fs : List (Σ _ : List Char, Option Value),
      (∀ e ∈ es, (encodeValue e.2).isSome) → (∀ f ∈ fs, (encodeValue f.2).isSome) →
      (es.filterMap entryText = fs.filterMap entryText ↔ List.Forall₂ EntriesAlike es fs) := by
    have htext : ∀ e : Σ _ : List Char, Option Value, (encodeValue e.2).isSome →
        ∃ t, entryText e = some t := by
      intro e he
      obtain ⟨t, ht⟩ := Option.isSome_iff_exists.mp he
      exact ⟨_, by rw [entryText, ht]; rfl⟩
    intro es
    induction es with
    | nil =>
      intro fs _ hfs
      cases fs with
      | nil => simp
      | cons f fs =>
        obtain ⟨u, hu⟩ := htext f (hfs f List.mem_cons_self)
        simp [hu]
    | cons e es ih =>
      intro fs hes hfs
      obtain ⟨t, ht⟩ := htext e (hes e List.mem_cons_self)
      cases fs with
      | nil => simp [ht]
      | cons f fs =>
        obtain ⟨u, hu⟩ := htext f (hfs f List.mem_cons_self)
        have hrest := ih fs (fun g hg => hes g (List.mem_cons_of_mem _ hg))
          (fun g hg => hfs g (List.mem_cons_of_mem _ hg))
        rw [List.filterMap_cons_some ht, List.filterMap_cons_some hu, List.cons.injEq, hrest,
          List.forall₂_cons, entryText_eq_iff ht hu]
  rw [mapToStr_eq_iff, filterMap_entryText_eq m₁.entries, filterMap_entryText_eq m₂.entries]
  exact hlist _ _ (fun e he => (List.mem_filter.mp he).2) (fun f hf => (List.mem_filter.mp hf).2)

/-- **When the texts of two maps tell whether they are equal**: equal maps are written in the
same order, and different maps are not written alike. -/
def Distinguished (m₁ m₂ : FieldMap) : Prop :=
  if m₁.toFinmap = m₂.toFinmap then written m₁ = written m₂
  else ¬ List.Forall₂ EntriesAlike (written m₁) (written m₂)

theorem written_eq_of_forall₂ {m₁ m₂ : FieldMap} (heq : m₁.toFinmap = m₂.toFinmap)
    (h : List.Forall₂ EntriesAlike (written m₁) (written m₂)) : written m₁ = written m₂ := by
  have hperm : m₁.entries.Perm m₂.entries := AList.toFinmap_eq.mp heq
  have hlist : ∀ {es fs : List (Σ _ : List Char, Option Value)}, List.Forall₂ EntriesAlike es fs →
      (∀ e ∈ es, e ∈ m₁.entries) → (∀ f ∈ fs, f ∈ m₁.entries) → es = fs := by
    intro es fs hall
    induction hall with
    | nil => intro _ _; rfl
    | @cons e f es fs hef _ ih =>
      intro hes hfs
      obtain ⟨k, v⟩ := e
      obtain ⟨l, w⟩ := f
      obtain rfl : k = l := hef.1
      obtain rfl : v = w := m₁.nodupKeys.eq_of_mk_mem (hes _ List.mem_cons_self)
        (hfs _ List.mem_cons_self)
      rw [ih (fun e he => hes e (List.mem_cons_of_mem _ he))
        (fun f hf => hfs f (List.mem_cons_of_mem _ hf))]
  exact hlist h (fun e he => (List.mem_filter.mp he).1)
    (fun f hf => hperm.mem_iff.mpr (List.mem_filter.mp hf).1)

/-- **The text of a map and its equality** agree on a pair of maps exactly when the pair is
distinguished. -/
theorem mapToStr_eq_iff_eq {m₁ m₂ : FieldMap} :
    (mapToStr m₁ = mapToStr m₂ ↔ m₁.toFinmap = m₂.toFinmap) ↔ Distinguished m₁ m₂ := by
  unfold Distinguished
  split_ifs with heq
  · simp only [heq, iff_true]
    constructor
    · intro h
      exact written_eq_of_forall₂ heq (mapToStr_eq_iff_forall₂.mp h)
    · intro h
      rw [mapToStr_eq, mapToStr_eq, filterMap_entryText_eq m₁.entries,
        filterMap_entryText_eq m₂.entries]
      exact congrArg (fun es => [','].intercalate (es.filterMap entryText)) h
  · simp only [heq, iff_false]
    exact not_congr mapToStr_eq_iff_forall₂

/-! ### Which keys the reader gives back -/

def HasFieldType (type : List Char) : Value → Prop
  | .timestamp _ => type = "date-time".toList
  | .bigDecimal _ => type ∈ decimalTypes
  | .string _ => type ≠ "date-time".toList ∧ type ∉ decimalTypes
  | .long _ => False

/-- A key of an entity: strings, timestamps and big decimals in fields of their types. -/
structure TypedKey (E : EntityTypes) where
  map : FieldMap
  typed : ∀ e ∈ map.entries, ∃ type v, E.fieldType e.1 = some type ∧ e.2 = some v ∧
    HasFieldType type v

/-- What the reader makes of a value that was written: nothing at all of an empty string. -/
def readBack : Value → Option Value
  | .string s => if s = [] then none else some (.string (Uri.encode s))
  | .timestamp t => some (.timestamp (.ofMillis t.getTime t.isLong))
  | v => some v

def ValueSurvives : Value → Prop
  | .string s => s ≠ [] ∧ ∀ c ∈ s, Uri.isSafe c = true
  | .timestamp t => t.nanosBelow = 0
  | _ => True

/-- **The keys that come back**: at least one field, strings of safe characters that are not
empty, timestamps of whole milliseconds. -/
def TypedKey.Survives {E : EntityTypes} (key : TypedKey E) : Prop :=
  key.map.entries ≠ [] ∧ ∀ e ∈ key.map.entries, ∀ v, e.2 = some v → ValueSurvives v

theorem readBack_eq_some_iff {v : Value} : readBack v = some v ↔ ValueSurvives v := by
  cases v with
  | string s =>
    by_cases hs : s = []
    · simp [readBack, ValueSurvives, hs]
    · simp [readBack, ValueSurvives, hs, Uri.encode_eq_self_iff]
  | timestamp t =>
    obtain ⟨time, nanos, hlong, hlt⟩ := t
    simp [readBack, ValueSurvives, Timestamp.ofMillis, eq_comm]
  | bigDecimal b => simp [readBack, ValueSurvives]
  | long n => simp [readBack, ValueSurvives]

theorem trim_of_isToken {s : List Char} (hs : IsToken s) : trim s = s :=
  trim_of_forall fun c hc => (hs c hc).2.2

theorem encode_fieldName {E : EntityTypes} {k type : List Char}
    (hk : E.fieldType k = some type) : Uri.encode k = k := by
  refine Uri.encode_eq_self_iff.mpr fun c hc => ?_
  rcases Bool.or_eq_true_iff.mp ((E.fieldType_name k type hk).2 c hc) with h | h
  · simp [Uri.isSafe, h]
  · rw [beq_iff_eq.mp h]
    decide

theorem tokens_pair {k t : List Char} (hk : IsToken k) (hne : k ≠ []) (ht : IsToken t) :
    tokens '=' (k ++ '=' :: t) = if t = [] then [k] else [k, t] := by
  have hcut : (k ++ '=' :: t).splitOn '=' = [k, t] := by
    have hk' : '=' ∉ k := fun h => (hk _ h).2.1 rfl
    have ht' : '=' ∉ t := fun h => (ht _ h).2.1 rfl
    have h : (['='].intercalate [k, t]).splitOn '=' = [k, t] :=
      List.splitOn_intercalate '=' (by simp [hk', ht']) (by simp)
    simpa [List.intercalate] using h
  rw [tokens, hcut]
  split_ifs with h <;> simp [h, hne]

theorem readValue_of_hasFieldType {type t : List Char} {v : Value} (htype : HasFieldType type v)
    (ht : encodeValue (some v) = some t) (hne : t ≠ []) :
    readValue type t = .ok (readBack v) := by
  cases v with
  | string s =>
    obtain rfl := Option.some.inj ht
    have hs : s ≠ [] := by
      rintro rfl
      exact hne rfl
    rw [readValue, if_neg htype.1, if_neg htype.2, readBack, if_neg hs]
  | timestamp t' =>
    obtain rfl := Option.some.inj ht
    obtain rfl : type = _ := htype
    have hread : readLong (showInt t'.getTime) = some t'.getTime := readLong_showInt t'.isLong
    unfold readValue
    rw [if_pos rfl]
    split
    · next u hu =>
      obtain rfl : t'.getTime = u := Option.some.inj (hread.symm.trans hu)
      rfl
    · next hu =>
      rw [hread] at hu
      cases hu
  | bigDecimal b =>
    obtain rfl := Option.some.inj ht
    have hmem : type ∈ decimalTypes := htype
    have hdate : type ≠ "date-time".toList := by
      rintro rfl
      exact absurd hmem (by decide)
    rw [readValue, if_neg hdate, if_pos hmem, BigDecimal.parse_toString]
    rfl
  | long n => cases ht

theorem readBack_of_encodeValue_nil {v : Value} (h : encodeValue (some v) = some []) :
    readBack v = none := by
  cases v with
  | string s =>
    have hs : s = [] := Uri.encode_injective (Option.some.inj h)
    simp [readBack, hs]
  | timestamp t => exact absurd (Option.some.inj h) showInt_ne_nil
  | bigDecimal b => exact absurd (Option.some.inj h) BigDecimal.toString_ne_nil
  | long n => cases h

def storeBack (m : DraftKey) (e : Σ _ : List Char, Option Value) : DraftKey :=
  match e.2.bind readBack with
  | some v => m.insert e.1 (some v)
  | none => m

/-- **One pair of a key string**: a written entry of a field's type is read back as
`readBack` says. -/
theorem putElement_entryText {E : EntityTypes} {m : DraftKey}
    {e : Σ _ : List Char, Option Value} {type text : List Char} {v : Value}
    (hfield : E.fieldType e.1 = some type) (hvalue : e.2 = some v)
    (htype : HasFieldType type v) (htext : entryText e = some text) :
    putElement E '=' true m text = .ok (storeBack m e) := by
  obtain ⟨k, w⟩ := e
  obtain rfl : w = some v := hvalue
  obtain ⟨t, ht, rfl⟩ := Option.map_eq_some_iff.mp htext
  have hk : Uri.encode k = k := encode_fieldName hfield
  have hktoken : IsToken k := hk ▸ isToken_encode
  have hkne : k ≠ [] := (E.fieldType_name k type hfield).1
  have httoken : IsToken t := isToken_encodeValue ht
  have hname : fieldName E k = k := by
    have hfield' : E.fieldType k = some type := hfield
    simp [fieldName, hfield']
  unfold putElement
  simp only [hk, tokens_pair hktoken hkne httoken]
  by_cases hnil : t = []
  · subst hnil
    simp [storeBack, readBack_of_encodeValue_nil ht]
  · have hread := readValue_of_hasFieldType htype ht hnil
    have hsome : ∃ u, readBack v = some u := by
      cases v with
      | string s =>
        have hs : s ≠ [] := by
          rintro rfl
          exact hnil (Option.some.inj ht).symm
        exact ⟨_, by simp [readBack, hs]; rfl⟩
      | timestamp t' => exact ⟨_, rfl⟩
      | bigDecimal b => exact ⟨_, rfl⟩
      | long n => exact ⟨_, rfl⟩
    obtain ⟨u, hu⟩ := hsome
    simp [hnil, trim_of_isToken hktoken, trim_of_isToken httoken, hname, hfield, hread,
      storeBack, hu, Except.map]

theorem encodeValue_isSome_of_hasFieldType {type : List Char} {v : Value}
    (h : HasFieldType type v) : ∃ t, encodeValue (some v) = some t := by
  cases v with
  | string s => exact ⟨_, rfl⟩
  | timestamp t => exact ⟨_, rfl⟩
  | bigDecimal b => exact ⟨_, rfl⟩
  | long n => exact absurd h id

theorem foldlM_putElement {E : EntityTypes} {es : List (Σ _ : List Char, Option Value)}
    (hes : ∀ e ∈ es, ∃ type v, E.fieldType e.1 = some type ∧ e.2 = some v ∧ HasFieldType type v)
    (m : DraftKey) :
    (es.filterMap entryText).foldlM (putElement E '=' true) m = .ok (es.foldl storeBack m) := by
  induction es generalizing m with
  | nil => rfl
  | cons e es ih =>
    obtain ⟨type, v, hfield, hvalue, htype⟩ := hes e List.mem_cons_self
    obtain ⟨t, ht⟩ := encodeValue_isSome_of_hasFieldType htype
    have htext : entryText e = some (Uri.encode e.1 ++ '=' :: t) := by
      rw [entryText, hvalue, ht]
      rfl
    rw [List.filterMap_cons_some htext, List.foldlM_cons,
      putElement_entryText hfield hvalue htype htext]
    exact ih (fun f hf => hes f (List.mem_cons_of_mem _ hf)) _

theorem lookup_storeBack_of_ne {m : DraftKey} {e : Σ _ : List Char, Option Value}
    {k : List Char} (hk : k ≠ e.1) : (storeBack m e).lookup k = m.lookup k := by
  unfold storeBack
  split
  · exact Finmap.lookup_insert_of_ne _ hk
  · rfl

theorem lookup_foldl_storeBack_of_notMem {es : List (Σ _ : List Char, Option Value)}
    {m : DraftKey} {k : List Char} (hk : k ∉ es.keys) :
    (es.foldl storeBack m).lookup k = m.lookup k := by
  induction es generalizing m with
  | nil => rfl
  | cons e es ih =>
    rw [List.keys_cons, List.mem_cons, not_or] at hk
    rw [List.foldl_cons, ih hk.2, lookup_storeBack_of_ne hk.1]

theorem lookup_foldl_storeBack {es : List (Σ _ : List Char, Option Value)} {m : DraftKey}
    (hnodup : es.NodupKeys) {e : Σ _ : List Char, Option Value} (he : e ∈ es)
    (hm : m.lookup e.1 = none) :
    (es.foldl storeBack m).lookup e.1 = (e.2.bind readBack).map some := by
  induction es generalizing m with
  | nil => exact absurd he List.not_mem_nil
  | cons f es ih =>
    have hfes : f.1 ∉ es.keys := (List.nodupKeys_cons.mp hnodup).1
    rw [List.foldl_cons]
    rcases List.mem_cons.mp he with rfl | he
    · rw [lookup_foldl_storeBack_of_notMem hfes, storeBack]
      cases hback : e.2.bind readBack with
      | none => simpa using hm
      | some v => simp
    · have hne : e.1 ≠ f.1 := by
        intro h
        exact hfes (h ▸ List.mem_keys_of_mem he)
      exact ih (List.nodupKeys_cons.mp hnodup).2 he (by rw [lookup_storeBack_of_ne hne, hm])

/-- **The round trip of a typed key**: reading its text gives the key exactly when the key
survives. -/
theorem stringToKeyMap_mapToStr_iff {E : EntityTypes} (key : TypedKey E) :
    stringToKeyMap E ',' '=' true (mapToStr key.map) = .ok (some key.map.toFinmap) ↔
      key.Survives := by
  have hlookup : ∀ e ∈ key.map.entries, key.map.toFinmap.lookup e.1 = some e.2 := by
    intro e he
    rw [Finmap.lookup_toFinmap]
    exact AList.mem_lookup_iff.mpr he
  rcases eq_or_ne key.map.entries [] with hnil | hne
  · -- the empty map has the empty text, for which null is returned
    have htext : mapToStr key.map = [] := by simp [mapToStr, hnil]
    rw [stringToKeyMap, htext]
    constructor
    · intro h
      cases h
    · rintro ⟨hne, -⟩
      exact absurd hnil hne
  · have htexts : key.map.entries.filterMap entryText ≠ [] := by
      obtain ⟨e, es, he⟩ := List.exists_cons_of_ne_nil hne
      obtain ⟨type, v, -, hvalue, htype⟩ := key.typed e (by simp [he])
      obtain ⟨t, ht⟩ := encodeValue_isSome_of_hasFieldType htype
      have htext : entryText e = some (Uri.encode e.1 ++ '=' :: t) := by
        rw [entryText, hvalue, ht]
        rfl
      rw [he, List.filterMap_cons_some htext]
      simp
    have hstr : (mapToStr key.map).isEmpty = false := by
      rw [Bool.eq_false_iff]
      intro h
      have htokens := tokens_mapToStr key.map
      rw [List.isEmpty_iff.mp h] at htokens
      exact htexts htokens.symm
    -- the pieces of the text are the texts of the entries, read one after the other
    have hread : stringToKeyMap E ',' '=' true (mapToStr key.map) =
        .ok (some (key.map.entries.foldl storeBack ∅)) := by
      rw [stringToKeyMap, hstr]
      simp only [Bool.false_eq_true, if_false]
      have hfold := foldlM_putElement key.typed ∅
      rw [← tokens_mapToStr] at htexts hfold
      split
      · next h => exact absurd h htexts
      · rw [hfold]
        rfl
    rw [hread, Except.ok.injEq, Option.some.injEq]
    constructor
    · intro heq
      refine ⟨hne, fun e he v hv => readBack_eq_some_iff.mp ?_⟩
      have h := lookup_foldl_storeBack (m := ∅) key.map.nodupKeys he (Finmap.lookup_empty _)
      rw [heq, hlookup e he, hv] at h
      simpa [eq_comm] using h
    · rintro ⟨-, hall⟩
      refine Finmap.ext_lookup fun k => ?_
      by_cases hk : k ∈ key.map.entries.keys
      · obtain ⟨o, ho⟩ := List.exists_of_mem_keys hk
        obtain ⟨type, v, -, hvalue, -⟩ := key.typed _ ho
        have h := lookup_foldl_storeBack (m := ∅) key.map.nodupKeys ho (Finmap.lookup_empty _)
        obtain rfl : o = some v := hvalue
        have hback : readBack v = some v := readBack_eq_some_iff.mpr (hall _ ho v rfl)
        rw [hlookup _ ho, h]
        simp [hback]
      · rw [lookup_foldl_storeBack_of_notMem hk, Finmap.lookup_empty, Finmap.lookup_toFinmap,
          eq_comm, AList.lookup_eq_none]
        exact hk

/-- **Key strings of drafts**: the text of a map tells it from another one exactly when the
two are distinguished, and a typed key is read back from its text exactly when it survives. -/
theorem keyString_faithful_iff (m₁ m₂ : FieldMap) (E : EntityTypes) (key : TypedKey E) :
    ((mapToStr m₁ = mapToStr m₂ ↔ m₁.toFinmap = m₂.toFinmap) ↔ Distinguished m₁ m₂) ∧
      (stringToKeyMap E ',' '=' true (mapToStr key.map) = .ok (some key.map.toFinmap) ↔
        key.Survives) :=
  ⟨mapToStr_eq_iff_eq, stringToKeyMap_mapToStr_iff key⟩

def noteTypes : EntityTypes where
  fieldType k := if k = "note".toList then some "description".toList else none
  ofbizFieldName _ := none
  fieldType_name k t h := by
    split_ifs at h with hk
    subst hk
    exact ⟨by decide, List.all_eq_true.mp (by decide)⟩

def blankKey : TypedKey noteTypes where
  map := ⟨[⟨"note".toList, some (.string "a b".toList)⟩], by unfold List.NodupKeys; decide⟩
  typed e he := by
    rw [List.mem_singleton.mp he]
    exact ⟨"description".toList, .string "a b".toList, by decide, rfl, by decide, by decide⟩

def twoFields (swapped : Bool) : FieldMap :=
  let a : Σ _ : List Char, Option Value := ⟨"partyId".toList, some (.string "p".toList)⟩
  let b : Σ _ : List Char, Option Value := ⟨"roleTypeId".toList, some (.string "r".toList)⟩
  if swapped then ⟨[b, a], by unfold List.NodupKeys; decide⟩
  else ⟨[a, b], by unfold List.NodupKeys; decide⟩

theorem not_keyString_faithful :
    ((twoFields false).toFinmap = (twoFields true).toFinmap ∧
      mapToStr (twoFields false) ≠ mapToStr (twoFields true)) ∧
    stringToKeyMap noteTypes ',' '=' true (mapToStr blankKey.map) ≠
      .ok (some blankKey.map.toFinmap) := by
  refine ⟨⟨AList.toFinmap_eq.mpr (List.Perm.swap _ _ _), by decide⟩, fun h => ?_⟩
  have hsafe := ((stringToKeyMap_mapToStr_iff blankKey).mp h).2 _ List.mem_cons_self _ rfl
  exact absurd (hsafe.2 ' ' (by decide)) (by decide)

end OfficeAuto.Odata
