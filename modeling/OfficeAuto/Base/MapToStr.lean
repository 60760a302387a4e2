import OfficeAuto.Entity.CodeUnits
import OfficeAuto.Text.Split
import OfficeAuto.Logic.EntryList
import OfficeAuto.Text.UrlDecoder

/-!
# Maps as encoded pairs

`mapToStr` writes a map of strings as pairs of URL-encoded texts, with an equals sign in a pair and
a bar between two of them. `strToMap` cuts the text with a tokenizer, which never returns an empty
token, and puts the pairs of two tokens into the map that it returns. The separators cannot occur in
an encoded text; but a pair with an empty text is no pair of two tokens, and the text of an empty
map is empty, for which `strToMap` returns `null`. Surrogates that are not one of a pair are encoded
as a question mark. `strToMap_mapToStr_iff` says that no other map is lost.
-/

namespace OfficeAuto.Base.StringUtil

open OfficeAuto.Entity.CodeUnits (JavaString units decode decode_units)

abbrev PairMap := EntryList JavaString JavaString

/-! ### The encoder -/

/-- `URLEncoder.encode(s, "UTF-8")`, of the characters that the string's units stand for. -/
def urlEncode (s : JavaString) : List Char := Uri.encode (decode s)

def encodePair (e : JavaString × JavaString) : List Char := urlEncode e.1 ++ '=' :: urlEncode e.2

/-- **`mapToStr`** -/
def mapToStr (m : PairMap) : List Char := ['|'].intercalate (m.entries.map encodePair)

/-! ### The decoder -/

section Decoder

variable (replace : List UInt8 → List Char)

def split (str : List Char) (delim : Char) : Option (List (List Char)) :=
  if (Text.tokens delim str).isEmpty then none else some (Text.tokens delim str)

/-- The body of the loop. It asks for the size of a list that may be `null`. -/
def putPair (trim : Bool) (pairsSeparator : Char) (decodedMap : JavaString → Option JavaString)
    (s : List Char) : Except String (JavaString → Option JavaString) :=
  match split s pairsSeparator with
  | none => .error "java.lang.NullPointerException"
  | some [name, value] => do
    let name := if trim then Text.trim name else name
    let value := if trim then Text.trim value else value
    let key ← Uri.urlDecode replace name
    let text ← Uri.urlDecode replace value
    return Function.update decodedMap (units key) (some (units text))
  | some _ => .ok decodedMap

/-- **`strToMap`**; `none` is `null`. -/
def strToMap (str : List Char) (delim : Char) (trim : Bool) (pairsSeparator : Char) :
    Except String (Option (JavaString → Option JavaString)) :=
  if str.isEmpty then .ok none
  else
    match split str delim with
    | none => .error "java.lang.NullPointerException"
    | some elements =>
      (elements.foldlM (putPair replace trim pairsSeparator) fun _ => none).map some

def strToMapTrimmed (str : List Char) (trim : Bool) :
    Except String (Option (JavaString → Option JavaString)) := strToMap replace str '|' trim '='

/-! ### Pairs -/

theorem decode_ne_nil {s : JavaString} (h : s ≠ []) : decode s ≠ [] := by
  fun_cases decode s with
  | case1 => exact absurd rfl h
  | case2 => exact List.cons_ne_nil _ _
  | case3 => exact List.cons_ne_nil _ _
  | case4 => exact List.cons_ne_nil _ _

theorem urlEncode_isEmpty (s : JavaString) : (urlEncode s).isEmpty = s.isEmpty := by
  rcases eq_or_ne s [] with rfl | hne
  · rfl
  · have hlength := Uri.length_le_length_encode (t := decode s)
    have hpos := List.length_pos_iff.mpr (decode_ne_nil hne)
    rw [List.isEmpty_eq_false_iff.mpr hne, List.isEmpty_eq_false_iff, ← List.length_pos_iff]
    exact Nat.lt_of_lt_of_le hpos hlength

theorem fits_of_mem_urlEncode {s : JavaString} {c : Char} (h : c ∈ urlEncode s) :
    c ≠ '=' ∧ c ≠ '|' ∧ ' ' < c := by
  rcases Uri.mem_encode h with hsafe | rfl | rfl
  · refine ⟨?_, ?_, Uri.blank_lt_of_isSafe hsafe⟩
    · rintro rfl
      exact absurd hsafe (by decide)
    · rintro rfl
      exact absurd hsafe (by decide)
  · decide
  · decide

theorem urlDecode_trim (trim : Bool) (s : JavaString) :
    Uri.urlDecode replace (if trim then Text.trim (urlEncode s) else urlEncode s) =
      .ok (decode s) := by
  have htrim : Text.trim (urlEncode s) = urlEncode s :=
    Text.trim_of_forall fun c hc => (fits_of_mem_urlEncode hc).2.2
  rw [htrim, ite_self]
  exact Uri.urlDecode_encode replace (decode s)

/-- **What a pair of the encoder does to the map.** -/
theorem putPair_encodePair (trim : Bool) (decodedMap : JavaString → Option JavaString)
    (e : JavaString × JavaString) :
    putPair replace trim '=' decodedMap (encodePair e) =
      if e.1.isEmpty && e.2.isEmpty then .error "java.lang.NullPointerException"
      else if e.1.isEmpty || e.2.isEmpty then .ok decodedMap
      else .ok (Function.update decodedMap (units (decode e.1)) (some (units (decode e.2)))) := by
  have hkey : '=' ∉ urlEncode e.1 := fun h => (fits_of_mem_urlEncode h).1 rfl
  have hvalue : '=' ∉ urlEncode e.2 := fun h => (fits_of_mem_urlEncode h).1 rfl
  rw [putPair, split, encodePair, Text.tokens_pair hkey hvalue, List.filter_cons,
    List.filter_singleton, urlEncode_isEmpty, urlEncode_isEmpty]
  cases e.1.isEmpty with
  | true => cases e.2.isEmpty <;> rfl
  | false =>
    cases e.2.isEmpty with
    | true => rfl
    | false =>
      simp only [Bool.not_false, if_true, cond_true, List.isEmpty_cons, Bool.false_eq_true,
        if_false, urlDecode_trim, Bool.and_false, Bool.or_false]
      rfl

/-! ### The round trip -/

/-- The string is a text of characters: each surrogate is one of a pair. -/
def IsText (s : JavaString) : Prop := ∃ t : List Char, units t = s

theorem units_decode_iff (s : JavaString) : units (decode s) = s ↔ IsText s := by
  constructor
  · exact fun h => ⟨decode s, h⟩
  · rintro ⟨t, rfl⟩
    rw [decode_units]

theorem units_ne_nil {t : List Char} (h : t ≠ []) : units t ≠ [] := by
  obtain ⟨c, t, rfl⟩ := List.exists_cons_of_ne_nil h
  rw [units, List.flatMap_cons, utf16]
  split_ifs <;> exact List.append_ne_nil_of_left_ne_nil (List.cons_ne_nil _ _) _

/-- An entry that comes back: neither of its strings is empty, and both are texts. -/
def Returns (e : JavaString × JavaString) : Prop :=
  (e.1 ≠ [] ∧ IsText e.1) ∧ e.2 ≠ [] ∧ IsText e.2

theorem returns_decode {e : JavaString × JavaString} (hkey : e.1 ≠ []) (hvalue : e.2 ≠ []) :
    Returns (units (decode e.1), units (decode e.2)) :=
  ⟨⟨units_ne_nil (decode_ne_nil hkey), _, rfl⟩, units_ne_nil (decode_ne_nil hvalue), _, rfl⟩

theorem returns_of_putPair {trim : Bool} {decodedMap newMap : JavaString → Option JavaString}
    {e : JavaString × JavaString} (hmap : ∀ k v, decodedMap k = some v → Returns (k, v))
    (h : putPair replace trim '=' decodedMap (encodePair e) = .ok newMap) :
    ∀ k v, newMap k = some v → Returns (k, v) := by
  rw [putPair_encodePair] at h
  split_ifs at h with hboth hone
  · rw [← Except.ok.inj h]
    exact hmap
  · rw [← Except.ok.inj h]
    intro k v hv
    rw [Bool.or_eq_true, not_or, List.isEmpty_iff, List.isEmpty_iff] at hone
    rcases eq_or_ne k (units (decode e.1)) with rfl | hne
    · rw [Function.update_self] at hv
      rw [← Option.some.inj hv]
      exact returns_decode hone.1 hone.2
    · rw [Function.update_of_ne hne] at hv
      exact hmap k v hv

/-- **The loop puts only such entries into the map.** -/
theorem returns_of_foldlM {trim : Bool} {es : List (JavaString × JavaString)}
    {decodedMap newMap : JavaString → Option JavaString}
    (hmap : ∀ k v, decodedMap k = some v → Returns (k, v))
    (h : (es.map encodePair).foldlM (putPair replace trim '=') decodedMap = .ok newMap) :
    ∀ k v, newMap k = some v → Returns (k, v) := by
  induction es generalizing decodedMap with
  | nil =>
    rw [← Except.ok.inj h]
    exact hmap
  | cons e es ih =>
    rw [List.map_cons, List.foldlM_cons] at h
    cases hput : putPair replace trim '=' decodedMap (encodePair e) with
    | error err =>
      rw [hput] at h
      cases h
    | ok next =>
      rw [hput] at h
      exact ih (returns_of_putPair replace hmap hput) h

theorem foldlM_putPair (trim : Bool) {es : List (JavaString × JavaString)}
    (hnodup : (es.map Prod.fst).Nodup) (hes : ∀ e ∈ es, Returns e)
    (decodedMap : JavaString → Option JavaString) :
    (es.map encodePair).foldlM (putPair replace trim '=') decodedMap =
      .ok fun key => (es.lookup key).or (decodedMap key) := by
  induction es generalizing decodedMap with
  | nil => rfl
  | cons e es ih =>
    rw [List.map_cons, List.nodup_cons] at hnodup
    rw [List.forall_mem_cons] at hes
    obtain ⟨⟨⟨hkey, htextKey⟩, hvalue, htextValue⟩, hes⟩ := hes
    have hput : putPair replace trim '=' decodedMap (encodePair e) =
        .ok (Function.update decodedMap e.1 (some e.2)) := by
      rw [putPair_encodePair, List.isEmpty_eq_false_iff.mpr hkey,
        List.isEmpty_eq_false_iff.mpr hvalue, (units_decode_iff _).mpr htextKey,
        (units_decode_iff _).mpr htextValue]
      rfl
    rw [List.map_cons, List.foldlM_cons, hput]
    refine (ih hnodup.2 hes _).trans (congrArg Except.ok (funext fun key => ?_))
    -- the head is put first, so that a later pair of its key would win; there is none
    rcases eq_or_ne key e.1 with rfl | hne
    · rw [EntryList.lookup_eq_none hnodup.1, Option.none_or, Function.update_self,
        EntryList.lookup_cons_self, Option.some_or]
    · rw [Function.update_of_ne hne, EntryList.lookup_cons_of_ne hne]

theorem strToMap_mapToStr (trim : Bool) {m : PairMap} (hne : m.entries ≠ []) :
    strToMapTrimmed replace (mapToStr m) trim =
      ((m.entries.map encodePair).foldlM (putPair replace trim '=') fun _ => none).map some := by
  have hpair : ∀ e, encodePair e ≠ [] := fun e =>
    List.append_ne_nil_of_right_ne_nil _ (List.cons_ne_nil _ _)
  -- the encoder leaves no bar in a key or a value, so that the only bars are separators
  have hpieces : ∀ piece ∈ m.entries.map encodePair, '|' ∉ piece ∧ piece ≠ [] := by
    intro piece hpiece
    obtain ⟨e, -, rfl⟩ := List.mem_map.mp hpiece
    refine ⟨fun hbar => ?_, hpair e⟩
    rcases List.mem_append.mp hbar with hbar | hbar
    · exact (fits_of_mem_urlEncode hbar).2.1 rfl
    · rcases List.mem_cons.mp hbar with hbar | hbar
      · exact absurd hbar (by decide)
      · exact (fits_of_mem_urlEncode hbar).2.1 rfl
  have htokens : Text.tokens '|' (mapToStr m) = m.entries.map encodePair :=
    Text.tokens_intercalate hpieces
  have hmap : m.entries.map encodePair ≠ [] := fun h => hne (List.map_eq_nil_iff.mp h)
  have hstr : mapToStr m ≠ [] := by
    intro h
    rw [h] at htokens
    exact hmap htokens.symm
  rw [strToMapTrimmed, strToMap, List.isEmpty_eq_false_iff.mpr hstr, split, htokens,
    List.isEmpty_eq_false_iff.mpr hmap]
  rfl

/-- **A map comes back exactly if** it is not empty, none of its strings is, and its strings are
texts of characters. -/
theorem strToMap_mapToStr_iff (trim : Bool) (m : PairMap) :
    strToMapTrimmed replace (mapToStr m) trim = .ok (some m.get) ↔
      m.entries ≠ [] ∧ ∀ e ∈ m.entries, Returns e := by
  constructor
  · intro h
    have hne : m.entries ≠ [] := by
      intro hnil
      rw [mapToStr, hnil] at h
      cases h
    refine ⟨hne, fun e he => ?_⟩
    rw [strToMap_mapToStr replace trim hne] at h
    -- the loop cannot have thrown, and what it returns is the map itself
    cases hfold : (m.entries.map encodePair).foldlM (putPair replace trim '=') fun _ => none with
    | error err =>
      rw [hfold] at h
      cases h
    | ok newMap =>
      rw [hfold] at h
      have hget : newMap = m.get := Option.some.inj (Except.ok.inj h)
      refine returns_of_foldlM replace (fun k v hv => ?_) hfold e.1 e.2 ?_
      · cases hv
      · rw [hget]
        exact EntryList.lookup_of_mem m.nodup he
  · rintro ⟨hne, hes⟩
    rw [strToMap_mapToStr replace trim hne, foldlM_putPair replace trim m.nodup hes]
    refine congrArg (fun f => Except.ok (some f)) (funext fun key => ?_)
    exact Option.or_none

end Decoder

def emptyValue : PairMap := ⟨[(units "a".toList, [])], List.nodup_singleton _⟩

/-- **The key is lost**: the tokens of its pair are one. -/
theorem strToMap_emptyValue :
    strToMapTrimmed (fun _ => []) (mapToStr emptyValue) false ≠ .ok (some emptyValue.get) := by
  have hput : putPair (fun _ => []) false '=' (fun _ => none) (encodePair (units "a".toList, [])) =
      .ok fun _ => none := by
    rw [putPair_encodePair]
    rfl
  have hne : emptyValue.entries ≠ [] := List.cons_ne_nil _ _
  rw [strToMap_mapToStr (fun _ => []) false hne]
  rw [emptyValue, List.map_singleton, List.foldlM_cons, hput]
  intro h
  have hget := congrFun (Option.some.inj (Except.ok.inj h)) (units "a".toList)
  exact absurd hget (by decide)

end OfficeAuto.Base.StringUtil
