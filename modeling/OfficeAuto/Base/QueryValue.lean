import OfficeAuto.Base.ReplaceString
import OfficeAuto.Text.Escape

/-!
# Values of query strings

`UtilFormatOut.encodeQueryValue` replaces percent signs, blanks and the delimiters of a query string
by their escapes, percent signs first. `decodeQueryValue` replaces the escapes of percent signs
first too, and so reads the other escapes also where they were in the value before it was encoded.
**A value comes back exactly if it has none of these escapes**
(`decodeQueryValue_encodeQueryValue_iff`).
-/

namespace OfficeAuto.Base.UtilFormatOut

open Text StringUtil

/-! ### The code -/

def replaceString (mainString : Option (List Char)) (oldString newString : String) :
    Option (List Char) :=
  StringUtil.replaceString mainString (some oldString.toList) (some newString.toList)

def encodeQueryValue (query : Option (List Char)) : Option (List Char) :=
  let retString := replaceString query "%" "%25"
  let retString := replaceString retString " " "%20"
  let retString := replaceString retString "&" "%26"
  let retString := replaceString retString "?" "%3F"
  replaceString retString "=" "%3D"

def decodeQueryValue (query : Option (List Char)) : Option (List Char) :=
  let retString := replaceString query "%25" "%"
  let retString := replaceString retString "%20" " "
  let retString := replaceString retString "%26" "&"
  let retString := replaceString retString "%3F" "?"
  replaceString retString "%3D" "="

/-! ### The round trip -/

/-- The characters that are used for other things in query strings, with their escapes. -/
def escapes : List (Char × List Char) :=
  [(' ', "20".toList), ('&', "26".toList), ('?', "3F".toList), ('=', "3D".toList)]

def allEscapes : List (Char × List Char) := ('%', "25".toList) :: escapes

theorem lookup_of_mem {escape : Char × List Char} (hescape : escape ∈ allEscapes) {x : Char}
    (hx : x ∈ '%' :: escape.2) : escapes.lookup x = none := by
  have hall : (allEscapes.all fun escape => ('%' :: escape.2).all fun x =>
      (escapes.lookup x).isNone) = true := by decide
  exact Option.isNone_iff_eq_none.mp
    (List.all_eq_true.mp (List.all_eq_true.mp hall escape hescape) x hx)

theorem wellFormed_escapes : WellFormed '%' 2 escapes where
  length := by decide
  notMem := by decide
  plain _ hescape _ hx := lookup_of_mem (List.mem_cons_of_mem _ hescape) hx
  nodupKeys := by decide
  nodupTails := by decide

theorem replaceString_some (oldString newString : String) {c : Char} {tail : List Char}
    (hold : oldString.toList = c :: tail) (hc : c ∉ tail) (main : List Char) :
    replaceString (some main) oldString newString =
      some (replaceAll (c :: tail) newString.toList main) := by
  rw [replaceString, hold, replaceString_eq (List.cons_ne_nil c tail),
    replacedTail_eq_replaceAll (List.cons_ne_nil c tail) (noOverlap_of_head hc main)]
  rfl

theorem encodeQueryValue_some (s : List Char) :
    encodeQueryValue (some s) = some (escape '%' allEscapes s) := by
  have hpercent : ∀ x ∈ '%' :: "25".toList, escapes.lookup x = none := fun x hx =>
    lookup_of_mem List.mem_cons_self hx
  rw [allEscapes, ← escape_escape hpercent, ← escape_singleton,
    ← escapeAll_eq_escape wellFormed_escapes, encodeQueryValue,
    replaceString_some "%" "%25" rfl List.not_mem_nil,
    replaceString_some " " "%20" rfl List.not_mem_nil,
    replaceString_some "&" "%26" rfl List.not_mem_nil,
    replaceString_some "?" "%3F" rfl List.not_mem_nil,
    replaceString_some "=" "%3D" rfl List.not_mem_nil]
  rfl

theorem decodeQueryValue_escape (s : List Char) :
    decodeQueryValue (some (escape '%' allEscapes s)) = some (unescapeAll '%' escapes s) := by
  have hread : replaceAll ('%' :: "25".toList) "%".toList (escape '%' allEscapes s) =
      escape '%' escapes s :=
    replaceAll_escape_self wellFormed_escapes rfl (by decide) (by decide) (by decide) s
  rw [← unescapeAll_escape wellFormed_escapes, ← hread, decodeQueryValue,
    replaceString_some "%25" "%" rfl (by decide), replaceString_some "%20" " " rfl (by decide),
    replaceString_some "%26" "&" rfl (by decide), replaceString_some "%3F" "?" rfl (by decide),
    replaceString_some "%3D" "=" rfl (by decide)]
  rfl

/-- The encoded value has none of the delimiters, and is decoded to the value. -/
def ComesBack (s : List Char) : Prop :=
  ∃ encoded, encodeQueryValue (some s) = some encoded ∧ (∀ c ∈ " &?=".toList, c ∉ encoded) ∧
    decodeQueryValue (some encoded) = some s

/-- **A value comes back exactly if it has no escape that is read after that of the percent
sign.** -/
theorem decodeQueryValue_encodeQueryValue_iff (s : List Char) :
    ComesBack s ↔
      ∀ escape ∈ ["%20".toList, "%26".toList, "%3F".toList, "%3D".toList], ¬escape <:+: s := by
  have hescapes : ∀ escape ∈ escapes, escape.2 ≠ [] := by decide
  have hoccurs : (∀ escape ∈ ["%20".toList, "%26".toList, "%3F".toList, "%3D".toList],
      ¬escape <:+: s) ↔ unescapeAll '%' escapes s = s := by
    have htexts : ["%20".toList, "%26".toList, "%3F".toList, "%3D".toList] =
        escapes.map fun escape => '%' :: escape.2 := rfl
    rw [htexts, List.forall_mem_map, unescapeAll_eq_self_iff hescapes]
  have hplain : ∀ c ∈ " &?=".toList, c ∉ escape '%' allEscapes s := by
    have hall : (" &?=".toList.all fun c =>
        (allEscapes.lookup c).isSome && (escapes.lookup c).isSome) = true := by decide
    intro c hc
    obtain ⟨hsome, hescaped⟩ := Bool.and_eq_true_iff.mp (List.all_eq_true.mp hall c hc)
    refine notMem_escape hsome fun escape hescape hmem => ?_
    rw [lookup_of_mem hescape hmem] at hescaped
    cases hescaped
  rw [hoccurs, ← Option.some_inj, ← decodeQueryValue_escape]
  constructor
  · rintro ⟨encoded, hencode, -, hdecode⟩
    obtain rfl := Option.some.inj ((encodeQueryValue_some s).symm.trans hencode)
    exact hdecode
  · exact fun hdecode => ⟨_, encodeQueryValue_some s, hplain, hdecode⟩

theorem not_comesBack_blank :
    decodeQueryValue (encodeQueryValue (some "%20".toList)) = some " ".toList ∧
      ¬ComesBack "%20".toList := by
  have hdecode : decodeQueryValue (encodeQueryValue (some "%20".toList)) = some " ".toList := by
    rw [encodeQueryValue_some, decodeQueryValue_escape]
    decide
  refine ⟨hdecode, ?_⟩
  rintro ⟨encoded, hencode, -, hback⟩
  rw [hencode, hback] at hdecode
  exact absurd hdecode (by decide)

end OfficeAuto.Base.UtilFormatOut
