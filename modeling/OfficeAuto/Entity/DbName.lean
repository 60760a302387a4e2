import Mathlib.Data.List.Nodup

/-!
# Names of columns

`ModelUtil.javaNameToDbName` makes the name of a column of the name of a field: capitals, with an
underscore before each letter that has been one already. `dbNameToVarName` goes back: small letters,
but a capital after each underscore.

A field name in the Java convention starts with a small letter and has only ASCII letters and
digits. **Such a name comes back from its column name** (`dbNameToVarName_javaNameToDbName`), so
that no two of them have one column. What the two functions make of other characters is left open:
of the case mapping of the platform, `LetterCase` says what it does to ASCII letters and digits.
-/

namespace OfficeAuto.Entity.ModelUtil

/-! ### Letters -/

def IsLower (c : Char) : Prop := 'a' ≤ c ∧ c ≤ 'z'

def IsUpper (c : Char) : Prop := 'A' ≤ c ∧ c ≤ 'Z'

def IsDigit (c : Char) : Prop := '0' ≤ c ∧ c ≤ '9'

/-- `Character.toUpperCase`, `Character.toLowerCase` and `Character.isUpperCase`, with what they are
for ASCII letters and digits. -/
structure LetterCase where
  toUpperCase : Char → Char
  toLowerCase : Char → Char
  isUpperCase : Char → Bool
  isUpper_toUpperCase : ∀ c, IsLower c → IsUpper (toUpperCase c)
  toLowerCase_toUpperCase : ∀ c, IsLower c → toLowerCase (toUpperCase c) = c
  toUpperCase_of_isUpper : ∀ c, IsUpper c → toUpperCase c = c
  toUpperCase_of_isDigit : ∀ c, IsDigit c → toUpperCase c = c
  toLowerCase_of_isDigit : ∀ c, IsDigit c → toLowerCase c = c
  isUpperCase_of_isUpper : ∀ c, IsUpper c → isUpperCase c = true
  isUpperCase_of_isLower : ∀ c, IsLower c → isUpperCase c = false
  isUpperCase_of_isDigit : ∀ c, IsDigit c → isUpperCase c = false

def charRange (lo hi : Char) : List Char :=
  (List.range' lo.toNat (hi.toNat + 1 - lo.toNat)).map Char.ofNat

theorem mem_charRange {lo hi c : Char} (h : lo ≤ c ∧ c ≤ hi) : c ∈ charRange lo hi := by
  have hlower : lo.toNat ≤ c.toNat := h.1
  have hupper : c.toNat ≤ hi.toNat := h.2
  refine List.mem_map.mpr ⟨c.toNat, List.mem_range'_1.mpr ⟨hlower, by omega⟩, ?_⟩
  exact Char.ofNat_toNat c

theorem of_all_charRange {lo hi : Char} {p : Char → Prop} [DecidablePred p]
    (h : (charRange lo hi).all (fun c => decide (p c)) = true) {c : Char}
    (hc : lo ≤ c ∧ c ≤ hi) : p c :=
  of_decide_eq_true (List.all_eq_true.mp h c (mem_charRange hc))

/-- The case mapping of ASCII, which leaves all other characters as they are. -/
def LetterCase.ascii : LetterCase where
  toUpperCase := Char.toUpper
  toLowerCase := Char.toLower
  isUpperCase := Char.isUpper
  isUpper_toUpperCase _ h :=
    of_all_charRange (p := fun c => 'A' ≤ c.toUpper ∧ c.toUpper ≤ 'Z') (by decide) h
  toLowerCase_toUpperCase _ h :=
    of_all_charRange (p := fun c => c.toUpper.toLower = c) (by decide) h
  toUpperCase_of_isUpper _ h := of_all_charRange (p := fun c => c.toUpper = c) (by decide) h
  toUpperCase_of_isDigit _ h := of_all_charRange (p := fun c => c.toUpper = c) (by decide) h
  toLowerCase_of_isDigit _ h := of_all_charRange (p := fun c => c.toLower = c) (by decide) h
  isUpperCase_of_isUpper _ h := of_all_charRange (p := fun c => c.isUpper = true) (by decide) h
  isUpperCase_of_isLower _ h := of_all_charRange (p := fun c => c.isUpper = false) (by decide) h
  isUpperCase_of_isDigit _ h := of_all_charRange (p := fun c => c.isUpper = false) (by decide) h

variable (L : LetterCase)

/-! ### The code -/

def varNameLoop : Bool → List Char → List Char
  | _, [] => []
  | toUpper, ch :: columnName =>
    if ch = '_' then varNameLoop true columnName
    else if toUpper then L.toUpperCase ch :: varNameLoop false columnName
    else L.toLowerCase ch :: varNameLoop false columnName

def dbNameToVarName (columnName : Option (List Char)) : Option (List Char) :=
  columnName.map (varNameLoop L false)

def dbChar (curChar : Char) : List Char :=
  (if L.isUpperCase curChar then ['_'] else []) ++ [L.toUpperCase curChar]

def javaNameToDbName : Option (List Char) → Option (List Char)
  | none => none
  | some [] => some []
  | some (first :: rest) => some (L.toUpperCase first :: rest.flatMap (dbChar L))

/-- The column of a field, in `ModelField.create`: the one that is given, or the one that is made
of the name. -/
def colName (name : List Char) (given : List Char) : Option (List Char) :=
  if given.isEmpty then javaNameToDbName L (some name) else some given

/-! ### The way back -/

/-- The name of a field in the Java convention. -/
structure JavaName where
  first : Char
  rest : List Char
  isLower_first : IsLower first
  alphanumeric : ∀ c ∈ rest, IsLower c ∨ IsUpper c ∨ IsDigit c

def JavaName.chars (n : JavaName) : List Char := n.first :: n.rest

theorem JavaName.ext_chars {m n : JavaName} (h : m.chars = n.chars) : m = n := by
  cases m
  cases n
  cases h
  rfl

theorem IsUpper.ne_underscore {c : Char} (h : IsUpper c) : c ≠ '_' := by
  rintro rfl
  exact absurd h.2 (by decide)

theorem IsDigit.ne_underscore {c : Char} (h : IsDigit c) : c ≠ '_' := by
  rintro rfl
  exact absurd h.2 (by decide)

variable {L}

theorem varNameLoop_dbChar {c : Char} (h : IsLower c ∨ IsUpper c ∨ IsDigit c)
    (columnName : List Char) :
    varNameLoop L false (dbChar L c ++ columnName) = c :: varNameLoop L false columnName := by
  rw [dbChar]
  obtain h | h | h := h
  · rw [if_neg (Bool.eq_false_iff.mp (L.isUpperCase_of_isLower c h)), List.nil_append,
      List.singleton_append, varNameLoop, if_neg (L.isUpper_toUpperCase c h).ne_underscore,
      if_neg Bool.false_ne_true, L.toLowerCase_toUpperCase c h]
  · rw [if_pos (L.isUpperCase_of_isUpper c h), L.toUpperCase_of_isUpper c h, List.append_assoc,
      List.singleton_append, varNameLoop, if_pos rfl, List.singleton_append, varNameLoop,
      if_neg h.ne_underscore, if_pos rfl, L.toUpperCase_of_isUpper c h]
  · rw [if_neg (Bool.eq_false_iff.mp (L.isUpperCase_of_isDigit c h)), List.nil_append,
      L.toUpperCase_of_isDigit c h, List.singleton_append, varNameLoop, if_neg h.ne_underscore,
      if_neg Bool.false_ne_true, L.toLowerCase_of_isDigit c h]

theorem varNameLoop_flatMap {rest : List Char} (h : ∀ c ∈ rest, IsLower c ∨ IsUpper c ∨ IsDigit c) :
    varNameLoop L false (rest.flatMap (dbChar L)) = rest := by
  induction rest with
  | nil => rfl
  | cons c rest ih =>
    rw [List.forall_mem_cons] at h
    rw [List.flatMap_cons, varNameLoop_dbChar h.1, ih h.2]

theorem varNameLoop_javaName (n : JavaName) :
    varNameLoop L false (L.toUpperCase n.first :: n.rest.flatMap (dbChar L)) = n.chars := by
  rw [varNameLoop, if_neg (L.isUpper_toUpperCase _ n.isLower_first).ne_underscore,
    if_neg Bool.false_ne_true, L.toLowerCase_toUpperCase _ n.isLower_first,
    varNameLoop_flatMap n.alphanumeric, JavaName.chars]

/-- **A field name comes back from the name of its column**; so different fields have different
columns, and the fields of an entity for which no column is given have columns of their own. -/
theorem dbNameToVarName_javaNameToDbName (L : LetterCase) :
    (∀ n : JavaName,
      dbNameToVarName L (javaNameToDbName L (some n.chars)) = some n.chars) ∧
    (Function.Injective fun n : JavaName => javaNameToDbName L (some n.chars)) ∧
    ∀ fields : List JavaName, fields.Nodup → (fields.map fun n => colName L n.chars []).Nodup := by
  have hback : ∀ n : JavaName,
      dbNameToVarName L (javaNameToDbName L (some n.chars)) = some n.chars :=
    fun n => congrArg some (varNameLoop_javaName n)
  have hinjective : Function.Injective fun n : JavaName => javaNameToDbName L (some n.chars) := by
    intro m n hmn
    refine JavaName.ext_chars (Option.some.inj ?_)
    rw [← hback m, ← hback n]
    exact congrArg (dbNameToVarName L) hmn
  exact ⟨hback, hinjective, fun fields hfields => hfields.map hinjective⟩

example : javaNameToDbName .ascii (some "contactMechX2".toList) =
    some "CONTACT_MECH_X2".toList := by decide

end OfficeAuto.Entity.ModelUtil
