import Mathlib.Algebra.Ring.Nat
import Mathlib.Data.List.Nodup
import OfficeAuto.Logic.Result
import OfficeAuto.Text.Decimal

/-!
# Enumerations

The members of an enumeration type are rows of an entity, such as `Enumeration` or `StatusItem`,
or they stand in the definition of the type. A column with the key of a row is read as the value of
a member by `getPropertyFromEnumField`, and the value is turned back into a key by
`Util.getEnumIdFromValue`.

If the entity has the field `sequenceId` the value is the number of this text, and the way back
looks for the row with the text of the number, which has a zero put before a single digit. Otherwise
the value is the place of the row among those of the type.  `comesBack_iff` says which keys come
back.
-/

namespace OfficeAuto.Odata

/-! ### Types -/

/-- An entity with the rows of an enumeration, in the order of their keys, which are unique. The
number of rows in a list is an `int`. -/
structure EnumEntity (R : Type) where
  allFieldNames : List String
  rows : List R
  pkValue : R → List Char
  sequenceId : R → Option (List Char)
  nodup : (rows.map pkValue).Nodup
  length_lt : rows.length < 2 ^ 31

/-- A member that stands in the definition, with the text of its value. -/
structure EnumMember where
  name : List Char
  value : List Char

structure OfbizEnumType (R : Type) where
  ofbizEntity : Option (EnumEntity R)
  entityCondition : Option (R → Bool)
  members : List EnumMember

inductive EnumException
  | nullPointer
  | numberFormat
  | illegalArgument
  | indexOutOfBounds
  deriving DecidableEq

variable {R : Type}

namespace EnumEntity

variable (entity : EnumEntity R)

def hasSequenceId : Bool := entity.allFieldNames.contains "sequenceId"

def findOne (enumId : List Char) : Option R :=
  entity.rows.find? fun row => entity.pkValue row = enumId

def findList (condition : R → Bool) : List R := entity.rows.filter condition

end EnumEntity

def OfbizEnumType.selects (enumType : OfbizEnumType R) (row : R) : Bool :=
  enumType.entityCondition.all fun condition => condition row

/-! ### Reading and writing -/

def IsInt (n : ℤ) : Prop := -2 ^ 31 ≤ n ∧ n < 2 ^ 31

instance (n : ℤ) : Decidable (IsInt n) := inferInstanceAs (Decidable (_ ∧ _))

/-- `Integer.parseInt`. -/
def parseInt (s : List Char) : Except EnumException ℤ :=
  match (Decimal.readInt s).filter fun n => IsInt n with
  | some n => .ok n
  | none => .error .numberFormat

/-- `Long.valueOf`. -/
def parseLong (s : List Char) : Except EnumException ℤ :=
  match Decimal.readLong s with
  | some n => .ok n
  | none => .error .numberFormat

/-- `getPropertyFromEnumField`: the value of the property. Without one the field is left. -/
def getPropertyFromEnumField (enumType : OfbizEnumType R) (enumId : List Char) :
    Except EnumException (Option ℤ) :=
  match enumType.ofbizEntity with
  | some entity =>
    if entity.hasSequenceId then
      match entity.findOne enumId with
      | none => .error .nullPointer
      | some enumeration =>
        match entity.sequenceId enumeration with
        -- `Integer.parseInt` of null
        | none => .error .numberFormat
        | some sequenceId => (parseInt sequenceId).map some
    else
      .ok (((entity.findList enumType.selects).findIdx? fun enumeration =>
        entity.pkValue enumeration = enumId).map fun index : ℕ => (index : ℤ) + 1)
  | none =>
    match enumType.members.find? fun member => member.name = enumId with
    | some member => (parseLong member.value).map some
    | none => .ok none

def sequenceText (valueString : List Char) : List Char :=
  -- a sequence of one digit is expected to stand with a zero before it
  if valueString.length = 1 then '0' :: valueString else valueString

/-- `Util.getEnumIdFromValue`. Without an entity its model cannot be found. -/
def getEnumIdFromValue (enumType : OfbizEnumType R) (valueString : List Char) :
    Except EnumException (Option (List Char)) :=
  match enumType.ofbizEntity with
  | none => .error .illegalArgument
  | some entity =>
    if entity.hasSequenceId then
      let enumerations := entity.findList fun row =>
        enumType.selects row && entity.sequenceId row = some (sequenceText valueString)
      .ok (enumerations.head?.map entity.pkValue)
    else
      let enumerations := entity.findList enumType.selects
      if enumerations.isEmpty then .ok none
      else do
        let index ← parseInt valueString
        match enumerations[(index - 1).toNat]? with
        | some enumeration =>
          -- `index - 1` as a natural number would be the first row
          if index < 1 then .error .indexOutOfBounds
          else pure (some (entity.pkValue enumeration))
        | none => .error .indexOutOfBounds

/-! ### The way back -/

def ComesBack (enumType : OfbizEnumType R) (enumId : List Char) : Prop :=
  ∃ value, getPropertyFromEnumField enumType enumId = .ok (some value) ∧
    getEnumIdFromValue enumType (Decimal.showInt value) = .ok (some enumId)

/-- The key is that of a row of the type; and if the rows have sequences, the one of this row is
written as the way back writes numbers, and no row of the type before it has the same. -/
def KeepsKey (enumType : OfbizEnumType R) (enumId : List Char) : Prop :=
  ∃ entity, enumType.ofbizEntity = some entity ∧
    ∃ before row after, entity.rows = before ++ row :: after ∧ entity.pkValue row = enumId ∧
      enumType.selects row = true ∧
      (entity.hasSequenceId = true →
        (∃ n, IsInt n ∧ entity.sequenceId row = some (sequenceText (Decimal.showInt n))) ∧
        ∀ earlier ∈ before, enumType.selects earlier = true →
          entity.sequenceId earlier ≠ entity.sequenceId row)

theorem parseInt_eq_ok_iff {s : List Char} {n : ℤ} :
    parseInt s = .ok n ↔ Decimal.readInt s = some n ∧ IsInt n := by
  unfold parseInt
  cases hread : Decimal.readInt s with
  | none => exact iff_of_false (fun h => by cases h) fun h => by cases h.1
  | some m =>
    by_cases hm : IsInt m
    · rw [Option.filter_some, if_pos (by simpa using hm), Option.some.injEq]
      exact ⟨fun h => by cases h; exact ⟨rfl, hm⟩, fun h => congrArg _ h.1⟩
    · rw [Option.filter_some, if_neg (by simpa using hm)]
      refine iff_of_false (fun h => by cases h) fun h => hm ?_
      rw [Option.some.inj h.1]
      exact h.2

theorem readInt_zero_cons {s : List Char} (hs : Decimal.isDigits s = true) :
    Decimal.readInt ('0' :: s) = Decimal.readInt s := by
  have hzero : Decimal.isDigits ('0' :: s) = true := by
    rw [Decimal.isDigits_iff] at hs ⊢
    exact ⟨List.forall_mem_cons.mpr ⟨by decide, hs.1⟩, List.cons_ne_nil _ _⟩
  have hread := @Decimal.readInt_signText false s hs
  have hread' := @Decimal.readInt_signText false ('0' :: s) hzero
  rw [Decimal.signText, if_neg Bool.false_ne_true, List.nil_append] at hread hread'
  rw [hread, hread']
  rfl

theorem isDigits_showInt_of_length {n : ℤ} (h : (Decimal.showInt n).length = 1) :
    Decimal.isDigits (Decimal.showInt n) = true := by
  have hpos : 0 < (Nat.toDigits 10 n.natAbs).length :=
    List.length_pos_of_ne_nil Nat.toDigits_ne_nil
  rw [Decimal.showInt, List.length_append] at h
  have hsign : Decimal.signText (n < 0) = [] := List.eq_nil_of_length_eq_zero (by omega)
  rw [Decimal.showInt, hsign, List.nil_append]
  exact Decimal.isDigits_toDigits

theorem readInt_sequenceText (n : ℤ) :
    Decimal.readInt (sequenceText (Decimal.showInt n)) = some n := by
  unfold sequenceText
  split_ifs with hlength
  · rw [readInt_zero_cons (isDigits_showInt_of_length hlength), Decimal.readInt_showInt]
  · exact Decimal.readInt_showInt n

section Entity

variable {enumType : OfbizEnumType R} {entity : EnumEntity R} {enumId : List Char} {value : ℤ}

theorem EnumEntity.row_unique (entity : EnumEntity R) {row row' : R} (h : row ∈ entity.rows)
    (h' : row' ∈ entity.rows) (hkey : entity.pkValue row = entity.pkValue row') : row = row' :=
  List.inj_on_of_nodup_map entity.nodup h h' hkey

theorem EnumEntity.findOne_pkValue (entity : EnumEntity R) {row : R} (h : row ∈ entity.rows) :
    entity.findOne (entity.pkValue row) = some row := by
  obtain ⟨row', hfind⟩ : ∃ row', entity.findOne (entity.pkValue row) = some row' :=
    Option.isSome_iff_exists.mp (List.find?_isSome.mpr ⟨row, h, decide_eq_true rfl⟩)
  have hkey : entity.pkValue row' = entity.pkValue row := by simpa using List.find?_some hfind
  rw [hfind, entity.row_unique (List.mem_of_find?_eq_some hfind) h hkey]

theorem getPropertyFromEnumField_sequence (hentity : enumType.ofbizEntity = some entity)
    (hsequence : entity.hasSequenceId = true) {row : R} (h : row ∈ entity.rows) (n : ℤ)
    (hn : entity.sequenceId row = some (sequenceText (Decimal.showInt n))) :
    getPropertyFromEnumField enumType (entity.pkValue row) = .ok (some value) ↔
      n = value ∧ IsInt value := by
  simp only [getPropertyFromEnumField, hentity, hsequence, if_true, entity.findOne_pkValue h, hn]
  rw [Except.map_eq_ok]
  constructor
  · rintro ⟨m, hm, hvalue⟩
    obtain rfl : m = value := Option.some.inj hvalue
    obtain ⟨hread, hint⟩ := parseInt_eq_ok_iff.mp hm
    rw [readInt_sequenceText] at hread
    exact ⟨Option.some.inj hread, hint⟩
  · rintro ⟨rfl, hint⟩
    exact ⟨n, parseInt_eq_ok_iff.mpr ⟨readInt_sequenceText n, hint⟩, rfl⟩

/-- **With sequences**: a key is read as a value, and comes back from it. -/
theorem comesBack_sequence_iff (hentity : enumType.ofbizEntity = some entity)
    (hsequence : entity.hasSequenceId = true) :
    ComesBack enumType enumId ↔ ∃ before row after, entity.rows = before ++ row :: after ∧
      entity.pkValue row = enumId ∧ enumType.selects row = true ∧
      (∃ n, IsInt n ∧ entity.sequenceId row = some (sequenceText (Decimal.showInt n))) ∧
      ∀ earlier ∈ before, enumType.selects earlier = true →
        entity.sequenceId earlier ≠ entity.sequenceId row := by
  have hback (value : ℤ) : getEnumIdFromValue enumType (Decimal.showInt value) =
      .ok ((entity.rows.find? fun row => enumType.selects row &&
        entity.sequenceId row = some (sequenceText (Decimal.showInt value))).map
          entity.pkValue) := by
    simp only [getEnumIdFromValue, hentity, hsequence, if_true, EnumEntity.findList,
      List.head?_filter]
  constructor
  · rintro ⟨value, hread, hwrite⟩
    rw [hback, Except.ok.injEq, Option.map_eq_some_iff] at hwrite
    obtain ⟨row, hfind, hkey⟩ := hwrite
    obtain ⟨hrow, before, after, hrows, hbefore⟩ := List.find?_eq_some_iff_append.mp hfind
    rw [Bool.and_eq_true, decide_eq_true_eq] at hrow
    obtain ⟨hselects, hvalue⟩ := hrow
    have hmem : row ∈ entity.rows := List.mem_of_find?_eq_some hfind
    rw [← hkey] at hread
    obtain ⟨-, hint⟩ :=
      (getPropertyFromEnumField_sequence hentity hsequence hmem value hvalue).mp hread
    refine ⟨before, row, after, hrows, hkey, hselects, ⟨value, hint, hvalue⟩, ?_⟩
    · intro earlier hearlier hsel heq
      have := hbefore earlier hearlier
      rw [hsel, heq, hvalue] at this
      simp at this
  · rintro ⟨before, row, after, hrows, rfl, hselects, ⟨n, hn, hvalue⟩, hbefore⟩
    have hmem : row ∈ entity.rows := by rw [hrows]; simp
    have hread := (getPropertyFromEnumField_sequence hentity hsequence hmem n hvalue).mpr ⟨rfl, hn⟩
    refine ⟨n, hread, ?_⟩
    have hfind : (entity.rows.find? fun row => enumType.selects row &&
        entity.sequenceId row = some (sequenceText (Decimal.showInt n))) = some row := by
      refine List.find?_eq_some_iff_append.mpr
        ⟨by simp [hselects, hvalue], before, after, hrows, fun earlier hearlier => ?_⟩
      rw [Bool.not_eq_true', Bool.and_eq_false_iff, decide_eq_false_iff_not, ← hvalue]
      by_cases hsel : enumType.selects earlier = true
      · exact .inr (hbefore earlier hearlier hsel)
      · exact .inl (by simpa using hsel)
    rw [hback, hfind]
    rfl

/-- **Without sequences**: a key comes back from the place of its row. -/
theorem comesBack_place_iff (hentity : enumType.ofbizEntity = some entity)
    (hsequence : entity.hasSequenceId = false) :
    ComesBack enumType enumId ↔
      ∃ row ∈ entity.rows, entity.pkValue row = enumId ∧ enumType.selects row = true := by
  have hread : getPropertyFromEnumField enumType enumId =
      .ok (((entity.rows.filter enumType.selects).findIdx? fun row =>
        entity.pkValue row = enumId).map fun index : ℕ => (index : ℤ) + 1) := by
    simp only [getPropertyFromEnumField, hentity, hsequence, Bool.false_eq_true, if_false,
      EnumEntity.findList]
  have hmem (row : R) : row ∈ entity.rows.filter enumType.selects ↔
      row ∈ entity.rows ∧ enumType.selects row = true := List.mem_filter
  constructor
  · rintro ⟨value, hvalue, -⟩
    rw [hread, Except.ok.injEq, Option.map_eq_some_iff] at hvalue
    obtain ⟨index, hindex, -⟩ := hvalue
    obtain ⟨hlt, hkey, -⟩ := List.findIdx?_eq_some_iff_getElem.mp hindex
    have hrow := (hmem _).mp (List.getElem_mem hlt)
    exact ⟨_, hrow.1, by simpa using hkey, hrow.2⟩
  · rintro ⟨row, hrow, rfl, hselects⟩
    obtain ⟨index, hindex⟩ : ∃ index, (entity.rows.filter enumType.selects).findIdx?
        (fun other => entity.pkValue other = entity.pkValue row) = some index := by
      refine Option.isSome_iff_exists.mp (List.findIdx?_isSome.trans ?_)
      exact List.any_eq_true.mpr ⟨row, (hmem row).mpr ⟨hrow, hselects⟩, decide_eq_true rfl⟩
    obtain ⟨hlt, hkey, -⟩ := List.findIdx?_eq_some_iff_getElem.mp hindex
    have hint : IsInt ((index : ℤ) + 1) := by
      have hlength := List.length_filter_le enumType.selects entity.rows
      have hmax := entity.length_lt
      unfold IsInt
      omega
    have hparse : parseInt (Decimal.showInt ((index : ℤ) + 1)) = .ok ((index : ℤ) + 1) :=
      parseInt_eq_ok_iff.mpr ⟨Decimal.readInt_showInt _, hint⟩
    have hplace : ((index : ℤ) + 1 - 1).toNat = index := by omega
    have hne : (entity.rows.filter enumType.selects).isEmpty = false := by
      rw [List.isEmpty_eq_false_iff]
      exact List.ne_nil_of_mem ((hmem row).mpr ⟨hrow, hselects⟩)
    refine ⟨(index : ℤ) + 1, by rw [hread, hindex]; rfl, ?_⟩
    simp only [getEnumIdFromValue, hentity, hsequence, Bool.false_eq_true, if_false,
      EnumEntity.findList, hne, hparse]
    have hbind (f : ℤ → Except EnumException (Option (List Char))) :
        (Except.ok ((index : ℤ) + 1) >>= f) = f ((index : ℤ) + 1) := rfl
    rw [hbind, hplace, List.getElem?_eq_getElem hlt]
    dsimp only
    rw [if_neg (by omega), of_decide_eq_true hkey]
    rfl

end Entity

/-- **A key of an enumeration comes back** from the member that it is read as exactly if it is the
key of a row of the type, and with sequences the first one with its number, which is written in two
digits at least. -/
theorem comesBack_iff (enumType : OfbizEnumType R) (enumId : List Char) :
    ComesBack enumType enumId ↔ KeepsKey enumType enumId := by
  cases hentity : enumType.ofbizEntity with
  | none =>
    refine iff_of_false ?_ ?_
    · rintro ⟨value, -, hwrite⟩
      rw [getEnumIdFromValue, hentity] at hwrite
      cases hwrite
    · rintro ⟨entity, hsome, -⟩
      rw [hentity] at hsome
      cases hsome
  | some entity =>
    have hkeeps : KeepsKey enumType enumId ↔
        ∃ before row after, entity.rows = before ++ row :: after ∧ entity.pkValue row = enumId ∧
          enumType.selects row = true ∧ (entity.hasSequenceId = true →
            (∃ n, IsInt n ∧ entity.sequenceId row = some (sequenceText (Decimal.showInt n))) ∧
            ∀ earlier ∈ before, enumType.selects earlier = true →
              entity.sequenceId earlier ≠ entity.sequenceId row) := by
      rw [KeepsKey, hentity]
      exact ⟨fun ⟨_, hsome, h⟩ => Option.some.inj hsome ▸ h, fun h => ⟨entity, rfl, h⟩⟩
    rw [hkeeps]
    cases hsequence : entity.hasSequenceId with
    | true =>
      simpa only [forall_const] using comesBack_sequence_iff hentity hsequence
    | false =>
      rw [comesBack_place_iff hentity hsequence]
      constructor
      · rintro ⟨row, hrow, hkey, hselects⟩
        obtain ⟨before, after, hrows⟩ := List.append_of_mem hrow
        exact ⟨before, row, after, hrows, hkey, hselects, fun h => absurd h Bool.false_ne_true⟩
      · rintro ⟨before, row, after, hrows, hkey, hselects, -⟩
        exact ⟨row, by rw [hrows]; simp, hkey, hselects⟩

/-! ### A sequence of one digit -/

abbrev EnumRow := List Char × Option (List Char)

def priorityRows : List EnumRow :=
  [("PRIO_HIGH".toList, some "1".toList), ("PRIO_LOW".toList, some "02".toList)]

theorem nodup_priorityRows : (priorityRows.map Prod.fst).Nodup := by decide

theorem length_priorityRows_lt : priorityRows.length < 2 ^ 31 := by decide

def priorityType : OfbizEnumType EnumRow where
  ofbizEntity := some
    { allFieldNames := ["enumId", "sequenceId"]
      rows := priorityRows
      pkValue := Prod.fst
      sequenceId := Prod.snd
      nodup := nodup_priorityRows
      length_lt := length_priorityRows_lt }
  entityCondition := none
  members := []

theorem not_comesBack_priorityHigh : ¬ ComesBack priorityType "PRIO_HIGH".toList := by
  rintro ⟨value, hread, hwrite⟩
  have hvalue : getPropertyFromEnumField priorityType "PRIO_HIGH".toList = .ok (some 1) := rfl
  rw [hvalue, Except.ok.injEq, Option.some.injEq] at hread
  subst hread
  have hnone : getEnumIdFromValue priorityType (Decimal.showInt 1) = .ok none := rfl
  rw [hnone, Except.ok.injEq] at hwrite
  cases hwrite

/-- The sequence of the other row has two digits. -/
example : ComesBack priorityType "PRIO_LOW".toList := ⟨2, rfl, rfl⟩

end OfficeAuto.Odata
