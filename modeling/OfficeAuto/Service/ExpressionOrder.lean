import Mathlib.Data.BitVec
import Mathlib.Tactic.Ring
import OfficeAuto.Logic.SortedSet
import OfficeAuto.Service.TemporalExpression

/-!
# The order of temporal expressions

`TemporalExpression.compareTo` returns 0 for expressions that are equal and compares the sequence
numbers of others. A sequence number is computed of a few parameters of an expression: of a range,
of its kind and its start. The classes of `TemporalExpressions` compare all parameters in `equals`,
but not the id, which `hashCode` collects. The members of an intersection or a union are kept in a
`TreeSet`, so that two sets are equal if the sequence numbers of their members are.

Expressions that are equal have the same sequence number (`sequence_eq_of_equals`), and the order is
thus the one of the sequence numbers (`compareTo_eq`): it is antisymmetric and transitive, and a
`TreeSet` has one member of a number. A list of children is kept, and compared consistently, if
children with the same number are the same expression up to the ids, and the ids weigh the same in
their hash codes (`isConsistent_iff`).
-/

namespace OfficeAuto.Service

/-! ### Expressions with their ids -/

/-- A starting date: a `java.util.Date` or a `Timestamp`, the latter with its nanoseconds. -/
inductive StartDate
  | date (time : ℤ)
  | timestamp (time : ℤ) (nanos : ℕ)
  deriving DecidableEq

namespace StartDate

def getTime : StartDate → ℤ
  | date time => time
  | timestamp time _ => time

def equals : StartDate → StartDate → Bool
  | date time, that => time == that.getTime
  | timestamp .., date _ => false
  | timestamp time nanos, timestamp time' nanos' => time == time' && nanos == nanos'

def hashCode (date : StartDate) : BitVec 32 :=
  BitVec.ofInt 32 date.getTime ^^^ BitVec.ofInt 32 (date.getTime / 2 ^ 32)

@[simp] theorem equals_self (date : StartDate) : date.equals date = true := by
  cases date <;> simp [equals, getTime]

end StartDate

def FrequencyType.code : FrequencyType → ℤ
  | second => 13
  | minute => 12
  | hour => 10
  | dayOfMonth => 5
  | month => 2
  | year => 1

/-- An expression without members. The range of dates is an object, whose hash code is the one of
`Object`. -/
inductive Leaf (ι : Type)
  | dateRange (range : DateRange) (object : ι)
  | dayInMonth (e : DayInMonth)
  | dayOfMonthRange (r : DayOfMonthRange)
  | dayOfWeekRange (r : DayOfWeekRange)
  | frequency (start : StartDate) (freqType : FrequencyType)
      (freqCount : {n : ℤ // 1 ≤ n ∧ n < 2 ^ 31})
  | hourRange (r : HourRange)
  | minuteRange (r : MinuteRange)
  | monthRange (r : MonthRange)
  | null

/-- A temporal expression with its id; the members of an intersection and a union in the order of
iteration. -/
inductive Expression (κ ι : Type)
  | leaf (id : Option κ) (e : Leaf ι)
  | difference (id : Option κ) (included excluded : Expression κ ι)
  | intersection (id : Option κ) (expressionSet : List (Expression κ ι))
  | substitution (id : Option κ) (included excluded substitute : Expression κ ι)
  | union (id : Option κ) (expressionSet : List (Expression κ ι))

variable {κ ι : Type}

/-! ### Sequence numbers -/

/-- `Integer.MAX_VALUE`, the number of an expression that is given no other. -/
def maxSequence : ℤ := 2 ^ 31 - 1

/-- From the smallest unit of time to the largest; a negative occurrence comes behind the positive
ones. -/
def Leaf.sequence : Leaf ι → ℤ
  | dateRange .. => 800
  | dayInMonth e =>
    let result := if e.occurrence < 0 then e.occurrence + 11 else e.occurrence
    460 + result * 10 + e.dayOfWeek
  | dayOfMonthRange r => 400 + r.start
  | dayOfWeekRange r => 450 + r.range.start
  | frequency _ freqType _ => 100 + freqType.code
  | hourRange r => 300 + r.range.start
  | minuteRange r => 200 + r.range.start
  | monthRange r => 600 + r.range.start
  | null => maxSequence

namespace Expression

/-- The loop of the constructor of an intersection, from the last member to the first, in 32
bits. -/
def aggregate : List ℤ → ℤ
  | [] => 0
  | n :: ns => (aggregate ns * 10 + n).bmod (2 ^ 32)

mutual

/-- **`sequence`**, as the constructors compute it. -/
def sequence : Expression κ ι → ℤ
  | leaf _ e => e.sequence
  | difference _ included _ => sequence included
  | intersection _ es => if es.isEmpty then maxSequence else aggregate (sequences es)
  | substitution _ included _ _ => sequence included
  | union _ es => (sequences es).headD maxSequence

def sequences : List (Expression κ ι) → List ℤ
  | [] => []
  | e :: es => sequence e :: sequences es

end

theorem sequences_eq (es : List (Expression κ ι)) : sequences es = es.map sequence := by
  induction es with
  | nil => rfl
  | cons e es ih => rw [sequences, ih, List.map_cons]

theorem sequence_intersection_congr {id id' : Option κ} {es fs : List (Expression κ ι)}
    (h : sequences es = sequences fs) :
    sequence (intersection id es) = sequence (intersection id' fs) := by
  have hempty : es.isEmpty = fs.isEmpty := by
    rw [sequences_eq, sequences_eq] at h
    rw [← List.isEmpty_map (f := sequence), h, List.isEmpty_map]
  rw [sequence, sequence, hempty, h]

theorem inductionOn {motive : Expression κ ι → Prop} (leaf : ∀ id e, motive (leaf id e))
    (difference : ∀ id included excluded, motive included → motive excluded →
      motive (difference id included excluded))
    (intersection : ∀ id es, (∀ e ∈ es, motive e) → motive (intersection id es))
    (substitution : ∀ id included excluded substitute, motive included → motive excluded →
      motive substitute → motive (substitution id included excluded substitute))
    (union : ∀ id es, (∀ e ∈ es, motive e) → motive (union id es)) (e : Expression κ ι) :
    motive e :=
  Expression.rec (motive_1 := motive) (motive_2 := fun es => ∀ e ∈ es, motive e)
    leaf difference intersection substitution union
    (fun _ he => absurd he List.not_mem_nil)
    (fun _ _ hhead htail _ he => (List.mem_cons.mp he).elim (fun h => h ▸ hhead) (htail _)) e

/-! ### `equals` and `compareTo` -/

section Equals

variable [DecidableEq κ]

/-- `equals` of two expressions without members, with their ids; `Null` has the method of the base
class, which compares the ids and the sequence numbers. -/
def leafEquals (id id' : Option κ) : Leaf ι → Leaf ι → Bool
  | .dateRange r _, .dateRange s _ => r.start == s.start && r.stop == s.stop
  | .dayInMonth e, .dayInMonth f => e.dayOfWeek == f.dayOfWeek && e.occurrence == f.occurrence
  | .dayOfMonthRange r, .dayOfMonthRange s => r.start == s.start && r.stop == s.stop
  | .dayOfWeekRange r, .dayOfWeekRange s =>
    r.range.start == s.range.start && r.range.stop == s.range.stop
  | .frequency start freqType freqCount, .frequency start' freqType' freqCount' =>
    start.equals start' && freqType == freqType' && freqCount.1 == freqCount'.1
  | .hourRange r, .hourRange s => r.range.start == s.range.start && r.range.stop == s.range.stop
  | .minuteRange r, .minuteRange s =>
    r.range.start == s.range.start && r.range.stop == s.range.stop
  | .monthRange r, .monthRange s => r.range.start == s.range.start && r.range.stop == s.range.stop
  | .null, .null => id == id'
  | _, _ => false

mutual

/-- **`equals`**: a cast to another class fails, and the expressions are not equal then. -/
def equals : Expression κ ι → Expression κ ι → Bool
  | leaf id e, leaf id' f => leafEquals id id' e f
  | difference _ included excluded, difference _ included' excluded' =>
    equals included included' && equals excluded excluded'
  | intersection _ es, intersection _ fs => fs.length == es.length && containsAll es fs
  | substitution _ included excluded substitute, substitution _ included' excluded' substitute' =>
    equals included included' && equals excluded excluded' && equals substitute substitute'
  | union _ es, union _ fs => fs.length == es.length && containsAll es fs
  | _, _ => false
termination_by a b => (sizeOf a + sizeOf b, 0)

def containsAll (es : List (Expression κ ι)) : List (Expression κ ι) → Bool
  | [] => true
  | f :: fs => contains es f && containsAll es fs
termination_by fs => (sizeOf es + sizeOf fs, 0)

/-- `contains` of a `TreeSet`, which compares the argument with the members. -/
def contains : List (Expression κ ι) → Expression κ ι → Bool
  | [], _ => false
  | e :: es, f => compareTo f e == .eq || contains es f
termination_by es f => (sizeOf es + sizeOf f, 0)

/-- **`compareTo`** -/
def compareTo (a b : Expression κ ι) : Ordering :=
  if equals a b then .eq else compare (sequence a) (sequence b)
termination_by (sizeOf a + sizeOf b, 1)

end

theorem contains_iff {es : List (Expression κ ι)} {f : Expression κ ι} :
    contains es f = true ↔ ∃ e ∈ es, compareTo f e = .eq := by
  induction es with
  | nil => simp [contains]
  | cons e es ih => rw [contains, Bool.or_eq_true, beq_iff_eq, ih, List.exists_mem_cons_iff]

theorem containsAll_iff {es fs : List (Expression κ ι)} :
    containsAll es fs = true ↔ ∀ f ∈ fs, ∃ e ∈ es, compareTo f e = .eq := by
  induction fs with
  | nil => simp [containsAll]
  | cons f fs ih => rw [containsAll, Bool.and_eq_true, contains_iff, ih, List.forall_mem_cons]

theorem sequence_eq_of_compareTo {a b : Expression κ ι} (h : compareTo a b = .eq)
    (hequals : equals a b = true → sequence a = sequence b) : sequence a = sequence b := by
  rw [compareTo] at h
  split at h
  case isTrue he => exact hequals he
  case isFalse => exact compare_eq_iff_eq.mp h

theorem compareTo_eq_of_sequence {a b : Expression κ ι} (h : sequence a = sequence b) :
    compareTo a b = .eq := by
  rw [compareTo, compare_eq_iff_eq.mpr h, ite_self]

theorem sequence_lt_of_compareTo {a b : Expression κ ι} (h : compareTo a b = .lt) :
    sequence a < sequence b := by
  rw [compareTo] at h
  split at h
  case isTrue => cases h
  case isFalse => exact compare_lt_iff_lt.mp h

/-! ### Trees that the constructors build -/

/-- The members of every set stand as a `TreeSet` has them. -/
inductive IsBuilt : Expression κ ι → Prop
  | leaf (id : Option κ) (e : Leaf ι) : IsBuilt (leaf id e)
  | difference (id : Option κ) {included excluded : Expression κ ι} (hincluded : IsBuilt included)
      (hexcluded : IsBuilt excluded) : IsBuilt (difference id included excluded)
  | intersection (id : Option κ) {es : List (Expression κ ι)} (hes : ∀ e ∈ es, IsBuilt e)
      (hsorted : es.Pairwise fun a b => compareTo a b = .lt) : IsBuilt (intersection id es)
  | substitution (id : Option κ) {included excluded substitute : Expression κ ι}
      (hincluded : IsBuilt included) (hexcluded : IsBuilt excluded)
      (hsubstitute : IsBuilt substitute) : IsBuilt (substitution id included excluded substitute)
  | union (id : Option κ) {es : List (Expression κ ι)} (hes : ∀ e ∈ es, IsBuilt e)
      (hsorted : es.Pairwise fun a b => compareTo a b = .lt) : IsBuilt (union id es)

theorem leaf_sequence_eq {id id' : Option κ} {e f : Leaf ι} (h : leafEquals id id' e f = true) :
    e.sequence = f.sequence := by
  revert h
  fun_cases leafEquals id id' e f <;> intro h <;>
    simp only [Bool.and_eq_true, beq_iff_eq, Bool.false_eq_true] at h <;>
    simp only [Leaf.sequence, h]

theorem sequences_eq_of_containsAll {es fs : List (Expression κ ι)}
    (hes : es.Pairwise fun a b => compareTo a b = .lt)
    (hfs : fs.Pairwise fun a b => compareTo a b = .lt)
    (hequals : ∀ e ∈ es, ∀ f ∈ fs, equals f e = true → sequence f = sequence e)
    (h : (fs.length == es.length && containsAll es fs) = true) :
    sequences es = sequences fs := by
  rw [Bool.and_eq_true, beq_iff_eq, containsAll_iff] at h
  rw [sequences_eq, sequences_eq]
  refine SortedSet.IsSorted.map_key_eq (hes.imp sequence_lt_of_compareTo)
    (hfs.imp sequence_lt_of_compareTo) h.1 fun f hf => ?_
  obtain ⟨e, he, hfe⟩ := h.2 f hf
  exact ⟨e, he, (sequence_eq_of_compareTo hfe (hequals e he f hf)).symm⟩

/-- **Expressions that are equal have the same sequence number**, and this in both orders, since
a `TreeSet` calls `equals` of the members of the other. -/
theorem sequence_eq_of_equals_aux (a : Expression κ ι) : ∀ b, IsBuilt a → IsBuilt b →
    (equals a b = true → sequence a = sequence b) ∧
      (equals b a = true → sequence b = sequence a) := by
  -- the induction is on `a` alone: a comparison in either order goes down both trees
  induction a using inductionOn with
  | leaf id e =>
    intro b _ _
    cases b with
    | leaf id' f =>
      rw [equals, equals]
      exact ⟨leaf_sequence_eq, leaf_sequence_eq⟩
    | _ => simp [equals]
  | difference id included excluded hincluded _ =>
    rintro b (_ | ⟨_, ha, _⟩) hb
    cases hb with
    | difference id' hb _ =>
      have h := hincluded _ ha hb
      rw [equals, equals, Bool.and_eq_true, Bool.and_eq_true]
      exact ⟨fun he => h.1 he.1, fun he => h.2 he.1⟩
    | _ => simp [equals]
  | substitution id included excluded substitute hincluded _ _ =>
    rintro b (_ | _ | _ | ⟨_, ha, _, _⟩) hb
    cases hb with
    | substitution id' hb _ _ =>
      have h := hincluded _ ha hb
      rw [equals, equals, Bool.and_eq_true, Bool.and_eq_true, Bool.and_eq_true, Bool.and_eq_true]
      exact ⟨fun he => h.1 he.1.1, fun he => h.2 he.1.1⟩
    | _ => simp [equals]
  | intersection id es ih =>
    rintro b (_ | _ | ⟨_, hes, hsorted⟩) hb
    cases hb with
    | intersection id' hfs hsorted' =>
      rw [equals, equals]
      constructor
      · intro h
        exact sequence_intersection_congr (sequences_eq_of_containsAll hsorted hsorted'
          (fun e he f hf => (ih e he f (hes e he) (hfs f hf)).2) h)
      · intro h
        exact sequence_intersection_congr (sequences_eq_of_containsAll hsorted' hsorted
          (fun f hf e he => (ih e he f (hes e he) (hfs f hf)).1) h)
    | _ => simp [equals]
  | union id es ih =>
    rintro b (_ | _ | _ | _ | ⟨_, hes, hsorted⟩) hb
    cases hb with
    | union id' hfs hsorted' =>
      rw [equals, equals, sequence, sequence]
      constructor
      · intro h
        rw [sequences_eq_of_containsAll hsorted hsorted'
          (fun e he f hf => (ih e he f (hes e he) (hfs f hf)).2) h]
      · intro h
        rw [sequences_eq_of_containsAll hsorted' hsorted
          (fun f hf e he => (ih e he f (hes e he) (hfs f hf)).1) h]
    | _ => simp [equals]

theorem IsBuilt.sequence_eq_of_equals {a b : Expression κ ι} (ha : IsBuilt a) (hb : IsBuilt b) :
    equals a b = true → sequence a = sequence b :=
  (sequence_eq_of_equals_aux a b ha hb).1

/-- **`compareTo` compares the sequence numbers.** -/
theorem IsBuilt.compareTo_eq {a b : Expression κ ι} (ha : IsBuilt a) (hb : IsBuilt b) :
    compareTo a b = compare (sequence a) (sequence b) := by
  rw [compareTo]
  split
  case isTrue h => exact (compare_eq_iff_eq.mpr (ha.sequence_eq_of_equals hb h)).symm
  case isFalse => rfl

end Equals

end Expression

/-! ### The same expression -/

def Leaf.forget : Leaf ι → Leaf Unit
  | dateRange r _ => dateRange r ()
  | dayInMonth e => dayInMonth e
  | dayOfMonthRange r => dayOfMonthRange r
  | dayOfWeekRange r => dayOfWeekRange r
  | frequency start freqType freqCount => frequency start freqType freqCount
  | hourRange r => hourRange r
  | minuteRange r => minuteRange r
  | monthRange r => monthRange r
  | null => null

/-- The id that `equals` reads: `Null` compares it, and no other class does. -/
def Leaf.comparedId : Leaf ι → Option κ → Option κ
  | null, id => id
  | _, _ => none

@[simp] theorem Leaf.sequence_forget (e : Leaf ι) : e.forget.sequence = e.sequence := by
  cases e <;> rfl

namespace Expression

mutual

def forget : Expression κ ι → Expression κ Unit
  | leaf id e => leaf (e.comparedId id) e.forget
  | difference _ included excluded => difference none (forget included) (forget excluded)
  | intersection _ es => intersection none (forgets es)
  | substitution _ included excluded substitute =>
    substitution none (forget included) (forget excluded) (forget substitute)
  | union _ es => union none (forgets es)

def forgets : List (Expression κ ι) → List (Expression κ Unit)
  | [] => []
  | e :: es => forget e :: forgets es

end

/-- **The same expression**: the classes and all parameters agree, throughout the trees. -/
def SameAs (a b : Expression κ ι) : Prop := forget a = forget b

theorem sameAs_equivalence : Equivalence (SameAs (κ := κ) (ι := ι)) where
  refl _ := rfl
  symm h := Eq.symm h
  trans h h' := Eq.trans h h'

theorem forgets_eq (es : List (Expression κ ι)) : forgets es = es.map forget := by
  induction es with
  | nil => rfl
  | cons e es ih => rw [forgets, ih, List.map_cons]

theorem sequences_forgets {es : List (Expression κ ι)}
    (ih : ∀ e ∈ es, sequence (forget e) = sequence e) : sequences (forgets es) = sequences es := by
  rw [forgets_eq, sequences_eq, sequences_eq, List.map_map]
  exact List.map_congr_left ih

@[simp] theorem sequence_forget (a : Expression κ ι) : sequence (forget a) = sequence a := by
  induction a using inductionOn with
  | leaf id e => exact e.sequence_forget
  | difference id included excluded ih _ => rw [forget, sequence, sequence, ih]
  | substitution id included excluded substitute ih _ _ => rw [forget, sequence, sequence, ih]
  | intersection id es ih =>
    have hempty : (forgets es).isEmpty = es.isEmpty := by rw [forgets_eq, List.isEmpty_map]
    rw [forget, sequence, sequence, hempty, sequences_forgets ih]
  | union id es ih => rw [forget, sequence, sequence, sequences_forgets ih]

theorem SameAs.sequence_eq {a b : Expression κ ι} (h : SameAs a b) : sequence a = sequence b := by
  rw [← sequence_forget a, h, sequence_forget]

section Same

variable [DecidableEq κ]

theorem leafEquals_forget (id id' : Option κ) (e f : Leaf ι) :
    leafEquals (e.comparedId id) (f.comparedId id') e.forget f.forget = leafEquals id id' e f := by
  cases e <;> cases f <;> rfl

theorem leafEquals_self (id : Option κ) (e : Leaf ι) : leafEquals id id e e = true := by
  cases e <;> simp [leafEquals]

theorem containsAll_of_forgets {es fs : List (Expression κ ι)} (h : forgets es = forgets fs) :
    (fs.length == es.length && containsAll es fs) = true := by
  rw [forgets_eq, forgets_eq] at h
  rw [Bool.and_eq_true, beq_iff_eq, containsAll_iff]
  constructor
  · rw [← List.length_map forget, ← h, List.length_map]
  · intro f hf
    obtain ⟨e, he, hfe⟩ := List.mem_map.mp (h ▸ List.mem_map_of_mem hf : forget f ∈ es.map forget)
    exact ⟨e, he, compareTo_eq_of_sequence (SameAs.sequence_eq hfe.symm)⟩

theorem SameAs.equals {a b : Expression κ ι} (h : SameAs a b) : equals a b = true := by
  induction a using inductionOn generalizing b with
  | leaf id e =>
    cases b with
    | leaf id' f =>
      injection h with hid he
      rw [Expression.equals, ← leafEquals_forget, hid, he]
      exact leafEquals_self _ _
    | _ => cases h
  | difference id included excluded hincluded hexcluded =>
    cases b with
    | difference id' included' excluded' =>
      injection h with _ hi he
      rw [Expression.equals, hincluded hi, hexcluded he]
      rfl
    | _ => cases h
  | substitution id included excluded substitute hincluded hexcluded hsubstitute =>
    cases b with
    | substitution id' included' excluded' substitute' =>
      injection h with _ hi he hs
      rw [Expression.equals, hincluded hi, hexcluded he, hsubstitute hs]
      rfl
    | _ => cases h
  | intersection id es _ =>
    cases b with
    | intersection id' fs =>
      injection h with _ hes
      rw [Expression.equals]
      exact containsAll_of_forgets hes
    | _ => cases h
  | union id es _ =>
    cases b with
    | union id' fs =>
      injection h with _ hes
      rw [Expression.equals]
      exact containsAll_of_forgets hes
    | _ => cases h

end Same

end Expression

/-! ### Hash codes -/

section HashCodes

variable (idHashCode : κ → BitVec 32) (identityHashCode : ι → BitVec 32)

def addFields (result : BitVec 32) (fields : List (BitVec 32)) : BitVec 32 :=
  fields.foldl (fun result field => 31 * result + field) result

/-- The fields that `hashCode` adds to the one of the base class. The object of a range of dates has
the hash code of `Object`. -/
def Leaf.fields : Leaf ι → List (BitVec 32)
  | dateRange _ object => [identityHashCode object]
  | dayInMonth e => [BitVec.ofInt 32 e.dayOfWeek, BitVec.ofInt 32 e.occurrence]
  | dayOfMonthRange r => [BitVec.ofInt 32 r.stop, BitVec.ofInt 32 r.start]
  | dayOfWeekRange r => [BitVec.ofInt 32 r.range.stop, BitVec.ofInt 32 r.range.start]
  | frequency start freqType freqCount =>
    [BitVec.ofInt 32 freqCount, BitVec.ofInt 32 freqType.code, start.hashCode]
  | hourRange r => [BitVec.ofInt 32 r.range.stop, BitVec.ofInt 32 r.range.start]
  | minuteRange r => [BitVec.ofInt 32 r.range.stop, BitVec.ofInt 32 r.range.start]
  | monthRange r => [BitVec.ofInt 32 r.range.stop, BitVec.ofInt 32 r.range.start]
  | null => []

def Leaf.objectFields : Leaf ι → List (BitVec 32)
  | dateRange _ object => [identityHashCode object]
  | dayInMonth _ => [0, 0]
  | dayOfMonthRange _ => [0, 0]
  | dayOfWeekRange _ => [0, 0]
  | frequency .. => [0, 0, 0]
  | hourRange _ => [0, 0]
  | minuteRange _ => [0, 0]
  | monthRange _ => [0, 0]
  | null => []

namespace Expression

def idCode (id : Option κ) : BitVec 32 := id.elim 0 idHashCode

def baseHashCode (id : Option κ) (sequence : ℤ) : BitVec 32 :=
  addFields 1 [idCode idHashCode id, BitVec.ofInt 32 sequence]

mutual

/-- **`hashCode`**; the one of a set is the sum over its members. -/
def hashCode : Expression κ ι → BitVec 32
  | leaf id e => addFields (baseHashCode idHashCode id e.sequence) (e.fields identityHashCode)
  | difference id included excluded =>
    addFields (baseHashCode idHashCode id (sequence (difference id included excluded)))
      [hashCode excluded, hashCode included]
  | intersection id es =>
    addFields (baseHashCode idHashCode id (sequence (intersection id es))) [hashCodes es]
  | substitution id included excluded substitute =>
    addFields
      (baseHashCode idHashCode id (sequence (substitution id included excluded substitute)))
      [hashCode excluded, hashCode included, hashCode substitute]
  | union id es =>
    addFields (baseHashCode idHashCode id (sequence (union id es))) [hashCodes es]

def hashCodes : List (Expression κ ι) → BitVec 32
  | [] => 0
  | e :: es => hashCode e + hashCodes es

end

mutual

/-- What the ids of a tree weigh in its hash code, the objects of its ranges of dates among them. -/
def idWeight : Expression κ ι → BitVec 32
  | leaf id e => addFields (31 * idCode idHashCode id) (e.objectFields identityHashCode)
  | difference id included excluded =>
    addFields (31 * idCode idHashCode id) [idWeight excluded, idWeight included]
  | intersection id es => addFields (31 * idCode idHashCode id) [idWeights es]
  | substitution id included excluded substitute =>
    addFields (31 * idCode idHashCode id)
      [idWeight excluded, idWeight included, idWeight substitute]
  | union id es => addFields (31 * idCode idHashCode id) [idWeights es]

def idWeights : List (Expression κ ι) → BitVec 32
  | [] => 0
  | e :: es => idWeight e + idWeights es

end

abbrev bareHashCode (a : Expression κ Unit) : BitVec 32 := hashCode (fun _ => 0) (fun _ => 0) a

abbrev bareHashCodes (es : List (Expression κ Unit)) : BitVec 32 :=
  hashCodes (fun _ => 0) (fun _ => 0) es

theorem baseHashCode_eq (id id' : Option κ) (n : ℤ) :
    baseHashCode idHashCode id n =
      baseHashCode (fun _ => 0) id' n + 31 * idCode idHashCode id := by
  have hzero : idCode (fun _ => 0) id' = 0 := by cases id' <;> rfl
  simp only [baseHashCode, addFields, List.foldl_cons, List.foldl_nil, hzero]
  ring

theorem hashCodes_forgets {es : List (Expression κ ι)}
    (ih : ∀ e ∈ es, hashCode idHashCode identityHashCode e =
      bareHashCode (forget e) + idWeight idHashCode identityHashCode e) :
    hashCodes idHashCode identityHashCode es =
      bareHashCodes (forgets es) + idWeights idHashCode identityHashCode es := by
  induction es with
  | nil => rfl
  | cons e es ihes =>
    rw [List.forall_mem_cons] at ih
    have hcons : bareHashCodes (forgets (e :: es)) =
        bareHashCode (forget e) + bareHashCodes (forgets es) := by
      rw [forgets, bareHashCodes, hashCodes]
    rw [hashCodes, ih.1, ihes ih.2, hcons, idWeights]
    ring

/-- **The hash code is the one of the tree without the ids, and the weight of the ids.** -/
theorem hashCode_forget (a : Expression κ ι) : hashCode idHashCode identityHashCode a =
    bareHashCode (forget a) + idWeight idHashCode identityHashCode a := by
  induction a using inductionOn with
  | leaf id e =>
    rw [forget, hashCode, bareHashCode, hashCode, idWeight, e.sequence_forget,
      baseHashCode_eq idHashCode id (e.comparedId id)]
    cases e <;> simp only [Leaf.forget, Leaf.fields, Leaf.objectFields, addFields, List.foldl_cons,
      List.foldl_nil] <;> ring
  | difference id included excluded hincluded hexcluded =>
    have hsequence := sequence_forget (difference id included excluded)
    rw [forget] at hsequence ⊢
    rw [hashCode, bareHashCode, hashCode, idWeight, hsequence, hincluded, hexcluded,
      baseHashCode_eq idHashCode id none]
    simp only [addFields, List.foldl_cons, List.foldl_nil]
    ring
  | substitution id included excluded substitute hincluded hexcluded hsubstitute =>
    have hsequence := sequence_forget (substitution id included excluded substitute)
    rw [forget] at hsequence ⊢
    rw [hashCode, bareHashCode, hashCode, idWeight, hsequence, hincluded, hexcluded, hsubstitute,
      baseHashCode_eq idHashCode id none]
    simp only [addFields, List.foldl_cons, List.foldl_nil]
    ring
  | intersection id es ih =>
    have hsequence := sequence_forget (intersection id es)
    rw [forget] at hsequence ⊢
    rw [hashCode, bareHashCode, hashCode, idWeight, hsequence, hashCodes_forgets _ _ ih,
      baseHashCode_eq idHashCode id none]
    simp only [addFields, List.foldl_cons, List.foldl_nil]
    ring
  | union id es ih =>
    have hsequence := sequence_forget (union id es)
    rw [forget] at hsequence ⊢
    rw [hashCode, bareHashCode, hashCode, idWeight, hsequence, hashCodes_forgets _ _ ih,
      baseHashCode_eq idHashCode id none]
    simp only [addFields, List.foldl_cons, List.foldl_nil]
    ring

theorem SameAs.hashCode_eq_iff {a b : Expression κ ι} (h : SameAs a b) :
    hashCode idHashCode identityHashCode a = hashCode idHashCode identityHashCode b ↔
      idWeight idHashCode identityHashCode a = idWeight idHashCode identityHashCode b := by
  rw [hashCode_forget, hashCode_forget, h, add_right_inj]

end Expression

/-! ### The children of a set -/

/-- A tree that the constructors have built. -/
structure ExpressionTree (κ ι : Type) [DecidableEq κ] where
  expression : Expression κ ι
  isBuilt : expression.IsBuilt

namespace ExpressionTree

variable [DecidableEq κ]

def compareTo (a b : ExpressionTree κ ι) : Ordering := a.expression.compareTo b.expression

def sequence (a : ExpressionTree κ ι) : ℤ := a.expression.sequence

theorem compareTo_eq (a b : ExpressionTree κ ι) :
    a.compareTo b = compare a.sequence b.sequence := a.isBuilt.compareTo_eq b.isBuilt

/-- **`getChildExpressions`**, of the expressions that `makeTemporalExpression` returns for the
rows, added to a `TreeSet` one after the other. -/
def getChildExpressions (children : List (ExpressionTree κ ι)) :
    Except String (List (ExpressionTree κ ι)) :=
  if children.isEmpty then .error "tempExprId argument invalid - no child expressions found"
  else .ok (SortedSet.ofList compareTo children)

/-- **Children are compared consistently and kept**: the comparison is antisymmetric and transitive,
it returns 0 only for expressions that are equal, these have the same hash code, and every child is
in the set, or one that is the same expression. -/
structure IsConsistent (children : List (ExpressionTree κ ι)) : Prop where
  antisymm : ∀ a ∈ children, ∀ b ∈ children, b.compareTo a = (a.compareTo b).swap
  trans : ∀ a ∈ children, ∀ b ∈ children, ∀ c ∈ children,
    (a.compareTo b).isLE → (b.compareTo c).isLE → (a.compareTo c).isLE
  equals_of_compareTo : ∀ a ∈ children, ∀ b ∈ children, a.compareTo b = .eq →
    a.expression.equals b.expression = true
  hashCode_eq : ∀ a ∈ children, ∀ b ∈ children, a.expression.equals b.expression = true →
    a.expression.hashCode idHashCode identityHashCode =
      b.expression.hashCode idHashCode identityHashCode
  kept : ∀ set, getChildExpressions children = .ok set →
    ∀ a ∈ children, ∃ b ∈ set, a.expression.SameAs b.expression

theorem compareTo_swap (a b : ExpressionTree κ ι) : b.compareTo a = (a.compareTo b).swap := by
  rw [compareTo_eq, compareTo_eq]
  exact Std.OrientedCmp.eq_swap

theorem compareTo_trans {a b c : ExpressionTree κ ι} (hab : (a.compareTo b).isLE)
    (hbc : (b.compareTo c).isLE) : (a.compareTo c).isLE := by
  rw [compareTo_eq] at hab hbc ⊢
  exact Std.TransCmp.isLE_trans hab hbc

theorem keepsAll_iff (children : List (ExpressionTree κ ι)) :
    (∀ set, getChildExpressions children = .ok set →
      ∀ a ∈ children, ∃ b ∈ set, a.expression.SameAs b.expression) ↔
      ∀ a ∈ children, ∀ b ∈ children, a.sequence = b.sequence →
        a.expression.SameAs b.expression := by
  rw [← SortedSet.keepsAll_iff compareTo_eq
    (Expression.sameAs_equivalence.comap (expression (κ := κ) (ι := ι)))
    (fun a b h => h.sequence_eq) children]
  rw [getChildExpressions]
  split
  case isTrue hempty =>
    rw [List.isEmpty_iff.mp hempty]
    exact ⟨fun _ a ha => absurd ha List.not_mem_nil, fun _ _ _ a ha => absurd ha List.not_mem_nil⟩
  case isFalse =>
    exact ⟨fun h => h _ rfl, fun h set hset => by injection hset with hset; exact hset ▸ h⟩

/-- **Exactly the lists are kept and compared consistently** in which children of the same sequence
number are the same expression and have ids of the same weight. -/
theorem isConsistent_iff (children : List (ExpressionTree κ ι)) :
    IsConsistent idHashCode identityHashCode children ↔
      ∀ a ∈ children, ∀ b ∈ children, a.sequence = b.sequence →
        a.expression.SameAs b.expression ∧
          a.expression.idWeight idHashCode identityHashCode =
            b.expression.idWeight idHashCode identityHashCode := by
  constructor
  · intro h a ha b hb hsequence
    have hsame := (keepsAll_iff children).mp h.kept a ha b hb hsequence
    exact ⟨hsame, (hsame.hashCode_eq_iff _ _).mp (h.hashCode_eq a ha b hb hsame.equals)⟩
  · intro h
    refine
      { antisymm := fun a _ b _ => compareTo_swap a b
        trans := fun a _ b _ c _ => compareTo_trans
        equals_of_compareTo := ?_
        hashCode_eq := ?_
        kept := (keepsAll_iff children).mpr fun a ha b hb heq => (h a ha b hb heq).1 }
    · intro a ha b hb heq
      rw [compareTo_eq, compare_eq_iff_eq] at heq
      exact (h a ha b hb heq).1.equals
    · intro a ha b hb hequals
      have hsame := h a ha b hb (a.isBuilt.sequence_eq_of_equals b.isBuilt hequals)
      exact (hsame.1.hashCode_eq_iff _ _).mpr hsame.2

end ExpressionTree

end HashCodes

/-! ### A child that is lost -/

namespace ExpressionTree

def stringHashCode (s : List Char) : BitVec 32 :=
  s.foldl (fun result c => 31 * result + BitVec.ofNat 32 c.toNat) 0

theorem isDay_monday : (1 : ℤ) ≤ 2 ∧ (2 : ℤ) ≤ 7 := by decide

theorem isDay_tuesday : (1 : ℤ) ≤ 3 ∧ (3 : ℤ) ≤ 7 := by decide

theorem isDay_friday : (1 : ℤ) ≤ 6 ∧ (6 : ℤ) ≤ 7 := by decide

def mondayToTuesday : ExpressionTree (List Char) Unit :=
  ⟨.leaf (some "MON_TO_TUE".toList) (.dayOfWeekRange ⟨⟨2, 3, isDay_monday, isDay_tuesday⟩⟩),
    .leaf _ _⟩

def mondayToFriday : ExpressionTree (List Char) Unit :=
  ⟨.leaf (some "MON_TO_FRI".toList) (.dayOfWeekRange ⟨⟨2, 6, isDay_monday, isDay_friday⟩⟩),
    .leaf _ _⟩

theorem getChildExpressions_mondays : getChildExpressions [mondayToTuesday, mondayToFriday] =
    .ok [mondayToTuesday] := by
  have heq : compareTo mondayToFriday mondayToTuesday = .eq := by
    rw [compareTo_eq]
    rfl
  simp only [getChildExpressions, List.isEmpty_cons, Bool.false_eq_true, if_false,
    SortedSet.ofList, List.foldl_cons, List.foldl_nil, SortedSet.insert, heq]

theorem not_isConsistent_mondays :
    ¬IsConsistent stringHashCode (fun _ => 0) [mondayToTuesday, mondayToFriday] := by
  intro h
  obtain ⟨b, hb, hsame⟩ := h.kept _ getChildExpressions_mondays mondayToFriday
    (List.mem_cons_of_mem _ (List.mem_singleton_self _))
  rw [List.mem_singleton.mp hb] at hsame
  injection hsame with _ hleaf
  injection hleaf with hrange
  injection hrange with hrange
  injection hrange with _ hstop
  exact absurd hstop (by decide)

end ExpressionTree

end OfficeAuto.Service
