import OfficeAuto.Entity.Condition
import OfficeAuto.Logic.Decision

/-!
# Trees of conditions

Conditions are keys of caches, so that `equals` and `hashCode` decide which conditions share an
entry. Here a comparison holds any objects, not only a field and a value: its sides may be lists,
which may hold lists in turn.

The trees have a type of leaves as a parameter. `equals`, `hashCode` and `mapMatches` take the
method of the leaves as an argument, and a map of the leaves acts on the trees
(`EntityCondition.map`). If a map `q` decides `equals` of the leaves, then it decides `equals` of
the trees: `a.equals b` is whether `a.map q` and `b.map q` are one tree
(`EntityCondition.decides_equals`).

The values have their own hash codes, which are a parameter.
-/

namespace OfficeAuto.Entity.Identity

/-! ### Exceptions -/

/-- What the methods of a condition throw. -/
inductive RuntimeException
  | nullPointer
  | classCast
  | unsupportedOperation
  deriving DecidableEq, Repr

/-! ### Operators -/

/-- The operators of comparisons. -/
inductive EntityComparisonOperator
  | comparable (operator : ComparableOperator)
  | collection (operator : CollectionOperator)
  | not
  deriving DecidableEq, Repr

def EntityComparisonOperator.idInt : EntityComparisonOperator → ℕ
  | .comparable .equals => 1
  | .comparable .notEqual => 2
  | .comparable .lessThan => 3
  | .comparable .greaterThan => 4
  | .comparable .lessThanEqualTo => 5
  | .comparable .greaterThanEqualTo => 6
  | .collection .isIn => 7
  | .collection .between => 8
  | .not => 9
  | .comparable .like => 12
  | .collection .notIn => 13
  | .comparable .notLike => 14

def EntityComparisonOperator.codeString : EntityComparisonOperator → List Char
  | .comparable .equals => "=".toList
  | .comparable .notEqual => "<>".toList
  | .comparable .lessThan => "<".toList
  | .comparable .greaterThan => ">".toList
  | .comparable .lessThanEqualTo => "<=".toList
  | .comparable .greaterThanEqualTo => ">=".toList
  | .collection .isIn => "IN".toList
  | .collection .between => "BETWEEN".toList
  | .not => "NOT".toList
  | .comparable .like => "LIKE".toList
  | .collection .notIn => "NOT IN".toList
  | .comparable .notLike => "NOT LIKE".toList

def joinIdInt : EntityJoinOperator → ℕ
  | .and => 10
  | .or => 11

def joinCodeString : EntityJoinOperator → List Char
  | .and => "AND".toList
  | .or => "OR".toList

/-- `EntityOperator.equals`. -/
def EntityComparisonOperator.equals (op otherOper : EntityComparisonOperator) : Bool :=
  op.idInt == otherOper.idInt

def joinEquals (op otherOper : EntityJoinOperator) : Bool :=
  joinIdInt op == joinIdInt otherOper

def comparisonOperators : List EntityComparisonOperator :=
  [.comparable .equals, .comparable .notEqual, .comparable .lessThan, .comparable .greaterThan,
    .comparable .lessThanEqualTo, .comparable .greaterThanEqualTo, .collection .isIn,
    .collection .between, .not, .comparable .like, .collection .notIn, .comparable .notLike]

theorem mem_comparisonOperators (op : EntityComparisonOperator) : op ∈ comparisonOperators := by
  rcases op with op | op | _
  · cases op <;> decide
  · cases op <;> decide
  · decide

theorem EntityComparisonOperator.decides_equals (op op' : EntityComparisonOperator) :
    Decides (.ok (op.equals op') : Except RuntimeException Bool) (op = op') := by
  have hdistinct : ∀ a ∈ comparisonOperators, ∀ b ∈ comparisonOperators,
      (a.equals b = true ↔ a = b) := by decide
  exact .ok _ (hdistinct op (mem_comparisonOperators op) op' (mem_comparisonOperators op'))

theorem decides_joinEquals (op op' : EntityJoinOperator) :
    Decides (.ok (joinEquals op op') : Except RuntimeException Bool) (op = op') := by
  refine .ok _ ?_
  cases op <;> cases op' <;> decide

/-! ### Objects -/

/-- The objects that a comparison holds; the string on its left side is a field value. -/
inductive Object (F : Type*)
  | null
  | nullField
  | value (v : Value)
  | fieldValue (f : F)
  | list (xs : List (Object F))

namespace Object

variable {F K : Type*}

theorem inductionOn {motive : Object F → Prop} (null : motive .null) (nullField : motive .nullField)
    (value : ∀ v, motive (.value v)) (fieldValue : ∀ f, motive (.fieldValue f))
    (list : ∀ xs, (∀ x ∈ xs, motive x) → motive (.list xs)) : ∀ x, motive x
  | .null => null
  | .nullField => nullField
  | .value v => value v
  | .fieldValue f => fieldValue f
  | .list xs => list xs fun x _ => inductionOn null nullField value fieldValue list x

mutual

def fieldValues : Object F → List F
  | .fieldValue f => [f]
  | .list xs => listFieldValues xs
  | .null | .nullField | .value _ => []

def listFieldValues : List (Object F) → List F
  | [] => []
  | x :: xs => x.fieldValues ++ listFieldValues xs

end

mutual

def map (q : F → K) : Object F → Object K
  | .null => .null
  | .nullField => .nullField
  | .value v => .value v
  | .fieldValue f => .fieldValue (q f)
  | .list xs => .list (listMap q xs)

def listMap (q : F → K) : List (Object F) → List (Object K)
  | [] => []
  | x :: xs => x.map q :: listMap q xs

end

mutual

/-- **`EntityConditionBase.equals`** of two objects: null is equal to null alone, and otherwise
it is the left object's method. Of lists it is the one of `AbstractList`. -/
def equals (eq : F → F → Except RuntimeException Bool) :
    Object F → Object F → Except RuntimeException Bool
  | .null, .null => .ok true
  | .nullField, .nullField => .ok true
  | .value v, .value w => .ok (v == w)
  | .fieldValue f, .fieldValue g => eq f g
  | .list xs, .list ys => listEquals eq xs ys
  | _, _ => .ok false

def listEquals (eq : F → F → Except RuntimeException Bool) :
    List (Object F) → List (Object F) → Except RuntimeException Bool
  | [], [] => .ok true
  | x :: xs, y :: ys => andThen (x.equals eq y) (listEquals eq xs ys)
  | _, _ => .ok false

end

end Object

/-- `hashCode` of the values, strings among them, and of the leaves. -/
structure HashCodes (F : Type*) where
  value : Value → BitVec 32
  leaf : F → BitVec 32

def HashCodes.string {F : Type*} (H : HashCodes F) (s : List Char) : BitVec 32 :=
  H.value (.string s)

def HashCodes.comap {F K : Type*} (H : HashCodes K) (q : F → K) : HashCodes F :=
  ⟨H.value, H.leaf ∘ q⟩

/-- `AbstractList.hashCode`, of the hash codes of the elements. -/
def listHashCode (hashes : List (BitVec 32)) : BitVec 32 :=
  hashes.foldl (fun hashCode h => 31 * hashCode + h) 1

namespace Object

variable {F K : Type*}

mutual

/-- **`EntityConditionBase.hashCode`** of an object. -/
def hashCode (H : HashCodes F) : Object F → BitVec 32
  | .null => 0
  | .nullField => 42
  | .value v => H.value v
  | .fieldValue f => H.leaf f
  | .list xs => listHashCode (hashCodes H xs)

def hashCodes (H : HashCodes F) : List (Object F) → List (BitVec 32)
  | [] => []
  | x :: xs => x.hashCode H :: hashCodes H xs

end

theorem listFieldValues_eq (xs : List (Object F)) :
    listFieldValues xs = xs.flatMap fieldValues := by
  induction xs with
  | nil => rfl
  | cons x xs ih => rw [listFieldValues, List.flatMap_cons, ih]

theorem listMap_eq (q : F → K) (xs : List (Object F)) : listMap q xs = xs.map (map q) := by
  induction xs with
  | nil => rfl
  | cons x xs ih => rw [listMap, List.map_cons, ih]

theorem listEquals_eq (eq : F → F → Except RuntimeException Bool) (xs ys : List (Object F)) :
    listEquals eq xs ys = equalsAll (equals eq) xs ys := by
  induction xs generalizing ys with
  | nil => cases ys <;> rfl
  | cons x xs ih =>
    cases ys with
    | nil => rfl
    | cons y ys => rw [listEquals, equalsAll, ih]

theorem hashCodes_eq (H : HashCodes F) (xs : List (Object F)) :
    hashCodes H xs = xs.map (hashCode H) := by
  induction xs with
  | nil => rfl
  | cons x xs ih => rw [hashCodes, List.map_cons, ih]

/-! ### Objects and their images -/

section

variable {eq : F → F → Except RuntimeException Bool} {q : F → K}

theorem decides_equals {x y : Object F}
    (h : ∀ f ∈ x.fieldValues, ∀ g ∈ y.fieldValues, Decides (eq f g) (q f = q g)) :
    Decides (x.equals eq y) (x.map q = y.map q) := by
  induction x using inductionOn generalizing y with
  | null => cases y <;> first | exact .ok true (by simp [map]) | exact .no (by simp [map])
  | nullField => cases y <;> first | exact .ok true (by simp [map]) | exact .no (by simp [map])
  | value v =>
    cases y with
    | value w => exact .ok (v == w) (by simp [map])
    | _ => exact .no (by simp [map])
  | fieldValue f =>
    cases y with
    | fieldValue g =>
      simp only [fieldValues, List.mem_singleton, forall_eq] at h
      exact h.congr (by simp [map])
    | _ => exact .no (by simp [map])
  | list xs ih =>
    cases y with
    | list ys =>
      simp only [fieldValues, listFieldValues_eq, List.mem_flatMap] at h
      rw [equals, listEquals_eq]
      refine (decides_equalsAll fun x hx y hy => ih x hx ?_).congr (by simp [map, listMap_eq])
      exact fun f hf g hg => h f ⟨x, hx, hf⟩ g ⟨y, hy, hg⟩
    | _ => exact .no (by simp [map])

end

theorem hashCode_map (H : HashCodes K) (q : F → K) (x : Object F) :
    (x.map q).hashCode H = x.hashCode (H.comap q) := by
  induction x using inductionOn with
  | list xs ih =>
    rw [map, hashCode, hashCode, listMap_eq, hashCodes_eq, hashCodes_eq, List.map_map]
    exact congrArg listHashCode (List.map_congr_left ih)
  | _ => rfl

/-! ### Comparison in memory -/

def getValue (name : F → FieldName) (row : Row) : Object F → Object F
  | .fieldValue f => match row (name f) with
    | none => .null
    | some v => .value v
  | x => x

/-- `equals` of an object that is comparable, with an object that need not be. -/
def comparableEquals : Object F → Object F → Bool
  | .nullField, .nullField => true
  | .value v, .value w => v == w
  | _, _ => false

def compareEqual : Object F → Object F → Bool
  | .null, .null => true
  | lhs, rhs => lhs.comparableEquals rhs

def compareTo : Object F → Object F → Except RuntimeException Ordering
  -- `NULL_FIELD` compares with its own class only, which null passes the cast to
  | .nullField, .null => .ok .lt
  | .nullField, .nullField => .ok .eq
  | .value _, .null => .error .nullPointer
  | .value u, .value v => match u.compareTo v with
    | none => .error .classCast
    | some o => .ok o
  | _, _ => .error .classCast

def compareOrder (keeps : Ordering → Bool) : Object F → Object F → Except RuntimeException Bool
  | .null, .null => .ok true
  | .null, _ => .ok false
  | lhs, rhs => (lhs.compareTo rhs).map keeps

/-- `contains` of a collection that is cast from an object, or that is null. -/
def compareIn : Object F → Object F → Except RuntimeException Bool
  | .null, .null => .ok true
  | .null, .list _ => .ok false
  | _, .null => .ok false
  | lhs, .list xs => .ok (xs.any lhs.comparableEquals)
  | _, _ => .error .classCast

def compareLike (perl : Perl5) : Object F → Object F → Except RuntimeException Bool
  | .null, .null => .ok true
  | .null, _ => .ok false
  | .value (.string s), .value (.string p) =>
    match perl.matcher (makeOroPattern p) with
    | none => .error .nullPointer
    | some m => .ok (m s)
  -- other objects than strings are like anything
  | _, _ => .ok true

def isComparable : Object F → Bool
  | .null | .nullField | .value _ => true
  | .fieldValue _ | .list _ => false

end Object

def EntityComparisonOperator.compare {F : Type*} (perl : Perl5) (lhs rhs : Object F) :
    EntityComparisonOperator → Except RuntimeException Bool
  | .not => match rhs with
    | .null => .error .unsupportedOperation
    | _ => .error .classCast
  | .collection op =>
    if lhs.isComparable then
      match op with
      | .isIn | .between => lhs.compareIn rhs
      | .notIn => (lhs.compareIn rhs).map Bool.not
    else .error .classCast
  | .comparable op =>
    if lhs.isComparable then
      match op with
      | .equals => .ok (lhs.compareEqual rhs)
      | .notEqual => .ok !(lhs.compareEqual rhs)
      | .lessThan => lhs.compareOrder Ordering.isLT rhs
      | .greaterThan => lhs.compareOrder Ordering.isGT rhs
      | .lessThanEqualTo => lhs.compareOrder Ordering.isLE rhs
      | .greaterThanEqualTo => lhs.compareOrder Ordering.isGE rhs
      | .like => lhs.compareLike perl rhs
      | .notLike => (lhs.compareLike perl rhs).map Bool.not
    else .error .classCast

namespace Object

variable {F K : Type*} {q : F → K}

theorem any_comparableEquals_map (x : Object F) {xs : List (Object F)} :
    (listMap q xs).any (x.map q).comparableEquals = xs.any x.comparableEquals := by
  induction xs with
  | nil => rfl
  | cons y xs ih =>
    rw [listMap, List.any_cons, List.any_cons, ih]
    cases x <;> cases y <;> rfl

theorem compareEqual_map (x y : Object F) :
    (x.map q).compareEqual (y.map q) = x.compareEqual y := by
  cases x <;> cases y <;> rfl

theorem compareOrder_map (keeps : Ordering → Bool) (x y : Object F) :
    (x.map q).compareOrder keeps (y.map q) = x.compareOrder keeps y := by
  cases x <;> cases y <;> rfl

theorem compareIn_map (x y : Object F) : (x.map q).compareIn (y.map q) = x.compareIn y := by
  rcases y with _ | _ | v | f | ys
  · cases x <;> rfl
  · cases x <;> rfl
  · cases x <;> rfl
  · cases x <;> rfl
  · rcases x with _ | _ | v | f | xs
    · rfl
    all_goals exact congrArg Except.ok (any_comparableEquals_map _)

theorem compareLike_map (perl : Perl5) (x y : Object F) :
    (x.map q).compareLike perl (y.map q) = x.compareLike perl y := by
  rcases x with _ | _ | (s | n | b | t) | f | xs
  case value.string =>
    rcases y with _ | _ | (p | n | b | t) | g | ys <;> rfl
  all_goals cases y <;> rfl

theorem isComparable_map (x : Object F) : (x.map q).isComparable = x.isComparable := by
  cases x <;> rfl

theorem getValue_map (name : K → FieldName) (row : Row) (x : Object F) :
    (x.map q).getValue name row = (x.getValue (name ∘ q) row).map q := by
  cases x with
  | fieldValue f =>
    simp only [map, getValue, Function.comp_apply]
    cases row (name (q f)) <;> rfl
  | _ => rfl

end Object

theorem EntityComparisonOperator.compare_map {F K : Type*} (perl : Perl5) (q : F → K)
    (x y : Object F) (op : EntityComparisonOperator) :
    op.compare perl (x.map q) (y.map q) = op.compare perl x y := by
  cases op with
  | not => cases y <;> rfl
  | collection op => simp only [compare, Object.isComparable_map, Object.compareIn_map]
  | comparable op =>
    simp only [compare, Object.isComparable_map, Object.compareEqual_map,
      Object.compareOrder_map, Object.compareLike_map]

/-! ### Expressions -/

def Object.isLhs {F : Type*} : Object F → Bool
  | .null | .value (.string _) => false
  | _ => true

def Object.isNull {F : Type*} : Object F → Bool
  | .null | .nullField => true
  | _ => false

def Object.isPair {F : Type*} : Object F → Bool
  | .list [_, _] => true
  | _ => false

/-- `EntityExpr` of objects. -/
structure EntityExpr (F : Type*) where
  lhs : Object F
  operator : EntityComparisonOperator
  rhs : Object F
  lhs_valid : lhs.isLhs = true
  null_valid : rhs.isNull = true →
    operator = .comparable .equals ∨ operator = .comparable .notEqual
  between_valid : operator = .collection .between → rhs.isPair = true

/-- `EntityExpr` of objects and of conditions, and `EntityConditionList`. -/
inductive EntityCondition (F : Type*)
  | comparison (e : EntityExpr F)
  | joined (lhs : EntityCondition F) (operator : EntityJoinOperator) (rhs : EntityCondition F)
  | list (conditionList : List (EntityCondition F)) (operator : EntityJoinOperator)

section Image

variable {F K : Type*} (q : F → K)

theorem Object.isLhs_map (x : Object F) : (x.map q).isLhs = x.isLhs := by
  rcases x with _ | _ | v | f | xs
  · rfl
  · rfl
  · cases v <;> rfl
  · rfl
  · rfl

theorem Object.isNull_map (x : Object F) : (x.map q).isNull = x.isNull := by
  cases x <;> rfl

theorem Object.isPair_map (x : Object F) : (x.map q).isPair = x.isPair := by
  rcases x with _ | _ | v | f | xs
  · rfl
  · rfl
  · rfl
  · rfl
  · rcases xs with _ | ⟨x, _ | ⟨y, _ | ⟨z, xs⟩⟩⟩ <;> rfl

def EntityExpr.map (e : EntityExpr F) : EntityExpr K where
  lhs := e.lhs.map q
  operator := e.operator
  rhs := e.rhs.map q
  lhs_valid := e.lhs.isLhs_map q ▸ e.lhs_valid
  null_valid := fun h => e.null_valid (e.rhs.isNull_map q ▸ h)
  between_valid := fun h => e.rhs.isPair_map q ▸ e.between_valid h

end Image

namespace EntityExpr

variable {F K : Type*}

def fieldValues (e : EntityExpr F) : List F := e.lhs.fieldValues ++ e.rhs.fieldValues

/-- **`EntityExpr.equals`** for comparisons. -/
def equals (eq : F → F → Except RuntimeException Bool) (e other : EntityExpr F) :
    Except RuntimeException Bool :=
  andThen (e.lhs.equals eq other.lhs)
    (andThen (.ok (e.operator.equals other.operator)) (e.rhs.equals eq other.rhs))

def hashCode (H : HashCodes F) (e : EntityExpr F) : BitVec 32 :=
  e.lhs.hashCode H + H.string e.operator.codeString + e.rhs.hashCode H

def mapMatches (name : F → FieldName) (perl : Perl5) (row : Row) (e : EntityExpr F) :
    Except RuntimeException Bool :=
  e.operator.compare perl (e.lhs.getValue name row) (e.rhs.getValue name row)

theorem decides_equals {eq : F → F → Except RuntimeException Bool} {q : F → K}
    {e e' : EntityExpr F}
    (h : ∀ f ∈ e.fieldValues, ∀ g ∈ e'.fieldValues, Decides (eq f g) (q f = q g)) :
    Decides (e.equals eq e') (e.map q = e'.map q) := by
  simp only [fieldValues, List.mem_append] at h
  have hlhs := Object.decides_equals fun f hf g hg => h f (.inl hf) g (.inl hg)
  have hrhs := Object.decides_equals fun f hf g hg => h f (.inr hf) g (.inr hg)
  have hop := e.operator.decides_equals e'.operator
  exact (hlhs.andThen (hop.andThen hrhs)).congr (by simp [map])

theorem hashCode_map (H : HashCodes K) (q : F → K) (e : EntityExpr F) :
    (e.map q).hashCode H = e.hashCode (H.comap q) := by
  rw [hashCode, hashCode, map, Object.hashCode_map, Object.hashCode_map]
  rfl

theorem mapMatches_map (name : K → FieldName) (perl : Perl5) (row : Row) (q : F → K)
    (e : EntityExpr F) :
    (e.map q).mapMatches name perl row = e.mapMatches (name ∘ q) perl row := by
  rw [mapMatches, mapMatches, map, Object.getValue_map, Object.getValue_map,
    EntityComparisonOperator.compare_map]

end EntityExpr

namespace EntityCondition

variable {F K : Type*}

theorem inductionOn {motive : EntityCondition F → Prop} (comparison : ∀ e, motive (.comparison e))
    (joined : ∀ l op r, motive l → motive r → motive (.joined l op r))
    (list : ∀ cs op, (∀ c ∈ cs, motive c) → motive (.list cs op)) : ∀ c, motive c
  | .comparison e => comparison e
  | .joined l op r => joined l op r (inductionOn comparison joined list l)
      (inductionOn comparison joined list r)
  | .list cs op => list cs op fun c _ => inductionOn comparison joined list c

mutual

def fieldValues : EntityCondition F → List F
  | .comparison e => e.fieldValues
  | .joined l _ r => l.fieldValues ++ r.fieldValues
  | .list cs _ => listFieldValues cs

def listFieldValues : List (EntityCondition F) → List F
  | [] => []
  | c :: cs => c.fieldValues ++ listFieldValues cs

end

mutual

def map (q : F → K) : EntityCondition F → EntityCondition K
  | .comparison e => .comparison (e.map q)
  | .joined l op r => .joined (l.map q) op (r.map q)
  | .list cs op => .list (listMap q cs) op

def listMap (q : F → K) : List (EntityCondition F) → List (EntityCondition K)
  | [] => []
  | c :: cs => c.map q :: listMap q cs

end

mutual

/-- **`equals`** of the conditions: the left sides, the operators and the right sides of
expressions, the conditions and the operators of lists. -/
def equals (eq : F → F → Except RuntimeException Bool) :
    EntityCondition F → EntityCondition F → Except RuntimeException Bool
  | .comparison e, .comparison other => e.equals eq other
  | .joined l op r, .joined l' op' r' =>
    andThen (l.equals eq l') (andThen (.ok (joinEquals op op')) (r.equals eq r'))
  | .list cs op, .list ds op' => andThen (listEquals eq cs ds) (.ok (joinEquals op op'))
  | _, _ => .ok false

def listEquals (eq : F → F → Except RuntimeException Bool) :
    List (EntityCondition F) → List (EntityCondition F) → Except RuntimeException Bool
  | [], [] => .ok true
  | c :: cs, d :: ds => andThen (c.equals eq d) (listEquals eq cs ds)
  | _, _ => .ok false

end

mutual

/-- **`hashCode`** of the conditions. -/
def hashCode (H : HashCodes F) : EntityCondition F → BitVec 32
  | .comparison e => e.hashCode H
  | .joined l op r => l.hashCode H + H.string (joinCodeString op) + r.hashCode H
  | .list cs op => listHashCode (hashCodes H cs) + H.string (joinCodeString op)

def hashCodes (H : HashCodes F) : List (EntityCondition F) → List (BitVec 32)
  | [] => []
  | c :: cs => c.hashCode H :: hashCodes H cs

end

section

variable (name : F → FieldName) (perl : Perl5) (row : Row)

mutual

/-- **`mapMatches`.** -/
def mapMatches : EntityCondition F → Except RuntimeException Bool
  | .comparison e => e.mapMatches name perl row
  | .joined l op r => do
    if (← l.mapMatches) = op.shortCircuitValue then pure op.shortCircuitValue
    else if (← r.mapMatches) = op.shortCircuitValue then pure op.shortCircuitValue
    else pure !op.shortCircuitValue
  | .list cs op => mapMatchesList op cs

def mapMatchesList (op : EntityJoinOperator) :
    List (EntityCondition F) → Except RuntimeException Bool
  | [] => .ok !op.shortCircuitValue
  | c :: cs => do
    if (← c.mapMatches) = op.shortCircuitValue then pure op.shortCircuitValue
    else mapMatchesList op cs

end

end

theorem listFieldValues_eq (cs : List (EntityCondition F)) :
    listFieldValues cs = cs.flatMap fieldValues := by
  induction cs with
  | nil => rfl
  | cons c cs ih => rw [listFieldValues, List.flatMap_cons, ih]

theorem listMap_eq (q : F → K) (cs : List (EntityCondition F)) :
    listMap q cs = cs.map (map q) := by
  induction cs with
  | nil => rfl
  | cons c cs ih => rw [listMap, List.map_cons, ih]

theorem listEquals_eq (eq : F → F → Except RuntimeException Bool)
    (cs ds : List (EntityCondition F)) :
    listEquals eq cs ds = equalsAll (equals eq) cs ds := by
  induction cs generalizing ds with
  | nil => cases ds <;> rfl
  | cons c cs ih =>
    cases ds with
    | nil => rfl
    | cons d ds => rw [listEquals, equalsAll, ih]

theorem hashCodes_eq (H : HashCodes F) (cs : List (EntityCondition F)) :
    hashCodes H cs = cs.map (hashCode H) := by
  induction cs with
  | nil => rfl
  | cons c cs ih => rw [hashCodes, List.map_cons, ih]

/-! ### Conditions and their images -/

section

variable {eq : F → F → Except RuntimeException Bool} {q : F → K}

/-- **A map that decides `equals` of the field values decides it for the conditions.** -/
theorem decides_equals {a b : EntityCondition F}
    (h : ∀ f ∈ a.fieldValues, ∀ g ∈ b.fieldValues, Decides (eq f g) (q f = q g)) :
    Decides (a.equals eq b) (a.map q = b.map q) := by
  induction a using inductionOn generalizing b with
  | comparison e =>
    cases b with
    | comparison e' => exact (EntityExpr.decides_equals h).congr (by simp [map])
    | _ => exact .no (by simp [map])
  | joined l op r ihl ihr =>
    cases b with
    | joined l' op' r' =>
      simp only [fieldValues, List.mem_append] at h
      have hl := ihl fun f hf g hg => h f (.inl hf) g (.inl hg)
      have hr := ihr fun f hf g hg => h f (.inr hf) g (.inr hg)
      have hop := decides_joinEquals op op'
      exact (hl.andThen (hop.andThen hr)).congr (by simp [map])
    | _ => exact .no (by simp [map])
  | list cs op ih =>
    cases b with
    | list ds op' =>
      have hop := decides_joinEquals op op'
      simp only [fieldValues, listFieldValues_eq, List.mem_flatMap] at h
      have hlist : Decides (equalsAll (equals eq) cs ds) (cs.map (map q) = ds.map (map q)) :=
        decides_equalsAll fun c hc d hd => ih c hc fun f hf g hg => h f ⟨c, hc, hf⟩ g ⟨d, hd, hg⟩
      rw [equals, listEquals_eq]
      exact (hlist.andThen hop).congr (by simp [map, listMap_eq])
    | _ => exact .no (by simp [map])

end

theorem hashCode_map (H : HashCodes K) (q : F → K) (c : EntityCondition F) :
    (c.map q).hashCode H = c.hashCode (H.comap q) := by
  induction c using inductionOn with
  | comparison e => exact EntityExpr.hashCode_map H q e
  | joined l op r ihl ihr =>
    rw [map, hashCode, hashCode, ihl, ihr]
    rfl
  | list cs op ih =>
    rw [map, hashCode, hashCode, listMap_eq, hashCodes_eq, hashCodes_eq, List.map_map]
    exact congrArg (listHashCode · + H.string (joinCodeString op)) (List.map_congr_left ih)

section

variable (name : K → FieldName) (perl : Perl5) (row : Row) (q : F → K)

theorem mapMatchesList_map (op : EntityJoinOperator) {cs : List (EntityCondition F)}
    (ih : ∀ c ∈ cs, (c.map q).mapMatches name perl row = c.mapMatches (name ∘ q) perl row) :
    mapMatchesList name perl row op (listMap q cs) =
      mapMatchesList (name ∘ q) perl row op cs := by
  induction cs with
  | nil => rfl
  | cons c cs ihcs =>
    rw [listMap, mapMatchesList, mapMatchesList, ih c List.mem_cons_self,
      ihcs fun c hc => ih c (List.mem_cons_of_mem _ hc)]

theorem mapMatches_map (c : EntityCondition F) :
    (c.map q).mapMatches name perl row = c.mapMatches (name ∘ q) perl row := by
  induction c using inductionOn with
  | comparison e => exact EntityExpr.mapMatches_map name perl row q e
  | joined l op r ihl ihr => rw [map, mapMatches, mapMatches, ihl, ihr]
  | list cs op ih => exact mapMatchesList_map name perl row q op ih

end

end EntityCondition

end OfficeAuto.Entity.Identity
