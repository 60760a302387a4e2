import OfficeAuto.Entity.Value
import OfficeAuto.Logic.Result
import OfficeAuto.Text.Glob

/-!
# Conditions of the entity engine

A condition is a tree: comparisons of a field with a value, with another field or with a
collection (`EntityExpr`), joined by AND and OR in binary expressions or in lists. It is
evaluated in memory by `mapMatches`, on a row that maps fields to values or null; the module
`WhereString` has the SQL text of the same trees.

The constructor checks of `EntityExpr` are fields of its two kinds of comparison. The objects
that a comparison sees are values, null, and the marker `NULL_FIELD`. A comparison may throw:
`compareTo` on null, or on a value of another class.

The matcher of `LIKE` is a class of the regular expression library. Its patterns are the texts
that `makeOroPattern` writes; `Perl5` says what the library documents for the patterns that
consist of plain characters, escaped characters, `.` and `.*`.
-/

namespace OfficeAuto.Entity

abbrev FieldName := List Char

abbrev Row := FieldName → Option Value

/-! ### Trees -/

/-- The join operators. -/
inductive EntityJoinOperator
  | and
  | or
  deriving DecidableEq, Repr

def EntityJoinOperator.shortCircuitValue : EntityJoinOperator → Bool
  | .and => false
  | .or => true

/-- The comparison operators whose right side is one object. -/
inductive ComparableOperator
  | equals
  | notEqual
  | lessThan
  | greaterThan
  | lessThanEqualTo
  | greaterThanEqualTo
  | like
  | notLike
  deriving DecidableEq, Repr

/-- The comparison operators whose right side is a collection. -/
inductive CollectionOperator
  | isIn
  | between
  | notIn
  deriving DecidableEq, Repr

/-- The right side of a comparison: null, the marker for null, a value, or a field. -/
inductive Operand
  | null
  | nullField
  | value (v : Value)
  | field (name : FieldName)
  deriving DecidableEq, Repr

def Operand.isNull : Operand → Bool
  | .null | .nullField => true
  | .value _ | .field _ => false

/-- `EntityExpr` of a field and an object. Null has to be compared by equality. -/
structure ComparableExpr where
  lhs : FieldName
  operator : ComparableOperator
  rhs : Operand
  valid : rhs.isNull = true → operator = .equals ∨ operator = .notEqual
  deriving DecidableEq, Repr

/-- `EntityExpr` of a field and a collection. `BETWEEN` has two bounds. -/
structure CollectionExpr where
  lhs : FieldName
  operator : CollectionOperator
  rhs : List (Option Value)
  valid : operator = .between → rhs.length = 2
  deriving DecidableEq, Repr

/-- **`EntityCondition`**: `EntityExpr` of comparisons and of conditions, and
`EntityConditionList`. -/
inductive EntityCondition
  | comparable (e : ComparableExpr)
  | collection (e : CollectionExpr)
  | joined (lhs : EntityCondition) (operator : EntityJoinOperator) (rhs : EntityCondition)
  | list (conditionList : List EntityCondition) (operator : EntityJoinOperator)

namespace EntityCondition

theorem induction {motive : EntityCondition → Prop} (comparable : ∀ e, motive (.comparable e))
    (collection : ∀ e, motive (.collection e))
    (joined : ∀ l op r, motive l → motive r → motive (.joined l op r))
    (list : ∀ cs op, (∀ c ∈ cs, motive c) → motive (.list cs op)) : ∀ c, motive c
  | .comparable e => comparable e
  | .collection e => collection e
  | .joined l op r => joined l op r (induction comparable collection joined list l)
      (induction comparable collection joined list r)
  | .list cs op => list cs op fun c _ => induction comparable collection joined list c

/-- `EntityCondition.makeCondition` of two conditions. -/
def makeCondition (originalCondition laterCondition : EntityCondition) : EntityCondition :=
  .list [originalCondition, laterCondition] .and

mutual

def isEmpty : EntityCondition → Bool
  | .comparable _ => false
  | .collection _ => false
  | .joined l _ r => l.isEmpty && r.isEmpty
  | .list cs _ => allEmpty cs

def allEmpty : List EntityCondition → Bool
  | [] => true
  | c :: cs => c.isEmpty && allEmpty cs

end

theorem allEmpty_eq_true {cs : List EntityCondition} :
    allEmpty cs = true ↔ ∀ c ∈ cs, c.isEmpty = true := by
  induction cs with
  | nil => simp [allEmpty]
  | cons c cs ih => rw [allEmpty, Bool.and_eq_true, ih, List.forall_mem_cons]

end EntityCondition

/-! ### Comparison in memory -/

/-- The objects that a comparison sees besides null. -/
inductive Obj
  | nullField
  | value (v : Value)
  deriving DecidableEq, Repr

/-- What an evaluation may throw. -/
inductive JavaException
  | nullPointer
  | classCast
  | illegalArgument
  deriving DecidableEq, Repr

def Operand.getValue (row : Row) : Operand → Option Obj
  | .null => none
  | .nullField => some .nullField
  | .value v => some (.value v)
  | .field name => (row name).map .value

def compareEqual (lhs : Option Value) (rhs : Option Obj) : Bool :=
  match lhs with
  | none => rhs.isNone
  | some u => rhs == some (.value u)

def compareNotEqual (lhs : Option Value) (rhs : Option Obj) : Bool :=
  match lhs with
  | none => !rhs.isNone
  | some u => !(rhs == some (.value u))

def compareTo (u : Value) : Option Obj → Except JavaException Ordering
  | none => .error .nullPointer
  | some .nullField => .error .classCast
  | some (.value v) => match u.compareTo v with
    | none => .error .classCast
    | some o => .ok o

/-- The four comparisons by order: null is only as large as null, and otherwise the outcome of
`compareTo` decides. -/
def compareOrder (keeps : Ordering → Bool) (lhs : Option Value) (rhs : Option Obj) :
    Except JavaException Bool :=
  match lhs with
  | none => .ok rhs.isNone
  | some u => (compareTo u rhs).map keeps

def compareLessThan := compareOrder Ordering.isLT
def compareGreaterThan := compareOrder Ordering.isGT
def compareLessThanEqualTo := compareOrder Ordering.isLE
def compareGreaterThanEqualTo := compareOrder Ordering.isGE

def compareIn (lhs : Option Value) (rhs : List (Option Value)) : Bool :=
  match lhs with
  | none => false
  | some u => rhs.contains (some u)

/-! ### Patterns -/

def substitute (f : Char → Option (List Char)) (s : List Char) : List Char :=
  s.flatMap fun c => (f c).getD [c]

def isEscaped (c : Char) : Bool := "$^.+*?".toList.contains c

/-- **`makeOroPattern`**: the three substitutions. -/
def makeOroPattern (sqlLike : List Char) : List Char :=
  let sqlLike := substitute (fun c => if isEscaped c then some ['\\', c] else none) sqlLike
  let sqlLike := substitute (fun c => if c = '%' then some ['.', '*'] else none) sqlLike
  substitute (fun c => if c = '_' then some ['.'] else none) sqlLike

/-- The characters with a meaning in a regular expression that `makeOroPattern` leaves alone. -/
def isUnescaped (c : Char) : Bool := "\\()[]{}|".toList.contains c

def regexItem : Glob Char → List Char
  | .lit c => if isEscaped c then ['\\', c] else [c]
  | .one => ['.']
  | .many => ['.', '*']

def likeItem (c : Char) : Glob Char :=
  if c = '%' then .many else if c = '_' then .one else .lit c

def likeItems (sqlLike : List Char) : List (Glob Char) := sqlLike.map likeItem

/-- The matcher of the regular expression library: a text that is no regular expression has
none. Of plain items, `.` stands for all characters but the line break. -/
structure Perl5 where
  matcher : List Char → Option (List Char → Bool)
  matcher_items : ∀ items : List (Glob Char), (∀ c, Glob.lit c ∈ items → isUnescaped c = false) →
    ∃ m, matcher (items.flatMap regexItem) = some m ∧
      ∀ s, m s = Glob.accepts (fun c => c != '\n') items s

section Evaluation

variable (perl : Perl5)

def compareLike (lhs : Option Value) (rhs : Option Obj) : Except JavaException Bool :=
  match lhs, rhs with
  | none, rhs => .ok rhs.isNone
  | some (.string s), some (.value (.string p)) =>
    match perl.matcher (makeOroPattern p) with
    | none => .error .nullPointer
    | some m => .ok (m s)
  | _, _ => .ok true

def ComparableOperator.compare (lhs : Option Value) (rhs : Option Obj) :
    ComparableOperator → Except JavaException Bool
  | .equals => .ok (compareEqual lhs rhs)
  | .notEqual => .ok (compareNotEqual lhs rhs)
  | .lessThan => compareLessThan lhs rhs
  | .greaterThan => compareGreaterThan lhs rhs
  | .lessThanEqualTo => compareLessThanEqualTo lhs rhs
  | .greaterThanEqualTo => compareGreaterThanEqualTo lhs rhs
  | .like => compareLike perl lhs rhs
  | .notLike => (compareLike perl lhs rhs).map not

/-- `compare` of the operators on collections. `BETWEEN` has the one of `IN`. -/
def CollectionOperator.compare (lhs : Option Value) (rhs : List (Option Value)) :
    CollectionOperator → Bool
  | .isIn => compareIn lhs rhs
  | .between => compareIn lhs rhs
  | .notIn => !compareIn lhs rhs

variable (row : Row)

mutual

/-- **`mapMatches`.** -/
def EntityCondition.mapMatches : EntityCondition → Except JavaException Bool
  | .comparable e => e.operator.compare perl (row e.lhs) (e.rhs.getValue row)
  | .collection e => .ok (e.operator.compare (row e.lhs) e.rhs)
  | .joined l op r => do
    if (← l.mapMatches) = op.shortCircuitValue then pure op.shortCircuitValue
    else if (← r.mapMatches) = op.shortCircuitValue then pure op.shortCircuitValue
    else pure !op.shortCircuitValue
  | .list cs op => mapMatchesList op cs

def EntityCondition.mapMatchesList (op : EntityJoinOperator) :
    List EntityCondition → Except JavaException Bool
  | [] => .ok !op.shortCircuitValue
  | c :: cs => do
    if (← c.mapMatches) = op.shortCircuitValue then pure op.shortCircuitValue
    else mapMatchesList op cs

end

end Evaluation

/-! ### Patterns as items -/

theorem substitute_flatMap {α : Type*} {f : Char → Option (List Char)} {g : α → List Char}
    {items : List α} :
    substitute f (items.flatMap g) = items.flatMap fun i => substitute f (g i) := by
  rw [substitute, List.flatMap_assoc]
  rfl

theorem makeOroPattern_eq (sqlLike : List Char) :
    makeOroPattern sqlLike = (likeItems sqlLike).flatMap regexItem := by
  have hescape : substitute (fun c => if isEscaped c then some ['\\', c] else none) sqlLike =
      sqlLike.flatMap fun c => if isEscaped c then ['\\', c] else [c] := by
    refine congrArg (fun f => sqlLike.flatMap f) (funext fun c => ?_)
    by_cases hescaped : isEscaped c = true <;> simp [hescaped]
  rw [makeOroPattern, hescape, likeItems, List.flatMap_map]
  simp only [substitute_flatMap]
  refine congrArg (fun f => sqlLike.flatMap f) (funext fun c => ?_)
  by_cases hmany : c = '%'
  · subst hmany
    rfl
  · by_cases hone : c = '_'
    · subst hone
      rfl
    · by_cases hescaped : isEscaped c = true
      · simp [substitute, likeItem, regexItem, hmany, hone, hescaped]
      · simp [substitute, likeItem, regexItem, hmany, hone, hescaped]

def IsPlain (sqlLike : List Char) : Prop := ∀ c ∈ sqlLike, isUnescaped c = false

/-- **The regular expression of a plain pattern** matches as the pattern does, but for the line
break, which no wildcard stands for. -/
theorem Perl5.matcher_plain (perl : Perl5) {p : List Char} (hp : IsPlain p) :
    ∃ m, perl.matcher (makeOroPattern p) = some m ∧
      ∀ s, m s = Glob.accepts (fun c => c != '\n') (likeItems p) s := by
  rw [makeOroPattern_eq]
  refine perl.matcher_items (likeItems p) fun c hc => ?_
  obtain ⟨d, hd, hitem⟩ := List.mem_map.mp hc
  unfold likeItem at hitem
  split_ifs at hitem
  · exact Glob.lit.inj hitem ▸ hp d hd

end OfficeAuto.Entity
