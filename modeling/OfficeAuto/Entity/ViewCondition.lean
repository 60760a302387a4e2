import OfficeAuto.Entity.ConditionTree
import OfficeAuto.Entity.WhereString
import OfficeAuto.Logic.JoinTree
import OfficeAuto.Text.Split

/-!
# The conditions of a view

A view declares a tree of expressions and lists, and may ask for a filter by date.
`createCondition` makes a condition of the tree: every expression and every list of two or more
brings the filter along, and a list joins it with its own operator.

The condition is written as SQL, which fails if one of its comparisons cannot be written. What a
row of the view holds is known by its columns, and the SQL function UPPER is a parameter.

**The condition is the declared one** on a row, unless a comparison cannot be written, and unless
the filter makes up for members of a list that is joined by OR (`selects_iff_declares`).
-/

namespace OfficeAuto.Entity.View

open Identity (EntityComparisonOperator)

/-! ### Conditions -/

abbrev EntityAlias := List Char

/-- A column of the view. -/
structure EntityFieldValue where
  fieldName : Option FieldName
  entityAlias : Option EntityAlias
  entityAliasStack : List EntityAlias
  deriving DecidableEq, Repr

abbrev ViewRow := EntityFieldValue → Option Value

/-- The values that an expression compares with. -/
inductive ExprValue
  | value (v : Value)
  | collection (vs : List (Option Value))
  deriving DecidableEq, Repr

inductive ExprOperand
  | null
  | value (v : ExprValue)
  | field (f : EntityFieldValue)
  deriving DecidableEq, Repr

/-- A side of a comparison, which may stand in `EntityFunction.UPPER`. -/
structure Side where
  operand : ExprOperand
  isUpper : Bool
  deriving DecidableEq, Repr

structure EntityExpr where
  lhs : Side
  operator : EntityComparisonOperator
  rhs : Side
  deriving DecidableEq, Repr

/-- `EntityExpr` of a comparison, and `EntityDateFilterCondition`. -/
inductive SimpleCondition
  | expr (e : EntityExpr)
  | dateFilter (fromDateName thruDateName : FieldName)
  deriving DecidableEq, Repr

abbrev EntityCondition := JoinTree SimpleCondition

def plainField (fieldName : FieldName) : EntityFieldValue := ⟨some fieldName, none, []⟩

/-- `EntityDateFilterCondition.makeCondition` of a moment. -/
def makeCondition (moment : Timestamp) (fromDateName thruDateName : FieldName) :
    JoinTree EntityExpr :=
  let compare (fieldName : FieldName) (operator : ComparableOperator) (rhs : ExprOperand) :=
    .leaf ⟨⟨.field (plainField fieldName), false⟩, .comparable operator, ⟨rhs, false⟩⟩
  .list [
    .list [compare thruDateName .equals .null,
      compare thruDateName .greaterThan (.value (.value (.timestamp moment)))] .or,
    .list [compare fromDateName .equals .null,
      compare fromDateName .lessThanEqualTo (.value (.value (.timestamp moment)))] .or] .and

/-- `EntityUtil.getFilterByDateExpr` -/
def getFilterByDateExpr : EntityCondition :=
  .leaf (.dateFilter "fromDate".toList "thruDate".toList)

/-! ### The view -/

/-- What `createCondition` may throw. -/
inductive IllegalArgumentException
  | noField (fieldName : FieldName)
  | noConversion
  | noPair
  deriving DecidableEq, Repr

structure ModelAlias where
  entityAlias : EntityAlias
  field : FieldName

/-- What is asked of the view: its aliases, the fields of its members, and how a value is converted
to the type of a field. -/
structure ModelViewEntity (ModelField : Type) where
  getAlias : FieldName → Option ModelAlias
  getModelField : Option EntityAlias → FieldName → Option ModelField
  convertFieldValue : ModelField → ExprValue → Except IllegalArgumentException (Option Value)

structure ViewConditionExpr where
  entityAlias : Option EntityAlias
  fieldName : FieldName
  operator : EntityComparisonOperator
  relEntityAlias : Option EntityAlias
  relFieldName : Option FieldName
  value : Option ExprValue
  ignoreCase : Bool

/-- **`ViewCondition`**: `ViewConditionExpr`, and `ViewConditionList` with its operator. -/
abbrev ViewCondition := JoinTree ViewConditionExpr

section Create

variable {ModelField : Type} (view : ModelViewEntity ModelField)
  (entityAliasStack : List EntityAlias) (filterByDate : Bool)

/-- `EntityFieldValue.makeFieldValue`: below another view, the name may be the one of an alias. -/
def makeFieldValue (fieldName : Option FieldName) (entityAlias : Option EntityAlias) :
    EntityFieldValue :=
  if entityAliasStack ≠ [] ∧ (entityAlias = none ∨ entityAlias = some []) then
    match fieldName.bind view.getAlias with
    | some modelAlias => ⟨some modelAlias.field, some modelAlias.entityAlias, entityAliasStack⟩
    | none => ⟨fieldName, entityAlias, entityAliasStack⟩
  else ⟨fieldName, entityAlias, entityAliasStack⟩

def ModelViewEntity.fieldOf (f : EntityFieldValue) : Option ModelField :=
  f.fieldName.bind (view.getModelField f.entityAlias)

def isInOrBetween (operator : EntityComparisonOperator) : Bool :=
  operator = .collection .isIn ∨ operator = .collection .between

def splitValue (operator : EntityComparisonOperator) (value : Option ExprValue) :
    Option ExprValue :=
  match isInOrBetween operator, value with
  | true, some (.value (.string s)) =>
    let delim := if '|' ∈ s then some '|' else if ',' ∈ s then some ',' else none
    match delim with
    | none => value
    | some delim =>
      match Text.tokens delim s with
      -- a list without members is left out, as null is
      | [] => none
      | splitList => some (.collection (splitList.map fun s => some (.string s)))
  | _, _ => value

/-- `EntityCondition.makeCondition` of two sides: BETWEEN has to have two bounds. -/
def makeExpr (lhs : Side) (operator : EntityComparisonOperator) (rhs : Side) :
    Except IllegalArgumentException EntityCondition :=
  if operator = .collection .between then
    match rhs with
    | ⟨.value (.collection [_, _]), false⟩ => .ok (.leaf (.expr ⟨lhs, operator, rhs⟩))
    | _ => .error .noPair
  else .ok (.leaf (.expr ⟨lhs, operator, rhs⟩))

namespace ViewConditionExpr

variable (e : ViewConditionExpr)

def lhs : EntityFieldValue := makeFieldValue view entityAliasStack (some e.fieldName) e.entityAlias

def relField : EntityFieldValue :=
  makeFieldValue view entityAliasStack e.relFieldName e.relEntityAlias

def readValue (lhsField : ModelField) : Except IllegalArgumentException (Option ExprValue) :=
  match isInOrBetween e.operator, splitValue e.operator e.value with
  | true, some (.collection vs) => .ok (some (.collection vs))
  | _, none => .ok none
  | _, some value => (view.convertFieldValue lhsField value).map fun value => value.map .value

/-- The comparison that is made with the value, or with the other field. -/
def makeComparison (value : Option ExprValue) :
    Except IllegalArgumentException EntityCondition :=
  let lhs := ExprOperand.field (e.lhs view entityAliasStack)
  let rhs := match value with
    | some value => .value value
    | none => .field (e.relField view entityAliasStack)
  if e.operator = .comparable .notEqual ∧ value ≠ none then
    -- some databases leave null out of comparisons
    (makeExpr ⟨lhs, e.ignoreCase⟩ e.operator ⟨rhs, e.ignoreCase⟩).map fun c =>
      .list [c, .leaf (.expr ⟨⟨lhs, false⟩, .comparable .equals, ⟨.null, false⟩⟩)] .or
  else if value = none ∧ e.relFieldName = none ∧
      (e.operator = .comparable .equals ∨ e.operator = .comparable .notEqual) then
    -- neither a value nor a field to compare with: a test for null
    makeExpr ⟨lhs, false⟩ e.operator ⟨.null, false⟩
  else makeExpr ⟨lhs, e.ignoreCase⟩ e.operator ⟨rhs, e.ignoreCase⟩

/-- **`ViewConditionExpr.createCondition`.** -/
def createCondition : Except IllegalArgumentException EntityCondition :=
  match view.fieldOf (e.lhs view entityAliasStack) with
  | none => .error (.noField e.fieldName)
  | some lhsField => do
    let value ← e.readValue view lhsField
    let entityCondition ← e.makeComparison view entityAliasStack value
    if filterByDate then return .list [entityCondition, getFilterByDateExpr] .and
    else return entityCondition

end ViewConditionExpr

mutual

/-- **`createCondition`** of expressions and lists. A list of none has no condition. -/
def createCondition : ViewCondition → Except IllegalArgumentException (Option EntityCondition)
  | .leaf e => (e.createCondition view entityAliasStack filterByDate).map some
  | .list [] _ => .ok none
  | .list [condition] _ => createCondition condition
  | .list conditionList operator => do
    let entityConditionList ← createConditions conditionList
    let dateFilter := if filterByDate then [getFilterByDateExpr] else []
    return some (.list (entityConditionList ++ dateFilter ++ dateFilter) operator)

def createConditions : List ViewCondition → Except IllegalArgumentException (List EntityCondition)
  | [] => .ok []
  | curCondition :: conditionList => do
    let econd ← createCondition curCondition
    let entityConditionList ← createConditions conditionList
    return econd.toList ++ entityConditionList

end

end Create

/-! ### What is selected -/

section Selects

variable {ModelField : Type} (view : ModelViewEntity ModelField) (upper : Value → Value)
  (moment : Timestamp) (row : ViewRow)

def foldCase (isUpper : Bool) (v : Option Value) : Option Value :=
  if isUpper then v.map upper else v

def Side.getValue (side : Side) : Option Value :=
  match side.operand with
  | .value (.value v) => foldCase upper side.isUpper (some v)
  | .field f => foldCase upper side.isUpper (row f)
  | .null | .value (.collection _) => none

def EntityExpr.eval (e : EntityExpr) : Kleene :=
  match e.operator, e.rhs.operand with
  | .comparable .equals, .null => .ofBool (e.lhs.getValue upper row).isNone
  | .comparable .notEqual, .null => .ofBool (e.lhs.getValue upper row).isSome
  | .comparable op, _ => op.sql (e.lhs.getValue upper row) (e.rhs.getValue upper row)
  | .collection .isIn, .value (.collection vs) => sqlIn (e.lhs.getValue upper row) vs
  | .collection .notIn, .value (.collection vs) => (sqlIn (e.lhs.getValue upper row) vs).not
  | .collection .between, .value (.collection [lower, higher]) =>
    (sqlCompare Ordering.isGE (e.lhs.getValue upper row) lower).and
      (sqlCompare Ordering.isLE (e.lhs.getValue upper row) higher)
  | _, _ => .unknown

/-- **A comparison can be written**: null has to be compared by equality, a field has to exist, and
the operators of collections cast their right side to a collection. -/
def EntityExpr.IsWritten (e : EntityExpr) : Prop :=
  match e.operator, e.rhs with
  | .comparable op, ⟨.null, _⟩ => op = .equals ∨ op = .notEqual
  | .comparable _, ⟨.value (.value _), _⟩ => True
  | .comparable _, ⟨.field f, _⟩ => (view.fieldOf f).isSome
  | .collection .notIn, ⟨.value (.collection vs), false⟩ => vs ≠ []
  | .collection _, ⟨.value (.collection _), false⟩ => True
  | _, _ => False

def SimpleCondition.IsWritten : SimpleCondition → Prop
  | .expr e => e.IsWritten view
  | .dateFilter _ _ => True

def SimpleCondition.Holds : SimpleCondition → Prop
  | .expr e => e.eval upper row = .true
  | .dateFilter fromDateName thruDateName =>
    (makeCondition moment fromDateName thruDateName).Holds fun e => e.eval upper row = .true

/-- **A condition selects a row**: it can be written, and it is true of the row. -/
def Selects (c : EntityCondition) : Prop :=
  c.Forall (·.IsWritten view) ∧ c.Holds (·.Holds upper moment row)

end Selects

/-! ### What is declared -/

section Declared

variable {ModelField : Type} (view : ModelViewEntity ModelField)
  (entityAliasStack : List EntityAlias) (filterByDate : Bool) (upper : Value → Value)
  (moment : Timestamp) (row : ViewRow)

namespace ViewConditionExpr

variable (e : ViewConditionExpr)

/-- What an expression says of a row, with the value that was read. A field without a value is not
equal to any value. -/
def Says (value : Option ExprValue) : Prop :=
  let column := row (e.lhs view entityAliasStack)
  let lhs := foldCase upper e.ignoreCase column
  match e.operator, value with
  | .comparable op, none =>
    if e.relFieldName = none then (op = .equals ∧ column = none) ∨ (op = .notEqual ∧ column ≠ none)
    else op.sql lhs (foldCase upper e.ignoreCase (row (e.relField view entityAliasStack))) = .true
  | .comparable op, some (.value v) =>
    (op = .notEqual ∧ column = none) ∨ op.sql lhs (foldCase upper e.ignoreCase (some v)) = .true
  | .collection .isIn, some (.value v) => sqlIn lhs [foldCase upper e.ignoreCase (some v)] = .true
  | .collection .notIn, some (.value v) =>
    (sqlIn lhs [foldCase upper e.ignoreCase (some v)]).not = .true
  | .collection .isIn, some (.collection vs) =>
    sqlIn lhs (vs.map (foldCase upper e.ignoreCase)) = .true
  | .collection .between, some (.collection [lower, higher]) =>
    sqlCompare Ordering.isGE lhs (foldCase upper e.ignoreCase lower) = .true ∧
      sqlCompare Ordering.isLE lhs (foldCase upper e.ignoreCase higher) = .true
  | _, _ => False

def Reads (value : Option ExprValue) : Prop :=
  ∃ lhsField, view.fieldOf (e.lhs view entityAliasStack) = some lhsField ∧
    e.readValue view lhsField = .ok value

def IsTrue : Prop :=
  ∃ value, e.Reads view entityAliasStack value ∧ e.Says view entityAliasStack upper row value

/-- The comparison with the value can be written: it is by equality if there is nothing to compare
with, and a collection is compared without UPPER. -/
def CanWriteWith (value : Option ExprValue) : Prop :=
  match e.operator, value with
  | .comparable op, none => (e.relFieldName = none ∧ (op = .equals ∨ op = .notEqual)) ∨
      (view.fieldOf (e.relField view entityAliasStack)).isSome = true
  | .comparable _, some _ => True
  | .collection _, some (.collection _) => e.ignoreCase = false
  | _, _ => False

def CanWrite : Prop :=
  ∃ value, e.Reads view entityAliasStack value ∧ e.CanWriteWith view entityAliasStack value

end ViewConditionExpr

def InForce : Prop :=
  let fromDate := row (plainField "fromDate".toList)
  let thruDate := row (plainField "thruDate".toList)
  (thruDate = none ∨
    ComparableOperator.greaterThan.sql thruDate (some (.timestamp moment)) = .true) ∧
  (fromDate = none ∨
    ComparableOperator.lessThanEqualTo.sql fromDate (some (.timestamp moment)) = .true)

/-- **What is declared**: the tree, and the filter if it is asked for. -/
def Declares (condition : ViewCondition) : Prop :=
  condition.Holds (·.IsTrue view entityAliasStack upper row) ∧
    (filterByDate = true → InForce moment row)

mutual

/-- The tree holds if its lists of two or more that are joined by OR do. -/
def HoldsBesideOr (p : ViewConditionExpr → Prop) : ViewCondition → Prop
  | .leaf e => p e
  | .list [] _ => True
  | .list [condition] _ => HoldsBesideOr p condition
  | .list conditionList .and => AllHoldBesideOr p conditionList
  | .list _ .or => True

def AllHoldBesideOr (p : ViewConditionExpr → Prop) : List ViewCondition → Prop
  | [] => True
  | condition :: conditionList => HoldsBesideOr p condition ∧ AllHoldBesideOr p conditionList

end

/-- **The filter makes up for a list**: the row is in force and is missed only in lists that are
joined by OR. -/
def FilterMakesUp (condition : ViewCondition) : Prop :=
  filterByDate = true ∧ InForce moment row ∧
    HoldsBesideOr (·.IsTrue view entityAliasStack upper row) condition ∧
    ¬ condition.Holds (·.IsTrue view entityAliasStack upper row)

end Declared

/-! ### Expressions -/

section Expressions

variable {ModelField : Type} {view : ModelViewEntity ModelField}
  {entityAliasStack : List EntityAlias} {filterByDate : Bool} {upper : Value → Value}
  {moment : Timestamp} {row : ViewRow} {e : ViewConditionExpr} {value : Option ExprValue}

theorem getFilterByDateExpr_holds :
    getFilterByDateExpr.Holds (·.Holds upper moment row) ↔ InForce moment row := by
  rw [getFilterByDateExpr, JoinTree.holds_leaf]
  show (makeCondition moment _ _).Holds _ ↔ _
  simp [makeCondition, JoinTree.holds_and, JoinTree.holds_or, JoinTree.holds_leaf, InForce,
    EntityExpr.eval, Side.getValue, foldCase]

theorem makeExpr_eq_ok {lhs rhs : Side} {operator : EntityComparisonOperator} {c : EntityCondition}
    (h : makeExpr lhs operator rhs = .ok c) : c = .leaf (.expr ⟨lhs, operator, rhs⟩) ∧
      (operator = .collection .between →
        ∃ lower higher, rhs = ⟨.value (.collection [lower, higher]), false⟩) := by
  unfold makeExpr at h
  by_cases hoperator : operator = .collection .between
  · rw [if_pos hoperator] at h
    split at h
    · exact ⟨(Except.ok.inj h).symm, fun _ => ⟨_, _, rfl⟩⟩
    · cases h
  · rw [if_neg hoperator] at h
    exact ⟨(Except.ok.inj h).symm, fun hbetween => absurd hbetween hoperator⟩

theorem reads_unique {value' : Option ExprValue} (h : e.Reads view entityAliasStack value)
    (h' : e.Reads view entityAliasStack value') : value = value' := by
  obtain ⟨lhsField, hfield, hread⟩ := h
  obtain ⟨lhsField', hfield', hread'⟩ := h'
  obtain rfl := Option.some.inj (hfield.symm.trans hfield')
  exact Except.ok.inj (hread.symm.trans hread')

theorem isInOrBetween_of_reads {vs : List (Option Value)}
    (h : e.Reads view entityAliasStack (some (.collection vs))) :
    isInOrBetween e.operator = true := by
  obtain ⟨lhsField, -, hread⟩ := h
  rw [ViewConditionExpr.readValue] at hread
  split at hread
  · assumption
  · cases hread
  · obtain ⟨converted, -, hvalue⟩ := Except.map_eq_ok.mp hread
    cases converted <;> cases hvalue

theorem canWrite_iff (h : e.Reads view entityAliasStack value) :
    e.CanWrite view entityAliasStack ↔ e.CanWriteWith view entityAliasStack value :=
  ⟨fun ⟨_, hreads, hwrite⟩ => reads_unique hreads h ▸ hwrite, fun hwrite => ⟨value, h, hwrite⟩⟩

theorem isTrue_iff (h : e.Reads view entityAliasStack value) :
    e.IsTrue view entityAliasStack upper row ↔ e.Says view entityAliasStack upper row value :=
  ⟨fun ⟨_, hreads, hsays⟩ => reads_unique hreads h ▸ hsays, fun hsays => ⟨value, h, hsays⟩⟩

/-- What a comparison has to do with the expression it is made of. -/
structure Compares (view : ModelViewEntity ModelField) (entityAliasStack : List EntityAlias)
    (upper : Value → Value) (moment : Timestamp) (row : ViewRow) (e : ViewConditionExpr)
    (value : Option ExprValue) (c : EntityCondition) : Prop where
  notVoid : c.isVoid = false
  written : c.Forall (·.IsWritten view) ↔ e.CanWriteWith view entityAliasStack value
  holds : e.CanWriteWith view entityAliasStack value →
    (c.Holds (·.Holds upper moment row) ↔ e.Says view entityAliasStack upper row value)

theorem compares_leaf {x : EntityExpr}
    (hwritten : x.IsWritten view ↔ e.CanWriteWith view entityAliasStack value)
    (hholds : e.CanWriteWith view entityAliasStack value →
      (x.eval upper row = .true ↔ e.Says view entityAliasStack upper row value)) :
    Compares view entityAliasStack upper moment row e value (.leaf (.expr x)) :=
  ⟨JoinTree.isVoid_leaf _, JoinTree.forall_leaf.trans hwritten,
    fun h => JoinTree.holds_leaf.trans (hholds h)⟩

theorem fieldOf_relField (h : e.relFieldName = none) :
    view.fieldOf (e.relField view entityAliasStack) = none := by
  have hname : (e.relField view entityAliasStack).fieldName = none := by
    rw [ViewConditionExpr.relField, makeFieldValue, h]
    split_ifs <;> rfl
  rw [ModelViewEntity.fieldOf, hname]
  rfl

theorem compares_null {op : ComparableOperator} {c : EntityCondition}
    (hoperator : e.operator = .comparable op)
    (h : e.makeComparison view entityAliasStack none = .ok c) :
    Compares view entityAliasStack upper moment row e none c := by
  unfold ViewConditionExpr.makeComparison at h
  rw [if_neg (fun hne => hne.2 rfl)] at h
  by_cases hnull : e.relFieldName = none ∧ (op = .equals ∨ op = .notEqual)
  · rw [if_pos (by simpa [hoperator] using hnull), hoperator] at h
    obtain ⟨rfl, -⟩ := makeExpr_eq_ok h
    refine compares_leaf ?_ fun _ => ?_
    · simp [EntityExpr.IsWritten, ViewConditionExpr.CanWriteWith, hoperator, hnull]
    · rcases hnull with ⟨hrel, rfl | rfl⟩
      · simp [EntityExpr.eval, ViewConditionExpr.Says, hoperator, hrel, Side.getValue, foldCase]
      · simp [EntityExpr.eval, ViewConditionExpr.Says, hoperator, hrel, Side.getValue, foldCase,
          Option.isSome_iff_ne_none]
  · rw [if_neg (by simpa [hoperator] using hnull), hoperator] at h
    obtain ⟨rfl, -⟩ := makeExpr_eq_ok h
    refine compares_leaf ?_ fun hwrite => ?_
    · simp [EntityExpr.IsWritten, ViewConditionExpr.CanWriteWith, hoperator, hnull]
    · have hrel : e.relFieldName ≠ none := by
        intro hrel
        simp [ViewConditionExpr.CanWriteWith, hoperator, fieldOf_relField hrel] at hwrite
        exact hnull hwrite
      cases op <;> simp [EntityExpr.eval, ViewConditionExpr.Says, hoperator, hrel, Side.getValue]

theorem compares_value {op : ComparableOperator} {v : Value} {c : EntityCondition}
    (hoperator : e.operator = .comparable op)
    (h : e.makeComparison view entityAliasStack (some (.value v)) = .ok c) :
    Compares view entityAliasStack upper moment row e (some (.value v)) c := by
  unfold ViewConditionExpr.makeComparison at h
  by_cases hop : op = .notEqual
  · subst hop
    rw [if_pos ⟨hoperator, Option.some_ne_none _⟩, hoperator] at h
    obtain ⟨c', hc', rfl⟩ := Except.map_eq_ok.mp h
    obtain ⟨rfl, -⟩ := makeExpr_eq_ok hc'
    refine ⟨?_, ?_, fun _ => ?_⟩
    · simp [JoinTree.isVoid, JoinTree.allVoid]
    · simp [JoinTree.forall_list, JoinTree.forall_leaf, SimpleCondition.IsWritten,
        EntityExpr.IsWritten, ViewConditionExpr.CanWriteWith, hoperator]
    · simp [JoinTree.holds_or, JoinTree.holds_leaf, SimpleCondition.Holds, EntityExpr.eval,
        ViewConditionExpr.Says, hoperator, Side.getValue, foldCase, or_comm]
  · rw [if_neg (by simp [hoperator, hop]), if_neg (by simp), hoperator] at h
    obtain ⟨rfl, -⟩ := makeExpr_eq_ok h
    refine compares_leaf ?_ fun _ => ?_
    · simp [EntityExpr.IsWritten, ViewConditionExpr.CanWriteWith, hoperator]
    · cases op <;> simp [EntityExpr.eval, ViewConditionExpr.Says, hoperator, Side.getValue] at hop ⊢

theorem compares_collection {op : CollectionOperator} {vs : List (Option Value)}
    {c : EntityCondition} (hoperator : e.operator = .collection op) (hop : op ≠ .notIn)
    (h : e.makeComparison view entityAliasStack (some (.collection vs)) = .ok c) :
    Compares view entityAliasStack upper moment row e (some (.collection vs)) c := by
  have hfold : foldCase upper false = id := rfl
  unfold ViewConditionExpr.makeComparison at h
  rw [if_neg (by simp [hoperator]), if_neg (by simp), hoperator] at h
  obtain ⟨rfl, hbetween⟩ := makeExpr_eq_ok h
  cases hcase : e.ignoreCase with
  | true =>
    refine compares_leaf ?_ fun hwrite => ?_
    · cases op <;> simp [EntityExpr.IsWritten, ViewConditionExpr.CanWriteWith, hoperator, hcase]
    · simp [ViewConditionExpr.CanWriteWith, hoperator, hcase] at hwrite
  | false =>
    cases op with
    | isIn =>
      refine compares_leaf ?_ fun _ => ?_
      · simp [EntityExpr.IsWritten, ViewConditionExpr.CanWriteWith, hoperator, hcase]
      · simp [EntityExpr.eval, ViewConditionExpr.Says, hoperator, hcase, Side.getValue, hfold]
    | between =>
      obtain ⟨lower, higher, hrhs⟩ := hbetween rfl
      obtain rfl : vs = [lower, higher] := by simpa [hcase] using hrhs
      refine compares_leaf ?_ fun _ => ?_
      · simp [EntityExpr.IsWritten, ViewConditionExpr.CanWriteWith, hoperator, hcase]
      · simp [EntityExpr.eval, ViewConditionExpr.Says, hoperator, hcase, Side.getValue, hfold]
    | notIn => exact absurd rfl hop

theorem compares_unwritten {c : EntityCondition} (hoperator : ∀ op, e.operator ≠ .comparable op)
    (hvalue : ∀ vs, value ≠ some (.collection vs))
    (hcan : ¬ e.CanWriteWith view entityAliasStack value)
    (h : e.makeComparison view entityAliasStack value = .ok c) :
    Compares view entityAliasStack upper moment row e value c := by
  unfold ViewConditionExpr.makeComparison at h
  rw [if_neg (fun hand => hoperator _ hand.1),
    if_neg (fun hand => hand.2.2.elim (hoperator _) (hoperator _))] at h
  obtain ⟨rfl, -⟩ := makeExpr_eq_ok h
  refine compares_leaf (iff_of_false ?_ hcan) fun hwrite => absurd hwrite hcan
  rcases hop : e.operator with op | op | _
  · exact absurd hop (hoperator op)
  · rcases value with _ | v | vs
    · cases op <;> simp [EntityExpr.IsWritten]
    · cases op <;> simp [EntityExpr.IsWritten]
    · exact absurd rfl (hvalue vs)
  · simp [EntityExpr.IsWritten]

/-- **The comparison is the one of the expression.** -/
theorem compares_makeComparison {c : EntityCondition} (hreads : e.Reads view entityAliasStack value)
    (h : e.makeComparison view entityAliasStack value = .ok c) :
    Compares view entityAliasStack upper moment row e value c := by
  rcases hoperator : e.operator with op | op | _
  · rcases value with _ | v | vs
    · exact compares_null hoperator h
    · exact compares_value hoperator h
    · have hin := isInOrBetween_of_reads hreads
      rw [hoperator] at hin
      exact absurd hin (by simp [isInOrBetween])
  · have hnot : ∀ op, e.operator ≠ .comparable op := by simp [hoperator]
    rcases value with _ | v | vs
    · exact compares_unwritten hnot (by simp)
        (by simp [ViewConditionExpr.CanWriteWith, hoperator]) h
    · exact compares_unwritten hnot (by simp)
        (by simp [ViewConditionExpr.CanWriteWith, hoperator]) h
    · have hin := isInOrBetween_of_reads hreads
      rw [hoperator] at hin
      refine compares_collection hoperator ?_ h
      rintro rfl
      exact absurd hin (by simp [isInOrBetween])
  · have hnot : ∀ op, e.operator ≠ .comparable op := by simp [hoperator]
    refine compares_unwritten hnot ?_ (by simp [ViewConditionExpr.CanWriteWith, hoperator]) h
    rintro vs rfl
    have hin := isInOrBetween_of_reads hreads
    rw [hoperator] at hin
    exact absurd hin (by simp [isInOrBetween])

variable (upper moment row) in
/-- **The condition of an expression**: its comparison, and the filter. -/
theorem createCondition_leaf {c : EntityCondition}
    (h : e.createCondition view entityAliasStack filterByDate = .ok c) :
    c.isVoid = false ∧ (c.Forall (·.IsWritten view) ↔ e.CanWrite view entityAliasStack) ∧
      (e.CanWrite view entityAliasStack → (c.Holds (·.Holds upper moment row) ↔
        e.IsTrue view entityAliasStack upper row ∧
          (filterByDate = true → InForce moment row))) := by
  unfold ViewConditionExpr.createCondition at h
  cases hfield : view.fieldOf (e.lhs view entityAliasStack) with
  | none =>
    rw [hfield] at h
    cases h
  | some lhsField =>
    rw [hfield] at h
    obtain ⟨value, hread, h⟩ := Except.bind_eq_ok.mp h
    obtain ⟨d, hd, h⟩ := Except.bind_eq_ok.mp h
    have hreads : e.Reads view entityAliasStack value := ⟨lhsField, hfield, hread⟩
    have hcompares : Compares view entityAliasStack upper moment row e value d :=
      compares_makeComparison hreads hd
    obtain ⟨hvoid, hwritten, hholds⟩ := hcompares
    rw [canWrite_iff hreads, isTrue_iff hreads]
    cases filterByDate with
    | false =>
      obtain rfl := Except.ok.inj h
      exact ⟨hvoid, hwritten, fun hwrite => (hholds hwrite).trans (by simp)⟩
    | true =>
      obtain rfl := Except.ok.inj h
      refine ⟨by simp [JoinTree.isVoid, JoinTree.allVoid, hvoid], ?_, fun hwrite => ?_⟩
      · rw [← hwritten, JoinTree.forall_list, List.forall_mem_cons]
        simp [getFilterByDateExpr, JoinTree.forall_leaf, SimpleCondition.IsWritten]
      · simp [JoinTree.holds_and, hholds hwrite, getFilterByDateExpr_holds]

end Expressions

/-! ### Trees -/

section Trees

variable {ModelField : Type} {view : ModelViewEntity ModelField}
  {entityAliasStack : List EntityAlias} {filterByDate : Bool} {upper : Value → Value}
  {moment : Timestamp} {row : ViewRow} {p : ViewConditionExpr → Prop}
  {condition : ViewCondition} {conditionList : List ViewCondition}

theorem allHoldBesideOr_iff :
    AllHoldBesideOr p conditionList ↔ ∀ t ∈ conditionList, HoldsBesideOr p t := by
  induction conditionList with
  | nil => simp [AllHoldBesideOr]
  | cons t ts ih => rw [AllHoldBesideOr, ih, List.forall_mem_cons]

theorem holdsBesideOr_and (h : 2 ≤ conditionList.length) :
    HoldsBesideOr p (.list conditionList .and) ↔ ∀ t ∈ conditionList, HoldsBesideOr p t := by
  match conditionList, h with
  | t :: t' :: ts, _ => rw [HoldsBesideOr, allHoldBesideOr_iff] <;> simp

theorem holdsBesideOr_or (h : 2 ≤ conditionList.length) :
    HoldsBesideOr p (.list conditionList .or) := by
  match conditionList, h with
  | t :: t' :: ts, _ => rw [HoldsBesideOr] <;> simp

theorem holdsBesideOr_of_holds (h : condition.Holds p) : HoldsBesideOr p condition := by
  induction condition using JoinTree.inductionOn with
  | leaf e =>
    rw [HoldsBesideOr]
    exact JoinTree.holds_leaf.mp h
  | list ts operator ih =>
    match ts, operator with
    | [], _ =>
      rw [HoldsBesideOr]
      trivial
    | [t], _ =>
      rw [HoldsBesideOr]
      exact ih t List.mem_cons_self (JoinTree.holds_singleton.mp h)
    | t :: t' :: ts, .and =>
      rw [holdsBesideOr_and (by simp)]
      exact fun u hu => ih u hu (JoinTree.holds_and.mp h u hu)
    | t :: t' :: ts, .or => exact holdsBesideOr_or (by simp)

theorem createConditions_eq_ok {entityConditionList : List EntityCondition}
    (h : createConditions view entityAliasStack filterByDate conditionList =
      .ok entityConditionList) :
    (∀ t ∈ conditionList, ∃ r, createCondition view entityAliasStack filterByDate t = .ok r ∧
      ∀ c, r = some c → c ∈ entityConditionList) ∧
    (∀ c ∈ entityConditionList, ∃ t ∈ conditionList,
      createCondition view entityAliasStack filterByDate t = .ok (some c)) := by
  induction conditionList generalizing entityConditionList with
  | nil =>
    rw [createConditions] at h
    obtain rfl := Except.ok.inj h
    exact ⟨fun t ht => absurd ht List.not_mem_nil, fun c hc => absurd hc List.not_mem_nil⟩
  | cons t ts ih =>
    rw [createConditions] at h
    obtain ⟨econd, hecond, h⟩ := Except.bind_eq_ok.mp h
    obtain ⟨rest, hrest, h⟩ := Except.bind_eq_ok.mp h
    obtain rfl := Except.ok.inj h
    obtain ⟨hmembers, hconditions⟩ := ih hrest
    constructor
    · intro u hu
      rcases List.mem_cons.mp hu with rfl | hu
      · exact ⟨econd, hecond, fun c hc => List.mem_append_left _ (by simp [hc])⟩
      · obtain ⟨r, hr, hmem⟩ := hmembers u hu
        exact ⟨r, hr, fun c hc => List.mem_append_right _ (hmem c hc)⟩
    · intro c hc
      rcases List.mem_append.mp hc with hc | hc
      · rw [Option.mem_toList] at hc
        exact ⟨t, List.mem_cons_self, hc ▸ hecond⟩
      · obtain ⟨u, hu, hcreate⟩ := hconditions c hc
        exact ⟨u, List.mem_cons_of_mem _ hu, hcreate⟩

theorem createCondition_list {operator : Join} {c : Option EntityCondition}
    (hlength : 2 ≤ conditionList.length)
    (h : createCondition view entityAliasStack filterByDate (.list conditionList operator) =
      .ok c) :
    ∃ entityConditionList,
      createConditions view entityAliasStack filterByDate conditionList =
        .ok entityConditionList ∧
      c = some (.list (entityConditionList ++
        (if filterByDate then [getFilterByDateExpr] else []) ++
        (if filterByDate then [getFilterByDateExpr] else [])) operator) := by
  match conditionList, hlength with
  | t :: t' :: ts, _ =>
    rw [createCondition] at h
    · obtain ⟨l, hl, h⟩ := Except.bind_eq_ok.mp h
      exact ⟨l, hl, (Except.ok.inj h).symm⟩
    all_goals simp

variable (view entityAliasStack filterByDate upper moment row) in
/-- What the condition of a tree says, if there is one: without a filter what the tree does, and
with a filter what it does beside the lists that are joined by OR. -/
structure Created (condition : ViewCondition) (c : Option EntityCondition) : Prop where
  void : c = none → condition.isVoid = true
  notVoid : ∀ d, c = some d → d.isVoid = (condition.isVoid && !filterByDate)
  written : ∀ d, c = some d → (d.Forall (·.IsWritten view) ↔
    condition.Forall (·.CanWrite view entityAliasStack))
  holds : ∀ d, c = some d → condition.Forall (·.CanWrite view entityAliasStack) →
    (d.Holds (·.Holds upper moment row) ↔
      if filterByDate then InForce moment row ∧
        HoldsBesideOr (·.IsTrue view entityAliasStack upper row) condition
      else condition.Holds (·.IsTrue view entityAliasStack upper row))

theorem created_leaf {e : ViewConditionExpr} {c : EntityCondition}
    (h : e.createCondition view entityAliasStack filterByDate = .ok c) :
    Created view entityAliasStack filterByDate upper moment row (.leaf e) (some c) := by
  obtain ⟨hvoid, hwritten, hholds⟩ := createCondition_leaf upper moment row h
  refine ⟨fun hnone => absurd hnone (Option.some_ne_none c), ?_, ?_, ?_⟩
  · rintro d ⟨⟩
    rw [hvoid, JoinTree.isVoid_leaf, Bool.false_and]
  · rintro d ⟨⟩
    exact hwritten.trans JoinTree.forall_leaf.symm
  · rintro d ⟨⟩ hwrite
    rw [hholds (JoinTree.forall_leaf.mp hwrite), HoldsBesideOr, JoinTree.holds_leaf]
    cases filterByDate with
    | false => simp
    | true => simp [and_comm]

/-- What the members of a list have, the conditions of the loop have. -/
structure Collected (view : ModelViewEntity ModelField) (entityAliasStack : List EntityAlias)
    (filterByDate : Bool) (upper : Value → Value) (moment : Timestamp) (row : ViewRow)
    (conditionList : List ViewCondition) (entityConditionList : List EntityCondition) : Prop where
  member : ∀ t ∈ conditionList, t.isVoid = true ∨ ∃ c ∈ entityConditionList,
    Created view entityAliasStack filterByDate upper moment row t (some c)
  condition : ∀ c ∈ entityConditionList, ∃ t ∈ conditionList,
    Created view entityAliasStack filterByDate upper moment row t (some c)

theorem collected_of_created {entityConditionList : List EntityCondition}
    (h : createConditions view entityAliasStack filterByDate conditionList =
      .ok entityConditionList)
    (hcreated : ∀ t ∈ conditionList, ∀ r,
      createCondition view entityAliasStack filterByDate t = .ok r →
        Created view entityAliasStack filterByDate upper moment row t r) :
    Collected view entityAliasStack filterByDate upper moment row conditionList
      entityConditionList := by
  obtain ⟨hmembers, hconditions⟩ := createConditions_eq_ok h
  constructor
  · intro t ht
    obtain ⟨r, hr, hmem⟩ := hmembers t ht
    cases r with
    | none => exact .inl ((hcreated t ht none hr).void rfl)
    | some c => exact .inr ⟨c, hmem c rfl, hcreated t ht (some c) hr⟩
  · intro c hc
    obtain ⟨t, ht, hcreate⟩ := hconditions c hc
    exact ⟨t, ht, hcreated t ht (some c) hcreate⟩

theorem forall_of_isVoid {t : ViewCondition} (h : t.isVoid = true) : t.Forall p := by
  induction t using JoinTree.inductionOn with
  | leaf e => exact absurd h (by simp)
  | list ts operator ih =>
    exact JoinTree.forall_list.mpr fun t ht => ih t ht (JoinTree.isVoid_list.mp h t ht)

theorem Collected.written {l : List EntityCondition}
    (h : Collected view entityAliasStack filterByDate upper moment row conditionList l) :
    (∀ c ∈ l, c.Forall (·.IsWritten view)) ↔
      ∀ t ∈ conditionList, t.Forall (·.CanWrite view entityAliasStack) := by
  constructor
  · intro hall t ht
    rcases h.member t ht with hvoid | ⟨c, hc, hcreated⟩
    · exact forall_of_isVoid hvoid
    · exact (hcreated.written c rfl).mp (hall c hc)
  · intro hall c hc
    obtain ⟨t, ht, hcreated⟩ := h.condition c hc
    exact (hcreated.written c rfl).mpr (hall t ht)

/-- **A list without a filter.** -/
theorem created_list_noFilter {l : List EntityCondition} {operator : Join}
    (h : Collected view entityAliasStack false upper moment row conditionList l) :
    Created view entityAliasStack false upper moment row (.list conditionList operator)
      (some (.list l operator)) := by
  have hvoid : ∀ c t, Created view entityAliasStack false upper moment row t (some c) →
      c.isVoid = t.isVoid := by
    intro c t hcreated
    simpa using hcreated.notVoid c rfl
  have hallVoid : (∀ c ∈ l, c.isVoid = true) ↔ ∀ t ∈ conditionList, t.isVoid = true := by
    constructor
    · intro hall t ht
      rcases h.member t ht with hv | ⟨c, hc, hcreated⟩
      · exact hv
      · exact hvoid c t hcreated ▸ hall c hc
    · intro hall c hc
      obtain ⟨t, ht, hcreated⟩ := h.condition c hc
      exact (hvoid c t hcreated).trans (hall t ht)
  refine ⟨fun hnone => absurd hnone (Option.some_ne_none _), ?_, ?_, ?_⟩
  · rintro d ⟨⟩
    rw [Bool.not_false, Bool.and_true, Bool.eq_iff_iff, JoinTree.isVoid_list, JoinTree.isVoid_list,
      hallVoid]
  · rintro d ⟨⟩
    rw [JoinTree.forall_list, JoinTree.forall_list, h.written]
  · rintro d ⟨⟩ hwrite
    have hmembers := JoinTree.forall_list.mp hwrite
    rw [if_neg Bool.false_ne_true]
    cases operator with
    | and =>
      rw [JoinTree.holds_and, JoinTree.holds_and]
      constructor
      · intro hall t ht
        rcases h.member t ht with hv | ⟨c, hc, hcreated⟩
        · exact JoinTree.holds_of_isVoid hv
        · exact (hcreated.holds c rfl (hmembers t ht)).mp (hall c hc)
      · intro hall c hc
        obtain ⟨t, ht, hcreated⟩ := h.condition c hc
        exact (hcreated.holds c rfl (hmembers t ht)).mpr (hall t ht)
    | or =>
      rw [JoinTree.holds_or, JoinTree.holds_or, hallVoid]
      refine or_congr_right ⟨?_, ?_⟩
      · rintro ⟨c, hc, hcvoid, hholds⟩
        obtain ⟨t, ht, hcreated⟩ := h.condition c hc
        exact ⟨t, ht, hvoid c t hcreated ▸ hcvoid,
          (hcreated.holds c rfl (hmembers t ht)).mp hholds⟩
      · rintro ⟨t, ht, htvoid, hholds⟩
        rcases h.member t ht with hv | ⟨c, hc, hcreated⟩
        · exact absurd hv (Bool.not_eq_true _ ▸ htvoid)
        · exact ⟨c, hc, (hvoid c t hcreated).trans htvoid,
            (hcreated.holds c rfl (hmembers t ht)).mpr hholds⟩

/-- **A list with the filter.** The filter is a member, so that it decides a list that is joined
by OR. -/
theorem created_list_filter {l : List EntityCondition} {operator : Join}
    (hlength : 2 ≤ conditionList.length)
    (h : Collected view entityAliasStack true upper moment row conditionList l) :
    Created view entityAliasStack true upper moment row (.list conditionList operator)
      (some (.list (l ++ [getFilterByDateExpr] ++ [getFilterByDateExpr]) operator)) := by
  have hfilter : getFilterByDateExpr ∈ l ++ [getFilterByDateExpr] ++ [getFilterByDateExpr] := by
    simp
  have hfilterVoid : getFilterByDateExpr.isVoid = false := JoinTree.isVoid_leaf _
  have hmem : ∀ c ∈ l ++ [getFilterByDateExpr] ++ [getFilterByDateExpr],
      c ∈ l ∨ c = getFilterByDateExpr := by
    simp
  refine ⟨fun hnone => absurd hnone (Option.some_ne_none _), ?_, ?_, ?_⟩
  · rintro d ⟨⟩
    rw [Bool.not_true, Bool.and_false, ← Bool.not_eq_true, JoinTree.isVoid_list]
    intro hall
    rw [hall _ hfilter] at hfilterVoid
    cases hfilterVoid
  · rintro d ⟨⟩
    rw [JoinTree.forall_list, JoinTree.forall_list, ← h.written]
    constructor
    · intro hall c hc
      exact hall c (by simp [hc])
    · intro hall c hc
      rcases hmem c hc with hc | rfl
      · exact hall c hc
      · rw [getFilterByDateExpr, JoinTree.forall_leaf]
        trivial
  · rintro d ⟨⟩ hwrite
    have hmembers := JoinTree.forall_list.mp hwrite
    rw [if_pos rfl]
    cases operator with
    | and =>
      rw [JoinTree.holds_and, holdsBesideOr_and hlength]
      constructor
      · intro hall
        refine ⟨getFilterByDateExpr_holds.mp (hall _ hfilter), fun t ht => ?_⟩
        rcases h.member t ht with hv | ⟨c, hc, hcreated⟩
        · exact holdsBesideOr_of_holds (JoinTree.holds_of_isVoid hv)
        · exact ((hcreated.holds c rfl (hmembers t ht)).mp (hall c (by simp [hc]))).2
      · rintro ⟨hforce, hall⟩ c hc
        rcases hmem c hc with hc | rfl
        · obtain ⟨t, ht, hcreated⟩ := h.condition c hc
          exact (hcreated.holds c rfl (hmembers t ht)).mpr ⟨hforce, hall t ht⟩
        · exact getFilterByDateExpr_holds.mpr hforce
    | or =>
      rw [JoinTree.holds_or, and_iff_left (holdsBesideOr_or hlength)]
      constructor
      · rintro (hall | ⟨c, hc, -, hholds⟩)
        · rw [hall _ hfilter] at hfilterVoid
          cases hfilterVoid
        · rcases hmem c hc with hc | rfl
          · obtain ⟨t, ht, hcreated⟩ := h.condition c hc
            exact ((hcreated.holds c rfl (hmembers t ht)).mp hholds).1
          · exact getFilterByDateExpr_holds.mp hholds
      · exact fun hforce => .inr ⟨_, hfilter, hfilterVoid, getFilterByDateExpr_holds.mpr hforce⟩

/-- **The condition of a tree.** -/
theorem created_createCondition {r : Option EntityCondition}
    (h : createCondition view entityAliasStack filterByDate condition = .ok r) :
    Created view entityAliasStack filterByDate upper moment row condition r := by
  induction condition using JoinTree.inductionOn generalizing r with
  | leaf e =>
    rw [createCondition] at h
    obtain ⟨c, hc, rfl⟩ := Except.map_eq_ok.mp h
    exact created_leaf hc
  | list ts operator ih =>
    match ts with
    | [] =>
      rw [createCondition] at h
      obtain rfl := Except.ok.inj h
      exact ⟨fun _ => JoinTree.isVoid_list.mpr fun t ht => absurd ht List.not_mem_nil,
        fun d hd => absurd hd.symm (Option.some_ne_none d),
        fun d hd => absurd hd.symm (Option.some_ne_none d),
        fun d hd => absurd hd.symm (Option.some_ne_none d)⟩
    | [t] =>
      rw [createCondition] at h
      obtain ⟨hvoid, hnotVoid, hwritten, hholds⟩ := ih t List.mem_cons_self h
      refine ⟨fun hnone => JoinTree.isVoid_singleton.trans (hvoid hnone), fun d hd => ?_,
        fun d hd => (hwritten d hd).trans JoinTree.forall_singleton.symm, fun d hd hwrite => ?_⟩
      · rw [JoinTree.isVoid_singleton, hnotVoid d hd]
      · rw [hholds d hd (JoinTree.forall_singleton.mp hwrite), JoinTree.holds_singleton,
          HoldsBesideOr]
    | t :: t' :: ts =>
      have hlength : 2 ≤ (t :: t' :: ts).length := by simp
      obtain ⟨l, hl, rfl⟩ := createCondition_list hlength h
      have hcollected : Collected view entityAliasStack filterByDate upper moment row
          (t :: t' :: ts) l := collected_of_created hl fun u hu r hr => ih u hu hr
      cases filterByDate with
      | false =>
        simpa using created_list_noFilter hcollected
      | true => exact created_list_filter hlength hcollected

/-- **Where the condition of a tree is the declared one**: on the rows where, if the comparisons can
be written, the filter does not make up for a list that is joined by OR, and otherwise the tree is
not true. -/
theorem selects_iff_declares {c : EntityCondition}
    (h : createCondition view entityAliasStack filterByDate condition = .ok (some c)) :
    (Selects view upper moment row c ↔
        Declares view entityAliasStack filterByDate upper moment row condition) ↔
      (condition.Forall (·.CanWrite view entityAliasStack) →
        ¬ FilterMakesUp view entityAliasStack filterByDate upper moment row condition) ∧
      (¬ condition.Forall (·.CanWrite view entityAliasStack) →
        ¬ Declares view entityAliasStack filterByDate upper moment row condition) := by
  have hcreated : Created view entityAliasStack filterByDate upper moment row condition (some c) :=
    created_createCondition h
  obtain ⟨-, -, hwritten, hholds⟩ := hcreated
  have hbeside : condition.Holds (·.IsTrue view entityAliasStack upper row) →
      HoldsBesideOr (·.IsTrue view entityAliasStack upper row) condition := holdsBesideOr_of_holds
  unfold Selects
  rw [hwritten c rfl]
  by_cases hwrite : condition.Forall (·.CanWrite view entityAliasStack)
  · rw [hholds c rfl hwrite]
    unfold Declares FilterMakesUp
    cases filterByDate with
    | false => simp [hwrite]
    | true =>
      simp only [hwrite, if_true, true_and, forall_true_left, not_true_eq_false, IsEmpty.forall_iff,
        and_true]
      tauto
  · simp [hwrite]

end Trees

/-! ### Two expressions joined by OR -/

def productView : ModelViewEntity Unit where
  getAlias _ := none
  getModelField _ _ := some ()
  convertFieldValue _ value := match value with
    | .value v => .ok (some v)
    | .collection _ => .error .noConversion

def statusIs (status : List Char) : ViewConditionExpr where
  entityAlias := some ['P']
  fieldName := ['s']
  operator := .comparable .equals
  relEntityAlias := none
  relFieldName := none
  value := some (.value (.string status))
  ignoreCase := false

def eitherStatus : ViewCondition :=
  .list [.leaf (statusIs ['A']), .leaf (statusIs ['B'])] .or

def thirdRow : ViewRow := fun f => if f.fieldName = some ['s'] then some (.string ['C']) else none

theorem isTrue_statusIs {status : List Char} {row : ViewRow} :
    (statusIs status).IsTrue productView [] id row ↔
      ComparableOperator.equals.sql (row ⟨some ['s'], some ['P'], []⟩) (some (.string status)) =
        .true := by
  have hreads : (statusIs status).Reads productView [] (some (.value (.string status))) :=
    ⟨(), rfl, rfl⟩
  rw [isTrue_iff hreads]
  simp [ViewConditionExpr.Says, statusIs, foldCase, ViewConditionExpr.lhs, makeFieldValue]

theorem canWrite_statusIs (status : List Char) : (statusIs status).CanWrite productView [] :=
  ⟨some (.value (.string status)), ⟨(), rfl, rfl⟩, trivial⟩

theorem selects_eitherStatus :
    ∃ c, createCondition productView [] true eitherStatus = .ok (some c) ∧
      Selects productView id (.ofMillis 0 (by decide)) thirdRow c ∧
      ¬ Declares productView [] true id (.ofMillis 0 (by decide)) thirdRow eitherStatus := by
  obtain ⟨c, hc⟩ : ∃ c, createCondition productView [] true eitherStatus = .ok (some c) :=
    ⟨_, rfl⟩
  have hcreated : Created productView [] true id (.ofMillis 0 (by decide)) thirdRow eitherStatus
      (some c) := created_createCondition hc
  have hwrite : eitherStatus.Forall (·.CanWrite productView []) := by
    rw [eitherStatus, JoinTree.forall_list, List.forall_mem_cons, List.forall_mem_singleton,
      JoinTree.forall_leaf, JoinTree.forall_leaf]
    exact ⟨canWrite_statusIs ['A'], canWrite_statusIs ['B']⟩
  refine ⟨c, hc, ⟨(hcreated.written c rfl).mpr hwrite, ?_⟩, fun hdeclares => ?_⟩
  · rw [hcreated.holds c rfl hwrite, if_pos rfl]
    exact ⟨⟨.inl rfl, .inl rfl⟩, holdsBesideOr_or (Nat.le_refl 2)⟩
  · have hholds := hdeclares.1
    rw [eitherStatus, JoinTree.holds_or] at hholds
    simp only [List.mem_cons, List.not_mem_nil, or_false, forall_eq_or_imp, forall_eq,
      JoinTree.isVoid_leaf, exists_eq_or_imp, exists_eq_left, JoinTree.holds_leaf,
      isTrue_statusIs] at hholds
    revert hholds
    decide

theorem selects_iff_declares_oneStatus :
    ∃ c, createCondition productView [] true (.leaf (statusIs ['C'])) = .ok (some c) ∧
    ((Selects productView id (.ofMillis 0 (by decide)) thirdRow c ↔
        Declares productView [] true id (.ofMillis 0 (by decide)) thirdRow
          (.leaf (statusIs ['C']))) ↔
      ((JoinTree.leaf (statusIs ['C'])).Forall (·.CanWrite productView []) →
        ¬ FilterMakesUp productView [] true id (.ofMillis 0 (by decide)) thirdRow
          (.leaf (statusIs ['C']))) ∧
      (¬ (JoinTree.leaf (statusIs ['C'])).Forall (·.CanWrite productView []) →
        ¬ Declares productView [] true id (.ofMillis 0 (by decide)) thirdRow
          (.leaf (statusIs ['C'])))) :=
  ⟨_, rfl, selects_iff_declares rfl⟩

end OfficeAuto.Entity.View
