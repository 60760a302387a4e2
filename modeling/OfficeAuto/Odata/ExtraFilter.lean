import OfficeAuto.Logic.Result
import OfficeAuto.Odata.ExtraReader
import OfficeAuto.Text.Decimal

/-!
# Filters on the number of related entities

`$filter=Orders/$count gt 5 and name eq 'x'` is done in two parts: the condition of the query has
the comparison of the property, and `extraOdataFilter` the one of the count.
`ExtraExpressionVisitor` takes the comparisons of counts out of the expression: what it does not
know is null, and null is left out of `and` and of `or`. Two lists of comparisons are joined by
`and`; their `or` is refused. The filter then puts the entities into a hash map with their counts,
for one comparison after the other.

**A filter that the visitor is made for** (`IsCountFilter`) is an `and` of comparisons of counts, at
least one, and of parts that are left out. Both functions select from a list that satisfies the
latter the entities on which the filter is true (`mem_extraOdataFilter_iff`).
-/

namespace OfficeAuto.Odata.ExtraFilter

/-! ### Expressions -/

inductive BinaryOperatorKind
  | has | in_ | mul | div | mod | add | sub | gt | ge | lt | le | eq | ne | and | or
  deriving DecidableEq, Repr

inductive UnaryOperatorKind
  | minus | not
  deriving DecidableEq, Repr

/-- A part of the path of a member. -/
inductive UriResource (P N : Type)
  | property (p : P)
  | navigation (n : N)
  | count
  | other
  deriving DecidableEq, Repr

/-- The expressions of a filter, as far as the visitor tells them apart. -/
inductive Expression (P N : Type)
  | literal (text : List Char)
  | member (uriResourceParts : List (UriResource P N))
  | binary (operator : BinaryOperatorKind) (left right : Expression P N)
  | unary (operator : UnaryOperatorKind) (operand : Expression P N)
  | methodCall (parameters : List (Expression P N))
  /-- Lambda expressions, aliases, types, enumerations. -/
  | other

/-- The comparisons; the filter does not know `LIKE` and `IN`. -/
inductive EntityComparisonOperator
  | compare (operator : CountOperator)
  | like
  | in_

def COMPARISONOPERATORMAP : BinaryOperatorKind → Option EntityComparisonOperator
  | .eq => some (.compare .equals)
  | .ne => some (.compare .notEqual)
  | .ge => some (.compare .greaterThanEqualTo)
  | .gt => some (.compare .greaterThan)
  | .le => some (.compare .lessThanEqualTo)
  | .lt => some (.compare .lessThan)
  | .has => some .like
  | .in_ => some .in_
  | _ => none

inductive EntityJoinOperator
  | and
  | or

def JOINOPERATORMAP : BinaryOperatorKind → Option EntityJoinOperator
  | .and => some .and
  | .or => some .or
  | _ => none

/-- What the filter may throw. -/
inductive ExtraFilterException
  | ofbizOdata
  | nullPointer
  | illegalArgument
  | numberFormat
  | classCast
  | findRelatedList
  deriving DecidableEq, Repr

/-! ### The visitor -/

/-- A comparison that the visitor has found: its navigation, if it has one on the left, and the text
on the right. -/
structure EntityExpr (N : Type) where
  lhs : Option N
  operator : EntityComparisonOperator
  rhs : List Char

/-- The objects that the visitor returns. -/
inductive Visited (P N : Type)
  | null
  | text (s : List Char)
  | resource (uriResource : UriResource P N)
  | conditions (exprs : List (EntityExpr N))

namespace Visited

variable {P N : Type}

def navigation : Visited P N → Option N
  | .resource (.navigation n) => some n
  | _ => none

def asText : Visited P N → List Char
  | .text s => s
  | _ => "java.lang.Object".toList

end Visited

variable {P N : Type}

def visitBinaryOperator (operator : BinaryOperatorKind) (left right : Visited P N) :
    Except ExtraFilterException (Visited P N) :=
  match left, right with
  -- a side that the database has filtered by is `null` here
  | .null, .conditions r => .ok (.conditions r)
  | .conditions l, .null => .ok (.conditions l)
  | .null, _ => .ok .null
  | _, .null => .ok .null
  | .conditions l, .conditions r =>
    match JOINOPERATORMAP operator with
    | some .and => .ok (.conditions (l ++ r))
    -- the sides of an `or` cannot be filtered one after the other
    | some .or => .error .ofbizOdata
    | none => .error .nullPointer
  | left, right =>
    match COMPARISONOPERATORMAP operator with
    | some operator => .ok (.conditions [⟨left.navigation, operator, right.asText⟩])
    -- arithmetic and other operators: the map of comparisons has no entry
    | none => .error .illegalArgument

def visitMember (uriResourceParts : List (UriResource P N)) : Visited P N :=
  match uriResourceParts.getLast? with
  | some .count => (uriResourceParts.head?.map .resource).getD .null
  | _ => .null

def accept : Expression P N → Except ExtraFilterException (Visited P N)
  | .literal text => .ok (.text text)
  | .member uriResourceParts => .ok (visitMember uriResourceParts)
  | .binary operator left right => do
    let left ← accept left
    let right ← accept right
    visitBinaryOperator operator left right
  | .unary _ operand => do
    let _ ← accept operand
    pure .null
  | .methodCall parameters => do
    acceptAll parameters
    pure .null
  | .other => .ok .null
where
  acceptAll : List (Expression P N) → Except ExtraFilterException Unit
    | [] => .ok ()
    | parameter :: parameters => do
      let _ ← accept parameter
      acceptAll parameters

/-! ### The filters -/

/-- The context of the query for the related entities: that of the reader has the request. -/
inductive OdataContext
  | reader
  | util
  deriving DecidableEq, Repr

/-- The related entities, by their numbers: those of a link that the entity has, and those that
`findRelatedList` finds, if it does not throw. The entries of a hash map come in some order. -/
structure EntityRelations (E N : Type) [DecidableEq E] where
  navigationLink : E → N → Option ℕ
  findRelatedList : OdataContext → E → N → Option ℕ
  hashOrder : List E → List E
  hashOrder_perm : ∀ es, (hashOrder es).Perm es.dedup

/-- `Integer.valueOf` -/
def integerValueOf (s : List Char) : Option ℤ :=
  (Decimal.readInt s).filter fun n => -2 ^ 31 ≤ n ∧ n < 2 ^ 31

section

variable {E : Type} [DecidableEq E] (relations : EntityRelations E N) (context : OdataContext)

def relCount (nav : N) (e : E) : Except ExtraFilterException ℕ :=
  match relations.navigationLink e nav with
  | some size => .ok size
  | none =>
    match relations.findRelatedList context e nav with
    | some size => .ok size
    | none => .error .findRelatedList

def readEntityRelationCount (nav : N) (es : List E) :
    Except ExtraFilterException (List (E × ℕ)) := do
  let puts ← es.mapM fun e => (relCount relations context nav e).map fun count => (e, count)
  pure ((relations.hashOrder es).filterMap fun e =>
    (puts.reverse.lookup e).map fun count => (e, count))

def filterExpr (es : List E) (expr : EntityExpr N) : Except ExtraFilterException (List E) :=
  match expr.lhs with
  | none => .ok es
  | some nav =>
    match integerValueOf expr.rhs with
    | none => .error .numberFormat
    | some condValue => do
      let relationCountMap ← readEntityRelationCount relations context nav es
      match expr.operator with
      | .compare operator => pure ((relationCountMap.filter fun entry =>
          operator.compare entry.2 condValue).map Prod.fst)
      | _ => pure (relationCountMap.map Prod.fst)

def filterEntities (filterOption : Option (Expression P N)) (es : List E) :
    Except ExtraFilterException (List E) :=
  match filterOption with
  | none => .ok es
  | some expression => do
    match ← accept expression with
    | .conditions exprs => exprs.foldlM (filterExpr relations context) es
    | .null => .error .nullPointer
    | _ => .error .classCast

/-- **`ExtraOdataReader.extraOdataFilter`** -/
def ExtraOdataReader.extraOdataFilter (filterOption : Option (Expression P N)) (es : List E) :
    Except ExtraFilterException (List E) :=
  filterEntities relations .reader filterOption es

/-- **`Util.extraOdataFilter`** -/
def Util.extraOdataFilter (filterOption : Option (Expression P N)) (es : List E) :
    Except ExtraFilterException (List E) :=
  filterEntities relations .util filterOption es

end

/-! ### When a filter is true -/

def countComparison : Expression P N → Option (N × CountOperator × ℤ)
  | .binary operator (.member [.navigation nav, .count]) (.literal text) =>
    match COMPARISONOPERATORMAP operator, integerValueOf text with
    | some (.compare operator), some condValue => some (nav, operator, condValue)
    | _, _ => none
  | _ => none

section

variable {E : Type} (holds : Expression P N → E → Bool) (count : E → N → ℕ)

/-- The truth of a filter, by the truth of its other comparisons and calls. -/
def isTrue : Expression P N → E → Bool
  | .binary .and left right, e => isTrue left e && isTrue right e
  | .binary .or left right, e => isTrue left e || isTrue right e
  | .unary .not operand, e => !isTrue operand e
  | expression, e =>
    match countComparison expression with
    | some (nav, operator, condValue) => operator.compare (count e nav) condValue
    | none => holds expression e

def restIsTrue : Expression P N → E → Bool
  | .binary .and left right, e => restIsTrue left e && restIsTrue right e
  | expression, e => (countComparison expression).isSome || isTrue holds count expression e

end

/-- **What the visitor is made for**: an `and` with a comparison of a count, whose other parts are
left out or are such filters. -/
inductive IsCountFilter : Expression P N → Prop
  | comparison {expression} : (countComparison expression).isSome → IsCountFilter expression
  | and {left right} :
      IsCountFilter left → IsCountFilter right → IsCountFilter (.binary .and left right)
  | andRest {left right} :
      IsCountFilter left → accept right = .ok .null → IsCountFilter (.binary .and left right)
  | restAnd {left right} :
      accept left = .ok .null → IsCountFilter right → IsCountFilter (.binary .and left right)

/-! ### What the visitor finds -/

section Visitor

variable {expression left right : Expression P N}

theorem exists_of_countComparison {nav : N} {operator : CountOperator} {condValue : ℤ}
    (h : countComparison expression = some (nav, operator, condValue)) :
    ∃ kind text, expression = .binary kind (.member [.navigation nav, .count]) (.literal text) ∧
      COMPARISONOPERATORMAP kind = some (.compare operator) ∧
      integerValueOf text = some condValue := by
  unfold countComparison at h
  split at h
  · split at h
    · obtain ⟨rfl, rfl, rfl⟩ : _ ∧ _ ∧ _ := by simpa using h
      exact ⟨_, _, rfl, by assumption, by assumption⟩
    · cases h
  · cases h

theorem accept_comparison {nav : N} {operator : CountOperator} {kind : BinaryOperatorKind}
    (hkind : COMPARISONOPERATORMAP kind = some (.compare operator)) (text : List Char) :
    accept (.binary kind (.member [.navigation nav, .count]) (.literal text) : Expression P N) =
      .ok (.conditions [⟨some nav, .compare operator, text⟩]) := by
  have hvisit : visitBinaryOperator kind (.resource (.navigation nav) : Visited P N) (.text text) =
      .ok (.conditions [⟨some nav, .compare operator, text⟩]) := by
    simp only [visitBinaryOperator, hkind]
    rfl
  exact hvisit

theorem not_conditions_of_and {visited visited' : Visited P N}
    (h : ∀ exprs, visitBinaryOperator .and visited visited' ≠ .ok (.conditions exprs))
    (hok : ∃ result, visitBinaryOperator .and visited visited' = .ok result) :
    (∀ exprs, visited ≠ .conditions exprs) ∧ ∀ exprs, visited' ≠ .conditions exprs := by
  obtain ⟨result, hresult⟩ := hok
  constructor
  · rintro exprs rfl
    cases visited' with
    | null => exact h exprs rfl
    | conditions exprs' => exact h (exprs ++ exprs') rfl
    | text s => cases hresult
    | resource uriResource => cases hresult
  · rintro exprs rfl
    cases visited with
    | null => exact h exprs rfl
    | conditions exprs' => exact h (exprs' ++ exprs) rfl
    | text s => cases hresult
    | resource uriResource => cases hresult

variable {E : Type} {holds : Expression P N → E → Bool} {count : E → N → ℕ}

theorem isTrue_comparison {nav : N} {operator : CountOperator} {kind : BinaryOperatorKind}
    {text : List Char} {condValue : ℤ}
    (hkind : COMPARISONOPERATORMAP kind = some (.compare operator))
    (htext : integerValueOf text = some condValue) (e : E) :
    isTrue holds count (.binary kind (.member [.navigation nav, .count]) (.literal text)) e =
      operator.compare (count e nav) condValue := by
  have hcount : countComparison
      (.binary kind (.member [.navigation nav, .count]) (.literal text) : Expression P N) =
        some (nav, operator, condValue) := by
    simp only [countComparison, hkind, htext]
  have hand : kind ≠ .and := by
    rintro rfl
    cases hkind
  have hor : kind ≠ .or := by
    rintro rfl
    cases hkind
  rw [isTrue]
  · rw [hcount]
  · exact fun _ _ h => hand (Expression.binary.inj h).1
  · exact fun _ _ h => hor (Expression.binary.inj h).1
  · rintro _ ⟨⟩

theorem restIsTrue_of_ne (h : ∀ left right, expression ≠ .binary .and left right) (e : E) :
    restIsTrue holds count expression e =
      ((countComparison expression).isSome || isTrue holds count expression e) := by
  rw [restIsTrue]
  exact h

theorem restIsTrue_eq_isTrue {visited : Visited P N} (h : accept expression = .ok visited)
    (hnot : ∀ exprs, visited ≠ .conditions exprs) (e : E) :
    restIsTrue holds count expression e = isTrue holds count expression e := by
  fun_induction restIsTrue holds count expression e generalizing visited with
  | case1 left right e ihleft ihright =>
    rw [accept] at h
    obtain ⟨visited', hleft, h⟩ := Except.bind_eq_ok.mp h
    obtain ⟨visited'', hright, h⟩ := Except.bind_eq_ok.mp h
    obtain ⟨hnotLeft, hnotRight⟩ := not_conditions_of_and (fun exprs hexprs =>
      hnot exprs (Except.ok.inj (h.symm.trans hexprs))) ⟨_, h⟩
    rw [isTrue, ihleft hleft hnotLeft, ihright hright hnotRight]
  | case2 expression e hne =>
    cases hcount : countComparison expression with
    | none => simp
    | some comparison =>
      obtain ⟨kind, text, rfl, hkind, -⟩ := exists_of_countComparison hcount
      rw [accept_comparison hkind] at h
      exact absurd (Except.ok.inj h).symm (hnot _)

def EntityExpr.IsCount (expr : EntityExpr N) (condition : N × CountOperator × ℤ) : Prop :=
  expr.lhs = some condition.1 ∧ expr.operator = .compare condition.2.1 ∧
    integerValueOf expr.rhs = some condition.2.2

/-- **The visitor**: it finds the comparisons of the counts, and an entity that satisfies the rest
satisfies the filter if it satisfies all of these. -/
theorem exists_conditions (h : IsCountFilter expression) :
    ∃ exprs conditions, accept expression = .ok (.conditions exprs) ∧
      List.Forall₂ EntityExpr.IsCount exprs conditions ∧
      ∀ holds (count : E → N → ℕ) e, isTrue holds count expression e =
        (restIsTrue holds count expression e && conditions.all fun condition =>
          condition.2.1.compare (count e condition.1) condition.2.2) := by
  induction h with
  | @comparison expression h =>
    obtain ⟨⟨nav, operator, condValue⟩, hcount⟩ := Option.isSome_iff_exists.mp h
    obtain ⟨kind, text, rfl, hkind, htext⟩ := exists_of_countComparison hcount
    refine ⟨_, [(nav, operator, condValue)], accept_comparison hkind text,
      .cons ⟨rfl, rfl, htext⟩ .nil, fun holds count e => ?_⟩
    have hne : ∀ left right, (.binary kind (.member [.navigation nav, .count]) (.literal text) :
        Expression P N) ≠ .binary .and left right := by
      intro left right heq
      rw [(Expression.binary.inj heq).1] at hkind
      cases hkind
    rw [isTrue_comparison hkind htext, restIsTrue_of_ne hne, hcount]
    simp
  | and _ _ ihleft ihright =>
    obtain ⟨exprs, conditions, hleft, hcounts, htrue⟩ := ihleft
    obtain ⟨exprs', conditions', hright, hcounts', htrue'⟩ := ihright
    refine ⟨exprs ++ exprs', conditions ++ conditions', ?_, List.rel_append hcounts hcounts',
      fun holds count e => ?_⟩
    · rw [accept, hleft, hright]
      rfl
    · rw [isTrue, htrue, htrue', restIsTrue, List.all_append]
      simp only [Bool.and_assoc, Bool.and_left_comm]
  | andRest _ hrest ih =>
    obtain ⟨exprs, conditions, hleft, hcounts, htrue⟩ := ih
    refine ⟨exprs, conditions, ?_, hcounts, fun holds count e => ?_⟩
    · rw [accept, hleft, hrest]
      rfl
    · rw [isTrue, htrue, restIsTrue, restIsTrue_eq_isTrue hrest fun _ => by simp]
      simp only [Bool.and_assoc, Bool.and_comm]
  | restAnd hrest _ ih =>
    obtain ⟨exprs, conditions, hright, hcounts, htrue⟩ := ih
    refine ⟨exprs, conditions, ?_, hcounts, fun holds count e => ?_⟩
    · rw [accept, hrest, hright]
      rfl
    · rw [isTrue, htrue, restIsTrue, restIsTrue_eq_isTrue hrest fun _ => by simp, Bool.and_assoc]

end Visitor

/-! ### What the filters return -/

section Filter

variable {E : Type} [DecidableEq E] {relations : EntityRelations E N} {context : OdataContext}
  {count : E → N → ℕ} {es : List E}

theorem mem_hashOrder {e : E} : e ∈ relations.hashOrder es ↔ e ∈ es :=
  (relations.hashOrder_perm es).mem_iff.trans List.mem_dedup

theorem lookup_map_of_mem {f : E → ℕ} {e : E} (h : e ∈ es) :
    (es.map fun x => (x, f x)).lookup e = some (f e) := by
  induction es with
  | nil => exact absurd h List.not_mem_nil
  | cons x es ih =>
    rw [List.map_cons, List.lookup_cons]
    by_cases hx : e = x
    · subst hx
      simp
    · rw [beq_false_of_ne hx]
      exact ih ((List.mem_cons.mp h).resolve_left hx)

theorem readEntityRelationCount_eq {nav : N}
    (h : ∀ e ∈ es, relCount relations context nav e = .ok (count e nav)) :
    readEntityRelationCount relations context nav es =
      .ok ((relations.hashOrder es).map fun e => (e, count e nav)) := by
  have hputs : es.mapM (fun e => (relCount relations context nav e).map fun count => (e, count)) =
      .ok (es.map fun e => (e, count e nav)) := by
    refine Except.mapM_eq_ok.mpr (List.forall₂_map_right_iff.mpr (List.forall₂_same.mpr ?_))
    intro e he
    rw [h e he]
    rfl
  have hlookup : ∀ e ∈ relations.hashOrder es,
      ((es.map fun e => (e, count e nav)).reverse.lookup e).map (fun count => (e, count)) =
        some (e, count e nav) := by
    intro e he
    rw [← List.map_reverse, lookup_map_of_mem (List.mem_reverse.mpr (mem_hashOrder.mp he))]
    rfl
  rw [readEntityRelationCount, hputs]
  refine congrArg Except.ok ?_
  rw [List.filterMap_congr hlookup, ← List.filterMap_eq_map]
  rfl

theorem filterExpr_eq {expr : EntityExpr N} {condition : N × CountOperator × ℤ}
    (hexpr : expr.IsCount condition)
    (h : ∀ e ∈ es, relCount relations context condition.1 e = .ok (count e condition.1)) :
    filterExpr relations context es expr = .ok ((relations.hashOrder es).filter fun e =>
      condition.2.1.compare (count e condition.1) condition.2.2) := by
  obtain ⟨lhs, operator, rhs⟩ := expr
  obtain ⟨nav, countOperator, condValue⟩ := condition
  obtain ⟨rfl, rfl, hvalue⟩ := hexpr
  simp only [filterExpr, hvalue, readEntityRelationCount_eq h]
  refine congrArg Except.ok ?_
  rw [List.filter_map, List.map_map]
  exact List.map_id _

/-- **All comparisons**, one after the other. -/
theorem exists_foldlM_filterExpr {exprs : List (EntityExpr N)}
    {conditions : List (N × CountOperator × ℤ)}
    (hexprs : List.Forall₂ EntityExpr.IsCount exprs conditions)
    (h : ∀ context, ∀ e ∈ es, ∀ nav, relCount relations context nav e = .ok (count e nav)) :
    ∃ res, (∀ context, exprs.foldlM (filterExpr relations context) es = .ok res) ∧
      ∀ e, e ∈ res ↔ e ∈ es ∧ (conditions.all fun condition =>
        condition.2.1.compare (count e condition.1) condition.2.2) = true := by
  induction hexprs generalizing es with
  | nil => exact ⟨es, fun context => rfl, fun e => by simp⟩
  | @cons expr condition exprs conditions hexpr _ ih =>
    have hfilter : ∀ context, filterExpr relations context es expr =
        .ok ((relations.hashOrder es).filter fun e =>
          condition.2.1.compare (count e condition.1) condition.2.2) :=
      fun context => filterExpr_eq hexpr fun e he => h context e he condition.1
    have hmem : ∀ e ∈ (relations.hashOrder es).filter fun e =>
        condition.2.1.compare (count e condition.1) condition.2.2, e ∈ es := fun e he =>
      mem_hashOrder.mp (List.mem_of_mem_filter he)
    obtain ⟨res, hres, hiff⟩ := ih fun context e he => h context e (hmem e he)
    refine ⟨res, fun context => ?_, fun e => ?_⟩
    · rw [List.foldlM_cons, hfilter]
      exact hres context
    · rw [hiff, List.mem_filter, mem_hashOrder, List.all_cons, Bool.and_eq_true, and_assoc]

end Filter

section Main

variable {E : Type} [DecidableEq E]

/-- **The filters.** For the filters that the visitor is made for, both functions return the
entities of a list that satisfies the rest of the filter, of which the filter is true. An `or` of
two such filters is refused. -/
theorem mem_extraOdataFilter_iff {relations : EntityRelations E N} {count : E → N → ℕ}
    {holds : Expression P N → E → Bool} {es : List E} {filter : Expression P N}
    (hfilter : IsCountFilter filter)
    (hcount : ∀ context, ∀ e ∈ es, ∀ nav, relCount relations context nav e = .ok (count e nav))
    (hrest : ∀ e ∈ es, restIsTrue holds count filter e = true) :
    (∃ res, ExtraOdataReader.extraOdataFilter relations (some filter) es = .ok res ∧
      Util.extraOdataFilter relations (some filter) es = .ok res ∧
      ∀ e, e ∈ res ↔ e ∈ es ∧ isTrue holds count filter e = true) ∧
    (∀ filter', IsCountFilter filter' →
      ExtraOdataReader.extraOdataFilter relations (some (.binary .or filter filter')) es =
        .error .ofbizOdata ∧
      Util.extraOdataFilter relations (some (.binary .or filter filter')) es =
        .error .ofbizOdata) ∧
    ExtraOdataReader.extraOdataFilter (P := P) relations none es = .ok es ∧
      Util.extraOdataFilter (P := P) relations none es = .ok es := by
  obtain ⟨exprs, conditions, haccept, hexprs, htrue⟩ := @exists_conditions P N filter E hfilter
  refine ⟨?_, fun filter' hfilter' => ?_, rfl, rfl⟩
  · obtain ⟨res, hres, hiff⟩ := exists_foldlM_filterExpr hexprs hcount
    have hfilter : ∀ context, filterEntities relations context (some filter) es = .ok res := by
      intro context
      rw [filterEntities, haccept]
      exact hres context
    refine ⟨res, hfilter .reader, hfilter .util, fun e => ?_⟩
    rw [hiff, htrue]
    refine and_congr_right fun he => ?_
    rw [hrest e he, Bool.true_and]
  · obtain ⟨exprs', -, haccept', -⟩ := @exists_conditions P N filter' E hfilter'
    have hor : accept (.binary .or filter filter') = .error .ofbizOdata := by
      rw [accept, haccept, haccept']
      rfl
    have herror : ∀ context,
        filterEntities relations context (some (.binary .or filter filter')) es =
          .error .ofbizOdata := by
      intro context
      rw [filterEntities, hor]
      rfl
    exact ⟨herror .reader, herror .util⟩

end Main

/-! ### A count and a property -/

theorem dedup_perm (es : List ℕ) : es.dedup.Perm es.dedup := List.Perm.refl es.dedup

def orders : EntityRelations ℕ (List Char) where
  navigationLink e _ := some e
  findRelatedList _ _ _ := none
  hashOrder := List.dedup
  hashOrder_perm := dedup_perm

def ordersAndName : Expression (List Char) (List Char) :=
  .binary .and
    (.binary .gt (.member [.navigation "Orders".toList, .count]) (.literal "1".toList))
    (.binary .eq (.member [.property "name".toList]) (.literal "'x'".toList))

theorem isCountFilter_ordersAndName : IsCountFilter ordersAndName :=
  .andRest (.comparison rfl) rfl

theorem mem_extraOdataFilter_ordersAndName :
    (∃ res, ExtraOdataReader.extraOdataFilter orders (some ordersAndName) [1, 2, 3] = .ok res ∧
      Util.extraOdataFilter orders (some ordersAndName) [1, 2, 3] = .ok res ∧
      ∀ e, e ∈ res ↔ e ∈ [1, 2, 3] ∧
        isTrue (fun _ _ => true) (fun e _ => e) ordersAndName e = true) :=
  (mem_extraOdataFilter_iff isCountFilter_ordersAndName (fun _ _ _ _ => rfl)
    (fun _ _ => rfl)).1

theorem extraOdataFilter_ordersAndName :
    ExtraOdataReader.extraOdataFilter orders (some ordersAndName) [2, 3] = .ok [2, 3] ∧
      Util.extraOdataFilter orders (some ordersAndName) [2, 3] = .ok [2, 3] ∧
      [2, 3].filter (isTrue (fun _ e => e == 2) (fun e _ => e) ordersAndName) = [2] :=
  ⟨rfl, rfl, rfl⟩

end OfficeAuto.Odata.ExtraFilter
