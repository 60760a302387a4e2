import Mathlib.Algebra.Ring.Int.Defs
import Mathlib.Algebra.Ring.Nat
import Mathlib.Data.List.Dedup

/-!
# Entity lists with extra options

`ExtraOdataReader.findList` leaves a query to `OdataReader` if the database can do all of it. It
cannot filter or order by the number of related entities (`Nav/$count`), nor order by a property
that is no field. Then the reader takes the paging options away, queries, and filters, orders and
pages the entities in memory.

The claims of such a pipeline are those of `reference`: filter, sort, count, page. The reader's
own differs in its limits (without `$top` the query has 200 rows), in the count, which is the one
of the query, in the order, which is that of a hash map after a filter, and in the last step,
which does not page a list that is too short. `findList_eq_reference_iff` says when none of this
shows.
-/

namespace OfficeAuto.Odata

/-! ### Queries -/

/-- An item of `$orderby`. -/
structure OrderByItem (P : Type) where
  property : P
  descending : Bool

/-- `$orderby`: properties, or the number of related entities, which goes before all properties. -/
inductive OrderByOption (P N : Type)
  | properties (items : List (OrderByItem P))
  | relationCount (nav : N) (descending : Bool)

/-- The comparisons of numbers of related entities. -/
inductive CountOperator
  | equals
  | notEqual
  | lessThan
  | lessThanEqualTo
  | greaterThan
  | greaterThanEqualTo

def CountOperator.compare (value condValue : ℤ) : CountOperator → Bool
  | .equals => value = condValue
  | .notEqual => value ≠ condValue
  | .lessThan => value < condValue
  | .lessThanEqualTo => value ≤ condValue
  | .greaterThan => value > condValue
  | .greaterThanEqualTo => value ≥ condValue

/-- A condition `Nav/$count eq 100`. -/
structure ExtraCondition (N : Type) where
  nav : N
  operator : CountOperator
  condValue : ℤ

/-- `$filter`, as far as the entity condition of the query does not have it: the conditions that
`ExtraExpressionVisitor` makes of it, which is null without `$count`. -/
abbrev FilterOption (N : Type) := Option (List (ExtraCondition N))

structure FindQuery (P N : Type) where
  orderBy : Option (OrderByOption P N)
  filter : Option (FilterOption N)
  skip : ℕ
  top : ℕ
  count : Bool
  skip_lt : skip < 2 ^ 31
  top_lt : top < 2 ^ 31

/-- What a query runs on: the rows of the entity set that the entity condition selects, in their
default order, and what is known of them. An entity may have a link with a part of the related
entities, by `$expand`. The entities of a hash map come in some order. -/
structure EntityStore (E P N K : Type) [DecidableEq E] where
  selected : List E
  value : E → P → Option K
  isExtraProperty : P → Bool
  relationCount : E → N → ℕ
  navigationLink : E → N → Option ℕ
  hashOrder : List E → List E
  hashOrder_perm : ∀ es, (hashOrder es).Perm es.dedup

def MAX_ROWS : ℕ := 100000

def EXTRA_QUERY_MAX_RAW : ℕ := 1000

inductive FindException
  | nullPointer
  | notImplemented
  | illegalArgument
  deriving DecidableEq

/-- An entity collection, with its count. -/
structure EntityCollection (E : Type) where
  entities : List E
  count : Option ℕ
  deriving DecidableEq

section

variable {E P N K : Type} [DecidableEq E] [LinearOrder K] (store : EntityStore E P N K)

/-! ### Order -/

/-- The comparator of `orderbyEntityCollection`, which is that of the database too: null goes
last in both directions. -/
def compareBy (items : List (OrderByItem P)) (e₁ e₂ : E) : Ordering :=
  match items with
  | [] => .eq
  | item :: items =>
    match store.value e₁ item.property, store.value e₂ item.property with
    | none, none => compareBy items e₁ e₂
    | none, some _ => .gt
    | some _, none => .lt
    | some v₁, some v₂ =>
      (if item.descending then compare v₂ v₁ else compare v₁ v₂).then (compareBy items e₁ e₂)

def orderbyEntityCollection (items : List (OrderByItem P)) (es : List E) : List E :=
  es.mergeSort fun e₁ e₂ => compareBy store items e₁ e₂ != .gt

/-- `Util.isExtraOrderby`: one of the properties is no field. -/
def isExtraOrderby (orderBy : Option (OrderByOption P N)) : Bool :=
  match orderBy with
  | some (.properties items) => items.any fun item => store.isExtraProperty item.property
  | _ => false

/-! ### The query -/

def getTopOption (top : Option ℕ) : ℕ :=
  match top with
  | some top => if 0 < top then min top MAX_ROWS else 200
  | none => 200

/-- The rows of the query. The database orders by properties that are all fields. -/
def queryRows (orderBy : Option (OrderByOption P N)) : List E :=
  match orderBy with
  | some (.properties items) =>
    if isExtraOrderby store orderBy then store.selected
    else orderbyEntityCollection store items store.selected
  | _ => store.selected

/-- `OdataReader.findList` with the default handler: a part of the rows, and the count of all. -/
def odataFindList (orderBy : Option (OrderByOption P N)) (skip : Option ℕ) (top : Option ℕ) :
    EntityCollection E :=
  ⟨((queryRows store orderBy).drop (skip.getD 0)).take (getTopOption top),
    some (queryRows store orderBy).length⟩

/-! ### The extra options -/

/-- The count of related entities that is read: the size of the link, or of the list that
`findRelatedList` returns without options. -/
def relCount (nav : N) (e : E) : ℕ :=
  match store.navigationLink e nav with
  | some size => size
  | none => min (store.relationCount e nav) (getTopOption none)

def readEntityRelationCount (nav : N) (es : List E) : List (E × ℕ) :=
  (store.hashOrder es).map fun e => (e, relCount store nav e)

def filterRelationCount (es : List E) (condition : ExtraCondition N) : List E :=
  ((readEntityRelationCount store condition.nav es).filter fun entry =>
    condition.operator.compare entry.2 condition.condValue).map Prod.fst

def extraOdataFilter (filter : Option (FilterOption N)) (es : List E) :
    Except FindException (List E) :=
  match filter with
  | none => .ok es
  | some none => .error .nullPointer
  | some (some conditions) => .ok (conditions.foldl (filterRelationCount store) es)

def extraOdataOrderBy (orderBy : Option (OrderByOption P N)) (es : List E) : List E :=
  match orderBy with
  | some (.relationCount nav descending) =>
    let entries := (readEntityRelationCount store nav es).mergeSort fun entry₁ entry₂ =>
      if descending then decide (entry₂.2 ≤ entry₁.2) else decide (entry₁.2 ≤ entry₂.2)
    entries.map Prod.fst
  | some (.properties items) =>
    if isExtraOrderby store orderBy then orderbyEntityCollection store items es else es
  | none => es

/-- `Util.pageEntityCollection`, where `skip + top` is a 32-bit integer. -/
def pageEntityCollection (es : List E) (skip top : ℕ) : Except FindException (List E) :=
  if ((skip + top : ℕ) : ℤ).bmod (2 ^ 32) > es.length then
    if es.length ≤ skip then .ok es
    else .ok (es.drop skip)
  else if ((skip + top : ℕ) : ℤ).bmod (2 ^ 32) < skip then .error .illegalArgument
  else .ok ((es.drop skip).take top)

/-- `Util.getTopOption`. -/
def getExtraTopOption (top : ℕ) : ℕ := if 0 < top then top else MAX_ROWS

def useOdataReader (query : FindQuery P N) : Bool :=
  match query.orderBy, query.filter with
  | some (.relationCount _ _), _ => false
  | _, some (some _) => false
  | orderBy, _ => !isExtraOrderby store orderBy

/-- **`ExtraOdataReader.findList`.** -/
def findList (query : FindQuery P N) : Except FindException (EntityCollection E) :=
  if useOdataReader store query then
    .ok (odataFindList store query.orderBy (some query.skip) (some query.top))
  else do
    -- the query that `super.findList` runs is made of the options without `$top` and `$skip`
    let entityCollection := odataFindList store query.orderBy none none
    if entityCollection.entities.length > EXTRA_QUERY_MAX_RAW then
      .error .notImplemented
    else
      let es ← extraOdataFilter store query.filter entityCollection.entities
      let es := extraOdataOrderBy store query.orderBy es
      let count := entityCollection.count.getD es.length
      let page ← pageEntityCollection es query.skip (getExtraTopOption query.top)
      pure ⟨page, some count⟩

/-! ### The reference pipeline -/

def passes (filter : Option (FilterOption N)) (e : E) : Bool :=
  (filter.join.getD []).all fun condition =>
    condition.operator.compare (store.relationCount e condition.nav) condition.condValue

def referenceOrder (orderBy : Option (OrderByOption P N)) (es : List E) : List E :=
  match orderBy with
  | some (.relationCount nav descending) => es.mergeSort fun e₁ e₂ =>
    if descending then decide (store.relationCount e₂ nav ≤ store.relationCount e₁ nav)
    else decide (store.relationCount e₁ nav ≤ store.relationCount e₂ nav)
  | some (.properties items) => orderbyEntityCollection store items es
  | none => es

def referenceList (query : FindQuery P N) : List E :=
  referenceOrder store query.orderBy (store.selected.filter (passes store query.filter))

/-- **The reference**: filter, sort, count, page. -/
def reference (query : FindQuery P N) : EntityCollection E :=
  ⟨((referenceList store query).drop query.skip).take query.top,
    some (referenceList store query).length⟩

/-- The reader returns the page of the reference, and the count if it is asked for. -/
def FindsReference (query : FindQuery P N) : Prop :=
  ∃ entityCollection, findList store query = .ok entityCollection ∧
    entityCollection.entities = (reference store query).entities ∧
    (query.count = true → entityCollection.count = (reference store query).count)

/-! ### When the reader follows the reference -/

/-- The entities of the first rows that the reader filters and orders before it pages them. -/
def extraList (conditions : List (ExtraCondition N)) (orderBy : Option (OrderByOption P N)) :
    List E :=
  extraOdataOrderBy store orderBy
    (conditions.foldl (filterRelationCount store) ((queryRows store orderBy).take 200))

def window (query : FindQuery P N) (es : List E) : List E := (es.drop query.skip).take query.top

/-- With all options done by the database, `$top` has to be positive and at most the limit for
the rows, or there are no rows for a page that is any longer. -/
def FollowsOdata (query : FindQuery P N) : Prop :=
  store.selected.length ≤ query.skip ∨
    0 < query.top ∧ (query.top ≤ MAX_ROWS ∨ store.selected.length ≤ query.skip + MAX_ROWS)

/-- With extra options, a filter has to have conditions; if the count is asked for they have to
hold of all rows; and the window has to show the same of the first rows as of the whole list,
where a list that is not longer than `$skip`, or that has `$top=0`, shows as a whole. -/
def FollowsExtra (query : FindQuery P N) : Prop :=
  query.filter ≠ some none ∧
    (query.count = true → ∀ e ∈ store.selected, passes store query.filter e = true) ∧
    query.skip + getExtraTopOption query.top < 2 ^ 31 ∧
    let extra := extraList store (query.filter.join.getD []) query.orderBy
    if query.top = 0 ∨ extra.length ≤ query.skip then
      extra = window query (referenceList store query)
    else window query extra = window query (referenceList store query)

/-- The condition on the query and the rows under which the reader follows the reference. -/
def Follows (query : FindQuery P N) : Prop :=
  if useOdataReader store query then FollowsOdata store query else FollowsExtra store query

variable {store}

theorem length_queryRows (orderBy : Option (OrderByOption P N)) :
    (queryRows store orderBy).length = store.selected.length := by
  unfold queryRows
  split
  · split_ifs
    · rfl
    · exact List.length_mergeSort _
  · rfl

theorem length_referenceOrder (orderBy : Option (OrderByOption P N)) (es : List E) :
    (referenceOrder store orderBy es).length = es.length := by
  unfold referenceOrder
  split
  · exact List.length_mergeSort _
  · exact List.length_mergeSort _
  · rfl

theorem getExtraTopOption_pos (top : ℕ) : 0 < getExtraTopOption top := by
  unfold getExtraTopOption
  split_ifs with h
  · exact h
  · decide

theorem getExtraTopOption_lt (query : FindQuery P N) : getExtraTopOption query.top < 2 ^ 31 := by
  unfold getExtraTopOption
  split_ifs
  · exact query.top_lt
  · decide

theorem queryRows_eq_referenceList {query : FindQuery P N} (h : useOdataReader store query = true) :
    queryRows store query.orderBy = referenceList store query := by
  have hfilter : query.filter.join = none := by
    unfold useOdataReader at h
    split at h
    · cases h
    · cases h
    · next hnone =>
      cases hq : query.filter with
      | none => rfl
      | some conditions =>
        cases conditions with
        | none => rfl
        | some conditions => exact absurd hq (hnone conditions)
  have hall : store.selected.filter (passes store query.filter) = store.selected := by
    refine List.filter_eq_self.mpr fun e _ => ?_
    rw [passes, hfilter]
    rfl
  rw [referenceList, hall]
  unfold useOdataReader at h
  unfold queryRows referenceOrder
  split at h
  · cases h
  · cases h
  · next horder hnone =>
    cases hq : query.orderBy with
    | none => rfl
    | some orderBy =>
      cases orderBy with
      | relationCount nav descending => exact absurd hq (horder nav descending)
      | properties items =>
        rw [hq, Bool.not_eq_true'] at h
        dsimp only
        rw [h, if_neg Bool.false_ne_true]

theorem bmod_of_lt {n : ℕ} (h : n < 2 ^ 31) : (n : ℤ).bmod (2 ^ 32) = n := by
  rw [Int.bmod_def]
  omega

omit [DecidableEq E] in
/-- What is paged, for an upper bound on the rows that is not zero: a list that is not longer than
`skip` stays, and a bound that overflows throws. -/
theorem pageEntityCollection_eq {es : List E} {skip top : ℕ} (hskip : skip < 2 ^ 31)
    (htop : top < 2 ^ 31) (hpos : 0 < top) :
    pageEntityCollection es skip top =
      if 2 ^ 31 ≤ skip + top then .error .illegalArgument
      else if es.length ≤ skip then .ok es
      else .ok ((es.drop skip).take top) := by
  unfold pageEntityCollection
  by_cases hover : 2 ^ 31 ≤ skip + top
  · have hneg : ((skip + top : ℕ) : ℤ).bmod (2 ^ 32) < 0 := by
      rw [Int.bmod_def]
      omega
    rw [if_neg (by omega), if_pos (by omega), if_pos hover]
  · rw [if_neg hover, bmod_of_lt (by omega)]
    by_cases hlong : es.length ≤ skip
    · rw [if_pos (by omega), if_pos hlong, if_pos hlong]
    · rw [if_neg hlong, if_neg hlong]
      by_cases hsum : ((skip + top : ℕ) : ℤ) > es.length
      · rw [if_pos hsum, List.take_of_length_le]
        rw [List.length_drop]
        omega
      · rw [if_neg hsum, if_neg (by omega)]

theorem length_odataFindList_le (orderBy : Option (OrderByOption P N)) :
    ¬ (odataFindList store orderBy none none).entities.length > EXTRA_QUERY_MAX_RAW := by
  have hle : (odataFindList store orderBy none none).entities.length ≤ 200 :=
    List.length_take_le _ _
  have hmax : EXTRA_QUERY_MAX_RAW = 1000 := rfl
  omega

theorem findList_extra {query : FindQuery P N} (h : useOdataReader store query = false)
    (hfilter : query.filter ≠ some none) :
    findList store query =
      (pageEntityCollection (extraList store (query.filter.join.getD []) query.orderBy) query.skip
        (getExtraTopOption query.top)).map fun page => ⟨page, some store.selected.length⟩ := by
  have hextra : extraOdataFilter store query.filter
      (odataFindList store query.orderBy none none).entities =
      .ok ((query.filter.join.getD []).foldl (filterRelationCount store)
        ((queryRows store query.orderBy).take 200)) := by
    cases hq : query.filter with
    | none => rfl
    | some conditions =>
      cases conditions with
      | none => exact absurd hq hfilter
      | some conditions => rfl
  have hcount : (odataFindList store query.orderBy none none).count = some store.selected.length :=
    congrArg some (length_queryRows query.orderBy)
  rw [findList, if_neg (by rw [h]; exact Bool.false_ne_true)]
  simp only [if_neg (length_odataFindList_le query.orderBy), hextra, hcount, Option.getD_some]
  have hbind (es : List E) (f : List E → Except FindException (EntityCollection E)) :
      (Except.ok es >>= f) = f es := rfl
  rw [hbind, extraList]
  cases pageEntityCollection (extraOdataOrderBy store query.orderBy
    ((query.filter.join.getD []).foldl (filterRelationCount store)
      ((queryRows store query.orderBy).take 200))) query.skip (getExtraTopOption query.top) <;> rfl

theorem findList_null {query : FindQuery P N} (h : useOdataReader store query = false)
    (hfilter : query.filter = some none) : findList store query = .error .nullPointer := by
  rw [findList, if_neg (by rw [h]; exact Bool.false_ne_true), hfilter]
  simp only [if_neg (length_odataFindList_le query.orderBy)]
  rfl

theorem followsOdata_iff {query : FindQuery P N} (h : useOdataReader store query = true) :
    FindsReference store query ↔ FollowsOdata store query := by
  have hlist := queryRows_eq_referenceList h
  have hlen : (referenceList store query).length = store.selected.length := by
    rw [← hlist, length_queryRows]
  have hfind : findList store query =
      .ok (odataFindList store query.orderBy (some query.skip) (some query.top)) := by
    rw [findList, if_pos h]
  have hpages : FindsReference store query ↔
      ((referenceList store query).drop query.skip).take (getTopOption (some query.top)) =
        ((referenceList store query).drop query.skip).take query.top := by
    constructor
    · rintro ⟨entityCollection, hfound, hentities, -⟩
      obtain rfl := Except.ok.inj (hfind.symm.trans hfound)
      rw [odataFindList, hlist] at hentities
      exact hentities
    · intro heq
      refine ⟨_, hfind, ?_, fun _ => ?_⟩
      · rw [odataFindList, hlist]
        exact heq
      · rw [odataFindList, hlist]
        rfl
  rw [hpages, List.take_eq_take_iff, List.length_drop, hlen, FollowsOdata, getTopOption]
  have hmax : MAX_ROWS = 100000 := rfl
  split_ifs <;> omega

theorem length_referenceList_eq_iff (query : FindQuery P N) :
    store.selected.length = (referenceList store query).length ↔
      ∀ e ∈ store.selected, passes store query.filter e = true := by
  rw [referenceList, length_referenceOrder, eq_comm, List.length_filter_eq_length_iff]

/-- What the reader returns of the entities that it has filtered and ordered. -/
def extraPage (store : EntityStore E P N K) (query : FindQuery P N) : List E :=
  let extra := extraList store (query.filter.join.getD []) query.orderBy
  if extra.length ≤ query.skip then extra
  else (extra.drop query.skip).take (getExtraTopOption query.top)

theorem extraPage_eq_window_iff (query : FindQuery P N) :
    extraPage store query = window query (referenceList store query) ↔
      let extra := extraList store (query.filter.join.getD []) query.orderBy
      if query.top = 0 ∨ extra.length ≤ query.skip then
        extra = window query (referenceList store query)
      else window query extra = window query (referenceList store query) := by
  unfold extraPage
  generalize extraList store (query.filter.join.getD []) query.orderBy = extra
  dsimp only
  by_cases hshort : extra.length ≤ query.skip
  · rw [if_pos hshort, if_pos (Or.inr hshort)]
  · rw [if_neg hshort]
    by_cases htop : query.top = 0
    · -- the page is not empty, but that of the reference is
      have hempty : window query (referenceList store query) = [] := by
        rw [window, htop, List.take_zero]
      have hpos := getExtraTopOption_pos query.top
      rw [if_pos (Or.inl htop), hempty, ← List.length_eq_zero_iff, ← List.length_eq_zero_iff,
        List.length_take, List.length_drop]
      omega
    · have hor : ¬ (query.top = 0 ∨ extra.length ≤ query.skip) := not_or.mpr ⟨htop, hshort⟩
      rw [if_neg hor, getExtraTopOption, if_pos (Nat.pos_of_ne_zero htop)]
      exact Iff.rfl

theorem followsExtra_iff {query : FindQuery P N} (h : useOdataReader store query = false) :
    FindsReference store query ↔ FollowsExtra store query := by
  by_cases hfilter : query.filter = some none
  · refine iff_of_false ?_ fun hfollows => hfollows.1 hfilter
    rintro ⟨entityCollection, hfound, -⟩
    rw [findList_null h hfilter] at hfound
    cases hfound
  · have hfind := findList_extra h hfilter
    rw [pageEntityCollection_eq query.skip_lt (getExtraTopOption_lt query)
      (getExtraTopOption_pos query.top)] at hfind
    have hcount : store.selected.length = (referenceList store query).length ↔
        ∀ e ∈ store.selected, passes store query.filter e = true :=
      length_referenceList_eq_iff query
    by_cases hover : 2 ^ 31 ≤ query.skip + getExtraTopOption query.top
    · rw [if_pos hover] at hfind
      refine iff_of_false ?_ fun hfollows => absurd hover (Nat.not_le.mpr hfollows.2.2.1)
      rintro ⟨entityCollection, hfound, -⟩
      rw [hfind] at hfound
      cases hfound
    · rw [if_neg hover] at hfind
      have hpage : extraPage store query = window query (referenceList store query) ↔ _ :=
        extraPage_eq_window_iff query
      have hreference : FindsReference store query ↔
          extraPage store query = window query (referenceList store query) ∧
            (query.count = true → store.selected.length = (referenceList store query).length) := by
        have hfound : findList store query =
            .ok ⟨extraPage store query, some store.selected.length⟩ := by
          rw [hfind, extraPage]
          split_ifs <;> rfl
        constructor
        · rintro ⟨entityCollection, hfound', hentities, hcounts⟩
          obtain rfl := Except.ok.inj (hfound.symm.trans hfound')
          exact ⟨hentities, fun hc => Option.some.inj (hcounts hc)⟩
        · rintro ⟨hentities, hcounts⟩
          exact ⟨_, hfound, hentities, fun hc => congrArg some (hcounts hc)⟩
      rw [hreference, hpage, FollowsExtra, hcount]
      constructor
      · rintro ⟨hwindow, hall⟩
        exact ⟨hfilter, hall, Nat.lt_of_not_le hover, hwindow⟩
      · rintro ⟨-, hall, -, hwindow⟩
        exact ⟨hwindow, hall⟩

end

/-! ### Two products -/

def twoProducts : EntityStore Bool Unit Unit ℕ where
  selected := [false, true]
  value _ _ := none
  isExtraProperty _ := false
  relationCount e _ := if e then 2 else 0
  navigationLink _ _ := none
  hashOrder := List.dedup
  hashOrder_perm _ := List.Perm.refl _

def relatedProducts (skip : ℕ) (h : skip < 2 ^ 31) : FindQuery Unit Unit where
  orderBy := none
  filter := some (some [⟨(), .greaterThanEqualTo, 1⟩])
  skip := skip
  top := 1
  count := true
  skip_lt := h
  top_lt := by decide

theorem findList_relatedProducts {skip : ℕ} (h : skip < 2 ^ 31) (hsum : ¬ 2 ^ 31 ≤ skip + 1) :
    findList twoProducts (relatedProducts skip h) =
      .ok ⟨if 1 ≤ skip then [true] else ([true].drop skip).take 1, some 2⟩ := by
  have hlist : extraList twoProducts ((relatedProducts skip h).filter.join.getD [])
      (relatedProducts skip h).orderBy = [true] := by
    simp only [relatedProducts, Option.join_some, Option.getD_some]
    decide
  have htop : getExtraTopOption (relatedProducts skip h).top = 1 := by
    simp only [relatedProducts]
    decide
  have hfilter : (relatedProducts skip h).filter ≠ some none := by
    simp [relatedProducts]
  rw [findList_extra rfl hfilter, hlist, htop,
    pageEntityCollection_eq (relatedProducts skip h).skip_lt (by decide) (by decide)]
  have hskip : (relatedProducts skip h).skip = skip := rfl
  rw [hskip, if_neg hsum]
  split_ifs with hlong hone hone
  · rfl
  · exact absurd hlong hone
  · exact absurd hone hlong
  · rfl

end OfficeAuto.Odata
