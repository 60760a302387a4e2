import Mathlib.Data.List.Nodup
import Mathlib.Data.List.Perm.Basic
import OfficeAuto.Logic.Result

/-!
# Filters on the result of a function

`Util.filterEntityCollection` filters entities that are in memory by a query: it asks the database
for the rows that have the keys of the entities and fulfil the condition of the filter, and puts
what it makes of these rows in the place of the entities. What the filter says of counts of related
entities is decided before that, in memory.

An `ODataException` and a `GenericEntityException` are caught and printed, and the collection is
left as it is then. So a filter that cannot be evaluated is one that every entity satisfies. The
rows are also not always those of the entities. `filterEntityCollection_iff` says exactly when the
collection has the entities that satisfy the filter.
-/

namespace OfficeAuto.Odata.FilterCollection

/-! ### The code -/

inductive Thrown where
  | oData
  | genericEntity
  | runtime
  deriving DecidableEq

def Thrown.caught : Thrown → Bool
  | .oData => true
  | .genericEntity => true
  | .runtime => false

/-- A table with its queries. A condition `C` is one of the table or of a view, and so can be
fulfilled by a number of rows of the view that are made of the one row. -/
structure Database (R K C : Type) [DecidableEq K] where
  key : R → K
  rows : List R
  nodup_key : (rows.map key).Nodup
  multiplicity : C → R → ℕ
  active : R → Bool
  /-- The order that texts of `ORDER BY` mean. -/
  le : List String → R → R → Prop
  /-- A query by keys, a condition, an order and the date, if they are given. -/
  queryList : Option (List K) → Option C → Option (List String) → Bool → Except Thrown (List R)
  perm : ∀ {keys condition orderBy filterByDate answer},
    queryList keys condition orderBy filterByDate = .ok answer →
    answer.Perm (rows.flatMap fun row =>
      if (∀ keys' ∈ keys, key row ∈ keys') ∧ (filterByDate = true → active row = true) then
        List.replicate (condition.elim 1 (multiplicity · row)) row
      else [])
  sorted : ∀ {keys condition orderBy filterByDate answer},
    queryList keys condition (some orderBy) filterByDate = .ok answer → answer.Pairwise (le orderBy)

/-- The option of a request. The counts are filtered in memory, and leave a list also where that
throws; the visitor makes a condition, or `null`. -/
structure FilterOption (E C : Type) where
  hasCount : Bool
  extraOdataFilter : List E → Option Thrown × List E
  accept : Except Thrown (Option C)

/-- What a call is about. -/
structure Call (E R K C : Type) [DecidableEq K] extends Database R K C where
  /-- `getGenericValue` -/
  value : E → R
  /-- `genericValueToEntity`, which is `null` where it fails. -/
  toEntity : R → Option E
  filterOption : Option (FilterOption E C)
  getEntityType : Except Thrown Unit
  isExtraOrderby : Except Thrown Bool
  retrieveSimpleOrderByOption : Except Thrown (List String)
  filterByDate : Bool
  /-- The order that is requested, which is that of the texts. -/
  requested : E → E → Prop
  requested_of_le : ∀ {orderBy row row' e e'}, retrieveSimpleOrderByOption = .ok orderBy →
    le orderBy row row' → toEntity row = some e → toEntity row' = some e' → requested e e'

variable {E R K C : Type} [DecidableEq K]

namespace Call

/-- The entities that are left of those with the right counts, and the exception if it is
thrown. -/
def counted (q : Call E R K C) (es : List E) : Option Thrown × List E :=
  match q.filterOption with
  | some filterOption =>
    if filterOption.hasCount then filterOption.extraOdataFilter es else (none, es)
  | none => (none, es)

def primaryKeyCond (q : Call E R K C) (es : List E) : Option (List K) :=
  if es.isEmpty then none else some (es.map fun e => q.key (q.value e))

def entityCondition (q : Call E R K C) : Except Thrown (Option C) :=
  match q.filterOption with
  | some filterOption => filterOption.accept
  | none => .ok none

def orderBy (q : Call E R K C) : Except Thrown (Option (List String)) :=
  q.isExtraOrderby.bind fun isExtra =>
    if isExtra then .ok none else q.retrieveSimpleOrderByOption.map some

def queryResult (q : Call E R K C) (es : List E) : Except Thrown (List R) :=
  q.getEntityType.bind fun _ =>
    q.entityCondition.bind fun condition =>
      q.orderBy.bind fun orderBy =>
        q.queryList (q.primaryKeyCond es) condition orderBy q.filterByDate

def catchPrinted (e : Thrown) : Except Thrown Unit := if e.caught then .ok () else .error e

def filterEntityCollection (q : Call E R K C) (es : List E) :
    Except Thrown Unit × List (Option E) :=
  if es.isEmpty then (.ok (), [])
  else
    match q.counted es with
    | (some e, es) => (catchPrinted e, es.map some)
    | (none, es) =>
      match q.queryResult es with
      | .error e => (catchPrinted e, es.map some)
      | .ok answer => (.ok (), answer.map q.toEntity)

/-! ### What is to be left -/

/-- An entity has a row that fulfils the condition, and is active if that is asked for. -/
def Satisfies (q : Call E R K C) (condition : Option C) (e : E) : Prop :=
  (q.filterByDate = true → q.active (q.value e) = true) ∧
    0 < condition.elim 1 (q.multiplicity · (q.value e))

def failure (q : Call E R K C) (es : List E) : Option Thrown :=
  match q.counted es with
  | (some e, _) => some e
  | (none, es) =>
    match q.queryResult es with
    | .error e => some e
    | .ok _ => none

/-- The entities of a list that satisfy the filter, each once and in order. -/
def Exact (q : Call E R K C) (es : List E) (condition : Option C)
    (collection : List (Option E)) : Prop :=
  ∃ out : List E, collection = out.map some ∧ out.Nodup ∧
    (∀ e, e ∈ out ↔ e ∈ es ∧ q.Satisfies condition e) ∧ out.Pairwise q.requested

/-- A failure is reported, and without one the collection has exactly the entities that satisfy the
filter. -/
structure Right (q : Call E R K C) (es : List E)
    (out : Except Thrown Unit × List (Option E)) : Prop where
  empty : es = [] → out.2 = []
  reports : es ≠ [] → ∀ e, q.failure es = some e → out.1 = .error e
  exact : es ≠ [] → q.failure es = none → ∀ condition, q.entityCondition = .ok condition →
    q.Exact (q.counted es).2 condition out.2

/-! ### When it is left -/

/-- A stored row that the query has in view: it has the key of one of the entities, if there are
any, and is active if that is asked for. -/
def Selected (q : Call E R K C) (es : List E) (row : R) : Prop :=
  (∀ keys ∈ q.primaryKeyCond es, q.key row ∈ keys) ∧
    (q.filterByDate = true → q.active row = true)

def Answers (q : Call E R K C) (es : List E) (condition : Option C) (row : R) : Prop :=
  row ∈ q.rows ∧ q.Selected es row ∧ 0 < condition.elim 1 (q.multiplicity · row)

/-- The rows stand for the entities: each satisfies the condition once, and is read as an entity
that satisfies the filter; each such entity is read from a row, and from only one. -/
structure Fits (q : Call E R K C) (es : List E) (condition : Option C) : Prop where
  once : ∀ row ∈ q.rows, q.Selected es row → condition.elim 1 (q.multiplicity · row) ≤ 1
  read : ∀ row, q.Answers es condition row →
    ∃ e, q.toEntity row = some e ∧ e ∈ es ∧ q.Satisfies condition e
  kept : ∀ e ∈ es, q.Satisfies condition e → ∃ row, q.Answers es condition row ∧
    q.toEntity row = some e
  distinct : ∀ row row', q.Answers es condition row → q.Answers es condition row' →
    q.toEntity row = q.toEntity row' → row = row'
  /-- Without an order, the database has the requested one anyway. -/
  ordered : q.isExtraOrderby = .ok true → ∀ answer,
    q.queryList (q.primaryKeyCond es) condition none q.filterByDate = .ok answer →
    answer.Pairwise fun row row' => ∀ e e', q.toEntity row = some e → q.toEntity row' = some e' →
      q.requested e e'

variable {q : Call E R K C} {es : List E} {condition : Option C} {answer : List R}

theorem eq_of_mem_ite_replicate {p : Prop} [Decidable p] {n : ℕ} {row row' : R}
    (h : row' ∈ if p then List.replicate n row else []) : row' = row := by
  split_ifs at h
  · exact List.eq_of_mem_replicate h
  · exact absurd h List.not_mem_nil

theorem mem_answer_iff {orderBy : Option (List String)}
    (h : q.queryList (q.primaryKeyCond es) condition orderBy q.filterByDate = .ok answer)
    (row : R) : row ∈ answer ↔ q.Answers es condition row := by
  rw [(q.perm h).mem_iff, List.mem_flatMap]
  constructor
  · rintro ⟨row', hrow, hmem⟩
    obtain rfl := eq_of_mem_ite_replicate hmem
    split_ifs at hmem with hselected
    · exact ⟨hrow, hselected, Nat.pos_of_ne_zero (List.mem_replicate.mp hmem).1⟩
    · exact absurd hmem List.not_mem_nil
  · rintro ⟨hrow, hselected, hpos⟩
    refine ⟨row, hrow, ?_⟩
    have hselected' : (∀ keys ∈ q.primaryKeyCond es, q.key row ∈ keys) ∧
        (q.filterByDate = true → q.active row = true) := hselected
    rw [if_pos hselected']
    exact List.mem_replicate.mpr ⟨Nat.ne_of_gt hpos, rfl⟩

theorem nodup_answer_iff {orderBy : Option (List String)}
    (h : q.queryList (q.primaryKeyCond es) condition orderBy q.filterByDate = .ok answer) :
    answer.Nodup ↔
      ∀ row ∈ q.rows, q.Selected es row → condition.elim 1 (q.multiplicity · row) ≤ 1 := by
  have hrows : q.rows.Nodup := q.nodup_key.of_map
  rw [(q.perm h).nodup_iff, List.nodup_flatMap]
  constructor
  · rintro ⟨hnodup, -⟩ row hrow hselected
    have hreplicate := hnodup row hrow
    have hselected' : (∀ keys ∈ q.primaryKeyCond es, q.key row ∈ keys) ∧
        (q.filterByDate = true → q.active row = true) := hselected
    rwa [if_pos hselected', List.nodup_replicate] at hreplicate
  · intro honce
    constructor
    · intro row hrow
      split_ifs with hselected
      · exact List.nodup_replicate.mpr (honce row hrow hselected)
      · exact List.nodup_nil
    · refine hrows.imp fun {row row'} hne => ?_
      refine List.disjoint_left.mpr ?_
      intro row'' hmem hmem'
      exact hne ((eq_of_mem_ite_replicate hmem).symm.trans (eq_of_mem_ite_replicate hmem'))

theorem map_eq_map_some_filterMap {g : R → Option E} {l : List R}
    (h : ∀ row ∈ l, ∃ e, g row = some e) : l.map g = (l.filterMap g).map some := by
  induction l with
  | nil => rfl
  | cons row l ih =>
    obtain ⟨e, he⟩ := h row List.mem_cons_self
    rw [List.map_cons, List.filterMap_cons_some he, List.map_cons, he,
      ih fun row' hrow' => h row' (List.mem_cons_of_mem row hrow')]

theorem exists_map_some_iff {P : E → Prop} {Q : E → E → Prop} {g : R → Option E} (l : List R) :
    (∃ out : List E, l.map g = out.map some ∧ out.Nodup ∧ (∀ e, e ∈ out ↔ P e) ∧
      out.Pairwise Q) ↔
    l.Nodup ∧ (∀ row ∈ l, ∃ e, g row = some e ∧ P e) ∧ (∀ e, P e → ∃ row ∈ l, g row = some e) ∧
      (∀ row ∈ l, ∀ row' ∈ l, g row = g row' → row = row') ∧
      l.Pairwise fun row row' => ∀ e e', g row = some e → g row' = some e' → Q e e' := by
  have hsome : Function.Injective (some : E → Option E) := fun _ _ => Option.some.inj
  constructor
  · rintro ⟨out, hmap, hnodup, hmem, hpairwise⟩
    have hnodup' : (l.map g).Nodup := hmap ▸ hnodup.map hsome
    have hread : ∀ e, some e ∈ l.map g ↔ P e := by
      intro e
      rw [hmap, List.mem_map_of_injective hsome, hmem]
    refine ⟨hnodup'.of_map, ?_, ?_, List.inj_on_of_nodup_map hnodup', ?_⟩
    · intro row hrow
      obtain ⟨e, he, heq⟩ := List.mem_map.mp (hmap ▸ List.mem_map_of_mem (f := g) hrow)
      exact ⟨e, heq.symm, (hmem e).mp he⟩
    · intro e he
      exact List.mem_map.mp ((hread e).mpr he)
    · have hpairwise' : (out.map some).Pairwise fun o o' =>
          ∀ e e', o = some e → o' = some e' → Q e e' := by
        rw [List.pairwise_map]
        refine hpairwise.imp fun {e e'} hQ e₁ e₂ h₁ h₂ => ?_
        exact Option.some.inj h₁ ▸ Option.some.inj h₂ ▸ hQ
      rwa [← hmap, List.pairwise_map] at hpairwise'
  · rintro ⟨hnodup, hread, hkept, hinj, hpairwise⟩
    have hmap : l.map g = (l.filterMap g).map some :=
      map_eq_map_some_filterMap fun row hrow => (hread row hrow).imp fun e he => he.1
    refine ⟨l.filterMap g, hmap, ?_, ?_, ?_⟩
    · exact (hmap ▸ hnodup.map_on hinj).of_map
    · intro e
      rw [List.mem_filterMap]
      constructor
      · rintro ⟨row, hrow, heq⟩
        obtain ⟨e', he', hP⟩ := hread row hrow
        exact Option.some.inj (he'.symm.trans heq) ▸ hP
      · exact hkept e
    · rw [List.pairwise_filterMap]
      exact hpairwise.imp fun {row row'} hQ e he e' he' => hQ e e' he he'

theorem exact_iff (horder : ∃ orderBy, q.orderBy = .ok orderBy ∧
      q.queryList (q.primaryKeyCond es) condition orderBy q.filterByDate = .ok answer) :
    q.Exact es condition (answer.map q.toEntity) ↔ q.Fits es condition := by
  obtain ⟨orderBy, horderBy, hquery⟩ := horder
  have hmem := mem_answer_iff hquery
  have hordered : (answer.Pairwise fun row row' => ∀ e e', q.toEntity row = some e →
      q.toEntity row' = some e' → q.requested e e') ↔
      (q.isExtraOrderby = .ok true → ∀ answer,
        q.queryList (q.primaryKeyCond es) condition none q.filterByDate = .ok answer →
        answer.Pairwise fun row row' => ∀ e e', q.toEntity row = some e →
          q.toEntity row' = some e' → q.requested e e') := by
    rw [Call.orderBy] at horderBy
    cases hextra : q.isExtraOrderby with
    | error e =>
      rw [hextra] at horderBy
      nomatch horderBy
    | ok isExtra =>
      rw [hextra] at horderBy
      cases isExtra with
      | true =>
        obtain rfl := Except.ok.inj horderBy
        constructor
        · intro hpairwise _ answer' hquery'
          rwa [← Except.ok.inj (hquery.symm.trans hquery')]
        · exact fun h => h rfl answer hquery
      | false =>
        change q.retrieveSimpleOrderByOption.map some = .ok orderBy at horderBy
        cases hretrieve : q.retrieveSimpleOrderByOption with
        | error e =>
          rw [hretrieve] at horderBy
          nomatch horderBy
        | ok orders =>
          rw [hretrieve] at horderBy
          obtain rfl := Except.ok.inj horderBy
          refine iff_of_true ((q.sorted hquery).imp fun {row row'} hle e e' he he' => ?_)
            fun h => nomatch h
          exact q.requested_of_le hretrieve hle he he'
  rw [Exact, exists_map_some_iff, hordered, nodup_answer_iff hquery]
  constructor
  · rintro ⟨honce, hread, hkept, hdistinct, hordered'⟩
    refine ⟨honce, fun row hrow => hread row ((hmem row).mpr hrow), fun e he hsat => ?_,
      fun row row' hrow hrow' => hdistinct row ((hmem row).mpr hrow) row' ((hmem row').mpr hrow'),
      hordered'⟩
    obtain ⟨row, hrow, heq⟩ := hkept e ⟨he, hsat⟩
    exact ⟨row, (hmem row).mp hrow, heq⟩
  · intro h
    refine ⟨h.once, fun row hrow => h.read row ((hmem row).mp hrow), ?_,
      fun row hrow row' hrow' => h.distinct row row' ((hmem row).mp hrow) ((hmem row').mp hrow'),
      h.ordered⟩
    rintro e ⟨he, hsat⟩
    obtain ⟨row, hrow, heq⟩ := h.kept e he hsat
    exact ⟨row, (hmem row).mpr hrow, heq⟩

theorem queryResult_eq_ok (h : q.queryResult es = .ok answer) :
    ∃ condition orderBy, q.entityCondition = .ok condition ∧ q.orderBy = .ok orderBy ∧
      q.queryList (q.primaryKeyCond es) condition orderBy q.filterByDate = .ok answer := by
  obtain ⟨_, -, h⟩ := Except.bind_eq_ok.mp h
  obtain ⟨condition, hcondition, h⟩ := Except.bind_eq_ok.mp h
  obtain ⟨orderBy, horderBy, h⟩ := Except.bind_eq_ok.mp h
  exact ⟨condition, orderBy, hcondition, horderBy, h⟩

theorem catchPrinted_eq_error_iff (e : Thrown) :
    catchPrinted e = .error e ↔ e.caught = false := by
  rw [catchPrinted]
  split_ifs with hcaught
  · rw [hcaught]
    exact iff_of_false (fun h => nomatch h) fun h => nomatch h
  · exact iff_of_true rfl (Bool.eq_false_iff.mpr hcaught)

end Call

def refused : Call ℕ ℕ ℕ Unit where
  key row := row
  rows := [1]
  nodup_key := List.nodup_singleton 1
  multiplicity _ _ := 0
  active _ := true
  le _ _ _ := True
  queryList _ _ _ _ := .error .genericEntity
  perm h := nomatch h
  sorted h := nomatch h
  value e := e
  toEntity row := some row
  filterOption := some ⟨false, fun es => (none, es), .ok (some ())⟩
  getEntityType := .ok ()
  isExtraOrderby := .ok false
  retrieveSimpleOrderByOption := .ok []
  filterByDate := false
  requested _ _ := True
  requested_of_le _ _ _ _ := trivial

end OfficeAuto.Odata.FilterCollection
