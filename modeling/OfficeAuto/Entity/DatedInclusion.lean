import Mathlib.Data.List.Pairwise
import OfficeAuto.Entity.EffectiveDate
import OfficeAuto.Logic.EntryList

/-!
# Dated inclusions

An inclusion is recorded by rows with a from date and a thru date. `newDatedInclusionEntity` ends
the rows that are active at an instant and makes a row that begins there, which its caller creates;
`delDatedInclusionEntity` ends the active rows. A row that begins at the instant itself is not ended
but returned.

A run of such calls on one key, at instants that do not decrease, begins without rows. It keeps the
rows right in all its states, **unless a call of the first kind follows one of the second kind at an
instant at which the key has been included before**: the row of this instant is there, but ended,
and another one would have the same key (`isRight_run_iff`).
-/

namespace OfficeAuto.Entity.DatedInclusion

open EffectiveDate

/-! ### Rows -/

/-- A row; its fields are those other than the dates. -/
structure DatedRow where
  fields : Row
  fromDate : Option Timestamp
  thruDate : Option Timestamp

abbrev SearchMap := EntryList FieldName (Option Value)

def SearchMap.toRow (search : SearchMap) : Row := fun name => (search.get name).join

variable (pkFieldNames : List FieldName)

def samePk (row row' : DatedRow) : Bool :=
  (pkFieldNames.all fun name => row.fields name = row'.fields name) &&
    row.fromDate = row'.fromDate

def isActiveAt (moment : Timestamp) (row : DatedRow) : Bool :=
  isActive moment row.fromDate row.thruDate

/-- `store`; a thru date that is missing in the entity is left as it is in the row. -/
def store (entity : DatedRow) (thruDate : Option (Option Timestamp)) (rows : List DatedRow) :
    List DatedRow :=
  rows.map fun row =>
    if samePk pkFieldNames row entity then
      { fields := entity.fields
        fromDate := entity.fromDate
        thruDate := thruDate.getD row.thruDate }
    else row

def create (value : DatedRow) (rows : List DatedRow) : Option (List DatedRow) :=
  if rows.any fun row => samePk pkFieldNames row value then none else some (rows ++ [value])

def fromDateNotBefore (row row' : DatedRow) : Bool :=
  match row.fromDate, row'.fromDate with
  | some fromDate, some fromDate' => !fromDate.before fromDate'
  | none, some _ => false
  | _, none => true

/-! ### The code -/

def findDatedInclusionEntity (find : SearchMap) (now : Timestamp) (rows : List DatedRow) :
    List DatedRow :=
  (rows.filter fun row => (find.entries.all fun field => row.fields field.1 = field.2) &&
    isActiveAt now row).mergeSort fromDateNotBefore

/-- The loop over the active rows: what it stores, and the last row that begins now. -/
def endActive (now : Timestamp) : List DatedRow → Option DatedRow → List DatedRow →
    Option DatedRow × List DatedRow
  | [], search, rows => (search, rows)
  | entity :: entities, search, rows =>
    if some now = entity.fromDate then
      endActive now entities (some entity) (store pkFieldNames entity none rows)
    else endActive now entities search (store pkFieldNames entity (some (some now)) rows)

/-- `EntityUtil.getOnly`, of the rows with a key; more than one make it throw. -/
def getOnly : List DatedRow → Option (Option DatedRow)
  | [] => some none
  | [value] => some (some value)
  | _ => none

/-- **`newDatedInclusionEntity`**; the value is `none` for an exception, and may be null. -/
def newDatedInclusionEntity (find : SearchMap) (now : Timestamp) (rows : List DatedRow) :
    Option (Option DatedRow) × List DatedRow :=
  match findDatedInclusionEntity find now rows with
  | [] => (some (some ⟨find.toRow, some now, none⟩), rows)
  | first :: entities =>
    match endActive pkFieldNames now (first :: entities) none rows with
    | (some entity, rows) => (getOnly (rows.filter fun row => samePk pkFieldNames row entity), rows)
    | (none, rows) => (some (some ⟨first.fields, some now, none⟩), rows)

/-- **`delDatedInclusionEntity`** -/
def delDatedInclusionEntity (find : SearchMap) (now : Timestamp) (rows : List DatedRow) :
    List DatedRow :=
  (findDatedInclusionEntity find now rows).foldl
    (fun rows entity => store pkFieldNames entity (some (some now)) rows) rows

/-- The calls on a key. -/
inductive Op
  | new (now : Timestamp)
  | del (now : Timestamp)
  deriving DecidableEq

def Op.now : Op → Timestamp
  | .new now => now
  | .del now => now

/-- A call. The value that one of the first kind returns is created, which leaves the rows as they
are if it fails. -/
def step (find : SearchMap) (rows : List DatedRow) : Op → List DatedRow
  | .new now =>
    let result := newDatedInclusionEntity pkFieldNames find now rows
    match result.1 with
    | some (some value) => (create pkFieldNames value result.2).getD result.2
    | _ => result.2
  | .del now => delDatedInclusionEntity pkFieldNames find now rows

def run (find : SearchMap) (ops : List Op) : List DatedRow :=
  ops.foldl (step pkFieldNames find) []

/-! ### What is right -/

def IncludedAt (ops : List Op) (moment : Timestamp) : Prop :=
  ∃ now, (ops.filter fun op => op.now.nanos ≤ moment.nanos).getLast? = some (.new now)

/-- **The rows are right after calls**: at every instant at most one is active, one is exactly if
the last call by then includes the key, and none ends before it begins. -/
structure IsRight (ops : List Op) (rows : List DatedRow) : Prop where
  atMostOne : ∀ moment, (rows.filter (isActiveAt moment)).length ≤ 1
  active_iff : ∀ moment, (∃ row ∈ rows, isActiveAt moment row = true) ↔ IncludedAt ops moment
  ordered : ∀ row ∈ rows, ∀ fromDate thruDate, row.fromDate = some fromDate →
    row.thruDate = some thruDate → fromDate.nanos ≤ thruDate.nanos

def Before (row row' : DatedRow) : Prop :=
  ∀ fromDate fromDate', row.fromDate = some fromDate → row'.fromDate = some fromDate' →
    fromDate.nanos < fromDate'.nanos ∧
      ∃ thruDate, row.thruDate = some thruDate ∧ thruDate.nanos ≤ fromDate'.nanos

/-- What a run without the exception keeps. -/
structure Kept (find : SearchMap) (ops : List Op) (rows : List DatedRow) : Prop where
  fields : ∀ row ∈ rows, row.fields = find.toRow
  began : ∀ row ∈ rows, ∃ fromDate, row.fromDate = some fromDate ∧ .new fromDate ∈ ops
  created : ∀ now, .new now ∈ ops → ∃ row ∈ rows, row.fromDate = some now
  ended : ∀ row ∈ rows, ∀ thruDate, row.thruDate = some thruDate →
    ∃ op ∈ ops, op.now = thruDate
  ordered : ∀ row ∈ rows, ∀ fromDate thruDate, row.fromDate = some fromDate →
    row.thruDate = some thruDate → fromDate.nanos ≤ thruDate.nanos
  disjoint : rows.Pairwise Before
  open_iff : (∃ row ∈ rows, row.thruDate = none) ↔ ∃ now, ops.getLast? = some (.new now)

theorem isActiveAt_iff {moment : Timestamp} {row : DatedRow} :
    isActiveAt moment row = true ↔
      (∀ thruDate, row.thruDate = some thruDate → moment.nanos < thruDate.nanos) ∧
        ∀ fromDate, row.fromDate = some fromDate → fromDate.nanos ≤ moment.nanos := by
  rw [isActiveAt, isActive, Bool.and_eq_true, Option.all_eq_true, Option.all_eq_true]
  refine and_congr ?_ ?_
  · exact forall_congr' fun thruDate => imp_congr_right fun _ => Timestamp.after_iff
  · refine forall_congr' fun fromDate => imp_congr_right fun _ => ?_
    rw [Bool.or_eq_true, Timestamp.before_iff, decide_eq_true_eq, ← Timestamp.nanos_inj]
    exact Int.le_iff_lt_or_eq.symm

def endAt (now : Timestamp) (row : DatedRow) : DatedRow :=
  if row.thruDate = none then { row with thruDate := some now } else row

theorem fields_endAt {now : Timestamp} {row : DatedRow} :
    (endAt now row).fields = row.fields := by
  rw [endAt]
  split_ifs
  · rfl
  · rfl

theorem fromDate_endAt {now : Timestamp} {row : DatedRow} :
    (endAt now row).fromDate = row.fromDate := by
  rw [endAt]
  split_ifs
  · rfl
  · rfl

namespace Kept

variable {pkFieldNames} {find : SearchMap} {ops : List Op} {rows : List DatedRow} {now : Timestamp}
  {row row' : DatedRow}

section Rows

variable (h : Kept find ops rows)

include h

theorem eq_or_before (hrow : row ∈ rows) (hrow' : row' ∈ rows) :
    row = row' ∨ Before row row' ∨ Before row' row := by
  by_cases heq : row = row'
  · exact Or.inl heq
  · have hsymm : Std.Symm fun row row' => Before row row' ∨ Before row' row := ⟨fun _ _ => Or.symm⟩
    have hdisjoint : rows.Pairwise fun row row' => Before row row' ∨ Before row' row :=
      h.disjoint.imp fun hbefore => Or.inl hbefore
    exact Or.inr (hdisjoint.forall hrow hrow' heq)

theorem eq_of_fromDate (hrow : row ∈ rows) (hrow' : row' ∈ rows)
    (hfrom : row.fromDate = row'.fromDate) : row = row' := by
  obtain ⟨fromDate, hfromDate, -⟩ := h.began row hrow
  have hfromDate' := hfrom.symm.trans hfromDate
  obtain heq | hbefore | hbefore := h.eq_or_before hrow hrow'
  · exact heq
  · exact absurd (hbefore _ _ hfromDate hfromDate').1 (Int.lt_irrefl _)
  · exact absurd (hbefore _ _ hfromDate' hfromDate).1 (Int.lt_irrefl _)

theorem samePk_iff (hrow : row ∈ rows) (hrow' : row' ∈ rows) :
    samePk pkFieldNames row row' = true ↔ row = row' := by
  rw [samePk, Bool.and_eq_true, decide_eq_true_eq]
  constructor
  · exact fun hpk => h.eq_of_fromDate hrow hrow' hpk.2
  · rintro rfl
    exact ⟨List.all_eq_true.mpr fun name _ => decide_eq_true rfl, rfl⟩

theorem eq_or_lt_of_open (hrow : row ∈ rows) (hrow' : row' ∈ rows) (hopen : row'.thruDate = none)
    {fromDate fromDate' : Timestamp} (hfrom : row.fromDate = some fromDate)
    (hfrom' : row'.fromDate = some fromDate') :
    row = row' ∨ fromDate.nanos < fromDate'.nanos := by
  obtain heq | hbefore | hbefore := h.eq_or_before hrow hrow'
  · exact Or.inl heq
  · exact Or.inr (hbefore _ _ hfrom hfrom').1
  · obtain ⟨thruDate, hthru, -⟩ := (hbefore _ _ hfrom' hfrom).2
    rw [hopen] at hthru
    cases hthru

theorem eq_of_open (hrow : row ∈ rows) (hrow' : row' ∈ rows) (hopen : row.thruDate = none)
    (hopen' : row'.thruDate = none) : row = row' := by
  obtain ⟨fromDate, hfrom, -⟩ := h.began row hrow
  obtain ⟨fromDate', hfrom', -⟩ := h.began row' hrow'
  obtain heq | hlt := h.eq_or_lt_of_open hrow hrow' hopen' hfrom hfrom'
  · exact heq
  · obtain heq | hlt' := h.eq_or_lt_of_open hrow' hrow hopen hfrom' hfrom
    · exact heq.symm
    · exact absurd hlt' (Int.lt_asymm hlt)

theorem isActiveAt_iff_open {moment : Timestamp} (hnow : ∀ op ∈ ops, op.now.nanos ≤ moment.nanos)
    (hrow : row ∈ rows) : isActiveAt moment row = true ↔ row.thruDate = none := by
  rw [isActiveAt_iff]
  constructor
  · rintro ⟨hthru, -⟩
    cases hended : row.thruDate with
    | none => rfl
    | some thruDate =>
      obtain ⟨op, hop, rfl⟩ := h.ended row hrow thruDate hended
      exact absurd (hthru op.now hended) (Int.not_lt.mpr (hnow op hop))
  · intro hopen
    refine ⟨fun thruDate hthru => ?_, fun fromDate hfrom => ?_⟩
    · rw [hopen] at hthru
      cases hthru
    · obtain ⟨fromDate', hfrom', hop⟩ := h.began row hrow
      obtain rfl := Option.some.inj (hfrom.symm.trans hfrom')
      exact hnow (.new fromDate) hop

theorem mem_find (hrow : row ∈ rows) :
    (find.entries.all fun field => row.fields field.1 = field.2) = true := by
  refine List.all_eq_true.mpr fun field hfield => decide_eq_true ?_
  rw [h.fields row hrow, SearchMap.toRow, EntryList.get,
    EntryList.lookup_of_mem find.nodup hfield, Option.join_some]

theorem filter_open_cases :
    (rows.filter (fun row => row.thruDate.isNone) = [] ∧ ∀ row ∈ rows, row.thruDate ≠ none) ∨
      ∃ entity ∈ rows, entity.thruDate = none ∧
        rows.filter (fun row => row.thruDate.isNone) = [entity] := by
  have hmem : ∀ row, row ∈ rows.filter (fun row => row.thruDate.isNone) ↔
      row ∈ rows ∧ row.thruDate = none := by
    intro row
    rw [List.mem_filter, Option.isNone_iff_eq_none]
  have hdisjoint := h.disjoint.filter fun row => row.thruDate.isNone
  generalize rows.filter (fun row => row.thruDate.isNone) = found at hmem hdisjoint ⊢
  match found with
  | [] => exact Or.inl ⟨rfl, fun row hrow hopen => absurd ((hmem row).mpr ⟨hrow, hopen⟩)
      List.not_mem_nil⟩
  | [entity] =>
    obtain ⟨hentity, hopen⟩ := (hmem entity).mp List.mem_cons_self
    exact Or.inr ⟨entity, hentity, hopen, rfl⟩
  | first :: second :: rest =>
    -- of two rows one begins after the other has ended, so that not both are open
    obtain ⟨hfirst, hopen⟩ := (hmem first).mp List.mem_cons_self
    obtain ⟨hsecond, -⟩ := (hmem second).mp (List.mem_cons_of_mem first List.mem_cons_self)
    obtain ⟨fromDate, hfrom, -⟩ := h.began first hfirst
    obtain ⟨fromDate', hfrom', -⟩ := h.began second hsecond
    have hbefore := (List.pairwise_cons.mp hdisjoint).1 second List.mem_cons_self
    obtain ⟨thruDate, hthru, -⟩ := (hbefore _ _ hfrom hfrom').2
    rw [hopen] at hthru
    cases hthru

/-! ### What a call reads and stores -/

variable (hnow : ∀ op ∈ ops, op.now.nanos ≤ now.nanos)

include hnow in
theorem find_cases :
    (findDatedInclusionEntity find now rows = [] ∧ ∀ row ∈ rows, row.thruDate ≠ none) ∨
      ∃ entity ∈ rows, entity.thruDate = none ∧
        findDatedInclusionEntity find now rows = [entity] := by
  have hfilter : (rows.filter fun row =>
      (find.entries.all fun field => row.fields field.1 = field.2) && isActiveAt now row) =
        rows.filter fun row => row.thruDate.isNone := by
    refine List.filter_congr fun row hrow => ?_
    rw [h.mem_find hrow, Bool.true_and, Bool.eq_iff_iff, h.isActiveAt_iff_open hnow hrow,
      Option.isNone_iff_eq_none]
  rw [findDatedInclusionEntity, hfilter]
  obtain ⟨hnil, hnone⟩ | ⟨entity, hentity, hopen, hsingle⟩ := h.filter_open_cases
  · rw [hnil]
    exact Or.inl ⟨List.mergeSort_nil, hnone⟩
  · rw [hsingle]
    exact Or.inr ⟨entity, hentity, hopen, List.mergeSort_singleton entity⟩

end Rows

theorem map_endAt_of_forall (hnone : ∀ row ∈ rows, row.thruDate ≠ none) :
    rows.map (endAt now) = rows :=
  (List.map_congr_left fun row hrow => if_neg (hnone row hrow)).trans (List.map_id rows)

section Store

variable (h : Kept find ops rows)

include h

theorem store_ended (hrow : row ∈ rows) (hopen : row.thruDate = none) :
    store pkFieldNames row (some (some now)) rows = rows.map (endAt now) := by
  refine List.map_congr_left fun row' hrow' => ?_
  by_cases heq : row' = row
  · subst heq
    rw [if_pos ((h.samePk_iff hrow hrow).mpr rfl), endAt, if_pos hopen]
    rfl
  · have hclosed : row'.thruDate ≠ none := fun hopen' => heq (h.eq_of_open hrow' hrow hopen' hopen)
    rw [if_neg (mt (h.samePk_iff hrow' hrow).mp heq), endAt, if_neg hclosed]

theorem filter_samePk (pkFieldNames : List FieldName) (hrow : row ∈ rows) :
    rows.filter (fun row' => samePk pkFieldNames row' row) = [row] := by
  have hmem : ∀ row', row' ∈ rows.filter (fun row' => samePk pkFieldNames row' row) ↔
      row' = row := by
    intro row'
    rw [List.mem_filter]
    constructor
    · exact fun hrow' => (h.samePk_iff hrow'.1 hrow).mp hrow'.2
    · rintro rfl
      exact ⟨hrow, (h.samePk_iff hrow hrow).mpr rfl⟩
  have hdisjoint := h.disjoint.filter fun row' => samePk pkFieldNames row' row
  generalize rows.filter (fun row' => samePk pkFieldNames row' row) = found at hmem hdisjoint ⊢
  match found with
  | [] => exact absurd ((hmem row).mpr rfl) List.not_mem_nil
  | [row'] => rw [(hmem row').mp List.mem_cons_self]
  | first :: second :: rest =>
    obtain rfl := (hmem first).mp List.mem_cons_self
    obtain rfl := (hmem second).mp (List.mem_cons_of_mem _ List.mem_cons_self)
    obtain ⟨fromDate, hfrom, -⟩ := h.began second hrow
    have hbefore := (List.pairwise_cons.mp hdisjoint).1 second List.mem_cons_self
    exact absurd (hbefore _ _ hfrom hfrom).1 (Int.lt_irrefl _)

theorem store_missing (hrow : row ∈ rows) : store pkFieldNames row none rows = rows := by
  refine (List.map_congr_left fun row' hrow' => ?_).trans (List.map_id rows)
  by_cases heq : row' = row
  · subst heq
    rw [if_pos ((h.samePk_iff hrow hrow).mpr rfl)]
    rfl
  · rw [if_neg (mt (h.samePk_iff hrow' hrow).mp heq)]
    rfl

end Store

/-! ### Calls -/

section Step

theorem create_eq (hfields : ∀ row ∈ rows, row.fields = find.toRow) :
    create pkFieldNames ⟨find.toRow, some now, none⟩ rows =
      if ∃ row ∈ rows, row.fromDate = some now then none
      else some (rows ++ [⟨find.toRow, some now, none⟩]) := by
  refine if_congr ?_ rfl rfl
  rw [List.any_eq_true]
  refine exists_congr fun row => and_congr_right fun hrow => ?_
  rw [samePk, hfields row hrow, Bool.and_eq_true, decide_eq_true_eq, List.all_eq_true]
  exact and_iff_right fun name _ => decide_eq_true rfl

variable (h : Kept find ops rows) (hnow : ∀ op ∈ ops, op.now.nanos ≤ now.nanos)

include h in
theorem exists_fromDate_iff : (∃ row ∈ rows, row.fromDate = some now) ↔ .new now ∈ ops := by
  constructor
  · rintro ⟨row, hrow, hfrom⟩
    obtain ⟨fromDate, hfromDate, hop⟩ := h.began row hrow
    rw [hfrom, Option.some.injEq] at hfromDate
    rwa [hfromDate]
  · exact h.created now

include h hnow

theorem step_del : step pkFieldNames find rows (.del now) = rows.map (endAt now) := by
  rw [step, delDatedInclusionEntity]
  obtain ⟨hfind, hnone⟩ | ⟨entity, hentity, hopen, hfind⟩ := h.find_cases hnow
  · rw [hfind, map_endAt_of_forall hnone]
    rfl
  · rw [hfind]
    exact h.store_ended hentity hopen

theorem newDatedInclusionEntity_cases (pkFieldNames : List FieldName) :
    (newDatedInclusionEntity pkFieldNames find now rows =
        (some (some ⟨find.toRow, some now, none⟩), rows.map (endAt now)) ∧
      ∀ row ∈ rows, row.thruDate = none → row.fromDate ≠ some now) ∨
    ∃ entity ∈ rows, entity.thruDate = none ∧ entity.fromDate = some now ∧
      newDatedInclusionEntity pkFieldNames find now rows = (some (some entity), rows) := by
  rw [newDatedInclusionEntity]
  obtain ⟨hfind, hnone⟩ | ⟨entity, hentity, hopen, hfind⟩ := h.find_cases hnow
  · rw [hfind, map_endAt_of_forall hnone]
    exact Or.inl ⟨rfl, fun row hrow hopen => absurd hopen (hnone row hrow)⟩
  · rw [hfind]
    by_cases hfrom : some now = entity.fromDate
    · -- the row begins at this instant: its thru date is removed, which changes nothing
      have hend : endActive pkFieldNames now [entity] none rows = (some entity, rows) := by
        rw [endActive, if_pos hfrom, endActive, h.store_missing hentity]
      have honly := h.filter_samePk pkFieldNames hentity
      refine Or.inr ⟨entity, hentity, hopen, hfrom.symm, ?_⟩
      dsimp only
      rw [hend]
      dsimp only
      rw [honly]
      rfl
    · -- the row began before: it is ended
      have hend : endActive pkFieldNames now [entity] none rows =
          (none, rows.map (endAt now)) := by
        rw [endActive, if_neg hfrom, endActive, h.store_ended hentity hopen]
      refine Or.inl ⟨?_, fun row hrow hopen' => ?_⟩
      · dsimp only
        rw [hend]
        dsimp only
        rw [h.fields entity hentity]
      · rw [h.eq_of_open hrow hentity hopen' hopen]
        exact fun heq => hfrom heq.symm

theorem step_new_of_mem (hmem : .new now ∈ ops) :
    step pkFieldNames find rows (.new now) = rows := by
  rw [step]
  obtain ⟨hnew, hother⟩ | ⟨entity, hentity, -, -, hnew⟩ :=
    h.newDatedInclusionEntity_cases hnow pkFieldNames
  · -- the row that begins now has ended, and no row that is open begins before it
    obtain ⟨row, hrow, hfrom⟩ := h.exists_fromDate_iff.mpr hmem
    have hnone : ∀ row ∈ rows, row.thruDate ≠ none := by
      intro row' hrow' hopen
      obtain ⟨fromDate, hfrom', hop⟩ := h.began row' hrow'
      obtain heq | hlt := h.eq_or_lt_of_open hrow hrow' hopen hfrom hfrom'
      · exact hother row' hrow' hopen (heq ▸ hfrom)
      · exact absurd (hnow _ hop) (Int.not_le.mpr hlt)
    rw [hnew, map_endAt_of_forall hnone]
    dsimp only
    rw [create_eq h.fields, if_pos (h.exists_fromDate_iff.mpr hmem), Option.getD_none]
  · have hany : rows.any (fun row => samePk pkFieldNames row entity) = true :=
      List.any_eq_true.mpr ⟨entity, hentity, (h.samePk_iff hentity hentity).mpr rfl⟩
    have hcreate : create pkFieldNames entity rows = none := if_pos hany
    rw [hnew]
    dsimp only
    rw [hcreate, Option.getD_none]

theorem step_new_of_not_mem (hmem : .new now ∉ ops) :
    step pkFieldNames find rows (.new now) =
      rows.map (endAt now) ++ [⟨find.toRow, some now, none⟩] := by
  have hnone : ¬∃ row ∈ rows.map (endAt now), row.fromDate = some now := by
    rintro ⟨_, hmap, hfrom⟩
    obtain ⟨row, hrow, rfl⟩ := List.mem_map.mp hmap
    rw [fromDate_endAt] at hfrom
    exact hmem (h.exists_fromDate_iff.mp ⟨row, hrow, hfrom⟩)
  obtain ⟨hnew, -⟩ | ⟨entity, hentity, -, hfrom, -⟩ :=
    h.newDatedInclusionEntity_cases hnow pkFieldNames
  · have hfields : ∀ row ∈ rows.map (endAt now), row.fields = find.toRow := by
      intro _ hmap
      obtain ⟨row, hrow, rfl⟩ := List.mem_map.mp hmap
      rw [fields_endAt, h.fields row hrow]
    rw [step, hnew]
    dsimp only
    rw [create_eq hfields, if_neg hnone, Option.getD_some]
  · exact absurd (h.exists_fromDate_iff.mp ⟨entity, hentity, hfrom⟩) hmem

/-! ### What a call keeps -/

omit hnow in
theorem again (hmem : .new now ∈ ops) (hlast : ∃ now', ops.getLast? = some (.new now')) :
    Kept find (ops ++ [.new now]) rows where
  fields := h.fields
  began row hrow := by
    obtain ⟨fromDate, hfrom, hop⟩ := h.began row hrow
    exact ⟨fromDate, hfrom, List.mem_append_left _ hop⟩
  created now' hop := by
    rcases List.mem_append.mp hop with hop | hop
    · exact h.created now' hop
    · obtain rfl := Op.new.inj (List.mem_singleton.mp hop)
      exact h.created now' hmem
  ended row hrow thruDate hthru := by
    obtain ⟨op, hop, heq⟩ := h.ended row hrow thruDate hthru
    exact ⟨op, List.mem_append_left _ hop, heq⟩
  ordered := h.ordered
  disjoint := h.disjoint
  open_iff := iff_of_true (h.open_iff.mpr hlast) ⟨now, List.getLast?_concat⟩

theorem ordered_endAt (hrow : row ∈ rows) {fromDate thruDate : Timestamp}
    (hfrom : row.fromDate = some fromDate) (hthru : (endAt now row).thruDate = some thruDate) :
    fromDate.nanos ≤ thruDate.nanos := by
  rw [endAt] at hthru
  split_ifs at hthru with hopen
  · obtain rfl := Option.some.inj hthru
    obtain ⟨fromDate', hfrom', hop⟩ := h.began row hrow
    obtain rfl := Option.some.inj (hfrom.symm.trans hfrom')
    exact hnow (.new fromDate) hop
  · exact h.ordered row hrow fromDate thruDate hfrom hthru

theorem ended_endAt (hrow : row ∈ rows) :
    ∃ thruDate, (endAt now row).thruDate = some thruDate ∧ thruDate.nanos ≤ now.nanos ∧
      (thruDate = now ∨ ∃ op ∈ ops, op.now = thruDate) := by
  rw [endAt]
  split_ifs with hopen
  · exact ⟨now, rfl, Int.le_refl _, Or.inl rfl⟩
  · obtain ⟨thruDate, hthru⟩ := Option.ne_none_iff_exists'.mp hopen
    obtain ⟨op, hop, heq⟩ := h.ended row hrow thruDate hthru
    exact ⟨thruDate, hthru, heq ▸ hnow op hop, Or.inr ⟨op, hop, heq⟩⟩

omit hnow in
theorem disjoint_endAt : (rows.map (endAt now)).Pairwise Before := by
  refine List.pairwise_map.mpr (h.disjoint.imp fun {row row'} hbefore => ?_)
  intro fromDate fromDate' hfrom hfrom'
  rw [fromDate_endAt] at hfrom hfrom'
  obtain ⟨hlt, thruDate, hthru, hle⟩ := hbefore fromDate fromDate' hfrom hfrom'
  have hended : endAt now row = row := if_neg (Option.ne_none_iff_exists'.mpr ⟨thruDate, hthru⟩)
  exact ⟨hlt, thruDate, (congrArg DatedRow.thruDate hended).trans hthru, hle⟩

omit hnow in
theorem began_endAt (hrow : row ∈ rows.map (endAt now)) :
    ∃ fromDate, row.fromDate = some fromDate ∧ .new fromDate ∈ ops := by
  obtain ⟨row, hmem, rfl⟩ := List.mem_map.mp hrow
  obtain ⟨fromDate, hfrom, hop⟩ := h.began row hmem
  exact ⟨fromDate, fromDate_endAt.trans hfrom, hop⟩

omit hnow in
theorem created_endAt {now' : Timestamp} (hop : .new now' ∈ ops) :
    ∃ row ∈ rows.map (endAt now), row.fromDate = some now' := by
  obtain ⟨row, hrow, hfrom⟩ := h.created now' hop
  exact ⟨endAt now row, List.mem_map_of_mem hrow, fromDate_endAt.trans hfrom⟩

theorem exists_op_endAt (last : Op) (hlast : last.now = now) (hrow : row ∈ rows.map (endAt now))
    {thruDate : Timestamp} (hthru : row.thruDate = some thruDate) :
    ∃ op ∈ ops ++ [last], op.now = thruDate := by
  obtain ⟨row, hmem, rfl⟩ := List.mem_map.mp hrow
  obtain ⟨thruDate', hthru', -, heq | ⟨op, hop, heq⟩⟩ := h.ended_endAt hnow hmem
  · obtain rfl := Option.some.inj (hthru.symm.trans hthru')
    exact ⟨last, List.mem_append_right _ List.mem_cons_self, hlast.trans heq.symm⟩
  · obtain rfl := Option.some.inj (hthru.symm.trans hthru')
    exact ⟨op, List.mem_append_left _ hop, heq⟩

theorem del : Kept find (ops ++ [.del now]) (rows.map (endAt now)) where
  fields row hrow := by
    obtain ⟨row, hmem, rfl⟩ := List.mem_map.mp hrow
    rw [fields_endAt, h.fields row hmem]
  began row hrow := by
    obtain ⟨fromDate, hfrom, hop⟩ := h.began_endAt hrow
    exact ⟨fromDate, hfrom, List.mem_append_left _ hop⟩
  created now' hop := by
    rcases List.mem_append.mp hop with hop | hop
    · exact h.created_endAt hop
    · cases List.mem_singleton.mp hop
  ended row hrow thruDate hthru := h.exists_op_endAt hnow (.del now) rfl hrow hthru
  ordered row hrow fromDate thruDate hfrom hthru := by
    obtain ⟨row, hmem, rfl⟩ := List.mem_map.mp hrow
    exact h.ordered_endAt hnow hmem (fromDate_endAt.symm.trans hfrom) hthru
  disjoint := h.disjoint_endAt
  open_iff := by
    refine iff_of_false ?_ ?_
    · rintro ⟨_, hrow, hopen⟩
      obtain ⟨row, hmem, rfl⟩ := List.mem_map.mp hrow
      obtain ⟨thruDate, hthru, -⟩ := h.ended_endAt hnow hmem
      rw [hopen] at hthru
      cases hthru
    · rintro ⟨now', hlast⟩
      rw [List.getLast?_concat] at hlast
      cases hlast

theorem new (hmem : .new now ∉ ops) :
    Kept find (ops ++ [.new now]) (rows.map (endAt now) ++ [⟨find.toRow, some now, none⟩]) where
  fields row hrow := by
    rcases List.mem_append.mp hrow with hrow | hrow
    · exact (h.del hnow).fields row hrow
    · rw [List.mem_singleton.mp hrow]
  began row hrow := by
    rcases List.mem_append.mp hrow with hrow | hrow
    · obtain ⟨fromDate, hfrom, hop⟩ := h.began_endAt hrow
      exact ⟨fromDate, hfrom, List.mem_append_left _ hop⟩
    · rw [List.mem_singleton.mp hrow]
      exact ⟨now, rfl, List.mem_append_right _ List.mem_cons_self⟩
  created now' hop := by
    rcases List.mem_append.mp hop with hop | hop
    · obtain ⟨row, hrow, hfrom⟩ := h.created_endAt hop
      exact ⟨row, List.mem_append_left _ hrow, hfrom⟩
    · obtain rfl := Op.new.inj (List.mem_singleton.mp hop)
      exact ⟨_, List.mem_append_right _ List.mem_cons_self, rfl⟩
  ended row hrow thruDate hthru := by
    rcases List.mem_append.mp hrow with hrow | hrow
    · exact h.exists_op_endAt hnow (.new now) rfl hrow hthru
    · rw [List.mem_singleton.mp hrow] at hthru
      cases hthru
  ordered row hrow fromDate thruDate hfrom hthru := by
    rcases List.mem_append.mp hrow with hrow | hrow
    · exact (h.del hnow).ordered row hrow fromDate thruDate hfrom hthru
    · rw [List.mem_singleton.mp hrow] at hthru
      cases hthru
  disjoint := by
    refine List.pairwise_append.mpr ⟨h.disjoint_endAt, List.pairwise_singleton _ _, ?_⟩
    intro _ hrow row' hrow' fromDate fromDate' hfrom hfrom'
    obtain ⟨row, hmem', rfl⟩ := List.mem_map.mp hrow
    rw [List.mem_singleton.mp hrow', Option.some.injEq] at hfrom'
    subst hfrom'
    obtain ⟨thruDate, hthru, hle, -⟩ := h.ended_endAt hnow hmem'
    refine ⟨?_, thruDate, hthru, hle⟩
    -- no row begins at this instant
    obtain ⟨fromDate', hfromDate, hop⟩ := h.began row hmem'
    obtain rfl := Option.some.inj ((fromDate_endAt.symm.trans hfrom).symm.trans hfromDate)
    refine Int.lt_iff_le_and_ne.mpr ⟨hnow _ hop, fun heq => hmem ?_⟩
    rwa [← Timestamp.nanos_inj.mp heq]
  open_iff := iff_of_true ⟨_, List.mem_append_right _ List.mem_cons_self, rfl⟩
    ⟨now, List.getLast?_concat⟩

end Step

end Kept

/-! ### Runs -/

section Runs

variable {pkFieldNames} {find : SearchMap} {ops : List Op} {rows : List DatedRow} {op : Op}
  {moment : Timestamp}

theorem includedAt_append_of_lt (hlt : moment.nanos < op.now.nanos) :
    IncludedAt (ops ++ [op]) moment ↔ IncludedAt ops moment := by
  have hfilter : ((ops ++ [op]).filter fun op => op.now.nanos ≤ moment.nanos) =
      ops.filter fun op => op.now.nanos ≤ moment.nanos := by
    rw [List.filter_append, List.filter_singleton, decide_eq_false (Int.not_le.mpr hlt)]
    exact List.append_nil _
  rw [IncludedAt, IncludedAt, hfilter]

theorem includedAt_of_le (hnow : ∀ op ∈ ops, op.now.nanos ≤ moment.nanos) :
    IncludedAt ops moment ↔ ∃ now, ops.getLast? = some (.new now) := by
  have hfilter : (ops.filter fun op => op.now.nanos ≤ moment.nanos) = ops :=
    List.filter_eq_self.mpr fun op hop => decide_eq_true (hnow op hop)
  rw [IncludedAt, hfilter]

theorem isActiveAt_endAt {row : DatedRow} {now : Timestamp} (hlt : moment.nanos < now.nanos) :
    isActiveAt moment (endAt now row) = isActiveAt moment row := by
  rw [endAt]
  split_ifs with hopen
  · rw [Bool.eq_iff_iff, isActiveAt_iff, isActiveAt_iff]
    refine and_congr_left fun _ => iff_of_true ?_ ?_
    · intro thruDate hthru
      rwa [← Option.some.inj hthru]
    · intro thruDate hthru
      rw [hopen] at hthru
      cases hthru
  · rfl

theorem exists_active_endAt {now : Timestamp} (hlt : moment.nanos < now.nanos) :
    (∃ row ∈ rows.map (endAt now), isActiveAt moment row = true) ↔
      ∃ row ∈ rows, isActiveAt moment row = true := by
  constructor
  · rintro ⟨_, hmap, hactive⟩
    obtain ⟨row, hrow, rfl⟩ := List.mem_map.mp hmap
    exact ⟨row, hrow, (isActiveAt_endAt hlt) ▸ hactive⟩
  · rintro ⟨row, hrow, hactive⟩
    exact ⟨endAt now row, List.mem_map_of_mem hrow, (isActiveAt_endAt hlt).trans hactive⟩

theorem Kept.atMostOne (h : Kept find ops rows) (moment : Timestamp) :
    (rows.filter (isActiveAt moment)).length ≤ 1 := by
  have hdisjoint := h.disjoint.filter (isActiveAt moment)
  have hmem : ∀ row ∈ rows.filter (isActiveAt moment), row ∈ rows ∧ isActiveAt moment row = true :=
    fun row hrow => List.mem_filter.mp hrow
  generalize rows.filter (isActiveAt moment) = found at hdisjoint hmem ⊢
  match found with
  | [] => exact Nat.zero_le 1
  | [row] => exact Nat.le_refl 1
  | first :: second :: rest =>
    -- the second row would begin when the first one has ended
    obtain ⟨hfirst, hactive⟩ := hmem first List.mem_cons_self
    obtain ⟨hsecond, hactive'⟩ := hmem second (List.mem_cons_of_mem first List.mem_cons_self)
    obtain ⟨fromDate, hfrom, -⟩ := h.began first hfirst
    obtain ⟨fromDate', hfrom', -⟩ := h.began second hsecond
    have hbefore := (List.pairwise_cons.mp hdisjoint).1 second List.mem_cons_self
    obtain ⟨-, thruDate, hthru, hle⟩ := hbefore _ _ hfrom hfrom'
    have hend := (isActiveAt_iff.mp hactive).1 thruDate hthru
    have hbegin := (isActiveAt_iff.mp hactive').2 fromDate' hfrom'
    omega

/-- The rows are right after a call, if they were right before it and those before its instant are
active as they were. -/
theorem Kept.isRight (h : Kept find (ops ++ [op]) rows)
    (hnow : ∀ op' ∈ ops, op'.now.nanos ≤ op.now.nanos)
    (hbefore : ∀ moment, moment.nanos < op.now.nanos →
      ((∃ row ∈ rows, isActiveAt moment row = true) ↔ IncludedAt ops moment)) :
    IsRight (ops ++ [op]) rows where
  atMostOne := h.atMostOne
  active_iff moment := by
    by_cases hlt : moment.nanos < op.now.nanos
    · rw [includedAt_append_of_lt hlt, hbefore moment hlt]
    · have hnow' : ∀ op' ∈ ops ++ [op], op'.now.nanos ≤ moment.nanos := by
        intro op' hop'
        rcases List.mem_append.mp hop' with hop' | hop'
        · exact Int.le_trans (hnow op' hop') (Int.not_lt.mp hlt)
        · rw [List.mem_singleton.mp hop']
          exact Int.not_lt.mp hlt
      rw [includedAt_of_le hnow', ← h.open_iff]
      exact exists_congr fun row => and_congr_right fun hrow => h.isActiveAt_iff_open hnow' hrow
  ordered := h.ordered

/-- The key is not included again at an instant at which it has been included and then ended. -/
def Op.IsRightAfter (ops : List Op) (op : Op) : Prop :=
  ∀ now, op = .new now → .new now ∈ ops → ∃ now', ops.getLast? = some (.new now')

theorem Kept.step (h : Kept find ops rows) (hright : IsRight ops rows)
    (hnow : ∀ op' ∈ ops, op'.now.nanos ≤ op.now.nanos) (hop : op.IsRightAfter ops) :
    Kept find (ops ++ [op]) (step pkFieldNames find rows op) ∧
      IsRight (ops ++ [op]) (step pkFieldNames find rows op) := by
  cases op with
  | del now =>
    have hnow : ∀ op' ∈ ops, op'.now.nanos ≤ now.nanos := hnow
    rw [h.step_del hnow]
    have hkept := h.del hnow
    refine ⟨hkept, hkept.isRight hnow fun moment (hlt : moment.nanos < now.nanos) => ?_⟩
    rw [exists_active_endAt hlt, hright.active_iff]
  | new now =>
    have hnow : ∀ op' ∈ ops, op'.now.nanos ≤ now.nanos := hnow
    by_cases hmem : .new now ∈ ops
    · -- the value is not made twice, and `create` fails on the row that is there
      rw [h.step_new_of_mem hnow hmem]
      have hkept := h.again hmem (hop now rfl hmem)
      exact ⟨hkept, hkept.isRight hnow fun moment _ => hright.active_iff moment⟩
    · rw [h.step_new_of_not_mem hnow hmem]
      have hkept := h.new hnow hmem
      refine ⟨hkept, hkept.isRight hnow fun moment (hlt : moment.nanos < now.nanos) => ?_⟩
      rw [← hright.active_iff]
      refine Iff.trans ?_ (exists_active_endAt hlt)
      refine ⟨?_, fun ⟨row, hrow, hactive⟩ => ⟨row, List.mem_append_left _ hrow, hactive⟩⟩
      rintro ⟨row, hrow, hactive⟩
      -- the new row is not active at an earlier moment
      rcases List.mem_append.mp hrow with hrow | hrow
      · exact ⟨row, hrow, hactive⟩
      · rw [List.mem_singleton.mp hrow] at hactive
        exact absurd ((isActiveAt_iff.mp hactive).2 now rfl) (Int.not_le.mpr hlt)

theorem Kept.not_isRight (h : Kept find ops rows) {now : Timestamp}
    (hnow : ∀ op' ∈ ops, op'.now.nanos ≤ now.nanos) (hmem : .new now ∈ ops)
    (hlast : ¬∃ now', ops.getLast? = some (.new now')) :
    ¬IsRight (ops ++ [.new now]) (DatedInclusion.step pkFieldNames find rows (.new now)) := by
  rw [h.step_new_of_mem hnow hmem]
  intro hright
  have hnow' : ∀ op' ∈ ops ++ [.new now], op'.now.nanos ≤ now.nanos := by
    intro op' hop'
    rcases List.mem_append.mp hop' with hop' | hop'
    · exact hnow op' hop'
    · rw [List.mem_singleton.mp hop']
      exact Int.le_refl _
  have hincluded : IncludedAt (ops ++ [.new now]) now :=
    (includedAt_of_le hnow').mpr ⟨now, List.getLast?_concat⟩
  obtain ⟨row, hrow, hactive⟩ := (hright.active_iff now).mpr hincluded
  exact hlast (h.open_iff.mp ⟨row, hrow, (h.isActiveAt_iff_open hnow hrow).mp hactive⟩)

theorem kept_nil : Kept find [] [] where
  fields _ hrow := absurd hrow List.not_mem_nil
  began _ hrow := absurd hrow List.not_mem_nil
  created _ hop := absurd hop List.not_mem_nil
  ended _ hrow := absurd hrow List.not_mem_nil
  ordered _ hrow := absurd hrow List.not_mem_nil
  disjoint := .nil
  open_iff := by
    refine iff_of_false (fun ⟨_, hrow, _⟩ => List.not_mem_nil hrow) ?_
    rintro ⟨now, hlast⟩
    cases hlast

theorem isRight_nil : IsRight [] [] where
  atMostOne _ := Nat.zero_le 1
  active_iff moment := by
    refine iff_of_false (fun ⟨_, hrow, _⟩ => List.not_mem_nil hrow) ?_
    rintro ⟨now, hlast⟩
    cases hlast
  ordered _ hrow := absurd hrow List.not_mem_nil

theorem run_append : run pkFieldNames find (ops ++ [op]) =
    step pkFieldNames find (run pkFieldNames find ops) op :=
  List.foldl_concat _ _ _ _

theorem kept_run (hsorted : ops.Pairwise fun op op' => op.now.nanos ≤ op'.now.nanos)
    (hright : ∀ pre op, pre ++ [op] <+: ops → op.IsRightAfter pre) :
    Kept find ops (run pkFieldNames find ops) ∧ IsRight ops (run pkFieldNames find ops) := by
  induction ops using List.reverseRecOn with
  | nil => exact ⟨kept_nil, isRight_nil⟩
  | append_singleton ops op ih =>
    obtain ⟨hsorted, -, hnow⟩ := List.pairwise_append.mp hsorted
    obtain ⟨hkept, hright'⟩ := ih hsorted fun pre op' hpre =>
      hright pre op' (hpre.trans (List.prefix_append ops [op]))
    rw [run_append]
    exact hkept.step hright' (fun op' hop' => hnow op' hop' op List.mem_cons_self)
      (hright ops op List.prefix_rfl)

/-- **A run keeps the rows right in all its states** exactly if a call that includes the key at an
instant at which it has been included before does not follow one that ends it. -/
theorem isRight_run_iff (pkFieldNames : List FieldName) (find : SearchMap) (ops : List Op)
    (hsorted : ops.Pairwise fun op op' => op.now.nanos ≤ op'.now.nanos) :
    (∀ pre, pre <+: ops → IsRight pre (run pkFieldNames find pre)) ↔
      ∀ pre op, pre ++ [op] <+: ops → op.IsRightAfter pre := by
  constructor
  · intro h pre
    -- the induction is on the length of the part that has run
    induction hlength : pre.length using Nat.strong_induction_on generalizing pre with
    | _ n ih =>
    rintro op hpre now rfl hmem
    by_contra hlast
    have hpre' : pre <+: ops := (List.prefix_append pre _).trans hpre
    have hsorted' := hsorted.sublist hpre.sublist
    obtain ⟨hsortedPre, -, hnow⟩ := List.pairwise_append.mp hsorted'
    have hrightPre : ∀ pre' op, pre' ++ [op] <+: pre → op.IsRightAfter pre' := by
      intro pre' op hpre''
      have hle := hpre''.length_le
      rw [List.length_append, List.length_singleton] at hle
      exact ih pre'.length (by omega) pre' rfl op (hpre''.trans hpre')
    have hkept : Kept find pre (run pkFieldNames find pre) := (kept_run hsortedPre hrightPre).1
    have hwrong : ¬IsRight (pre ++ [.new now])
        (step pkFieldNames find (run pkFieldNames find pre) (.new now)) :=
      hkept.not_isRight (fun op' hop' => hnow op' hop' _ List.mem_cons_self) hmem hlast
    rw [← run_append] at hwrong
    exact hwrong (h _ hpre)
  · intro h pre hpre
    exact (kept_run (hsorted.sublist hpre.sublist) fun pre' op hpre' =>
      h pre' op (hpre'.trans hpre)).2

end Runs

/-! ### A key of one field -/

section PartyRole

theorem isLong_begin : Decimal.IsLong 0 := by decide

theorem isLong_later : Decimal.IsLong 1000 := by decide

def midnight : Timestamp := .ofMillis 0 isLong_begin

def secondLater : Timestamp := .ofMillis 1000 isLong_later

def partyRole : SearchMap where
  entries := [("partyId".toList, some (.string "DemoParty".toList))]
  nodup := List.nodup_singleton _

theorem isRight_run_iff_partyRole :
    let ops : List Op := [.new midnight, .del midnight, .new secondLater]
    (∀ pre, pre <+: ops → IsRight pre (run ["partyId".toList] partyRole pre)) ↔
      ∀ pre op, pre ++ [op] <+: ops → op.IsRightAfter pre :=
  isRight_run_iff ["partyId".toList] partyRole [.new midnight, .del midnight, .new secondLater]
    (by decide)

theorem not_isRight_partyRole :
    let ops : List Op := [.new midnight, .del midnight, .new midnight]
    (ops.Pairwise fun op op' => op.now.nanos ≤ op'.now.nanos) ∧
      ¬IsRight ops (run ["partyId".toList] partyRole ops) := by
  refine ⟨by decide, ?_⟩
  have hfirst : Kept partyRole [.new midnight] (run ["partyId".toList] partyRole [.new midnight]) ∧
      IsRight [.new midnight] (run ["partyId".toList] partyRole [.new midnight]) :=
    kept_nil.step isRight_nil (fun op hop => absurd hop List.not_mem_nil)
      fun now _ hmem => absurd hmem List.not_mem_nil
  have hsecond : Kept partyRole [.new midnight, .del midnight]
      (run ["partyId".toList] partyRole [.new midnight, .del midnight]) := by
    have hnow : ∀ op' ∈ [Op.new midnight], op'.now.nanos ≤ (Op.del midnight).now.nanos := by decide
    refine (hfirst.1.step hfirst.2 hnow ?_).1
    intro now hop
    cases hop
  refine hsecond.not_isRight (by decide) List.mem_cons_self ?_
  rintro ⟨now, hlast⟩
  cases hlast

end PartyRole

end OfficeAuto.Entity.DatedInclusion
