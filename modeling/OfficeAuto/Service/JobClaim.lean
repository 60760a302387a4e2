import OfficeAuto.Service.JobSandbox

/-!
# Claims of jobs

Safety of the claims of `JobManager.poll`, for any number of instances and any interleaving of
their statements. The invariant `Claims` ties the table to the memory of all instances
together: no row has two job objects, wherever they are; the row of a job object is claimed
by the instance of that object and by no other; a row whose job object has not run its service
is not in the log, and a row that is in the log stays claimed, so that no conditional update
can take it again. A claim is given up only by the instance that holds it, before the service
has run: by `deQueue`, by the rollback of a poll or by a crash within one.

Most steps keep the job objects where they are and keep who has claimed a row, or give up a row that
has no job object left; `Claims.of_le` is the invariant for all of them.
-/

set_option linter.unusedSectionVars false

namespace OfficeAuto.Service

variable {I : Type} [DecidableEq I]

/-! ### Job objects in the list of all of them -/

def Phase.HasRun : Phase I → Prop
  | .ran _ _ | .finishing _ => True
  | _ => False

/-- The row in the memory of a job object is the row of the table, with the fields set that
the phase is about to store. -/
def Phase.Matches (row : Row I) : Phase I → Prop
  | .queueing v => v = { row with statusId := .queued }
  | .dequeueing v =>
    v = { row with startDateTime := false, runByInstanceId := none, statusId := .pending }
  | .initialising v => v = { row with startDateTime := true, statusId := .running }
  | .running v | .ready v _ | .ran v _ => v = row
  | .finishing v => v = { row with statusId := .finished, finishDateTime := true } ∨
      v = { row with statusId := .failed, finishDateTime := true }
  | _ => True

def State.runIds (s : State I) : List JobId := s.log.map Prod.snd

/-- **The invariant of claims.** -/
structure Claims (s : State I) : Prop where
  nodup : (s.objects.map JobObject.jobId).Nodup
  owned : ∀ o ∈ s.objects, ∀ row, s.jobs o.jobId = some row →
    row.runByInstanceId = some o.owner ∧ o.phase.Matches row
  notRun : ∀ o ∈ s.objects, ¬ o.phase.HasRun → o.jobId ∉ s.runIds
  kept : ∀ id ∈ s.runIds, ∀ row, s.jobs id = some row → row.runByInstanceId ≠ none
  runOnce : s.runIds.Nodup
  bound : ∀ id, s.nextId ≤ id → s.jobs id = none
  bound_objects : ∀ o ∈ s.objects, o.jobId < s.nextId
  bound_run : ∀ id ∈ s.runIds, id < s.nextId

variable {s s' : State I}

theorem Claims.eq_of_jobId_eq (h : Claims s) {o o' : JobObject I} (ho : o ∈ s.objects)
    (ho' : o' ∈ s.objects) (heq : o.jobId = o'.jobId) : o = o' :=
  List.inj_on_of_nodup_map h.nodup ho ho' heq

theorem Claims.perm_cons_erase {o : JobObject I} (ho : o ∈ s.objects) :
    (s.objects.map JobObject.jobId).Perm
      (o.jobId :: (s.objects.erase o).map JobObject.jobId) :=
  (List.perm_cons_erase ho).map _

theorem Claims.ne_of_mem_erase (h : Claims s) {o x : JobObject I} (ho : o ∈ s.objects)
    (hx : x ∈ s.objects.erase o) : x ∈ s.objects ∧ x.jobId ≠ o.jobId := by
  refine ⟨List.mem_of_mem_erase hx, fun heq => ?_⟩
  have hnodup : (o.jobId :: (s.objects.erase o).map JobObject.jobId).Nodup :=
    (Claims.perm_cons_erase ho).nodup_iff.mp h.nodup
  exact (List.nodup_cons.mp hnodup).1 (heq ▸ List.mem_map_of_mem hx)

theorem Claims.nodup_replace (h : Claims s) {o : JobObject I} {p : Phase I}
    (ho : o ∈ s.objects) : ((s.replace o p).objects.map JobObject.jobId).Nodup :=
  (Claims.perm_cons_erase ho).nodup_iff.mp h.nodup

theorem Claims.nodup_discard (h : Claims s) {o : JobObject I} :
    ((s.discard o).objects.map JobObject.jobId).Nodup :=
  h.nodup.sublist ((List.erase_sublist).map _)

/-! ### Steps that give up claims at most -/

/-- Each job object comes from one of the same row and the same instance, and a service that
has run stays run. -/
def ObjectsFrom (s s' : State I) : Prop :=
  ∀ o' ∈ s'.objects, ∃ o ∈ s.objects, o'.jobId = o.jobId ∧ o'.owner = o.owner ∧
    (¬ o'.phase.HasRun → ¬ o.phase.HasRun)

/-- Each row is new, or claimed by who had claimed it, or given up: without a job object and
not run. -/
def RowsFrom (s s' : State I) : Prop :=
  ∀ id row', s'.jobs id = some row' →
    s.nextId ≤ id ∨
    (∃ row, s.jobs id = some row ∧ row'.runByInstanceId = row.runByInstanceId) ∨
    ((∀ o' ∈ s'.objects, o'.jobId ≠ id) ∧ id ∉ s.runIds)

/-- **The invariant for the steps that claim nothing and run nothing.** -/
theorem Claims.of_le (h : Claims s) (hobjects : ObjectsFrom s s') (hrows : RowsFrom s s')
    (hnodup : (s'.objects.map JobObject.jobId).Nodup) (hlog : s'.log = s.log)
    (hnext : s.nextId ≤ s'.nextId) (hbound : ∀ id, s'.nextId ≤ id → s'.jobs id = none)
    (hmatches : ∀ o' ∈ s'.objects, ∀ row', s'.jobs o'.jobId = some row' →
      o'.phase.Matches row') : Claims s' := by
  have hrun : s'.runIds = s.runIds := by rw [State.runIds, hlog, State.runIds]
  refine ⟨hnodup, ?_, ?_, ?_, hrun ▸ h.runOnce, hbound, ?_, ?_⟩
  · intro o' ho' row' hrow'
    refine ⟨?_, hmatches o' ho' row' hrow'⟩
    obtain ⟨o, ho, hid, howner, -⟩ := hobjects o' ho'
    rcases hrows o'.jobId row' hrow' with hnew | ⟨row, hrow, hsame⟩ | ⟨hfree, -⟩
    · exact absurd (h.bound_objects o ho) (Nat.not_lt.mpr (hid ▸ hnew))
    · rw [hid] at hrow
      rw [hsame, (h.owned o ho row hrow).1, howner]
    · exact absurd rfl (hfree o' ho')
  · intro o' ho' hnot
    obtain ⟨o, ho, hid, -, hrunO⟩ := hobjects o' ho'
    rw [hrun, hid]
    exact h.notRun o ho (hrunO hnot)
  · intro id hid row' hrow'
    rw [hrun] at hid
    rcases hrows id row' hrow' with hnew | ⟨row, hrow, hsame⟩ | ⟨-, hfree⟩
    · exact absurd (h.bound_run id hid) (Nat.not_lt.mpr hnew)
    · rw [hsame]
      exact h.kept id hid row hrow
    · exact absurd hid hfree
  · intro o' ho'
    obtain ⟨o, ho, hid, -, -⟩ := hobjects o' ho'
    exact hid ▸ Nat.lt_of_lt_of_le (h.bound_objects o ho) hnext
  · intro id hid
    rw [hrun] at hid
    exact Nat.lt_of_lt_of_le (h.bound_run id hid) hnext

/-! ### Reading the updated state -/

@[simp]
theorem State.write_jobs_self {id : JobId} {v : Row I} :
    (s.write id v).jobs id = (s.jobs id).map fun _ => v := by
  simp [State.write]

theorem State.write_jobs_of_ne {id id' : JobId} {v : Row I} (h : id' ≠ id) :
    (s.write id v).jobs id' = s.jobs id' := by
  simp [State.write, h]

@[simp]
theorem State.insert_jobs_self {row : Row I} : (s.insert row).jobs s.nextId = some row := by
  simp [State.insert]

theorem State.insert_jobs_of_ne {id : JobId} {row : Row I} (h : id ≠ s.nextId) :
    (s.insert row).jobs id = s.jobs id := by
  simp [State.insert, h]

theorem State.mem_openClaims {i : I} {id : JobId} :
    id ∈ s.openClaims i ↔ (⟨i, id, .claimed⟩ : JobObject I) ∈ s.objects := by
  simp only [State.openClaims, List.mem_map, List.mem_filter, decide_eq_true_eq]
  constructor
  · rintro ⟨⟨owner, jobId, phase⟩, ⟨ho, rfl, rfl⟩, rfl⟩
    exact ho
  · intro ho
    exact ⟨_, ⟨ho, rfl, rfl⟩, rfl⟩

theorem State.insert_jobs_cases {id : JobId} {row row' : Row I}
    (h : (s.insert row).jobs id = some row') :
    (id = s.nextId ∧ row' = row) ∨ (id ≠ s.nextId ∧ s.jobs id = some row') := by
  by_cases hid : id = s.nextId
  · subst hid
    rw [State.insert_jobs_self] at h
    exact Or.inl ⟨rfl, (Option.some.inj h).symm⟩
  · rw [State.insert_jobs_of_ne hid] at h
    exact Or.inr ⟨hid, h⟩

theorem State.write_jobs_cases {id id' : JobId} {v row' : Row I}
    (h : (s.write id v).jobs id' = some row') :
    (id' = id ∧ row' = v ∧ ∃ row, s.jobs id = some row) ∨ (id' ≠ id ∧ s.jobs id' = some row') := by
  by_cases hid : id' = id
  · subst hid
    rw [State.write_jobs_self] at h
    obtain ⟨row, hrow, rfl⟩ := Option.map_eq_some_iff.mp h
    exact Or.inl ⟨rfl, rfl, row, hrow⟩
  · rw [State.write_jobs_of_ne hid] at h
    exact Or.inr ⟨hid, h⟩

theorem Claims.bound_insert (h : Claims s) {row : Row I} :
    ∀ id, (s.insert row).nextId ≤ id → (s.insert row).jobs id = none := by
  intro id hid
  have hlt : s.nextId < id := hid
  rw [State.insert_jobs_of_ne (Nat.ne_of_gt hlt)]
  exact h.bound id (Nat.le_of_lt hlt)

theorem Claims.bound_write (h : Claims s) {id : JobId} {v : Row I} :
    ∀ id', s.nextId ≤ id' → (s.write id v).jobs id' = none := by
  intro id' hid'
  by_cases hid : id' = id
  · subst hid
    rw [State.write_jobs_self, h.bound _ hid']
    rfl
  · rw [State.write_jobs_of_ne hid]
    exact h.bound id' hid'

theorem Claims.ne_nextId (h : Claims s) {o : JobObject I} (ho : o ∈ s.objects) :
    o.jobId ≠ s.nextId :=
  Nat.ne_of_lt (h.bound_objects o ho)

/-! ### The operations keep the invariant -/

theorem Claims.congr (h : Claims s) (hjobs : s'.jobs = s.jobs) (hnext : s'.nextId = s.nextId)
    (hobjects : s'.objects = s.objects) (hlog : s'.log = s.log) : Claims s' := by
  refine h.of_le ?_ ?_ (hobjects ▸ h.nodup) hlog (Nat.le_of_eq hnext.symm) ?_ ?_
  · intro o' ho'
    exact ⟨o', hobjects ▸ ho', rfl, rfl, id⟩
  · intro id row' hrow'
    exact Or.inr (Or.inl ⟨row', hjobs ▸ hrow', rfl⟩)
  · rw [hnext, hjobs]
    exact h.bound
  · rw [hjobs, hobjects]
    exact fun o' ho' row' hrow' => (h.owned o' ho' row' hrow').2

theorem Claims.insert (h : Claims s) (row : Row I) : Claims (s.insert row) := by
  refine h.of_le ?_ ?_ h.nodup rfl (Nat.le_succ _) h.bound_insert ?_
  · intro o' ho'
    exact ⟨o', ho', rfl, rfl, id⟩
  · intro id row' hrow'
    rcases State.insert_jobs_cases hrow' with ⟨rfl, -⟩ | ⟨-, hrow⟩
    · exact Or.inl (Nat.le_refl _)
    · exact Or.inr (Or.inl ⟨row', hrow, rfl⟩)
  · intro o' ho' row' hrow'
    rw [State.insert_jobs_of_ne (h.ne_nextId ho')] at hrow'
    exact (h.owned o' ho' row' hrow').2

theorem Claims.replace (h : Claims s) {o : JobObject I} {p : Phase I} (ho : o ∈ s.objects)
    (hrun : ¬ p.HasRun → ¬ o.phase.HasRun)
    (hmatch : ∀ row, s.jobs o.jobId = some row → p.Matches row) : Claims (s.replace o p) := by
  refine h.of_le ?_ ?_ (h.nodup_replace ho) rfl (Nat.le_refl _) h.bound ?_
  · intro o' ho'
    rcases List.mem_cons.mp ho' with rfl | hmem
    · exact ⟨o, ho, rfl, rfl, hrun⟩
    · exact ⟨o', List.mem_of_mem_erase hmem, rfl, rfl, id⟩
  · intro id row' hrow'
    exact Or.inr (Or.inl ⟨row', hrow', rfl⟩)
  · intro o' ho' row' hrow'
    rcases List.mem_cons.mp ho' with rfl | hmem
    · exact hmatch row' hrow'
    · exact (h.owned o' (List.mem_of_mem_erase hmem) row' hrow').2

theorem Claims.discard (h : Claims s) (o : JobObject I) : Claims (s.discard o) := by
  refine h.of_le ?_ ?_ h.nodup_discard rfl (Nat.le_refl _) h.bound ?_
  · intro o' ho'
    exact ⟨o', List.mem_of_mem_erase ho', rfl, rfl, id⟩
  · intro id row' hrow'
    exact Or.inr (Or.inl ⟨row', hrow', rfl⟩)
  · intro o' ho' row' hrow'
    exact (h.owned o' (List.mem_of_mem_erase ho') row' hrow').2

theorem Claims.write_replace (h : Claims s) {o : JobObject I} {v : Row I} {p : Phase I}
    (ho : o ∈ s.objects) (hrun : ¬ p.HasRun → ¬ o.phase.HasRun)
    (hkeep : ∀ row, s.jobs o.jobId = some row → v.runByInstanceId = row.runByInstanceId)
    (hmatch : p.Matches v) : Claims ((s.write o.jobId v).replace o p) := by
  refine h.of_le ?_ ?_ (h.nodup_replace ho) rfl (Nat.le_refl _) h.bound_write ?_
  · intro o' ho'
    rcases List.mem_cons.mp ho' with rfl | hmem
    · exact ⟨o, ho, rfl, rfl, hrun⟩
    · exact ⟨o', List.mem_of_mem_erase hmem, rfl, rfl, id⟩
  · intro id row' hrow'
    rcases State.write_jobs_cases hrow' with ⟨rfl, rfl, row, hrow⟩ | ⟨-, hrow⟩
    · exact Or.inr (Or.inl ⟨row, hrow, hkeep row hrow⟩)
    · exact Or.inr (Or.inl ⟨row', hrow, rfl⟩)
  · intro o' ho' row' hrow'
    rcases List.mem_cons.mp ho' with rfl | hmem
    · rcases State.write_jobs_cases hrow' with ⟨-, rfl, -⟩ | ⟨hne, -⟩
      · exact hmatch
      · exact absurd rfl hne
    · obtain ⟨hold, hne⟩ := h.ne_of_mem_erase ho hmem
      rcases State.write_jobs_cases hrow' with ⟨heq, -⟩ | ⟨-, hrow⟩
      · exact absurd heq hne
      · exact (h.owned o' hold row' hrow).2

theorem Claims.write_discard (h : Claims s) {o : JobObject I} {v : Row I} (ho : o ∈ s.objects)
    (hkeep : (∀ row, s.jobs o.jobId = some row → v.runByInstanceId = row.runByInstanceId) ∨
      ¬ o.phase.HasRun) : Claims ((s.write o.jobId v).discard o) := by
  refine h.of_le ?_ ?_ h.nodup_discard rfl (Nat.le_refl _) h.bound_write ?_
  · intro o' ho'
    exact ⟨o', List.mem_of_mem_erase ho', rfl, rfl, id⟩
  · intro id row' hrow'
    rcases State.write_jobs_cases hrow' with ⟨rfl, rfl, row, hrow⟩ | ⟨-, hrow⟩
    · rcases hkeep with hkeep | hnot
      · exact Or.inr (Or.inl ⟨row, hrow, hkeep row hrow⟩)
      · refine Or.inr (Or.inr ⟨fun o' ho' => ?_, h.notRun o ho hnot⟩)
        exact (h.ne_of_mem_erase ho ho').2
    · exact Or.inr (Or.inl ⟨row', hrow, rfl⟩)
  · intro o' ho' row' hrow'
    obtain ⟨hold, hne⟩ := h.ne_of_mem_erase ho ho'
    rcases State.write_jobs_cases hrow' with ⟨heq, -⟩ | ⟨-, hrow⟩
    · exact absurd heq hne
    · exact (h.owned o' hold row' hrow).2

/-- **The conditional update**: a row that it takes was claimed by nobody, so it has no job
object and has not run. -/
theorem Claims.claim (h : Claims s) (i : I) (id : JobId) : Claims (s.claim i id) := by
  unfold State.claim
  split
  · next row hrow =>
    split_ifs with hfree
    -- the row is free, while the row of an object has the instance of its owner
    · have hnoObject : ∀ o ∈ s.objects, o.jobId ≠ id := by
        rintro o ho rfl
        have howned := (h.owned o ho row hrow).1
        rw [hfree] at howned
        cases howned
      have hnotRun : id ∉ s.runIds := fun hid => h.kept id hid row hrow hfree
      have hlt : id < s.nextId := by
        by_contra hge
        rw [h.bound id (Nat.not_lt.mp hge)] at hrow
        cases hrow
      refine ⟨?_, ?_, ?_, ?_, h.runOnce, h.bound_write, ?_, h.bound_run⟩
      · refine List.nodup_cons.mpr ⟨fun hmem => ?_, h.nodup⟩
        obtain ⟨o, ho, hid⟩ := List.mem_map.mp hmem
        exact hnoObject o ho hid
      · intro o ho row' hrow'
        rcases List.mem_cons.mp ho with rfl | ho
        · rcases State.write_jobs_cases hrow' with ⟨-, rfl, -⟩ | ⟨hne, -⟩
          · exact ⟨rfl, trivial⟩
          · exact absurd rfl hne
        · rcases State.write_jobs_cases hrow' with ⟨heq, -⟩ | ⟨-, hrow''⟩
          · exact absurd heq (hnoObject o ho)
          · exact h.owned o ho row' hrow''
      · intro o ho hnot
        rcases List.mem_cons.mp ho with rfl | ho
        · exact hnotRun
        · exact h.notRun o ho hnot
      · intro id' hid' row' hrow'
        rcases State.write_jobs_cases hrow' with ⟨rfl, rfl, -⟩ | ⟨-, hrow''⟩
        · exact fun hnone => by cases hnone
        · exact h.kept id' hid' row' hrow''
      · intro o ho
        rcases List.mem_cons.mp ho with rfl | ho
        · exact hlt
        · exact h.bound_objects o ho
    · exact h
  · exact h

/-- **The run of a service**: a job object that has not run yet puts its row into the log for
the first time. -/
theorem Claims.run (h : Claims s) {o : JobObject I} {v : Row I} {recurred : Bool}
    (ho : o ∈ s.objects) (hp : o.phase = .ready v recurred) :
    Claims { s.replace o (.ran v recurred) with log := (o.owner, o.jobId) :: s.log } := by
  have hphase : ¬ o.phase.HasRun := by
    rw [hp]
    exact id
  have hfresh : o.jobId ∉ s.runIds := h.notRun o ho hphase
  have hreplaced : Claims (s.replace o (.ran v recurred)) := by
    refine h.replace ho (fun hnot => absurd trivial hnot) fun row hrow => ?_
    have hmatch := (h.owned o ho row hrow).2
    rw [hp] at hmatch
    exact hmatch
  refine ⟨hreplaced.nodup, hreplaced.owned, ?_, ?_, ?_, hreplaced.bound,
    hreplaced.bound_objects, ?_⟩
  · intro o' ho' hnot
    rcases List.mem_cons.mp ho' with rfl | hmem
    · exact absurd trivial hnot
    · obtain ⟨hold, hne⟩ := h.ne_of_mem_erase ho hmem
      intro hin
      rcases List.mem_cons.mp hin with heq | hin
      · exact hne heq
      · exact h.notRun o' hold hnot hin
  · intro id hid row hrow
    rcases List.mem_cons.mp hid with rfl | hid
    · have howned : row.runByInstanceId = some o.owner := (h.owned o ho row hrow).1
      rw [howned]
      exact Option.some_ne_none _
    · exact h.kept id hid row hrow
  · exact List.nodup_cons.mpr ⟨hfresh, h.runOnce⟩
  · intro id hid
    rcases List.mem_cons.mp hid with rfl | hid
    · exact h.bound_objects o ho
    · exact h.bound_run id hid

theorem State.rollback_jobs_cases {i : I} {id : JobId} {row' : Row I}
    (h : (s.rollback i).jobs id = some row') :
    (id ∈ s.openClaims i ∧ ∃ row, s.jobs id = some row ∧
      row' = { row with runByInstanceId := none }) ∨
    (id ∉ s.openClaims i ∧ s.jobs id = some row') := by
  unfold State.rollback at h
  simp only at h
  split_ifs at h with hid
  · obtain ⟨row, hrow, rfl⟩ := Option.map_eq_some_iff.mp h
    exact Or.inl ⟨hid, row, hrow, rfl⟩
  · exact Or.inr ⟨hid, h⟩

theorem Claims.rollback (h : Claims s) (i : I) : Claims (s.rollback i) := by
  have hmem : ∀ o ∈ (s.rollback i).objects, o ∈ s.objects ∧ ¬ (o.owner = i ∧ o.phase = .claimed) :=
    fun o ho => ⟨(List.mem_filter.mp ho).1, of_decide_eq_true (List.mem_filter.mp ho).2⟩
  refine h.of_le ?_ ?_ (h.nodup.sublist (List.filter_sublist.map _)) rfl (Nat.le_refl _) ?_ ?_
  · intro o' ho'
    exact ⟨o', (hmem o' ho').1, rfl, rfl, id⟩
  · intro id row' hrow'
    rcases State.rollback_jobs_cases hrow' with ⟨hid, row, hrow, rfl⟩ | ⟨-, hrow⟩
    · rw [State.mem_openClaims] at hid
      refine Or.inr (Or.inr ⟨fun o' ho' heq => ?_, h.notRun _ hid (fun hrun => hrun)⟩)
      obtain ⟨hold, hnot⟩ := hmem o' ho'
      rw [h.eq_of_jobId_eq hold hid heq] at hnot
      exact hnot ⟨rfl, rfl⟩
    · exact Or.inr (Or.inl ⟨row', hrow, rfl⟩)
  · intro id hid
    have hnone : s.jobs id = none := h.bound id hid
    simp [State.rollback, hnone]
  · intro o' ho' row' hrow'
    obtain ⟨hold, hnot⟩ := hmem o' ho'
    rcases State.rollback_jobs_cases hrow' with ⟨hid, -⟩ | ⟨-, hrow⟩
    · rw [State.mem_openClaims] at hid
      rw [h.eq_of_jobId_eq hold hid rfl] at hnot
      exact absurd ⟨rfl, rfl⟩ hnot
    · exact (h.owned o' hold row' hrow).2

theorem Claims.commit (h : Claims s) (i : I) : Claims (s.commit i) := by
  have hfrom : ∀ o' ∈ (s.commit i).objects, ∃ o ∈ s.objects, o'.jobId = o.jobId ∧
      o'.owner = o.owner ∧ (o' = o ∨ o.phase = .claimed ∧ o'.phase = .created) := by
    intro o' ho'
    obtain ⟨o, ho, rfl⟩ := List.mem_map.mp ho'
    refine ⟨o, ho, ?_⟩
    split_ifs with hclaimed
    · exact ⟨rfl, rfl, Or.inr ⟨hclaimed.2, rfl⟩⟩
    · exact ⟨rfl, rfl, Or.inl rfl⟩
  have hids : (s.commit i).objects.map JobObject.jobId = s.objects.map JobObject.jobId := by
    simp only [State.commit, List.map_map]
    refine List.map_congr_left fun o _ => ?_
    simp only [Function.comp]
    split_ifs <;> rfl
  refine h.of_le ?_ ?_ (hids ▸ h.nodup) rfl (Nat.le_refl _) h.bound ?_
  · intro o' ho'
    obtain ⟨o, ho, hid, howner, rfl | ⟨hclaimed, -⟩⟩ := hfrom o' ho'
    · exact ⟨o', ho, rfl, rfl, id⟩
    · refine ⟨o, ho, hid, howner, fun _ => ?_⟩
      rw [hclaimed]
      exact id
  · intro id row' hrow'
    exact Or.inr (Or.inl ⟨row', hrow', rfl⟩)
  · intro o' ho' row' hrow'
    obtain ⟨o, ho, hid, -, rfl | ⟨-, hcreated⟩⟩ := hfrom o' ho'
    · exact (h.owned o' ho row' hrow').2
    · rw [hcreated]
      trivial

theorem Claims.crash (h : Claims s) (i : I) : Claims (s.crash i) := by
  have hback : Claims (s.rollback i) := h.rollback i
  have hmem : ∀ o ∈ (s.crash i).objects, o ∈ (s.rollback i).objects := fun o ho =>
    (List.mem_filter.mp ho).1
  refine hback.of_le ?_ ?_ (hback.nodup.sublist (List.filter_sublist.map _)) rfl (Nat.le_refl _)
    hback.bound ?_
  · intro o' ho'
    exact ⟨o', hmem o' ho', rfl, rfl, id⟩
  · intro id row' hrow'
    exact Or.inr (Or.inl ⟨row', hrow', rfl⟩)
  · intro o' ho' row' hrow'
    exact (hback.owned o' (hmem o' ho') row' hrow').2

/-! ### Instances that are not polling -/

def Node.IsUp : Node I → Prop
  | .up _ => True
  | _ => False

/-- **What an instance that reloads its crashed jobs relies on**: job objects belong to
instances that are up, and the rows that a reload has still to do are current, and are all
the live rows that its instance has claimed. -/
structure Reloads (s : State I) : Prop where
  up : ∀ o ∈ s.objects, (s.node o.owner).IsUp
  nodup : ∀ i L copied, s.node i = .reloading L copied → (L.map Prod.fst).Nodup
  current : ∀ i L copied, s.node i = .reloading L copied → ∀ p ∈ L,
    s.jobs p.1 = some p.2 ∧ p.2.runByInstanceId = some i ∧ p.2.IsLive
  complete : ∀ i L copied, s.node i = .reloading L copied → ∀ id row, s.jobs id = some row →
    row.runByInstanceId = some i → row.IsLive → (id, row) ∈ L

def Untouched (s s' : State I) : Prop :=
  ∀ i, ¬ (s.node i).IsUp → ∀ id row, row.runByInstanceId = some i →
    (s'.jobs id = some row ↔ s.jobs id = some row)

def NodesFrom (s s' : State I) : Prop :=
  ∀ i, s'.node i = s.node i ∨ (s.node i).IsUp ∧ (s'.node i).IsUp

theorem Reloads.of_untouched (h : Reloads s) (hrows : Untouched s s') (hnodes : NodesFrom s s')
    (hup : ∀ o' ∈ s'.objects, (s.node o'.owner).IsUp) : Reloads s' := by
  have hsame : ∀ i L copied, s'.node i = .reloading L copied →
      s.node i = .reloading L copied ∧ ¬ (s.node i).IsUp := by
    intro i L copied hnode
    rcases hnodes i with heq | ⟨-, hup'⟩
    · rw [heq] at hnode
      exact ⟨hnode, by rw [hnode]; exact fun h => h⟩
    · rw [hnode] at hup'
      exact absurd hup' (fun h => h)
  refine ⟨?_, ?_, ?_, ?_⟩
  · intro o' ho'
    rcases hnodes o'.owner with heq | ⟨-, hup'⟩
    · rw [heq]
      exact hup o' ho'
    · exact hup'
  · intro i L copied hnode
    exact h.nodup i L copied (hsame i L copied hnode).1
  · intro i L copied hnode p hp
    obtain ⟨hold, hdown⟩ := hsame i L copied hnode
    obtain ⟨hjob, hrun, hlive⟩ := h.current i L copied hold p hp
    exact ⟨(hrows i hdown p.1 p.2 hrun).mpr hjob, hrun, hlive⟩
  · intro i L copied hnode id row hrow hrun hlive
    obtain ⟨hold, hdown⟩ := hsame i L copied hnode
    exact h.complete i L copied hold id row ((hrows i hdown id row hrun).mp hrow) hrun hlive

theorem Untouched.of_jobs_eq (h : s'.jobs = s.jobs) : Untouched s s' := by
  intro i _ id row _
  rw [h]

theorem Claims.untouched_insert (h : Claims s) {row : Row I}
    (hrow : row.runByInstanceId = none) : Untouched s (s.insert row) := by
  intro i _ id row' hrun
  by_cases hid : id = s.nextId
  · subst hid
    rw [State.insert_jobs_self, h.bound _ (Nat.le_refl _)]
    constructor
    · intro heq
      rw [← Option.some.inj heq, hrow] at hrun
      cases hrun
    · rintro ⟨⟩
  · rw [State.insert_jobs_of_ne hid]

theorem untouched_write {id : JobId} {v : Row I} {j : I} (hup : (s.node j).IsUp)
    (hold : ∀ row, s.jobs id = some row → row.runByInstanceId = some j)
    (hnew : ∀ row, s.jobs id = some row →
      v.runByInstanceId = some j ∨ v.runByInstanceId = none) :
    Untouched s (s.write id v) := by
  intro i hdown id' row hrun
  have hne : i ≠ j := by
    rintro rfl
    exact hdown hup
  by_cases hid : id' = id
  · subst hid
    rw [State.write_jobs_self]
    constructor
    · intro heq
      obtain ⟨old, hrow, rfl⟩ := Option.map_eq_some_iff.mp heq
      rcases hrun ▸ hnew old hrow with h | h
      · exact absurd (Option.some.inj h) hne
      · cases h
    · intro heq
      have hj := hold row heq
      rw [hrun] at hj
      exact absurd (Option.some.inj hj) hne
  · rw [State.write_jobs_of_ne hid]

theorem NodesFrom.of_eq (h : s'.node = s.node) : NodesFrom s s' :=
  fun i => Or.inl (by rw [h])

theorem NodesFrom.setNode {t : State I} {i : I} {ids : List JobId} (hnode : t.node = s.node)
    (hup : (s.node i).IsUp) : NodesFrom s (t.setNode i (.up ids)) := by
  intro j
  by_cases hj : j = i
  · subst hj
    exact Or.inr ⟨hup, by simp [State.setNode, Node.IsUp]⟩
  · exact Or.inl (by simp [State.setNode, hj, hnode])

theorem isUp_of_eq {i : I} {ids : List JobId} (h : s.node i = .up ids) : (s.node i).IsUp := by
  rw [h]
  trivial

/-! ### The invariant of the system -/

/-- The invariant of the whole system. -/
structure JobInv (s : State I) : Prop where
  claims : Claims s
  reloads : Reloads s

theorem Claims.write_current (h : Claims s) {id : JobId} {v row : Row I}
    (hrow : s.jobs id = some row) (hkeep : v.runByInstanceId = row.runByInstanceId)
    (hobject : ∀ o ∈ s.objects, o.jobId ≠ id) : Claims (s.write id v) := by
  refine h.of_le ?_ ?_ h.nodup rfl (Nat.le_refl _) h.bound_write ?_
  · intro o' ho'
    exact ⟨o', ho', rfl, rfl, fun hnot => hnot⟩
  · intro id' row' hrow'
    rcases State.write_jobs_cases hrow' with ⟨rfl, rfl, -⟩ | ⟨-, hrow''⟩
    · exact Or.inr (Or.inl ⟨row, hrow, hkeep⟩)
    · exact Or.inr (Or.inl ⟨row', hrow'', rfl⟩)
  · intro o' ho' row' hrow'
    rcases State.write_jobs_cases hrow' with ⟨heq, -⟩ | ⟨-, hrow''⟩
    · exact absurd heq (hobject o' ho')
    · exact (h.owned o' ho' row' hrow'').2

theorem JobInv.ne_of_reloading (h : JobInv s) {i : I} {L : List (JobId × Row I)} {copied : Bool}
    (hnode : s.node i = .reloading L copied) {p : JobId × Row I} (hp : p ∈ L) :
    ∀ o ∈ s.objects, o.jobId ≠ p.1 := by
  intro o ho heq
  obtain ⟨hjob, hrun, -⟩ := h.reloads.current i L copied hnode p hp
  have howned := (h.claims.owned o ho p.2 (heq ▸ hjob)).1
  rw [hrun] at howned
  have hup := h.reloads.up o ho
  rw [← Option.some.inj howned, hnode] at hup
  exact hup

theorem matches_of_refreshed {i : I} {row : Row I} {p q : Phase I}
    (h : refreshed i row p = some q) : q.Matches row ∧ ¬ q.HasRun ∧ ¬ p.HasRun := by
  unfold refreshed at h
  split at h
  · split_ifs at h
    obtain rfl := Option.some.inj h
    exact ⟨rfl, fun h => h, fun h => h⟩
  · obtain rfl := Option.some.inj h
    exact ⟨rfl, fun h => h, fun h => h⟩
  · split_ifs at h
    obtain rfl := Option.some.inj h
    exact ⟨rfl, fun h => h, fun h => h⟩
  · cases h

theorem keeps_of_stores_some {p q : Phase I} {v : Row I} (h : p.stores = some (v, some q)) :
    (∀ row, p.Matches row → v.runByInstanceId = row.runByInstanceId) ∧ q.Matches v ∧
      ¬ p.HasRun := by
  cases p with
  | queueing w =>
    obtain ⟨rfl, hq⟩ := Prod.mk.inj (Option.some.inj h)
    obtain rfl := Option.some.inj hq
    exact ⟨fun row hmatch => by rw [hmatch], trivial, fun h => h⟩
  | initialising w =>
    obtain ⟨rfl, hq⟩ := Prod.mk.inj (Option.some.inj h)
    obtain rfl := Option.some.inj hq
    exact ⟨fun row hmatch => by rw [hmatch], rfl, fun h => h⟩
  | dequeueing w => cases h
  | finishing w => cases h
  | _ => cases h

theorem keeps_of_stores_none {p : Phase I} {v : Row I} (h : p.stores = some (v, none)) :
    (∀ row, p.Matches row → v.runByInstanceId = row.runByInstanceId) ∨
      ¬ p.HasRun ∧ ∀ row, p.Matches row → v.runByInstanceId = none := by
  cases p with
  | dequeueing w =>
    obtain ⟨rfl, -⟩ := Prod.mk.inj (Option.some.inj h)
    exact Or.inr ⟨fun h => h, fun row hmatch => by rw [hmatch]⟩
  | finishing w =>
    obtain ⟨rfl, -⟩ := Prod.mk.inj (Option.some.inj h)
    refine Or.inl fun row hmatch => ?_
    rcases hmatch with rfl | rfl <;> rfl
  | queueing w => cases h
  | initialising w => cases h
  | _ => cases h

theorem matches_of_moves {p q : Phase I} (h : p.Moves q) :
    (∀ row, p.Matches row → q.Matches row) ∧ (¬ q.HasRun → ¬ p.HasRun) := by
  cases h with
  | finish v recurred =>
    refine ⟨fun row hmatch => Or.inl ?_, fun hnot => absurd trivial hnot⟩
    obtain rfl : v = row := hmatch
    rfl
  | _ => exact ⟨fun _ _ => trivial, fun _ h => h⟩

section Steps

variable (h : JobInv s)

include h

theorem JobInv.objects_up {o : JobObject I} (ho : o ∈ s.objects) {p : Phase I} :
    ∀ o' ∈ (s.replace o p).objects, (s.node o'.owner).IsUp := by
  intro o' ho'
  rcases List.mem_cons.mp ho' with rfl | hmem
  · exact h.reloads.up o ho
  · exact h.reloads.up o' (List.mem_of_mem_erase hmem)

theorem JobInv.objects_up_erase {o : JobObject I} :
    ∀ o' ∈ (s.discard o).objects, (s.node o'.owner).IsUp :=
  fun o' ho' => h.reloads.up o' (List.mem_of_mem_erase ho')

theorem JobInv.replace {o : JobObject I} {p : Phase I} (ho : o ∈ s.objects)
    (hrun : ¬ p.HasRun → ¬ o.phase.HasRun)
    (hmatch : ∀ row, s.jobs o.jobId = some row → p.Matches row) : JobInv (s.replace o p) :=
  ⟨h.claims.replace ho hrun hmatch,
    h.reloads.of_untouched (Untouched.of_jobs_eq rfl) (NodesFrom.of_eq rfl) (h.objects_up ho)⟩

theorem JobInv.congr (hjobs : s'.jobs = s.jobs) (hnext : s'.nextId = s.nextId)
    (hobjects : s'.objects = s.objects) (hlog : s'.log = s.log) (hnode : s'.node = s.node) :
    JobInv s' :=
  ⟨h.claims.congr hjobs hnext hobjects hlog,
    h.reloads.of_untouched (Untouched.of_jobs_eq hjobs) (NodesFrom.of_eq hnode)
      fun o ho => h.reloads.up o (hobjects ▸ ho)⟩

theorem JobInv.ready {o : JobObject I} {v : Row I} (ho : o ∈ s.objects)
    (hp : o.phase = .running v) (recurred : Bool) : JobInv (s.replace o (.ready v recurred)) := by
  refine h.replace ho (fun _ => by rw [hp]; exact id) fun row hrow => ?_
  have hmatch := (h.claims.owned o ho row hrow).2
  rw [hp] at hmatch
  exact hmatch

theorem JobInv.discard (o : JobObject I) : JobInv (s.discard o) :=
  ⟨h.claims.discard o,
    h.reloads.of_untouched (Untouched.of_jobs_eq rfl) (NodesFrom.of_eq rfl) h.objects_up_erase⟩

theorem JobInv.insert {row : Row I} (hrow : row.runByInstanceId = none) :
    JobInv (s.insert row) :=
  ⟨h.claims.insert row,
    h.reloads.of_untouched (h.claims.untouched_insert hrow) (NodesFrom.of_eq rfl) h.reloads.up⟩

theorem JobInv.owner {o : JobObject I} (ho : o ∈ s.objects) :
    (s.node o.owner).IsUp ∧ ∀ row, s.jobs o.jobId = some row →
      row.runByInstanceId = some o.owner ∧ o.phase.Matches row :=
  ⟨h.reloads.up o ho, h.claims.owned o ho⟩

theorem JobInv.store {o : JobObject I} {v : Row I} {p : Phase I} (ho : o ∈ s.objects)
    (hp : o.phase.stores = some (v, some p)) : JobInv ((s.write o.jobId v).replace o p) := by
  obtain ⟨hkeep, hmatch, hnot⟩ := keeps_of_stores_some hp
  obtain ⟨hup, howned⟩ := h.owner ho
  have hkeep' : ∀ row, s.jobs o.jobId = some row → v.runByInstanceId = row.runByInstanceId :=
    fun row hrow => hkeep row (howned row hrow).2
  refine ⟨h.claims.write_replace ho (fun _ => hnot) hkeep' hmatch, ?_⟩
  refine h.reloads.of_untouched ?_ (NodesFrom.of_eq rfl) (h.objects_up ho)
  exact untouched_write hup (fun row hrow => (howned row hrow).1)
    fun row hrow => Or.inl (by rw [hkeep' row hrow, (howned row hrow).1])

theorem JobInv.storeLast {o : JobObject I} {v : Row I} (ho : o ∈ s.objects)
    (hp : o.phase.stores = some (v, none)) : JobInv ((s.write o.jobId v).discard o) := by
  obtain ⟨hup, howned⟩ := h.owner ho
  have hkeep := keeps_of_stores_none hp
  refine ⟨h.claims.write_discard ho ?_, ?_⟩
  · rcases hkeep with hkeep | ⟨hnot, -⟩
    · exact Or.inl fun row hrow => hkeep row (howned row hrow).2
    · exact Or.inr hnot
  · refine h.reloads.of_untouched ?_ (NodesFrom.of_eq rfl) h.objects_up_erase
    refine untouched_write hup (fun row hrow => (howned row hrow).1) fun row hrow => ?_
    rcases hkeep with hkeep | ⟨-, hnone⟩
    · exact Or.inl (by rw [hkeep row (howned row hrow).2, (howned row hrow).1])
    · exact Or.inr (hnone row (howned row hrow).2)

theorem JobInv.claim {i : I} {id : JobId} {ids : List JobId} (hnode : s.node i = .up (id :: ids)) :
    JobInv ((s.claim i id).setNode i (.up ids)) := by
  have hclaim : (s.claim i id).node = s.node := by
    unfold State.claim
    split
    · split_ifs <;> rfl
    · rfl
  have hup : (s.node i).IsUp := isUp_of_eq hnode
  refine ⟨(h.claims.claim i id).congr rfl rfl rfl rfl, ?_⟩
  refine h.reloads.of_untouched ?_ (NodesFrom.setNode hclaim hup) ?_
  · unfold State.claim State.setNode
    split
    · next row hrow =>
      split_ifs with hfree
      · intro j hdown id' row' hrun
        show (s.write id _).jobs id' = some row' ↔ _
        by_cases hid : id' = id
        · subst hid
          rw [State.write_jobs_self, hrow]
          constructor
          · intro heq
            obtain rfl := Option.some.inj heq
            rw [Option.some.inj hrun] at hup
            exact absurd hup hdown
          · intro heq
            rw [← Option.some.inj heq, hfree] at hrun
            cases hrun
        · rw [State.write_jobs_of_ne hid]
      · exact Untouched.of_jobs_eq rfl
    · exact Untouched.of_jobs_eq rfl
  · have hmem : ∀ o ∈ (s.claim i id).objects, o.owner = i ∨ o ∈ s.objects := by
      intro o ho
      unfold State.claim at ho
      split at ho
      · split_ifs at ho
        · rcases List.mem_cons.mp ho with rfl | ho
          · exact Or.inl rfl
          · exact Or.inr ho
        · exact Or.inr ho
      · exact Or.inr ho
    intro o ho
    rcases hmem o ho with rfl | ho
    · exact hup
    · exact h.reloads.up o ho

theorem JobInv.rollback {i : I} (hup : (s.node i).IsUp) : JobInv (s.rollback i) := by
  refine ⟨h.claims.rollback i, h.reloads.of_untouched ?_ (NodesFrom.of_eq rfl) ?_⟩
  · intro j hdown id row hrun
    by_cases hid : id ∈ s.openClaims i
    · have hclaimed := State.mem_openClaims.mp hid
      constructor
      · intro heq
        rcases State.rollback_jobs_cases heq with ⟨-, old, -, rfl⟩ | ⟨hnot, -⟩
        · cases hrun
        · exact absurd hid hnot
      · intro heq
        have howned := (h.claims.owned _ hclaimed row heq).1
        rw [hrun] at howned
        obtain rfl : j = i := Option.some.inj howned
        exact absurd hup hdown
    · simp [State.rollback, hid]
  · intro o ho
    exact h.reloads.up o (List.mem_filter.mp ho).1

theorem JobInv.setNode_up {i : I} {ids : List JobId} (hup : (s.node i).IsUp) :
    JobInv (s.setNode i (.up ids)) :=
  ⟨h.claims.congr rfl rfl rfl rfl,
    h.reloads.of_untouched (Untouched.of_jobs_eq rfl) (NodesFrom.setNode rfl hup) h.reloads.up⟩

theorem JobInv.commit (i : I) : JobInv (s.commit i) := by
  refine ⟨h.claims.commit i, h.reloads.of_untouched (Untouched.of_jobs_eq rfl)
    (NodesFrom.of_eq rfl) ?_⟩
  intro o ho
  obtain ⟨o', ho', rfl⟩ := List.mem_map.mp ho
  have hup := h.reloads.up o' ho'
  split_ifs <;> exact hup

theorem JobInv.purge {i : I} {ids : List JobId} {id : JobId} {row : Row I}
    (hnode : s.node i = .up ids) (hrow : s.jobs id = some row)
    (hrun : row.runByInstanceId = some i) :
    JobInv { s with jobs := Function.update s.jobs id none } := by
  have hcases : ∀ id' row', Function.update s.jobs id none id' = some row' →
      id' ≠ id ∧ s.jobs id' = some row' := by
    intro id' row' heq
    by_cases hid : id' = id
    · subst hid
      simp at heq
    · exact ⟨hid, by simpa [hid] using heq⟩
  refine ⟨h.claims.of_le ?_ ?_ h.claims.nodup rfl (Nat.le_refl _) ?_ ?_, ?_⟩
  · intro o' ho'
    exact ⟨o', ho', rfl, rfl, fun hnot => hnot⟩
  · intro id' row' hrow'
    exact Or.inr (Or.inl ⟨row', (hcases id' row' hrow').2, rfl⟩)
  · intro id' hid'
    by_cases hid : id' = id
    · simp [hid]
    · simpa [hid] using h.claims.bound id' hid'
  · intro o' ho' row' hrow'
    exact (h.claims.owned o' ho' row' (hcases _ row' hrow').2).2
  · refine h.reloads.of_untouched ?_ (NodesFrom.of_eq rfl) h.reloads.up
    intro j hdown id' row' hrun'
    by_cases hid : id' = id
    · subst hid
      constructor
      · intro heq
        exact absurd rfl (hcases _ row' heq).1
      · intro heq
        rw [hrow] at heq
        rw [← Option.some.inj heq, hrun] at hrun'
        rw [← Option.some.inj hrun', hnode] at hdown
        exact absurd trivial hdown
    · simp [hid]

theorem JobInv.mem_crashedJobs {i : I} {p : JobId × Row I} :
    p ∈ s.crashedJobs i ↔
      s.jobs p.1 = some p.2 ∧ p.2.runByInstanceId = some i ∧ p.2.IsLive := by
  obtain ⟨id, row⟩ := p
  simp only [State.crashedJobs, List.mem_filterMap, List.mem_range, Option.bind_eq_some_iff,
    Option.ite_none_right_eq_some, Option.some.injEq, Prod.mk.injEq]
  constructor
  · rintro ⟨id', -, row', hrow', ⟨hrun, hlive⟩, rfl, rfl⟩
    exact ⟨hrow', hrun, hlive⟩
  · rintro ⟨hrow, hrun, hlive⟩
    refine ⟨id, ?_, row, hrow, ⟨hrun, hlive⟩, rfl, rfl⟩
    by_contra hge
    rw [h.claims.bound id (Nat.not_lt.mp hge)] at hrow
    cases hrow

omit h in
theorem nodup_crashedJobs (i : I) : ((s.crashedJobs i).map Prod.fst).Nodup := by
  have hsub : ((s.crashedJobs i).map Prod.fst).Sublist (List.range s.nextId) := by
    unfold State.crashedJobs
    -- the crashed jobs are a part of the ids in their order, so none is there twice
    induction List.range s.nextId with
    | nil => exact List.Sublist.slnil
    | cons id ids ih =>
      cases hrow : (s.jobs id).bind fun row =>
          if row.runByInstanceId = some i ∧ row.IsLive then some (id, row) else none with
      | none =>
        simp only [List.filterMap_cons, hrow]
        exact ih.cons id
      | some p =>
        simp only [List.filterMap_cons, hrow, List.map_cons]
        obtain ⟨row, -, hp⟩ := Option.bind_eq_some_iff.mp hrow
        obtain ⟨-, hp⟩ := Option.ite_none_right_eq_some.mp hp
        rw [← Option.some.inj hp]
        exact ih.cons_cons id
  exact List.nodup_range.sublist hsub

theorem JobInv.setNode_down {i : I} {n : Node I} (hdown : ¬ (s.node i).IsUp)
    (hreload : ∀ L copied, n = .reloading L copied →
      (L.map Prod.fst).Nodup ∧
      (∀ p ∈ L, s.jobs p.1 = some p.2 ∧ p.2.runByInstanceId = some i ∧ p.2.IsLive) ∧
      ∀ id row, s.jobs id = some row → row.runByInstanceId = some i → row.IsLive →
        (id, row) ∈ L) : JobInv (s.setNode i n) := by
  have hself : (s.setNode i n).node i = n := by simp [State.setNode]
  have hother : ∀ j, j ≠ i → (s.setNode i n).node j = s.node j := fun j hj => by
    simp [State.setNode, hj]
  refine ⟨h.claims.congr rfl rfl rfl rfl, ?_, ?_, ?_, ?_⟩
  · intro o ho
    have hup := h.reloads.up o ho
    rw [hother o.owner]
    · exact hup
    · rintro rfl
      exact hdown hup
  · intro j L copied hnode
    by_cases hj : j = i
    · subst hj
      exact (hreload L copied (hself ▸ hnode)).1
    · exact h.reloads.nodup j L copied (hother j hj ▸ hnode)
  · intro j L copied hnode
    by_cases hj : j = i
    · subst hj
      exact (hreload L copied (hself ▸ hnode)).2.1
    · exact h.reloads.current j L copied (hother j hj ▸ hnode)
  · intro j L copied hnode
    by_cases hj : j = i
    · subst hj
      exact (hreload L copied (hself ▸ hnode)).2.2
    · exact h.reloads.complete j L copied (hother j hj ▸ hnode)

theorem JobInv.start {i : I} {L : List (JobId × Row I)} (hnode : s.node i = .down)
    (hquery : L.Perm (s.crashedJobs i)) : JobInv (s.setNode i (.reloading L false)) := by
  refine h.setNode_down (by rw [hnode]; exact fun h => h) ?_
  intro L' copied heq
  obtain ⟨rfl, -⟩ := Node.reloading.inj heq
  refine ⟨(hquery.map _).nodup_iff.mpr (nodup_crashedJobs i), fun p hp => ?_, ?_⟩
  · exact h.mem_crashedJobs.mp (hquery.mem_iff.mp hp)
  · intro id row hrow hrun hlive
    exact hquery.mem_iff.mpr (h.mem_crashedJobs.mpr ⟨hrow, hrun, hlive⟩)

omit h in
theorem not_isUp_of_reloading {i : I} {L : List (JobId × Row I)} {copied : Bool}
    (hnode : s.node i = .reloading L copied) : ¬ (s.node i).IsUp := by
  rw [hnode]
  exact fun h => h

theorem JobInv.reloadCopy {i : I} {id : JobId} {row : Row I} {rest : List (JobId × Row I)}
    (hnode : s.node i = .reloading ((id, row) :: rest) false) :
    JobInv ((s.insert (row.reloaded id)).setNode i (.reloading ((id, row) :: rest) true)) := by
  have hinsert : JobInv (s.insert (row.reloaded id)) := h.insert rfl
  have hnode' : (s.insert (row.reloaded id)).node i = .reloading ((id, row) :: rest) false := hnode
  refine hinsert.setNode_down (not_isUp_of_reloading hnode') ?_
  intro L copied heq
  obtain ⟨rfl, -⟩ := Node.reloading.inj heq
  exact ⟨hinsert.reloads.nodup i _ _ hnode', hinsert.reloads.current i _ _ hnode',
    hinsert.reloads.complete i _ _ hnode'⟩

theorem JobInv.reloadMark {i : I} {id : JobId} {row : Row I} {rest : List (JobId × Row I)}
    (hnode : s.node i = .reloading ((id, row) :: rest) true) :
    JobInv ((s.write id { row with statusId := .crashed, cancelDateTime := true }).setNode i
      (.reloading rest false)) := by
  obtain ⟨hrow, hrun, -⟩ := h.reloads.current i _ _ hnode _ List.mem_cons_self
  have hobject := h.ne_of_reloading hnode List.mem_cons_self
  set v : Row I := { row with statusId := .crashed, cancelDateTime := true } with hv
  have hclaims : Claims (s.write id v) := h.claims.write_current hrow rfl hobject
  have hnodup := h.reloads.nodup i _ _ hnode
  have hcurrent := h.reloads.current i _ _ hnode
  have hcomplete := h.reloads.complete i _ _ hnode
  rw [List.map_cons, List.nodup_cons] at hnodup
  have hself : ((s.write id v).setNode i (.reloading rest false)).node i
      = .reloading rest false := by simp [State.setNode]
  have hother : ∀ j, j ≠ i →
      ((s.write id v).setNode i (.reloading rest false)).node j = s.node j := fun j hj => by
    simp [State.setNode, State.write, hj]
  refine ⟨hclaims.congr rfl rfl rfl rfl, ?_, ?_, ?_, ?_⟩
  · intro o ho
    have hup := h.reloads.up o ho
    rw [hother o.owner]
    · exact hup
    · rintro rfl
      exact not_isUp_of_reloading hnode hup
  · intro j L copied hj
    by_cases hji : j = i
    · subst hji
      obtain ⟨rfl, -⟩ := Node.reloading.inj (hself.symm.trans hj)
      exact hnodup.2
    · exact h.reloads.nodup j L copied (hother j hji ▸ hj)
  · intro j L copied hj p hp
    show (s.write id v).jobs p.1 = some p.2 ∧ _
    by_cases hji : j = i
    · subst hji
      obtain ⟨rfl, -⟩ := Node.reloading.inj (hself.symm.trans hj)
      have hne : p.1 ≠ id := by
        rintro rfl
        exact hnodup.1 (List.mem_map.mpr ⟨p, hp, rfl⟩)
      rw [State.write_jobs_of_ne hne]
      exact hcurrent p (List.mem_cons_of_mem _ hp)
    · obtain ⟨hjob, hjrun, hlive⟩ := h.reloads.current j L copied (hother j hji ▸ hj) p hp
      have hne : p.1 ≠ id := by
        rintro rfl
        rw [hrow] at hjob
        rw [← Option.some.inj hjob, hrun] at hjrun
        exact hji (Option.some.inj hjrun).symm
      rw [State.write_jobs_of_ne hne]
      exact ⟨hjob, hjrun, hlive⟩
  · intro j L copied hj id' row' hrow' hrun' hlive'
    rcases State.write_jobs_cases hrow' with ⟨rfl, rfl, -⟩ | ⟨hne, hold⟩
    · exact absurd hlive' (by simp [hv, Row.IsLive])
    · by_cases hji : j = i
      · subst hji
        obtain ⟨rfl, -⟩ := Node.reloading.inj (hself.symm.trans hj)
        rcases List.mem_cons.mp (hcomplete id' row' hold hrun' hlive') with heq | hmem
        · exact absurd (congrArg Prod.fst heq) hne
        · exact hmem
      · exact h.reloads.complete j L copied (hother j hji ▸ hj) id' row' hold hrun' hlive'

theorem JobInv.reloadDone {i : I} (hnode : s.node i = .reloading [] false) :
    JobInv (s.setNode i (.up [])) :=
  h.setNode_down (not_isUp_of_reloading hnode) fun _ _ heq => by cases heq

theorem JobInv.crash (i : I) : JobInv (s.crash i) := by
  have hself : (s.crash i).node i = .down := by simp [State.crash, State.setNode]
  have hother : ∀ j, j ≠ i → (s.crash i).node j = s.node j := fun j hj => by
    simp [State.crash, State.setNode, State.rollback, hj]
  have hobjects : ∀ o ∈ (s.crash i).objects, o ∈ s.objects ∧ o.owner ≠ i := by
    intro o ho
    obtain ⟨hmem, howner⟩ := List.mem_filter.mp ho
    exact ⟨(List.mem_filter.mp hmem).1, of_decide_eq_true howner⟩
  -- the rows of another instance are no open claims of this one
  have hrows : ∀ j, j ≠ i → ∀ id row, row.runByInstanceId = some j →
      ((s.crash i).jobs id = some row ↔ s.jobs id = some row) := by
    intro j hj id row hrun
    show (s.rollback i).jobs id = some row ↔ _
    constructor
    · intro heq
      rcases State.rollback_jobs_cases heq with ⟨-, old, -, rfl⟩ | ⟨-, hold⟩
      · cases hrun
      · exact hold
    · intro heq
      have hid : id ∉ s.openClaims i := by
        intro hid
        have howned := (h.claims.owned _ (State.mem_openClaims.mp hid) row heq).1
        rw [hrun] at howned
        exact hj (Option.some.inj howned)
      simpa [State.rollback, hid] using heq
  refine ⟨h.claims.crash i, ?_, ?_, ?_, ?_⟩
  · intro o ho
    obtain ⟨hold, howner⟩ := hobjects o ho
    rw [hother o.owner howner]
    exact h.reloads.up o hold
  · intro j L copied hj
    by_cases hji : j = i
    · subst hji
      rw [hself] at hj
      cases hj
    · exact h.reloads.nodup j L copied (hother j hji ▸ hj)
  · intro j L copied hj p hp
    by_cases hji : j = i
    · subst hji
      rw [hself] at hj
      cases hj
    · obtain ⟨hjob, hrun, hlive⟩ := h.reloads.current j L copied (hother j hji ▸ hj) p hp
      exact ⟨(hrows j hji p.1 p.2 hrun).mpr hjob, hrun, hlive⟩
  · intro j L copied hj id row hrow hrun hlive
    by_cases hji : j = i
    · subst hji
      rw [hself] at hj
      cases hj
    · exact h.reloads.complete j L copied (hother j hji ▸ hj) id row
        ((hrows j hji id row hrun).mp hrow) hrun hlive

end Steps

/-- **Every step keeps the invariant.** -/
theorem JobInv.step (h : JobInv s) {e : Event I} (hstep : Step s e s') : JobInv s' := by
  cases hstep with
  | schedule recurring => exact h.insert rfl
  | purge hnode hrow hrun _ => exact h.purge hnode hrow hrun
  | start hnode hquery => exact h.start hnode hquery
  | reloadCopy hnode => exact (h.reloadCopy hnode).congr rfl rfl rfl rfl rfl
  | reloadMark hnode => exact h.reloadMark hnode
  | reloadDone hnode => exact h.reloadDone hnode
  | pollBegin hnode _ _ => exact h.setNode_up (isUp_of_eq hnode)
  | claim hnode => exact h.claim hnode
  | pollCommit hnode => exact (h.commit _).setNode_up (isUp_of_eq hnode)
  | pollRollback hnode =>
    exact (h.rollback (isUp_of_eq hnode)).setNode_up (isUp_of_eq hnode)
  | refresh ho hrow hp =>
    obtain ⟨hmatch, hrun, hold⟩ := matches_of_refreshed hp
    refine h.replace ho (fun _ => hold) fun row' hrow' => ?_
    rw [hrow] at hrow'
    rwa [← Option.some.inj hrow']
  | refreshFails ho _ _ => exact h.discard _
  | store ho hp => exact h.store ho hp
  | storeLast ho hp => exact h.storeLast ho hp
  | move ho hp =>
    obtain ⟨hmatch, hrun⟩ := matches_of_moves hp
    exact h.replace ho hrun fun row hrow => hmatch row (h.claims.owned _ ho row hrow).2
  | @createRecurrence o v ho hp _ =>
    have hinsert : JobInv (s.insert (v.next o.jobId)) := h.insert rfl
    exact (hinsert.ready ho hp true).congr rfl rfl rfl rfl rfl
  | @noRecurrence o v ho hp => exact (h.ready ho hp false).congr rfl rfl rfl rfl rfl
  | run ho hp =>
    exact ⟨h.claims.run ho hp, h.reloads.of_untouched (Untouched.of_jobs_eq rfl)
      (NodesFrom.of_eq rfl) (h.objects_up ho)⟩
  | @failed o v recurred retry ho hp =>
    have hany : ∀ t : State I, JobInv t → o ∈ t.objects →
        JobInv (t.replace o
          (.finishing { v with statusId := .failed, finishDateTime := true })) := by
      intro t ht hot
      refine ht.replace hot (fun hnot => absurd trivial hnot) fun row hrow => Or.inr ?_
      have hmatch := (ht.claims.owned o hot row hrow).2
      rw [hp] at hmatch
      obtain rfl : v = row := hmatch
      rfl
    split_ifs
    · exact hany _ (h.insert rfl) ho
    · exact hany _ h ho
  | abandon ho _ => exact h.discard _
  | crash => exact h.crash _

theorem JobInv.of_init (h : s.Init) : JobInv s := by
  have hdown : ∀ i L copied, s.node i ≠ .reloading L copied := by
    intro i L copied hnode
    rw [h.node i] at hnode
    cases hnode
  refine ⟨⟨?_, ?_, ?_, ?_, ?_, h.bound, ?_, ?_⟩, ⟨?_, ?_, ?_, ?_⟩⟩
  · simp [h.objects]
  · simp [h.objects]
  · simp [h.objects]
  · simp [State.runIds, h.log]
  · simp [State.runIds, h.log]
  · simp [h.objects]
  · simp [State.runIds, h.log]
  · simp [h.objects]
  · intro i L copied hnode
    exact absurd hnode (hdown i L copied)
  · intro i L copied hnode
    exact absurd hnode (hdown i L copied)
  · intro i L copied hnode
    exact absurd hnode (hdown i L copied)

theorem JobInv.of_reachable (h : (jobSystem I).Reachable s) : JobInv s :=
  h.invariant (fun _ => JobInv.of_init) fun _ _ _ _ hinv hstep => hinv.step hstep

/-- **No job is claimed twice, and none runs twice**: in every reachable state, all job
objects of all instances have different rows, each row of a job object is claimed by its
instance, and no row is twice among the services that ran. -/
theorem claims_exclusive (h : (jobSystem I).Reachable s) :
    (∀ o ∈ s.objects, ∀ o' ∈ s.objects, o.jobId = o'.jobId → o = o') ∧
    (∀ o ∈ s.objects, ∀ row, s.jobs o.jobId = some row → row.runByInstanceId = some o.owner) ∧
    (s.log.map Prod.snd).Nodup := by
  have hinv : JobInv s := JobInv.of_reachable h
  refine ⟨fun o ho o' ho' heq => ?_, fun o ho row hrow => ?_, hinv.claims.runOnce⟩
  · exact hinv.claims.eq_of_jobId_eq ho ho' heq
  · exact (hinv.claims.owned o ho row hrow).1

def oneJob : State Bool where
  jobs id := if id = 0 then some (.scheduled false) else none
  nextId := 1
  node _ := .down
  objects := []
  log := []
  handedOn := []
  reloaded := []
  ended := []

theorem reachable_oneJob_ran :
    ∃ s, (jobSystem Bool).Reachable s ∧ s.log = [(false, 0)] ∧
      ∃ o ∈ s.objects, o.jobId = 0 ∧ o.owner = false := by
  have h₀ : (jobSystem Bool).Reachable oneJob := by
    refine System.Reachable.init ⟨fun _ => rfl, rfl, rfl, rfl, rfl, rfl, fun id hid => ?_⟩
    have hne : id ≠ 0 := Nat.ne_of_gt hid
    simp [oneJob, hne]
  have hstart : Step oneJob (.start false []) _ := Step.start rfl (by decide)
  have h₁ := h₀.tail hstart
  have h₂ := h₁.tail (Step.reloadDone (i := false) rfl)
  have hdue : ∀ id ∈ [0], ∃ row, oneJob.jobs id = some row ∧ row.IsDue := by
    intro id hid
    rw [List.mem_singleton.mp hid]
    exact ⟨.scheduled false, rfl, rfl, rfl, rfl⟩
  have hpoll : Step ((oneJob.setNode false (.reloading [] false)).setNode false (.up []))
      (.pollBegin false [0]) _ := Step.pollBegin rfl (by decide) hdue
  have h₃ := h₂.tail hpoll
  have h₄ := h₃.tail (Step.claim (i := false) rfl)
  have h₅ := h₄.tail (Step.pollCommit (i := false) rfl)
  have h₆ := h₅.tail (Step.refresh (o := ⟨false, 0, .created⟩) (by decide) rfl rfl)
  have h₇ := h₆.tail (Step.store List.mem_cons_self rfl)
  have h₈ := h₇.tail (Step.move List.mem_cons_self .accept)
  have h₉ := h₈.tail (Step.move List.mem_cons_self .exec)
  have h₁₀ := h₉.tail (Step.refresh List.mem_cons_self rfl rfl)
  have h₁₁ := h₁₀.tail (Step.store List.mem_cons_self rfl)
  have h₁₂ := h₁₁.tail (Step.noRecurrence List.mem_cons_self rfl)
  have h₁₃ := h₁₂.tail (Step.run List.mem_cons_self rfl)
  exact ⟨_, h₁₃, rfl, _, List.mem_cons_self, rfl, rfl⟩

theorem claims_exclusive_oneJob :
    ∃ s : State Bool, s.log = [(false, 0)] ∧ (s.log.map Prod.snd).Nodup ∧
      ∀ o ∈ s.objects, ∀ o' ∈ s.objects, o.jobId = o'.jobId → o = o' := by
  obtain ⟨s, hreach, hlog, -⟩ := reachable_oneJob_ran
  obtain ⟨hobjects, -, honce⟩ := claims_exclusive hreach
  exact ⟨s, hlog, honce, hobjects⟩

end OfficeAuto.Service
