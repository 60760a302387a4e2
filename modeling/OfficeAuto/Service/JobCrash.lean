import OfficeAuto.Service.JobClaim

/-!
# Crashes and the recurrence of jobs

A recurring job is a chain of rows: each run inserts the row of the next one, and after a
crash `reloadCrashedJobs` inserts copies of the rows that its instance had claimed. The
*heir* of a chain is the row that still has the schedule and has not handed it on: pending,
queued or running, recurring, and without a next row. The recurrence is neither lost nor
duplicated as long as a chain has exactly one heir.

That is so in every run in which no instance stops at one of three points
(`SafeCrash`): with a recurring row that it has claimed but not yet queued, since the reload
drops the schedule of a row that is not queued; with a recurring row that is running and whose
next row is not inserted yet, for the same reason; and, in the middle of a reload, between the
insert of a copy and the mark on the old row, which the next reload would copy once more.
-/

set_option linter.unusedSectionVars false

namespace OfficeAuto.Service

variable {I : Type} [DecidableEq I] {s s' : State I} {c : JobId}

/-! ### Heirs -/

/-- **The heir of a chain**: a live row with the schedule that has not handed it on. -/
def Heir (s : State I) (c id : JobId) : Prop :=
  ∃ row, s.jobs id = some row ∧ row.chain id = c ∧ row.IsLive ∧ row.recurring = true ∧
    id ∉ s.handedOn

def CopiedHead (s : State I) (id : JobId) : Prop :=
  ∃ i row L, s.node i = .reloading ((id, row) :: L) true

/-- What the phase of a job object says of its row: its status, and whether it has handed its
schedule on. -/
def Phase.Fits (row : Row I) (handedOn : Prop) : Phase I → Prop
  | .claimed | .created | .queueing _ => row.statusId = .pending
  | .queued | .waiting | .rejected | .dequeueing _ | .starting | .initialising _ =>
    row.statusId = .queued
  | .running _ => row.statusId = .running ∧ ¬ handedOn
  | .ready _ recurred | .ran _ recurred =>
    row.statusId = .running ∧ (row.recurring = true → handedOn ∧ recurred = true)
  | .finishing _ => row.statusId = .running ∧ (row.recurring = true → handedOn)

def Phase.value : Phase I → Option (Row I)
  | .queueing v | .dequeueing v | .initialising v | .running v | .ready v _ | .ran v _
  | .finishing v => some v
  | _ => none

/-- **The invariant of a chain** whose schedule has not ended. -/
structure ChainInv (c : JobId) (s : State I) : Prop where
  heir : ∃! id, Heir s c id
  free : ∀ id row, s.jobs id = some row → row.chain id = c → row.runByInstanceId = none →
    row.statusId = .pending
  dates : ∀ id row, s.jobs id = some row → row.chain id = c → row.IsLive →
    row.finishDateTime = false ∧ row.cancelDateTime = false
  early : ∀ id row, s.jobs id = some row → row.chain id = c → row.IsLive →
    row.statusId ≠ .running → id ∈ s.handedOn → CopiedHead s id
  once : ∀ id row, s.jobs id = some row → row.chain id = c → row.IsLive →
    (c, id) ∈ s.reloaded → CopiedHead s id
  down : ∀ i, ¬ (s.node i).IsUp → ∀ id row, s.jobs id = some row → row.chain id = c →
    row.runByInstanceId = some i → row.IsLive → row.recurring = true → id ∉ s.handedOn →
    row.statusId = .queued
  fits : ∀ o ∈ s.objects, ∀ row, s.jobs o.jobId = some row → row.chain o.jobId = c →
    o.phase.Fits row (o.jobId ∈ s.handedOn)
  present : ∀ o ∈ s.objects, s.jobs o.jobId = none → ∀ v, o.phase.value = some v →
    v.chain o.jobId ≠ c
  copied : ∀ i id row L, s.node i = .reloading ((id, row) :: L) true → row.chain id = c →
    row.recurring = true → id ∈ s.handedOn
  copies : ∀ id, s.reloaded.count (c, id) ≤ 1

/-- The keys in the bookkeeping are keys of the table. -/
structure Bounds (s : State I) : Prop where
  handedOn : ∀ id ∈ s.handedOn, id < s.nextId
  reloaded : ∀ p ∈ s.reloaded, p.2 < s.nextId

/-! ### Steps that leave the heir where it is -/

/-- A row of a chain after a step, next to the row before. -/
structure Kept (s : State I) (id : JobId) (row row' : Row I) : Prop where
  chain : row'.chain id = row.chain id
  recurring : row'.recurring = row.recurring
  live : row'.IsLive → row.IsLive ∧ row'.finishDateTime = false ∧ row'.cancelDateTime = false
  heir : row.IsLive → row.recurring = true → id ∉ s.handedOn → row'.IsLive
  early : row'.IsLive → row'.statusId ≠ .running → row.statusId ≠ .running
  free : row'.runByInstanceId = none → row'.statusId = .pending

theorem heir_unique_congr (h : ∃! id, Heir s c id) (hiff : ∀ id, Heir s' c id ↔ Heir s c id) :
    ∃! id, Heir s' c id := by
  obtain ⟨id, hid, huniq⟩ := h
  exact ⟨id, (hiff id).mpr hid, fun id' hid' => huniq id' ((hiff id').mp hid')⟩

/-- **The invariant for the steps that leave the heir where it is.** -/
theorem ChainInv.of_kept (h : ChainInv c s)
    (hfrom : ∀ id row', s'.jobs id = some row' → row'.chain id = c →
      ∃ row, s.jobs id = some row ∧ Kept s id row row')
    (hto : ∀ id row, s.jobs id = some row → Heir s c id →
      ∃ row', s'.jobs id = some row' ∧ Kept s id row row')
    (hhanded : s'.handedOn = s.handedOn) (hreloaded : s'.reloaded = s.reloaded)
    (hhead : ∀ id row', s'.jobs id = some row' → row'.chain id = c → row'.IsLive →
      CopiedHead s id → CopiedHead s' id)
    (hhead' : ∀ i id row L, s'.node i = .reloading ((id, row) :: L) true →
      s.node i = .reloading ((id, row) :: L) true)
    (hdown : ∀ i, ¬ (s'.node i).IsUp → ∀ id row, s'.jobs id = some row → row.chain id = c →
      row.runByInstanceId = some i → row.IsLive → row.recurring = true → id ∉ s.handedOn →
      row.statusId = .queued)
    (hfits : ∀ o ∈ s'.objects, ∀ row, s'.jobs o.jobId = some row → row.chain o.jobId = c →
      o.phase.Fits row (o.jobId ∈ s.handedOn))
    (hpresent : ∀ o ∈ s'.objects, s'.jobs o.jobId = none → ∀ v, o.phase.value = some v →
      v.chain o.jobId ≠ c) : ChainInv c s' := by
  refine ⟨heir_unique_congr h.heir fun id => ?_, ?_, ?_, ?_, ?_, ?_, ?_, hpresent, ?_, ?_⟩
  · constructor
    · rintro ⟨row', hrow', hchain, hlive, hrec, hnot⟩
      obtain ⟨row, hrow, hkept⟩ := hfrom id row' hrow' hchain
      exact ⟨row, hrow, hkept.chain ▸ hchain, (hkept.live hlive).1, hkept.recurring ▸ hrec,
        hhanded ▸ hnot⟩
    · intro hheir
      obtain ⟨row, hrow, hchain, hlive, hrec, hnot⟩ := hheir
      obtain ⟨row', hrow', hkept⟩ := hto id row hrow ⟨row, hrow, hchain, hlive, hrec, hnot⟩
      exact ⟨row', hrow', hkept.chain.trans hchain, hkept.heir hlive hrec hnot,
        hkept.recurring.trans hrec, hhanded ▸ hnot⟩
  · intro id row' hrow' hchain hfree
    obtain ⟨row, -, hkept⟩ := hfrom id row' hrow' hchain
    exact hkept.free hfree
  · intro id row' hrow' hchain hlive
    obtain ⟨row, -, hkept⟩ := hfrom id row' hrow' hchain
    exact (hkept.live hlive).2
  · intro id row' hrow' hchain hlive hstatus hid
    obtain ⟨row, hrow, hkept⟩ := hfrom id row' hrow' hchain
    exact hhead id row' hrow' hchain hlive (h.early id row hrow (hkept.chain ▸ hchain)
      (hkept.live hlive).1 (hkept.early hlive hstatus) (hhanded ▸ hid))
  · intro id row' hrow' hchain hlive hid
    obtain ⟨row, hrow, hkept⟩ := hfrom id row' hrow' hchain
    exact hhead id row' hrow' hchain hlive (h.once id row hrow (hkept.chain ▸ hchain)
      (hkept.live hlive).1 (hreloaded ▸ hid))
  · rw [hhanded]
    exact hdown
  · rw [hhanded]
    exact hfits
  · intro i id row L hnode hchain hrec
    rw [hhanded]
    exact h.copied i id row L (hhead' i id row L hnode) hchain hrec
  · rw [hreloaded]
    exact h.copies

theorem Kept.refl (h : ChainInv c s) {id : JobId} {row : Row I} (hrow : s.jobs id = some row)
    (hchain : row.chain id = c) : Kept s id row row :=
  ⟨rfl, rfl, fun hlive => ⟨hlive, h.dates id row hrow hchain hlive⟩, fun hlive _ _ => hlive,
    fun _ hstatus => hstatus, fun hfree => h.free id row hrow hchain hfree⟩

theorem NodesFrom.down_iff (h : NodesFrom s s') {i : I} (hdown : ¬ (s'.node i).IsUp) :
    ¬ (s.node i).IsUp ∧ s'.node i = s.node i := by
  rcases h i with heq | ⟨-, hup⟩
  · exact ⟨heq ▸ hdown, heq⟩
  · exact absurd hup hdown

theorem NodesFrom.reloading (h : NodesFrom s s') {i : I} {L : List (JobId × Row I)}
    {copied : Bool} (hnode : s'.node i = .reloading L copied) :
    s.node i = .reloading L copied := by
  have hdown : ¬ (s'.node i).IsUp := not_isUp_of_reloading hnode
  rw [← (h.down_iff hdown).2]
  exact hnode

theorem CopiedHead.of_nodes (hnodes : NodesFrom s s') {id : JobId} (h : CopiedHead s id) :
    CopiedHead s' id := by
  obtain ⟨i, row, L, hnode⟩ := h
  refine ⟨i, row, L, ?_⟩
  rcases hnodes i with heq | ⟨hup, -⟩
  · rw [heq]
    exact hnode
  · exact absurd hup (not_isUp_of_reloading hnode)

/-- **Steps of an instance that is up**, over rows that stay or belong to it. -/
theorem ChainInv.of_nodes (h : ChainInv c s) (hnodes : NodesFrom s s')
    (hrows : ∀ id row', s'.jobs id = some row' → row'.chain id = c →
      ∃ row, s.jobs id = some row ∧ Kept s id row row' ∧
        (row' = row ∨ ∀ i, row'.runByInstanceId = some i → (s.node i).IsUp))
    (hto : ∀ id row, s.jobs id = some row → Heir s c id →
      ∃ row', s'.jobs id = some row' ∧ Kept s id row row')
    (hhanded : s'.handedOn = s.handedOn) (hreloaded : s'.reloaded = s.reloaded)
    (hfits : ∀ o ∈ s'.objects, ∀ row, s'.jobs o.jobId = some row → row.chain o.jobId = c →
      o.phase.Fits row (o.jobId ∈ s.handedOn))
    (hpresent : ∀ o ∈ s'.objects, s'.jobs o.jobId = none → ∀ v, o.phase.value = some v →
      v.chain o.jobId ≠ c) : ChainInv c s' := by
  refine h.of_kept ?_ hto hhanded hreloaded (fun _ _ _ _ _ hhead => hhead.of_nodes hnodes)
    (fun _ _ _ _ hnode => hnodes.reloading hnode) ?_ hfits hpresent
  · intro id row' hrow' hchain
    obtain ⟨row, hrow, hkept, -⟩ := hrows id row' hrow' hchain
    exact ⟨row, hrow, hkept⟩
  · intro i hdown id row' hrow' hchain hrun hlive hrec hnot
    obtain ⟨row, hrow, -, rfl | hup⟩ := hrows id row' hrow' hchain
    · exact h.down i (hnodes.down_iff hdown).1 id row' hrow hchain hrun hlive hrec hnot
    · exact absurd (hup i hrun) (hnodes.down_iff hdown).1

theorem ChainInv.of_jobs_eq (h : ChainInv c s) (hnodes : NodesFrom s s')
    (hjobs : s'.jobs = s.jobs) (hhanded : s'.handedOn = s.handedOn)
    (hreloaded : s'.reloaded = s.reloaded)
    (hfits : ∀ o ∈ s'.objects, ∀ row, s.jobs o.jobId = some row → row.chain o.jobId = c →
      o.phase.Fits row (o.jobId ∈ s.handedOn))
    (hpresent : ∀ o ∈ s'.objects, s.jobs o.jobId = none → ∀ v, o.phase.value = some v →
      v.chain o.jobId ≠ c) : ChainInv c s' := by
  refine h.of_nodes hnodes ?_ ?_ hhanded hreloaded (hjobs ▸ hfits) (hjobs ▸ hpresent)
  · intro id row' hrow' hchain
    rw [hjobs] at hrow'
    exact ⟨row', hrow', Kept.refl h hrow' hchain, Or.inl rfl⟩
  · rintro id row hrow ⟨row', hrow', hchain, -⟩
    rw [hrow] at hrow'
    obtain rfl := Option.some.inj hrow'
    exact ⟨row, hjobs ▸ hrow, Kept.refl h hrow hchain⟩

theorem ChainInv.replace (h : ChainInv c s) {o : JobObject I} {p : Phase I}
    (hfit : ∀ row, s.jobs o.jobId = some row → row.chain o.jobId = c →
      p.Fits row (o.jobId ∈ s.handedOn))
    (hvalue : s.jobs o.jobId = none → ∀ v, p.value = some v → v.chain o.jobId ≠ c) :
    ChainInv c (s.replace o p) := by
  refine h.of_jobs_eq (NodesFrom.of_eq rfl) rfl rfl rfl ?_ ?_
  · intro o' ho'
    rcases List.mem_cons.mp ho' with rfl | hmem
    · exact hfit
    · exact h.fits o' (List.mem_of_mem_erase hmem)
  · intro o' ho'
    rcases List.mem_cons.mp ho' with rfl | hmem
    · exact hvalue
    · exact h.present o' (List.mem_of_mem_erase hmem)

theorem ChainInv.discard (h : ChainInv c s) (o : JobObject I) : ChainInv c (s.discard o) :=
  h.of_jobs_eq (NodesFrom.of_eq rfl) rfl rfl rfl
    (fun o' ho' => h.fits o' (List.mem_of_mem_erase ho'))
    fun o' ho' => h.present o' (List.mem_of_mem_erase ho')

theorem ChainInv.congr (h : ChainInv c s) (hnodes : NodesFrom s s') (hjobs : s'.jobs = s.jobs)
    (hobjects : s'.objects = s.objects) (hhanded : s'.handedOn = s.handedOn)
    (hreloaded : s'.reloaded = s.reloaded) : ChainInv c s' :=
  h.of_jobs_eq hnodes hjobs hhanded hreloaded (hobjects ▸ h.fits) (hobjects ▸ h.present)

theorem JobInv.not_copiedHead (h : JobInv s) {o : JobObject I} (ho : o ∈ s.objects) :
    ¬ CopiedHead s o.jobId := by
  rintro ⟨i, row, L, hnode⟩
  exact h.ne_of_reloading hnode List.mem_cons_self o ho rfl

/-! ### Phases and their rows -/

theorem Phase.Fits.isLive {row : Row I} {handedOn : Prop} {p : Phase I}
    (h : p.Fits row handedOn) : row.IsLive := by
  cases p with
  | claimed | created | queueing _ => exact Or.inl h
  | running _ | ready _ _ | ran _ _ | finishing _ => exact Or.inr (Or.inr h.1)
  | _ => exact Or.inr (Or.inl h)

theorem chain_of_matches {p : Phase I} {row v : Row I} {id : JobId} (h : p.Matches row)
    (hv : p.value = some v) : v.chain id = row.chain id := by
  cases p with
  | queueing w | dequeueing w | initialising w =>
    obtain rfl := Option.some.inj hv
    rw [show _ = _ from h]
    rfl
  | running w | ready w _ | ran w _ =>
    obtain rfl := Option.some.inj hv
    rw [show w = row from h]
  | finishing w =>
    obtain rfl := Option.some.inj hv
    rcases h with rfl | rfl <;> rfl
  | _ => cases hv

theorem fits_of_refreshed {i : I} {row row' : Row I} {handedOn : Prop} {p q : Phase I}
    (h : refreshed i row p = some q) (hfit : p.Fits row' handedOn) : q.Fits row' handedOn := by
  unfold refreshed at h
  split at h
  · split_ifs at h
    obtain rfl := Option.some.inj h
    exact hfit
  · obtain rfl := Option.some.inj h
    exact hfit
  · split_ifs at h
    obtain rfl := Option.some.inj h
    exact hfit
  · cases h

theorem fits_of_moves {row : Row I} {handedOn : Prop} {p q : Phase I} (h : p.Moves q)
    (hfit : p.Fits row handedOn) : q.Fits row handedOn := by
  cases h with
  | finish v recurred => exact ⟨hfit.1, fun hrec => (hfit.2 hrec).1⟩
  | _ => exact hfit

theorem chain_of_moves {p q : Phase I} (h : p.Moves q) {w : Row I} (hw : q.value = some w) :
    ∃ v, p.value = some v ∧ ∀ id, w.chain id = v.chain id := by
  cases h with
  | finish v recurred =>
    obtain rfl := Option.some.inj hw
    exact ⟨v, rfl, fun _ => rfl⟩
  | _ => cases hw

theorem value_of_stores {p : Phase I} {v : Row I} {q : Option (Phase I)}
    (h : p.stores = some (v, q)) :
    p.value = some v ∧ ∀ p' w, q = some p' → p'.value = some w → w = v := by
  cases p with
  | initialising u =>
    obtain ⟨rfl, rfl⟩ := Prod.mk.inj (Option.some.inj h)
    refine ⟨rfl, fun p' w hp' hw => ?_⟩
    obtain rfl := Option.some.inj hp'
    exact (Option.some.inj hw).symm
  | queueing u =>
    obtain ⟨rfl, rfl⟩ := Prod.mk.inj (Option.some.inj h)
    refine ⟨rfl, fun p' w hp' hw => ?_⟩
    obtain rfl := Option.some.inj hp'
    cases hw
  | dequeueing u | finishing u =>
    obtain ⟨rfl, rfl⟩ := Prod.mk.inj (Option.some.inj h)
    exact ⟨rfl, fun p' w hp' _ => by cases hp'⟩
  | _ => cases h

theorem fits_of_stores {p q : Phase I} {row v : Row I} {handedOn : Prop}
    (h : p.stores = some (v, some q)) (hmatch : p.Matches row) (hfit : p.Fits row handedOn)
    (hqueued : row.statusId = .queued → ¬ handedOn) : q.Fits v handedOn := by
  cases p with
  | queueing w =>
    obtain ⟨rfl, hq⟩ := Prod.mk.inj (Option.some.inj h)
    obtain rfl := Option.some.inj hq
    rw [show w = { row with statusId := .queued } from hmatch]
    rfl
  | initialising w =>
    obtain ⟨rfl, hq⟩ := Prod.mk.inj (Option.some.inj h)
    obtain rfl := Option.some.inj hq
    rw [show w = { row with startDateTime := true, statusId := .running } from hmatch]
    exact ⟨rfl, hqueued hfit⟩
  | dequeueing w => cases h
  | finishing w => cases h
  | _ => cases h

/-! ### The stores of a job object -/

/-- **A store leaves the heir where it is**: the outcome is stored only after the schedule has
been handed on. -/
theorem kept_of_stores (h : ChainInv c s) {o : JobObject I} {v row : Row I}
    {q : Option (Phase I)} (hp : o.phase.stores = some (v, q))
    (hrow : s.jobs o.jobId = some row) (hchain : row.chain o.jobId = c)
    (howner : row.runByInstanceId = some o.owner) (hmatch : o.phase.Matches row)
    (hfit : o.phase.Fits row (o.jobId ∈ s.handedOn)) : Kept s o.jobId row v := by
  have hdates := h.dates o.jobId row hrow hchain
  cases hphase : o.phase with
  | queueing w =>
    rw [hphase] at hp hmatch hfit
    obtain ⟨rfl, -⟩ := Prod.mk.inj (Option.some.inj hp)
    obtain rfl : w = { row with statusId := .queued } := hmatch
    have hpending : row.statusId = .pending := hfit
    have hlive : row.IsLive := Or.inl hpending
    refine ⟨rfl, rfl, fun _ => ⟨hlive, hdates hlive⟩, fun _ _ _ => Or.inr (Or.inl rfl),
      fun _ _ => by rw [hpending]; decide, fun hfree => ?_⟩
    rw [howner] at hfree
    cases hfree
  | dequeueing w =>
    rw [hphase] at hp hmatch hfit
    obtain ⟨rfl, -⟩ := Prod.mk.inj (Option.some.inj hp)
    obtain rfl : w = { row with
      startDateTime := false, runByInstanceId := none, statusId := .pending } := hmatch
    have hqueued : row.statusId = .queued := hfit
    have hlive : row.IsLive := Or.inr (Or.inl hqueued)
    exact ⟨rfl, rfl, fun _ => ⟨hlive, hdates hlive⟩, fun _ _ _ => Or.inl rfl,
      fun _ _ => by rw [hqueued]; decide, fun _ => rfl⟩
  | initialising w =>
    rw [hphase] at hp hmatch hfit
    obtain ⟨rfl, -⟩ := Prod.mk.inj (Option.some.inj hp)
    obtain rfl : w = { row with startDateTime := true, statusId := .running } := hmatch
    have hqueued : row.statusId = .queued := hfit
    have hlive : row.IsLive := Or.inr (Or.inl hqueued)
    refine ⟨rfl, rfl, fun _ => ⟨hlive, hdates hlive⟩, fun _ _ _ => Or.inr (Or.inr rfl),
      fun _ hstatus => absurd rfl hstatus, fun hfree => ?_⟩
    rw [howner] at hfree
    cases hfree
  | finishing w =>
    rw [hphase] at hp hmatch hfit
    obtain ⟨rfl, -⟩ := Prod.mk.inj (Option.some.inj hp)
    have hdead : ∀ status, status = Status.finished ∨ status = .failed →
        w = { row with statusId := status, finishDateTime := true } → Kept s o.jobId row w := by
      rintro status hstatus rfl
      have hnot : ¬ ({ row with statusId := status, finishDateTime := true } : Row I).IsLive := by
        rcases hstatus with rfl | rfl <;> simp [Row.IsLive]
      refine ⟨rfl, rfl, fun hlive => absurd hlive hnot,
        fun _ hrec hid => absurd (hfit.2 hrec) hid, fun hlive => absurd hlive hnot,
        fun hfree => ?_⟩
      rw [howner] at hfree
      cases hfree
    rcases hmatch with hw | hw
    · exact hdead .finished (Or.inl rfl) hw
    · exact hdead .failed (Or.inr rfl) hw
  | _ =>
    rw [hphase] at hp
    cases hp

theorem ChainInv.not_handedOn (h : ChainInv c s) (hinv : JobInv s) {o : JobObject I} {row : Row I}
    (ho : o ∈ s.objects) (hrow : s.jobs o.jobId = some row) (hchain : row.chain o.jobId = c)
    (hqueued : row.statusId = .queued) : o.jobId ∉ s.handedOn := by
  intro hmem
  refine hinv.not_copiedHead ho (h.early o.jobId row hrow hchain (Or.inr (Or.inl hqueued)) ?_ hmem)
  rw [hqueued]
  decide

theorem ChainInv.kept_write (h : ChainInv c s) (hinv : JobInv s) {o : JobObject I} {v : Row I}
    {q : Option (Phase I)} (ho : o ∈ s.objects) (hp : o.phase.stores = some (v, q)) :
    (∀ id row', (s.write o.jobId v).jobs id = some row' → row'.chain id = c →
      ∃ row, s.jobs id = some row ∧ Kept s id row row' ∧
        (row' = row ∨ ∀ i, row'.runByInstanceId = some i → (s.node i).IsUp)) ∧
    ∀ id row, s.jobs id = some row → Heir s c id →
      ∃ row', (s.write o.jobId v).jobs id = some row' ∧ Kept s id row row' := by
  have hkept : ∀ row, s.jobs o.jobId = some row → row.chain o.jobId = c →
      Kept s o.jobId row v := by
    intro row hrow hchain
    obtain ⟨howner, hmatch⟩ := hinv.claims.owned o ho row hrow
    exact kept_of_stores h hp hrow hchain howner hmatch (h.fits o ho row hrow hchain)
  constructor
  · intro id row' hrow' hchain
    rcases State.write_jobs_cases hrow' with ⟨rfl, rfl, row, hrow⟩ | ⟨-, hrow⟩
    · obtain ⟨howner, hmatch⟩ := hinv.claims.owned o ho row hrow
      have hsame : row'.chain o.jobId = row.chain o.jobId :=
        chain_of_matches hmatch (value_of_stores hp).1
      refine ⟨row, hrow, hkept row hrow (hsame ▸ hchain), Or.inr fun i hi => ?_⟩
      have hup := hinv.reloads.up o ho
      have hclaimed : ∀ w : Row I, (w.runByInstanceId = row.runByInstanceId ∨
          w.runByInstanceId = none) → w.runByInstanceId = some i → i = o.owner := by
        rintro w (heq | heq) hw
        · rw [heq, howner] at hw
          exact (Option.some.inj hw).symm
        · rw [heq] at hw
          cases hw
      rw [hclaimed row' ?_ hi]
      · exact hup
      · cases hq : q with
        | some p => exact Or.inl ((keeps_of_stores_some (hq ▸ hp)).1 row hmatch)
        | none =>
          rcases keeps_of_stores_none (hq ▸ hp) with hkeep | ⟨-, hnone⟩
          · exact Or.inl (hkeep row hmatch)
          · exact Or.inr (hnone row hmatch)
    · exact ⟨row', hrow, Kept.refl h hrow hchain, Or.inl rfl⟩
  · rintro id row hrow ⟨row₀, hrow₀, hchain, -⟩
    rw [hrow] at hrow₀
    obtain rfl := Option.some.inj hrow₀
    by_cases hid : id = o.jobId
    · subst hid
      exact ⟨v, by rw [State.write_jobs_self, hrow]; rfl, hkept row hrow hchain⟩
    · exact ⟨row, by rw [State.write_jobs_of_ne hid, hrow], Kept.refl h hrow hchain⟩

theorem State.write_jobs_none {id id' : JobId} {v : Row I}
    (h : (s.write id v).jobs id' = none) : s.jobs id' = none := by
  by_cases hid : id' = id
  · subst hid
    rw [State.write_jobs_self] at h
    exact Option.map_eq_none_iff.mp h
  · rwa [State.write_jobs_of_ne hid] at h

theorem ChainInv.fits_write (h : ChainInv c s) (hinv : JobInv s) {o o' : JobObject I} {v : Row I}
    (ho : o ∈ s.objects) (ho' : o' ∈ s.objects.erase o) :
    (∀ row, (s.write o.jobId v).jobs o'.jobId = some row → row.chain o'.jobId = c →
      o'.phase.Fits row (o'.jobId ∈ s.handedOn)) ∧
    ((s.write o.jobId v).jobs o'.jobId = none → ∀ w, o'.phase.value = some w →
      w.chain o'.jobId ≠ c) := by
  obtain ⟨hold, hne⟩ := hinv.claims.ne_of_mem_erase ho ho'
  rw [State.write_jobs_of_ne hne]
  exact ⟨h.fits o' hold, h.present o' hold⟩

theorem ChainInv.store (h : ChainInv c s) (hinv : JobInv s) {o : JobObject I} {v : Row I}
    {p : Phase I} (ho : o ∈ s.objects) (hp : o.phase.stores = some (v, some p)) :
    ChainInv c ((s.write o.jobId v).replace o p) := by
  obtain ⟨hrows, hto⟩ := h.kept_write hinv ho hp
  obtain ⟨hvalue, hafter⟩ := value_of_stores hp
  refine h.of_nodes (NodesFrom.of_eq rfl) hrows hto rfl rfl ?_ ?_
  · intro o' ho'
    rcases List.mem_cons.mp ho' with rfl | hmem
    · intro row' hrow' hchain
      rcases State.write_jobs_cases hrow' with ⟨-, rfl, row, hrow⟩ | ⟨hne, -⟩
      · have hmatch := (hinv.claims.owned o ho row hrow).2
        have hsame : row'.chain o.jobId = row.chain o.jobId := chain_of_matches hmatch hvalue
        have hrowchain : row.chain o.jobId = c := hsame ▸ hchain
        exact fits_of_stores hp hmatch (h.fits o ho row hrow hrowchain)
          fun hqueued => h.not_handedOn (o := o) hinv ho hrow hrowchain hqueued
      · exact absurd rfl hne
    · exact (h.fits_write hinv ho hmem).1
  · intro o' ho'
    rcases List.mem_cons.mp ho' with rfl | hmem
    · intro hnone w hw
      rw [hafter p w rfl hw]
      exact h.present o ho (State.write_jobs_none hnone) v hvalue
    · exact (h.fits_write hinv ho hmem).2

theorem ChainInv.storeLast (h : ChainInv c s) (hinv : JobInv s) {o : JobObject I} {v : Row I}
    (ho : o ∈ s.objects) (hp : o.phase.stores = some (v, none)) :
    ChainInv c ((s.write o.jobId v).discard o) := by
  obtain ⟨hrows, hto⟩ := h.kept_write hinv ho hp
  refine h.of_nodes (NodesFrom.of_eq rfl) hrows hto rfl rfl ?_ ?_
  · exact fun o' ho' => (h.fits_write hinv ho ho').1
  · exact fun o' ho' => (h.fits_write hinv ho ho').2

/-! ### The polls -/

theorem Phase.Fits.congr {row row' : Row I} {handedOn : Prop} {p : Phase I}
    (h : p.Fits row handedOn) (hstatus : row'.statusId = row.statusId)
    (hrec : row'.recurring = row.recurring) : p.Fits row' handedOn := by
  cases p <;> simp only [Phase.Fits, hstatus, hrec] at h ⊢ <;> exact h

theorem ChainInv.kept_runBy (h : ChainInv c s) {id : JobId} {row : Row I} {run : Option I}
    (hrow : s.jobs id = some row) (hchain : row.chain id = c)
    (hfree : run = none → row.statusId = .pending) :
    Kept s id row { row with runByInstanceId := run } :=
  ⟨rfl, rfl, fun hlive => ⟨hlive, h.dates id row hrow hchain hlive⟩, fun hlive _ _ => hlive,
    fun _ hstatus => hstatus, hfree⟩

theorem ChainInv.claim (h : ChainInv c s) {i : I} {id : JobId} {ids : List JobId}
    (hup : (s.node i).IsUp) : ChainInv c ((s.claim i id).setNode i (.up ids)) := by
  unfold State.claim
  split
  case h_2 => exact h.congr (NodesFrom.setNode rfl hup) rfl rfl rfl rfl
  case h_1 row hrow =>
    split_ifs with hfree
    · have hkept : row.chain id = c → Kept s id row { row with runByInstanceId := some i } :=
        fun hchain => h.kept_runBy hrow hchain fun hnone => by cases hnone
      refine h.of_nodes (NodesFrom.setNode rfl hup) ?_ ?_ rfl rfl ?_ ?_
      · intro id' row' hrow' hchain
        rcases State.write_jobs_cases hrow' with ⟨rfl, rfl, -⟩ | ⟨-, hold⟩
        · refine ⟨row, hrow, hkept hchain, Or.inr fun j hj => ?_⟩
          rwa [← Option.some.inj hj]
        · exact ⟨row', hold, Kept.refl h hold hchain, Or.inl rfl⟩
      · rintro id' row' hrow' ⟨row₀, hrow₀, hchain, -⟩
        rw [hrow'] at hrow₀
        obtain rfl := Option.some.inj hrow₀
        by_cases hid : id' = id
        · subst hid
          rw [hrow] at hrow'
          obtain rfl := Option.some.inj hrow'
          refine ⟨_, ?_, hkept hchain⟩
          show (s.write id' _).jobs id' = _
          rw [State.write_jobs_self, hrow]
          rfl
        · refine ⟨row', ?_, Kept.refl h hrow' hchain⟩
          show (s.write id _).jobs id' = _
          rw [State.write_jobs_of_ne hid, hrow']
      · intro o ho row' hrow' hchain
        rcases List.mem_cons.mp ho with rfl | ho
        · rcases State.write_jobs_cases hrow' with ⟨-, rfl, -⟩ | ⟨hne, -⟩
          · exact h.free id row hrow hchain hfree
          · exact absurd rfl hne
        · rcases State.write_jobs_cases hrow' with ⟨heq, rfl, -⟩ | ⟨-, hold⟩
          · have hfit := h.fits o ho row (heq ▸ hrow) hchain
            exact hfit.congr rfl rfl
          · exact h.fits o ho row' hold hchain
      · intro o ho hnone w hw
        rcases List.mem_cons.mp ho with rfl | ho
        · cases hw
        · exact h.present o ho (State.write_jobs_none hnone) w hw
    · exact h.congr (NodesFrom.setNode rfl hup) rfl rfl rfl rfl

theorem ChainInv.commit (h : ChainInv c s) {i : I} {ids : List JobId} (hup : (s.node i).IsUp) :
    ChainInv c ((s.commit i).setNode i (.up ids)) := by
  have hfrom : ∀ o' ∈ (s.commit i).objects, ∃ o ∈ s.objects, o'.jobId = o.jobId ∧
      (o' = o ∨ o.phase = .claimed ∧ o'.phase = .created) := by
    intro o' ho'
    obtain ⟨o, ho, rfl⟩ := List.mem_map.mp ho'
    refine ⟨o, ho, ?_⟩
    split_ifs with hclaimed
    · exact ⟨rfl, Or.inr ⟨hclaimed.2, rfl⟩⟩
    · exact ⟨rfl, Or.inl rfl⟩
  refine h.of_jobs_eq (NodesFrom.setNode rfl hup) rfl rfl rfl ?_ ?_
  · intro o' ho' row hrow hchain
    obtain ⟨o, ho, hid, rfl | ⟨hclaimed, hcreated⟩⟩ := hfrom o' ho'
    · exact h.fits o' ho row hrow hchain
    · rw [hid] at hrow hchain
      have hfit := h.fits o ho row hrow hchain
      rw [hclaimed] at hfit
      rw [hcreated]
      exact hfit
  · intro o' ho' hnone w hw
    obtain ⟨o, ho, hid, rfl | ⟨-, hcreated⟩⟩ := hfrom o' ho'
    · exact h.present o' ho hnone w hw
    · rw [hcreated] at hw
      cases hw

theorem ChainInv.kept_rollback (h : ChainInv c s) (i : I) :
    (∀ id row', (s.rollback i).jobs id = some row' → row'.chain id = c →
      ∃ row, s.jobs id = some row ∧ Kept s id row row' ∧
        (row' = row ∨ row' = { row with runByInstanceId := none })) ∧
    ∀ id row, s.jobs id = some row → Heir s c id →
      ∃ row', (s.rollback i).jobs id = some row' ∧ Kept s id row row' := by
  have hkept : ∀ id row, id ∈ s.openClaims i → s.jobs id = some row → row.chain id = c →
      Kept s id row { row with runByInstanceId := none } := fun id row hid hrow hchain =>
    h.kept_runBy hrow hchain fun _ => h.fits _ (State.mem_openClaims.mp hid) row hrow hchain
  constructor
  · intro id row' hrow' hchain
    rcases State.rollback_jobs_cases hrow' with ⟨hid, row, hrow, rfl⟩ | ⟨-, hrow⟩
    · exact ⟨row, hrow, hkept id row hid hrow hchain, Or.inr rfl⟩
    · exact ⟨row', hrow, Kept.refl h hrow hchain, Or.inl rfl⟩
  · rintro id row hrow ⟨row₀, hrow₀, hchain, -⟩
    rw [hrow] at hrow₀
    obtain rfl := Option.some.inj hrow₀
    by_cases hid : id ∈ s.openClaims i
    · refine ⟨_, ?_, hkept id row hid hrow hchain⟩
      simp [State.rollback, hid, hrow]
    · refine ⟨row, ?_, Kept.refl h hrow hchain⟩
      simp [State.rollback, hid, hrow]

theorem ChainInv.fits_rollback (h : ChainInv c s) {i : I} {o : JobObject I}
    (ho : o ∈ (s.rollback i).objects) :
    (∀ row, (s.rollback i).jobs o.jobId = some row → row.chain o.jobId = c →
      o.phase.Fits row (o.jobId ∈ s.handedOn)) ∧
    ((s.rollback i).jobs o.jobId = none → ∀ w, o.phase.value = some w →
      w.chain o.jobId ≠ c) := by
  have hold : o ∈ s.objects := (List.mem_filter.mp ho).1
  constructor
  · intro row' hrow' hchain
    obtain ⟨row, hrow, -, rfl | rfl⟩ := (h.kept_rollback i).1 o.jobId row' hrow' hchain
    · exact h.fits o hold row' hrow hchain
    · exact (h.fits o hold row hrow hchain).congr rfl rfl
  · intro hnone
    refine h.present o hold ?_
    cases hrow : s.jobs o.jobId with
    | none => rfl
    | some row =>
      simp only [State.rollback, hrow] at hnone
      split_ifs at hnone
      all_goals cases hnone

theorem ChainInv.rollback (h : ChainInv c s) {i : I} {ids : List JobId} (hup : (s.node i).IsUp) :
    ChainInv c ((s.rollback i).setNode i (.up ids)) := by
  obtain ⟨hrows, hto⟩ := h.kept_rollback i
  refine h.of_nodes (NodesFrom.setNode rfl hup) ?_ hto rfl rfl
    (fun o ho => (h.fits_rollback ho).1) fun o ho => (h.fits_rollback ho).2
  intro id row' hrow' hchain
  obtain ⟨row, hrow, hkept, rfl | rfl⟩ := hrows id row' hrow' hchain
  · exact ⟨row', hrow, hkept, Or.inl rfl⟩
  · exact ⟨row, hrow, hkept, Or.inr fun j hj => by cases hj⟩

theorem ChainInv.purge (h : ChainInv c s) (hinv : JobInv s) {id : JobId} {row : Row I}
    (hrow : s.jobs id = some row)
    (hdone : row.finishDateTime = true ∨ row.cancelDateTime = true) :
    ChainInv c { s with jobs := Function.update s.jobs id none } := by
  have hcases : ∀ id' row', Function.update s.jobs id none id' = some row' →
      s.jobs id' = some row' := by
    intro id' row' heq
    by_cases hid : id' = id
    · subst hid
      rw [Function.update_self] at heq
      cases heq
    · rwa [Function.update_of_ne hid] at heq
  have hdead : row.chain id = c → ¬ row.IsLive := by
    intro hchain hlive
    obtain ⟨hfinish, hcancel⟩ := h.dates id row hrow hchain hlive
    rcases hdone with hdone | hdone
    · rw [hfinish] at hdone
      cases hdone
    · rw [hcancel] at hdone
      cases hdone
  refine h.of_nodes (NodesFrom.of_eq rfl) ?_ ?_ rfl rfl ?_ ?_
  · intro id' row' hrow' hchain
    exact ⟨row', hcases id' row' hrow', Kept.refl h (hcases id' row' hrow') hchain, Or.inl rfl⟩
  · rintro id' row' hrow' ⟨row₀, hrow₀, hchain, hlive, -⟩
    rw [hrow'] at hrow₀
    obtain rfl := Option.some.inj hrow₀
    refine ⟨row', ?_, Kept.refl h hrow' hchain⟩
    have hid : id' ≠ id := by
      rintro rfl
      rw [hrow] at hrow'
      obtain rfl := Option.some.inj hrow'
      exact hdead hchain hlive
    show Function.update s.jobs id none id' = some row'
    rw [Function.update_of_ne hid, hrow']
  · exact fun o ho row' hrow' hchain => h.fits o ho row' (hcases _ _ hrow') hchain
  · intro o ho hnone w hw hchain
    by_cases hid : o.jobId = id
    · subst hid
      have hmatch := (hinv.claims.owned o ho row hrow).2
      have hrowchain : row.chain o.jobId = c := (chain_of_matches hmatch hw).symm.trans hchain
      exact hdead hrowchain (h.fits o ho row hrow hrowchain).isLive
    · refine h.present o ho ?_ w hw hchain
      have hnone' : Function.update s.jobs id none o.jobId = none := hnone
      rwa [Function.update_of_ne hid] at hnone'

/-! ### The reload -/

theorem ChainInv.setNode (h : ChainInv c s) {i : I} {n : Node I} (hdown : ¬ (s.node i).IsUp)
    (hold : ∀ id row L, s.node i ≠ .reloading ((id, row) :: L) true)
    (hnew : ∀ id row L, n ≠ .reloading ((id, row) :: L) true) : ChainInv c (s.setNode i n) := by
  have hself : (s.setNode i n).node i = n := by simp [State.setNode]
  have hother : ∀ j, j ≠ i → (s.setNode i n).node j = s.node j := fun j hj => by
    simp [State.setNode, hj]
  refine h.of_kept ?_ ?_ rfl rfl ?_ ?_ ?_ h.fits h.present
  · exact fun id row hrow hchain => ⟨row, hrow, Kept.refl h hrow hchain⟩
  · rintro id row hrow ⟨row₀, hrow₀, hchain, -⟩
    rw [hrow] at hrow₀
    obtain rfl := Option.some.inj hrow₀
    exact ⟨row, hrow, Kept.refl h hrow hchain⟩
  · rintro id row _ _ _ ⟨j, row', L, hj⟩
    have hji : j ≠ i := by
      rintro rfl
      exact hold id row' L hj
    exact ⟨j, row', L, (hother j hji).trans hj⟩
  · intro j id row L hj
    by_cases hji : j = i
    · subst hji
      exact absurd (hself.symm.trans hj) (hnew id row L)
    · rwa [hother j hji] at hj
  · intro j hj
    by_cases hji : j = i
    · subst hji
      exact h.down j hdown
    · exact h.down j (hother j hji ▸ hj)

theorem ChainInv.reloadMark (h : ChainInv c s) (hinv : JobInv s) {i : I} {id : JobId}
    {row : Row I} {rest : List (JobId × Row I)}
    (hnode : s.node i = .reloading ((id, row) :: rest) true) :
    ChainInv c ((s.write id { row with statusId := .crashed, cancelDateTime := true }).setNode i
      (.reloading rest false)) := by
  obtain ⟨hrow, hrun, -⟩ := hinv.reloads.current i _ _ hnode _ List.mem_cons_self
  have hobject := hinv.ne_of_reloading hnode List.mem_cons_self
  set v : Row I := { row with statusId := .crashed, cancelDateTime := true } with hv
  have hdead : ¬ v.IsLive := by simp [hv, Row.IsLive]
  have hother : ∀ j, j ≠ i →
      ((s.write id v).setNode i (.reloading rest false)).node j = s.node j := fun j hj => by
    simp [State.setNode, State.write, hj]
  have hself : ((s.write id v).setNode i (.reloading rest false)).node i
      = .reloading rest false := by simp [State.setNode]
  have hkept : row.chain id = c → Kept s id row v := by
    intro hchain
    refine ⟨rfl, rfl, fun hlive => absurd hlive hdead, fun _ hrec hnot => ?_,
      fun hlive => absurd hlive hdead, fun hfree => ?_⟩
    · exact absurd (h.copied i id row rest hnode hchain hrec) hnot
    · exact absurd (hrun.symm.trans hfree) (Option.some_ne_none i)
  refine h.of_kept ?_ ?_ rfl rfl ?_ ?_ ?_ ?_ ?_
  · intro id' row' hrow' hchain
    rcases State.write_jobs_cases hrow' with ⟨rfl, rfl, -⟩ | ⟨-, hold⟩
    · exact ⟨row, hrow, hkept hchain⟩
    · exact ⟨row', hold, Kept.refl h hold hchain⟩
  · rintro id' row' hrow' ⟨row₀, hrow₀, hchain, -⟩
    rw [hrow'] at hrow₀
    obtain rfl := Option.some.inj hrow₀
    by_cases hid : id' = id
    · subst hid
      obtain rfl : row' = row := Option.some.inj (hrow'.symm.trans hrow)
      refine ⟨v, ?_, hkept hchain⟩
      show (s.write id' v).jobs id' = _
      rw [State.write_jobs_self, hrow]
      rfl
    · refine ⟨row', ?_, Kept.refl h hrow' hchain⟩
      show (s.write id v).jobs id' = _
      rw [State.write_jobs_of_ne hid, hrow']
  · rintro id' row' hrow' _ hlive ⟨j, row₀, L, hj⟩
    by_cases hji : j = i
    · -- the row of this instance's head is the marked one, which is not live
      subst hji
      rw [hnode] at hj
      obtain ⟨hL, -⟩ := Node.reloading.inj hj
      obtain ⟨hp, -⟩ := List.cons.inj hL
      obtain rfl : id = id' := congrArg Prod.fst hp
      rcases State.write_jobs_cases hrow' with ⟨-, rfl, -⟩ | ⟨hne, -⟩
      · exact absurd hlive hdead
      · exact absurd rfl hne
    · exact ⟨j, row₀, L, (hother j hji).trans hj⟩
  · intro j id' row' L hj
    by_cases hji : j = i
    · subst hji
      cases hself.symm.trans hj
    · rwa [hother j hji] at hj
  · intro j hj id' row' hrow' hchain hrun' hlive hrec hnot
    rcases State.write_jobs_cases hrow' with ⟨-, rfl, -⟩ | ⟨-, hold⟩
    · exact absurd hlive hdead
    · refine h.down j ?_ id' row' hold hchain hrun' hlive hrec hnot
      by_cases hji : j = i
      · subst hji
        exact not_isUp_of_reloading hnode
      · rwa [hother j hji] at hj
  · intro o ho row' hrow' hchain
    rcases State.write_jobs_cases hrow' with ⟨heq, -⟩ | ⟨-, hold⟩
    · exact absurd heq (hobject o ho)
    · exact h.fits o ho row' hold hchain
  · exact fun o ho hnone => h.present o ho (State.write_jobs_none hnone)

/-! ### New rows -/

/-- **The invariant for the steps that insert a row**: pending, claimed by nobody. The new row
and the bookkeeping are such that the chain still has one heir. -/
theorem ChainInv.of_insert (h : ChainInv c s) {w : Row I}
    (hjobs : s'.jobs = (s.insert w).jobs) (hpending : w.statusId = .pending)
    (hfree : w.runByInstanceId = none)
    (hdates : w.chain s.nextId = c → w.finishDateTime = false ∧ w.cancelDateTime = false)
    (hheir : ∃! id, Heir s' c id)
    (hhanded : ∀ id ∈ s.handedOn, id ∈ s'.handedOn)
    (hfresh : s.nextId ∉ s'.handedOn ∧ (c, s.nextId) ∉ s'.reloaded)
    (hearly : ∀ id row, s.jobs id = some row → row.chain id = c → row.statusId ≠ .running →
      id ∈ s'.handedOn → id ∈ s.handedOn ∨ CopiedHead s' id)
    (honce : ∀ id, (c, id) ∈ s'.reloaded → (c, id) ∈ s.reloaded ∨ CopiedHead s' id)
    (hhead : ∀ id, CopiedHead s id → CopiedHead s' id)
    (hdown : ∀ i, ¬ (s'.node i).IsUp → ¬ (s.node i).IsUp)
    (hcopied : ∀ i id row L, s'.node i = .reloading ((id, row) :: L) true → row.chain id = c →
      row.recurring = true → id ∈ s'.handedOn)
    (hcopies : ∀ id, s'.reloaded.count (c, id) ≤ 1)
    (hobjects : ∀ o ∈ s'.objects, o.jobId ≠ s.nextId ∧
      (∀ row, s.jobs o.jobId = some row → row.chain o.jobId = c →
        o.phase.Fits row (o.jobId ∈ s'.handedOn)) ∧
      (s.jobs o.jobId = none → ∀ v, o.phase.value = some v → v.chain o.jobId ≠ c)) :
    ChainInv c s' := by
  have hrows : ∀ id row, s'.jobs id = some row →
      (id = s.nextId ∧ row = w) ∨ (id ≠ s.nextId ∧ s.jobs id = some row) := by
    intro id row hrow
    rw [hjobs] at hrow
    exact State.insert_jobs_cases hrow
  refine ⟨hheir, ?_, ?_, ?_, ?_, ?_, ?_, ?_, hcopied, hcopies⟩
  · intro id row hrow hchain hrun
    rcases hrows id row hrow with ⟨-, rfl⟩ | ⟨-, hold⟩
    · exact hpending
    · exact h.free id row hold hchain hrun
  · intro id row hrow hchain hlive
    rcases hrows id row hrow with ⟨rfl, rfl⟩ | ⟨-, hold⟩
    · exact hdates hchain
    · exact h.dates id row hold hchain hlive
  · intro id row hrow hchain hlive hstatus hmem
    rcases hrows id row hrow with ⟨rfl, rfl⟩ | ⟨-, hold⟩
    · exact absurd hmem hfresh.1
    · rcases hearly id row hold hchain hstatus hmem with hmem | hnew
      · exact hhead id (h.early id row hold hchain hlive hstatus hmem)
      · exact hnew
  · intro id row hrow hchain hlive hmem
    rcases hrows id row hrow with ⟨rfl, rfl⟩ | ⟨-, hold⟩
    · exact absurd hmem hfresh.2
    · rcases honce id hmem with hmem | hnew
      · exact hhead id (h.once id row hold hchain hlive hmem)
      · exact hnew
  · intro i hi id row hrow hchain hrun hlive hrec hnot
    rcases hrows id row hrow with ⟨-, rfl⟩ | ⟨-, hold⟩
    · exact absurd (hfree.symm.trans hrun) (Option.some_ne_none i).symm
    · exact h.down i (hdown i hi) id row hold hchain hrun hlive hrec
        fun hmem => hnot (hhanded id hmem)
  · intro o ho row hrow hchain
    obtain ⟨hne, hfit, -⟩ := hobjects o ho
    rcases hrows o.jobId row hrow with ⟨heq, -⟩ | ⟨-, hold⟩
    · exact absurd heq hne
    · exact hfit row hold hchain
  · intro o ho hnone
    obtain ⟨hne, -, hvalue⟩ := hobjects o ho
    rw [hjobs, State.insert_jobs_of_ne hne] at hnone
    exact hvalue hnone

theorem heir_insert (h : ∃! id, Heir s c id) (hinv : JobInv s) {w : Row I}
    (hjobs : s'.jobs = (s.insert w).jobs)
    (hrec : w.chain s.nextId = c → w.recurring = false)
    (hhanded : ∀ id row, s.jobs id = some row → row.chain id = c → row.recurring = true →
      (id ∈ s'.handedOn ↔ id ∈ s.handedOn)) : ∃! id, Heir s' c id := by
  refine heir_unique_congr h fun id => ?_
  constructor
  · rintro ⟨row, hrow, hchain, hlive, hrecurring, hnot⟩
    rw [hjobs] at hrow
    rcases State.insert_jobs_cases hrow with ⟨rfl, rfl⟩ | ⟨-, hold⟩
    · rw [hrec hchain] at hrecurring
      cases hrecurring
    · rw [hhanded id row hold hchain hrecurring] at hnot
      exact ⟨row, hold, hchain, hlive, hrecurring, hnot⟩
  · rintro ⟨row, hrow, hchain, hlive, hrecurring, hnot⟩
    have hne : id ≠ s.nextId := by
      rintro rfl
      rw [hinv.claims.bound _ (Nat.le_refl _)] at hrow
      cases hrow
    refine ⟨row, ?_, hchain, hlive, hrecurring, ?_⟩
    · rw [hjobs, State.insert_jobs_of_ne hne, hrow]
    · rwa [hhanded id row hrow hchain hrecurring]

/-- **The heir moves** to the row that it hands its schedule on to. -/
theorem heir_moves (h : ∃! id, Heir s c id) {id : JobId} (hid : Heir s c id) {w : Row I}
    (hjobs : s'.jobs = (s.insert w).jobs) (hhanded : s'.handedOn = id :: s.handedOn)
    (hchain : w.chain s.nextId = c) (hpending : w.statusId = .pending)
    (hrec : w.recurring = true) (hne : id ≠ s.nextId) (hfresh : s.nextId ∉ s.handedOn) :
    ∃! id, Heir s' c id := by
  refine ⟨s.nextId, ⟨w, ?_, hchain, Or.inl hpending, hrec, ?_⟩, ?_⟩
  · rw [hjobs, State.insert_jobs_self]
  · rw [hhanded]
    intro hmem
    rcases List.mem_cons.mp hmem with heq | hmem
    · exact hne heq.symm
    · exact hfresh hmem
  · rintro id' ⟨row, hrow, hchain', hlive, hrec', hnot⟩
    rw [hjobs] at hrow
    rw [hhanded] at hnot
    rcases State.insert_jobs_cases hrow with ⟨rfl, -⟩ | ⟨-, hold⟩
    · rfl
    · -- another heir would have been the heir before
      have hheir : Heir s c id' := ⟨row, hold, hchain', hlive, hrec', fun hmem =>
        hnot (List.mem_cons_of_mem _ hmem)⟩
      rw [h.unique hheir hid] at hnot
      exact absurd List.mem_cons_self hnot

theorem Bounds.fresh (hb : Bounds s) :
    s.nextId ∉ s.handedOn ∧ ∀ c, (c, s.nextId) ∉ s.reloaded :=
  ⟨fun hmem => Nat.lt_irrefl _ (hb.handedOn _ hmem),
    fun _ hmem => Nat.lt_irrefl _ (hb.reloaded _ hmem)⟩

theorem ChainInv.insert (h : ChainInv c s) (hinv : JobInv s) (hb : Bounds s) {w : Row I}
    (hpending : w.statusId = .pending) (hfree : w.runByInstanceId = none)
    (hdates : w.chain s.nextId = c → w.finishDateTime = false ∧ w.cancelDateTime = false)
    (hrec : w.chain s.nextId = c → w.recurring = false) : ChainInv c (s.insert w) := by
  refine h.of_insert rfl hpending hfree hdates
    (heir_insert h.heir hinv rfl hrec fun _ _ _ _ _ => Iff.rfl) (fun _ hmem => hmem)
    ⟨hb.fresh.1, hb.fresh.2 c⟩
    (fun _ _ _ _ _ hmem => Or.inl hmem) (fun _ hmem => Or.inl hmem) (fun _ hhead => hhead)
    (fun _ hdown => hdown) h.copied h.copies fun o ho => ?_
  exact ⟨hinv.claims.ne_nextId ho, h.fits o ho, h.present o ho⟩

/-- **`createRecurrence`** moves the heir of the chain to the next row. -/
theorem ChainInv.createRecurrence (h : ChainInv c s) (hinv : JobInv s) (hb : Bounds s)
    {o : JobObject I} {v : Row I} (ho : o ∈ s.objects) (hp : o.phase = .running v)
    (hrec : v.recurring = true) :
    ChainInv c { (s.insert (v.next o.jobId)).replace o (.ready v true) with
      handedOn := o.jobId :: s.handedOn } := by
  have hne : o.jobId ≠ s.nextId := hinv.claims.ne_nextId ho
  have hmatch : ∀ row, s.jobs o.jobId = some row → v = row := fun row hrow => by
    have hmatch := (hinv.claims.owned o ho row hrow).2
    rwa [hp] at hmatch
  have hfit : ∀ row, s.jobs o.jobId = some row → row.chain o.jobId = c →
      row.statusId = .running ∧ o.jobId ∉ s.handedOn := fun row hrow hchain => by
    have hfit := h.fits o ho row hrow hchain
    rwa [hp] at hfit
  have hnone : s.jobs o.jobId = none → v.chain o.jobId ≠ c := fun hnone =>
    h.present o ho hnone v (by rw [hp]; rfl)
  -- the job is still running, so that its chain has not ended
  have hdates : v.chain o.jobId = c → v.finishDateTime = false ∧ v.cancelDateTime = false := by
    intro hchain
    cases hrow : s.jobs o.jobId with
    | none => exact absurd hchain (hnone hrow)
    | some row =>
      obtain rfl := hmatch row hrow
      exact h.dates o.jobId v hrow hchain (Or.inr (Or.inr (hfit v hrow hchain).1))
  refine h.of_insert (w := v.next o.jobId) rfl rfl rfl hdates ?_
    (fun id hmem => List.mem_cons_of_mem _ hmem) ⟨?_, hb.fresh.2 c⟩ ?_
    (fun id hmem => Or.inl hmem) (fun id hhead => hhead) (fun i hdown => hdown) ?_ h.copies ?_
  · -- the job was the heir, and its next row is now; the heir of another chain stays
    by_cases hchain : v.chain o.jobId = c
    · cases hrow : s.jobs o.jobId with
      | none => exact absurd hchain (hnone hrow)
      | some row =>
        obtain rfl := hmatch row hrow
        obtain ⟨hrunning, hnot⟩ := hfit v hrow hchain
        have hheir : Heir s c o.jobId := ⟨v, hrow, hchain, Or.inr (Or.inr hrunning), hrec, hnot⟩
        exact heir_moves h.heir hheir rfl rfl hchain rfl hrec hne hb.fresh.1
    · refine heir_insert h.heir hinv rfl (fun heq => absurd heq hchain) ?_
      intro id row hrow hchain' _
      have hid : id ≠ o.jobId := by
        rintro rfl
        obtain rfl := hmatch row hrow
        exact hchain hchain'
      exact List.mem_cons.trans (or_iff_right hid)
  · intro hmem
    rcases List.mem_cons.mp hmem with heq | hmem
    · exact hne heq.symm
    · exact hb.fresh.1 hmem
  · intro id row hrow hchain hstatus hmem
    rcases List.mem_cons.mp hmem with rfl | hmem
    · exact absurd (hfit row hrow hchain).1 hstatus
    · exact Or.inl hmem
  · intro i id row L hnode hchain hrec'
    exact List.mem_cons_of_mem _ (h.copied i id row L hnode hchain hrec')
  · intro o' ho'
    rcases List.mem_cons.mp ho' with rfl | hmem
    · refine ⟨hne, fun row hrow hchain => ?_, fun hnone' w hw => ?_⟩
      · exact ⟨(hfit row hrow hchain).1, fun _ => ⟨List.mem_cons_self, rfl⟩⟩
      · obtain rfl := Option.some.inj hw
        exact hnone hnone'
    · -- no other object has this job
      obtain ⟨hold, hid⟩ := hinv.claims.ne_of_mem_erase ho hmem
      refine ⟨hinv.claims.ne_nextId hold, fun row hrow hchain => ?_, h.present o' hold⟩
      have hiff : o'.jobId ∈ o.jobId :: s.handedOn ↔ o'.jobId ∈ s.handedOn :=
        List.mem_cons.trans (or_iff_right hid)
      show o'.phase.Fits row (o'.jobId ∈ o.jobId :: s.handedOn)
      rw [hiff]
      exact h.fits o' hold row hrow hchain

theorem ChainInv.noRecurrence (h : ChainInv c s) (hinv : JobInv s) {o : JobObject I} {v : Row I}
    (ho : o ∈ s.objects) (hp : o.phase = .running v)
    (hend : v.recurring = true → v.chain o.jobId ≠ c) :
    ChainInv c (s.replace o (.ready v false)) := by
  refine h.replace (fun row hrow hchain => ?_) fun hnone w hw => ?_
  · have hfit := h.fits o ho row hrow hchain
    have hmatch := (hinv.claims.owned o ho row hrow).2
    rw [hp] at hfit hmatch
    obtain rfl : v = row := hmatch
    exact ⟨hfit.1, fun hrec => absurd hchain (hend hrec)⟩
  · obtain rfl := Option.some.inj hw
    exact h.present o ho hnone v (by rw [hp]; rfl)

theorem ChainInv.failed (h : ChainInv c s) (hinv : JobInv s) (hb : Bounds s) {o : JobObject I}
    {v : Row I} {recurred retry : Bool} (ho : o ∈ s.objects) (hp : o.phase = .ran v recurred) :
    ChainInv c ((if retry ∧ recurred = false then s.insert (v.next o.jobId) else s).replace o
      (.finishing { v with statusId := .failed, finishDateTime := true })) := by
  have hmatch : ∀ row, s.jobs o.jobId = some row → v = row := fun row hrow => by
    have hmatch := (hinv.claims.owned o ho row hrow).2
    rwa [hp] at hmatch
  have hfit : ∀ row, s.jobs o.jobId = some row → row.chain o.jobId = c →
      row.statusId = .running ∧
        (row.recurring = true → o.jobId ∈ s.handedOn ∧ recurred = true) :=
    fun row hrow hchain => by
      have hfit := h.fits o ho row hrow hchain
      rwa [hp] at hfit
  have hnone : s.jobs o.jobId = none → v.chain o.jobId ≠ c := fun hnone =>
    h.present o ho hnone v (by rw [hp]; rfl)
  -- the job object goes on in any state that has the same row and has handed on the same
  have hany : ∀ t : State I, ChainInv c t → t.jobs o.jobId = s.jobs o.jobId →
      t.handedOn = s.handedOn →
      ChainInv c (t.replace o
        (.finishing { v with statusId := .failed, finishDateTime := true })) := by
    intro t ht hjobs hhanded
    refine ht.replace (fun row hrow hchain => ?_) fun hnone' w hw => ?_
    · obtain ⟨hrunning, hdone⟩ := hfit row (hjobs ▸ hrow) hchain
      exact ⟨hrunning, fun hrec => hhanded ▸ (hdone hrec).1⟩
    · obtain rfl := Option.some.inj hw
      exact hnone (hjobs ▸ hnone')
  split_ifs with hretry
  · have hlook : v.chain o.jobId = c → ∃ row, s.jobs o.jobId = some row ∧ v = row := by
      intro hchain
      cases hrow : s.jobs o.jobId with
      | none => exact absurd hchain (hnone hrow)
      | some row => exact ⟨row, rfl, hmatch row hrow⟩
    refine hany _ (h.insert hinv hb rfl rfl ?_ ?_)
      (State.insert_jobs_of_ne (hinv.claims.ne_nextId ho)) rfl
    · intro hchain
      obtain ⟨row, hrow, rfl⟩ := hlook hchain
      exact h.dates o.jobId v hrow hchain (Or.inr (Or.inr (hfit v hrow hchain).1))
    · intro hchain
      obtain ⟨row, hrow, rfl⟩ := hlook hchain
      show v.recurring = false
      by_contra hrec
      have htrue := ((hfit v hrow hchain).2 (eq_true_of_ne_false hrec)).2
      rw [hretry.2] at htrue
      cases htrue
  · exact hany _ h rfl rfl

/-- **The copy of a reload** moves the heir if the copied row is queued; otherwise the row has
handed its schedule on before, and the copy runs once. -/
theorem ChainInv.reloadCopy (h : ChainInv c s) (hinv : JobInv s) (hb : Bounds s) {i : I}
    {id : JobId} {row : Row I} {rest : List (JobId × Row I)}
    (hnode : s.node i = .reloading ((id, row) :: rest) false) :
    ChainInv c { (s.insert (row.reloaded id)).setNode i (.reloading ((id, row) :: rest) true) with
      handedOn := if row.statusId = .queued then id :: s.handedOn else s.handedOn
      reloaded := (row.chain id, id) :: s.reloaded } := by
  obtain ⟨hrow, hrun, hlive⟩ := hinv.reloads.current i _ _ hnode _ List.mem_cons_self
  have hobject := hinv.ne_of_reloading hnode List.mem_cons_self
  have hne : id ≠ s.nextId := by
    rintro rfl
    rw [hinv.claims.bound _ (Nat.le_refl _)] at hrow
    cases hrow
  have hdown : ¬ (s.node i).IsUp := not_isUp_of_reloading hnode
  -- no other instance has this row at the head of its reload, and this one has not copied it
  have hnotHead : ¬ CopiedHead s id := by
    rintro ⟨j, row', L, hj⟩
    obtain ⟨hrow', hrun', -⟩ := hinv.reloads.current j _ _ hj _ List.mem_cons_self
    obtain rfl : row = row' := Option.some.inj (hrow.symm.trans hrow')
    obtain rfl : i = j := Option.some.inj (hrun.symm.trans hrun')
    cases hnode.symm.trans hj
  set s' : State I :=
    { (s.insert (row.reloaded id)).setNode i (.reloading ((id, row) :: rest) true) with
      handedOn := if row.statusId = .queued then id :: s.handedOn else s.handedOn
      reloaded := (row.chain id, id) :: s.reloaded } with hs'
  have hself : s'.node i = .reloading ((id, row) :: rest) true := by
    simp [hs', State.setNode]
  have hother : ∀ j, j ≠ i → s'.node j = s.node j := fun j hj => by
    simp [hs', State.setNode, State.insert, hj]
  have hhead : CopiedHead s' id := ⟨i, row, rest, hself⟩
  have hsub : ∀ id' ∈ s.handedOn, id' ∈ s'.handedOn := by
    intro id' hmem
    show id' ∈ if row.statusId = .queued then id :: s.handedOn else s.handedOn
    split_ifs
    · exact List.mem_cons_of_mem _ hmem
    · exact hmem
  have hhanded : ∀ id' ∈ s'.handedOn,
      id' ∈ s.handedOn ∨ (id' = id ∧ row.statusId = .queued) := by
    intro id' hmem
    have hmem' : id' ∈ if row.statusId = .queued then id :: s.handedOn else s.handedOn := hmem
    split_ifs at hmem' with hqueued
    · rcases List.mem_cons.mp hmem' with rfl | hmem'
      · exact Or.inr ⟨rfl, hqueued⟩
      · exact Or.inl hmem'
    · exact Or.inl hmem'
  have hiff : ∀ id', id' ≠ id → (id' ∈ s'.handedOn ↔ id' ∈ s.handedOn) := by
    refine fun id' hid => ⟨fun hmem => ?_, hsub id'⟩
    rcases hhanded id' hmem with hmem | ⟨heq, -⟩
    · exact hmem
    · exact absurd heq hid
  have hjobs : s'.jobs = (s.insert (row.reloaded id)).jobs := rfl
  refine h.of_insert hjobs rfl rfl
    (fun hchain => h.dates id row hrow hchain hlive) ?_ hsub ⟨?_, ?_⟩ ?_ ?_ ?_ ?_ ?_ ?_ ?_
  · by_cases hmoves : row.chain id = c ∧ row.statusId = .queued ∧ row.recurring = true
    · obtain ⟨hchain, hqueued, hrec⟩ := hmoves
      have hnot : id ∉ s.handedOn := fun hmem =>
        hnotHead (h.early id row hrow hchain hlive (by rw [hqueued]; decide) hmem)
      have hrec' : (row.reloaded id).recurring = true := by
        simp [Row.reloaded, hrec, hqueued]
      refine heir_moves h.heir ⟨row, hrow, hchain, hlive, hrec, hnot⟩ rfl ?_ hchain rfl hrec' hne
        hb.fresh.1
      exact if_pos hqueued
    · refine heir_insert h.heir hinv rfl (fun hchain => ?_) fun id' row' hrow' hchain hrec => ?_
      · have hcases : row.recurring = false ∨ row.statusId ≠ .queued := by
          by_contra hnot
          push Not at hnot
          exact hmoves ⟨hchain, hnot.2, eq_true_of_ne_false hnot.1⟩
        rcases hcases with hrec | hqueued
        · simp [Row.reloaded, hrec]
        · simp [Row.reloaded, hqueued]
      · by_cases hid : id' = id
        · subst hid
          obtain rfl : row = row' := Option.some.inj (hrow.symm.trans hrow')
          refine ⟨fun hmem => ?_, hsub id'⟩
          rcases hhanded id' hmem with hmem | ⟨-, hqueued⟩
          · exact hmem
          · exact absurd ⟨hchain, hqueued, hrec⟩ hmoves
        · exact hiff id' hid
  · exact fun hmem => hb.fresh.1 ((hiff _ (Ne.symm hne)).mp hmem)
  · intro hmem
    rcases List.mem_cons.mp hmem with heq | hmem
    · exact hne (Prod.mk.inj heq).2.symm
    · exact hb.fresh.2 c hmem
  · intro id' row' _ _ _ hmem
    rcases hhanded id' hmem with hmem | ⟨rfl, -⟩
    · exact Or.inl hmem
    · exact Or.inr hhead
  · intro id' hmem
    rcases List.mem_cons.mp hmem with heq | hmem
    · obtain ⟨-, rfl⟩ := Prod.mk.inj heq
      exact Or.inr hhead
    · exact Or.inl hmem
  · rintro id' ⟨j, row', L, hj⟩
    have hji : j ≠ i := by
      rintro rfl
      cases hnode.symm.trans hj
    exact ⟨j, row', L, (hother j hji).trans hj⟩
  · intro j hj
    by_cases hji : j = i
    · subst hji
      exact hdown
    · rwa [hother j hji] at hj
  · intro j id' row' L hj hchain hrec
    by_cases hji : j = i
    · subst hji
      obtain ⟨hL, -⟩ := Node.reloading.inj (hself.symm.trans hj)
      obtain ⟨hp, -⟩ := List.cons.inj hL
      obtain ⟨rfl, rfl⟩ := Prod.mk.inj hp
      -- a row that is not queued had handed its schedule on when the instance stopped
      by_contra hnot
      have hqueued := h.down j hdown id row hrow hchain hrun hlive hrec fun hmem =>
        hnot (hsub id hmem)
      have hmem : id ∈ s'.handedOn := by
        show id ∈ if row.statusId = .queued then id :: s.handedOn else s.handedOn
        rw [if_pos hqueued]
        exact List.mem_cons_self
      exact hnot hmem
    · exact hsub id' (h.copied j id' row' L (hother j hji ▸ hj) hchain hrec)
  · intro id'
    show ((row.chain id, id) :: s.reloaded).count (c, id') ≤ 1
    by_cases heq : (row.chain id, id) = (c, id')
    · obtain ⟨hchain, rfl⟩ := Prod.mk.inj heq
      have hnot : (c, id) ∉ s.reloaded := fun hmem =>
        hnotHead (h.once id row hrow hchain hlive hmem)
      have hcount : ((row.chain id, id) :: s.reloaded).count (c, id) = 1 := by
        rw [hchain, List.count_cons_self, List.count_eq_zero_of_not_mem hnot]
      exact Nat.le_of_eq hcount
    · rw [List.count_cons_of_ne heq]
      exact h.copies id'
  · intro o ho
    have hid : o.jobId ≠ id := hobject o ho
    refine ⟨hinv.claims.ne_nextId ho, fun row' hrow' hchain => ?_, h.present o ho⟩
    rw [hiff o.jobId hid]
    exact h.fits o ho row' hrow' hchain

/-! ### Crashes -/

/-- **An instance stops at a safe point** of the chain: each row of the chain that it has
claimed, that is live, and that has the schedule still to hand on, is queued; and it is not in
the middle of the reload of a row of the chain. -/
structure SafeCrash (c : JobId) (s : State I) (i : I) : Prop where
  queued : ∀ id row, s.jobs id = some row → row.chain id = c → row.runByInstanceId = some i →
    id ∉ s.openClaims i → row.IsLive → row.recurring = true → id ∉ s.handedOn →
    row.statusId = .queued
  marked : ∀ id row L, s.node i = .reloading ((id, row) :: L) true → row.chain id ≠ c

theorem ChainInv.crash (h : ChainInv c s) (hinv : JobInv s) {i : I} (hsafe : SafeCrash c s i) :
    ChainInv c (s.crash i) := by
  obtain ⟨hrows, hto⟩ := h.kept_rollback i
  have hself : (s.crash i).node i = .down := by simp [State.crash, State.setNode]
  have hother : ∀ j, j ≠ i → (s.crash i).node j = s.node j := fun j hj => by
    simp [State.crash, State.setNode, State.rollback, hj]
  have hobjects : ∀ o ∈ (s.crash i).objects, o ∈ (s.rollback i).objects := fun o ho =>
    (List.mem_filter.mp ho).1
  refine h.of_kept ?_ hto rfl rfl ?_ ?_ ?_ (fun o ho => (h.fits_rollback (hobjects o ho)).1)
    fun o ho => (h.fits_rollback (hobjects o ho)).2
  · intro id row' hrow' hchain
    obtain ⟨row, hrow, hkept, -⟩ := hrows id row' hrow' hchain
    exact ⟨row, hrow, hkept⟩
  · rintro id row' hrow' hchain - ⟨j, row₀, L, hj⟩
    have hji : j ≠ i := by
      rintro rfl
      obtain ⟨row, hrow, hkept, -⟩ := hrows id row' hrow' hchain
      obtain ⟨hrow₀, -⟩ := hinv.reloads.current j _ _ hj _ List.mem_cons_self
      obtain rfl : row = row₀ := Option.some.inj (hrow.symm.trans hrow₀)
      exact hsafe.marked id row L hj (hkept.chain.symm.trans hchain)
    exact ⟨j, row₀, L, (hother j hji).trans hj⟩
  · intro j id row L hj
    by_cases hji : j = i
    · subst hji
      cases hself.symm.trans hj
    · rwa [hother j hji] at hj
  · intro j hj id row' hrow' hchain hrun hlive hrec hnot
    have hclaimed : id ∉ s.openClaims i ∧ s.jobs id = some row' := by
      rcases State.rollback_jobs_cases hrow' with ⟨-, row, -, rfl⟩ | hsame
      · cases hrun
      · exact hsame
    by_cases hji : j = i
    · subst hji
      exact hsafe.queued id row' hclaimed.2 hchain hrun hclaimed.1 hlive hrec hnot
    · exact h.down j (hother j hji ▸ hj) id row' hclaimed.2 hchain hrun hlive hrec hnot

/-! ### Runs -/

theorem Bounds.of_le (hb : Bounds s) (hnext : s.nextId ≤ s'.nextId)
    (hhanded : ∀ id ∈ s'.handedOn, id ∈ s.handedOn ∨ id < s.nextId)
    (hreloaded : ∀ p ∈ s'.reloaded, p ∈ s.reloaded ∨ p.2 < s.nextId) : Bounds s' := by
  refine ⟨fun id hmem => ?_, fun p hmem => ?_⟩
  · rcases hhanded id hmem with hold | hlt
    · exact Nat.lt_of_lt_of_le (hb.handedOn id hold) hnext
    · exact Nat.lt_of_lt_of_le hlt hnext
  · rcases hreloaded p hmem with hold | hlt
    · exact Nat.lt_of_lt_of_le (hb.reloaded p hold) hnext
    · exact Nat.lt_of_lt_of_le hlt hnext

theorem Bounds.congr (hb : Bounds s) (hnext : s'.nextId = s.nextId)
    (hhanded : s'.handedOn = s.handedOn) (hreloaded : s'.reloaded = s.reloaded) : Bounds s' :=
  hb.of_le (Nat.le_of_eq hnext.symm) (fun _ hmem => Or.inl (hhanded ▸ hmem))
    fun _ hmem => Or.inl (hreloaded ▸ hmem)

theorem Bounds.insert (hb : Bounds s) (w : Row I) : Bounds (s.insert w) :=
  hb.of_le (Nat.le_succ _) (fun _ hmem => Or.inl hmem) fun _ hmem => Or.inl hmem

theorem Bounds.step (hb : Bounds s) (hinv : JobInv s) {e : Event I} (hstep : Step s e s') :
    Bounds s' := by
  cases hstep with
  | schedule recurring => exact hb.insert _
  | @reloadCopy i id row rest hnode =>
    have hlt : id < s.nextId := by
      by_contra hge
      have hrow := (hinv.reloads.current i _ _ hnode _ List.mem_cons_self).1
      rw [hinv.claims.bound id (Nat.not_lt.mp hge)] at hrow
      cases hrow
    refine hb.of_le (Nat.le_succ _) (fun id' hmem => ?_) fun p hmem => ?_
    · simp only at hmem
      split_ifs at hmem
      · rcases List.mem_cons.mp hmem with rfl | hmem
        · exact Or.inr hlt
        · exact Or.inl hmem
      · exact Or.inl hmem
    · rcases List.mem_cons.mp hmem with rfl | hmem
      · exact Or.inr hlt
      · exact Or.inl hmem
  | claim hnode =>
    unfold State.claim
    split
    · split_ifs <;> exact hb.congr rfl rfl rfl
    · exact hb.congr rfl rfl rfl
  | @createRecurrence o v ho hp _ =>
    refine hb.of_le (Nat.le_succ _) (fun id hmem => ?_) fun _ hmem => Or.inl hmem
    rcases List.mem_cons.mp hmem with rfl | hmem
    · exact Or.inr (hinv.claims.bound_objects o ho)
    · exact Or.inl hmem
  | @failed o v recurred retry ho hp =>
    split_ifs
    · exact (hb.insert (v.next o.jobId)).congr rfl rfl rfl
    · exact hb.congr rfl rfl rfl
  | _ => exact hb.congr rfl rfl rfl

theorem nextId_le_of_step {e : Event I} (hstep : Step s e s') : s.nextId ≤ s'.nextId := by
  cases hstep with
  | schedule _ | reloadCopy _ | createRecurrence _ _ _ => exact Nat.le_succ _
  | claim hnode =>
    unfold State.claim
    split
    · split_ifs <;> exact Nat.le_refl _
    · exact Nat.le_refl _
  | failed ho hp =>
    split_ifs
    · exact Nat.le_succ _
    · exact Nat.le_refl _
  | _ => exact Nat.le_refl _

theorem ended_of_step {e : Event I} (hstep : Step s e s') (h : c ∈ s.ended) : c ∈ s'.ended := by
  cases hstep with
  | claim hnode =>
    unfold State.claim
    split
    · split_ifs <;> exact h
    · exact h
  | noRecurrence ho hp =>
    simp only
    split_ifs
    · exact List.mem_cons_of_mem _ h
    · exact h
  | failed ho hp => split_ifs <;> exact h
  | _ => exact h

/-- **Every step keeps the invariant of a chain** whose schedule has not ended, a crash at a
safe point. -/
theorem ChainInv.step (h : ChainInv c s) (hinv : JobInv s) (hb : Bounds s) (hlt : c < s.nextId)
    {e : Event I} (hstep : Step s e s') (hsafe : ∀ i, e = .crash i → SafeCrash c s i)
    (hend : c ∉ s'.ended) :
    ChainInv c s' := by
  cases hstep with
  | schedule recurring =>
    have hother : (Row.scheduled recurring : Row I).chain s.nextId ≠ c := Nat.ne_of_gt hlt
    exact h.insert hinv hb rfl rfl (fun hchain => absurd hchain hother)
      fun hchain => absurd hchain hother
  | purge _ hrow _ hdone => exact h.purge hinv hrow hdone
  | start hnode _ =>
    refine h.setNode (by rw [hnode]; exact fun hup => hup) (fun _ _ _ heq => ?_) fun _ _ _ heq => ?_
    · cases hnode.symm.trans heq
    · cases heq
  | reloadCopy hnode => exact h.reloadCopy hinv hb hnode
  | reloadMark hnode => exact h.reloadMark hinv hnode
  | reloadDone hnode =>
    refine h.setNode (not_isUp_of_reloading hnode) (fun _ _ _ heq => ?_) fun _ _ _ heq => ?_
    · cases hnode.symm.trans heq
    · cases heq
  | pollBegin hnode _ _ => exact h.congr (NodesFrom.setNode rfl (isUp_of_eq hnode)) rfl rfl rfl rfl
  | claim hnode => exact h.claim (isUp_of_eq hnode)
  | pollCommit hnode => exact h.commit (isUp_of_eq hnode)
  | pollRollback hnode => exact h.rollback (isUp_of_eq hnode)
  | @refresh o row p ho hrow hp =>
    refine h.replace (fun row' hrow' hchain => ?_) fun hnone => ?_
    · exact fits_of_refreshed hp (h.fits o ho row' hrow' hchain)
    · rw [hnone] at hrow
      cases hrow
  | refreshFails ho _ _ => exact h.discard _
  | store ho hp => exact h.store hinv ho hp
  | storeLast ho hp => exact h.storeLast hinv ho hp
  | @move o p ho hp =>
    refine h.replace (fun row hrow hchain => ?_) fun hnone w hw => ?_
    · exact fits_of_moves hp (h.fits o ho row hrow hchain)
    · obtain ⟨v, hv, hchain⟩ := chain_of_moves hp hw
      rw [hchain]
      exact h.present o ho hnone v hv
  | createRecurrence ho hp hrec => exact h.createRecurrence hinv hb ho hp hrec
  | @noRecurrence o v ho hp =>
    have hreplace := h.noRecurrence hinv ho hp fun hrec hchain => by
      simp only [hrec, if_true] at hend
      exact hend (hchain ▸ List.mem_cons_self)
    exact hreplace.congr (NodesFrom.of_eq rfl) rfl rfl rfl rfl
  | @run o v recurred ho hp =>
    have hreplace : ChainInv c (s.replace o (.ran v recurred)) := by
      refine h.replace (fun row hrow hchain => ?_) fun hnone w hw => ?_
      · have hfit := h.fits o ho row hrow hchain
        rw [hp] at hfit
        exact hfit
      · exact h.present o ho hnone w (by rw [hp]; exact hw)
    exact hreplace.congr (NodesFrom.of_eq rfl) rfl rfl rfl rfl
  | failed ho hp => exact h.failed hinv hb ho hp
  | abandon ho _ => exact h.discard _
  | crash => exact h.crash hinv (hsafe _ rfl)

/-- The start of a chain: a recurring job has been scheduled, and nothing but its row refers
to it. -/
structure ChainStart (c : JobId) (s : State I) : Prop where
  row : s.jobs c = some (.scheduled true)
  only : ∀ id row, s.jobs id = some row → row.chain id = c → id = c
  objects : ∀ o ∈ s.objects, ∀ v, o.phase.value = some v → v.chain o.jobId ≠ c
  handedOn : c ∉ s.handedOn
  reloaded : ∀ id, (c, id) ∉ s.reloaded

theorem ChainInv.of_start (h : ChainStart c s) (hinv : JobInv s) : ChainInv c s := by
  have hrow : ∀ id row, s.jobs id = some row → row.chain id = c →
      id = c ∧ row = .scheduled true := by
    intro id row hjob hchain
    obtain rfl := h.only id row hjob hchain
    exact ⟨rfl, Option.some.inj (hjob.symm.trans h.row)⟩
  have hnoReload : ∀ i id row L copied, s.node i = .reloading ((id, row) :: L) copied →
      row.chain id ≠ c := by
    intro i id row L copied hnode hchain
    obtain ⟨hjob, hrun, -⟩ := hinv.reloads.current i _ _ hnode _ List.mem_cons_self
    obtain ⟨-, rfl⟩ := hrow id row hjob hchain
    cases hrun
  refine ⟨⟨c, ⟨_, h.row, rfl, Or.inl rfl, rfl, h.handedOn⟩, ?_⟩, ?_, ?_, ?_, ?_, ?_, ?_, ?_, ?_, ?_⟩
  · rintro id ⟨row, hjob, hchain, -⟩
    exact (hrow id row hjob hchain).1
  · intro id row hjob hchain _
    obtain ⟨-, rfl⟩ := hrow id row hjob hchain
    rfl
  · intro id row hjob hchain _
    obtain ⟨-, rfl⟩ := hrow id row hjob hchain
    exact ⟨rfl, rfl⟩
  · intro id row hjob hchain _ _ hmem
    obtain ⟨rfl, -⟩ := hrow id row hjob hchain
    exact absurd hmem h.handedOn
  · intro id row _ _ _ hmem
    exact absurd hmem (h.reloaded id)
  · intro i _ id row hjob hchain hrun
    obtain ⟨-, rfl⟩ := hrow id row hjob hchain
    cases hrun
  · intro o ho row hjob hchain
    obtain ⟨-, rfl⟩ := hrow o.jobId row hjob hchain
    have howned := (hinv.claims.owned o ho _ hjob).1
    cases howned
  · intro o ho _ v hv
    exact h.objects o ho v hv
  · intro i id row L hnode hchain
    exact absurd hchain (hnoReload i id row L true hnode)
  · intro id
    rw [List.count_eq_zero_of_not_mem (h.reloaded id)]
    exact Nat.zero_le 1

theorem Bounds.of_init (h : s.Init) : Bounds s := by
  refine ⟨?_, ?_⟩
  · rw [h.handedOn]
    exact fun id hmem => by cases hmem
  · rw [h.reloaded]
    exact fun p hmem => by cases hmem

/-- **The runs of a chain**: from a reachable state in which its first job has been scheduled,
by steps whose crashes all come at points of a kind. -/
def chainRuns (I : Type) [DecidableEq I] (c : JobId) (ok : State I → I → Prop) :
    System (State I) (Event I) where
  init s := (jobSystem I).Reachable s ∧ ChainStart c s
  step s e s' := Step s e s' ∧ ∀ i, e = .crash i → ok s i

theorem Bounds.of_reachable (h : (jobSystem I).Reachable s) : Bounds s := by
  have hboth : JobInv s ∧ Bounds s := by
    refine h.invariant (P := fun s => JobInv s ∧ Bounds s) ?_ ?_
    · exact fun s hinit => ⟨JobInv.of_init hinit, Bounds.of_init hinit⟩
    · exact fun s e s' _ hboth hstep => ⟨hboth.1.step hstep, hboth.2.step hboth.1 hstep⟩
  exact hboth.2

theorem reachable_of_chainRuns {ok : State I → I → Prop}
    (h : (chainRuns I c ok).Reachable s) : (jobSystem I).Reachable s := by
  refine h.invariant (P := (jobSystem I).Reachable) ?_ ?_
  · exact fun s hinit => hinit.1
  · exact fun s e s' _ hreach hstep => hreach.tail hstep.1

theorem ChainInv.of_chainRuns (h : (chainRuns I c (SafeCrash c)).Reachable s) :
    c < s.nextId ∧ (c ∉ s.ended → ChainInv c s) := by
  refine h.invariant (P := fun s => c < s.nextId ∧ (c ∉ s.ended → ChainInv c s)) ?_ ?_
  · rintro s ⟨hreach, hstart⟩
    have hinv : JobInv s := JobInv.of_reachable hreach
    refine ⟨?_, fun _ => ChainInv.of_start hstart hinv⟩
    by_contra hge
    have hnone := hinv.claims.bound c (Nat.not_lt.mp hge)
    rw [hstart.row] at hnone
    cases hnone
  · rintro s e s' hrun ⟨hlt, hchain⟩ ⟨hstep, hsafe⟩
    have hreach := reachable_of_chainRuns hrun
    refine ⟨Nat.lt_of_lt_of_le hlt (nextId_le_of_step hstep), fun hend => ?_⟩
    have hbefore : c ∉ s.ended := fun hmem => hend (ended_of_step hstep hmem)
    exact (hchain hbefore).step (JobInv.of_reachable hreach) (Bounds.of_reachable hreach) hlt hstep
      hsafe hend

/-- **The recurrence is neither lost nor duplicated**: in every run of a chain whose crashes
come at safe points, as long as the schedule has not come to its end, the chain has exactly one
heir and no row of it has been copied twice; and an instance that has done its reload finds no
crashed job any more. -/
theorem recurrence_of_safeCrash (h : (chainRuns I c (SafeCrash c)).Reachable s) :
    (c ∉ s.ended → (∃! id, Heir s c id) ∧ ∀ id, s.reloaded.count (c, id) ≤ 1) ∧
    ∀ i, s.node i = .reloading [] false → s.crashedJobs i = [] := by
  have hinv : JobInv s := JobInv.of_reachable (reachable_of_chainRuns h)
  have hchain := (ChainInv.of_chainRuns h).2
  refine ⟨fun hend => ⟨(hchain hend).heir, (hchain hend).copies⟩, fun i hnode => ?_⟩
  refine List.eq_nil_iff_forall_not_mem.mpr fun p hp => ?_
  obtain ⟨hrow, hrun, hlive⟩ := hinv.mem_crashedJobs.mp hp
  have hmem := hinv.reloads.complete i [] false hnode p.1 p.2 hrow hrun hlive
  cases hmem

/-! ### A nightly job -/

def nightly : State Unit where
  jobs id := if id = 0 then some (.scheduled true) else none
  nextId := 1
  node _ := .down
  objects := []
  log := []
  handedOn := []
  reloaded := []
  ended := []

def nightlyRow (statusId : Status) (startDateTime : Bool) : Row Unit where
  statusId := statusId
  runByInstanceId := some ()
  startDateTime := startDateTime
  cancelDateTime := false
  finishDateTime := false
  recurring := true
  parentJobId := none
  previousJobId := none

def nightlyQueued : State Unit :=
  let started := (nightly.setNode () (.reloading [] false)).setNode () (.up [])
  let claimed := ((started.setNode () (.up [0])).claim () 0).setNode () (.up [])
  let created := (claimed.commit ()).setNode () (.up [])
  let queueing := created.replace ⟨(), 0, .created⟩ (.queueing (nightlyRow .queued false))
  (queueing.write 0 (nightlyRow .queued false)).replace
    ⟨(), 0, .queueing (nightlyRow .queued false)⟩ .queued

variable {ok : State Unit → Unit → Prop}

theorem reachable_nightlyQueued (ok : State Unit → Unit → Prop) :
    (chainRuns Unit 0 ok).Reachable nightlyQueued := by
  have hinit : nightly.Init := by
    refine ⟨fun _ => rfl, rfl, rfl, rfl, rfl, rfl, fun id hid => ?_⟩
    have hne : id ≠ 0 := Nat.ne_of_gt hid
    simp [nightly, hne]
  have hstart : ChainStart 0 nightly := by
    refine ⟨rfl, fun id row hrow _ => ?_, ?_, List.not_mem_nil, fun _ => List.not_mem_nil⟩
    · by_contra hne
      have hnone : nightly.jobs id = none := if_neg hne
      rw [hnone] at hrow
      cases hrow
    · exact fun o ho => by cases ho
  have h₀ : (chainRuns Unit 0 ok).Reachable nightly :=
    System.Reachable.init ⟨System.Reachable.init hinit, hstart⟩
  have hopen : Step nightly (.start () []) _ := Step.start rfl (by decide)
  have h₁ := h₀.tail ⟨hopen, fun _ h => by cases h⟩
  have h₂ := h₁.tail ⟨Step.reloadDone (i := ()) rfl, fun _ h => by cases h⟩
  have hdue : ∀ id ∈ [0], ∃ row, nightly.jobs id = some row ∧ row.IsDue := by
    intro id hid
    rw [List.mem_singleton.mp hid]
    exact ⟨.scheduled true, rfl, rfl, rfl, rfl⟩
  have hpoll : Step ((nightly.setNode () (.reloading [] false)).setNode () (.up []))
      (.pollBegin () [0]) _ := Step.pollBegin rfl (by decide) hdue
  have h₃ := h₂.tail ⟨hpoll, fun _ h => by cases h⟩
  have h₄ := h₃.tail ⟨Step.claim (i := ()) rfl, fun _ h => by cases h⟩
  have h₅ := h₄.tail ⟨Step.pollCommit (i := ()) rfl, fun _ h => by cases h⟩
  have h₆ := h₅.tail ⟨Step.refresh (o := ⟨(), 0, .created⟩) List.mem_cons_self rfl rfl,
    fun _ h => by cases h⟩
  have h₇ := h₆.tail ⟨Step.store List.mem_cons_self rfl, fun _ h => by cases h⟩
  exact h₇

/-- The instance stops while the job is queued, and copies it after the next start: the copy is
the one heir of the chain. -/
theorem recurrence_of_safeCrash_nightly :
    ∃ s : State Unit, s.reloaded = [(0, 0)] ∧ ∃! id, Heir s 0 id := by
  have hsafe : SafeCrash 0 nightlyQueued () := by
    refine ⟨fun id row hrow _ _ _ _ _ _ => ?_, fun id row L hnode => by cases hnode⟩
    have hinv : JobInv nightlyQueued :=
      JobInv.of_reachable (reachable_of_chainRuns (reachable_nightlyQueued (SafeCrash 0)))
    cases id with
    | zero => exact congrArg Row.statusId (Option.some.inj hrow).symm
    | succ id =>
      rw [hinv.claims.bound (id + 1) (Nat.succ_le_succ (Nat.zero_le id))] at hrow
      cases hrow
  have h₁ := (reachable_nightlyQueued (SafeCrash 0)).tail
    ⟨Step.crash (i := ()), fun _ _ => hsafe⟩
  have hopen : Step (nightlyQueued.crash ()) (.start () [(0, nightlyRow .queued false)]) _ :=
    Step.start rfl (by decide)
  have h₂ := h₁.tail ⟨hopen, fun _ h => by cases h⟩
  have h₃ := h₂.tail ⟨Step.reloadCopy (i := ()) rfl, fun _ h => by cases h⟩
  exact ⟨_, rfl, ((recurrence_of_safeCrash h₃).1 List.not_mem_nil).1⟩

/-- The instance stops while the job is running and the row of its next run is not inserted
yet: the copy of the reload has no schedule, and the chain has no heir. -/
theorem not_recurrence_of_runningCrash :
    ¬ ∀ s : State Unit, (chainRuns Unit 0 fun _ _ => True).Reachable s →
      s.node () = .reloading [] false → 0 ∉ s.ended → ∃! id, Heir s 0 id := by
  intro hall
  have h₁ := (reachable_nightlyQueued fun _ _ => True).tail
    ⟨Step.move (o := ⟨(), 0, .queued⟩) List.mem_cons_self .accept, fun _ _ => trivial⟩
  have h₂ := h₁.tail ⟨Step.move List.mem_cons_self .exec, fun _ _ => trivial⟩
  have h₃ := h₂.tail ⟨Step.refresh List.mem_cons_self rfl rfl, fun _ _ => trivial⟩
  have h₄ := h₃.tail ⟨Step.store List.mem_cons_self rfl, fun _ _ => trivial⟩
  have h₅ := h₄.tail ⟨Step.crash (i := ()), fun _ _ => trivial⟩
  have h₆ := h₅.tail ⟨Step.start (i := ()) rfl
    (show List.Perm [(0, nightlyRow .running true)] _ by decide), fun _ _ => trivial⟩
  have h₇ := h₆.tail ⟨Step.reloadCopy (i := ()) rfl, fun _ _ => trivial⟩
  have h₈ := h₇.tail ⟨Step.reloadMark (i := ()) rfl, fun _ _ => trivial⟩
  obtain ⟨id, ⟨row, hrow, -, hlive, hrec, -⟩, -⟩ := hall _ h₈ rfl List.not_mem_nil
  have hinv := JobInv.of_reachable (reachable_of_chainRuns h₈)
  match id with
  | 0 =>
    obtain rfl := Option.some.inj hrow
    revert hlive
    decide
  | 1 =>
    obtain rfl := Option.some.inj hrow
    cases hrec
  | id + 2 =>
    rw [hinv.claims.bound (id + 2) (Nat.le_add_left 2 id)] at hrow
    cases hrow

end OfficeAuto.Service
