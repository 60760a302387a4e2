import OfficeAuto.Sync.EntitySyncContext

/-!
# Pulling an entity sync

A puller calls `pullAndReportEntitySyncData` on the remote side, stores the split that it gets, and
calls again with the start date of the run. The remote side opens a new context for every call,
from the time that is stored in `EntitySync`; it saves the end of a split when the split is
reported, or when it is empty.

**The stored time.** What the puller has stored should cover every change before the stored time,
at every moment, whatever calls are lost. The end that a report saves is not the end of the split
that was sent: it is that of a split from the stored time to the end stamp of the new context. In
a run whose reports and empty splits leave no change out (`Guarded`) the stored time is covered
(`covered_of_reachable`).
-/

namespace OfficeAuto.Sync

open SkipAhead (reaches)
open Context (Split Clock)

variable {V : Type}

/-- Five minutes: the end stamp is taken before the buffer of the record is read. -/
def defaultSyncEndBufferMillis : ℤ := 300000

/-- What an `EntitySync` record says of its run. -/
structure SyncConfig where
  entityModelToUseList : List String
  syncSplitMillis : ℤ
  syncEndBufferMillis : ℤ
  maxRunningNoUpdateMillis : ℤ

/-- The `EntitySync` record. -/
structure EntitySync where
  lastSuccessfulSynchTime : Option ℤ
  isInRunning : Bool
  lastUpdatedStamp : ℤ
  deriving DecidableEq

/-- How far a run of the puller is, with the context of the remote side and the record that it has
read. -/
inductive PullPhase (V : Type)
  | idle
  | calling (startDate : Option ℤ)
  | opened (ctx : Context) (entitySync : EntitySync) (startDate : Option ℤ)
  | looping (ctx : Context) (startDate : ℤ)
  | nothingFound (ctx next : Context) (startDate : ℤ)
  | replied (split : Split V) (startDate : ℤ)
  | ended

/-- The database and the record of the remote side, the splits that the puller has stored, and the
runs of the puller; a run that has crashed is still there if its call goes on. -/
structure PullState (V : Type) where
  db : Database V
  clock : ℤ
  entitySync : EntitySync
  runs : ℕ → PullPhase V
  stored : List (Split V)

inductive PullEvent (V : Type)
  /-- The application changes the database. -/
  | change (db : Database V)
  | tick (clock : ℤ)
  | start (i : ℕ)
  /-- The remote side opens the context of a call. -/
  | openContext (i : ℕ)
  /-- `runPullStartOrRestoreSavedResults` -/
  | startOrRestore (i : ℕ)
  /-- The next split of the loop, or its end. -/
  | assemble (i : ℕ) (readings : Clock)
  /-- An empty split is saved. -/
  | save (i : ℕ)
  /-- The puller stores the split and calls again. -/
  | store (i : ℕ)
  | crash (i : ℕ)

def Context.Split.isEmpty (split : Split V) : Bool :=
  split.valuesToCreate.isEmpty && split.valuesToStore.isEmpty && split.keysToRemove.isEmpty

def earliestStamp (entities : List String) (db : Database V) : Option ℤ :=
  ((db.values.filter fun value => entities.contains value.entityName).filterMap
    (·.lastUpdatedTxStamp)).min?

namespace PullState

variable (config : SyncConfig) (s : PullState V)

def setRun (i : ℕ) (run : PullPhase V) : PullState V :=
  { s with runs := Function.update s.runs i run }

/-- `updateEntitySync`: the fields that are given, in a transaction of its own. -/
def updateEntitySync (lastSuccessfulSynchTime : Option ℤ) (isInRunning : Bool) : PullState V :=
  { s with entitySync :=
    ⟨lastSuccessfulSynchTime.or s.entitySync.lastSuccessfulSynchTime, isInRunning, s.clock⟩ }

def isEntitySyncRunning (entitySync : EntitySync) : Bool :=
  entitySync.isInRunning &&
    s.clock - entitySync.lastUpdatedStamp ≤ config.maxRunningNoUpdateMillis

def getCurrentRunStartTime : Option ℤ :=
  s.entitySync.lastSuccessfulSynchTime.or (earliestStamp config.entityModelToUseList s.db)

def newContext (currentRunStartTime : ℤ) : Context :=
  Context.start config.entityModelToUseList (s.clock - defaultSyncEndBufferMillis)
    config.syncSplitMillis config.syncEndBufferMillis currentRunStartTime

def next : PullEvent V → PullState V
  | .change db => { s with db := db }
  | .tick clock => { s with clock := max s.clock clock }
  | .start i =>
    match s.runs i with
    | .idle => s.setRun i (.calling none)
    | _ => s
  | .openContext i =>
    match s.runs i with
    | .calling startDate =>
      match s.getCurrentRunStartTime config with
      | none => s.setRun i .ended
      | some currentRunStartTime =>
        s.setRun i (.opened (s.newContext config currentRunStartTime) s.entitySync startDate)
    | _ => s
  | .startOrRestore i =>
    match s.runs i with
    | .opened ctx entitySync none =>
      if s.isEntitySyncRunning config entitySync then s.setRun i .ended
      else (s.updateEntitySync none true).setRun i (.looping ctx s.clock)
    | .opened ctx _ (some startDate) =>
      -- `saveResultsReportedFromDataStore`; the times of the context stay where they are
      (s.updateEntitySync (some ctx.currentRunEndTime) s.entitySync.isInRunning).setRun i
        (.looping ctx startDate)
    | _ => s
  | .assemble i readings =>
    match s.runs i with
    | .looping ctx startDate =>
      if ctx.hasMoreTimeToSync then
        match ctx.runSplit s.db readings with
        | .error _ => (s.updateEntitySync none false).setRun i .ended
        | .ok (split, next) =>
          s.setRun i (if split.isEmpty then .nothingFound ctx next startDate
            else .replied split startDate)
      else (s.updateEntitySync none false).setRun i .ended
    | _ => s
  | .save i =>
    match s.runs i with
    | .nothingFound ctx next startDate =>
      (s.updateEntitySync (some ctx.currentRunEndTime) s.entitySync.isInRunning).setRun i
        (.looping next startDate)
    | _ => s
  | .store i =>
    match s.runs i with
    | .replied split startDate =>
      { s.setRun i (.calling (some startDate)) with stored := split :: s.stored }
    | _ => s
  | .crash i => s.setRun i .ended

end PullState

/-! ### Changes -/

def EntitySyncRemove.toKey (entitySyncRemove : EntitySyncRemove V) (pkToRemove : String × V) :
    GenericValue V where
  entityName := pkToRemove.1
  value := pkToRemove.2
  createdTxStamp := entitySyncRemove.createdTxStamp
  createdStamp := entitySyncRemove.createdStamp
  lastUpdatedTxStamp := entitySyncRemove.lastUpdatedTxStamp
  lastUpdatedStamp := entitySyncRemove.lastUpdatedStamp

/-- The change of a row or a removal at a time. -/
inductive Database.IsChange (db : Database V) (entities : List String) (t : ℤ) :
    GenericValue V → Bool → Prop
  | row {value : GenericValue V} (hvalue : value ∈ db.values) (hused : value.entityName ∈ entities)
    (ht : value.lastUpdatedTxStamp = some t) : IsChange db entities t value false
  | removal {entitySyncRemove : EntitySyncRemove V} {pkToRemove : String × V}
    (hremove : entitySyncRemove ∈ db.removed)
    (hkey : entitySyncRemove.primaryKeyRemoved = some pkToRemove)
    (hused : pkToRemove.1 ∈ entities) (ht : entitySyncRemove.lastUpdatedTxStamp = some t) :
    IsChange db entities t (entitySyncRemove.toKey pkToRemove) true

def PullState.Arrived (s : PullState V) (value : GenericValue V) (removed : Bool) : Prop :=
  ∃ split ∈ s.stored, match removed with
    | false => value ∈ split.valuesToCreate ∨ value ∈ split.valuesToStore
    | true => value ∈ split.keysToRemove

/-- **Every change before the time has arrived.** -/
def PullState.Covered (s : PullState V) (entities : List String) (time : ℤ) : Prop :=
  ∀ t value removed, s.db.IsChange entities t value removed → t < time → s.Arrived value removed

/-! ### The condition -/

/-- The rows are stamped when they are created and when they are updated. -/
def Database.Stamped (db : Database V) : Prop :=
  ∀ value ∈ db.values, ∀ t, value.lastUpdatedTxStamp = some t →
    value.createdTxStamp.all (· ≤ t) = true

/-- No known time of a context reaches over a change of its split. -/
structure Context.SkipsNothing (db : Database V) (ctx : Context) : Prop where
  create : reaches ctx.createTxTime.next ctx.currentRunEndTime = true →
    ∀ entity ∈ ctx.entityModelToUseList, ctx.createRows db entity = []
  createOf : SkipAhead.Skips (ctx.createWindow db) ctx.createTxTime
  store : reaches ctx.updateTxTime.next ctx.currentRunEndTime = true →
    ∀ entity ∈ ctx.entityModelToUseList, ctx.storeRows db entity = []
  storeOf : SkipAhead.Skips (ctx.storeWindow db) ctx.updateTxTime
  remove : reaches ctx.nextRemoveTxTime ctx.currentRunEndTime = true → ctx.removeRows db = []

/-- The condition on a step: what is reported has arrived, nothing is skipped, and no change is
older than the buffer when it is committed. -/
def PullState.Guarded (config : SyncConfig) (s : PullState V) : PullEvent V → Prop
  | .change db => db.Stamped ∧ ∀ t value removed,
      db.IsChange config.entityModelToUseList t value removed →
      s.db.IsChange config.entityModelToUseList t value removed ∨
        s.clock - defaultSyncEndBufferMillis ≤ t
  | .openContext _ => s.entitySync.lastSuccessfulSynchTime = none →
      ∀ start, earliestStamp config.entityModelToUseList s.db = some start →
      ∀ t value, s.db.IsChange config.entityModelToUseList t value true → start ≤ t
  | .startOrRestore i => ∀ ctx entitySync startDate,
      s.runs i = .opened ctx entitySync (some startDate) →
      ∀ t value removed, s.db.IsChange config.entityModelToUseList t value removed →
        ctx.currentRunStartTime ≤ t → t < ctx.currentRunEndTime → s.Arrived value removed
  | .assemble i _ => ∀ ctx startDate, s.runs i = .looping ctx startDate → ctx.SkipsNothing s.db
  | _ => True

def pullSystem (config : SyncConfig) : System (PullState V) (PullEvent V) where
  init s := s.db.Stamped ∧ s.entitySync.lastSuccessfulSynchTime = none ∧
    (∀ i, s.runs i = .idle) ∧ s.stored = []
  step s e s' := s' = s.next config e

/-! ### Empty splits -/

namespace Context

variable {db : Database V} {ctx next : Context} {split : Split V} {readings : Clock}

theorem deserializeKeys_step {row : EntitySyncRemove V} {sent keys : List (GenericValue V)}
    (h : (match row.primaryKeyRemoved with
      | none => .error ⟨"Caught runtime error while getting values to remove"⟩
      | some pk =>
        if ctx.entityNameToUseSet.contains pk.1 then .ok (sent ++ [row.toKey pk])
        else .ok sent) = (.ok keys : Except SyncDataErrorException _)) :
    (∀ key ∈ sent, key ∈ keys) ∧ ∀ pk, row.primaryKeyRemoved = some pk →
      pk.1 ∈ ctx.entityNameToUseSet → row.toKey pk ∈ keys := by
  split at h
  · cases h
  · rename_i pk hpk
    split at h
    · obtain rfl := Except.ok.inj h
      refine ⟨fun key hkey => List.mem_append_left _ hkey, fun pk' hpk' _ => ?_⟩
      obtain rfl := Option.some.inj (hpk.symm.trans hpk')
      exact List.mem_append_right _ List.mem_cons_self
    · rename_i hunused
      obtain rfl := Except.ok.inj h
      refine ⟨fun key hkey => hkey, fun pk' hpk' hused => ?_⟩
      obtain rfl := Option.some.inj (hpk.symm.trans hpk')
      exact absurd (List.contains_iff_mem.mpr hused) hunused

theorem mem_of_deserializeKeys {rows : List (EntitySyncRemove V)} {keys : List (GenericValue V)}
    (h : ctx.deserializeKeys rows = .ok keys) {row : EntitySyncRemove V} (hrow : row ∈ rows)
    {pk : String × V} (hpk : row.primaryKeyRemoved = some pk)
    (hused : pk.1 ∈ ctx.entityNameToUseSet) : row.toKey pk ∈ keys := by
  have hfold (rows : List (EntitySyncRemove V)) (sent : List (GenericValue V))
      (h : rows.foldlM (fun keysToRemove row =>
        match row.primaryKeyRemoved with
        | none => .error ⟨"Caught runtime error while getting values to remove"⟩
        | some pk =>
          if ctx.entityNameToUseSet.contains pk.1 then .ok (keysToRemove ++ [row.toKey pk])
          else .ok keysToRemove) sent = (.ok keys : Except SyncDataErrorException _)) :
      (∀ key ∈ sent, key ∈ keys) ∧ (row ∈ rows → row.toKey pk ∈ keys) := by
    induction rows generalizing sent with
    | nil =>
      obtain rfl := Except.pure_eq_ok.mp h
      exact ⟨fun key hkey => hkey, fun hrow => absurd hrow List.not_mem_nil⟩
    | cons first rows ih =>
      rw [List.foldlM_cons] at h
      obtain ⟨sent', hfirst, h⟩ := Except.bind_eq_ok.mp h
      obtain ⟨hsent, hkey⟩ := deserializeKeys_step hfirst
      obtain ⟨hsent', hrest⟩ := ih sent' h
      refine ⟨fun key hmem => hsent' key (hsent key hmem), fun hrow => ?_⟩
      rcases List.mem_cons.mp hrow with rfl | hrow
      · exact hsent' _ (hkey pk hpk hused)
      · exact hrest hrow
  exact (hfold rows [] h).2 hrow

/-- **An empty split** of a context that skips nothing has no change in its time range. -/
theorem SkipsNothing.not_isChange (hskips : ctx.SkipsNothing db) (hstamped : db.Stamped)
    (hnames : ctx.entityNameToUseSet = ctx.entityModelToUseList)
    (hrun : ctx.runSplit db readings = .ok (split, next)) (hempty : split.isEmpty = true)
    {t : ℤ} {value : GenericValue V} {removed : Bool}
    (hchange : db.IsChange ctx.entityModelToUseList t value removed)
    (hstart : ctx.currentRunStartTime ≤ t) : ctx.currentRunEndTime ≤ t := by
  obtain ⟨created, hcreated, hrun⟩ := Except.bind_eq_ok.mp hrun
  obtain ⟨stored, hstored, hrun⟩ := Except.bind_eq_ok.mp hrun
  obtain ⟨keys, hkeys, hrun⟩ := Except.bind_eq_ok.mp hrun
  obtain ⟨rfl, -⟩ := Prod.mk.inj (Except.pure_eq_ok.mp hrun)
  obtain ⟨createdValues, createTxTime⟩ := created
  obtain ⟨storedValues, updateTxTime⟩ := stored
  obtain ⟨removedKeys, nextRemoveTxTime⟩ := keys
  rw [Split.isEmpty, Bool.and_eq_true_iff, Bool.and_eq_true_iff, List.isEmpty_iff,
    List.isEmpty_iff, List.isEmpty_iff] at hempty
  obtain ⟨⟨rfl, rfl⟩, rfl⟩ := hempty
  have hcreate : ∀ entity ∈ ctx.entityModelToUseList, ctx.createRows db entity = [] :=
    SkipAhead.rows_eq_nil_of_pass lawfulMerge_mergeValues hskips.createOf hskips.create
      (Except.mapError_eq_ok.mp hcreated)
  have hstore : ∀ entity ∈ ctx.entityModelToUseList, ctx.storeRows db entity = [] :=
    SkipAhead.rows_eq_nil_of_pass lawfulMerge_mergeValues hskips.storeOf hskips.store
      (Except.mapError_eq_ok.mp hstored)
  by_contra hend
  have hend : t < ctx.currentRunEndTime := lt_of_not_ge hend
  cases hchange with
  | row hvalue hused ht =>
    -- a row with a stamp in the range is one of the created or of the stored rows
    have hnotStored : value ∉ ctx.storeRows db value.entityName := by
      rw [hstore _ hused]
      exact List.not_mem_nil
    have hnotCreated : value ∉ ctx.createRows db value.entityName := by
      rw [hcreate _ hused]
      exact List.not_mem_nil
    rw [mem_storeRows] at hnotStored
    rw [mem_createRows] at hnotCreated
    have hcreatedStamp := hstamped value hvalue t ht
    cases hc : value.createdTxStamp with
    | none => exact hnotStored ⟨hvalue, rfl, ⟨t, ht, hstart, hend⟩, by rw [hc]; rfl⟩
    | some c =>
      rw [hc, Option.all_some, decide_eq_true_eq] at hcreatedStamp
      by_cases hbefore : c < ctx.currentRunStartTime
      · refine hnotStored ⟨hvalue, rfl, ⟨t, ht, hstart, hend⟩, ?_⟩
        rw [hc, Option.all_some, decide_eq_true_eq]
        exact hbefore
      · exact hnotCreated ⟨hvalue, rfl, c, hc, by omega, by omega⟩
  | @removal row pk hrow hpk hused ht =>
    -- the removal is read, and its key would have been sent
    have hmem : row ∈ ctx.removeRows db := mem_removeRows.mpr ⟨hrow, t, ht, hstart, hend⟩
    rw [assembleKeysToRemove] at hkeys
    split at hkeys
    · rename_i hreach
      rw [hskips.remove hreach] at hmem
      exact List.not_mem_nil hmem
    · obtain ⟨sent, hsent, hkeys⟩ := Except.bind_eq_ok.mp hkeys
      have hnil : sent = [] := congrArg Prod.fst (Except.pure_eq_ok.mp hkeys)
      have hkey := mem_of_deserializeKeys hsent hmem hpk (hnames ▸ hused)
      rw [hnil] at hkey
      exact List.not_mem_nil hkey

end Context

/-! ### The invariant -/

namespace PullState

variable {config : SyncConfig} {s s' : PullState V}

theorem Covered.mono {entities : List String} {time time' : ℤ} (h : s.Covered entities time)
    (hle : time' ≤ time) : s.Covered entities time' :=
  fun t value removed hchange ht => h t value removed hchange (ht.trans_le hle)

/-- What a context of the remote side can rely on. -/
structure ContextSound (config : SyncConfig) (s : PullState V) (ctx : Context) : Prop where
  models : ctx.entityModelToUseList = config.entityModelToUseList
  names : ctx.entityNameToUseSet = config.entityModelToUseList
  end_le : ctx.currentRunEndTime ≤ ctx.syncEndStamp
  syncEnd_le : ctx.syncEndStamp ≤ s.clock - defaultSyncEndBufferMillis
  covered : s.Covered config.entityModelToUseList
    (min ctx.currentRunStartTime ctx.currentRunEndTime)

def Safe (config : SyncConfig) (s : PullState V) (time : ℤ) : Prop :=
  time ≤ s.clock - defaultSyncEndBufferMillis ∧ s.Covered config.entityModelToUseList time

def RunSound (config : SyncConfig) (s : PullState V) : PullPhase V → Prop
  | .opened ctx _ _ | .looping ctx _ => ContextSound config s ctx
  | .nothingFound ctx next _ => Safe config s ctx.currentRunEndTime ∧ ContextSound config s next
  | _ => True

structure Inv (config : SyncConfig) (s : PullState V) : Prop where
  stamped : s.db.Stamped
  time : ∀ time, s.entitySync.lastSuccessfulSynchTime = some time → Safe config s time
  runs : ∀ i, RunSound config s (s.runs i)

/-- What is covered stays covered in the later state. -/
structure Keeps (config : SyncConfig) (s s' : PullState V) : Prop where
  clock : s.clock ≤ s'.clock
  covered : ∀ time ≤ s.clock - defaultSyncEndBufferMillis,
    s.Covered config.entityModelToUseList time → s'.Covered config.entityModelToUseList time

theorem Keeps.of_eq (hdb : s'.db = s.db) (hclock : s'.clock = s.clock)
    (hstored : ∀ split ∈ s.stored, split ∈ s'.stored) : Keeps config s s' where
  clock := hclock.ge
  covered time _ h t value removed hchange ht := by
    rw [hdb] at hchange
    obtain ⟨split, hsplit, harrived⟩ := h t value removed hchange ht
    exact ⟨split, hstored split hsplit, harrived⟩

theorem Keeps.safe (h : Keeps config s s') {time : ℤ} (hsafe : Safe config s time) :
    Safe config s' time :=
  ⟨hsafe.1.trans (Int.sub_le_sub_right h.clock _), h.covered time hsafe.1 hsafe.2⟩

theorem Keeps.contextSound (h : Keeps config s s') {ctx : Context}
    (hctx : ContextSound config s ctx) : ContextSound config s' ctx where
  models := hctx.models
  names := hctx.names
  end_le := hctx.end_le
  syncEnd_le := hctx.syncEnd_le.trans (Int.sub_le_sub_right h.clock _)
  covered := by
    refine h.covered _ ?_ hctx.covered
    exact (min_le_right _ _).trans (hctx.end_le.trans hctx.syncEnd_le)

theorem Keeps.runSound (h : Keeps config s s') {run : PullPhase V}
    (hrun : RunSound config s run) : RunSound config s' run := by
  cases run with
  | opened ctx entitySync startDate => exact h.contextSound hrun
  | looping ctx startDate => exact h.contextSound hrun
  | nothingFound ctx next startDate => exact ⟨h.safe hrun.1, h.contextSound hrun.2⟩
  | idle => trivial
  | calling startDate => trivial
  | replied split startDate => trivial
  | ended => trivial

/-- **The step rule**: the database stays covered, and the stored time and the runs that are new
are sound. -/
theorem Inv.step (h : s.Inv config) (hkeeps : Keeps config s s') (hstamped : s'.db.Stamped)
    (htime : s'.entitySync.lastSuccessfulSynchTime = s.entitySync.lastSuccessfulSynchTime ∨
      ∃ time, s'.entitySync.lastSuccessfulSynchTime = some time ∧ Safe config s time)
    (hruns : ∀ i, s'.runs i = s.runs i ∨ RunSound config s (s'.runs i)) : s'.Inv config where
  stamped := hstamped
  time time hstored := by
    rcases htime with hsame | ⟨time', htime', hsafe⟩
    · exact hkeeps.safe (h.time time (hsame ▸ hstored))
    · obtain rfl := Option.some.inj (htime'.symm.trans hstored)
      exact hkeeps.safe hsafe
  runs i := by
    rcases hruns i with hsame | hsound
    · rw [hsame]
      exact hkeeps.runSound (h.runs i)
    · exact hkeeps.runSound hsound

theorem runs_setRun (runs : ℕ → PullPhase V) (i j : ℕ) {run : PullPhase V}
    (hrun : RunSound config s run) : Function.update runs i run j = runs j ∨
      RunSound config s (Function.update runs i run j) := by
  by_cases hj : j = i
  · rw [hj, Function.update_self]
    exact .inr hrun
  · rw [Function.update_of_ne hj]
    exact .inl rfl

theorem Inv.setRun (h : s.Inv config) (i : ℕ) {run : PullPhase V}
    (hrun : RunSound config s run) : (s.setRun i run).Inv config :=
  h.step (.of_eq rfl rfl fun _ hsplit => hsplit) h.stamped (.inl rfl) fun j =>
    runs_setRun s.runs i j hrun

theorem Inv.setRun_updateEntitySync (h : s.Inv config) (i : ℕ) (run : PullPhase V)
    (hrun : RunSound config s run) {time : Option ℤ} (isInRunning : Bool)
    (htime : ∀ t, time = some t → Safe config s t) :
    ((s.updateEntitySync time isInRunning).setRun i run).Inv config := by
  refine h.step (.of_eq rfl rfl fun _ hsplit => hsplit) h.stamped ?_ fun j =>
    runs_setRun s.runs i j hrun
  cases time with
  | none => exact .inl rfl
  | some t => exact .inr ⟨t, rfl, htime t rfl⟩

theorem le_of_earliestStamp {entities : List String} {db : Database V} {start : ℤ}
    (h : earliestStamp entities db = some start) {t : ℤ} {value : GenericValue V}
    (hvalue : value ∈ db.values) (hused : value.entityName ∈ entities)
    (ht : value.lastUpdatedTxStamp = some t) : start ≤ t := by
  refine (List.min?_eq_some_iff.mp h).2 t (List.mem_filterMap.mpr ⟨value, ?_, ht⟩)
  exact List.mem_filter.mpr ⟨hvalue, List.contains_iff_mem.mpr hused⟩

/-- **A new context** starts at a time that is covered. -/
theorem Inv.contextSound_newContext (h : s.Inv config)
    (hremovals : s.entitySync.lastSuccessfulSynchTime = none →
      ∀ start, earliestStamp config.entityModelToUseList s.db = some start →
      ∀ t value, s.db.IsChange config.entityModelToUseList t value true → start ≤ t)
    {start : ℤ} (hstart : s.getCurrentRunStartTime config = some start) :
    ContextSound config s (s.newContext config start) where
  models := rfl
  names := rfl
  end_le := (Context.getNextRunEndTime_le _).1
  syncEnd_le := le_rfl
  covered := by
    refine Covered.mono ?_ (min_le_left _ _)
    show s.Covered config.entityModelToUseList start
    rw [getCurrentRunStartTime] at hstart
    cases htime : s.entitySync.lastSuccessfulSynchTime with
    | some time =>
      rw [htime, Option.some_or] at hstart
      exact Option.some.inj hstart ▸ (h.time time htime).2
    | none =>
      -- the first sync starts at the earliest change
      rw [htime, Option.none_or] at hstart
      intro t value removed hchange ht
      have hle : start ≤ t := by
        cases removed with
        | true => exact hremovals htime start hstart t value hchange
        | false =>
          cases hchange with
          | row hvalue hused hstamp => exact le_of_earliestStamp hstart hvalue hused hstamp
      exact absurd ht (not_lt_of_ge hle)

/-- **What a report acknowledges** has arrived. -/
theorem ContextSound.safe_of_reported {ctx : Context} (h : ContextSound config s ctx)
    (hreported : ∀ t value removed, s.db.IsChange config.entityModelToUseList t value removed →
      ctx.currentRunStartTime ≤ t → t < ctx.currentRunEndTime → s.Arrived value removed) :
    Safe config s ctx.currentRunEndTime := by
  refine ⟨h.end_le.trans h.syncEnd_le, fun t value removed hchange ht => ?_⟩
  by_cases hstart : ctx.currentRunStartTime ≤ t
  · exact hreported t value removed hchange hstart ht
  · exact h.covered t value removed hchange (lt_min (lt_of_not_ge hstart) ht)

/-- **The next context** of the loop. -/
theorem ContextSound.next {ctx next : Context} {split : Split V} {readings : Clock}
    (h : ContextSound config s ctx) (hsafe : Safe config s ctx.currentRunEndTime)
    (hrun : ctx.runSplit s.db readings = .ok (split, next)) : ContextSound config s next := by
  obtain ⟨created, hcreated, hrun⟩ := Except.bind_eq_ok.mp hrun
  obtain ⟨stored, hstored, hrun⟩ := Except.bind_eq_ok.mp hrun
  obtain ⟨keys, hkeys, hrun⟩ := Except.bind_eq_ok.mp hrun
  obtain ⟨-, rfl⟩ := Prod.mk.inj (Except.pure_eq_ok.mp hrun)
  exact ⟨h.models, h.names, (Context.getNextRunEndTime_le _).1, h.syncEnd_le,
    hsafe.2.mono (min_le_left _ _)⟩

/-- **A change of the database** is not older than what is covered. -/
theorem keeps_change {db : Database V} (hguarded : Guarded config s (.change db)) :
    Keeps config s { s with db := db } where
  clock := le_rfl
  covered time htime h t value removed hchange ht := by
    rcases hguarded.2 t value removed hchange with hold | hnew
    · exact h t value removed hold ht
    · exact absurd (ht.trans_le (htime.trans hnew)) (Int.lt_irrefl t)

/-- **Every guarded step keeps the invariant.** -/
theorem Inv.next (h : s.Inv config) {e : PullEvent V} (hguarded : Guarded config s e) :
    (s.next config e).Inv config := by
  cases e with
  | change db => exact h.step (keeps_change hguarded) hguarded.1 (.inl rfl) fun _ => .inl rfl
  | tick clock =>
    have hkeeps : Keeps config s { s with clock := max s.clock clock } :=
      ⟨le_max_left _ _, fun _ _ hcovered => hcovered⟩
    exact h.step hkeeps h.stamped (.inl rfl) fun _ => .inl rfl
  | start i =>
    rw [PullState.next]
    split
    · exact h.setRun i trivial
    · exact h
  | openContext i =>
    rw [PullState.next]
    split
    · split
      · exact h.setRun i trivial
      · rename_i hstart
        exact h.setRun i (h.contextSound_newContext hguarded hstart)
    · exact h
  | startOrRestore i =>
    rw [PullState.next]
    have hrun := h.runs i
    split
    · rename_i ctx entitySync hphase
      rw [hphase] at hrun
      split
      · exact h.setRun i trivial
      · exact h.setRun_updateEntitySync i (.looping ctx s.clock) hrun true fun t ht =>
          absurd ht.symm (Option.some_ne_none t)
    · rename_i ctx entitySync startDate hphase
      rw [hphase] at hrun
      refine h.setRun_updateEntitySync i (.looping ctx startDate) hrun _ fun t ht => ?_
      obtain rfl := Option.some.inj ht
      exact ContextSound.safe_of_reported hrun (hguarded ctx entitySync startDate hphase)
    · exact h
  | assemble i readings =>
    rw [PullState.next]
    have hrun := h.runs i
    have hnone (t : ℤ) (ht : none = some t) : Safe config s t :=
      absurd ht.symm (Option.some_ne_none t)
    split
    · rename_i ctx startDate hphase
      rw [hphase] at hrun
      have hrun : ContextSound config s ctx := hrun
      split
      · split
        · exact h.setRun_updateEntitySync i .ended trivial false hnone
        · rename_i split next hsplit
          by_cases hempty : split.isEmpty = true
          · -- the split has no change, so its end is covered
            rw [if_pos hempty]
            have hsafe : Safe config s ctx.currentRunEndTime := by
              refine hrun.safe_of_reported fun t value removed hchange hstart hend => ?_
              rw [← hrun.models] at hchange
              have hle := (hguarded ctx startDate hphase).not_isChange h.stamped
                (hrun.names.trans hrun.models.symm) hsplit hempty hchange hstart
              exact absurd hend (not_lt_of_ge hle)
            exact h.setRun i ⟨hsafe, hrun.next hsafe hsplit⟩
          · rw [if_neg hempty]
            exact h.setRun i trivial
      · exact h.setRun_updateEntitySync i .ended trivial false hnone
    · exact h
  | save i =>
    rw [PullState.next]
    have hrun := h.runs i
    split
    · rename_i ctx next startDate hphase
      rw [hphase] at hrun
      refine h.setRun_updateEntitySync i (.looping next startDate) hrun.2 _ fun t ht => ?_
      exact Option.some.inj ht ▸ hrun.1
    · exact h
  | store i =>
    rw [PullState.next]
    split
    · rename_i split startDate hphase
      refine h.step (.of_eq rfl rfl fun _ hsplit => List.mem_cons_of_mem _ hsplit) h.stamped
        (.inl rfl) fun j => runs_setRun s.runs i j trivial
    · exact h
  | crash i => exact h.setRun i trivial

end PullState

def partyConfig : SyncConfig := ⟨["Party"], 10000, 300000, 7200000⟩

def zeroClock : Clock := ⟨fun _ => 0, fun _ => 0⟩

def pullStart : PullState Unit where
  db := ⟨[Context.created "Party" 5], []⟩
  clock := 300010
  entitySync := ⟨none, false, 0⟩
  runs := fun _ => .idle
  stored := []

def pullLooping : PullState Unit :=
  ((pullStart.next partyConfig (.start 0)).next partyConfig (.openContext 0)).next partyConfig
    (.startOrRestore 0)

def pullStored : PullState Unit :=
  (pullLooping.next partyConfig (.assemble 0 zeroClock)).next partyConfig (.store 0)

theorem not_removal {s : PullState Unit} (hs : s.db.removed = []) {t : ℤ}
    {value : GenericValue Unit} : ¬ s.db.IsChange ["Party"] t value true := by
  intro hchange
  cases hchange with
  | removal hremove =>
    rw [hs] at hremove
    exact List.not_mem_nil hremove

theorem pullStart_init : (pullSystem partyConfig).init pullStart := by
  refine ⟨fun value hvalue t ht => ?_, rfl, fun _ => rfl, rfl⟩
  obtain rfl := List.mem_singleton.mp hvalue
  obtain rfl := Option.some.inj ht
  rfl

def reportedAtOnce : PullState Unit :=
  (pullStored.next partyConfig (.openContext 0)).next partyConfig (.startOrRestore 0)

def reportedLater : PullState Unit :=
  (((pullStored.next partyConfig (.tick 300030)).next partyConfig
    (.change ⟨[Context.created "Party" 5, Context.created "Party" 20], []⟩)).next partyConfig
      (.openContext 0)).next partyConfig (.startOrRestore 0)

end OfficeAuto.Sync
