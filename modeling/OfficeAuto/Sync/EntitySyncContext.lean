import OfficeAuto.Logic.SkipAhead
import OfficeAuto.Logic.Transition
import Mathlib.Algebra.Order.Ring.Int
import Mathlib.Data.List.Sort

/-!
# Splits of an entity sync

A sync sends its database split by split: the rows that were created in the time range of the
split, the rows that were updated, and the keys that were removed. The context of a run remembers
the next time that there is something to send, so as not to query for splits that are empty.

**Removals** and the times of single entities without a created row are safe. Two others are not.
The time of all entities together is taken from the entities that a pass has looked at, not from
those that it skipped; and the time of the next update is asked for among the rows that are there
already, though a row that is created later may be updated after that.

**Main result.** In every run whose passes leave no time that reaches over a row in one of these
ways, every split returns what the queries return (`assemble_transparent`).
-/

namespace OfficeAuto.Sync

open SkipAhead (Known Window reaches lower)

/-! ### Rows and keys -/

/-- A row of an entity, with the stamps of its transaction and its own. -/
structure GenericValue (V : Type) where
  entityName : String
  value : V
  createdTxStamp : Option ℤ
  createdStamp : Option ℤ
  lastUpdatedTxStamp : Option ℤ
  lastUpdatedStamp : Option ℤ
  deriving DecidableEq

/-- A row of `EntitySyncRemove`. `primaryKeyRemoved` is the entity and the key that its text
deserializes to, if it does. -/
structure EntitySyncRemove (V : Type) where
  primaryKeyRemoved : Option (String × V)
  createdTxStamp : Option ℤ
  createdStamp : Option ℤ
  lastUpdatedTxStamp : Option ℤ
  lastUpdatedStamp : Option ℤ
  deriving DecidableEq

structure Database (V : Type) where
  values : List (GenericValue V)
  removed : List (EntitySyncRemove V)

/-- `SyncDataErrorException` -/
structure SyncDataErrorException where
  message : String

/-- The context of a run; `createTxTime` are `nextCreateTxTime` and `nextEntityCreateTxTime`,
`updateTxTime` are `nextUpdateTxTime` and `nextEntityUpdateTxTime`. -/
structure Context where
  entityModelToUseList : List String
  entityNameToUseSet : List String
  syncEndStamp : ℤ
  syncSplit : ℤ
  syncEndBufferMillis : ℤ
  currentRunStartTime : ℤ
  currentRunEndTime : ℤ
  createTxTime : Known String ℤ
  updateTxTime : Known String ℤ
  nextRemoveTxTime : Option ℤ

variable {V : Type}

/-! ### Queries -/

def inRange (start stop : ℤ) (stamp : Option ℤ) : Bool :=
  stamp.any fun t => start ≤ t && t < stop

def stampLe : Option ℤ → Option ℤ → Bool
  | none, _ => true
  | some _, none => false
  | some a, some b => a ≤ b

def rowLe {R : Type} (txStamp stamp : R → Option ℤ) (a b : R) : Bool :=
  if txStamp a = txStamp b then stampLe (stamp a) (stamp b) else stampLe (txStamp a) (txStamp b)

def orderBy {R : Type} (txStamp stamp : R → Option ℤ) (rows : List R) : List R :=
  rows.insertionSort fun a b => rowLe txStamp stamp a b = true

/-- `Timestamp.before`, which throws on null. -/
def before (a b : Option ℤ) : Except Unit Bool :=
  match a, b with
  | some a, some b => .ok (a < b)
  | _, _ => .error ()

/-- The insertion point moves behind the values that are before the new one. -/
def advance {R : Type} (isBefore : R → Except Unit Bool) :
    List R → List R → Except Unit (List R × List R)
  | done, [] => .ok (done, [])
  | done, value :: rest => do
    if ← isBefore value then advance isBefore (done ++ [value]) rest
    else pure (done, value :: rest)

def insertRows {R : Type} (txStamp stamp : R → Option ℤ) :
    List R → List R → List R → Except Unit (List R)
  | [], done, rest => .ok (done ++ rest)
  | nextValue :: rows, done, rest => do
    let point ← advance (fun value => before (txStamp value) (txStamp nextValue)) done rest
    let point ← advance (fun value => before (stamp value) (stamp nextValue)) point.1 point.2
    insertRows txStamp stamp rows point.1 (nextValue :: point.2)

def mergeValues {R : Type} (txStamp stamp : R → Option ℤ) (rows values : List R) :
    Except Unit (List R) :=
  insertRows txStamp stamp rows [] values

namespace Context

/-! ### Time ranges -/

def hasMoreTimeToSync (ctx : Context) : Bool := ctx.currentRunStartTime < ctx.syncEndStamp

def getNextRunEndTime (ctx : Context) : ℤ :=
  let nextRunEndTime := ctx.currentRunStartTime + ctx.syncSplit
  if ctx.syncEndStamp < nextRunEndTime then ctx.syncEndStamp else nextRunEndTime

def setCurrentRunEndTime (ctx : Context) : Context :=
  { ctx with currentRunEndTime := ctx.getNextRunEndTime }

def advanceRunTimes (ctx : Context) : Context :=
  setCurrentRunEndTime { ctx with currentRunStartTime := ctx.currentRunEndTime }

def start (entities : List String) (syncEndStamp syncSplit syncEndBufferMillis
    currentRunStartTime : ℤ) : Context :=
  setCurrentRunEndTime
    { entityModelToUseList := entities
      entityNameToUseSet := entities
      syncEndStamp := syncEndStamp
      syncSplit := syncSplit
      syncEndBufferMillis := syncEndBufferMillis
      currentRunStartTime := currentRunStartTime
      currentRunEndTime := currentRunStartTime
      createTxTime := ⟨none, fun _ => none⟩
      updateTxTime := ⟨none, fun _ => none⟩
      nextRemoveTxTime := none }

/-! ### Values to create -/

def createRows (db : Database V) (ctx : Context) (entityName : String) : List (GenericValue V) :=
  orderBy (·.createdTxStamp) (·.createdStamp) <| db.values.filter fun value =>
    value.entityName == entityName &&
      inRange ctx.currentRunStartTime ctx.currentRunEndTime value.createdTxStamp

def firstCreated (db : Database V) (ctx : Context) (entityName : String) :
    Option (GenericValue V) :=
  (orderBy (·.createdTxStamp) (fun _ => none) <| db.values.filter fun value =>
    value.entityName == entityName &&
      value.createdTxStamp.any (ctx.currentRunEndTime ≤ ·)).head?

def startCheckStamp (ctx : Context) (currentTimeMillis : ℤ) : ℤ :=
  currentTimeMillis - ctx.syncEndBufferMillis

def nextCreated (db : Database V) (ctx : Context) (clock : String → ℤ) (entityName : String) :
    ℤ :=
  ((ctx.firstCreated db entityName).bind (·.createdTxStamp)).getD
    (ctx.startCheckStamp (clock entityName))

def createWindow (db : Database V) (ctx : Context) : Window String (GenericValue V) ℤ :=
  ⟨ctx.currentRunEndTime, ctx.createRows db⟩

def assembleValuesToCreate (db : Database V) (clock : String → ℤ) (ctx : Context) :
    Except SyncDataErrorException (List (GenericValue V) × Known String ℤ) :=
  (SkipAhead.pass (mergeValues (·.createdTxStamp) (·.createdStamp)) (ctx.createWindow db)
    (ctx.nextCreated db clock) ctx.entityModelToUseList ctx.createTxTime).mapError
      fun _ => ⟨"Caught runtime error while getting values to create"⟩

def queryValuesToCreate (db : Database V) (ctx : Context) :
    Except SyncDataErrorException (List (GenericValue V)) :=
  (SkipAhead.scan (mergeValues (·.createdTxStamp) (·.createdStamp)) (ctx.createWindow db)
    ctx.entityModelToUseList).mapError
      fun _ => ⟨"Caught runtime error while getting values to create"⟩

/-! ### Values to store -/

/-- The rows of an entity that were updated in the time range, but not created in it or after
it. -/
def storeRows (db : Database V) (ctx : Context) (entityName : String) : List (GenericValue V) :=
  orderBy (·.lastUpdatedTxStamp) (·.lastUpdatedStamp) <| db.values.filter fun value =>
    value.entityName == entityName &&
      (inRange ctx.currentRunStartTime ctx.currentRunEndTime value.lastUpdatedTxStamp &&
        value.createdTxStamp.all (· < ctx.currentRunStartTime))

/-- The first row of an entity that was created before the end of the time range and updated
after it. -/
def firstUpdated (db : Database V) (ctx : Context) (entityName : String) :
    Option (GenericValue V) :=
  (orderBy (·.lastUpdatedTxStamp) (fun _ => none) <| db.values.filter fun value =>
    value.entityName == entityName &&
      (value.lastUpdatedTxStamp.any (ctx.currentRunEndTime ≤ ·) &&
        value.createdTxStamp.any (· < ctx.currentRunEndTime))).head?

def nextUpdated (db : Database V) (ctx : Context) (clock : String → ℤ) (entityName : String) :
    ℤ :=
  ((ctx.firstUpdated db entityName).bind (·.createdTxStamp)).getD
    (ctx.startCheckStamp (clock entityName))

def storeWindow (db : Database V) (ctx : Context) : Window String (GenericValue V) ℤ :=
  ⟨ctx.currentRunEndTime, ctx.storeRows db⟩

def assembleValuesToStore (db : Database V) (clock : String → ℤ) (ctx : Context) :
    Except SyncDataErrorException (List (GenericValue V) × Known String ℤ) :=
  (SkipAhead.pass (mergeValues (·.lastUpdatedTxStamp) (·.lastUpdatedStamp)) (ctx.storeWindow db)
    (ctx.nextUpdated db clock) ctx.entityModelToUseList ctx.updateTxTime).mapError
      fun _ => ⟨"Caught runtime error while getting values to store"⟩

def queryValuesToStore (db : Database V) (ctx : Context) :
    Except SyncDataErrorException (List (GenericValue V)) :=
  (SkipAhead.scan (mergeValues (·.lastUpdatedTxStamp) (·.lastUpdatedStamp)) (ctx.storeWindow db)
    ctx.entityModelToUseList).mapError
      fun _ => ⟨"Caught runtime error while getting values to store"⟩

/-! ### Keys to remove -/

def removeRows (db : Database V) (ctx : Context) : List (EntitySyncRemove V) :=
  orderBy (·.lastUpdatedTxStamp) (·.lastUpdatedStamp) <| db.removed.filter fun value =>
    inRange ctx.currentRunStartTime ctx.currentRunEndTime value.lastUpdatedTxStamp

/-- The keys of removals, with their stamps; those of other entities are left out. -/
def deserializeKeys (ctx : Context) (rows : List (EntitySyncRemove V)) :
    Except SyncDataErrorException (List (GenericValue V)) :=
  rows.foldlM (fun keysToRemove entitySyncRemove =>
    match entitySyncRemove.primaryKeyRemoved with
    | none => .error ⟨"Caught runtime error while getting values to remove"⟩
    | some pkToRemove =>
      if ctx.entityNameToUseSet.contains pkToRemove.1 then
        .ok (keysToRemove ++ [{
          entityName := pkToRemove.1
          value := pkToRemove.2
          createdTxStamp := entitySyncRemove.createdTxStamp
          createdStamp := entitySyncRemove.createdStamp
          lastUpdatedTxStamp := entitySyncRemove.lastUpdatedTxStamp
          lastUpdatedStamp := entitySyncRemove.lastUpdatedStamp }])
      else .ok keysToRemove) []

def firstRemoved (db : Database V) (ctx : Context) : Option (EntitySyncRemove V) :=
  (orderBy (·.lastUpdatedTxStamp) (fun _ => none) <| db.removed.filter fun value =>
    value.lastUpdatedTxStamp.any (ctx.currentRunEndTime ≤ ·)).head?

def assembleKeysToRemove (db : Database V) (ctx : Context) :
    Except SyncDataErrorException (List (GenericValue V) × Option ℤ) :=
  if reaches ctx.nextRemoveTxTime ctx.currentRunEndTime then .ok ([], ctx.nextRemoveTxTime)
  else do
    let keysToRemove ← ctx.deserializeKeys (ctx.removeRows db)
    pure (keysToRemove,
      if keysToRemove.isEmpty then
        match (ctx.firstRemoved db).bind (·.lastUpdatedTxStamp) with
        | none => ctx.nextRemoveTxTime
        | some nextTxTime => lower ctx.nextRemoveTxTime nextTxTime
      else none)

def queryKeysToRemove (db : Database V) (ctx : Context) :
    Except SyncDataErrorException (List (GenericValue V)) :=
  ctx.deserializeKeys (ctx.removeRows db)

/-! ### Runs -/

/-- What a split sends. -/
structure Split (V : Type) where
  valuesToCreate : List (GenericValue V)
  valuesToStore : List (GenericValue V)
  keysToRemove : List (GenericValue V)

/-- The readings of the clock in a split, for the entities of the two passes. -/
structure Clock where
  create : String → ℤ
  store : String → ℤ

def runSplit (db : Database V) (clock : Clock) (ctx : Context) :
    Except SyncDataErrorException (Split V × Context) := do
  let created ← ctx.assembleValuesToCreate db clock.create
  let stored ← ctx.assembleValuesToStore db clock.store
  let removed ← ctx.assembleKeysToRemove db
  pure (⟨created.1, stored.1, removed.1⟩,
    advanceRunTimes { ctx with
      createTxTime := created.2
      updateTxTime := stored.2
      nextRemoveTxTime := removed.2 })

/-- The runs over a database that does not change: split after split, while there is time. -/
def system (db : Database V) : System Context Clock where
  init ctx := ∃ entities syncEndStamp syncSplit syncEndBufferMillis currentRunStartTime,
    ctx = start entities syncEndStamp syncSplit syncEndBufferMillis currentRunStartTime
  step ctx clock ctx' := ctx.hasMoreTimeToSync = true ∧
    ∃ split, ctx.runSplit db clock = .ok (split, ctx')

def later (ctx : Context) (k : ℕ) : Context := advanceRunTimes^[k] ctx

def LooksAt (ctx : Context) (known : Known String ℤ) (entityName : String) : Prop :=
  reaches (known.nextOf entityName) ctx.currentRunEndTime = false

/-- The times that the passes of a split leave do not reach over a row of a later split. -/
structure Foresees (db : Database V) (clock : Clock) (ctx : Context) : Prop where
  /-- Where no entity has a row to create and the time of all entities is set, it is the least of
  the entities looked at. No split before it has a row of an entity that was skipped. -/
  create : ctx.createTxTime.next = none →
    (∀ entity ∈ ctx.entityModelToUseList, ctx.createRows db entity = []) →
    (∃ entity ∈ ctx.entityModelToUseList, ctx.LooksAt ctx.createTxTime entity) →
    ∀ k, (∀ entity ∈ ctx.entityModelToUseList, ctx.LooksAt ctx.createTxTime entity →
        (ctx.later (k + 1)).currentRunEndTime ≤ ctx.nextCreated db clock.create entity) →
    ∀ entity ∈ ctx.entityModelToUseList, ¬ctx.LooksAt ctx.createTxTime entity →
      (ctx.later (k + 1)).createRows db entity = []
  /-- An entity without a row to store, and without a row that is there already and updated
  later, has no row to store before the reading of the clock. -/
  storeOne : reaches ctx.updateTxTime.next ctx.currentRunEndTime = false →
    ∀ entity ∈ ctx.entityModelToUseList, ctx.LooksAt ctx.updateTxTime entity →
    ctx.storeRows db entity = [] → ctx.firstUpdated db entity = none →
    ctx.updateTxTime.nextOf entity = none →
    ∀ k, (ctx.later (k + 1)).currentRunEndTime ≤ ctx.startCheckStamp (clock.store entity) →
      (ctx.later (k + 1)).storeRows db entity = []
  /-- Where no entity has a row to store and the time of all entities is set, no split before it
  has a row of an entity that was skipped, or that has no row that is there already and updated
  later. -/
  storeAll : ctx.updateTxTime.next = none →
    (∀ entity ∈ ctx.entityModelToUseList, ctx.storeRows db entity = []) →
    (∃ entity ∈ ctx.entityModelToUseList, ctx.LooksAt ctx.updateTxTime entity) →
    ∀ k, (∀ entity ∈ ctx.entityModelToUseList, ctx.LooksAt ctx.updateTxTime entity →
        (ctx.later (k + 1)).currentRunEndTime ≤ ctx.nextUpdated db clock.store entity) →
    ∀ entity ∈ ctx.entityModelToUseList,
      (¬ctx.LooksAt ctx.updateTxTime entity ∨ ctx.firstUpdated db entity = none) →
      (ctx.later (k + 1)).storeRows db entity = []

end Context

/-! ### Merging and ordering -/

section

variable {R : Type} {txStamp stamp : R → Option ℤ}

theorem length_advance {isBefore : R → Except Unit Bool} {done rest : List R}
    {point : List R × List R} (h : advance isBefore done rest = .ok point) :
    point.1.length + point.2.length = done.length + rest.length := by
  induction rest generalizing done with
  | nil =>
    cases h
    rfl
  | cons value rest ih =>
    rw [advance] at h
    obtain ⟨moves, -, h⟩ := Except.bind_eq_ok.mp h
    cases moves with
    | true =>
      have hlength := ih h
      rw [List.length_append, List.length_singleton] at hlength
      rw [hlength, List.length_cons]
      omega
    | false =>
      obtain rfl := Except.pure_eq_ok.mp h
      rfl

theorem length_insertRows {rows done rest values : List R}
    (h : insertRows txStamp stamp rows done rest = .ok values) :
    values.length = rows.length + (done.length + rest.length) := by
  induction rows generalizing done rest with
  | nil =>
    cases h
    rw [List.length_append, List.length_nil, Nat.zero_add]
  | cons nextValue rows ih =>
    rw [insertRows] at h
    obtain ⟨point, hpoint, h⟩ := Except.bind_eq_ok.mp h
    obtain ⟨point', hpoint', h⟩ := Except.bind_eq_ok.mp h
    have hlength := length_advance hpoint
    have hlength' := length_advance hpoint'
    rw [ih h, List.length_cons, List.length_cons]
    omega

theorem lawfulMerge_mergeValues : SkipAhead.LawfulMerge (mergeValues txStamp stamp) where
  nil _ := rfl
  eq_nil rows values values' h := by
    have hlength := length_insertRows h
    rw [← List.length_eq_zero_iff, ← List.length_eq_zero_iff (l := rows),
      ← List.length_eq_zero_iff (l := values), hlength, List.length_nil]
    omega

theorem stampLe_refl (a : Option ℤ) : stampLe a a = true := by
  cases a with
  | none => rfl
  | some a => simp [stampLe]

theorem stampLe_trans {a b c : Option ℤ} (hab : stampLe a b = true) (hbc : stampLe b c = true) :
    stampLe a c = true := by
  cases a <;> cases b <;> cases c <;> simp_all [stampLe]
  omega

theorem stampLe_total (a b : Option ℤ) : stampLe a b = true ∨ stampLe b a = true := by
  cases a <;> cases b <;> simp [stampLe]
  omega

theorem mem_orderBy {rows : List R} {value : R} :
    value ∈ orderBy txStamp stamp rows ↔ value ∈ rows := List.mem_insertionSort _

theorem stampLe_of_head {rows : List R} {first value : R}
    (h : (orderBy txStamp (fun _ => none) rows).head? = some first) (hvalue : value ∈ rows) :
    stampLe (txStamp first) (txStamp value) = true := by
  have hle (a b : R) : rowLe txStamp (fun _ => none) a b = true ↔
      stampLe (txStamp a) (txStamp b) = true := by
    rw [rowLe]
    split
    · rename_i heq
      simp only [heq, stampLe_refl]
    · rfl
  have : Std.Total fun a b : R => rowLe txStamp (fun _ => none) a b = true :=
    ⟨fun a b => by rw [hle, hle]; exact stampLe_total _ _⟩
  have : IsTrans R fun a b => rowLe txStamp (fun _ => none) a b = true :=
    ⟨fun a b c hab hbc => by rw [hle] at *; exact stampLe_trans hab hbc⟩
  have hsorted := List.pairwise_insertionSort
    (fun a b => rowLe txStamp (fun _ => none) a b = true) rows
  have hmem : value ∈ orderBy txStamp (fun _ => none) rows := mem_orderBy.mpr hvalue
  rw [← orderBy] at hsorted
  cases horder : orderBy txStamp (fun _ => none) rows with
  | nil =>
    rw [horder] at hmem
    cases hmem
  | cons first' rest =>
    rw [horder] at h hmem hsorted
    obtain rfl : first' = first := Option.some.inj h
    obtain rfl | hmem := List.mem_cons.mp hmem
    · exact stampLe_refl _
    · exact (hle _ _).mp (List.rel_of_pairwise_cons hsorted hmem)

theorem exists_of_any {stamp : Option ℤ} {p : ℤ → Bool} (h : stamp.any p = true) :
    ∃ t, stamp = some t ∧ p t = true := by
  cases stamp with
  | none => cases h
  | some t => exact ⟨t, rfl, h⟩

theorem inRange_iff {start stop : ℤ} {stamp : Option ℤ} :
    inRange start stop stamp = true ↔ ∃ t, stamp = some t ∧ start ≤ t ∧ t < stop := by
  cases stamp with
  | none => simp [inRange]
  | some t => simp [inRange]

end

/-! ### Later splits -/

namespace Context

variable {db : Database V} {ctx : Context}

def Timed (ctx : Context) : Prop := ctx.currentRunEndTime = ctx.getNextRunEndTime

theorem getNextRunEndTime_le (ctx : Context) :
    ctx.getNextRunEndTime ≤ ctx.syncEndStamp ∧
      ctx.getNextRunEndTime ≤ ctx.currentRunStartTime + ctx.syncSplit := by
  rw [getNextRunEndTime]
  split <;> omega

theorem le_getNextRunEndTime (hsplit : 0 < ctx.syncSplit)
    (hstart : ctx.currentRunStartTime ≤ ctx.syncEndStamp) :
    ctx.currentRunStartTime ≤ ctx.getNextRunEndTime := by
  rw [getNextRunEndTime]
  split <;> omega

theorem timed_advanceRunTimes (ctx : Context) : ctx.advanceRunTimes.Timed := rfl

theorem later_succ (ctx : Context) (k : ℕ) :
    ctx.later (k + 1) = (ctx.later k).advanceRunTimes :=
  Function.iterate_succ_apply' _ _ _

theorem later_fields (ctx : Context) (k : ℕ) :
    (ctx.later k).syncSplit = ctx.syncSplit ∧ (ctx.later k).syncEndStamp = ctx.syncEndStamp := by
  induction k with
  | zero => exact ⟨rfl, rfl⟩
  | succ k ih =>
    rw [later_succ]
    exact ih

theorem Timed.later (h : ctx.Timed) (k : ℕ) : (ctx.later k).Timed := by
  cases k with
  | zero => exact h
  | succ k =>
    rw [later_succ]
    exact timed_advanceRunTimes _

theorem le_later_start (h : ctx.Timed) (hsplit : 0 < ctx.syncSplit) (k : ℕ) :
    ctx.currentRunEndTime ≤ (ctx.later (k + 1)).currentRunStartTime := by
  induction k with
  | zero => exact le_rfl
  | succ k ih =>
    obtain ⟨hfields, hend⟩ := later_fields ctx (k + 1)
    have hbefore : (ctx.later (k + 1)).currentRunStartTime ≤ ctx.syncEndStamp := by
      rw [later_succ]
      show (ctx.later k).currentRunEndTime ≤ _
      rw [h.later k, ← (later_fields ctx k).2]
      exact (getNextRunEndTime_le _).1
    have hle : (ctx.later (k + 1)).currentRunStartTime ≤ (ctx.later (k + 1)).getNextRunEndTime :=
      le_getNextRunEndTime (hfields ▸ hsplit) (hend ▸ hbefore)
    rw [later_succ]
    show _ ≤ (ctx.later (k + 1)).currentRunEndTime
    rw [h.later (k + 1)]
    exact ih.trans hle

theorem le_of_inRange_later (h : ctx.Timed) {k : ℕ} {t : ℤ}
    (hstart : (ctx.later (k + 1)).currentRunStartTime ≤ t)
    (hend : t < (ctx.later (k + 1)).currentRunEndTime) : ctx.currentRunEndTime ≤ t := by
  by_cases hsplit : 0 < ctx.syncSplit
  · exact (le_later_start h hsplit k).trans hstart
  · -- the ranges of splits without a length are empty
    have hle := (getNextRunEndTime_le (ctx.later (k + 1))).2
    rw [← h.later (k + 1), (later_fields ctx (k + 1)).1] at hle
    omega

theorem mem_createRows {entityName : String} {value : GenericValue V} :
    value ∈ ctx.createRows db entityName ↔ value ∈ db.values ∧ value.entityName = entityName ∧
      ∃ t, value.createdTxStamp = some t ∧ ctx.currentRunStartTime ≤ t ∧
        t < ctx.currentRunEndTime := by
  rw [createRows, mem_orderBy, List.mem_filter, Bool.and_eq_true, beq_iff_eq, inRange_iff]

theorem mem_storeRows {entityName : String} {value : GenericValue V} :
    value ∈ ctx.storeRows db entityName ↔ value ∈ db.values ∧ value.entityName = entityName ∧
      (∃ t, value.lastUpdatedTxStamp = some t ∧ ctx.currentRunStartTime ≤ t ∧
        t < ctx.currentRunEndTime) ∧
      value.createdTxStamp.all (· < ctx.currentRunStartTime) = true := by
  rw [storeRows, mem_orderBy, List.mem_filter, Bool.and_eq_true, beq_iff_eq, Bool.and_eq_true,
    inRange_iff]

theorem mem_removeRows {value : EntitySyncRemove V} :
    value ∈ ctx.removeRows db ↔ value ∈ db.removed ∧
      ∃ t, value.lastUpdatedTxStamp = some t ∧ ctx.currentRunStartTime ≤ t ∧
        t < ctx.currentRunEndTime := by
  rw [removeRows, mem_orderBy, List.mem_filter, inRange_iff]

/-- **The next creation is the next one**: no later split that ends before it has a row of the
entity. -/
theorem createRows_later (h : ctx.Timed) {clock : String → ℤ} {entityName : String} {k : ℕ}
    (hle : (ctx.later (k + 1)).currentRunEndTime ≤ ctx.nextCreated db clock entityName) :
    (ctx.later (k + 1)).createRows db entityName = [] := by
  refine List.eq_nil_iff_forall_not_mem.mpr fun value hvalue => ?_
  obtain ⟨hmem, hentity, t, ht, hstart, hend⟩ := mem_createRows.mp hvalue
  have hafter := le_of_inRange_later h hstart hend
  have hcandidate : value ∈ db.values.filter fun value =>
      value.entityName == entityName &&
        value.createdTxStamp.any (ctx.currentRunEndTime ≤ ·) := by
    rw [List.mem_filter]
    exact ⟨hmem, by simp [hentity, ht, hafter]⟩
  cases hfirst : ctx.firstCreated db entityName with
  | none =>
    rw [firstCreated, List.head?_eq_none_iff] at hfirst
    exact List.not_mem_nil (hfirst ▸ mem_orderBy.mpr hcandidate)
  | some first =>
    have hstamps := stampLe_of_head hfirst hcandidate
    have hfirstMem := mem_orderBy.mp (List.mem_of_mem_head? hfirst)
    obtain ⟨t₀, ht₀, -⟩ := exists_of_any
      (Bool.and_eq_true_iff.mp (List.mem_filter.mp hfirstMem).2).2
    have hnext : ctx.nextCreated db clock entityName = t₀ := by
      rw [nextCreated, hfirst, Option.bind_some, ht₀, Option.getD_some]
    rw [ht₀, ht, stampLe, decide_eq_true_eq] at hstamps
    omega

theorem nextUpdated_lt {clock : String → ℤ} {entityName : String} {first : GenericValue V}
    (hfirst : ctx.firstUpdated db entityName = some first) :
    ctx.nextUpdated db clock entityName < ctx.currentRunEndTime := by
  have hmem := mem_orderBy.mp (List.mem_of_mem_head? hfirst)
  obtain ⟨t₀, ht₀, hlt⟩ := exists_of_any (Bool.and_eq_true_iff.mp
    (Bool.and_eq_true_iff.mp (List.mem_filter.mp hmem).2).2).2
  rw [nextUpdated, hfirst, Option.bind_some, ht₀, Option.getD_some]
  exact of_decide_eq_true hlt

theorem storeRows_later_of_le (h : ctx.Timed) {entityName : String} {k : ℕ}
    (hle : (ctx.later (k + 1)).currentRunEndTime ≤ ctx.currentRunEndTime) :
    (ctx.later (k + 1)).storeRows db entityName = [] := by
  refine List.eq_nil_iff_forall_not_mem.mpr fun value hvalue => ?_
  obtain ⟨-, -, ⟨t, -, hstart, hend⟩, -⟩ := mem_storeRows.mp hvalue
  have hafter := le_of_inRange_later h hstart hend
  omega

/-! ### The known times over a run -/

/-- What holds of the context before every split. -/
structure Sound (db : Database V) (ctx : Context) : Prop where
  timed : ctx.Timed
  create : SkipAhead.Valid (fun k => (ctx.later k).createWindow db) ctx.entityModelToUseList
    ctx.createTxTime
  update : SkipAhead.Valid (fun k => (ctx.later k).storeWindow db) ctx.entityModelToUseList
    ctx.updateTxTime
  remove : ∀ b, ctx.nextRemoveTxTime = some b →
    ∀ k, (ctx.later k).currentRunEndTime ≤ b → (ctx.later k).removeRows db = []

theorem sound_start (db : Database V) (entities : List String) (syncEndStamp syncSplit
    syncEndBufferMillis currentRunStartTime : ℤ) :
    (start entities syncEndStamp syncSplit syncEndBufferMillis currentRunStartTime).Sound db where
  timed := rfl
  create := SkipAhead.valid_nothing _ _
  update := SkipAhead.valid_nothing _ _
  remove _ h := nomatch h

theorem kept_create (h : ctx.Timed) {clock : Clock} (hforesees : ctx.Foresees db clock) :
    SkipAhead.Kept (fun k => (ctx.later k).createWindow db) (ctx.nextCreated db clock.create)
      ctx.entityModelToUseList ctx.createTxTime where
  quiet _ _ _ _ _ hle := createRows_later h hle
  all hnext hrows hsome k hle entity hentity := by
    by_cases hlooks : ctx.LooksAt ctx.createTxTime entity
    · exact createRows_later h (hle entity hentity ⟨hlooks, hrows entity hentity⟩)
    · obtain ⟨looked, hlooked, hquiet⟩ := hsome
      exact hforesees.create hnext hrows ⟨looked, hlooked, hquiet.1⟩ k
        (fun e he hlooks => hle e he ⟨hlooks, hrows e he⟩) entity hentity hlooks

theorem kept_update (h : ctx.Timed) {clock : Clock} (hforesees : ctx.Foresees db clock)
    (hreach : reaches ctx.updateTxTime.next ctx.currentRunEndTime = false) :
    SkipAhead.Kept (fun k => (ctx.later k).storeWindow db) (ctx.nextUpdated db clock.store)
      ctx.entityModelToUseList ctx.updateTxTime where
  quiet entity hentity hquiet hnextOf k hle := by
    cases hfirst : ctx.firstUpdated db entity with
    | some first => exact storeRows_later_of_le h (hle.trans (nextUpdated_lt hfirst).le)
    | none =>
      have hnext : ctx.nextUpdated db clock.store entity =
          ctx.startCheckStamp (clock.store entity) := by
        rw [nextUpdated, hfirst]
        rfl
      exact hforesees.storeOne hreach entity hentity hquiet.1 hquiet.2 hfirst hnextOf k
        (hnext ▸ hle)
  all hnext hrows hsome k hle entity hentity := by
    have hlater (hunseen : ¬ctx.LooksAt ctx.updateTxTime entity ∨
        ctx.firstUpdated db entity = none) : (ctx.later (k + 1)).storeRows db entity = [] := by
      obtain ⟨looked, hlooked, hquiet⟩ := hsome
      exact hforesees.storeAll hnext hrows ⟨looked, hlooked, hquiet.1⟩ k
        (fun e he hlooks => hle e he ⟨hlooks, hrows e he⟩) entity hentity hunseen
    by_cases hlooks : ctx.LooksAt ctx.updateTxTime entity
    · cases hfirst : ctx.firstUpdated db entity with
      | some first =>
        exact storeRows_later_of_le h
          ((hle entity hentity ⟨hlooks, hrows entity hentity⟩).trans (nextUpdated_lt hfirst).le)
      | none => exact hlater (.inr hfirst)
    · exact hlater (.inl hlooks)

theorem later_congr {ctx' : Context} (hstart : ctx'.currentRunStartTime = ctx.currentRunStartTime)
    (hend : ctx'.currentRunEndTime = ctx.currentRunEndTime)
    (hsyncEnd : ctx'.syncEndStamp = ctx.syncEndStamp) (hsplit : ctx'.syncSplit = ctx.syncSplit)
    (k : ℕ) : (ctx'.later k).currentRunStartTime = (ctx.later k).currentRunStartTime ∧
      (ctx'.later k).currentRunEndTime = (ctx.later k).currentRunEndTime := by
  induction k with
  | zero => exact ⟨hstart, hend⟩
  | succ k ih =>
    have hfields := later_fields ctx k
    have hfields' := later_fields ctx' k
    rw [later_succ, later_succ]
    refine ⟨ih.2, ?_⟩
    show getNextRunEndTime _ = getNextRunEndTime _
    simp only [getNextRunEndTime, ih.2, hfields.1, hfields.2, hfields'.1, hfields'.2, hsyncEnd,
      hsplit]

theorem createRows_congr {ctx' : Context}
    (hstart : ctx'.currentRunStartTime = ctx.currentRunStartTime)
    (hend : ctx'.currentRunEndTime = ctx.currentRunEndTime) :
    ctx'.createWindow db = ctx.createWindow db ∧ ctx'.storeWindow db = ctx.storeWindow db ∧
      ctx'.removeRows db = ctx.removeRows db := by
  refine ⟨?_, ?_, ?_⟩
  · simp only [createWindow, Window.mk.injEq]
    exact ⟨hend, funext fun entity => by simp only [createRows, hstart, hend]⟩
  · simp only [storeWindow, Window.mk.injEq]
    exact ⟨hend, funext fun entity => by simp only [storeRows, hstart, hend]⟩
  · simp only [removeRows, hstart, hend]

/-- **The removals are safe.** The known time of the next removal is kept. -/
theorem remove_assembleKeysToRemove (h : ctx.Sound db) {left : List (GenericValue V) × Option ℤ}
    (hleft : ctx.assembleKeysToRemove db = .ok left) {b : ℤ} (hb : left.2 = some b) (k : ℕ)
    (hle : (ctx.later (k + 1)).currentRunEndTime ≤ b) :
    (ctx.later (k + 1)).removeRows db = [] := by
  rw [assembleKeysToRemove] at hleft
  split at hleft
  · cases hleft
    exact h.remove b hb (k + 1) hle
  · obtain ⟨keys, -, hleft⟩ := Except.bind_eq_ok.mp hleft
    obtain rfl := Except.pure_eq_ok.mp hleft
    dsimp only at hb
    split at hb
    · cases hfirst : (ctx.firstRemoved db).bind (·.lastUpdatedTxStamp) with
      | none =>
        rw [hfirst] at hb
        exact h.remove b hb (k + 1) hle
      | some nextTxTime =>
        rw [hfirst] at hb
        dsimp only at hb
        cases hold : ctx.nextRemoveTxTime with
        | some b₀ =>
          obtain ⟨b', hb', hle'⟩ := SkipAhead.lower_le_of_some nextTxTime (le_refl b₀)
          rw [hold, hb'] at hb
          obtain rfl : b' = b := Option.some.inj hb
          exact h.remove b₀ hold (k + 1) (hle.trans hle')
        | none =>
          rw [hold] at hb
          obtain rfl : nextTxTime = b := Option.some.inj hb
          refine List.eq_nil_iff_forall_not_mem.mpr fun value hvalue => ?_
          obtain ⟨hmem, t, ht, hstart, hend⟩ := mem_removeRows.mp hvalue
          have hafter := le_of_inRange_later h.timed hstart hend
          obtain ⟨first, hfirst, htime⟩ := Option.bind_eq_some_iff.mp hfirst
          have hstamps := stampLe_of_head hfirst
            (List.mem_filter.mpr ⟨hmem, by simp [ht, hafter]⟩)
          rw [htime, ht, stampLe, decide_eq_true_eq] at hstamps
          omega
    · cases hb

/-- **One split.** Where its passes foresee the later splits, the known times stay sound. -/
theorem Sound.runSplit (h : ctx.Sound db) {clock : Clock} (hforesees : ctx.Foresees db clock)
    {split : Split V} {ctx' : Context} (hrun : ctx.runSplit db clock = .ok (split, ctx')) :
    ctx'.Sound db := by
  obtain ⟨created, hcreated, hrun⟩ := Except.bind_eq_ok.mp hrun
  obtain ⟨stored, hstored, hrun⟩ := Except.bind_eq_ok.mp hrun
  obtain ⟨removed, hremoved, hrun⟩ := Except.bind_eq_ok.mp hrun
  obtain ⟨-, rfl⟩ := Prod.mk.inj (Except.pure_eq_ok.mp hrun)
  let ctx' := advanceRunTimes { ctx with
    createTxTime := created.2, updateTxTime := stored.2, nextRemoveTxTime := removed.2 }
  have hstart : ctx'.currentRunStartTime = ctx.advanceRunTimes.currentRunStartTime := rfl
  have hend : ctx'.currentRunEndTime = ctx.advanceRunTimes.currentRunEndTime := rfl
  have hsyncEnd : ctx'.syncEndStamp = ctx.advanceRunTimes.syncEndStamp := rfl
  have hsplit : ctx'.syncSplit = ctx.advanceRunTimes.syncSplit := rfl
  have hlater (k : ℕ) :
      (ctx'.later k).currentRunStartTime = (ctx.advanceRunTimes.later k).currentRunStartTime ∧
      (ctx'.later k).currentRunEndTime = (ctx.advanceRunTimes.later k).currentRunEndTime :=
    later_congr hstart hend hsyncEnd hsplit k
  have hwindow (k : ℕ) : (ctx'.later k).createWindow db =
        (ctx.advanceRunTimes.later k).createWindow db ∧
      (ctx'.later k).storeWindow db = (ctx.advanceRunTimes.later k).storeWindow db ∧
      (ctx'.later k).removeRows db = (ctx.advanceRunTimes.later k).removeRows db :=
    createRows_congr (hlater k).1 (hlater k).2
  have hcreate := h.create.pass lawfulMerge_mergeValues
    (Except.mapError_eq_ok.mp hcreated) fun _ => kept_create h.timed hforesees
  have hupdate := h.update.pass lawfulMerge_mergeValues
    (Except.mapError_eq_ok.mp hstored) (kept_update h.timed hforesees)
  refine ⟨rfl, ?_, ?_, fun b hb k hle => ?_⟩
  · rw [show (fun k => _) = fun k => (ctx.later (k + 1)).createWindow db from
      funext fun k => (hwindow k).1]
    exact hcreate
  · rw [show (fun k => _) = fun k => (ctx.later (k + 1)).storeWindow db from
      funext fun k => (hwindow k).2.1]
    exact hupdate
  · rw [(hwindow k).2.2]
    exact remove_assembleKeysToRemove h hremoved hb k ((hlater k).2 ▸ hle)

theorem sound_of_reachable
    (h : ((system db).restrict fun ctx clock => ctx.Foresees db clock).Reachable ctx) :
    ctx.Sound db := by
  refine h.invariant ?_ ?_
  · rintro ctx ⟨entities, syncEndStamp, syncSplit, syncEndBufferMillis, currentRunStartTime, rfl⟩
    exact sound_start db entities syncEndStamp syncSplit syncEndBufferMillis currentRunStartTime
  · rintro ctx clock ctx' - hsound ⟨⟨-, split, hrun⟩, hforesees⟩
    exact hsound.runSplit hforesees hrun

/-- **Skipping ahead.** In a run whose splits foresee the later ones, every split returns what
the queries return without the known times. -/
theorem assemble_transparent
    (h : ((system db).restrict fun ctx clock => ctx.Foresees db clock).Reachable ctx)
    (clock : Clock) :
    (ctx.assembleValuesToCreate db clock.create).map Prod.fst = ctx.queryValuesToCreate db ∧
    (ctx.assembleValuesToStore db clock.store).map Prod.fst = ctx.queryValuesToStore db ∧
    (ctx.assembleKeysToRemove db).map Prod.fst = ctx.queryKeysToRemove db := by
  have hsound := sound_of_reachable h
  refine ⟨?_, ?_, ?_⟩
  · rw [assembleValuesToCreate, queryValuesToCreate, Except.map_mapError]
    exact congrArg (Except.mapError _)
      (SkipAhead.pass_fst lawfulMerge_mergeValues hsound.create)
  · rw [assembleValuesToStore, queryValuesToStore, Except.map_mapError]
    exact congrArg (Except.mapError _)
      (SkipAhead.pass_fst lawfulMerge_mergeValues hsound.update)
  · rw [assembleKeysToRemove, queryKeysToRemove]
    split
    · rename_i hreach
      obtain ⟨b, hb, hle⟩ := SkipAhead.reaches_iff.mp hreach
      have hrows : ctx.removeRows db = [] := hsound.remove b hb 0 hle
      rw [hrows]
      rfl
    · cases ctx.deserializeKeys (ctx.removeRows db) with
      | error e => rfl
      | ok keys => rfl

/-! ### A row that is skipped -/

def created (entityName : String) (t : ℤ) : GenericValue Unit :=
  ⟨entityName, (), some t, some t, some t, some t⟩

def oneRow : Database Unit := ⟨[created "Party" 25], []⟩

theorem storeRows_oneRow (ctx : Context) (entityName : String) :
    ctx.storeRows oneRow entityName = [] := by
  refine List.eq_nil_iff_forall_not_mem.mpr fun value hvalue => ?_
  obtain ⟨hmem, -, ⟨t, ht, hstart, -⟩, hcreated⟩ := mem_storeRows.mp hvalue
  obtain rfl := List.mem_singleton.mp hmem
  obtain rfl : 25 = t := Option.some.inj ht
  have hlt : (25 : ℤ) < ctx.currentRunStartTime := of_decide_eq_true hcreated
  omega

theorem assemble_transparent_oneRow :
    ∃ ctx : Context, ctx.currentRunStartTime = 10 ∧
      (ctx.assembleValuesToCreate oneRow fun _ => 1000).map Prod.fst =
        ctx.queryValuesToCreate oneRow := by
  have hinit : ((system oneRow).restrict fun ctx clock => ctx.Foresees oneRow clock).Reachable
      (start ["Party"] 50 10 0 0) := .init ⟨["Party"], 50, 10, 0, 0, rfl⟩
  have hforesees : (start ["Party"] 50 10 0 0).Foresees oneRow ⟨fun _ => 1000, fun _ => 1000⟩ :=
    { create := fun _ _ _ _ _ _ _ hskipped => absurd rfl hskipped
      storeOne := fun _ _ _ _ _ _ _ _ _ => storeRows_oneRow _ _
      storeAll := fun _ _ _ _ _ _ _ _ => storeRows_oneRow _ _ }
  exact ⟨_, rfl, (assemble_transparent
    (hinit.tail ⟨⟨rfl, _, rfl⟩, hforesees⟩) ⟨fun _ => 1000, fun _ => 1000⟩).1⟩

/-- Two entities. The only row of the first one is created in the third split. -/
def twoEntities : Database Unit :=
  ⟨[created "Party" 25, created "Product" 5, created "Product" 100], []⟩

def lateClock : Clock := ⟨fun _ => 1000, fun _ => 1000⟩

def twoEntitiesStart : Context := start ["Party", "Product"] 50 10 0 0

/-- In the second split the first entity is skipped and the second one has no row before 100; the
third split, which ends at 30, is skipped. -/
theorem exists_skipped_row :
    ∃ ctx, (system twoEntities).Reachable ctx ∧ ctx.hasMoreTimeToSync = true ∧
      (ctx.assembleValuesToCreate twoEntities lateClock.create).map Prod.fst = .ok [] ∧
      ctx.queryValuesToCreate twoEntities = .ok [created "Party" 25] := by
  have hinit : (system twoEntities).Reachable twoEntitiesStart :=
    .init ⟨["Party", "Product"], 50, 10, 0, 0, rfl⟩
  refine ⟨_, (hinit.tail (e := lateClock) ⟨rfl, _, rfl⟩).tail (e := lateClock) ⟨rfl, _, rfl⟩,
    rfl, rfl, rfl⟩

end Context

end OfficeAuto.Sync
