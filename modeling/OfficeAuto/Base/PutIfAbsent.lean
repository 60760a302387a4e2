import OfficeAuto.Base.PulseIdentity

/-!
# Values that are put if absent

`putIfAbsent` puts a value under a key that has none and returns the value that is there otherwise.
The line of a key hides both a value that is null and a value that has expired: a line with a null
value lets the call return null although nothing is put, and the value of an expired line is
returned until a worker has removed it. And the line that was made for nothing is cancelled, which
may cancel the pulse of another line that is due with it.

`putIfAbsentRight_iff` says that these are the only things that go wrong. It is about every state of
a cache, over either kind of map: one of unbounded memory and a linked one, which evicts lines
beyond its capacity. What the linked map evicts is its own affair (`Eviction`), up to the line that
was just put, and what it evicts loses its pulse, unless the map was made by `setMaxInMemory`, which
installs no listener.
-/

namespace OfficeAuto.Base

variable {K V : Type*}

/-! ### Maps -/

/-- The map of a cache. A linked map has a capacity, and may have the cache as its listener. -/
inductive Storage
  | concurrentHashMap
  | concurrentLinkedHashMap (capacity : ℕ) (hpos : 0 < capacity) (listener : Bool)

/-- What a linked map keeps of its entries, of which one may have been put just now. -/
structure Eviction (K V : Type*) [DecidableEq K] where
  evict : ℕ → Option K → (AList fun _ : K => CacheLine K V) → AList fun _ : K => CacheLine K V
  lookup_evict : ∀ capacity newest table k line,
    (evict capacity newest table).lookup k = some line → table.lookup k = some line
  lookup_newest : ∀ capacity k table, 0 < capacity →
    (evict capacity (some k) table).lookup k = table.lookup k
  length_le : ∀ capacity newest table, 0 < capacity →
    (evict capacity newest table).keys.length ≤ capacity

variable [DecidableEq K]

def Eviction.onlyNewest : Eviction K V where
  evict _ newest table := match newest with
    | none => ∅
    | some k => match table.lookup k with
      | none => ∅
      | some line => AList.singleton k line
  lookup_evict _ newest table k line h := by
    split at h
    · cases (AList.lookup_empty k).symm.trans h
    · split at h
      · cases (AList.lookup_empty k).symm.trans h
      next k' _ line' hline' =>
        rw [← AList.insert_empty, lookup_insert_eq] at h
        split_ifs at h with hk
        · rw [hk, ← Option.some.inj h, hline']
        · cases (AList.lookup_empty k).symm.trans h
  lookup_newest _ k table _ := by
    dsimp only
    split
    next hnone => exact (AList.lookup_empty k).trans hnone.symm
    next line hline => rw [← AList.insert_empty, AList.lookup_insert, hline]
  length_le capacity newest table hpos := by
    split
    · exact Nat.zero_le _
    · split
      · exact Nat.zero_le _
      · exact hpos

/-- A cache with the kind of its map. -/
structure StoredCache (K V : Type*) extends UtilCache K V where
  storage : Storage

namespace StoredCache

section

variable (Q : PulseQueue K V) (E : Eviction K V)

/-- A linked map evicts lines. The listener of the map removes their pulses. -/
def evict (cache : StoredCache K V) (newest : Option K) : StoredCache K V :=
  match cache.storage with
  | .concurrentHashMap => cache
  | .concurrentLinkedHashMap capacity _ listener =>
    let table := E.evict capacity newest cache.memoryTable
    let evicted := cache.memoryTable.entries.filter fun entry => (table.lookup entry.1).isNone
    { cache with
      memoryTable := table
      delayQueue :=
        if listener then evicted.foldl (fun queue entry => removePulse Q entry.2 queue)
          cache.delayQueue
        else cache.delayQueue }

/-- **`putInternal`**, with the value that was there before. -/
def putInternal (cache : StoredCache K V) (key : K) (value : Option V) (expireTimeNanos : ℤ) :
    Option V × StoredCache K V :=
  let (line, delayQueue) := cache.createCacheLine Q key value expireTimeNanos
  let stored := evict Q E
    { cache with memoryTable := cache.memoryTable.insert key line, delayQueue := delayQueue }
    (some key)
  match cache.memoryTable.lookup key with
  | none => (none, stored)
  | some oldCacheLine =>
    (oldCacheLine.value,
      { stored with delayQueue := removePulse Q oldCacheLine stored.delayQueue })

/-- **`putIfAbsentInternal`**, with the value that it returns. -/
def putIfAbsentInternal (cache : StoredCache K V) (key : K) (value : Option V)
    (expireTimeNanos : ℤ) : Option V × StoredCache K V :=
  let (newCacheLine, delayQueue) := cache.createCacheLine Q key value expireTimeNanos
  match cache.memoryTable.lookup key with
  | none =>
    (none, evict Q E
      { cache with
        memoryTable := cache.memoryTable.insert key newCacheLine
        delayQueue := delayQueue }
      (some key))
  | some oldCacheLine =>
    (oldCacheLine.value, { cache with delayQueue := removePulse Q newCacheLine delayQueue })

/-- **`setMaxInMemory`**: a linked map gets another capacity, and else the lines move to another
map. -/
def setMaxInMemory (cache : StoredCache K V) (newInMemory : ℤ) : StoredCache K V :=
  if h : 0 < newInMemory then
    let listener := match cache.storage with
      | .concurrentHashMap => false
      | .concurrentLinkedHashMap _ _ listener => listener
    evict Q E
      { cache with
        storage := .concurrentLinkedHashMap newInMemory.toNat (Int.pos_iff_toNat_pos.mp h)
          listener }
      none
  else { cache with storage := .concurrentHashMap }

end

end StoredCache

/-! ### Runs -/

/-- The calls of a cache, the clock, and the workers. A value is put with the expire time of the
cache or with one of its own. -/
inductive StoredEvent (K V : Type*)
  | put (key : K) (value : Option V) (expireTimeMillis : Option ℤ)
  | putIfAbsent (key : K) (value : Option V) (expireTimeMillis : Option ℤ)
  | remove (key : K)
  | clear
  | setExpireTime (expireTimeMillis : ℤ)
  | setMaxInMemory (newInMemory : ℤ)
  | advance (nanos : ℕ)
  | runPulse

namespace StoredCache

def expireTime (cache : StoredCache K V) : Option ℤ → ℤ
  | none => cache.expireTimeNanos
  | some expireTimeMillis => toNanos expireTimeMillis

def step (Q : PulseQueue K V) (E : Eviction K V) (cache : StoredCache K V) :
    StoredEvent K V → Option (StoredCache K V)
  | .put key value millis => some (cache.putInternal Q E key value (cache.expireTime millis)).2
  | .putIfAbsent key value millis =>
    some (cache.putIfAbsentInternal Q E key value (cache.expireTime millis)).2
  | .remove key => some { cache with toUtilCache := cache.toUtilCache.remove Q key }
  | .clear => some { cache with toUtilCache := cache.toUtilCache.clear }
  | .setExpireTime millis =>
    some { cache with toUtilCache := cache.toUtilCache.setExpireTime Q millis }
  | .setMaxInMemory newInMemory => some (cache.setMaxInMemory Q E newInMemory)
  | .advance nanos => some { cache with nanoTime := cache.nanoTime + nanos }
  | .runPulse =>
    (cache.toUtilCache.runPulse Q).map fun utilCache => { cache with toUtilCache := utilCache }

end StoredCache

def storedRuns (Q : PulseQueue K V) : System (StoredCache K V) (StoredEvent K V) where
  init cache := cache.memoryTable = ∅ ∧ cache.delayQueue = []
  step cache event cache' := ∃ E, cache.step Q E event = some cache'

/-! ### Limited memory -/

def StoredCache.Fits (cache : StoredCache K V) : Prop :=
  match cache.storage with
  | .concurrentHashMap => True
  | .concurrentLinkedHashMap capacity _ _ => cache.memoryTable.keys.length ≤ capacity

section

variable {Q : PulseQueue K V} {E : Eviction K V} {cache cache' : StoredCache K V}

omit [DecidableEq K] in
theorem StoredCache.Fits.of_le (h : cache.Fits) (hstorage : cache'.storage = cache.storage)
    (hle : cache'.memoryTable.keys.length ≤ cache.memoryTable.keys.length) : cache'.Fits := by
  rw [Fits] at h ⊢
  rw [hstorage]
  split at h
  · trivial
  · exact hle.trans h

theorem fits_evict (newest : Option K) : (cache.evict Q E newest).Fits := by
  rw [StoredCache.evict]
  rcases hstorage : cache.storage with _ | ⟨capacity, hpos, listener⟩
  · simp only [StoredCache.Fits, hstorage]
  · simp only [StoredCache.Fits]
    exact E.length_le capacity newest _ hpos

omit [DecidableEq K] in
theorem mem_keys_iff {table : AList fun _ : K => CacheLine K V} {k : K} :
    k ∈ table.keys ↔ ∃ entry ∈ table.entries, entry.1 = k := List.mem_map

theorem length_changeEntries {expireTimeNanos : ℤ} (cache : UtilCache K V)
    (entries : List (Sigma fun _ : K => CacheLine K V))
    (hkeys : ∀ entry ∈ entries, entry.1 ∈ cache.memoryTable.keys) :
    (entries.foldl (UtilCache.changeEntry Q expireTimeNanos) cache).memoryTable.keys.length =
      cache.memoryTable.keys.length := by
  induction entries generalizing cache with
  | nil => rfl
  | cons entry entries ih =>
    have hinsert : (cache.changeEntry Q expireTimeNanos entry).memoryTable.keys =
        entry.1 :: cache.memoryTable.keys.erase entry.1 := AList.keys_insert _
    rw [List.foldl_cons, ih]
    · rw [hinsert, List.length_cons,
        List.length_erase_add_one (hkeys entry List.mem_cons_self)]
    · intro entry' hentry'
      rw [hinsert]
      by_cases hk : entry'.1 = entry.1
      · exact hk ▸ List.mem_cons_self
      · exact List.mem_cons_of_mem _ ((List.mem_erase_of_ne hk).mpr
          (hkeys entry' (List.mem_cons_of_mem _ hentry')))

theorem length_setExpireTime (cache : UtilCache K V) (expireTimeMillis : ℤ) :
    (cache.setExpireTime Q expireTimeMillis).memoryTable.keys.length =
      cache.memoryTable.keys.length := by
  rw [UtilCache.setExpireTime]
  split_ifs
  · exact length_changeEntries _ _ fun entry hentry => mem_keys_iff.mpr ⟨entry, hentry, rfl⟩
  · rfl

theorem length_keys_erase_le (table : AList fun _ : K => CacheLine K V) (k : K) :
    (table.erase k).keys.length ≤ table.keys.length := by
  rw [AList.keys_erase]
  exact List.length_erase_le

theorem length_remove_le (cache : UtilCache K V) (key : K) :
    (cache.remove Q key).memoryTable.keys.length ≤ cache.memoryTable.keys.length := by
  rw [UtilCache.remove]
  split
  · exact Nat.le_refl _
  · exact length_keys_erase_le _ _

theorem length_removeLine_le (cache : UtilCache K V) (line : CacheLine K V) :
    (cache.removeLine Q line).memoryTable.keys.length ≤ cache.memoryTable.keys.length := by
  rw [UtilCache.removeLine]
  split
  · exact Nat.le_refl _
  · split_ifs
    · exact length_keys_erase_le _ _
    · exact Nat.le_refl _

theorem fits_step (h : cache.Fits) {event : StoredEvent K V}
    (hstep : cache.step Q E event = some cache') : cache'.Fits := by
  cases event with
  | put key value millis =>
    rw [← Option.some.inj hstep, StoredCache.putInternal]
    dsimp only
    split
    · exact fits_evict _
    · exact (fits_evict (some key)).of_le rfl (Nat.le_refl _)
  | putIfAbsent key value millis =>
    rw [← Option.some.inj hstep, StoredCache.putIfAbsentInternal]
    dsimp only
    split
    · exact fits_evict _
    · exact h.of_le rfl (Nat.le_refl _)
  | remove key => exact Option.some.inj hstep ▸ h.of_le rfl (length_remove_le _ key)
  | clear => exact Option.some.inj hstep ▸ h.of_le rfl (Nat.zero_le _)
  | setExpireTime millis =>
    exact Option.some.inj hstep ▸ h.of_le rfl (length_setExpireTime _ millis).le
  | setMaxInMemory newInMemory =>
    rw [← Option.some.inj hstep, StoredCache.setMaxInMemory]
    split_ifs
    · exact fits_evict _
    · trivial
  | advance nanos => exact Option.some.inj hstep ▸ h.of_le rfl (Nat.le_refl _)
  | runPulse =>
    obtain ⟨utilCache, hrun, rfl⟩ := Option.map_eq_some_iff.mp hstep
    obtain ⟨⟨pulse, rest⟩, -, rfl⟩ := Option.map_eq_some_iff.mp hrun
    exact h.of_le rfl (length_removeLine_le _ pulse)

/-- **A linked map never holds more lines than its capacity.** -/
theorem fits_of_reachable (h : (storedRuns Q).Reachable cache) : cache.Fits := by
  refine h.invariant (P := StoredCache.Fits) ?_ ?_
  · rintro cache ⟨hempty, -⟩
    rw [StoredCache.Fits, hempty]
    split
    · trivial
    · exact Nat.zero_le _
  · rintro cache event cache' - hfits ⟨E, hstep⟩
    exact fits_step hfits hstep

end

/-! ### The operation of a map -/

/-- A line lives while it has not expired; one without a load time does not expire. -/
def CacheLine.IsLive (line : CacheLine K V) (nanoTime : ℤ) : Prop :=
  0 < line.loadTimeNanos → nanoTime < line.expireTimeNanos

instance (line : CacheLine K V) (nanoTime : ℤ) : Decidable (line.IsLive nanoTime) :=
  inferInstanceAs (Decidable (_ → _))

namespace StoredCache

variable (Q : PulseQueue K V) (E : Eviction K V) (cache : StoredCache K V) (key : K)
  (value : Option V) (expireTimeNanos : ℤ)

def liveValue : Option V :=
  match cache.memoryTable.lookup key with
  | none => none
  | some line => if line.IsLive cache.nanoTime then line.value else none

/-- **The operation of a map**: the value is put if there is none, and the one that is there is
returned otherwise, with nothing changed up to the order of the queue. -/
def PutIfAbsentRight : Prop :=
  let (oldValue, cache') := cache.putIfAbsentInternal Q E key value expireTimeNanos
  match cache.liveValue key with
  | none => oldValue = none ∧ cache'.get key = value
  | some live => oldValue = some live ∧ cache'.delayQueue.Perm cache.delayQueue ∧
      cache' = { cache with delayQueue := cache'.delayQueue }

def newLine : CacheLine K V :=
  .create key value (if 0 < expireTimeNanos then cache.nanoTime else 0) expireTimeNanos

def IsApart : Prop :=
  let line := cache.newLine key value expireTimeNanos
  ∀ p ∈ cache.delayQueue, p.expireTimeNanos = line.expireTimeNanos →
    0 < line.loadTimeNanos ∧ p = line

end StoredCache

section

variable {Q : PulseQueue K V} {E : Eviction K V} {cache : StoredCache K V} {key : K}
  {value : Option V} {expireTimeNanos : ℤ}

omit [DecidableEq K] in
theorem StoredCache.createCacheLine_eq (Q : PulseQueue K V) (cache : StoredCache K V) (key : K)
    (value : Option V) (expireTimeNanos : ℤ) :
    ∃ queue, queue.Perm (registered (cache.newLine key value expireTimeNanos) cache.delayQueue) ∧
      cache.toUtilCache.createCacheLine Q key value expireTimeNanos =
        (cache.newLine key value expireTimeNanos, queue) :=
  ⟨_, tryRegister_perm, rfl⟩

theorem lookup_evict (Q : PulseQueue K V) (E : Eviction K V) (cache : StoredCache K V) (key : K) :
    (cache.evict Q E (some key)).memoryTable.lookup key = cache.memoryTable.lookup key := by
  rw [StoredCache.evict]
  split
  · rfl
  next capacity hpos listener _ => exact E.lookup_newest capacity key _ hpos

theorem putIfAbsentRight_of_none (h : cache.memoryTable.lookup key = none) :
    cache.PutIfAbsentRight Q E key value expireTimeNanos := by
  obtain ⟨queue, -, hcreate⟩ := cache.createCacheLine_eq Q key value expireTimeNanos
  rw [StoredCache.PutIfAbsentRight, StoredCache.putIfAbsentInternal, hcreate,
    StoredCache.liveValue, h]
  refine ⟨rfl, ?_⟩
  rw [UtilCache.get, lookup_evict, AList.lookup_insert]
  rfl

omit [DecidableEq K] in
/-- A line that is made for nothing leaves the queue as it was exactly if the pulses that are due
with it are the line itself. -/
theorem cancel_perm_iff :
    (∀ Q : PulseQueue K V, (removePulse Q (cache.newLine key value expireTimeNanos)
      (cache.toUtilCache.createCacheLine Q key value expireTimeNanos).2).Perm cache.delayQueue) ↔
      cache.IsApart key value expireTimeNanos := by
  constructor
  · intro h p hp hdue
    obtain ⟨queue, hperm, hcreate⟩ := cache.createCacheLine_eq (.removing _ p) key value
      expireTimeNanos
    have hrest := h (.removing _ p)
    rw [hcreate] at hrest
    have hmem : p ∈ queue := hperm.mem_iff.mpr <| by
      rw [registered]
      split_ifs
      · exact List.mem_cons_of_mem _ hp
      · exact hp
    -- the queue takes out the older pulse
    have hpulse := (hrest.cons p).symm.trans
      ((DelayQueue.remove_removing hmem hdue).symm.trans hperm)
    rw [registered] at hpulse
    split_ifs at hpulse with hload
    · refine ⟨hload, ?_⟩
      have hsingle : [p].Perm [cache.newLine key value expireTimeNanos] :=
        (List.perm_append_right_iff cache.delayQueue).mp hpulse
      exact List.singleton_perm_singleton.mp hsingle
    · exact absurd hpulse.length_eq (Nat.succ_ne_self _)
  · intro h Q
    obtain ⟨queue, hperm, hcreate⟩ := cache.createCacheLine_eq Q key value expireTimeNanos
    rw [hcreate]
    have hown : ∀ p ∈ queue,
        p.expireTimeNanos = (cache.newLine key value expireTimeNanos).expireTimeNanos →
          0 < (cache.newLine key value expireTimeNanos).loadTimeNanos ∧
            p = cache.newLine key value expireTimeNanos := by
      intro p hp hdue
      rcases mem_registered (hperm.mem_iff.mp hp) with hline | hp
      · exact hline
      · exact h p hp hdue
    rcases removePulse_cancels (Q := Q) fun p hp hdue => (hown p hp hdue).2 with
      hcancels | ⟨habsent, hsame⟩
    · have hload := (hown _ (hcancels.mem_iff.mpr List.mem_cons_self) rfl).1
      rw [registered, if_pos hload] at hperm
      exact (hcancels.symm.trans hperm).cons_inv
    · refine hsame.trans (hperm.trans ?_)
      rw [registered, if_neg]
      intro hload
      rw [registered, if_pos hload] at hperm
      exact habsent (hperm.mem_iff.mpr List.mem_cons_self)

theorem putIfAbsentRight_of_some {line : CacheLine K V}
    (h : cache.memoryTable.lookup key = some line) :
    cache.PutIfAbsentRight Q E key value expireTimeNanos ↔
      match line.value with
      | none => value = none
      | some _ => line.IsLive cache.nanoTime ∧
          (removePulse Q (cache.newLine key value expireTimeNanos)
            (cache.toUtilCache.createCacheLine Q key value expireTimeNanos).2).Perm
              cache.delayQueue := by
  obtain ⟨queue, -, hcreate⟩ := cache.createCacheLine_eq Q key value expireTimeNanos
  have hget : ∀ delayQueue, UtilCache.get ⟨cache.memoryTable, cache.expireTimeNanos, delayQueue,
      cache.nanoTime⟩ key = line.value := by
    intro delayQueue
    rw [UtilCache.get, h]
    rfl
  rw [StoredCache.PutIfAbsentRight, StoredCache.putIfAbsentInternal, hcreate,
    StoredCache.liveValue, h]
  rcases hvalue : line.value with _ | live
  · simp only [hvalue, ite_self, hget]
    exact (and_iff_right trivial).trans eq_comm
  · by_cases hlive : line.IsLive cache.nanoTime
    · simp only [hvalue, if_pos hlive]
      exact ⟨fun hright => ⟨hlive, hright.2.1⟩, fun hright => ⟨trivial, hright.2, trivial⟩⟩
    · simp only [hvalue, if_neg hlive]
      exact iff_of_false (fun hright => Option.some_ne_none _ hright.1) fun hright =>
        hlive hright.1

/-- **Exactly these things go wrong**: a line with a null value, a line that has expired, and a
pulse that is due with the line that is made for nothing. -/
theorem putIfAbsentRight_iff (cache : StoredCache K V) (key : K) (value : Option V)
    (expireTimeNanos : ℤ) :
    (∀ Q E, cache.PutIfAbsentRight Q E key value expireTimeNanos) ↔
      match cache.memoryTable.lookup key with
      | none => True
      | some line =>
        match line.value with
        | none => value = none
        | some _ => line.IsLive cache.nanoTime ∧ cache.IsApart key value expireTimeNanos := by
  rcases hline : cache.memoryTable.lookup key with _ | line
  · exact iff_of_true (fun _ _ => putIfAbsentRight_of_none hline) trivial
  · simp only [putIfAbsentRight_of_some hline]
    rcases line.value with _ | live
    · exact ⟨fun h => h (.ofList _) .onlyNewest, fun h _ _ => h⟩
    · rw [← cancel_perm_iff]
      exact ⟨fun h => ⟨(h (.ofList _) .onlyNewest).1, fun Q => (h Q .onlyNewest).2⟩,
        fun h Q _ => ⟨h.1, h.2 Q⟩⟩

theorem not_putIfAbsentRight_null : ∃ cache : StoredCache Unit Char,
    (storedRuns listQueue).Reachable cache ∧
      ¬cache.PutIfAbsentRight listQueue .onlyNewest () (some 'a') 0 := by
  have hinit : (storedRuns listQueue).Reachable ⟨⟨∅, 0, [], 1⟩, .concurrentHashMap⟩ :=
    .init ⟨rfl, rfl⟩
  have hput := hinit.tail (e := .put () none none) ⟨.onlyNewest, rfl⟩
  exact ⟨_, hput, fun hright => Option.some_ne_none 'a' hright.2.symm⟩

end

end OfficeAuto.Base
