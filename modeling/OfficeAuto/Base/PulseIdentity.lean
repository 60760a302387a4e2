import OfficeAuto.Base.UtilCache

/-!
# The pulses of several caches

All caches of a process share the queue of the `ExecutionPool`, in which pulses are equal if they
are due at the same time, whatever line and whatever cache they belong to. So the line that is
replaced or removed may cancel the pulse of another one (`not_exact_remove`), and that one stays in
its cache for good.

`Exact` says for each call what it is to do: it takes out one line, with the pulse that is this
very line. The calls are exact in the runs that never make a line due with a waiting pulse or
with another line, and never register a line once more (`exact_of_apart`): there each pulse waits
at a time of its own, and a pulse that is due with a line is that line (`OwnPulses`).

The caches have unbounded memory and no soft references.
-/

namespace OfficeAuto.Base

variable {C K V : Type*}

/-! ### The caches of a process -/

/-- The lines of all caches, each under its cache and its key, and the queue that they share. -/
structure CachePool (C K V : Type*) where
  memoryTable : AList fun _ : C × K => CacheLine (C × K) V
  expireTimeNanos : C → ℤ
  delayQueue : Pulses (C × K) V
  nanoTime : ℤ

/-- The calls of the caches, the clock, and the workers. A value is put with the expire time of its
cache or with one of its own. -/
inductive PoolEvent (C K V : Type*)
  | put (c : C) (key : K) (value : Option V) (expireTimeMillis : Option ℤ)
  | putIfAbsent (c : C) (key : K) (value : Option V) (expireTimeMillis : Option ℤ)
  | remove (c : C) (key : K)
  | clear (c : C)
  | setExpireTime (c : C) (expireTimeMillis : ℤ)
  | advance (nanos : ℕ)
  | runPulse

namespace CachePool

def cache (pool : CachePool C K V) (c : C) : UtilCache (C × K) V :=
  ⟨pool.memoryTable, pool.expireTimeNanos c, pool.delayQueue, pool.nanoTime⟩

def expireTime (pool : CachePool C K V) (c : C) : Option ℤ → ℤ
  | none => pool.expireTimeNanos c
  | some expireTimeMillis => toNanos expireTimeMillis

variable [DecidableEq C]

def update (pool : CachePool C K V) (c : C) (cache : UtilCache (C × K) V) : CachePool C K V :=
  ⟨cache.memoryTable, Function.update pool.expireTimeNanos c cache.expireTimeNanos,
    cache.delayQueue, cache.nanoTime⟩

def entrySet (pool : CachePool C K V) (c : C) : List (Sigma fun _ : C × K => CacheLine (C × K) V) :=
  pool.memoryTable.entries.filter fun entry => entry.1.1 = c

variable [DecidableEq K] (Q : PulseQueue (C × K) V)

def clear (pool : CachePool C K V) (c : C) : CachePool C K V :=
  { pool with
    memoryTable := (pool.entrySet c).foldl (fun table entry => table.erase entry.1)
      pool.memoryTable }

/-- **`setExpireTime`** of a cache. -/
def setExpireTime (pool : CachePool C K V) (c : C) (expireTimeMillis : ℤ) : CachePool C K V :=
  if 0 < expireTimeMillis then
    pool.update c <| (pool.entrySet c).foldl
      (UtilCache.changeEntry Q (toNanos expireTimeMillis))
      { pool.cache c with expireTimeNanos := toNanos expireTimeMillis }
  else pool.update c { pool.cache c with expireTimeNanos := 0 }

/-- A worker takes a pulse that is due, which removes its line from its cache. -/
def runPulse (pool : CachePool C K V) : Option (CachePool C K V) :=
  (Q.take pool.nanoTime pool.delayQueue).map fun (pulse, delayQueue) =>
    -- the queue is one for all caches, so the pulse says whose line it is
    pool.update pulse.key.1
      ({ pool.cache pulse.key.1 with delayQueue := delayQueue }.removeLine Q pulse)

def step (pool : CachePool C K V) : PoolEvent C K V → Option (CachePool C K V)
  | .put c key value expireTimeMillis =>
    some <| pool.update c <|
      (pool.cache c).putInternal Q (c, key) value (pool.expireTime c expireTimeMillis)
  | .putIfAbsent c key value expireTimeMillis =>
    some <| pool.update c <|
      (pool.cache c).putIfAbsentInternal Q (c, key) value (pool.expireTime c expireTimeMillis)
  | .remove c key => some (pool.update c ((pool.cache c).remove Q (c, key)))
  | .clear c => some (pool.clear c)
  | .setExpireTime c expireTimeMillis => some (pool.setExpireTime Q c expireTimeMillis)
  | .advance nanos => some { pool with nanoTime := pool.nanoTime + nanos }
  | .runPulse => pool.runPulse Q

end CachePool

variable [DecidableEq C] [DecidableEq K] (Q : PulseQueue (C × K) V)

def poolRuns : System (CachePool C K V) (PoolEvent C K V) :=
  .ofStep (fun pool => pool.memoryTable = ∅ ∧ pool.delayQueue = []) (CachePool.step Q)

/-! ### Exact calls -/

def CachePool.newLine (pool : CachePool C K V) (key : C × K) (value : Option V)
    (expireTimeNanos : ℤ) : CacheLine (C × K) V :=
  .create key value (if 0 < expireTimeNanos then pool.nanoTime else 0) expireTimeNanos

/-- The queue with the pulse of a new line, which waits if the line is registered. -/
def registered (line : CacheLine K V) (queue : Pulses K V) : Pulses K V :=
  if 0 < line.loadTimeNanos then line :: queue else queue

/-- The pulse that is this very line is cancelled, if it waits, and no other one. -/
def Cancels (line : CacheLine K V) (queue queue' : Pulses K V) : Prop :=
  queue.Perm (line :: queue') ∨ line ∉ queue ∧ queue'.Perm queue

/-- **What a call is to do**: it removes one line with its own pulse. -/
def Exact (pool pool' : CachePool C K V) : PoolEvent C K V → Prop
  | .put c key value expireTimeMillis =>
    let line := pool.newLine (c, key) value (pool.expireTime c expireTimeMillis)
    (∀ k, pool'.memoryTable.lookup k =
      if k = (c, key) then some line else pool.memoryTable.lookup k) ∧
      match pool.memoryTable.lookup (c, key) with
      | none => pool'.delayQueue.Perm (registered line pool.delayQueue)
      | some old => Cancels old (registered line pool.delayQueue) pool'.delayQueue
  | .putIfAbsent c key value expireTimeMillis =>
    let line := pool.newLine (c, key) value (pool.expireTime c expireTimeMillis)
    match pool.memoryTable.lookup (c, key) with
    | none =>
      (∀ k, pool'.memoryTable.lookup k =
        if k = (c, key) then some line else pool.memoryTable.lookup k) ∧
        pool'.delayQueue.Perm (registered line pool.delayQueue)
    | some _ =>
      (∀ k, pool'.memoryTable.lookup k = pool.memoryTable.lookup k) ∧
        pool'.delayQueue.Perm pool.delayQueue
  | .remove c key =>
    (∀ k, pool'.memoryTable.lookup k =
      if k = (c, key) then none else pool.memoryTable.lookup k) ∧
      match pool.memoryTable.lookup (c, key) with
      | none => pool'.delayQueue.Perm pool.delayQueue
      | some old => Cancels old pool.delayQueue pool'.delayQueue
  | .clear c =>
    (∀ k, pool'.memoryTable.lookup k =
      if k.1 = c then none else pool.memoryTable.lookup k) ∧
      pool'.delayQueue.Perm pool.delayQueue
  | .setExpireTime _ _ | .advance _ =>
    (∀ k, pool'.memoryTable.lookup k = pool.memoryTable.lookup k) ∧
      pool'.delayQueue.Perm pool.delayQueue
  | .runPulse => ∃ pulse, pulse.expireTimeNanos ≤ pool.nanoTime ∧
      pool.delayQueue.Perm (pulse :: pool'.delayQueue) ∧
      ∀ k line, pool'.memoryTable.lookup k = some line ↔
        pool.memoryTable.lookup k = some line ∧ line ≠ pulse

/-! ### Times of their own -/

def CachePool.IsApart (pool : CachePool C K V) (line : CacheLine (C × K) V) : Prop :=
  ∀ p ∈ pool.delayQueue, p.expireTimeNanos ≠ line.expireTimeNanos

def CachePool.IsApartFromLines (pool : CachePool C K V) (line : CacheLine (C × K) V) : Prop :=
  0 < line.loadTimeNanos → ∀ k other, pool.memoryTable.lookup k = some other →
    other.expireTimeNanos ≠ line.expireTimeNanos

/-- A line is made at a time of its own, and none is registered once more. -/
def Apart (pool : CachePool C K V) : PoolEvent C K V → Prop
  | .put c key value expireTimeMillis =>
    let line := pool.newLine (c, key) value (pool.expireTime c expireTimeMillis)
    pool.IsApart line ∧ pool.IsApartFromLines line
  | .putIfAbsent c key value expireTimeMillis =>
    let line := pool.newLine (c, key) value (pool.expireTime c expireTimeMillis)
    pool.IsApart line ∧
      (pool.memoryTable.lookup (c, key) = none → pool.IsApartFromLines line)
  | .setExpireTime c expireTimeMillis => 0 < expireTimeMillis →
    ∀ key line, pool.memoryTable.lookup (c, key) = some line → 0 < line.loadTimeNanos →
      line.differentExpireTime (toNanos expireTimeMillis) = true
  | _ => True

/-! ### Cancelled pulses -/

section Cancels

variable {K : Type*} {line p : CacheLine K V} {queue queue' : Pulses K V} {Q : PulseQueue K V}

theorem Cancels.subset (h : Cancels line queue queue') (hp : p ∈ queue') : p ∈ queue := by
  rcases h with hperm | ⟨-, hperm⟩
  · exact hperm.mem_iff.mpr (List.mem_cons_of_mem _ hp)
  · exact hperm.mem_iff.mp hp

theorem Cancels.nodup (h : Cancels line queue queue')
    (hnodup : (queue.map CacheLine.expireTimeNanos).Nodup) :
    (queue'.map CacheLine.expireTimeNanos).Nodup := by
  rcases h with hperm | ⟨-, hperm⟩
  · exact (List.nodup_cons.mp ((hperm.map _).nodup_iff.mp hnodup)).2
  · exact (hperm.map _).nodup_iff.mpr hnodup

theorem Cancels.of_perm {queue₁ : Pulses K V} (h : Cancels line queue₁ queue')
    (hperm : queue₁.Perm queue) : Cancels line queue queue' := by
  rcases h with h | ⟨hline, h⟩
  · exact .inl (hperm.symm.trans h)
  · exact .inr ⟨fun hmem => hline (hperm.mem_iff.mpr hmem), h.trans hperm⟩

theorem removePulse_cancels (h : ∀ p ∈ queue, p.expireTimeNanos = line.expireTimeNanos → p = line) :
    Cancels line queue (removePulse Q line queue) := by
  by_cases hex : ∃ p ∈ queue, p.expireTimeNanos = line.expireTimeNanos
  · obtain ⟨p, hdue, hperm⟩ := Q.remove_of_exists line queue hex
    rw [h p (hperm.mem_iff.mpr List.mem_cons_self) hdue] at hperm
    exact .inl hperm
  · have hnone : ∀ p ∈ queue, p.expireTimeNanos ≠ line.expireTimeNanos :=
      fun p hp hdue => hex ⟨p, hp, hdue⟩
    exact .inr ⟨fun hmem => hnone line hmem rfl, Q.remove_of_forall line queue hnone⟩

theorem mem_registered (h : p ∈ registered line queue) :
    0 < line.loadTimeNanos ∧ p = line ∨ p ∈ queue := by
  rw [registered] at h
  split_ifs at h with hload
  · exact (List.mem_cons.mp h).imp_left fun heq => ⟨hload, heq⟩
  · exact .inr h

theorem tryRegister_perm :
    (tryRegister Q line.loadTimeNanos line queue).2.Perm (registered line queue) := by
  rw [tryRegister, registered]
  split_ifs
  · exact Q.add_perm line queue
  · exact .refl _

theorem Cancels.of_registered (h : Cancels line (registered line queue) queue')
    (hline : line ∉ queue) : queue'.Perm queue := by
  rw [registered] at h
  split_ifs at h
  · rcases h with hperm | ⟨habsent, -⟩
    · exact (hperm.cons_inv).symm
    · exact absurd List.mem_cons_self habsent
  · rcases h with hperm | ⟨-, hperm⟩
    · exact absurd (hperm.mem_iff.mpr List.mem_cons_self) hline
    · exact hperm

end Cancels

/-! ### Pulses of their own -/

/-- Each pulse waits at a time of its own, and one that is due with a line is that line. -/
structure OwnPulses (table : AList fun _ : K => CacheLine K V) (queue : Pulses K V) : Prop where
  nodup : (queue.map CacheLine.expireTimeNanos).Nodup
  key : ∀ k line, table.lookup k = some line → line.key = k
  own : ∀ k line, table.lookup k = some line → ∀ p ∈ queue,
    p.expireTimeNanos = line.expireTimeNanos → p = line

namespace OwnPulses

variable {K : Type*} [DecidableEq K] {table table' : AList fun _ : K => CacheLine K V}
  {queue queue' : Pulses K V}

theorem mono (h : OwnPulses table queue)
    (htable : ∀ k line, table'.lookup k = some line → table.lookup k = some line)
    (hqueue : ∀ p ∈ queue', p ∈ queue)
    (hnodup : (queue'.map CacheLine.expireTimeNanos).Nodup) : OwnPulses table' queue' :=
  ⟨hnodup, fun k line hline => h.key k line (htable k line hline),
    fun k line hline p hp => h.own k line (htable k line hline) p (hqueue p hp)⟩

theorem perm (h : OwnPulses table queue)
    (htable : ∀ k line, table'.lookup k = some line → table.lookup k = some line)
    (hperm : queue'.Perm queue) : OwnPulses table' queue' :=
  h.mono htable (fun _ hp => hperm.mem_iff.mp hp) ((hperm.map _).nodup_iff.mpr h.nodup)

theorem store (h : OwnPulses table queue) {line : CacheLine K V} {k : K} (hkey : line.key = k)
    (hpulses : ∀ p ∈ queue, p.expireTimeNanos ≠ line.expireTimeNanos)
    (hlines : 0 < line.loadTimeNanos → ∀ k other, table.lookup k = some other →
      other.expireTimeNanos ≠ line.expireTimeNanos)
    (htable : ∀ k', table'.lookup k' = if k' = k then some line else table.lookup k') :
    OwnPulses table' (registered line queue) where
  nodup := by
    rw [registered]
    split_ifs
    · refine List.nodup_cons.mpr ⟨fun hmem => ?_, h.nodup⟩
      obtain ⟨p, hp, hdue⟩ := List.mem_map.mp hmem
      exact hpulses p hp hdue
    · exact h.nodup
  key := fun k' other hother => by
    rw [htable] at hother
    split_ifs at hother with hk
    · rw [hk, ← Option.some.inj hother, hkey]
    · exact h.key k' other hother
  own := fun k' other hother p hp hdue => by
    rw [htable] at hother
    rcases mem_registered hp with ⟨hload, rfl⟩ | hp
    · split_ifs at hother
      · exact Option.some.inj hother
      · exact absurd hdue.symm (hlines hload k' other hother)
    · split_ifs at hother
      · rw [← Option.some.inj hother] at hdue
        exact absurd hdue (hpulses p hp)
      · exact h.own k' other hother p hp hdue

end OwnPulses

/-! ### Calls -/

section Exact

variable {Q : PulseQueue (C × K) V} {pool pool' : CachePool C K V}

theorem lookup_foldl_erase {K : Type*} [DecidableEq K] {β : K → Type*}
    (entries : List (Sigma β)) (table : AList β) (k : K) :
    (entries.foldl (fun table entry => table.erase entry.1) table).lookup k =
      if k ∈ entries.map Sigma.fst then none else table.lookup k := by
  induction entries generalizing table with
  | nil => rfl
  | cons entry entries ih =>
    rw [List.foldl_cons, ih, List.map_cons]
    by_cases hk : k = entry.1
    · subst hk
      rw [if_pos List.mem_cons_self, AList.lookup_erase, ite_self]
    · rw [AList.lookup_erase_ne hk]
      exact if_congr (List.mem_cons.trans (or_iff_right hk)).symm rfl rfl

theorem exact_clear (c : C) : Exact pool (pool.clear c) (.clear c) := by
  refine ⟨fun k => ?_, .refl _⟩
  rw [CachePool.clear, lookup_foldl_erase]
  by_cases hc : k.1 = c
  · rw [if_pos hc]
    rcases hline : pool.memoryTable.lookup k with _ | line
    · exact ite_self none
    · have hmem : (⟨k, line⟩ : Sigma fun _ : C × K => CacheLine (C × K) V) ∈ pool.entrySet c :=
        List.mem_filter.mpr ⟨AList.mem_lookup_iff.mp hline, decide_eq_true hc⟩
      exact if_pos (List.mem_map.mpr ⟨_, hmem, rfl⟩)
  · rw [if_neg hc, if_neg]
    intro hmem
    obtain ⟨entry, hentry, rfl⟩ := List.mem_map.mp hmem
    exact hc (of_decide_eq_true (List.mem_filter.mp hentry).2)

theorem changeEntries_eq {K : Type*} [DecidableEq K] {Q : PulseQueue K V} {expireTimeNanos : ℤ}
    {entries : List (Sigma fun _ : K => CacheLine K V)} (cache : UtilCache K V)
    (hentries : ∀ entry ∈ entries, cache.memoryTable.lookup entry.1 = some entry.2)
    (hsame : ∀ entry ∈ entries, 0 < entry.2.loadTimeNanos →
      entry.2.differentExpireTime expireTimeNanos = true) :
    (∀ k, (entries.foldl (UtilCache.changeEntry Q expireTimeNanos) cache).memoryTable.lookup k =
      cache.memoryTable.lookup k) ∧
      (entries.foldl (UtilCache.changeEntry Q expireTimeNanos) cache).delayQueue =
        cache.delayQueue := by
  induction entries generalizing cache with
  | nil => exact ⟨fun _ => rfl, rfl⟩
  | cons entry entries ih =>
    have hlookup : ∀ k, (cache.changeEntry Q expireTimeNanos entry).memoryTable.lookup k =
        cache.memoryTable.lookup k := by
      intro k
      simp only [UtilCache.changeEntry, changeLine_fst]
      by_cases hk : k = entry.1
      · rw [hk, AList.lookup_insert, hentries entry List.mem_cons_self]
      · exact AList.lookup_insert_ne hk
    have hqueue : (cache.changeEntry Q expireTimeNanos entry).delayQueue = cache.delayQueue := by
      by_cases hdiff : entry.2.differentExpireTime expireTimeNanos = true
      · simp only [UtilCache.changeEntry, CacheLine.changeLine, if_pos hdiff]
      · rcases changeLine_snd (Q := Q) entry.2 expireTimeNanos cache.delayQueue with
          hsnd | ⟨hload, -⟩
        · exact hsnd
        · exact absurd (hsame entry List.mem_cons_self hload) hdiff
    obtain ⟨htable, hrest⟩ := ih (cache.changeEntry Q expireTimeNanos entry)
      (fun entry' hentry' =>
        (hlookup _).trans (hentries entry' (List.mem_cons_of_mem _ hentry')))
      fun entry' hentry' => hsame entry' (List.mem_cons_of_mem _ hentry')
    exact ⟨fun k => (htable k).trans (hlookup k), hrest.trans hqueue⟩

theorem exact_setExpireTime {c : C} {expireTimeMillis : ℤ}
    (hsame : Apart pool (.setExpireTime c expireTimeMillis)) :
    Exact pool (pool.setExpireTime Q c expireTimeMillis) (.setExpireTime c expireTimeMillis) := by
  by_cases hset : 0 < expireTimeMillis
  · have hentry : ∀ entry ∈ pool.entrySet c, entry.1.1 = c ∧
        pool.memoryTable.lookup entry.1 = some entry.2 := fun entry hentry =>
      ⟨of_decide_eq_true (List.mem_filter.mp hentry).2,
        AList.mem_lookup_iff.mpr (List.mem_filter.mp hentry).1⟩
    obtain ⟨htable, hqueue⟩ := changeEntries_eq (Q := Q)
      { pool.cache c with expireTimeNanos := toNanos expireTimeMillis }
      (fun entry hmem => (hentry entry hmem).2) fun entry hmem hload => by
        obtain ⟨hc, hline⟩ := hentry entry hmem
        exact hsame hset entry.1.2 entry.2 (hc ▸ hline) hload
    rw [CachePool.setExpireTime, if_pos hset]
    exact ⟨htable, .of_eq hqueue⟩
  · rw [CachePool.setExpireTime, if_neg hset]
    exact ⟨fun _ => rfl, .refl _⟩

theorem exact_remove (h : OwnPulses pool.memoryTable pool.delayQueue) (c : C) (key : K) :
    Exact pool (pool.update c ((pool.cache c).remove Q (c, key))) (.remove c key) := by
  rw [Exact, UtilCache.remove]
  rcases hold : pool.memoryTable.lookup (c, key) with _ | old
  · simp only [CachePool.cache, hold]
    refine ⟨fun k => ?_, .refl _⟩
    split_ifs with hk
    · exact hk ▸ hold
    · rfl
  · simp only [CachePool.cache, hold]
    refine ⟨fun k => ?_, removePulse_cancels (h.own _ old hold)⟩
    split_ifs with hk
    · rw [hk]
      exact AList.lookup_erase _ _
    · exact AList.lookup_erase_ne hk

theorem lookup_insert_eq {K : Type*} [DecidableEq K] {β : Type*} (table : AList fun _ : K => β)
    (k k' : K) (b : β) :
    (table.insert k b).lookup k' = if k' = k then some b else table.lookup k' := by
  split_ifs with hk
  · rw [hk]
    exact AList.lookup_insert _
  · exact AList.lookup_insert_ne hk

omit [DecidableEq C] [DecidableEq K] in
theorem createCacheLine_eq (Q : PulseQueue (C × K) V) (pool : CachePool C K V) (c : C)
    (key : C × K) (value : Option V) (expireTimeNanos : ℤ) :
    ∃ queue, queue.Perm (registered (pool.newLine key value expireTimeNanos) pool.delayQueue) ∧
      (pool.cache c).createCacheLine Q key value expireTimeNanos =
        (pool.newLine key value expireTimeNanos, queue) :=
  ⟨_, tryRegister_perm, rfl⟩

theorem exact_put (h : OwnPulses pool.memoryTable pool.delayQueue) {c : C} {key : K}
    {value : Option V} {expireTimeMillis : Option ℤ}
    (hapart : Apart pool (.put c key value expireTimeMillis)) :
    Exact pool
      (pool.update c
        ((pool.cache c).putInternal Q (c, key) value (pool.expireTime c expireTimeMillis)))
      (.put c key value expireTimeMillis) := by
  obtain ⟨queue, hperm, hcreate⟩ := createCacheLine_eq Q pool c (c, key) value
    (pool.expireTime c expireTimeMillis)
  rw [Exact, UtilCache.putInternal, hcreate]
  refine ⟨fun k => lookup_insert_eq _ _ _ _, ?_⟩
  rcases hold : pool.memoryTable.lookup (c, key) with _ | old
  · simp only [CachePool.update, CachePool.cache, hold]
    exact hperm
  · simp only [CachePool.update, CachePool.cache, hold]
    refine (removePulse_cancels fun p hp hdue => ?_).of_perm hperm
    rcases mem_registered (hperm.mem_iff.mp hp) with ⟨hload, rfl⟩ | hp
    · exact absurd hdue.symm (hapart.2 hload _ old hold)
    · exact h.own _ old hold p hp hdue

theorem exact_putIfAbsent {c : C} {key : K} {value : Option V} {expireTimeMillis : Option ℤ}
    (hapart : Apart pool (.putIfAbsent c key value expireTimeMillis)) :
    Exact pool
      (pool.update c
        ((pool.cache c).putIfAbsentInternal Q (c, key) value (pool.expireTime c expireTimeMillis)))
      (.putIfAbsent c key value expireTimeMillis) := by
  obtain ⟨queue, hperm, hcreate⟩ := createCacheLine_eq Q pool c (c, key) value
    (pool.expireTime c expireTimeMillis)
  rw [Exact, UtilCache.putIfAbsentInternal, hcreate]
  rcases hold : pool.memoryTable.lookup (c, key) with _ | old
  · simp only [CachePool.update, CachePool.cache, hold]
    exact ⟨fun k => lookup_insert_eq _ _ _ _, hperm⟩
  · simp only [CachePool.update, CachePool.cache, hold]
    refine ⟨fun _ => trivial, ?_⟩
    refine ((removePulse_cancels fun p hp hdue => ?_).of_perm hperm).of_registered fun hmem =>
      hapart.1 _ hmem rfl
    rcases mem_registered (hperm.mem_iff.mp hp) with ⟨-, hline⟩ | hp
    · exact hline
    · exact absurd hdue (hapart.1 p hp)

theorem exact_runPulse (h : OwnPulses pool.memoryTable pool.delayQueue)
    (hrun : pool.runPulse Q = some pool') : Exact pool pool' .runPulse := by
  obtain ⟨⟨pulse, rest⟩, htake, rfl⟩ := Option.map_eq_some_iff.mp hrun
  obtain ⟨hdue, hperm⟩ := DelayQueue.take_eq_some htake
  have hnodup := (hperm.map CacheLine.expireTimeNanos).nodup_iff.mp h.nodup
  have hrest : (removePulse Q pulse rest).Perm rest :=
    Q.remove_of_forall pulse rest fun p hp heq =>
      (List.nodup_cons.mp hnodup).1 (List.mem_map.mpr ⟨p, hp, heq⟩)
  have hmem : pulse ∈ pool.delayQueue := hperm.mem_iff.mpr List.mem_cons_self
  refine ⟨pulse, hdue, hperm.trans (hrest.symm.cons pulse), fun k line => ?_⟩
  dsimp only [CachePool.update, UtilCache.removeLine, CachePool.cache]
  rcases hold : pool.memoryTable.lookup pulse.key with _ | old
  · refine ⟨fun hline => ⟨hline, ?_⟩, And.left⟩
    rintro rfl
    rw [h.key k line hline, hline] at hold
    cases hold
  · dsimp only
    by_cases heq : old.equals pulse = true
    · rw [if_pos heq]
      rw [CacheLine.equals, decide_eq_true_eq, sub_eq_zero] at heq
      obtain rfl := h.own _ old hold pulse hmem heq.symm
      by_cases hk : k = pulse.key
      · rw [hk, AList.lookup_erase, hold]
        constructor
        · intro hline
          cases hline
        · rintro ⟨hline, hne⟩
          exact absurd (Option.some.inj hline).symm hne
      · rw [AList.lookup_erase_ne hk]
        refine ⟨fun hline => ⟨hline, ?_⟩, And.left⟩
        rintro rfl
        exact hk (h.key k line hline).symm
    · rw [if_neg heq]
      refine ⟨fun hline => ⟨hline, ?_⟩, And.left⟩
      rintro rfl
      rw [h.key k line hline, hline] at hold
      obtain rfl := Option.some.inj hold
      exact heq (decide_eq_true (sub_self _))

end Exact

/-! ### Runs -/

section Runs

variable {Q : PulseQueue (C × K) V} {pool pool' : CachePool C K V} {event : PoolEvent C K V}

theorem exact_of_ownPulses (h : OwnPulses pool.memoryTable pool.delayQueue)
    (hapart : Apart pool event) (hstep : pool.step Q event = some pool') :
    Exact pool pool' event := by
  cases event with
  | put c key value expireTimeMillis => exact Option.some.inj hstep ▸ exact_put h hapart
  | putIfAbsent c key value expireTimeMillis =>
    exact Option.some.inj hstep ▸ exact_putIfAbsent hapart
  | remove c key => exact Option.some.inj hstep ▸ exact_remove h c key
  | clear c => exact Option.some.inj hstep ▸ exact_clear c
  | setExpireTime c expireTimeMillis => exact Option.some.inj hstep ▸ exact_setExpireTime hapart
  | advance nanos => exact Option.some.inj hstep ▸ ⟨fun _ => rfl, .refl _⟩
  | runPulse => exact exact_runPulse h hstep

theorem OwnPulses.of_exact (h : OwnPulses pool.memoryTable pool.delayQueue)
    (hapart : Apart pool event) (hexact : Exact pool pool' event) :
    OwnPulses pool'.memoryTable pool'.delayQueue := by
  cases event with
  | put c key value expireTimeMillis =>
    obtain ⟨htable, hqueue⟩ := hexact
    have hstore := h.store rfl hapart.1 hapart.2 htable
    split at hqueue
    · exact hstore.perm (fun _ _ hline => hline) hqueue
    · exact hstore.mono (fun _ _ hline => hline) (fun _ hp => hqueue.subset hp)
        (hqueue.nodup hstore.nodup)
  | putIfAbsent c key value expireTimeMillis =>
    rw [Exact] at hexact
    split at hexact
    next hnone =>
      obtain ⟨htable, hqueue⟩ := hexact
      exact (h.store rfl hapart.1 (hapart.2 hnone) htable).perm (fun _ _ hline => hline) hqueue
    next =>
      exact h.perm (fun k _ hline => hexact.1 k ▸ hline) hexact.2
  | remove c key =>
    obtain ⟨htable, hqueue⟩ := hexact
    have hsub : ∀ k line, pool'.memoryTable.lookup k = some line →
        pool.memoryTable.lookup k = some line := by
      intro k line hline
      rw [htable] at hline
      split_ifs at hline
      exact hline
    split at hqueue
    · exact h.perm hsub hqueue
    · exact h.mono hsub (fun _ hp => hqueue.subset hp) (hqueue.nodup h.nodup)
  | clear c =>
    refine h.perm (fun k line hline => ?_) hexact.2
    rw [hexact.1] at hline
    split_ifs at hline
    exact hline
  | setExpireTime c expireTimeMillis =>
    exact h.perm (fun k _ hline => hexact.1 k ▸ hline) hexact.2
  | advance nanos => exact h.perm (fun k _ hline => hexact.1 k ▸ hline) hexact.2
  | runPulse =>
    obtain ⟨pulse, -, hperm, htable⟩ := hexact
    exact h.mono (fun k line hline => ((htable k line).mp hline).1)
      (fun _ hp => hperm.mem_iff.mpr (List.mem_cons_of_mem _ hp))
      (List.nodup_cons.mp ((hperm.map _).nodup_iff.mp h.nodup)).2

theorem not_lookup_empty {k : C × K} {line : CacheLine (C × K) V} :
    (∅ : AList fun _ : C × K => CacheLine (C × K) V).lookup k ≠ some line := by
  rw [AList.lookup_empty]
  exact (Option.some_ne_none line).symm

theorem ownPulses_of_reachable (h : ((poolRuns Q).restrict Apart).Reachable pool) :
    OwnPulses pool.memoryTable pool.delayQueue := by
  refine h.invariant (P := fun pool => OwnPulses pool.memoryTable pool.delayQueue) ?_ ?_
  · rintro pool ⟨htable, hqueue⟩
    rw [htable, hqueue]
    exact ⟨List.nodup_nil, fun k line hline => absurd hline not_lookup_empty,
      fun k line hline => absurd hline not_lookup_empty⟩
  · rintro pool event pool' - hown ⟨hstep, hapart⟩
    exact hown.of_exact hapart (exact_of_ownPulses hown hapart hstep)

end Runs

/-- **Every call is exact** in the runs whose lines are made at times of their own. -/
theorem exact_of_apart (Q : PulseQueue (C × K) V) {pool pool' : CachePool C K V}
    {event : PoolEvent C K V} (h : ((poolRuns Q).restrict Apart).Reachable pool)
    (hapart : Apart pool event) (hstep : pool.step Q event = some pool') :
    Exact pool pool' event :=
  exact_of_ownPulses (ownPulses_of_reachable h) hapart hstep

/-! ### Two lines that are due together -/

def poolQueue : PulseQueue (Unit × Bool) Char := .ofList _

def newPool : CachePool Unit Bool Char := ⟨∅, fun _ => 1000000000, [], 1⟩

theorem newPool_reachable {ok : CachePool Unit Bool Char → PoolEvent Unit Bool Char → Prop} :
    ((poolRuns poolQueue).restrict ok).Reachable newPool := .init ⟨rfl, rfl⟩

theorem exact_remove_alone : ∃ pool pool',
    ((poolRuns poolQueue).restrict Apart).Reachable pool ∧
      pool.step poolQueue (.remove () false) = some pool' ∧
      Exact pool pool' (.remove () false) := by
  have hput := newPool_reachable.tail
    ⟨show newPool.step poolQueue (.put () false (some 'a') none) = some _ from rfl,
      (show Apart newPool (.put () false (some 'a') none) from
        ⟨fun p hp => absurd hp List.not_mem_nil, fun _ k line hline =>
          absurd hline not_lookup_empty⟩)⟩
  exact ⟨_, _, hput, rfl, exact_of_apart poolQueue hput trivial rfl⟩

theorem not_exact_remove : ∃ pool pool', (poolRuns poolQueue).Reachable pool ∧
    pool.step poolQueue (.remove () false) = some pool' ∧
      ¬Exact pool pool' (.remove () false) := by
  have hinit : (poolRuns poolQueue).Reachable newPool := .init ⟨rfl, rfl⟩
  have hrun : ∀ pool, [.put () false (some 'a') none, .put () true (some 'b') none].foldlM
      (CachePool.step poolQueue) newPool = some pool → (poolRuns poolQueue).Reachable pool :=
    fun pool h => hinit.foldlM (fun _ _ _ _ h => h) h
  refine ⟨_, _, hrun _ rfl, rfl, fun hexact => ?_⟩
  rcases hexact.2 with hperm | ⟨habsent, -⟩
  · rcases List.mem_cons.mp (hperm.mem_iff.mp List.mem_cons_self) with heq | hmem
    · exact absurd (congrArg CacheLine.key heq) (by decide)
    · exact absurd (congrArg CacheLine.key (List.mem_singleton.mp hmem)) (by decide)
  · exact habsent (List.mem_cons_of_mem _ List.mem_cons_self)

end OfficeAuto.Base
