import OfficeAuto.Logic.DelayQueue
import OfficeAuto.Logic.Transition
import Mathlib.Algebra.Order.Ring.Int
import Mathlib.Data.List.AList

/-!
# The expiry of cache lines

A `UtilCache` holds a line for each key. A line that is made while an expire time is set is a pulse
as well: it is put into a queue, from which workers take the lines that are due and remove them
from the cache. A line that is replaced or removed is taken out of the queue.

Pulses are equal if they are due at the same time. So the removal of a pulse takes out any pulse
that is due with it, and a line whose pulse was taken out by another one stays in the cache.
`changeLine` returns the same line when the expire time differs, and makes another one when it
does not: `setExpireTime` changes no line at all (`changeLine_fst`).

`Expected` is the cache that the expire time is meant for. `get_eq_expected` says that the cache
answers the same in the runs whose steps avoid both (`Sound`), once the workers have run the pulses
that are due.

The cache has unbounded memory and no soft references, and its pulses are the only ones in the
queue. Times are integers of nanoseconds: no difference of two of them leaves the range of a long,
since a pulse is removed when it is due. Counters and listeners are left out.
-/

namespace OfficeAuto.Base

variable {K V : Type*}

/-! ### Lines -/

/-- A cache line, which is the pulse that removes it. -/
structure CacheLine (K V : Type*) where
  key : K
  value : Option V
  loadTimeNanos : ℤ
  expireTimeNanos : ℤ

namespace CacheLine

def create (key : K) (value : Option V) (loadTimeNanos delayNanos : ℤ) : CacheLine K V :=
  ⟨key, value, loadTimeNanos, loadTimeNanos + delayNanos⟩

def differentExpireTime (line : CacheLine K V) (expireTimeNanos : ℤ) : Bool :=
  line.expireTimeNanos - line.loadTimeNanos - expireTimeNanos ≠ 0

/-- `Pulse.equals`. -/
def equals (line other : CacheLine K V) : Bool :=
  line.expireTimeNanos - other.expireTimeNanos = 0

end CacheLine

/-! ### The queue of pulses -/

abbrev Pulses (K V : Type*) := List (CacheLine K V)

/-- The queue of the `ExecutionPool`: pulses are equal if they are due at the same time. -/
abbrev PulseQueue (K V : Type*) := DelayQueue (CacheLine.expireTimeNanos : CacheLine K V → ℤ)

section

variable (Q : PulseQueue K V)

def addPulse (pulse : CacheLine K V) (delayQueue : Pulses K V) : Pulses K V :=
  Q.add pulse delayQueue

def removePulse (pulse : CacheLine K V) (delayQueue : Pulses K V) : Pulses K V :=
  Q.remove pulse delayQueue

def tryRegister (loadTimeNanos : ℤ) (line : CacheLine K V) (delayQueue : Pulses K V) :
    CacheLine K V × Pulses K V :=
  (line, if 0 < loadTimeNanos then addPulse Q line delayQueue else delayQueue)

def createHardRefCacheLine (key : K) (value : Option V) (loadTimeNanos expireTimeNanos : ℤ)
    (delayQueue : Pulses K V) : CacheLine K V × Pulses K V :=
  tryRegister Q loadTimeNanos (.create key value loadTimeNanos expireTimeNanos) delayQueue

/-- **`changeLine`** of a line without a soft reference. -/
def CacheLine.changeLine (line : CacheLine K V) (expireTimeNanos : ℤ) (delayQueue : Pulses K V) :
    CacheLine K V × Pulses K V :=
  if line.differentExpireTime expireTimeNanos then (line, delayQueue)
  else createHardRefCacheLine Q line.key line.value line.loadTimeNanos expireTimeNanos delayQueue

end

/-! ### The cache -/

/-- `TimeUnit.NANOSECONDS.convert` of milliseconds. -/
def toNanos (millis : ℤ) : ℤ := max (-2 ^ 63) (min (2 ^ 63 - 1) (millis * 1000000))

structure UtilCache (K V : Type*) where
  memoryTable : AList fun _ : K => CacheLine K V
  expireTimeNanos : ℤ
  delayQueue : Pulses K V
  nanoTime : ℤ

section

variable [DecidableEq K] (Q : PulseQueue K V)

namespace UtilCache

def createCacheLine (cache : UtilCache K V) (key : K) (value : Option V) (expireTimeNanos : ℤ) :
    CacheLine K V × Pulses K V :=
  createHardRefCacheLine Q key value (if 0 < expireTimeNanos then cache.nanoTime else 0)
    expireTimeNanos cache.delayQueue

/-- **`putInternal`.** -/
def putInternal (cache : UtilCache K V) (key : K) (value : Option V) (expireTimeNanos : ℤ) :
    UtilCache K V :=
  let (line, delayQueue) := cache.createCacheLine Q key value expireTimeNanos
  { cache with
    memoryTable := cache.memoryTable.insert key line
    delayQueue := match cache.memoryTable.lookup key with
      | none => delayQueue
      | some oldCacheLine => removePulse Q oldCacheLine delayQueue }

def put (cache : UtilCache K V) (key : K) (value : Option V) : UtilCache K V :=
  cache.putInternal Q key value cache.expireTimeNanos

/-- **`putIfAbsentInternal`.** A new line that is not needed is cancelled. -/
def putIfAbsentInternal (cache : UtilCache K V) (key : K) (value : Option V)
    (expireTimeNanos : ℤ) : UtilCache K V :=
  let (newCacheLine, delayQueue) := cache.createCacheLine Q key value expireTimeNanos
  match cache.memoryTable.lookup key with
  | none =>
    { cache with
      memoryTable := cache.memoryTable.insert key newCacheLine
      delayQueue := delayQueue }
  | some _ => { cache with delayQueue := removePulse Q newCacheLine delayQueue }

def putIfAbsent (cache : UtilCache K V) (key : K) (value : Option V) : UtilCache K V :=
  cache.putIfAbsentInternal Q key value cache.expireTimeNanos

def get (cache : UtilCache K V) (key : K) : Option V :=
  (cache.memoryTable.lookup key).bind CacheLine.value

/-- **`removeInternal`** of a key. -/
def remove (cache : UtilCache K V) (key : K) : UtilCache K V :=
  match cache.memoryTable.lookup key with
  | none => cache
  | some oldCacheLine =>
    { cache with
      memoryTable := cache.memoryTable.erase key
      delayQueue := removePulse Q oldCacheLine cache.delayQueue }

/-- **`removeInternal`** of a line: the line of its key is removed if it is equal. -/
def removeLine (cache : UtilCache K V) (existingCacheLine : CacheLine K V) : UtilCache K V :=
  { cache with
    memoryTable := match cache.memoryTable.lookup existingCacheLine.key with
      | none => cache.memoryTable
      | some line =>
        if line.equals existingCacheLine then cache.memoryTable.erase existingCacheLine.key
        else cache.memoryTable
    delayQueue := removePulse Q existingCacheLine cache.delayQueue }

def clear (cache : UtilCache K V) : UtilCache K V := { cache with memoryTable := ∅ }

def changeEntry (expireTimeNanos : ℤ) (cache : UtilCache K V)
    (entry : Sigma fun _ : K => CacheLine K V) : UtilCache K V :=
  let (line, delayQueue) := entry.2.changeLine Q expireTimeNanos cache.delayQueue
  { cache with
    memoryTable := cache.memoryTable.insert entry.1 line
    delayQueue := delayQueue }

/-- **`setExpireTime`.** -/
def setExpireTime (cache : UtilCache K V) (expireTimeMillis : ℤ) : UtilCache K V :=
  if 0 < expireTimeMillis then
    cache.memoryTable.entries.foldl (changeEntry Q (toNanos expireTimeMillis))
      { cache with expireTimeNanos := toNanos expireTimeMillis }
  else { cache with expireTimeNanos := 0 }

def runPulse (cache : UtilCache K V) : Option (UtilCache K V) :=
  (Q.take cache.nanoTime cache.delayQueue).map fun (pulse, delayQueue) =>
    { cache with delayQueue := delayQueue }.removeLine Q pulse

end UtilCache

/-! ### Runs -/

/-- The calls of a cache, the clock, and the workers. -/
inductive CacheEvent (K V : Type*)
  | put (key : K) (value : Option V)
  | putIfAbsent (key : K) (value : Option V)
  | remove (key : K)
  | clear
  | setExpireTime (expireTimeMillis : ℤ)
  | advance (nanos : ℕ)
  | runPulse

def UtilCache.step (cache : UtilCache K V) : CacheEvent K V → Option (UtilCache K V)
  | .put key value => some (cache.put Q key value)
  | .putIfAbsent key value => some (cache.putIfAbsent Q key value)
  | .remove key => some (cache.remove Q key)
  | .clear => some cache.clear
  | .setExpireTime expireTimeMillis => some (cache.setExpireTime Q expireTimeMillis)
  | .advance nanos => some { cache with nanoTime := cache.nanoTime + nanos }
  | .runPulse => cache.runPulse Q

/-- The values that have been put with the times when they were, up to their expiry. -/
structure Expected (K V : Type*) where
  entries : K → Option (Option V × ℤ)
  expireTimeNanos : ℤ
  nanoTime : ℤ

namespace Expected

def expire (e : Expected K V) : Expected K V :=
  { e with entries := fun k => (e.entries k).filter fun entry =>
      e.expireTimeNanos ≤ 0 || e.nanoTime - entry.2 < e.expireTimeNanos }

def put (e : Expected K V) (key : K) (value : Option V) : Expected K V :=
  { e with entries := Function.update e.entries key (some (value, e.nanoTime)) }

def step (e : Expected K V) : CacheEvent K V → Expected K V
  | .put key value => e.put key value
  | .putIfAbsent key value => if (e.entries key).isNone then e.put key value else e
  | .remove key => { e with entries := Function.update e.entries key none }
  | .clear => { e with entries := fun _ => none }
  | .setExpireTime expireTimeMillis =>
    expire
      { e with expireTimeNanos := if 0 < expireTimeMillis then toNanos expireTimeMillis else 0 }
  | .advance nanos => expire { e with nanoTime := e.nanoTime + nanos }
  | .runPulse => e

def get (e : Expected K V) (key : K) : Option V := (e.entries key).bind Prod.fst

end Expected

def cacheStep (s : UtilCache K V × Expected K V) (event : CacheEvent K V) :
    Option (UtilCache K V × Expected K V) :=
  (s.1.step Q event).map fun cache => (cache, s.2.step event)

def newCache (K V : Type*) (expireTimeNanos nanoTime : ℤ) : UtilCache K V × Expected K V :=
  (⟨∅, expireTimeNanos, [], nanoTime⟩, ⟨fun _ => none, expireTimeNanos, nanoTime⟩)

def cacheRuns : System (UtilCache K V × Expected K V) (CacheEvent K V) :=
  .ofStep (fun s => ∃ expireTimeNanos nanoTime, s = newCache K V expireTimeNanos nanoTime)
    (cacheStep Q)

/-! ### Sound steps -/

/-- A line that is made now gets registered, and no pulse of another key is due with it. -/
def UtilCache.IsFresh (cache : UtilCache K V) (key : K) : Prop :=
  0 < cache.expireTimeNanos → 0 < cache.nanoTime ∧
    ∀ pulse ∈ cache.delayQueue,
      pulse.expireTimeNanos = cache.nanoTime + cache.expireTimeNanos → pulse.key = key

/-- The steps that keep the expiry right. A value is put at a time of its own; no value is put if
absent while a worker has still to remove the one before; and the expire time is only set to the
one that all lines have. -/
def Sound (cache : UtilCache K V) : CacheEvent K V → Prop
  | .put key _ => cache.IsFresh key
  | .putIfAbsent key _ => cache.IsFresh key ∧ ∀ line, cache.memoryTable.lookup key = some line →
      0 < line.loadTimeNanos → cache.nanoTime < line.expireTimeNanos
  | .setExpireTime expireTimeMillis => ∀ key line, cache.memoryTable.lookup key = some line →
      if 0 < expireTimeMillis then line.differentExpireTime (toNanos expireTimeMillis) = false
      else line.loadTimeNanos = 0
  | _ => True

/-! ### Lines and pulses -/

section Invariant

variable {Q : PulseQueue K V}

omit [DecidableEq K] in
/-- **No line is changed**: `changeLine` at most registers it once more. -/
theorem changeLine_fst (line : CacheLine K V) (expireTimeNanos : ℤ) (delayQueue : Pulses K V) :
    (line.changeLine Q expireTimeNanos delayQueue).1 = line := by
  rw [CacheLine.changeLine]
  by_cases h : line.differentExpireTime expireTimeNanos = true
  · rw [if_pos h]
  · rw [if_neg h]
    have hexpire : line.loadTimeNanos + expireTimeNanos = line.expireTimeNanos := by
      rw [CacheLine.differentExpireTime, decide_eq_true_eq, not_not] at h
      omega
    rw [createHardRefCacheLine, tryRegister, CacheLine.create, hexpire]

omit [DecidableEq K] in
theorem changeLine_snd (line : CacheLine K V) (expireTimeNanos : ℤ) (delayQueue : Pulses K V) :
    (line.changeLine Q expireTimeNanos delayQueue).2 = delayQueue ∨
      0 < line.loadTimeNanos ∧
        (line.changeLine Q expireTimeNanos delayQueue).2 = addPulse Q line delayQueue := by
  have hfst := changeLine_fst (Q := Q) line expireTimeNanos delayQueue
  rw [CacheLine.changeLine] at hfst ⊢
  split_ifs at hfst ⊢ with h
  · exact .inl rfl
  · rw [createHardRefCacheLine, tryRegister] at hfst ⊢
    dsimp only at hfst ⊢
    split_ifs with hload
    · exact .inr ⟨hload, by rw [hfst]⟩
    · exact .inl rfl

/-- How a line of the cache stands to its pulse and to the value that is expected. -/
inductive LineInv (s : UtilCache K V) (e : Expected K V) (k : K) (line : CacheLine K V) : Prop
  | registered (hload : 0 < line.loadTimeNanos) (hpos : 0 < s.expireTimeNanos)
      (hexpire : line.expireTimeNanos = line.loadTimeNanos + s.expireTimeNanos)
      (hpulse : ∃ p ∈ s.delayQueue, p.key = k ∧ p.expireTimeNanos = line.expireTimeNanos)
      (hentry : e.entries k = if s.nanoTime < line.expireTimeNanos then
        some (line.value, line.loadTimeNanos) else none)
  | unregistered (hload : line.loadTimeNanos = 0) (hnonpos : s.expireTimeNanos ≤ 0)
      (hexpire : line.expireTimeNanos ≤ 0)
      (hentry : ∃ time, e.entries k = some (line.value, time))

/-- The pulses of one time are those of one key. -/
structure PulseInv (delayQueue : Pulses K V) : Prop where
  pos : ∀ p ∈ delayQueue, 0 < p.expireTimeNanos
  key : ∀ p ∈ delayQueue, ∀ p' ∈ delayQueue,
    p.expireTimeNanos = p'.expireTimeNanos → p.key = p'.key

/-- What the sound runs keep. -/
structure CacheInv (s : UtilCache K V) (e : Expected K V) : Prop where
  nanoTime_eq : e.nanoTime = s.nanoTime
  expireTime_eq : e.expireTimeNanos = s.expireTimeNanos
  pulses : PulseInv s.delayQueue
  line_key : ∀ k line, s.memoryTable.lookup k = some line → line.key = k
  line : ∀ k line, s.memoryTable.lookup k = some line → LineInv s e k line
  absent : ∀ k, s.memoryTable.lookup k = none → e.entries k = none

variable {s : UtilCache K V} {e : Expected K V} {k : K} {queue queue' : Pulses K V}

omit [DecidableEq K] in
theorem PulseInv.mono (h : PulseInv queue) (hsub : ∀ p ∈ queue', p ∈ queue) : PulseInv queue' :=
  ⟨fun p hp => h.pos p (hsub p hp), fun p hp p' hp' => h.key p (hsub p hp) p' (hsub p' hp')⟩

omit [DecidableEq K] in
theorem PulseInv.addPulse (h : PulseInv queue) {line : CacheLine K V}
    (hpos : 0 < line.expireTimeNanos)
    (hkey : ∀ p ∈ queue, p.expireTimeNanos = line.expireTimeNanos → p.key = line.key) :
    PulseInv (addPulse Q line queue) where
  pos := fun p hp => by
    rcases DelayQueue.mem_add.mp hp with rfl | hp
    · exact hpos
    · exact h.pos p hp
  key := fun p hp p' hp' heq => by
    rcases DelayQueue.mem_add.mp hp with hline | hp <;>
      rcases DelayQueue.mem_add.mp hp' with hline' | hp'
    · rw [hline, hline']
    · rw [hline] at heq ⊢
      exact (hkey p' hp' heq.symm).symm
    · rw [hline'] at heq ⊢
      exact hkey p hp heq
    · exact h.key p hp p' hp' heq

omit [DecidableEq K] in
theorem LineInv.mono {s' : UtilCache K V} {e' : Expected K V} {line : CacheLine K V}
    (h : LineInv s e k line) (hexpireTime : s'.expireTimeNanos = s.expireTimeNanos)
    (hnanoTime : s'.nanoTime = s.nanoTime)
    (hpulses : ∀ p ∈ s.delayQueue, p.key = k → p.expireTimeNanos = line.expireTimeNanos →
      ∃ p' ∈ s'.delayQueue, p'.key = k ∧ p'.expireTimeNanos = line.expireTimeNanos)
    (hentry : e'.entries k = e.entries k) : LineInv s' e' k line := by
  cases h with
  | registered hload hpos hexpire hpulse hvalue =>
    obtain ⟨p, hp, hkey, hdue⟩ := hpulse
    exact .registered hload (hexpireTime ▸ hpos) (hexpireTime ▸ hexpire) (hpulses p hp hkey hdue)
      (by rw [hentry, hvalue, hnanoTime])
  | unregistered hload hnonpos hexpire hvalue =>
    exact .unregistered hload (hexpireTime ▸ hnonpos) hexpire (by rwa [hentry])

theorem CacheInv.expireTime_ne (h : CacheInv s e) {line pulse : CacheLine K V}
    (hline : s.memoryTable.lookup k = some line) (hpulse : pulse ∈ s.delayQueue)
    (hkey : pulse.key ≠ k) : line.expireTimeNanos ≠ pulse.expireTimeNanos := by
  intro heq
  cases h.line k line hline with
  | registered _ _ _ hown =>
    obtain ⟨p, hp, hpkey, hdue⟩ := hown
    exact hkey ((h.pulses.key p hp pulse hpulse (hdue.trans heq)).symm.trans hpkey)
  | unregistered _ _ hnonpos =>
    have := h.pulses.pos pulse hpulse
    omega

/-! ### Steps -/

theorem CacheInv.init (expireTimeNanos nanoTime : ℤ) :
    CacheInv (newCache K V expireTimeNanos nanoTime).1
      (newCache K V expireTimeNanos nanoTime).2 where
  nanoTime_eq := rfl
  expireTime_eq := rfl
  pulses := ⟨fun _ h => absurd h List.not_mem_nil, fun _ h => absurd h List.not_mem_nil⟩
  line_key := fun k line h => by cases (AList.lookup_empty k).symm.trans h
  line := fun k line h => by cases (AList.lookup_empty k).symm.trans h
  absent := fun _ _ => rfl

theorem CacheInv.update (h : CacheInv s e) {s' : UtilCache K V} {e' : Expected K V}
    (hnanoTime : s'.nanoTime = s.nanoTime) (hnanoTime' : e'.nanoTime = e.nanoTime)
    (hexpireTime : s'.expireTimeNanos = s.expireTimeNanos)
    (hexpireTime' : e'.expireTimeNanos = e.expireTimeNanos)
    (hpulses : PulseInv s'.delayQueue)
    (hothers : ∀ p ∈ s.delayQueue, p.key ≠ k →
      ∃ p' ∈ s'.delayQueue, p'.key = p.key ∧ p'.expireTimeNanos = p.expireTimeNanos)
    (hlookup : ∀ k', k' ≠ k → s'.memoryTable.lookup k' = s.memoryTable.lookup k')
    (hentries : ∀ k', k' ≠ k → e'.entries k' = e.entries k')
    (hline : ∀ line, s'.memoryTable.lookup k = some line → line.key = k ∧ LineInv s' e' k line)
    (habsent : s'.memoryTable.lookup k = none → e'.entries k = none) : CacheInv s' e' where
  nanoTime_eq := by rw [hnanoTime', hnanoTime, h.nanoTime_eq]
  expireTime_eq := by rw [hexpireTime', hexpireTime, h.expireTime_eq]
  pulses := hpulses
  line_key := fun k' line hk' => by
    by_cases hk : k' = k
    · subst hk
      exact (hline line hk').1
    · exact h.line_key k' line (hlookup k' hk ▸ hk')
  line := fun k' line hk' => by
    by_cases hk : k' = k
    · subst hk
      exact (hline line hk').2
    · refine (h.line k' line (hlookup k' hk ▸ hk')).mono hexpireTime hnanoTime
        (fun p hp hkey hdue => ?_) (hentries k' hk)
      obtain ⟨p', hp', hkey', hdue'⟩ := hothers p hp (hkey ▸ hk)
      exact ⟨p', hp', hkey'.trans hkey, hdue'.trans hdue⟩
  absent := fun k' hk' => by
    by_cases hk : k' = k
    · subst hk
      exact habsent hk'
    · rw [hentries k' hk]
      exact h.absent k' (hlookup k' hk ▸ hk')

omit [DecidableEq K] in
theorem createCacheLine_of_pos {expireTimeNanos : ℤ} (hpos : 0 < expireTimeNanos)
    (hnow : 0 < s.nanoTime) (value : Option V) :
    s.createCacheLine Q k value expireTimeNanos =
      (.create k value s.nanoTime expireTimeNanos,
        addPulse Q (.create k value s.nanoTime expireTimeNanos) s.delayQueue) := by
  rw [UtilCache.createCacheLine, if_pos hpos, createHardRefCacheLine, tryRegister, if_pos hnow]

omit [DecidableEq K] in
theorem createCacheLine_of_nonpos {expireTimeNanos : ℤ} (hnonpos : expireTimeNanos ≤ 0)
    (value : Option V) :
    s.createCacheLine Q k value expireTimeNanos =
      (.create k value 0 expireTimeNanos, s.delayQueue) := by
  rw [UtilCache.createCacheLine, if_neg (not_lt.mpr hnonpos), createHardRefCacheLine, tryRegister,
    if_neg (lt_irrefl _)]

omit [DecidableEq K] in
theorem mem_createCacheLine {expireTimeNanos : ℤ} {value : Option V} {p : CacheLine K V}
    (hp : p ∈ s.delayQueue) : p ∈ (s.createCacheLine Q k value expireTimeNanos).2 := by
  rw [UtilCache.createCacheLine, createHardRefCacheLine, tryRegister]
  dsimp only
  split_ifs
  all_goals first | exact DelayQueue.mem_add.mpr (.inr hp) | exact hp

theorem CacheInv.pulses_create (h : CacheInv s e) (hfresh : s.IsFresh k) (value : Option V) :
    PulseInv (s.createCacheLine Q k value s.expireTimeNanos).2 := by
  by_cases hpos : 0 < s.expireTimeNanos
  · obtain ⟨hnow, hkey⟩ := hfresh hpos
    rw [createCacheLine_of_pos hpos hnow]
    exact h.pulses.addPulse (Int.add_pos hnow hpos) hkey
  · rw [createCacheLine_of_nonpos (not_lt.mp hpos)]
    exact h.pulses

theorem CacheInv.store (h : CacheInv s e) (hfresh : s.IsFresh k) (value : Option V)
    (hsub : ∀ p ∈ queue, p ∈ (s.createCacheLine Q k value s.expireTimeNanos).2)
    (hothers : ∀ p ∈ s.delayQueue, p.key ≠ k → p ∈ queue)
    (hpulse : 0 < s.expireTimeNanos → ∃ p ∈ queue,
      p.expireTimeNanos = s.nanoTime + s.expireTimeNanos) :
    CacheInv
      { s with
        memoryTable := s.memoryTable.insert k (s.createCacheLine Q k value s.expireTimeNanos).1
        delayQueue := queue }
      (e.put k value) := by
  have hentry : (e.put k value).entries k = some (value, s.nanoTime) := by
    rw [← h.nanoTime_eq]
    exact Function.update_self _ _ _
  have hpulses := h.pulses_create (Q := Q) hfresh value
  refine h.update rfl rfl rfl rfl (hpulses.mono hsub)
    (fun p hp hkey => ⟨p, hothers p hp hkey, rfl, rfl⟩)
    (fun k' hk => AList.lookup_insert_ne hk) (fun k' hk => Function.update_of_ne hk _ _)
    (fun line hline => ?_) fun hnone => ?_
  · obtain rfl := Option.some.inj ((AList.lookup_insert _).symm.trans hline)
    by_cases hpos : 0 < s.expireTimeNanos
    · obtain ⟨hnow, -⟩ := hfresh hpos
      obtain ⟨p, hp, hdue⟩ := hpulse hpos
      have hkey : p.key = k := hpulses.key p (hsub p hp) _
        (by rw [createCacheLine_of_pos hpos hnow]; exact DelayQueue.mem_add.mpr (.inl rfl)) hdue
      rw [createCacheLine_of_pos hpos hnow]
      refine ⟨rfl, .registered hnow hpos rfl ⟨p, hp, hkey, hdue⟩ ?_⟩
      exact hentry.trans (if_pos (Int.lt_add_of_pos_right _ hpos)).symm
    · rw [createCacheLine_of_nonpos (not_lt.mp hpos)]
      refine ⟨rfl, .unregistered rfl (not_lt.mp hpos) ?_ ⟨_, hentry⟩⟩
      rw [CacheLine.create, zero_add]
      exact not_lt.mp hpos
  · cases (AList.lookup_insert _).symm.trans hnone

theorem CacheInv.store_of_none (h : CacheInv s e) (hfresh : s.IsFresh k) (value : Option V) :
    CacheInv
      { s with
        memoryTable := s.memoryTable.insert k (s.createCacheLine Q k value s.expireTimeNanos).1
        delayQueue := (s.createCacheLine Q k value s.expireTimeNanos).2 }
      (e.put k value) := by
  refine h.store hfresh value (fun p hp => hp) (fun p hp _ => mem_createCacheLine hp) fun hpos => ?_
  rw [createCacheLine_of_pos hpos (hfresh hpos).1]
  exact ⟨_, DelayQueue.mem_add.mpr (.inl rfl), rfl⟩

theorem CacheInv.put (h : CacheInv s e) (hfresh : s.IsFresh k) (value : Option V) :
    CacheInv (s.put Q k value) (e.put k value) := by
  rcases hold : s.memoryTable.lookup k with _ | old
  · simp only [UtilCache.put, UtilCache.putInternal, hold]
    exact h.store_of_none hfresh value
  · simp only [UtilCache.put, UtilCache.putInternal, hold]
    refine h.store hfresh value (fun p hp => DelayQueue.mem_of_mem_remove hp)
      (fun p hp hkey => DelayQueue.mem_remove_of_ne (mem_createCacheLine hp)
        (h.expireTime_ne hold hp hkey)) fun hpos => ?_
    obtain ⟨hnow, -⟩ := hfresh hpos
    rw [createCacheLine_of_pos hpos hnow]
    by_cases heq : old.expireTimeNanos = s.nanoTime + s.expireTimeNanos
    · -- the old line is due with the new one, and has a pulse as well
      cases h.line k old hold with
      | registered _ _ _ hpulse =>
        obtain ⟨p, hp, -, hdue⟩ := hpulse
        obtain ⟨p', hp', hdue'⟩ := DelayQueue.exists_mem_remove_add (Q := Q) (a := old)
          (b := .create k value s.nanoTime s.expireTimeNanos) hp
          fun _ => (hdue.trans heq).symm
        exact ⟨p', hp', hdue'.trans (hdue.trans heq)⟩
      | unregistered _ hnonpos => exact absurd hpos (not_lt.mpr hnonpos)
    · exact ⟨_, DelayQueue.mem_remove_of_ne (DelayQueue.mem_add.mpr (.inl rfl)) heq, rfl⟩

theorem CacheInv.putIfAbsent (h : CacheInv s e) (hfresh : s.IsFresh k)
    (hdue : ∀ line, s.memoryTable.lookup k = some line → 0 < line.loadTimeNanos →
      s.nanoTime < line.expireTimeNanos) (value : Option V) :
    CacheInv (s.putIfAbsent Q k value) (e.step (.putIfAbsent k value)) := by
  rcases hold : s.memoryTable.lookup k with _ | old
  · have hstep : e.step (.putIfAbsent k value) = e.put k value := by
      rw [Expected.step, h.absent k hold]
      rfl
    simp only [UtilCache.putIfAbsent, UtilCache.putIfAbsentInternal, hold, hstep]
    exact h.store_of_none hfresh value
  -- the value that is there has not expired
  have hstep : e.step (.putIfAbsent k value) = e := by
    have hsome : (e.entries k).isNone = false := by
      cases h.line k old hold with
      | registered hload _ _ _ hentry => rw [hentry, if_pos (hdue old hold hload)]; rfl
      | unregistered _ _ _ hentry => obtain ⟨time, hentry⟩ := hentry; rw [hentry]; rfl
    rw [Expected.step, hsome]
    rfl
  simp only [UtilCache.putIfAbsent, UtilCache.putIfAbsentInternal, hold, hstep]
  have hpulses := h.pulses_create (Q := Q) hfresh value
  -- a pulse stays, or one of its time
  have hstays : ∀ p ∈ s.delayQueue, ∃ p' ∈ removePulse Q
      (s.createCacheLine Q k value s.expireTimeNanos).1
      (s.createCacheLine Q k value s.expireTimeNanos).2,
      p'.key = p.key ∧ p'.expireTimeNanos = p.expireTimeNanos := by
    intro p hp
    by_cases hpos : 0 < s.expireTimeNanos
    · obtain ⟨hnow, -⟩ := hfresh hpos
      have hmem : p ∈ (s.createCacheLine Q k value s.expireTimeNanos).2 := mem_createCacheLine hp
      rw [createCacheLine_of_pos hpos hnow] at hpulses hmem ⊢
      obtain ⟨p', hp', hdue'⟩ := DelayQueue.exists_mem_remove_add (Q := Q)
        (a := .create k value s.nanoTime s.expireTimeNanos) hp id
      exact ⟨p', hp', hpulses.key p' (DelayQueue.mem_of_mem_remove hp') p hmem hdue', hdue'⟩
    · rw [createCacheLine_of_nonpos (not_lt.mp hpos)]
      refine ⟨p, DelayQueue.mem_remove_of_ne hp ?_, rfl, rfl⟩
      have := h.pulses.pos p hp
      rw [CacheLine.create, zero_add]
      dsimp only
      omega
  refine h.update rfl rfl rfl rfl (hpulses.mono fun p hp => DelayQueue.mem_of_mem_remove hp)
    (fun p hp _ => hstays p hp) (fun _ _ => rfl) (fun _ _ => rfl) (fun line hline => ?_)
    fun hnone => by cases hold.symm.trans hnone
  refine ⟨h.line_key k line hline,
    (h.line k line hline).mono rfl rfl (fun p hp hkey hdue => ?_) rfl⟩
  obtain ⟨p', hp', hkey', hdue'⟩ := hstays p hp
  exact ⟨p', hp', hkey'.trans hkey, hdue'.trans hdue⟩

theorem CacheInv.remove (h : CacheInv s e) (k : K) :
    CacheInv (s.remove Q k) (e.step (.remove k)) := by
  have hentries : ∀ k', k' ≠ k → (e.step (.remove k)).entries k' = e.entries k' := fun k' hk =>
    Function.update_of_ne hk _ _
  have hentry : (e.step (.remove k)).entries k = none := Function.update_self _ _ _
  rw [UtilCache.remove]
  rcases hline : s.memoryTable.lookup k with _ | line
  · exact h.update (k := k) rfl rfl rfl rfl h.pulses (fun p hp _ => ⟨p, hp, rfl, rfl⟩)
      (fun _ _ => rfl) hentries (fun line hk => by cases hline.symm.trans hk) fun _ => hentry
  · exact h.update (k := k) rfl rfl rfl rfl
      (h.pulses.mono fun p hp => DelayQueue.mem_of_mem_remove hp)
      (fun p hp hkey =>
        ⟨p, DelayQueue.mem_remove_of_ne hp (h.expireTime_ne hline hp hkey), rfl, rfl⟩)
      (fun k' hk => AList.lookup_erase_ne hk) hentries
      (fun line hk => by cases (AList.lookup_erase k _).symm.trans hk) fun _ => hentry

theorem CacheInv.clear (h : CacheInv s e) : CacheInv s.clear (e.step .clear) where
  nanoTime_eq := h.nanoTime_eq
  expireTime_eq := h.expireTime_eq
  pulses := h.pulses
  line_key := fun k line hk => by cases (AList.lookup_empty k).symm.trans hk
  line := fun k line hk => by cases (AList.lookup_empty k).symm.trans hk
  absent := fun _ _ => rfl

theorem CacheInv.expire (h : CacheInv s e) {expireTimeNanos : ℤ} (nanos : ℕ)
    (hlines : ∀ k line, s.memoryTable.lookup k = some line →
      if 0 < expireTimeNanos then line.expireTimeNanos = line.loadTimeNanos + expireTimeNanos
      else line.loadTimeNanos = 0) :
    CacheInv { s with expireTimeNanos := expireTimeNanos, nanoTime := s.nanoTime + nanos }
      (Expected.expire
        { e with expireTimeNanos := expireTimeNanos, nanoTime := e.nanoTime + nanos }) where
  nanoTime_eq := congrArg (· + (nanos : ℤ)) h.nanoTime_eq
  expireTime_eq := rfl
  pulses := h.pulses
  line_key := h.line_key
  line := fun k line hline => by
    have hlines := hlines k line hline
    cases h.line k line hline with
    | registered hload hpos hexpire hpulse hentry =>
      by_cases hset : 0 < expireTimeNanos
      · rw [if_pos hset] at hlines
        refine .registered hload hset hlines hpulse ?_
        rw [Expected.expire]
        dsimp only
        rw [hentry, h.nanoTime_eq]
        split_ifs with hnow hlater hlater
        · have : s.nanoTime + nanos - line.loadTimeNanos < expireTimeNanos := by omega
          simp [this]
        · have hage : expireTimeNanos ≤ s.nanoTime + nanos - line.loadTimeNanos := by omega
          simp [hage, hset]
        · omega
        · rfl
      · rw [if_neg hset] at hlines
        omega
    | unregistered hload hnonpos hexpire hentry =>
      by_cases hset : 0 < expireTimeNanos
      · rw [if_pos hset] at hlines
        omega
      · obtain ⟨time, hentry⟩ := hentry
        refine .unregistered hload (not_lt.mp hset) hexpire ⟨time, ?_⟩
        rw [Expected.expire]
        dsimp only
        rw [hentry]
        simp [not_lt.mp hset]
  absent := fun k hnone => by
    rw [Expected.expire]
    dsimp only
    rw [h.absent k hnone]
    rfl

theorem CacheInv.advance (h : CacheInv s e) (nanos : ℕ) :
    CacheInv { s with nanoTime := s.nanoTime + nanos } (e.step (.advance nanos)) := by
  have hlines : ∀ k line, s.memoryTable.lookup k = some line →
      if 0 < s.expireTimeNanos then
        line.expireTimeNanos = line.loadTimeNanos + s.expireTimeNanos
      else line.loadTimeNanos = 0 := by
    intro k line hline
    cases h.line k line hline with
    | registered _ hpos hexpire => rwa [if_pos hpos]
    | unregistered hload hnonpos => rwa [if_neg (not_lt.mpr hnonpos)]
  have hstep : e.step (.advance nanos) = Expected.expire
      { e with expireTimeNanos := s.expireTimeNanos, nanoTime := e.nanoTime + nanos } := by
    rw [Expected.step, ← h.expireTime_eq]
  rw [hstep]
  exact h.expire nanos hlines

theorem CacheInv.changeEntry (h : CacheInv s e) {entry : Sigma fun _ : K => CacheLine K V}
    (hentry : s.memoryTable.lookup entry.1 = some entry.2) (expireTimeNanos : ℤ) :
    CacheInv (s.changeEntry Q expireTimeNanos entry) e ∧
      ∀ k, (s.changeEntry Q expireTimeNanos entry).memoryTable.lookup k =
        s.memoryTable.lookup k := by
  have hlookup : ∀ k, (s.memoryTable.insert entry.1 entry.2).lookup k =
      s.memoryTable.lookup k := by
    intro k
    by_cases hk : k = entry.1
    · rw [hk, AList.lookup_insert, hentry]
    · exact AList.lookup_insert_ne hk
  have hqueue : ∀ {queue}, PulseInv queue → (∀ p ∈ s.delayQueue, p ∈ queue) →
      CacheInv
        { s with memoryTable := s.memoryTable.insert entry.1 entry.2, delayQueue := queue } e :=
    fun hpulses hstays =>
      ⟨h.nanoTime_eq, h.expireTime_eq, hpulses,
        fun k line hline => h.line_key k line (hlookup k ▸ hline),
        fun k line hline => (h.line k line (hlookup k ▸ hline)).mono rfl rfl
          (fun p hp hkey hdue => ⟨p, hstays p hp, hkey, hdue⟩) rfl,
        fun k hnone => h.absent k (hlookup k ▸ hnone)⟩
  simp only [UtilCache.changeEntry, changeLine_fst]
  refine ⟨?_, hlookup⟩
  rcases changeLine_snd (Q := Q) entry.2 expireTimeNanos s.delayQueue with hsame | ⟨hload, hadd⟩
  · rw [hsame]
    exact hqueue h.pulses fun p hp => hp
  · rw [hadd]
    refine hqueue (h.pulses.addPulse ?_ fun p hp hdue => ?_) fun p hp =>
      DelayQueue.mem_add.mpr (.inr hp)
    all_goals cases h.line entry.1 entry.2 hentry with
      | registered _ hpos hexpire hpulse _ => ?_
      | unregistered hload' => omega
    · omega
    · obtain ⟨p', hp', hkey', hdue'⟩ := hpulse
      rw [h.pulses.key p hp p' hp' (hdue.trans hdue'.symm), hkey', h.line_key _ _ hentry]

theorem CacheInv.changeEntries {entries : List (Sigma fun _ : K => CacheLine K V)}
    (h : CacheInv s e)
    (hentries : ∀ entry ∈ entries, s.memoryTable.lookup entry.1 = some entry.2)
    (expireTimeNanos : ℤ) :
    CacheInv (entries.foldl (UtilCache.changeEntry Q expireTimeNanos) s) e := by
  induction entries generalizing s with
  | nil => exact h
  | cons entry entries ih =>
    obtain ⟨hchange, hlookup⟩ := h.changeEntry (Q := Q) (hentries entry List.mem_cons_self)
      expireTimeNanos
    exact ih hchange fun entry' hentry' =>
      (hlookup _).trans (hentries entry' (List.mem_cons_of_mem _ hentry'))

theorem toNanos_pos {millis : ℤ} (h : 0 < millis) : 0 < toNanos millis := by
  rw [toNanos]
  omega

theorem CacheInv.setExpireTime (h : CacheInv s e) {expireTimeMillis : ℤ}
    (hsound : Sound s (.setExpireTime expireTimeMillis)) :
    CacheInv (s.setExpireTime Q expireTimeMillis) (e.step (.setExpireTime expireTimeMillis)) := by
  rw [UtilCache.setExpireTime, Expected.step]
  by_cases hset : 0 < expireTimeMillis
  · rw [if_pos hset, if_pos hset]
    have hlines : ∀ k line, s.memoryTable.lookup k = some line →
        if 0 < toNanos expireTimeMillis then
          line.expireTimeNanos = line.loadTimeNanos + toNanos expireTimeMillis
        else line.loadTimeNanos = 0 := by
      intro k line hline
      have hsame := hsound k line hline
      rw [if_pos hset, CacheLine.differentExpireTime, decide_eq_false_iff_not, not_not] at hsame
      rw [if_pos (toNanos_pos hset)]
      omega
    have hexpire := h.expire 0 hlines
    rw [Nat.cast_zero, add_zero, add_zero] at hexpire
    exact hexpire.changeEntries (fun entry hentry => AList.mem_lookup_iff.mpr hentry) _
  · rw [if_neg hset, if_neg hset]
    have hlines : ∀ k line, s.memoryTable.lookup k = some line →
        if (0 : ℤ) < 0 then line.expireTimeNanos = line.loadTimeNanos + 0
        else line.loadTimeNanos = 0 := by
      intro k line hline
      have hload := hsound k line hline
      rw [if_neg hset] at hload
      rwa [if_neg (lt_irrefl _)]
    have hexpire := h.expire 0 hlines
    rwa [Nat.cast_zero, add_zero, add_zero] at hexpire

theorem CacheInv.runPulse (h : CacheInv s e) {s' : UtilCache K V} (hrun : s.runPulse Q = some s') :
    CacheInv s' e := by
  obtain ⟨⟨pulse, rest⟩, htake, rfl⟩ := Option.map_eq_some_iff.mp hrun
  obtain ⟨hdue, hperm⟩ := DelayQueue.take_eq_some htake
  have hmem : pulse ∈ s.delayQueue := hperm.mem_iff.mpr List.mem_cons_self
  have hothers : ∀ p ∈ s.delayQueue, p.expireTimeNanos ≠ pulse.expireTimeNanos →
      p ∈ removePulse Q pulse rest := by
    intro p hp hne
    rcases List.mem_cons.mp (hperm.mem_iff.mp hp) with rfl | hrest
    · exact absurd rfl hne
    · exact DelayQueue.mem_remove_of_ne hrest hne.symm
  have hpulses : PulseInv (removePulse Q pulse rest) := h.pulses.mono fun p hp =>
    hperm.mem_iff.mpr (List.mem_cons_of_mem _ (DelayQueue.mem_of_mem_remove hp))
  have hkeys : ∀ p ∈ s.delayQueue, p.key ≠ pulse.key → p.expireTimeNanos ≠ pulse.expireTimeNanos :=
    fun p hp hkey heq => hkey (h.pulses.key p hp pulse hmem heq)
  dsimp only
  rw [UtilCache.removeLine]
  rcases hline : s.memoryTable.lookup pulse.key with _ | line
  · dsimp only
    exact h.update (k := pulse.key) rfl rfl rfl rfl hpulses
      (fun p hp hkey => ⟨p, hothers p hp (hkeys p hp hkey), rfl, rfl⟩) (fun _ _ => rfl)
      (fun _ _ => rfl) (fun line hk => by cases hline.symm.trans hk) (h.absent _)
  dsimp only
  by_cases heq : line.equals pulse = true
  · -- the line has expired
    rw [if_pos heq]
    rw [CacheLine.equals, decide_eq_true_eq, sub_eq_zero] at heq
    refine h.update (k := pulse.key) rfl rfl rfl rfl hpulses
      (fun p hp hkey => ⟨p, hothers p hp (hkeys p hp hkey), rfl, rfl⟩)
      (fun k' hk => AList.lookup_erase_ne hk) (fun _ _ => rfl)
      (fun line hk => by cases (AList.lookup_erase _ _).symm.trans hk) fun _ => ?_
    cases h.line _ line hline with
    | registered _ _ _ _ hentry =>
      rw [hentry, if_neg]
      omega
    | unregistered _ _ hnonpos =>
      have := h.pulses.pos pulse hmem
      omega
  · rw [if_neg heq]
    rw [CacheLine.equals, decide_eq_true_eq, sub_eq_zero] at heq
    refine h.update (k := pulse.key) rfl rfl rfl rfl hpulses
      (fun p hp hkey => ⟨p, hothers p hp (hkeys p hp hkey), rfl, rfl⟩) (fun _ _ => rfl)
      (fun _ _ => rfl) (fun line' hk => ?_) fun hnone => by cases hline.symm.trans hnone
    obtain rfl := Option.some.inj (hline.symm.trans hk)
    refine ⟨h.line_key _ _ hline, (h.line _ _ hline).mono rfl rfl (fun p hp hkey hdue => ?_) rfl⟩
    exact ⟨p, hothers p hp fun h => heq (hdue.symm.trans h), hkey, hdue⟩

theorem CacheInv.step (h : CacheInv s e) {event : CacheEvent K V} (hsound : Sound s event)
    {s' : UtilCache K V} (hstep : s.step Q event = some s') : CacheInv s' (e.step event) := by
  cases event with
  | put key value => exact Option.some.inj hstep ▸ h.put hsound value
  | putIfAbsent key value => exact Option.some.inj hstep ▸ h.putIfAbsent hsound.1 hsound.2 value
  | remove key => exact Option.some.inj hstep ▸ h.remove key
  | clear => exact Option.some.inj hstep ▸ h.clear
  | setExpireTime millis => exact Option.some.inj hstep ▸ h.setExpireTime hsound
  | advance nanos => exact Option.some.inj hstep ▸ h.advance nanos
  | runPulse => exact h.runPulse hstep

/-- **Every sound run keeps the invariant.** -/
theorem CacheInv.of_reachable {s : UtilCache K V × Expected K V}
    (h : ((cacheRuns Q).restrict fun s event => Sound s.1 event).Reachable s) :
    CacheInv s.1 s.2 := by
  refine h.invariant (P := fun s => CacheInv s.1 s.2) ?_ ?_
  · rintro _ ⟨expireTimeNanos, nanoTime, rfl⟩
    exact .init expireTimeNanos nanoTime
  · rintro s event s' - hinv ⟨hstep, hsound⟩
    obtain ⟨cache, hcache, rfl⟩ := Option.map_eq_some_iff.mp hstep
    exact hinv.step hsound hcache

/-- **The cache answers as expected** in the runs whose steps are sound, for a key none of whose
pulses is due. -/
theorem get_eq_expected (Q : PulseQueue K V) (s : UtilCache K V × Expected K V)
    (h : ((cacheRuns Q).restrict fun s event => Sound s.1 event).Reachable s) (k : K)
    (hdue : ∀ p ∈ s.1.delayQueue, p.key = k → s.1.nanoTime < p.expireTimeNanos) :
    s.1.get k = s.2.get k := by
  have hinv := CacheInv.of_reachable h
  rw [UtilCache.get, Expected.get]
  rcases hline : s.1.memoryTable.lookup k with _ | line
  · rw [hinv.absent k hline]
    rfl
  · cases hinv.line k line hline with
    | registered _ _ _ hpulse hentry =>
      obtain ⟨p, hp, hkey, hpdue⟩ := hpulse
      rw [hentry, if_pos (hpdue ▸ hdue p hp hkey)]
      rfl
    | unregistered _ _ _ hentry =>
      obtain ⟨time, hentry⟩ := hentry
      rw [hentry]
      rfl

end Invariant

/-! ### The workers catch up -/

end

/-! ### A longer expire time -/

def listQueue : PulseQueue Unit Char := .ofList _

/-- A value that was put when values expired after a second is gone a second later, although they
are to expire after two seconds now. -/
theorem get_setExpireTime :
    ∃ s, (cacheRuns listQueue).Reachable s ∧
      (∀ p ∈ s.1.delayQueue, s.1.nanoTime < p.expireTimeNanos) ∧
      s.2.get () = some 'a' ∧ s.1.get () = none := by
  have hinit : (cacheRuns listQueue).Reachable (newCache Unit Char 1000000000 1) :=
    .init ⟨_, _, rfl⟩
  have hrun : ∀ s, [.put () (some 'a'), .setExpireTime 2000, .advance 1000000000, .runPulse].foldlM
      (cacheStep listQueue) (newCache Unit Char 1000000000 1) = some s →
      (cacheRuns listQueue).Reachable s := fun s h => hinit.foldlM (fun _ _ _ _ h => h) h
  exact ⟨_, hrun _ rfl, fun p hp => absurd hp List.not_mem_nil, rfl, rfl⟩

theorem get_put : ∃ s, s.1.nanoTime = 500000001 ∧
    ((cacheRuns listQueue).restrict fun s event => Sound s.1 event).Reachable s ∧
      s.1.get () = some 'a' := by
  have hfresh : (newCache Unit Char 1000000000 1).1.IsFresh () :=
    fun _ => ⟨by decide, fun p hp => absurd hp List.not_mem_nil⟩
  have hinit : ((cacheRuns listQueue).restrict fun s event => Sound s.1 event).Reachable
      (newCache Unit Char 1000000000 1) := .init ⟨_, _, rfl⟩
  have hput := hinit.tail
    ⟨show cacheStep listQueue _ (.put () (some 'a')) = some _ from rfl, hfresh⟩
  have hrun := hput.tail
    ⟨show cacheStep listQueue _ (.advance 500000000) = some _ from rfl, trivial⟩
  refine ⟨_, rfl, hrun, (get_eq_expected listQueue _ hrun () fun p hp _ => ?_).trans rfl⟩
  obtain rfl := List.mem_singleton.mp hp
  decide

end OfficeAuto.Base
