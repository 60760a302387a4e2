import Mathlib.Algebra.Ring.Int.Defs
import Mathlib.Data.List.Infix
import Mathlib.Data.List.InsertIdx

/-!
# A set that forgets its oldest elements

`LifoSet` keeps the elements of a set in a linked list, the one that was added last in front. `add`
moves an element that is there to the front, and after a new one it removes elements from the end
until the capacity is met. `setCapactity` stores the capacity and removes nothing, so that a set may
be larger than its capacity until the next new element comes.

The set is compared with a ghost: the elements with the times of their last addition, cut to the
capacity after every step. **A run is right in every state** exactly if no step sets a capacity
below the size of the set at that time (`isRight_iff`).
-/

namespace OfficeAuto.Base

/-- The backing list, and the number of elements that are kept. -/
structure LifoSet (V : Type) where
  backedList : List V
  maxCapacity : ℤ
  deriving DecidableEq

namespace LifoSet

variable {V : Type} [DecidableEq V]

/-! ### The class -/

def new (V : Type) (capacity : ℤ) : LifoSet V := ⟨[], capacity⟩

def size (s : LifoSet V) : ℤ := s.backedList.length

def setCapactity (s : LifoSet V) (capacity : ℤ) : LifoSet V := { s with maxCapacity := capacity }

/-- The loop that removes the last elements. On a capacity below zero it comes to the empty list,
of which it cannot remove one. -/
def evict (maxCapacity : ℤ) (l : List V) : List V × Except String Unit :=
  if maxCapacity < l.length then
    if l = [] then ([], .error "java.util.NoSuchElementException")
    else evict maxCapacity l.dropLast
  else (l, .ok ())
termination_by l.length
decreasing_by
  rw [List.length_dropLast]
  exact Nat.sub_lt (List.length_pos_iff.mpr ‹_›) Nat.one_pos

/-- **`add`**, with the set that it leaves and what it returns. -/
def add (s : LifoSet V) (obj : V) : LifoSet V × Except String Bool :=
  if obj ∈ s.backedList then ({ s with backedList := obj :: s.backedList.erase obj }, .ok true)
  else
    let evicted := evict s.maxCapacity (obj :: s.backedList)
    ({ s with backedList := evicted.1 }, evicted.2.map fun _ => true)

def push (s : LifoSet V) (item : V) : LifoSet V × Except String Unit :=
  let added := s.add item
  (added.1, added.2.map fun _ => ())

def pop (s : LifoSet V) : LifoSet V × Except String V :=
  match s.backedList with
  | [] => (s, .error "java.util.EmptyStackException")
  | v :: l => ({ s with backedList := l }, .ok v)

/-- `remove` of the iterator, after it has returned the element at an index. -/
def iteratorRemove (s : LifoSet V) (index : ℕ) : LifoSet V :=
  { s with backedList := s.backedList.eraseIdx index }

def remove (s : LifoSet V) (obj : V) : LifoSet V :=
  { s with backedList := s.backedList.erase obj }

def clear (s : LifoSet V) : LifoSet V := { s with backedList := [] }

/-! ### Runs -/

inductive Op (V : Type)
  | add (obj : V)
  | push (item : V)
  | pop
  | setCapactity (capacity : ℤ)
  | iteratorRemove (index : ℕ)
  | remove (obj : V)
  | clear

def step (s : LifoSet V) : Op V → LifoSet V
  | .add obj => (s.add obj).1
  | .push item => (s.push item).1
  | .pop => s.pop.1
  | .setCapactity capacity => s.setCapactity capacity
  | .iteratorRemove index => s.iteratorRemove index
  | .remove obj => s.remove obj
  | .clear => s.clear

def run (capacity : ℤ) (ops : List (Op V)) : LifoSet V := ops.foldl step (new V capacity)

/-! ### What the set should hold -/

/-- The elements with the times of their last addition, most recently added first. -/
abbrev Ghost (V : Type) := List (V × ℕ)

/-- A step of the ghost at a time: what is added goes to the front, and the oldest elements over the
capacity are forgotten. -/
def Ghost.step (maxCapacity : ℤ) (now : ℕ) (g : Ghost V) : Op V → Ghost V
  | .add obj => ((obj, now) :: g.filter fun e => e.1 != obj).take maxCapacity.toNat
  | .push item => ((item, now) :: g.filter fun e => e.1 != item).take maxCapacity.toNat
  | .pop => g.tail
  | .setCapactity capacity => g.take capacity.toNat
  | .iteratorRemove index => g.eraseIdx index
  | .remove obj => g.filter fun e => e.1 != obj
  | .clear => []

/-- The ghost of a run from a time on, with the capacities that the set has. -/
def Ghost.run (s : LifoSet V) (now : ℕ) (g : Ghost V) : List (Op V) → Ghost V
  | [] => g
  | e :: ops => Ghost.run (s.step e) (now + 1) (Ghost.step s.maxCapacity now g e) ops

/-- **The set is right**: no element is there twice, the capacity is met, and the elements are the
ones of the ghost in its order, which is the one of the times. -/
structure IsRight (s : LifoSet V) (now : ℕ) (g : Ghost V) : Prop where
  nodup : s.backedList.Nodup
  bounded : s.size ≤ s.maxCapacity
  elements : s.backedList = g.map Prod.fst
  recency : g.Pairwise fun e f => f.2 < e.2
  past : ∀ e ∈ g, e.2 < now

omit [DecidableEq V] in
/-- **The loop keeps the first elements**, if the capacity is not negative. -/
theorem evict_eq {maxCapacity : ℤ} (hcapacity : 0 ≤ maxCapacity) (l : List V) :
    evict maxCapacity l = (l.take maxCapacity.toNat, .ok ()) := by
  fun_induction evict maxCapacity l with
  | case1 hlt => exact absurd hcapacity (Int.not_le.mpr hlt)
  | case2 l hlt hne ih =>
    have hle : maxCapacity.toNat ≤ l.length - 1 := by omega
    rw [ih, List.dropLast_eq_take, List.take_take, Nat.min_eq_left hle]
  | case3 l hle =>
    have hlength : l.length ≤ maxCapacity.toNat := by omega
    rw [List.take_of_length_le hlength]

omit [DecidableEq V] in
theorem size_nonneg (s : LifoSet V) : 0 ≤ s.size := Int.natCast_nonneg _

theorem add_backedList {s : LifoSet V} (hnodup : s.backedList.Nodup)
    (hbounded : s.size ≤ s.maxCapacity) (obj : V) :
    (s.add obj).1.backedList =
      (obj :: s.backedList.filter (· != obj)).take s.maxCapacity.toNat := by
  rw [add]
  split_ifs with hmem
  · have hlength : (obj :: s.backedList.filter (· != obj)).length ≤ s.maxCapacity.toNat := by
      have herase := List.length_erase_add_one hmem
      rw [hnodup.erase_eq_filter] at herase
      rw [size] at hbounded
      rw [List.length_cons, herase]
      omega
    rw [List.take_of_length_le hlength, hnodup.erase_eq_filter]
  · have hfilter : s.backedList.filter (· != obj) = s.backedList := by
      refine List.filter_eq_self.mpr fun v hv => bne_iff_ne.mpr ?_
      rintro rfl
      exact hmem hv
    rw [hfilter, evict_eq (Int.le_trans s.size_nonneg hbounded)]

theorem add_maxCapacity (s : LifoSet V) (obj : V) : (s.add obj).1.maxCapacity = s.maxCapacity := by
  rw [add]
  split_ifs <;> rfl

omit [DecidableEq V] in
theorem pop_backedList (s : LifoSet V) : s.pop.1.backedList = s.backedList.tail := by
  rcases s with ⟨_ | ⟨v, l⟩, capacity⟩ <;> rfl

omit [DecidableEq V] in
theorem pop_maxCapacity (s : LifoSet V) : s.pop.1.maxCapacity = s.maxCapacity := by
  rcases s with ⟨_ | ⟨v, l⟩, capacity⟩ <;> rfl

namespace IsRight

variable {s t : LifoSet V} {now : ℕ} {g g' : Ghost V}

omit [DecidableEq V] in
theorem of_sublist (h : IsRight s now g) (hsub : g'.Sublist g)
    (helements : t.backedList = g'.map Prod.fst) (hcapacity : t.size ≤ t.maxCapacity) :
    IsRight t (now + 1) g' where
  nodup := by
    have hlist := hsub.map Prod.fst
    rw [← helements, ← h.elements] at hlist
    exact hlist.nodup h.nodup
  bounded := hcapacity
  elements := helements
  recency := h.recency.sublist hsub
  past e he := Nat.lt_succ_of_lt (h.past e (hsub.subset he))

omit [DecidableEq V] in
theorem size_le (h : IsRight s now g) (hsub : g'.Sublist g)
    (helements : t.backedList = g'.map Prod.fst) (hmax : t.maxCapacity = s.maxCapacity) :
    t.size ≤ t.maxCapacity := by
  have hlength := (hsub.map Prod.fst).length_le
  rw [← helements, ← h.elements] at hlength
  have hbounded := h.bounded
  rw [size] at hbounded ⊢
  rw [hmax]
  exact Int.le_trans (Int.ofNat_le.mpr hlength) hbounded

theorem map_filter (h : IsRight s now g) (obj : V) :
    s.backedList.filter (· != obj) = (g.filter fun e => e.1 != obj).map Prod.fst := by
  rw [h.elements, List.filter_map]
  rfl

/-- **`add` keeps a set right.** -/
theorem add (h : IsRight s now g) (obj : V) : IsRight (s.add obj).1 (now + 1)
    (((obj, now) :: g.filter fun e => e.1 != obj).take s.maxCapacity.toNat) := by
  have helements : (s.add obj).1.backedList =
      (((obj, now) :: g.filter fun e => e.1 != obj).take s.maxCapacity.toNat).map Prod.fst := by
    rw [add_backedList h.nodup h.bounded, List.map_take, List.map_cons, h.map_filter]
  have hrecency : ((obj, now) :: g.filter fun e => e.1 != obj).Pairwise fun e f => f.2 < e.2 :=
    List.pairwise_cons.mpr
      ⟨fun e he => h.past e (List.mem_of_mem_filter he), h.recency.sublist List.filter_sublist⟩
  constructor
  · have hnew : (obj :: s.backedList.filter (· != obj)).Nodup := by
      refine List.nodup_cons.mpr ⟨fun hmem => ?_, h.nodup.filter _⟩
      exact bne_iff_ne.mp (List.mem_filter.mp hmem).2 rfl
    rw [add_backedList h.nodup h.bounded]
    exact (List.take_sublist _ _).nodup hnew
  · have hnonneg := Int.le_trans s.size_nonneg h.bounded
    have hlength := List.length_take_le s.maxCapacity.toNat
      (obj :: s.backedList.filter (· != obj))
    rw [size, add_maxCapacity, add_backedList h.nodup h.bounded]
    omega
  · exact helements
  · exact hrecency.sublist (List.take_sublist _ _)
  · intro e he
    rcases List.mem_cons.mp ((List.take_sublist _ _).subset he) with rfl | he
    · exact Nat.lt_succ_self now
    · exact Nat.lt_succ_of_lt (h.past e (List.mem_of_mem_filter he))

/-- **A step keeps a set right**, unless it sets a capacity below the size. -/
theorem step (h : IsRight s now g) (e : Op V)
    (he : ∀ capacity, e = .setCapactity capacity → s.size ≤ capacity) :
    IsRight (s.step e) (now + 1) (Ghost.step s.maxCapacity now g e) := by
  cases e with
  | add obj => exact h.add obj
  | push item => exact h.add item
  | pop =>
    have helements : s.pop.1.backedList = g.tail.map Prod.fst := by
      rw [pop_backedList, List.map_tail, h.elements]
    exact h.of_sublist (List.tail_sublist g) helements
      (h.size_le (List.tail_sublist g) helements s.pop_maxCapacity)
  | setCapactity capacity =>
    -- the list stays, and the condition says that it fits
    have hcapacity := he capacity rfl
    have hlength : g.length ≤ capacity.toNat := by
      rw [size, h.elements, List.length_map] at hcapacity
      omega
    refine h.of_sublist (List.take_sublist capacity.toNat g) ?_ hcapacity
    exact h.elements.trans (congrArg _ (List.take_of_length_le hlength).symm)
  | iteratorRemove index =>
    have helements : (s.iteratorRemove index).backedList = (g.eraseIdx index).map Prod.fst := by
      rw [iteratorRemove, h.elements, List.eraseIdx_map]
    exact h.of_sublist (List.eraseIdx_sublist g index) helements
      (h.size_le (List.eraseIdx_sublist g index) helements rfl)
  | remove obj =>
    -- `List.remove` takes the first occurrence, which is the only one
    have helements : (s.remove obj).backedList =
        (g.filter fun e => e.1 != obj).map Prod.fst := by
      rw [remove, ← h.map_filter, h.nodup.erase_eq_filter]
    exact h.of_sublist List.filter_sublist helements
      (h.size_le List.filter_sublist helements rfl)
  | clear =>
    exact h.of_sublist (List.nil_sublist g) rfl (h.size_le (List.nil_sublist g) rfl rfl)

end IsRight

/-! ### Whole runs -/

theorem run_append (capacity : ℤ) (ops : List (Op V)) (e : Op V) :
    run capacity (ops ++ [e]) = (run capacity ops).step e := by
  rw [run, List.foldl_append, List.foldl_cons, List.foldl_nil, run]

theorem Ghost.run_append (s : LifoSet V) (now : ℕ) (g : Ghost V) (ops : List (Op V)) (e : Op V) :
    Ghost.run s now g (ops ++ [e]) =
      Ghost.step (ops.foldl LifoSet.step s).maxCapacity (now + ops.length)
        (Ghost.run s now g ops) e := by
  induction ops generalizing s now g with
  | nil => rfl
  | cons f ops ih =>
    rw [List.cons_append, Ghost.run, ih, Ghost.run, List.foldl_cons, List.length_cons,
      Nat.add_assoc, Nat.add_comm 1]

/-- The set after a run is right, with the times counted from the beginning. -/
def IsRightAfter (capacity : ℤ) (ops : List (Op V)) : Prop :=
  IsRight (run capacity ops) ops.length (Ghost.run (new V capacity) 0 [] ops)

theorem isRightAfter_nil {capacity : ℤ} (h : 0 ≤ capacity) :
    IsRightAfter capacity ([] : List (Op V)) where
  nodup := List.nodup_nil
  bounded := h
  elements := rfl
  recency := List.Pairwise.nil
  past _ he := absurd he List.not_mem_nil

theorem IsRightAfter.append {capacity : ℤ} {ops : List (Op V)} {e : Op V}
    (h : IsRightAfter capacity ops)
    (he : ∀ c, e = .setCapactity c → (run capacity ops).size ≤ c) :
    IsRightAfter capacity (ops ++ [e]) := by
  have hstep := h.step e he
  rw [IsRightAfter, run_append, Ghost.run_append, Nat.zero_add, List.length_append,
    List.length_singleton]
  exact hstep

/-- **A set is right after every part of a run** exactly if its capacity is not negative and no call
sets one below the size of the set. -/
theorem isRight_iff (capacity : ℤ) (ops : List (Op V)) :
    (∀ pre, pre <+: ops → IsRightAfter capacity pre) ↔
      0 ≤ capacity ∧
        ∀ pre c, pre ++ [.setCapactity c] <+: ops → (run capacity pre).size ≤ c := by
  constructor
  · intro h
    refine ⟨(h [] List.nil_prefix).bounded, fun pre c hpre => ?_⟩
    have hbounded := (h _ hpre).bounded
    rw [run_append] at hbounded
    exact hbounded
  · rintro ⟨hcapacity, hset⟩ pre hpre
    induction pre using List.reverseRecOn with
    | nil => exact isRightAfter_nil hcapacity
    | append_singleton pre e ih =>
      refine (ih ((List.prefix_append pre [e]).trans hpre)).append fun c hc => ?_
      exact hset pre c (hc ▸ hpre)

/-- **Two elements in a set of capacity one.** -/
theorem not_isRightAfter_setCapactity :
    ¬IsRightAfter 10 [Op.add 1, Op.add 2, Op.setCapactity 1] := by
  intro h
  have hten : (0 : ℤ) ≤ 10 := by decide
  have hone : IsRightAfter 10 [Op.add 1] := (isRightAfter_nil hten).append fun c hc => by cases hc
  have htwo : IsRightAfter 10 [Op.add 1, Op.add 2] := hone.append fun c hc => by cases hc
  have hsize : (run 10 [Op.add 1, Op.add 2]).size = 2 := by
    rw [size, htwo.elements]
    rfl
  have hbounded : (run 10 [Op.add 1, Op.add 2]).size ≤ 1 := h.bounded
  rw [hsize] at hbounded
  exact absurd hbounded (by decide)

end LifoSet

end OfficeAuto.Base
