import Mathlib.Data.List.Basic

/-!
# Deferred writes and removals

A table is changed by writes, which make the row of a key out of the old one, and by removals.
Both may be deferred, each in a list of its own. What the table will be is the table with all
writes and then all removals (`Deferral.settled`).

A deferred removal is one of the settled table. A deferred write is one if its key is not to be
removed (`Deferral.settled_write_iff`). The writes may be done at any time, but the removals may
be done first only if none of their keys has a write (`Deferral.settled_doRemovals_iff`).
-/

variable {K R : Type*} [DecidableEq K]

abbrev Rows (K R : Type*) := K → Option R

/-- A key, and its new row by the old one. -/
structure RowWrite (K R : Type*) where
  key : K
  effect : Option R → R

namespace Rows

def write (rows : Rows K R) (w : RowWrite K R) : Rows K R :=
  Function.update rows w.key (some (w.effect (rows w.key)))

def remove (rows : Rows K R) (k : K) : Rows K R := Function.update rows k none

def writeAll (rows : Rows K R) (ws : List (RowWrite K R)) : Rows K R := ws.foldl write rows

def removeAll (rows : Rows K R) (ks : List K) : Rows K R := ks.foldl remove rows

variable {rows rows' : Rows K R} {w : RowWrite K R} {ws : List (RowWrite K R)} {k : K} {ks : List K}

theorem write_self : rows.write w w.key = some (w.effect (rows w.key)) := Function.update_self ..

theorem write_of_ne (h : k ≠ w.key) : rows.write w k = rows k := Function.update_of_ne h ..

theorem remove_self : rows.remove k k = none := Function.update_self ..

theorem remove_of_ne {k' : K} (h : k' ≠ k) : rows.remove k k' = rows k' :=
  Function.update_of_ne h ..

theorem writeAll_append_singleton : rows.writeAll (ws ++ [w]) = (rows.writeAll ws).write w := by
  rw [writeAll, List.foldl_append]
  rfl

theorem removeAll_append_singleton : rows.removeAll (ks ++ [k]) = (rows.removeAll ks).remove k := by
  rw [removeAll, List.foldl_append]
  rfl

theorem removeAll_of_notMem (h : k ∉ ks) : rows.removeAll ks k = rows k := by
  induction ks generalizing rows with
  | nil => rfl
  | cons k' ks ih =>
    obtain ⟨hne, hrest⟩ := not_or.mp (mt List.mem_cons.mpr h)
    rw [removeAll, List.foldl_cons]
    exact (ih hrest).trans (remove_of_ne hne)

theorem removeAll_of_mem (h : k ∈ ks) : rows.removeAll ks k = none := by
  induction ks generalizing rows with
  | nil => exact absurd h List.not_mem_nil
  | cons k' ks ih =>
    rw [removeAll, List.foldl_cons]
    by_cases hrest : k ∈ ks
    · exact ih hrest
    · obtain rfl := (List.mem_cons.mp h).resolve_right hrest
      exact (removeAll_of_notMem hrest).trans remove_self

theorem writeAll_of_notMem (h : k ∉ ws.map (·.key)) : rows.writeAll ws k = rows k := by
  induction ws generalizing rows with
  | nil => rfl
  | cons w ws ih =>
    obtain ⟨hne, hrest⟩ := not_or.mp (mt List.mem_cons.mpr h)
    rw [writeAll, List.foldl_cons]
    exact (ih hrest).trans (write_of_ne hne)

theorem writeAll_ne_none_iff :
    rows.writeAll ws k ≠ none ↔ rows k ≠ none ∨ k ∈ ws.map (·.key) := by
  induction ws generalizing rows with
  | nil => simp [writeAll]
  | cons w ws ih =>
    have hwrite : rows.write w k ≠ none ↔ rows k ≠ none ∨ k = w.key := by
      by_cases hk : k = w.key
      · subst hk
        simp [write_self]
      · simp [write_of_ne hk, hk]
    rw [writeAll, List.foldl_cons, List.map_cons, List.mem_cons, ← or_assoc, ← hwrite]
    exact ih

theorem writeAll_congr (h : rows k = rows' k) : rows.writeAll ws k = rows'.writeAll ws k := by
  induction ws generalizing rows rows' with
  | nil => exact h
  | cons w ws ih =>
    refine ih ?_
    by_cases hk : k = w.key
    · subst hk
      rw [write_self, write_self, h]
    · rw [write_of_ne hk, write_of_ne hk, h]

end Rows

/-- A table with the writes and the removals that are deferred. -/
structure Deferral (K R : Type*) where
  rows : Rows K R
  writes : List (RowWrite K R)
  removals : List K

namespace Deferral

open Rows

variable (d : Deferral K R)

def settled : Rows K R := (d.rows.writeAll d.writes).removeAll d.removals

def writeKeys : List K := d.writes.map (·.key)

def write (w : RowWrite K R) : Deferral K R := { d with writes := d.writes ++ [w] }

def remove (k : K) : Deferral K R := { d with removals := d.removals ++ [k] }

def doWrites : Deferral K R := ⟨d.rows.writeAll d.writes, [], d.removals⟩

def doRemovals : Deferral K R := ⟨d.rows.removeAll d.removals, d.writes, []⟩

variable {d} {w : RowWrite K R} {k : K}

theorem settled_of_mem (h : k ∈ d.removals) : d.settled k = none := removeAll_of_mem h

theorem settled_of_notMem (h : k ∉ d.removals) : d.settled k = d.rows.writeAll d.writes k :=
  removeAll_of_notMem h

theorem settled_doWrites : d.doWrites.settled = d.settled := rfl

theorem settled_remove : (d.remove k).settled = d.settled.remove k := removeAll_append_singleton

/-- **A deferred write** is a write of the settled table if its key is not to be removed. -/
theorem settled_write_iff : (d.write w).settled = d.settled.write w ↔ w.key ∉ d.removals := by
  have hof : ∀ k, k ∉ d.removals →
      (d.write w).settled k = (d.rows.writeAll d.writes).write w k := by
    intro k hk
    rw [settled_of_notMem (d := d.write w) hk]
    exact congrFun writeAll_append_singleton k
  constructor
  · intro h hmem
    have hself := congrFun h w.key
    rw [write_self, settled_of_mem (d := d.write w) hmem] at hself
    exact absurd hself.symm (Option.some_ne_none _)
  · intro hmem
    funext k
    by_cases hk : k ∈ d.removals
    · have hne : k ≠ w.key := fun h => hmem (h ▸ hk)
      rw [settled_of_mem (d := d.write w) hk, write_of_ne hne, settled_of_mem hk]
    · rw [hof k hk]
      by_cases hkey : k = w.key
      · subst hkey
        rw [write_self, write_self, settled_of_notMem hk]
      · rw [write_of_ne hkey, write_of_ne hkey, settled_of_notMem hk]

/-- **The removals are done first** without a change if no key of them has a write. -/
theorem settled_doRemovals_iff :
    d.doRemovals.settled = d.settled ↔ ∀ k ∈ d.removals, k ∉ d.writeKeys := by
  have hnil : ∀ k, d.doRemovals.settled k = (d.rows.removeAll d.removals).writeAll d.writes k :=
    fun k => settled_of_notMem (d := d.doRemovals) List.not_mem_nil
  constructor
  · intro h k hk hwrite
    have hkey := congrFun h k
    rw [settled_of_mem hk, hnil] at hkey
    exact writeAll_ne_none_iff.mpr (Or.inr hwrite) hkey
  · intro h
    funext k
    rw [hnil]
    by_cases hk : k ∈ d.removals
    · rw [settled_of_mem hk, writeAll_of_notMem (h k hk), removeAll_of_mem hk]
    · rw [settled_of_notMem hk]
      exact writeAll_congr (removeAll_of_notMem hk)

theorem settled_remove_of_none (h : d.settled k = none) : d.settled.remove k = d.settled :=
  (congrArg (Function.update d.settled k) h.symm).trans (Function.update_eq_self k d.settled)

end Deferral
