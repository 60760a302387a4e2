import Mathlib.Data.List.Basic

/-!
# Trees joined by AND and OR

A tree has leaves and lists, whose members are joined by AND or by OR, and lists may be empty. A
list without a leaf is void: it says nothing, so that it holds, and a list is joined without its
void members (`holds_and`, `holds_or`).
-/

universe u

/-- How the members of a list are joined. -/
inductive Join
  | and
  | or
  deriving DecidableEq, Repr

inductive JoinTree (α : Type u)
  | leaf (a : α)
  | list (members : List (JoinTree α)) (join : Join)

namespace JoinTree

variable {α : Type*}

theorem inductionOn {motive : JoinTree α → Prop} (leaf : ∀ a, motive (.leaf a))
    (list : ∀ ts join, (∀ t ∈ ts, motive t) → motive (.list ts join)) : ∀ t, motive t
  | .leaf a => leaf a
  | .list ts join => list ts join fun t _ => inductionOn leaf list t

mutual

@[grind] def isVoid : JoinTree α → Bool
  | .leaf _ => false
  | .list ts _ => allVoid ts

@[grind] def allVoid : List (JoinTree α) → Bool
  | [] => true
  | t :: ts => t.isVoid && allVoid ts

end

mutual

def Forall (p : α → Prop) : JoinTree α → Prop
  | .leaf a => p a
  | .list ts _ => AllForall p ts

def AllForall (p : α → Prop) : List (JoinTree α) → Prop
  | [] => True
  | t :: ts => t.Forall p ∧ AllForall p ts

end

mutual

/-- **The tree holds**, if the leaves of `p` do. -/
@[grind] def Holds (p : α → Prop) : JoinTree α → Prop
  | .leaf a => p a
  | .list ts .and => AllHold p ts
  | .list ts .or => allVoid ts = true ∨ SomeHolds p ts

@[grind] def AllHold (p : α → Prop) : List (JoinTree α) → Prop
  | [] => True
  | t :: ts => t.Holds p ∧ AllHold p ts

@[grind] def SomeHolds (p : α → Prop) : List (JoinTree α) → Prop
  | [] => False
  | t :: ts => (t.isVoid = false ∧ t.Holds p) ∨ SomeHolds p ts

end

variable {p : α → Prop} {ts : List (JoinTree α)} {join : Join}

@[simp]
theorem isVoid_leaf (a : α) : (leaf a).isVoid = false := by rw [isVoid]

theorem allVoid_iff : allVoid ts = true ↔ ∀ t ∈ ts, t.isVoid = true := by
  induction ts with
  | nil => simp [allVoid]
  | cons t ts ih => rw [allVoid, Bool.and_eq_true, ih, List.forall_mem_cons]

theorem isVoid_list : (list ts join).isVoid = true ↔ ∀ t ∈ ts, t.isVoid = true := by
  rw [isVoid, allVoid_iff]

theorem forall_leaf {a : α} : (leaf a).Forall p ↔ p a := by rw [Forall]

theorem forall_list : (list ts join).Forall p ↔ ∀ t ∈ ts, t.Forall p := by
  rw [Forall]
  induction ts with
  | nil => simp [AllForall]
  | cons t ts ih => rw [AllForall, ih, List.forall_mem_cons]

theorem holds_leaf {a : α} : (leaf a).Holds p ↔ p a := by rw [Holds]

theorem holds_and : (list ts .and).Holds p ↔ ∀ t ∈ ts, t.Holds p := by
  rw [Holds]
  induction ts with
  | nil => simp [AllHold]
  | cons t ts ih => rw [AllHold, ih, List.forall_mem_cons]

theorem someHolds_iff : SomeHolds p ts ↔ ∃ t ∈ ts, t.isVoid = false ∧ t.Holds p := by
  induction ts with
  | nil => simp [SomeHolds]
  | cons t ts ih => simp only [SomeHolds, ih, List.mem_cons, exists_eq_or_imp]

theorem holds_or : (list ts .or).Holds p ↔
    (∀ t ∈ ts, t.isVoid = true) ∨ ∃ t ∈ ts, t.isVoid = false ∧ t.Holds p := by
  rw [Holds, allVoid_iff, someHolds_iff]

theorem holds_of_isVoid {t : JoinTree α} (h : t.isVoid = true) : t.Holds p := by
  induction t using inductionOn with
  | leaf a => exact absurd h (by simp)
  | list ts join ih =>
    have hvoid := isVoid_list.mp h
    cases join with
    | and => exact holds_and.mpr fun t ht => ih t ht (hvoid t ht)
    | or => exact holds_or.mpr (.inl hvoid)

theorem isVoid_singleton {t : JoinTree α} : (list [t] join).isVoid = t.isVoid := by
  rw [isVoid, allVoid, allVoid, Bool.and_true]

theorem forall_singleton {t : JoinTree α} : (list [t] join).Forall p ↔ t.Forall p := by
  rw [forall_list, List.forall_mem_singleton]

theorem holds_singleton {t : JoinTree α} : (list [t] join).Holds p ↔ t.Holds p := by
  cases join with
  | and => rw [holds_and, List.forall_mem_singleton]
  | or =>
    rw [holds_or]
    constructor
    · rintro (hvoid | ⟨t', ht', -, hholds⟩)
      · exact holds_of_isVoid (hvoid t List.mem_cons_self)
      · exact List.mem_singleton.mp ht' ▸ hholds
    · intro h
      cases hvoid : t.isVoid with
      | true => exact .inl (List.forall_mem_singleton.mpr hvoid)
      | false => exact .inr ⟨t, List.mem_cons_self, hvoid, h⟩

end JoinTree
