import Mathlib.Data.List.Pairwise
import Mathlib.Order.Defs.LinearOrder
import OfficeAuto.Logic.Result

/-!
# Comparators

Comparators of keys are put together to comparators of records: in the other direction, with missing
keys last, and one after the other. Each of these keeps a total preorder.

A comparator that casts its arguments may throw. It is a total preorder on the members of a list if
it does not throw on them and is one there (`IsTotalPreorder`); then a stable sort that asks the
comparator does not throw either, and its result is sorted (`exists_sortM`).
-/

namespace Comparator

open Std (TransCmp)

variable {α β : Type}

/-! ### Comparators of records -/

def directed (descending : Bool) (cmp : α → α → Ordering) (a b : α) : Ordering :=
  if descending then cmp b a else cmp a b

def nullsLast (cmp : α → α → Ordering) : Option α → Option α → Ordering
  | none, none => .eq
  | none, some _ => .gt
  | some _, none => .lt
  | some a, some b => cmp a b

def lexicographic : List (α → α → Ordering) → α → α → Ordering
  | [], _, _ => .eq
  | cmp :: cmps, a, b => (cmp a b).then (lexicographic cmps a b)

theorem then_of_ne_eq {o : Ordering} (h : o ≠ .eq) (o' : Ordering) : o.then o' = o := by
  cases o with
  | eq => exact absurd rfl h
  | lt => rfl
  | gt => rfl

theorem transCmp_directed {cmp : α → α → Ordering} (h : TransCmp cmp) (descending : Bool) :
    TransCmp (directed descending cmp) where
  eq_swap {a b} := by
    unfold directed
    split_ifs
    · exact Std.OrientedCmp.eq_swap
    · exact Std.OrientedCmp.eq_swap
  isLE_trans {a b c} hab hbc := by
    unfold directed at hab hbc ⊢
    split_ifs at hab hbc ⊢
    · exact TransCmp.isLE_trans hbc hab
    · exact TransCmp.isLE_trans hab hbc

theorem transCmp_nullsLast {cmp : α → α → Ordering} (h : TransCmp cmp) :
    TransCmp (nullsLast cmp) where
  eq_swap {a b} := by
    cases a with
    | none => cases b <;> rfl
    | some a =>
      cases b with
      | none => rfl
      | some b => exact @Std.OrientedCmp.eq_swap _ cmp _ a b
  isLE_trans {a b c} hab hbc := by
    cases a with
    | none =>
      cases b with
      | none => exact hbc
      | some b => cases hab
    | some a =>
      cases b with
      | none =>
        cases c with
        | none => rfl
        | some c => cases hbc
      | some b =>
        cases c with
        | none => rfl
        | some c => exact @TransCmp.isLE_trans _ cmp _ a b c hab hbc

theorem transCmp_on {cmp : β → β → Ordering} (h : TransCmp cmp) (f : α → β) :
    TransCmp fun a b => cmp (f a) (f b) where
  eq_swap := Std.OrientedCmp.eq_swap
  isLE_trans := TransCmp.isLE_trans

theorem transCmp_lexicographic {cmps : List (α → α → Ordering)} (h : ∀ cmp ∈ cmps, TransCmp cmp) :
    TransCmp (lexicographic cmps) := by
  induction cmps with
  | nil => exact { eq_swap := rfl, isLE_trans := fun _ _ => rfl }
  | cons cmp cmps ih =>
    have hfirst := h cmp List.mem_cons_self
    have hrest := ih fun cmp hcmp => h cmp (List.mem_cons_of_mem _ hcmp)
    exact inferInstanceAs (TransCmp (compareLex cmp (lexicographic cmps)))

/-! ### Comparators that may throw -/

section Throwing

variable {ε : Type} {cmp : α → α → Except ε Ordering} {l : List α} {a b : α}

/-- The comparator returns that the first record does not come after the second one. -/
def NotAfter (cmp : α → α → Except ε Ordering) (a b : α) : Prop :=
  ∃ o, cmp a b = .ok o ∧ o.isLE = true

/-- **A comparator is a total preorder on the members of a list**: it compares any two of them, the
other way round with the opposite result, and it is transitive. -/
structure IsTotalPreorder (cmp : α → α → Except ε Ordering) (l : List α) : Prop where
  total : ∀ a ∈ l, ∀ b ∈ l, ∃ o, cmp a b = .ok o ∧ cmp b a = .ok o.swap
  trans : ∀ a ∈ l, ∀ b ∈ l, ∀ c ∈ l, NotAfter cmp a b → NotAfter cmp b c → NotAfter cmp a c

theorem isTotalPreorder_of_eq {order : α → α → Ordering} (horder : TransCmp order)
    (h : ∀ a ∈ l, ∀ b ∈ l, cmp a b = .ok (order a b)) : IsTotalPreorder cmp l where
  total a ha b hb := by
    refine ⟨order a b, h a ha b hb, ?_⟩
    rw [h b hb a ha, @Std.OrientedCmp.eq_swap _ order _ b a]
  trans a ha b hb c hc hab hbc := by
    obtain ⟨o, ho, hle⟩ := hab
    obtain ⟨o', ho', hle'⟩ := hbc
    rw [h a ha b hb, Except.ok.injEq] at ho
    rw [h b hb c hc, Except.ok.injEq] at ho'
    exact ⟨order a c, h a ha c hc, TransCmp.isLE_trans (ho ▸ hle) (ho' ▸ hle')⟩

/-! ### Sorting -/

def insertM (cmp : α → α → Except ε Ordering) (a : α) : List α → Except ε (List α)
  | [] => .ok [a]
  | b :: l => do
    let o ← cmp b a
    if o.isLE then (insertM cmp a l).map (b :: ·) else pure (a :: b :: l)

def sortM (cmp : α → α → Except ε Ordering) (l : List α) : Except ε (List α) :=
  l.foldlM (fun sorted a => insertM cmp a sorted) []

theorem exists_insertM {s : List α} (h : IsTotalPreorder cmp s) (ha : a ∈ s) :
    ∀ l : List α, l ⊆ s → l.Pairwise (NotAfter cmp) →
      ∃ l', insertM cmp a l = .ok l' ∧ l'.Perm (a :: l) ∧ l'.Pairwise (NotAfter cmp) := by
  intro l
  induction l with
  | nil => exact fun _ _ => ⟨[a], rfl, .refl _, List.pairwise_singleton _ a⟩
  | cons b l ih =>
    intro hsub hsorted
    obtain ⟨hfirst, hsorted⟩ := List.pairwise_cons.mp hsorted
    have hb : b ∈ s := hsub List.mem_cons_self
    have hl : l ⊆ s := fun c hc => hsub (List.mem_cons_of_mem b hc)
    obtain ⟨o, ho, ho'⟩ := h.total b hb a ha
    by_cases hle : o.isLE = true
    · obtain ⟨l', hinsert, hperm, hsorted'⟩ := ih hl hsorted
      refine ⟨b :: l', ?_, (hperm.cons b).trans (.swap a b l), ?_⟩
      · rw [insertM, ho, hinsert]
        exact if_pos hle
      · refine List.pairwise_cons.mpr ⟨fun c hc => ?_, hsorted'⟩
        rcases List.mem_cons.mp (hperm.mem_iff.mp hc) with rfl | hc
        · exact ⟨o, ho, hle⟩
        · exact hfirst c hc
    · have hswap : o.swap.isLE = true := by
        cases o with
        | gt => rfl
        | lt => exact absurd rfl hle
        | eq => exact absurd rfl hle
      have hab : NotAfter cmp a b := ⟨o.swap, ho', hswap⟩
      have hbl : (b :: l).Pairwise (NotAfter cmp) := List.pairwise_cons.mpr ⟨hfirst, hsorted⟩
      refine ⟨a :: b :: l, ?_, .refl _, List.pairwise_cons.mpr ⟨fun c hc => ?_, hbl⟩⟩
      · rw [insertM, ho]
        exact if_neg hle
      · rcases List.mem_cons.mp hc with rfl | hc
        · exact hab
        · exact h.trans a ha b hb c (hl hc) hab (hfirst c hc)

/-- **Sorting with a total preorder** returns the records in order. -/
theorem exists_sortM (h : IsTotalPreorder cmp l) :
    ∃ l', sortM cmp l = .ok l' ∧ l'.Perm l ∧ l'.Pairwise (NotAfter cmp) := by
  suffices hfold : ∀ (rest sorted : List α), rest ⊆ l → sorted ⊆ l →
      sorted.Pairwise (NotAfter cmp) →
      ∃ l', rest.foldlM (fun sorted a => insertM cmp a sorted) sorted = .ok l' ∧
        l'.Perm (rest ++ sorted) ∧ l'.Pairwise (NotAfter cmp) by
    obtain ⟨l', hsort, hperm, hsorted⟩ := hfold l [] (List.Subset.refl l) (List.nil_subset l) .nil
    exact ⟨l', hsort, by rwa [List.append_nil] at hperm, hsorted⟩
  intro rest
  induction rest with
  | nil => exact fun sorted _ _ hsorted => ⟨sorted, rfl, .refl _, hsorted⟩
  | cons a rest ih =>
    intro sorted hrest hsub hsorted
    have ha : a ∈ l := hrest List.mem_cons_self
    obtain ⟨sorted', hinsert, hperm, hsorted'⟩ := exists_insertM h ha sorted hsub hsorted
    have hsub' : sorted' ⊆ l := fun c hc => by
      rcases List.mem_cons.mp (hperm.mem_iff.mp hc) with rfl | hc
      · exact ha
      · exact hsub hc
    obtain ⟨l', hfold, hperm', hresult⟩ :=
      ih sorted' (fun c hc => hrest (List.mem_cons_of_mem a hc)) hsub' hsorted'
    refine ⟨l', ?_, hperm'.trans ((hperm.append_left rest).trans List.perm_middle), hresult⟩
    rw [List.foldlM_cons, hinsert]
    exact hfold

end Throwing

end Comparator
