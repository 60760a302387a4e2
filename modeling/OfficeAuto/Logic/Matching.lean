import Mathlib.Algebra.BigOperators.Group.List.Basic
import Mathlib.Algebra.Ring.Nat

/-!
# Lists related up to their order

Two lists match if the members of one can be put in an order in which they are related to the
members of the other one by one. For an equivalence this is the equality of finite sets whose
members are taken up to the equivalence, and for pairs of a key and a value that of finite
maps.

Matching lists have the same sums (`Matched.sum_eq`), and every member has a partner. The other
way round, lists of one length match already if every member of the second one has a partner
and no two of them are related (`Matched.of_forall_exists`), which is what a comparison by size
and containment checks.
-/

variable {α β γ : Type*} {R : α → β → Prop}

def Matched (R : α → β → Prop) (xs : List α) (zs : List β) : Prop :=
  ∃ ys, List.Forall₂ R xs ys ∧ ys.Perm zs

theorem List.rebuild_iff {f : α → Option β} {go : List α → Option (List β)}
    (hnil : go [] = some [])
    (hcons : ∀ x xs, go (x :: xs) = (f x).bind fun y => (go xs).map (y :: ·))
    {xs : List α} {ys : List β} :
    go xs = some ys ↔ List.Forall₂ (fun x y => f x = some y) xs ys := by
  induction xs generalizing ys with
  | nil => rw [hnil, Option.some_inj, List.forall₂_nil_left_iff, eq_comm]
  | cons x xs ih =>
    rw [hcons, List.forall₂_cons_left_iff]
    simp only [Option.bind_eq_some_iff, Option.map_eq_some_iff, ih]
    constructor
    · rintro ⟨y, hy, ys', hys', rfl⟩
      exact ⟨y, ys', hy, hys', rfl⟩
    · rintro ⟨y, ys', hy, hys', rfl⟩
      exact ⟨y, hy, ys', hys', rfl⟩

theorem List.rebuildPairs_iff {f : α → Option β} {go : List (α × α) → Option (List (β × β))}
    (hnil : go [] = some [])
    (hcons : ∀ k v es, go ((k, v) :: es) =
      (f k).bind fun k' => (f v).bind fun v' => (go es).map ((k', v') :: ·))
    {es : List (α × α)} {fs : List (β × β)} :
    go es = some fs ↔ List.Forall₂ (fun e e' => f e.1 = some e'.1 ∧ f e.2 = some e'.2) es fs := by
  have hpair : ∀ (e : α × α) (e' : β × β), ((f e.1).bind fun k => (f e.2).map fun v => (k, v)) =
      some e' ↔ f e.1 = some e'.1 ∧ f e.2 = some e'.2 := by
    rintro e ⟨k', v'⟩
    simp only [Option.bind_eq_some_iff, Option.map_eq_some_iff, Prod.mk.injEq]
    constructor
    · rintro ⟨k, hk, v, hv, rfl, rfl⟩
      exact ⟨hk, hv⟩
    · rintro ⟨hk, hv⟩
      exact ⟨k', hk, v', hv, rfl, rfl⟩
  simp only [← hpair]
  refine List.rebuild_iff hnil fun e es => ?_
  rw [hcons]
  cases f e.1 with
  | none => rfl
  | some k => cases f e.2 <;> rfl

theorem List.Forall₂.imp_mem {S : α → β → Prop} {xs : List α} {ys : List β}
    (h : ∀ x ∈ xs, ∀ y, R x y → S x y) (hxs : List.Forall₂ R xs ys) : List.Forall₂ S xs ys := by
  induction hxs with
  | nil => exact .nil
  | cons hR _ ih =>
    exact .cons (h _ List.mem_cons_self _ hR) (ih fun x hx => h x (List.mem_cons_of_mem _ hx))

theorem List.exists_forall₂ {xs : List α} (h : ∀ x ∈ xs, ∃ y, R x y) :
    ∃ ys, List.Forall₂ R xs ys := by
  induction xs with
  | nil => exact ⟨[], .nil⟩
  | cons x xs ih =>
    obtain ⟨y, hy⟩ := h x List.mem_cons_self
    obtain ⟨ys, hys⟩ := ih fun z hz => h z (List.mem_cons_of_mem x hz)
    exact ⟨y :: ys, .cons hy hys⟩

theorem List.Forall₂.exists_left {xs : List α} {ys : List β} {x : α} (h : List.Forall₂ R xs ys)
    (hx : x ∈ xs) : ∃ y ∈ ys, R x y := by
  induction h with
  | nil => exact absurd hx List.not_mem_nil
  | cons hR _ ih =>
    obtain rfl | hx := List.mem_cons.mp hx
    · exact ⟨_, List.mem_cons_self, hR⟩
    · obtain ⟨y, hy, hxy⟩ := ih hx
      exact ⟨y, List.mem_cons_of_mem _ hy, hxy⟩

theorem List.Forall₂.sum_eq {f : α → ℕ} {g : β → ℕ} {xs : List α} {ys : List β}
    (h : ∀ x ∈ xs, ∀ y, R x y → f x = g y) (hxs : List.Forall₂ R xs ys) :
    (xs.map f).sum = (ys.map g).sum := by
  induction hxs with
  | nil => rfl
  | cons hR _ ih =>
    rw [List.map_cons, List.map_cons, List.sum_cons, List.sum_cons, h _ List.mem_cons_self _ hR,
      ih fun x hx => h x (List.mem_cons_of_mem _ hx)]

theorem List.Forall₂.sum_le {f : α → ℕ} {g : β → ℕ} {xs : List α} {ys : List β}
    (hxs : List.Forall₂ R xs ys) (h : ∀ x y, R x y → g y ≤ f x) :
    (ys.map g).sum ≤ (xs.map f).sum := by
  induction hxs with
  | nil => exact Nat.le_refl 0
  | cons hR _ ih =>
    rw [List.map_cons, List.map_cons, List.sum_cons, List.sum_cons]
    exact Nat.add_le_add (h _ _ hR) ih

theorem List.Forall₂.and_le {f : α → ℕ} {g : β → ℕ} {xs : List α} {ys : List β}
    (hxs : List.Forall₂ R xs ys) (h : ∀ x y, R x y → g y ≤ f x)
    (hsum : (xs.map f).sum ≤ (ys.map g).sum) :
    List.Forall₂ (fun x y => R x y ∧ f x ≤ g y) xs ys := by
  induction hxs with
  | nil => exact .nil
  | @cons x y xs ys hR hrest ih =>
    have hxy := h x y hR
    have hys := hrest.sum_le h
    rw [List.map_cons, List.map_cons, List.sum_cons, List.sum_cons] at hsum
    exact .cons ⟨hR, by omega⟩ (ih (by omega))

theorem List.Forall₂.pairwise {S : α → α → Prop} {T : β → β → Prop} {xs : List α} {ys : List β}
    (hxs : List.Forall₂ R xs ys)
    (h : ∀ x x' y y', R x y → R x' y' → S x x' → T y y') (hS : xs.Pairwise S) :
    ys.Pairwise T := by
  induction hxs with
  | nil => exact .nil
  | cons hR hrest ih =>
    obtain ⟨hhead, htail⟩ := List.pairwise_cons.mp hS
    refine List.pairwise_cons.mpr ⟨fun y hy => ?_, ih htail⟩
    obtain ⟨x, hx, hxy⟩ := hrest.flip.exists_left hy
    exact h _ _ _ _ hR hxy (hhead x hx)

namespace Matched

variable {xs : List α} {ys : List β} {zs : List γ}

theorem of_forall₂ (h : List.Forall₂ R xs ys) : Matched R xs ys := ⟨ys, h, .refl ys⟩

theorem of_perm {xs' : List α} (hperm : xs.Perm xs') (h : List.Forall₂ R xs' ys) :
    Matched R xs ys := by
  have hcomp : Relation.Comp List.Perm (List.Forall₂ R) xs ys := ⟨xs', hperm, h⟩
  rw [← List.forall₂_comp_perm_eq_perm_comp_forall₂] at hcomp
  exact hcomp

theorem refl {R : α → α → Prop} (h : ∀ x ∈ xs, R x x) : Matched R xs xs :=
  of_forall₂ (List.forall₂_same.mpr h)

theorem symm {S : β → α → Prop} (h : ∀ x ∈ xs, ∀ y, R x y → S y x) (hm : Matched R xs ys) :
    Matched S ys xs := by
  obtain ⟨us, hus, hperm⟩ := hm
  exact of_perm hperm.symm (hus.imp_mem (S := fun x y => S y x) h).flip

theorem trans {S : β → γ → Prop} {T : α → γ → Prop}
    (h : ∀ x ∈ xs, ∀ y z, R x y → S y z → T x z) (hm : Matched R xs ys) (hm' : Matched S ys zs) :
    Matched T xs zs := by
  obtain ⟨us, hus, hperm⟩ := hm
  obtain ⟨vs, hvs, hperm'⟩ := hm'
  obtain ⟨ws, hws, hperm''⟩ := of_perm hperm hvs
  refine ⟨ws, ?_, hperm''.trans hperm'⟩
  clear hperm hvs hperm' hperm''
  induction hus generalizing ws with
  | nil =>
    cases hws
    exact .nil
  | cons hR _ ih =>
    cases hws with
    | cons hS hrest =>
      exact .cons (h _ List.mem_cons_self _ _ hR hS)
        (ih (fun x hx => h x (List.mem_cons_of_mem _ hx)) _ hrest)

theorem length_eq (h : Matched R xs ys) : xs.length = ys.length := by
  obtain ⟨us, hus, hperm⟩ := h
  exact hus.length_eq.trans hperm.length_eq

theorem exists_left {x : α} (h : Matched R xs ys) (hx : x ∈ xs) : ∃ y ∈ ys, R x y := by
  obtain ⟨us, hus, hperm⟩ := h
  obtain ⟨y, hy, hxy⟩ := hus.exists_left hx
  exact ⟨y, hperm.subset hy, hxy⟩

theorem exists_right {y : β} (h : Matched R xs ys) (hy : y ∈ ys) : ∃ x ∈ xs, R x y := by
  obtain ⟨us, hus, hperm⟩ := h
  exact hus.flip.exists_left (hperm.symm.subset hy)

theorem sum_eq {f : α → ℕ} {g : β → ℕ} (h : ∀ x ∈ xs, ∀ y, R x y → f x = g y)
    (hm : Matched R xs ys) : (xs.map f).sum = (ys.map g).sum := by
  obtain ⟨us, hus, hperm⟩ := hm
  rw [hus.sum_eq h, (hperm.map g).sum_eq]

/-- **Lists of one length match if every member of the second one has a partner and no two of
its members share one.** -/
theorem of_forall_exists {ys : List β} (hlen : xs.length = ys.length)
    (hpartner : ∀ y ∈ ys, ∃ x ∈ xs, R x y)
    (hshare : ys.Pairwise fun y y' => ∀ x, R x y → ¬ R x y') : Matched R xs ys := by
  induction ys generalizing xs with
  | nil =>
    obtain rfl := List.length_eq_zero_iff.mp hlen
    exact of_forall₂ .nil
  | cons y ys ih =>
    obtain ⟨hhead, htail⟩ := List.pairwise_cons.mp hshare
    obtain ⟨x, hx, hxy⟩ := hpartner y List.mem_cons_self
    obtain ⟨before, after, rfl⟩ := List.append_of_mem hx
    have hperm : (before ++ x :: after).Perm (x :: (before ++ after)) := List.perm_middle
    -- The partner of the head is used up, and no other member needs it.
    have hrest : Matched R (before ++ after) ys := by
      refine ih ?_ (fun y' hy' => ?_) htail
      · have := hperm.length_eq
        simp only [List.length_cons] at hlen this
        omega
      · obtain ⟨x', hx', hxy'⟩ := hpartner y' (List.mem_cons_of_mem y hy')
        obtain rfl | hx' := List.mem_cons.mp (hperm.subset hx')
        · exact absurd hxy' (hhead y' hy' x' hxy)
        · exact ⟨x', hx', hxy'⟩
    obtain ⟨us, hus, hperm'⟩ := hrest
    obtain ⟨ws, hws, hperm''⟩ := of_perm hperm (List.Forall₂.cons hxy hus)
    exact ⟨ws, hws, hperm''.trans (hperm'.cons y)⟩

end Matched
