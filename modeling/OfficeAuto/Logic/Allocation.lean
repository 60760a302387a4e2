import Mathlib.Data.Set.Basic

/-!
# Allocation of identifiers in blocks

Holders reserve blocks of identifiers from a shared bound upwards and issue identifiers from
what they have reserved. An allocation is sound when no identifier can come out twice: what is
reserved lies below the bound, the reserves of different holders are disjoint, and what has
been issued is in no reserve.

The three operations keep soundness: a holder gives up a part of its reserve
(`Sound.discard`), replaces it by a new block from the bound (`Sound.reserve`), or issues an
identifier that it holds (`Sound.issue`).
-/

/-- The bound below which everything is reserved or used up, what each holder has reserved,
and what has been issued so far. -/
structure Allocation (ι α : Type*) where
  bound : α
  free : ι → Set α
  issued : List α

namespace Allocation

variable {ι α : Type*} {a : Allocation ι α}

/-- **Soundness**: no identifier has been issued twice, or can be. -/
structure Sound [LinearOrder α] (a : Allocation ι α) : Prop where
  below : ∀ i, ∀ x ∈ a.free i, x < a.bound
  disjoint : ∀ i j, i ≠ j → ∀ x ∈ a.free i, x ∉ a.free j
  issued_below : ∀ x ∈ a.issued, x < a.bound
  unissued : ∀ i, ∀ x ∈ a.free i, x ∉ a.issued
  nodup : a.issued.Nodup

variable [DecidableEq ι] {i : ι} {block : Set α} {b : α}

def discard (a : Allocation ι α) (i : ι) (block : Set α) : Allocation ι α :=
  { a with free := Function.update a.free i block }

def reserve (a : Allocation ι α) (i : ι) (block : Set α) (b : α) : Allocation ι α :=
  { a.discard i block with bound := b }

def issue (a : Allocation ι α) (x : α) : Allocation ι α :=
  { a with issued := x :: a.issued }

theorem mem_discard_free {j : ι} {x : α} :
    x ∈ (a.discard i block).free j ↔ (j = i ∧ x ∈ block) ∨ (j ≠ i ∧ x ∈ a.free j) := by
  by_cases h : j = i
  · subst h
    simp [discard]
  · simp [discard, h]

variable [LinearOrder α]

theorem Sound.disjoint_discard (h : a.Sound)
    (hblock : ∀ j, j ≠ i → ∀ x ∈ block, x ∉ a.free j) :
    ∀ j k, j ≠ k → ∀ x ∈ (a.discard i block).free j, x ∉ (a.discard i block).free k := by
  intro j k hne x hj hk
  obtain ⟨rfl, hxj⟩ | ⟨hji, hxj⟩ := mem_discard_free.mp hj
  · obtain ⟨rfl, -⟩ | ⟨hki, hxk⟩ := mem_discard_free.mp hk
    · exact hne rfl
    · exact hblock k hki x hxj hxk
  · obtain ⟨rfl, hxk⟩ | ⟨-, hxk⟩ := mem_discard_free.mp hk
    · exact hblock j hji x hxk hxj
    · exact h.disjoint j k hne x hxj hxk

theorem Sound.discard (h : a.Sound) (hblock : block ⊆ a.free i) : (a.discard i block).Sound := by
  have hfree : ∀ j, ∀ x ∈ (a.discard i block).free j, x ∈ a.free j := by
    intro j x hx
    obtain ⟨rfl, hmem⟩ | ⟨-, hmem⟩ := mem_discard_free.mp hx
    · exact hblock hmem
    · exact hmem
  refine ⟨fun j x hx => h.below j x (hfree j x hx), h.disjoint_discard ?_, h.issued_below,
    fun j x hx => h.unissued j x (hfree j x hx), h.nodup⟩
  intro j hne x hx hxj
  exact h.disjoint i j hne.symm x (hblock hx) hxj

theorem Sound.reserve (h : a.Sound) (hb : a.bound ≤ b) (hblock : ∀ x ∈ block, a.bound ≤ x ∧ x < b) :
    (a.reserve i block b).Sound := by
  refine ⟨fun j x hx => ?_, h.disjoint_discard ?_, fun x hx => (h.issued_below x hx).trans_le hb,
    fun j x hx => ?_, h.nodup⟩
  · obtain ⟨-, hmem⟩ | ⟨-, hmem⟩ := mem_discard_free.mp hx
    · exact (hblock x hmem).2
    · exact (h.below j x hmem).trans_le hb
  · intro j _ x hx hxj
    exact (hblock x hx).1.not_gt (h.below j x hxj)
  · obtain ⟨-, hmem⟩ | ⟨-, hmem⟩ := mem_discard_free.mp hx
    · exact fun hissued => (hblock x hmem).1.not_gt (h.issued_below x hissued)
    · exact h.unissued j x hmem

theorem Sound.issue (h : a.Sound) {x : α} (hx : x ∈ a.free i) (hblock : block ⊆ a.free i)
    (hnot : x ∉ block) : ((a.discard i block).issue x).Sound := by
  have hd := h.discard hblock
  refine ⟨hd.below, hd.disjoint, fun y hy => ?_, fun j y hy => ?_, ?_⟩
  · obtain rfl | hy := List.mem_cons.mp hy
    · exact h.below i y hx
    · exact h.issued_below y hy
  · refine fun hissued => (List.mem_cons.mp hissued).elim (fun heq => ?_) (hd.unissued j y hy)
    subst heq
    obtain ⟨rfl, hmem⟩ | ⟨hji, hmem⟩ := mem_discard_free.mp hy
    · exact hnot hmem
    · exact h.disjoint j i hji _ hmem hx
  · exact List.nodup_cons.mpr ⟨h.unissued i x hx, h.nodup⟩

end Allocation
