import Mathlib.Data.Set.Finite.Basic

/-!
# Acyclic links to parents

A relation that links each element to at most one parent. Where only finitely many elements have a
parent and no element is above itself, climbing to the parents and descending to the children both
end (`wellFounded_of_acyclic`, `wellFounded_flip_of_acyclic`).

The elements below a node are its children and the elements below these; listed child by child, each
of them is listed once (`nodup_descendants`), since the elements above an element form a chain.
-/

namespace ParentLinks

open Relation

variable {α : Type*} {Link : α → α → Prop} {a b c d p x : α}

/-! ### Well-foundedness -/

section WellFounded

theorem wellFounded_of_acyclic (hfinite : {c | ∃ p, Link c p}.Finite)
    (hacyclic : ∀ a, ¬TransGen Link a a) : WellFounded Link := by
  have := hfinite.to_subtype
  have htrans : IsTrans {c | ∃ p, Link c p} fun a b => TransGen Link a b :=
    ⟨fun _ _ _ => TransGen.trans⟩
  have hirrefl : Std.Irrefl fun a b : {c | ∃ p, Link c p} => TransGen Link (a : α) b :=
    ⟨fun a => hacyclic a⟩
  have hwf := Finite.wellFounded_of_trans_of_irrefl
    fun a b : {c | ∃ p, Link c p} => TransGen Link (a : α) b
  have hacc : ∀ a : {c | ∃ p, Link c p}, Acc Link (a : α) := fun a =>
    hwf.induction a fun a ih => Acc.intro _ fun d hd => ih ⟨d, a, hd⟩ (TransGen.single hd)
  exact ⟨fun a => Acc.intro a fun d hd => hacc ⟨d, a, hd⟩⟩

theorem wellFounded_flip_of_acyclic (hfinite : {c | ∃ p, Link c p}.Finite)
    (hacyclic : ∀ a, ¬TransGen Link a a) : WellFounded (flip Link) := by
  have := hfinite.to_subtype
  have htrans : IsTrans {c | ∃ p, Link c p} fun a b => TransGen Link (b : α) a :=
    ⟨fun _ _ _ hab hbc => hbc.trans hab⟩
  have hirrefl : Std.Irrefl fun a b : {c | ∃ p, Link c p} => TransGen Link (b : α) a :=
    ⟨fun a => hacyclic a⟩
  have hwf := Finite.wellFounded_of_trans_of_irrefl
    fun a b : {c | ∃ p, Link c p} => TransGen Link (b : α) a
  have htop : ∀ p, ¬(∃ q, Link p q) → Acc (flip Link) p := fun p hp =>
    Acc.intro p fun q hq => absurd ⟨q, hq⟩ hp
  have hacc : ∀ a : {c | ∃ p, Link c p}, Acc (flip Link) (a : α) := fun a =>
    hwf.induction a fun a ih => Acc.intro _ fun p hp => by
      by_cases hlink : ∃ q, Link p q
      · exact ih ⟨p, hlink⟩ (TransGen.single hp)
      · exact htop p hlink
  exact ⟨fun a => by
    by_cases hlink : ∃ q, Link a q
    · exact hacc ⟨a, hlink⟩
    · exact htop a hlink⟩

end WellFounded

/-! ### Descendants -/

section Descendants

variable (hunique : Relator.RightUnique Link) (hacyclic : ∀ a, ¬TransGen Link a a)

include hunique in
theorem reflTransGen_of_transGen (hlink : Link c p) (h : TransGen Link c a) :
    ReflTransGen Link p a := by
  obtain ⟨q, hq, hqa⟩ := TransGen.head'_iff.mp h
  rwa [hunique hlink hq]

include hunique hacyclic in
theorem eq_of_common_descendant (hc : Link c p) (hd : Link d p) (hxc : ReflTransGen Link x c)
    (hxd : ReflTransGen Link x d) : c = d := by
  -- one of them is above the other one, whose parent is above it then
  have habove : ∀ c d, Link c p → Link d p → ReflTransGen Link c d → c = d := by
    intro c d hc hd hcd
    obtain heq | hproper := reflTransGen_iff_eq_or_transGen.mp hcd
    · exact heq.symm
    · have hpd := reflTransGen_of_transGen hunique hc hproper
      exact absurd (TransGen.tail' hpd hd) (hacyclic p)
  obtain hcd | hdc := ReflTransGen.total_of_right_unique hunique hxc hxd
  · exact habove c d hc hd hcd
  · exact (habove d c hd hc hdc).symm

theorem transGen_iff_child :
    TransGen Link x p ↔ Link x p ∨ ∃ c, Link c p ∧ TransGen Link x c := by
  constructor
  · intro h
    cases h with
    | single h => exact Or.inl h
    | tail hxc hcp => exact Or.inr ⟨_, hcp, hxc⟩
  · rintro (h | ⟨c, hcp, hxc⟩)
    · exact TransGen.single h
    · exact TransGen.tail hxc hcp

include hunique hacyclic in
/-- **The elements below a node, child by child, are each listed once.** The elements are given by
records of which `f` is the key. -/
theorem nodup_descendants {β : Type*} {f : β → α} {children : List β} {descendants : β → List β}
    (hchildren : ∀ c ∈ children, Link (f c) p) (hnodup : children.Nodup)
    (hinj : ∀ c ∈ children, ∀ d ∈ children, f c = f d → c = d)
    (hdescendants : ∀ c ∈ children, (descendants c).Nodup ∧
      ∀ x ∈ descendants c, TransGen Link (f x) (f c)) :
    (children ++ children.flatMap descendants).Nodup := by
  refine List.nodup_append.mpr ⟨hnodup, ?_, ?_⟩
  · refine List.nodup_flatMap.mpr ⟨fun c hc => (hdescendants c hc).1, ?_⟩
    refine hnodup.imp_of_mem fun hc hd hne x hxc hxd => hne (hinj _ hc _ hd ?_)
    exact eq_of_common_descendant hunique hacyclic (hchildren _ hc) (hchildren _ hd)
      ((hdescendants _ hc).2 x hxc).to_reflTransGen ((hdescendants _ hd).2 x hxd).to_reflTransGen
  · rintro x hx y hy rfl
    obtain ⟨c, hc, hxc⟩ := List.mem_flatMap.mp hy
    -- a child below another child is that child, and then below itself
    have hxc := (hdescendants c hc).2 x hxc
    have heq := eq_of_common_descendant hunique hacyclic (hchildren x hx) (hchildren c hc)
      ReflTransGen.refl hxc.to_reflTransGen
    exact hacyclic (f x) (heq ▸ hxc)

end Descendants

end ParentLinks
