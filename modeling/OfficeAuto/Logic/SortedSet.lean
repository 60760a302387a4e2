import Mathlib.Data.List.Perm.Subperm
import Mathlib.Order.Lattice

/-!
# Sets kept in the order of a comparator

A set that keeps its members in the order of a comparator takes two values for one where the
comparator tells no difference: the one that came first stays, and the other is dropped. Here the
comparator compares a key. The set then has one member of every key (`isSorted_ofList`,
`exists_mem_ofList`), and whether a value is lost is a matter of the keys alone
(`keepsAll_iff`).
-/

namespace SortedSet

variable {α κ : Type*}

/-- The value goes before the first greater member, and nowhere if there is an equal one. -/
def insert (cmp : α → α → Ordering) (a : α) : List α → List α
  | [] => [a]
  | b :: s =>
    match cmp a b with
    | .lt => a :: b :: s
    | .eq => b :: s
    | .gt => b :: insert cmp a s

def ofList (cmp : α → α → Ordering) (as : List α) : List α :=
  as.foldl (fun s a => insert cmp a s) []

theorem mem_of_mem_insert {cmp : α → α → Ordering} {a b : α} {s : List α}
    (hb : b ∈ insert cmp a s) : b = a ∨ b ∈ s := by
  induction s with
  | nil => exact Or.inl (List.mem_singleton.mp hb)
  | cons c s ih =>
    rw [insert] at hb
    split at hb
    · exact List.mem_cons.mp hb
    · exact Or.inr hb
    · rcases List.mem_cons.mp hb with rfl | hb
      · exact Or.inr List.mem_cons_self
      · exact (ih hb).imp_right (List.mem_cons_of_mem c)

theorem mem_insert_of_mem {cmp : α → α → Ordering} (a : α) {b : α} {s : List α} (hb : b ∈ s) :
    b ∈ insert cmp a s := by
  induction s with
  | nil => exact absurd hb List.not_mem_nil
  | cons c s ih =>
    rw [insert]
    split
    · exact List.mem_cons_of_mem a hb
    · exact hb
    · rcases List.mem_cons.mp hb with rfl | hb
      · exact List.mem_cons_self
      · exact List.mem_cons_of_mem c (ih hb)

/-! ### Keys -/

section Keys

variable [LinearOrder κ] {key : α → κ} {cmp : α → α → Ordering}

/-- The members stand in the order of their keys, and no key is there twice. -/
def IsSorted (key : α → κ) (s : List α) : Prop := s.Pairwise fun a b => key a < key b

theorem IsSorted.eq_of_key_eq {s : List α} (hs : IsSorted key s) {a b : α} (ha : a ∈ s)
    (hb : b ∈ s) (h : key a = key b) : a = b := by
  induction s with
  | nil => exact absurd ha List.not_mem_nil
  | cons c s ih =>
    obtain ⟨hc, hs⟩ := List.pairwise_cons.mp hs
    rcases List.mem_cons.mp ha with hac | has <;> rcases List.mem_cons.mp hb with hbc | hbs
    · rw [hac, hbc]
    · exact absurd (hac ▸ h) (hc b hbs).ne
    · exact absurd (hbc ▸ h) (hc a has).ne'
    · exact ih hs has hbs

/-- **Sets of equally many members, with every key of the one in the other**, have the same keys in
the same order. -/
theorem IsSorted.map_key_eq {β : Type*} {key' : β → κ} {s : List α} {t : List β}
    (hs : IsSorted key s) (ht : IsSorted key' t) (hlength : t.length = s.length)
    (h : ∀ b ∈ t, ∃ a ∈ s, key a = key' b) : s.map key = t.map key' := by
  have hs' : (s.map key).Pairwise (· < ·) := List.pairwise_map.mpr hs
  have ht' : (t.map key').Pairwise (· < ·) := List.pairwise_map.mpr ht
  have hsub : t.map key' ⊆ s.map key := by
    intro k hk
    obtain ⟨b, hb, rfl⟩ := List.mem_map.mp hk
    obtain ⟨a, ha, hab⟩ := h b hb
    exact hab ▸ List.mem_map_of_mem ha
  have hnodup : (t.map key').Nodup := ht'.imp fun hlt => hlt.ne
  have hperm : (t.map key').Perm (s.map key) := by
    refine (List.subperm_of_subset hnodup hsub).perm_of_length_le (Nat.le_of_eq ?_)
    rw [List.length_map, List.length_map, hlength]
  exact (hperm.eq_of_pairwise (fun a b _ _ hab hba => absurd hab hba.asymm) ht' hs').symm

variable (hcmp : ∀ a b, cmp a b = compare (key a) (key b))

include hcmp

theorem exists_mem_insert (a : α) (s : List α) : ∃ b ∈ insert cmp a s, key b = key a := by
  induction s with
  | nil => exact ⟨a, List.mem_singleton_self a, rfl⟩
  | cons c s ih =>
    rw [insert]
    split
    case h_1 => exact ⟨a, List.mem_cons_self, rfl⟩
    case h_2 heq =>
      rw [hcmp] at heq
      exact ⟨c, List.mem_cons_self, (compare_eq_iff_eq.mp heq).symm⟩
    case h_3 =>
      obtain ⟨b, hb, hkey⟩ := ih
      exact ⟨b, List.mem_cons_of_mem c hb, hkey⟩

theorem IsSorted.insert {s : List α} (hs : IsSorted key s) (a : α) :
    IsSorted key (insert cmp a s) := by
  induction s with
  | nil => exact List.pairwise_singleton _ a
  | cons c s ih =>
    obtain ⟨hc, hs'⟩ := List.pairwise_cons.mp hs
    rw [SortedSet.insert]
    split
    case h_1 hlt =>
      rw [hcmp, compare_lt_iff_lt] at hlt
      refine List.pairwise_cons.mpr ⟨fun b hb => ?_, hs⟩
      rcases List.mem_cons.mp hb with rfl | hb
      · exact hlt
      · exact hlt.trans (hc b hb)
    case h_2 => exact hs
    case h_3 hgt =>
      rw [hcmp, compare_gt_iff_gt] at hgt
      refine List.pairwise_cons.mpr ⟨fun b hb => ?_, ih hs'⟩
      rcases mem_of_mem_insert hb with rfl | hb
      · exact hgt
      · exact hc b hb

theorem isSorted_ofList (as : List α) : IsSorted key (ofList cmp as) := by
  have hrun : ∀ s, IsSorted key s → IsSorted key (as.foldl (fun s a => insert cmp a s) s) := by
    induction as with
    | nil => exact fun s hs => hs
    | cons a as ih => exact fun s hs => ih _ (hs.insert hcmp a)
  exact hrun [] List.Pairwise.nil

omit hcmp in
theorem mem_of_mem_ofList {as : List α} {b : α} (hb : b ∈ ofList cmp as) : b ∈ as := by
  have hrun : ∀ s, b ∈ as.foldl (fun s a => insert cmp a s) s → b ∈ as ∨ b ∈ s := by
    clear hb
    induction as with
    | nil => exact fun s hs => Or.inr hs
    | cons a as ih =>
      intro s hs
      rcases ih _ hs with has | hs
      · exact Or.inl (List.mem_cons_of_mem a has)
      · rcases mem_of_mem_insert hs with rfl | hs
        · exact Or.inl List.mem_cons_self
        · exact Or.inr hs
  exact (hrun [] hb).resolve_right List.not_mem_nil

theorem exists_mem_ofList {as : List α} {a : α} (ha : a ∈ as) :
    ∃ b ∈ ofList cmp as, key b = key a := by
  have hkeep : ∀ (as : List α) s b, b ∈ s → b ∈ as.foldl (fun s a => insert cmp a s) s := by
    intro as
    induction as with
    | nil => exact fun s b hb => hb
    | cons c as ih => exact fun s b hb => ih _ b (mem_insert_of_mem c hb)
  have hrun : ∀ s, ∃ b ∈ as.foldl (fun s a => insert cmp a s) s, key b = key a := by
    induction as with
    | nil => exact absurd ha List.not_mem_nil
    | cons c as ih =>
      intro s
      rcases List.mem_cons.mp ha with rfl | ha
      · obtain ⟨b, hb, hkey⟩ := exists_mem_insert hcmp a s
        exact ⟨b, hkeep as _ b hb, hkey⟩
      · exact ih ha _
  exact hrun []

/-- **The set keeps every value, up to an equivalence**, exactly when the values of a key are
equivalent. -/
theorem keepsAll_iff {r : α → α → Prop} (hr : Equivalence r) (hkey : ∀ a b, r a b → key a = key b)
    (as : List α) :
    (∀ a ∈ as, ∃ b ∈ ofList cmp as, r a b) ↔
      ∀ a ∈ as, ∀ b ∈ as, key a = key b → r a b := by
  constructor
  · intro h a ha b hb heq
    obtain ⟨a', ha', hra⟩ := h a ha
    obtain ⟨b', hb', hrb⟩ := h b hb
    have hsame : a' = b' := by
      refine (isSorted_ofList hcmp as).eq_of_key_eq ha' hb' ?_
      rw [← hkey a a' hra, heq, hkey b b' hrb]
    exact hr.trans hra (hsame ▸ hr.symm hrb)
  · intro h a ha
    obtain ⟨b, hb, heq⟩ := exists_mem_ofList hcmp ha
    exact ⟨b, hb, h a ha b (mem_of_mem_ofList hb) heq.symm⟩

end Keys

end SortedSet
