import Mathlib.Data.List.Nodup

/-!
# Entries grouped by a key

A list of entries with keys is grouped by adding one entry after the other to the group of its key
(`group`). So the group of a key has the entries with this key, in their order (`content_group`).

Where an entry replaces its group instead, the last entry of every key is left
(`lasts_foldl_addTo`). Nothing is lost exactly if no key occurs twice (`lasts_group_eq_self_iff`).
-/

namespace Grouping

variable {κ α β : Type} [DecidableEq κ]

def addTo (key : κ) (a : α) : List (κ × List α) → List (κ × List α)
  | [] => [(key, [a])]
  | (k, as) :: groups => if k = key then (k, as ++ [a]) :: groups else (k, as) :: addTo key a groups

def setTo (key : κ) (a : α) : List (κ × List α) → List (κ × List α)
  | [] => [(key, [a])]
  | (k, as) :: groups => if k = key then (k, [a]) :: groups else (k, as) :: setTo key a groups

def addEntries (groups : List (κ × List α)) (entries : List (κ × α)) : List (κ × List α) :=
  entries.foldl (fun groups entry => addTo entry.1 entry.2 groups) groups

def group (entries : List (κ × α)) : List (κ × List α) := addEntries [] entries

def content (key : κ) : List (κ × List α) → List α
  | [] => []
  | (k, as) :: groups => if k = key then as else content key groups

def lasts (f : α → β) (groups : List (κ × List α)) : List (κ × List β) :=
  groups.map fun g => (g.1, (g.2.map f).getLast?.toList)

variable {key k : κ} {a x : α} {groups : List (κ × List α)} {entries : List (κ × α)} {f : α → β}

/-! ### The group of a key -/

theorem content_addTo :
    content key (addTo k a groups) =
      content key groups ++ if k = key then [a] else [] := by
  induction groups with
  | nil => simp [addTo, content]
  | cons g groups ih =>
    obtain ⟨l, as⟩ := g
    rw [addTo]
    by_cases hl : l = k
    · subst hl
      rw [if_pos rfl, content, content]
      by_cases hkey : l = key
      · simp only [if_pos hkey]
      · simp only [if_neg hkey, List.append_nil]
    · rw [if_neg hl, content, content, ih]
      by_cases hkey : l = key
      · have hk : k ≠ key := fun h => hl (hkey.trans h.symm)
        simp only [if_pos hkey, if_neg hk, List.append_nil]
      · simp only [if_neg hkey]

theorem content_addEntries :
    content key (addEntries groups entries) =
      content key groups ++ (entries.filter (·.1 = key)).map (·.2) := by
  induction entries generalizing groups with
  | nil => simp [addEntries]
  | cons entry entries ih =>
    rw [addEntries, List.foldl_cons, ← addEntries, ih, content_addTo, List.filter_cons]
    by_cases hkey : entry.1 = key
    · simp [hkey]
    · simp [hkey]

/-- **The group of a key** has the entries with this key, in their order. -/
theorem content_group : content key (group entries) = (entries.filter (·.1 = key)).map (·.2) := by
  rw [group, content_addEntries, content, List.nil_append]

/-! ### Keys and elements -/

theorem keys_addTo :
    (addTo k a groups).map (·.1) =
      if k ∈ groups.map (·.1) then groups.map (·.1) else groups.map (·.1) ++ [k] := by
  induction groups with
  | nil => rfl
  | cons g groups ih =>
    obtain ⟨l, as⟩ := g
    rw [addTo]
    by_cases hl : l = k
    · simp [hl]
    · have hmem : k ∈ ((l, as) :: groups).map (·.1) ↔ k ∈ groups.map (·.1) := by
        rw [List.map_cons, List.mem_cons, or_iff_right fun h => hl h.symm]
      rw [if_neg hl, List.map_cons, ih]
      simp only [hmem]
      split_ifs <;> rfl

theorem nodup_keys_addEntries (h : (groups.map (·.1)).Nodup) :
    ((addEntries groups entries).map (·.1)).Nodup := by
  induction entries generalizing groups with
  | nil => exact h
  | cons entry entries ih =>
    refine ih ?_
    rw [keys_addTo]
    split_ifs with hmem
    · exact h
    · exact List.nodup_append_comm.mp (List.nodup_cons.mpr ⟨hmem, h⟩)

theorem nodup_keys_group : ((group entries).map (·.1)).Nodup := by
  have hnil : (([] : List (κ × List α)).map (·.1)).Nodup := List.nodup_nil
  exact nodup_keys_addEntries hnil

theorem content_of_mem (h : (groups.map (·.1)).Nodup) {as : List α} (hmem : (key, as) ∈ groups) :
    content key groups = as := by
  induction groups with
  | nil => cases hmem
  | cons g groups ih =>
    obtain ⟨l, bs⟩ := g
    rw [List.map_cons, List.nodup_cons] at h
    rw [content]
    rcases List.mem_cons.mp hmem with heq | hmem
    · cases heq
      rw [if_pos rfl]
    · have hkey : key ∈ groups.map (·.1) := List.mem_map.mpr ⟨_, hmem, rfl⟩
      have hne : l ≠ key := fun heq => h.1 (heq ▸ hkey)
      rw [if_neg hne, ih h.2 hmem]

theorem mem_of_mem_content (h : a ∈ content key groups) :
    (key, content key groups) ∈ groups := by
  induction groups with
  | nil => cases h
  | cons g groups ih =>
    obtain ⟨l, as⟩ := g
    rw [content] at h ⊢
    by_cases hl : l = key
    · rw [if_pos hl, hl]
      exact List.mem_cons_self
    · rw [if_neg hl] at h ⊢
      exact List.mem_cons_of_mem _ (ih h)

theorem exists_mem_group_iff {p : α → Prop} :
    (∃ g ∈ group entries, ∃ a ∈ g.2, p a) ↔ ∃ entry ∈ entries, p entry.2 := by
  constructor
  · rintro ⟨⟨key, as⟩, hg, a, ha, hp⟩
    have hcontent := content_of_mem nodup_keys_group hg
    rw [content_group] at hcontent
    rw [← hcontent] at ha
    obtain ⟨entry, hentry, rfl⟩ := List.mem_map.mp ha
    exact ⟨entry, (List.mem_filter.mp hentry).1, hp⟩
  · rintro ⟨entry, hentry, hp⟩
    have hmem : entry.2 ∈ content entry.1 (group entries) := by
      rw [content_group]
      exact List.mem_map_of_mem (List.mem_filter.mpr ⟨hentry, by simp⟩)
    exact ⟨_, mem_of_mem_content hmem, entry.2, hmem, hp⟩

/-! ### The last element of every group -/

theorem lasts_addTo : lasts f (addTo k a groups) = setTo k (f a) (lasts f groups) := by
  induction groups with
  | nil => rfl
  | cons g groups ih =>
    obtain ⟨l, as⟩ := g
    rw [addTo]
    by_cases hl : l = k
    · rw [if_pos hl]
      simp [lasts, setTo, hl]
    · rw [if_neg hl]
      simp only [lasts, List.map_cons, setTo, if_neg hl] at ih ⊢
      rw [ih]

omit [DecidableEq κ] in
theorem lasts_eq_self_iff {f : α → α} :
    lasts f groups = groups ↔ ∀ g ∈ groups, g.2.length ≤ 1 ∧ ∀ a ∈ g.2, f a = a := by
  have hmap : lasts f groups = groups.map id ↔
      ∀ g ∈ groups, (g.1, (g.2.map f).getLast?.toList) = id g := List.map_inj_left
  rw [List.map_id] at hmap
  refine hmap.trans (forall₂_congr fun g _ => ?_)
  obtain ⟨l, as⟩ := g
  match as with
  | [] => simp
  | [a] => simp
  | a :: b :: as =>
    refine iff_of_false (fun h => ?_) fun h => ?_
    · have hlength := congrArg (fun g : κ × List α => g.2.length) h
      have hle := Option.length_toList_le (o := ((a :: b :: as).map f).getLast?)
      simp only [id, List.length_cons] at hlength
      omega
    · exact absurd h.1 (by simp)

theorem length_group_le_one_iff :
    (∀ g ∈ group entries, g.2.length ≤ 1) ↔ (entries.map (·.1)).Nodup := by
  have hcount : ∀ key, (entries.map (·.1)).count key = (content key (group entries)).length := by
    intro key
    rw [content_group, List.length_map, List.count, List.countP_map, List.countP_eq_length_filter]
    congr 2
  rw [List.nodup_iff_count_le_one]
  simp only [hcount]
  constructor
  · intro h key
    match hcontent : content key (group entries) with
    | [] => exact Nat.zero_le 1
    | a :: as =>
      have hmem := mem_of_mem_content (hcontent ▸ List.mem_cons_self : a ∈ _)
      rw [← hcontent]
      exact h _ hmem
  · rintro h ⟨key, as⟩ hg
    rw [← content_of_mem nodup_keys_group hg]
    exact h key

/-- **Nothing is lost** exactly if no key occurs twice. -/
theorem lasts_group_eq_self_iff {f : α → α} :
    lasts f (group entries) = group entries ↔
      (entries.map (·.1)).Nodup ∧ ∀ entry ∈ entries, f entry.2 = entry.2 := by
  have hall : (∀ g ∈ group entries, ∀ a ∈ g.2, f a = a) ↔
      ∀ entry ∈ entries, f entry.2 = entry.2 := by
    have hnone := not_congr (@exists_mem_group_iff κ α _ entries fun a => f a ≠ a)
    push Not at hnone
    exact hnone
  rw [lasts_eq_self_iff, ← length_group_le_one_iff, ← hall]
  exact forall₂_and

end Grouping
