import OfficeAuto.Text.Replace

/-!
# Escapes

An escape is a symbol that begins all escapes, followed by a text in which it does not occur; it
stands for a symbol. A list of escapes is written into a text by replacing the symbols one after
the other (`escapeAll`), and read from it by replacing the escapes one after the other
(`unescapeAll`).

If the escapes are well formed, writing them replaces each symbol by its own escape
(`escapeAll_eq_escape`). Reading them then takes away these escapes, **but also those that the text
has had before**: what comes out is what reading makes of the text itself
(`unescapeAll_escape`). So the text comes back exactly if none of the escapes occurs in it
(`unescapeAll_eq_self_iff`).
-/

namespace Text

variable {α : Type*} [DecidableEq α]

/-! ### Replacing -/

omit [DecidableEq α] in
theorem noOverlap_of_head {e : α} {tail : List α} (he : e ∉ tail) (s : List α) :
    NoOverlap (e :: tail) s := by
  intro i j hij hj hi hocc
  obtain ⟨k, rfl⟩ := Nat.exists_eq_add_of_lt hij
  rw [List.length_cons] at hj
  have hk : k < tail.length := by omega
  obtain ⟨after, hafter⟩ := hi
  have hsuffix : s.drop (i + k + 1) = tail.drop k ++ after := by
    rw [Nat.add_assoc, ← List.drop_drop, ← hafter, List.cons_append, List.drop_succ_cons,
      List.drop_append_of_le_length hk.le]
  rw [hsuffix, List.drop_eq_getElem_cons hk, List.cons_append, List.cons_prefix_cons] at hocc
  exact he (hocc.1 ▸ List.getElem_mem hk)

theorem replaceAll_append {e : α} {tail replacement l : List α} (hl : e ∉ l) (s : List α) :
    replaceAll (e :: tail) replacement (l ++ s) = l ++ replaceAll (e :: tail) replacement s := by
  induction l with
  | nil => rfl
  | cons c l ih =>
    rw [List.mem_cons, not_or] at hl
    rw [List.cons_append, replaceAll_of_not_occurs, ih hl.2, List.cons_append]
    exact fun hocc => hl.1 (List.cons_prefix_cons.mp hocc).1

theorem replaceAll_prefix (e : α) (tail replacement s : List α) :
    replaceAll (e :: tail) replacement (e :: (tail ++ s)) =
      replacement ++ replaceAll (e :: tail) replacement s := by
  have hocc : e :: tail <+: e :: (tail ++ s) := ⟨s, rfl⟩
  rw [replaceAll_of_occurs hocc, List.length_cons, Nat.add_sub_cancel, List.drop_left]

theorem replaceAll_eq_self {pattern replacement s : List α} (h : ¬pattern <:+: s) :
    replaceAll pattern replacement s = s := by
  induction s with
  | nil => rfl
  | cons c s ih =>
    rw [replaceAll_of_not_occurs fun hocc => h hocc.isInfix,
      ih fun hocc => h (hocc.trans (List.suffix_cons c s).isInfix)]

theorem replacementsFrom_pos {pattern s : List α} (hpattern : pattern ≠ []) (h : pattern <:+: s) :
    0 < replacementsFrom pattern 0 s := by
  induction s with
  | nil => exact absurd (List.infix_nil.mp h) hpattern
  | cons c s ih =>
    by_cases hocc : pattern <+: c :: s
    · rw [replacementsFrom_of_occurs hocc]
      omega
    · rw [replacementsFrom_of_not_occurs hocc]
      exact ih ((List.infix_cons_iff.mp h).resolve_left hocc)

theorem length_replaceAll_lt {pattern replacement s : List α}
    (hlt : replacement.length < pattern.length) (h : pattern <:+: s) :
    (replaceAll pattern replacement s).length < s.length := by
  have hpattern : pattern ≠ [] := List.ne_nil_of_length_pos (Nat.zero_lt_of_lt hlt)
  have hlength : (replaceAll pattern replacement s).length +
      replacementsFrom pattern 0 s * pattern.length =
        s.length + replacementsFrom pattern 0 s * replacement.length := length_replaceAll hpattern
  have hmul := Nat.mul_lt_mul_of_pos_left hlt (replacementsFrom_pos hpattern h)
  omega

theorem length_replaceAll_le {pattern replacement : List α}
    (hlt : replacement.length < pattern.length) (s : List α) :
    (replaceAll pattern replacement s).length ≤ s.length := by
  by_cases h : pattern <:+: s
  · exact (length_replaceAll_lt hlt h).le
  · rw [replaceAll_eq_self h]

/-! ### Writing escapes -/

def escape (e : α) (escapes : List (α × List α)) (s : List α) : List α :=
  s.flatMap fun c => ((escapes.lookup c).map (e :: ·)).getD [c]

/-- The symbols are replaced by their escapes, those of one escape after those of the other. -/
def escapeAll (e : α) (escapes : List (α × List α)) (s : List α) : List α :=
  escapes.foldl (fun s escape => replaceAll [escape.1] (e :: escape.2) s) s

/-- The escapes are replaced by their symbols, those of one escape after those of the other. -/
def unescapeAll (e : α) (escapes : List (α × List α)) (s : List α) : List α :=
  escapes.foldl (fun s escape => replaceAll (e :: escape.2) [escape.1] s) s

variable {e c x : α} {tail s : List α} {escapes : List (α × List α)}

theorem escape_nil : escape e escapes [] = [] := rfl

theorem escape_append (s t : List α) :
    escape e escapes (s ++ t) = escape e escapes s ++ escape e escapes t := List.flatMap_append

theorem escape_cons_of_lookup (h : escapes.lookup x = some tail) :
    escape e escapes (x :: s) = e :: (tail ++ escape e escapes s) := by
  rw [escape, List.flatMap_cons, h]
  rfl

theorem escape_cons_of_none (h : escapes.lookup x = none) :
    escape e escapes (x :: s) = x :: escape e escapes s := by
  rw [escape, List.flatMap_cons, h]
  rfl

theorem lookup_cons_of_ne (h : x ≠ c) :
    ((c, tail) :: escapes).lookup x = escapes.lookup x := by
  rw [List.lookup_cons, beq_false_of_ne h]

theorem mem_of_lookup {tail : List α} (h : escapes.lookup x = some tail) : (x, tail) ∈ escapes := by
  induction escapes with
  | nil => cases h
  | cons head escapes ih =>
    obtain ⟨c, tail'⟩ := head
    rcases eq_or_ne x c with rfl | hne
    · rw [List.lookup_cons_self] at h
      exact Option.some.inj h ▸ List.mem_cons_self
    · exact List.mem_cons_of_mem _ (ih ((lookup_cons_of_ne hne).symm.trans h))

theorem escape_eq_self (h : ∀ x ∈ s, escapes.lookup x = none) : escape e escapes s = s := by
  induction s with
  | nil => rfl
  | cons x s ih =>
    rw [List.forall_mem_cons] at h
    rw [escape_cons_of_none h.1, ih h.2]

theorem notMem_escape (hsome : (escapes.lookup c).isSome)
    (hescapes : ∀ escape ∈ escapes, c ∉ e :: escape.2) : c ∉ escape e escapes s := by
  induction s with
  | nil => exact List.not_mem_nil
  | cons x s ih =>
    cases hx : escapes.lookup x with
    | none =>
      rw [escape_cons_of_none hx, List.mem_cons, not_or]
      refine ⟨?_, ih⟩
      rintro rfl
      rw [hx] at hsome
      cases hsome
    | some tail =>
      rw [escape_cons_of_lookup hx, ← List.cons_append, List.mem_append, not_or]
      exact ⟨hescapes _ (mem_of_lookup hx), ih⟩

theorem escape_singleton (s : List α) :
    replaceAll [c] (e :: tail) s = escape e [(c, tail)] s := by
  induction s with
  | nil => rfl
  | cons x s ih =>
    rcases eq_or_ne x c with rfl | hne
    · rw [escape_cons_of_lookup List.lookup_cons_self, ← ih]
      exact replaceAll_prefix x [] (e :: tail) s
    · rw [escape_cons_of_none (lookup_cons_of_ne hne), ← ih, replaceAll_of_not_occurs]
      exact fun hocc => hne (List.cons_prefix_cons.mp hocc).1.symm

theorem escape_escape (hplain : ∀ x ∈ e :: tail, escapes.lookup x = none) (s : List α) :
    escape e escapes (escape e [(c, tail)] s) = escape e ((c, tail) :: escapes) s := by
  induction s with
  | nil => rfl
  | cons x s ih =>
    rcases eq_or_ne x c with rfl | hne
    · rw [escape_cons_of_lookup List.lookup_cons_self,
        escape_cons_of_lookup List.lookup_cons_self, ← ih, ← List.cons_append, escape_append,
        escape_eq_self hplain, List.cons_append]
    · rw [escape_cons_of_none (lookup_cons_of_ne hne)]
      cases hx : escapes.lookup x with
      | none =>
        rw [escape_cons_of_none hx, escape_cons_of_none ((lookup_cons_of_ne hne).trans hx), ih]
      | some tail' =>
        rw [escape_cons_of_lookup hx, escape_cons_of_lookup ((lookup_cons_of_ne hne).trans hx), ih]

/-- The escapes of a list do not get in each other's way: they have one length, no two of them are
the same, and no symbol of an escape has an escape. -/
structure WellFormed (e : α) (n : ℕ) (escapes : List (α × List α)) : Prop where
  length : ∀ escape ∈ escapes, escape.2.length = n
  notMem : ∀ escape ∈ escapes, e ∉ escape.2
  plain : ∀ escape ∈ escapes, ∀ x ∈ e :: escape.2, escapes.lookup x = none
  nodupKeys : (escapes.map Prod.fst).Nodup
  nodupTails : (escapes.map Prod.snd).Nodup

namespace WellFormed

variable {n : ℕ}

theorem lookup_of_cons (h : ((c, tail) :: escapes).lookup x = none) :
    x ≠ c ∧ escapes.lookup x = none := by
  rcases eq_or_ne x c with rfl | hne
  · rw [List.lookup_cons_self] at h
    cases h
  · exact ⟨hne, (lookup_cons_of_ne hne).symm.trans h⟩

theorem of_cons (h : WellFormed e n ((c, tail) :: escapes)) : WellFormed e n escapes where
  length escape hescape := h.length escape (List.mem_cons_of_mem _ hescape)
  notMem escape hescape := h.notMem escape (List.mem_cons_of_mem _ hescape)
  plain escape hescape x hx :=
    (lookup_of_cons (h.plain escape (List.mem_cons_of_mem _ hescape) x hx)).2
  nodupKeys := (List.nodup_cons.mp h.nodupKeys).2
  nodupTails := (List.nodup_cons.mp h.nodupTails).2

end WellFormed

/-- **Written one after the other, the escapes replace their own symbols.** -/
theorem escapeAll_eq_escape {n : ℕ} (h : WellFormed e n escapes) (s : List α) :
    escapeAll e escapes s = escape e escapes s := by
  induction escapes generalizing s with
  | nil => exact (escape_eq_self fun _ _ => rfl).symm
  | cons head escapes ih =>
    obtain ⟨c, tail⟩ := head
    have hplain : ∀ x ∈ e :: tail, escapes.lookup x = none := fun x hx =>
      (WellFormed.lookup_of_cons (h.plain _ List.mem_cons_self x hx)).2
    rw [← escape_escape hplain, ← escape_singleton, ← ih h.of_cons]
    rfl

/-! ### Reading escapes -/

theorem prefix_of_prefix_escape {l : List α} (he : e ∉ l)
    (hplain : ∀ x ∈ l, escapes.lookup x = none) (h : l <+: escape e escapes s) : l <+: s := by
  induction l generalizing s with
  | nil => exact List.nil_prefix
  | cons x l ih =>
    rw [List.mem_cons, not_or] at he
    rw [List.forall_mem_cons] at hplain
    cases s with
    | nil => exact absurd (List.prefix_nil.mp h) (List.cons_ne_nil x l)
    | cons y s =>
      cases hy : escapes.lookup y with
      | none =>
        rw [escape_cons_of_none hy, List.cons_prefix_cons] at h
        exact List.cons_prefix_cons.mpr ⟨h.1, ih he.2 hplain.2 h.2⟩
      | some tail =>
        rw [escape_cons_of_lookup hy, List.cons_prefix_cons] at h
        exact absurd h.1.symm he.1

/-- **Reading one escape** takes away those of its symbol, and those that the text has had. -/
theorem replaceAll_escape_cons {n : ℕ} (h : WellFormed e n ((c, tail) :: escapes)) (s : List α) :
    replaceAll (e :: tail) [c] (escape e ((c, tail) :: escapes) s) =
      escape e escapes (replaceAll (e :: tail) [c] s) := by
  have hplain : ∀ x ∈ e :: tail, ((c, tail) :: escapes).lookup x = none :=
    h.plain _ List.mem_cons_self
  have he : e ∉ tail := h.notMem _ List.mem_cons_self
  have hec : e ≠ c := (WellFormed.lookup_of_cons (hplain e List.mem_cons_self)).1
  have hc : escapes.lookup c = none := by
    cases hlookup : escapes.lookup c with
    | none => rfl
    | some tail' =>
      exact absurd (List.mem_map_of_mem (mem_of_lookup hlookup)) (List.nodup_cons.mp h.nodupKeys).1
  -- the induction is on the length, since an escape is read at once
  induction hlength : s.length using Nat.strong_induction_on generalizing s with
  | _ m ih =>
  cases s with
  | nil => rfl
  | cons x s =>
    rw [List.length_cons] at hlength
    have hrest := ih s.length (by omega) s rfl
    rcases eq_or_ne x c with rfl | hne
    · -- the escape of this symbol is taken away
      have hnot : ¬e :: tail <+: x :: s := fun hocc => hec (List.cons_prefix_cons.mp hocc).1
      rw [escape_cons_of_lookup List.lookup_cons_self, replaceAll_prefix, hrest,
        replaceAll_of_not_occurs hnot, escape_cons_of_none hc, List.singleton_append]
    cases hx : escapes.lookup x with
    | some tail' =>
      -- the escape of another symbol is passed over
      have hmem : (x, tail') ∈ escapes := mem_of_lookup hx
      have hxe : x ≠ e := by
        rintro rfl
        have hnone := (WellFormed.lookup_of_cons (hplain x List.mem_cons_self)).2
        rw [hx] at hnone
        cases hnone
      have htail : ¬tail <+: tail' ++ escape e ((c, tail) :: escapes) s := by
        intro hocc
        have hprefix : tail <+: tail' := List.prefix_of_prefix_length_le hocc
          (List.prefix_append _ _) (by
            rw [h.length _ List.mem_cons_self, h.length _ (List.mem_cons_of_mem _ hmem)])
        have heq : tail = tail' := hprefix.eq_of_length (by
          rw [h.length _ List.mem_cons_self, h.length _ (List.mem_cons_of_mem _ hmem)])
        exact (List.nodup_cons.mp h.nodupTails).1 (heq ▸ List.mem_map.mpr ⟨_, hmem, rfl⟩)
      have hnot : ¬e :: tail <+: x :: s := fun hocc => hxe (List.cons_prefix_cons.mp hocc).1.symm
      rw [escape_cons_of_lookup ((lookup_cons_of_ne hne).trans hx),
        replaceAll_of_not_occurs fun hocc => htail (List.cons_prefix_cons.mp hocc).2,
        replaceAll_append (h.notMem _ (List.mem_cons_of_mem _ hmem)), hrest,
        replaceAll_of_not_occurs hnot, escape_cons_of_lookup hx]
    | none =>
      rw [escape_cons_of_none ((lookup_cons_of_ne hne).trans hx)]
      by_cases hocc : e :: tail <+: x :: s
      · -- the text has had this escape itself
        obtain ⟨s', hs'⟩ := hocc
        rw [List.cons_append, List.cons.injEq] at hs'
        obtain ⟨rfl, rfl⟩ := hs'
        rw [List.length_append] at hlength
        rw [escape_append, escape_eq_self fun y hy => hplain y (List.mem_cons_of_mem _ hy),
          replaceAll_prefix, ih s'.length (by omega) s' rfl, replaceAll_prefix,
          List.singleton_append, List.singleton_append, escape_cons_of_none hc]
      · have hnot : ¬e :: tail <+: x :: escape e ((c, tail) :: escapes) s := by
          rw [List.cons_prefix_cons] at hocc ⊢
          exact fun hocc' => hocc ⟨hocc'.1, prefix_of_prefix_escape he
            (fun y hy => hplain y (List.mem_cons_of_mem _ hy)) hocc'.2⟩
        rw [replaceAll_of_not_occurs hnot, hrest, replaceAll_of_not_occurs hocc,
          escape_cons_of_none hx]

/-- **Reading the escapes of a text** is reading the text itself. -/
theorem unescapeAll_escape {n : ℕ} (h : WellFormed e n escapes) (s : List α) :
    unescapeAll e escapes (escape e escapes s) = unescapeAll e escapes s := by
  induction escapes generalizing s with
  | nil => exact escape_eq_self fun _ _ => rfl
  | cons head escapes ih =>
    obtain ⟨c, tail⟩ := head
    have hhead : ∀ t, unescapeAll e ((c, tail) :: escapes) t =
        unescapeAll e escapes (replaceAll (e :: tail) [c] t) := fun _ => rfl
    rw [hhead, hhead, replaceAll_escape_cons h, ih h.of_cons]

theorem replaceAll_escape_self {n : ℕ} (h : WellFormed e n escapes) (hlength : tail.length = n)
    (he : e ∉ tail) (htail : tail ∉ escapes.map Prod.snd)
    (hnone : escapes.lookup e = none) (s : List α) :
    replaceAll (e :: tail) [e] (escape e ((e, tail) :: escapes) s) = escape e escapes s := by
  induction s with
  | nil => rfl
  | cons x s ih =>
    rcases eq_or_ne x e with rfl | hne
    · rw [escape_cons_of_lookup List.lookup_cons_self, replaceAll_prefix, ih,
        escape_cons_of_none hnone, List.singleton_append]
    cases hx : escapes.lookup x with
    | some tail' =>
      have hmem : (x, tail') ∈ escapes := mem_of_lookup hx
      have hnot : ¬tail <+: tail' ++ escape e ((e, tail) :: escapes) s := by
        intro hocc
        have hprefix : tail <+: tail' := List.prefix_of_prefix_length_le hocc
          (List.prefix_append _ _) (by rw [hlength, h.length _ hmem])
        have heq : tail = tail' := hprefix.eq_of_length (by rw [hlength, h.length _ hmem])
        exact htail (heq ▸ List.mem_map.mpr ⟨_, hmem, rfl⟩)
      rw [escape_cons_of_lookup ((lookup_cons_of_ne hne).trans hx),
        replaceAll_of_not_occurs fun hocc => hnot (List.cons_prefix_cons.mp hocc).2,
        replaceAll_append (h.notMem _ hmem), ih, escape_cons_of_lookup hx]
    | none =>
      rw [escape_cons_of_none ((lookup_cons_of_ne hne).trans hx),
        replaceAll_of_not_occurs fun hocc => hne (List.cons_prefix_cons.mp hocc).1.symm, ih,
        escape_cons_of_none hx]

theorem length_unescapeAll_le (h : ∀ escape ∈ escapes, escape.2 ≠ []) (s : List α) :
    (unescapeAll e escapes s).length ≤ s.length := by
  induction escapes generalizing s with
  | nil => exact le_rfl
  | cons head escapes ih =>
    rw [List.forall_mem_cons] at h
    refine (ih h.2 _).trans (length_replaceAll_le ?_ s)
    exact Nat.succ_lt_succ (List.length_pos_iff.mpr h.1)

/-- **Reading leaves a text as it is exactly if no escape occurs in it.** -/
theorem unescapeAll_eq_self_iff (h : ∀ escape ∈ escapes, escape.2 ≠ []) (s : List α) :
    unescapeAll e escapes s = s ↔ ∀ escape ∈ escapes, ¬e :: escape.2 <:+: s := by
  induction escapes generalizing s with
  | nil => exact iff_of_true rfl fun _ hescape => absurd hescape List.not_mem_nil
  | cons head escapes ih =>
    obtain ⟨c, tail⟩ := head
    rw [List.forall_mem_cons] at h
    have hhead : unescapeAll e ((c, tail) :: escapes) s =
        unescapeAll e escapes (replaceAll (e :: tail) [c] s) := rfl
    rw [List.forall_mem_cons, hhead]
    by_cases hocc : e :: tail <:+: s
    · refine iff_of_false (fun heq => ?_) fun hall => hall.1 hocc
      have hle := length_unescapeAll_le (e := e) h.2 (replaceAll (e :: tail) [c] s)
      have hshort : [c].length < (e :: tail).length :=
        Nat.succ_lt_succ (List.length_pos_iff.mpr h.1)
      have hlt := length_replaceAll_lt hshort hocc
      rw [heq] at hle
      exact absurd hlt (Nat.not_lt.mpr hle)
    · rw [replaceAll_eq_self hocc, ih h.2, and_iff_right hocc]

end Text
