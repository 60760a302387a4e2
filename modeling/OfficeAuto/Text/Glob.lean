import Mathlib.Data.List.Infix

/-!
# Wildcard patterns

A pattern is a list of items: a literal symbol, `one` for exactly one symbol, `many` for any
run of symbols. Whether a wildcard may stand for a given symbol is a parameter `any` of the
matcher, so that two readings of one pattern (every symbol, or every symbol but a line break)
are two instances of one function. `accepts` is a structural recursion on the pattern whose
`many` case scans the text, and it evaluates.

`accepts_mono` compares two readings, `accepts_infix_iff` says that a pattern of literals
between two `many` items finds exactly the texts that contain it, and
`accepts_fill_append` fills the wildcards of a pattern to get a text that it matches.
-/

/-- One item of a wildcard pattern over the alphabet `α`. -/
inductive Glob (α : Type*)
  | lit (c : α)
  | one
  | many
  deriving DecidableEq, Repr

namespace Glob

variable {α : Type*}

/-- Try the continuation `k` on every suffix that is reached over `any` symbols only. -/
def skip (any : α → Bool) (k : List α → Bool) : List α → Bool
  | [] => k []
  | c :: s => k (c :: s) || (any c && skip any k s)

theorem skip_eq_true {any : α → Bool} {k : List α → Bool} {s : List α} :
    skip any k s = true ↔ ∃ u v, s = u ++ v ∧ (∀ c ∈ u, any c = true) ∧ k v = true := by
  induction s with
  | nil =>
    simp only [skip]
    constructor
    · intro h
      exact ⟨[], [], rfl, by simp, h⟩
    · rintro ⟨u, v, huv, -, hv⟩
      obtain ⟨rfl, rfl⟩ := List.append_eq_nil_iff.mp huv.symm
      exact hv
  | cons c s ih =>
    simp only [skip, Bool.or_eq_true, Bool.and_eq_true, ih]
    constructor
    · rintro (h | ⟨hc, u, v, rfl, hu, hv⟩)
      · exact ⟨[], c :: s, rfl, by simp, h⟩
      · exact ⟨c :: u, v, rfl, by simpa [hc] using hu, hv⟩
    · rintro ⟨u, v, huv, hu, hv⟩
      cases u with
      | nil => exact Or.inl (by rwa [huv])
      | cons d u =>
        obtain ⟨rfl, rfl⟩ := List.cons_eq_cons.mp huv
        exact Or.inr ⟨hu c (by simp), u, v, rfl, fun x hx => hu x (by simp [hx]), hv⟩

variable [DecidableEq α]

/-- Does the whole text match the pattern, where a wildcard stands for `any` symbols? -/
@[grind] def accepts (any : α → Bool) : List (Glob α) → List α → Bool
  | [], s => s.isEmpty
  | lit c :: p, s => match s with
    | [] => false
    | d :: s => c == d && accepts any p s
  | one :: p, s => match s with
    | [] => false
    | d :: s => any d && accepts any p s
  | many :: p, s => skip any (accepts any p) s

@[simp]
theorem accepts_nil {any : α → Bool} {s : List α} : accepts any [] s = true ↔ s = [] := by
  simp [accepts]

theorem accepts_lit {any : α → Bool} {c : α} {p : List (Glob α)} {s : List α} :
    accepts any (lit c :: p) s = true ↔ ∃ s', s = c :: s' ∧ accepts any p s' = true := by
  cases s with
  | nil => simp [accepts]
  | cons d s =>
    simp only [accepts, Bool.and_eq_true, beq_iff_eq]
    constructor
    · rintro ⟨rfl, h⟩
      exact ⟨s, rfl, h⟩
    · rintro ⟨s', h, hs'⟩
      obtain ⟨rfl, rfl⟩ := List.cons_eq_cons.mp h
      exact ⟨rfl, hs'⟩

theorem accepts_one {any : α → Bool} {p : List (Glob α)} {s : List α} :
    accepts any (one :: p) s = true ↔
      ∃ d s', s = d :: s' ∧ any d = true ∧ accepts any p s' = true := by
  cases s with
  | nil => simp [accepts]
  | cons d s => simp [accepts]

theorem accepts_many {any : α → Bool} {p : List (Glob α)} {s : List α} :
    accepts any (many :: p) s = true ↔
      ∃ u v, s = u ++ v ∧ (∀ c ∈ u, any c = true) ∧ accepts any p v = true := by
  rw [accepts, skip_eq_true]

theorem accepts_mono {any any' : α → Bool} (hle : ∀ c, any c = true → any' c = true)
    {p : List (Glob α)} : ∀ {s : List α}, accepts any p s = true → accepts any' p s = true := by
  induction p with
  | nil => intro s h; simpa using h
  | cons i p ih =>
    intro s h
    cases i with
    | lit c =>
      obtain ⟨s', rfl, hs⟩ := accepts_lit.mp h
      exact accepts_lit.mpr ⟨s', rfl, ih hs⟩
    | one =>
      obtain ⟨d, s', rfl, hd, hs⟩ := accepts_one.mp h
      exact accepts_one.mpr ⟨d, s', rfl, hle d hd, ih hs⟩
    | many =>
      obtain ⟨u, v, rfl, hu, hv⟩ := accepts_many.mp h
      exact accepts_many.mpr ⟨u, v, rfl, fun c hc => hle c (hu c hc), ih hv⟩

theorem accepts_map_lit_append {any : α → Bool} {t : List α} {q : List (Glob α)} :
    ∀ {s : List α}, accepts any (t.map lit ++ q) s = true ↔
      ∃ s', s = t ++ s' ∧ accepts any q s' = true := by
  induction t with
  | nil => intro s; simp
  | cons c t ih =>
    intro s
    simp only [List.map_cons, List.cons_append, accepts_lit, ih]
    constructor
    · rintro ⟨_, rfl, s', rfl, h⟩
      exact ⟨s', rfl, h⟩
    · rintro ⟨s', rfl, h⟩
      exact ⟨t ++ s', rfl, s', rfl, h⟩

theorem accepts_many_nil {s : List α} : accepts (fun _ => true) [many] s = true :=
  accepts_many.mpr ⟨s, [], by simp, by simp, by simp⟩

theorem accepts_infix_iff {t s : List α} :
    accepts (fun _ => true) (many :: (t.map lit ++ [many])) s = true ↔ t <:+: s := by
  rw [accepts_many]
  constructor
  · rintro ⟨u, v, rfl, -, h⟩
    obtain ⟨w, rfl, -⟩ := accepts_map_lit_append.mp h
    exact ⟨u, w, by simp⟩
  · rintro ⟨u, w, rfl⟩
    refine ⟨u, t ++ w, by simp, by simp, ?_⟩
    exact accepts_map_lit_append.mpr ⟨w, rfl, accepts_many_nil⟩

theorem accepts_prefix_iff {t s : List α} :
    accepts (fun _ => true) (t.map lit ++ [many]) s = true ↔ t <+: s := by
  rw [accepts_map_lit_append]
  constructor
  · rintro ⟨w, rfl, -⟩
    exact ⟨w, rfl⟩
  · rintro ⟨w, rfl⟩
    exact ⟨w, rfl, accepts_many_nil⟩

theorem accepts_suffix_iff {t s : List α} :
    accepts (fun _ => true) (many :: t.map lit) s = true ↔ t <:+ s := by
  rw [accepts_many]
  constructor
  · rintro ⟨u, v, rfl, -, h⟩
    rw [← List.append_nil (t.map lit)] at h
    obtain ⟨w, rfl, hw⟩ := accepts_map_lit_append.mp h
    obtain rfl := accepts_nil.mp hw
    exact ⟨u, by simp⟩
  · rintro ⟨u, rfl⟩
    refine ⟨u, t, rfl, by simp, ?_⟩
    rw [← List.append_nil (t.map lit)]
    exact accepts_map_lit_append.mpr ⟨[], by simp, by simp⟩

def fill (x : α) : List (Glob α) → List α :=
  List.map fun
    | lit c => c
    | one => x
    | many => x

theorem accepts_fill_append {any : α → Bool} {x : α} (hx : any x = true) {q : List (Glob α)}
    {s : List α} (h : accepts any q s = true) {p : List (Glob α)} :
    accepts any (p ++ q) (fill x p ++ s) = true := by
  induction p with
  | nil => simpa [fill] using h
  | cons i p ih =>
    cases i with
    | lit c => exact accepts_lit.mpr ⟨_, rfl, ih⟩
    | one => exact accepts_one.mpr ⟨x, _, rfl, hx, ih⟩
    | many => exact accepts_many.mpr ⟨[x], _, rfl, by simpa using hx, ih⟩

theorem count_lit_le {any : α → Bool} {c : α} {p : List (Glob α)} :
    ∀ {s : List α}, accepts any p s = true → p.count (lit c) ≤ s.count c := by
  induction p with
  | nil => exact fun _ => Nat.zero_le _
  | cons i p ih =>
    intro s h
    cases i with
    | lit d =>
      obtain ⟨s', rfl, hs⟩ := accepts_lit.mp h
      have hle := ih hs
      by_cases hd : d = c
      · subst hd
        rw [List.count_cons_self, List.count_cons_self]
        omega
      · rw [List.count_cons_of_ne (by simpa using hd), List.count_cons_of_ne hd]
        exact hle
    | one =>
      obtain ⟨d, s', rfl, -, hs⟩ := accepts_one.mp h
      rw [List.count_cons_of_ne (by simp)]
      exact (ih hs).trans (List.count_le_count_cons)
    | many =>
      obtain ⟨u, v, rfl, -, hv⟩ := accepts_many.mp h
      rw [List.count_cons_of_ne (by simp), List.count_append]
      exact (ih hv).trans (Nat.le_add_left _ _)

end Glob
