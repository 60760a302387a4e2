import OfficeAuto.Logic.Result
import Mathlib.Order.Lattice

/-!
# Passes that skip ahead

The rows of many sources are read window after window. A source that has no row in a window is
asked for the next time that it has one, and until then it is not read; when no source has a row,
the least of these times lets whole windows be skipped.

A time is a promise about the windows that end before it (`Valid`). While every promise is kept,
the passes return what they return without any of them (`pass_fst`), and a pass leaves only
promises that are kept if those that it makes are (`Valid.pass`). It makes one for each source
that it has read without finding a row, and one for all sources together, which also speaks for
the sources that it has not read.
-/

namespace SkipAhead

variable {ι ρ τ ε : Type} [LinearOrder τ]

/-- What a pass reads: the rows of each source before the end of the window. -/
structure Window (ι ρ τ : Type) where
  stop : τ
  rows : ι → List ρ

/-- The known next times: of all sources together, and of each. -/
structure Known (ι τ : Type) where
  next : Option τ
  nextOf : ι → Option τ

def reaches (known : Option τ) (t : τ) : Bool := known.any (t ≤ ·)

def lower (known : Option τ) (t : τ) : Option τ := if known.any (· ≤ t) then known else some t

/-- One source of a pass. The next time of a source is asked for when it has no row. -/
def visit [DecidableEq ι] (merge : List ρ → List ρ → Except ε (List ρ)) (W : Window ι ρ τ)
    (next : ι → τ) (acc : List ρ × Known ι τ) (i : ι) : Except ε (List ρ × Known ι τ) :=
  if reaches (acc.2.nextOf i) W.stop then .ok acc
  else do
    let values ← merge (W.rows i) acc.1
    pure (values,
      if (W.rows i).isEmpty then
        { next := lower acc.2.next (next i)
          nextOf := Function.update acc.2.nextOf i (lower (acc.2.nextOf i) (next i)) }
      else acc.2)

/-- A pass over the sources. The time of all of them is dropped when some row was found. -/
def pass [DecidableEq ι] (merge : List ρ → List ρ → Except ε (List ρ)) (W : Window ι ρ τ)
    (next : ι → τ) (sources : List ι) (known : Known ι τ) : Except ε (List ρ × Known ι τ) :=
  if reaches known.next W.stop then .ok ([], known)
  else do
    let read ← sources.foldlM (visit merge W next) ([], known)
    pure (read.1, if read.1.isEmpty then read.2 else { read.2 with next := none })

def scan (merge : List ρ → List ρ → Except ε (List ρ)) (W : Window ι ρ τ) (sources : List ι) :
    Except ε (List ρ) :=
  sources.foldlM (fun values i => merge (W.rows i) values) []

/-- Merging the rows of a source into those that were found before. -/
structure LawfulMerge (merge : List ρ → List ρ → Except ε (List ρ)) : Prop where
  nil : ∀ values, merge [] values = .ok values
  eq_nil : ∀ rows values values', merge rows values = .ok values' →
    (values' = [] ↔ rows = [] ∧ values = [])

/-- The promises about a sequence of windows, the current one first. -/
structure Valid (W : ℕ → Window ι ρ τ) (sources : List ι) (known : Known ι τ) : Prop where
  nextOf : ∀ i b, known.nextOf i = some b → ∀ k, (W k).stop ≤ b → (W k).rows i = []
  next : ∀ b, known.next = some b → ∀ k, (W k).stop ≤ b → ∀ i ∈ sources, (W k).rows i = []

variable {merge : List ρ → List ρ → Except ε (List ρ)} {sources : List ι} {known : Known ι τ}
  {next : ι → τ}

/-! ### Known times and sources without rows -/

theorem reaches_iff {b : Option τ} {t : τ} :
    reaches b t = true ↔ ∃ b', b = some b' ∧ t ≤ b' := by
  cases b with
  | none => simp [reaches]
  | some b' => simp [reaches]

theorem lower_le_self (b : Option τ) (t : τ) : ∃ b', lower b t = some b' ∧ b' ≤ t := by
  rw [lower]
  split
  · rename_i hany
    exact (Option.any_eq_true_iff_get _ _).elim (fun h _ => by
      obtain ⟨h₁, h₂⟩ := h hany
      exact ⟨b.get h₁, (Option.some_get h₁).symm, by simpa using h₂⟩)
  · exact ⟨t, rfl, le_rfl⟩

theorem lower_le_of_some {b b₀ : τ} (t : τ) (h : b₀ ≤ b) :
    ∃ b', lower (some b₀) t = some b' ∧ b' ≤ b := by
  rw [lower]
  split
  · exact ⟨b₀, rfl, h⟩
  · rename_i hany
    have hlt : t < b₀ := by simpa using hany
    exact ⟨t, rfl, le_trans (le_of_lt hlt) h⟩

theorem valid_nothing (W : ℕ → Window ι ρ τ) (sources : List ι) :
    Valid W sources ⟨none, fun _ => none⟩ :=
  ⟨fun _ _ h => (nomatch h), fun _ h => (nomatch h)⟩

def Skips (W : Window ι ρ τ) (known : Known ι τ) : Prop :=
  ∀ i, reaches (known.nextOf i) W.stop = true → W.rows i = []

theorem Valid.skips {W : ℕ → Window ι ρ τ} (h : Valid W sources known) : Skips (W 0) known := by
  intro i hi
  obtain ⟨b, hb, hle⟩ := reaches_iff.mp hi
  exact h.nextOf i b hb 0 hle

theorem foldlM_merge_nil (hmerge : LawfulMerge merge) {rows : ι → List ρ}
    (h : ∀ i ∈ sources, rows i = []) (values : List ρ) :
    sources.foldlM (fun values i => merge (rows i) values) values = .ok values := by
  induction sources with
  | nil => rfl
  | cons i sources ih =>
    rw [List.foldlM_cons, h i List.mem_cons_self, hmerge.nil]
    exact ih fun j hj => h j (List.mem_cons_of_mem i hj)

def Quiet (W : Window ι ρ τ) (known : Known ι τ) (i : ι) : Prop :=
  reaches (known.nextOf i) W.stop = false ∧ W.rows i = []

/-- What a pass, over the sources so far, has done to the times before it. -/
structure Leaves (W : Window ι ρ τ) (next : ι → τ) (known : Known ι τ) (read : List ι)
    (acc : List ρ × Known ι τ) : Prop where
  /-- A new time is that of a quiet source. -/
  nextOf : ∀ i, acc.2.nextOf i = known.nextOf i ∨ (i ∈ read ∧ Quiet W known i)
  /-- Without values every source that was not skipped is quiet. -/
  quiet : acc.1 = [] → ∀ i ∈ read, reaches (known.nextOf i) W.stop = false → W.rows i = []
  /-- The time of a quiet source is not above its next row. -/
  nextOf_le : ∀ i ∈ read, Quiet W known i → ∃ b, acc.2.nextOf i = some b ∧ b ≤ next i
  /-- Neither is the time of all sources. -/
  next_le : ∀ i ∈ read, Quiet W known i → ∃ b, acc.2.next = some b ∧ b ≤ next i
  /-- A known time of a source is not raised. -/
  nextOf_le_old : ∀ i b₀, known.nextOf i = some b₀ → ∃ b, acc.2.nextOf i = some b ∧ b ≤ b₀
  /-- Nor is the known time of all sources. -/
  next_le_old : ∀ b₀, known.next = some b₀ → ∃ b, acc.2.next = some b ∧ b ≤ b₀
  /-- Without a quiet source the time of all sources stays. -/
  next_eq : (∀ i ∈ read, ¬Quiet W known i) → acc.2.next = known.next

theorem Leaves.start (W : Window ι ρ τ) (next : ι → τ) (known : Known ι τ) :
    Leaves W next known [] (([], known) : List ρ × Known ι τ) :=
  ⟨fun _ => .inl rfl, fun _ _ h => (nomatch h), fun _ h => (nomatch h), fun _ h => (nomatch h),
    fun _ b₀ h => ⟨b₀, h, le_rfl⟩, fun b₀ h => ⟨b₀, h, le_rfl⟩, fun _ => rfl⟩

variable [DecidableEq ι]

theorem visit_cases (hmerge : LawfulMerge merge) {W : Window ι ρ τ}
    {acc acc' : List ρ × Known ι τ} {i : ι} (h : visit merge W next acc i = .ok acc') :
    (reaches (acc.2.nextOf i) W.stop = true ∧ acc' = acc) ∨
    (reaches (acc.2.nextOf i) W.stop = false ∧ W.rows i = [] ∧ acc'.1 = acc.1 ∧
      acc'.2.next = lower acc.2.next (next i) ∧
      acc'.2.nextOf = Function.update acc.2.nextOf i (lower (acc.2.nextOf i) (next i))) ∨
    (W.rows i ≠ [] ∧ acc'.1 ≠ [] ∧ acc'.2 = acc.2) := by
  rw [visit] at h
  split at h
  · rename_i hreach
    cases h
    exact .inl ⟨hreach, rfl⟩
  · rename_i hreach
    obtain ⟨values, hvalues, h⟩ := Except.bind_eq_ok.mp h
    obtain rfl := Except.pure_eq_ok.mp h
    by_cases hrows : W.rows i = []
    · rw [hrows, hmerge.nil] at hvalues
      cases hvalues
      exact .inr (.inl ⟨Bool.eq_false_iff.mpr hreach, hrows, rfl, by simp [hrows],
        by simp [hrows]⟩)
    · refine .inr (.inr ⟨hrows, fun hnil => ?_, by simp [hrows]⟩)
      exact hrows ((hmerge.eq_nil _ _ _ hvalues).mp hnil).1

/-! ### The pass returns the rows -/

theorem Skips.visit (hmerge : LawfulMerge merge) {W : Window ι ρ τ}
    {acc acc' : List ρ × Known ι τ} {i : ι} (hskips : Skips W acc.2)
    (h : visit merge W next acc i = .ok acc') : Skips W acc'.2 := by
  obtain ⟨-, rfl⟩ | ⟨-, hrows, -, -, hnextOf⟩ | ⟨-, -, heq⟩ := visit_cases hmerge h
  · exact hskips
  · intro j hj
    by_cases hji : j = i
    · rw [hji, hrows]
    · rw [hnextOf, Function.update_of_ne hji] at hj
      exact hskips j hj
  · rw [heq]
    exact hskips

theorem visit_fst (hmerge : LawfulMerge merge) {W : Window ι ρ τ} {acc : List ρ × Known ι τ}
    (hskips : Skips W acc.2) (i : ι) :
    (visit merge W next acc i).map Prod.fst = merge (W.rows i) acc.1 := by
  rw [visit]
  split
  · rename_i hreach
    rw [hskips i hreach, hmerge.nil]
    rfl
  · cases merge (W.rows i) acc.1 with
    | error e => rfl
    | ok values => rfl

theorem foldlM_visit_fst (hmerge : LawfulMerge merge) {W : Window ι ρ τ}
    (acc : List ρ × Known ι τ) (hskips : Skips W acc.2) :
    (sources.foldlM (visit merge W next) acc).map Prod.fst =
      sources.foldlM (fun values i => merge (W.rows i) values) acc.1 := by
  induction sources generalizing acc with
  | nil => rfl
  | cons i sources ih =>
    rw [List.foldlM_cons, List.foldlM_cons, ← visit_fst hmerge hskips i]
    cases hvisit : visit merge W next acc i with
    | error e => rfl
    | ok acc' => exact ih acc' (hskips.visit hmerge hvisit)

/-- **Skipping is transparent** while the promises are kept: a pass finds the same rows, and it
fails where a pass that skips nothing fails. -/
theorem pass_fst (hmerge : LawfulMerge merge) {W : ℕ → Window ι ρ τ}
    (h : Valid W sources known) :
    (pass merge (W 0) next sources known).map Prod.fst = scan merge (W 0) sources := by
  rw [pass, scan]
  split
  · rename_i hreach
    obtain ⟨b, hb, hle⟩ := reaches_iff.mp hreach
    rw [foldlM_merge_nil hmerge (h.next b hb 0 hle)]
    rfl
  · rw [← foldlM_visit_fst hmerge ([], known) h.skips]
    cases sources.foldlM (visit merge (W 0) next) ([], known) with
    | error e => rfl
    | ok read => rfl

/-! ### The times that a pass leaves -/

theorem Leaves.visit (hmerge : LawfulMerge merge) {W : Window ι ρ τ} {read : List ι}
    {acc acc' : List ρ × Known ι τ} {i : ι} (hacc : Leaves W next known read acc)
    (h : SkipAhead.visit merge W next acc i = .ok acc') :
    Leaves W next known (read ++ [i]) acc' := by
  have hmem {j : ι} (hj : j ∈ read ++ [i]) : j ∈ read ∨ j = i := by
    simpa using hj
  have hold {j : ι} (hj : j ∈ read) : j ∈ read ++ [i] := List.mem_append_left _ hj
  obtain ⟨hreach, rfl⟩ | ⟨hreach, hrows, hvalues, hnext, hnextOf⟩ | ⟨hrows, hvalues, heq⟩ :=
    visit_cases hmerge h
  · -- a source that is skipped though it was not before has been read in this pass
    have hread (hnot : reaches (known.nextOf i) W.stop = false) : i ∈ read ∧ Quiet W known i := by
      obtain hsame | hquiet := hacc.nextOf i
      · rw [hsame, hnot] at hreach
        cases hreach
      · exact hquiet
    refine ⟨fun j => (hacc.nextOf j).imp_right fun ⟨hj, hquiet⟩ => ⟨hold hj, hquiet⟩,
      fun hnil j hj hnot => ?_, fun j hj hquiet => ?_, fun j hj hquiet => ?_,
      hacc.nextOf_le_old, hacc.next_le_old, fun hall => hacc.next_eq fun j hj => hall j (hold hj)⟩
    · obtain hj | rfl := hmem hj
      · exact hacc.quiet hnil j hj hnot
      · exact (hread hnot).2.2
    · obtain hj | rfl := hmem hj
      · exact hacc.nextOf_le j hj hquiet
      · exact hacc.nextOf_le j (hread hquiet.1).1 hquiet
    · obtain hj | rfl := hmem hj
      · exact hacc.next_le j hj hquiet
      · exact hacc.next_le j (hread hquiet.1).1 hquiet
  · -- a quiet source lowers its own time and that of all
    have hquiet : Quiet W known i := by
      refine ⟨?_, hrows⟩
      obtain hsame | ⟨-, hquiet⟩ := hacc.nextOf i
      · rw [← hsame]
        exact hreach
      · exact hquiet.1
    refine ⟨fun j => ?_, fun hnil j hj hnot => ?_, fun j hj hj' => ?_, fun j hj hj' => ?_,
      fun j b₀ hb₀ => ?_, fun b₀ hb₀ => ?_, fun hall => ?_⟩
    · by_cases hji : j = i
      · subst hji
        exact .inr ⟨List.mem_append_right _ List.mem_cons_self, hquiet⟩
      · rw [hnextOf, Function.update_of_ne hji]
        exact (hacc.nextOf j).imp_right fun ⟨hj, hquiet⟩ => ⟨hold hj, hquiet⟩
    · obtain hj | rfl := hmem hj
      · exact hacc.quiet (hvalues ▸ hnil) j hj hnot
      · exact hrows
    · by_cases hji : j = i
      · subst hji
        rw [hnextOf, Function.update_self]
        exact lower_le_self _ _
      · rw [hnextOf, Function.update_of_ne hji]
        exact hacc.nextOf_le j ((hmem hj).resolve_right hji) hj'
    · rw [hnext]
      by_cases hji : j = i
      · subst hji
        exact lower_le_self _ _
      · obtain ⟨b, hb, hle⟩ := hacc.next_le j ((hmem hj).resolve_right hji) hj'
        rw [hb]
        exact lower_le_of_some _ hle
    · obtain ⟨b, hb, hle⟩ := hacc.nextOf_le_old j b₀ hb₀
      by_cases hji : j = i
      · subst hji
        rw [hnextOf, Function.update_self, hb]
        exact lower_le_of_some _ hle
      · rw [hnextOf, Function.update_of_ne hji]
        exact ⟨b, hb, hle⟩
    · obtain ⟨b, hb, hle⟩ := hacc.next_le_old b₀ hb₀
      rw [hnext, hb]
      exact lower_le_of_some _ hle
    · exact absurd hquiet (hall i (List.mem_append_right _ List.mem_cons_self))
  · -- a source with rows changes no time
    have hnot {j : ι} (hj : j ∈ read ++ [i]) (hquiet : Quiet W known j) : j ∈ read := by
      obtain hj | rfl := hmem hj
      · exact hj
      · exact absurd hquiet.2 hrows
    refine ⟨fun j => ?_, fun hnil => absurd hnil hvalues, fun j hj hquiet => ?_,
      fun j hj hquiet => ?_, ?_, ?_, fun hall => ?_⟩
    · rw [heq]
      exact (hacc.nextOf j).imp_right fun ⟨hj, hquiet⟩ => ⟨hold hj, hquiet⟩
    · rw [heq]
      exact hacc.nextOf_le j (hnot hj hquiet) hquiet
    · rw [heq]
      exact hacc.next_le j (hnot hj hquiet) hquiet
    · rw [heq]
      exact hacc.nextOf_le_old
    · rw [heq]
      exact hacc.next_le_old
    · rw [heq]
      exact hacc.next_eq fun j hj => hall j (hold hj)

theorem Leaves.foldlM (hmerge : LawfulMerge merge) {W : Window ι ρ τ} {read : List ι}
    {acc acc' : List ρ × Known ι τ} (hacc : Leaves W next known read acc)
    (h : sources.foldlM (SkipAhead.visit merge W next) acc = .ok acc') :
    Leaves W next known (read ++ sources) acc' := by
  induction sources generalizing read acc with
  | nil =>
    rw [List.foldlM_nil, Except.pure_eq_ok] at h
    rw [List.append_nil, ← h]
    exact hacc
  | cons i sources ih =>
    rw [List.foldlM_cons] at h
    obtain ⟨acc₁, hvisit, h⟩ := Except.bind_eq_ok.mp h
    rw [List.append_cons]
    exact ih (hacc.visit hmerge hvisit) h

theorem rows_eq_nil_of_pass (hmerge : LawfulMerge merge) {W : Window ι ρ τ}
    {left : Known ι τ} (hskips : Skips W known)
    (hnext : reaches known.next W.stop = true → ∀ i ∈ sources, W.rows i = [])
    (h : pass merge W next sources known = .ok ([], left)) : ∀ i ∈ sources, W.rows i = [] := by
  rw [pass] at h
  split at h
  · rename_i hreach
    exact hnext hreach
  · obtain ⟨read, hread, h⟩ := Except.bind_eq_ok.mp h
    have hleaves := (Leaves.start W next known).foldlM hmerge hread
    have hnil : read.1 = [] := congrArg Prod.fst (Except.pure_eq_ok.mp h)
    intro i hi
    cases hskip : reaches (known.nextOf i) W.stop with
    | true => exact hskips i hskip
    | false => exact hleaves.quiet hnil i hi hskip

/-- The promises that a pass makes are kept: the one for a quiet source whose next time was not
known, and the one for all sources where it is made, that is where no source has a row. -/
structure Kept (W : ℕ → Window ι ρ τ) (next : ι → τ) (sources : List ι) (known : Known ι τ) :
    Prop where
  quiet : ∀ i ∈ sources, Quiet (W 0) known i → known.nextOf i = none →
    ∀ k, (W (k + 1)).stop ≤ next i → (W (k + 1)).rows i = []
  all : known.next = none → (∀ i ∈ sources, (W 0).rows i = []) →
    (∃ i ∈ sources, Quiet (W 0) known i) →
    ∀ k, (∀ i ∈ sources, Quiet (W 0) known i → (W (k + 1)).stop ≤ next i) →
    ∀ i ∈ sources, (W (k + 1)).rows i = []

/-- **A pass keeps the promises** if it keeps those that it makes. -/
theorem Valid.pass (hmerge : LawfulMerge merge) {W : ℕ → Window ι ρ τ}
    (hvalid : Valid W sources known) {left : List ρ × Known ι τ}
    (h : SkipAhead.pass merge (W 0) next sources known = .ok left)
    (hkept : reaches known.next (W 0).stop = false → Kept W next sources known) :
    Valid (fun k => W (k + 1)) sources left.2 := by
  rw [SkipAhead.pass] at h
  split at h
  · cases h
    exact ⟨fun i b hb k => hvalid.nextOf i b hb (k + 1), fun b hb k => hvalid.next b hb (k + 1)⟩
  · rename_i hreach
    have hkept := hkept (Bool.eq_false_iff.mpr hreach)
    obtain ⟨read, hread, h⟩ := Except.bind_eq_ok.mp h
    obtain rfl := Except.pure_eq_ok.mp h
    have hleaves := (Leaves.start (W 0) next known).foldlM hmerge hread
    have hnextOf (i : ι) : (if read.1.isEmpty then read.2 else { read.2 with next := none }).nextOf
        i = read.2.nextOf i := by
      split <;> rfl
    constructor
    · intro i b hb k hk
      rw [hnextOf] at hb
      -- a bound that was known before is only lowered; a new one is a promise of this pass
      cases hold : known.nextOf i with
      | some b₀ =>
        obtain ⟨b', hb', hle⟩ := hleaves.nextOf_le_old i b₀ hold
        obtain rfl : b' = b := Option.some.inj (hb'.symm.trans hb)
        exact hvalid.nextOf i b₀ hold (k + 1) (le_trans hk hle)
      | none =>
        obtain hsame | ⟨hi, hquiet⟩ := hleaves.nextOf i
        · rw [hsame, hold] at hb
          cases hb
        · obtain ⟨b', hb', hle⟩ := hleaves.nextOf_le i hi hquiet
          obtain rfl : b' = b := Option.some.inj (hb'.symm.trans hb)
          exact hkept.quiet i hi hquiet hold k (le_trans hk hle)
    · intro b hb k hk i hi
      -- the bound for all is forgotten when something has been read
      have hnil : read.1 = [] := by
        by_contra hne
        rw [if_neg (by simpa using hne)] at hb
        cases hb
      rw [hnil, if_pos List.isEmpty_nil] at hb
      cases hold : known.next with
      | some b₀ =>
        obtain ⟨b', hb', hle⟩ := hleaves.next_le_old b₀ hold
        obtain rfl : b' = b := Option.some.inj (hb'.symm.trans hb)
        exact hvalid.next b₀ hold (k + 1) (le_trans hk hle) i hi
      | none =>
        have hrows (j : ι) (hj : j ∈ sources) : (W 0).rows j = [] := by
          cases hskip : reaches (known.nextOf j) (W 0).stop with
          | true => exact hvalid.skips j hskip
          | false => exact hleaves.quiet hnil j hj hskip
        have hsome : ∃ j ∈ sources, Quiet (W 0) known j := by
          by_contra hnone
          rw [hleaves.next_eq fun j hj hquiet => hnone ⟨j, hj, hquiet⟩, hold] at hb
          cases hb
        refine hkept.all hold hrows hsome k (fun j hj hquiet => ?_) i hi
        obtain ⟨b', hb', hle⟩ := hleaves.next_le j hj hquiet
        obtain rfl : b' = b := Option.some.inj (hb'.symm.trans hb)
        exact le_trans hk hle

end SkipAhead
