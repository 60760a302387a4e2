import Mathlib.Algebra.Order.Ring.Int
import Mathlib.Data.List.Basic

/-!
# Mixed radix numerals

A whole number is cut into counts of ever smaller units: a division that rounds toward zero gives
the count of a unit, and the remainder goes on to the next unit. The last count is the rest. Such
a numeral is canonical if all its counts have one sign and what follows a count is less than the
unit of that count. The canonical numerals are exactly the ones cut from a number
(`canonical_digits`, `digits_value`).

Numerals are compared at the first place where they differ. `lead` is the difference there, zero
for equal numerals. On canonical numerals this is the order of the numbers (`lead_pos_iff`), also
where the two signs are not the same.
-/

namespace MixedRadix

/-! ### Digits and values -/

def digits : List Int → Int → List Int
  | [], n => [n]
  | u :: us, n => n.tdiv u :: digits us (n.tmod u)

def value : List Int → List Int → Int
  | u :: us, c :: cs => u * c + value us cs
  | [], c :: _ => c
  | _, [] => 0

/-- What follows a count is less than its unit, and the rest is one count. -/
def Bounded : List Int → List Int → Prop
  | [], cs => ∃ c, cs = [c]
  | _ :: _, [] => False
  | u :: us, _ :: cs => -u < value us cs ∧ value us cs < u ∧ Bounded us cs

def SameSign (cs : List Int) : Prop := (∀ c ∈ cs, 0 ≤ c) ∨ ∀ c ∈ cs, c ≤ 0

structure Canonical (us cs : List Int) : Prop where
  bounded : Bounded us cs
  sameSign : SameSign cs

variable {us cs ds : List Int} {u c d n : Int}

theorem tdiv_lt_of_lt_mul {k : Int} (hu : 0 < u) (hk : 0 < k) (h : n < k * u) : n.tdiv u < k := by
  rcases Int.le_total 0 n with hn | hn
  · rw [Int.tdiv_eq_ediv_of_nonneg hn]
    exact Int.ediv_lt_of_lt_mul hu h
  · have hneg := Int.tdiv_nonneg (Int.neg_nonneg_of_nonpos hn) hu.le
    rw [Int.neg_tdiv] at hneg
    omega

theorem lt_tdiv_of_mul_lt {k : Int} (hu : 0 < u) (hk : 0 < k) (h : -k * u < n) :
    -k < n.tdiv u := by
  have hneg : (-n).tdiv u < k := tdiv_lt_of_lt_mul hu hk (by rw [Int.neg_mul] at h; omega)
  rw [Int.neg_tdiv] at hneg
  omega

theorem value_digits (us : List Int) (n : Int) : value us (digits us n) = n := by
  induction us generalizing n with
  | nil => rfl
  | cons u us ih =>
    rw [digits, value, ih]
    exact Int.mul_tdiv_add_tmod n u

theorem bounded_digits (hus : ∀ u ∈ us, 0 < u) (n : Int) : Bounded us (digits us n) := by
  induction us generalizing n with
  | nil => exact ⟨n, rfl⟩
  | cons u us ih =>
    have hu : 0 < u := hus u List.mem_cons_self
    refine ⟨?_, ?_, ih (fun v hv => hus v (List.mem_cons_of_mem _ hv)) _⟩
    · rw [value_digits]
      exact Int.lt_tmod_of_pos n hu
    · rw [value_digits]
      exact Int.tmod_lt_of_pos n hu

theorem digits_nonneg (hus : ∀ u ∈ us, 0 < u) (hn : 0 ≤ n) : ∀ c ∈ digits us n, 0 ≤ c := by
  induction us generalizing n with
  | nil => simpa [digits] using hn
  | cons u us ih =>
    intro c hc
    have hu : 0 < u := hus u List.mem_cons_self
    rcases List.mem_cons.mp hc with rfl | hc
    · exact Int.tdiv_nonneg hn hu.le
    · exact ih (fun v hv => hus v (List.mem_cons_of_mem _ hv)) (Int.tmod_nonneg u hn) c hc

theorem digits_neg (us : List Int) (n : Int) : digits us (-n) = (digits us n).map (- ·) := by
  induction us generalizing n with
  | nil => rfl
  | cons u us ih => simp only [digits, Int.neg_tdiv, Int.neg_tmod, ih, List.map_cons]

theorem digits_nonpos (hus : ∀ u ∈ us, 0 < u) (hn : n ≤ 0) : ∀ c ∈ digits us n, c ≤ 0 := by
  intro c hc
  have hneg : -c ∈ digits us (-n) := by
    rw [digits_neg]
    exact List.mem_map_of_mem hc
  have := digits_nonneg hus (Int.neg_nonneg_of_nonpos hn) _ hneg
  omega

theorem canonical_digits (hus : ∀ u ∈ us, 0 < u) (n : Int) : Canonical us (digits us n) where
  bounded := bounded_digits hus n
  sameSign := (Int.le_total 0 n).imp (digits_nonneg hus) (digits_nonpos hus)

theorem Canonical.tail (h : Canonical (u :: us) (c :: cs)) : Canonical us cs where
  bounded := h.bounded.2.2
  sameSign := h.sameSign.imp (fun h c hc => h c (List.mem_cons_of_mem _ hc))
    fun h c hc => h c (List.mem_cons_of_mem _ hc)

theorem value_nonneg (hus : ∀ u ∈ us, 0 < u) (hcs : ∀ c ∈ cs, 0 ≤ c) : 0 ≤ value us cs := by
  induction us generalizing cs with
  | nil =>
    cases cs with
    | nil => exact Int.le_refl 0
    | cons c cs => exact hcs c List.mem_cons_self
  | cons u us ih =>
    cases cs with
    | nil => exact Int.le_refl 0
    | cons c cs =>
      have hhead : 0 ≤ u * c :=
        Int.mul_nonneg (hus u List.mem_cons_self).le (hcs c List.mem_cons_self)
      have htail := ih (fun v hv => hus v (List.mem_cons_of_mem _ hv))
        fun d hd => hcs d (List.mem_cons_of_mem _ hd)
      exact Int.add_nonneg hhead htail

theorem value_neg (us cs : List Int) : value us (cs.map (- ·)) = -value us cs := by
  induction us generalizing cs with
  | nil =>
    cases cs with
    | nil => rfl
    | cons c cs => rfl
  | cons u us ih =>
    cases cs with
    | nil => rfl
    | cons c cs => rw [List.map_cons, value, value, ih, Int.neg_add, Int.mul_neg]

theorem value_nonpos (hus : ∀ u ∈ us, 0 < u) (hcs : ∀ c ∈ cs, c ≤ 0) : value us cs ≤ 0 := by
  have hneg : ∀ c ∈ cs.map (- ·), 0 ≤ c := by
    intro c hc
    obtain ⟨d, hd, rfl⟩ := List.mem_map.mp hc
    exact Int.neg_nonneg_of_nonpos (hcs d hd)
  have := value_nonneg hus hneg
  rw [value_neg] at this
  omega

/-- **Cutting a number undoes putting it together** from a canonical numeral. -/
theorem digits_value (hus : ∀ u ∈ us, 0 < u) (h : Canonical us cs) :
    digits us (value us cs) = cs := by
  induction us generalizing cs with
  | nil =>
    obtain ⟨c, rfl⟩ := h.bounded
    rfl
  | cons u us ih =>
    cases cs with
    | nil => exact h.bounded.elim
    | cons c cs =>
      have hu : 0 < u := hus u List.mem_cons_self
      have hus' : ∀ v ∈ us, 0 < v := fun v hv => hus v (List.mem_cons_of_mem _ hv)
      obtain ⟨hlow, hhigh, -⟩ := h.bounded
      have hcut : (u * c + value us cs).tdiv u = c ∧
          (u * c + value us cs).tmod u = value us cs := by
        -- rounding toward zero cuts right if the count and what follows it have one sign
        rcases h.sameSign with hsign | hsign
        · have hhead : 0 ≤ u * c := Int.mul_nonneg hu.le (hsign c List.mem_cons_self)
          have hrest : 0 ≤ value us cs :=
            value_nonneg hus' fun d hd => hsign d (List.mem_cons_of_mem _ hd)
          exact (Int.tdiv_tmod_unique (by omega) hu.ne').mpr ⟨by omega, hrest, by omega⟩
        · have hhead : 0 ≤ u * -c :=
            Int.mul_nonneg hu.le (Int.neg_nonneg_of_nonpos (hsign c List.mem_cons_self))
          have hrest : value us cs ≤ 0 :=
            value_nonpos hus' fun d hd => hsign d (List.mem_cons_of_mem _ hd)
          rw [Int.mul_neg] at hhead
          exact (Int.tdiv_tmod_unique' (by omega) hu.ne').mpr ⟨by omega, by omega, hrest⟩
      rw [value, digits, hcut.1, hcut.2, ih hus' h.tail]

theorem digits_lt {k v : Int} (hk : 0 < k) (hus : ∀ u ∈ us, 0 < u)
    (hchain : (v :: (us ++ [1])).IsChain fun v u => v ≤ k * u) (hlow : -v < n) (hhigh : n < v) :
    ∀ c ∈ digits us n, -k < c ∧ c < k := by
  induction us generalizing v n with
  | nil =>
    intro c hc
    have hv : v ≤ k * 1 := (List.isChain_cons_cons.mp hchain).1
    rw [List.mem_singleton.mp hc]
    omega
  | cons u us ih =>
    intro c hc
    have hu : 0 < u := hus u List.mem_cons_self
    obtain ⟨hv, hchain⟩ := List.isChain_cons_cons.mp hchain
    rcases List.mem_cons.mp hc with rfl | hc
    · refine ⟨lt_tdiv_of_mul_lt hu hk ?_, tdiv_lt_of_lt_mul hu hk (by omega)⟩
      rw [Int.neg_mul]
      omega
    · exact ih (fun w hw => hus w (List.mem_cons_of_mem _ hw)) hchain
        (Int.lt_tmod_of_pos n hu) (Int.tmod_lt_of_pos n hu) c hc

/-! ### Comparison at the first difference -/

def lead : List Int → List Int → Int
  | [], _ => 0
  | _ :: _, [] => 0
  | c :: cs, d :: ds => if c - d ≠ 0 then c - d else lead cs ds

theorem lead_swap (cs ds : List Int) : lead ds cs = -lead cs ds := by
  induction cs generalizing ds with
  | nil => cases ds <;> rfl
  | cons c cs ih =>
    cases ds with
    | nil => rfl
    | cons d ds =>
      by_cases h : c - d ≠ 0
      · rw [lead, lead, if_pos h, if_pos (by omega)]
        omega
      · rw [lead, lead, if_neg h, if_neg (by omega), ih]

theorem lead_eq_zero_iff (h : cs.length = ds.length) : lead cs ds = 0 ↔ cs = ds := by
  induction cs generalizing ds with
  | nil =>
    obtain rfl := List.eq_nil_of_length_eq_zero h.symm
    exact iff_of_true rfl rfl
  | cons c cs ih =>
    obtain ⟨d, ds, rfl⟩ := List.exists_cons_of_length_eq_add_one h.symm
    have hlen : cs.length = ds.length := Nat.succ.inj h
    by_cases hne : c - d ≠ 0
    · rw [lead, if_pos hne]
      refine iff_of_false hne fun heq => hne ?_
      rw [(List.cons.inj heq).1, Int.sub_self]
    · have hcd : c = d := by omega
      rw [lead, if_neg hne, ih hlen, hcd, List.cons.injEq, and_iff_right rfl]

/-- **Three numerals**: the differences of two pairs add up to the third, or one of the two
pairs differs later than the third does, or the third pair differs later than the two, whose
differences then cancel out. -/
theorem lead_trans (cs ds es : List Int) (h : cs.length = ds.length)
    (h' : ds.length = es.length) :
    lead cs es = lead cs ds + lead ds es ∨ lead cs es = lead cs ds ∨ lead cs es = lead ds es ∨
      lead cs ds + lead ds es = 0 ∧ lead cs ds ≠ 0 := by
  induction cs generalizing ds es with
  | nil =>
    obtain rfl := List.eq_nil_of_length_eq_zero h.symm
    exact Or.inr (Or.inl rfl)
  | cons c cs ih =>
    obtain ⟨d, ds, rfl⟩ := List.exists_cons_of_length_eq_add_one h.symm
    obtain ⟨e, es, rfl⟩ := List.exists_cons_of_length_eq_add_one h'.symm
    simp only [lead]
    by_cases hcd : c - d ≠ 0
    · by_cases hde : d - e ≠ 0
      · rw [if_pos hcd, if_pos hde]
        by_cases hce : c - e ≠ 0
        · rw [if_pos hce]
          exact Or.inl (by omega)
        · exact Or.inr (Or.inr (Or.inr ⟨by omega, hcd⟩))
      · rw [if_pos hcd, if_pos (by omega : c - e ≠ 0)]
        exact Or.inr (Or.inl (by omega))
    · by_cases hde : d - e ≠ 0
      · rw [if_pos hde, if_pos (by omega : c - e ≠ 0)]
        exact Or.inr (Or.inr (Or.inl (by omega)))
      · rw [if_neg hcd, if_neg hde, if_neg (by omega : ¬(c - e ≠ 0))]
        exact ih ds es (Nat.succ.inj h) (Nat.succ.inj h')

theorem lead_lt {low high : Int} (hlow : low < high) (hcs : ∀ c ∈ cs, low ≤ c ∧ c < high)
    (hds : ∀ d ∈ ds, low ≤ d ∧ d < high) :
    -(high - low) < lead cs ds ∧ lead cs ds < high - low := by
  induction cs generalizing ds with
  | nil => exact ⟨by rw [lead]; omega, by rw [lead]; omega⟩
  | cons c cs ih =>
    cases ds with
    | nil => exact ⟨by rw [lead]; omega, by rw [lead]; omega⟩
    | cons d ds =>
      have hc := hcs c List.mem_cons_self
      have hd := hds d List.mem_cons_self
      by_cases h : c - d ≠ 0
      · rw [lead, if_pos h]
        omega
      · rw [lead, if_neg h]
        exact ih (fun x hx => hcs x (List.mem_cons_of_mem _ hx))
          fun x hx => hds x (List.mem_cons_of_mem _ hx)

theorem value_lt_of_head_lt (hus : ∀ v ∈ u :: us, 0 < v) (hcs : Canonical (u :: us) (c :: cs))
    (hds : Canonical (u :: us) (d :: ds)) (h : c < d) :
    value (u :: us) (c :: cs) < value (u :: us) (d :: ds) := by
  have hus' : ∀ v ∈ us, 0 < v := fun v hv => hus v (List.mem_cons_of_mem _ hv)
  have hstep : u * c + u ≤ u * d := by
    have hle : u * (c + 1) ≤ u * d :=
      Int.mul_le_mul_of_nonneg_left (by omega) (hus u List.mem_cons_self).le
    rwa [Int.mul_add, Int.mul_one] at hle
  obtain ⟨-, hc, -⟩ := hcs.bounded
  obtain ⟨hd, -, -⟩ := hds.bounded
  rw [value, value]
  rcases hcs.sameSign with hsign | hsign
  · rcases hds.sameSign with hsign' | hsign'
    · have hrest : 0 ≤ value us ds :=
        value_nonneg hus' fun x hx => hsign' x (List.mem_cons_of_mem _ hx)
      omega
    · have hc0 : 0 ≤ c := hsign c List.mem_cons_self
      have hd0 : d ≤ 0 := hsign' d List.mem_cons_self
      omega
  · have hrest : value us cs ≤ 0 :=
      value_nonpos hus' fun x hx => hsign x (List.mem_cons_of_mem _ hx)
    omega

/-- **The order of numerals is the order of numbers** on canonical numerals, whatever their
signs. -/
theorem lead_pos_iff (hus : ∀ u ∈ us, 0 < u) (hcs : Canonical us cs) (hds : Canonical us ds) :
    0 < lead cs ds ↔ value us ds < value us cs := by
  induction us generalizing cs ds with
  | nil =>
    obtain ⟨c, rfl⟩ := hcs.bounded
    obtain ⟨d, rfl⟩ := hds.bounded
    simp only [lead, value]
    split_ifs with h <;> omega
  | cons u us ih =>
    cases cs with
    | nil => exact hcs.bounded.elim
    | cons c cs =>
      cases ds with
      | nil => exact hds.bounded.elim
      | cons d ds =>
        have hus' : ∀ v ∈ us, 0 < v := fun v hv => hus v (List.mem_cons_of_mem _ hv)
        by_cases hne : c - d ≠ 0
        · rw [lead, if_pos hne]
          rcases Int.lt_or_gt_of_ne (by omega : c ≠ d) with hlt | hlt
          · have := value_lt_of_head_lt hus hcs hds hlt
            omega
          · have := value_lt_of_head_lt hus hds hcs hlt
            omega
        · have hcd : c = d := by omega
          rw [lead, if_neg hne, ih hus' hcs.tail hds.tail, value, value, hcd,
            Int.add_lt_add_iff_left]

end MixedRadix
