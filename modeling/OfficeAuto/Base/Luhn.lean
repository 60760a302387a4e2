import OfficeAuto.Logic.AlternatingSum
import OfficeAuto.Logic.MachineInt
import OfficeAuto.Text.Decimal

/-!
# Check digits

`UtilValidate.getLuhnSum` weighs the digits of a number by 1 and 2 in turn, from the last one on,
and adds the digits of the products. `sumIsMod10` accepts a number whose sum is a multiple of ten.

The check finds typing errors: **no number that is accepted can be changed into another one that is
accepted by replacing one digit, or by exchanging two neighbours other than 0 and 9**
(`sumIsMod10_detects`). The digit that `appendCheckDigit` appends is none that the check asks for.
It is right only for some numbers (`appendCheckDigit_iff`).

The sum is an `int`. Sums that no `int` has are taken modulo `2 ^ 32`.
-/

namespace OfficeAuto.Base.UtilValidate

open AlternatingSum Decimal MachineInt

/-! ### The code -/

/-- `Character.digit`, of a digit. -/
def digitOf (c : Char) : ℤ := c.toNat - '0'.toNat

def weighed (mul : ℤ) (c : Char) : ℤ :=
  let digit := digitOf c * mul
  if 10 ≤ digit then digit % 10 + 1 else digit

def luhnLoop (sum mul : ℤ) : List Char → ℤ
  | [] => sum
  | c :: cs => luhnLoop (int (sum + weighed mul c)) (if mul = 1 then 2 else 1) cs

def getLuhnSum (stPassed : List Char) : ℤ :=
  luhnLoop 0 1 (stPassed.filter Char.isDigit).reverse

def getLuhnCheckDigit (stPassed : List Char) : ℤ :=
  let sum := getLuhnSum stPassed
  let mod := (int (int (int (sum.tdiv 10 + 1) * 10) - sum)).tmod 10
  10 - mod

def sumIsMod10 (sum : ℤ) : Bool := sum.tmod 10 = 0

def appendCheckDigit (stPassed : List Char) : List Char :=
  stPassed ++ showInt (getLuhnCheckDigit stPassed)

/-! ### The sum -/

def luhnSum (s : List Char) : ℤ := alternatingSum (weighed 1) (weighed 2) s.reverse

def shiftedSum (s : List Char) : ℤ := alternatingSum (weighed 2) (weighed 1) s.reverse

def IsNumber (s : List Char) : Prop := ∀ c ∈ s, c.isDigit = true

instance (s : List Char) : Decidable (IsNumber s) :=
  decidable_of_iff (s.all Char.isDigit = true) List.all_eq_true

theorem luhnLoop_eq {sum : ℤ} (hsum : int sum = sum) (cs : List Char) :
    luhnLoop sum 1 cs = int (sum + alternatingSum (weighed 1) (weighed 2) cs) ∧
      luhnLoop sum 2 cs = int (sum + alternatingSum (weighed 2) (weighed 1) cs) := by
  induction cs generalizing sum with
  | nil =>
    rw [luhnLoop, luhnLoop, alternatingSum, alternatingSum, add_zero, hsum]
    exact ⟨rfl, rfl⟩
  | cons c cs ih =>
    rw [luhnLoop, luhnLoop, alternatingSum, alternatingSum, if_pos rfl, if_neg (by decide),
      (ih (int_int _)).2, (ih (int_int _)).1, int_add_int, int_add_int, add_assoc, add_assoc]
    exact ⟨rfl, rfl⟩

theorem getLuhnSum_eq {s : List Char} (hs : IsNumber s) : getLuhnSum s = int (luhnSum s) := by
  rw [getLuhnSum, List.filter_eq_self.mpr hs, (luhnLoop_eq rfl _).1, zero_add, luhnSum]

theorem digitOf_mem {c : Char} (h : c.isDigit = true) : 0 ≤ digitOf c ∧ digitOf c ≤ 9 := by
  rw [Char.isDigit, Bool.and_eq_true, decide_eq_true_eq, decide_eq_true_eq] at h
  have hlower : '0'.toNat ≤ c.toNat := h.1
  have hupper : c.toNat ≤ '9'.toNat := h.2
  rw [digitOf]
  have hnine : '9'.toNat = '0'.toNat + 9 := rfl
  omega

theorem digitOf_inj {c d : Char} (h : digitOf c = digitOf d) : c = d := by
  rw [digitOf, digitOf] at h
  exact Char.toNat_inj.mp (by omega)

theorem sumIsMod10_iff {sum : ℤ} : sumIsMod10 sum = true ↔ 10 ∣ sum := by
  rw [sumIsMod10, decide_eq_true_eq, Int.dvd_iff_tmod_eq_zero]

/-! ### The weights -/

theorem weighed_one {c : Char} (h : c.isDigit = true) : weighed 1 c = digitOf c := by
  have hdigit := digitOf_mem h
  rw [weighed]
  split_ifs <;> omega

theorem weighed_two {c : Char} (h : c.isDigit = true) :
    weighed 2 c = if 5 ≤ digitOf c then 2 * digitOf c - 9 else 2 * digitOf c := by
  have hdigit := digitOf_mem h
  rw [weighed]
  split_ifs <;> omega

theorem weighed_mem {w : Char → ℤ} (hw : w = weighed 1 ∨ w = weighed 2) {c : Char}
    (h : c.isDigit = true) : 0 ≤ w c ∧ w c ≤ 9 := by
  have hdigit := digitOf_mem h
  obtain rfl | rfl := hw
  · rw [weighed_one h]
    exact hdigit
  · rw [weighed_two h]
    split_ifs <;> omega

theorem weighed_sub_mem {c : Char} (h : c.isDigit = true) :
    -4 ≤ weighed 2 c - weighed 1 c ∧ weighed 2 c - weighed 1 c ≤ 4 := by
  have hdigit := digitOf_mem h
  rw [weighed_one h, weighed_two h]
  split_ifs <;> omega

theorem weighed_inj {w : Char → ℤ} (hw : w = weighed 1 ∨ w = weighed 2) {c d : Char}
    (hc : c.isDigit = true) (hd : d.isDigit = true) (h : w c = w d) : c = d := by
  have hcdigit := digitOf_mem hc
  have hddigit := digitOf_mem hd
  refine digitOf_inj ?_
  obtain rfl | rfl := hw
  · rwa [weighed_one hc, weighed_one hd] at h
  · rw [weighed_two hc, weighed_two hd] at h
    split_ifs at h <;> omega

theorem digitOf_of_dvd {c d : Char} (hc : c.isDigit = true) (hd : d.isDigit = true)
    (h : 10 ∣ (weighed 2 d - weighed 1 d) - (weighed 2 c - weighed 1 c)) (hne : c ≠ d) :
    digitOf c = 0 ∧ digitOf d = 9 ∨ digitOf c = 9 ∧ digitOf d = 0 := by
  have hcdigit := digitOf_mem hc
  have hddigit := digitOf_mem hd
  have hdigits : digitOf c ≠ digitOf d := fun heq => hne (digitOf_inj heq)
  rw [weighed_one hc, weighed_one hd, weighed_two hc, weighed_two hd] at h
  split_ifs at h <;> omega

theorem luhnSum_nonneg {s : List Char} (hs : IsNumber s) : 0 ≤ luhnSum s :=
  alternatingSum_nonneg (fun c hc => (weighed_mem (.inl rfl) (hs c (List.mem_reverse.mp hc))).1)
    fun c hc => (weighed_mem (.inr rfl) (hs c (List.mem_reverse.mp hc))).1

theorem luhnSum_le {s : List Char} (hs : IsNumber s) : luhnSum s ≤ s.length * 9 := by
  have hle := alternatingSum_le (l := s.reverse)
    (fun c hc => (weighed_mem (.inl rfl) (hs c (List.mem_reverse.mp hc))).2)
    fun c hc => (weighed_mem (.inr rfl) (hs c (List.mem_reverse.mp hc))).2
  rwa [List.length_reverse, nsmul_eq_mul] at hle

theorem shiftedSum_mem {s : List Char} (hs : IsNumber s) :
    0 ≤ shiftedSum s ∧ shiftedSum s ≤ s.length * 9 := by
  have hle := alternatingSum_le (l := s.reverse)
    (fun c hc => (weighed_mem (.inr rfl) (hs c (List.mem_reverse.mp hc))).2)
    fun c hc => (weighed_mem (.inl rfl) (hs c (List.mem_reverse.mp hc))).2
  rw [List.length_reverse, nsmul_eq_mul] at hle
  exact ⟨alternatingSum_nonneg
    (fun c hc => (weighed_mem (.inr rfl) (hs c (List.mem_reverse.mp hc))).1)
    fun c hc => (weighed_mem (.inl rfl) (hs c (List.mem_reverse.mp hc))).1, hle⟩

/-! ### Typing errors -/

/-- A multiple of ten that an `int` has, changed by less than ten, is none in `int` arithmetic
either: where the sum leaves the range, it goes on at the least `int`, which is no multiple of
ten. -/
theorem not_dvd_int_add {sum change : ℤ} (hnonneg : 0 ≤ sum) (hlt : sum < 2 ^ 31)
    (h : 10 ∣ int sum) (hchange : ¬10 ∣ change) (hle : change ≤ 9) (hge : -9 ≤ change) :
    ¬10 ∣ int (sum + change) := by
  obtain ⟨k, hk, hkge, hklt⟩ := int_spec sum
  obtain ⟨k', hk', hkge', hklt'⟩ := int_spec (sum + change)
  obtain rfl : k = 0 := by omega
  obtain rfl | rfl : k' = 0 ∨ k' = 1 := by omega
  · omega
  · omega

/-- **The check finds typing errors**: one digit for another, or two neighbours exchanged. -/
theorem sumIsMod10_detects {s : List Char} (hs : IsNumber s) (hsum : luhnSum s < 2 ^ 31)
    (haccepted : sumIsMod10 (getLuhnSum s) = true) :
    (∀ before c after d, s = before ++ c :: after → d.isDigit = true → d ≠ c →
      sumIsMod10 (getLuhnSum (before ++ d :: after)) = false) ∧
    ∀ before c d after, s = before ++ c :: d :: after → c ≠ d → ¬(c = '0' ∧ d = '9') →
      ¬(c = '9' ∧ d = '0') →
      sumIsMod10 (getLuhnSum (before ++ d :: c :: after)) = false := by
  rw [getLuhnSum_eq hs, sumIsMod10_iff] at haccepted
  have hnonneg := luhnSum_nonneg hs
  constructor
  · rintro before c after d rfl hd hne
    have hc : c.isDigit = true := hs c (List.mem_append_right _ List.mem_cons_self)
    have hs' : IsNumber (before ++ d :: after) := by
      intro x hx
      rcases List.mem_append.mp hx with hx | hx
      · exact hs x (List.mem_append_left _ hx)
      · rcases List.mem_cons.mp hx with rfl | hx
        · exact hd
        · exact hs x (List.mem_append_right _ (List.mem_cons_of_mem c hx))
    obtain ⟨w, hw, hchange⟩ := exists_alternatingSum_replace (weighed 1) (weighed 2) after.reverse
      before.reverse c d
    have hluhn : luhnSum (before ++ d :: after) =
        luhnSum (before ++ c :: after) + (w d - w c) := by
      simpa [luhnSum] using hchange
    have hcweight := weighed_mem hw hc
    have hdweight := weighed_mem hw hd
    have hweights : w d ≠ w c := fun heq => hne (weighed_inj hw hd hc heq)
    rw [← Bool.not_eq_true, getLuhnSum_eq hs', sumIsMod10_iff, hluhn]
    exact not_dvd_int_add hnonneg hsum haccepted (by omega) (by omega) (by omega)
  · rintro before c d after rfl hne hzero hnine
    have hc : c.isDigit = true := hs c (List.mem_append_right _ List.mem_cons_self)
    have hd : d.isDigit = true :=
      hs d (List.mem_append_right _ (List.mem_cons_of_mem c List.mem_cons_self))
    have hs' : IsNumber (before ++ d :: c :: after) := fun x hx =>
      hs x ((List.Perm.append_left before (List.Perm.swap c d after)).mem_iff.mp hx)
    obtain ⟨w, w', hw, hchange⟩ := exists_alternatingSum_exchange (weighed 1) (weighed 2)
      after.reverse before.reverse d c
    have hluhn : luhnSum (before ++ d :: c :: after) =
        luhnSum (before ++ c :: d :: after) + ((w c - w' c) - (w d - w' d)) := by
      simpa [luhnSum] using hchange
    have hnot : ¬10 ∣ (weighed 2 d - weighed 1 d) - (weighed 2 c - weighed 1 c) := by
      intro hdvd
      obtain ⟨hcdigit, hddigit⟩ | ⟨hcdigit, hddigit⟩ := digitOf_of_dvd hc hd hdvd hne
      · exact hzero ⟨digitOf_inj hcdigit, digitOf_inj hddigit⟩
      · exact hnine ⟨digitOf_inj hcdigit, digitOf_inj hddigit⟩
    have hbound := weighed_sub_mem hc
    have hbound' := weighed_sub_mem hd
    rw [← Bool.not_eq_true, getLuhnSum_eq hs', sumIsMod10_iff, hluhn]
    obtain ⟨rfl, rfl⟩ | ⟨rfl, rfl⟩ := hw
    · exact not_dvd_int_add hnonneg hsum haccepted (by omega) (by omega) (by omega)
    · exact not_dvd_int_add hnonneg hsum haccepted (by omega) (by omega) (by omega)

theorem sumIsMod10_detects_sample :
    sumIsMod10 (getLuhnSum "18".toList) = true ∧ sumIsMod10 (getLuhnSum "17".toList) = false ∧
      sumIsMod10 (getLuhnSum "81".toList) = false := by
  have haccepted : sumIsMod10 (getLuhnSum "18".toList) = true := by decide +kernel
  have hdetects := sumIsMod10_detects (s := "18".toList) (by decide) (by decide) haccepted
  exact ⟨haccepted, hdetects.1 ['1'] '8' [] '7' rfl (by decide) (by decide),
    hdetects.2 [] '1' '8' [] rfl (by decide) (by decide) (by decide)⟩

/-! ### The appended digit -/

/-- The sum in which each digit has both weights: three times the digit, less 9 from 5 on. -/
def tripleSum (s : List Char) : ℤ :=
  (s.map fun c => 3 * digitOf c - if 5 ≤ digitOf c then 9 else 0).sum

theorem luhnSum_add_shiftedSum {s : List Char} (hs : IsNumber s) :
    luhnSum s + shiftedSum s = tripleSum s := by
  rw [luhnSum, shiftedSum, alternatingSum_add_swap, List.map_reverse, List.sum_reverse, tripleSum]
  refine congrArg List.sum (List.map_congr_left fun c hc => ?_)
  rw [weighed_one (hs c hc), weighed_two (hs c hc)]
  split_ifs <;> omega

theorem getLuhnCheckDigit_eq {s : List Char} (hs : IsNumber s) :
    getLuhnCheckDigit s =
      if 10 ∣ int (luhnSum s) then 10 else int (luhnSum s) % 10 := by
  obtain ⟨-, -, hge, hlt⟩ := int_spec (luhnSum s)
  rw [getLuhnCheckDigit, getLuhnSum_eq hs]
  generalize int (luhnSum s) = sum at hge hlt ⊢
  have hdiv : 10 * sum.tdiv 10 + sum.tmod 10 = sum := Int.mul_tdiv_add_tmod sum 10
  have hrem : -10 < sum.tmod 10 ∧ sum.tmod 10 < 10 :=
    ⟨Int.lt_tmod_of_pos sum (by decide), Int.tmod_lt_of_pos sum (by decide)⟩
  generalize sum.tdiv 10 = quotient at hdiv ⊢
  generalize sum.tmod 10 = remainder at hdiv hrem
  -- the product can leave the range of `int`, and the difference is in it again
  obtain ⟨k, hk, -, -⟩ := int_spec (quotient + 1)
  obtain ⟨k', hk', -, -⟩ := int_spec (int (quotient + 1) * 10)
  obtain ⟨k'', hk'', hge', hlt'⟩ := int_spec (int (int (quotient + 1) * 10) - sum)
  have hmod : int (int (int (quotient + 1) * 10) - sum) = 10 - remainder := by omega
  rw [hmod, Int.tmod_eq_emod_of_nonneg (by omega)]
  split_ifs <;> omega

def IsRight (s : List Char) : Prop :=
  ∃ c, c.isDigit = true ∧ appendCheckDigit s = s ++ [c] ∧
    sumIsMod10 (getLuhnSum (s ++ [c])) = true

/-- The sum does not end with 0, and its last digit added to the sum with the weights the other way
round is a multiple of ten; all in `int` arithmetic. -/
def Fits (s : List Char) : Prop :=
  ¬10 ∣ int (luhnSum s) ∧ 10 ∣ int (int (luhnSum s) % 10 + shiftedSum s)

theorem luhnSum_append {s : List Char} {c : Char} :
    luhnSum (s ++ [c]) = weighed 1 c + shiftedSum s := by
  rw [luhnSum, List.reverse_append, List.reverse_singleton, List.singleton_append, alternatingSum,
    shiftedSum]

theorem exists_showInt {n : ℤ} (hle : 0 ≤ n) (hlt : n < 10) :
    ∃ c, c.isDigit = true ∧ showInt n = [c] ∧ digitOf c = n := by
  have hall : ∀ k : Fin 10, (Nat.digitChar k).isDigit = true ∧
      showInt (k : ℕ) = [Nat.digitChar k] ∧ digitOf (Nat.digitChar k) = (k : ℕ) := by decide
  obtain ⟨k, rfl⟩ := Int.eq_ofNat_of_zero_le hle
  exact ⟨_, hall ⟨k, by omega⟩⟩

/-- **The appended digit is right exactly if the number fits**: where the sums are in the range of
`int`, exactly if the sum is no multiple of ten, and the sum with both weights is. -/
theorem appendCheckDigit_iff {s : List Char} (hs : IsNumber s) :
    (IsRight s ↔ Fits s) ∧
      (9 * (s.length + 1) < 2 ^ 31 → (Fits s ↔ ¬10 ∣ luhnSum s ∧ 10 ∣ tripleSum s)) := by
  constructor
  · rw [IsRight, Fits, appendCheckDigit, getLuhnCheckDigit_eq hs]
    by_cases hten : 10 ∣ int (luhnSum s)
    · refine iff_of_false ?_ fun h => h.1 hten
      rintro ⟨c, -, happend, -⟩
      rw [if_pos hten] at happend
      have hlength := congrArg List.length (List.append_cancel_left happend)
      have htwo : (showInt 10).length ≠ 1 := by decide
      exact htwo hlength
    · obtain ⟨c, hc, hshow, hdigit⟩ := exists_showInt (n := int (luhnSum s) % 10) (by omega)
        (by omega)
      have hsc : IsNumber (s ++ [c]) := by
        intro x hx
        rcases List.mem_append.mp hx with hx | hx
        · exact hs x hx
        · exact List.mem_singleton.mp hx ▸ hc
      rw [if_neg hten, and_iff_right hten, hshow, ← hdigit, ← weighed_one hc, ← luhnSum_append,
        ← getLuhnSum_eq hsc, ← sumIsMod10_iff]
      constructor
      · rintro ⟨c', -, happend, haccepted⟩
        rw [happend]
        exact haccepted
      · exact fun haccepted => ⟨c, hc, rfl, haccepted⟩
  · intro hshort
    have hnonneg := luhnSum_nonneg hs
    have hbounds := luhnSum_le hs
    have hshifted := shiftedSum_mem hs
    have htriple := luhnSum_add_shiftedSum hs
    obtain ⟨k, hk, hge, hlt⟩ := int_spec (luhnSum s)
    obtain rfl : k = 0 := by omega
    obtain ⟨k', hk', hge', hlt'⟩ := int_spec (int (luhnSum s) % 10 + shiftedSum s)
    obtain rfl : k' = 0 := by omega
    rw [Fits]
    omega

theorem appendCheckDigit_iff_sample : IsRight "49".toList := by
  have hiff := appendCheckDigit_iff (s := "49".toList) (by decide)
  exact hiff.1.mpr ((hiff.2 (by decide)).mpr ⟨by decide +kernel, by decide +kernel⟩)

theorem not_isRight_one : ¬IsRight "1".toList := by
  rintro ⟨c, -, happend, haccepted⟩
  rw [← happend] at haccepted
  revert haccepted
  decide

end OfficeAuto.Base.UtilValidate
