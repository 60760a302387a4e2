import Mathlib.Algebra.Ring.Int.Defs
import Mathlib.Data.List.Basic

/-!
# Decimal numerals

The texts that the Java library writes for whole numbers and for big decimals, and the
readers of these texts. A big decimal is an unscaled whole number with a scale, so `1.0` and
`1.00` are two of them; `BigDecimal.toString` writes plain or scientific notation depending on
the scale and the number of digits, and `BigDecimal.parse` counts the digits after the point
and the exponent back into the scale.

Both readers undo their writers (`readInt_showInt`, `BigDecimal.parse_toString`), so both writers
are injective.
-/

namespace Decimal

/-! ### Whole numbers -/

def applySign (neg : Bool) (n : Nat) : Int := if neg then -(n : Int) else n

def signText (neg : Bool) : List Char := if neg then ['-'] else []

def readSign : List Char → Bool × List Char
  | '-' :: s => (true, s)
  | '+' :: s => (false, s)
  | s => (false, s)

def isDigits (s : List Char) : Bool := s.all Char.isDigit && !s.isEmpty

def showInt (n : Int) : List Char := signText (n < 0) ++ Nat.toDigits 10 n.natAbs

def readInt (s : List Char) : Option Int :=
  if isDigits (readSign s).2 then
    some (applySign (readSign s).1 (Nat.ofDigitChars 10 (readSign s).2 0))
  else none

def IsLong (n : Int) : Prop := -2 ^ 63 ≤ n ∧ n < 2 ^ 63

instance (n : Int) : Decidable (IsLong n) := inferInstanceAs (Decidable (_ ∧ _))

def readLong (s : List Char) : Option Int := (readInt s).filter fun n => IsLong n

/-- `Integer.parseInt`: the 32-bit integer that a text denotes. -/
def parseInt (s : List Char) : Option Int32 :=
  (readInt s).bind fun n =>
    if -2 ^ 31 ≤ n ∧ n < 2 ^ 31 then some (Int32.ofInt n) else none

theorem isDigit_toDigits {n : Nat} : ∀ c ∈ Nat.toDigits 10 n, c.isDigit = true :=
  fun _ hc => Nat.isDigit_of_mem_toDigits (by decide) (by decide) hc

theorem isDigits_iff {s : List Char} :
    isDigits s = true ↔ (∀ c ∈ s, c.isDigit = true) ∧ s ≠ [] := by
  simp [isDigits]

theorem readSign_signText {neg : Bool} {s : List Char}
    (hs : ∀ c ∈ s.head?, c.isDigit = true) : readSign (signText neg ++ s) = (neg, s) := by
  cases neg with
  | true => rfl
  | false =>
    simp only [signText, Bool.false_eq_true, if_false, List.nil_append]
    unfold readSign
    split
    · exact absurd (hs '-' rfl) (by decide)
    · exact absurd (hs '+' rfl) (by decide)
    · rfl

theorem applySign_natAbs (n : Int) : applySign (n < 0) n.natAbs = n := by
  unfold applySign
  split_ifs with h <;> simp at h <;> omega

theorem head_of_isDigits {s : List Char} (hs : isDigits s = true) :
    ∀ c ∈ s.head?, c.isDigit = true :=
  fun c hc => (isDigits_iff.mp hs).1 c (List.mem_of_mem_head? hc)

theorem readInt_signText {neg : Bool} {s : List Char} (hs : isDigits s = true) :
    readInt (signText neg ++ s) = some (applySign neg (Nat.ofDigitChars 10 s 0)) := by
  rw [readInt, readSign_signText (head_of_isDigits hs), if_pos hs]

theorem isDigits_toDigits {n : Nat} : isDigits (Nat.toDigits 10 n) = true :=
  isDigits_iff.mpr ⟨isDigit_toDigits, Nat.toDigits_ne_nil⟩

/-- **Reading undoes writing** for whole numbers. -/
@[simp]
theorem readInt_showInt (n : Int) : readInt (showInt n) = some n := by
  rw [showInt, readInt_signText isDigits_toDigits, Nat.ofDigitChars_ten_toDigits,
    applySign_natAbs]

theorem showInt_injective : Function.Injective showInt := by
  intro m n h
  have hread : readInt (showInt m) = readInt (showInt n) := by rw [h]
  simpa using hread

theorem readLong_showInt {n : Int} (hn : IsLong n) : readLong (showInt n) = some n := by
  simp [readLong, Option.filter, hn]

theorem parseInt_showInt (n : Int32) : parseInt (showInt n.toInt) = some n := by
  rw [parseInt, readInt_showInt, Option.bind_some, if_pos ⟨n.le_toInt, n.toInt_lt⟩,
    Int32.ofInt_toInt]

theorem isLong_of_readLong {s : List Char} {n : Int} (h : readLong s = some n) : IsLong n := by
  simpa using (Option.filter_eq_some_iff.mp h).2

theorem mem_showInt {n : Int} {c : Char} (h : c ∈ showInt n) : c.isDigit = true ∨ c = '-' := by
  rcases List.mem_append.mp h with h | h
  · unfold signText at h
    split_ifs at h
    · exact Or.inr (List.mem_singleton.mp h)
    · exact absurd h List.not_mem_nil
  · exact Or.inl (isDigit_toDigits c h)

theorem showInt_ne_nil {n : Int} : showInt n ≠ [] := by
  simp [showInt, Nat.toDigits_ne_nil]

/-! ### Big decimals -/

/-- A big decimal: the unscaled value, and the number of its digits after the point. -/
structure BigDecimal where
  unscaled : Int
  scale : Int
  deriving DecidableEq, Repr

namespace BigDecimal

def coeff (b : BigDecimal) : List Char := Nat.toDigits 10 b.unscaled.natAbs

def adjusted (b : BigDecimal) : Int := -b.scale + (b.coeff.length - 1)

def exponentText (e : Int) : List Char :=
  if e = 0 then [] else 'E' :: (if 0 < e then '+' :: showInt e else showInt e)

def pointText (frac : List Char) : List Char := if frac = [] then [] else '.' :: frac

def pad (b : BigDecimal) : Int := b.scale - b.coeff.length

/-- The canonical text: whole digits only for scale zero, plain notation for a scale that is
not negative and an exponent from `-6` on, and scientific notation otherwise. -/
def toString (b : BigDecimal) : List Char :=
  if b.scale = 0 then signText (b.unscaled < 0) ++ b.coeff
  else if 0 < b.scale ∧ -6 ≤ b.adjusted then
    if 0 ≤ b.pad then
      signText (b.unscaled < 0) ++ ['0'] ++
        pointText (List.replicate b.pad.toNat '0' ++ b.coeff)
    else
      signText (b.unscaled < 0) ++ b.coeff.take (-b.pad).toNat ++
        pointText (b.coeff.drop (-b.pad).toNat)
  else
    signText (b.unscaled < 0) ++ b.coeff.take 1 ++ pointText (b.coeff.drop 1) ++
      exponentText b.adjusted

def isExponentMark (c : Char) : Bool := c == 'E' || c == 'e'

def readExponent : List Char → Option Int
  | [] => some 0
  | _ :: e => readInt e

/-- The constructor from a text: digits with at most one point among them, and an optional
exponent. `none` is the number-format exception. -/
def parse (s : List Char) : Option BigDecimal :=
  let t := (readSign s).2
  let mantissa := t.takeWhile (fun c => !isExponentMark c)
  let whole := mantissa.takeWhile (fun c => c != '.')
  let frac := (mantissa.dropWhile (fun c => c != '.')).drop 1
  if isDigits (whole ++ frac) then
    (readExponent (t.dropWhile (fun c => !isExponentMark c))).map fun e =>
      ⟨applySign (readSign s).1 (Nat.ofDigitChars 10 (whole ++ frac) 0), frac.length - e⟩
  else none

private theorem takeWhile_append_stop (p : Char → Bool) {s t : List Char} (hs : ∀ c ∈ s, p c = true)
    (ht : ∀ c ∈ t.head?, p c = false) :
    (s ++ t).takeWhile p = s ∧ (s ++ t).dropWhile p = t := by
  induction s with
  | nil =>
    cases t with
    | nil => simp
    | cons c t => simp [ht c rfl]
  | cons c s ih =>
    have hc : p c = true := hs c List.mem_cons_self
    have hrest := ih fun d hd => hs d (List.mem_cons_of_mem _ hd)
    simp [hc, hrest]

private theorem digit_ne {c d : Char} (hc : c.isDigit = true) (hd : d.isDigit = false) :
    c ≠ d := by
  rintro rfl
  rw [hc] at hd
  cases hd

private theorem not_mark_of_isDigit {c : Char} (hc : c.isDigit = true) :
    isExponentMark c = false := by
  have hE : c ≠ 'E' := digit_ne hc (by decide)
  have he : c ≠ 'e' := digit_ne hc (by decide)
  simp [isExponentMark, hE, he]

/-- **One layout for every text that the writer makes**: whole digits, fraction digits and an
exponent, each read back on its own. -/
theorem parse_layout (neg : Bool) (whole frac x : List Char) {e : Int}
    (hwhole : isDigits whole = true) (hfrac : ∀ c ∈ frac, c.isDigit = true)
    (hx : readExponent x = some e) (hmark : ∀ c ∈ x.head?, isExponentMark c = true) :
    parse (signText neg ++ whole ++ pointText frac ++ x) =
      some ⟨applySign neg (Nat.ofDigitChars 10 (whole ++ frac) 0), frac.length - e⟩ := by
  obtain ⟨hdigits, hne⟩ := isDigits_iff.mp hwhole
  have hpoint : ∀ c ∈ pointText frac, (!isExponentMark c) = true := by
    intro c hc
    unfold pointText at hc
    split_ifs at hc
    · exact absurd hc List.not_mem_nil
    · rcases List.mem_cons.mp hc with rfl | hc
      · decide
      · simp [not_mark_of_isDigit (hfrac c hc)]
  have hsign : readSign (signText neg ++ whole ++ pointText frac ++ x)
      = (neg, whole ++ pointText frac ++ x) := by
    obtain ⟨c, t, rfl⟩ := List.exists_cons_of_ne_nil hne
    have hc : c.isDigit = true := hdigits c List.mem_cons_self
    rw [List.append_assoc, List.append_assoc, readSign_signText (by simp [hc]),
      List.append_assoc]
  have hcut := takeWhile_append_stop (fun c => !isExponentMark c)
    (s := whole ++ pointText frac) (t := x)
    (fun c hc => by
      rcases List.mem_append.mp hc with hc | hc
      · simp [not_mark_of_isDigit (hdigits c hc)]
      · exact hpoint c hc)
    (fun c hc => by simp [hmark c hc])
  have hpt := takeWhile_append_stop (fun c => c != '.') (s := whole) (t := pointText frac)
    (fun c hc => by simpa using digit_ne (hdigits c hc) (by decide))
    (fun c hc => by
      unfold pointText at hc
      split_ifs at hc
      · cases hc
      · cases hc
        decide)
  have hdrop : (pointText frac).drop 1 = frac := by
    unfold pointText
    split_ifs with h
    · simp [h]
    · rfl
  have hall : isDigits (whole ++ frac) = true := by
    refine isDigits_iff.mpr ⟨fun c hc => ?_, by simp [hne]⟩
    rcases List.mem_append.mp hc with hc | hc
    · exact hdigits c hc
    · exact hfrac c hc
  simp only [parse, hsign, hcut.1, hcut.2, hpt.1, hpt.2, hdrop, hall, if_true, hx,
    Option.map_some]

private theorem readExponent_exponentText (e : Int) :
    readExponent (exponentText e) = some e ∧
      ∀ c ∈ (exponentText e).head?, isExponentMark c = true := by
  unfold exponentText
  split_ifs with hzero hpos
  · simp [readExponent, hzero]
  · refine ⟨?_, by simp [isExponentMark]⟩
    have hneg : decide (e < 0) = false := by simp; omega
    have hread := readInt_showInt e
    rw [showInt, hneg] at hread
    have hdigits : isDigits (Nat.toDigits 10 e.natAbs) = true := isDigits_toDigits
    simp only [readExponent, readInt, showInt, hneg, signText, Bool.false_eq_true, if_false,
      List.nil_append, readSign, hdigits, if_true, Nat.ofDigitChars_ten_toDigits]
    rw [← hneg, applySign_natAbs]
  · exact ⟨by simp [readExponent], by simp [isExponentMark]⟩

private theorem ofDigitChars_zero_prefix {n : Nat} {s : List Char} :
    Nat.ofDigitChars 10 (['0'] ++ (List.replicate n '0' ++ s)) 0 = Nat.ofDigitChars 10 s 0 := by
  rw [Nat.ofDigitChars_append, Nat.ofDigitChars_append, Nat.ofDigitChars_replicate_zero]
  simp [Nat.ofDigitChars_cons]

/-- **Reading undoes writing** for big decimals. -/
@[simp]
theorem parse_toString (b : BigDecimal) : parse b.toString = some b := by
  obtain ⟨unscaled, scale⟩ := b
  set b : BigDecimal := ⟨unscaled, scale⟩ with hb
  have hcoeff : ∀ c ∈ b.coeff, c.isDigit = true := isDigit_toDigits
  have hvalue : Nat.ofDigitChars 10 b.coeff 0 = unscaled.natAbs := Nat.ofDigitChars_ten_toDigits
  have hlen : 0 < b.coeff.length := Nat.length_toDigits_pos
  have hsplit : ∀ n, b.coeff.take n ++ b.coeff.drop n = b.coeff := fun n =>
    List.take_append_drop n _
  have htake : ∀ n, 0 < n → isDigits (b.coeff.take n) = true := by
    intro n hn
    refine isDigits_iff.mpr ⟨fun c hc => hcoeff c (List.mem_of_mem_take hc), ?_⟩
    rw [ne_eq, List.take_eq_nil_iff]
    rintro (h | h)
    · omega
    · rw [h] at hlen
      exact absurd hlen (Nat.lt_irrefl 0)
  have hdrop : ∀ n, ∀ c ∈ b.coeff.drop n, c.isDigit = true := fun n c hc =>
    hcoeff c (List.mem_of_mem_drop hc)
  unfold toString
  split_ifs with hzero hplain hpad
  · have h := parse_layout (b.unscaled < 0) b.coeff [] [] isDigits_toDigits
      (by simp) rfl (by simp)
    simp only [pointText, if_true, List.append_nil, hvalue] at h
    rw [h, applySign_natAbs]
    simp only [hb, List.length_nil, Option.some.injEq, BigDecimal.mk.injEq, true_and] at hzero ⊢
    omega
  · have h := parse_layout (b.unscaled < 0) ['0'] (List.replicate b.pad.toNat '0' ++ b.coeff) []
      (by decide) (by
        intro c hc
        rcases List.mem_append.mp hc with hc | hc
        · rw [List.eq_of_mem_replicate hc]
          decide
        · exact hcoeff c hc) rfl (by simp)
    rw [List.append_nil] at h
    rw [h, ofDigitChars_zero_prefix, hvalue, applySign_natAbs]
    simp only [hb, Option.some.injEq, BigDecimal.mk.injEq, true_and, List.length_append,
      List.length_replicate, pad] at hpad ⊢
    omega
  · have hn : 0 < (-b.pad).toNat := by omega
    have h := parse_layout (b.unscaled < 0) _ _ [] (htake _ hn) (hdrop (-b.pad).toNat) rfl
      (by simp)
    rw [List.append_nil] at h
    rw [h, hsplit, hvalue, applySign_natAbs]
    simp only [hb, Option.some.injEq, BigDecimal.mk.injEq, true_and, List.length_drop, pad]
      at hpad hplain ⊢
    omega
  · obtain ⟨hread, hmark⟩ := readExponent_exponentText b.adjusted
    have h := parse_layout (b.unscaled < 0) _ _ _ (htake 1 Nat.one_pos) (hdrop 1) hread hmark
    rw [h, hsplit, hvalue, applySign_natAbs]
    simp only [hb, adjusted, Option.some.injEq, BigDecimal.mk.injEq, true_and, List.length_drop]
    simp only [hb] at hlen
    omega

theorem toString_injective : Function.Injective toString := by
  intro a b h
  have hread : parse a.toString = parse b.toString := by rw [h]
  simpa using hread

theorem mem_toString {b : BigDecimal} {c : Char} (h : c ∈ b.toString) :
    c.isDigit = true ∨ c ∈ ['-', '.', 'E', '+'] := by
  have hsign : ∀ c ∈ signText (b.unscaled < 0), c ∈ ['-', '.', 'E', '+'] := by
    intro c hc
    unfold signText at hc
    split_ifs at hc <;> simp_all
  have hcoeff : ∀ c ∈ b.coeff, c.isDigit = true := isDigit_toDigits
  have hpoint : ∀ s : List Char, (∀ c ∈ s, c.isDigit = true) → ∀ c ∈ pointText s,
      c.isDigit = true ∨ c ∈ ['-', '.', 'E', '+'] := by
    intro s hs c hc
    unfold pointText at hc
    split_ifs at hc
    · exact absurd hc List.not_mem_nil
    · rcases List.mem_cons.mp hc with rfl | hc
      · simp
      · exact Or.inl (hs c hc)
  have hexp : ∀ c ∈ exponentText b.adjusted, c.isDigit = true ∨ c ∈ ['-', '.', 'E', '+'] := by
    intro c hc
    unfold exponentText at hc
    split_ifs at hc
    · exact absurd hc List.not_mem_nil
    · rcases List.mem_cons.mp hc with rfl | hc
      · simp
      · rcases List.mem_cons.mp hc with rfl | hc
        · simp
        · exact (mem_showInt hc).imp_right fun h => by simp [h]
    · rcases List.mem_cons.mp hc with rfl | hc
      · simp
      · exact (mem_showInt hc).imp_right fun h => by simp [h]
  unfold toString at h
  split_ifs at h
  · rcases List.mem_append.mp h with h | h
    · exact Or.inr (hsign c h)
    · exact Or.inl (hcoeff c h)
  · rcases List.mem_append.mp h with h | h
    · rcases List.mem_append.mp h with h | h
      · exact Or.inr (hsign c h)
      · rw [List.mem_singleton.mp h]
        exact Or.inl (by decide)
    · refine hpoint _ (fun d hd => ?_) c h
      rcases List.mem_append.mp hd with hd | hd
      · rw [List.eq_of_mem_replicate hd]
        decide
      · exact hcoeff d hd
  · rcases List.mem_append.mp h with h | h
    · rcases List.mem_append.mp h with h | h
      · exact Or.inr (hsign c h)
      · exact Or.inl (hcoeff c (List.mem_of_mem_take h))
    · exact hpoint _ (fun d hd => hcoeff d (List.mem_of_mem_drop hd)) c h
  · rcases List.mem_append.mp h with h | h
    · rcases List.mem_append.mp h with h | h
      · rcases List.mem_append.mp h with h | h
        · exact Or.inr (hsign c h)
        · exact Or.inl (hcoeff c (List.mem_of_mem_take h))
      · exact hpoint _ (fun d hd => hcoeff d (List.mem_of_mem_drop hd)) c h
    · exact hexp c h

theorem toString_ne_nil {b : BigDecimal} : b.toString ≠ [] := by
  intro h
  have hread := parse_toString b
  rw [h] at hread
  exact absurd hread (by simp [parse, readSign, isDigits])

end BigDecimal

end Decimal
