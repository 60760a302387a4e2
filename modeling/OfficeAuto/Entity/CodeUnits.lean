import OfficeAuto.Entity.Value

/-!
# Code units

A string of the source is a list of code units, which need not be the units of characters: a
surrogate can stand without the other one of its pair. A writer of bytes makes a question mark of
such a unit. The units of a text are decoded to the text (`decode_units`).
-/

namespace OfficeAuto.Entity.CodeUnits

/-! ### Strings -/

abbrev JavaString := List ℕ

def units (s : List Char) : JavaString := s.flatMap utf16

def isHighSurrogate (u : ℕ) : Bool := decide (0xD800 ≤ u) && decide (u < 0xDC00)

def isLowSurrogate (u : ℕ) : Bool := decide (0xDC00 ≤ u) && decide (u < 0xE000)

/-- A unit that is not one of a pair: surrogates are written as a question mark. -/
def decodeUnit (u : ℕ) : Char :=
  if isHighSurrogate u || isLowSurrogate u then '?' else Char.ofNat u

def decode : JavaString → List Char
  | [] => []
  | [u] => [decodeUnit u]
  | u :: v :: s =>
    if isHighSurrogate u && isLowSurrogate v then
      Char.ofNat (0x10000 + (u - 0xD800) * 0x400 + (v - 0xDC00)) :: decode s
    else decodeUnit u :: decode (v :: s)

/-! ### Units and characters -/

theorem units_cons (c : Char) (s : List Char) : units (c :: s) = utf16 c ++ units s := rfl

theorem utf16_basic {c : Char} (h : c.toNat < 0x10000) : utf16 c = [c.toNat] := if_pos h

theorem decode_cons {u : ℕ} (h : isHighSurrogate u = false) (s : JavaString) :
    decode (u :: s) = decodeUnit u :: decode s := by
  cases s with
  | nil => rfl
  | cons v s => rw [decode, h, Bool.false_and, if_neg (by decide)]

/-- **The units of a text are decoded to it.** -/
theorem decode_units (s : List Char) : decode (units s) = s := by
  induction s with
  | nil => rfl
  | cons c s ih =>
    have hvalid := c.valid
    have hn : c.toNat = c.val.toNat := rfl
    unfold UInt32.isValidChar Nat.isValidChar at hvalid
    rw [units_cons]
    by_cases hbasic : c.toNat < 0x10000
    · have hhigh : isHighSurrogate c.toNat = false := by
        rw [isHighSurrogate, Bool.and_eq_false_iff, decide_eq_false_iff_not,
          decide_eq_false_iff_not]
        omega
      have hlow : isLowSurrogate c.toNat = false := by
        rw [isLowSurrogate, Bool.and_eq_false_iff, decide_eq_false_iff_not, decide_eq_false_iff_not]
        omega
      rw [utf16_basic hbasic, List.singleton_append, decode_cons hhigh, ih, decodeUnit, hhigh, hlow]
      rw [Bool.false_or, if_neg (by decide), Char.ofNat_toNat]
    · rw [utf16, if_neg hbasic]
      have hhigh : isHighSurrogate (0xD800 + (c.toNat - 0x10000) / 0x400) = true := by
        rw [isHighSurrogate, Bool.and_eq_true, decide_eq_true_iff, decide_eq_true_iff]
        omega
      have hlow : isLowSurrogate (0xDC00 + (c.toNat - 0x10000) % 0x400) = true := by
        rw [isLowSurrogate, Bool.and_eq_true, decide_eq_true_iff, decide_eq_true_iff]
        omega
      have hpair : 0x10000 + (0xD800 + (c.toNat - 0x10000) / 0x400 - 0xD800) * 0x400 +
          (0xDC00 + (c.toNat - 0x10000) % 0x400 - 0xDC00) = c.toNat := by omega
      rw [List.cons_append, List.singleton_append, decode, hhigh, hlow, ih, hpair,
        Char.ofNat_toNat]
      rfl

end OfficeAuto.Entity.CodeUnits
