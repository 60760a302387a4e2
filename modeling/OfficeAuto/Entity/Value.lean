import OfficeAuto.Text.Decimal
import Mathlib.Order.Basic
import Mathlib.Data.Int.Order.Basic

/-!
# Field values

The values that a row of the entity engine holds in its fields: strings, whole numbers, big
decimals and timestamps. A timestamp is a number of milliseconds in the 64-bit range with the
nanoseconds below the millisecond kept apart, as the SQL timestamp class keeps them; its
`getTime` drops these. Missing values are `none` of the option type around `Value`.
-/

namespace OfficeAuto

open Decimal

/-- A SQL timestamp: milliseconds, and the nanoseconds below the millisecond. -/
structure Timestamp where
  getTime : Int
  nanosBelow : Nat
  isLong : IsLong getTime
  nanos_lt : nanosBelow < 1000000
  deriving Repr

instance : DecidableEq Timestamp := fun s t =>
  decidable_of_iff (s.getTime = t.getTime ∧ s.nanosBelow = t.nanosBelow)
    ⟨fun h => by cases s; cases t; obtain ⟨rfl, rfl⟩ := h; rfl, fun h => by simp [h]⟩

def Timestamp.ofMillis (t : Int) (h : IsLong t) : Timestamp := ⟨t, 0, h, by decide⟩

/-- A value of a field. -/
inductive Value
  | string (s : List Char)
  | long (n : Int)
  | bigDecimal (b : BigDecimal)
  | timestamp (t : Timestamp)
  deriving DecidableEq, Repr

/-! ### Comparison -/

def utf16 (c : Char) : List ℕ :=
  if c.toNat < 0x10000 then [c.toNat]
  else [0xD800 + (c.toNat - 0x10000) / 0x400, 0xDC00 + (c.toNat - 0x10000) % 0x400]

def compareDecimal (a b : BigDecimal) : Ordering :=
  compare (a.unscaled * 10 ^ (b.scale - a.scale).toNat)
    (b.unscaled * 10 ^ (a.scale - b.scale).toNat)

/-- `compareTo`: strings by their code units; values of different classes are not comparable. -/
def Value.compareTo : Value → Value → Option Ordering
  | .string s, .string t => some (compare (s.flatMap utf16) (t.flatMap utf16))
  | .long m, .long n => some (compare m n)
  | .bigDecimal a, .bigDecimal b => some (compareDecimal a b)
  | .timestamp t, .timestamp u =>
    some ((compare t.getTime u.getTime).then (compare t.nanosBelow u.nanosBelow))
  | _, _ => none

theorem Value.compareTo_self (u : Value) : u.compareTo u = some .eq := by
  cases u with
  | string s => exact congrArg some Std.ReflCmp.compare_self
  | long n => exact congrArg some Std.ReflCmp.compare_self
  | bigDecimal b =>
    have hsame : compareDecimal b b = .eq := by
      unfold compareDecimal
      exact Std.ReflCmp.compare_self
    exact congrArg some hsame
  | timestamp t =>
    have htime : compare t.getTime t.getTime = .eq := Std.ReflCmp.compare_self
    have hnanos : compare t.nanosBelow t.nanosBelow = .eq := Std.ReflCmp.compare_self
    simp only [compareTo, htime, hnanos, Ordering.then]

theorem utf16_append_inj {c d : Char} {s t : List ℕ} (h : utf16 c ++ s = utf16 d ++ t) :
    c = d ∧ s = t := by
  have hc := c.valid
  have hd := d.valid
  have hcn : c.toNat = c.val.toNat := rfl
  have hdn : d.toNat = d.val.toNat := rfl
  have hcd : c.toNat = d.toNat → c = d := fun h => Char.ext (UInt32.toNat_inj.mp h)
  unfold UInt32.isValidChar Nat.isValidChar at hc hd
  unfold utf16 at h
  split_ifs at h with hlow hlow' hlow'
  · obtain ⟨hval, rfl⟩ := List.cons_eq_cons.mp h
    exact ⟨hcd hval, rfl⟩
  · obtain ⟨hval, -⟩ := List.cons_eq_cons.mp h
    omega
  · obtain ⟨hval, -⟩ := List.cons_eq_cons.mp h
    omega
  · obtain ⟨hhigh, h⟩ := List.cons_eq_cons.mp h
    obtain ⟨hlow, rfl⟩ := List.cons_eq_cons.mp h
    exact ⟨hcd (by omega), rfl⟩

theorem flatMap_utf16_inj {s t : List Char} (h : s.flatMap utf16 = t.flatMap utf16) : s = t := by
  induction s generalizing t with
  | nil =>
    cases t with
    | nil => rfl
    | cons d t =>
      rw [List.flatMap_nil, List.flatMap_cons] at h
      unfold utf16 at h
      split_ifs at h <;> cases h
  | cons c s ih =>
    cases t with
    | nil =>
      rw [List.flatMap_nil, List.flatMap_cons] at h
      unfold utf16 at h
      split_ifs at h <;> cases h
    | cons d t =>
      obtain ⟨rfl, hrest⟩ := utf16_append_inj h
      rw [ih hrest]

theorem Value.eq_of_compareTo {u v : Value} (h : ∀ b, u ≠ .bigDecimal b)
    (heq : u.compareTo v = some .eq) : u = v := by
  cases u with
  | bigDecimal b => exact absurd rfl (h b)
  | string s =>
    cases v with
    | string t =>
      have hsame := Std.LawfulEqCmp.eq_of_compare (Option.some.inj heq)
      rw [flatMap_utf16_inj hsame]
    | _ => cases heq
  | long m =>
    cases v with
    | long n => rw [Std.LawfulEqCmp.eq_of_compare (Option.some.inj heq)]
    | _ => cases heq
  | timestamp t =>
    cases v with
    | timestamp w =>
      obtain ⟨htime, hnanos⟩ := Ordering.then_eq_eq.mp (Option.some.inj heq)
      have ht := Std.LawfulEqCmp.eq_of_compare htime
      have hn := Std.LawfulEqCmp.eq_of_compare hnanos
      obtain ⟨_, _, _, _⟩ := t
      obtain ⟨_, _, _, _⟩ := w
      simp only at ht hn
      subst ht hn
      rfl
    | _ => cases heq
end OfficeAuto
