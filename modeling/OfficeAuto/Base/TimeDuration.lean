import OfficeAuto.Logic.MixedRadix
import OfficeAuto.Text.Decimal
import OfficeAuto.Text.Split

/-!
# Time durations

A `TimeDuration` counts years, months, days and so on down to milliseconds, each in an `int`. The
encoded `long` cuts a number of milliseconds into these counts, by units that make twelve months
a year. `TimeDuration.lossless` says that the two encodings lose nothing: every `long` comes back
from its duration, which is canonical and has the sign of the `long`; every canonical duration comes
back from its `long`; and every duration at all comes back from its text.

Durations are compared by the differences of their counts, in `int`. The first difference that is
not zero decides, and it wraps around once if it is no `int` (`compareTo_cases`). So three
durations are ordered unless one of their differences is `2 ^ 31` or they ascend past an `int`
(`ordered_iff_noOverflow`).
-/

namespace OfficeAuto.Base

open Decimal MixedRadix

structure TimeDuration where
  years : Int32
  months : Int32
  days : Int32
  hours : Int32
  minutes : Int32
  seconds : Int32
  milliseconds : Int32
  deriving DecidableEq

namespace TimeDuration

def zeroTimeDuration : TimeDuration := ⟨0, 0, 0, 0, 0, 0, 0⟩

/-! ### The encoded number -/

def fromLong (duration : Int64) : TimeDuration :=
  if duration = 0 then zeroTimeDuration else
  let years := (duration / 0x757B12C00).toInt32
  let duration := duration - 0x757B12C00 * years.toInt64
  let months := (duration / 0x9CA41900).toInt32
  let duration := duration - 0x9CA41900 * months.toInt64
  let days := (duration / 86400000).toInt32
  let duration := duration - 86400000 * days.toInt64
  let hours := (duration / 3600000).toInt32
  let duration := duration - 3600000 * hours.toInt64
  let minutes := (duration / 60000).toInt32
  let duration := duration - 60000 * minutes.toInt64
  let seconds := (duration / 1000).toInt32
  let duration := duration - 1000 * seconds.toInt64
  ⟨years, months, days, hours, minutes, seconds, duration.toInt32⟩

def toLong (duration : TimeDuration) : Int64 :=
  0x757B12C00 * duration.years.toInt64 + 0x9CA41900 * duration.months.toInt64 +
    86400000 * duration.days.toInt64 + 3600000 * duration.hours.toInt64 +
    60000 * duration.minutes.toInt64 + 1000 * duration.seconds.toInt64 +
    duration.milliseconds.toInt64

def units : List Int := [31536000000, 2628000000, 86400000, 3600000, 60000, 1000]

def components (d : TimeDuration) : List Int :=
  [d.years.toInt, d.months.toInt, d.days.toInt, d.hours.toInt, d.minutes.toInt,
    d.seconds.toInt, d.milliseconds.toInt]

/-- A canonical numeral for a 64-bit number of milliseconds. -/
structure Canonical (d : TimeDuration) : Prop where
  numeral : MixedRadix.Canonical units d.components
  isLong : IsLong (value units d.components)

theorem length_components (d e : TimeDuration) : d.components.length = e.components.length := by
  simp only [components, List.length_cons]

theorem units_pos : ∀ u ∈ units, 0 < u := by decide

theorem components_injective {d e : TimeDuration} (h : d.components = e.components) : d = e := by
  obtain ⟨⟩ := d
  obtain ⟨⟩ := e
  simpa [components, Int32.toInt_inj] using h

theorem bmod_int {n : Int} (hlow : -2147483648 ≤ n) (hhigh : n < 2147483648) :
    n.bmod (2 ^ 32) = n :=
  Int.bmod_eq_of_le (by omega) (by omega)

theorem bmod_long {n : Int} (hlow : -9223372036854775808 ≤ n) (hhigh : n < 9223372036854775808) :
    n.bmod (2 ^ 64) = n :=
  Int.bmod_eq_of_le (by omega) (by omega)

/-- **One unit**: the casts lose nothing where the count fits an `int`. -/
theorem cut_unit (n unit : Int64) {u : Int} (hu : unit.toInt = u) (hpos : 0 < u)
    (hlow : -2147483648 * u < n.toInt) (hhigh : n.toInt < 2147483648 * u) :
    (n / unit).toInt32.toInt = n.toInt.tdiv u ∧
      (n - unit * (n / unit).toInt32.toInt64).toInt = n.toInt.tmod u := by
  have hcount : n.toInt.tdiv u < 2147483648 := tdiv_lt_of_lt_mul hpos (by decide) hhigh
  have hcount' : -2147483648 < n.toInt.tdiv u := lt_tdiv_of_mul_lt hpos (by decide) hlow
  have hdiv : (n / unit).toInt32.toInt = n.toInt.tdiv u := by
    rw [Int64.toInt_toInt32, Int64.toInt_div, hu, bmod_long (by omega) (by omega),
      bmod_int (by omega) (by omega)]
  have hcut : u * n.toInt.tdiv u + n.toInt.tmod u = n.toInt := Int.mul_tdiv_add_tmod _ _
  have hrest : n.toInt - u * n.toInt.tdiv u = n.toInt.tmod u := by omega
  have hunit := unit.toInt_lt
  have hlow' := Int.lt_tmod_of_pos n.toInt hpos
  have hhigh' := Int.tmod_lt_of_pos n.toInt hpos
  refine ⟨hdiv, ?_⟩
  rw [Int64.toInt_sub, Int64.toInt_mul, Int32.toInt_toInt64, hdiv, hu, Int.sub_bmod_bmod, hrest,
    bmod_long (by omega) (by omega)]

theorem cut_rest {n : Int64} {m v : Int} (hn : n.toInt = m.tmod v) (unit : Int64) {u : Int}
    (hu : unit.toInt = u) (hpos : 0 < u) (hv : 0 < v) (huv : v ≤ 2147483648 * u) :
    (n / unit).toInt32.toInt = (m.tmod v).tdiv u ∧
      (n - unit * (n / unit).toInt32.toInt64).toInt = (m.tmod v).tmod u := by
  have hlow := Int.lt_tmod_of_pos m hv
  have hhigh := Int.tmod_lt_of_pos m hv
  rw [← hn]
  exact cut_unit n unit hu hpos (by omega) (by omega)

theorem cut_last {n : Int64} {m : Int} (hn : n.toInt = m.tmod 1000) :
    n.toInt32.toInt = m.tmod 1000 := by
  have hlow := Int.lt_tmod_of_pos m (by decide : (0 : Int) < 1000)
  have hhigh := Int.tmod_lt_of_pos m (by decide : (0 : Int) < 1000)
  rw [Int64.toInt_toInt32, hn, bmod_int (by omega) (by omega)]

theorem components_fromLong (x : Int64) : (fromLong x).components = digits units x.toInt := by
  unfold fromLong
  split_ifs with hzero
  · rw [hzero]
    rfl
  · have hlow := x.le_toInt
    have hhigh := x.toInt_lt
    obtain ⟨hyears, hrest⟩ := cut_unit x 0x757B12C00 (u := 31536000000) rfl (by decide)
      (by omega) (by omega)
    obtain ⟨hmonths, hrest⟩ := cut_rest hrest 0x9CA41900 (u := 2628000000) rfl (by decide)
      (by decide) (by decide)
    obtain ⟨hdays, hrest⟩ := cut_rest hrest 86400000 (u := 86400000) rfl (by decide)
      (by decide) (by decide)
    obtain ⟨hhours, hrest⟩ := cut_rest hrest 3600000 (u := 3600000) rfl (by decide)
      (by decide) (by decide)
    obtain ⟨hminutes, hrest⟩ := cut_rest hrest 60000 (u := 60000) rfl (by decide)
      (by decide) (by decide)
    obtain ⟨hseconds, hrest⟩ := cut_rest hrest 1000 (u := 1000) rfl (by decide)
      (by decide) (by decide)
    simp only [components, hyears, hmonths, hdays, hhours, hminutes, hseconds, cut_last hrest]
    rfl

theorem toInt_toLong (d : TimeDuration) :
    (toLong d).toInt = (value units d.components).bmod (2 ^ 64) := by
  have hyear : (31536000000 : Int64).toInt = 31536000000 := rfl
  have hmonth : (2628000000 : Int64).toInt = 2628000000 := rfl
  have hday : (86400000 : Int64).toInt = 86400000 := rfl
  have hhour : (3600000 : Int64).toInt = 3600000 := rfl
  have hminute : (60000 : Int64).toInt = 60000 := rfl
  have hsecond : (1000 : Int64).toInt = 1000 := rfl
  simp only [toLong, Int64.toInt_add, Int64.toInt_mul, Int32.toInt_toInt64, hyear, hmonth, hday,
    hhour, hminute, hsecond, Int.add_bmod_bmod, Int.bmod_add_bmod, value, units, components]
  congr 1
  omega

theorem canonical_fromLong (x : Int64) : Canonical (fromLong x) where
  numeral := by
    rw [components_fromLong]
    exact canonical_digits units_pos _
  isLong := by
    rw [components_fromLong, value_digits]
    exact ⟨x.le_toInt, x.toInt_lt⟩

theorem toLong_fromLong (x : Int64) : toLong (fromLong x) = x := by
  apply Int64.toInt_inj.mp
  rw [toInt_toLong, components_fromLong, value_digits]
  exact Int64.toInt_bmod_size x

theorem Canonical.toInt_toLong {d : TimeDuration} (h : Canonical d) :
    (toLong d).toInt = value units d.components := by
  obtain ⟨hlow, hhigh⟩ := h.isLong
  rw [TimeDuration.toInt_toLong, bmod_long (by omega) (by omega)]

theorem Canonical.fromLong_toLong {d : TimeDuration} (h : Canonical d) :
    fromLong (toLong d) = d := by
  apply components_injective
  rw [components_fromLong, h.toInt_toLong, digits_value units_pos h.numeral]

/-! ### The text -/

def toString (d : TimeDuration) : List Char :=
  [':'].intercalate (d.components.map showInt)

/-- The loop over the pieces from the last one, with the number of places left in the array. A
piece that is not empty has no place before the first one. -/
def fill : List (List Char) → Nat → List Int32 × Bool → Option (List Int32 × Bool)
  | [], _, a => some a
  | piece :: pieces, places, a =>
    if piece = [] then fill pieces (places - 1) a else
    (parseInt (Text.trim piece)).bind fun n =>
      if 0 < places then fill pieces (places - 1) (a.1.set (places - 1) n, a.2 && n = 0) else none

/-- `none` is an exception: a piece that is no `int`, or more pieces than counts. -/
def parseDuration (duration : List Char) : Option TimeDuration :=
  if duration = [] then some zeroTimeDuration else
  (fill (duration.splitOn ':').reverse 7 ([0, 0, 0, 0, 0, 0, 0], true)).map fun a =>
    if a.2 then zeroTimeDuration else
    ⟨a.1.getD 0 0, a.1.getD 1 0, a.1.getD 2 0, a.1.getD 3 0, a.1.getD 4 0, a.1.getD 5 0,
      a.1.getD 6 0⟩

theorem trim_showInt (n : Int) : Text.trim (showInt n) = showInt n := by
  refine Text.trim_of_forall fun c hc => ?_
  rcases mem_showInt hc with h | rfl
  · have hdigit : '0'.val ≤ c.val := by
      rw [Char.isDigit, Bool.and_eq_true, decide_eq_true_eq] at h
      exact h.1
    exact UInt32.lt_of_lt_of_le (by decide : ' '.val < '0'.val) hdigit
  · decide

theorem not_mem_showInt (n : Int) : ':' ∉ showInt n := by
  intro h
  rcases mem_showInt h with h | h
  · exact absurd h (by decide)
  · exact absurd h (by decide)

theorem splitOn_toString (d : TimeDuration) :
    d.toString.splitOn ':' = d.components.map showInt := by
  refine List.splitOn_intercalate ':' (fun s hs => ?_) (by simp [components])
  obtain ⟨n, -, rfl⟩ := List.mem_map.mp hs
  exact not_mem_showInt n

theorem fill_showInt (ns : List Int32) {a : List Int32} {isZero : Bool} (h : ns.length ≤ a.length) :
    fill (ns.map fun n => showInt n.toInt).reverse ns.length (a, isZero) =
      some (ns ++ a.drop ns.length, isZero && ns.all fun n => n = 0) := by
  induction ns using List.reverseRecOn generalizing a isZero with
  | nil => simp [fill]
  | append_singleton ns n ih =>
    rw [List.length_append, List.length_singleton] at h
    have hlen : ns.length ≤ (a.set ns.length n).length := by
      rw [List.length_set]
      omega
    rw [List.map_append, List.reverse_append, List.map_singleton, List.reverse_singleton,
      List.singleton_append, fill, if_neg showInt_ne_nil, trim_showInt, parseInt_showInt,
      Option.bind_some, List.length_append, List.length_singleton, if_pos (Nat.succ_pos _),
      Nat.add_sub_cancel]
    dsimp only
    rw [ih hlen]
    have hdrop : (a.set ns.length n).drop ns.length = n :: a.drop (ns.length + 1) := by
      rw [List.drop_eq_getElem_cons (by rw [List.length_set]; omega), List.getElem_set_self,
        List.drop_set_of_lt (Nat.lt_succ_self _)]
    rw [hdrop, List.append_assoc, List.singleton_append, List.all_append, List.all_cons,
      List.all_nil, Bool.and_true, Bool.and_assoc, Bool.and_comm (ns.all _)]

theorem toString_ne_nil (d : TimeDuration) : d.toString ≠ [] := by
  intro hnil
  have hpieces := splitOn_toString d
  rw [hnil] at hpieces
  exact absurd (congrArg List.length hpieces) (by simp [components])

/-- **The text loses nothing**, canonical or not. -/
theorem parseDuration_toString (d : TimeDuration) : parseDuration d.toString = some d := by
  have hfill := @fill_showInt [d.years, d.months, d.days, d.hours, d.minutes, d.seconds,
    d.milliseconds] [0, 0, 0, 0, 0, 0, 0] true (Nat.le_refl _)
  rw [parseDuration, if_neg (toString_ne_nil d), splitOn_toString]
  refine (congrArg (Option.map _) hfill).trans ?_
  simp only [Option.map_some, List.all_cons, List.all_nil, Bool.and_true, Bool.true_and]
  split_ifs with hzero
  · simp only [Bool.and_eq_true, decide_eq_true_eq] at hzero
    obtain ⟨hyears, hmonths, hdays, hhours, hminutes, hseconds, hmilliseconds⟩ := hzero
    obtain ⟨⟩ := d
    simp_all [zeroTimeDuration]
  · rfl

/-- **Nothing is lost**: neither by the encoded number nor by the text. -/
theorem lossless :
    (∀ x : Int64, toLong (fromLong x) = x ∧ Canonical (fromLong x) ∧
      ((0 ≤ x → ∀ c ∈ (fromLong x).components, 0 ≤ c) ∧
        (x ≤ 0 → ∀ c ∈ (fromLong x).components, c ≤ 0))) ∧
      ∀ d : TimeDuration, parseDuration d.toString = some d ∧
        (Canonical d → fromLong (toLong d) = d) := by
  refine ⟨fun x => ⟨toLong_fromLong x, canonical_fromLong x, fun hx => ?_, fun hx => ?_⟩,
    fun d => ⟨parseDuration_toString d, Canonical.fromLong_toLong⟩⟩
  · rw [components_fromLong]
    exact digits_nonneg units_pos (Int64.le_iff_toInt_le.mp hx)
  · rw [components_fromLong]
    exact digits_nonpos units_pos (Int64.le_iff_toInt_le.mp hx)

/-! ### The order -/

/-- One duration compared to itself is zero by the comparison of the counts too. -/
def compareTo (d e : TimeDuration) : Int32 :=
  let r := d.years - e.years
  if r ≠ 0 then r else
  let r := d.months - e.months
  if r ≠ 0 then r else
  let r := d.days - e.days
  if r ≠ 0 then r else
  let r := d.hours - e.hours
  if r ≠ 0 then r else
  let r := d.minutes - e.minutes
  if r ≠ 0 then r else
  let r := d.seconds - e.seconds
  if r ≠ 0 then r else
  d.milliseconds - e.milliseconds

def difference (d e : TimeDuration) : Int := lead d.components e.components

/-- `compareTo` orders three durations totally, tells them apart, and on the canonical ones among
them is the order of the encoded numbers. -/
structure Ordered (a b c : TimeDuration) : Prop where
  total : ∀ x ∈ [a, b, c], ∀ y ∈ [a, b, c], compareTo x y ≤ 0 ∨ compareTo y x ≤ 0
  antisymm : ∀ x ∈ [a, b, c], ∀ y ∈ [a, b, c], compareTo x y ≤ 0 → compareTo y x ≤ 0 → x = y
  trans : ∀ x ∈ [a, b, c], ∀ y ∈ [a, b, c], ∀ z ∈ [a, b, c], compareTo x y ≤ 0 →
    compareTo y z ≤ 0 → compareTo x z ≤ 0
  zero_iff : ∀ x ∈ [a, b, c], ∀ y ∈ [a, b, c], compareTo x y = 0 ↔ x = y
  agrees : ∀ x ∈ [a, b, c], ∀ y ∈ [a, b, c], Canonical x → Canonical y →
    (compareTo x y ≤ 0 ↔ toLong x ≤ toLong y)

/-- No difference of two of the three durations is `2 ^ 31`, and no three of them ascend by
differences of an `int` to one that is more than an `int` above the first. -/
def NoOverflow (a b c : TimeDuration) : Prop :=
  ∀ x ∈ [a, b, c], ∀ y ∈ [a, b, c], ∀ z ∈ [a, b, c], difference y x ≠ 2 ^ 31 ∧
    ¬(0 < difference y x ∧ difference y x < 2 ^ 31 ∧ 0 < difference z y ∧
      difference z y < 2 ^ 31 ∧ 2 ^ 31 < difference z x)

theorem sub_ne_zero_iff (x y : Int32) : x - y ≠ 0 ↔ x.toInt - y.toInt ≠ 0 := by
  rw [ne_eq, Int32.sub_eq_iff_eq_add, Int32.zero_add, ← Int32.toInt_inj]
  omega

theorem toInt_first {x y r : Int32} {m : Int} (h : r.toInt = m.bmod (2 ^ 32)) :
    (if x - y ≠ 0 then x - y else r).toInt =
      (if x.toInt - y.toInt ≠ 0 then x.toInt - y.toInt else m).bmod (2 ^ 32) := by
  by_cases hne : x - y ≠ 0
  · rw [if_pos hne, if_pos ((sub_ne_zero_iff x y).mp hne), Int32.toInt_sub]
  · rw [if_neg hne, if_neg fun hne' => hne ((sub_ne_zero_iff x y).mpr hne'), h]

theorem toInt_compareTo (d e : TimeDuration) :
    (compareTo d e).toInt = (difference d e).bmod (2 ^ 32) := by
  refine toInt_first (toInt_first (toInt_first (toInt_first (toInt_first (toInt_first ?_)))))
  rw [Int32.toInt_sub, lead]
  split_ifs with hne
  · rfl
  · rw [lead, not_not.mp hne]

theorem int_bounds (x : Int32) : -2147483648 ≤ x.toInt ∧ x.toInt < 2147483648 := by
  have hlow := x.le_toInt
  have hhigh := x.toInt_lt
  omega

theorem mem_components {d : TimeDuration} :
    ∀ c ∈ d.components, -2147483648 ≤ c ∧ c < 2147483648 := by
  simp only [components, List.forall_mem_cons]
  exact ⟨int_bounds _, int_bounds _, int_bounds _, int_bounds _, int_bounds _, int_bounds _,
    int_bounds _, fun _ h => absurd h List.not_mem_nil⟩

theorem difference_swap (d e : TimeDuration) : difference e d = -difference d e := by
  rw [difference, difference, lead_swap]

theorem difference_eq_zero_iff (d e : TimeDuration) : difference d e = 0 ↔ d = e := by
  rw [difference, lead_eq_zero_iff (length_components d e)]
  exact ⟨components_injective, congrArg components⟩

theorem difference_trans (x y z : TimeDuration) :
    difference x z = difference x y + difference y z ∨ difference x z = difference x y ∨
      difference x z = difference y z ∨
      difference x y + difference y z = 0 ∧ difference x y ≠ 0 := by
  rw [difference, difference, difference]
  exact lead_trans _ _ _ (length_components x y) (length_components y z)

/-- **The comparison wraps around once** where the difference is no `int`. -/
theorem compareTo_cases (d e : TimeDuration) :
    -4294967296 < difference d e ∧ difference d e < 4294967296 ∧
      ((compareTo d e).toInt = difference d e ∧
          -2147483648 ≤ difference d e ∧ difference d e < 2147483648 ∨
        (compareTo d e).toInt = difference d e - 4294967296 ∧ 2147483648 ≤ difference d e ∨
        (compareTo d e).toInt = difference d e + 4294967296 ∧ difference d e < -2147483648) := by
  obtain ⟨hlow, hhigh⟩ := lead_lt (by decide) (mem_components (d := d)) (mem_components (d := e))
  have hwrap := toInt_compareTo d e
  have hint := int_bounds (compareTo d e)
  have hsum := Int.bmod_add_bdiv (difference d e) (2 ^ 32)
  rw [← hwrap] at hsum
  rw [difference] at hsum ⊢
  omega

theorem Canonical.difference_lt {d e : TimeDuration} (hd : Canonical d) (he : Canonical e) :
    -2147483648 < difference d e ∧ difference d e < 2147483648 := by
  have hsmall : ∀ {d : TimeDuration}, Canonical d →
      ∀ c ∈ d.components, -1073741824 ≤ c ∧ c < 1073741824 := by
    intro d h c hc
    obtain ⟨hlow, hhigh⟩ := h.isLong
    rw [← digits_value units_pos h.numeral] at hc
    have hlt := digits_lt (k := 1073741824) (v := 9223372036854775809) (by decide) units_pos
      (by decide) (by omega) (by omega) c hc
    omega
  have hlt := lead_lt (by decide) (hsmall hd) (hsmall he)
  exact hlt

theorem Canonical.difference_pos_iff {d e : TimeDuration} (hd : Canonical d) (he : Canonical e) :
    0 < difference d e ↔ toLong e < toLong d := by
  rw [difference, lead_pos_iff units_pos hd.numeral he.numeral, Int64.lt_iff_toInt_lt,
    hd.toInt_toLong, he.toInt_toLong]

theorem compareTo_le_iff (d e : TimeDuration) :
    compareTo d e ≤ 0 ↔ -2147483648 ≤ difference d e ∧ difference d e ≤ 0 ∨
      2147483648 ≤ difference d e := by
  have hcases := compareTo_cases d e
  have hzero : (0 : Int32).toInt = 0 := rfl
  rw [Int32.le_iff_toInt_le]
  omega

theorem compareTo_eq_zero_iff (d e : TimeDuration) : compareTo d e = 0 ↔ d = e := by
  rw [← difference_eq_zero_iff, ← Int32.toInt_inj]
  have hcases := compareTo_cases d e
  have hzero : (0 : Int32).toInt = 0 := rfl
  omega

theorem Ordered.noOverflow {a b c : TimeDuration} (h : Ordered a b c) : NoOverflow a b c := by
  intro x hx y hy z hz
  have hyx := difference_swap x y
  have hzy := difference_swap y z
  have hzx := difference_swap x z
  constructor
  · intro hover
    have heq : x = y := by
      refine h.antisymm x hx y hy ?_ ?_
      · rw [compareTo_le_iff]
        omega
      · rw [compareTo_le_iff]
        omega
    rw [heq, (difference_eq_zero_iff y y).mpr rfl] at hover
    exact absurd hover (by decide)
  · rintro ⟨hxypos, hxylt, hyzpos, hyzlt, hover⟩
    have hle := h.trans x hx y hy z hz ((compareTo_le_iff x y).mpr (by omega))
      ((compareTo_le_iff y z).mpr (by omega))
    rw [compareTo_le_iff] at hle
    omega

theorem NoOverflow.ordered {a b c : TimeDuration} (h : NoOverflow a b c) : Ordered a b c where
  total x hx y hy := by
    have hyx := difference_swap x y
    rw [compareTo_le_iff, compareTo_le_iff]
    omega
  antisymm x hx y hy hle hle' := by
    have hne := (h x hx y hy y hy).1
    have hne' := (h y hy x hx x hx).1
    have hyx := difference_swap x y
    rw [compareTo_le_iff] at hle hle'
    rw [← difference_eq_zero_iff]
    omega
  trans x hx y hy z hz hle hle' := by
    have hyx := difference_swap x y
    have hzy := difference_swap y z
    have hzx := difference_swap x z
    have hxy_ne := (h x hx y hy y hy).1
    have hyx_ne := (h y hy x hx x hx).1
    have hyz_ne := (h y hy z hz z hz).1
    have hzy_ne := (h z hz y hy y hy).1
    rw [compareTo_le_iff] at hle hle' ⊢
    by_contra hnot
    rcases difference_trans x y z with hsum | hsum | hsum | ⟨hsum, hne⟩
    · -- the three ascend from the one after the pair that overflows
      rcases hle with hle | hle
      · rcases hle' with hle' | hle'
        · exact (h x hx y hy z hz).2
            ⟨by omega, by omega, by omega, by omega, by omega⟩
        · exact (h z hz x hx y hy).2
            ⟨by omega, by omega, by omega, by omega, by omega⟩
      · rcases hle' with hle' | hle'
        · exact (h y hy z hz x hx).2
            ⟨by omega, by omega, by omega, by omega, by omega⟩
        · have := (compareTo_cases x z).2.1
          omega
    · omega
    · omega
    · omega
  zero_iff x _ y _ := compareTo_eq_zero_iff x y
  agrees x _ y _ hx hy := by
    have hnear := hx.difference_lt hy
    have hpos := hx.difference_pos_iff hy
    rw [Int64.lt_iff_toInt_lt] at hpos
    rw [compareTo_le_iff, Int64.le_iff_toInt_le]
    omega

/-- **Exactly the overflow** of a difference of counts keeps three durations from being
ordered. -/
theorem ordered_iff_noOverflow (a b c : TimeDuration) : Ordered a b c ↔ NoOverflow a b c :=
  ⟨Ordered.noOverflow, NoOverflow.ordered⟩

theorem not_ordered_cycle : ¬Ordered ⟨-1500000000, 0, 0, 0, 0, 0, 0⟩ ⟨0, 0, 0, 0, 0, 0, 0⟩
    ⟨1500000000, 0, 0, 0, 0, 0, 0⟩ := by
  intro h
  exact absurd (h.trans _ (by simp) _ (by simp) _ (by simp) (by decide : compareTo
    ⟨-1500000000, 0, 0, 0, 0, 0, 0⟩ ⟨0, 0, 0, 0, 0, 0, 0⟩ ≤ 0) (by decide : compareTo
    ⟨0, 0, 0, 0, 0, 0, 0⟩ ⟨1500000000, 0, 0, 0, 0, 0, 0⟩ ≤ 0)) (by decide)

end TimeDuration

end OfficeAuto.Base
