import Mathlib.Algebra.Order.Floor.Div
import Mathlib.GroupTheory.GroupAction.Ring
import Mathlib.Data.List.DropRight
import Mathlib.Data.List.GetD
import Mathlib.Tactic.IntervalCases
import OfficeAuto.Logic.MachineInt

/-!
# Base64

The encoder and the decoder of the base utilities. Three bytes make four symbols of six bits, and
the encoder fills the text up with `=`.

The decoder undoes the encoder on every text that is not empty (`base64Decode_base64Encode`); the
empty one has no last character to look at. The array that the encoder fills has a size that is an
`int`, so the bytes also come back only if they are not too many (`roundTrip_iff`).
-/

namespace OfficeAuto.Base.Base64

open MachineInt

/-! ### Encoder -/

def base64EncMap : List Char :=
  ['A', 'B', 'C', 'D', 'E', 'F', 'G', 'H', 'I', 'J', 'K', 'L', 'M', 'N', 'O', 'P', 'Q', 'R', 'S',
    'T', 'U', 'V', 'W', 'X', 'Y', 'Z', 'a', 'b', 'c', 'd', 'e', 'f', 'g', 'h', 'i', 'j', 'k', 'l',
    'm', 'n', 'o', 'p', 'q', 'r', 's', 't', 'u', 'v', 'w', 'x', 'y', 'z', '0', '1', '2', '3', '4',
    '5', '6', '7', '8', '9', '+', '/']

def firstSextet (a : UInt8) : UInt8 := (a >>> 2) &&& (63 : UInt8)

def secondSextet (a b : UInt8) : UInt8 :=
  ((b >>> 4) &&& (15 : UInt8)) ||| ((a <<< 4) &&& (63 : UInt8))

def thirdSextet (b c : UInt8) : UInt8 :=
  ((c >>> 6) &&& (3 : UInt8)) ||| ((b <<< 2) &&& (63 : UInt8))

def fourthSextet (c : UInt8) : UInt8 := c &&& (63 : UInt8)

/-- The symbols of six bits. A last group of one or two bytes has no symbol for what it lacks. -/
def sextets : List UInt8 → List UInt8
  | [] => []
  | [a] => [firstSextet a, (a <<< 4) &&& (63 : UInt8)]
  | [a, b] => [firstSextet a, secondSextet a b, (b <<< 2) &&& (63 : UInt8)]
  | a :: b :: c :: data =>
    firstSextet a :: secondSextet a b :: thirdSextet b c :: fourthSextet c :: sextets data

def encChar (n : UInt8) : Char := base64EncMap.getD n.toNat '='

def base64Encode (data : List UInt8) : List Char :=
  (sextets data).map encChar ++
    List.replicate ((data.length + 2) / 3 * 4 - (sextets data).length) '='

def destLength (length : ℕ) : ℤ := int ((int (length + 2)).tdiv 3 * 4)

/-- The encoder with its array: `none` is a negative size, or an array that is too small. -/
def encodeArray (data : List UInt8) : Option (List Char) :=
  if (sextets data).length ≤ destLength data.length then
    some ((sextets data).map encChar ++
      List.replicate ((destLength data.length).toNat - (sextets data).length) '=')
  else none

/-! ### Decoder -/

def base64DecMap (c : Char) : Option UInt8 :=
  if c.toNat < 128 then
    some (if c ∈ base64EncMap then UInt8.ofNat (base64EncMap.idxOf c) else 0)
  else none

def firstOctet (a b : UInt8) : UInt8 :=
  ((a <<< 2) &&& (255 : UInt8)) ||| ((b >>> 4) &&& (3 : UInt8))

def secondOctet (b c : UInt8) : UInt8 :=
  ((b <<< 4) &&& (255 : UInt8)) ||| ((c >>> 2) &&& (15 : UInt8))

def thirdOctet (c d : UInt8) : UInt8 := ((c <<< 6) &&& (255 : UInt8)) ||| (d &&& (63 : UInt8))

/-- The loop over the groups, with the number of bytes still to write. `none` is an index out of
bounds. -/
def octets : ℕ → List UInt8 → Option (List UInt8)
  | 0, _ => some []
  | 1, a :: b :: _ => some [firstOctet a b]
  | 2, a :: b :: c :: _ => some [firstOctet a b, secondOctet b c]
  | n + 3, a :: b :: c :: d :: data =>
    (octets n data).map fun dest =>
      firstOctet a b :: secondOctet b c :: thirdOctet c d :: dest
  | _, _ => none

def base64Decode (data : List Char) : Option (List UInt8) :=
  let tail := (data.rdropWhile (· = '=')).length
  if tail = 0 ∨ tail < data.length / 4 then none else
  (data.mapM base64DecMap).bind (octets (tail - data.length / 4))

/-! ### The round trip -/

theorem and_lt (a : UInt8) {m : UInt8} (hm : m.toNat < 64) : (a &&& m).toNat < 64 := by
  rw [UInt8.toNat_and]
  exact Nat.and_lt_two_pow (n := 6) _ hm

theorem or_lt {a b : UInt8} (ha : a.toNat < 64) (hb : b.toNat < 64) : (a ||| b).toNat < 64 := by
  rw [UInt8.toNat_or]
  exact Nat.or_lt_two_pow (n := 6) ha hb

theorem sextets_lt (data : List UInt8) : ∀ n ∈ sextets data, n.toNat < 64 := by
  have hfirst : ∀ a, (firstSextet a).toNat < 64 := fun a => and_lt _ (by decide)
  have hsecond : ∀ a b, (secondSextet a b).toNat < 64 := fun a b =>
    or_lt (and_lt _ (by decide)) (and_lt _ (by decide))
  have hthird : ∀ b c, (thirdSextet b c).toNat < 64 := fun b c =>
    or_lt (and_lt _ (by decide)) (and_lt _ (by decide))
  induction data using sextets.induct with
  | case1 => exact fun n hn => absurd hn List.not_mem_nil
  | case2 a =>
    rw [sextets, List.forall_mem_cons, List.forall_mem_singleton]
    exact ⟨hfirst a, and_lt _ (by decide)⟩
  | case3 a b =>
    rw [sextets, List.forall_mem_cons, List.forall_mem_cons, List.forall_mem_singleton]
    exact ⟨hfirst a, hsecond a b, and_lt _ (by decide)⟩
  | case4 a b c data ih =>
    rw [sextets, List.forall_mem_cons, List.forall_mem_cons, List.forall_mem_cons,
      List.forall_mem_cons]
    exact ⟨hfirst a, hsecond a b, hthird b c, and_lt _ (by decide), ih⟩

theorem firstOctet_sextets (a b : UInt8) : firstOctet (firstSextet a) (secondSextet a b) = a := by
  apply UInt8.toBitVec_inj.mp
  apply BitVec.eq_of_getLsbD_eq
  intro i hi
  simp only [firstOctet, firstSextet, secondSextet]
  interval_cases i <;> simp

theorem secondOctet_sextets (a b c : UInt8) :
    secondOctet (secondSextet a b) (thirdSextet b c) = b := by
  apply UInt8.toBitVec_inj.mp
  apply BitVec.eq_of_getLsbD_eq
  intro i hi
  simp only [secondOctet, secondSextet, thirdSextet]
  interval_cases i <;> simp

theorem thirdOctet_sextets (b c : UInt8) :
    thirdOctet (thirdSextet b c) (fourthSextet c) = c := by
  apply UInt8.toBitVec_inj.mp
  apply BitVec.eq_of_getLsbD_eq
  intro i hi
  simp only [thirdOctet, thirdSextet, fourthSextet]
  interval_cases i <;> simp

theorem secondSextet_zero (a : UInt8) : secondSextet a 0 = (a <<< 4) &&& (63 : UInt8) := by
  simp [secondSextet]

theorem thirdSextet_zero (b : UInt8) : thirdSextet b 0 = (b <<< 2) &&& (63 : UInt8) := by
  simp [thirdSextet]

/-- **The loops undo each other**, whatever follows the symbols. -/
theorem octets_sextets (data rest : List UInt8) :
    octets data.length (sextets data ++ rest) = some data := by
  induction data using sextets.induct with
  | case1 => rfl
  | case2 a =>
    rw [sextets, ← secondSextet_zero]
    exact congrArg some (congrArg (· :: []) (firstOctet_sextets a 0))
  | case3 a b =>
    rw [sextets, ← thirdSextet_zero]
    simp only [List.length_cons, List.length_nil, List.cons_append, octets, firstOctet_sextets,
      secondOctet_sextets]
  | case4 a b c data ih =>
    simp only [sextets, List.length_cons, List.cons_append, octets, ih, Option.map_some,
      firstOctet_sextets, secondOctet_sextets, thirdOctet_sextets]

theorem length_sextets (data : List UInt8) :
    (sextets data).length = data.length + (data.length + 2) / 3 := by
  induction data using sextets.induct with
  | case1 => rfl
  | case2 a => simp only [sextets, List.length_cons, List.length_nil]
  | case3 a b => simp only [sextets, List.length_cons, List.length_nil]
  | case4 a b c data ih =>
    simp only [sextets, List.length_cons, ih]
    omega

theorem base64DecMap_encChar {n : UInt8} (hn : n.toNat < 64) :
    base64DecMap (encChar n) = some n := by
  have hall : ∀ k : Fin 64, base64DecMap (base64EncMap.getD k.val '=') =
      some (UInt8.ofNat k.val) := by decide +kernel
  rw [encChar, hall ⟨n.toNat, hn⟩, UInt8.ofNat_toNat]

theorem encChar_ne_pad {n : UInt8} (hn : n.toNat < 64) : encChar n ≠ '=' := by
  have hall : ∀ k : Fin 64, base64EncMap.getD k.val '=' ≠ '=' := by decide +kernel
  exact hall ⟨n.toNat, hn⟩

theorem mapM_encChar {ns : List UInt8} (hns : ∀ n ∈ ns, n.toNat < 64) (k : ℕ) :
    (ns.map encChar ++ List.replicate k '=').mapM base64DecMap =
      some (ns ++ List.replicate k 0) := by
  induction ns with
  | nil =>
    have hpad : base64DecMap '=' = some 0 := by decide
    induction k with
    | zero => rfl
    | succ k ih =>
      rw [List.map_nil, List.nil_append] at ih
      rw [List.map_nil, List.nil_append, List.replicate_succ, List.mapM_cons, hpad, ih]
      rfl
  | cons n ns ih =>
    rw [List.map_cons, List.cons_append, List.mapM_cons,
      base64DecMap_encChar (hns n List.mem_cons_self),
      ih fun m hm => hns m (List.mem_cons_of_mem _ hm)]
    rfl

theorem rdropWhile_pad {l : List Char} (hl : '=' ∉ l) (k : ℕ) :
    (l ++ List.replicate k '=').rdropWhile (· = '=') = l := by
  induction k with
  | zero =>
    rw [List.replicate_zero, List.append_nil, List.rdropWhile_eq_self_iff]
    intro hne hlast
    exact hl (of_decide_eq_true hlast ▸ List.getLast_mem hne)
  | succ k ih =>
    have hpad : (decide ('=' = '=')) = true := rfl
    rw [List.replicate_succ', ← List.append_assoc]
    exact (List.rdropWhile_concat_pos (fun c => decide (c = '=')) _ _ hpad).trans ih

theorem length_base64Encode (data : List UInt8) :
    (base64Encode data).length = (data.length + 2) / 3 * 4 := by
  rw [base64Encode, List.length_append, List.length_map, List.length_replicate, length_sextets]
  omega

/-- **The decoder undoes the encoder**, where there is a last symbol. -/
theorem base64Decode_base64Encode {data : List UInt8} (hne : data ≠ []) :
    base64Decode (base64Encode data) = some data := by
  have hpos : 0 < data.length := List.length_pos_of_ne_nil hne
  have hpad : '=' ∉ (sextets data).map encChar := by
    intro h
    obtain ⟨n, hn, heq⟩ := List.mem_map.mp h
    exact encChar_ne_pad (sextets_lt data n hn) heq
  have htail : (base64Encode data).rdropWhile (· = '=') = (sextets data).map encChar :=
    rdropWhile_pad hpad _
  rw [base64Decode, htail, List.length_map, length_base64Encode, length_sextets,
    if_neg (by omega), base64Encode, mapM_encChar (sextets_lt data), Option.bind_some]
  have hsize :
      data.length + (data.length + 2) / 3 - (data.length + 2) / 3 * 4 / 4 = data.length := by
    omega
  rw [hsize, octets_sextets]

/-! ### Arrays -/

theorem destLength_eq {length : ℕ} (h : length < 1610612734) :
    destLength length = ((length + 2) / 3 * 4 : ℕ) := by
  have hint : int (length + 2) = length + 2 := int_eq (by omega) (by omega)
  rw [destLength, hint, Int.tdiv_eq_ediv_of_nonneg (by omega), int_eq (by omega) (by omega)]
  omega

theorem le_destLength_iff {data : List UInt8} :
    (sextets data).length ≤ destLength data.length ↔ data.length < 1610612734 := by
  rw [length_sextets]
  constructor
  · intro hle
    by_contra hlong
    rw [destLength] at hle
    obtain ⟨k, hk, hge, hlt⟩ := int_spec ((int (data.length + 2)).tdiv 3 * 4)
    -- with the length so far, the sum with 2 is in the range
    have hshort : data.length < 2147483646 := by omega
    have hint : int (data.length + 2) = data.length + 2 := int_eq (by omega) (by omega)
    rw [hint, Int.tdiv_eq_ediv_of_nonneg (by omega)] at hk hle hge hlt
    omega
  · intro hlt
    rw [destLength_eq hlt]
    omega

theorem encodeArray_eq {data : List UInt8} (h : data.length < 1610612734) :
    encodeArray data = some (base64Encode data) := by
  rw [encodeArray, if_pos (le_destLength_iff.mpr h), destLength_eq h, Int.toNat_natCast,
    base64Encode]

/-- The bytes come back from their text, which has four symbols for every three bytes begun. -/
def RoundTrip (data : List UInt8) : Prop :=
  ∃ text, encodeArray data = some text ∧ base64Decode text = some data ∧
    text.length = 4 * (data.length ⌈/⌉ 3)

/-- **The round trip works exactly if there are bytes**, and an `int` for the size of their text. -/
theorem roundTrip_iff (data : List UInt8) :
    RoundTrip data ↔ data ≠ [] ∧ data.length < 1610612734 := by
  constructor
  · rintro ⟨text, htext, hdecode, -⟩
    have hlength : data.length < 1610612734 := by
      by_contra hlong
      rw [encodeArray, if_neg (mt le_destLength_iff.mp hlong)] at htext
      nomatch htext
    refine ⟨?_, hlength⟩
    rintro rfl
    rw [encodeArray_eq hlength] at htext
    obtain rfl := Option.some.inj htext
    revert hdecode
    decide
  · rintro ⟨hne, hlength⟩
    refine ⟨_, encodeArray_eq hlength, base64Decode_base64Encode hne, ?_⟩
    rw [length_base64Encode, Nat.ceilDiv_eq_add_pred_div, mul_comm]
    rfl

theorem not_roundTrip_nil : ¬RoundTrip [] := by
  rintro ⟨text, htext, hdecode, -⟩
  obtain rfl := Option.some.inj htext
  revert hdecode
  decide

/-! ### The text -/

theorem sextets_injective : Function.Injective sextets := by
  intro data data' h
  have hlength : data.length = data'.length := by
    have hlength' := congrArg List.length h
    rw [length_sextets, length_sextets] at hlength'
    omega
  have hoctets := octets_sextets data []
  rw [h, hlength, octets_sextets] at hoctets
  exact (Option.some.inj hoctets).symm

theorem base64Encode_ne_nil {data : List UInt8} (hne : data ≠ []) : base64Encode data ≠ [] := by
  have hpos : 0 < data.length := List.length_pos_of_ne_nil hne
  intro h
  have hlength := congrArg List.length h
  rw [base64Encode, List.length_append, List.length_map, length_sextets, List.length_nil] at hlength
  omega

theorem mem_base64Encode {data : List UInt8} {c : Char} (hc : c ∈ base64Encode data) :
    c ∈ base64EncMap ∨ c = '=' := by
  rcases List.mem_append.mp hc with hc | hc
  · obtain ⟨n, hn, rfl⟩ := List.mem_map.mp hc
    have hlt : n.toNat < base64EncMap.length := sextets_lt data n hn
    rw [encChar, List.getD_eq_getElem _ _ hlt]
    exact Or.inl (List.getElem_mem hlt)
  · exact Or.inr (List.eq_of_mem_replicate hc)

end OfficeAuto.Base.Base64
