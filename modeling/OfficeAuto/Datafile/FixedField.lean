import OfficeAuto.Datafile.ForestRoundTrip

/-!
# Fields of a fixed length

A field of a fixed length is written by `getFixedString`, which pads the text of its value: numbers
get zeros at their front, and all other values get spaces at their end. `setString` reads the text
of a field, and `createRecord` those of a line.

Of the values that fit their fields, `isReadBack_iff` says which are read back. The spaces stay with
a string, so it has to fill its field, and dates but for timestamps do not take them. The zeros
stand before the sign of a negative number, which then is no number any more; and for a fixed point
number, zero is read in its place.

The whole numbers are the Java ones. The floating point numbers, the dates and their formats are
parameters (`Library`), each with what the records rely on.
-/

namespace OfficeAuto.Datafile

open Decimal

/-! ### The classes of values -/

/-- The text of a number starts with a digit if it has no sign and is no name. -/
def startsDigit (text : List Char) : Bool := text.head?.any Char.isDigit

/-- A class of numbers. Zeros may stand before the digits of a number, but not before a sign or a
name. -/
structure NumberClass (T : Type) where
  toString : T → List Char
  valueOf : List Char → Except RecordException T
  /-- No text of a number is blank. -/
  toString_visible : ∀ n, (toString n).all (· == ' ') = false
  valueOf_toString : ∀ n, valueOf (toString n) = .ok n
  valueOf_zeros : ∀ n k, startsDigit (toString n) = true →
    valueOf (List.replicate k '0' ++ toString n) = .ok n
  valueOf_zeros_ne : ∀ n k, startsDigit (toString n) = false →
    ∀ m, valueOf (List.replicate (k + 1) '0' ++ toString n) ≠ .ok m

theorem startsDigit_toDigits (n : ℕ) : startsDigit (Nat.toDigits 10 n) = true := by
  rcases h : Nat.toDigits 10 n with _ | ⟨c, cs⟩
  · exact absurd h Nat.toDigits_ne_nil
  · exact isDigit_toDigits c (h ▸ List.mem_cons_self)

theorem startsDigit_showInt {n : ℤ} : startsDigit (showInt n) = true ↔ 0 ≤ n := by
  rw [showInt, signText]
  by_cases hn : n < 0
  · simp only [hn, decide_true, if_true]
    exact iff_of_false Bool.false_ne_true (Int.not_le.mpr hn)
  · simp only [hn, decide_false, Bool.false_eq_true, if_false, List.nil_append]
    exact iff_of_true (startsDigit_toDigits _) (Int.not_lt.mp hn)

theorem isDigits_append {s t : List Char} (hs : isDigits s = true) (ht : isDigits t = true) :
    isDigits (s ++ t) = true := by
  refine isDigits_iff.mpr ⟨fun c hc => ?_, fun hnil => ?_⟩
  · exact (List.mem_append.mp hc).elim ((isDigits_iff.mp hs).1 c) ((isDigits_iff.mp ht).1 c)
  · exact (isDigits_iff.mp ht).2 (List.append_eq_nil_iff.mp hnil).2

theorem isDigits_zeros (k : ℕ) : isDigits (List.replicate (k + 1) '0') = true := by
  refine isDigits_iff.mpr ⟨fun c hc => ?_, List.cons_ne_nil _ _⟩
  rw [List.eq_of_mem_replicate hc]
  decide

theorem isDigits_zeros_append (k n : ℕ) :
    isDigits (List.replicate k '0' ++ Nat.toDigits 10 n) = true := by
  cases k with
  | zero => exact isDigits_toDigits
  | succ k => exact isDigits_append (isDigits_zeros k) isDigits_toDigits

theorem ofDigitChars_zeros_append (k n : ℕ) :
    Nat.ofDigitChars 10 (List.replicate k '0' ++ Nat.toDigits 10 n) 0 = n := by
  rw [Nat.ofDigitChars_append, Nat.ofDigitChars_replicate_zero, Nat.mul_zero,
    Nat.ofDigitChars_ten_toDigits]

theorem showInt_of_nonneg {n : ℤ} (hn : 0 ≤ n) : showInt n = Nat.toDigits 10 n.natAbs := by
  rw [showInt, signText, if_neg (by simpa using hn), List.nil_append]

theorem readInt_zeros {n : ℤ} (hn : 0 ≤ n) (k : ℕ) :
    readInt (List.replicate k '0' ++ showInt n) = some n := by
  have hread := @readInt_signText false _ (isDigits_zeros_append k n.natAbs)
  rw [ofDigitChars_zeros_append] at hread
  rw [showInt_of_nonneg hn]
  exact hread.trans (congrArg some (Int.natAbs_of_nonneg hn))

theorem readInt_zeros_neg {n : ℤ} (hn : n < 0) (k : ℕ) :
    readInt (List.replicate (k + 1) '0' ++ showInt n) = none := by
  have hsign : readSign (List.replicate (k + 1) '0' ++ showInt n) =
      (false, List.replicate (k + 1) '0' ++ showInt n) := by
    rw [List.replicate_succ]
    rfl
  have hdigits : isDigits (List.replicate (k + 1) '0' ++ showInt n) = false := by
    rw [Bool.eq_false_iff, ne_eq, isDigits_iff]
    rintro ⟨h, -⟩
    have hminus : '-' ∈ showInt n := by
      rw [showInt, signText, decide_eq_true hn]
      exact List.mem_cons_self
    exact absurd (h '-' (List.mem_append_right _ hminus)) (by decide)
  rw [readInt, hsign, hdigits, if_neg Bool.false_ne_true]

theorem showInt_visible (n : ℤ) : (showInt n).all (· == ' ') = false := by
  rcases h : showInt n with _ | ⟨c, cs⟩
  · exact absurd h showInt_ne_nil
  · have hc : (c == ' ') = false := by
      rcases mem_showInt (h ▸ List.mem_cons_self : c ∈ showInt n) with hc | rfl
      · rw [beq_eq_false_iff_ne]
        rintro rfl
        exact absurd hc (by decide)
      · rfl
    rw [List.all_cons, hc, Bool.false_and]

def NumberClass.integer : NumberClass Int32 where
  toString n := showInt n.toInt
  toString_visible n := showInt_visible n.toInt
  valueOf s := (parseInt s).elim (.error .numberFormat) .ok
  valueOf_toString n := by rw [parseInt_showInt]; rfl
  valueOf_zeros n k h := by
    rw [parseInt, readInt_zeros (startsDigit_showInt.mp h), Option.bind_some,
      if_pos ⟨n.le_toInt, n.toInt_lt⟩, Int32.ofInt_toInt]
    rfl
  valueOf_zeros_ne n k h m := by
    rw [parseInt, readInt_zeros_neg, Option.bind_none]
    · simp
    · rw [Bool.eq_false_iff, ne_eq, startsDigit_showInt] at h
      exact Int.not_le.mp h

def NumberClass.long : NumberClass Int64 where
  toString n := showInt n.toInt
  toString_visible n := showInt_visible n.toInt
  valueOf s := (readLong s).elim (.error .numberFormat) fun n => .ok (Int64.ofInt n)
  valueOf_toString n := by
    rw [readLong_showInt ⟨n.le_toInt, n.toInt_lt⟩, Option.elim_some, Int64.ofInt_toInt]
  valueOf_zeros n k h := by
    have hlong : IsLong n.toInt := ⟨n.le_toInt, n.toInt_lt⟩
    rw [readLong, readInt_zeros (startsDigit_showInt.mp h), Option.filter_some,
      if_pos (decide_eq_true hlong), Option.elim_some, Int64.ofInt_toInt]
  valueOf_zeros_ne n k h m := by
    rw [readLong, readInt_zeros_neg, Option.filter_none]
    · simp
    · rw [Bool.eq_false_iff, ne_eq, startsDigit_showInt] at h
      exact Int.not_le.mp h

/-- The classes of numbers that have zeros before them. -/
inductive NumberKind
  | integer
  | long
  | float
  | double
  deriving DecidableEq

/-- The classes of dates: those of `java.sql`. -/
inductive SqlKind
  | timestamp
  | date
  | time
  deriving DecidableEq

structure SqlClass (T : Type) where
  toString : T → List Char
  valueOf : List Char → Except RecordException T
  getTime : T → ℤ
  ofTime : ℤ → T
  /-- No text of a date is blank. -/
  toString_visible : ∀ x, (toString x).all (· == ' ') = false

/-- A `SimpleDateFormat` formats milliseconds, and parses the start of a text. -/
structure DateFormat where
  format : ℤ → List Char
  parse : List Char → Except RecordException ℤ
  parse_spaces : ∀ t k, parse (format t ++ List.replicate k ' ') = parse (format t)

/-- The classes and functions that fields are written and read with: the floating point numbers with
their arithmetic, the dates, the formats of a pattern, and the digest of a password. -/
structure Library where
  Float : Type
  Double : Type
  Sql : SqlKind → Type
  float : NumberClass Float
  double : NumberClass Double
  sql : ∀ kind, SqlClass (Sql kind)
  /-- A `Timestamp` trims its text. -/
  timestamp_spaces : ∀ s k, (sql .timestamp).valueOf (s ++ List.replicate k ' ') =
    (sql .timestamp).valueOf s
  /-- The other dates do not take spaces after their text. -/
  sql_spaces : ∀ kind, kind ≠ .timestamp → ∀ s k x,
    (sql kind).valueOf (s ++ List.replicate (k + 1) ' ') ≠ .ok x
  dateFormat : List Char → Except RecordException DateFormat
  digestHash : List Char → List Char
  /-- `Math.pow(10.0, Double.parseDouble(format))` -/
  power : List Char → Except RecordException Double
  doubleValue : ℤ → Double
  times : Double → Double → Double
  div : Double → Double → Double
  round : Double → Int64
  /-- Zero stays zero, or becomes no number at all, which is rounded to zero. -/
  round_zero : ∀ m, round (times m (div (doubleValue 0) m)) = 0

namespace Library

variable (java : Library)

def Number : NumberKind → Type
  | .integer => Int32
  | .long => Int64
  | .float => java.Float
  | .double => java.Double

def number : (kind : NumberKind) → NumberClass (java.Number kind)
  | .integer => NumberClass.integer
  | .long => NumberClass.long
  | .float => java.float
  | .double => java.double

end Library

/-- The objects that fields of a fixed length hold. -/
inductive Value (java : Library)
  | string (s : List Char)
  | number (kind : NumberKind) (n : java.Number kind)
  | sql (kind : SqlKind) (x : java.Sql kind)

variable {java : Library}

def Value.toString : Value java → List Char
  | string s => s
  | number kind n => (java.number kind).toString n
  | sql kind x => (java.sql kind).toString x

def fixedObjects (java : Library) : Objects (Value java) := ⟨.string, Value.toString, fun _ => rfl⟩

/-! ### Fields -/

/-- The types of the fields, with their formats: `CustomTimestamp`, `CustomDate` and `CustomTime`,
`FixedPointDouble`, `String`, `Timestamp`, `Date` and `Time`, and the numbers. -/
inductive FixedType
  | custom (kind : SqlKind) (format : List Char)
  | fixedPointDouble (format : List Char)
  | string (encrypted : Bool)
  | standard (kind : SqlKind)
  | number (kind : NumberKind)

/-- `NumberFormat.parse` of a text with a sign and digits, without separators: it reads the start of
the text. -/
def parseNumber (text : List Char) : Except RecordException ℤ :=
  let neg := text.head? == some '-'
  let digits := (if neg then text.drop 1 else text).takeWhile Char.isDigit
  if digits = [] then .error .parse else .ok (applySign neg (Nat.ofDigitChars 10 digits 0))

/-- The cast of an object to a date, of which the milliseconds are taken. -/
def Value.getTime (kind : SqlKind) : Value java → Except RecordException ℤ
  | sql kind' x => if kind' = kind then .ok ((java.sql kind').getTime x) else .error .classCast
  | _ => .error .classCast

def Value.doubleValue : Value java → Except RecordException java.Double
  | number .double x => .ok x
  | _ => .error .classCast

def formatDate (java : Library) (kind : SqlKind) (format : List Char) (value : Value java) :
    Except RecordException (List Char) := do
  let sdf ← java.dateFormat format
  let time ← value.getTime kind
  pure (sdf.format time)

def parseDate (java : Library) (kind : SqlKind) (format text : List Char) :
    Except RecordException (Value java) := do
  let sdf ← java.dateFormat format
  let time ← sdf.parse text
  pure (.sql kind ((java.sql kind).ofTime time))

/-- The text of a fixed point number: the whole number of its smallest units. -/
def formatFixed (java : Library) (format : List Char) (value : Value java) :
    Except RecordException (List Char) := do
  let multiplier ← java.power format
  let number ← value.doubleValue
  pure (showInt (java.round (java.times multiplier number)).toInt)

def parseFixed (java : Library) (format text : List Char) :
    Except RecordException (Value java) := do
  let number ← parseNumber text
  let divisor ← java.power format
  pure (.number .double (java.div (java.doubleValue number) divisor))

def FixedType.fieldType (java : Library) (length : ℤ) : FixedType → FieldType (Value java)
  | custom kind format => .custom (formatDate java kind format) (parseDate java kind format)
  | fixedPointDouble format =>
    .custom (fun value => do pure (padFrontZeros (← formatFixed java format value) length))
      (parseFixed java format)
  | string false => .string
  | string true =>
    .custom (fun value => .ok value.toString) fun text => .ok (.string (java.digestHash text))
  | standard kind =>
    .standard fun text => do pure (.sql kind (← (java.sql kind).valueOf text))
  | number kind =>
    .number fun text => do pure (.number kind (← (java.number kind).valueOf text))

structure FixedField where
  name : Name
  position : ℤ
  length : ℤ
  type : FixedType

def FixedField.modelField (java : Library) (field : FixedField) : ModelField (Value java) :=
  ⟨field.name, field.position, field.length, field.type.fieldType java field.length, none, false,
    none⟩

/-! ### What is read back -/

def FixedType.plainText (java : Library) (value : Value java) :
    FixedType → Except RecordException (List Char)
  | custom kind format => formatDate java kind format value
  | fixedPointDouble format => formatFixed java format value
  | string _ | standard _ | number _ => .ok value.toString

/-- A value of a type. -/
inductive HasType : FixedType → Value java → Prop
  | custom (kind : SqlKind) (format : List Char) (x : java.Sql kind) :
    HasType (.custom kind format) (.sql kind x)
  | fixedPointDouble (format : List Char) (x : java.Double) :
    HasType (.fixedPointDouble format) (.number .double x)
  | string (encrypted : Bool) (s : List Char) : HasType (.string encrypted) (.string s)
  | standard (kind : SqlKind) (x : java.Sql kind) : HasType (.standard kind) (.sql kind x)
  | number (kind : NumberKind) (n : java.Number kind) : HasType (.number kind) (.number kind n)

/-- **A value fits its field** if it is of its type and its text is not too long. -/
structure Fits (field : FixedField) (value : Value java) : Prop where
  hasType : HasType field.type value
  length_pos : 0 < field.length
  length_le : ∃ text, field.type.plainText java value = .ok text ∧ text.length ≤ field.length

def IsVisible (text : List Char) : Prop := text.all (· == ' ') = false

/-- **Which values are read back**, in a field of a length.

* A text fills its field, since the spaces after it are read with it, and it is not blank. What a
  digest makes of it is another text.
* A number has no sign, or fills its field, since zeros stand before the sign.
* A fixed point number is one of its smallest units, too.
* A date says with its text, or with the text of its format, which date it is. But for a
  `Timestamp`, the text fills the field. -/
def ReadsBack (length : ℤ) : FixedType → Value java → Prop
  | .string encrypted, .string s =>
    IsVisible s ∧
      if encrypted then java.digestHash (padSpaces s length) = s else s.length = length
  | .number _, .number kind n =>
    startsDigit ((java.number kind).toString n) = true ∨
      ((java.number kind).toString n).length = length
  | .fixedPointDouble format, .number .double x =>
    ∃ m, java.power format = .ok m ∧
      let number := (java.round (java.times m x)).toInt
      x = java.div (java.doubleValue number) m ∧
        (0 ≤ number ∨ (showInt number).length = length)
  | .standard _, .sql kind x =>
    (java.sql kind).valueOf ((java.sql kind).toString x) = .ok x ∧
      (kind = .timestamp ∨ ((java.sql kind).toString x).length = length)
  | .custom _ format, .sql kind x =>
    ∃ sdf, java.dateFormat format = .ok sdf ∧ IsVisible (sdf.format ((java.sql kind).getTime x)) ∧
      ∃ time, sdf.parse (sdf.format ((java.sql kind).getTime x)) = .ok time ∧
        (java.sql kind).ofTime time = x
  | _, _ => False

/-! ### Padded texts -/

section Pad

variable {s text : List Char} {length : ℤ}

theorem isVisible_append (h : IsVisible text) (s : List Char) : IsVisible (s ++ text) := by
  rw [IsVisible, List.all_append, h, Bool.and_false]

theorem isVisible_padSpaces : IsVisible (padSpaces text length) ↔ IsVisible text := by
  have hspaces : (List.replicate (length - text.length).toNat ' ').all (· == ' ') = true := by
    rw [List.all_eq_true]
    intro c hc
    rw [List.eq_of_mem_replicate hc]
    rfl
  rw [IsVisible, padSpaces, List.all_append, hspaces, Bool.and_true]
  exact Iff.rfl

theorem length_padSpaces (h : text.length ≤ length) : (padSpaces text length).length = length := by
  rw [padSpaces, List.length_append, List.length_replicate]
  omega

theorem length_padFrontZeros (h : text.length ≤ length) :
    (padFrontZeros text length).length = length := by
  rw [padFrontZeros, List.length_append, List.length_replicate]
  omega

theorem padSpaces_of_length (h : text.length = length) : padSpaces text length = text := by
  rw [padSpaces, h, Int.sub_self, Int.toNat_zero, List.replicate_zero, List.append_nil]

theorem padFrontZeros_of_length (h : text.length = length) : padFrontZeros text length = text := by
  rw [padFrontZeros, h, Int.sub_self, Int.toNat_zero, List.replicate_zero, List.nil_append]

theorem exists_padding (h : text.length ≤ length) (hne : (text.length : ℤ) ≠ length) :
    ∃ k, (length - text.length).toNat = k + 1 :=
  ⟨(length - text.length).toNat - 1, by omega⟩

theorem padSpaces_eq_iff (h : text.length ≤ length) :
    padSpaces text length = text ↔ text.length = length := by
  constructor
  · intro heq
    rw [← length_padSpaces h, heq]
  · exact padSpaces_of_length

theorem NumberClass.valueOf_padFrontZeros {T : Type} (numbers : NumberClass T) (n : T)
    (h : (numbers.toString n).length ≤ length) :
    numbers.valueOf (padFrontZeros (numbers.toString n) length) = .ok n ↔
      startsDigit (numbers.toString n) = true ∨ (numbers.toString n).length = length := by
  cases hdigit : startsDigit (numbers.toString n) with
  | true => exact iff_of_true (numbers.valueOf_zeros n _ hdigit) (.inl rfl)
  | false =>
    rw [or_iff_right Bool.false_ne_true]
    constructor
    · intro hvalue
      by_contra hne
      obtain ⟨k, hk⟩ := exists_padding h hne
      rw [padFrontZeros, hk] at hvalue
      exact numbers.valueOf_zeros_ne n k hdigit n hvalue
    · intro hlen
      rw [padFrontZeros_of_length hlen]
      exact numbers.valueOf_toString n

/-- A date is read from its text with spaces after it exactly if it is read from its text, and the
class trims the text or there are none. -/
theorem Library.valueOf_padSpaces (kind : SqlKind) (x : java.Sql kind)
    (h : ((java.sql kind).toString x).length ≤ length) :
    (java.sql kind).valueOf (padSpaces ((java.sql kind).toString x) length) = .ok x ↔
      (java.sql kind).valueOf ((java.sql kind).toString x) = .ok x ∧
        (kind = .timestamp ∨ ((java.sql kind).toString x).length = length) := by
  by_cases hlen : (((java.sql kind).toString x).length : ℤ) = length
  · rw [padSpaces_of_length hlen]
    exact (and_iff_left (.inr hlen)).symm
  by_cases hkind : kind = .timestamp
  · subst hkind
    rw [padSpaces, java.timestamp_spaces]
    exact (and_iff_left (.inl rfl)).symm
  · obtain ⟨k, hk⟩ := exists_padding h hlen
    rw [padSpaces, hk]
    exact iff_of_false (java.sql_spaces kind hkind _ k x) fun hback => hback.2.elim hkind hlen

theorem parseNumber_digits_append {digits : List Char} (h : isDigits digits = true)
    {rest : List Char} (hrest : startsDigit rest = false) :
    parseNumber (digits ++ rest) = .ok (Nat.ofDigitChars 10 digits 0) := by
  obtain ⟨hdigits, hne⟩ := isDigits_iff.mp h
  have hhead : ((digits ++ rest).head? == some '-') = false := by
    rw [List.head?_append_of_ne_nil _ hne, beq_eq_false_iff_ne]
    intro hminus
    exact absurd (hdigits '-' (List.mem_of_mem_head? hminus)) (by decide)
  have hnone : rest.takeWhile Char.isDigit = [] := by
    cases rest with
    | nil => rfl
    | cons c cs => exact List.takeWhile_cons_of_neg (Bool.eq_false_iff.mp hrest)
  simp only [parseNumber, hhead, Bool.false_eq_true, if_false]
  rw [List.takeWhile_append_of_pos hdigits, hnone, List.append_nil, if_neg hne]
  rfl

theorem parseNumber_zeros {n : ℤ} (hn : 0 ≤ n) (k : ℕ) :
    parseNumber (List.replicate k '0' ++ showInt n) = .ok n := by
  have hread := @parseNumber_digits_append _ (isDigits_zeros_append k n.natAbs) [] rfl
  rw [List.append_nil, ofDigitChars_zeros_append, Int.natAbs_of_nonneg hn] at hread
  rw [showInt_of_nonneg hn]
  exact hread

theorem parseNumber_neg {n : ℤ} (hn : n < 0) : parseNumber (showInt n) = .ok n := by
  have hshow : showInt n = '-' :: Nat.toDigits 10 n.natAbs := by
    rw [showInt, signText, if_pos (decide_eq_true hn)]
    rfl
  have hsign : applySign true n.natAbs = n := by
    rw [← decide_eq_true hn]
    exact applySign_natAbs n
  rw [hshow, parseNumber]
  simp only [List.head?_cons, beq_self_eq_true, if_true, List.drop_one, List.tail_cons]
  rw [List.takeWhile_eq_self_iff.mpr isDigit_toDigits, if_neg Nat.toDigits_ne_nil,
    Nat.ofDigitChars_ten_toDigits, hsign]

theorem parseNumber_zeros_neg {n : ℤ} (hn : n < 0) (k : ℕ) :
    parseNumber (List.replicate (k + 1) '0' ++ showInt n) = .ok 0 := by
  have hsign : startsDigit (showInt n) = false := by
    rw [Bool.eq_false_iff, ne_eq, startsDigit_showInt]
    exact Int.not_le.mpr hn
  rw [parseNumber_digits_append (isDigits_zeros k) hsign, Nat.ofDigitChars_replicate_zero,
    Nat.mul_zero]
  rfl

theorem parseNumber_padFrontZeros (n : ℤ) (h : (showInt n).length ≤ length) :
    parseNumber (padFrontZeros (showInt n) length) =
      .ok (if 0 ≤ n ∨ (showInt n).length = length then n else 0) := by
  rcases Int.lt_or_le n 0 with hn | hn
  · by_cases hlen : ((showInt n).length : ℤ) = length
    · rw [padFrontZeros_of_length hlen, if_pos (.inr hlen), parseNumber_neg hn]
    · obtain ⟨k, hk⟩ := exists_padding h hlen
      rw [padFrontZeros, hk, parseNumber_zeros_neg hn,
        if_neg fun hread => hread.elim (Int.not_le.mpr hn) hlen]
  · rw [padFrontZeros, parseNumber_zeros hn, if_pos (.inl hn)]

end Pad

/-! ### One field -/

def FixedType.written (length : ℤ) (text : List Char) : FixedType → List Char
  | fixedPointDouble _ | number _ => padFrontZeros text length
  | custom _ _ | string _ | standard _ => padSpaces text length

section Field

variable {length : ℤ} {text : List Char} {value : Value java} {type : FixedType}

theorem FixedType.length_written (type : FixedType) (h : text.length ≤ length) :
    (type.written length text).length = length := by
  cases type with
  | fixedPointDouble format => exact length_padFrontZeros h
  | number kind => exact length_padFrontZeros h
  | custom kind format => exact length_padSpaces h
  | string encrypted => exact length_padSpaces h
  | standard kind => exact length_padSpaces h

theorem FixedType.format_eq (htext : type.plainText java value = .ok text)
    (h : text.length ≤ length) : ∃ str,
      FieldType.format (fixedObjects java) length value (type.fieldType java length) = .ok str ∧
        padSpaces str length = type.written length text := by
  cases type with
  | custom kind format => exact ⟨text, htext, rfl⟩
  | fixedPointDouble format =>
    refine ⟨padFrontZeros text length, ?_, padSpaces_of_length (length_padFrontZeros h)⟩
    rw [fieldType, FieldType.format]
    exact Except.bind_eq_ok.mpr ⟨text, htext, rfl⟩
  | string encrypted =>
    cases encrypted with
    | false => exact ⟨text, htext, rfl⟩
    | true => exact ⟨text, htext, rfl⟩
  | standard kind => exact ⟨text, htext, rfl⟩
  | number kind =>
    rw [plainText, Except.ok.injEq] at htext
    subst htext
    exact ⟨_, rfl, padSpaces_of_length (length_padFrontZeros h)⟩

def IsRead (java : Library) (type : FixedType) (length : ℤ) (text : List Char)
    (value : Value java) : Prop :=
  IsVisible (type.written length text) ∧
    (type.fieldType java length).parse (fixedObjects java) (type.written length text) = .ok value

theorem isRead_number (kind : NumberKind) (n : java.Number kind)
    (h : ((java.number kind).toString n).length ≤ length) :
    IsRead java (.number kind) length ((java.number kind).toString n) (.number kind n) ↔
      ReadsBack length (.number kind) (.number kind n) := by
  refine Iff.trans ?_ ((java.number kind).valueOf_padFrontZeros n h)
  have hvisible : IsVisible (padFrontZeros ((java.number kind).toString n) length) :=
    isVisible_append ((java.number kind).toString_visible n) _
  rw [IsRead, FixedType.written, and_iff_right hvisible, FixedType.fieldType, FieldType.parse,
    Except.bind_eq_ok]
  constructor
  · rintro ⟨m, hm, heq⟩
    rw [Except.pure_eq_ok] at heq
    cases heq
    exact hm
  · exact fun hn => ⟨n, hn, rfl⟩

theorem isRead_standard (kind : SqlKind) (x : java.Sql kind)
    (h : ((java.sql kind).toString x).length ≤ length) :
    IsRead java (.standard kind) length ((java.sql kind).toString x) (.sql kind x) ↔
      ReadsBack length (.standard kind) (.sql kind x) := by
  refine Iff.trans ?_ (java.valueOf_padSpaces kind x h)
  have hvisible : IsVisible (padSpaces ((java.sql kind).toString x) length) :=
    isVisible_padSpaces.mpr ((java.sql kind).toString_visible x)
  rw [IsRead, FixedType.written, and_iff_right hvisible, FixedType.fieldType, FieldType.parse,
    Except.bind_eq_ok]
  constructor
  · rintro ⟨y, hy, heq⟩
    rw [Except.pure_eq_ok] at heq
    cases heq
    exact hy
  · exact fun hx => ⟨x, hx, rfl⟩

theorem isRead_string (encrypted : Bool) (s : List Char) (h : s.length ≤ length) :
    IsRead java (.string encrypted) length s (.string s) ↔
      ReadsBack length (.string encrypted) (.string s : Value java) := by
  rw [IsRead, FixedType.written, isVisible_padSpaces, ReadsBack]
  refine and_congr_right fun _ => ?_
  cases encrypted with
  | false =>
    rw [if_neg Bool.false_ne_true, ← padSpaces_eq_iff h, FixedType.fieldType, FieldType.parse,
      Except.ok.injEq]
    exact Value.string.injEq _ _ ▸ Iff.rfl
  | true =>
    rw [if_pos rfl, FixedType.fieldType, FieldType.parse, Except.ok.injEq]
    exact Value.string.injEq _ _ ▸ Iff.rfl

theorem isRead_custom (kind : SqlKind) (format : List Char) (x : java.Sql kind)
    (htext : formatDate java kind format (.sql kind x) = .ok text) :
    IsRead java (.custom kind format) length text (.sql kind x) ↔
      ReadsBack length (.custom kind format) (.sql kind x) := by
  obtain ⟨sdf, hsdf, htime⟩ := Except.bind_eq_ok.mp htext
  rw [Value.getTime, if_pos rfl] at htime
  obtain rfl := Except.pure_eq_ok.mp htime
  rw [IsRead, FixedType.written, isVisible_padSpaces, ReadsBack]
  constructor
  · rintro ⟨hvisible, hparse⟩
    obtain ⟨sdf', hsdf', hparse⟩ := Except.bind_eq_ok.mp hparse
    obtain rfl := Except.ok.inj (hsdf.symm.trans hsdf')
    obtain ⟨time, htime, heq⟩ := Except.bind_eq_ok.mp hparse
    rw [padSpaces, sdf.parse_spaces] at htime
    cases heq
    exact ⟨sdf, hsdf, hvisible, time, htime, rfl⟩
  · rintro ⟨sdf', hsdf', hvisible, time, htime, hx⟩
    obtain rfl := Except.ok.inj (hsdf.symm.trans hsdf')
    refine ⟨hvisible, ?_⟩
    refine Except.bind_eq_ok.mpr ⟨sdf, hsdf, Except.bind_eq_ok.mpr ⟨time, ?_, ?_⟩⟩
    · rw [padSpaces, sdf.parse_spaces]
      exact htime
    · rw [hx]
      rfl

theorem isRead_fixedPointDouble (format : List Char) (x : java.Double)
    (htext : formatFixed java format (.number .double x) = .ok text) (h : text.length ≤ length) :
    IsRead java (.fixedPointDouble format) length text (.number .double x) ↔
      ReadsBack length (.fixedPointDouble format) (.number .double x) := by
  obtain ⟨m, hm, htext⟩ := Except.bind_eq_ok.mp htext
  obtain rfl := Except.pure_eq_ok.mp htext
  set number := (java.round (java.times m x)).toInt with hnumber
  have hvisible : IsVisible (padFrontZeros (showInt number) length) :=
    isVisible_append (showInt_visible number) _
  have hparse : parseFixed java format (padFrontZeros (showInt number) length) =
      .ok (.number .double (java.div (java.doubleValue
        (if 0 ≤ number ∨ (showInt number).length = length then number else 0)) m)) := by
    rw [parseFixed, parseNumber_padFrontZeros number h, hm]
    rfl
  rw [IsRead, FixedType.written, and_iff_right hvisible, FixedType.fieldType, FieldType.parse,
    hparse, Except.ok.injEq]
  change _ ↔ ∃ m, java.power format = .ok m ∧
    x = java.div (java.doubleValue (java.round (java.times m x)).toInt) m ∧ _
  constructor
  · intro heq
    have hx := eq_of_heq (Value.number.inj heq).2
    by_cases hread : 0 ≤ number ∨ (showInt number).length = length
    · rw [if_pos hread] at hx
      exact ⟨m, hm, hx.symm, hread⟩
    · -- zero has been read, and this is what has been written
      rw [if_neg hread] at hx
      have hzero : number = 0 := by
        rw [hnumber, ← hx, java.round_zero]
        rfl
      exact absurd (.inl (Int.le_of_eq hzero.symm)) hread
  · rintro ⟨m', hm', hx, hread⟩
    obtain rfl := Except.ok.inj (hm.symm.trans hm')
    rw [if_pos hread]
    exact congrArg _ hx.symm

/-- **Which values are read**, of those that fit their field. -/
theorem isRead_iff {field : FixedField} (hfits : Fits field value)
    (htext : field.type.plainText java value = .ok text) (h : text.length ≤ field.length) :
    IsRead java field.type field.length text value ↔
      ReadsBack field.length field.type value := by
  obtain ⟨name, position, length, type⟩ := field
  cases hfits.hasType with
  | custom kind format x => exact isRead_custom kind format x htext
  | fixedPointDouble format x => exact isRead_fixedPointDouble format x htext h
  | string encrypted s =>
    cases htext
    exact isRead_string encrypted s h
  | standard kind x =>
    cases htext
    exact isRead_standard kind x h
  | number kind n =>
    cases htext
    exact isRead_number kind n h

end Field

/-! ### Records -/

def Shows (record : Record (Value java)) (line : List Char) : Prop :=
  ∀ f ∈ record.modelRecord.fields, ∃ text,
    record.getFixedString (fixedObjects java) f.name = .ok (some text) ∧
      Text.substring line f.position (f.position + f.length) = some text

/-- **A record is read back** if each text that is written for a field has the length of the field
and sets its value, in any record of the type, and if every line with these texts makes a record
with the same values. -/
structure IsReadBack (record : Record (Value java)) : Prop where
  length : ∀ name f, record.modelRecord.getModelField name = some f → ∃ text,
    record.getFixedString (fixedObjects java) name = .ok (some text) ∧ text.length = f.length
  setString : ∀ name, (record.modelRecord.getModelField name).isSome → ∀ text,
    record.getFixedString (fixedObjects java) name = .ok (some text) →
      ∀ r : Record (Value java), r.modelRecord = record.modelRecord →
        ∃ r', r.setString (fixedObjects java) name (some text) = .ok r' ∧
          r'.fields name = record.fields name
  createRecord : ∀ line, Shows record line →
    ∃ r, Record.createRecord (fixedObjects java) line record.modelRecord = .ok r ∧
      ∀ f ∈ record.modelRecord.fields, r.fields f.name = record.fields f.name

def fixedRecord (modelRecord : ModelRecord (Value java)) (fields : List FixedField) :
    ModelRecord (Value java) :=
  { modelRecord with fields := fields.map (FixedField.modelField java) }

def fieldNamed (fields : List FixedField) (name : Name) : Option FixedField :=
  fields.find? fun field => field.name = name

section Records

variable {modelRecord : ModelRecord (Value java)} {fields : List FixedField} {field : FixedField}
  {name : Name} {value : Value java} {record r : Record (Value java)} {text line : List Char}

theorem getModelField_fixedRecord (name : Name) :
    (fixedRecord modelRecord fields).getModelField name =
      (fieldNamed fields name).map (FixedField.modelField java) := by
  rw [ModelRecord.getModelField, fixedRecord, List.find?_map, fieldNamed]
  rfl

theorem isSome_getModelField {modelRecord : ModelRecord (Value java)}
    {f : ModelField (Value java)} (hf : f ∈ modelRecord.fields) :
    (modelRecord.getModelField f.name).isSome := by
  rw [ModelRecord.getModelField, List.find?_isSome]
  exact ⟨f, hf, decide_eq_true rfl⟩

theorem getFixedString_eq (hfield : record.modelRecord.getModelField name =
      some (field.modelField java)) (hvalue : record.fields name = some value)
    (htext : field.type.plainText java value = .ok text) (h : text.length ≤ field.length) :
    record.getFixedString (fixedObjects java) name =
      .ok (some (field.type.written field.length text)) := by
  obtain ⟨str, hformat, hstr⟩ := field.type.format_eq htext h
  simp only [Record.getFixedString, Record.get, hfield, hvalue, ← hstr]
  refine Except.bind_eq_ok.mpr ⟨some value, rfl, ?_⟩
  exact Except.bind_eq_ok.mpr ⟨str, hformat, rfl⟩

theorem setString_of_isRead
    (hfield : r.modelRecord.getModelField name = some (field.modelField java))
    (h : IsRead java field.type field.length text value) :
    r.setString (fixedObjects java) name (some (field.type.written field.length text)) =
      .ok { r with fields := Function.update r.fields name (some value) } := by
  obtain ⟨hvisible, hparse⟩ := h
  have hnil : field.type.written field.length text ≠ [] := fun hnil => by
    rw [hnil] at hvisible
    cases hvisible
  rw [Record.setString]
  simp only [if_neg hnil, hfield, if_neg (Bool.eq_false_iff.mp hvisible)]
  refine Except.bind_eq_ok.mpr ⟨value, hparse, ?_⟩
  simp only [Record.set, hfield]

theorem isRead_of_setString {r' : Record (Value java)}
    (hfield : record.modelRecord.getModelField name = some (field.modelField java))
    (hname : field.name = name) (hvalue : record.fields name = some value)
    (hset : (Record.create record.modelRecord).setString (fixedObjects java) name
      (some (field.type.written field.length text)) = .ok r')
    (hback : r'.fields name = record.fields name) :
    IsRead java field.type field.length text value := by
  subst hname
  have hcreate : Record.create record.modelRecord = record.restrict [] := by
    simp [Record.create, Record.restrict]
  rw [hcreate] at hset
  obtain ⟨hholds, -⟩ := (Record.setString_restrict (fixedObjects java) record
    (f := field.modelField java) hfield List.not_mem_nil _ _).mp ⟨hset, hback⟩
  rw [Holds] at hholds
  by_cases hblank : (field.type.written field.length text).all (· == ' ') = true
  · rw [if_pos hblank] at hholds
    cases hholds.symm.trans hvalue
  · rw [if_neg hblank] at hholds
    obtain ⟨read, hread, hset⟩ := hholds
    obtain rfl := Option.some.inj (hset.symm.trans hvalue)
    exact ⟨Bool.eq_false_iff.mpr hblank, hread⟩

theorem createFields_of_isRead (record : Record (Value java)) {fs : List (ModelField (Value java))}
    (hread : ∀ f ∈ fs, ∀ text, record.getFixedString (fixedObjects java) f.name =
      .ok (some text) → ∀ r : Record (Value java), r.modelRecord = record.modelRecord →
        r.setString (fixedObjects java) f.name (some text) =
          .ok { r with fields := Function.update r.fields f.name (record.fields f.name) })
    (hshows : ∀ f ∈ fs, ∃ text,
      record.getFixedString (fixedObjects java) f.name = .ok (some text) ∧
        Text.substring line f.position (f.position + f.length) = some text)
    (hr : r.modelRecord = record.modelRecord) :
    ∃ r', fs.foldlM (Record.createField (fixedObjects java) line) r = .ok r' ∧
      (∀ n, r.fields n = record.fields n → r'.fields n = record.fields n) ∧
        ∀ f ∈ fs, r'.fields f.name = record.fields f.name := by
  induction fs generalizing r with
  | nil => exact ⟨r, rfl, fun _ h => h, fun f hf => absurd hf List.not_mem_nil⟩
  | cons f fs ih =>
    obtain ⟨text, htext, hplace⟩ := hshows f List.mem_cons_self
    have hset := hread f List.mem_cons_self text htext r hr
    obtain ⟨r', hfold, hkeep, hfields⟩ := ih
      (r := { r with fields := Function.update r.fields f.name (record.fields f.name) })
      (fun g hg => hread g (List.mem_cons_of_mem _ hg))
      (fun g hg => hshows g (List.mem_cons_of_mem _ hg)) hr
    refine ⟨r', ?_, fun n hn => hkeep n ?_, List.forall_mem_cons.mpr ⟨hkeep f.name ?_, hfields⟩⟩
    · rw [List.foldlM_cons]
      exact Except.bind_eq_ok.mpr
        ⟨_, Record.createField_eq_ok.mpr ⟨text, hplace, hset⟩, hfold⟩
    · by_cases heq : n = f.name
      · subst heq
        exact Function.update_self _ _ _
      · exact (Function.update_of_ne heq _ _).trans hn
    · exact Function.update_self _ _ _

end Records

/-- **Which records of fields of a fixed length are read back**, of those whose values fit their
fields. -/
theorem isReadBack_iff (modelRecord : ModelRecord (Value java)) (fields : List FixedField)
    (values : Name → Option (Value java))
    (hfits : ∀ name field, fieldNamed fields name = some field →
      ∃ value, values name = some value ∧ Fits field value) :
    IsReadBack ⟨fixedRecord modelRecord fields, values⟩ ↔
      ∀ name field, fieldNamed fields name = some field → ∀ value, values name = some value →
        ReadsBack field.length field.type value := by
  have hmodel : ∀ {name field}, fieldNamed fields name = some field →
      (fixedRecord modelRecord fields).getModelField name = some (field.modelField java) := by
    intro name field hfield
    rw [getModelField_fixedRecord, hfield, Option.map_some]
  have hname : ∀ {name field}, fieldNamed fields name = some field → field.name = name :=
    fun hfield => by simpa using List.find?_some hfield
  -- the text that is written for a field
  have hwritten : ∀ {name field}, fieldNamed fields name = some field → ∃ value text,
      values name = some value ∧ Fits field value ∧
        field.type.plainText java value = .ok text ∧ text.length ≤ field.length ∧
          Record.getFixedString (fixedObjects java) ⟨fixedRecord modelRecord fields, values⟩ name =
            .ok (some (field.type.written field.length text)) := by
    intro name field hfield
    obtain ⟨value, hvalue, hfit⟩ := hfits name field hfield
    obtain ⟨text, htext, hlen⟩ := hfit.length_le
    exact ⟨value, text, hvalue, hfit, htext, hlen,
      getFixedString_eq (hmodel hfield) hvalue htext hlen⟩
  constructor
  · intro h name field hfield value hvalue
    obtain ⟨value', text, hvalue', hfit, htext, hlen, hstring⟩ := hwritten hfield
    obtain rfl := Option.some.inj (hvalue'.symm.trans hvalue)
    obtain ⟨r', hset, hback⟩ := h.setString name (by rw [hmodel hfield]; rfl) _ hstring
      (Record.create (fixedRecord modelRecord fields)) rfl
    exact (isRead_iff hfit htext hlen).mp
      (isRead_of_setString (hmodel hfield) (hname hfield) hvalue hset hback)
  · intro h
    have hset : ∀ name, ((fixedRecord modelRecord fields).getModelField name).isSome → ∀ text,
        Record.getFixedString (fixedObjects java) ⟨fixedRecord modelRecord fields, values⟩ name =
          .ok (some text) → ∀ r : Record (Value java),
            r.modelRecord = fixedRecord modelRecord fields →
              r.setString (fixedObjects java) name (some text) =
                .ok { r with fields := Function.update r.fields name (values name) } := by
      intro name hsome text htext r hr
      obtain ⟨f, hf⟩ := Option.isSome_iff_exists.mp hsome
      rw [getModelField_fixedRecord, Option.map_eq_some_iff] at hf
      obtain ⟨field, hfield, -⟩ := hf
      obtain ⟨value, plain, hvalue, hfit, hplain, hlen, hstring⟩ := hwritten hfield
      rw [hstring, Except.ok.injEq, Option.some.injEq] at htext
      subst htext
      rw [hvalue]
      exact setString_of_isRead (by rw [hr]; exact hmodel hfield)
        ((isRead_iff hfit hplain hlen).mpr (h name field hfield value hvalue))
    refine ⟨fun name f hf => ?_, fun name hsome text htext r hr => ?_, fun line hshows => ?_⟩
    · rw [getModelField_fixedRecord, Option.map_eq_some_iff] at hf
      obtain ⟨field, hfield, rfl⟩ := hf
      obtain ⟨value, text, -, -, -, hlen, hstring⟩ := hwritten hfield
      exact ⟨_, hstring, field.type.length_written hlen⟩
    · exact ⟨_, hset name hsome text htext r hr, Function.update_self _ _ _⟩
    · obtain ⟨r', hfold, -, hfields⟩ := createFields_of_isRead
        ⟨fixedRecord modelRecord fields, values⟩
        (r := Record.create (fixedRecord modelRecord fields))
        (fun f hf text htext r hr => hset f.name (isSome_getModelField hf) text htext r hr)
        hshows rfl
      exact ⟨r', hfold, hfields⟩

/-! ### A library -/

def zeroPoint : NumberClass Unit where
  toString _ := "0.0".toList
  valueOf s := if s.dropWhile (· == '0') = ".0".toList then .ok () else .error .numberFormat
  toString_visible _ := rfl
  valueOf_toString _ := rfl
  valueOf_zeros _ k _ := by
    rw [List.dropWhile_append_of_pos fun c hc => by rw [List.eq_of_mem_replicate hc]; rfl]
    rfl
  valueOf_zeros_ne _ _ h := absurd h (by decide)

def epochText : SqlKind → List Char
  | .timestamp => "1970-01-01 00:00:00.0".toList
  | .date => "1970-01-01".toList
  | .time => "00:00:00".toList

def epoch (kind : SqlKind) : SqlClass Unit where
  toString _ := epochText kind
  valueOf s :=
    if (if kind = .timestamp then s.rdropWhile (· == ' ') else s) = epochText kind then .ok ()
    else .error .illegalArgument
  getTime _ := 0
  ofTime _ := ()
  toString_visible _ := by cases kind <;> rfl

theorem rdropWhile_spaces (s : List Char) (k : ℕ) :
    (s ++ List.replicate k ' ').rdropWhile (· == ' ') = s.rdropWhile (· == ' ') := by
  induction k with
  | zero => rw [List.replicate_zero, List.append_nil]
  | succ k ih =>
    rw [List.replicate_succ', ← List.append_assoc, List.rdropWhile_concat_pos _ _ _ rfl, ih]

theorem append_spaces_ne_epochText {kind : SqlKind} (s : List Char) (k : ℕ) :
    s ++ List.replicate (k + 1) ' ' ≠ epochText kind := by
  intro h
  have hlast : (epochText kind).getLast? = some ' ' := by
    rw [← h, List.replicate_succ', ← List.append_assoc, List.getLast?_concat]
  cases kind
  · exact absurd hlast (by decide)
  · exact absurd hlast (by decide)
  · exact absurd hlast (by decide)

def epochLibrary : Library where
  Float := Unit
  Double := Unit
  Sql _ := Unit
  float := zeroPoint
  double := zeroPoint
  sql := epoch
  timestamp_spaces s k := by
    simp only [epoch, if_true, rdropWhile_spaces]
  sql_spaces kind hkind s k x := by
    simp only [epoch, if_neg hkind, if_neg (append_spaces_ne_epochText s k), ne_eq, reduceCtorEq,
      not_false_eq_true]
  dateFormat _ := .error .illegalArgument
  digestHash s := s.map fun _ => '*'
  power _ := .error .numberFormat
  doubleValue _ := ()
  times _ _ := ()
  div _ _ := ()
  round _ := 0
  round_zero _ := rfl

def orderRecordModel : ModelRecord (Value epochLibrary) :=
  ⟨"order".toList, [], [], 0, [], 0, false, -1, -1, [], []⟩

def quantityField : FixedField := ⟨"quantity".toList, 0, 4, .number .integer⟩

def quantityOf (quantity : Int32) : Value epochLibrary := .number .integer quantity

def orderOf (quantity : Int32) : Record (Value epochLibrary) :=
  ⟨fixedRecord orderRecordModel [quantityField], fun _ => some (quantityOf quantity)⟩

theorem fits_quantity {quantity : Int32} (h : (showInt quantity.toInt).length ≤ 4) :
    Fits quantityField (quantityOf quantity) where
  hasType := .number .integer quantity
  length_pos := by decide
  length_le := ⟨showInt quantity.toInt, rfl, Int.ofNat_le.mpr h⟩

theorem isReadBack_order : IsReadBack (orderOf 42) := by
  have hquantity : ∀ {name field}, fieldNamed [quantityField] name = some field →
      field = quantityField := fun h => List.mem_singleton.mp (List.mem_of_find?_eq_some h)
  refine (isReadBack_iff orderRecordModel [quantityField]
    (fun _ => some (quantityOf 42)) fun name field hfield => ?_).mpr
      fun name field hfield value hvalue => ?_
  · rw [hquantity hfield]
    exact ⟨_, rfl, fits_quantity (by decide)⟩
  · obtain rfl := Option.some.inj hvalue
    rw [hquantity hfield]
    exact .inl rfl

theorem not_isReadBack_negative :
    Fits quantityField (quantityOf (-5)) ∧ ¬IsReadBack (orderOf (-5)) := by
  refine ⟨fits_quantity (by decide), fun h => ?_⟩
  obtain ⟨r', hset, -⟩ := h.setString quantityField.name rfl "00-5".toList rfl
    (Record.create (orderOf (-5)).modelRecord) rfl
  have herror : (Record.create (orderOf (-5)).modelRecord).setString (fixedObjects epochLibrary)
      quantityField.name (some "00-5".toList) = .error .numberFormat := rfl
  cases herror.symm.trans hset

end OfficeAuto.Datafile
