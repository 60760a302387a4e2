import OfficeAuto.Text.Uri

/-!
# Form decoding

The decoder of the form encoding in `Text.Uri`: a plus sign is a blank, and the bytes of escapes
that stand next to each other are decoded as UTF-8 together. What becomes of bytes that are no UTF-8
is left to the library (`replace`). The digits of an escape are hexadecimal digits of ASCII.

A text that was encoded is decoded to itself (`urlDecode_encode`), whatever `replace` does.
-/

namespace Uri

def digitValue (c : Char) : Option ℕ :=
  if '0' ≤ c ∧ c ≤ '9' then some (c.toNat - '0'.toNat)
  else if 'A' ≤ c ∧ c ≤ 'F' then some (c.toNat - 'A'.toNat + 10)
  else if 'a' ≤ c ∧ c ≤ 'f' then some (c.toNat - 'a'.toNat + 10)
  else none

def parseEscape (a b : Char) : Option UInt8 :=
  match digitValue a, digitValue b with
  | some m, some n => some (UInt8.ofNat (m * 16 + n))
  | _, _ => none

section Decode

variable (replace : List UInt8 → List Char)

def ofBytes (bytes : List UInt8) : List Char :=
  match bytes.toByteArray.utf8Decode? with
  | some cs => cs.toList
  | none => replace bytes

def decodeLoop : List UInt8 → List Char → Except String (List Char)
  | bytes, [] => .ok (ofBytes replace bytes)
  | bytes, '%' :: a :: b :: s =>
    match parseEscape a b with
    | none => .error "URLDecoder: Illegal hex characters in escape (%) pattern"
    | some v => decodeLoop (bytes ++ [v]) s
  | bytes, c :: s =>
    if c = '%' then .error "URLDecoder: Incomplete trailing escape (%) pattern"
    else (decodeLoop [] s).map fun rest =>
      ofBytes replace bytes ++ (if c = '+' then ' ' else c) :: rest

/-- **The URL decoder over UTF-8**; an error is an `IllegalArgumentException`. -/
def urlDecode (s : List Char) : Except String (List Char) := decodeLoop replace [] s

theorem ofBytes_utf8Encode (t : List Char) :
    ofBytes replace (t.flatMap String.utf8EncodeChar) = t := by
  have h : (t.flatMap String.utf8EncodeChar).toByteArray.utf8Decode? = some t.toArray :=
    List.utf8Decode?_utf8Encode
  rw [ofBytes, h]

theorem digitValue_hexDigit {n : ℕ} (hn : n < 16) : digitValue (hexDigit n) = some n := by
  have hall : ∀ n : Fin 16, digitValue (hexDigit n) = some n.val := by decide
  exact hall ⟨n, hn⟩

theorem decodeLoop_escape (bytes : List UInt8) (b : UInt8) (s : List Char) :
    decodeLoop replace bytes (escape b ++ s) = decodeLoop replace (bytes ++ [b]) s := by
  have hb : b.toNat < 256 := b.toNat_lt
  have hparse : parseEscape (hexDigit (b.toNat / 16)) (hexDigit (b.toNat % 16)) = some b := by
    rw [parseEscape, digitValue_hexDigit (by omega), digitValue_hexDigit (by omega)]
    dsimp only
    rw [Nat.div_add_mod', UInt8.ofNat_toNat]
  rw [escape, List.cons_append, List.cons_append, List.cons_append, List.nil_append, decodeLoop,
    hparse]

theorem decodeLoop_escapes (bytes bs : List UInt8) (s : List Char) :
    decodeLoop replace bytes (bs.flatMap escape ++ s) = decodeLoop replace (bytes ++ bs) s := by
  induction bs generalizing bytes with
  | nil => rw [List.flatMap_nil, List.nil_append, List.append_nil]
  | cons b bs ih =>
    rw [List.flatMap_cons, List.append_assoc, decodeLoop_escape, ih, List.append_assoc,
      List.singleton_append]

theorem decodeLoop_cons (bytes : List UInt8) {c : Char} (hc : c ≠ '%') (s : List Char) :
    decodeLoop replace bytes (c :: s) = (decodeLoop replace [] s).map fun rest =>
      ofBytes replace bytes ++ (if c = '+' then ' ' else c) :: rest := by
  rw [decodeLoop, if_neg hc]
  exact fun _ _ _ h _ => absurd h hc

theorem decodeLoop_encode (t u : List Char) :
    decodeLoop replace (u.flatMap String.utf8EncodeChar) (encode t) = .ok (u ++ t) := by
  induction t generalizing u with
  | nil => rw [encode_nil, decodeLoop, ofBytes_utf8Encode, List.append_nil]
  | cons c t ih =>
    have hrest : decodeLoop replace [] (encode t) = .ok t := ih []
    rw [encode_cons, encodeChar]
    split_ifs with hsafe hblank
    · have hpercent : c ≠ '%' := by
        rintro rfl
        exact absurd hsafe (by decide)
      have hplus : c ≠ '+' := by
        rintro rfl
        exact absurd hsafe (by decide)
      rw [List.singleton_append, decodeLoop_cons replace _ hpercent, hrest, ofBytes_utf8Encode,
        if_neg hplus]
      rfl
    · rw [List.singleton_append, decodeLoop_cons replace _ (by decide), hrest, ofBytes_utf8Encode,
        if_pos rfl, hblank]
      rfl
    · have hbytes : u.flatMap String.utf8EncodeChar ++ String.utf8EncodeChar c =
          (u ++ [c]).flatMap String.utf8EncodeChar := by
        rw [List.flatMap_append, List.flatMap_singleton]
      rw [decodeLoop_escapes, hbytes, ih, List.append_assoc, List.singleton_append]

/-- **A text that was encoded is decoded to itself.** -/
theorem urlDecode_encode (t : List Char) : urlDecode replace (encode t) = .ok t :=
  decodeLoop_encode replace t []

end Decode

end Uri
