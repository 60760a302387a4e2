import OfficeAuto.Base.Base64
import OfficeAuto.Text.Decimal
import OfficeAuto.Text.Search
import OfficeAuto.Text.Split

/-!
# Hashed passwords

`cryptUTF8` stores a password as a text of type, salt and digest, in one of two formats, and
`comparePassword` reads the three back from the text by its first characters. The legacy format
has a type and a digest in hexadecimal digits.

The digests, the key derivation and the codecs are those of the libraries (`Libraries`).

The derived keys have four types with a label of their own. The label of every other type is the
one of SHA-1, and the comparison derives a key of that type then. `comparesRight_iff` says that
this is all that goes wrong, but for a salt that the default charset does not read back.
-/

namespace OfficeAuto.Base

open Decimal

/-- The functions from outside, with what is documented of them. -/
structure Libraries where
  /-- `MessageDigest.getInstance`, and `none` for `NoSuchAlgorithmException`. -/
  messageDigest : List Char → Option (List UInt8 → List UInt8)
  /-- `SecretKeyFactory.getInstance` with `generateSecret` for a password, a salt, a number of
  iterations and the length of the key in bits. -/
  secretKeyFactory : List Char → Option (List Char → List UInt8 → Int32 → ℕ → List UInt8)
  encodeBase64 : List UInt8 → List Char
  decodeBase64 : List Char → List UInt8
  encodeBase64URLSafeString : List UInt8 → List Char
  encodeHex : List UInt8 → List Char
  /-- Names of digests are of letters, digits, dashes, slashes and dots. -/
  name_digest : ∀ type, (messageDigest type).isSome → '$' ∉ type ∧ '}' ∉ type
  length_key : ∀ type key password salt iterations bytes, secretKeyFactory type = some key →
    (key password salt iterations (bytes * 8)).length = bytes
  decode_encode : ∀ bytes, decodeBase64 (encodeBase64 bytes) = bytes
  encode_ne_nil : ∀ bytes, bytes ≠ [] → encodeBase64 bytes ≠ []
  symbol_encode : ∀ bytes, '$' ∉ encodeBase64 bytes
  encodeURL_injective : Function.Injective encodeBase64URLSafeString
  symbol_encodeURL : ∀ bytes, '+' ∉ encodeBase64URLSafeString bytes
  encodeHex_injective : Function.Injective encodeHex

namespace HashCrypt

/-! ### Storing a password -/

def utf8 (s : List Char) : List UInt8 := s.flatMap String.utf8EncodeChar

def pbkdf2Sha1 : List Char := "PBKDF2-SHA1".toList
def pbkdf2Sha256 : List Char := "PBKDF2-SHA256".toList
def pbkdf2Sha384 : List Char := "PBKDF2-SHA384".toList
def pbkdf2Sha512 : List Char := "PBKDF2-SHA512".toList

def getCryptedBytes (lib : Libraries) (hashType salt : List Char) (bytes : List UInt8) :
    Option (List Char) :=
  (lib.messageDigest hashType).map fun digest =>
    (lib.encodeBase64URLSafeString (digest (utf8 salt ++ bytes))).map fun c =>
      if c = '+' then '.' else c

def cryptCharSet : List Char :=
  "abcdefghijklmnopqrstuvwxyzABCDEFGHIJKLMNOPQRSTUVWXYZ0123456789./".toList

def cryptBytes (lib : Libraries) (random : List Char) (hashType salt : Option (List Char))
    (bytes : List UInt8) : Option (List Char) :=
  let hashType := hashType.getD "SHA".toList
  let salt := salt.getD random
  (getCryptedBytes lib hashType salt bytes).map fun crypted =>
    '$' :: (hashType ++ '$' :: (salt ++ '$' :: crypted))

/-- The constructor of `PBEKeySpec` throws where it gets a parameter that is empty or not
positive. -/
def pbeKeySpec (salt : List UInt8) (iterations : Int32) (keyLength : ℕ) : Bool :=
  !salt.isEmpty && 0 < iterations && 0 < keyLength

def pbkdf2Type (hashType : List Char) : List Char :=
  if hashType = "PBKDF2WithHmacSHA1".toList then pbkdf2Sha1
  else if hashType = "PBKDF2WithHmacSHA256".toList then pbkdf2Sha256
  else if hashType = "PBKDF2WithHmacSHA384".toList then pbkdf2Sha384
  else if hashType = "PBKDF2WithHmacSHA512".toList then pbkdf2Sha512
  else pbkdf2Sha1

def getSalt (bytes : List Int8) : List Char :=
  '[' :: ([',', ' '].intercalate (bytes.map fun b => showInt b.toInt) ++ [']'])

def pbkdf2Salt (drawn : List Int8) (salt : Option (List Char)) : List Char :=
  if salt.getD [] = [] then getSalt drawn else salt.getD []

def pbkdf2HashCrypt (lib : Libraries) (iterations : Int32) (drawn : List Int8)
    (hashType : List Char) (salt : Option (List Char)) (value : List Char) :
    Option (List Char) :=
  let salt := pbkdf2Salt drawn salt
  if pbeKeySpec (utf8 salt) iterations (64 * 4) then
    (lib.secretKeyFactory hashType).map fun key =>
      let hash := lib.encodeBase64 (key value (utf8 salt) iterations (64 * 4))
      '{' :: (pbkdf2Type hashType ++ '}' :: (showInt iterations.toInt ++
        '$' :: (Base64.base64Encode (utf8 salt) ++ '$' :: hash)))
  else none

/-- `none` is an exception. What is drawn at random makes a salt where there is none. -/
def cryptUTF8 (lib : Libraries) (iterations : Int32) (random : List Char) (drawn : List Int8)
    (hashType : List Char) (salt : Option (List Char)) (value : List Char) :
    Option (List Char) :=
  if "PBKDF2".toList <+: hashType then
    pbkdf2HashCrypt lib iterations drawn hashType salt value
  else cryptBytes lib random (some hashType) salt (utf8 value)

def digestHash (lib : Libraries) (hashType : List Char) (bytes : List UInt8) :
    Option (List Char) :=
  (lib.messageDigest hashType).map fun digest =>
    '{' :: (hashType ++ '}' :: lib.encodeHex (digest bytes))

/-! ### Comparing a password -/

def hexChar : List Char :=
  ['0', '1', '2', '3', '4', '5', '6', '7', '8', '9', 'a', 'b', 'c', 'd', 'e', 'f']

def encodeInt (i : ℕ) : List Char := [hexChar.getD (i / 16) '0', hexChar.getD (i % 16) '0']

def oldFunnyHex (bytes : List UInt8) : List Char :=
  bytes.flatMap fun b => encodeInt (if b.toNat < 128 then b.toNat else 127 + (256 - b.toNat))

def doCompareTypePrefix (lib : Libraries) (crypted : List Char) (bytes : List UInt8) :
    Option Bool :=
  let typeEnd := Text.indexOf '}' crypted
  (Text.substring crypted 1 typeEnd).bind fun hashType =>
    (Text.substring crypted (typeEnd + 1) crypted.length).bind fun hashed =>
      (lib.messageDigest hashType).map fun digest =>
        hashed = lib.encodeHex (digest bytes) || hashed = oldFunnyHex (digest bytes)

/-- An index that is not found is an exception in the substring after it. -/
def doComparePosix (lib : Libraries) (crypted : List Char) (bytes : List UInt8) : Option Bool :=
  (Text.indexOfFrom ['$'] crypted 1).bind fun typeEnd =>
    (Text.indexOfFrom ['$'] crypted (typeEnd + 1)).bind fun saltEnd =>
      (Text.substring crypted 1 typeEnd).bind fun hashType =>
        (Text.substring crypted (typeEnd + 1) saltEnd).bind fun salt =>
          (Text.substring crypted (saltEnd + 1) crypted.length).bind fun hashed =>
            (getCryptedBytes lib hashType salt bytes).map fun crypted => hashed = crypted

def doCompareBare (lib : Libraries) (crypted defaultCrypt : List Char) (bytes : List UInt8) :
    Option Bool :=
  (lib.messageDigest defaultCrypt).map fun digest => crypted = oldFunnyHex (digest bytes)

def pbkdf2Algorithm (hash : List Char) : List Char :=
  if hash = "SHA256".toList then "PBKDF2WithHmacSHA256".toList
  else if hash = "SHA384".toList then "PBKDF2WithHmacSHA384".toList
  else if hash = "SHA512".toList then "PBKDF2WithHmacSHA512".toList
  else "PBKDF2WithHmacSHA1".toList

def sameBytes (hash testHash : List UInt8) : Bool :=
  (hash.zip testHash).foldl (fun diff p => diff ||| (p.1 ^^^ p.2).toNat)
    (hash.length ^^^ testHash.length) = 0

def doComparePbkdf2 (lib : Libraries) (newString : List UInt8 → List Char)
    (crypted password : List Char) : Option Bool :=
  let typeEnd := Text.indexOf '}' crypted
  let parts := Text.split '$' crypted
  (Text.substring crypted 1 typeEnd).bind fun hashType =>
    parts[0]?.bind fun part₀ =>
      (Text.substring part₀ (typeEnd + 1) part₀.length).bind fun digits =>
        (parseInt digits).bind fun iterations =>
          (parts[1]?.bind Base64.base64Decode).bind fun decoded =>
            parts[2]?.bind fun part₂ =>
              let salt := utf8 (newString decoded)
              let hash := lib.decodeBase64 part₂
              if pbeKeySpec salt iterations (hash.length * 8) then
                let algorithm := pbkdf2Algorithm
                  (hashType.drop (Text.indexOf '-' hashType + 1).toNat)
                (lib.secretKeyFactory algorithm).map fun key =>
                  sameBytes hash (key password salt iterations (hash.length * 8))
              else none

def comparePassword (lib : Libraries) (newString : List UInt8 → List Char)
    (crypted defaultCrypt password : List Char) : Option Bool :=
  if "\x7bPBKDF2".toList <+: crypted then doComparePbkdf2 lib newString crypted password
  else if ['{'] <+: crypted then doCompareTypePrefix lib crypted (utf8 password)
  else if ['$'] <+: crypted then doComparePosix lib crypted (utf8 password)
  else doCompareBare lib crypted defaultCrypt (utf8 password)

/-! ### What is stored is read back -/

theorem find_symbol {c : Char} {s : List Char} (hs : c ∉ s) (rest : List Char) :
    Text.find [c] (s ++ c :: rest) = some s.length := by
  induction s with
  | nil => simp [Text.find]
  | cons d s ih =>
    rw [List.mem_cons, not_or] at hs
    rw [List.cons_append, Text.find, if_neg (by simpa using hs.1), ih hs.2]
    rfl

theorem getCryptedBytes_eq {lib : Libraries} {hashType : List Char}
    {digest : List UInt8 → List UInt8} (h : lib.messageDigest hashType = some digest)
    (salt : List Char) (bytes : List UInt8) : getCryptedBytes lib hashType salt bytes =
      some (lib.encodeBase64URLSafeString (digest (utf8 salt ++ bytes))) := by
  have hmap : ∀ s : List Char, '+' ∉ s → (s.map fun c => if c = '+' then '.' else c) = s := by
    intro s hs
    refine (List.map_congr_left fun c hc => ?_).trans s.map_id
    have hne : c ≠ '+' := by
      rintro rfl
      exact hs hc
    rw [if_neg hne, id]
  rw [getCryptedBytes, h, Option.map_some, hmap _ (lib.symbol_encodeURL _)]

/-- **The posix format is read back**, type, salt and digest. -/
theorem doComparePosix_stored (lib : Libraries) {hashType salt : List Char}
    (htype : '$' ∉ hashType) (hsalt : '$' ∉ salt) (hashed : List Char) (bytes : List UInt8) :
    doComparePosix lib ('$' :: (hashType ++ '$' :: (salt ++ '$' :: hashed))) bytes =
      (getCryptedBytes lib hashType salt bytes).map fun crypted => decide (hashed = crypted) := by
  set stored := '$' :: (hashType ++ '$' :: (salt ++ '$' :: hashed)) with hstored
  have hcut : stored = ('$' :: (hashType ++ ['$'])) ++ (salt ++ ('$' :: hashed)) := by
    simp [hstored]
  have hcut' : stored = ('$' :: (hashType ++ '$' :: (salt ++ ['$']))) ++ hashed := by
    simp [hstored]
  have htypeEnd : Text.indexOfFrom ['$'] stored 1 = some (1 + hashType.length) := by
    rw [Text.indexOfFrom, hstored, List.drop_one, List.tail_cons, find_symbol htype]
    rfl
  have hsaltEnd : Text.indexOfFrom ['$'] stored (1 + hashType.length + 1) =
      some (1 + hashType.length + 1 + salt.length) := by
    rw [Text.indexOfFrom, hcut, List.drop_left' (by simp; omega), find_symbol hsalt]
    rfl
  have htypeText : Text.substring stored 1 (1 + hashType.length : ℕ) = some hashType :=
    Text.substring_middle ['$'] hashType _ (by simp) (by simp)
  have hsaltText : Text.substring stored ((1 + hashType.length : ℕ) + 1)
      (1 + hashType.length + 1 + salt.length : ℕ) = some salt := by
    rw [hcut]
    exact Text.substring_middle _ _ _ (by simp; omega) (by simp; omega)
  have hhashed : Text.substring stored ((1 + hashType.length + 1 + salt.length : ℕ) + 1)
      stored.length = some hashed := by
    have hlength : ((1 + hashType.length + 1 + salt.length : ℕ) + 1 : ℤ) =
        (('$' :: (hashType ++ '$' :: (salt ++ ['$']))).length : ℕ) := by
      simp
      omega
    rw [hcut', hlength]
    exact Text.substring_right _ _
  rw [doComparePosix, htypeEnd, Option.bind_some, hsaltEnd, Option.bind_some, htypeText,
    Option.bind_some, hsaltText, Option.bind_some, hhashed, Option.bind_some]

/-- **The legacy format is read back**, type and digest. -/
theorem doCompareTypePrefix_stored (lib : Libraries) {hashType : List Char}
    (htype : '}' ∉ hashType) (hashed : List Char) (bytes : List UInt8) :
    doCompareTypePrefix lib ('{' :: (hashType ++ '}' :: hashed)) bytes =
      (lib.messageDigest hashType).map fun digest =>
        (decide (hashed = lib.encodeHex (digest bytes)) ||
          decide (hashed = oldFunnyHex (digest bytes))) := by
  have hmem : '}' ∉ '{' :: hashType := by
    rw [List.mem_cons, not_or]
    exact ⟨by decide, htype⟩
  have htypeEnd : Text.indexOf '}' ('{' :: (hashType ++ '}' :: hashed)) =
      ('{' :: hashType).length := Text.indexOf_append_cons hmem hashed
  have htypeText : Text.substring ('{' :: (hashType ++ '}' :: hashed)) 1
      ('{' :: hashType).length = some hashType :=
    Text.substring_middle ['{'] hashType _ (by simp) (by simp; omega)
  have hhashed : Text.substring ('{' :: (hashType ++ '}' :: hashed))
      (('{' :: hashType).length + 1) ('{' :: (hashType ++ '}' :: hashed)).length =
        some hashed := by
    have hcut : '{' :: (hashType ++ '}' :: hashed) = ('{' :: (hashType ++ ['}'])) ++ hashed := by
      simp
    have hlength : ((('{' :: hashType).length : ℕ) + 1 : ℤ) =
        (('{' :: (hashType ++ ['}'])).length : ℕ) := by
      simp
    rw [hcut, hlength]
    exact Text.substring_right _ _
  rw [doCompareTypePrefix, htypeEnd, htypeText, Option.bind_some, hhashed, Option.bind_some]

theorem symbol_pbkdf2Type (hashType : List Char) :
    '}' ∉ pbkdf2Type hashType ∧ '$' ∉ pbkdf2Type hashType := by
  unfold pbkdf2Type
  split_ifs <;> decide

theorem symbol_showInt (n : ℤ) : '$' ∉ showInt n := by
  intro h
  rcases mem_showInt h with h | h
  · exact absurd h (by decide)
  · exact absurd h (by decide)

theorem symbol_base64Encode (bytes : List UInt8) : '$' ∉ Base64.base64Encode bytes := by
  intro h
  rcases Base64.mem_base64Encode h with h | h
  · exact absurd h (by decide)
  · exact absurd h (by decide)

def comparedType (hashType : List Char) : List Char :=
  pbkdf2Algorithm
    ((pbkdf2Type hashType).drop (Text.indexOf '-' (pbkdf2Type hashType) + 1).toNat)

/-- **The format of derived keys is read back**, label, iterations, salt and key; the salt as the
default charset reads it. -/
theorem doComparePbkdf2_stored (lib : Libraries) (newString : List UInt8 → List Char)
    (hashType : List Char) (iterations : Int32) {salt hash : List UInt8} (hsalt : salt ≠ [])
    (hhash : hash ≠ []) (password : List Char) :
    doComparePbkdf2 lib newString ('{' :: (pbkdf2Type hashType ++ '}' ::
        (showInt iterations.toInt ++ '$' :: (Base64.base64Encode salt ++ '$' ::
          lib.encodeBase64 hash)))) password =
      if pbeKeySpec (utf8 (newString salt)) iterations (hash.length * 8) then
        (lib.secretKeyFactory (comparedType hashType)).map fun key =>
          sameBytes hash (key password (utf8 (newString salt)) iterations (hash.length * 8))
      else none := by
  obtain ⟨hbrace, hdollar⟩ := symbol_pbkdf2Type hashType
  set label := pbkdf2Type hashType with hlabel
  set digits := showInt iterations.toInt with hdigits
  set stored := '{' :: (label ++ '}' :: (digits ++ '$' :: (Base64.base64Encode salt ++ '$' ::
    lib.encodeBase64 hash))) with hstored
  have hmem : '}' ∉ '{' :: label := by
    rw [List.mem_cons, not_or]
    exact ⟨by decide, hbrace⟩
  have htypeEnd : Text.indexOf '}' stored = ('{' :: label).length :=
    Text.indexOf_append_cons hmem _
  have htypeText : Text.substring stored 1 ('{' :: label).length = some label :=
    Text.substring_middle ['{'] label _ (by simp) (by simp; omega)
  have hparts : Text.split '$' stored =
      ['{' :: (label ++ '}' :: digits), Base64.base64Encode salt, lib.encodeBase64 hash] := by
    have hcut := Text.split_intercalate (c := '$') ['{' :: (label ++ '}' :: digits),
      Base64.base64Encode salt] (p := lib.encodeBase64 hash) (by
        simp only [List.forall_mem_cons]
        refine ⟨?_, symbol_base64Encode salt, fun _ h => absurd h List.not_mem_nil⟩
        simp [hdollar, hdigits, symbol_showInt]) (lib.symbol_encode hash)
        (lib.encode_ne_nil hash hhash)
    refine Eq.trans ?_ hcut
    simp [hstored, List.intercalate]
  have hiterations : Text.substring ('{' :: (label ++ '}' :: digits))
      (('{' :: label).length + 1) ('{' :: (label ++ '}' :: digits)).length = some digits := by
    have hcut : '{' :: (label ++ '}' :: digits) = ('{' :: (label ++ ['}'])) ++ digits := by
      simp
    have hlength : ((('{' :: label).length : ℕ) + 1 : ℤ) =
        (('{' :: (label ++ ['}'])).length : ℕ) := by
      simp
    rw [hcut, hlength]
    exact Text.substring_right _ _
  have hparse : parseInt digits = some iterations := parseInt_showInt iterations
  rw [doComparePbkdf2, htypeEnd, htypeText, Option.bind_some, hparts]
  simp only [List.getElem?_cons_zero, List.getElem?_cons_succ, Option.bind_some, hiterations,
    hparse, Base64.base64Decode_base64Encode hsalt, lib.decode_encode]
  rfl

theorem xor_eq_zero_iff (a b : ℕ) : a ^^^ b = 0 ↔ a = b := by
  constructor
  · intro h
    calc a = a ^^^ (b ^^^ b) := by rw [Nat.xor_self, Nat.xor_zero]
      _ = b := by rw [← Nat.xor_assoc, h, Nat.zero_xor]
  · rintro rfl
    exact Nat.xor_self a

/-- **Two keys differ in no bit** exactly if they are equal. -/
theorem sameBytes_iff (hash testHash : List UInt8) : sameBytes hash testHash = true ↔
    hash = testHash := by
  have hfold : ∀ (ps : List (UInt8 × UInt8)) (n : ℕ),
      ps.foldl (fun diff p => diff ||| (p.1 ^^^ p.2).toNat) n = 0 ↔
        n = 0 ∧ ∀ p ∈ ps, p.1 = p.2 := by
    intro ps
    -- a byte that differs leaves a bit in `diff`, and no later one takes it out
    induction ps with
    | nil => intro n; simp
    | cons p ps ih =>
      intro n
      rw [List.foldl_cons, ih, Nat.or_eq_zero_iff, List.forall_mem_cons, and_assoc]
      have hxor : (p.1 ^^^ p.2).toNat = 0 ↔ p.1 = p.2 := by
        rw [UInt8.toNat_xor, xor_eq_zero_iff, UInt8.toNat_inj]
      rw [hxor]
  rw [sameBytes, decide_eq_true_iff, hfold, xor_eq_zero_iff]
  constructor
  · rintro ⟨hlength, hall⟩
    refine List.ext_getElem hlength fun i hi hi' => ?_
    have hmem : (hash[i], testHash[i]) ∈ hash.zip testHash := by
      rw [List.mem_iff_getElem]
      exact ⟨i, by rw [List.length_zip]; omega, List.getElem_zip⟩
    exact hall _ hmem
  · rintro rfl
    refine ⟨rfl, fun p hp => ?_⟩
    obtain ⟨i, hi, rfl⟩ := List.mem_iff_getElem.mp hp
    rw [List.getElem_zip]

/-! ### The comparison is right -/

/-- The digest of a salt and a password, before it is written as a text. -/
def underlyingDigest (lib : Libraries) (iterations : Int32) (random : List Char)
    (drawn : List Int8) (hashType : List Char) (salt : Option (List Char)) (value : List Char) :
    Option (List UInt8) :=
  if "PBKDF2".toList <+: hashType then
    (lib.secretKeyFactory hashType).map fun key =>
      key value (utf8 (pbkdf2Salt drawn salt)) iterations (64 * 4)
  else (lib.messageDigest hashType).map fun digest =>
    digest (utf8 (salt.getD random) ++ utf8 value)

/-- What is stored of a password compares equal to the passwords of the same digest, and to no
others. The legacy format has no salt, and a digest whose old hexadecimal digits are the stored ones
compares equal too. -/
structure ComparesRight (lib : Libraries) (newString : List UInt8 → List Char)
    (iterations : Int32) (random : List Char) (drawn : List Int8) (hashType : List Char)
    (salt : Option (List Char)) : Prop where
  crypt : ∀ p q defaultCrypt stored,
    cryptUTF8 lib iterations random drawn hashType salt p = some stored →
    comparePassword lib newString stored defaultCrypt q =
      some (decide (underlyingDigest lib iterations random drawn hashType salt p =
        underlyingDigest lib iterations random drawn hashType salt q))
  legacy : ∀ p q defaultCrypt stored digest, ¬"PBKDF2".toList <+: hashType →
    lib.messageDigest hashType = some digest → digestHash lib hashType (utf8 p) = some stored →
    comparePassword lib newString stored defaultCrypt q =
      some (decide (digest (utf8 p) = digest (utf8 q)) ||
        decide (lib.encodeHex (digest (utf8 p)) = oldFunnyHex (digest (utf8 q))))

theorem comparePassword_posix (lib : Libraries) (newString : List UInt8 → List Char)
    (rest defaultCrypt password : List Char) :
    comparePassword lib newString ('$' :: rest) defaultCrypt password =
      doComparePosix lib ('$' :: rest) (utf8 password) := by
  have hpbkdf2 : ¬"\x7bPBKDF2".toList <+: '$' :: rest := fun hp =>
    absurd (List.cons_prefix_cons.mp hp).1 (by decide)
  have htype : ¬['{'] <+: '$' :: rest := fun hp =>
    absurd (List.cons_prefix_cons.mp hp).1 (by decide)
  rw [comparePassword, if_neg hpbkdf2, if_neg htype,
    if_pos (List.cons_prefix_cons.mpr ⟨rfl, List.nil_prefix⟩)]

theorem comparePassword_typePrefix (lib : Libraries) (newString : List UInt8 → List Char)
    {rest : List Char} (h : ¬"PBKDF2".toList <+: rest) (defaultCrypt password : List Char) :
    comparePassword lib newString ('{' :: rest) defaultCrypt password =
      doCompareTypePrefix lib ('{' :: rest) (utf8 password) := by
  have hpbkdf2 : ¬"\x7bPBKDF2".toList <+: '{' :: rest := fun hp =>
    h (List.cons_prefix_cons.mp hp).2
  rw [comparePassword, if_neg hpbkdf2,
    if_pos (List.cons_prefix_cons.mpr ⟨rfl, List.nil_prefix⟩)]

theorem comparePassword_pbkdf2 (lib : Libraries) (newString : List UInt8 → List Char)
    {rest : List Char} (h : "PBKDF2".toList <+: rest) (defaultCrypt password : List Char) :
    comparePassword lib newString ('{' :: rest) defaultCrypt password =
      doComparePbkdf2 lib newString ('{' :: rest) password := by
  have hpbkdf2 : "\x7bPBKDF2".toList <+: '{' :: rest :=
    List.cons_prefix_cons.mpr ⟨rfl, h⟩
  rw [comparePassword, if_pos hpbkdf2]

theorem legacy_right {lib : Libraries} (newString : List UInt8 → List Char)
    {hashType p stored : List Char} {digest : List UInt8 → List UInt8}
    (h : ¬"PBKDF2".toList <+: hashType) (hdigest : lib.messageDigest hashType = some digest)
    (hstored : digestHash lib hashType (utf8 p) = some stored) (q defaultCrypt : List Char) :
    comparePassword lib newString stored defaultCrypt q =
      some (decide (digest (utf8 p) = digest (utf8 q)) ||
        decide (lib.encodeHex (digest (utf8 p)) = oldFunnyHex (digest (utf8 q)))) := by
  have htype : '}' ∉ hashType := (lib.name_digest hashType (by rw [hdigest]; rfl)).2
  rw [digestHash, hdigest, Option.map_some] at hstored
  injection hstored with hstored
  have hprefix : ¬"PBKDF2".toList <+: hashType ++ '}' :: lib.encodeHex (digest (utf8 p)) := by
    intro hp
    rcases List.prefix_or_prefix_of_prefix hp (List.prefix_append hashType _) with hp' | hp'
    · exact h hp'
    · obtain ⟨t, ht⟩ := hp'
      rw [← ht, List.prefix_append_right_inj] at hp
      cases t with
      | nil => exact h (by rw [← ht, List.append_nil])
      | cons c t =>
        have hmem : '}' ∈ "PBKDF2".toList := by
          rw [← ht, (List.cons_prefix_cons.mp hp).1]
          simp
        exact absurd hmem (by decide)
  rw [← hstored, comparePassword_typePrefix lib newString hprefix,
    doCompareTypePrefix_stored lib htype, hdigest, Option.map_some]
  simp only [lib.encodeHex_injective.eq_iff]

theorem crypt_right_digest {lib : Libraries} (newString : List UInt8 → List Char)
    (iterations : Int32) {random : List Char} (drawn : List Int8) {hashType : List Char}
    {salt : Option (List Char)} (hrandom : ∀ c ∈ random, c ∈ cryptCharSet)
    (hsalt : ∀ s ∈ salt, '$' ∉ s) (h : ¬"PBKDF2".toList <+: hashType) {p stored : List Char}
    (hstored : cryptUTF8 lib iterations random drawn hashType salt p = some stored)
    (q defaultCrypt : List Char) :
    comparePassword lib newString stored defaultCrypt q =
      some (decide (underlyingDigest lib iterations random drawn hashType salt p =
        underlyingDigest lib iterations random drawn hashType salt q)) := by
  have husedSalt : '$' ∉ salt.getD random := by
    cases salt with
    | none => exact fun hc => absurd (hrandom _ hc) (by decide)
    | some s => exact hsalt s rfl
  rw [cryptUTF8, if_neg h, cryptBytes] at hstored
  cases hdigest : lib.messageDigest hashType with
  | none =>
    simp [getCryptedBytes, hdigest] at hstored
  | some digest =>
    have htype : '$' ∉ hashType := (lib.name_digest hashType (by rw [hdigest]; rfl)).1
    rw [Option.getD_some, getCryptedBytes_eq hdigest, Option.map_some] at hstored
    injection hstored with hstored
    rw [← hstored, comparePassword_posix, doComparePosix_stored lib htype husedSalt,
      getCryptedBytes_eq hdigest, Option.map_some, underlyingDigest, if_neg h, underlyingDigest,
      if_neg h, hdigest, Option.map_some, Option.map_some]
    simp only [lib.encodeURL_injective.eq_iff, Option.some.injEq]

theorem pbeKeySpec_iff {salt : List UInt8} {iterations : Int32} {keyLength : ℕ} :
    pbeKeySpec salt iterations keyLength = true ↔
      salt ≠ [] ∧ 0 < iterations ∧ 0 < keyLength := by
  simp [pbeKeySpec, and_assoc]

def labelledTypes : List (List Char) :=
  ["PBKDF2WithHmacSHA1".toList, "PBKDF2WithHmacSHA256".toList, "PBKDF2WithHmacSHA384".toList,
    "PBKDF2WithHmacSHA512".toList]

theorem comparedType_of_labelled {hashType : List Char} (h : hashType ∈ labelledTypes) :
    comparedType hashType = hashType := by
  rw [labelledTypes, List.mem_cons, List.mem_cons, List.mem_cons, List.mem_singleton] at h
  rcases h with rfl | rfl | rfl | rfl <;> decide

theorem comparedType_mem (hashType : List Char) : comparedType hashType ∈ labelledTypes := by
  unfold comparedType pbkdf2Type
  split_ifs <;> decide

theorem prefix_pbkdf2Type (hashType rest : List Char) :
    "PBKDF2".toList <+: pbkdf2Type hashType ++ rest := by
  refine List.IsPrefix.trans ?_ (List.prefix_append _ _)
  unfold pbkdf2Type
  split_ifs <;> decide

theorem utf8_ne_nil {s : List Char} (h : s ≠ []) : utf8 s ≠ [] := by
  obtain ⟨c, s, rfl⟩ := List.exists_cons_of_ne_nil h
  intro hnil
  have hc : String.utf8EncodeChar c = [] := (List.append_eq_nil_iff.mp hnil).1
  have hlength := congrArg List.length hc
  rw [String.length_utf8EncodeChar, List.length_nil] at hlength
  exact absurd hlength c.utf8Size_pos.ne'

theorem pbkdf2Salt_ne_nil (drawn : List Int8) (salt : Option (List Char)) :
    pbkdf2Salt drawn salt ≠ [] := by
  unfold pbkdf2Salt
  split_ifs with h
  · exact List.cons_ne_nil _ _
  · exact h

theorem comparePassword_key {lib : Libraries} {iterations : Int32} {random : List Char}
    {drawn : List Int8} {hashType : List Char} {salt : Option (List Char)} {p stored : List Char}
    (newString : List UInt8 → List Char) (h : "PBKDF2".toList <+: hashType)
    (hstored : cryptUTF8 lib iterations random drawn hashType salt p = some stored) :
    0 < iterations ∧ ∃ key, lib.secretKeyFactory hashType = some key ∧
      ∀ defaultCrypt q, comparePassword lib newString stored defaultCrypt q =
        if pbeKeySpec (utf8 (newString (utf8 (pbkdf2Salt drawn salt)))) iterations (64 * 4) then
          (lib.secretKeyFactory (comparedType hashType)).map fun testKey =>
            sameBytes (key p (utf8 (pbkdf2Salt drawn salt)) iterations (64 * 4))
              (testKey q (utf8 (newString (utf8 (pbkdf2Salt drawn salt)))) iterations (64 * 4))
        else none := by
  rw [cryptUTF8, if_pos h, pbkdf2HashCrypt] at hstored
  split_ifs at hstored with hspec
  obtain ⟨key, hkey, rfl⟩ := Option.map_eq_some_iff.mp hstored
  refine ⟨(pbeKeySpec_iff.mp hspec).2.1, key, hkey, fun defaultCrypt q => ?_⟩
  have hlength := lib.length_key hashType key p (utf8 (pbkdf2Salt drawn salt)) iterations 32 hkey
  have hne : key p (utf8 (pbkdf2Salt drawn salt)) iterations (64 * 4) ≠ [] := by
    intro hnil
    rw [hnil] at hlength
    cases hlength
  rw [comparePassword_pbkdf2 lib newString (prefix_pbkdf2Type hashType _),
    doComparePbkdf2_stored lib newString hashType iterations
      (utf8_ne_nil (pbkdf2Salt_ne_nil drawn salt)) hne, hlength]

/-- **A derived key compares right** if its type has a label and its salt comes back. -/
theorem crypt_right_key {lib : Libraries} {newString : List UInt8 → List Char}
    {iterations : Int32} {random : List Char} {drawn : List Int8} {hashType : List Char}
    {salt : Option (List Char)} (h : "PBKDF2".toList <+: hashType)
    (hlabel : hashType ∈ labelledTypes)
    (hsalt : utf8 (newString (utf8 (pbkdf2Salt drawn salt))) = utf8 (pbkdf2Salt drawn salt))
    {p stored : List Char}
    (hstored : cryptUTF8 lib iterations random drawn hashType salt p = some stored)
    (q defaultCrypt : List Char) :
    comparePassword lib newString stored defaultCrypt q =
      some (decide (underlyingDigest lib iterations random drawn hashType salt p =
        underlyingDigest lib iterations random drawn hashType salt q)) := by
  obtain ⟨hpos, key, hkey, hcompare⟩ := comparePassword_key newString h hstored
  have hspec : pbeKeySpec (utf8 (pbkdf2Salt drawn salt)) iterations (64 * 4) = true :=
    pbeKeySpec_iff.mpr ⟨utf8_ne_nil (pbkdf2Salt_ne_nil drawn salt), hpos, by decide⟩
  rw [hcompare, comparedType_of_labelled hlabel, hkey, hsalt, if_pos hspec, Option.map_some,
    underlyingDigest, if_pos h, underlyingDigest, if_pos h, hkey, Option.map_some, Option.map_some,
    Option.some.injEq, Bool.eq_iff_iff, sameBytes_iff, decide_eq_true_iff, Option.some.injEq]

/-! ### Libraries that tell two keys apart -/

def base64UrlMap : List Char := Base64.base64EncMap.take 62 ++ ['-', '_']

def urlChar (n : UInt8) : Char := base64UrlMap.getD n.toNat '='

theorem idxOf_urlChar {n : UInt8} (hn : n.toNat < 64) :
    base64UrlMap.idxOf (urlChar n) = n.toNat := by
  have hall : ∀ k : Fin 64, base64UrlMap.idxOf (base64UrlMap.getD k.val '=') = k.val := by
    decide +kernel
  exact hall ⟨n.toNat, hn⟩

theorem urlChar_ne {n : UInt8} (hn : n.toNat < 64) : urlChar n ≠ '+' := by
  have hall : ∀ k : Fin 64, base64UrlMap.getD k.val '=' ≠ '+' := by decide +kernel
  exact hall ⟨n.toNat, hn⟩

theorem urlEncode_injective :
    Function.Injective fun bytes => (Base64.sextets bytes).map urlChar := by
  intro data data' h
  refine Base64.sextets_injective ?_
  have hback : ∀ data, ((Base64.sextets data).map urlChar).map (fun c => base64UrlMap.idxOf c) =
      (Base64.sextets data).map UInt8.toNat := by
    intro data
    rw [List.map_map]
    exact List.map_congr_left fun n hn => idxOf_urlChar (Base64.sextets_lt data n hn)
  have hnat : (Base64.sextets data).map UInt8.toNat = (Base64.sextets data').map UInt8.toNat := by
    rw [← hback, ← hback]
    exact congrArg _ h
  exact List.map_injective_iff.mpr (fun a b hab => UInt8.toNat_inj.mp hab) hnat

theorem encodeInt_injective {a b : UInt8} (h : encodeInt a.toNat = encodeInt b.toNat) : a = b := by
  have hall : ∀ k : Fin 256, hexChar.idxOf (hexChar.getD (k.val / 16) '0') * 16 +
      hexChar.idxOf (hexChar.getD (k.val % 16) '0') = k.val := by decide +kernel
  rw [encodeInt, encodeInt, List.cons.injEq, List.cons.injEq] at h
  have ha := hall ⟨a.toNat, a.toNat_lt⟩
  have hb := hall ⟨b.toNat, b.toNat_lt⟩
  simp only [h.1, h.2.1] at ha
  exact UInt8.toNat_inj.mp (ha.symm.trans hb)

theorem hexEncode_injective :
    Function.Injective fun bytes : List UInt8 => bytes.flatMap fun b => encodeInt b.toNat := by
  intro as bs h
  induction as generalizing bs with
  | nil =>
    cases bs with
    | nil => rfl
    | cons b bs => cases h
  | cons a as ih =>
    cases bs with
    | nil => cases h
    | cons b bs =>
      obtain ⟨hhead, htail⟩ := List.append_inj (h : encodeInt a.toNat ++ _ = encodeInt b.toNat ++ _)
        rfl
      rw [encodeInt_injective hhead, ih htail]

/-- The standard encodings, and keys that are all ones where the type and the salt are marked and
all zeros elsewhere. -/
def markedLibraries (mark : List Char → List UInt8 → Bool) : Libraries where
  messageDigest _ := none
  secretKeyFactory type :=
    some fun _ salt _ bits => List.replicate (bits / 8) (if mark type salt then 1 else 0)
  encodeBase64 := Base64.base64Encode
  decodeBase64 s := (Base64.base64Decode s).getD []
  encodeBase64URLSafeString bytes := (Base64.sextets bytes).map urlChar
  encodeHex bytes := bytes.flatMap fun b => encodeInt b.toNat
  name_digest _ h := absurd h Bool.false_ne_true
  length_key type key password salt iterations bytes h := by
    injection h with h
    rw [← h, List.length_replicate, Nat.mul_div_cancel _ (by decide)]
  decode_encode bytes := by
    by_cases h : bytes = []
    · rw [h]
      rfl
    · rw [Base64.base64Decode_base64Encode h, Option.getD_some]
  encode_ne_nil _ := Base64.base64Encode_ne_nil
  symbol_encode := symbol_base64Encode
  encodeURL_injective := urlEncode_injective
  symbol_encodeURL bytes h := by
    obtain ⟨n, hn, heq⟩ := List.mem_map.mp h
    exact urlChar_ne (Base64.sextets_lt bytes n hn) heq
  encodeHex_injective := hexEncode_injective

theorem not_comparesRight_marked (mark : List Char → List UInt8 → Bool)
    {newString : List UInt8 → List Char} {iterations : Int32} {random : List Char}
    {drawn : List Int8} {hashType : List Char} {salt : Option (List Char)}
    (h : "PBKDF2".toList <+: hashType) (hpos : 0 < iterations)
    (hmark : mark hashType (utf8 (pbkdf2Salt drawn salt)) = true)
    (hmiss : mark (comparedType hashType) (utf8 (newString (utf8 (pbkdf2Salt drawn salt)))) =
      false) :
    ¬ComparesRight (markedLibraries mark) newString iterations random drawn hashType salt := by
  intro hright
  have hspec : pbeKeySpec (utf8 (pbkdf2Salt drawn salt)) iterations (64 * 4) = true :=
    pbeKeySpec_iff.mpr ⟨utf8_ne_nil (pbkdf2Salt_ne_nil drawn salt), hpos, by decide⟩
  have hstored : ∃ stored, cryptUTF8 (markedLibraries mark) iterations random drawn hashType salt
      [] = some stored := by
    rw [cryptUTF8, if_pos h, pbkdf2HashCrypt, if_pos hspec]
    exact ⟨_, rfl⟩
  obtain ⟨stored, hstored⟩ := hstored
  obtain ⟨-, key, hkey, hcompare⟩ := comparePassword_key newString h hstored
  have hsame := hright.crypt [] [] [] stored hstored
  injection hkey with hkey
  rw [hcompare, decide_eq_true rfl] at hsame
  split_ifs at hsame
  have hkeys := (sameBytes_iff _ _).mp (Option.some.inj hsame)
  rw [← hkey] at hkeys
  simp only [hmark, hmiss] at hkeys
  exact absurd hkeys (by decide)

/-- **Exactly two things go wrong**: a type of derived keys without a label, and a salt that the
default charset does not read back. -/
theorem comparesRight_iff {newString : List UInt8 → List Char} {iterations : Int32}
    {random : List Char} {drawn : List Int8} {hashType : List Char} {salt : Option (List Char)}
    (hrandom : ∀ c ∈ random, c ∈ cryptCharSet) (hsalt : ∀ s ∈ salt, '$' ∉ s) :
    (∀ lib, ComparesRight lib newString iterations random drawn hashType salt) ↔
      ¬"PBKDF2".toList <+: hashType ∨ iterations ≤ 0 ∨ hashType ∈ labelledTypes ∧
        utf8 (newString (utf8 (pbkdf2Salt drawn salt))) = utf8 (pbkdf2Salt drawn salt) := by
  constructor
  · intro hright
    -- a library whose digests tell the two types apart compares a password wrongly
    by_contra hcon
    rw [not_or, not_or, not_not, Int32.not_le] at hcon
    obtain ⟨h, hpos, hmiss⟩ := hcon
    by_cases hlabel : hashType ∈ labelledTypes
    · refine not_comparesRight_marked (fun _ bytes => bytes = utf8 (pbkdf2Salt drawn salt))
        h hpos (decide_eq_true rfl) ?_ (hright _)
      exact decide_eq_false fun heq => hmiss ⟨hlabel, heq⟩
    · refine not_comparesRight_marked (fun type _ => type = hashType) h hpos
        (decide_eq_true rfl) ?_ (hright _)
      exact decide_eq_false fun heq => hlabel (heq ▸ comparedType_mem hashType)
  · intro h lib
    refine ⟨fun p q defaultCrypt stored hstored => ?_, fun p q defaultCrypt stored digest htype
      hdigest hstored => legacy_right newString htype hdigest hstored q defaultCrypt⟩
    by_cases hkey : "PBKDF2".toList <+: hashType
    · rcases h with h | h | ⟨hlabel, hback⟩
      · exact absurd hkey h
      · exact absurd h (Int32.not_le.mpr (comparePassword_key newString hkey hstored).1)
      · exact crypt_right_key hkey hlabel hback hstored q defaultCrypt
    · exact crypt_right_digest newString iterations drawn hrandom hsalt hkey hstored q defaultCrypt

theorem comparesRight_iff_sha :
    (∀ lib, ComparesRight lib (fun bytes => bytes.map fun b => Char.ofNat b.toNat) 10000
      "xY3".toList [] "SHA".toList (some "ab".toList)) ↔
      ¬"PBKDF2".toList <+: "SHA".toList ∨ (10000 : Int32) ≤ 0 ∨ "SHA".toList ∈ labelledTypes ∧
        utf8 ((utf8 (pbkdf2Salt [] (some "ab".toList))).map fun b => Char.ofNat b.toNat) =
          utf8 (pbkdf2Salt [] (some "ab".toList)) :=
  comparesRight_iff
    (fun c hc => List.contains_iff_mem.mp (List.all_eq_true.mp
      (show ("xY3".toList.all fun c => cryptCharSet.contains c) = true from rfl) c hc))
    (by decide)

theorem not_comparesRight_sha224 :
    ¬ComparesRight (markedLibraries fun type _ => type = "PBKDF2WithHmacSHA224".toList)
      (fun bytes => bytes.map fun b => Char.ofNat b.toNat) 10000 [] []
      "PBKDF2WithHmacSHA224".toList (some "ab".toList) :=
  not_comparesRight_marked _ (by decide) (by decide) (by decide +kernel) (by decide +kernel)

end HashCrypt

end OfficeAuto.Base
