import OfficeAuto.Base.HashCrypt
import OfficeAuto.Logic.Result

/-!
# The storage handlers of the entity encryption

A value of an encrypted field is the text that one of four handlers has made of its bytes, under a
key that is stored under a hash of the key's name. The handlers stand for generations of data: the
one that uses Shiro is the one that writes, and the three that use DES are there for what has been
written before. `decryptValue_encryptValue` says that each of them decrypts what it encrypts.

Ciphers are parameters.
-/

namespace OfficeAuto.Entity.EntityCrypto

open OfficeAuto.Base

/-- What is thrown: an exception that is a `GeneralException`, or one of the runtime. -/
inductive Thrown
  | general (name : String)
  | runtime (name : String)
  deriving DecidableEq

abbrev Bytes := List UInt8

abbrev Text := List Char

inductive EncryptMethod
  | FALSE
  | TRUE
  | SALT
  deriving DecidableEq

/-- A cipher, with what it draws at random. -/
structure Cipher (Seed Key : Type) where
  encrypt : Seed → Key → Bytes → Except Thrown Bytes
  decrypt : Key → Bytes → Except Thrown Bytes

def Cipher.Inverts {Seed Key : Type} (C : Cipher Seed Key) : Prop :=
  ∀ seed key bytes encBytes, C.encrypt seed key bytes = .ok encBytes →
    C.decrypt key encBytes = .ok bytes

/-- The functions from outside that the handlers use, with `DesCrypt`. -/
structure CryptoServices (Seed Key V : Type) extends Libraries where
  /-- Every platform has SHA-1. -/
  isSome_sha : (messageDigest "SHA".toList).isSome
  /-- `getBytes` in the default charset. -/
  defaultBytes : Text → Bytes
  decodeHex : Text → Option Bytes
  decodeHex_encodeHex : ∀ bytes, decodeHex (encodeHex bytes) = some bytes
  digits_encodeHex : ∀ bytes, ∀ c ∈ encodeHex bytes, c ≠ ' ' ∧ c ≠ ':'
  /-- `hashService.computeHash(hashRequest).toBase64()` -/
  computeHash : Text → Text
  cipherService : Cipher Seed Bytes
  saltedCipherService : Cipher Seed Bytes
  getDesKey : Bytes → Except Thrown Key
  desCipher : Cipher Seed Key
  getBytes : V → Bytes
  getObjectException : Bytes → Except Thrown V

/-- What is drawn to encrypt a value: for a cipher, and the salt of `SALT`. -/
structure Draw (Seed : Type) where
  seed : Seed
  salt : Bytes
  length_salt : 5 ≤ salt.length ∧ salt.length < 16

structure StorageHandler (Seed : Type) where
  getHashedKeyName : Text → Text
  keyMapPrefix : Text
  decodeKeyBytes : Text → Except Thrown Bytes
  encodeKey : Seed → Bytes → Except Thrown Text
  decryptValue : Bytes → EncryptMethod → Text → Except Thrown Bytes
  encryptValue : Draw Seed → EncryptMethod → Bytes → Bytes → Except Thrown Text

namespace CryptoServices

variable {Seed Key V : Type} (S : CryptoServices Seed Key V)

/-! ### The handler that uses Shiro -/

def shiroCipher : EncryptMethod → Cipher Seed Bytes
  | .SALT => S.saltedCipherService
  | _ => S.cipherService

def shiroStorageHandler (kek : Option Bytes) : StorageHandler Seed where
  getHashedKeyName := S.computeHash
  keyMapPrefix := "{shiro}".toList
  decodeKeyBytes keyText :=
    match kek with
    | none => .ok (S.decodeBase64 keyText)
    | some kek => S.saltedCipherService.decrypt kek (S.decodeBase64 keyText)
  encodeKey seed key :=
    match kek with
    | none => .ok (S.encodeBase64 key)
    | some kek => (S.saltedCipherService.encrypt seed kek key).map S.encodeBase64
  decryptValue key encryptMethod encryptedString :=
    (S.shiroCipher encryptMethod).decrypt key (S.decodeBase64 encryptedString)
  encryptValue draw encryptMethod key objBytes :=
    ((S.shiroCipher encryptMethod).encrypt draw.seed key objBytes).map S.encodeBase64

/-! ### The handlers of the key names with hexadecimal digits -/

def cleanHexString (str : Text) : Text := str.filter fun c => c ≠ ' ' ∧ c ≠ ':'

def fromHexString (str : Text) : Except Thrown Bytes :=
  match S.decodeHex (cleanHexString str) with
  | none => .error (.runtime "org.apache.ofbiz.base.util.GeneralRuntimeException")
  | some bytes => .ok bytes

/-- `DesCrypt.decrypt(DesCrypt.getDesKey(key), bytes)` -/
def desDecrypt (key bytes : Bytes) : Except Thrown Bytes := do
  let desKey ← S.getDesKey key
  S.desCipher.decrypt desKey bytes

/-- `DesCrypt.encrypt(DesCrypt.getDesKey(key), bytes)` -/
def desEncrypt (seed : Seed) (key bytes : Bytes) : Except Thrown Bytes := do
  let desKey ← S.getDesKey key
  S.desCipher.encrypt seed desKey bytes

def legacyStorageHandler (getHashedKeyName : Text → Text) (keyMapPrefix : Text) :
    StorageHandler Seed where
  getHashedKeyName := getHashedKeyName
  keyMapPrefix := keyMapPrefix
  decodeKeyBytes := S.fromHexString
  encodeKey _ key := .ok (S.encodeHex key)
  decryptValue key _ encryptedString := do
    let desKey ← S.getDesKey key
    let bytes ← S.fromHexString encryptedString
    S.desCipher.decrypt desKey bytes
  encryptValue draw _ key objBytes := (S.desEncrypt draw.seed key objBytes).map S.encodeHex

def sha : Bytes → Bytes := (S.messageDigest "SHA".toList).get S.isSome_sha

def oldFunnyHashStorageHandler : StorageHandler Seed :=
  S.legacyStorageHandler (fun originalKeyName =>
    HashCrypt.oldFunnyHex (S.sha (HashCrypt.utf8 originalKeyName))) "{funny-hash}".toList

def normalHashStorageHandler : StorageHandler Seed :=
  S.legacyStorageHandler (fun originalKeyName =>
    "{SHA}".toList ++ S.encodeHex (S.sha (S.defaultBytes originalKeyName)))
    "{normal-hash}".toList

/-! ### The handler of the key names in Base64 -/

def saltedKek (kek : Option Bytes) : Option Key := kek.bind fun kek => (S.getDesKey kek).toOption

/-- The first of the bytes is the length of a salt, as a signed byte; the object is what comes after
the salt. -/
def objBytes : Bytes → Except Thrown Bytes
  | [] => .error (.runtime "java.lang.ArrayIndexOutOfBoundsException")
  | first :: bytes =>
    let length := first.toInt8.toInt
    -- the array for the object is made first, and then the bytes are copied
    if (bytes.length : ℤ) - length < 0 then
      .error (.runtime "java.lang.NegativeArraySizeException")
    else if 1 + length < 0 then
      .error (.runtime "java.lang.ArrayIndexOutOfBoundsException")
    else .ok ((first :: bytes).drop (1 + length).toNat)

def saltBytes (draw : Draw Seed) : EncryptMethod → Bytes
  | .SALT => draw.salt
  | _ => []

def saltedBase64StorageHandler (kek : Option Bytes) : StorageHandler Seed where
  getHashedKeyName originalKeyName :=
    "{SHA}".toList ++
      (S.encodeBase64URLSafeString (S.sha (HashCrypt.utf8 originalKeyName))).map fun c =>
        if c = '+' then '.' else c
  keyMapPrefix := "{salted-base64}".toList
  decodeKeyBytes keyText :=
    match S.saltedKek kek with
    | none => .ok (S.decodeBase64 keyText)
    | some kek => S.desCipher.decrypt kek (S.decodeBase64 keyText)
  encodeKey seed key :=
    match S.saltedKek kek with
    | none => .ok (S.encodeBase64 key)
    | some kek => (S.desCipher.encrypt seed kek key).map S.encodeBase64
  decryptValue key _ encryptedString := do
    let allBytes ← S.desDecrypt key (S.decodeBase64 encryptedString)
    objBytes allBytes
  encryptValue draw encryptMethod key objBytes :=
    let salt := saltBytes draw encryptMethod
    (S.desEncrypt draw.seed key (UInt8.ofNat salt.length :: (salt ++ objBytes))).map S.encodeBase64

/-! ### The handlers in their order -/

inductive Handler
  | shiro
  | saltedBase64
  | normalHash
  | oldFunnyHash
  deriving DecidableEq

def handler (kek : Option Bytes) : Handler → StorageHandler Seed
  | .shiro => S.shiroStorageHandler kek
  | .saltedBase64 => S.saltedBase64StorageHandler kek
  | .normalHash => S.normalHashStorageHandler
  | .oldFunnyHash => S.oldFunnyHashStorageHandler

def handlers : List Handler := [.shiro, .saltedBase64, .normalHash, .oldFunnyHash]

/-! ### What a handler has encrypted -/

/-- The ciphers decrypt what they encrypt, and objects are read as they have been written. -/
structure Inverts : Prop where
  cipherService : S.cipherService.Inverts
  saltedCipherService : S.saltedCipherService.Inverts
  desCipher : S.desCipher.Inverts
  getObjectException : ∀ v, S.getObjectException (S.getBytes v) = .ok v

variable {S}

theorem objBytes_append (draw : Draw Seed) (encryptMethod : EncryptMethod) (bytes : Bytes) :
    objBytes (UInt8.ofNat (saltBytes draw encryptMethod).length ::
      (saltBytes draw encryptMethod ++ bytes)) = .ok bytes := by
  have hlength : ∀ n < 16, (UInt8.ofNat n).toInt8.toInt = n := by decide
  have hsalt : (saltBytes draw encryptMethod).length < 16 := by
    cases encryptMethod with
    | SALT => exact draw.length_salt.2
    | FALSE => exact Nat.succ_pos 15
    | TRUE => exact Nat.succ_pos 15
  rw [objBytes, hlength _ hsalt, if_neg (by rw [List.length_append]; omega), if_neg (by omega)]
  refine congrArg Except.ok ?_
  rw [show (1 + ((saltBytes draw encryptMethod).length : ℤ)).toNat =
    (saltBytes draw encryptMethod).length + 1 from by omega, List.drop_succ_cons, List.drop_left]

theorem cleanHexString_encodeHex (bytes : Bytes) :
    cleanHexString (S.encodeHex bytes) = S.encodeHex bytes :=
  List.filter_eq_self.mpr fun c hc => decide_eq_true (S.digits_encodeHex bytes c hc)

theorem fromHexString_encodeHex (bytes : Bytes) :
    S.fromHexString (S.encodeHex bytes) = .ok bytes := by
  rw [fromHexString, cleanHexString_encodeHex, S.decodeHex_encodeHex]

theorem Inverts.desDecrypt (h : S.Inverts) {seed : Seed} {key bytes encBytes : Bytes}
    (henc : S.desEncrypt seed key bytes = .ok encBytes) :
    S.desDecrypt key encBytes = .ok bytes := by
  obtain ⟨desKey, hkey, henc⟩ := Except.bind_eq_ok.mp henc
  exact Except.bind_eq_ok.mpr ⟨desKey, hkey, h.desCipher seed desKey bytes encBytes henc⟩

theorem decryptValue_legacy {key : Bytes} {encryptMethod : EncryptMethod} {encBytes : Bytes}
    (getHashedKeyName : Text → Text) (keyMapPrefix : Text) :
    (S.legacyStorageHandler getHashedKeyName keyMapPrefix).decryptValue key encryptMethod
      (S.encodeHex encBytes) = S.desDecrypt key encBytes := by
  dsimp only [legacyStorageHandler]
  rw [fromHexString_encodeHex]
  rfl

/-- **Each handler decrypts what it encrypts.** -/
theorem decryptValue_encryptValue (h : S.Inverts) {kek : Option Bytes} {kind : Handler}
    {draw : Draw Seed} {encryptMethod : EncryptMethod} {key bytes : Bytes} {text : Text}
    (henc : (S.handler kek kind).encryptValue draw encryptMethod key bytes = .ok text) :
    (S.handler kek kind).decryptValue key encryptMethod text = .ok bytes := by
  -- the two legacy handlers differ in the names of keys only
  have hlegacy : ∀ getHashedKeyName keyMapPrefix,
      (S.legacyStorageHandler getHashedKeyName keyMapPrefix).encryptValue draw encryptMethod key
        bytes = .ok text →
      (S.legacyStorageHandler getHashedKeyName keyMapPrefix).decryptValue key encryptMethod text =
        .ok bytes := by
    intro getHashedKeyName keyMapPrefix henc
    obtain ⟨encBytes, hbytes, rfl⟩ := Except.map_eq_ok.mp henc
    rw [decryptValue_legacy]
    exact h.desDecrypt hbytes
  cases kind with
  | shiro =>
    obtain ⟨encBytes, hbytes, rfl⟩ := Except.map_eq_ok.mp henc
    have hinverts : (S.shiroCipher encryptMethod).Inverts := by
      cases encryptMethod with
      | SALT => exact h.saltedCipherService
      | FALSE => exact h.cipherService
      | TRUE => exact h.cipherService
    dsimp only [handler, shiroStorageHandler]
    rw [S.decode_encode]
    exact hinverts _ _ _ _ hbytes
  | saltedBase64 =>
    obtain ⟨encBytes, hbytes, rfl⟩ := Except.map_eq_ok.mp henc
    dsimp only [handler, saltedBase64StorageHandler]
    rw [S.decode_encode, h.desDecrypt hbytes]
    exact objBytes_append draw encryptMethod bytes
  | normalHash => exact hlegacy _ _ henc
  | oldFunnyHash => exact hlegacy _ _ henc

end CryptoServices

end OfficeAuto.Entity.EntityCrypto
