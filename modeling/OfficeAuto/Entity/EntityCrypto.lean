import OfficeAuto.Entity.StorageHandler
import OfficeAuto.Logic.Fallback

/-!
# The decryption of old values

`decrypt` tries the handlers in turn, with the key that each of them has under the name of the key.
Any exception of the first one lets the others have their turn; of the others this is only so for a
`GeneralException`. A text that one of the older handlers has made is foreign to those that are
tried before: under another key the cipher fails, or returns bytes that mean nothing. But the
handler of the key names in Base64 takes the first of these bytes for the length of a salt, and
where there is no room for it the exception is one of the runtime, which ends the whole.
`decrypt_eq_ok_iff` is the exact condition for the value to be returned.
-/

namespace OfficeAuto.Entity.EntityCrypto.CryptoServices

abbrev KeyMap := Text → Option Bytes

/-- The rows of `EntityKeyStore`: the key texts, which may be `null`, by their key names. -/
abbrev KeyStore := Text → Option (Option Text)

variable {Seed Key V : Type} (S : CryptoServices Seed Key V) (kek : Option Bytes) (store : KeyStore)

/-! ### The keys -/

def hashedKeyName (kind : Handler) (originalKeyName : Text) : Text :=
  (S.handler kek kind).getHashedKeyName originalKeyName

def keyMapName (kind : Handler) (originalKeyName : Text) : Text :=
  (S.handler kek kind).keyMapPrefix ++ S.hashedKeyName kek kind originalKeyName

def storedKey (kind : Handler) (originalKeyName : Text) : Except Thrown (Option Bytes) :=
  match (store (S.hashedKeyName kek kind originalKeyName)).join with
  | none => .ok none
  | some keyText =>
    match (S.handler kek kind).decodeKeyBytes keyText with
    | .error (.general _) => .error (.general "org.apache.ofbiz.entity.EntityCryptoException")
    | .error (.runtime name) => .error (.runtime name)
    | .ok keyBytes => .ok (some keyBytes)

/-- **`findKey`** -/
def findKey (kind : Handler) (originalKeyName : Text) (keyMap : KeyMap) :
    Except Thrown (Option Bytes) × KeyMap :=
  match keyMap (S.keyMapName kek kind originalKeyName) with
  | some key => (.ok (some key), keyMap)
  | none =>
    match S.storedKey kek store kind originalKeyName with
    | .error e => (.error e, keyMap)
    | .ok none => (.ok none, keyMap)
    | .ok (some keyBytes) =>
      (.ok (some keyBytes),
        Function.update keyMap (S.keyMapName kek kind originalKeyName) (some keyBytes))

/-! ### The decryption -/

def decryptWith (kind : Handler) (encryptMethod : EncryptMethod) (encryptedString : Text) :
    Option Bytes → Except Thrown V
  | none => .error (.general "org.apache.ofbiz.entity.EntityCryptoException")
  | some key => do
    let decryptedBytes ← (S.handler kek kind).decryptValue key encryptMethod encryptedString
    S.getObjectException decryptedBytes

/-- **`doDecrypt`** -/
def doDecrypt (keyName : Text) (encryptMethod : EncryptMethod) (encryptedString : Text)
    (kind : Handler) (keyMap : KeyMap) : Except Thrown V × KeyMap :=
  ((S.findKey kek store kind keyName keyMap).1.bind
      (S.decryptWith kek kind encryptMethod encryptedString),
    (S.findKey kek store kind keyName keyMap).2)

def isGeneral : Thrown → Bool
  | .general _ => true
  | .runtime _ => false

/-- **`decrypt`** -/
def decrypt (keyName : Text) (encryptMethod : EncryptMethod) (encryptedString : Text)
    (keyMap : KeyMap) : Except Thrown V × KeyMap :=
  let first := S.doDecrypt kek store keyName encryptMethod encryptedString .shiro keyMap
  match first.1 with
  | .ok obj => (.ok obj, first.2)
  | .error _ =>
    -- in the loop only a `GeneralException` is caught
    Fallback.run isGeneral (.general "org.apache.ofbiz.entity.EntityCryptoException")
      (handlers.tail.map (S.doDecrypt kek store keyName encryptMethod encryptedString)) first.2

/-! ### The cache of the keys -/

def IsCache (keyMap : KeyMap) : Prop :=
  ∀ kind originalKeyName key, keyMap (S.keyMapName kek kind originalKeyName) = some key →
    S.storedKey kek store kind originalKeyName = .ok (some key)

variable {S kek store}

def mapNameStart : Handler → Text
  | .shiro => "{shiro}".toList
  | .saltedBase64 => "{salted-base64}".toList
  | .normalHash => "{normal-hash}".toList
  | .oldFunnyHash => "{funny-hash}".toList

theorem keyMapPrefix_eq (kind : Handler) :
    (S.handler kek kind).keyMapPrefix = mapNameStart kind := by
  cases kind <;> rfl

theorem mapNameStart_inj {kind kind' : Handler}
    (h : (mapNameStart kind).take 4 = (mapNameStart kind').take 4) : kind = kind' := by
  cases kind <;> cases kind' <;> first | rfl | exact absurd h (by decide)

theorem le_length_mapNameStart (kind : Handler) : 4 ≤ (mapNameStart kind).length := by
  cases kind <;> decide

theorem keyMapName_inj {kind kind' : Handler} {name name' : Text}
    (h : S.keyMapName kek kind name = S.keyMapName kek kind' name') :
    kind = kind' ∧ S.hashedKeyName kek kind name = S.hashedKeyName kek kind' name' := by
  have htake := congrArg (List.take 4) h
  rw [keyMapName, keyMapName, keyMapPrefix_eq, keyMapPrefix_eq,
    List.take_append_of_le_length (le_length_mapNameStart kind),
    List.take_append_of_le_length (le_length_mapNameStart kind')] at htake
  have hkind : kind = kind' := mapNameStart_inj htake
  subst hkind
  exact ⟨rfl, List.append_cancel_left h⟩

theorem isCache_empty : S.IsCache kek store fun _ => none := by
  intro kind name key h
  cases h

theorem IsCache.update {keyMap : KeyMap} (h : S.IsCache kek store keyMap) {kind : Handler}
    {name : Text} {keyBytes : Bytes}
    (hkey : S.storedKey kek store kind name = .ok (some keyBytes)) :
    S.IsCache kek store
      (Function.update keyMap (S.keyMapName kek kind name) (some keyBytes)) := by
  intro kind' name' key' hkey'
  rw [Function.update_apply] at hkey'
  split_ifs at hkey' with heq
  · obtain ⟨rfl, hname⟩ := keyMapName_inj heq
    cases hkey'
    rw [storedKey, hname]
    exact hkey
  · exact h kind' name' key' hkey'

/-- **A key is found as it is in the database**, and the map is a cache of it again. -/
theorem findKey_spec (kind : Handler) (name : Text) {keyMap : KeyMap}
    (h : S.IsCache kek store keyMap) :
    (S.findKey kek store kind name keyMap).1 = S.storedKey kek store kind name ∧
      S.IsCache kek store (S.findKey kek store kind name keyMap).2 := by
  rw [findKey]
  cases hkey : keyMap (S.keyMapName kek kind name) with
  | some key => exact ⟨(h kind name key hkey).symm, h⟩
  | none =>
    cases hstored : S.storedKey kek store kind name with
    | error e => exact ⟨rfl, h⟩
    | ok r =>
      cases r with
      | none => exact ⟨rfl, h⟩
      | some keyBytes => exact ⟨rfl, h.update hstored⟩

/-! ### The handlers in turn -/

variable {keyName : Text} {encryptMethod : EncryptMethod} {encryptedString : Text}

def attempt (S : CryptoServices Seed Key V) (kek : Option Bytes) (store : KeyStore)
    (keyName : Text) (encryptMethod : EncryptMethod) (encryptedString : Text) (kind : Handler) :
    Except Thrown V :=
  (S.storedKey kek store kind keyName).bind (S.decryptWith kek kind encryptMethod encryptedString)

theorem doDecrypt_spec (kind : Handler) (keyMap : KeyMap) (h : S.IsCache kek store keyMap) :
    (S.doDecrypt kek store keyName encryptMethod encryptedString kind keyMap).1 =
        S.attempt kek store keyName encryptMethod encryptedString kind ∧
      S.IsCache kek store
        (S.doDecrypt kek store keyName encryptMethod encryptedString kind keyMap).2 := by
  obtain ⟨hkey, hcache⟩ := findKey_spec kind keyName h
  refine ⟨?_, hcache⟩
  rw [doDecrypt, hkey]
  rfl

/-- **What `decrypt` returns** does not depend on the keys that are in the map, and it leaves a
cache. -/
theorem decrypt_spec {keyMap : KeyMap} (h : S.IsCache kek store keyMap) :
    ((S.decrypt kek store keyName encryptMethod encryptedString keyMap).1 =
      match S.attempt kek store keyName encryptMethod encryptedString .shiro with
      | .ok obj => .ok obj
      | .error _ =>
        Fallback.firstOk isGeneral (.general "org.apache.ofbiz.entity.EntityCryptoException")
          (handlers.tail.map (S.attempt kek store keyName encryptMethod encryptedString))) ∧
      S.IsCache kek store (S.decrypt kek store keyName encryptMethod encryptedString keyMap).2 := by
  have hspec := fun kind keyMap => @doDecrypt_spec Seed Key V S kek store keyName encryptMethod
    encryptedString kind keyMap
  obtain ⟨hfirst, hcache⟩ := hspec .shiro keyMap h
  rw [decrypt, hfirst]
  cases S.attempt kek store keyName encryptMethod encryptedString .shiro with
  | ok obj => exact ⟨rfl, hcache⟩
  | error e => exact Fallback.run_map hspec handlers.tail hcache

/-! ### What a foreign text leads to -/

def cipherBytes (S : CryptoServices Seed Key V) (encryptMethod : EncryptMethod)
    (encryptedString : Text) (key : Bytes) : Handler → Except Thrown Bytes
  | .shiro => (S.shiroCipher encryptMethod).decrypt key (S.decodeBase64 encryptedString)
  | .saltedBase64 => S.desDecrypt key (S.decodeBase64 encryptedString)
  | _ => do
    let desKey ← S.getDesKey key
    let bytes ← S.fromHexString encryptedString
    S.desCipher.decrypt desKey bytes

/-- There is an object behind the salt: the first byte, as a signed one, is the length of bytes that
are there, or minus one. -/
def HasObject : Bytes → Prop
  | [] => False
  | first :: bytes => -1 ≤ first.toInt8.toInt ∧ first.toInt8.toInt ≤ bytes.length

instance : DecidablePred HasObject
  | [] => inferInstanceAs (Decidable False)
  | _ :: _ => inferInstanceAs (Decidable (_ ∧ _))

def IsRuntime {α : Type} (r : Except Thrown α) : Prop := ∃ name, r = .error (.runtime name)

/-- The handler has a key, for which the cipher, or what reads the bytes that the cipher returns,
throws an exception of the runtime; or it throws one when it decodes the key. -/
def ThrowsRuntime (S : CryptoServices Seed Key V) (kek : Option Bytes) (store : KeyStore)
    (keyName : Text) (encryptMethod : EncryptMethod) (encryptedString : Text) (kind : Handler) :
    Prop :=
  IsRuntime (S.storedKey kek store kind keyName) ∨
    ∃ key, S.storedKey kek store kind keyName = .ok (some key) ∧
      (IsRuntime (S.cipherBytes encryptMethod encryptedString key kind) ∨
        ∃ bytes, S.cipherBytes encryptMethod encryptedString key kind = .ok bytes ∧
          (kind = .saltedBase64 ∧ ¬HasObject bytes ∨
            ∃ obj, (if kind = .saltedBase64 then objBytes bytes else .ok bytes) = .ok obj ∧
              IsRuntime (S.getObjectException obj)))

theorem isRuntime_bind {α β : Type} {r : Except Thrown α} {f : α → Except Thrown β} :
    IsRuntime (r.bind f) ↔ IsRuntime r ∨ ∃ a, r = .ok a ∧ IsRuntime (f a) := by
  cases r with
  | error e => simp [IsRuntime, Except.bind]
  | ok a => simp [IsRuntime, Except.bind]

theorem isRuntime_objBytes {bytes : Bytes} : IsRuntime (objBytes bytes) ↔ ¬HasObject bytes := by
  cases bytes with
  | nil => exact iff_of_true ⟨_, rfl⟩ id
  | cons first bytes =>
    rw [objBytes, HasObject]
    split_ifs with hlong hnegative
    · exact iff_of_true ⟨_, rfl⟩ (by omega)
    · exact iff_of_true ⟨_, rfl⟩ (by omega)
    · refine iff_of_false ?_ (by omega)
      rintro ⟨_, h⟩
      cases h

theorem decryptValue_eq (kind : Handler) (key : Bytes) :
    (S.handler kek kind).decryptValue key encryptMethod encryptedString =
      (S.cipherBytes encryptMethod encryptedString key kind).bind fun bytes =>
        if kind = .saltedBase64 then objBytes bytes else .ok bytes := by
  have hok : ∀ r : Except Thrown Bytes, r = r.bind fun bytes => .ok bytes := by
    intro r
    cases r <;> rfl
  cases kind with
  | shiro => exact hok _
  | saltedBase64 => rfl
  | normalHash => exact hok _
  | oldFunnyHash => exact hok _

theorem isRuntime_objectBytes {kind : Handler} {bytes : Bytes} :
    IsRuntime (if kind = .saltedBase64 then objBytes bytes else .ok bytes) ↔
      kind = .saltedBase64 ∧ ¬HasObject bytes := by
  split_ifs with hkind
  · rw [isRuntime_objBytes, and_iff_right hkind]
  · refine iff_of_false ?_ fun h => hkind h.1
    rintro ⟨_, h⟩
    cases h

theorem isRuntime_decryptWith {kind : Handler} {key : Bytes} :
    IsRuntime (S.decryptWith kek kind encryptMethod encryptedString (some key)) ↔
      IsRuntime (S.cipherBytes encryptMethod encryptedString key kind) ∨
        ∃ bytes, S.cipherBytes encryptMethod encryptedString key kind = .ok bytes ∧
          (kind = .saltedBase64 ∧ ¬HasObject bytes ∨
            ∃ obj, (if kind = .saltedBase64 then objBytes bytes else .ok bytes) = .ok obj ∧
              IsRuntime (S.getObjectException obj)) := by
  have hassoc : ∀ r : Except Thrown Bytes, ∀ f : Bytes → Except Thrown Bytes,
      (r.bind f).bind S.getObjectException = r.bind fun b => (f b).bind S.getObjectException := by
    intro r f
    cases r <;> rfl
  show IsRuntime (((S.handler kek kind).decryptValue key encryptMethod encryptedString).bind
    S.getObjectException) ↔ _
  rw [decryptValue_eq, hassoc, isRuntime_bind]
  simp only [isRuntime_bind, isRuntime_objectBytes]

theorem isRuntime_attempt {kind : Handler} :
    IsRuntime (S.attempt kek store keyName encryptMethod encryptedString kind) ↔
      S.ThrowsRuntime kek store keyName encryptMethod encryptedString kind := by
  rw [attempt, isRuntime_bind, ThrowsRuntime]
  simp only [← @isRuntime_decryptWith Seed Key V S kek]
  refine or_congr_right ⟨?_, ?_⟩
  · rintro ⟨key, hkey, h⟩
    cases key with
    | none =>
      obtain ⟨name, h⟩ := h
      cases h
    | some key => exact ⟨key, hkey, h⟩
  · rintro ⟨key, hkey, h⟩
    exact ⟨some key, hkey, h⟩

/-! ### The value of a text -/

/-- The handlers that are tried after the first one and before the one that has made the text. -/
def triedBefore : Handler → List Handler
  | .shiro => []
  | .saltedBase64 => []
  | .normalHash => [.saltedBase64]
  | .oldFunnyHash => [.saltedBase64, .normalHash]

def SameFormat (kind kind' : Handler) : Prop :=
  kind = kind' ∨
    (kind = .normalHash ∨ kind = .oldFunnyHash) ∧ (kind' = .normalHash ∨ kind' = .oldFunnyHash)

/-- A handler whose text has another format, or that has another key, fails, or returns bytes that
are no object. -/
def FailsOnForeign (S : CryptoServices Seed Key V) (kek : Option Bytes) (store : KeyStore)
    (keyName : Text) (encryptMethod : EncryptMethod) (encryptedString : Text) (kind : Handler)
    (key : Bytes) : Prop :=
  ∀ kind' key', S.storedKey kek store kind' keyName = .ok (some key') →
    ¬SameFormat kind' kind ∨ key' ≠ key → ∀ bytes,
      (S.handler kek kind').decryptValue key' encryptMethod encryptedString = .ok bytes →
        ∃ e, S.getObjectException bytes = .error e

theorem exists_attempt_eq_error {kind kind' : Handler} {key : Bytes}
    (hforeign : S.FailsOnForeign kek store keyName encryptMethod encryptedString kind key)
    (h : ∀ key', S.storedKey kek store kind' keyName = .ok (some key') →
      ¬SameFormat kind' kind ∨ key' ≠ key) :
    ∃ e, S.attempt kek store keyName encryptMethod encryptedString kind' = .error e := by
  rw [attempt]
  cases hkey : S.storedKey kek store kind' keyName with
  | error e => exact ⟨e, rfl⟩
  | ok found =>
    cases found with
    | none => exact ⟨_, rfl⟩
    | some key' =>
      show ∃ e, ((S.handler kek kind').decryptValue key' encryptMethod encryptedString).bind
        S.getObjectException = .error e
      cases hbytes : (S.handler kek kind').decryptValue key' encryptMethod encryptedString with
      | error e => exact ⟨e, rfl⟩
      | ok bytes => exact hforeign kind' key' hkey (h key' hkey) bytes hbytes

theorem not_throwsRuntime {kind : Handler} {v : V}
    (h : S.attempt kek store keyName encryptMethod encryptedString kind = .ok v) :
    ¬S.ThrowsRuntime kek store keyName encryptMethod encryptedString kind := by
  intro hthrows
  obtain ⟨name, hname⟩ := isRuntime_attempt.mpr hthrows
  cases h.symm.trans hname

/-- The first of the handlers that has the value is reached exactly if nothing that those before it
throw is an exception of the runtime. -/
theorem firstOk_attempts (before after : List Handler) {kind : Handler} {v : V} {last : Thrown}
    (hkind : S.attempt kek store keyName encryptMethod encryptedString kind = .ok v)
    (hbefore : ∀ kind' ∈ before,
      ∃ e, S.attempt kek store keyName encryptMethod encryptedString kind' = .error e) :
    Fallback.firstOk isGeneral last
        ((before ++ kind :: after).map
          (S.attempt kek store keyName encryptMethod encryptedString)) = .ok v ↔
      ∀ kind' ∈ before, ¬S.ThrowsRuntime kek store keyName encryptMethod encryptedString kind' := by
  rw [List.map_append, List.map_cons, hkind, Fallback.firstOk_append_eq_ok_iff
    (List.forall_mem_map.mpr hbefore)]
  constructor
  · intro h kind' hkind' hthrows
    obtain ⟨name, hname⟩ := isRuntime_attempt.mpr hthrows
    cases h _ (List.mem_map.mpr ⟨kind', hkind', hname⟩)
  · intro h e he
    obtain ⟨kind', hkind', heq⟩ := List.mem_map.mp he
    cases e with
    | general name => rfl
    | runtime name => exact absurd (isRuntime_attempt.mp ⟨name, heq⟩) (h kind' hkind')

/-- **A text is decrypted to its value** exactly if no handler that is tried before the one that has
made it throws an exception of the runtime. -/
theorem decrypt_eq_ok_iff (hinverts : S.Inverts) {keyMap : KeyMap}
    (hcache : S.IsCache kek store keyMap) {kind : Handler} {key : Bytes} {draw : Draw Seed} {v : V}
    (hkey : S.storedKey kek store kind keyName = .ok (some key))
    (henc : (S.handler kek kind).encryptValue draw encryptMethod key (S.getBytes v) =
      .ok encryptedString)
    (hforeign : S.FailsOnForeign kek store keyName encryptMethod encryptedString kind key) :
    (S.decrypt kek store keyName encryptMethod encryptedString keyMap).1 = .ok v ↔
      ∀ kind' ∈ triedBefore kind,
        ¬S.ThrowsRuntime kek store keyName encryptMethod encryptedString kind' := by
  have hvalue : S.decryptWith kek kind encryptMethod encryptedString (some key) = .ok v :=
    Except.bind_eq_ok.mpr
      ⟨_, decryptValue_encryptValue hinverts henc, hinverts.getObjectException v⟩
  have hown : S.attempt kek store keyName encryptMethod encryptedString kind = .ok v :=
    Except.bind_eq_ok.mpr ⟨_, hkey, hvalue⟩
  have hfails : ∀ kind', ¬SameFormat kind' kind →
      ∃ e, S.attempt kek store keyName encryptMethod encryptedString kind' = .error e :=
    fun kind' hformat => exists_attempt_eq_error hforeign fun _ _ => .inl hformat
  rw [(decrypt_spec hcache).1]
  by_cases hshiro : kind = .shiro
  · subst hshiro
    rw [hown]
    exact iff_of_true rfl fun kind' hkind' => absurd hkind' List.not_mem_nil
  · obtain ⟨e, he⟩ := hfails .shiro (by cases kind <;> simp_all [SameFormat])
    rw [he]
    dsimp only
    cases kind with
    | shiro => exact absurd rfl hshiro
    | saltedBase64 =>
      exact firstOk_attempts [] [.normalHash, .oldFunnyHash] hown fun kind' h =>
        absurd h List.not_mem_nil
    | normalHash =>
      refine firstOk_attempts [.saltedBase64] [.oldFunnyHash] hown fun kind' h => ?_
      rw [List.mem_singleton] at h
      exact hfails kind' (by simp [h, SameFormat])
    | oldFunnyHash =>
      have hsalted := hfails .saltedBase64 (by simp [SameFormat])
      by_cases hnormal : S.storedKey kek store .normalHash keyName = .ok (some key)
      · -- the same key under both names, so that the text is not foreign to the first of the two
        have hother : S.attempt kek store keyName encryptMethod encryptedString .normalHash =
            .ok v :=
          Except.bind_eq_ok.mpr ⟨_, hnormal, hvalue⟩
        refine (firstOk_attempts [.saltedBase64] [.oldFunnyHash] hother
          fun kind' h => ?_).trans ?_
        · rw [List.mem_singleton] at h
          exact h ▸ hsalted
        · simp [triedBefore, not_throwsRuntime hother]
      · refine firstOk_attempts [.saltedBase64, .normalHash] [] hown fun kind' h => ?_
        rcases List.mem_cons.mp h with rfl | h
        · exact hsalted
        · rw [List.mem_singleton] at h
          subst h
          refine exists_attempt_eq_error hforeign fun key' hkey' => .inr ?_
          rintro rfl
          exact hnormal hkey'

end OfficeAuto.Entity.EntityCrypto.CryptoServices
