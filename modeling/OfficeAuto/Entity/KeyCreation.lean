import OfficeAuto.Entity.EntityCrypto
import OfficeAuto.Logic.Transition

/-!
# The creation of keys

`encrypt` looks for the key of a name, creates one where there is none, and looks again whatever
became of the creation: the key may have been created by another call in the meantime, so that the
row could not be inserted a second time. The calls of any number of servers take their steps in any
order. They share the table of the keys, and those of one server the map of the keys that have been
found.

`reachable_agrees` is the invariant: a row is never replaced, the maps hold what the rows say, and a
call that looks again finds a row. So each call comes to encrypt, and with the key of the row.
-/

namespace OfficeAuto.Entity.EntityCrypto.CryptoServices

/-! ### The calls -/

/-- Whether a look-up is the one before or the one after the creation, which may have thrown an
exception of the runtime that is thrown again after the look-up. -/
inductive Lookup
  | first
  | second (thrown : Bool)
  deriving DecidableEq

/-- Where a call of `encrypt` is. -/
inductive Phase
  | findKey (lookup : Lookup)
  | queryOne (lookup : Lookup)
  | putIfAbsent (lookup : Lookup) (keyBytes : Bytes)
  | getKey (lookup : Lookup)
  | createKey
  | encryptValue (key : Bytes)
  | failed

def Lookup.returns : Lookup → Option Bytes → Phase
  | .first, some key => .encryptValue key
  | .first, none => .createKey
  | .second false, some key => .encryptValue key
  | .second _, _ => .failed

/-- The calls, with their servers and the names of their keys. -/
structure Calls (Server Call : Type) where
  server : Call → Server
  keyName : Call → Text

structure KeyState (Server Call : Type) where
  keyMap : Server → KeyMap
  store : KeyStore
  phase : Call → Phase

/-- A step of a call, with the key and the seed that are drawn if it creates a key. -/
structure KeyStep (Call Seed : Type) where
  call : Call
  newKey : Bytes
  seed : Seed

variable {Seed Key V Server Call : Type} [DecidableEq Server] [DecidableEq Call]

def KeyState.goTo (s : KeyState Server Call) (call : Call) (phase : Phase) :
    KeyState Server Call :=
  { s with phase := Function.update s.phase call phase }

section Step

variable (S : CryptoServices Seed Key V) (kek : Option Bytes) (C : Calls Server Call)

/-- `keyMap.putIfAbsent(keyMapName, keyBytes)` -/
def putIfAbsent (keyMap : KeyMap) (keyMapName : Text) (keyBytes : Bytes) : KeyMap :=
  if (keyMap keyMapName).isSome then keyMap
  else Function.update keyMap keyMapName (some keyBytes)

/-- What `createKey` leaves in the table, and the look-up that comes next. -/
def createKey (store : KeyStore) (keyName : Text) (newKey : Bytes) (seed : Seed) :
    KeyStore × Lookup :=
  match (S.handler kek .shiro).encodeKey seed newKey with
  | .error (.general _) => (store, .second false)
  | .error (.runtime _) => (store, .second true)
  | .ok keyText =>
    -- the insertion in a transaction of its own, which fails if there is a row
    match store (S.hashedKeyName kek .shiro keyName) with
    | some _ => (store, .second false)
    | none =>
      (Function.update store (S.hashedKeyName kek .shiro keyName) (some (some keyText)),
        .second false)

def keyStep (s : KeyState Server Call) (step : KeyStep Call Seed) :
    Option (KeyState Server Call) :=
  let call := step.call
  let keyMapName := S.keyMapName kek .shiro (C.keyName call)
  let keyMap := s.keyMap (C.server call)
  match s.phase call with
  | .findKey lookup =>
    if (keyMap keyMapName).isSome then some (s.goTo call (.getKey lookup))
    else some (s.goTo call (.queryOne lookup))
  | .queryOne lookup =>
    match S.storedKey kek s.store .shiro (C.keyName call) with
    | .error _ => some (s.goTo call .failed)
    | .ok none => some (s.goTo call (lookup.returns none))
    | .ok (some keyBytes) => some (s.goTo call (.putIfAbsent lookup keyBytes))
  | .putIfAbsent lookup keyBytes =>
    some { s.goTo call (.getKey lookup) with
      keyMap := Function.update s.keyMap (C.server call)
        (putIfAbsent keyMap keyMapName keyBytes) }
  | .getKey lookup => some (s.goTo call (lookup.returns (keyMap keyMapName)))
  | .createKey =>
    let created := S.createKey kek s.store (C.keyName call) step.newKey step.seed
    some { s.goTo call (.findKey created.2) with store := created.1 }
  | .encryptValue _ | .failed => none

/-- All calls begin, for names that have no key. The maps may hold the keys of other names. -/
def keyCreation : System (KeyState Server Call) (KeyStep Call Seed) :=
  .ofStep
    (fun s => (∀ server, S.IsCache kek s.store (s.keyMap server)) ∧
      (∀ call, s.store (S.hashedKeyName kek .shiro (C.keyName call)) = none) ∧
        ∀ call, s.phase call = .findKey .first)
    (S.keyStep kek C)

end Step

/-! ### The invariant -/

variable {S : CryptoServices Seed Key V} {kek : Option Bytes} {C : Calls Server Call}

def Stored (S : CryptoServices Seed Key V) (kek : Option Bytes) (C : Calls Server Call)
    (s : KeyState Server Call) (call : Call) (key : Bytes) : Prop :=
  S.storedKey kek s.store .shiro (C.keyName call) = .ok (some key)

def PhaseAgrees (S : CryptoServices Seed Key V) (kek : Option Bytes) (C : Calls Server Call)
    (s : KeyState Server Call) (call : Call) : Phase → Prop
  | .findKey lookup | .queryOne lookup =>
    lookup ≠ .second true ∧ (lookup = .first ∨ ∃ key, S.Stored kek C s call key)
  | .putIfAbsent lookup keyBytes => lookup ≠ .second true ∧ S.Stored kek C s call keyBytes
  | .getKey lookup => lookup ≠ .second true ∧
      ∃ key, s.keyMap (C.server call) (S.keyMapName kek .shiro (C.keyName call)) = some key
  | .createKey => True
  | .encryptValue key => S.Stored kek C s call key
  | .failed => False

structure KeysAgree (S : CryptoServices Seed Key V) (kek : Option Bytes) (C : Calls Server Call)
    (s : KeyState Server Call) : Prop where
  cache : ∀ server, S.IsCache kek s.store (s.keyMap server)
  row : ∀ call, s.store (S.hashedKeyName kek .shiro (C.keyName call)) = none ∨
    ∃ key, S.Stored kek C s call key
  phase : ∀ call, S.PhaseAgrees kek C s call (s.phase call)

section Invariant

variable {s s' : KeyState Server Call} {call : Call}

omit [DecidableEq Server] [DecidableEq Call] in
theorem PhaseAgrees.mono (hstored : ∀ key, S.Stored kek C s call key → S.Stored kek C s' call key)
    (hmaps : ∀ server name key, s.keyMap server name = some key →
      s'.keyMap server name = some key) {phase : Phase}
    (h : S.PhaseAgrees kek C s call phase) : S.PhaseAgrees kek C s' call phase := by
  cases phase with
  | findKey lookup => exact ⟨h.1, h.2.imp_right (Exists.imp hstored)⟩
  | queryOne lookup => exact ⟨h.1, h.2.imp_right (Exists.imp hstored)⟩
  | putIfAbsent lookup keyBytes => exact ⟨h.1, hstored _ h.2⟩
  | getKey lookup =>
    obtain ⟨hlookup, key, hkey⟩ := h
    exact ⟨hlookup, key, hmaps _ _ _ hkey⟩
  | createKey => exact h
  | encryptValue key => exact hstored _ h
  | failed => exact h

omit [DecidableEq Server] in
theorem KeysAgree.goTo (h : S.KeysAgree kek C s) {phase : Phase}
    (hphase : S.PhaseAgrees kek C s call phase) : S.KeysAgree kek C (s.goTo call phase) where
  cache := h.cache
  row := h.row
  phase call' := by
    rw [KeyState.goTo]
    dsimp only
    rw [Function.update_apply]
    split_ifs with hcall
    · subst hcall
      exact PhaseAgrees.mono (s := s) (fun _ => id) (fun _ _ _ => id) hphase
    · exact PhaseAgrees.mono (s := s) (fun _ => id) (fun _ _ _ => id) (h.phase call')

theorem putIfAbsent_of_isSome {keyMap : KeyMap} {name name' : Text} {key keyBytes : Bytes}
    (h : keyMap name' = some key) : putIfAbsent keyMap name keyBytes name' = some key := by
  rw [putIfAbsent]
  split_ifs with hsome
  · exact h
  · rw [Function.update_of_ne, h]
    rintro rfl
    exact hsome (h ▸ rfl)

theorem exists_putIfAbsent (keyMap : KeyMap) (name : Text) (keyBytes : Bytes) :
    ∃ key, putIfAbsent keyMap name keyBytes name = some key := by
  rw [putIfAbsent]
  split_ifs with hsome
  · exact Option.isSome_iff_exists.mp hsome
  · exact ⟨keyBytes, Function.update_self _ _ _⟩

theorem IsCache.putIfAbsent {store : KeyStore} {keyMap : KeyMap} (h : S.IsCache kek store keyMap)
    {kind : Handler} {name : Text} {keyBytes : Bytes}
    (hkey : S.storedKey kek store kind name = .ok (some keyBytes)) :
    S.IsCache kek store (putIfAbsent keyMap (S.keyMapName kek kind name) keyBytes) := by
  rw [CryptoServices.putIfAbsent]
  split_ifs
  · exact h
  · exact h.update hkey

theorem storedKey_update {store : KeyStore} {kind : Handler} {name hashed : Text} {key : Bytes}
    (hfree : store hashed = none) (row : Option Text)
    (hkey : S.storedKey kek store kind name = .ok (some key)) :
    S.storedKey kek (Function.update store hashed (some row)) kind name = .ok (some key) := by
  have hne : S.hashedKeyName kek kind name ≠ hashed := by
    intro heq
    rw [storedKey, heq, hfree] at hkey
    cases hkey
  rw [storedKey, Function.update_of_ne hne]
  exact hkey

theorem decodeKeyBytes_encodeKey (hinverts : S.Inverts) {seed : Seed} {key : Bytes}
    {keyText : Text} (h : (S.handler kek .shiro).encodeKey seed key = .ok keyText) :
    (S.handler kek .shiro).decodeKeyBytes keyText = .ok key := by
  cases kek with
  | none =>
    cases h
    exact congrArg Except.ok (S.decode_encode key)
  | some kek =>
    obtain ⟨encBytes, hbytes, rfl⟩ := Except.map_eq_ok.mp h
    dsimp only [handler, shiroStorageHandler]
    rw [S.decode_encode]
    exact hinverts.saltedCipherService _ _ _ _ hbytes

theorem KeysAgree.putIfAbsent (h : S.KeysAgree kek C s) {lookup : Lookup} {keyBytes : Bytes}
    (hlookup : lookup ≠ .second true) (hstored : S.Stored kek C s call keyBytes) :
    S.KeysAgree kek C
      { s.goTo call (.getKey lookup) with
        keyMap := Function.update s.keyMap (C.server call)
          (putIfAbsent (s.keyMap (C.server call)) (S.keyMapName kek .shiro (C.keyName call))
            keyBytes) } := by
  have hmaps : ∀ server name key, s.keyMap server name = some key →
      Function.update s.keyMap (C.server call)
        (CryptoServices.putIfAbsent (s.keyMap (C.server call))
          (S.keyMapName kek .shiro (C.keyName call)) keyBytes) server name = some key := by
    intro server name key hkey
    rw [Function.update_apply]
    split_ifs with hserver
    · exact putIfAbsent_of_isSome (hserver ▸ hkey)
    · exact hkey
  -- the cache of the server, the rows, and where the calls are
  refine ⟨fun server => ?_, h.row, fun call' => ?_⟩
  · dsimp only
    rw [Function.update_apply]
    split_ifs with hserver
    · exact (h.cache _).putIfAbsent hstored
    · exact h.cache server
  · dsimp only [KeyState.goTo]
    rw [Function.update_apply]
    split_ifs with hcall
    · subst hcall
      refine ⟨hlookup, ?_⟩
      dsimp only
      rw [Function.update_self]
      exact exists_putIfAbsent _ _ _
    · refine (h.phase call').mono ?_ hmaps
      exact fun _ => id

omit [DecidableEq Server] in
theorem KeysAgree.createKey (h : S.KeysAgree kek C s) (hinverts : S.Inverts) (call : Call)
    {newKey : Bytes} {seed : Seed}
    (hencodes : ∃ keyText, (S.handler kek .shiro).encodeKey seed newKey = .ok keyText) :
    (S.createKey kek s.store (C.keyName call) newKey seed).2 = .second false ∧
      S.KeysAgree kek C
        { s.goTo call (.findKey (.second false)) with
          store := (S.createKey kek s.store (C.keyName call) newKey seed).1 } := by
  obtain ⟨keyText, hkeyText⟩ := hencodes
  rw [CryptoServices.createKey, hkeyText]
  cases hrow : s.store (S.hashedKeyName kek .shiro (C.keyName call)) with
  | some row =>
    -- another server was first: the insert does nothing and the next look-up finds its row
    have hstored : ∃ key, S.Stored kek C s call key :=
      (h.row call).resolve_left (hrow ▸ Option.some_ne_none row)
    exact ⟨rfl, h.goTo ⟨by decide, .inr hstored⟩⟩
  | none =>
    refine ⟨rfl, ?_⟩
    dsimp only
    -- names that hash to this row get the new key
    have hnew : ∀ name, S.hashedKeyName kek .shiro name =
        S.hashedKeyName kek .shiro (C.keyName call) →
      S.storedKey kek (Function.update s.store (S.hashedKeyName kek .shiro (C.keyName call))
        (some (some keyText))) .shiro name = .ok (some newKey) := by
      intro name hname
      rw [storedKey, hname, Function.update_self]
      dsimp only [Option.join_some]
      rw [decodeKeyBytes_encodeKey hinverts hkeyText]
    have hstored : ∀ call' key, S.Stored kek C s call' key →
        S.storedKey kek (Function.update s.store (S.hashedKeyName kek .shiro (C.keyName call))
          (some (some keyText))) .shiro (C.keyName call') = .ok (some key) :=
      fun call' key hkey => storedKey_update hrow _ hkey
    refine ⟨fun server kind name key hkey => ?_, fun call' => ?_, fun call' => ?_⟩
    · exact storedKey_update hrow _ (h.cache server kind name key hkey)
    · by_cases hname : S.hashedKeyName kek .shiro (C.keyName call') =
          S.hashedKeyName kek .shiro (C.keyName call)
      · exact .inr ⟨newKey, hnew _ hname⟩
      · refine (h.row call').imp ?_ (Exists.imp (hstored call'))
        exact (Function.update_of_ne hname _ _).trans
    · dsimp only [KeyState.goTo]
      rw [Function.update_apply]
      split_ifs with hcall
      · subst hcall
        exact ⟨by decide, .inr ⟨newKey, hnew _ rfl⟩⟩
      · refine (h.phase call').mono ?_ ?_
        · exact hstored call'
        · exact fun _ _ _ => id

def Lookup.rank : Lookup → ℕ
  | .first => 5
  | .second _ => 0

def Phase.rank : Phase → ℕ
  | .findKey lookup => lookup.rank + 4
  | .queryOne lookup => lookup.rank + 3
  | .putIfAbsent lookup _ => lookup.rank + 2
  | .getKey lookup => lookup.rank + 1
  | .createKey => 5
  | .encryptValue _ | .failed => 0

theorem returns_some {lookup : Lookup} (h : lookup ≠ .second true) (key : Bytes) :
    lookup.returns (some key) = .encryptValue key := by
  rcases lookup with _ | _ | _
  · rfl
  · rfl
  · exact absurd rfl h

/-- Keys can be encoded: without a key that encrypts keys, or because the cipher encrypts under
it. -/
def EncodesKeys (S : CryptoServices Seed Key V) (kek : Option Bytes) : Prop :=
  ∀ seed key, ∃ keyText, (S.handler kek .shiro).encodeKey seed key = .ok keyText

/-- **What a step keeps**, and that it takes its call closer to its end. -/
theorem keyStep_spec (h : S.KeysAgree kek C s) (hinverts : S.Inverts)
    (hencodes : S.EncodesKeys kek) {step : KeyStep Call Seed}
    (hstep : S.keyStep kek C s step = some s') :
    S.KeysAgree kek C s' ∧ (s'.phase step.call).rank < (s.phase step.call).rank ∧
      ∀ call', call' ≠ step.call → s'.phase call' = s.phase call' := by
  have hagrees := h.phase step.call
  -- the steps that change only where the call is
  have hgoTo : ∀ phase, S.PhaseAgrees kek C s step.call phase →
      phase.rank < (s.phase step.call).rank →
      S.KeysAgree kek C (s.goTo step.call phase) ∧
        ((s.goTo step.call phase).phase step.call).rank < (s.phase step.call).rank ∧
        ∀ call', call' ≠ step.call → (s.goTo step.call phase).phase call' = s.phase call' :=
    fun phase hphase hrank =>
      ⟨h.goTo hphase, (congrArg Phase.rank (Function.update_self _ _ _)).trans_lt hrank,
        fun call' hne => Function.update_of_ne hne _ _⟩
  rw [keyStep] at hstep
  dsimp only at hstep
  cases hcase : s.phase step.call with
  | findKey lookup =>
    rw [hcase] at hstep hagrees hgoTo
    dsimp only at hstep
    split_ifs at hstep with hsome
    · cases hstep
      exact hgoTo _ ⟨hagrees.1, Option.isSome_iff_exists.mp hsome⟩ (by simp [Phase.rank])
    · cases hstep
      exact hgoTo _ hagrees (by simp [Phase.rank])
  | queryOne lookup =>
    rw [hcase] at hstep hagrees hgoTo
    dsimp only at hstep
    rcases h.row step.call with hnone | ⟨key, hkey⟩
    · -- there is no row, so that this is the first look-up
      have hstored : S.storedKey kek s.store .shiro (C.keyName step.call) = .ok none := by
        rw [storedKey, hnone]
        rfl
      have hnokey : ¬∃ key, S.Stored kek C s step.call key := by
        rintro ⟨key, hkey⟩
        cases hstored.symm.trans hkey
      obtain rfl : lookup = .first := hagrees.2.resolve_right hnokey
      rw [hstored] at hstep
      cases hstep
      exact hgoTo _ trivial (by decide)
    · rw [show S.storedKey kek s.store .shiro (C.keyName step.call) = .ok (some key) from hkey]
        at hstep
      cases hstep
      exact hgoTo _ ⟨hagrees.1, hkey⟩ (by simp [Phase.rank])
  | putIfAbsent lookup keyBytes =>
    rw [hcase] at hstep hagrees
    cases hstep
    refine ⟨h.putIfAbsent hagrees.1 hagrees.2, ?_, fun call' hne => Function.update_of_ne hne _ _⟩
    refine (congrArg Phase.rank (Function.update_self _ _ _)).trans_lt ?_
    simp [Phase.rank]
  | getKey lookup =>
    rw [hcase] at hstep hagrees hgoTo
    obtain ⟨hlookup, key, hkey⟩ := hagrees
    dsimp only at hstep
    rw [hkey, returns_some hlookup] at hstep
    cases hstep
    exact hgoTo _ (h.cache _ _ _ _ hkey) (Nat.succ_pos _)
  | createKey =>
    rw [hcase] at hstep
    obtain ⟨hsecond, hcreated⟩ := h.createKey hinverts step.call
      (hencodes step.seed step.newKey)
    dsimp only at hstep
    rw [hsecond] at hstep
    cases hstep
    refine ⟨hcreated, ?_, fun call' hne => Function.update_of_ne hne _ _⟩
    exact (congrArg Phase.rank (Function.update_self _ _ _)).trans_lt (by decide)
  | encryptValue key =>
    rw [hcase] at hstep
    cases hstep
  | failed =>
    rw [hcase] at hstep
    cases hstep

theorem reachable_agrees (hinverts : S.Inverts) (hencodes : S.EncodesKeys kek)
    (h : (S.keyCreation kek C).Reachable s) : S.KeysAgree kek C s := by
  refine h.invariant (P := S.KeysAgree kek C) ?_ ?_
  · rintro s ⟨hcache, hnew, hfirst⟩
    refine ⟨hcache, fun call => .inl (hnew call), fun call => ?_⟩
    rw [hfirst call]
    exact ⟨by decide, .inl rfl⟩
  · intro s step s' _ hagrees hstep
    exact (keyStep_spec hagrees hinverts hencodes hstep).1

/-- **The calls of a name encrypt with one key**, which is the stored one, and each call that does
not yet encrypt has a step that takes it closer. -/
structure OneKey (S : CryptoServices Seed Key V) (kek : Option Bytes) (C : Calls Server Call)
    (s : KeyState Server Call) : Prop where
  stored : ∀ call key, s.phase call = .encryptValue key → S.Stored kek C s call key
  same : ∀ call call' key key', C.keyName call = C.keyName call' →
    s.phase call = .encryptValue key → s.phase call' = .encryptValue key' → key = key'
  arrives : ∀ call, (∃ key, s.phase call = .encryptValue key) ∨
    ∀ newKey seed, ∃ s', S.keyStep kek C s ⟨call, newKey, seed⟩ = some s' ∧
      (s'.phase call).rank < (s.phase call).rank ∧
        ∀ call', call' ≠ call → s'.phase call' = s.phase call'

theorem exists_keyStep (h : S.KeysAgree kek C s) (call : Call) (newKey : Bytes) (seed : Seed) :
    (∃ key, s.phase call = .encryptValue key) ∨
      ∃ s', S.keyStep kek C s ⟨call, newKey, seed⟩ = some s' := by
  have hagrees := h.phase call
  rw [keyStep]
  dsimp only
  cases hcase : s.phase call with
  | findKey lookup =>
    dsimp only
    split_ifs
    · exact .inr ⟨_, rfl⟩
    · exact .inr ⟨_, rfl⟩
  | queryOne lookup =>
    dsimp only
    cases S.storedKey kek s.store .shiro (C.keyName call) with
    | error e => exact .inr ⟨_, rfl⟩
    | ok key =>
      cases key with
      | none => exact .inr ⟨_, rfl⟩
      | some key => exact .inr ⟨_, rfl⟩
  | putIfAbsent lookup keyBytes => exact .inr ⟨_, rfl⟩
  | getKey lookup => exact .inr ⟨_, rfl⟩
  | createKey => exact .inr ⟨_, rfl⟩
  | encryptValue key => exact .inl ⟨key, rfl⟩
  | failed =>
    -- the invariant excludes it
    rw [hcase] at hagrees
    exact hagrees.elim

theorem oneKey_of_reachable (hinverts : S.Inverts) (hencodes : S.EncodesKeys kek)
    (h : (S.keyCreation kek C).Reachable s) : S.OneKey kek C s := by
  have hagrees := reachable_agrees hinverts hencodes h
  have hstored : ∀ call key, s.phase call = .encryptValue key → S.Stored kek C s call key := by
    intro call key hcall
    have := hagrees.phase call
    rwa [hcall] at this
  refine ⟨hstored, fun call call' key key' hname hcall hcall' => ?_, fun call => ?_⟩
  · have hkey := hstored call key hcall
    rw [Stored, hname] at hkey
    cases hkey.symm.trans (hstored call' key' hcall')
    rfl
  · by_cases hend : ∃ key, s.phase call = .encryptValue key
    · exact .inl hend
    · refine .inr fun newKey seed => ?_
      obtain ⟨s', hs'⟩ := (exists_keyStep hagrees call newKey seed).resolve_left hend
      exact ⟨s', hs', (keyStep_spec hagrees hinverts hencodes hs').2⟩

end Invariant

/-! ### Old values and new keys -/

/-- **An encrypted value is decrypted** exactly if no handler that is tried before the one that has
encrypted it throws an exception of the runtime, and **calls that create a key at the same time**
encrypt with the one that is stored. -/
theorem entityCrypto_right_iff (S : CryptoServices Seed Key V) (kek : Option Bytes)
    (hinverts : S.Inverts) (hencodes : S.EncodesKeys kek) :
    (∀ (store : KeyStore) (keyMap : KeyMap) (keyName : Text) (encryptMethod : EncryptMethod)
      (encryptedString : Text) (kind : Handler) (key : Bytes) (draw : Draw Seed) (v : V),
      S.IsCache kek store keyMap → S.storedKey kek store kind keyName = .ok (some key) →
      (S.handler kek kind).encryptValue draw encryptMethod key (S.getBytes v) =
        .ok encryptedString →
      S.FailsOnForeign kek store keyName encryptMethod encryptedString kind key →
      ((S.decrypt kek store keyName encryptMethod encryptedString keyMap).1 = .ok v ↔
        ∀ kind' ∈ triedBefore kind,
          ¬S.ThrowsRuntime kek store keyName encryptMethod encryptedString kind')) ∧
      ∀ (Server Call : Type) [DecidableEq Server] [DecidableEq Call] (C : Calls Server Call)
        (s : KeyState Server Call), (S.keyCreation kek C).Reachable s → S.OneKey kek C s :=
  ⟨fun _ _ _ _ _ _ _ _ _ hcache hkey henc hforeign =>
      decrypt_eq_ok_iff hinverts hcache hkey henc hforeign,
    fun _ _ _ _ _ _ hreachable => oneKey_of_reachable hinverts hencodes hreachable⟩

/-! ### A key of two generations -/

section Sample

open OfficeAuto.Base

def hexPairs : Text → Option Bytes
  | [] => some []
  | [_] => none
  | high :: low :: str =>
    if HashCrypt.hexChar.contains high && HashCrypt.hexChar.contains low then
      (hexPairs str).map
        (UInt8.ofNat (HashCrypt.hexChar.idxOf high * 16 + HashCrypt.hexChar.idxOf low) :: ·)
    else none

theorem hexChar_digit (k : Fin 16) :
    HashCrypt.hexChar.contains (HashCrypt.hexChar.getD k '0') = true ∧
    HashCrypt.hexChar.idxOf (HashCrypt.hexChar.getD k '0') = k ∧
    HashCrypt.hexChar.getD k '0' ≠ ' ' ∧ HashCrypt.hexChar.getD k '0' ≠ ':' := by
  revert k
  decide

theorem div_lt_sixteen (b : UInt8) : b.toNat / 16 < 16 :=
  Nat.div_lt_of_lt_mul b.toNat_lt

theorem mod_lt_sixteen (b : UInt8) : b.toNat % 16 < 16 := Nat.mod_lt _ (by decide)

theorem hexPairs_encodeInt (b : UInt8) (str : Text) :
    hexPairs (HashCrypt.encodeInt b.toNat ++ str) = (hexPairs str).map (b :: ·) := by
  obtain ⟨hhigh, hhigh', -⟩ := hexChar_digit ⟨_, div_lt_sixteen b⟩
  obtain ⟨hlow, hlow', -⟩ := hexChar_digit ⟨_, mod_lt_sixteen b⟩
  dsimp only at hhigh hhigh' hlow hlow'
  rw [HashCrypt.encodeInt, List.cons_append, List.cons_append, List.nil_append, hexPairs, hhigh,
    hlow, hhigh', hlow', Bool.and_true, if_pos rfl, Nat.div_add_mod', UInt8.ofNat_toNat]

theorem hexPairs_encodeHex (bytes : Bytes) :
    hexPairs (bytes.flatMap fun b => HashCrypt.encodeInt b.toNat) = some bytes := by
  induction bytes with
  | nil => rfl
  | cons b bytes ih =>
    rw [List.flatMap_cons, hexPairs_encodeInt, ih]
    rfl

theorem digits_encodeInt (b : UInt8) : ∀ c ∈ HashCrypt.encodeInt b.toNat, c ≠ ' ' ∧ c ≠ ':' :=
  List.forall_mem_cons.mpr ⟨(hexChar_digit ⟨_, div_lt_sixteen b⟩).2.2,
    List.forall_mem_singleton.mpr (hexChar_digit ⟨_, mod_lt_sixteen b⟩).2.2⟩

/-- A cipher that puts the key before the bytes, and what it returns under another key. -/
def keyFirst (other : Except Thrown Bytes) : Cipher Unit Bytes where
  encrypt _ key bytes := .ok (key ++ bytes)
  decrypt key bytes := if key.isPrefixOf bytes then .ok (bytes.drop key.length) else other

theorem inverts_keyFirst (other : Except Thrown Bytes) : (keyFirst other).Inverts := by
  intro seed key bytes encBytes h
  cases h
  dsimp only [keyFirst]
  rw [if_pos (List.isPrefixOf_iff_prefix.mpr (List.prefix_append key bytes)), List.drop_left]

/-- Under another key the cipher for DES returns a byte that is no object, and the one of Shiro
throws. -/
def sampleServices : CryptoServices Unit Bytes Bool where
  toLibraries :=
    { HashCrypt.markedLibraries (fun _ _ => false) with
      messageDigest := fun type => if type = "SHA".toList then some id else none
      name_digest := fun type h => by
        split_ifs at h with htype
        · exact htype ▸ by decide
        · cases h }
  isSome_sha := rfl
  defaultBytes := HashCrypt.utf8
  decodeHex := hexPairs
  decodeHex_encodeHex := hexPairs_encodeHex
  digits_encodeHex bytes c hc := by
    obtain ⟨b, -, hc⟩ := List.mem_flatMap.mp hc
    exact digits_encodeInt b c hc
  computeHash name := Base64.base64Encode (HashCrypt.utf8 name)
  cipherService := keyFirst (.error (.runtime "org.apache.shiro.crypto.CryptoException"))
  saltedCipherService := keyFirst (.error (.runtime "org.apache.shiro.crypto.CryptoException"))
  getDesKey := .ok
  desCipher := keyFirst (.ok [100])
  getBytes v := [if v then 1 else 0]
  getObjectException
    | [0] => .ok false
    | [1] => .ok true
    | _ => .error (.general "java.io.IOException")

theorem inverts_sampleServices : sampleServices.Inverts where
  cipherService := inverts_keyFirst _
  saltedCipherService := inverts_keyFirst _
  desCipher := inverts_keyFirst _
  getObjectException v := by cases v <;> rfl

/-- The rows of one name: a key of the hexadecimal names and one of the names in Base64. -/
def sampleStore : KeyStore := fun keyName =>
  if keyName = "{SHA}6b".toList then some (some "0102".toList)
  else if keyName = "{SHA}aw".toList then some (some "Aw==".toList)
  else none

def sampleDraw : Draw Unit where
  seed := ()
  salt := [0, 0, 0, 0, 0]
  length_salt := by decide

theorem failsOnForeign_sample : sampleServices.FailsOnForeign none sampleStore "k".toList .TRUE
    "010201".toList .normalHash [1, 2] := by
  intro kind' key' hkey' hother bytes hbytes
  cases kind' with
  | shiro => cases hkey'
  | saltedBase64 =>
    cases hkey'
    cases hbytes
  | normalHash =>
    cases hkey'
    rcases hother with hformat | hne
    · exact absurd (.inl rfl) hformat
    · exact absurd rfl hne
  | oldFunnyHash => cases hkey'

/-- A text of the hexadecimal names, where there is a key of the names in Base64 too: the byte that
the cipher returns under that key is taken for the length of a salt. -/
theorem decrypt_sampleStore :
    sampleServices.Inverts ∧
      sampleServices.storedKey none sampleStore .normalHash "k".toList = .ok (some [1, 2]) ∧
      (sampleServices.handler none .normalHash).encryptValue sampleDraw .TRUE [1, 2]
        (sampleServices.getBytes true) = .ok "010201".toList ∧
      sampleServices.FailsOnForeign none sampleStore "k".toList .TRUE "010201".toList .normalHash
        [1, 2] ∧
      (sampleServices.decrypt none sampleStore "k".toList .TRUE "010201".toList fun _ => none).1 =
        .error (.runtime "java.lang.NegativeArraySizeException") :=
  ⟨inverts_sampleServices, by rfl, by rfl, failsOnForeign_sample, by rfl⟩

theorem entityCrypto_right_iff_sample :
    ((sampleServices.decrypt none sampleStore "k".toList .TRUE "010201".toList fun _ => none).1 =
        .ok true ↔
      ∀ kind' ∈ triedBefore .normalHash,
        ¬sampleServices.ThrowsRuntime none sampleStore "k".toList .TRUE "010201".toList kind') ∧
      sampleServices.OneKey none ⟨id, fun _ : Unit => "n".toList⟩
        ⟨fun _ _ => none, sampleStore, fun _ => .findKey .first⟩ := by
  obtain ⟨hdecrypt, hcreate⟩ := entityCrypto_right_iff sampleServices none inverts_sampleServices
    fun _ _ => ⟨_, rfl⟩
  refine ⟨hdecrypt _ _ _ _ _ _ _ sampleDraw true isCache_empty (by rfl) (by rfl)
    failsOnForeign_sample, hcreate Unit Unit _ _ (.init ⟨fun _ => isCache_empty, ?_, ?_⟩)⟩
  · intro call
    rfl
  · intro call
    rfl

end Sample

end OfficeAuto.Entity.EntityCrypto.CryptoServices
