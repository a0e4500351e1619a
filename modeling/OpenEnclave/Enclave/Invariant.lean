import OpenEnclave.Crypto.Calls
import OpenEnclave.Enclave.Basic
import OpenEnclave.Lib.Mealy
import Mathlib.Tactic.Common

/-!
# Enclave — what every reachable enclave state looks like

`Sealed` ties a stored blob to the plaintext it was made from, and
`decryptBlob` is settled once for every sealed blob. `Inv` is the
invariant of an initialized enclave after `n` successful loads: every
stored blob and every module's code is sealed under the one master key,
and the module ids in use are the first `n` values of the 64-bit
counter. `performed` says once what an operation can come to; the
invariant and every later frame fact follow from it.
-/

namespace OpenEnclave

open ByteCodec Crypto

namespace EnclaveImpl

/-! ## The master key -/

theorem master_eq {e : EnclaveImpl} {key : SecureKey} (hk : e.masterKey = some key)
    (h : e.initialized = true) : e.master h = key := by
  simp [master, hk]

theorem master_isValid {e : EnclaveImpl} (h : e.initialized = true) :
    (e.master h).isValid = true := by
  obtain ⟨key, hk, hv⟩ := e.key_of_initialized h
  rw [master_eq hk h, hv]

/-- The key bytes every blob of the enclave is sealed under. -/
def keyBytes (e : EnclaveImpl) : Option Key := e.masterKey.map SecureKey.keyData

theorem keyBytes_eq {e : EnclaveImpl} (h : e.initialized = true) :
    e.keyBytes = some (e.master h).keyData := by
  obtain ⟨key, hk, -⟩ := e.key_of_initialized h
  rw [keyBytes, hk, master_eq hk h]
  rfl

section
variable [Host]

/-! ## Sealed blobs -/

/-- `blob` was made by `Encrypt` and `Serialize` from `data`, under one of
the enclave's size limits. -/
structure Sealed (ssl : OpenSSL) (key : Key) (blob data : Bytes) : Prop where
  container : ∃ iv, blob = (ssl.seal key iv data).serialize
  size : data.length ≤ maxDataSize

theorem decryptBlob_of_deserialize {ssl : OpenSSL} {calls : DecryptCalls} {key : SecureKey}
    {blob : Bytes} {encrypted : EncryptedData}
    (h : EncryptedData.deserialize blob = .ok encrypted) :
    decryptBlob ssl calls key blob =
      if (CryptoModule.decrypt ssl calls key encrypted [] []).1 then
        some (CryptoModule.decrypt ssl calls key encrypted [] []).2
      else none := by
  simp only [decryptBlob, h]
  obtain ⟨ok, out⟩ := CryptoModule.decrypt ssl calls key encrypted [] []
  cases ok <;> rfl

/-- A sealed blob deserializes, its tag matches, and what comes back is
as long as the plaintext — the plaintext itself, for a lawful GCM. -/
theorem decryptBlob_sealed {ssl : OpenSSL} {key : SecureKey} (hkey : key.isValid = true)
    {blob data : Bytes} (h : Sealed ssl key.keyData blob data) (calls : DecryptCalls) :
    ∃ out, out.length = data.length ∧ (ssl.Lawful → out = data) ∧
      decryptBlob ssl calls key blob = if calls.success then some out else none := by
  obtain ⟨⟨iv, rfl⟩, hsize⟩ := h
  have hmax : maxDataSize < 2 ^ 31 := by decide
  have hct := ssl.seal_ciphertext_length key.keyData iv data
  have hlen : (ssl.seal key.keyData iv data).ciphertext.length < 2 ^ 31 := by omega
  have hround : EncryptedData.deserialize (ssl.seal key.keyData iv data).serialize
      = .ok (ssl.seal key.keyData iv data) :=
    EncryptedData.deserialize_serialize (by omega)
  have hfst : (CryptoModule.decrypt ssl calls key (ssl.seal key.keyData iv data) [] []).1
      = calls.success := by
    rw [decrypt_fst ssl calls hkey hlen]
    simp [OpenSSL.seal]
  refine ⟨ssl.decryptBytes key.keyData iv (ssl.encryptBytes key.keyData iv data), by simp,
    fun hl => hl.decrypt_encrypt _ _ _, ?_⟩
  rw [decryptBlob_of_deserialize hround, hfst]
  by_cases hc : calls.success = true
  · rw [if_pos hc, if_pos hc, decrypt_snd ssl calls hlen (hfst.trans hc)]
    rfl
  · rw [if_neg hc, if_neg hc]

/-! ## The operations of an initialized enclave -/

/-- The keys `StoreData` and `RetrieveData` accept. -/
def ValidKey (key : Bytes) : Prop := 1 ≤ key.length ∧ key.length ≤ 256

/-- The data `LoadModule` and `StoreData` accept. -/
def ValidData (data : Bytes) : Prop := 1 ≤ data.length ∧ data.length ≤ maxDataSize

instance (key : Bytes) : Decidable (ValidKey key) := inferInstanceAs (Decidable (_ ∧ _))

instance (data : Bytes) : Decidable (ValidData data) := inferInstanceAs (Decidable (_ ∧ _))

omit [Host] in
theorem not_validKey_iff {key : Bytes} :
    (key.isEmpty = true ∨ key.length > 256) ↔ ¬ ValidKey key := by
  rw [List.isEmpty_iff_length_eq_zero, ValidKey]
  omega

omit [Host] in
theorem not_validData_iff {data : Bytes} :
    (data.isEmpty = true ∨ data.length > maxDataSize) ↔ ¬ ValidData data := by
  rw [List.isEmpty_iff_length_eq_zero, ValidData]
  omega

/-- The module entry a load under `iv` creates. -/
def moduleEntry (ssl : OpenSSL) (key : Key) (iv : IV) (id : UInt64) (data : Bytes) :
    LoadedModule where
  id := id
  encryptedCode := (ssl.seal key iv data).serialize
  functionTable := stubFunctionTable

/-- The state after a successful load. -/
def addModule (module : LoadedModule) (e : EnclaveImpl) : EnclaveImpl :=
  { e with
    nextModuleId := e.nextModuleId + 1
    modules := Function.update e.modules e.nextModuleId (some module) }

/-- The state after a successful store. -/
def putBlob (key blob : Bytes) (e : EnclaveImpl) : EnclaveImpl :=
  { e with secureStorage := Function.update e.secureStorage key (some blob) }

omit [Host] in
@[simp] theorem addModule_modules_self (module : LoadedModule) (e : EnclaveImpl) :
    (e.addModule module).modules e.nextModuleId = some module :=
  Function.update_self ..

omit [Host] in
theorem addModule_modules_of_ne (module : LoadedModule) {e : EnclaveImpl} {id : UInt64}
    (h : id ≠ e.nextModuleId) : (e.addModule module).modules id = e.modules id :=
  Function.update_of_ne h ..

omit [Host] in
@[simp] theorem putBlob_secureStorage_self (key blob : Bytes) (e : EnclaveImpl) :
    (e.putBlob key blob).secureStorage key = some blob :=
  Function.update_self ..

omit [Host] in
theorem putBlob_secureStorage_of_ne {key k : Bytes} (blob : Bytes) (e : EnclaveImpl)
    (h : k ≠ key) : (e.putBlob key blob).secureStorage k = e.secureStorage k :=
  Function.update_of_ne h ..

omit [Host] in
theorem encrypt_valid (ssl : OpenSSL) (calls : EncryptCalls) {e : EnclaveImpl}
    (h : e.initialized = true) {data : Bytes} (hd : ValidData data) :
    CryptoModule.encrypt ssl calls (e.master h) data [] =
      calls.success.map fun iv => ssl.seal (e.master h).keyData iv data := by
  have hmax : maxDataSize < 2 ^ 31 := by decide
  obtain ⟨-, hle⟩ := hd
  exact encrypt_eq ssl calls (master_isValid h) (by omega)

theorem loadModule_eq (ssl : OpenSSL) (calls : Calls) (data : Bytes) {e : EnclaveImpl}
    (h : e.initialized = true) :
    e.loadModule ssl calls data =
      if ValidData data then
        match calls.encrypt.success with
        | none => (.error .errorCryptoFailure, e)
        | some iv => (.ok e.nextModuleId,
            e.addModule (moduleEntry ssl (e.master h).keyData iv e.nextModuleId data))
      else (.error .errorInvalidParameter, e) := by
  rw [loadModule, dif_pos h]
  by_cases hd : ValidData data
  · rw [if_neg (fun hc => not_validData_iff.mp hc hd), if_pos hd, encrypt_valid ssl _ h hd]
    cases calls.encrypt.success <;> rfl
  · rw [if_pos (not_validData_iff.mpr hd), if_neg hd]

theorem storeData_eq (ssl : OpenSSL) (calls : Calls) (key data : Bytes) {e : EnclaveImpl}
    (h : e.initialized = true) :
    e.storeData ssl calls key data =
      if ValidKey key ∧ ValidData data then
        match calls.encrypt.success with
        | none => (.error .errorCryptoFailure, e)
        | some iv => (.ok (),
            e.putBlob key (ssl.seal (e.master h).keyData iv data).serialize)
      else (.error .errorInvalidParameter, e) := by
  rw [storeData, dif_pos h]
  by_cases hk : ValidKey key
  · by_cases hd : ValidData data
    · rw [if_neg (fun hc => not_validKey_iff.mp hc hk),
        if_neg (fun hc => not_validData_iff.mp hc hd), if_pos ⟨hk, hd⟩,
        encrypt_valid ssl _ h hd]
      cases calls.encrypt.success <;> rfl
    · rw [if_neg (fun hc => not_validKey_iff.mp hc hk), if_pos (not_validData_iff.mpr hd),
        if_neg (fun hc => hd hc.2)]
  · rw [if_pos (not_validKey_iff.mpr hk), if_neg (fun hc => hk hc.1)]

theorem retrieveData_eq (ssl : OpenSSL) (calls : Calls) (key : Bytes) {e : EnclaveImpl}
    (h : e.initialized = true) :
    e.retrieveData ssl calls key =
      if ValidKey key then
        match e.secureStorage key with
        | none => .error .errorFunctionNotFound
        | some blob =>
          match decryptBlob ssl calls.decrypt (e.master h) blob with
          | none => .error .errorCryptoFailure
          | some plaintext => .ok plaintext
      else .error .errorInvalidParameter := by
  rw [retrieveData, dif_pos h]
  by_cases hk : ValidKey key
  · exact (if_neg fun hc => not_validKey_iff.mp hc hk).trans (if_pos hk).symm
  · exact (if_pos (not_validKey_iff.mpr hk)).trans (if_neg hk).symm

/-- What an operation of an initialized enclave can come to: its result
and the state after it. -/
inductive Performed (ssl : OpenSSL) (calls : Calls) (master : SecureKey) (e : EnclaveImpl) :
    (op : EnclaveOp) → Result op.Output → EnclaveImpl → Prop where
  | failed {op : EnclaveOp} (status : EnclaveStatus) :
      Performed ssl calls master e op (.error status) e
  | loaded {data : Bytes} (iv : IV) : ValidData data →
      Performed ssl calls master e (.loadModule data) (.ok e.nextModuleId)
        (e.addModule (moduleEntry ssl master.keyData iv e.nextModuleId data))
  | invoked {handle : UInt64} {name params : Bytes} :
      Performed ssl calls master e (.invokeFunction handle name params)
        (.ok (params ++ [0x42])) e
  | stored {key data : Bytes} (iv : IV) : ValidData data →
      Performed ssl calls master e (.storeData key data) (.ok ())
        (e.putBlob key (ssl.seal master.keyData iv data).serialize)
  | retrieved {key blob value : Bytes} : e.secureStorage key = some blob →
      decryptBlob ssl calls.decrypt master blob = some value →
      Performed ssl calls master e (.retrieveData key) (.ok value) e
  | attested :
      Performed ssl calls master e .getAttestation
        (.ok (nativeBytes 4 1 ++ nativeBytes 8 0x0123456789ABCDEF ++
          (ssl.sha256 [0x01, 0x02, 0x03, 0x04]).toList)) e

/-- **What an operation can do**: the frame of every later argument. -/
theorem performed (ssl : OpenSSL) (calls : Calls) (op : EnclaveOp) {e : EnclaveImpl}
    (h : e.initialized = true) :
    Performed ssl calls (e.master h) e op (e.perform ssl calls op).1
      (e.perform ssl calls op).2 := by
  cases op with
  | loadModule data =>
      simp only [perform, loadModule_eq ssl calls data h]
      split
      · rename_i hd
        cases calls.encrypt.success with
        | none => exact .failed _
        | some iv => exact .loaded iv hd
      · exact .failed _
  | storeData key data =>
      simp only [perform, storeData_eq ssl calls key data h]
      split
      · rename_i hd
        cases calls.encrypt.success with
        | none => exact .failed _
        | some iv => exact .stored iv hd.2
      · exact .failed _
  | invokeFunction handle name params =>
      simp only [perform, invokeFunction, dif_pos h]
      split
      · exact .failed _
      split
      · exact .failed _
      split
      · exact .failed _
      split
      · exact .failed _
      · exact .invoked
  | retrieveData key =>
      simp only [perform, retrieveData_eq ssl calls key h]
      split
      · split
        · exact .failed _
        · rename_i blob hb
          split
          · exact .failed _
          · rename_i value hv
            exact .retrieved hb hv
      · exact .failed _
  | getAttestation =>
      simp only [perform, getAttestation, if_pos h]
      exact .attested

/-! ## The invariant -/

/-- How many modules a finished call has added: one for a successful
load. -/
def loadCount : (op : EnclaveOp) → Result op.Output → Nat
  | .loadModule _, .ok _ => 1
  | _, _ => 0

/-- An initialized enclave after `n` successful loads, all under the
master key `key`. -/
structure Inv (ssl : OpenSSL) (key : Key) (n : Nat) (e : EnclaveImpl) : Prop where
  init : e.initialized = true
  key_eq : e.keyBytes = some key
  storage : ∀ k blob, e.secureStorage k = some blob → ∃ data, Sealed ssl key blob data
  entries : ∀ id m, e.modules id = some m → m.id = id ∧
    m.functionTable = stubFunctionTable ∧ ∃ data, Sealed ssl key m.encryptedCode data
  next : e.nextModuleId = UInt64.ofNat (n + 1)
  ids : ∀ id, (e.modules id).isSome = true ↔ ∃ i < n, id = UInt64.ofNat (i + 1)

theorem Inv.master_keyData {ssl : OpenSSL} {key : Key} {n : Nat} {e : EnclaveImpl}
    (hI : Inv ssl key n e) : (e.master hI.init).keyData = key := by
  have h := (keyBytes_eq hI.init).symm.trans hI.key_eq
  exact Option.some.inj h

/-- A created enclave satisfies the invariant with nothing loaded. -/
theorem inv_create (ssl : OpenSSL) {rand : Option Key} {e : EnclaveImpl}
    (h : Enclave.create rand = .ok e) : ∃ key, rand = some key ∧ Inv ssl key 0 e := by
  cases rand with
  | none => simp [Enclave.create, initializeEnclave, new, SecureKey.generate] at h
  | some key =>
      simp only [Enclave.create, initializeEnclave, new, SecureKey.generate, Option.map_some,
        Bool.false_eq_true, if_false, Except.ok.injEq] at h
      subst h
      refine ⟨key, rfl, rfl, rfl, ?_, ?_, rfl, ?_⟩
      · intro k blob hb; cases hb
      · intro id m hm; cases hm
      · intro id; simp

/-- The counter's value names a fresh module until the counter has gone
all the way round. -/
theorem Inv.fresh {ssl : OpenSSL} {key : Key} {n : Nat} {e : EnclaveImpl}
    (hI : Inv ssl key n e) (hn : n < 2 ^ 64) : e.modules e.nextModuleId = none := by
  rw [← Option.not_isSome_iff_eq_none, hI.ids, hI.next]
  intro h
  obtain ⟨i, hi, heq⟩ := h
  have := congrArg UInt64.toNat heq
  simp only [UInt64.toNat_ofNat'] at this
  omega

/-- While an id is free the counter has not gone round. -/
theorem Inv.lt_of_free {ssl : OpenSSL} {key : Key} {n : Nat} {e : EnclaveImpl}
    (hI : Inv ssl key n e) {id : UInt64} (hfree : e.modules id = none) : n < 2 ^ 64 := by
  by_contra hn
  rw [← Option.not_isSome_iff_eq_none, hI.ids] at hfree
  have hid := id.toNat_lt
  -- after a full round `id` has been handed out: as number `id - 1`, and 0 last
  refine hfree ⟨(id.toNat + (2 ^ 64 - 1)) % 2 ^ 64, ?_, ?_⟩
  · have := Nat.mod_lt (id.toNat + (2 ^ 64 - 1)) (show 0 < 2 ^ 64 by decide)
    omega
  · apply UInt64.toNat_inj.mp
    rw [UInt64.toNat_ofNat']
    omega

theorem Inv.addModule {ssl : OpenSSL} {key : Key} {n : Nat} {e : EnclaveImpl}
    (hI : Inv ssl key n e) (iv : IV) {data : Bytes} (hd : ValidData data) :
    Inv ssl key (n + 1)
      (e.addModule (moduleEntry ssl (e.master hI.init).keyData iv e.nextModuleId data)) where
  init := hI.init
  key_eq := hI.key_eq
  storage := hI.storage
  entries := by
    intro id m hm
    by_cases hid : id = e.nextModuleId
    · subst hid
      rw [addModule_modules_self, Option.some.injEq] at hm
      subst hm
      refine ⟨rfl, rfl, data, ⟨iv, ?_⟩, hd.2⟩
      rw [moduleEntry, hI.master_keyData]
    · rw [addModule_modules_of_ne _ hid] at hm
      exact hI.entries id m hm
  next := by
    rw [EnclaveImpl.addModule, hI.next]
    exact (UInt64.ofNat_add (n + 1) 1).symm
  ids := by
    intro id
    -- the ids in use gain the counter's value, in use already or not
    have hlast : (∃ i < n + 1, id = UInt64.ofNat (i + 1)) ↔
        id = UInt64.ofNat (n + 1) ∨ ∃ i < n, id = UInt64.ofNat (i + 1) := by
      constructor
      · intro hr
        obtain ⟨i, hi, h⟩ := hr
        rcases Nat.lt_succ_iff_lt_or_eq.mp hi with hlt | rfl
        · exact .inr ⟨i, hlt, h⟩
        · exact .inl h
      · intro hr
        rcases hr with h | ⟨i, hi, h⟩
        · exact ⟨n, by omega, h⟩
        · exact ⟨i, by omega, h⟩
    rw [hlast, ← hI.next, ← hI.ids]
    by_cases hid : id = e.nextModuleId
    · subst hid
      simp
    · rw [addModule_modules_of_ne _ hid]
      simp [hid]

theorem Inv.putBlob {ssl : OpenSSL} {key : Key} {n : Nat} {e : EnclaveImpl}
    (hI : Inv ssl key n e) (k : Bytes) (iv : IV) {data : Bytes} (hd : ValidData data) :
    Inv ssl key n (e.putBlob k (ssl.seal (e.master hI.init).keyData iv data).serialize) where
  init := hI.init
  key_eq := hI.key_eq
  storage := by
    intro k' blob hb
    by_cases hk : k' = k
    · subst hk
      rw [putBlob_secureStorage_self, Option.some.injEq] at hb
      exact ⟨data, ⟨iv, by rw [← hb, hI.master_keyData]⟩, hd.2⟩
    · rw [putBlob_secureStorage_of_ne _ _ hk] at hb
      exact hI.storage k' blob hb
  entries := hI.entries
  next := hI.next
  ids := hI.ids

/-- **One step keeps the invariant**, and counts the loads. -/
theorem Inv.perform {ssl : OpenSSL} {key : Key} {n : Nat} {e : EnclaveImpl}
    (hI : Inv ssl key n e) (calls : Calls) (op : EnclaveOp) :
    Inv ssl key (n + loadCount op (e.perform ssl calls op).1) (e.perform ssl calls op).2 := by
  have h := performed ssl calls op hI.init
  generalize e.perform ssl calls op = r at h ⊢
  obtain ⟨result, e'⟩ := r
  cases h with
  | failed status => cases op <;> exact hI
  | loaded iv hd => exact hI.addModule iv hd
  | invoked => exact hI
  | stored iv hd => exact hI.putBlob _ iv hd
  | retrieved hb hv => exact hI
  | attested => exact hI

/-- A retrieved value is no longer than what was stored. -/
theorem Inv.decryptBlob_length {ssl : OpenSSL} {key : Key} {n : Nat} {e : EnclaveImpl}
    (hI : Inv ssl key n e) {calls : DecryptCalls} {k blob value : Bytes}
    (hb : e.secureStorage k = some blob)
    (hv : decryptBlob ssl calls (e.master hI.init) blob = some value) :
    value.length ≤ maxDataSize := by
  obtain ⟨data, hs⟩ := hI.storage k blob hb
  have hsize := hs.size
  rw [← hI.master_keyData] at hs
  obtain ⟨out, hlen, -, hd⟩ := decryptBlob_sealed (master_isValid hI.init) hs calls
  rw [hd] at hv
  split at hv
  · cases hv
    omega
  · cases hv

/-- The states of a created enclave after any calls, with the number of
successful loads among them. -/
inductive Reachable (ssl : OpenSSL) : Nat → EnclaveImpl → Prop where
  | create {rand e} : Enclave.create rand = .ok e → Reachable ssl 0 e
  | perform {n e} (calls : Calls) (op : EnclaveOp) : Reachable ssl n e →
      Reachable ssl (n + loadCount op (e.perform ssl calls op).1) (e.perform ssl calls op).2

theorem Reachable.inv {ssl : OpenSSL} {n : Nat} {e : EnclaveImpl} (h : Reachable ssl n e) :
    ∃ key, Inv ssl key n e := by
  induction h with
  | create h =>
      obtain ⟨key, -, hI⟩ := inv_create ssl h
      exact ⟨key, hI⟩
  | perform calls op _ ih =>
      obtain ⟨key, hI⟩ := ih
      exact ⟨key, hI.perform calls op⟩

end

end EnclaveImpl

end OpenEnclave
