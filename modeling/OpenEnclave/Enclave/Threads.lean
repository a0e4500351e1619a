import OpenEnclave.Lib.Monitor
import OpenEnclave.Enclave.Modules

/-!
# Threads — the enclave under concurrent calls

`EnclaveImpl` has a mutex, which every method but `GetAttestation` locks
after its parameter checks. What is read outside the lock, `initialized_`
and `crypto_module_`, no method writes. Here the methods are the source's, one
access to a member at a time, and any number of threads call them, in
any interleaving of the accesses. `enclave_guarded` is all that has to
be shown of them; the library (`Monitor`) then gives that no two threads
are ever at conflicting accesses (`threads_race_free`), that the threads'
results are those of one call after the other (`threads_linearizable`),
and that every call returns (`threads_return`). The sequential results
about the enclave carry over to threads: the store is an atomic map
(`threads_store_atomic`), and no load is lost to another
(`threads_loads_kept`).
-/

namespace OpenEnclave

open ByteCodec Crypto EnclaveImpl Effect Monitor Relation Linearizable

namespace Threads

/-! ## Accesses -/

/-- What a method does to the members of `EnclaveImpl`, one access at a
time. -/
inductive Access where
  | initialized
  /-- `crypto_module_->Encrypt(*master_key_, plaintext)`. -/
  | encrypt (calls : EncryptCalls) (plaintext : Bytes)
  /-- `crypto_module_->Decrypt(*master_key_, encrypted, {}, ...)`. -/
  | decrypt (calls : DecryptCalls) (encrypted : EncryptedData)
  /-- `next_module_id_++`. -/
  | takeModuleId
  | insertModule (id : UInt64) (module : LoadedModule)
  | findModule (handle : UInt64)
  /-- `it->second->function_table.find(name)`. -/
  | findFunction (handle : UInt64) (name : Bytes)
  /-- `it->second->encrypted_code`. -/
  | encryptedCode (handle : UInt64)
  | insertData (key blob : Bytes)
  | findData (key : Bytes)
  /-- `it->second`. -/
  | storedData (key : Bytes)
  /-- `crypto_module_->ComputeHash(data)`. -/
  | computeHash (data : Bytes)

@[reducible] def Access.Res : Access → Type
  | .initialized => Bool
  | .encrypt .. => Option EncryptedData
  | .decrypt .. => Bool × Bytes
  | .takeModuleId => UInt64
  | .insertModule .. => Unit
  | .findModule _ => Bool
  | .findFunction .. => Option UInt32
  | .encryptedCode _ => Bytes
  | .insertData .. => Unit
  | .findData _ => Bool
  | .storedData _ => Bytes
  | .computeHash _ => List.Vector UInt8 32

/-- A pointer or iterator that leads nowhere is followed. -/
inductive Dangling where
  | masterKey
  | module
  | data
deriving DecidableEq, Repr

def act (ssl : OpenSSL) : (o : Access) → EnclaveImpl → Except Dangling (o.Res × EnclaveImpl)
  | .initialized, e => .ok (e.initialized, e)
  | .encrypt calls plaintext, e =>
      match e.masterKey with
      | none => .error .masterKey
      | some key => .ok (CryptoModule.encrypt ssl calls key plaintext [], e)
  | .decrypt calls encrypted, e =>
      match e.masterKey with
      | none => .error .masterKey
      | some key => .ok (CryptoModule.decrypt ssl calls key encrypted [] [], e)
  | .takeModuleId, e => .ok (e.nextModuleId, { e with nextModuleId := e.nextModuleId + 1 })
  | .insertModule id module, e =>
      .ok ((), { e with modules := Function.update e.modules id (some module) })
  | .findModule handle, e => .ok ((e.modules handle).isSome, e)
  | .findFunction handle name, e =>
      match e.modules handle with
      | none => .error .module
      | some module => .ok (module.functionTable name, e)
  | .encryptedCode handle, e =>
      match e.modules handle with
      | none => .error .module
      | some module => .ok (module.encryptedCode, e)
  | .insertData key blob, e =>
      .ok ((), { e with secureStorage := Function.update e.secureStorage key (some blob) })
  | .findData key, e => .ok ((e.secureStorage key).isSome, e)
  | .storedData key, e =>
      match e.secureStorage key with
      | none => .error .data
      | some blob => .ok (blob, e)
  | .computeHash data, e => .ok (ssl.sha256 data, e)

/-! ## Methods -/

abbrev EnclaveMethod (α : Type) := Method Access Access.Res α

section
variable [Host]

def loadModule (calls : Calls) (moduleData : Bytes) : EnclaveMethod (Result UInt64) := do
  let initialized ← access Access.initialized
  if initialized = false then return .error .errorContextNotInitialized
  else if moduleData.isEmpty ∨ moduleData.length > maxDataSize then
    return .error .errorInvalidParameter
  else lockGuard do
    match ← access (Access.encrypt calls.encrypt moduleData) with
    | none => return .error .errorCryptoFailure
    | some encrypted => do
      let moduleId ← access Access.takeModuleId
      let module : LoadedModule :=
        { id := moduleId
          encryptedCode := encrypted.serialize
          functionTable := stubFunctionTable }
      access (Access.insertModule moduleId module)
      return .ok moduleId

def invokeFunction (calls : Calls) (moduleHandle : UInt64) (functionName params : Bytes) :
    EnclaveMethod (Result Bytes) := do
  let initialized ← access Access.initialized
  if initialized = false then return .error .errorContextNotInitialized
  else if functionName.isEmpty ∨ functionName.length > 256 then
    return .error .errorInvalidParameter
  else lockGuard do
    let found ← access (Access.findModule moduleHandle)
    if found = false then return .error .errorModuleLoadFailed
    else match ← access (Access.findFunction moduleHandle functionName) with
      | none => return .error .errorFunctionNotFound
      | some _ => do
        let code ← access (Access.encryptedCode moduleHandle)
        match EncryptedData.deserialize code with
        | .error _ => return .error .errorCryptoFailure
        | .ok encrypted => do
          let decrypted ← access (Access.decrypt calls.decrypt encrypted)
          if decrypted.1 = false then return .error .errorCryptoFailure
          else return .ok (params ++ [0x42])

def storeData (calls : Calls) (key data : Bytes) : EnclaveMethod (Result Unit) := do
  let initialized ← access Access.initialized
  if initialized = false then return .error .errorContextNotInitialized
  else if key.isEmpty ∨ key.length > 256 then return .error .errorInvalidParameter
  else if data.isEmpty ∨ data.length > maxDataSize then return .error .errorInvalidParameter
  else lockGuard do
    match ← access (Access.encrypt calls.encrypt data) with
    | none => return .error .errorCryptoFailure
    | some encrypted => do
      access (Access.insertData key encrypted.serialize)
      return .ok ()

def retrieveData (calls : Calls) (key : Bytes) : EnclaveMethod (Result Bytes) := do
  let initialized ← access Access.initialized
  if initialized = false then return .error .errorContextNotInitialized
  else if key.isEmpty ∨ key.length > 256 then return .error .errorInvalidParameter
  else lockGuard do
    let found ← access (Access.findData key)
    if found = false then return .error .errorFunctionNotFound
    else do
      let blob ← access (Access.storedData key)
      match EncryptedData.deserialize blob with
      | .error _ => return .error .errorCryptoFailure
      | .ok encrypted => do
        let decrypted ← access (Access.decrypt calls.decrypt encrypted)
        if decrypted.1 = false then return .error .errorCryptoFailure
        else return .ok decrypted.2

/-- The one method that does not lock, although it goes through
`crypto_module_` as well. -/
def getAttestation : EnclaveMethod (Result Bytes) := do
  let initialized ← access Access.initialized
  if initialized = false then return .error .errorContextNotInitialized
  else do
    let hash ← access (Access.computeHash [0x01, 0x02, 0x03, 0x04])
    return .ok (nativeBytes 4 1 ++ nativeBytes 8 0x0123456789ABCDEF ++ hash.toList)

/-- The method of a call. -/
def methodOf (calls : Calls) : (op : EnclaveOp) → EnclaveMethod (Result op.Output)
  | .loadModule moduleData => loadModule calls moduleData
  | .invokeFunction handle name params => invokeFunction calls handle name params
  | .storeData key data => storeData calls key data
  | .retrieveData key => retrieveData calls key
  | .getAttestation => getAttestation

/-- A call with the result it returns. -/
def method (i : Input) : EnclaveMethod (Σ op : EnclaveOp, Result op.Output) := do
  let result ← methodOf i.2 i.1
  return ⟨i.1, result⟩

/-! ## The discipline of the methods -/

/-- The accesses outside the lock: the check of `initialized_`, and the
hash of the attestation. -/
inductive IsCheck : Access → Prop where
  | initialized : IsCheck .initialized
  | computeHash (data : Bytes) : IsCheck (.computeHash data)

theorem bracketed_loadModule (calls : Calls) (moduleData : Bytes) :
    Bracketed IsCheck .before 6 (loadModule calls moduleData) := by
  refine .bind .initialized fun initialized => ?_
  split
  · exact .early _
  split
  · exact .early _
  refine .lockGuard (.bind fun encrypted => ?_)
  cases encrypted with
  | none => exact .ret _
  | some encrypted => exact .bind fun id => .bind fun _ => .ret _

theorem bracketed_invokeFunction (calls : Calls) (handle : UInt64) (name params : Bytes) :
    Bracketed IsCheck .before 7 (invokeFunction calls handle name params) := by
  refine .bind .initialized fun initialized => ?_
  split
  · exact .early _
  split
  · exact .early _
  refine .lockGuard (.bind fun found => ?_)
  split
  · exact .ret _
  refine .bind fun offset => ?_
  cases offset with
  | none => exact .ret _
  | some offset =>
      refine .bind fun code => ?_
      cases EncryptedData.deserialize code with
      | error fault => exact .ret _
      | ok encrypted =>
          refine .bind fun decrypted => ?_
          split
          · exact .ret _
          · exact .ret _

theorem bracketed_storeData (calls : Calls) (key data : Bytes) :
    Bracketed IsCheck .before 5 (storeData calls key data) := by
  refine .bind .initialized fun initialized => ?_
  split
  · exact .early _
  split
  · exact .early _
  split
  · exact .early _
  refine .lockGuard (.bind fun encrypted => ?_)
  cases encrypted with
  | none => exact .ret _
  | some encrypted => exact .bind fun _ => .ret _

theorem bracketed_retrieveData (calls : Calls) (key : Bytes) :
    Bracketed IsCheck .before 6 (retrieveData calls key) := by
  refine .bind .initialized fun initialized => ?_
  split
  · exact .early _
  split
  · exact .early _
  refine .lockGuard (.bind fun found => ?_)
  split
  · exact .ret _
  refine .bind fun blob => ?_
  cases EncryptedData.deserialize blob with
  | error fault => exact .ret _
  | ok encrypted =>
      refine .bind fun decrypted => ?_
      split
      · exact .ret _
      · exact .ret _

theorem bracketed_getAttestation : Bracketed IsCheck .before 2 getAttestation := by
  refine .bind .initialized fun initialized => ?_
  split
  · exact .early _
  · exact .bind (.computeHash _) fun hash => .early _

theorem bracketed_methodOf (calls : Calls) (op : EnclaveOp) :
    ∃ n, Bracketed IsCheck .before n (methodOf calls op) := by
  cases op with
  | loadModule moduleData => exact ⟨_, bracketed_loadModule calls moduleData⟩
  | invokeFunction handle name params =>
      exact ⟨_, bracketed_invokeFunction calls handle name params⟩
  | storeData key data => exact ⟨_, bracketed_storeData calls key data⟩
  | retrieveData key => exact ⟨_, bracketed_retrieveData calls key⟩
  | getAttestation => exact ⟨_, bracketed_getAttestation⟩

omit [Host] in
theorem act_initialized {ssl : OpenSSL} {o : Access} {e e' : EnclaveImpl} {r : o.Res}
    (h : act ssl o e = .ok (r, e')) : e'.initialized = e.initialized := by
  cases o <;> simp only [act] at h <;> (try split at h) <;> cases h <;> rfl

/-! ## Their meaning -/

omit [Host] in
theorem act_encrypt (ssl : OpenSSL) (calls : EncryptCalls) (plaintext : Bytes)
    {e : EnclaveImpl} {key : SecureKey} (hk : e.masterKey = some key) :
    act ssl (.encrypt calls plaintext) e =
      .ok (CryptoModule.encrypt ssl calls key plaintext [], e) := by
  simp only [act, hk]

theorem exec_loadModule (ssl : OpenSSL) (calls : Calls) (moduleData : Bytes) (e : EnclaveImpl) :
    (loadModule calls moduleData).exec (seqAct (act ssl)) e =
      .ok (e.loadModule ssl calls moduleData) := by
  rw [loadModule, exec_access_bind, EnclaveImpl.loadModule]
  simp only [act]
  by_cases h : e.initialized = true
  · obtain ⟨key, hk, -⟩ := e.key_of_initialized h
    rw [if_neg (by simp [h]), dif_pos h]
    split
    · rfl
    · rw [exec_lockGuard, exec_access_bind, act_encrypt ssl _ _ hk, master_eq hk h]
      cases CryptoModule.encrypt ssl calls.encrypt key moduleData [] <;> rfl
  · rw [if_pos (by simpa using h), dif_neg h]
    rfl

/-- The source's two steps of decryption, as `decryptBlob` takes them. -/
theorem exec_decryptBlob (ssl : OpenSSL) (calls : DecryptCalls) {e : EnclaveImpl}
    {key : SecureKey} (hk : e.masterKey = some key) (blob : Bytes) {α : Type}
    (f : Bytes → Result α) :
    Prog.exec (seqAct (act ssl))
      (match EncryptedData.deserialize blob with
        | .error _ => (pure (.error .errorCryptoFailure) : EnclaveMethod (Result α))
        | .ok encrypted => do
          let decrypted ← access (Access.decrypt calls encrypted)
          if decrypted.1 = false then pure (.error .errorCryptoFailure)
          else pure (f decrypted.2)) e =
      .ok (match decryptBlob ssl calls key blob with
        | none => .error .errorCryptoFailure
        | some plaintext => f plaintext, e) := by
  rw [decryptBlob]
  cases EncryptedData.deserialize blob with
  | error fault => rfl
  | ok encrypted =>
      simp only [exec_access_bind, act, hk]
      obtain ⟨ok, plaintext⟩ := CryptoModule.decrypt ssl calls key encrypted [] []
      cases ok <;> rfl

theorem exec_invokeFunction (ssl : OpenSSL) (calls : Calls) (handle : UInt64)
    (name params : Bytes) (e : EnclaveImpl) :
    (invokeFunction calls handle name params).exec (seqAct (act ssl)) e =
      .ok (e.invokeFunction ssl calls handle name params, e) := by
  rw [invokeFunction, exec_access_bind, EnclaveImpl.invokeFunction]
  simp only [act]
  by_cases h : e.initialized = true
  · obtain ⟨key, hk, -⟩ := e.key_of_initialized h
    rw [if_neg (by simp [h]), dif_pos h]
    split
    · rfl
    · rw [exec_lockGuard, exec_access_bind]
      simp only [act]
      cases hm : e.modules handle with
      | none => rfl
      | some module =>
          rw [Option.isSome_some, if_neg (by simp), exec_access_bind]
          simp only [act, hm]
          cases hf : module.functionTable name with
          | none => rfl
          | some offset =>
              rw [exec_access_bind]
              simp only [act, hm, master_eq hk h]
              exact exec_decryptBlob ssl calls.decrypt hk module.encryptedCode
                fun _ => .ok (params ++ [0x42])
  · rw [if_pos (by simpa using h), dif_neg h]
    rfl

theorem exec_storeData (ssl : OpenSSL) (calls : Calls) (key data : Bytes) (e : EnclaveImpl) :
    (storeData calls key data).exec (seqAct (act ssl)) e =
      .ok (e.storeData ssl calls key data) := by
  rw [storeData, exec_access_bind, EnclaveImpl.storeData]
  simp only [act]
  by_cases h : e.initialized = true
  · obtain ⟨master, hk, -⟩ := e.key_of_initialized h
    rw [if_neg (by simp [h]), dif_pos h]
    split
    · rfl
    split
    · rfl
    · rw [exec_lockGuard, exec_access_bind, act_encrypt ssl _ _ hk, master_eq hk h]
      cases CryptoModule.encrypt ssl calls.encrypt master data [] <;> rfl
  · rw [if_pos (by simpa using h), dif_neg h]
    rfl

theorem exec_retrieveData (ssl : OpenSSL) (calls : Calls) (key : Bytes) (e : EnclaveImpl) :
    (retrieveData calls key).exec (seqAct (act ssl)) e = .ok (e.retrieveData ssl calls key, e) := by
  rw [retrieveData, exec_access_bind, EnclaveImpl.retrieveData]
  simp only [act]
  by_cases h : e.initialized = true
  · obtain ⟨master, hk, -⟩ := e.key_of_initialized h
    rw [if_neg (by simp [h]), dif_pos h]
    split
    · rfl
    · rw [exec_lockGuard, exec_access_bind]
      simp only [act]
      cases hb : e.secureStorage key with
      | none => rfl
      | some blob =>
          rw [Option.isSome_some, if_neg (by simp), exec_access_bind]
          simp only [act, hb, master_eq hk h]
          exact exec_decryptBlob ssl calls.decrypt hk blob .ok
  · rw [if_pos (by simpa using h), dif_neg h]
    rfl

theorem exec_getAttestation (ssl : OpenSSL) (e : EnclaveImpl) :
    getAttestation.exec (seqAct (act ssl)) e = .ok (e.getAttestation ssl, e) := by
  rw [getAttestation, exec_access_bind, EnclaveImpl.getAttestation]
  simp only [act]
  by_cases h : e.initialized = true
  · rw [if_neg (by simp [h]), if_pos h, exec_access_bind]
    rfl
  · rw [if_pos (by simpa using h), if_neg h]
    rfl

/-- **A method run alone is the enclave's operation.** -/
theorem exec_methodOf (ssl : OpenSSL) (calls : Calls) (op : EnclaveOp) (e : EnclaveImpl) :
    (methodOf calls op).exec (seqAct (act ssl)) e = .ok (e.perform ssl calls op) := by
  cases op with
  | loadModule moduleData => exact exec_loadModule ssl calls moduleData e
  | invokeFunction handle name params => exact exec_invokeFunction ssl calls handle name params e
  | storeData key data => exact exec_storeData ssl calls key data e
  | retrieveData key => exact exec_retrieveData ssl calls key e
  | getAttestation => exact exec_getAttestation ssl e

theorem exec_method (ssl : OpenSSL) (i : Input) (e : EnclaveImpl) :
    (method i).exec (seqAct (act ssl)) e = .ok (e.step ssl i) := by
  rw [method, Prog.exec_bind, exec_methodOf]
  rfl

/-- **The methods keep to the discipline of their mutex**, whether or not
the enclave is initialized. -/
theorem enclave_guarded (ssl : OpenSSL) (initialized : Bool) :
    Guarded (act ssl) method IsCheck (fun e => e.initialized = initialized)
      (EnclaveImpl.step ssl) where
  stable := fun o e r e' he hact => (act_initialized hact).trans he
  check := by
    rintro o (- | data)
    · exact ⟨initialized, fun e he => by rw [← he]; rfl⟩
    · exact ⟨ssl.sha256 data, fun e _ => rfl⟩
  bracketed := by
    intro i
    obtain ⟨n, hn⟩ := bracketed_methodOf i.2 i.1
    exact ⟨n, hn.map _⟩
  meaning := fun i e _ => exec_method ssl i e

/-! ## Every run of the threads -/

/-- What `threads` see of an enclave: the calls and their results. -/
abbrev History (τ : Type) := List (Event τ Input (Σ op : EnclaveOp, Result op.Output))

abbrev Config (τ : Type) :=
  Monitor.Config τ Input (Σ op : EnclaveOp, Result op.Output) EnclaveImpl Access Access.Res

def Config.start (τ : Type) (e : EnclaveImpl) : Config τ := Monitor.Config.init τ _ _ _ _ e

variable {τ : Type} [DecidableEq τ]

/-- The configurations that threads reach from an enclave `e`. -/
def Runs (ssl : OpenSSL) (e : EnclaveImpl) (c : Config τ) : Prop :=
  ReflTransGen (Monitor.Step (act ssl) method) (Config.start τ e) c

/-- Thread `t` is about to make access `o`. -/
def IsAt (c : Config τ) (t : τ) (o : Access) : Prop :=
  ∃ i k, c.thread t = some (i, .op (.access o) k)

def sampleEnclave : EnclaveImpl := (EnclaveImpl.new.initializeEnclave (some zeroKey)).2

def sampleLoad : Input := (.loadModule [0x48, 0x69], ⟨.succeed zeroIV, .succeed⟩)

def sampleStore : Input := (.storeData [0x6B] [0x48, 0x69], ⟨.succeed zeroIV, .succeed⟩)

omit [Host] [DecidableEq τ] in
/-- One thread loads and one stores. In `a` the first is inside the lock;
in `c` both have returned. -/
theorem sampleRun :
    letI := Host.littleEndian
    ∃ a c : Config Bool, Runs sampleGcm sampleEnclave a ∧
      IsAt a false (.encrypt (.succeed zeroIV) [0x48, 0x69]) ∧
      Runs sampleGcm sampleEnclave c ∧ c.holder = none ∧
      c.history = [.call false sampleLoad, .call true sampleStore,
        .ret false ⟨.loadModule [0x48, 0x69], .ok 1⟩,
        .ret true ⟨.storeData [0x6B] [0x48, 0x69], .ok ()⟩] := by
  let := Host.littleEndian
  have h₀ : Runs sampleGcm sampleEnclave (Config.start Bool sampleEnclave) := .refl
  have h₁ := ReflTransGen.tail h₀ (Monitor.Step.call (t := false) sampleLoad rfl)
  have h₂ := h₁.tail (.call (t := true) sampleStore rfl)
  have h₃ := h₂.tail (.inner (.access (t := false) rfl rfl))
  have h₄ := h₃.tail (.inner (.acquire (t := false) rfl rfl))
  have h₅ := h₄.tail (.inner (.access (t := true) rfl rfl))
  have h₆ := h₅.tail (.inner (.access (t := false) rfl rfl))
  have h₇ := h₆.tail (.inner (.access (t := false) rfl rfl))
  have h₈ := h₇.tail (.inner (.access (t := false) rfl rfl))
  have h₉ := h₈.tail (.inner (.release (t := false) rfl rfl))
  -- the second takes the lock before the first has returned
  have h₁₀ := h₉.tail (.inner (.acquire (t := true) rfl rfl))
  have h₁₁ := h₁₀.tail (.inner (.ret (t := false) rfl))
  have h₁₂ := h₁₁.tail (.inner (.access (t := true) rfl rfl))
  have h₁₃ := h₁₂.tail (.inner (.access (t := true) rfl rfl))
  have h₁₄ := h₁₃.tail (.inner (.release (t := true) rfl rfl))
  have h₁₅ := h₁₄.tail (.inner (.ret (t := true) rfl))
  exact ⟨_, _, h₄, ⟨_, _, rfl⟩, h₁₅, rfl, rfl⟩

/-- **Threads see one call after the other.** -/
theorem threads_linearizable (ssl : OpenSSL) (e : EnclaveImpl) (c : Config τ)
    (hrun : Runs ssl e c) : Linearizable (EnclaveImpl.step ssl) e c.history :=
  (enclave_guarded ssl e.initialized).linearizable rfl hrun

omit [Host] [DecidableEq τ] in
theorem threads_linearizable_load_store :
    letI := Host.littleEndian
    Linearizable (EnclaveImpl.step sampleGcm) sampleEnclave
      [.call false sampleLoad, .call true sampleStore,
        .ret false ⟨.loadModule [0x48, 0x69], .ok 1⟩,
        .ret true ⟨.storeData [0x6B] [0x48, 0x69], .ok ()⟩] := by
  let := Host.littleEndian
  obtain ⟨-, c, -, -, hrun, -, hhist⟩ := sampleRun
  rw [← hhist]
  exact threads_linearizable sampleGcm sampleEnclave c hrun

/-! ## Races -/

inductive Member where
  | cryptoModule
  | initialized
  | masterKey
  | modules
  | secureStorage
  | nextModuleId
deriving DecidableEq, Repr

/-- The members an access touches. `crypto_module_` is set by the
constructor and nothing more is ever written to it. -/
def Access.members : Access → List Member
  | .initialized => [.initialized]
  | .encrypt .. => [.cryptoModule, .masterKey]
  | .decrypt .. => [.cryptoModule, .masterKey]
  | .takeModuleId => [.nextModuleId]
  | .insertModule .. => [.modules]
  | .findModule _ => [.modules]
  | .findFunction .. => [.modules]
  | .encryptedCode _ => [.modules]
  | .insertData .. => [.secureStorage]
  | .findData _ => [.secureStorage]
  | .storedData _ => [.secureStorage]
  | .computeHash _ => [.cryptoModule]

def Access.writes : Access → Bool
  | .takeModuleId => true
  | .insertModule .. => true
  | .insertData .. => true
  | _ => false

/-- Two threads are at accesses to one member, and one of them writes. -/
def Race (c : Config τ) : Prop :=
  ∃ t u o o', t ≠ u ∧ IsAt c t o ∧ IsAt c u o' ∧ (∃ m ∈ o.members, m ∈ o'.members) ∧
    (o.writes = true ∨ o'.writes = true)

omit [Host] [DecidableEq τ] in
theorem not_writes_of_isCheck {o o' : Access} (ho : IsCheck o) {m : Member}
    (hm : m ∈ o.members) (hm' : m ∈ o'.members) : o.writes = false ∧ o'.writes = false := by
  have hfixed : m = .initialized ∨ m = .cryptoModule := by
    cases ho with
    | initialized => exact .inl (List.mem_singleton.mp hm)
    | computeHash data => exact .inr (List.mem_singleton.mp hm)
  refine ⟨by cases ho <;> rfl, ?_⟩
  -- what is written are the other members
  cases o' with
  | takeModuleId => rcases hfixed with rfl | rfl <;> simp [Access.members] at hm'
  | insertModule => rcases hfixed with rfl | rfl <;> simp [Access.members] at hm'
  | insertData => rcases hfixed with rfl | rfl <;> simp [Access.members] at hm'
  | _ => rfl

/-- **No data race**, in any interleaving: this is also what makes it
immaterial how finely an access is cut. -/
theorem threads_race_free (ssl : OpenSSL) (e : EnclaveImpl) (c : Config τ)
    (hrun : Runs ssl e c) : ¬ Race c := by
  intro hrace
  obtain ⟨t, u, o, o', hne, ⟨i, k, ht⟩, ⟨j, k', hu⟩, ⟨m, hm, hm'⟩, hw⟩ := hrace
  obtain ⟨a, -, hS, -⟩ := (enclave_guarded ssl e.initialized).exists_sim rfl hrun
  have hnone : ¬ (o.writes = false ∧ o'.writes = false) := by
    rintro ⟨ho, ho'⟩
    rw [ho, ho'] at hw
    rcases hw with hw | hw <;> cases hw
  rcases hS.holds_or_check ht with htheld | htcheck
  · rcases hS.holds_or_check hu with huheld | hucheck
    · -- one mutex, one holder
      rw [htheld, Option.some.injEq] at huheld
      exact hne huheld
    · exact hnone (not_writes_of_isCheck hucheck hm' hm).symm
  · exact hnone (not_writes_of_isCheck htcheck hm hm')

omit [Host] [DecidableEq τ] in
/-- One thread goes through `crypto_module_` inside the lock, one outside
it, at once and without a race. -/
theorem threads_race_free_load_attestation :
    letI := Host.littleEndian
    ∃ c : Config Bool, Runs sampleGcm sampleEnclave c ∧
      IsAt c false (.encrypt (.succeed zeroIV) [0x48, 0x69]) ∧
      IsAt c true (.computeHash [0x01, 0x02, 0x03, 0x04]) ∧ ¬ Race c := by
  let := Host.littleEndian
  have h₀ : Runs sampleGcm sampleEnclave (Config.start Bool sampleEnclave) := .refl
  have h₁ := ReflTransGen.tail h₀ (Monitor.Step.call (t := false) sampleLoad rfl)
  have h₂ := h₁.tail (.call (t := true) (.getAttestation, sampleLoad.2) rfl)
  have h₃ := h₂.tail (.inner (.access (t := false) rfl rfl))
  have h₄ := h₃.tail (.inner (.acquire (t := false) rfl rfl))
  have h₅ := h₄.tail (.inner (.access (t := true) rfl rfl))
  exact ⟨_, h₅, ⟨_, _, rfl⟩, ⟨_, _, rfl⟩, threads_race_free sampleGcm sampleEnclave _ h₅⟩

/-! ## Progress -/

/-- **Every call returns.** From any point of any run, however the
scheduler chooses and as long as no further calls are made, the threads
all come back from their calls; there is no deadlock on the way. -/
theorem threads_return [Fintype τ] (ssl : OpenSSL) (e : EnclaveImpl) (c : Config τ)
    (hrun : Runs ssl e c) :
    Transition.Eventually (Monitor.Inner (act ssl)) (fun c' => ∀ t, c'.thread t = none) c := by
  have hG := enclave_guarded ssl e.initialized
  obtain ⟨a, -, hS, -⟩ := hG.exists_sim rfl hrun
  obtain ⟨n, hn⟩ := hG.exists_leaves hrun
  exact hG.eventually_idle hS hn

omit [Host] [DecidableEq τ] in
theorem threads_return_load_store :
    letI := Host.littleEndian
    ∃ a : Config Bool, Runs sampleGcm sampleEnclave a ∧ a.thread false ≠ none ∧
      Transition.Eventually (Monitor.Inner (act sampleGcm))
        (fun c => ∀ t, c.thread t = none) a := by
  let := Host.littleEndian
  obtain ⟨a, -, hrun, ⟨i, k, hfalse⟩, -⟩ := sampleRun
  exact ⟨a, hrun, by simp [hfalse], threads_return sampleGcm sampleEnclave a hrun⟩

/-! ## What the threads have stored and loaded -/

/-- **The secure storage is an atomic map.** -/
theorem threads_store_atomic (ssl : OpenSSL) (hssl : ssl.Lawful) (rand : Option Key)
    (e : EnclaveImpl) (hcreate : Enclave.create rand = .ok e) (c : Config τ)
    (hrun : Runs ssl e c)
    (hdec : ∀ t i, .call t i ∈ c.history → i.2.decrypt.success = true) :
    Linearizable PlainStore.step .empty (c.history.map (Event.map storeView)) := by
  obtain ⟨key, hR⟩ := represents_create ssl hcreate
  have hstep : ∀ (s : EnclaveImpl) (r : PlainStore) (i : Input),
      i.2.decrypt.success = true → Represents ssl key s r →
      storeView (s.step ssl i).1 = (PlainStore.step r i).1 ∧
        Represents ssl key (s.step ssl i).2 (PlainStore.step r i).2 :=
    fun s r i hadm hR => step_represents hssl hadm hR
  exact Linearizable.view hstep hR hdec
    ((enclave_guarded ssl e.initialized).linearizable rfl hrun)

omit [Host] [DecidableEq τ] in
theorem threads_store_atomic_load_store :
    Linearizable PlainStore.step .empty
      [.call false sampleLoad, .call true sampleStore, .ret false .other,
        .ret true (.stored (.ok ()))] := by
  let := Host.littleEndian
  obtain ⟨-, c, -, -, hrun, -, hhist⟩ := sampleRun
  have hdec : ∀ t i, .call t i ∈ c.history → i.2.decrypt.success = true := by
    intro t i hi
    simp only [hhist, List.mem_cons, Event.call.injEq, reduceCtorEq, List.not_mem_nil,
      or_false] at hi
    rcases hi with ⟨-, rfl⟩ | ⟨-, rfl⟩ <;> rfl
  have h := threads_store_atomic sampleGcm sampleGcm_lawful (some zeroKey) sampleEnclave rfl c
    hrun hdec
  rw [hhist] at h
  exact h

omit [Host] [DecidableEq τ] in
theorem firstHandles_nodup {n : Nat} (hn : n < 2 ^ 64) : (firstHandles n).Nodup := by
  refine List.Nodup.of_map UInt64.toNat ?_
  rw [firstHandles_toNat hn]
  exact List.nodup_range'

omit [Host] [DecidableEq τ] in
theorem subperm_flatMap {α β : Type} {l₁ l₂ : List α} (h : l₁.Subperm l₂) (f : α → List β) :
    (l₁.flatMap f).Subperm (l₂.flatMap f) := by
  obtain ⟨l, hperm, hsub⟩ := h
  exact ⟨l.flatMap f, hperm.flatMap_right f, hsub.flatMap f⟩

omit [Host] [DecidableEq τ] in
theorem loadOf_length_le (o : Σ op : EnclaveOp, Result op.Output) : (loadOf o).length ≤ 1 := by
  unfold loadOf
  split <;> simp

omit [Host] [DecidableEq τ] in
theorem loads_length_le (outputs : List (Σ op : EnclaveOp, Result op.Output)) :
    (loads outputs).length ≤ outputs.length := by
  induction outputs with
  | nil => simp [loads]
  | cons o outputs ih =>
      have ho := loadOf_length_le o
      simp only [loads, List.flatMap_cons, List.length_append, List.length_cons] at ih ⊢
      omega

/-- The loads whose handles the threads have been given. -/
def loaded (h : History τ) : List (UInt64 × Bytes) := loads ((returns h).map Prod.snd)

/-- **No load is lost and no handle is given twice.** However the loads
of the threads interleave, all handles returned are different; and
whenever the mutex is free, each of them stands for an entry that
decrypts to the data of its own load. -/
theorem threads_loads_kept (ssl : OpenSSL) (hssl : ssl.Lawful) (rand : Option Key)
    (e : EnclaveImpl) (hcreate : Enclave.create rand = .ok e) (c : Config τ)
    (hrun : Runs ssl e c) (hfew : (calls c.history).length < 2 ^ 64) :
    ((loaded c.history).map Prod.fst).Nodup ∧
      (c.holder = none → ∀ l ∈ loaded c.history, ∃ m master,
        c.shared.modules l.1 = some m ∧ c.shared.masterKey = some master ∧
        ∀ decrypt : DecryptCalls, decrypt.success = true →
          decryptBlob ssl decrypt master m.encryptedCode = some l.2) := by
  obtain ⟨a, ha, hS, hhist⟩ := (enclave_guarded ssl e.initialized).exists_sim rfl hrun
  obtain ⟨key, hR⟩ : ∃ key, Registered ssl key
      (Mealy.run (EnclaveImpl.step ssl) e (a.order.map (·.2.1))).2
      (loads (Mealy.run (EnclaveImpl.step ssl) e (a.order.map (·.2.1))).1) :=
    run_registered hcreate (a.order.map (·.2.1))
  rw [ha.run] at hR
  -- the returned loads are among those of the order
  have hsub : (loaded c.history).Subperm (loads (a.order.map (·.2.2))) := by
    have h := subperm_flatMap ha.returns_subperm fun x => loadOf x.2
    rw [hhist] at h
    simpa [loaded, loads, List.flatMap_map] using h
  have hlen : (loads (a.order.map (·.2.2))).length < 2 ^ 64 := by
    have h₁ := loads_length_le (a.order.map (·.2.2))
    have h₂ := ha.order_subperm.length_le
    rw [List.length_map] at h₁ h₂
    rw [hhist] at h₂
    omega
  refine ⟨?_, fun hfree l hl => ?_⟩
  · have hnodup : ((loads (a.order.map (·.2.2))).map Prod.fst).Nodup := by
      rw [hR.handles]
      exact firstHandles_nodup hlen
    obtain ⟨l', hperm, hsub'⟩ := hsub
    exact (hperm.map Prod.fst).nodup (hnodup.sublist (hsub'.map Prod.fst))
  · have hstate := hS.free hfree
    obtain ⟨m, hm, -⟩ := hR.entries hlen l (hsub.subset hl)
    obtain ⟨master, hmaster, -⟩ := a.state.key_of_initialized hR.inv.init
    refine ⟨m, master, hstate ▸ hm, hstate ▸ hmaster, fun decrypt hdec => ?_⟩
    obtain ⟨m', hm', hcode⟩ := hR.decryptBlob_eq hssl hlen (hsub.subset hl) hdec
    rw [hm] at hm'
    cases hm'
    rw [← hcode, master_eq hmaster]

omit [Host] [DecidableEq τ] in
theorem threads_loads_kept_load_store :
    letI := Host.littleEndian
    ∃ c : Config Bool, Runs sampleGcm sampleEnclave c ∧ loaded c.history = [(1, [0x48, 0x69])] ∧
      ∃ m master, c.shared.modules 1 = some m ∧ c.shared.masterKey = some master ∧
        decryptBlob sampleGcm .succeed master m.encryptedCode = some [0x48, 0x69] := by
  let := Host.littleEndian
  obtain ⟨-, c, -, -, hrun, hfree, hhist⟩ := sampleRun
  have hloaded : loaded c.history = [(1, [0x48, 0x69])] := by
    rw [hhist]
    rfl
  have hfew : (calls c.history).length < 2 ^ 64 := by
    rw [hhist]
    decide
  obtain ⟨-, hkept⟩ := threads_loads_kept sampleGcm sampleGcm_lawful (some zeroKey)
    sampleEnclave rfl c hrun hfew
  obtain ⟨m, master, hm, hmaster, hcode⟩ := hkept hfree (1, [0x48, 0x69]) (by simp [hloaded])
  exact ⟨c, hrun, hloaded, m, master, hm, hmaster, hcode .succeed rfl⟩

end

end Threads

end OpenEnclave
