import OpenEnclave.Crypto.Cipher
import Mathlib.Logic.Function.Basic

/-!
# Enclave — the enclave state and its operations

`EnclaveImpl` (`enclave.cpp`): the master key, the loaded modules, the
secure storage and the module counter, with `Initialize` and the five
operations as state-passing functions. `std::map` is a partial function;
`std::string` is a byte string, since the code only measures and
compares it. `Enclave` forwards every call to its `EnclaveImpl`, so the
two are one type here.

An operation takes `Calls`, the way the OpenSSL calls it may make turn
out; the operations read nothing else from outside.
-/

namespace OpenEnclave

open ByteCodec Crypto

inductive EnclaveStatus where
  | ok
  | errorInvalidParameter
  | errorContextNotInitialized
  | errorCryptoFailure
  | errorModuleLoadFailed
  | errorFunctionNotFound
  | errorExecutionFailed
  | errorOutOfMemory
  | errorSerializationFailed
  | errorAuthenticationFailed
deriving DecidableEq, Repr

/-- `Result<T>`: a value with status `OK`, or an error status. -/
abbrev Result (α : Type) := Except EnclaveStatus α

/-- How the OpenSSL calls of one enclave operation turn out. -/
structure Calls where
  encrypt : EncryptCalls
  decrypt : DecryptCalls

/-! ## State -/

structure LoadedModule where
  id : UInt64
  encryptedCode : Bytes
  functionTable : Bytes → Option UInt32

/-- The key is dereferenced only behind the `initialized_` check, so the
field `key_of_initialized` is what makes those dereferences defined. -/
@[ext] structure EnclaveImpl where
  masterKey : Option SecureKey
  modules : UInt64 → Option LoadedModule
  secureStorage : Bytes → Option Bytes
  nextModuleId : UInt64
  initialized : Bool
  key_of_initialized : initialized = true →
    ∃ key, masterKey = some key ∧ key.isValid = true

namespace EnclaveImpl

/-- The constructor. -/
def new : EnclaveImpl where
  masterKey := none
  modules := fun _ => none
  secureStorage := fun _ => none
  nextModuleId := 1
  initialized := false
  key_of_initialized := by intro h; cases h

/-- `Initialize`; `rand` is what `RAND_bytes` delivers for the master
key. The crypto subsystem's own initialization cannot fail. -/
def initializeEnclave (rand : Option Key) (e : EnclaveImpl) : Bool × EnclaveImpl :=
  if e.initialized = true then (true, e)
  else match hk : SecureKey.generate rand with
    | none => (false, { e with masterKey := none, initialized := false,
                               key_of_initialized := by intro h; cases h })
    | some key => (true, { e with
        masterKey := some key
        initialized := true
        key_of_initialized := fun _ => ⟨key, rfl, by
          cases rand with
          | none => cases hk
          | some bytes => cases hk; rfl⟩ })

/-- `*master_key_` behind the `initialized_` check. -/
def master (e : EnclaveImpl) (h : e.initialized = true) : SecureKey :=
  e.masterKey.get (by obtain ⟨key, hk, -⟩ := e.key_of_initialized h; simp [hk])

end EnclaveImpl

/-- `Enclave::Create`. -/
def Enclave.create (rand : Option Key) : Result EnclaveImpl :=
  match EnclaveImpl.new.initializeEnclave rand with
  | (true, e) => .ok e
  | (false, _) => .error .errorContextNotInitialized

/-! ## Operations -/

/-- 10 MiB, the bound on module data and stored data. -/
def maxDataSize : Nat := 10 * 1024 * 1024

/-- The bytes of `"test_function"`. -/
def testFunction : Bytes :=
  [0x74, 0x65, 0x73, 0x74, 0x5F, 0x66, 0x75, 0x6E, 0x63, 0x74, 0x69, 0x6F, 0x6E]

/-- The table every module gets: `function_table["test_function"] = 0`. -/
def stubFunctionTable : Bytes → Option UInt32 :=
  Function.update (fun _ => none) testFunction (some 0)

namespace EnclaveImpl

variable [Host]

/-- `Deserialize` a stored blob and `Decrypt` it without AAD; `none` is
`ERROR_CRYPTO_FAILURE` at either call. -/
def decryptBlob (ssl : OpenSSL) (calls : DecryptCalls) (key : SecureKey) (blob : Bytes) :
    Option Bytes :=
  match EncryptedData.deserialize blob with
  -- a rejection; the reads past the end need a blob the store never holds
  -- (`Inv.storage`, `Inv.entries`)
  | .error _ => none
  | .ok encrypted =>
    match CryptoModule.decrypt ssl calls key encrypted [] [] with
    | (true, plaintext) => some plaintext
    | (false, _) => none

def loadModule (ssl : OpenSSL) (calls : Calls) (moduleData : Bytes) (e : EnclaveImpl) :
    Result UInt64 × EnclaveImpl :=
  if h : e.initialized = true then
    if moduleData.isEmpty ∨ moduleData.length > maxDataSize then
      (.error .errorInvalidParameter, e)
    else match CryptoModule.encrypt ssl calls.encrypt (e.master h) moduleData [] with
      | none => (.error .errorCryptoFailure, e)
      | some encrypted =>
        let moduleId := e.nextModuleId
        let module : LoadedModule :=
          { id := moduleId
            encryptedCode := encrypted.serialize
            functionTable := stubFunctionTable }
        (.ok moduleId, { e with
          nextModuleId := e.nextModuleId + 1
          modules := Function.update e.modules moduleId (some module) })
  else (.error .errorContextNotInitialized, e)

def invokeFunction (ssl : OpenSSL) (calls : Calls) (moduleHandle : UInt64)
    (functionName params : Bytes) (e : EnclaveImpl) : Result Bytes :=
  if h : e.initialized = true then
    if functionName.isEmpty ∨ functionName.length > 256 then
      .error .errorInvalidParameter
    else match e.modules moduleHandle with
      | none => .error .errorModuleLoadFailed
      | some module =>
        match module.functionTable functionName with
        | none => .error .errorFunctionNotFound
        | some _ =>
          match decryptBlob ssl calls.decrypt (e.master h) module.encryptedCode with
          | none => .error .errorCryptoFailure
          -- the decrypted code is wiped unread; the parameters are echoed
          | some _ => .ok (params ++ [0x42])
  else .error .errorContextNotInitialized

def storeData (ssl : OpenSSL) (calls : Calls) (key data : Bytes) (e : EnclaveImpl) :
    Result Unit × EnclaveImpl :=
  if h : e.initialized = true then
    if key.isEmpty ∨ key.length > 256 then (.error .errorInvalidParameter, e)
    else if data.isEmpty ∨ data.length > maxDataSize then (.error .errorInvalidParameter, e)
    else match CryptoModule.encrypt ssl calls.encrypt (e.master h) data [] with
      | none => (.error .errorCryptoFailure, e)
      | some encrypted =>
        (.ok (), { e with
          secureStorage := Function.update e.secureStorage key (some encrypted.serialize) })
  else (.error .errorContextNotInitialized, e)

def retrieveData (ssl : OpenSSL) (calls : Calls) (key : Bytes) (e : EnclaveImpl) :
    Result Bytes :=
  if h : e.initialized = true then
    if key.isEmpty ∨ key.length > 256 then .error .errorInvalidParameter
    else match e.secureStorage key with
      | none => .error .errorFunctionNotFound
      | some blob =>
        match decryptBlob ssl calls.decrypt (e.master h) blob with
        | none => .error .errorCryptoFailure
        | some plaintext => .ok plaintext
  else .error .errorContextNotInitialized

/-- `[VERSION:4][TIMESTAMP:8][HASH:32]`. -/
def getAttestation (ssl : OpenSSL) (e : EnclaveImpl) : Result Bytes :=
  if e.initialized = true then
    .ok (nativeBytes 4 1 ++ nativeBytes 8 0x0123456789ABCDEF ++
      (ssl.sha256 [0x01, 0x02, 0x03, 0x04]).toList)
  else .error .errorContextNotInitialized

end EnclaveImpl

/-! ## The operations as one step function -/

/-- A call of the enclave's interface. -/
inductive EnclaveOp where
  | loadModule (moduleData : Bytes)
  | invokeFunction (moduleHandle : UInt64) (functionName params : Bytes)
  | storeData (key data : Bytes)
  | retrieveData (key : Bytes)
  | getAttestation
deriving DecidableEq, Repr

/-- What a successful call returns. -/
@[reducible] def EnclaveOp.Output : EnclaveOp → Type
  | .loadModule _ => UInt64
  | .invokeFunction .. => Bytes
  | .storeData .. => Unit
  | .retrieveData _ => Bytes
  | .getAttestation => Bytes

/-- Perform a call: its result, and the state after it. -/
def EnclaveImpl.perform [Host] (ssl : OpenSSL) (calls : Calls) :
    (op : EnclaveOp) → EnclaveImpl → Result op.Output × EnclaveImpl
  | .loadModule moduleData, e => e.loadModule ssl calls moduleData
  | .invokeFunction handle name params, e =>
      (e.invokeFunction ssl calls handle name params, e)
  | .storeData key data, e => e.storeData ssl calls key data
  | .retrieveData key, e => (e.retrieveData ssl calls key, e)
  | .getAttestation, e => (e.getAttestation ssl, e)

end OpenEnclave
