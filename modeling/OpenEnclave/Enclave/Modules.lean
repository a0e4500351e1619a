import OpenEnclave.Enclave.Store
import Mathlib.Data.List.Range

/-!
# Modules — handles and what they stand for

What `LoadModule` hands out. A run's loads are read off its outputs:
`loads` lists the handles of the successful ones, in order, each with
the module data it was given. `Registered` relates an enclave state to
such a list — the handles are 1, 2, 3, ..., and each still has an entry
whose code is sealed from its data — and every operation keeps it, for
as long as the 64-bit counter has not gone round. What
`InvokeFunction` answers is then a matter of the list
(`module_handles_bound`).
-/

namespace OpenEnclave

open ByteCodec Crypto EnclaveImpl

/-! ## The loads of a run -/

/-- What a successful load enters into the record: its handle, and the
data it was given. -/
def loadOf : (Σ op : EnclaveOp, Result op.Output) → List (UInt64 × Bytes)
  | ⟨.loadModule data, .ok id⟩ => [(id, data)]
  | _ => []

/-- The successful loads of a run, from its outputs. -/
def loads (outputs : List (Σ op : EnclaveOp, Result op.Output)) : List (UInt64 × Bytes) :=
  outputs.flatMap loadOf

/-- The first `n` handles. -/
def firstHandles (n : Nat) : List UInt64 := (List.range n).map fun i => UInt64.ofNat (i + 1)

theorem firstHandles_succ (n : Nat) :
    firstHandles (n + 1) = firstHandles n ++ [UInt64.ofNat (n + 1)] := by
  simp [firstHandles, List.range_succ]

theorem mem_firstHandles {n : Nat} (hn : n < 2 ^ 64) {id : UInt64} :
    id ∈ firstHandles n ↔ 1 ≤ id.toNat ∧ id.toNat ≤ n := by
  rw [firstHandles, List.mem_map]
  constructor
  · intro h
    obtain ⟨i, hi, rfl⟩ := h
    rw [List.mem_range] at hi
    rw [UInt64.toNat_ofNat']
    omega
  · intro h
    refine ⟨id.toNat - 1, List.mem_range.mpr (by omega), ?_⟩
    rw [Nat.sub_add_cancel h.1, UInt64.ofNat_toNat]

theorem firstHandles_toNat {n : Nat} (hn : n < 2 ^ 64) :
    (firstHandles n).map UInt64.toNat = List.range' 1 n := by
  rw [firstHandles, List.map_map, List.range'_eq_map_range]
  refine List.map_congr_left fun i hi => ?_
  rw [List.mem_range] at hi
  rw [Function.comp_apply, UInt64.toNat_ofNat', Nat.add_comm]
  omega

section
variable [Host]

/-! ## The record and the state -/

/-- The enclave after the loads of the record. -/
structure Registered (ssl : OpenSSL) (key : Key) (e : EnclaveImpl)
    (log : List (UInt64 × Bytes)) : Prop where
  inv : Inv ssl key log.length e
  handles : log.map Prod.fst = firstHandles log.length
  entries : log.length < 2 ^ 64 → ∀ l ∈ log, ∃ m, e.modules l.1 = some m ∧
    Sealed ssl key m.encryptedCode l.2

theorem registered_create (ssl : OpenSSL) {rand : Option Key} {e : EnclaveImpl}
    (h : Enclave.create rand = .ok e) : ∃ key, Registered ssl key e [] := by
  obtain ⟨key, -, hI⟩ := inv_create ssl h
  exact ⟨key, hI, rfl, by simp⟩

/-- A load whose handle has not been used leaves the earlier entries
alone. -/
theorem Registered.addModule {ssl : OpenSSL} {key : Key} {e : EnclaveImpl}
    {log : List (UInt64 × Bytes)} (hR : Registered ssl key e log) (iv : IV) {data : Bytes}
    (hd : ValidData data) :
    Registered ssl key
      (e.addModule (moduleEntry ssl (e.master hR.inv.init).keyData iv e.nextModuleId data))
      (log ++ [(e.nextModuleId, data)]) where
  inv := by
    rw [List.length_append]
    exact hR.inv.addModule iv hd
  handles := by
    rw [List.map_append, hR.handles, List.length_append, List.length_singleton,
      firstHandles_succ, ← hR.inv.next]
    rfl
  entries := by
    intro hlen l hl
    rw [List.length_append, List.length_singleton] at hlen
    rcases List.mem_append.mp hl with hold | hnew
    · obtain ⟨m, hm, hs⟩ := hR.entries (by omega) l hold
      refine ⟨m, ?_, hs⟩
      rw [addModule_modules_of_ne _ ?_]
      · exact hm
      · -- the counter's value has no entry yet
        intro hid
        rw [hid, hR.inv.fresh (by omega)] at hm
        cases hm
    · rw [List.mem_singleton] at hnew
      subst hnew
      refine ⟨_, addModule_modules_self _ e, ⟨iv, ?_⟩, hd.2⟩
      rw [moduleEntry, hR.inv.master_keyData]

/-- **One step keeps the record**: it enters its load, if it is one, and
changes no earlier entry. -/
theorem Registered.step {ssl : OpenSSL} {key : Key} {e : EnclaveImpl}
    {log : List (UInt64 × Bytes)} (hR : Registered ssl key e log) (i : Input) :
    Registered ssl key (e.step ssl i).2 (log ++ loadOf (e.step ssl i).1) := by
  obtain ⟨op, calls⟩ := i
  have hsame : Registered ssl key e (log ++ []) := by rwa [List.append_nil]
  rw [EnclaveImpl.step]
  have h := performed ssl calls op hR.inv.init
  generalize e.perform ssl calls op = r at h ⊢
  obtain ⟨result, e'⟩ := r
  cases h with
  | failed status => cases op <;> exact hsame
  | loaded iv hd => exact hR.addModule iv hd
  | invoked => exact hsame
  | @stored k data iv hd =>
      exact ⟨hsame.inv.putBlob k iv hd, hsame.handles, hsame.entries⟩
  | retrieved hb hv => exact hsame
  | attested => exact hsame

/-- Whole runs of a created enclave against the record of their loads. -/
theorem run_registered {ssl : OpenSSL} {rand : Option Key} {e : EnclaveImpl}
    (hcreate : Enclave.create rand = .ok e) (ops : List Input) :
    ∃ key, Registered ssl key (Mealy.run (EnclaveImpl.step ssl) e ops).2
      (loads (Mealy.run (EnclaveImpl.step ssl) e ops).1) := by
  obtain ⟨key, hR⟩ := registered_create ssl hcreate
  have hstep : ∀ s log i, Registered ssl key s log →
      Registered ssl key (EnclaveImpl.step ssl s i).2
        (log ++ loadOf (EnclaveImpl.step ssl s i).1) :=
    fun s log i h => h.step i
  exact ⟨key, Mealy.run_log hstep hR ops⟩

/-! ## What the handles are good for -/

/-- The ids in use are those handed out. -/
theorem Registered.isSome_iff {ssl : OpenSSL} {key : Key} {e : EnclaveImpl}
    {log : List (UInt64 × Bytes)} (hR : Registered ssl key e log) (id : UInt64) :
    (e.modules id).isSome = true ↔ id ∈ log.map Prod.fst := by
  rw [hR.inv.ids, hR.handles, firstHandles, List.mem_map]
  constructor
  · intro h
    obtain ⟨i, hi, rfl⟩ := h
    exact ⟨i, List.mem_range.mpr hi, rfl⟩
  · intro h
    obtain ⟨i, hi, rfl⟩ := h
    exact ⟨i, List.mem_range.mp hi, rfl⟩

/-- Until the counter goes round, its value is one more than the number
of loads. -/
theorem Registered.next_toNat {ssl : OpenSSL} {key : Key} {e : EnclaveImpl}
    {log : List (UInt64 × Bytes)} (hR : Registered ssl key e log)
    (hlen : log.length < 2 ^ 64 - 1) : e.nextModuleId.toNat = log.length + 1 := by
  rw [hR.inv.next, UInt64.toNat_ofNat']
  omega

/-- `InvokeFunction` of an initialized enclave whose module code
decrypts. -/
theorem invokeFunction_eq (ssl : OpenSSL) (calls : Calls) {e : EnclaveImpl}
    (h : e.initialized = true) {handle : UInt64} {name : Bytes} (params : Bytes)
    (hname : 1 ≤ name.length ∧ name.length ≤ 256)
    (hcode : ∀ m, e.modules handle = some m →
      ∃ code, decryptBlob ssl calls.decrypt (e.master h) m.encryptedCode = some code) :
    e.invokeFunction ssl calls handle name params =
      match e.modules handle with
      | none => .error .errorModuleLoadFailed
      | some m =>
        match m.functionTable name with
        | none => .error .errorFunctionNotFound
        | some _ => .ok (params ++ [0x42]) := by
  have hvalid : ¬ (name.isEmpty = true ∨ name.length > 256) := by
    rw [List.isEmpty_iff_length_eq_zero]
    omega
  rw [invokeFunction, dif_pos h, if_neg hvalid]
  cases hm : e.modules handle with
  | none => rfl
  | some m =>
      obtain ⟨code, hdecrypt⟩ := hcode m hm
      cases hf : m.functionTable name with
      | none => simp only [hf]
      | some f => simp only [hf, hdecrypt]

/-- An entry handed out decrypts to the data it was loaded with. -/
theorem Registered.decryptBlob_eq {ssl : OpenSSL} (hssl : ssl.Lawful) {key : Key}
    {e : EnclaveImpl} {log : List (UInt64 × Bytes)} (hR : Registered ssl key e log)
    (hlen : log.length < 2 ^ 64) {l : UInt64 × Bytes} (hl : l ∈ log) {calls : DecryptCalls}
    (hcalls : calls.success = true) :
    ∃ m, e.modules l.1 = some m ∧
      decryptBlob ssl calls (e.master hR.inv.init) m.encryptedCode = some l.2 := by
  obtain ⟨m, hm, hs⟩ := hR.entries hlen l hl
  rw [← hR.inv.master_keyData] at hs
  obtain ⟨out, -, hout, hd⟩ := decryptBlob_sealed (master_isValid hR.inv.init) hs calls
  refine ⟨m, hm, ?_⟩
  rw [hd, if_pos hcalls, hout hssl]

/-- Whatever has an entry was handed out, and its code decrypts. -/
theorem Registered.exists_code {ssl : OpenSSL} (hssl : ssl.Lawful) {key : Key}
    {e : EnclaveImpl} {log : List (UInt64 × Bytes)} (hR : Registered ssl key e log)
    (hlen : log.length < 2 ^ 64) {calls : DecryptCalls} (hcalls : calls.success = true)
    {id : UInt64} {m : LoadedModule} (hm : e.modules id = some m) :
    ∃ code, decryptBlob ssl calls (e.master hR.inv.init) m.encryptedCode = some code := by
  have hid : id ∈ log.map Prod.fst := (hR.isSome_iff id).mp (by rw [hm]; rfl)
  obtain ⟨l, hl, rfl⟩ := List.mem_map.mp hid
  obtain ⟨m', hm', hcode⟩ := hR.decryptBlob_eq hssl hlen hl hcalls
  rw [hm] at hm'
  cases hm'
  exact ⟨l.2, hcode⟩

/-- What `InvokeFunction` answers, by the record and the function table. -/
theorem Registered.invokeFunction_answer {ssl : OpenSSL} (hssl : ssl.Lawful) {key : Key}
    {e : EnclaveImpl} {log : List (UInt64 × Bytes)} (hR : Registered ssl key e log)
    (hlen : log.length < 2 ^ 64) {calls : Calls} (hcalls : calls.decrypt.success = true)
    (handle : UInt64) {name : Bytes} (params : Bytes)
    (hname : 1 ≤ name.length ∧ name.length ≤ 256) :
    let answer := e.invokeFunction ssl calls handle name params
    (answer = .error .errorModuleLoadFailed ↔ handle ∉ log.map Prod.fst) ∧
    (answer = .error .errorFunctionNotFound ↔
      handle ∈ log.map Prod.fst ∧
        ∀ m, e.modules handle = some m → m.functionTable name = none) ∧
    answer ≠ .error .errorCryptoFailure ∧
    (∀ m offset, e.modules handle = some m → m.functionTable name = some offset →
      answer = .ok (params ++ [0x42])) := by
  intro answer
  have hanswer : answer = _ := invokeFunction_eq ssl calls hR.inv.init params hname
    fun m hm => hR.exists_code hssl hlen hcalls hm
  clear_value answer
  subst hanswer
  rw [← hR.isSome_iff]
  cases hm : e.modules handle with
  | none => simp
  | some m =>
      cases hf : m.functionTable name with
      | none =>
          refine ⟨by simp [hf], by simp [hf], by simp [hf], fun m' offset hm' hoffset => ?_⟩
          cases hm'
          rw [hf] at hoffset
          cases hoffset
      | some offset => simp [hf]

/-- **Handles are fresh, stable and bound to their module.** In every run
of a created enclave with fewer than `2 ^ 64 - 1` successful loads, the
loads have returned 1, 2, 3, ..., these are the keys in use, each entry
carries its key and still decrypts to the data it was loaded with, and
`InvokeFunction` answers by them. -/
theorem module_handles_bound (ssl : OpenSSL) (hssl : ssl.Lawful) (rand : Option Key)
    (e₀ : EnclaveImpl) (hcreate : Enclave.create rand = .ok e₀) (ops : List Input)
    (hloads : (loads (Mealy.run (EnclaveImpl.step ssl) e₀ ops).1).length < 2 ^ 64 - 1) :
    let e := (Mealy.run (EnclaveImpl.step ssl) e₀ ops).2
    let log := loads (Mealy.run (EnclaveImpl.step ssl) e₀ ops).1
    (∀ id, (e.modules id).isSome = true ↔ 1 ≤ id.toNat ∧ id.toNat ≤ e.nextModuleId.toNat - 1) ∧
    (∀ id m, e.modules id = some m → m.id = id) ∧
    log.map (·.1.toNat) = List.range' 1 log.length ∧
    e.nextModuleId.toNat = log.length + 1 ∧
    (∀ l ∈ log, ∃ m master, e.modules l.1 = some m ∧ e.masterKey = some master ∧
      ∀ calls : DecryptCalls, calls.success = true →
        decryptBlob ssl calls master m.encryptedCode = some l.2) ∧
    ∀ (calls : Calls), calls.decrypt.success = true →
      ∀ handle name params, 1 ≤ name.length ∧ name.length ≤ 256 →
        let answer := e.invokeFunction ssl calls handle name params
        (answer = .error .errorModuleLoadFailed ↔ handle ∉ log.map Prod.fst) ∧
        (answer = .error .errorFunctionNotFound ↔
          handle ∈ log.map Prod.fst ∧
            ∀ m, e.modules handle = some m → m.functionTable name = none) ∧
        answer ≠ .error .errorCryptoFailure ∧
        (∀ m offset, e.modules handle = some m → m.functionTable name = some offset →
          answer = .ok (params ++ [0x42])) := by
  obtain ⟨key, hR⟩ := run_registered hcreate ops
  intro e log
  have hlen : log.length < 2 ^ 64 - 1 := hloads
  have hR : Registered ssl key e log := hR
  clear_value e log
  have hnext := hR.next_toNat hlen
  obtain ⟨master, hmaster, -⟩ := e.key_of_initialized hR.inv.init
  refine ⟨fun id => ?_, fun id m hm => (hR.inv.entries id m hm).1, ?_, hnext, ?_, ?_⟩
  · rw [hR.isSome_iff, hR.handles, mem_firstHandles (by omega), hnext, Nat.add_sub_cancel]
  · rw [← firstHandles_toNat (by omega), ← hR.handles, List.map_map]
    rfl
  · intro l hl
    obtain ⟨m, hm, -⟩ := hR.entries (by omega) l hl
    refine ⟨m, master, hm, hmaster, fun calls hcalls => ?_⟩
    obtain ⟨m', hm', hcode⟩ := hR.decryptBlob_eq hssl (by omega) hl hcalls
    rw [hm] at hm'
    cases hm'
    rw [← hcode, master_eq hmaster]
  · intro calls hcalls handle name params hname
    exact hR.invokeFunction_answer hssl (by omega) hcalls handle params hname

end

/-- A failed load and a successful one: the handle is 1, it can be
invoked, and 2 stands for nothing yet. -/
theorem module_handles_bound_second_load :
    letI := Host.littleEndian
    let failing : Calls := ⟨{ EncryptCalls.succeed zeroIV with ctxNew := false }, .succeed⟩
    let working : Calls := ⟨.succeed zeroIV, .succeed⟩
    let ops : List Input :=
      [(.loadModule [0x48, 0x69], failing), (.loadModule [0x48, 0x69], working)]
    ∃ e₀, Enclave.create (some zeroKey) = .ok e₀ ∧
      let e := (Mealy.run (EnclaveImpl.step sampleGcm) e₀ ops).2
      (loads (Mealy.run (EnclaveImpl.step sampleGcm) e₀ ops).1).map Prod.fst = [1] ∧
      e.invokeFunction sampleGcm working 1 testFunction [0x10] = .ok [0x10, 0x42] ∧
      e.invokeFunction sampleGcm working 2 testFunction [0x10] =
        .error .errorModuleLoadFailed := by
  intro failing working ops
  let := Host.littleEndian
  refine ⟨(EnclaveImpl.new.initializeEnclave (some zeroKey)).2, rfl, ?_⟩
  intro e
  have hlog : (loads (Mealy.run (EnclaveImpl.step sampleGcm)
      (EnclaveImpl.new.initializeEnclave (some zeroKey)).2 ops).1).map Prod.fst = [1] := by
    decide +kernel
  obtain ⟨-, -, -, -, -, hinvoke⟩ := module_handles_bound sampleGcm sampleGcm_lawful
    (some zeroKey) (EnclaveImpl.new.initializeEnclave (some zeroKey)).2 rfl ops
    (by decide +kernel)
  obtain ⟨-, -, -, hok⟩ := hinvoke working rfl 1 testFunction [0x10] (by decide)
  obtain ⟨hfail, -⟩ := hinvoke working rfl 2 testFunction [0x10] (by decide)
  refine ⟨hlog, hok _ 0 rfl rfl, hfail.mpr ?_⟩
  rw [hlog]
  decide

end OpenEnclave
