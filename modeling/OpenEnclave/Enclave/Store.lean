import OpenEnclave.Enclave.Invariant

/-!
# Store — the encrypted store refines a plain map

What the secure storage is FOR: a map from keys to plaintexts. The
reference machine `PlainStore.step` says that and nothing about
encryption; it only needs to be told whether the encryption of a store
went through. `Represents` relates an enclave state to such a map —
every cell holds a sealed blob of the map's value, under the one master
key — and `step_represents` shows that each of the five operations keeps
it and answers as the reference does. Whole runs follow by
`Mealy.run_view`.
-/

namespace OpenEnclave

open ByteCodec Crypto EnclaveImpl

/-! ## The reference machine -/

/-- An operation together with how its OpenSSL calls turn out. -/
abbrev Input := EnclaveOp × Calls

/-- What a client of the store sees of one operation. -/
inductive StoreReply where
  | stored (result : Result Unit)
  | retrieved (result : Result Bytes)
  | other

/-- A plain partial map from keys to plaintexts. -/
abbrev PlainStore := Bytes → Option Bytes

namespace PlainStore

def empty : PlainStore := fun _ => none

/-- `encrypted`: the encryption went through. -/
def store (encrypted : Bool) (key data : Bytes) (σ : PlainStore) : Result Unit × PlainStore :=
  if ValidKey key ∧ ValidData data then
    if encrypted then (.ok (), Function.update σ key (some data))
    else (.error .errorCryptoFailure, σ)
  else (.error .errorInvalidParameter, σ)

def retrieve (key : Bytes) (σ : PlainStore) : Result Bytes :=
  if ValidKey key then
    match σ key with
    | none => .error .errorFunctionNotFound
    | some data => .ok data
  else .error .errorInvalidParameter

def step (σ : PlainStore) : Input → StoreReply × PlainStore
  | (.storeData key data, calls) =>
      let r := store calls.encrypt.success.isSome key data σ
      (.stored r.1, r.2)
  | (.retrieveData key, _) => (.retrieved (retrieve key σ), σ)
  | _ => (.other, σ)

/-- The data a successful store to `key` leaves there; `none` for every
other operation. -/
def storedBy (key : Bytes) : Input → Option Bytes
  | (.storeData k data, calls) =>
      if k = key ∧ ValidKey k ∧ ValidData data ∧ calls.encrypt.success.isSome then some data
      else none
  | _ => none

/-- The data of the latest successful store to `key` in a run. -/
def latestStore (key : Bytes) (ops : List Input) : Option Bytes :=
  ops.reverse.findSome? (storedBy key)

theorem latestStore_cons (key : Bytes) (i : Input) (ops : List Input) :
    latestStore key (i :: ops) = (latestStore key ops).or (storedBy key i) := by
  simp only [latestStore, List.reverse_cons, List.findSome?_append, List.findSome?_cons,
    List.findSome?_nil]
  cases storedBy key i <;> rfl

theorem latestStore_eq_none_iff {key : Bytes} {ops : List Input} :
    latestStore key ops = none ↔ ∀ i ∈ ops, storedBy key i = none := by
  simp [latestStore, List.findSome?_eq_none_iff]

theorem storedBy_validKey {key data : Bytes} {i : Input} (h : storedBy key i = some data) :
    ValidKey key := by
  obtain ⟨op, calls⟩ := i
  cases op with
  | storeData k d =>
      simp only [storedBy] at h
      split at h
      · rename_i hc
        rw [← hc.1]
        exact hc.2.1
      · cases h
  | loadModule d => cases h
  | invokeFunction handle name params => cases h
  | retrieveData k => cases h
  | getAttestation => cases h

theorem latestStore_validKey {key data : Bytes} {ops : List Input}
    (h : latestStore key ops = some data) : ValidKey key := by
  obtain ⟨i, -, hi⟩ := List.exists_of_findSome?_eq_some h
  exact storedBy_validKey hi

/-- One step changes exactly the key it stores to. -/
theorem step_apply (σ : PlainStore) (i : Input) (key : Bytes) :
    (step σ i).2 key = (storedBy key i).or (σ key) := by
  obtain ⟨op, calls⟩ := i
  cases op with
  | storeData k data =>
      simp only [step, store, storedBy]
      by_cases hv : ValidKey k ∧ ValidData data
      · by_cases he : calls.encrypt.success.isSome = true
        · by_cases hk : key = k
          · subst hk; simp [hv, he]
          · have hk' : ¬ k = key := fun h => hk h.symm
            simp [hv, he, Function.update_of_ne hk, hk']
        · simp [hv, he]
      · have hv' : ¬ (k = key ∧ ValidKey k ∧ ValidData data ∧
            calls.encrypt.success.isSome = true) := fun h => hv ⟨h.2.1, h.2.2.1⟩
        simp only [if_neg hv, if_neg hv', Option.none_or]
  | loadModule data => rfl
  | invokeFunction handle name params => rfl
  | retrieveData k => rfl
  | getAttestation => rfl

/-- The reference map is the record of the latest successful stores. -/
theorem run_apply (σ : PlainStore) (ops : List Input) (key : Bytes) :
    (Mealy.run step σ ops).2 key = (latestStore key ops).or (σ key) := by
  induction ops generalizing σ with
  | nil => rfl
  | cons i ops ih =>
      rw [Mealy.run_cons, ih, step_apply, latestStore_cons, Option.or_assoc]

end PlainStore

/-! ## The refinement -/

section
variable [Host]

/-- The enclave as a machine over its five operations. -/
def EnclaveImpl.step (ssl : OpenSSL) (e : EnclaveImpl) (i : Input) :
    (Σ op : EnclaveOp, Result op.Output) × EnclaveImpl :=
  (⟨i.1, (e.perform ssl i.2 i.1).1⟩, (e.perform ssl i.2 i.1).2)

/-- The part of an answer that concerns the store. -/
def storeView : (Σ op : EnclaveOp, Result op.Output) → StoreReply
  | ⟨.storeData .., r⟩ => .stored r
  | ⟨.retrieveData _, r⟩ => .retrieved r
  | _ => .other

/-- **The representation relation**: the enclave satisfies its invariant,
and its storage holds, cell by cell, sealed blobs of the map's values. -/
structure Represents (ssl : OpenSSL) (key : Key) (e : EnclaveImpl) (σ : PlainStore) :
    Prop where
  inv : ∃ n, Inv ssl key n e
  cells : ∀ k, Option.Rel (Sealed ssl key) (e.secureStorage k) (σ k)

omit [Host] in
theorem create_secureStorage {rand : Option Key} {e : EnclaveImpl}
    (h : Enclave.create rand = .ok e) (k : Bytes) : e.secureStorage k = none := by
  cases rand with
  | none => simp [Enclave.create, initializeEnclave, new, SecureKey.generate] at h
  | some bytes =>
      simp only [Enclave.create, initializeEnclave, new, SecureKey.generate,
        Option.map_some, Bool.false_eq_true, if_false, Except.ok.injEq] at h
      subst h
      rfl

/-- A created enclave represents the empty map, with nothing loaded. -/
theorem inv_represents_create (ssl : OpenSSL) {rand : Option Key} {e : EnclaveImpl}
    (h : Enclave.create rand = .ok e) :
    ∃ key, Inv ssl key 0 e ∧ Represents ssl key e .empty := by
  obtain ⟨key, -, hI⟩ := inv_create ssl h
  refine ⟨key, hI, ⟨0, hI⟩, fun k => ?_⟩
  rw [create_secureStorage h k]
  exact .none

theorem represents_create (ssl : OpenSSL) {rand : Option Key} {e : EnclaveImpl}
    (h : Enclave.create rand = .ok e) : ∃ key, Represents ssl key e .empty := by
  obtain ⟨key, -, hR⟩ := inv_represents_create ssl h
  exact ⟨key, hR⟩

/-- A represented state retrieves what the map holds, unless a call of
the decryption fails. -/
theorem Represents.retrieveData_eq {ssl : OpenSSL} (hssl : ssl.Lawful) {key : Key}
    {e : EnclaveImpl} {σ : PlainStore} (hR : Represents ssl key e σ) (calls : Calls)
    (k : Bytes) :
    e.retrieveData ssl calls k =
      if ValidKey k then
        match σ k with
        | none => .error .errorFunctionNotFound
        | some data =>
          if calls.decrypt.success then .ok data else .error .errorCryptoFailure
      else .error .errorInvalidParameter := by
  obtain ⟨n, hI⟩ := hR.inv
  rw [EnclaveImpl.retrieveData_eq ssl calls k hI.init]
  have hcell := hR.cells k
  split
  · cases hb : e.secureStorage k with
    | none =>
        cases hσ : σ k with
        | none => rfl
        | some data => rw [hb, hσ] at hcell; cases hcell
    | some blob =>
        cases hσ : σ k with
        | none => rw [hb, hσ] at hcell; cases hcell
        | some data =>
            rw [hb, hσ] at hcell
            cases hcell with
            | some hs =>
                rw [← hI.master_keyData] at hs
                obtain ⟨out, -, hout, hd⟩ :=
                  decryptBlob_sealed (master_isValid hI.init) hs calls.decrypt
                simp only [hd, hout hssl]
                cases calls.decrypt.success <;> rfl
  · rfl

theorem Represents.retrieveData {ssl : OpenSSL} (hssl : ssl.Lawful) {key : Key}
    {e : EnclaveImpl} {σ : PlainStore} (hR : Represents ssl key e σ) {calls : Calls}
    (hdec : calls.decrypt.success = true) (k : Bytes) :
    e.retrieveData ssl calls k = PlainStore.retrieve k σ := by
  rw [hR.retrieveData_eq hssl, PlainStore.retrieve, hdec]
  rfl

/-- Every operation keeps the representation, whatever its OpenSSL calls
do. -/
theorem Represents.step {ssl : OpenSSL} {key : Key} {e : EnclaveImpl} {σ : PlainStore}
    (hR : Represents ssl key e σ) (i : Input) :
    Represents ssl key (e.step ssl i).2 (PlainStore.step σ i).2 := by
  obtain ⟨op, calls⟩ := i
  obtain ⟨n, hI⟩ := hR.inv
  refine ⟨⟨_, hI.perform calls op⟩, ?_⟩
  cases op with
  | loadModule data =>
      have hsame : (e.perform ssl calls (.loadModule data)).2.secureStorage
          = e.secureStorage := by
        rw [perform, loadModule_eq ssl calls data hI.init]
        split
        · split <;> rfl
        · rfl
      intro k
      rw [EnclaveImpl.step, hsame]
      exact hR.cells k
  | invokeFunction handle name params => exact hR.cells
  | getAttestation => exact hR.cells
  | retrieveData k => exact hR.cells
  | storeData k data =>
      simp only [EnclaveImpl.step, perform, PlainStore.step, PlainStore.store,
        storeData_eq ssl calls k data hI.init]
      by_cases hv : ValidKey k ∧ ValidData data
      · cases calls.encrypt.success with
        | none =>
            simp only [if_pos hv]
            exact hR.cells
        | some iv =>
            simp only [if_pos hv, Option.isSome_some, if_true]
            -- the stored cell is sealed afresh, every other one is as before
            intro k'
            by_cases hk : k' = k
            · subst hk
              rw [putBlob_secureStorage_self, Function.update_self]
              exact .some ⟨⟨iv, by rw [hI.master_keyData]⟩, hv.2.2⟩
            · rw [putBlob_secureStorage_of_ne _ _ hk, Function.update_of_ne hk]
              exact hR.cells k'
      · simp only [if_neg hv]
        exact hR.cells

/-- **One operation of the enclave is one step of the reference.** -/
theorem step_represents {ssl : OpenSSL} (hssl : ssl.Lawful) {key : Key} {e : EnclaveImpl}
    {σ : PlainStore} {i : Input} (hdec : i.2.decrypt.success = true)
    (hR : Represents ssl key e σ) :
    storeView (e.step ssl i).1 = (PlainStore.step σ i).1 ∧
      Represents ssl key (e.step ssl i).2 (PlainStore.step σ i).2 := by
  refine ⟨?_, hR.step i⟩
  obtain ⟨op, calls⟩ := i
  obtain ⟨n, hI⟩ := hR.inv
  cases op with
  | loadModule data => rfl
  | invokeFunction handle name params => rfl
  | getAttestation => rfl
  | retrieveData k => exact congrArg StoreReply.retrieved (hR.retrieveData hssl hdec k)
  | storeData k data =>
      simp only [EnclaveImpl.step, perform, PlainStore.step, PlainStore.store, storeView,
        storeData_eq ssl calls k data hI.init]
      by_cases hv : ValidKey k ∧ ValidData data
      · cases calls.encrypt.success <;> simp [hv]
      · simp [hv]

/-- Whole runs of a created enclave against the reference. -/
theorem run_represents {ssl : OpenSSL} (hssl : ssl.Lawful) {rand : Option Key}
    {e : EnclaveImpl} (hcreate : Enclave.create rand = .ok e) {ops : List Input}
    (hdec : ∀ i ∈ ops, i.2.decrypt.success = true) :
    ∃ key, (Mealy.run (EnclaveImpl.step ssl) e ops).1.map storeView =
        (Mealy.run PlainStore.step .empty ops).1 ∧
      Represents ssl key (Mealy.run (EnclaveImpl.step ssl) e ops).2
        (Mealy.run PlainStore.step .empty ops).2 := by
  obtain ⟨key, hR⟩ := represents_create ssl hcreate
  have hstep : ∀ (s : EnclaveImpl) (t : PlainStore) (i : Input),
      i.2.decrypt.success = true → Represents ssl key s t →
      storeView (s.step ssl i).1 = (PlainStore.step t i).1 ∧
        Represents ssl key (s.step ssl i).2 (PlainStore.step t i).2 :=
    fun s t i hadm hR => step_represents hssl hadm hR
  exact ⟨key, Mealy.run_view hstep hR hdec⟩

/-- A represented run of the reference retrieves its latest stores. -/
theorem Represents.retrieveData_latest {ssl : OpenSSL} (hssl : ssl.Lawful) {key : Key}
    {e : EnclaveImpl} {ops : List Input}
    (hR : Represents ssl key e (Mealy.run PlainStore.step .empty ops).2) {calls : Calls}
    (hdec : calls.decrypt.success = true) (k : Bytes) :
    e.retrieveData ssl calls k =
      if ValidKey k then
        match PlainStore.latestStore k ops with
        | none => .error .errorFunctionNotFound
        | some data => .ok data
      else .error .errorInvalidParameter := by
  have hmap : (Mealy.run PlainStore.step .empty ops).2 k = PlainStore.latestStore k ops := by
    rw [PlainStore.run_apply]
    exact Option.or_none
  rw [hR.retrieveData hssl hdec k, PlainStore.retrieve, hmap]

/-- **The encrypted store is a plain map.** Every run of operations on a
created enclave answers its stores and retrievals as the reference
machine does, and after it `RetrieveData` finds the latest successful
store of its key. -/
theorem encrypted_store_refines_map (ssl : OpenSSL) (hssl : ssl.Lawful) (rand : Option Key)
    (e : EnclaveImpl) (hcreate : Enclave.create rand = .ok e) (ops : List Input)
    (hdec : ∀ i ∈ ops, i.2.decrypt.success = true) :
    (Mealy.run (EnclaveImpl.step ssl) e ops).1.map storeView =
        (Mealy.run PlainStore.step .empty ops).1 ∧
      ∀ (calls : Calls), calls.decrypt.success = true → ∀ key,
        let answer := (Mealy.run (EnclaveImpl.step ssl) e ops).2.retrieveData ssl calls key
        (ValidKey key → ∀ data, PlainStore.latestStore key ops = some data →
          answer = .ok data) ∧
        (answer = .error .errorFunctionNotFound ↔
          ValidKey key ∧ ∀ i ∈ ops, PlainStore.storedBy key i = none) ∧
        (answer = .error .errorInvalidParameter ↔ ¬ ValidKey key) ∧
        answer ≠ .error .errorCryptoFailure := by
  obtain ⟨mk, hviews, hR⟩ := run_represents hssl hcreate hdec
  refine ⟨hviews, fun calls hc key => ?_⟩
  simp only [hR.retrieveData_latest hssl hc key, ← PlainStore.latestStore_eq_none_iff]
  by_cases hk : ValidKey key
  · cases hl : PlainStore.latestStore key ops <;> simp [hk]
  · simp [hk]

end

/-- A failed store, then a successful one: the second is what is
retrieved, and another key stays unknown. -/
theorem encrypted_store_refines_map_two_stores :
    letI := Host.littleEndian
    let failing : Calls := ⟨{ EncryptCalls.succeed zeroIV with getTag := false }, .succeed⟩
    let working : Calls := ⟨.succeed zeroIV, .succeed⟩
    let ops : List Input :=
      [(.storeData [0x6B] [0x00], failing), (.storeData [0x6B] [0x48, 0x69], working)]
    ∃ e, Enclave.create (some zeroKey) = .ok e ∧
      (Mealy.run (EnclaveImpl.step sampleGcm) e ops).2.retrieveData sampleGcm working [0x6B]
        = .ok [0x48, 0x69] ∧
      (Mealy.run (EnclaveImpl.step sampleGcm) e ops).2.retrieveData sampleGcm working [0x78]
        = .error .errorFunctionNotFound := by
  intro failing working ops
  let := Host.littleEndian
  refine ⟨_, rfl, ?_⟩
  have hdec : ∀ i ∈ ops, i.2.decrypt.success = true := by
    intro i hi
    simp only [ops, List.mem_cons, List.not_mem_nil, or_false] at hi
    rcases hi with rfl | rfl <;> rfl
  have hrun := (encrypted_store_refines_map sampleGcm sampleGcm_lawful (some zeroKey) _ rfl
    ops hdec).2 working rfl
  refine ⟨(hrun [0x6B]).1 ⟨by decide, by decide⟩ _ rfl, (hrun [0x78]).2.1.mpr
    ⟨⟨by decide, by decide⟩, ?_⟩⟩
  intro i hi
  simp only [ops, List.mem_cons, List.not_mem_nil, or_false] at hi
  rcases hi with rfl | rfl <;> rfl

end OpenEnclave
