import OpenEnclave.Server.Reply
import OpenEnclave.Enclave.Store

/-!
# Secrets — what two runs with different secrets show

The data stored under a set `K` of keys, and the code of the modules,
are the secrets. Two runs of the server whose requests differ in nothing
else are compared reply by reply: `secrets_reach_only_their_reader` says
that they agree, except in what a `RETRIEVE_DATA` of a key in `K` reads
out.

The relation that carries the two runs is `LowEq`: as many modules
loaded, and stores that agree outside `K` and hold the same keys. For
the plain maps behind the stores this is a fact about the reference
machine (`PlainStore.LowEq.step`); the enclaves inherit it through
`Represents`.
-/

namespace OpenEnclave

open ByteCodec Crypto EnclaveImpl

/-! ## Plain stores -/

/-- The maps have the same keys, and the same values outside `K`. -/
structure PlainStore.LowEq (K : Set Bytes) (σ τ : PlainStore) : Prop where
  keys : ∀ k, (σ k).isSome = (τ k).isSome
  values : ∀ k, k ∉ K → σ k = τ k

/-- The operations differ at most in secret data, and that is within its
limits on both sides. -/
inductive OpVaries (K : Set Bytes) : EnclaveOp → EnclaveOp → Prop where
  | same (op : EnclaveOp) : OpVaries K op op
  | store {key data₁ data₂ : Bytes} : key ∈ K → ValidData data₁ → ValidData data₂ →
      OpVaries K (.storeData key data₁) (.storeData key data₂)
  | load {data₁ data₂ : Bytes} : ValidData data₁ → ValidData data₂ →
      OpVaries K (.loadModule data₁) (.loadModule data₂)

/-- The OpenSSL calls of both runs come to success, or those of
neither. -/
structure SameOutcome (calls₁ calls₂ : Calls) : Prop where
  encrypt : calls₁.encrypt.success.isSome = calls₂.encrypt.success.isSome
  decrypt : calls₁.decrypt.success = calls₂.decrypt.success

theorem SameOutcome.refl (calls : Calls) : SameOutcome calls calls := ⟨rfl, rfl⟩

/-- What two stores leave at a key: the same, or secrets of a key in
`K`. -/
theorem storedBy_varies {K : Set Bytes} {op₁ op₂ : EnclaveOp} {calls₁ calls₂ : Calls}
    (hop : OpVaries K op₁ op₂) (hcalls : SameOutcome calls₁ calls₂) (k : Bytes) :
    (PlainStore.storedBy k (op₁, calls₁)).isSome = (PlainStore.storedBy k (op₂, calls₂)).isSome ∧
      (k ∉ K → PlainStore.storedBy k (op₁, calls₁) = PlainStore.storedBy k (op₂, calls₂)) := by
  cases hop with
  | same op =>
      have heq : PlainStore.storedBy k (op₁, calls₁) = PlainStore.storedBy k (op₁, calls₂) := by
        cases op₁ <;> simp only [PlainStore.storedBy, hcalls.encrypt]
      exact ⟨by rw [heq], fun _ => heq⟩
  | @store key data₁ data₂ hkey hd₁ hd₂ =>
      simp only [PlainStore.storedBy, hcalls.encrypt, hd₁, hd₂, true_and]
      refine ⟨by split <;> rfl, fun hk => ?_⟩
      have hne : key ≠ k := by
        rintro rfl
        exact hk hkey
      simp [hne]
  | load hd₁ hd₂ => exact ⟨rfl, fun _ => rfl⟩

/-- **The reference machine keeps the stores alike.** -/
theorem PlainStore.LowEq.step {K : Set Bytes} {σ τ : PlainStore} (h : PlainStore.LowEq K σ τ)
    {op₁ op₂ : EnclaveOp} {calls₁ calls₂ : Calls} (hop : OpVaries K op₁ op₂)
    (hcalls : SameOutcome calls₁ calls₂) :
    PlainStore.LowEq K (PlainStore.step σ (op₁, calls₁)).2 (PlainStore.step τ (op₂, calls₂)).2 where
  keys := by
    intro k
    rw [PlainStore.step_apply, PlainStore.step_apply, Option.isSome_or, Option.isSome_or,
      (storedBy_varies hop hcalls k).1, h.keys]
  values := by
    intro k hk
    rw [PlainStore.step_apply, PlainStore.step_apply, (storedBy_varies hop hcalls k).2 hk,
      h.values k hk]

section
variable [Host]

/-! ## Enclaves -/

/-- **Enclaves that look alike without the secrets**, each under its own
master key. -/
structure LowEq (ssl : OpenSSL) (K : Set Bytes) (e₁ e₂ : EnclaveImpl) : Prop where
  related : ∃ key₁ key₂ n σ₁ σ₂, Inv ssl key₁ n e₁ ∧ Inv ssl key₂ n e₂ ∧
    Represents ssl key₁ e₁ σ₁ ∧ Represents ssl key₂ e₂ σ₂ ∧ PlainStore.LowEq K σ₁ σ₂

theorem lowEq_create (ssl : OpenSSL) (K : Set Bytes) {rand₁ rand₂ : Option Key}
    {e₁ e₂ : EnclaveImpl} (h₁ : Enclave.create rand₁ = .ok e₁)
    (h₂ : Enclave.create rand₂ = .ok e₂) : LowEq ssl K e₁ e₂ := by
  obtain ⟨key₁, hI₁, hR₁⟩ := inv_represents_create ssl h₁
  obtain ⟨key₂, hI₂, hR₂⟩ := inv_represents_create ssl h₂
  exact ⟨key₁, key₂, 0, .empty, .empty, hI₁, hI₂, hR₁, hR₂, fun _ => rfl, fun _ _ => rfl⟩

/-- A call is answered by how many modules are loaded and whether the
decryption of the code goes through. -/
theorem invokeFunction_congr {ssl : OpenSSL} {key₁ key₂ : Key} {n : Nat} {e₁ e₂ : EnclaveImpl}
    (hI₁ : Inv ssl key₁ n e₁) (hI₂ : Inv ssl key₂ n e₂) {calls₁ calls₂ : Calls}
    (hcalls : SameOutcome calls₁ calls₂) (handle : UInt64) (name params : Bytes) :
    e₁.invokeFunction ssl calls₁ handle name params =
      e₂.invokeFunction ssl calls₂ handle name params := by
  have hids : (e₁.modules handle).isSome = (e₂.modules handle).isSome := by
    rw [Bool.eq_iff_iff, hI₁.ids, hI₂.ids]
  rw [invokeFunction, invokeFunction, dif_pos hI₁.init, dif_pos hI₂.init]
  split
  · rfl
  · cases hm₁ : e₁.modules handle with
    | none =>
        cases hm₂ : e₂.modules handle with
        | none => rfl
        | some m₂ => rw [hm₁, hm₂] at hids; cases hids
    | some m₁ =>
        cases hm₂ : e₂.modules handle with
        | none => rw [hm₁, hm₂] at hids; cases hids
        | some m₂ =>
            obtain ⟨-, htable₁, data₁, hs₁⟩ := hI₁.entries _ _ hm₁
            obtain ⟨-, htable₂, data₂, hs₂⟩ := hI₂.entries _ _ hm₂
            rw [← hI₁.master_keyData] at hs₁
            rw [← hI₂.master_keyData] at hs₂
            obtain ⟨out₁, -, -, hd₁⟩ :=
              decryptBlob_sealed (master_isValid hI₁.init) hs₁ calls₁.decrypt
            obtain ⟨out₂, -, -, hd₂⟩ :=
              decryptBlob_sealed (master_isValid hI₂.init) hs₂ calls₂.decrypt
            simp only [htable₁, htable₂, hd₁, hd₂, hcalls.decrypt]
            cases calls₂.decrypt.success <;> rfl

/-- The handle of a load is the number of loads before it. -/
theorem loadModule_congr {ssl : OpenSSL} {key₁ key₂ : Key} {n : Nat} {e₁ e₂ : EnclaveImpl}
    (hI₁ : Inv ssl key₁ n e₁) (hI₂ : Inv ssl key₂ n e₂) {calls₁ calls₂ : Calls}
    (hcalls : SameOutcome calls₁ calls₂) {data₁ data₂ : Bytes}
    (hdata : ValidData data₁ ↔ ValidData data₂) :
    (e₁.loadModule ssl calls₁ data₁).1 = (e₂.loadModule ssl calls₂ data₂).1 := by
  have hnext : e₁.nextModuleId = e₂.nextModuleId := by rw [hI₁.next, hI₂.next]
  have hencrypt := hcalls.encrypt
  rw [loadModule_eq ssl calls₁ data₁ hI₁.init, loadModule_eq ssl calls₂ data₂ hI₂.init]
  by_cases hd : ValidData data₁
  · rw [if_pos hd, if_pos (hdata.mp hd)]
    cases h₁ : calls₁.encrypt.success <;> cases h₂ : calls₂.encrypt.success <;>
      simp_all
  · rw [if_neg hd, if_neg (fun h => hd (hdata.mpr h))]

theorem storeData_congr {ssl : OpenSSL} {e₁ e₂ : EnclaveImpl} (h₁ : e₁.initialized = true)
    (h₂ : e₂.initialized = true) {calls₁ calls₂ : Calls}
    (hcalls : SameOutcome calls₁ calls₂) (key : Bytes) {data₁ data₂ : Bytes}
    (hdata : ValidData data₁ ↔ ValidData data₂) :
    (e₁.storeData ssl calls₁ key data₁).1 = (e₂.storeData ssl calls₂ key data₂).1 := by
  have hencrypt := hcalls.encrypt
  rw [storeData_eq ssl calls₁ key data₁ h₁, storeData_eq ssl calls₂ key data₂ h₂]
  by_cases hd : ValidKey key ∧ ValidData data₁
  · rw [if_pos hd, if_pos ⟨hd.1, hdata.mp hd.2⟩]
    cases h₁ : calls₁.encrypt.success <;> cases h₂ : calls₂.encrypt.success <;>
      simp_all
  · rw [if_neg hd, if_neg (fun h => hd ⟨h.1, hdata.mpr h.2⟩)]

end

end OpenEnclave

namespace OpenEnclave.Server

open ByteCodec Protocol EnclaveImpl Effect

section
variable [Host]

/-! ## Replies -/

/-- The operation reads a secret out. -/
def ReadsSecret (K : Set Bytes) (op : EnclaveOp) : Prop := ∃ k ∈ K, op = .retrieveData k

/-- The replies have the same status, and are the same unless they show a
secret. -/
structure RepliesAlike (secret : Prop) (reply₁ reply₂ : Response) : Prop where
  status : reply₁.status = reply₂.status
  same : ¬ secret → reply₁ = reply₂

omit [Host] in
theorem RepliesAlike.of_eq {secret : Prop} {reply₁ reply₂ : Response} (h : reply₁ = reply₂) :
    RepliesAlike secret reply₁ reply₂ :=
  ⟨by rw [h], fun _ => h⟩

/-- What `RETRIEVE_DATA` shows: whether the key is there, and the value
only of the key itself. -/
theorem retrieve_alike {ssl : Crypto.OpenSSL} (hssl : ssl.Lawful) {K : Set Bytes}
    {key₁ key₂ : Crypto.Key} {e₁ e₂ : EnclaveImpl} {σ₁ σ₂ : PlainStore}
    (hR₁ : Represents ssl key₁ e₁ σ₁) (hR₂ : Represents ssl key₂ e₂ σ₂)
    (hσ : PlainStore.LowEq K σ₁ σ₂) {calls₁ calls₂ : Calls} (hcalls : SameOutcome calls₁ calls₂)
    (k : Bytes) :
    RepliesAlike (k ∈ K) (callReply (.retrieveData k) (e₁.retrieveData ssl calls₁ k))
      (callReply (.retrieveData k) (e₂.retrieveData ssl calls₂ k)) := by
  have hkeys := hσ.keys k
  rw [hR₁.retrieveData_eq hssl, hR₂.retrieveData_eq hssl, hcalls.decrypt]
  constructor
  · split
    · cases h₁ : σ₁ k with
      | none =>
          cases h₂ : σ₂ k with
          | none => rfl
          | some data₂ => rw [h₁, h₂] at hkeys; cases hkeys
      | some data₁ =>
          cases h₂ : σ₂ k with
          | none => rw [h₁, h₂] at hkeys; cases hkeys
          | some data₂ => cases calls₂.decrypt.success <;> rfl
    · rfl
  · intro hk
    rw [hσ.values k hk]

/-- The reply to a store does not show the data. -/
theorem store_alike {K : Set Bytes} (key : Bytes) {data₁ data₂ : Bytes}
    {result₁ result₂ : Result Unit} (h : result₁ = result₂) :
    RepliesAlike (ReadsSecret K (.storeData key data₁))
        (callReply (.storeData key data₁) result₁) (callReply (.storeData key data₂) result₂) ∧
      loadCount (.storeData key data₁) result₁ = loadCount (.storeData key data₂) result₂ := by
  subst h
  cases result₁ <;> exact ⟨.of_eq rfl, rfl⟩

theorem load_alike {K : Set Bytes} {data₁ data₂ : Bytes} {result₁ result₂ : Result UInt64}
    (h : result₁ = result₂) :
    RepliesAlike (ReadsSecret K (.loadModule data₁))
        (callReply (.loadModule data₁) result₁) (callReply (.loadModule data₂) result₂) ∧
      loadCount (.loadModule data₁) result₁ = loadCount (.loadModule data₂) result₂ := by
  subst h
  cases result₁ <;> exact ⟨.of_eq rfl, rfl⟩

/-- The replies of one operation of two enclaves that look alike, and
whether it added a module. -/
theorem replies_alike {ssl : Crypto.OpenSSL} (hssl : ssl.Lawful) {K : Set Bytes}
    {key₁ key₂ : Crypto.Key} {n : Nat} {e₁ e₂ : EnclaveImpl} {σ₁ σ₂ : PlainStore}
    (hI₁ : Inv ssl key₁ n e₁) (hI₂ : Inv ssl key₂ n e₂) (hR₁ : Represents ssl key₁ e₁ σ₁)
    (hR₂ : Represents ssl key₂ e₂ σ₂) (hσ : PlainStore.LowEq K σ₁ σ₂)
    {op₁ op₂ : EnclaveOp} {calls₁ calls₂ : Calls} (hop : OpVaries K op₁ op₂)
    (hcalls : SameOutcome calls₁ calls₂) :
    RepliesAlike (ReadsSecret K op₁) (callReply op₁ (e₁.perform ssl calls₁ op₁).1)
        (callReply op₂ (e₂.perform ssl calls₂ op₂).1) ∧
      loadCount op₁ (e₁.perform ssl calls₁ op₁).1 =
        loadCount op₂ (e₂.perform ssl calls₂ op₂).1 := by
  cases hop with
  | @store key data₁ data₂ hkey hd₁ hd₂ =>
      exact store_alike key (storeData_congr hI₁.init hI₂.init hcalls key (iff_of_true hd₁ hd₂))
  | @load data₁ data₂ hd₁ hd₂ =>
      exact load_alike (loadModule_congr hI₁ hI₂ hcalls (iff_of_true hd₁ hd₂))
  | same op =>
      cases op₁ with
      | loadModule data => exact load_alike (loadModule_congr hI₁ hI₂ hcalls .rfl)
      | invokeFunction handle name params =>
          simp only [perform, invokeFunction_congr hI₁ hI₂ hcalls handle name params]
          exact ⟨.of_eq rfl, trivial⟩
      | storeData key data =>
          exact store_alike key (storeData_congr hI₁.init hI₂.init hcalls key .rfl)
      | retrieveData k =>
          have halike := retrieve_alike hssl hR₁ hR₂ hσ hcalls k
          exact ⟨⟨halike.status, fun hs => halike.same fun hk => hs ⟨k, hk, rfl⟩⟩, rfl⟩
      | getAttestation =>
          simp only [perform, getAttestation, if_pos hI₁.init, if_pos hI₂.init]
          exact ⟨.of_eq rfl, trivial⟩

/-- **One operation of two enclaves that look alike.** -/
theorem perform_alike {ssl : Crypto.OpenSSL} (hssl : ssl.Lawful) {K : Set Bytes}
    {e₁ e₂ : EnclaveImpl} (h : LowEq ssl K e₁ e₂) {op₁ op₂ : EnclaveOp} {calls₁ calls₂ : Calls}
    (hop : OpVaries K op₁ op₂) (hcalls : SameOutcome calls₁ calls₂) :
    RepliesAlike (ReadsSecret K op₁) (callReply op₁ (e₁.perform ssl calls₁ op₁).1)
        (callReply op₂ (e₂.perform ssl calls₂ op₂).1) ∧
      LowEq ssl K (e₁.perform ssl calls₁ op₁).2 (e₂.perform ssl calls₂ op₂).2 := by
  obtain ⟨key₁, key₂, n, σ₁, σ₂, hI₁, hI₂, hR₁, hR₂, hσ⟩ := h
  obtain ⟨halike, hcount⟩ := replies_alike hssl hI₁ hI₂ hR₁ hR₂ hσ hop hcalls
  refine ⟨halike, key₁, key₂, _, _, _, hI₁.perform calls₁ op₁, ?_,
    hR₁.step (op₁, calls₁), hR₂.step (op₂, calls₂), hσ.step hop hcalls⟩
  rw [hcount]
  exact hI₂.perform calls₂ op₂

/-! ## Requests -/

/-- `DispatchCommand` on a connection whose client waits: the buffers
sent and the server after it. -/
def dispatch (ssl : Crypto.OpenSSL) (server : EnclaveServer) (i : Request × Calls) :
    List Bytes × EnclaveServer :=
  match (dispatchCommand i.1).exec (act ssl i.2) ⟨server, ⟨.whole [], true, []⟩⟩ with
  | .error _ => ([], server)
  | .ok (_, w) => (w.conn.sent, w.server)

theorem dispatch_eq (ssl : Crypto.OpenSSL) {server : EnclaveServer} {i : Request × Calls}
    {reply : Response} {server' : EnclaveServer}
    (h : serve ssl i.2 server (decodeCommand i.1) = .ok (reply, server')) :
    dispatch ssl server i = ([reply.serialize], server') := by
  rw [dispatch, dispatchCommand_eq, exec_execute, h]
  rfl

/-- The requests are the same, or store different data under a key in
`K`, or load different modules, within the limits. -/
inductive RequestVaries (K : Set Bytes) : Request → Request → Prop where
  | same (request : Request) : RequestVaries K request request
  | store {request₁ request₂ : Request} {key data₁ data₂ : Bytes} :
      CommandType.ofByte? request₁.header.commandType = some .storeData →
      CommandType.ofByte? request₂.header.commandType = some .storeData →
      StoreDataRequest.deserialize request₁.payload = .ok ⟨key, data₁⟩ →
      StoreDataRequest.deserialize request₂.payload = .ok ⟨key, data₂⟩ →
      key ∈ K → ValidData data₁ → ValidData data₂ → RequestVaries K request₁ request₂
  | load {request₁ request₂ : Request} {data₁ data₂ : Bytes} :
      CommandType.ofByte? request₁.header.commandType = some .loadModule →
      CommandType.ofByte? request₂.header.commandType = some .loadModule →
      LoadModuleRequest.deserialize request₁.payload = .ok ⟨data₁⟩ →
      LoadModuleRequest.deserialize request₂.payload = .ok ⟨data₂⟩ →
      ValidData data₁ → ValidData data₂ → RequestVaries K request₁ request₂

/-- The request is a `RETRIEVE_DATA` of a key in `K`. -/
def RequestsSecret (K : Set Bytes) (request : Request) : Prop :=
  ∃ key ∈ K, CommandType.ofByte? request.header.commandType = some .retrieveData ∧
    RetrieveDataRequest.deserialize request.payload = .ok ⟨key⟩

/-- Requests that vary are decoded to the same command, or to operations
that vary. -/
theorem RequestVaries.decoded {K : Set Bytes} {request₁ request₂ : Request}
    (h : RequestVaries K request₁ request₂) :
    decodeCommand request₁ = decodeCommand request₂ ∨
      ∃ op₁ op₂, decodeCommand request₁ = .ok (.call op₁) ∧
        decodeCommand request₂ = .ok (.call op₂) ∧ OpVaries K op₁ op₂ := by
  cases h with
  | same => exact .inl rfl
  | store hc₁ hc₂ hd₁ hd₂ hkey hv₁ hv₂ =>
      refine .inr ⟨_, _, ?_, ?_, .store hkey hv₁ hv₂⟩
      · rw [decodeCommand, hc₁, hd₁]; rfl
      · rw [decodeCommand, hc₂, hd₂]; rfl
  | load hc₁ hc₂ hd₁ hd₂ hv₁ hv₂ =>
      refine .inr ⟨_, _, ?_, ?_, .load hv₁ hv₂⟩
      · rw [decodeCommand, hc₁, hd₁]; rfl
      · rw [decodeCommand, hc₂, hd₂]; rfl

/-- The servers look alike without the secrets. -/
def ServersAlike (ssl : Crypto.OpenSSL) (K : Set Bytes) (server₁ server₂ : EnclaveServer) : Prop :=
  ∃ e₁ e₂, server₁.enclave = some e₁ ∧ server₂.enclave = some e₂ ∧ LowEq ssl K e₁ e₂

/-- What an observer may compare of the buffers sent in the two runs. -/
def SentAlike (secret : Prop) (sent₁ sent₂ : List Bytes) : Prop :=
  ∃ reply₁ reply₂ : Response, sent₁ = [reply₁.serialize] ∧ sent₂ = [reply₂.serialize] ∧
    reply₁.status = reply₂.status ∧ (¬ secret → sent₁ = sent₂)

omit [Host] in
theorem callOf_ok {α : Type} {message : Except ReadFault α} {op : α → EnclaveOp} {x : EnclaveOp}
    (h : callOf message op = .ok (.call x)) : ∃ m, message = .ok m ∧ op m = x := by
  cases message with
  | error fault => cases h
  | ok m => cases h; exact ⟨m, rfl, rfl⟩

/-- A decoded `RETRIEVE_DATA` was one in the request. -/
theorem requestsSecret_of_decodeCommand {K : Set Bytes} {request : Request} {op : EnclaveOp}
    (h : decodeCommand request = .ok (.call op)) (hs : ReadsSecret K op) :
    RequestsSecret K request := by
  obtain ⟨k, hk, rfl⟩ := hs
  rw [decodeCommand] at h
  cases hc : CommandType.ofByte? request.header.commandType with
  | none => rw [hc] at h; cases h
  | some command =>
      rw [hc] at h
      cases command with
      | loadModule => obtain ⟨m, -, hm⟩ := callOf_ok h; cases hm
      | invokeFunction => obtain ⟨m, -, hm⟩ := callOf_ok h; cases hm
      | storeData => obtain ⟨m, -, hm⟩ := callOf_ok h; cases hm
      | retrieveData =>
          obtain ⟨m, hd, hm⟩ := callOf_ok h
          cases hm
          exact ⟨m.key, hk, hc, hd⟩
      | getAttestation => cases h
      | shutdown => cases h

/-- Two calls of the enclave, as requests. -/
theorem dispatch_call_alike {ssl : Crypto.OpenSSL} (hssl : ssl.Lawful) {K : Set Bytes}
    {server₁ server₂ : EnclaveServer} (h : ServersAlike ssl K server₁ server₂)
    {i₁ i₂ : Request × Calls} {op₁ op₂ : EnclaveOp}
    (hd₁ : decodeCommand i₁.1 = .ok (.call op₁)) (hd₂ : decodeCommand i₂.1 = .ok (.call op₂))
    (hop : OpVaries K op₁ op₂) (hcalls : SameOutcome i₁.2 i₂.2) :
    SentAlike (RequestsSecret K i₁.1) (dispatch ssl server₁ i₁).1 (dispatch ssl server₂ i₂).1 ∧
      ServersAlike ssl K (dispatch ssl server₁ i₁).2 (dispatch ssl server₂ i₂).2 := by
  obtain ⟨e₁, e₂, he₁, he₂, hlow⟩ := h
  obtain ⟨halike, hlow'⟩ := perform_alike hssl hlow hop hcalls
  have hserve₁ : serve ssl i₁.2 server₁ (decodeCommand i₁.1) =
      .ok (callReply op₁ (e₁.perform ssl i₁.2 op₁).1,
        { server₁ with enclave := some (e₁.perform ssl i₁.2 op₁).2 }) := by
    simp only [hd₁, serve, he₁]
  have hserve₂ : serve ssl i₂.2 server₂ (decodeCommand i₂.1) =
      .ok (callReply op₂ (e₂.perform ssl i₂.2 op₂).1,
        { server₂ with enclave := some (e₂.perform ssl i₂.2 op₂).2 }) := by
    simp only [hd₂, serve, he₂]
  rw [dispatch_eq ssl hserve₁, dispatch_eq ssl hserve₂]
  refine ⟨⟨_, _, rfl, rfl, halike.status, fun hs => ?_⟩, _, _, rfl, rfl, hlow'⟩
  have hsame := halike.same fun hr => hs (requestsSecret_of_decodeCommand hd₁ hr)
  rw [hsame]

/-- **One request to two servers that look alike.** -/
theorem dispatch_alike {ssl : Crypto.OpenSSL} (hssl : ssl.Lawful) {K : Set Bytes}
    {server₁ server₂ : EnclaveServer} (h : ServersAlike ssl K server₁ server₂)
    {i₁ i₂ : Request × Calls} (hrequest : RequestVaries K i₁.1 i₂.1)
    (hcalls : SameOutcome i₁.2 i₂.2) :
    SentAlike (RequestsSecret K i₁.1) (dispatch ssl server₁ i₁).1 (dispatch ssl server₂ i₂).1 ∧
      ServersAlike ssl K (dispatch ssl server₁ i₁).2 (dispatch ssl server₂ i₂).2 := by
  rcases hrequest.decoded with heq | ⟨op₁, op₂, hd₁, hd₂, hop⟩
  · cases hd : decodeCommand i₁.1 with
    | ok command =>
        cases command with
        | call op =>
            exact dispatch_call_alike hssl h hd (heq.symm.trans hd) (.same op) hcalls
        | shutdown =>
            obtain ⟨e₁, e₂, he₁, he₂, hlow⟩ := h
            rw [dispatch_eq ssl (by rw [hd]; rfl), dispatch_eq ssl (by rw [← heq, hd]; rfl)]
            exact ⟨⟨_, _, rfl, rfl, rfl, fun _ => rfl⟩, e₁, e₂, he₁, he₂, hlow⟩
    | error status =>
        -- the reply is an error that depends on the request only
        rw [dispatch_eq ssl (by rw [hd]; rfl), dispatch_eq ssl (by rw [← heq, hd]; rfl)]
        exact ⟨⟨_, _, rfl, rfl, rfl, fun _ => rfl⟩, h⟩
  · exact dispatch_call_alike hssl h hd₁ hd₂ hop hcalls

/-- **Secrets reach only the reader of their key.** Two runs of freshly
initialized servers, each with its own random choices, whose requests
vary only in the data stored under keys in `K` and in the modules loaded:
all replies are the same byte for byte, but for those to a
`RETRIEVE_DATA` of a key in `K`, and these have the same status. -/
theorem secrets_reach_only_their_reader (ssl : Crypto.OpenSSL) (hssl : ssl.Lawful)
    (K : Set Bytes) (rand₁ rand₂ : Option Crypto.Key) (sockets₁ sockets₂ : SocketCalls)
    (server₁ server₂ : EnclaveServer)
    (hinit₁ : EnclaveServer.new.initializeServer rand₁ sockets₁ = (true, server₁))
    (hinit₂ : EnclaveServer.new.initializeServer rand₂ sockets₂ = (true, server₂))
    (run₁ run₂ : List (Request × Calls))
    (hvary : List.Forall₂ (fun i₁ i₂ => RequestVaries K i₁.1 i₂.1 ∧ SameOutcome i₁.2 i₂.2)
      run₁ run₂) :
    List.Forall₂ (fun p sent₂ => SentAlike (RequestsSecret K p.1.1) p.2 sent₂)
      (run₁.zip (Mealy.run (dispatch ssl) server₁ run₁).1)
      (Mealy.run (dispatch ssl) server₂ run₂).1 := by
  obtain ⟨e₁, hcreate₁, he₁⟩ := initializeServer_enclave hinit₁
  obtain ⟨e₂, hcreate₂, he₂⟩ := initializeServer_enclave hinit₂
  have hstart : ServersAlike ssl K server₁ server₂ :=
    ⟨e₁, e₂, he₁, he₂, lowEq_create ssl K hcreate₁ hcreate₂⟩
  have hstep : ∀ s t (i j : Request × Calls),
      RequestVaries K i.1 j.1 ∧ SameOutcome i.2 j.2 → ServersAlike ssl K s t →
      SentAlike (RequestsSecret K i.1) (dispatch ssl s i).1 (dispatch ssl t j).1 ∧
        ServersAlike ssl K (dispatch ssl s i).2 (dispatch ssl t j).2 :=
    fun s t i j hij hst => dispatch_alike hssl hst hij.1 hij.2
  exact (Mealy.run_pair (O := fun i => SentAlike (RequestsSecret K i.1)) hstep hstart hvary).1

end

/-! ## Two stores under one key -/

/-- `sampleGcm` with the tag of the encryption of `"H"` as well. -/
def sampleGcmTwo : Crypto.OpenSSL where
  gcmEncrypt := Crypto.sampleGcm.gcmEncrypt
  gcmDecrypt := Crypto.sampleGcm.gcmDecrypt
  gcmTag key iv aad ciphertext :=
    if aad = [] ∧ ciphertext = [0x86] then
      ⟨[0xE9, 0xD3, 0x53, 0xD4, 0x34, 0x59, 0x65, 0x68,
        0xAC, 0x5B, 0xD5, 0xF9, 0x4B, 0x34, 0xC2, 0xFE], rfl⟩
    else Crypto.sampleGcm.gcmTag key iv aad ciphertext
  sha256 := Crypto.sampleGcm.sha256

theorem sampleGcmTwo_lawful : sampleGcmTwo.Lawful where
  decrypt_encrypt := Crypto.sampleGcm_lawful.decrypt_encrypt

/-- Stores of `"Hi"` and of `"H"` under one secret key are answered with
the same bytes. -/
theorem secrets_reach_only_their_reader_store :
    letI := Host.littleEndian
    let calls : Calls := ⟨.succeed Crypto.zeroIV, .succeed⟩
    let server : EnclaveServer := { sampleServer with running := false }
    validateRequest (sampleStore [0x6B] [0x48, 0x69]) = true ∧
      validateRequest (sampleStore [0x6B] [0x48]) = true ∧
      (dispatch sampleGcmTwo server (sampleStore [0x6B] [0x48, 0x69], calls)).1 =
        (dispatch sampleGcmTwo server (sampleStore [0x6B] [0x48], calls)).1 := by
  let := Host.littleEndian
  intro calls server
  have hdecode₁ : StoreDataRequest.deserialize (sampleStore [0x6B] [0x48, 0x69]).payload =
      .ok ⟨[0x6B], [0x48, 0x69]⟩ := by decide +kernel
  have hdecode₂ : StoreDataRequest.deserialize (sampleStore [0x6B] [0x48]).payload =
      .ok ⟨[0x6B], [0x48]⟩ := by decide +kernel
  have hvary : RequestVaries {[0x6B]} (sampleStore [0x6B] [0x48, 0x69])
      (sampleStore [0x6B] [0x48]) :=
    .store rfl rfl hdecode₁ hdecode₂ rfl (by decide) (by decide)
  have hruns := secrets_reach_only_their_reader sampleGcmTwo sampleGcmTwo_lawful {[0x6B]} _ _ _ _
    server server sampleServer_initialized sampleServer_initialized
    [(sampleStore [0x6B] [0x48, 0x69], calls)] [(sampleStore [0x6B] [0x48], calls)]
    (.cons ⟨hvary, .refl calls⟩ .nil)
  simp only [Mealy.run_cons, List.zip_cons_cons, List.forall₂_cons] at hruns
  obtain ⟨⟨reply₁, reply₂, -, -, -, hsame⟩, -⟩ := hruns
  have hother : ¬ RequestsSecret {[0x6B]} (sampleStore [0x6B] [0x48, 0x69]) := by
    -- it is not a `RETRIEVE_DATA`
    intro h
    obtain ⟨key, -, hcommand, -⟩ := h
    exact absurd hcommand (by decide)
  exact ⟨by decide +kernel, by decide +kernel, hsame hother⟩

end OpenEnclave.Server
