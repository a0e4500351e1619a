import OpenEnclave.Protocol.Message

/-!
# Frame — requests and responses

A request is a header and its payload, a response a header, a status
byte and its payload. `Deserialize` compares the length of its input
with `16 + payload_size` (`17 + payload_size`) reduced mod `2 ^ 32`; the
minimum-length guard in front of it is what keeps a wrapped sum from
ever matching, so both decoders accept exactly the serializations of
messages whose size field is true (`Request.deserialize_ok_iff`,
`Response.deserialize_ok_iff`).
-/

namespace OpenEnclave.Protocol

open ByteCodec

@[ext] structure Request where
  header : MessageHeader
  payload : Bytes
deriving DecidableEq, Repr

@[ext] structure Response where
  header : MessageHeader
  status : ResponseStatus
  payload : Bytes
deriving DecidableEq, Repr

section
variable [Host]

def Request.serialize (r : Request) : Bytes := r.header.serialize ++ r.payload

def Request.deserialize (data : Bytes) : Except ReadFault Request :=
  if data.length < 16 then .error .rejected else do
    let header ← MessageHeader.deserialize (data.take 16)
    -- `16 + payload_size` is a `uint32_t` sum
    if data.length ≠ (16 + header.payloadSize).toNat then .error .rejected
    else return { header, payload := data.drop 16 }

def Response.serialize (r : Response) : Bytes :=
  r.header.serialize ++ [r.status.code] ++ r.payload

def Response.deserialize (data : Bytes) : Except ReadFault Response :=
  if data.length < 17 then .error .rejected else do
    let header ← MessageHeader.deserialize (data.take 16)
    match data[16]? with
    | none => .error .outOfBounds
    | some code =>
      if data.length ≠ (17 + header.payloadSize).toNat then .error .rejected
      else return { header, status := ⟨code⟩, payload := data.drop 17 }

end

/-- `ValidateMessage` for either kind of message: they check the same
header against the payload. -/
def validate (header : MessageHeader) (payload : Bytes) : Bool :=
  header.magic = MessageHeader.MAGIC ∧ header.version = MessageHeader.VERSION ∧
    payload.length = header.payloadSize.toNat ∧ calculateCRC32 payload = header.checksum

def validateRequest (request : Request) : Bool := validate request.header request.payload

def validateResponse (response : Response) : Bool := validate response.header response.payload

/-! ## Exactness -/

/-- A sum that passed a minimum-length guard has not wrapped. -/
theorem frameLength_iff {n : Nat} (k size : UInt32) (hn : k.toNat ≤ n) :
    n = (k + size).toNat ↔ n = k.toNat + size.toNat ∧ n < 2 ^ 32 := by
  have hk := k.toNat_lt
  have hs := size.toNat_lt
  rw [UInt32.toNat_add]
  omega

theorem requestLength_iff {n : Nat} (size : UInt32) (hn : 16 ≤ n) :
    n = (16 + size).toNat ↔ n = 16 + size.toNat ∧ n < 2 ^ 32 :=
  frameLength_iff 16 size hn

theorem responseLength_iff {n : Nat} (size : UInt32) (hn : 17 ≤ n) :
    n = (17 + size).toNat ↔ n = 17 + size.toNat ∧ n < 2 ^ 32 :=
  frameLength_iff 17 size hn

section
variable [Host]

@[simp] theorem Request.serialize_length (r : Request) :
    r.serialize.length = 16 + r.payload.length := by
  simp [Request.serialize]

@[simp] theorem Response.serialize_length (r : Response) :
    r.serialize.length = 17 + r.payload.length := by
  simp [Response.serialize]
  omega

theorem deserialize_header_take {data : Bytes} {h : MessageHeader} :
    MessageHeader.deserialize (data.take 16) = .ok h ↔ data = h.serialize ++ data.drop 16 := by
  rw [MessageHeader.deserialize_ok_iff]
  constructor
  · intro ht
    rw [List.drop_eq_nil_of_le (by simp), List.append_nil] at ht
    rw [← ht, List.take_append_drop]
  · intro hd
    rw [List.drop_eq_nil_of_le (by simp), List.append_nil]
    conv_lhs => rw [hd]
    exact List.take_left' (MessageHeader.serialize_length h)

/-- **The request decoder accepts exactly the serializations of requests
whose size field is true**, and never a wrapped sum. -/
theorem Request.deserialize_ok_iff {data : Bytes} {r : Request} :
    Request.deserialize data = .ok r ↔
      r.serialize = data ∧ r.header.payloadSize.toNat = r.payload.length ∧
        r.payload.length < 2 ^ 32 - 16 := by
  rw [Request.deserialize]
  split
  · rename_i hlt
    constructor
    · intro h; cases h
    · intro hr
      obtain ⟨rfl, -, -⟩ := hr
      rw [Request.serialize_length] at hlt
      omega
  · rename_i hge
    simp only [bind_ok_iff, deserialize_header_take]
    constructor
    · intro hr
      obtain ⟨header, hd, h⟩ := hr
      split at h
      · cases h
      · rename_i hlen
        rw [not_not] at hlen
        -- sixteen bytes and more: the sum has not wrapped
        obtain ⟨hsum, hlt⟩ := (requestLength_iff _ (by omega)).mp hlen
        simp only [pure, Except.pure, Except.ok.injEq] at h
        subst h
        simp only [List.length_drop]
        exact ⟨hd.symm, by omega, by omega⟩
    · intro hr
      obtain ⟨rfl, hsize, hlt⟩ := hr
      have hdrop : r.serialize.drop 16 = r.payload :=
        List.drop_left' (MessageHeader.serialize_length r.header)
      have hlen : r.serialize.length = (16 + r.header.payloadSize).toNat := by
        refine (requestLength_iff _ (by simp)).mpr ?_
        rw [Request.serialize_length, hsize]
        omega
      refine ⟨r.header, by rw [hdrop, Request.serialize], ?_⟩
      rw [if_neg (not_not.mpr hlen), hdrop]
      rfl

/-- **The response decoder**, likewise; every status byte is accepted. -/
theorem Response.deserialize_ok_iff {data : Bytes} {r : Response} :
    Response.deserialize data = .ok r ↔
      r.serialize = data ∧ r.header.payloadSize.toNat = r.payload.length ∧
        r.payload.length < 2 ^ 32 - 17 := by
  rw [Response.deserialize]
  split
  · rename_i hlt
    constructor
    · intro h; cases h
    · intro hr
      obtain ⟨rfl, -, -⟩ := hr
      rw [Response.serialize_length] at hlt
      omega
  · rename_i hge
    simp only [bind_ok_iff, deserialize_header_take]
    constructor
    · intro hr
      obtain ⟨header, hd, h⟩ := hr
      rw [List.getElem?_eq_getElem (by omega)] at h
      simp only at h
      split at h
      · cases h
      · rename_i hlen
        rw [not_not] at hlen
        obtain ⟨hsum, hlt⟩ := (responseLength_iff _ (by omega)).mp hlen
        simp only [pure, Except.pure, Except.ok.injEq] at h
        subst h
        simp only [List.length_drop]
        refine ⟨?_, by omega, by omega⟩
        -- the status byte stands between header and payload
        have h16 : data.drop 16 = [data[16]] ++ data.drop 17 :=
          List.drop_eq_getElem_cons (by omega)
        rw [Response.serialize, List.append_assoc, ← h16]
        exact hd.symm
    · intro hr
      obtain ⟨rfl, hsize, hlt⟩ := hr
      have hdrop : r.serialize.drop 16 = [r.status.code] ++ r.payload := by
        rw [Response.serialize, List.append_assoc]
        exact List.drop_left' (MessageHeader.serialize_length r.header)
      have hdrop17 : r.serialize.drop 17 = r.payload := by
        rw [show 17 = 16 + 1 from rfl, ← List.drop_drop, hdrop]
        rfl
      have hstatus : r.serialize[16]? = some r.status.code := by
        have hget : r.serialize[16]? = (r.serialize.drop 16)[0]? := by
          rw [List.getElem?_drop]
        rw [hget, hdrop]
        rfl
      have hlen : r.serialize.length = (17 + r.header.payloadSize).toNat := by
        refine (responseLength_iff _ (by simp)).mpr ?_
        rw [Response.serialize_length, hsize]
        omega
      refine ⟨r.header, by rw [hdrop, Response.serialize, List.append_assoc], ?_⟩
      rw [hstatus]
      simp only
      rw [if_neg (not_not.mpr hlen), hdrop17]
      rfl

/-- **Framing is exact despite the 32-bit sums.** Either decoder accepts
a buffer exactly if it is the serialization of a message whose size
field is its payload's length and whose frame is below `2 ^ 32` bytes;
it delivers that message, and there is no other. -/
theorem framing_exact (data : Bytes) :
    ((∃ r, Request.deserialize data = .ok r) ↔
        ∃ r : Request, r.header.payloadSize.toNat = r.payload.length ∧
          r.payload.length < 2 ^ 32 - 16 ∧ r.serialize = data) ∧
      (∀ r : Request, r.header.payloadSize.toNat = r.payload.length →
        r.payload.length < 2 ^ 32 - 16 → r.serialize = data →
        ∀ r', Request.deserialize data = .ok r' ↔ r' = r) ∧
      ((∃ r, Response.deserialize data = .ok r) ↔
        ∃ r : Response, r.header.payloadSize.toNat = r.payload.length ∧
          r.payload.length < 2 ^ 32 - 17 ∧ r.serialize = data) ∧
      (∀ r : Response, r.header.payloadSize.toNat = r.payload.length →
        r.payload.length < 2 ^ 32 - 17 → r.serialize = data →
        ∀ r', Response.deserialize data = .ok r' ↔ r' = r) := by
  have hreq : ∀ r, Request.deserialize data = .ok r ↔
      r.header.payloadSize.toNat = r.payload.length ∧ r.payload.length < 2 ^ 32 - 16 ∧
        r.serialize = data := fun r =>
    Request.deserialize_ok_iff.trans ⟨fun h => ⟨h.2.1, h.2.2, h.1⟩, fun h => ⟨h.2.2, h.1, h.2.1⟩⟩
  have hresp : ∀ r, Response.deserialize data = .ok r ↔
      r.header.payloadSize.toNat = r.payload.length ∧ r.payload.length < 2 ^ 32 - 17 ∧
        r.serialize = data := fun r =>
    Response.deserialize_ok_iff.trans ⟨fun h => ⟨h.2.1, h.2.2, h.1⟩, fun h => ⟨h.2.2, h.1, h.2.1⟩⟩
  refine ⟨exists_congr hreq, ?_, exists_congr hresp, ?_⟩
  · intro r hsize hlen hser r'
    rw [(hreq r).mpr ⟨hsize, hlen, hser⟩, Except.ok.injEq, eq_comm]
  · intro r hsize hlen hser r'
    rw [(hresp r).mpr ⟨hsize, hlen, hser⟩, Except.ok.injEq, eq_comm]

theorem Response.serialize_injective {r r' : Response} (h : r.serialize = r'.serialize) :
    r = r' := by
  rw [Response.serialize, Response.serialize, List.append_assoc, List.append_assoc] at h
  obtain ⟨hheader, hrest⟩ := MessageHeader.serialize_inj h
  rw [List.singleton_append, List.singleton_append, List.cons.injEq] at hrest
  exact Response.ext hheader (congrArg ResponseStatus.mk hrest.1) hrest.2

end

theorem validate_iff {header : MessageHeader} {payload : Bytes} :
    validate header payload = true ↔
      header.magic = MessageHeader.MAGIC ∧ header.version = MessageHeader.VERSION ∧
        payload.length = header.payloadSize.toNat ∧
        calculateCRC32 payload = header.checksum := by
  rw [validate, decide_eq_true_eq]

end OpenEnclave.Protocol
