import OpenEnclave.Protocol.DoubleError
import OpenEnclave.Server.Serve

/-!
# Receive — the streaming parser against the whole-buffer one

`HandleClient` reads its request piece by piece, with checks of its own,
while `Request::Deserialize` decodes a whole buffer. `parseStream_ok_iff`
shows that they accept the same frames: a stream parses exactly if it
starts with a serialized request that validates and is not too large,
and the bytes after it do not matter.

The header is received without `MSG_WAITALL`, so the outcome depends on
one thing besides the stream: whether sixteen bytes were there when the
first receive was made. `outcome_cut_iff` says for which streams that
makes no difference.
-/

namespace OpenEnclave.Server

open ByteCodec Protocol Effect

section
variable [Host]

/-! ## Framed requests -/

/-- The prefix `f` of the stream is a frame of `request`: it decodes to
it, validates, and its payload is within the server's limit. -/
structure Framed (s f : Bytes) (request : Request) : Prop where
  isPrefix : f <+: s
  decodes : Request.deserialize f = .ok request
  valid : validateRequest request = true
  size : request.header.payloadSize.toNat ≤ MAX_MESSAGE_SIZE

theorem Framed.serialize {s f : Bytes} {request : Request} (h : Framed s f request) :
    request.serialize = f :=
  (Request.deserialize_ok_iff.mp h.decodes).1

theorem Framed.payload_length {s f : Bytes} {request : Request} (h : Framed s f request) :
    request.header.payloadSize.toNat = request.payload.length :=
  (Request.deserialize_ok_iff.mp h.decodes).2.1

/-- The stream starts with a header of this protocol and version. -/
structure Headed (s : Bytes) (header : MessageHeader) : Prop where
  decodes : MessageHeader.deserialize (s.take 16) = .ok header
  magic : header.magic = MessageHeader.MAGIC
  version : header.version = MessageHeader.VERSION

theorem parseStream_of_not_headed {s : Bytes} (h : ¬ ∃ header, Headed s header) :
    parseStream s = .error .errorInvalidCommand := by
  rw [parseStream]
  cases hd : MessageHeader.deserialize (s.take 16) with
  | error fault => rfl
  | ok header =>
      have hbad : header.magic ≠ MessageHeader.MAGIC ∨
          header.version ≠ MessageHeader.VERSION := by
        by_contra hc
        rw [not_or, not_not, not_not] at hc
        exact h ⟨header, hd, hc.1, hc.2⟩
      simp only [if_pos hbad]

/-- The request a header announces: it and the bytes that follow it. -/
def announced (s : Bytes) (header : MessageHeader) : Request where
  header := header
  payload := (s.drop 16).take header.payloadSize.toNat

theorem parseStream_of_headed {s : Bytes} {header : MessageHeader} (h : Headed s header) :
    parseStream s =
      if header.payloadSize.toNat ≤ MAX_MESSAGE_SIZE ∧
          validateRequest (announced s header) = true then .ok (announced s header)
      else .error .errorInvalidParams := by
  have hok : ¬ (header.magic ≠ MessageHeader.MAGIC ∨
      header.version ≠ MessageHeader.VERSION) := by
    simp [h.magic, h.version]
  simp only [parseStream, h.decodes, if_neg hok]
  by_cases hsize : header.payloadSize.toNat ≤ MAX_MESSAGE_SIZE
  · rw [if_neg (Nat.not_lt.mpr hsize)]
    by_cases hlen : ((s.drop 16).take header.payloadSize.toNat).length =
        header.payloadSize.toNat
    · simp only [hlen, hsize, ne_eq, not_true_eq_false, if_false, true_and, announced]
    · -- a short payload would not validate either
      have hinvalid : validateRequest (announced s header) ≠ true := fun hv =>
        hlen (validate_iff.mp hv).2.2.1
      rw [if_pos hlen, if_neg (fun hc => hinvalid hc.2)]
  · rw [if_pos (Nat.lt_of_not_le hsize), if_neg (fun hc => hsize hc.1)]

/-- A framed request's header heads the stream, and its payload follows. -/
theorem Framed.headed {s f : Bytes} {request : Request} (h : Framed s f request) :
    Headed s request.header ∧ announced s request.header = request := by
  obtain ⟨rest, hs⟩ := h.isPrefix
  rw [← h.serialize, Request.serialize, List.append_assoc] at hs
  obtain ⟨hmagic, hversion, -, -⟩ := validate_iff.mp h.valid
  have hdrop : s.drop 16 = request.payload ++ rest := by
    rw [← hs]
    exact List.drop_left' (MessageHeader.serialize_length _)
  refine ⟨⟨deserialize_header_take.mpr (by rw [hdrop, hs]), hmagic, hversion⟩, ?_⟩
  rw [announced, hdrop, List.take_left' h.payload_length.symm]

/-- **The stream parser accepts exactly the framed requests.** -/
theorem parseStream_ok_iff {s : Bytes} {request : Request} :
    parseStream s = .ok request ↔ ∃ f, Framed s f request := by
  constructor
  · intro h
    by_cases hh : ∃ header, Headed s header
    · obtain ⟨header, hh⟩ := hh
      rw [parseStream_of_headed hh] at h
      split at h
      · rename_i hc
        obtain ⟨hsize, hvalid⟩ := hc
        cases h
        have hlen : (announced s header).payload.length = header.payloadSize.toNat :=
          (validate_iff.mp hvalid).2.2.1
        have hmax : MAX_MESSAGE_SIZE < 2 ^ 32 - 16 := by decide
        refine ⟨_, ⟨(s.drop 16).drop header.payloadSize.toNat, ?_⟩,
          Request.deserialize_ok_iff.mpr ⟨rfl, hlen.symm, by omega⟩, hvalid, hsize⟩
        rw [Request.serialize, announced, List.append_assoc, List.take_append_drop]
        exact (deserialize_header_take.mp hh.decodes).symm
      · cases h
    · rw [parseStream_of_not_headed hh] at h
      cases h
  · intro hr
    obtain ⟨f, hf⟩ := hr
    obtain ⟨hh, hpayload⟩ := hf.headed
    rw [parseStream_of_headed hh, hpayload, if_pos ⟨hf.size, hf.valid⟩]

/-- At most one prefix of a stream is a frame. -/
theorem Framed.unique {s f f' : Bytes} {request request' : Request}
    (h : Framed s f request) (h' : Framed s f' request') : f = f' ∧ request = request' := by
  have hr := (parseStream_ok_iff.mpr ⟨f, h⟩).symm.trans (parseStream_ok_iff.mpr ⟨f', h'⟩)
  cases hr
  exact ⟨h.serialize.symm.trans h'.serialize, rfl⟩

/-- The frame itself is all that is read. -/
theorem Framed.of_isPrefix {s s' f : Bytes} {request : Request} (h : Framed s f request)
    (h' : f <+: s') : Framed s' f request :=
  ⟨h', h.decodes, h.valid, h.size⟩

/-! ## Two flipped bits -/

omit [Host] in
/-- **No double error gets past the server**: a payload within its limit
is far shorter than the period of the checksum's register. -/
theorem validateRequest_flipBit {request : Request} {i j : Nat}
    (hv : validateRequest request = true) (hsize : request.payload.length ≤ MAX_MESSAGE_SIZE)
    (hij : i ≠ j) (hi : i < 8 * request.payload.length) (hj : j < 8 * request.payload.length) :
    validateRequest { request with payload := flipBit (flipBit request.payload i) j } = false := by
  have hmax : 8 * MAX_MESSAGE_SIZE < 2 ^ 32 := by decide
  exact validate_flipBit hv (by omega) hij hi hj

omit [Host] in
/-- The first and the last bit of two bytes. -/
theorem validateRequest_flipBit_two_bytes :
    let payload : Bytes := [0x4F, 0x45]
    let header : MessageHeader :=
      ⟨MessageHeader.MAGIC, MessageHeader.VERSION, 1, 0, 2, calculateCRC32 payload⟩
    validateRequest ⟨header, payload⟩ = true ∧
      validateRequest ⟨header, flipBit (flipBit payload 0) 15⟩ = false := by
  intro payload header
  have hv : validateRequest ⟨header, payload⟩ = true := by decide +kernel
  exact ⟨hv, validateRequest_flipBit hv (by decide) (by decide) (by decide) (by decide)⟩

/-! ## The first receive -/

/-- The receive of the header returned as many of the sixteen bytes as
the client sends at all. -/
def HeaderFilled (incoming : Chunked UInt8) : Prop :=
  (incoming.recv 16).1.length = min 16 incoming.elems.length

omit [Host] in
theorem headerFilled_whole (s : Bytes) : HeaderFilled (.whole s) := by
  rw [HeaderFilled, Chunked.recv_fst, List.length_take, Chunked.available_whole,
    Chunked.elems_whole]
  omega

theorem receive_of_headerFilled {incoming : Chunked UInt8} (h : HeaderFilled incoming) :
    receive incoming = parseStream incoming.elems := by
  have hle := incoming.available_le
  rw [HeaderFilled, Chunked.recv_fst, List.length_take] at h
  rw [receive]
  split
  · rename_i hav
    have hnone : ¬ ∃ header, Headed incoming.elems header := by
      intro hr
      obtain ⟨header, hh⟩ := hr
      have hlen := congrArg List.length (deserialize_header_take.mp hh.decodes)
      rw [List.length_append, MessageHeader.serialize_length] at hlen
      omega
    exact (parseStream_of_not_headed hnone).symm
  · rfl

/-- `HandleClient` gets as far as `DispatchCommand(request)`. -/
def Dispatches (ssl : Crypto.OpenSSL) (calls : Calls) (w : World) (request : Request) : Prop :=
  ∃ w', receiveRequest.exec (act ssl calls) w = .ok (.ok request, w') ∧
    handleClient.exec (act ssl calls) w = (dispatchCommand request).exec (act ssl calls) w'

theorem dispatches_iff (ssl : Crypto.OpenSSL) (calls : Calls) (w : World)
    (request : Request) :
    Dispatches ssl calls w request ↔ receive w.conn.incoming = .ok request := by
  obtain ⟨rest, hrecv⟩ := exec_receiveRequest ssl calls w
  constructor
  · intro hr
    obtain ⟨w', hexec, -⟩ := hr
    rw [hrecv, Except.ok.injEq, Prod.mk.injEq] at hexec
    exact hexec.1
  · intro h
    rw [h] at hrecv
    refine ⟨_, hrecv, ?_⟩
    rw [handleClient, Prog.exec_bind, hrecv]

/-- **The streaming receive path and the whole-buffer parser agree.** A
client whose header arrives in one piece gets its request dispatched
exactly if the stream starts with a frame of it; there is at most one
such prefix, and what follows it changes nothing. -/
theorem dispatch_iff_framed (ssl : Crypto.OpenSSL) (calls : Calls) (server : EnclaveServer)
    (incoming : Chunked UInt8) (peerOpen : Bool) (hfilled : HeaderFilled incoming) :
    (∀ request, Dispatches ssl calls ⟨server, ⟨incoming, peerOpen, []⟩⟩ request ↔
      ∃ f, Framed incoming.elems f request) ∧
    (∀ f f' request request', Framed incoming.elems f request →
      Framed incoming.elems f' request' → f = f') ∧
    (∀ f request, Framed incoming.elems f request →
      ∀ incoming', HeaderFilled incoming' → f <+: incoming'.elems →
        outcome ssl calls server incoming' peerOpen =
          outcome ssl calls server incoming peerOpen) := by
  refine ⟨fun request => ?_, fun f f' request request' h h' => (h.unique h').1, ?_⟩
  · rw [dispatches_iff, receive_of_headerFilled hfilled, parseStream_ok_iff]
  · intro f request hf incoming' hfilled' hprefix
    have hsame : receive incoming' = receive incoming := by
      rw [receive_of_headerFilled hfilled, receive_of_headerFilled hfilled',
        parseStream_ok_iff.mpr ⟨f, hf⟩, parseStream_ok_iff.mpr ⟨f, hf.of_isPrefix hprefix⟩]
    rw [outcome_eq, outcome_eq, commandOf, commandOf, hsame]

end

/-- The frame a little-endian client sends for `GET_ATTESTATION`. -/
def attestationFrame : Bytes :=
  [0x4B, 0x53, 0x45, 0x4F, 0x01, 0x00, 0x05, 0x00, 0, 0, 0, 0, 0, 0, 0, 0]

/-- A server that has just started, with the enclave of the zero key. -/
def sampleServer : EnclaveServer where
  enclave := some (EnclaveImpl.new.initializeEnclave (some Crypto.zeroKey)).2
  socketFd := 3
  running := true

/-- The frame arrives whole and is dispatched, whatever follows it. -/
theorem dispatch_iff_framed_attestation :
    letI := Host.littleEndian
    let calls : Calls := ⟨.succeed Crypto.zeroIV, .succeed⟩
    let incoming := Chunked.whole (attestationFrame ++ [0xFF])
    HeaderFilled incoming ∧
      Dispatches Crypto.sampleGcm calls ⟨sampleServer, ⟨incoming, true, []⟩⟩
        ⟨⟨MessageHeader.MAGIC, MessageHeader.VERSION, 5, 0, 0, 0⟩, []⟩ := by
  let := Host.littleEndian
  intro calls incoming
  have hfilled : HeaderFilled incoming := rfl
  refine ⟨hfilled, ((dispatch_iff_framed Crypto.sampleGcm calls sampleServer incoming true
    hfilled).1 _).mpr ⟨attestationFrame, ⟨[0xFF], rfl⟩, ?_, ?_, ?_⟩⟩
  · decide +kernel
  · decide +kernel
  · decide +kernel

/-! ## The cut of the stream -/

section
variable [Host]

/-- The only streams that get the reply of a short header also when the
header arrives whole: no header of this protocol, or a frame with an
unknown command. -/
def InvalidCommand (s : Bytes) : Prop :=
  (¬ ∃ header, Headed s header) ∨
    ∃ f request, Framed s f request ∧ CommandType.ofByte? request.header.commandType = none

theorem decodeCommand_invalidCommand_iff {request : Request} :
    decodeCommand request = .error .errorInvalidCommand ↔
      CommandType.ofByte? request.header.commandType = none := by
  constructor
  · intro h
    have hd := decoded request
    rw [h] at hd
    cases hd with
    | unknown hcommand => exact hcommand
  · intro h
    rw [decodeCommand, h]

theorem parse_invalidCommand_iff {s : Bytes} :
    (parseStream s >>= decodeCommand) = .error .errorInvalidCommand ↔ InvalidCommand s := by
  by_cases hh : ∃ header, Headed s header
  · cases hp : parseStream s with
    | error status =>
        obtain ⟨header, hh⟩ := hh
        have hstatus : status = .errorInvalidParams := by
          rw [parseStream_of_headed hh] at hp
          split at hp <;> cases hp
          rfl
        subst hstatus
        constructor
        · intro h; cases h
        · intro hr
          rcases hr with hnone | ⟨f, request, hf, -⟩
          · exact absurd ⟨header, hh⟩ hnone
          · rw [parseStream_ok_iff.mpr ⟨f, hf⟩] at hp
            cases hp
    | ok request =>
        obtain ⟨f, hf⟩ := parseStream_ok_iff.mp hp
        refine decodeCommand_invalidCommand_iff.trans ⟨fun h => .inr ⟨f, request, hf, h⟩, ?_⟩
        intro hr
        rcases hr with hnone | ⟨f', request', hf', h⟩
        · exact absurd hh hnone
        · rw [(hf.unique hf').2]
          exact h
  · rw [parseStream_of_not_headed hh]
    exact ⟨fun _ => .inl hh, fun _ => rfl⟩

/-- Only an invalid command is answered as one. -/
theorem serve_invalidCommand {ssl : Crypto.OpenSSL} {calls : Calls}
    {server server' : EnclaveServer} {command : Except ResponseStatus Command}
    {reply : Response} (h : serve ssl calls server command = .ok (reply, server'))
    (hs : reply.status = .errorInvalidCommand) : command = .error .errorInvalidCommand := by
  cases command with
  | error status =>
      cases h
      exact congrArg Except.error hs
  | ok command =>
      cases command with
      | shutdown => cases h; cases hs
      | call op =>
          rw [serve] at h
          split at h
          · cases h
          · cases h
            cases hr : (EnclaveImpl.perform ssl calls op _).1 with
            | ok out => rw [hr] at hs; cases hs
            | error status => rw [hr] at hs; cases op <;> cases hs

theorem deliver_reply_inj {peerOpen : Bool} {reply reply' : Response}
    {server server' : EnclaveServer}
    (h : deliver peerOpen reply server = deliver peerOpen reply' server') : reply = reply' := by
  cases peerOpen with
  | true =>
      rw [deliver, deliver, if_pos rfl, if_pos rfl, Except.ok.injEq, Prod.mk.injEq] at h
      exact Response.serialize_injective (List.head_eq_of_cons_eq h.1)
  | false =>
      simp only [deliver, Bool.false_eq_true, if_false, Except.error.injEq,
        Fault.sigpipe.injEq] at h
      exact Response.serialize_injective h

/-- A stream whose header has arrived is answered as one whose header has
not, exactly if it has no valid command. -/
theorem outcome_eq_short_iff (ssl : Crypto.OpenSSL) (calls : Calls) (server : EnclaveServer)
    {incoming : Chunked UInt8} (peerOpen : Bool) (h : 16 ≤ incoming.available) :
    outcome ssl calls server incoming peerOpen =
        deliver peerOpen (errorResponse .errorInvalidCommand) server ↔
      InvalidCommand incoming.elems := by
  have hcommand : commandOf incoming = (parseStream incoming.elems >>= decodeCommand) := by
    rw [commandOf, receive, if_neg (by omega)]
  rw [outcome_eq, ← parse_invalidCommand_iff, ← hcommand]
  constructor
  · intro heq
    cases hserve : serve ssl calls server (commandOf incoming) with
    | error fault =>
        rw [hserve, (serve_error hserve).2] at heq
        cases peerOpen <;> cases heq
    | ok p =>
        obtain ⟨reply, server'⟩ := p
        rw [hserve] at heq
        have hreply := deliver_reply_inj heq
        exact serve_invalidCommand hserve (by rw [hreply]; rfl)
  · intro hc
    rw [hc]
    rfl

theorem outcome_of_short (ssl : Crypto.OpenSSL) (calls : Calls) (server : EnclaveServer)
    {incoming : Chunked UInt8} (peerOpen : Bool) (h : ¬ 16 ≤ incoming.available) :
    outcome ssl calls server incoming peerOpen =
      deliver peerOpen (errorResponse .errorInvalidCommand) server := by
  rw [outcome_eq, commandOf, receive, if_pos (by omega)]
  rfl

/-- **When the cut of the stream makes no difference**: both cuts have
the header at the first receive, or neither has, or the stream has no
valid command anyway. For a client that is gone the reply compared is the
one that the fatal `send` was given. -/
theorem outcome_cut_iff (ssl : Crypto.OpenSSL) (calls : Calls) (server : EnclaveServer)
    (c₁ c₂ : Chunked UInt8) (peerOpen : Bool) (hsame : c₁.elems = c₂.elems) :
    outcome ssl calls server c₁ peerOpen = outcome ssl calls server c₂ peerOpen ↔
      (16 ≤ c₁.available ↔ 16 ≤ c₂.available) ∨ InvalidCommand c₁.elems := by
  by_cases h₁ : 16 ≤ c₁.available <;> by_cases h₂ : 16 ≤ c₂.available
  · have hreceive : receive c₁ = receive c₂ := by
      rw [receive, receive, if_neg (by omega), if_neg (by omega), hsame]
    simp only [outcome_eq, commandOf, hreceive, h₁, h₂, true_or]
  · rw [outcome_of_short ssl calls server peerOpen h₂,
      outcome_eq_short_iff ssl calls server peerOpen h₁]
    simp [h₁, h₂]
  · rw [outcome_of_short ssl calls server peerOpen h₁, eq_comm,
      outcome_eq_short_iff ssl calls server peerOpen h₂, hsame]
    simp [h₁, h₂]
  · rw [outcome_of_short ssl calls server peerOpen h₁,
      outcome_of_short ssl calls server peerOpen h₂]
    simp [h₁, h₂]

end

/-- The frame as it arrives when the kernel has eight bytes of it at the
first receive. -/
def attestationFrameCut : Chunked UInt8 :=
  ⟨[attestationFrame.take 8, attestationFrame.drop 8], by decide⟩

/-- The same frame in two cuts gets two replies. -/
theorem outcome_depends_on_cut :
    letI := Host.littleEndian
    let calls : Calls := ⟨.succeed Crypto.zeroIV, .succeed⟩
    (Chunked.whole attestationFrame).elems = attestationFrameCut.elems ∧
      outcome Crypto.sampleGcm calls sampleServer (.whole attestationFrame) true ≠
        outcome Crypto.sampleGcm calls sampleServer attestationFrameCut true := by
  let := Host.littleEndian
  intro calls
  have hparse : (parseStream attestationFrame >>= decodeCommand) =
      .ok (.call .getAttestation) := by decide +kernel
  refine ⟨by decide, ?_⟩
  rw [outcome_of_short _ calls _ true (show ¬ 16 ≤ attestationFrameCut.available by decide),
    ne_eq, outcome_eq_short_iff _ calls _ true
      (show 16 ≤ (Chunked.whole attestationFrame).available by decide),
    ← parse_invalidCommand_iff, Chunked.elems_whole, hparse]
  intro h
  cases h

/-- A frame with a foreign magic gets the same reply in every cut. -/
theorem outcome_cut_iff_foreign_magic :
    letI := Host.littleEndian
    let calls : Calls := ⟨.succeed Crypto.zeroIV, .succeed⟩
    let c₁ : Chunked UInt8 := .whole (List.replicate 16 0)
    let c₂ : Chunked UInt8 := ⟨[List.replicate 8 0, List.replicate 8 0], by decide⟩
    outcome Crypto.sampleGcm calls sampleServer c₁ true =
      outcome Crypto.sampleGcm calls sampleServer c₂ true := by
  let := Host.littleEndian
  intro calls c₁ c₂
  refine (outcome_cut_iff _ calls _ c₁ c₂ true (by decide)).mpr (.inr (.inl ?_))
  intro h
  obtain ⟨header, hd, hmagic, -⟩ := h
  have hzero : MessageHeader.deserialize (c₁.elems.take 16) = .ok ⟨0, 0, 0, 0, 0, 0⟩ := by
    decide +kernel
  rw [hzero] at hd
  cases hd
  exact absurd hmagic (by decide)

end OpenEnclave.Server
