import OpenEnclave.Client.Basic

/-!
# Validation — what the client takes for a reply

`SendRequest` decodes the reply stream by itself, next to
`Response::Deserialize`, and hands the result on without a call of
`ValidateMessage`. Its decoder accepts the frames of the other one, the
largest ones apart (`parseReply_eq_some_iff`). Since nothing is compared
after that, every complete frame is taken for a reply, whatever its
magic, version and checksum: `acceptsOnlyValidated_iff` says on which
streams that goes unnoticed.
-/

namespace OpenEnclave.Client

open ByteCodec Protocol Effect

section
variable [Host]

/-! ## The client's decoder -/

/-- **The client's decoder reads exactly the serialized responses with a
true size field**, whatever follows them. -/
theorem parseReply_eq_some_iff {s : Bytes} {r : Response} :
    parseReply s = some r ↔
      r.serialize <+: s ∧ r.header.payloadSize.toNat = r.payload.length := by
  constructor
  · intro h
    rw [parseReply] at h
    cases hheader : MessageHeader.deserialize (s.take 16) with
    | error fault => rw [hheader] at h; cases h
    | ok header =>
        simp only [hheader] at h
        have hs := deserialize_header_take.mp hheader
        have h16 : s[16]? = (s.drop 16)[0]? := by rw [List.getElem?_drop]
        cases hdrop : s.drop 16 with
        | nil =>
            rw [h16, hdrop] at h
            cases h
        | cons code rest =>
            have h17 : s.drop 17 = rest := by
              rw [show 17 = 16 + 1 from rfl, ← List.drop_drop, hdrop]
              rfl
            simp only [h16, h17, hdrop, List.getElem?_cons_zero] at h
            split at h
            · cases h
            · rename_i hlen
              cases h
              rw [ne_eq, not_not] at hlen
              refine ⟨⟨rest.drop header.payloadSize.toNat, ?_⟩, hlen.symm⟩
              rw [hs, hdrop, Response.serialize]
              simp
  · rintro ⟨⟨rest, rfl⟩, hsize⟩
    exact parseReply_serialize hsize rest

/-- A frame at the front of the stream that `Response::Deserialize`
decodes and `ValidateMessage` accepts. -/
structure Validated (s f : Bytes) (r : Response) : Prop where
  isPrefix : f <+: s
  decodes : Response.deserialize f = .ok r
  valid : validateResponse r = true

/-- What the client has decoded is validated exactly if its header fits
its payload. -/
theorem exists_validated_iff {s : Bytes} {r : Response} (h : parseReply s = some r) :
    (∃ f, Validated s f r) ↔ r.payload.length < 2 ^ 32 - 17 ∧ validateResponse r = true := by
  obtain ⟨hfront, hsize⟩ := parseReply_eq_some_iff.mp h
  constructor
  · rintro ⟨f, hf⟩
    exact ⟨(Response.deserialize_ok_iff.mp hf.decodes).2.2, hf.valid⟩
  · rintro ⟨hlen, hvalid⟩
    exact ⟨_, hfront, Response.deserialize_ok_iff.mpr ⟨rfl, hsize, hlen⟩, hvalid⟩

/-! ## Streams that are not checked -/

/-- The stream starts with a complete frame that is not one of the
protocol: of another magic or version, with a checksum that is not its
payload's, or longer than a frame can be. -/
structure Foreign (s : Bytes) (header : MessageHeader) : Prop where
  decodes : MessageHeader.deserialize (s.take 16) = .ok header
  complete : 17 + header.payloadSize.toNat ≤ s.length
  differs : header.magic ≠ MessageHeader.MAGIC ∨ header.version ≠ MessageHeader.VERSION ∨
    calculateCRC32 ((s.drop 17).take header.payloadSize.toNat) ≠ header.checksum ∨
    2 ^ 32 - 17 ≤ header.payloadSize.toNat

/-- The response of a complete frame. -/
theorem parseReply_of_complete {s : Bytes} {header : MessageHeader}
    (hd : MessageHeader.deserialize (s.take 16) = .ok header)
    (hc : 17 + header.payloadSize.toNat ≤ s.length) :
    ∃ r, parseReply s = some r ∧ r.header = header ∧
      r.payload = (s.drop 17).take header.payloadSize.toNat := by
  have hlen : ((s.drop 17).take header.payloadSize.toNat).length = header.payloadSize.toNat := by
    rw [List.length_take, List.length_drop]
    omega
  obtain ⟨code, h16⟩ : ∃ code, s[16]? = some code :=
    ⟨_, List.getElem?_eq_getElem (show 16 < s.length by omega)⟩
  refine ⟨⟨header, ⟨code⟩, _⟩, ?_, rfl, rfl⟩
  rw [parseReply, hd]
  simp only [h16, hlen, ne_eq, not_true_eq_false, if_false]

/-- What the client has decoded was complete. -/
theorem complete_of_parseReply {s : Bytes} {r : Response} (h : parseReply s = some r) :
    MessageHeader.deserialize (s.take 16) = .ok r.header ∧
      17 + r.header.payloadSize.toNat ≤ s.length ∧
      r.payload = (s.drop 17).take r.header.payloadSize.toNat := by
  obtain ⟨⟨rest, hs⟩, hsize⟩ := parseReply_eq_some_iff.mp h
  have hheader : MessageHeader.deserialize (s.take 16) = .ok r.header := by
    apply deserialize_header_take.mpr
    rw [← hs, Response.serialize, List.append_assoc, List.append_assoc,
      List.drop_left' (MessageHeader.serialize_length _)]
  have hcomplete : 17 + r.header.payloadSize.toNat ≤ s.length := by
    rw [← hs, List.length_append, Response.serialize_length]
    omega
  obtain ⟨r', hr', -, hpayload⟩ := parseReply_of_complete hheader hcomplete
  rw [h] at hr'
  cases hr'
  exact ⟨hheader, hcomplete, hpayload⟩

/-- Everything the client decodes is validated exactly on the streams
that do not start with a foreign frame. -/
theorem parseReply_validated_iff (s : Bytes) :
    (∀ r, parseReply s = some r → ∃ f, Validated s f r) ↔ ¬ ∃ header, Foreign s header := by
  constructor
  · rintro h ⟨header, hf⟩
    obtain ⟨r, hr, rfl, hpayload⟩ := parseReply_of_complete hf.decodes hf.complete
    obtain ⟨hlen, hvalid⟩ := (exists_validated_iff hr).mp (h r hr)
    obtain ⟨hmagic, hversion, hsize, hcrc⟩ := validate_iff.mp hvalid
    rw [hpayload] at hcrc
    rcases hf.differs with hne | hne | hne | hge
    · exact hne hmagic
    · exact hne hversion
    · exact hne hcrc
    · omega
  · intro h r hr
    obtain ⟨hd, hc, hpayload⟩ := complete_of_parseReply hr
    obtain ⟨-, hsize⟩ := parseReply_eq_some_iff.mp hr
    have hfits : ¬ (r.header.magic ≠ MessageHeader.MAGIC ∨
        r.header.version ≠ MessageHeader.VERSION ∨ calculateCRC32 r.payload ≠ r.header.checksum ∨
        2 ^ 32 - 17 ≤ r.header.payloadSize.toNat) := by
      intro hne
      rw [hpayload] at hne
      exact h ⟨r.header, hd, hc, hne⟩
    simp only [not_or, not_not, not_le] at hfits
    obtain ⟨hmagic, hversion, hcrc, hlt⟩ := hfits
    exact (exists_validated_iff hr).mpr
      ⟨by omega, validate_iff.mpr ⟨hmagic, hversion, hsize.symm, hcrc⟩⟩

/-! ## `SendRequest` and the methods -/

/-- Every response that `SendRequest` returns is a validated frame of the
reply stream. -/
def AcceptsOnlyValidated (socketFd : Int) (request : Request) (link : Link) : Prop :=
  ∀ r link', (sendRequest socketFd request).exec act link = .ok (some r, link') →
    ∃ f, Validated link.replies.elems f r

/-- Every result of a method is taken from a validated frame of the reply
stream. -/
def ResultsValidated (socketFd : Int) (op : EnclaveOp) (link : Link) : Prop :=
  ∀ out link', (call socketFd op).exec act link = .ok (some out, link') →
    ∃ f r, Validated link.replies.elems f r ∧ resultOf op (some r) = some out

/-- Without a connection, or with one the server has closed, there is no
response. -/
theorem sendRequest_ne_some {socketFd : Int} {link : Link}
    (h : socketFd < 0 ∨ link.peerOpen = false) (request : Request) (r : Response) (link' : Link) :
    (sendRequest socketFd request).exec act link ≠ .ok (some r, link') := by
  intro hexec
  rw [sendRequest] at hexec
  by_cases hfd : socketFd < 0
  · rw [if_pos hfd] at hexec
    cases hexec
  · rw [if_neg hfd] at hexec
    obtain ⟨replies, peerOpen, sent⟩ := link
    have hclosed : peerOpen = false := h.resolve_left hfd
    subst hclosed
    cases hexec

/-- `SendRequest` returns what the client decodes. -/
theorem acceptsOnlyValidated_of_open {socketFd : Int} (hfd : 0 ≤ socketFd) (request : Request)
    (replies : Chunked UInt8) (sent : List Bytes) :
    AcceptsOnlyValidated socketFd request ⟨replies, true, sent⟩ ↔
      ∀ r, parseReply replies.elems = some r → ∃ f, Validated replies.elems f r := by
  obtain ⟨rest, hexec⟩ := exec_sendRequest hfd request replies sent
  constructor
  · intro h r hr
    exact h r ⟨rest, true, sent ++ [request.serialize]⟩ (by rw [hexec, hr])
  · intro h r link' hr
    rw [hexec, Except.ok.injEq, Prod.mk.injEq] at hr
    exact h r hr.1

/-- A method has no result without a response. -/
theorem resultsValidated {socketFd : Int} {op : EnclaveOp} {link : Link}
    (h : AcceptsOnlyValidated socketFd (requestOf op) link) :
    ResultsValidated socketFd op link := by
  intro out link' hcall
  rw [call_eq, Prog.exec_bind] at hcall
  cases hexec : (sendRequest socketFd (requestOf op)).exec act link with
  | error fault => rw [hexec] at hcall; cases hcall
  | ok answered =>
      obtain ⟨answer, link''⟩ := answered
      rw [hexec] at hcall
      have hout : resultOf op answer = some out := by
        have hpair := Except.ok.inj hcall
        exact (Prod.mk.inj hpair).1
      cases answer with
      | none => cases op <;> cases hout
      | some r =>
          obtain ⟨f, hf⟩ := h r link'' hexec
          exact ⟨f, r, hf, hout⟩

/-- **When the client accepts only validated replies**: exactly when there
is no connection to receive one from, or the stream happens not to start
with a foreign frame. -/
theorem acceptsOnlyValidated_iff (socketFd : Int) (request : Request) (link : Link) :
    (AcceptsOnlyValidated socketFd request link ∧ ∀ op, ResultsValidated socketFd op link) ↔
      socketFd < 0 ∨ link.peerOpen = false ∨ ¬ ∃ header, Foreign link.replies.elems header := by
  have hmethods : (∀ request, AcceptsOnlyValidated socketFd request link) →
      AcceptsOnlyValidated socketFd request link ∧ ∀ op, ResultsValidated socketFd op link :=
    fun h => ⟨h request, fun op => resultsValidated (h (requestOf op))⟩
  by_cases hnone : socketFd < 0 ∨ link.peerOpen = false
  · have hall : ∀ request, AcceptsOnlyValidated socketFd request link :=
      fun request r link' hexec => absurd hexec (sendRequest_ne_some hnone request r link')
    simp only [← or_assoc, hnone, true_or, iff_true]
    exact hmethods hall
  · rw [← or_assoc, or_iff_right hnone]
    rw [not_or, not_lt, Bool.not_eq_false] at hnone
    obtain ⟨hfd, hopen⟩ := hnone
    obtain ⟨replies, peerOpen, sent⟩ := link
    subst hopen
    rw [← parseReply_validated_iff]
    constructor
    · intro h
      exact (acceptsOnlyValidated_of_open hfd request replies sent).mp h.1
    · intro h
      exact hmethods fun request =>
        (acceptsOnlyValidated_of_open hfd request replies sent).mpr h

end

/-- A server that answers with zeros. -/
def zeroLink : Link := ⟨.whole (List.replicate 17 0), true, []⟩

/-- Seventeen zeros pass for a successful response without a payload, and
for an attestation. -/
theorem zeros_accepted :
    letI := Host.littleEndian
    ¬ AcceptsOnlyValidated 3 getAttestationRequest zeroLink ∧
      ∃ rest, (call 3 .getAttestation).exec act zeroLink =
        .ok (some [], ⟨rest, true, [getAttestationRequest.serialize]⟩) := by
  let := Host.littleEndian
  have hparse : parseReply (List.replicate 17 0) = some ⟨⟨0, 0, 0, 0, 0, 0⟩, .success, []⟩ := by
    decide +kernel
  constructor
  · intro h
    obtain ⟨f, hf⟩ := (acceptsOnlyValidated_of_open (by decide) _ _ _).mp h _
      (by rw [Chunked.elems_whole, hparse])
    exact absurd hf.valid (by decide)
  · obtain ⟨rest, hcall⟩ := exec_call (show (0 : Int) ≤ 3 by decide) .getAttestation
      (.whole (List.replicate 17 0)) []
    rw [Chunked.elems_whole, hparse] at hcall
    exact ⟨rest, hcall⟩

end OpenEnclave.Client
