import OpenEnclave.Protocol.Checksum
import OpenEnclave.Protocol.Frame

/-!
# Corruption — which damaged frames a receiver turns down

A frame that is damaged on its way is decoded by `Deserialize` and then
judged by `ValidateMessage`. Four header fields are compared with
something: magic and version with constants, the size with the length of
the payload, the checksum with the payload's CRC. Damage there, or a
burst of at most 32 bits in the payload, is always noticed. The other
fields (command, flags, and the status byte of a response) are covered
by nothing, and any damage confined to them goes through.
-/

namespace OpenEnclave.Protocol

open ByteCodec Word

/-! ## The fields of a header by offset -/

/-- The bytes of magic, version, payload size and checksum. -/
def CheckedOffset (i : Nat) : Prop := i < 6 ∨ 8 ≤ i ∧ i < 16

/-- The bytes of command and flags. -/
def UncheckedOffset (i : Nat) : Prop := i = 6 ∨ i = 7

/-- Where the bits of a burst may stand in a frame whose payload starts
at byte `payload`. -/
def BurstAt (payload start j : Nat) : Prop := 8 * payload ≤ j ∧ start ≤ j ∧ j < start + 32

section
variable [Host]

theorem MessageHeader.serialize_eq (h : MessageHeader) :
    h.serialize =
      (nativeBytes 4 h.magic.toNat ++ nativeBytes 2 h.version.toNat) ++
        ([h.commandType, h.flags] ++
          (nativeBytes 4 h.payloadSize.toNat ++ nativeBytes 4 h.checksum.toNat)) := by
  simp [serialize, writeUInt32, writeUInt16, writeUInt8]

/-- Damage to the checked fields leaves command and flags alone. -/
theorem MessageHeader.eq_of_checked {h h' : MessageHeader}
    (hd : DiffersOnlyAt CheckedOffset h.serialize h'.serialize) :
    h'.commandType = h.commandType ∧ h'.flags = h.flags := by
  rw [serialize_eq, serialize_eq] at hd
  have hmid := ((hd.right (by simp)).left (by simp)).eq (by
    intro i hi hS
    simp only [List.length_append, nativeBytes_length, List.length_cons, List.length_nil]
      at hi hS
    unfold CheckedOffset at hS
    omega)
  simpa using hmid

/-- Damage to command and flags yields a header with other values
there. -/
theorem MessageHeader.exists_of_unchecked {h : MessageHeader} {bytes : Bytes}
    (hd : DiffersOnlyAt UncheckedOffset h.serialize bytes) :
    ∃ commandType flags,
      bytes = (MessageHeader.serialize { h with commandType, flags }) := by
  rw [serialize_eq] at hd
  obtain ⟨front, rest, rfl, hfront, hrest⟩ := hd.split
  obtain ⟨mid, back, rfl, hmid, hback⟩ := hrest.split
  have hfront := hfront.eq (by
    intro i hi hS
    simp only [List.length_append, nativeBytes_length] at hi
    unfold UncheckedOffset at hS
    omega)
  have hback := hback.eq (by
    intro i hi hS
    simp only [List.length_append, nativeBytes_length, List.length_cons, List.length_nil] at hS
    unfold UncheckedOffset at hS
    omega)
  obtain ⟨commandType, flags, rfl⟩ := List.length_eq_two.mp hmid.1
  refine ⟨commandType, flags, ?_⟩
  rw [serialize_eq, hfront, hback]

end

/-! ## What validation pins down -/

/-- A payload fixes the four checked fields of its header. -/
theorem validate_unique {h h' : MessageHeader} {payload : Bytes}
    (hv : validate h payload = true) (hv' : validate h' payload = true)
    (hcommand : h'.commandType = h.commandType) (hflags : h'.flags = h.flags) : h' = h := by
  obtain ⟨hmagic, hversion, hsize, hcrc⟩ := validate_iff.mp hv
  obtain ⟨hmagic', hversion', hsize', hcrc'⟩ := validate_iff.mp hv'
  have hsizes : h'.payloadSize = h.payloadSize := UInt32.toNat_inj.mp (hsize'.symm.trans hsize)
  exact MessageHeader.ext (hmagic'.trans hmagic.symm) (hversion'.trans hversion.symm) hcommand
    hflags hsizes (hcrc'.symm.trans hcrc)

/-- A header does not validate a payload with a burst in it. -/
theorem validate_burst {h : MessageHeader} {payload payload' : Bytes} {start : Nat}
    (hv : validate h payload = true) (hv' : validate h payload' = true)
    (hburst : DiffersOnlyAt (fun j => start ≤ j ∧ j < start + 32) (bits payload)
      (bits payload')) : payload' = payload := by
  obtain ⟨-, -, -, hcrc⟩ := validate_iff.mp hv
  obtain ⟨-, -, -, hcrc'⟩ := validate_iff.mp hv'
  by_contra hne
  exact calculateCRC32_ne_of_burst hne hburst (hcrc'.trans hcrc.symm)

/-- Neither command nor flags matter to it. -/
theorem validate_unchecked (h : MessageHeader) (payload : Bytes) (commandType flags : UInt8) :
    validate { h with commandType, flags } payload = validate h payload := rfl

/-! ## Damaged frames -/

section
variable {α : Type} (decode : Bytes → Except ReadFault α) (valid : α → Bool)

/-- A receiver notices: decoding fails or the message is not valid. -/
def Detected (data : Bytes) : Prop :=
  decode data = .error .rejected ∨ ∃ r, decode data = .ok r ∧ valid r = false

/-- A receiver goes on with the message. -/
def Accepted (data : Bytes) : Prop := ∃ r, decode data = .ok r ∧ valid r = true

theorem detected_of_not_accepted {data : Bytes} (hbounds : decode data ≠ .error .outOfBounds)
    (h : ∀ r, decode data = .ok r → valid r ≠ true) : Detected decode valid data := by
  cases hd : decode data with
  | error e =>
      cases e with
      | rejected => exact .inl hd
      | outOfBounds => exact absurd hd hbounds
  | ok r => exact .inr ⟨r, hd, Bool.eq_false_iff.mpr (h r hd)⟩

end

section
variable [Host]

theorem Request.deserialize_ne_outOfBounds (data : Bytes) :
    Request.deserialize data ≠ .error .outOfBounds := by
  rw [Request.deserialize]
  split
  · simp
  · refine bind_ne_error (MessageHeader.deserialize_ne_outOfBounds _) fun header _ => ?_
    split <;> simp [pure, Except.pure]

theorem Response.deserialize_ne_outOfBounds (data : Bytes) :
    Response.deserialize data ≠ .error .outOfBounds := by
  rw [Response.deserialize]
  split
  · simp
  · refine bind_ne_error (MessageHeader.deserialize_ne_outOfBounds _) fun header _ => ?_
    rw [List.getElem?_eq_getElem (by omega)]
    simp only
    split <;> simp [pure, Except.pure]

/-- Damage to the checked fields leaves the rest of the frame alone. -/
theorem frame_checked {h h' : MessageHeader} {rest rest' : Bytes}
    (hd : DiffersOnlyAt CheckedOffset (h.serialize ++ rest) (h'.serialize ++ rest')) :
    (h'.commandType = h.commandType ∧ h'.flags = h.flags) ∧ rest' = rest := by
  refine ⟨MessageHeader.eq_of_checked (hd.left (by simp)), (hd.right (by simp)).eq ?_⟩
  intro i _ hS
  rw [MessageHeader.serialize_length] at hS
  unfold CheckedOffset at hS
  omega

omit [Host] in
/-- A burst in the payload leaves what stands in front of it alone, and
is a burst of the payload by itself. -/
theorem frame_burst {front front' payload payload' : Bytes} {start : Nat}
    (hlen : front'.length = front.length)
    (hd : DiffersOnlyAt (BurstAt front.length start) (bits (front ++ payload))
      (bits (front' ++ payload'))) :
    front' = front ∧ ∃ start', DiffersOnlyAt (fun j => start' ≤ j ∧ j < start' + 32)
      (bits payload) (bits payload') := by
  rw [bits_append, bits_append] at hd
  have hbits : (bits front').length = (bits front).length := by simp [hlen]
  refine ⟨bits_injective ((hd.left hbits).eq ?_), start - 8 * front.length,
    (hd.right hbits).mono ?_⟩
  · intro j hj hS
    rw [bits_length] at hj
    unfold BurstAt at hS
    omega
  · intro j _ hS
    rw [bits_length] at hS
    unfold BurstAt at hS
    omega

/-- A burst in the payload of a valid message is not valid. -/
theorem frame_burst_valid {h h' : MessageHeader} {payload payload' : Bytes}
    (mid mid' : Bytes) (start : Nat) (hmid : mid'.length = mid.length)
    (hv : validate h payload = true) (hv' : validate h' payload' = true)
    (hd : DiffersOnlyAt (BurstAt (h.serialize ++ mid).length start)
      (bits (h.serialize ++ mid ++ payload)) (bits (h'.serialize ++ mid' ++ payload'))) :
    h'.serialize ++ mid' ++ payload' = h.serialize ++ mid ++ payload := by
  obtain ⟨hfront, start', hburst⟩ := frame_burst (by simp [hmid]) hd
  obtain ⟨rfl, rfl⟩ := MessageHeader.serialize_inj hfront
  rw [validate_burst hv hv' hburst]

/-! ## Requests -/

theorem Request.detected_of_checked {r : Request} (hv : validateRequest r = true) {f : Bytes}
    (hne : f ≠ r.serialize) (hd : DiffersOnlyAt CheckedOffset r.serialize f) :
    Detected Request.deserialize validateRequest f := by
  refine detected_of_not_accepted _ _ (Request.deserialize_ne_outOfBounds f) ?_
  intro r' hr' hv'
  obtain ⟨rfl, -, -⟩ := Request.deserialize_ok_iff.mp hr'
  obtain ⟨⟨hcommand, hflags⟩, hpayload⟩ := frame_checked hd
  rw [validateRequest, hpayload] at hv'
  apply hne
  rw [Request.serialize, Request.serialize, hpayload, validate_unique hv hv' hcommand hflags]

theorem Request.detected_of_burst {r : Request} (hv : validateRequest r = true) {f : Bytes}
    (hne : f ≠ r.serialize) {start : Nat}
    (hd : DiffersOnlyAt (BurstAt 16 start) (bits r.serialize) (bits f)) :
    Detected Request.deserialize validateRequest f := by
  refine detected_of_not_accepted _ _ (Request.deserialize_ne_outOfBounds f) ?_
  intro r' hr' hv'
  obtain ⟨rfl, -, -⟩ := Request.deserialize_ok_iff.mp hr'
  have heq := frame_burst_valid [] [] start rfl hv hv' (by simpa [Request.serialize] using hd)
  simp only [List.append_nil] at heq
  exact hne heq

theorem Request.accepted_of_unchecked {r : Request} (hv : validateRequest r = true)
    (hlen : r.payload.length < 2 ^ 32 - 16) {f : Bytes}
    (hd : DiffersOnlyAt UncheckedOffset r.serialize f) :
    Accepted Request.deserialize validateRequest f := by
  obtain ⟨header, payload, rfl, hheader, hpayload⟩ := hd.split
  obtain ⟨commandType, flags, rfl⟩ := MessageHeader.exists_of_unchecked hheader
  have hpayload := hpayload.eq (by
    intro i _ hS
    rw [MessageHeader.serialize_length] at hS
    unfold UncheckedOffset at hS
    omega)
  subst hpayload
  obtain ⟨-, -, hsize, -⟩ := validate_iff.mp hv
  exact ⟨⟨{ r.header with commandType, flags }, r.payload⟩,
    Request.deserialize_ok_iff.mpr ⟨rfl, hsize.symm, hlen⟩,
    (validate_unchecked r.header r.payload commandType flags).trans hv⟩

/-! ## Responses -/

theorem Response.serialize_eq (r : Response) :
    r.serialize = r.header.serialize ++ ([r.status.code] ++ r.payload) := by
  rw [Response.serialize, List.append_assoc]

theorem Response.detected_of_checked {r : Response} (hv : validateResponse r = true)
    {f : Bytes} (hne : f ≠ r.serialize) (hd : DiffersOnlyAt CheckedOffset r.serialize f) :
    Detected Response.deserialize validateResponse f := by
  refine detected_of_not_accepted _ _ (Response.deserialize_ne_outOfBounds f) ?_
  intro r' hr' hv'
  obtain ⟨rfl, -, -⟩ := Response.deserialize_ok_iff.mp hr'
  rw [Response.serialize_eq, Response.serialize_eq] at hd
  obtain ⟨⟨hcommand, hflags⟩, hrest⟩ := frame_checked hd
  have hpayload : r'.payload = r.payload := (List.cons.inj hrest).2
  rw [validateResponse, hpayload] at hv'
  apply hne
  rw [Response.serialize_eq, Response.serialize_eq, hrest,
    validate_unique hv hv' hcommand hflags]

theorem Response.detected_of_burst {r : Response} (hv : validateResponse r = true) {f : Bytes}
    (hne : f ≠ r.serialize) {start : Nat}
    (hd : DiffersOnlyAt (BurstAt 17 start) (bits r.serialize) (bits f)) :
    Detected Response.deserialize validateResponse f := by
  refine detected_of_not_accepted _ _ (Response.deserialize_ne_outOfBounds f) ?_
  intro r' hr' hv'
  obtain ⟨rfl, -, -⟩ := Response.deserialize_ok_iff.mp hr'
  refine hne (frame_burst_valid _ _ start rfl hv hv' ?_)
  simpa [Response.serialize] using hd

theorem Response.accepted_of_unchecked {r : Response} (hv : validateResponse r = true)
    (hlen : r.payload.length < 2 ^ 32 - 17) {f : Bytes}
    (hd : DiffersOnlyAt (fun i => UncheckedOffset i ∨ i = 16) r.serialize f) :
    Accepted Response.deserialize validateResponse f := by
  rw [Response.serialize_eq] at hd
  obtain ⟨header, rest, rfl, hheader, hrest⟩ := hd.split
  obtain ⟨status, payload, rfl, hstatus, hpayload⟩ := hrest.split
  obtain ⟨commandType, flags, rfl⟩ := MessageHeader.exists_of_unchecked
    (hheader.mono (by
      intro i hi hS
      rw [MessageHeader.serialize_length] at hi
      unfold UncheckedOffset at hS ⊢
      omega))
  have hpayload := hpayload.eq (by
    intro i _ hS
    rw [MessageHeader.serialize_length, List.length_singleton] at hS
    unfold UncheckedOffset at hS
    omega)
  subst hpayload
  obtain ⟨code, rfl⟩ := List.length_eq_one_iff.mp hstatus.1
  obtain ⟨-, -, hsize, -⟩ := validate_iff.mp hv
  exact ⟨⟨{ r.header with commandType, flags }, ⟨code⟩, r.payload⟩,
    Response.deserialize_ok_iff.mpr ⟨Response.serialize_eq _, hsize.symm, hlen⟩,
    (validate_unchecked r.header r.payload commandType flags).trans hv⟩

/-- **Damage confined to one field.** Of a valid frame, any damage to
magic, version, size and checksum, and any burst of at most 32 bits in
the payload, is detected; any damage to command, flags and the status
byte is not. -/
theorem corruption_detected_or_unchecked :
    (∀ r : Request, validateRequest r = true → r.payload.length < 2 ^ 32 - 17 → ∀ f : Bytes,
      (f ≠ r.serialize → DiffersOnlyAt CheckedOffset r.serialize f →
        Detected Request.deserialize validateRequest f) ∧
      (f ≠ r.serialize → ∀ start, DiffersOnlyAt (BurstAt 16 start) (bits r.serialize) (bits f) →
        Detected Request.deserialize validateRequest f) ∧
      (DiffersOnlyAt UncheckedOffset r.serialize f →
        Accepted Request.deserialize validateRequest f)) ∧
    (∀ r : Response, validateResponse r = true → r.payload.length < 2 ^ 32 - 17 → ∀ f : Bytes,
      (f ≠ r.serialize → DiffersOnlyAt CheckedOffset r.serialize f →
        Detected Response.deserialize validateResponse f) ∧
      (f ≠ r.serialize → ∀ start, DiffersOnlyAt (BurstAt 17 start) (bits r.serialize) (bits f) →
        Detected Response.deserialize validateResponse f) ∧
      (DiffersOnlyAt (fun i => UncheckedOffset i ∨ i = 16) r.serialize f →
        Accepted Response.deserialize validateResponse f)) := by
  constructor
  · intro r hv hlen f
    refine ⟨fun hne hd => Request.detected_of_checked hv hne hd, fun hne start hd => ?_,
      fun hd => Request.accepted_of_unchecked hv (by omega) hd⟩
    exact Request.detected_of_burst hv hne hd
  · intro r hv hlen f
    refine ⟨fun hne hd => Response.detected_of_checked hv hne hd, fun hne start hd => ?_,
      fun hd => Response.accepted_of_unchecked hv hlen hd⟩
    exact Response.detected_of_burst hv hne hd

end

end OpenEnclave.Protocol
