import OpenEnclave.Lib.Bytes
import Mathlib.Data.Vector.Basic

/-!
# Container — the encrypted blob and its byte layout

`EncryptedData` (`crypto.hpp`) with `Serialize` and `Deserialize`
(`crypto.cpp`). The layout is three 32-bit sizes, the IV, the tag and
the ciphertext. `Deserialize` adds the three sizes in 32-bit unsigned
arithmetic and compares the sum with the 64-bit length of its input, so
the model keeps `UInt32` for the sizes and `Nat` for lengths.

Reads go through `copyN`/`copyRange`: a copy that starts from a passed
size check and still leaves the buffer is `.error .outOfBounds`, which
is not the `false` the function returns for a malformed blob.
-/

namespace OpenEnclave.Crypto

open ByteCodec

def AES_KEY_SIZE : Nat := 32
def AES_IV_SIZE : Nat := 12
def AES_TAG_SIZE : Nat := 16

abbrev IV := List.Vector UInt8 AES_IV_SIZE
abbrev Tag := List.Vector UInt8 AES_TAG_SIZE

@[ext] structure EncryptedData where
  ciphertext : Bytes
  iv : IV
  tag : Tag
deriving DecidableEq

namespace EncryptedData

section
variable [Host]

/-- A `uint32_t` written with `insert(end, &v, &v + 4)`. -/
def sizeBytes (size : UInt32) : Bytes := nativeBytes 4 size.toNat

/-- `[IV_SIZE:4][TAG_SIZE:4][CIPHERTEXT_SIZE:4][IV][TAG][CIPHERTEXT]`; each
size is cast to 32 bits. -/
def serialize (e : EncryptedData) : Bytes :=
  sizeBytes (UInt32.ofNat e.iv.length) ++ sizeBytes (UInt32.ofNat e.tag.length) ++
    sizeBytes (UInt32.ofNat e.ciphertext.length) ++
    e.iv.toList ++ e.tag.toList ++ e.ciphertext

/-- The size checks at the head of `Deserialize`; the value is the
`ct_size` they let through. -/
def checkSizes (data : Bytes) : Except ReadFault UInt32 :=
  if data.length < 12 then .error .rejected else do
    let ivSize := UInt32.ofNat (← load data 0 4)
    let tagSize := UInt32.ofNat (← load data 4 4)
    let ctSize := UInt32.ofNat (← load data 8 4)
    if ivSize.toNat ≠ AES_IV_SIZE ∨ tagSize.toNat ≠ AES_TAG_SIZE then .error .rejected
    -- `12 + iv_size + tag_size + ct_size` is an `unsigned int` sum
    else if data.length ≠ (12 + ivSize + tagSize + ctSize).toNat then .error .rejected
    else return ctSize

def deserialize (data : Bytes) : Except ReadFault EncryptedData := do
  let _ ← checkSizes data
  let offset := 12
  let iv ← copyN data offset AES_IV_SIZE
  let offset := offset + AES_IV_SIZE
  let tag ← copyN data offset AES_TAG_SIZE
  let offset := offset + AES_TAG_SIZE
  let ciphertext ← copyRange data offset data.length
  return { ciphertext, iv, tag }

/-! ## What passes the size checks -/

/-- The 32-bit integer stored at `offset`. -/
def sizeAt (data : Bytes) (offset : Nat) : UInt32 :=
  UInt32.ofNat (nativeNat ((data.drop offset).take 4))

theorem sizeBytes_length (size : UInt32) : (sizeBytes size).length = 4 :=
  nativeBytes_length 4 _

theorem sizeAt_of_bytes {data rest : Bytes} {offset : Nat} {size : UInt32}
    (h : data.drop offset = sizeBytes size ++ rest) : sizeAt data offset = size := by
  rw [sizeAt, h, ← sizeBytes_length size, List.take_left, sizeBytes,
    nativeNat_nativeBytes (by simpa using size.toNat_lt)]
  exact UInt32.ofNat_toNat

theorem bytes_of_sizeAt (data : Bytes) (offset : Nat) (h : offset + 4 ≤ data.length) :
    data.drop offset = sizeBytes (sizeAt data offset) ++ data.drop (offset + 4) := by
  have hlen : ((data.drop offset).take 4).length = 4 := by
    simp only [List.length_take, List.length_drop]
    omega
  have hlt := nativeNat_lt ((data.drop offset).take 4)
  rw [hlen] at hlt
  rw [sizeBytes, sizeAt, UInt32.toNat_ofNat', Nat.mod_eq_of_lt (by simpa using hlt),
    nativeBytes_nativeNat hlen, ← List.drop_drop, List.take_append_drop]

omit [Host] in
/-- The size sum of a blob with the two fixed sizes, reduced mod
`2 ^ 32` as the code reduces it. -/
theorem sizeSum_toNat (ct : UInt32) :
    (12 + 12 + 16 + ct : UInt32).toNat = (40 + ct.toNat) % 2 ^ 32 := by
  rw [UInt32.toNat_add]
  rfl

/-- The checks in one line: the two fixed sizes, and the length against
the sum reduced mod `2 ^ 32`. -/
theorem checkSizes_ok_iff {data : Bytes} {ct : UInt32} :
    checkSizes data = .ok ct ↔
      12 ≤ data.length ∧ sizeAt data 0 = 12 ∧ sizeAt data 4 = 16 ∧ sizeAt data 8 = ct ∧
        data.length = (40 + ct.toNat) % 2 ^ 32 := by
  by_cases hlen : data.length < 12
  · simp only [checkSizes, if_pos hlen]
    constructor
    · intro h; cases h
    · rintro ⟨h, -⟩; omega
  · have hload : ∀ off, off + 4 ≤ 12 →
        load data off 4 = .ok (nativeNat ((data.drop off).take 4)) :=
      fun off hoff => load_of_le (by omega)
    have hiv : ∀ v : UInt32, v.toNat = AES_IV_SIZE ↔ v = 12 := fun v =>
      ⟨fun h => UInt32.toNat_inj.mp h, fun h => by subst h; rfl⟩
    have htag : ∀ v : UInt32, v.toNat = AES_TAG_SIZE ↔ v = 16 := fun v =>
      ⟨fun h => UInt32.toNat_inj.mp h, fun h => by subst h; rfl⟩
    simp only [checkSizes, if_neg hlen, hload 0 (by omega), hload 4 (by omega),
      hload 8 (by omega), bind, Except.bind, ne_eq, hiv, htag]
    change (if ¬sizeAt data 0 = 12 ∨ ¬sizeAt data 4 = 16 then _
      else if ¬data.length = (12 + sizeAt data 0 + sizeAt data 4 + sizeAt data 8).toNat then _
      else pure (sizeAt data 8)) = _ ↔ _
    split
    · rename_i hfix
      constructor
      · intro h; cases h
      · intro hr
        obtain ⟨-, h0, h4, -⟩ := hr
        exact absurd hfix (by simp [h0, h4])
    · rename_i hfix
      rw [not_or, not_not, not_not] at hfix
      obtain ⟨h0, h4⟩ := hfix
      rw [h0, h4, sizeSum_toNat]
      split
      · rename_i hne
        constructor
        · intro h; cases h
        · rintro ⟨-, -, -, rfl, h⟩; exact absurd h hne
      · rename_i heq
        rw [not_not] at heq
        simp only [pure, Except.pure, Except.ok.injEq]
        constructor
        · rintro rfl; exact ⟨by omega, trivial, trivial, rfl, heq⟩
        · rintro ⟨-, -, -, h, -⟩; exact h

/-! ## What is copied after the checks -/

theorem deserialize_of_checkSizes {data : Bytes} {ct : UInt32}
    (h : checkSizes data = .ok ct) (hlen : 40 ≤ data.length) :
    deserialize data = .ok
      { ciphertext := data.drop 40
        iv := ⟨(data.drop 12).take 12, by
          simp only [List.length_take, List.length_drop, AES_IV_SIZE]; omega⟩
        tag := ⟨(data.drop 24).take 16, by
          simp only [List.length_take, List.length_drop, AES_TAG_SIZE]; omega⟩ } := by
  have hiv : 12 + AES_IV_SIZE ≤ data.length := by simp only [AES_IV_SIZE]; omega
  have htag : 12 + AES_IV_SIZE + AES_TAG_SIZE ≤ data.length := by
    simp only [AES_IV_SIZE, AES_TAG_SIZE]; omega
  simp only [deserialize, h, copyN_of_le hiv, copyN_of_le htag,
    copyRange_of_le htag (Nat.le_refl _), bind, Except.bind, pure, Except.pure]
  simp only [AES_IV_SIZE, AES_TAG_SIZE, Nat.reduceAdd]
  rw [List.take_of_length_le (by simp)]

/-- A blob shorter than its fixed part cannot be copied from: the reads
leave the buffer. -/
theorem deserialize_outOfBounds {data : Bytes} {ct : UInt32}
    (h : checkSizes data = .ok ct) (hlen : data.length < 40) :
    deserialize data = .error .outOfBounds := by
  by_cases hiv : 12 + AES_IV_SIZE ≤ data.length
  · have htag : ¬ 12 + AES_IV_SIZE + AES_TAG_SIZE ≤ data.length := by
      simp only [AES_IV_SIZE, AES_TAG_SIZE]; omega
    simp only [deserialize, h, copyN_of_le hiv, bind, Except.bind]
    rw [copyN, dif_neg htag]
  · simp only [deserialize, h, bind, Except.bind]
    rw [copyN, dif_neg hiv]

theorem serialize_length (e : EncryptedData) :
    e.serialize.length = 40 + e.ciphertext.length := by
  have hiv : e.iv.toList.length = 12 := e.iv.toList_length
  have htag : e.tag.toList.length = 16 := e.tag.toList_length
  simp only [serialize, List.length_append, sizeBytes_length, hiv, htag]

/-- The six parts of a serialized container, at their offsets. -/
theorem serialize_drop (e : EncryptedData) :
    e.serialize = sizeBytes 12 ++ e.serialize.drop 4 ∧
      e.serialize.drop 4 = sizeBytes 16 ++ e.serialize.drop 8 ∧
      e.serialize.drop 8 = sizeBytes (UInt32.ofNat e.ciphertext.length) ++ e.serialize.drop 12 ∧
      e.serialize.drop 12 = e.iv.toList ++ e.serialize.drop 24 ∧
      e.serialize.drop 24 = e.tag.toList ++ e.serialize.drop 40 ∧
      e.serialize.drop 40 = e.ciphertext := by
  have hs : e.serialize = sizeBytes 12 ++ (sizeBytes 16 ++
      (sizeBytes (UInt32.ofNat e.ciphertext.length) ++
        (e.iv.toList ++ (e.tag.toList ++ e.ciphertext)))) := by
    simp only [serialize, List.append_assoc]
    rfl
  have d4 : e.serialize.drop 4 = sizeBytes 16 ++
      (sizeBytes (UInt32.ofNat e.ciphertext.length) ++
        (e.iv.toList ++ (e.tag.toList ++ e.ciphertext))) := by
    rw [hs]; exact List.drop_left' (sizeBytes_length _)
  have d8 : e.serialize.drop 8 = sizeBytes (UInt32.ofNat e.ciphertext.length) ++
      (e.iv.toList ++ (e.tag.toList ++ e.ciphertext)) := by
    rw [show 8 = 4 + 4 from rfl, ← List.drop_drop, d4]
    exact List.drop_left' (sizeBytes_length _)
  have d12 : e.serialize.drop 12 = e.iv.toList ++ (e.tag.toList ++ e.ciphertext) := by
    rw [show 12 = 8 + 4 from rfl, ← List.drop_drop, d8]
    exact List.drop_left' (sizeBytes_length _)
  have d24 : e.serialize.drop 24 = e.tag.toList ++ e.ciphertext := by
    rw [show 24 = 12 + 12 from rfl, ← List.drop_drop, d12]
    exact List.drop_left' e.iv.toList_length
  have d40 : e.serialize.drop 40 = e.ciphertext := by
    rw [show 40 = 24 + 16 from rfl, ← List.drop_drop, d24]
    exact List.drop_left' e.tag.toList_length
  exact ⟨by rw [d4, hs], by rw [d8, d4], by rw [d12, d8], by rw [d24, d12],
    by rw [d40, d24], d40⟩

/-- A blob that passes the checks with its fixed part present is the
serialization of what it decodes to. -/
theorem serialize_deserialize {data : Bytes} {ct : UInt32}
    (h : checkSizes data = .ok ct) (hlen : 40 ≤ data.length) {e : EncryptedData}
    (he : deserialize data = .ok e) :
    e.serialize = data ∧ e.ciphertext.length = ct.toNat ∧
      data.length = 40 + ct.toNat := by
  obtain ⟨-, h0, h4, h8, hsum⟩ := checkSizes_ok_iff.mp h
  have hct := ct.toNat_lt
  -- at 40 bytes and more the sum has not wrapped
  have hexact : data.length = 40 + ct.toNat := by omega
  rw [deserialize_of_checkSizes h hlen] at he
  cases he
  have hsize : UInt32.ofNat (data.drop 40).length = ct := by
    rw [List.length_drop, hexact, Nat.add_sub_cancel_left]
    exact UInt32.ofNat_toNat
  refine ⟨?_, by simp [hexact], hexact⟩
  have d0 := bytes_of_sizeAt data 0 (by omega)
  have d4 := bytes_of_sizeAt data 4 (by omega)
  have d8 := bytes_of_sizeAt data 8 (by omega)
  rw [h0, List.drop_zero] at d0
  rw [h4] at d4
  rw [h8] at d8
  have d12 : data.drop 12 = (data.drop 12).take 12 ++ data.drop 24 := by
    rw [show 24 = 12 + 12 from rfl, ← List.drop_drop, List.take_append_drop]
  have d24 : data.drop 24 = (data.drop 24).take 16 ++ data.drop 40 := by
    rw [show 40 = 24 + 16 from rfl, ← List.drop_drop, List.take_append_drop]
  calc _ = sizeBytes 12 ++ (sizeBytes 16 ++ (sizeBytes ct ++
          ((data.drop 12).take 12 ++ ((data.drop 24).take 16 ++ data.drop 40)))) := by
        simp only [serialize, hsize, List.append_assoc]; rfl
    _ = data := by rw [← d24, ← d12, ← d8, ← d4, ← d0]

/-- **The round trip**: a container whose sizes fit in 32 bits comes back
from its blob. -/
theorem deserialize_serialize {e : EncryptedData} (h : e.ciphertext.length < 2 ^ 32 - 40) :
    deserialize e.serialize = .ok e := by
  obtain ⟨d0, d4, d8, d12, d24, d40⟩ := serialize_drop e
  have hlen := serialize_length e
  have hct : (UInt32.ofNat e.ciphertext.length).toNat = e.ciphertext.length := by
    rw [UInt32.toNat_ofNat']
    omega
  have hcheck : checkSizes e.serialize = .ok (UInt32.ofNat e.ciphertext.length) := by
    refine checkSizes_ok_iff.mpr ⟨by omega, sizeAt_of_bytes d0, sizeAt_of_bytes d4,
      sizeAt_of_bytes d8, ?_⟩
    rw [hct, hlen]
    omega
  rw [deserialize_of_checkSizes hcheck (by omega)]
  have hiv : (e.serialize.drop 12).take 12 = e.iv.toList := by
    rw [d12]; exact List.take_left' e.iv.toList_length
  have htag : (e.serialize.drop 24).take 16 = e.tag.toList := by
    rw [d24]; exact List.take_left' e.tag.toList_length
  exact congrArg Except.ok
    (EncryptedData.ext d40 (List.Vector.eq _ _ hiv) (List.Vector.eq _ _ htag))

/-- The size reads stay in the buffer: the guard has checked for them. -/
theorem checkSizes_ne_outOfBounds (data : Bytes) :
    checkSizes data ≠ .error .outOfBounds := by
  rw [checkSizes]
  split
  · simp
  · rename_i hlen
    rw [load_of_le (by omega), load_of_le (by omega), load_of_le (by omega)]
    simp only [bind, Except.bind, pure, Except.pure]
    split
    · simp
    · split <;> simp

/-- A blob of `2 ^ 32` bytes and more has no size fields that let it
through. -/
theorem deserialize_long {data : Bytes} (h : 2 ^ 32 ≤ data.length) :
    deserialize data = .error .rejected := by
  have hcheck : checkSizes data = .error .rejected := by
    cases hc : checkSizes data with
    | error fault =>
        cases fault with
        | rejected => rfl
        | outOfBounds => exact absurd hc (checkSizes_ne_outOfBounds data)
    | ok ct =>
        -- the sum is a 32-bit value
        obtain ⟨-, -, -, -, hsum⟩ := checkSizes_ok_iff.mp hc
        have := Nat.mod_lt (40 + ct.toNat) (show 0 < 2 ^ 32 by decide)
        omega
  rw [deserialize, hcheck]
  rfl

/-- **Stored blobs never misparse.** A container comes back from its own
blob if its ciphertext leaves the size sum below `2 ^ 32`, and is
rejected otherwise; it never comes back as another one. -/
theorem stored_blob_never_misparses (e : EncryptedData) :
    ((∃ out, deserialize e.serialize = .ok out) ↔ e.ciphertext.length < 2 ^ 32 - 40) ∧
      (∀ out, deserialize e.serialize = .ok out →
        out.iv = e.iv ∧ out.tag = e.tag ∧ out.ciphertext = e.ciphertext) ∧
      (¬ e.ciphertext.length < 2 ^ 32 - 40 →
        deserialize e.serialize = .error .rejected) := by
  by_cases hct : e.ciphertext.length < 2 ^ 32 - 40
  · rw [deserialize_serialize hct]
    refine ⟨⟨fun _ => hct, fun _ => ⟨e, rfl⟩⟩, ?_, fun h => absurd hct h⟩
    intro out hout
    cases hout
    exact ⟨rfl, rfl, rfl⟩
  · have hlen : 2 ^ 32 ≤ e.serialize.length := by
      rw [serialize_length]
      omega
    rw [deserialize_long hlen]
    refine ⟨⟨?_, fun h => absurd h hct⟩, ?_, fun _ => rfl⟩
    · intro h
      obtain ⟨out, hout⟩ := h
      cases hout
    · intro out hout
      cases hout

/-! ## Where the size sum wraps -/

/-- The inputs on which the 32-bit sum wraps onto the length: 12 to 39
bytes, the two fixed sizes in place, and a ciphertext size that exceeds
the length by `2 ^ 32 - 40`. -/
def SizeSumWraps (data : Bytes) : Prop :=
  12 ≤ data.length ∧ data.length < 40 ∧ sizeAt data 0 = 12 ∧ sizeAt data 4 = 16 ∧
    (sizeAt data 8).toNat = 2 ^ 32 - 40 + data.length

theorem sizeSumWraps_iff {data : Bytes} :
    SizeSumWraps data ↔ ∃ ct, checkSizes data = .ok ct ∧ data.length < 40 := by
  constructor
  · intro h
    obtain ⟨h12, h40, h0, h4, h8⟩ := h
    exact ⟨sizeAt data 8, checkSizes_ok_iff.mpr ⟨h12, h0, h4, rfl, by omega⟩, h40⟩
  · intro h
    obtain ⟨ct, hct, h40⟩ := h
    obtain ⟨h12, h0, h4, rfl, hsum⟩ := checkSizes_ok_iff.mp hct
    have := (sizeAt data 8).toNat_lt
    exact ⟨h12, h40, h0, h4, by omega⟩

/-- What a passed size check should mean: the length is the exact sum of
the parts, no copy leaves the buffer, and the parts copied are those the
blob is made of. -/
def LayoutSound (data : Bytes) : Prop :=
  ∀ ct, checkSizes data = .ok ct →
    40 ≤ data.length ∧ data.length = 12 + 12 + 16 + ct.toNat ∧ ct = sizeAt data 8 ∧
      deserialize data ≠ .error .outOfBounds ∧
      ∃ out, deserialize data = .ok out ∧ out.iv.toList = (data.drop 12).take 12 ∧
        out.tag.toList = (data.drop 24).take 16 ∧ out.ciphertext = data.drop 40 ∧
        out.serialize = data

/-- **Layout soundness, with its exact boundary**: a passed size check
means a well-laid-out blob on every input except those on which the
32-bit sum wraps. -/
theorem layoutSound_iff (data : Bytes) : LayoutSound data ↔ ¬ SizeSumWraps data := by
  constructor
  · intro h hw
    obtain ⟨ct, hct, h40⟩ := sizeSumWraps_iff.mp hw
    obtain ⟨-, -, -, hbounds, -⟩ := h ct hct
    exact hbounds (deserialize_outOfBounds hct h40)
  · intro hw ct hct
    have hlen : 40 ≤ data.length := by
      by_contra hlt
      exact hw (sizeSumWraps_iff.mpr ⟨ct, hct, by omega⟩)
    have hok := deserialize_of_checkSizes hct hlen
    obtain ⟨hser, -, hexact⟩ := serialize_deserialize hct hlen hok
    obtain ⟨-, -, -, h8, -⟩ := checkSizes_ok_iff.mp hct
    exact ⟨hlen, by omega, h8.symm, by simp [hok], _, hok, rfl, rfl, rfl, hser⟩

end

/-- Twelve bytes that say "12, 16, 0xFFFFFFE4": the sum wraps to 12, the
checks pass, and the IV copy reads past the end. -/
theorem deserialize_twelve_bytes_outOfBounds :
    letI := Host.littleEndian
    let data : Bytes := [12, 0, 0, 0, 16, 0, 0, 0, 0xE4, 0xFF, 0xFF, 0xFF]
    checkSizes data = .ok 0xFFFFFFE4 ∧ deserialize data = .error .outOfBounds ∧
      ¬ LayoutSound data := by
  intro data
  let := Host.littleEndian
  have hct : checkSizes data = .ok 0xFFFFFFE4 := by decide +kernel
  refine ⟨hct, by decide +kernel, fun h => ?_⟩
  obtain ⟨hlen, -⟩ := h _ hct
  exact absurd hlen (by decide)

end EncryptedData

end OpenEnclave.Crypto
