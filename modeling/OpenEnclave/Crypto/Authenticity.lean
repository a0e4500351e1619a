import OpenEnclave.Crypto.Calls

/-!
# Authenticity — what a pair of Encrypt and Decrypt is worth

Three properties a caller of `CryptoModule` counts on, for plaintexts,
ciphertexts and AADs of every length: that nothing encrypted is lost,
that a failing `Decrypt` releases nothing, and that a succeeding one has
authenticated the whole container and the whole AAD. Each comes with the
exact condition under which the code has it.

Two of them end at the casts. An update call is told the length of a
vector modulo `2 ^ 32` and reports success for the bytes it was told of,
so a vector of `2 ^ 32` bytes and more is neither encrypted nor
authenticated beyond its front part. The third ends at two exits of
`Decrypt` that do not wipe the caller's vector as the last one does.
-/

namespace OpenEnclave.Crypto

open ByteCodec

/-! ## Nothing is lost -/

/-- What `Encrypt` returns for a plaintext, `Decrypt` turns back into all
of it. -/
def LosesNothing (ssl : OpenSSL) (key : SecureKey) (plaintext aad : Bytes) : Prop :=
  ∀ calls e, CryptoModule.encrypt ssl calls key plaintext aad = some e →
    ∀ out, CryptoModule.decrypt ssl .succeed key e aad out = (true, plaintext)

theorem processed_eq_self_iff {x : Bytes} (h : castable x = true) :
    processed x = x ↔ x.length < 2 ^ 32 := by
  constructor
  · intro heq
    have hlen := processed_length h
    rw [heq] at hlen
    omega
  · exact processed_of_lt h

theorem DecryptCalls.succeed_reachesUpdate {key : SecureKey} (hkey : key.isValid = true)
    {aad : Bytes} (haad : castable aad = true) :
    DecryptCalls.succeed.reachesUpdate key aad = true := by
  rw [DecryptCalls.reachesUpdate, hkey, haad]
  simp [DecryptCalls.succeed]

theorem DecryptCalls.succeed_updates {key : SecureKey} (hkey : key.isValid = true)
    {ciphertext : Bytes} (hct : castable ciphertext = true) :
    DecryptCalls.succeed.updates key ciphertext = true := by
  rw [DecryptCalls.updates, hkey, hct]
  rfl

theorem encrypt_succeed (ssl : OpenSSL) (iv : IV) {key : SecureKey} (hkey : key.isValid = true)
    {plaintext aad : Bytes} (haad : castable aad = true) (hplain : castable plaintext = true) :
    CryptoModule.encrypt ssl (.succeed iv) key plaintext aad =
      some (ssl.sealWith key.keyData iv (processed aad) (processed plaintext)) := by
  have hcalls : (EncryptCalls.succeed iv).successWith aad = some iv := by
    rw [EncryptCalls.successWith]
    cases aad.isEmpty <;> rfl
  exact encrypt_eq_some_iff.mpr ⟨hkey, haad, hplain, iv, hcalls, rfl⟩

/-- What comes back is the part of the plaintext that was processed. -/
theorem decrypt_of_encrypt {ssl : OpenSSL} (hssl : ssl.Lawful) {calls : EncryptCalls}
    {key : SecureKey} {plaintext aad : Bytes} {e : EncryptedData}
    (h : CryptoModule.encrypt ssl calls key plaintext aad = some e) (out : Bytes) :
    CryptoModule.decrypt ssl .succeed key e aad out = (true, processed plaintext) := by
  obtain ⟨hkey, haad, hplain, iv, -, rfl⟩ := encrypt_eq_some_iff.mp h
  -- the ciphertext is as long as what was processed, so its own cast is exact
  have hlen : (ssl.encryptBytes key.keyData iv (processed plaintext)).length < 2 ^ 31 := by
    rw [OpenSSL.encryptBytes_length, processed_length hplain]
    exact castable_iff.mp hplain
  have hct := castable_of_lt hlen
  have hproc := processed_of_lt hct (by omega)
  have htrue : (CryptoModule.decrypt ssl .succeed key
      (ssl.sealWith key.keyData iv (processed aad) (processed plaintext)) aad out).1 = true := by
    refine (decrypt_fst_iff ssl _ out).mpr ⟨DecryptCalls.succeed_reachesUpdate hkey haad,
      DecryptCalls.succeed_updates hkey hct, rfl, rfl, hkey, ?_⟩
    simp only [OpenSSL.sealWith, hproc]
  refine Prod.ext htrue ?_
  rw [decrypt_snd_of_fst ssl _ out htrue]
  simp only [OpenSSL.sealWith, hproc]
  exact hssl.decrypt_encrypt _ _ _

theorem losesNothing_iff_processed {ssl : OpenSSL} (hssl : ssl.Lawful) {key : SecureKey}
    (hkey : key.isValid = true) (plaintext aad : Bytes) :
    LosesNothing ssl key plaintext aad ↔
      (castable plaintext = true → castable aad = true → plaintext.length < 2 ^ 32) := by
  constructor
  · intro h hplain haad
    have henc := encrypt_succeed ssl zeroIV hkey haad hplain
    have heq := (decrypt_of_encrypt hssl henc []).symm.trans (h _ _ henc [])
    exact (processed_eq_self_iff hplain).mp (Prod.mk.inj heq).2
  · intro h calls e henc out
    obtain ⟨-, haad, hplain, -⟩ := encrypt_eq_some_iff.mp henc
    rw [decrypt_of_encrypt hssl henc out, processed_of_lt hplain (h hplain haad)]

/-- **When `Encrypt` loses nothing**: unless the plaintext has `2 ^ 32`
bytes and more and both casts let the call go through. -/
theorem losesNothing_iff {ssl : OpenSSL} (hssl : ssl.Lawful) {key : SecureKey}
    (hkey : key.isValid = true) (plaintext aad : Bytes) :
    LosesNothing ssl key plaintext aad ↔
      ¬ (2 ^ 32 ≤ plaintext.length ∧ plaintext.length % 2 ^ 32 < 2 ^ 31 ∧
        aad.length % 2 ^ 32 < 2 ^ 31) := by
  rw [losesNothing_iff_processed hssl hkey, castable_iff, castable_iff]
  omega

theorem losesNothing_iff_hi :
    sampleGcm.Lawful ∧ LosesNothing sampleGcm ⟨zeroKey, true⟩ [0x48, 0x69] [] :=
  ⟨sampleGcm_lawful, (losesNothing_iff sampleGcm_lawful rfl _ _).mpr (by decide)⟩

/-- Of `"Hi"` and `2 ^ 32` zero bytes after it, only `"Hi"` is encrypted. -/
theorem plaintext_beyond_int_is_lost :
    ¬ LosesNothing sampleGcm ⟨zeroKey, true⟩ ([0x48, 0x69] ++ List.replicate (2 ^ 32) 0) [] := by
  rw [losesNothing_iff_processed sampleGcm_lawful rfl, castable_iff, List.length_append,
    List.length_replicate]
  intro h
  exact absurd (h (by norm_num) castable_nil) (by norm_num)

/-! ## A failing Decrypt releases nothing -/

section
variable {α β : Type}

@[simp] theorem resize_length (fill : α) (buf : List α) (n : Nat) :
    (resize fill buf n).length = n := by
  simp only [resize, List.length_append, List.length_take, List.length_replicate]
  omega

theorem resize_eq_self_iff (fill : α) (buf : List α) (n : Nat) :
    resize fill buf n = buf ↔ buf.length = n := by
  constructor
  · intro h
    rw [← h, resize_length]
  · rintro rfl
    simp [resize]

theorem overwrite_resize_length {fill : α} {buf text : List α} {n : Nat}
    (htext : text.length ≤ n) : (overwrite (resize fill buf n) text).length = n := by
  rw [overwrite, List.length_append, List.length_drop, resize_length]
  omega

/-- Writing to the front of a resized vector gives back the vector if it
had that size and started so. -/
theorem overwrite_resize_eq_self_iff {fill : α} {buf text : List α} {n : Nat}
    (htext : text.length ≤ n) :
    overwrite (resize fill buf n) text = buf ↔ buf.length = n ∧ text <+: buf := by
  constructor
  · intro h
    have hbuf : buf.length = n := by rw [← h, overwrite_resize_length htext]
    refine ⟨hbuf, ?_⟩
    rw [(resize_eq_self_iff fill buf n).mpr hbuf] at h
    exact ⟨buf.drop text.length, h⟩
  · intro h
    obtain ⟨hbuf, rest, rfl⟩ := h
    rw [(resize_eq_self_iff fill _ n).mpr hbuf, overwrite, List.drop_left]

theorem map_resize (f : α → β) (fill : α) (buf : List α) (n : Nat) :
    (resize fill buf n).map f = resize (f fill) (buf.map f) n := by
  simp [resize, List.map_take]

theorem map_overwrite (f : α → β) (buf out : List α) :
    (overwrite buf out).map f = overwrite (buf.map f) (out.map f) := by
  simp [overwrite, List.map_drop]

/-- `Decrypt` does not look at what is in the vector. -/
theorem map_decryptInto (f : α → β) (fill : α) (put : UInt8 → α) (ssl : OpenSSL)
    (calls : DecryptCalls) (key : SecureKey) (e : EncryptedData) (aad : Bytes)
    (plaintext : List α) :
    Prod.map id (List.map f)
        (CryptoModule.decryptInto fill put ssl calls key e aad plaintext) =
      CryptoModule.decryptInto (f fill) (f ∘ put) ssl calls key e aad (plaintext.map f) := by
  cases hr : calls.reachesUpdate key aad with
  | false => simp only [decryptInto_of_not_reachesUpdate _ _ _ _ _ hr, Prod.map_apply, id]
  | true =>
  simp only [decryptInto_of_reachesUpdate _ _ _ _ _ hr]
  cases calls.updates key e.ciphertext with
  | false => simp [map_resize]
  | true =>
  cases calls.setTag with
  | false => simp [map_resize, map_overwrite]
  | true => cases calls.decryptFinal && ssl.tagFits key e aad <;> simp

end

/-- A byte of the caller's vector, and where it comes from. -/
inductive Cell where
  | caller (b : UInt8)
  /-- Appended by `resize`. -/
  | filled
  /-- Written by an update call. -/
  | written (b : UInt8)

def Cell.byte : Cell → UInt8
  | .caller b => b
  | .filled => 0
  | .written b => b

/-- `Decrypt` of a vector whose bytes keep where they come from. -/
def decryptCells (ssl : OpenSSL) (calls : DecryptCalls) (key : SecureKey) (e : EncryptedData)
    (aad out : Bytes) : Bool × List Cell :=
  CryptoModule.decryptInto .filled .written ssl calls key e aad (out.map .caller)

/-- The bytes are those of `Decrypt`. -/
theorem byte_decryptCells (ssl : OpenSSL) (calls : DecryptCalls) (key : SecureKey)
    (e : EncryptedData) (aad out : Bytes) :
    Prod.map id (List.map Cell.byte) (decryptCells ssl calls key e aad out) =
      CryptoModule.decrypt ssl calls key e aad out := by
  have hput : Cell.byte ∘ Cell.written = id := rfl
  have hout : (out.map Cell.caller).map Cell.byte = out := by
    rw [List.map_map]
    exact List.map_id out
  rw [decryptCells, map_decryptInto, hput, hout]
  rfl

/-- A `Decrypt` that returns `false` leaves the caller's vector empty or
as it was. A byte that an update call has written is not one that was
there, even if the two are equal. -/
def ReleasesNothing (ssl : OpenSSL) (calls : DecryptCalls) (key : SecureKey)
    (e : EncryptedData) (aad out : Bytes) : Prop :=
  (decryptCells ssl calls key e aad out).1 = false →
    (decryptCells ssl calls key e aad out).2 = [] ∨
      (decryptCells ssl calls key e aad out).2 = out.map .caller

section
variable {ssl : OpenSSL} {calls : DecryptCalls} {key : SecureKey} {e : EncryptedData}
  {aad out : Bytes}

/-- What the caller then sees. -/
theorem ReleasesNothing.decrypt (h : ReleasesNothing ssl calls key e aad out)
    (hfalse : (CryptoModule.decrypt ssl calls key e aad out).1 = false) :
    (CryptoModule.decrypt ssl calls key e aad out).2 = [] ∨
      (CryptoModule.decrypt ssl calls key e aad out).2 = out := by
  have hbyte := byte_decryptCells ssl calls key e aad out
  rw [← hbyte] at hfalse ⊢
  rcases h hfalse with hnil | hsame
  · exact .inl (congrArg (List.map Cell.byte) hnil)
  · refine .inr ((congrArg (List.map Cell.byte) hsame).trans ?_)
    rw [List.map_map]
    exact List.map_id out

theorem releasesNothing_of_eq {buf : List Cell}
    (h : decryptCells ssl calls key e aad out = (false, buf)) (hne : 0 < buf.length) :
    ReleasesNothing ssl calls key e aad out ↔ buf = out.map .caller := by
  have hnil : buf ≠ [] := List.ne_nil_of_length_pos hne
  rw [ReleasesNothing, h]
  simp only [hnil, false_or, forall_const]

/-- Where the ciphertext update fails, the vector has been resized. -/
theorem releasesNothing_of_not_updates (hr : calls.reachesUpdate key aad = true)
    (hu : calls.updates key e.ciphertext = false) :
    ReleasesNothing ssl calls key e aad out ↔ out.length = e.ciphertext.length + 1 := by
  have hdec : decryptCells ssl calls key e aad out =
      (false, resize .filled (out.map .caller) (e.ciphertext.length + gcmBlockSize)) := by
    rw [decryptCells, decryptInto_of_reachesUpdate _ _ _ _ _ hr, hu, if_neg (by simp)]
  rw [releasesNothing_of_eq hdec, resize_eq_self_iff, List.length_map]
  · rfl
  · rw [resize_length]
    exact Nat.succ_pos _

/-- Nothing that was written came from the caller. -/
theorem written_prefix_iff {text : Bytes} :
    text.map Cell.written <+: out.map Cell.caller ↔ text = [] := by
  constructor
  · intro hprefix
    cases text with
    | nil => rfl
    | cons b rest =>
        obtain ⟨tail, htail⟩ := hprefix
        cases out with
        | nil => cases htail
        | cons c out' => cases htail
  · rintro rfl
    exact List.nil_prefix

/-- Where setting the tag fails, the plaintext has been written to it. -/
theorem releasesNothing_of_not_setTag (hr : calls.reachesUpdate key aad = true)
    (hu : calls.updates key e.ciphertext = true) (hset : calls.setTag = false) :
    ReleasesNothing ssl calls key e aad out ↔
      out.length = e.ciphertext.length + 1 ∧ e.ciphertext.length % 2 ^ 32 = 0 := by
  have hdec : decryptCells ssl calls key e aad out =
      (false, overwrite (resize .filled (out.map .caller) (e.ciphertext.length + gcmBlockSize))
        ((ssl.decrypted key e).map .written)) := by
    rw [decryptCells, decryptInto_of_reachesUpdate _ _ _ _ _ hr, hu, hset, if_pos rfl,
      if_pos (by decide)]
  have hlen := ssl.decrypted_length hu
  have htext : ((ssl.decrypted key e).map Cell.written).length ≤
      e.ciphertext.length + gcmBlockSize := by
    rw [List.length_map, hlen]
    exact (Nat.mod_le _ _).trans (Nat.le_add_right _ _)
  rw [releasesNothing_of_eq hdec, overwrite_resize_eq_self_iff htext, written_prefix_iff,
    List.length_map, ← List.length_eq_zero_iff, hlen]
  · rfl
  · rw [overwrite_resize_length htext]
    exact Nat.succ_pos _

/-- The other exits keep the vector, or wipe and clear it. -/
theorem releasesNothing_of_setTag (hr : calls.reachesUpdate key aad = true)
    (hu : calls.updates key e.ciphertext = true) (hset : calls.setTag = true) :
    ReleasesNothing ssl calls key e aad out := by
  intro h
  rw [decryptCells, decryptInto_of_reachesUpdate _ _ _ _ _ hr, hu, hset, if_pos rfl,
    if_neg (by decide)] at h ⊢
  by_cases hok : (calls.decryptFinal && ssl.tagFits key e aad) = true
  · rw [if_pos hok] at h
    cases h
  · rw [if_neg hok]
    exact .inl rfl

end

/-- **When a failing `Decrypt` releases nothing.** The ciphertext is not
reached; or the update and the setting of the tag succeed; or the
caller's vector already had the size it is given, and the update fails or
is told of no bytes. -/
theorem releasesNothing_iff (ssl : OpenSSL) (calls : DecryptCalls) (key : SecureKey)
    (e : EncryptedData) (aad out : Bytes) :
    ReleasesNothing ssl calls key e aad out ↔
      calls.reachesUpdate key aad = false ∨
      (calls.updates key e.ciphertext = true ∧ calls.setTag = true) ∨
      (out.length = e.ciphertext.length + 1 ∧
        (calls.updates key e.ciphertext = true → e.ciphertext.length % 2 ^ 32 = 0)) := by
  cases hr : calls.reachesUpdate key aad with
  | false =>
      refine iff_of_true (fun _ => .inr ?_) (.inl rfl)
      rw [decryptCells, decryptInto_of_not_reachesUpdate _ _ _ _ _ hr]
  | true =>
  cases hu : calls.updates key e.ciphertext with
  | false => simp [releasesNothing_of_not_updates hr hu]
  | true =>
  cases hset : calls.setTag with
  | false => simp [releasesNothing_of_not_setTag hr hu hset]
  | true => simp [releasesNothing_of_setTag hr hu hset]

/-- `"Hi"` under a tag that was never checked stays with the caller. -/
theorem unset_tag_releases_plaintext :
    ¬ ReleasesNothing sampleGcm { DecryptCalls.succeed with setTag := false } ⟨zeroKey, true⟩
      { ciphertext := [0x86, 0xCE], iv := zeroIV, tag := List.Vector.replicate _ 0 } [] [] ∧
    CryptoModule.decrypt sampleGcm { DecryptCalls.succeed with setTag := false } ⟨zeroKey, true⟩
      { ciphertext := [0x86, 0xCE], iv := zeroIV, tag := List.Vector.replicate _ 0 } [] [] =
        (false, [0x48, 0x69, 0x00]) := by
  have hr : { DecryptCalls.succeed with setTag := false }.reachesUpdate ⟨zeroKey, true⟩ [] =
      true := DecryptCalls.succeed_reachesUpdate rfl castable_nil
  have hcast : castable [0x86, 0xCE] = true := castable_of_lt (by simp)
  have hu : { DecryptCalls.succeed with setTag := false }.updates ⟨zeroKey, true⟩
      [0x86, 0xCE] = true := by
    rw [DecryptCalls.updates, hcast]
    rfl
  constructor
  · rw [releasesNothing_of_not_setTag hr hu rfl]
    intro h
    exact absurd h.1 (by decide)
  · rw [CryptoModule.decrypt, decryptInto_of_reachesUpdate _ _ _ _ _ hr, hu, if_pos rfl,
      if_pos (by decide), sampleGcm.decrypted_of_valid rfl, processed_of_lt hcast (by simp)]
    rfl

/-! ## Authentication of the whole container and the whole AAD -/

/-- One call of `Encrypt`: how its OpenSSL calls turn out, and what it is
given. -/
structure EncryptCall where
  calls : EncryptCalls
  plaintext : Bytes
  aad : Bytes

def EncryptCall.result (ssl : OpenSSL) (key : SecureKey) (c : EncryptCall) :
    Option EncryptedData :=
  CryptoModule.encrypt ssl c.calls key c.plaintext c.aad

/-- To the cipher, `e` and `aad` are the container the call returned and the
AAD it was given: the same bytes were processed, and the IV and the tag are
the same. -/
def EncryptCall.Produced (ssl : OpenSSL) (key : SecureKey) (e : EncryptedData) (aad : Bytes)
    (c : EncryptCall) : Prop :=
  ∃ e', c.result ssl key = some e' ∧ e'.iv = e.iv ∧ processed c.aad = processed aad ∧
    e'.ciphertext = processed e.ciphertext ∧ e'.tag = e.tag

/-- What an ideal cipher answers to a container and an AAD: the tag fits
the bytes processed only if it produced them all together. A tag is a
function of what it covers, so this can hold of the queries that are
made, not of all there are. -/
def Unforged (ssl : OpenSSL) (key : SecureKey) (history : List EncryptCall)
    (e : EncryptedData) (aad : Bytes) : Prop :=
  ssl.gcmTag key.keyData e.iv (processed aad) (processed e.ciphertext) = e.tag →
    ∃ c ∈ history, c.Produced ssl key e aad

/-- Whatever `Decrypt` accepts, some call of the history returned for that
AAD. -/
def Authentic (ssl : OpenSSL) (key : SecureKey) (history : List EncryptCall)
    (e : EncryptedData) (aad : Bytes) : Prop :=
  ∀ calls out, (CryptoModule.decrypt ssl calls key e aad out).1 = true →
    ∃ c ∈ history, c.aad = aad ∧ c.result ssl key = some e

/-- The bytes the cipher saw determine what the callers passed: if to the
cipher the container and the AAD are those of some call, then the
ciphertext was seen whole, and one of these calls was given this AAD. -/
def Determined (ssl : OpenSSL) (key : SecureKey) (history : List EncryptCall)
    (e : EncryptedData) (aad : Bytes) : Prop :=
  castable e.ciphertext = true → castable aad = true →
    (∃ c ∈ history, c.Produced ssl key e aad) →
      e.ciphertext.length < 2 ^ 32 ∧ ∃ c ∈ history, c.aad = aad ∧ c.Produced ssl key e aad

section
variable {ssl : OpenSSL} {key : SecureKey} {history : List EncryptCall} {c : EncryptCall}
  {e : EncryptedData} {aad : Bytes}

/-- A container that was returned is short enough to be seen whole. -/
theorem EncryptCall.result_length (h : c.result ssl key = some e) :
    e.ciphertext.length < 2 ^ 31 := by
  obtain ⟨-, -, hplain, iv, -, rfl⟩ := encrypt_eq_some_iff.mp h
  have hlen : (ssl.encryptBytes key.keyData iv (processed c.plaintext)).length < 2 ^ 31 := by
    rw [OpenSSL.encryptBytes_length, processed_length hplain]
    exact castable_iff.mp hplain
  exact hlen

theorem EncryptCall.produced_of_result (h : c.result ssl key = some e) (haad : c.aad = aad) :
    c.Produced ssl key e aad := by
  have hlen := EncryptCall.result_length h
  have hproc := processed_of_lt (castable_of_lt hlen) (by omega)
  exact ⟨e, h, rfl, by rw [haad], hproc.symm, rfl⟩

theorem EncryptCall.Produced.result (h : c.Produced ssl key e aad)
    (hct : castable e.ciphertext = true) (hlen : e.ciphertext.length < 2 ^ 32) :
    c.result ssl key = some e := by
  obtain ⟨e', he', hiv, -, hcipher, htag⟩ := h
  rw [processed_of_lt hct hlen] at hcipher
  rw [he', EncryptedData.ext hcipher hiv htag]

/-- `Decrypt` accepts what was produced. -/
theorem EncryptCall.Produced.accepted (h : c.Produced ssl key e aad)
    (hct : castable e.ciphertext = true) (haad : castable aad = true) :
    (CryptoModule.decrypt ssl .succeed key e aad []).1 = true := by
  obtain ⟨e', he', hiv, hcaad, hcipher, htag⟩ := h
  obtain ⟨hkey, -, -, iv, -, rfl⟩ := encrypt_eq_some_iff.mp he'
  refine (decrypt_fst_iff ssl e []).mpr ⟨DecryptCalls.succeed_reachesUpdate hkey haad,
    DecryptCalls.succeed_updates hkey hct, rfl, rfl, hkey, ?_⟩
  rw [← hiv, ← hcaad, ← hcipher, ← htag]
  rfl

/-- **When `Decrypt` authenticates the whole container and the whole
AAD**: exactly if the bytes the cipher processed determine them. -/
theorem authentic_iff_determined (ssl : OpenSSL) (key : SecureKey) (history : List EncryptCall)
    (e : EncryptedData) (aad : Bytes) :
    (Unforged ssl key history e aad → Authentic ssl key history e aad) ↔
      Determined ssl key history e aad := by
  constructor
  · intro h hct haad hproduced
    obtain ⟨c, hc, hcp⟩ := hproduced
    obtain ⟨c', hc', haad', hres⟩ :=
      h (fun _ => ⟨c, hc, hcp⟩) _ _ (hcp.accepted hct haad)
    have hlen := EncryptCall.result_length hres
    exact ⟨by omega, c', hc', haad', EncryptCall.produced_of_result hres haad'⟩
  · intro hdet hideal calls out h
    obtain ⟨hreach, hupdate, -, -, -, htag⟩ := (decrypt_fst_iff ssl e out).mp h
    have haad := DecryptCalls.castable_of_reachesUpdate hreach
    have hct := DecryptCalls.castable_of_updates hupdate
    obtain ⟨hlen, c, hc, hcaad, hcp⟩ := hdet hct haad (hideal htag)
    exact ⟨c, hc, hcaad, hcp.result hct hlen⟩

/-- Below `2 ^ 32` bytes nothing is cut off. -/
theorem determined_of_lt (hhistory : ∀ c ∈ history, c.aad.length < 2 ^ 32)
    (haad : aad.length < 2 ^ 32) (hct : e.ciphertext.length < 2 ^ 32) :
    Determined ssl key history e aad := by
  intro _ hcast hproduced
  obtain ⟨c, hc, hcp⟩ := hproduced
  refine ⟨hct, c, hc, ?_, hcp⟩
  obtain ⟨e', he', -, hsame, -, -⟩ := hcp
  obtain ⟨-, hcast', -, -⟩ := encrypt_eq_some_iff.mp he'
  rwa [processed_of_lt hcast' (hhistory c hc), processed_of_lt hcast haad] at hsame

end

/-- The one call of a history: `"Hi"`, without AAD. -/
def hiCall : EncryptCall := ⟨.succeed zeroIV, [0x48, 0x69], []⟩

/-- Its tag. -/
def hiTag : Tag := sampleGcm.gcmTag zeroKey zeroIV [] [0x86, 0xCE]

theorem hiCall_result :
    hiCall.result sampleGcm ⟨zeroKey, true⟩ =
      some { ciphertext := [0x86, 0xCE], iv := zeroIV, tag := hiTag } := by
  have hplain : castable [0x48, 0x69] = true := castable_of_lt (by simp)
  have hproc : processed [0x48, 0x69] = [0x48, 0x69] := processed_of_lt hplain (by simp)
  rw [EncryptCall.result, hiCall, encrypt_succeed sampleGcm zeroIV rfl castable_nil hplain,
    hproc, processed_nil]
  rfl

/-- A tail of `2 ^ 32` bytes is not seen. -/
theorem processed_append {x tail : Bytes} (hx : x.length < 2 ^ 31) (htail : tail.length = 2 ^ 32) :
    castable (x ++ tail) = true ∧ processed (x ++ tail) = x := by
  have hmod : (x ++ tail).length % 2 ^ 32 = x.length := by
    rw [List.length_append, htail]
    omega
  have hcast : castable (x ++ tail) = true := by
    rw [castable_iff, hmod]
    exact hx
  refine ⟨hcast, ?_⟩
  rw [processed_of_castable hcast, hmod, List.take_left]

theorem hiCall_tail_accepted {tail : Bytes} (htail : tail.length = 2 ^ 32) :
    ¬ (Unforged sampleGcm ⟨zeroKey, true⟩ [hiCall]
        { ciphertext := [0x86, 0xCE] ++ tail, iv := zeroIV, tag := hiTag } [] →
      Authentic sampleGcm ⟨zeroKey, true⟩ [hiCall]
        { ciphertext := [0x86, 0xCE] ++ tail, iv := zeroIV, tag := hiTag } []) := by
  obtain ⟨hct, hproc⟩ := processed_append (x := [0x86, 0xCE]) (by simp) htail
  intro h
  have hideal : Unforged sampleGcm ⟨zeroKey, true⟩ [hiCall]
      { ciphertext := [0x86, 0xCE] ++ tail, iv := zeroIV, tag := hiTag } [] := by
    intro _
    exact ⟨hiCall, List.mem_singleton_self _, _, hiCall_result, rfl, rfl, hproc.symm, rfl⟩
  have haccept : (CryptoModule.decrypt sampleGcm .succeed ⟨zeroKey, true⟩
      { ciphertext := [0x86, 0xCE] ++ tail, iv := zeroIV, tag := hiTag } [] []).1 = true := by
    refine (decrypt_fst_iff sampleGcm _ []).mpr ⟨DecryptCalls.succeed_reachesUpdate rfl
      castable_nil, DecryptCalls.succeed_updates rfl hct, rfl, rfl, rfl, ?_⟩
    rw [hproc, processed_nil, hiTag]
  -- the only call of the history returned a shorter container
  obtain ⟨c, hc, -, hres⟩ := h hideal _ _ haccept
  rw [List.mem_singleton.mp hc, hiCall_result, Option.some.injEq, EncryptedData.mk.injEq] at hres
  have hnil : tail = [] := List.append_cancel_left (hres.1.symm.trans (List.append_nil _).symm)
  rw [hnil, List.length_nil] at htail
  omega

/-- `2 ^ 32` bytes appended to a ciphertext are accepted along with it. -/
theorem ciphertext_beyond_int_is_accepted :
    ¬ (Unforged sampleGcm ⟨zeroKey, true⟩ [hiCall]
        { ciphertext := [0x86, 0xCE] ++ List.replicate (2 ^ 32) 0, iv := zeroIV, tag := hiTag } [] →
      Authentic sampleGcm ⟨zeroKey, true⟩ [hiCall]
        { ciphertext := [0x86, 0xCE] ++ List.replicate (2 ^ 32) 0, iv := zeroIV, tag := hiTag }
        []) :=
  hiCall_tail_accepted List.length_replicate

end OpenEnclave.Crypto
