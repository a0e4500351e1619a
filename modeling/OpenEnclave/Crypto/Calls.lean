import OpenEnclave.Crypto.Cipher

/-!
# Calls — Encrypt and Decrypt at every length

`Encrypt` and `Decrypt` as functions of how their OpenSSL calls turn
out, for vectors of every length. `encrypt_eq_sealWith` says what
`Encrypt` returns; the exits of `Decrypt` are taken in the order the
source has them: before the ciphertext is touched, at its update, and
after it.

The last section is what the enclave sees of the two: it passes no AAD
and at most 10 MiB, so the casts are exact.
-/

namespace OpenEnclave.Crypto

open ByteCodec

/-! ## The casts

An update call processes as many bytes as its `int` argument says, so of
a vector it sees what the cast of the length leaves of it: all of it
below `2 ^ 31` bytes, nothing (the call fails) from there to `2 ^ 32`,
and a proper front part of some longer ones. -/

/-- The cast of the length is not negative. -/
def castable (x : Bytes) : Bool := decide (0 ≤ toInt x.length)

/-- The bytes of a vector an update call processes. -/
def processed (x : Bytes) : Bytes := x.take (toInt x.length).toNat

/-- The cast leaves nothing of the length. -/
def castsToZero (x : Bytes) : Bool := decide (toInt x.length = 0)

theorem toInt_eq (n : Nat) :
    toInt n = if n % 2 ^ 32 < 2 ^ 31 then ((n % 2 ^ 32 : Nat) : Int)
      else ((n % 2 ^ 32 : Nat) : Int) - 2 ^ 32 := by
  have hcast : ((n : Int) % ((2 ^ 32 : Nat) : Int)) = ((n % 2 ^ 32 : Nat) : Int) := by omega
  unfold toInt
  rw [Int.bmod_def, hcast]
  split <;> split <;> omega

theorem castable_iff {x : Bytes} : castable x = true ↔ x.length % 2 ^ 32 < 2 ^ 31 := by
  rw [castable, decide_eq_true_eq, toInt_eq]
  split <;> omega

theorem castsToZero_iff {x : Bytes} : castsToZero x = true ↔ x.length % 2 ^ 32 = 0 := by
  rw [castsToZero, decide_eq_true_eq, toInt_eq]
  split <;> omega

theorem processed_of_castable {x : Bytes} (h : castable x = true) :
    processed x = x.take (x.length % 2 ^ 32) := by
  rw [processed, toInt_eq, if_pos (castable_iff.mp h), Int.toNat_natCast]

@[simp] theorem castable_nil : castable [] = true := castable_iff.mpr (by simp)

@[simp] theorem processed_nil : processed [] = [] := by simp [processed]

theorem castable_of_lt {x : Bytes} (h : x.length < 2 ^ 31) : castable x = true :=
  castable_iff.mpr (by omega)

theorem processed_of_lt {x : Bytes} (hcast : castable x = true) (h : x.length < 2 ^ 32) :
    processed x = x := by
  rw [processed_of_castable hcast, Nat.mod_eq_of_lt h, List.take_length]

theorem processed_length {x : Bytes} (hcast : castable x = true) :
    (processed x).length = x.length % 2 ^ 32 := by
  rw [processed_of_castable hcast, List.length_take, Nat.min_eq_left (Nat.mod_le _ _)]

theorem processed_of_isEmpty {x : Bytes} (h : x.isEmpty = true) :
    castable x = true ∧ processed x = [] := by
  rw [List.isEmpty_iff.mp h]
  exact ⟨castable_nil, processed_nil⟩

/-! ## The update calls -/

theorem SecureKey.getKeyData_of_valid {key : SecureKey} (h : key.isValid = true) :
    key.getKeyData = some key.keyData := by
  rw [SecureKey.getKeyData, h, if_pos rfl]

theorem SecureKey.getKeyData_of_invalid {key : SecureKey} (h : key.isValid = false) :
    key.getKeyData = none := by
  rw [SecureKey.getKeyData, h, if_neg Bool.false_ne_true]

namespace CipherCtx

theorem accepts_eq (ctx : CipherCtx) (input : Bytes) :
    ctx.accepts (toInt input.length) =
      (castable input && (ctx.key.isSome || castsToZero input)) := by
  rw [accepts, castable, castsToZero]

theorem updateAad_eq (ok : Bool) (ctx : CipherCtx) (input : Bytes) :
    ctx.updateAad ok input (toInt input.length) =
      if ok && (castable input && (ctx.key.isSome || castsToZero input)) then
        some { ctx with aad := ctx.aad ++ processed input } else none := by
  rw [updateAad, accepts_eq, processed]

theorem encryptUpdate_eq (ssl : OpenSSL) (ok : Bool) (ctx : CipherCtx)
    (input : Bytes) :
    ctx.encryptUpdate ssl ok input (toInt input.length) =
      let out := ctx.key.elim [] fun key => ssl.encryptBytes key ctx.iv (processed input)
      if ok && (castable input && (ctx.key.isSome || castsToZero input)) then
        some (out, { ctx with ciphertext := ctx.ciphertext ++ out }) else none := by
  rw [encryptUpdate, accepts_eq, processed]
  cases ok && (castable input && (ctx.key.isSome || castsToZero input)) <;> rfl

theorem decryptUpdate_eq (ssl : OpenSSL) (ok : Bool) (ctx : CipherCtx)
    (input : Bytes) :
    ctx.decryptUpdate ssl ok input (toInt input.length) =
      let out := ctx.key.elim [] fun key => ssl.decryptBytes key ctx.iv (processed input)
      if ok && (castable input && (ctx.key.isSome || castsToZero input)) then
        some (out, { ctx with ciphertext := ctx.ciphertext ++ processed input }) else none := by
  rw [decryptUpdate, accepts_eq, processed]
  cases ok && (castable input && (ctx.key.isSome || castsToZero input)) <;> rfl

-- nothing below looks into the cast, and unfolding it counts up to `2 ^ 32`
attribute [irreducible] castable castsToZero processed

/-- "Add AAD if present". -/
def addAad (ok : Bool) (ctx : CipherCtx) (aad : Bytes) : Option CipherCtx :=
  if aad.isEmpty then some ctx else ctx.updateAad ok aad (toInt aad.length)

theorem addAad_init (ok : Bool) (key : SecureKey) (iv : IV) (aad : Bytes) :
    (init key.getKeyData iv).addAad ok aad =
      if (aad.isEmpty || ok && (key.isValid || castsToZero aad)) && castable aad then
        some ⟨key.getKeyData, iv, processed aad, []⟩ else none := by
  rw [addAad, updateAad_eq]
  cases haad : aad.isEmpty with
  | true =>
      obtain ⟨hcast, hproc⟩ := processed_of_isEmpty haad
      simp only [hcast, hproc, Bool.true_or, Bool.and_true, if_true, init]
  | false =>
      have hkey : key.getKeyData.isSome = key.isValid := by
        cases h : key.isValid <;> simp [SecureKey.getKeyData, h]
      rw [if_neg Bool.false_ne_true, Bool.false_or, Bool.and_comm (castable aad),
        ← Bool.and_assoc, init, hkey, List.nil_append]

end CipherCtx

/-! ## Encrypt -/

/-- The IV of a run of `Encrypt` in which every call it makes succeeds. -/
def EncryptCalls.successWith (calls : EncryptCalls) (aad : Bytes) : Option IV :=
  if calls.ctxNew && calls.encryptInit && (aad.isEmpty || calls.aadUpdate)
    && calls.encryptUpdate && calls.encryptFinal && calls.getTag then calls.randBytes else none

/-- The container GCM makes of a plaintext and an AAD. -/
def OpenSSL.sealWith (ssl : OpenSSL) (key : Key) (iv : IV) (aad plaintext : Bytes) :
    EncryptedData :=
  let ciphertext := ssl.encryptBytes key iv plaintext
  { ciphertext, iv, tag := ssl.gcmTag key iv aad ciphertext }

theorem guard_bind {α : Type} (b : Bool) (f : Unit → Option α) :
    (guard (b = true) >>= f) = if b then f () else none := by
  cases b <;> rfl

theorem ite_bind {α β : Type} (b : Bool) (x : α) (f : α → Option β) :
    ((if b then some x else none) >>= f) = if b then f x else none := by
  cases b <;> rfl

/-- The buffer is cut back to what was written to it, so its size does
not matter. -/
theorem encrypt_eq_bind (ssl : OpenSSL) (calls : EncryptCalls) (key : SecureKey)
    (plaintext aad : Bytes) :
    CryptoModule.encrypt ssl calls key plaintext aad = do
      let iv ← calls.randBytes
      guard calls.ctxNew
      guard calls.encryptInit
      let ctx ← (CipherCtx.init key.getKeyData iv).addAad calls.aadUpdate aad
      let (out, ctx) ←
        ctx.encryptUpdate ssl calls.encryptUpdate plaintext (toInt plaintext.length)
      guard calls.encryptFinal
      guard calls.getTag
      let tag ← ctx.tag ssl
      return { ciphertext := out, iv, tag } := by
  simp only [CryptoModule.encrypt, CipherCtx.addAad, resize_overwrite]
  cases aad.isEmpty <;> rfl

/-- **What `Encrypt` returns.** A null pointer unless every call succeeds,
else the container of what the updates processed. -/
theorem encrypt_eq_sealWith (ssl : OpenSSL) (calls : EncryptCalls) (key : SecureKey)
    (plaintext aad : Bytes) :
    CryptoModule.encrypt ssl calls key plaintext aad =
      if key.isValid && castable aad && castable plaintext then
        (calls.successWith aad).map fun iv =>
          ssl.sealWith key.keyData iv (processed aad) (processed plaintext)
      else none := by
  rw [encrypt_eq_bind, EncryptCalls.successWith]
  simp only [guard_bind, ite_bind, CipherCtx.addAad_init, CipherCtx.encryptUpdate_eq]
  cases calls.randBytes with
  | none => simp
  | some iv =>
  cases hvalid : key.isValid with
  | false =>
      -- the updates may have nothing to do, but there is no tag
      simp [SecureKey.getKeyData_of_invalid hvalid, CipherCtx.tag]
  | true =>
      simp only [SecureKey.getKeyData_of_valid hvalid, CipherCtx.tag, Bool.true_or,
        Bool.and_true]
      cases calls.ctxNew with
      | false => simp
      | true =>
      cases calls.encryptInit with
      | false => simp
      | true =>
      cases castable aad with
      | false => simp
      | true =>
      cases aad.isEmpty || calls.aadUpdate with
      | false => simp
      | true =>
      cases calls.encryptUpdate with
      | false => simp
      | true =>
      cases castable plaintext with
      | false => simp
      | true =>
      cases calls.encryptFinal with
      | false => simp
      | true =>
      cases calls.getTag with
      | false => simp
      | true => simp [OpenSSL.sealWith]

theorem encrypt_eq_some_iff {ssl : OpenSSL} {calls : EncryptCalls} {key : SecureKey}
    {plaintext aad : Bytes} {e : EncryptedData} :
    CryptoModule.encrypt ssl calls key plaintext aad = some e ↔
      key.isValid = true ∧ castable aad = true ∧ castable plaintext = true ∧
        ∃ iv, calls.successWith aad = some iv ∧
          ssl.sealWith key.keyData iv (processed aad) (processed plaintext) = e := by
  rw [encrypt_eq_sealWith]
  split
  · rename_i h
    simp only [Bool.and_eq_true, and_assoc] at h
    obtain ⟨hkey, haad, hplain⟩ := h
    rw [Option.map_eq_some_iff]
    exact ⟨fun hiv => ⟨hkey, haad, hplain, hiv⟩, fun hiv => hiv.2.2.2⟩
  · rename_i h
    constructor
    · intro hc; cases hc
    · intro hr
      obtain ⟨hkey, haad, hplain, -⟩ := hr
      rw [hkey, haad, hplain] at h
      exact absurd rfl h

/-! ## Decrypt -/

/-- `Decrypt` gets as far as the ciphertext. -/
def DecryptCalls.reachesUpdate (calls : DecryptCalls) (key : SecureKey) (aad : Bytes) : Bool :=
  calls.ctxNew && calls.decryptInit
    && (aad.isEmpty || calls.aadUpdate && (key.isValid || castsToZero aad)) && castable aad

/-- The ciphertext update succeeds. -/
def DecryptCalls.updates (calls : DecryptCalls) (key : SecureKey) (ciphertext : Bytes) : Bool :=
  calls.decryptUpdate && (key.isValid || castsToZero ciphertext) && castable ciphertext

theorem DecryptCalls.castable_of_reachesUpdate {calls : DecryptCalls} {key : SecureKey}
    {aad : Bytes} (h : calls.reachesUpdate key aad = true) : castable aad = true := by
  rw [DecryptCalls.reachesUpdate, Bool.and_eq_true] at h
  exact h.2

theorem DecryptCalls.castable_of_updates {calls : DecryptCalls} {key : SecureKey}
    {ciphertext : Bytes} (h : calls.updates key ciphertext = true) :
    castable ciphertext = true := by
  rw [DecryptCalls.updates, Bool.and_eq_true] at h
  exact h.2

/-- What a ciphertext update that succeeds writes. -/
def OpenSSL.decrypted (ssl : OpenSSL) (key : SecureKey) (e : EncryptedData) : Bytes :=
  key.getKeyData.elim [] fun k => ssl.decryptBytes k e.iv (processed e.ciphertext)

/-- The tag of what has been processed is the container's. -/
def OpenSSL.tagFits (ssl : OpenSSL) (key : SecureKey) (e : EncryptedData) (aad : Bytes) : Bool :=
  (CipherCtx.mk key.getKeyData e.iv (processed aad) (processed e.ciphertext)).tag ssl == some e.tag

theorem OpenSSL.tagFits_iff {ssl : OpenSSL} {key : SecureKey} {e : EncryptedData} {aad : Bytes} :
    ssl.tagFits key e aad = true ↔ key.isValid = true ∧
      ssl.gcmTag key.keyData e.iv (processed aad) (processed e.ciphertext) = e.tag := by
  rw [OpenSSL.tagFits, CipherCtx.tag]
  cases hvalid : key.isValid with
  | true => simp [SecureKey.getKeyData_of_valid hvalid]
  | false => simp [SecureKey.getKeyData_of_invalid hvalid]

theorem OpenSSL.decrypted_of_valid (ssl : OpenSSL) {key : SecureKey} (hkey : key.isValid = true)
    (e : EncryptedData) :
    ssl.decrypted key e = ssl.decryptBytes key.keyData e.iv (processed e.ciphertext) := by
  rw [OpenSSL.decrypted, SecureKey.getKeyData_of_valid hkey, Option.elim_some]

/-- As many bytes as it is told of. -/
theorem OpenSSL.decrypted_length (ssl : OpenSSL) {calls : DecryptCalls} {key : SecureKey}
    {e : EncryptedData} (h : calls.updates key e.ciphertext = true) :
    (ssl.decrypted key e).length = e.ciphertext.length % 2 ^ 32 := by
  have hcast := DecryptCalls.castable_of_updates h
  cases hvalid : key.isValid with
  | true =>
      rw [ssl.decrypted_of_valid hvalid, OpenSSL.decryptBytes_length, processed_length hcast]
  | false =>
      rw [DecryptCalls.updates, hvalid, hcast, Bool.false_or, Bool.and_true, Bool.and_eq_true] at h
      rw [OpenSSL.decrypted, SecureKey.getKeyData_of_invalid hvalid, castsToZero_iff.mp h.2]
      rfl

/-- The ciphertext update of `Decrypt`. -/
theorem decryptUpdate_eq_decrypted (ssl : OpenSSL) (calls : DecryptCalls) (key : SecureKey)
    (e : EncryptedData) (aad : Bytes) :
    (CipherCtx.mk key.getKeyData e.iv aad []).decryptUpdate ssl calls.decryptUpdate e.ciphertext
        (toInt e.ciphertext.length) =
      if calls.updates key e.ciphertext then
        some (ssl.decrypted key e,
          CipherCtx.mk key.getKeyData e.iv aad (processed e.ciphertext))
      else none := by
  have hsome : key.getKeyData.isSome = key.isValid := by
    cases h : key.isValid <;> simp [SecureKey.getKeyData, h]
  rw [CipherCtx.decryptUpdate_eq, DecryptCalls.updates, Bool.and_comm (castable e.ciphertext),
    ← Bool.and_assoc, hsome, OpenSSL.decrypted, List.nil_append]

section
variable {α : Type} (fill : α) (put : UInt8 → α) (ssl : OpenSSL) {calls : DecryptCalls}
  {key : SecureKey} (e : EncryptedData) {aad : Bytes} (plaintext : List α)

theorem decryptInto_eq_addAad (calls : DecryptCalls) (key : SecureKey) (aad : Bytes) :
    CryptoModule.decryptInto fill put ssl calls key e aad plaintext =
      if !calls.ctxNew || !calls.decryptInit then (false, plaintext) else
      match (CipherCtx.init key.getKeyData e.iv).addAad calls.aadUpdate aad with
      | none => (false, plaintext)
      | some ctx =>
        match ctx.decryptUpdate ssl calls.decryptUpdate e.ciphertext
            (toInt e.ciphertext.length) with
        | none => (false, resize fill plaintext (e.ciphertext.length + gcmBlockSize))
        | some (out, ctx) =>
          if !calls.setTag then
            (false, overwrite (resize fill plaintext (e.ciphertext.length + gcmBlockSize))
              (out.map put))
          else if calls.decryptFinal && ctx.tag ssl == some e.tag then
            (true, resize fill (overwrite (resize fill plaintext
              (e.ciphertext.length + gcmBlockSize)) (out.map put)) out.length)
          else (false, []) := rfl

/-- The exits before the ciphertext leave the caller's vector alone. -/
theorem decryptInto_of_not_reachesUpdate (h : calls.reachesUpdate key aad = false) :
    CryptoModule.decryptInto fill put ssl calls key e aad plaintext = (false, plaintext) := by
  rw [decryptInto_eq_addAad, CipherCtx.addAad_init]
  split
  · rfl
  · rename_i hinit
    rw [if_neg]
    intro haad
    simp only [Bool.or_eq_true, Bool.not_eq_true', not_or, Bool.not_eq_false] at hinit
    rw [DecryptCalls.reachesUpdate, hinit.1, hinit.2, Bool.true_and, Bool.true_and, haad] at h
    cases h

/-- From the update on: where it fails the vector has been resized; where it
succeeds the plaintext is in the vector before the tag is set, and stays
there if that fails. -/
theorem decryptInto_of_reachesUpdate (h : calls.reachesUpdate key aad = true) :
    CryptoModule.decryptInto fill put ssl calls key e aad plaintext =
      if calls.updates key e.ciphertext then
        if !calls.setTag then
          (false, overwrite (resize fill plaintext (e.ciphertext.length + gcmBlockSize))
            ((ssl.decrypted key e).map put))
        else if calls.decryptFinal && ssl.tagFits key e aad then
          (true, (ssl.decrypted key e).map put)
        else (false, [])
      else (false, resize fill plaintext (e.ciphertext.length + gcmBlockSize)) := by
  simp only [DecryptCalls.reachesUpdate, Bool.and_assoc, Bool.and_eq_true] at h
  obtain ⟨hnew, hinit, haad⟩ := h
  have hsize : ∀ buf : List α,
      resize fill (overwrite buf ((ssl.decrypted key e).map put)) (ssl.decrypted key e).length =
        (ssl.decrypted key e).map put := by
    intro buf
    rw [← List.length_map put, resize_overwrite]
  rw [decryptInto_eq_addAad, CipherCtx.addAad_init, hnew, hinit, if_neg (by simp),
    if_pos (by rw [Bool.and_eq_true]; exact haad)]
  simp only [decryptUpdate_eq_decrypted]
  cases calls.updates key e.ciphertext with
  | false => rfl
  | true =>
      simp only [if_true, hsize]
      rw [← OpenSSL.tagFits]

end

section
variable (ssl : OpenSSL) {calls : DecryptCalls} {key : SecureKey} (e : EncryptedData)
  {aad : Bytes} (plaintext : Bytes)

/-- **When `Decrypt` returns `true`**: every call it makes succeeds, and
the tag of the bytes processed is the container's. -/
theorem decrypt_fst_iff :
    (CryptoModule.decrypt ssl calls key e aad plaintext).1 = true ↔
      calls.reachesUpdate key aad = true ∧ calls.updates key e.ciphertext = true ∧
        calls.setTag = true ∧ calls.decryptFinal = true ∧ key.isValid = true ∧
        ssl.gcmTag key.keyData e.iv (processed aad) (processed e.ciphertext) = e.tag := by
  rw [CryptoModule.decrypt, ← OpenSSL.tagFits_iff]
  cases hr : calls.reachesUpdate key aad with
  | false => simp [decryptInto_of_not_reachesUpdate 0 id ssl e plaintext hr]
  | true =>
  rw [decryptInto_of_reachesUpdate 0 id ssl e plaintext hr]
  cases calls.updates key e.ciphertext with
  | false => simp
  | true =>
  cases calls.setTag with
  | false => simp
  | true =>
  cases calls.decryptFinal with
  | false => simp
  | true => cases ssl.tagFits key e aad <;> simp

/-- It then holds the GCM decryption of the bytes processed. -/
theorem decrypt_snd_of_fst (h : (CryptoModule.decrypt ssl calls key e aad plaintext).1 = true) :
    (CryptoModule.decrypt ssl calls key e aad plaintext).2 =
      ssl.decryptBytes key.keyData e.iv (processed e.ciphertext) := by
  obtain ⟨hr, hu, hset, hfinal, hvalid, htag⟩ := (decrypt_fst_iff ssl e plaintext).mp h
  have hfits := OpenSSL.tagFits_iff.mpr ⟨hvalid, htag⟩
  rw [CryptoModule.decrypt, decryptInto_of_reachesUpdate 0 id ssl e plaintext hr, hu, hset, hfinal,
    hfits, if_pos rfl, if_neg (by simp), if_pos (by decide), List.map_id,
    ssl.decrypted_of_valid hvalid]

end

/-! ## What the enclave sees of them -/

/-- The IV of a run of `Encrypt` without AAD whose calls all succeed. -/
def EncryptCalls.success (calls : EncryptCalls) : Option IV :=
  if calls.ctxNew && calls.encryptInit && calls.encryptUpdate && calls.encryptFinal
    && calls.getTag then calls.randBytes else none

/-- No call of `Decrypt` fails by itself. -/
def DecryptCalls.success (calls : DecryptCalls) : Bool :=
  calls.ctxNew && calls.decryptInit && calls.decryptUpdate && calls.setTag
    && calls.decryptFinal

/-- The container GCM makes of a plaintext. -/
def OpenSSL.seal (ssl : OpenSSL) (key : Key) (iv : IV) (plaintext : Bytes) :
    EncryptedData :=
  let ciphertext := ssl.encryptBytes key iv plaintext
  { ciphertext, iv, tag := ssl.gcmTag key iv [] ciphertext }

@[simp] theorem OpenSSL.seal_ciphertext_length (ssl : OpenSSL) (key : Key) (iv : IV)
    (plaintext : Bytes) : (ssl.seal key iv plaintext).ciphertext.length = plaintext.length := by
  simp [OpenSSL.seal]

theorem EncryptCalls.successWith_nil (calls : EncryptCalls) :
    calls.successWith [] = calls.success := by
  rw [EncryptCalls.successWith, EncryptCalls.success, List.isEmpty_nil, Bool.true_or,
    Bool.and_true]

/-- `Encrypt` in one line: the sealed container if every call succeeds. -/
theorem encrypt_eq (ssl : OpenSSL) (calls : EncryptCalls) {key : SecureKey}
    (hkey : key.isValid = true) {plaintext : Bytes} (hlen : plaintext.length < 2 ^ 31) :
    CryptoModule.encrypt ssl calls key plaintext [] =
      calls.success.map fun iv => ssl.seal key.keyData iv plaintext := by
  have hcast := castable_of_lt hlen
  rw [encrypt_eq_sealWith, hkey, castable_nil, hcast, Bool.and_self, Bool.and_self, if_pos rfl,
    calls.successWith_nil, processed_nil, processed_of_lt hcast (by omega)]
  rfl

section
variable (ssl : OpenSSL) (calls : DecryptCalls) {key : SecureKey} (hkey : key.isValid = true)
  {e : EncryptedData} (hlen : e.ciphertext.length < 2 ^ 31)
include hkey hlen

/-- `Decrypt` of any container, in one line: `false` unless every call
succeeds and the tag is the container's. -/
theorem decrypt_fst :
    (CryptoModule.decrypt ssl calls key e [] []).1 =
      (calls.success && ssl.gcmTag key.keyData e.iv [] e.ciphertext == e.tag) := by
  have hcast := castable_of_lt hlen
  have hproc := processed_of_lt hcast (by omega)
  apply Bool.eq_iff_iff.mpr
  rw [decrypt_fst_iff, DecryptCalls.reachesUpdate, DecryptCalls.updates, DecryptCalls.success,
    hkey, hcast, hproc, castable_nil, processed_nil, List.isEmpty_nil]
  simp only [Bool.true_or, Bool.and_true, Bool.and_eq_true, beq_iff_eq, and_assoc, true_and]

omit hkey in
/-- A `Decrypt` that returns `true` has written the GCM decryption of the
whole ciphertext. -/
theorem decrypt_snd (h : (CryptoModule.decrypt ssl calls key e [] []).1 = true) :
    (CryptoModule.decrypt ssl calls key e [] []).2 =
      ssl.decryptBytes key.keyData e.iv e.ciphertext := by
  rw [decrypt_snd_of_fst ssl e [] h, processed_of_lt (castable_of_lt hlen) (by omega)]

end

end OpenEnclave.Crypto
