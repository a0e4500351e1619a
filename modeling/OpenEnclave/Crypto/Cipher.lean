import OpenEnclave.Crypto.Container

/-!
# Cipher — keys, and AES-256-GCM through the EVP interface

`SecureKey` and `CryptoModule::Encrypt`/`Decrypt` (`crypto.cpp`), call by
call. OpenSSL is not part of the repository: `OpenSSL` carries the
functions its calls compute, `EncryptCalls`/`DecryptCalls` say which of
the calls of one run succeed, and `OpenSSL.Lawful` is the one law the
code relies on — GCM decryption undoes GCM encryption.

Lengths cross a `static_cast<int>` on their way into OpenSSL (`toInt`);
buffers are sized from the uncast length, overwritten from the front and
cut back to what the call reports, as in the source.
-/

namespace OpenEnclave.Crypto

open ByteCodec

abbrev Key := List.Vector UInt8 AES_KEY_SIZE

/-! ## Keys -/

structure SecureKey where
  keyData : Key
  isValid : Bool
deriving DecidableEq

/-- `rand` is what `RAND_bytes` delivers, `none` when it fails. -/
def SecureKey.generate (rand : Option Key) : Option SecureKey :=
  rand.map fun bytes => { keyData := bytes, isValid := true }

/-- The key bytes, or the null pointer. -/
def SecureKey.getKeyData (key : SecureKey) : Option Key :=
  if key.isValid then some key.keyData else none

/-! ## OpenSSL -/

/-- What OpenSSL computes. The GCM text functions map as many bytes as
they are given. -/
structure OpenSSL where
  gcmEncrypt : Key → IV → (text : Bytes) → List.Vector UInt8 text.length
  gcmDecrypt : Key → IV → (text : Bytes) → List.Vector UInt8 text.length
  gcmTag : Key → IV → (aad ciphertext : Bytes) → Tag
  sha256 : Bytes → List.Vector UInt8 32

def OpenSSL.encryptBytes (ssl : OpenSSL) (key : Key) (iv : IV) (text : Bytes) : Bytes :=
  (ssl.gcmEncrypt key iv text).toList

def OpenSSL.decryptBytes (ssl : OpenSSL) (key : Key) (iv : IV) (text : Bytes) : Bytes :=
  (ssl.gcmDecrypt key iv text).toList

@[simp] theorem OpenSSL.encryptBytes_length (ssl : OpenSSL) (key : Key) (iv : IV)
    (text : Bytes) : (ssl.encryptBytes key iv text).length = text.length :=
  List.Vector.toList_length _

@[simp] theorem OpenSSL.decryptBytes_length (ssl : OpenSSL) (key : Key) (iv : IV)
    (text : Bytes) : (ssl.decryptBytes key iv text).length = text.length :=
  List.Vector.toList_length _

/-- Decryption under the same key and IV undoes encryption. -/
structure OpenSSL.Lawful (ssl : OpenSSL) : Prop where
  decrypt_encrypt : ∀ key iv text,
    ssl.decryptBytes key iv (ssl.encryptBytes key iv text) = text

/-- How the calls of one `Encrypt` turn out: the IV `RAND_bytes` delivers,
and whether each EVP call succeeds. -/
structure EncryptCalls where
  randBytes : Option IV
  ctxNew : Bool
  encryptInit : Bool
  aadUpdate : Bool
  encryptUpdate : Bool
  encryptFinal : Bool
  getTag : Bool

/-- How the calls of one `Decrypt` turn out. `decryptFinal` false is a
failure other than a tag mismatch. -/
structure DecryptCalls where
  ctxNew : Bool
  decryptInit : Bool
  aadUpdate : Bool
  decryptUpdate : Bool
  setTag : Bool
  decryptFinal : Bool

/-- `static_cast<int>` of a `size_t`. -/
def toInt (size : Nat) : Int := (size : Int).bmod (2 ^ 32)

/-- An `EVP_CIPHER_CTX` after its init call: the key if one was set, the
IV, and what has been authenticated so far. -/
structure CipherCtx where
  key : Option Key
  iv : IV
  aad : Bytes
  ciphertext : Bytes

namespace CipherCtx

def init (key : Option Key) (iv : IV) : CipherCtx :=
  { key, iv, aad := [], ciphertext := [] }

/-- Whether an update call accepts `inl` bytes: never a negative number, and
without a key none at all. -/
def accepts (ctx : CipherCtx) (inl : Int) : Bool :=
  decide (0 ≤ inl) && (ctx.key.isSome || decide (inl = 0))

/-- An update with a null output buffer: `inl` bytes of AAD. -/
def updateAad (ok : Bool) (ctx : CipherCtx) (input : Bytes) (inl : Int) :
    Option CipherCtx :=
  if ok && ctx.accepts inl then
    some { ctx with aad := ctx.aad ++ input.take inl.toNat }
  else none

/-- The bytes `EVP_EncryptUpdate` writes for `inl` bytes of plaintext. -/
def encryptUpdate (ssl : OpenSSL) (ok : Bool) (ctx : CipherCtx) (input : Bytes)
    (inl : Int) : Option (Bytes × CipherCtx) := do
  guard (ok && ctx.accepts inl)
  let out := ctx.key.elim [] fun key => ssl.encryptBytes key ctx.iv (input.take inl.toNat)
  return (out, { ctx with ciphertext := ctx.ciphertext ++ out })

/-- The bytes `EVP_DecryptUpdate` writes for `inl` bytes of ciphertext. -/
def decryptUpdate (ssl : OpenSSL) (ok : Bool) (ctx : CipherCtx) (input : Bytes)
    (inl : Int) : Option (Bytes × CipherCtx) := do
  guard (ok && ctx.accepts inl)
  let text := input.take inl.toNat
  let out := ctx.key.elim [] fun key => ssl.decryptBytes key ctx.iv text
  return (out, { ctx with ciphertext := ctx.ciphertext ++ text })

/-- The tag over everything processed. Without a key there is none, and the
final call fails. -/
def tag (ssl : OpenSSL) (ctx : CipherCtx) : Option Tag :=
  ctx.key.map fun key => ssl.gcmTag key ctx.iv ctx.aad ctx.ciphertext

end CipherCtx

/-! ## Buffers -/

section
variable {α : Type}

/-- `vector::resize`: cut, or extend with `fill`. -/
def resize (fill : α) (buf : List α) (n : Nat) : List α :=
  buf.take n ++ List.replicate (n - buf.length) fill

/-- A buffer after a call wrote `out` at its front. -/
def overwrite (buf out : List α) : List α := out ++ buf.drop out.length

/-- `EVP_CIPHER_block_size(EVP_aes_256_gcm())`. -/
def gcmBlockSize : Nat := 1

@[simp] theorem resize_overwrite (fill : α) (buf out : List α) :
    resize fill (overwrite buf out) out.length = out := by
  simp [resize, overwrite]

end

/-! ## Encrypt and Decrypt -/

namespace CryptoModule

/-- `none` is the null pointer. -/
def encrypt (ssl : OpenSSL) (calls : EncryptCalls) (key : SecureKey)
    (plaintext aad : Bytes) : Option EncryptedData := do
  let iv ← calls.randBytes
  guard calls.ctxNew
  guard calls.encryptInit
  let ctx := CipherCtx.init key.getKeyData iv
  -- AAD only if present
  let ctx ← if aad.isEmpty then some ctx
    else ctx.updateAad calls.aadUpdate aad (toInt aad.length)
  let ciphertext := resize 0 [] (plaintext.length + gcmBlockSize)
  let (out, ctx) ←
    ctx.encryptUpdate ssl calls.encryptUpdate plaintext (toInt plaintext.length)
  let ciphertext := overwrite ciphertext out
  -- GCM's final call writes nothing, so the length is what the update reported
  guard calls.encryptFinal
  let ciphertext := resize 0 ciphertext out.length
  guard calls.getTag
  let tag ← ctx.tag ssl
  return { ciphertext, iv, tag }

/-- `Decrypt` into a vector of which more is known than its bytes: `fill` is
what `resize` appends, `put` what becomes of a byte an update call writes. -/
def decryptInto {α : Type} (fill : α) (put : UInt8 → α) (ssl : OpenSSL) (calls : DecryptCalls)
    (key : SecureKey) (encrypted : EncryptedData) (aad : Bytes) (plaintext : List α) :
    Bool × List α :=
  if !calls.ctxNew || !calls.decryptInit then (false, plaintext) else
  let ctx := CipherCtx.init key.getKeyData encrypted.iv
  match (if aad.isEmpty then some ctx
      else ctx.updateAad calls.aadUpdate aad (toInt aad.length)) with
  | none => (false, plaintext)
  | some ctx =>
    let plaintext := resize fill plaintext (encrypted.ciphertext.length + gcmBlockSize)
    match ctx.decryptUpdate ssl calls.decryptUpdate encrypted.ciphertext
        (toInt encrypted.ciphertext.length) with
    | none => (false, plaintext)
    | some (out, ctx) =>
      let plaintext := overwrite plaintext (out.map put)
      if !calls.setTag then (false, plaintext)
      else if calls.decryptFinal && ctx.tag ssl == some encrypted.tag then
        (true, resize fill plaintext out.length)
      -- authentication failed: wiped, then cleared
      else (false, [])

/-- The returned `bool`, and the caller's `plaintext` vector after the
call. -/
def decrypt (ssl : OpenSSL) (calls : DecryptCalls) (key : SecureKey)
    (encrypted : EncryptedData) (aad plaintext : Bytes) : Bool × Bytes :=
  decryptInto 0 id ssl calls key encrypted aad plaintext

end CryptoModule

/-! ## A concrete GCM

AES-256-GCM under the all-zero key and IV, on the one-block texts the
examples of later modules use: the first keystream block, the tag of the
encryption of `"Hi"`, and the SHA-256 digest of the attestation's
measurement. -/

/-- A text combined with a keystream. -/
def xorStream (stream : Nat → UInt8) (text : Bytes) : List.Vector UInt8 text.length :=
  ⟨text.mapIdx fun i b => b ^^^ stream i, by simp⟩

theorem xorStream_xorStream (stream : Nat → UInt8) (text : Bytes) :
    (xorStream stream (xorStream stream text).toList).toList = text := by
  apply List.ext_getElem
  · simp
  · intro i h₁ h₂
    simp only [xorStream, List.Vector.toList_mk, List.getElem_mapIdx, UInt8.xor_assoc,
      UInt8.xor_self, UInt8.xor_zero]

def zeroKeyBlock : Bytes :=
  [0xCE, 0xA7, 0x40, 0x3D, 0x4D, 0x60, 0x6B, 0x6E, 0x07, 0x4E, 0xC5, 0xD3, 0xBA, 0xF3, 0x9D, 0x18]

def sampleGcm : OpenSSL where
  gcmEncrypt _ _ text := xorStream (fun i => zeroKeyBlock.getD i 0) text
  gcmDecrypt _ _ text := xorStream (fun i => zeroKeyBlock.getD i 0) text
  gcmTag _ _ aad ciphertext :=
    if aad = [] ∧ ciphertext = [0x86, 0xCE] then
      ⟨[0x0D, 0x64, 0xC3, 0x4F, 0xED, 0x59, 0x65, 0x67,
        0xF2, 0x7A, 0xB6, 0x77, 0x9D, 0x51, 0xA0, 0x88], rfl⟩
    else List.Vector.replicate _ 0
  sha256 text :=
    if text = [0x01, 0x02, 0x03, 0x04] then
      ⟨[0x9F, 0x64, 0xA7, 0x47, 0xE1, 0xB9, 0x7F, 0x13,
        0x1F, 0xAB, 0xB6, 0xB4, 0x47, 0x29, 0x6C, 0x9B,
        0x6F, 0x02, 0x01, 0xE7, 0x9F, 0xB3, 0xC5, 0x35,
        0x6E, 0x6C, 0x77, 0xE8, 0x9B, 0x6A, 0x80, 0x6A], rfl⟩
    else List.Vector.replicate _ 0

theorem sampleGcm_lawful : sampleGcm.Lawful where
  decrypt_encrypt _ _ text := xorStream_xorStream _ text

def zeroKey : Key := List.Vector.replicate _ 0

def zeroIV : IV := List.Vector.replicate _ 0

def EncryptCalls.succeed (iv : IV) : EncryptCalls :=
  ⟨some iv, true, true, true, true, true, true⟩

def DecryptCalls.succeed : DecryptCalls := ⟨true, true, true, true, true, true⟩

end OpenEnclave.Crypto
