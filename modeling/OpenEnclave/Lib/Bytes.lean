import Mathlib.Data.Vector.Defs
import Mathlib.Tactic.Ring
import Mathlib.Tactic.NormNum

/-!
# Bytes — native-order integers and checked reads

General vocabulary for code that lays integers out in byte vectors with
`memcpy`: the object representation of an unsigned integer in the host's
byte order, reads at an offset that distinguish a REJECTED input from a
read PAST THE END of the buffer, and the notion of an exact reader.

An exact reader accepts at an offset precisely the encodings of its
valid values (`Exact.ok_iff`) and never reads out of bounds
(`Exact.inBounds`); exact readers compose (`Exact.pair`), so a record
format is handled field by field. A decoder that reads a record from the
front of a buffer is exact in the same sense (`ExactDecoder`). Nothing
here names a particular format.
-/

namespace ByteCodec

abbrev Bytes := List UInt8

/-- The order in which a host stores the bytes of an integer. -/
inductive ByteOrder where
  | little
  | big
deriving DecidableEq, Repr

/-- The machine the code runs on: `memcpy` to and from an integer uses
its byte order. -/
class Host where
  order : ByteOrder

/-- The host most servers run on. -/
@[reducible] def Host.littleEndian : Host := ⟨.little⟩

/-! ## Little-endian digits -/

/-- The `w` low base-256 digits of `n`, least significant first. -/
def digits : Nat → Nat → Bytes
  | 0, _ => []
  | w + 1, n => UInt8.ofNat n :: digits w (n / 256)

/-- The number a digit list denotes. -/
def undigits : Bytes → Nat
  | [] => 0
  | b :: bs => b.toNat + 256 * undigits bs

@[simp] theorem digits_length (w n : Nat) : (digits w n).length = w := by
  induction w generalizing n with
  | zero => rfl
  | succ w ih => simp [digits, ih]

/-- Digits beyond the width are cut off. -/
theorem digits_mod (w n : Nat) : digits w (n % 256 ^ w) = digits w n := by
  induction w generalizing n with
  | zero => rfl
  | succ w ih =>
      have hlow : UInt8.ofNat (n % 256 ^ (w + 1)) = UInt8.ofNat n := by
        apply UInt8.toNat_inj.mp
        simp only [UInt8.toNat_ofNat', pow_succ', Nat.reducePow]
        exact Nat.mod_mul_right_mod n 256 (256 ^ w)
      have hhigh : n % 256 ^ (w + 1) / 256 = n / 256 % 256 ^ w := by
        rw [pow_succ', Nat.mod_mul_right_div_self]
      rw [digits, digits, hlow, hhigh, ih]

theorem undigits_lt (bs : Bytes) : undigits bs < 256 ^ bs.length := by
  induction bs with
  | nil => simp [undigits]
  | cons b bs ih =>
      have hb : b.toNat < 256 := b.toNat_lt
      rw [undigits, List.length_cons, pow_succ]
      omega

theorem undigits_digits {w n : Nat} (h : n < 256 ^ w) :
    undigits (digits w n) = n := by
  induction w generalizing n with
  | zero =>
      have hn : n = 0 := by simpa using h
      subst hn; rfl
  | succ w ih =>
      have hq : n / 256 < 256 ^ w := by
        rw [pow_succ] at h
        omega
      have hb : (UInt8.ofNat n).toNat = n % 256 := by simp
      rw [digits, undigits, ih hq, hb]
      omega

theorem digits_undigits (bs : Bytes) : digits bs.length (undigits bs) = bs := by
  induction bs with
  | nil => rfl
  | cons b bs ih =>
      have hb : b.toNat < 256 := b.toNat_lt
      have hq : (b.toNat + 256 * undigits bs) / 256 = undigits bs := by omega
      have hd : UInt8.ofNat (b.toNat + 256 * undigits bs) = b := by
        apply UInt8.toNat_inj.mp
        rw [UInt8.toNat_ofNat']
        omega
      rw [List.length_cons, undigits, digits, hq, hd, ih]

/-! ## The object representation of an unsigned integer -/

section
variable [Host]

/-- The `w` bytes a `w`-byte unsigned integer occupies in memory. -/
def nativeBytes (w n : Nat) : Bytes :=
  match Host.order with
  | .little => digits w n
  | .big => (digits w n).reverse

/-- The unsigned integer whose object representation is `bs`. -/
def nativeNat (bs : Bytes) : Nat :=
  match Host.order with
  | .little => undigits bs
  | .big => undigits bs.reverse

@[simp] theorem nativeBytes_length (w n : Nat) : (nativeBytes w n).length = w := by
  unfold nativeBytes
  split <;> simp

theorem nativeBytes_mod (w n : Nat) :
    nativeBytes w (n % 256 ^ w) = nativeBytes w n := by
  unfold nativeBytes
  rw [digits_mod]

theorem nativeNat_lt (bs : Bytes) : nativeNat bs < 256 ^ bs.length := by
  unfold nativeNat
  split
  · exact undigits_lt bs
  · simpa using undigits_lt bs.reverse

theorem nativeNat_nativeBytes {w n : Nat} (h : n < 256 ^ w) :
    nativeNat (nativeBytes w n) = n := by
  unfold nativeNat nativeBytes
  split <;> simp [undigits_digits h]

theorem nativeBytes_nativeNat {w : Nat} {bs : Bytes} (h : bs.length = w) :
    nativeBytes w (nativeNat bs) = bs := by
  subst h
  unfold nativeNat nativeBytes
  split
  · exact digits_undigits bs
  · have hrev := digits_undigits bs.reverse
    rw [List.length_reverse] at hrev
    rw [hrev, List.reverse_reverse]

end

/-! ## Checked reads -/

/-- Why a read did not deliver: the input was turned down by a check of
the code, or the code touched memory past the end of its buffer. -/
inductive ReadFault where
  | rejected
  | outOfBounds
deriving DecidableEq, Repr

/-- A bind that delivered, taken apart. -/
theorem bind_ok_iff {ε α β : Type} {x : Except ε α} {f : α → Except ε β} {b : β} :
    (x >>= f) = .ok b ↔ ∃ a, x = .ok a ∧ f a = .ok b := by
  cases x with
  | error e => simp [bind, Except.bind]
  | ok a => simp [bind, Except.bind]

/-- A bind that does not fault with `e`, from its two halves. -/
theorem bind_ne_error {ε α β : Type} {x : Except ε α} {f : α → Except ε β} {e : ε}
    (hx : x ≠ .error e) (hf : ∀ a, x = .ok a → f a ≠ .error e) :
    (x >>= f) ≠ .error e := by
  cases x with
  | error e' =>
      intro h
      exact hx (by simpa [bind, Except.bind] using h)
  | ok a => exact hf a rfl

/-- `copy_n`: exactly `n` bytes from `offset`; faults when they are not
all there. -/
def copyN (vec : Bytes) (offset n : Nat) : Except ReadFault (List.Vector UInt8 n) :=
  if h : offset + n ≤ vec.length then
    .ok ⟨(vec.drop offset).take n, by simp only [List.length_take, List.length_drop]; omega⟩
  else .error .outOfBounds

/-- `assign(begin + offset, begin + stop)`: the bytes of a range. -/
def copyRange (vec : Bytes) (offset stop : Nat) : Except ReadFault Bytes :=
  if offset ≤ stop ∧ stop ≤ vec.length then .ok ((vec.drop offset).take (stop - offset))
  else .error .outOfBounds

theorem copyN_of_le {vec : Bytes} {offset n : Nat} (h : offset + n ≤ vec.length) :
    copyN vec offset n =
      .ok ⟨(vec.drop offset).take n, by
        simp only [List.length_take, List.length_drop]; omega⟩ := by
  rw [copyN, dif_pos h]

theorem copyRange_of_le {vec : Bytes} {offset stop : Nat} (h : offset ≤ stop)
    (hs : stop ≤ vec.length) :
    copyRange vec offset stop = .ok ((vec.drop offset).take (stop - offset)) := by
  rw [copyRange, if_pos ⟨h, hs⟩]

section
variable [Host]

/-- `memcpy(&value, vec + offset, w)` into a `w`-byte unsigned integer. -/
def load (vec : Bytes) (offset w : Nat) : Except ReadFault Nat := do
  let bytes ← copyN vec offset w
  return nativeNat bytes.toList

theorem load_of_le {vec : Bytes} {offset w : Nat} (h : offset + w ≤ vec.length) :
    load vec offset w = .ok (nativeNat ((vec.drop offset).take w)) := by
  rw [load, copyN_of_le h]
  rfl

end

/-! ## Exact readers -/

/-- A reader works at an offset of a buffer and returns the value with
the offset after it. -/
abbrev Reader (α : Type) := Bytes → Nat → Except ReadFault (α × Nat)

/-- A reader is exact for an encoding when it accepts, at any offset of
any buffer, precisely the encodings of valid values that stand there,
and never reads past the end. -/
structure Exact {α : Type} (r : Reader α) (enc : α → Bytes) (valid : α → Prop) : Prop where
  ok_iff : ∀ {vec : Bytes} {off : Nat} {a : α} {off' : Nat}, r vec off = .ok (a, off') ↔
    valid a ∧ off' = off + (enc a).length ∧ vec.drop off = enc a ++ vec.drop off'
  inBounds : ∀ (vec : Bytes) (off : Nat), r vec off ≠ .error .outOfBounds

/-- The same encoding and the same values, written differently. -/
theorem Exact.congr {α : Type} {r : Reader α} {enc enc' : α → Bytes}
    {valid valid' : α → Prop} (h : Exact r enc valid) (henc : ∀ a, enc' a = enc a)
    (hvalid : ∀ a, valid' a ↔ valid a) : Exact r enc' valid' where
  ok_iff := by
    intro vec off a off'
    rw [h.ok_iff, henc, hvalid]
  inBounds := h.inBounds

/-- Run one reader after another and pair their values. -/
def Reader.pair {α β : Type} (r : Reader α) (q : Reader β) : Reader (α × β) :=
  fun vec off => do
    let (a, off) ← r vec off
    let (b, off) ← q vec off
    return ((a, b), off)

theorem Exact.pair {α β : Type} {r : Reader α} {q : Reader β} {encA : α → Bytes}
    {encB : β → Bytes} {validA : α → Prop} {validB : β → Prop}
    (hr : Exact r encA validA) (hq : Exact q encB validB) :
    Exact (r.pair q) (fun p => encA p.1 ++ encB p.2)
      (fun p => validA p.1 ∧ validB p.2) where
  ok_iff := by
    intro vec off p off'
    obtain ⟨a, b⟩ := p
    simp only [Reader.pair, bind_ok_iff, Prod.exists, pure, Except.pure,
      Except.ok.injEq, Prod.mk.injEq]
    constructor
    · intro h
      obtain ⟨a', mid, ha, b', off'', hb, ⟨rfl, rfl⟩, rfl⟩ := h
      obtain ⟨va, hmid, hda⟩ := hr.ok_iff.mp ha
      obtain ⟨vb, hoff, hdb⟩ := hq.ok_iff.mp hb
      refine ⟨⟨va, vb⟩, by simp only [List.length_append]; omega, ?_⟩
      rw [hda, hdb, List.append_assoc]
    · intro h
      obtain ⟨⟨va, vb⟩, hoff, hd⟩ := h
      simp only [List.length_append] at hoff
      -- the second reader starts where the first one stops
      have hmid : vec.drop (off + (encA a).length) = encB b ++ vec.drop off' := by
        rw [← List.drop_drop, hd, List.append_assoc, List.drop_left]
      refine ⟨a, off + (encA a).length, hr.ok_iff.mpr ⟨va, rfl, ?_⟩, b, off',
        hq.ok_iff.mpr ⟨vb, by omega, hmid⟩, ⟨rfl, rfl⟩, rfl⟩
      rw [hd, hmid, List.append_assoc]
  inBounds := by
    intro vec off
    refine bind_ne_error (hr.inBounds vec off) fun p hp => ?_
    refine bind_ne_error (hq.inBounds vec p.2) fun p' hp' => ?_
    simp [pure, Except.pure]

/-- Apply a function to the value a reader delivers. -/
def Reader.map {α β : Type} (f : α → β) (r : Reader α) : Reader β := fun vec off => do
  let (a, off) ← r vec off
  return (f a, off)

theorem Exact.map {α β : Type} {r : Reader α} {enc : α → Bytes} {valid : α → Prop}
    {f : α → β} {g : β → α} (h : Exact r enc valid) (hfg : ∀ b, f (g b) = b)
    (hgf : ∀ a, valid a → g (f a) = a) :
    Exact (r.map f) (fun b => enc (g b)) (fun b => valid (g b)) where
  ok_iff := by
    intro vec off b off'
    simp only [Reader.map, bind_ok_iff, Prod.exists, pure, Except.pure, Except.ok.injEq,
      Prod.mk.injEq]
    constructor
    · intro hr
      obtain ⟨a, mid, ha, rfl, rfl⟩ := hr
      have hv := h.ok_iff.mp ha
      rwa [hgf a hv.1]
    · intro hb
      exact ⟨g b, off', h.ok_iff.mpr hb, hfg b, rfl⟩
  inBounds := by
    intro vec off
    refine bind_ne_error (h.inBounds vec off) fun p hp => ?_
    simp [pure, Except.pure]

/-! ## Exact decoders -/

/-- Read a value from the front of a buffer and ignore what follows. -/
def Reader.decode {α : Type} (r : Reader α) (data : Bytes) : Except ReadFault α := do
  let (a, _) ← r data 0
  return a

/-- A decoder is exact for an encoding when it accepts precisely the
buffers that start with the encoding of a valid value, whatever follows
it, and never reads past the end. Encodings of different valid values
are then never prefixes of one another. -/
structure ExactDecoder {α : Type} (decode : Bytes → Except ReadFault α) (enc : α → Bytes)
    (valid : α → Prop) : Prop where
  ok_iff : ∀ {data : Bytes} {a : α}, decode data = .ok a ↔ valid a ∧ enc a <+: data
  decode_append : ∀ {a : α} (rest : Bytes), valid a → decode (enc a ++ rest) = .ok a
  inBounds : ∀ data : Bytes, decode data ≠ .error .outOfBounds
  prefixFree : ∀ {a b : α}, valid a → valid b → enc a <+: enc b → a = b

theorem Exact.decoder {α : Type} {r : Reader α} {enc : α → Bytes} {valid : α → Prop}
    (h : Exact r enc valid) : ExactDecoder r.decode enc valid := by
  have hok : ∀ {data : Bytes} {a : α}, r.decode data = .ok a ↔ valid a ∧ enc a <+: data := by
    intro data a
    simp only [Reader.decode, bind_ok_iff, Prod.exists, pure, Except.pure, Except.ok.injEq]
    constructor
    · intro hr
      obtain ⟨a', off, hread, rfl⟩ := hr
      obtain ⟨hv, -, hd⟩ := h.ok_iff.mp hread
      exact ⟨hv, data.drop off, by rw [← hd, List.drop_zero]⟩
    · intro hr
      obtain ⟨hv, rest, rfl⟩ := hr
      exact ⟨a, (enc a).length, h.ok_iff.mpr ⟨hv, by simp, by simp⟩, rfl⟩
  refine ⟨hok, fun rest hv => hok.mpr ⟨hv, List.prefix_append _ _⟩, ?_, ?_⟩
  · intro data
    refine bind_ne_error (h.inBounds data 0) fun p hp => ?_
    simp [pure, Except.pure]
  · -- the longer encoding decodes to both values
    intro a b ha hb hab
    have hdecode := (hok.mpr ⟨ha, hab⟩).symm.trans (hok.mpr ⟨hb, List.prefix_rfl⟩)
    exact Except.ok.inj hdecode

/-- The decoder of a message from the reader of its fields: `make` puts
the fields together and `fields` takes the message apart. -/
theorem Exact.message {α β : Type} {r : Reader α} {encA : α → Bytes} {validA : α → Prop}
    (h : Exact r encA validA) (make : α → β) (fields : β → α)
    (hmake : ∀ m, make (fields m) = m) (hfields : ∀ a, fields (make a) = a)
    {decode : Bytes → Except ReadFault β} {enc : β → Bytes} {valid : β → Prop}
    (hdecode : ∀ data, decode data = (r.map make).decode data)
    (henc : ∀ m, enc m = encA (fields m)) (hvalid : ∀ m, valid m ↔ validA (fields m)) :
    ExactDecoder decode enc valid := by
  have hfun : decode = (r.map make).decode := funext hdecode
  rw [hfun]
  exact ((h.map hmake (fun a _ => hfields a)).congr henc hvalid).decoder

/-! ## Integers and length-prefixed byte strings -/

section
variable [Host]

/-- A `w`-byte integer, rejected when the buffer ends before it. -/
def readNative (w : Nat) : Reader Nat := fun vec off =>
  if off + w > vec.length then .error .rejected else do
    let value ← load vec off w
    return (value, off + w)

theorem readNative_of_le {vec : Bytes} {off w : Nat} (h : off + w ≤ vec.length) :
    readNative w vec off = .ok (nativeNat ((vec.drop off).take w), off + w) := by
  rw [readNative, if_neg (by omega), load_of_le h]
  rfl

theorem exact_readNative {w : Nat} (hw : 0 < w) :
    Exact (readNative w) (nativeBytes w) (· < 256 ^ w) where
  ok_iff := by
    intro vec off n off'
    rw [nativeBytes_length]
    by_cases hle : off + w ≤ vec.length
    · have hlen : ((vec.drop off).take w).length = w := by
        simp only [List.length_take, List.length_drop]
        omega
      rw [readNative_of_le hle, Except.ok.injEq, Prod.mk.injEq]
      constructor
      · intro hr
        obtain ⟨rfl, rfl⟩ := hr
        refine ⟨?_, rfl, ?_⟩
        · have hlt := nativeNat_lt ((vec.drop off).take w)
          rwa [hlen] at hlt
        · rw [nativeBytes_nativeNat hlen, ← List.drop_drop, List.take_append_drop]
      · intro hr
        obtain ⟨hn, rfl, hd⟩ := hr
        rw [hd, List.take_left' (nativeBytes_length w n)]
        exact ⟨nativeNat_nativeBytes hn, rfl⟩
    · rw [readNative, if_pos (by omega)]
      constructor
      · intro h; cases h
      · intro hr
        obtain ⟨-, rfl, hd⟩ := hr
        have hlen := congrArg List.length hd
        simp only [List.length_append, nativeBytes_length, List.length_drop] at hlen
        omega
  inBounds := by
    intro vec off
    rw [readNative]
    split
    · simp
    · rw [load_of_le (by omega)]
      simp [bind, Except.bind, pure, Except.pure]

/-- A byte string behind its length in `w` bytes; a length that does not
fit is cut off. -/
def sized (w : Nat) (bytes : Bytes) : Bytes := nativeBytes w bytes.length ++ bytes

@[simp] theorem sized_length (w : Nat) (bytes : Bytes) :
    (sized w bytes).length = w + bytes.length := by
  simp [sized]

/-- Read a length, turn it down above `max` or past the end, then the
bytes. -/
def readSized (w max : Nat) : Reader Bytes := fun vec off => do
  let (len, off) ← readNative w vec off
  if len > max then .error .rejected
  else if off + len > vec.length then .error .rejected
  else
    let bytes ← copyRange vec off (off + len)
    return (bytes, off + len)

theorem readSized_of_length {vec : Bytes} {off w max n mid : Nat}
    (h : readNative w vec off = .ok (n, mid)) :
    readSized w max vec off =
      if n > max ∨ mid + n > vec.length then .error .rejected
      else .ok ((vec.drop mid).take n, mid + n) := by
  simp only [readSized, h, bind, Except.bind]
  by_cases hmax : n > max
  · rw [if_pos hmax, if_pos (.inl hmax)]
  · rw [if_neg hmax]
    by_cases hend : mid + n > vec.length
    · rw [if_pos hend, if_pos (.inr hend)]
    · rw [if_neg hend, if_neg (not_or.mpr ⟨hmax, hend⟩),
        copyRange_of_le (by omega) (by omega), Nat.add_sub_cancel_left]
      rfl

theorem exact_readSized {w max : Nat} (hw : 0 < w) (hmax : max < 256 ^ w) :
    Exact (readSized w max) (sized w) (·.length ≤ max) where
  ok_iff := by
    intro vec off bytes off'
    rw [sized_length]
    constructor
    · intro h
      obtain ⟨⟨n, mid⟩, hn, -⟩ := bind_ok_iff.mp h
      rw [readSized_of_length hn] at h
      split at h
      · cases h
      · rename_i hbad
        rw [not_or] at hbad
        obtain ⟨-, rfl, hd⟩ := (exact_readNative hw).ok_iff.mp hn
        rw [nativeBytes_length] at hbad h hd
        cases h
        have hlen : ((vec.drop (off + w)).take n).length = n := by
          simp only [List.length_take, List.length_drop]
          omega
        refine ⟨by omega, by omega, ?_⟩
        rw [sized, hlen, hd, List.append_assoc, ← List.drop_drop (i := n),
          List.take_append_drop]
    · intro hr
      obtain ⟨hle, rfl, hd⟩ := hr
      rw [sized, List.append_assoc] at hd
      have hrest : vec.drop (off + w) = bytes ++ vec.drop (off + (w + bytes.length)) := by
        rw [← List.drop_drop, hd, List.drop_left' (nativeBytes_length w _)]
      have hn : readNative w vec off = .ok (bytes.length, off + w) :=
        (exact_readNative hw).ok_iff.mpr ⟨by omega, by rw [nativeBytes_length], by rw [hrest, hd]⟩
      have hlen := congrArg List.length hrest
      simp only [List.length_append, List.length_drop] at hlen
      -- the length was read, so the buffer does not end before it
      have hoff : off + w ≤ vec.length := by
        by_contra hlt
        rw [readNative, if_pos (by omega)] at hn
        cases hn
      rw [readSized_of_length hn, if_neg (by omega), hrest, List.take_left, Nat.add_assoc]
  inBounds := by
    intro vec off
    cases hn : readNative w vec off with
    | error e =>
        have hne := (exact_readNative hw).inBounds vec off
        rw [hn] at hne
        simpa [readSized, hn, bind, Except.bind] using hne
    | ok p =>
        rw [readSized_of_length hn]
        split <;> simp

/-- An encoding above the cap is turned down. -/
theorem readSized_long {w max : Nat} (hw : 0 < w) {bytes : Bytes}
    (hfit : bytes.length < 256 ^ w) (hlong : max < bytes.length) {vec rest : Bytes} {off : Nat}
    (h : vec.drop off = sized w bytes ++ rest) :
    readSized w max vec off = .error .rejected := by
  have hmid : vec.drop (off + w) = bytes ++ rest := by
    rw [← List.drop_drop, h, sized, List.append_assoc,
      List.drop_left' (nativeBytes_length w _)]
  have hn : readNative w vec off = .ok (bytes.length, off + w) :=
    (exact_readNative hw).ok_iff.mpr
      ⟨hfit, by rw [nativeBytes_length], by rw [hmid, h, sized, List.append_assoc]⟩
  rw [readSized_of_length hn, if_pos (.inl hlong)]

end

end ByteCodec
