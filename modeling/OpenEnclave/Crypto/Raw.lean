import OpenEnclave.Lib.Effect
import OpenEnclave.Lib.Blocks
import OpenEnclave.Crypto.Wipe
import OpenEnclave.Crypto.Calls

/-!
# Raw — the functions of `CryptoModule` on pointer and size

`ConstantTimeCompare` is a program over the accesses to memory it makes,
so that what it computes and what it lets an observer of its accesses
see are two results about one definition. `compare_constant_time` is
both: the answer is right, and the accesses are the same for all
contents.

`GenerateRandomBytes` passes its `size_t` on as an `int`. What becomes
of the upper half of the size is in `random_filled_iff`.
-/

namespace OpenEnclave.Crypto

open Effect

/-! ## `ConstantTimeCompare` -/

/-- The accesses through the `volatile` pointers and to the `volatile`
local. -/
inductive AccessOp where
  | load (a : UInt64)
  | loadResult
  | storeResult (x : UInt8)
deriving DecidableEq

@[reducible] def AccessOp.Res : AccessOp → Type
  | .load _ => UInt8
  | .loadResult => UInt8
  | .storeResult _ => Unit

abbrev AccessProg (α : Type) := Prog AccessOp AccessOp.Res α

/-- Memory, and the local `result`. -/
structure Frame where
  mem : Memory
  result : UInt8

def Frame.access : (o : AccessOp) → Frame → Except Empty (o.Res × Frame)
  | .load a, s => .ok (s.mem a, s)
  | .loadResult, s => .ok (s.result, s)
  | .storeResult x, s => .ok ((), { s with result := x })

/-- An access without the value. -/
inductive Access where
  | read (a : UInt64)
  | readResult
  | writeResult
deriving DecidableEq

def AccessOp.address : AccessOp → Access
  | .load a => .read a
  | .loadResult => .readResult
  | .storeResult _ => .writeResult

/-- The loop from `i` on, with `n` turns to go. -/
def compareLoop (va vb i : UInt64) : Nat → AccessProg Unit
  | 0 => return ()
  | n + 1 => do
    let x ← Prog.perform (AccessOp.load (va + i))
    let y ← Prog.perform (AccessOp.load (vb + i))
    let result ← Prog.perform AccessOp.loadResult
    Prog.perform (AccessOp.storeResult (result ||| (x ^^^ y)))
    compareLoop va vb (i + 1) n

def constantTimeCompare (a b size : UInt64) : AccessProg Bool :=
  if a = 0 ∨ b = 0 then return false
  else do
    Prog.perform (AccessOp.storeResult 0)
    compareLoop a b 0 size.toNat
    let result ← Prog.perform AccessOp.loadResult
    return result == 0

/-- What is accessed in the loop. -/
def loopAccesses (va vb i : UInt64) : Nat → List Access
  | 0 => []
  | n + 1 => .read (va + i) :: .read (vb + i) :: .readResult :: .writeResult ::
      loopAccesses va vb (i + 1) n

/-- The bytes at the `n` offsets from `i` on agree. -/
def Agree (mem : Memory) (va vb i : UInt64) (n : Nat) : Prop :=
  ∀ j < n, mem (va + (i + UInt64.ofNat j)) = mem (vb + (i + UInt64.ofNat j))

theorem add_ofNat_succ (i : UInt64) (j : Nat) :
    i + UInt64.ofNat (j + 1) = i + 1 + UInt64.ofNat j := by
  rw [UInt64.ofNat_add, UInt64.add_assoc, UInt64.add_comm (UInt64.ofNat j)]
  rfl

theorem agree_succ {mem : Memory} {va vb i : UInt64} {n : Nat} :
    Agree mem va vb i (n + 1) ↔ mem (va + i) = mem (vb + i) ∧ Agree mem va vb (i + 1) n := by
  constructor
  · intro h
    refine ⟨by simpa using h 0 (Nat.succ_pos n), fun j hj => ?_⟩
    rw [← add_ofNat_succ]
    exact h (j + 1) (Nat.succ_lt_succ hj)
  · rintro ⟨hfirst, hrest⟩ j hj
    cases j with
    | zero => simpa using hfirst
    | succ j =>
        rw [add_ofNat_succ]
        exact hrest j (Nat.lt_of_succ_lt_succ hj)

/-- One turn leaves `result` at zero if it was and the bytes agree. -/
theorem accumulate_eq_zero {r x y : UInt8} : r ||| (x ^^^ y) = 0 ↔ r = 0 ∧ x = y := by
  rw [UInt8.or_eq_zero_iff, UInt8.xor_eq_zero_iff]

/-- **The loop**, for what it computes. -/
theorem exec_compareLoop (va vb i : UInt64) (n : Nat) (s : Frame) :
    ∃ r, (compareLoop va vb i n).exec Frame.access s = .ok ((), ⟨s.mem, r⟩) ∧
      (r = 0 ↔ s.result = 0 ∧ Agree s.mem va vb i n) := by
  induction n generalizing i s with
  | zero => exact ⟨s.result, rfl, by simp [Agree]⟩
  | succ n ih =>
      obtain ⟨r, hexec, hr⟩ := ih (i + 1)
        ⟨s.mem, s.result ||| (s.mem (va + i) ^^^ s.mem (vb + i))⟩
      refine ⟨r, hexec, hr.trans ?_⟩
      rw [accumulate_eq_zero, and_assoc, agree_succ]

/-- And for what it accesses. -/
theorem observe_compareLoop (va vb i : UInt64) (n : Nat) (s : Frame) :
    (compareLoop va vb i n).observe Frame.access AccessOp.address s = loopAccesses va vb i n := by
  induction n generalizing i s with
  | zero => rfl
  | succ n ih =>
      rw [loopAccesses, ← ih (i + 1)
        ⟨s.mem, s.result ||| (s.mem (va + i) ^^^ s.mem (vb + i))⟩]
      rfl

theorem agree_iff {mem : Memory} {va vb size : UInt64} :
    Agree mem va vb 0 size.toNat ↔ ∀ i < size, mem (va + i) = mem (vb + i) := by
  constructor
  · intro h i hi
    have hbyte := h i.toNat (UInt64.lt_iff_toNat_lt.mp hi)
    rwa [UInt64.ofNat_toNat, UInt64.zero_add] at hbyte
  · intro h j hj
    rw [UInt64.zero_add]
    refine h _ (UInt64.lt_iff_toNat_lt.mpr ?_)
    have hlt := size.toNat_lt
    rw [UInt64.toNat_ofNat']
    omega

/-- The loop stays in the two ranges. -/
theorem mem_loopAccesses {va vb c : UInt64} {n : Nat} {i : UInt64}
    (h : .read c ∈ loopAccesses va vb i n) :
    ∃ j < n, c = va + (i + UInt64.ofNat j) ∨ c = vb + (i + UInt64.ofNat j) := by
  induction n generalizing i with
  | zero => cases h
  | succ n ih =>
      simp only [loopAccesses, List.mem_cons, Access.read.injEq, reduceCtorEq, false_or] at h
      rcases h with rfl | rfl | h
      · exact ⟨0, Nat.succ_pos n, .inl (by simp)⟩
      · exact ⟨0, Nat.succ_pos n, .inr (by simp)⟩
      · obtain ⟨j, hj, hc⟩ := ih h
        refine ⟨j + 1, Nat.succ_lt_succ hj, ?_⟩
        rw [add_ofNat_succ]
        exact hc

theorem inRange_add {p size : UInt64} {j : Nat} (hj : j < size.toNat) :
    InRange p size (p + UInt64.ofNat j) :=
  Blocks.Block.has_add (b := ⟨p, size⟩) hj

/-- The first address behind a range is not in it. -/
theorem inRange_stop (p size : UInt64) : ¬ InRange p size (p + size) := by
  have hs := size.toNat_lt
  have hp := p.toNat_lt
  rw [InRange, UInt64.lt_iff_toNat_lt, UInt64.toNat_sub, UInt64.toNat_add]
  omega

theorem observe_constantTimeCompare (a b size : UInt64) (s : Frame) :
    (constantTimeCompare a b size).observe Frame.access AccessOp.address s =
      if a = 0 ∨ b = 0 then []
      else .writeResult :: loopAccesses a b 0 size.toNat ++ [.readResult] := by
  by_cases hnull : a = 0 ∨ b = 0
  · rw [constantTimeCompare, if_pos hnull, if_pos hnull]
    rfl
  · rw [constantTimeCompare, if_neg hnull, if_neg hnull]
    obtain ⟨r, hexec, -⟩ := exec_compareLoop a b 0 size.toNat { s with result := 0 }
    have hloop := observe_compareLoop a b 0 size.toNat { s with result := 0 }
    rw [Prog.perform_bind, Prog.observe_op_ok rfl, Prog.observe_bind _ hexec, hloop]
    rfl

/-- **`ConstantTimeCompare` is right and constant-time.** It returns `true`
exactly if both pointers are there and all bytes agree, and changes no
memory; the accesses it makes, to the bytes and to its local, are the
same whatever the memory holds; and it reads within the two ranges
only. -/
theorem compare_constant_time (a b size : UInt64) :
    (∀ s, ∃ equal r, (constantTimeCompare a b size).exec Frame.access s =
        .ok (equal, ⟨s.mem, r⟩) ∧
      (equal = true ↔ a ≠ 0 ∧ b ≠ 0 ∧ ∀ i < size, s.mem (a + i) = s.mem (b + i))) ∧
    (∀ s s', (constantTimeCompare a b size).observe Frame.access AccessOp.address s =
      (constantTimeCompare a b size).observe Frame.access AccessOp.address s') ∧
    (∀ s c, .read c ∈ (constantTimeCompare a b size).observe Frame.access AccessOp.address s →
      InRange a size c ∨ InRange b size c) := by
  refine ⟨fun s => ?_, fun s s' => ?_, fun s c hc => ?_⟩
  · by_cases hnull : a = 0 ∨ b = 0
    · refine ⟨false, s.result, ?_, ?_⟩
      · rw [constantTimeCompare, if_pos hnull]
        rfl
      · simp only [Bool.false_eq_true, false_iff]
        rintro ⟨ha, hb, -⟩
        exact hnull.elim ha hb
    · obtain ⟨r, hexec, hr⟩ := exec_compareLoop a b 0 size.toNat { s with result := 0 }
      refine ⟨r == 0, r, ?_, ?_⟩
      · rw [constantTimeCompare, if_neg hnull, Prog.perform_bind, Prog.exec_op_ok rfl,
          Prog.exec_bind, hexec]
        rfl
      · obtain ⟨ha, hb⟩ := not_or.mp hnull
        rw [beq_iff_eq, hr, agree_iff]
        simp [ha, hb]
  · rw [observe_constantTimeCompare, observe_constantTimeCompare]
  · rw [observe_constantTimeCompare] at hc
    split at hc
    · cases hc
    · simp only [List.cons_append, List.mem_cons, reduceCtorEq, false_or, List.mem_append,
        List.not_mem_nil, or_false] at hc
      obtain ⟨j, hj, hc⟩ := mem_loopAccesses hc
      rw [UInt64.zero_add] at hc
      rcases hc with rfl | rfl
      · exact .inl (inRange_add hj)
      · exact .inr (inRange_add hj)

/-! ## `GenerateRandomBytes` -/

/-- `CryptoModule::GenerateRandomBytes`, where `rand` is `RAND_bytes`: the
memory after it has returned 1, or nothing. -/
def generateRandomBytes (rand : Memory → UInt64 → Int → Option Memory) (mem : Memory)
    (buffer size : UInt64) : Option Memory :=
  if buffer = 0 ∨ size = 0 then none else rand mem buffer (toInt size.toNat)

/-- `RAND_bytes(buf, num)` writes `num` random bytes, here `bytes`, and
fails for a negative `num`. -/
def Draws (rand : Memory → UInt64 → Int → Option Memory) (bytes : UInt64 → UInt8) : Prop :=
  ∀ mem buf num, rand mem buf num =
    if num < 0 then none
    else some fun a => if InRange buf (UInt64.ofNat num.toNat) a then bytes (a - buf) else mem a

section
variable {rand : Memory → UInt64 → Int → Option Memory} {bytes : UInt64 → UInt8}
  {buffer size : UInt64}

/-- What is drawn is as long as the lower half of the size says. -/
theorem generateRandomBytes_eq (hrand : Draws rand bytes) (hbuffer : buffer ≠ 0) (hsize : size ≠ 0)
    (mem : Memory) :
    generateRandomBytes rand mem buffer size =
      if size.toNat % 2 ^ 32 < 2 ^ 31 then
        some fun a => if InRange buffer (UInt64.ofNat (size.toNat % 2 ^ 32)) a then
          bytes (a - buffer) else mem a
      else none := by
  rw [generateRandomBytes, if_neg (not_or.mpr ⟨hbuffer, hsize⟩), hrand, toInt_eq]
  by_cases hlow : size.toNat % 2 ^ 32 < 2 ^ 31
  · rw [if_pos hlow, if_pos hlow, if_neg (Int.not_lt.mpr (Int.natCast_nonneg _)),
      Int.toNat_natCast]
  · rw [if_neg hlow, if_neg hlow, if_pos (by omega)]

/-- **When a successful `GenerateRandomBytes` has filled the buffer**: the
call succeeds exactly if bit 31 of the size is clear; a success means
that every byte is random, whatever was there before, exactly if the size
is below `2 ^ 32` or there is no success; and what it has drawn is the
first `size mod 2 ^ 32` bytes, with all others as they were. -/
theorem random_filled_iff (hrand : Draws rand bytes) (hbuffer : buffer ≠ 0) (hsize : size ≠ 0) :
    ((∀ mem, (generateRandomBytes rand mem buffer size).isSome = true) ↔
      size.toNat % 2 ^ 32 < 2 ^ 31) ∧
    ((∀ mem mem', generateRandomBytes rand mem buffer size = some mem' →
        ∀ a, InRange buffer size a → mem' a = bytes (a - buffer)) ↔
      size.toNat < 2 ^ 32 ∨ 2 ^ 31 ≤ size.toNat % 2 ^ 32) ∧
    (∀ mem mem', generateRandomBytes rand mem buffer size = some mem' → ∀ a, mem' a =
      if InRange buffer (UInt64.ofNat (size.toNat % 2 ^ 32)) a then bytes (a - buffer)
      else mem a) := by
  have heq := generateRandomBytes_eq hrand hbuffer hsize
  by_cases hlow : size.toNat % 2 ^ 32 < 2 ^ 31
  · simp only [if_pos hlow] at heq
    refine ⟨⟨fun _ => hlow, fun _ mem => by rw [heq]; rfl⟩, ⟨fun h => ?_, fun h => ?_⟩,
      fun mem mem' hmem a => ?_⟩
    · by_contra hhigh
      -- the first byte that was not drawn, in a memory where it is another one
      have hin : InRange buffer size (buffer + UInt64.ofNat (size.toNat % 2 ^ 32)) :=
        inRange_add (by omega)
      have hbyte := h (fun a => bytes (a - buffer) + 1) _ (heq _) _ hin
      rw [if_neg (inRange_stop _ _)] at hbyte
      exact absurd hbyte (by simp)
    · intro mem mem' hmem a ha
      have hfull : size.toNat % 2 ^ 32 = size.toNat := by omega
      rw [heq, hfull, UInt64.ofNat_toNat, Option.some.injEq] at hmem
      rw [← hmem]
      exact if_pos ha
    · rw [heq, Option.some.injEq] at hmem
      rw [← hmem]
  · simp only [if_neg hlow] at heq
    have hnone : ∀ {mem mem'}, generateRandomBytes rand mem buffer size ≠ some mem' := by
      intro mem mem' hmem
      rw [heq] at hmem
      cases hmem
    refine ⟨⟨fun h => ?_, fun h => absurd h hlow⟩,
      ⟨fun _ => .inr (by omega), fun _ mem mem' hmem => absurd hmem hnone⟩,
      fun mem mem' hmem => absurd hmem hnone⟩
    have hsome := h fun _ => 0
    rw [heq] at hsome
    cases hsome

end

/-- A `RAND_bytes` that draws ones. -/
def drawOnes (mem : Memory) (buf : UInt64) (num : Int) : Option Memory :=
  if num < 0 then none
  else some fun a => if InRange buf (UInt64.ofNat num.toNat) a then 1 else mem a

/-- One byte more than `2 ^ 32`: success with one byte drawn, and zeros
left where they were. -/
theorem random_filled_iff_wrapped :
    ∃ mem, generateRandomBytes drawOnes (fun _ => 0) 0x1000 0x100000001 = some mem ∧
      mem 0x1000 = 1 ∧ ∀ a, a ≠ 0x1000 → mem a = 0 := by
  have hdraws : Draws drawOnes fun _ => 1 := fun _ _ _ => rfl
  obtain ⟨hsome, -, hdrawn⟩ := random_filled_iff hdraws (show (0x1000 : UInt64) ≠ 0 by decide)
    (show (0x100000001 : UInt64) ≠ 0 by decide)
  obtain ⟨mem, hmem⟩ := Option.isSome_iff_exists.mp (hsome.mpr (by decide) fun _ => 0)
  refine ⟨mem, hmem, (hdrawn _ mem hmem 0x1000).trans (if_pos (by decide)), fun a ha => ?_⟩
  rw [hdrawn _ mem hmem a, if_neg]
  rw [show UInt64.ofNat ((0x100000001 : UInt64).toNat % 2 ^ 32) = 1 by decide,
    inRange_step (by decide)]
  exact not_or.mpr ⟨ha, inRange_zero _ a⟩

end OpenEnclave.Crypto
