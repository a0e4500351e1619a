import OpenEnclave.Crypto.Cipher

/-!
# Wipe — `SecureWipe` in memory

The loop of `SecureWipe` counts the parameter `size` itself down, with
the decrement in its test: after the test that ends it, `size` has
wrapped to `2 ^ 64 - 1` (`wipeLoop_eq`). Up to there exactly the range
has been zeroed. A build in which `OPENSSL_cleanse` is a macro goes on
with `OPENSSL_cleanse(ptr, size)`, which then covers all of memory but
one byte. `secureWipe_exact_iff` says what that leaves of the promise.

`OPENSSL_cleanse` is not part of the repository; what it is taken to do
is `Cleanses`.
-/

namespace OpenEnclave.Crypto

open ByteCodec

/-- Bytes by address. -/
abbrev Memory := UInt64 → UInt8

/-- `a` is one of the `size` addresses from `ptr` on. -/
def InRange (ptr size a : UInt64) : Prop := a - ptr < size

instance (ptr size a : UInt64) : Decidable (InRange ptr size a) :=
  inferInstanceAs (Decidable (a - ptr < size))

/-! ## The loop -/

/-- `while (size--) *p++ = 0;` with what is left in `size`. -/
def wipeLoop (mem : Memory) (p size : UInt64) : Memory × UInt64 :=
  if size = 0 then (mem, size - 1)
  else wipeLoop (Function.update mem p 0) (p + 1) (size - 1)
termination_by size.toNat
decreasing_by
  rename_i hsize
  have hpos : size.toNat ≠ 0 := fun h => hsize (UInt64.toNat_inj.mp h)
  have hlt := size.toNat_lt
  rw [UInt64.toNat_sub]
  simp only [UInt64.toNat_one]
  omega

/-- `SecureWipe`. `cleanse` is `OPENSSL_cleanse` in the builds that define
the macro. -/
def secureWipe (cleanse : Option (Memory → UInt64 → UInt64 → Memory)) (mem : Memory)
    (ptr size : UInt64) : Memory :=
  if ptr = 0 ∨ size = 0 then mem
  else
    let (mem, size) := wipeLoop mem ptr size
    match cleanse with
    | none => mem
    | some cleanse => cleanse mem ptr size

/-- One turn takes the first address off the range. -/
theorem inRange_step {p size : UInt64} (hsize : size ≠ 0) (a : UInt64) :
    InRange p size a ↔ a = p ∨ InRange (p + 1) (size - 1) a := by
  have hpos : size.toNat ≠ 0 := fun h => hsize (UInt64.toNat_inj.mp h)
  have ha := a.toNat_lt
  have hp := p.toNat_lt
  have hs := size.toNat_lt
  simp only [InRange, UInt64.lt_iff_toNat_lt, UInt64.toNat_sub, UInt64.toNat_add,
    UInt64.toNat_one, ← UInt64.toNat_inj]
  omega

theorem inRange_zero (p a : UInt64) : ¬ InRange p 0 a := by
  simp [InRange, UInt64.lt_iff_toNat_lt]

/-- **The loop zeroes the range and nothing else**, and leaves `size`
wrapped. -/
theorem wipeLoop_eq (mem : Memory) (p size : UInt64) :
    wipeLoop mem p size = (fun a => if InRange p size a then 0 else mem a, 0xFFFFFFFFFFFFFFFF) := by
  fun_induction wipeLoop mem p size with
  | case1 mem p =>
      refine Prod.ext ?_ rfl
      funext a
      show mem a = if InRange p 0 a then 0 else mem a
      rw [if_neg (inRange_zero p a)]
  | case2 mem p size hsize ih =>
      rw [ih]
      refine Prod.ext ?_ rfl
      funext a
      simp only [inRange_step hsize]
      by_cases ha : a = p
      · simp [ha]
      · simp [ha]

/-! ## Every build -/

/-- `OPENSSL_cleanse(p, n)` zeroes exactly `n` bytes from `p` on. -/
def Cleanses (cleanse : Memory → UInt64 → UInt64 → Memory) : Prop :=
  ∀ mem p n a, cleanse mem p n a = if InRange p n a then 0 else mem a

/-- The bytes of the range are zero afterwards and the others are as
before. -/
def WipesExactly (mem mem' : Memory) (ptr size : UInt64) : Prop :=
  ∀ a, mem' a = if InRange ptr size a then 0 else mem a

theorem secureWipe_zero (cleanse : Option (Memory → UInt64 → UInt64 → Memory)) (mem : Memory)
    (ptr : UInt64) : secureWipe cleanse mem ptr 0 = mem :=
  if_pos (.inr rfl)

/-- Without the macro the loop is all there is. -/
theorem secureWipe_none {ptr : UInt64} (hptr : ptr ≠ 0) (mem : Memory) (size : UInt64) :
    WipesExactly mem (secureWipe none mem ptr size) ptr size := by
  intro a
  by_cases hsize : size = 0
  · rw [hsize, secureWipe_zero, if_neg (inRange_zero ptr a)]
  · rw [secureWipe, if_neg (not_or.mpr ⟨hptr, hsize⟩), wipeLoop_eq]

/-- The wrapped count leaves out the byte before the first. -/
theorem inRange_wrapped (ptr a : UInt64) :
    InRange ptr 0xFFFFFFFFFFFFFFFF a ↔ a ≠ ptr - 1 := by
  have ha := a.toNat_lt
  have hp := ptr.toNat_lt
  have hmax : (0xFFFFFFFFFFFFFFFF : UInt64).toNat = 2 ^ 64 - 1 := rfl
  simp only [InRange, UInt64.lt_iff_toNat_lt, UInt64.toNat_sub, UInt64.toNat_one, hmax, ne_eq,
    ← UInt64.toNat_inj]
  omega

/-- With the macro everything but that byte is zeroed. -/
theorem secureWipe_some {cleanse : Memory → UInt64 → UInt64 → Memory} (hcleanse : Cleanses cleanse)
    {ptr size : UInt64} (hptr : ptr ≠ 0) (hsize : size ≠ 0) (mem : Memory) (a : UInt64) :
    secureWipe (some cleanse) mem ptr size a =
      if a ≠ ptr - 1 ∨ InRange ptr size a then 0 else mem a := by
  rw [secureWipe, if_neg (not_or.mpr ⟨hptr, hsize⟩), wipeLoop_eq]
  show cleanse _ ptr 0xFFFFFFFFFFFFFFFF a = _
  rw [hcleanse]
  simp only [inRange_wrapped]
  by_cases ha : a = ptr - 1
  · simp [ha]
  · simp [ha]

/-- **When `SecureWipe` wipes exactly its range**: in the builds without
the macro; and in the others only if there is nothing to wipe or nothing
to lose, every byte outside being zero before, except perhaps the one in
front. -/
theorem secureWipe_exact_iff (cleanse : Option (Memory → UInt64 → UInt64 → Memory))
    (hcleanse : ∀ f, cleanse = some f → Cleanses f) (mem : Memory) {ptr : UInt64}
    (hptr : ptr ≠ 0) (size : UInt64) :
    WipesExactly mem (secureWipe cleanse mem ptr size) ptr size ↔
      cleanse = none ∨ size = 0 ∨
        ∀ a, ¬ InRange ptr size a → a ≠ ptr - 1 → mem a = 0 := by
  cases cleanse with
  | none => exact ⟨fun _ => .inl rfl, fun _ => secureWipe_none hptr mem size⟩
  | some f =>
      have hf := hcleanse f rfl
      by_cases hsize : size = 0
      · refine ⟨fun _ => .inr (.inl hsize), fun _ a => ?_⟩
        rw [hsize, secureWipe_zero, if_neg (inRange_zero ptr a)]
      · simp only [reduceCtorEq, hsize, false_or]
        constructor
        · intro h a hout hne
          have ha := h a
          rwa [secureWipe_some hf hptr hsize, if_pos (.inl hne), if_neg hout, eq_comm] at ha
        · intro h a
          rw [secureWipe_some hf hptr hsize]
          by_cases hin : InRange ptr size a
          · rw [if_pos (.inr hin), if_pos hin]
          · rw [if_neg hin]
            by_cases hne : a ≠ ptr - 1
            · rw [if_pos (.inl hne), h a hin hne]
            · rw [if_neg (not_or.mpr ⟨hne, hin⟩)]

/-- The behaviour `OPENSSL_cleanse` is taken to have. -/
def cleanseRange (mem : Memory) (p n : UInt64) : Memory :=
  fun a => if InRange p n a then 0 else mem a

theorem cleanseRange_cleanses : Cleanses cleanseRange := fun _ _ _ _ => rfl

/-- Wiping one byte in a memory of ones, with the macro: the next byte is
gone as well. -/
theorem secureWipe_not_exact :
    let mem : Memory := fun _ => 1
    secureWipe (some cleanseRange) mem 0x1000 1 0x1001 = 0 ∧
      ¬ WipesExactly mem (secureWipe (some cleanseRange) mem 0x1000 1) 0x1000 1 := by
  intro mem
  have hnext : secureWipe (some cleanseRange) mem 0x1000 1 0x1001 = 0 := by
    rw [secureWipe_some cleanseRange_cleanses (by decide) (by decide), if_pos (by decide)]
  refine ⟨hnext, fun h => ?_⟩
  have hkept := h 0x1001
  rw [hnext, if_neg (by decide)] at hkept
  exact absurd hkept (by decide)

/-- The same call in a memory where nothing else is set. -/
theorem secureWipe_exact_iff_alone :
    let mem : Memory := fun a => if a = 0x1000 then 1 else 0
    WipesExactly mem (secureWipe (some cleanseRange) mem 0x1000 1) 0x1000 1 := by
  intro mem
  refine (secureWipe_exact_iff (some cleanseRange) ?_ mem (by decide) 1).mpr (.inr (.inr ?_))
  · rintro f hf
    cases hf
    exact cleanseRange_cleanses
  · intro a hout _
    have hne : a ≠ 0x1000 := by
      rintro rfl
      exact hout (by decide)
    exact if_neg hne

end OpenEnclave.Crypto
