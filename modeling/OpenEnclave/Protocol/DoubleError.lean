import OpenEnclave.Lib.Period
import OpenEnclave.Protocol.Corruption
import Mathlib.Tactic.NormNum.Prime

/-!
# DoubleError — two flipped bits, however far apart

The register of the checksum has the longest period a 32-bit register
can have, `2 ^ 32 - 1` (`crcTaps_period`). Two flipped bits cancel only at a
multiple of it, so below half a gibibyte of payload there is no pair of
positions that the checksum misses.
-/

namespace OpenEnclave.Protocol

open ByteCodec

/-! ## The period of the register -/

/-- A single one at the top of the register. -/
def crcUnit : BitVec 32 := 0x80000000#32

theorem iterate_crcUnit : (Lfsr.shift crcTaps)^[32] crcUnit = crcTaps := by decide +kernel

theorem iterate_crcUnit_eq_power {n : Nat} (hn : n < 2 ^ 32) :
    (Lfsr.shift crcTaps)^[n] crcUnit = Lfsr.power crcTaps crcUnit (Lfsr.binary 32 n) :=
  Lfsr.iterate_unit_eq_power crcTaps_msb iterate_crcUnit hn

theorem prime_dvd_period {p : Nat} (hp : p.Prime) (h : p ∣ 2 ^ 32 - 1) :
    p = 3 ∨ p = 5 ∨ p = 17 ∨ p = 257 ∨ p = 65537 := by
  have hfactors : 2 ^ 32 - 1 = 3 * (5 * (17 * (257 * 65537))) := by norm_num
  have heq : ∀ {q : Nat}, q.Prime → p ∣ q → p = q := fun hq =>
    (Nat.prime_dvd_prime_iff_eq hp hq).mp
  rw [hfactors, hp.dvd_mul, hp.dvd_mul, hp.dvd_mul, hp.dvd_mul] at h
  rcases h with h | h | h | h | h
  · exact .inl (heq (by norm_num) h)
  · exact .inr (.inl (heq (by norm_num) h))
  · exact .inr (.inr (.inl (heq (by norm_num) h)))
  · exact .inr (.inr (.inr (.inl (heq (by norm_num) h))))
  · exact .inr (.inr (.inr (.inr (heq (by norm_num) h))))

/-- **The register has the longest possible period.** -/
theorem crcTaps_period : Function.minimalPeriod (Lfsr.shift crcTaps) crcUnit = 2 ^ 32 - 1 := by
  apply minimalPeriod_eq_of_prime_div
  · rw [iterate_crcUnit_eq_power (by norm_num)]
    decide +kernel
  · intro p hp hdvd
    rcases prime_dvd_period hp hdvd with rfl | rfl | rfl | rfl | rfl
    all_goals
      rw [iterate_crcUnit_eq_power (by norm_num)]
      decide +kernel

theorem iterate_crcTaps_eq_iff (n : Nat) :
    (Lfsr.shift crcTaps)^[n] crcTaps = crcTaps ↔ 2 ^ 32 - 1 ∣ n := by
  have hcomm : (Lfsr.shift crcTaps)^[32] ((Lfsr.shift crcTaps)^[n] crcUnit) =
      (Lfsr.shift crcTaps)^[n] crcTaps := by
    rw [← Function.iterate_add_apply, Nat.add_comm, Function.iterate_add_apply, iterate_crcUnit]
  have hunit := ((Lfsr.shift_injective crcTaps_msb).iterate 32).eq_iff
    (a := (Lfsr.shift crcTaps)^[n] crcUnit) (b := crcUnit)
  rw [hcomm, iterate_crcUnit] at hunit
  rw [hunit, ← crcTaps_period]
  exact Function.isPeriodicPt_iff_minimalPeriod_dvd

/-! ## Flipped bits -/

/-- The byte string with bit `i` flipped, in the order of `bits`. -/
def flipBit (data : Bytes) (i : Nat) : Bytes :=
  data.modify (i / 8) fun byte => byte ^^^ UInt8.ofNat (2 ^ (i % 8))

theorem lowBits_flip (byte : UInt8) (i : Nat) :
    Lfsr.lowBits 8 (byte ^^^ UInt8.ofNat (2 ^ i)).toBitVec =
      (Lfsr.lowBits 8 byte.toBitVec).modify i (!·) := by
  apply List.ext_getElem?
  intro j
  rw [List.getElem?_modify]
  by_cases hj : j < 8
  · rw [Lfsr.lowBits_getElem? _ hj, Lfsr.lowBits_getElem? _ hj, UInt8.toBitVec_xor,
      BitVec.getLsbD_xor, UInt8.toBitVec_ofNat', BitVec.getLsbD_ofNat, Nat.testBit_two_pow]
    by_cases hij : i = j <;> simp [hij, hj]
  · rw [List.getElem?_eq_none (by simpa using hj), List.getElem?_eq_none (by simpa using hj)]
    simp

/-- Flipping a bit of the byte string flips that bit of the message. -/
theorem bits_flipBit (data : Bytes) (i : Nat) :
    bits (flipBit data i) = (bits data).modify i (!·) := by
  induction data generalizing i with
  | nil => simp [flipBit, bits]
  | cons byte data ih =>
      by_cases hi : i < 8
      · have hzero : i / 8 = 0 := by omega
        rw [flipBit, hzero, Nat.mod_eq_of_lt hi, List.modify_zero_cons, bits_cons,
          lowBits_flip, bits_cons, Word.modify_append_left (by simpa using hi)]
      · obtain ⟨k, rfl⟩ := Nat.exists_eq_add_of_le (Nat.le_of_not_lt hi)
        have hdiv : (8 + k) / 8 = k / 8 + 1 := by omega
        have hmod : (8 + k) % 8 = k % 8 := by omega
        have hrest : flipBit (byte :: data) (8 + k) = byte :: flipBit data k := by
          rw [flipBit, hdiv, hmod, List.modify_succ_cons, flipBit]
        rw [hrest, bits_cons, ih, bits_cons,
          Word.modify_append_right (k := k) (by rw [Lfsr.lowBits_length])]

/-- **The double errors the checksum misses**: those whose distance is a
multiple of the period, and no others. -/
theorem calculateCRC32_flipBit_eq_iff {data : Bytes} {i j : Nat} (hij : i < j)
    (hj : j < 8 * data.length) :
    calculateCRC32 (flipBit (flipBit data i) j) = calculateCRC32 data ↔ 2 ^ 32 - 1 ∣ j - i := by
  rw [calculateCRC32_eq_iff, bits_flipBit, bits_flipBit,
    Lfsr.run_modify_modify_eq_iff crcTaps_msb _ hij (by rwa [bits_length]),
    iterate_crcTaps_eq_iff]

/-- Below half a gibibyte the checksum misses none. -/
theorem calculateCRC32_flipBit_ne {data : Bytes} {i j : Nat} (hdata : 8 * data.length < 2 ^ 32)
    (hij : i < j) (hj : j < 8 * data.length) :
    calculateCRC32 (flipBit (flipBit data i) j) ≠ calculateCRC32 data := by
  intro h
  have hdvd := (calculateCRC32_flipBit_eq_iff hij hj).mp h
  have hle := Nat.le_of_dvd (by omega) hdvd
  omega

/-- The order in which the two bits are flipped does not matter. -/
theorem flipBit_comm (data : Bytes) {i j : Nat} (hij : i ≠ j) :
    flipBit (flipBit data i) j = flipBit (flipBit data j) i := by
  apply bits_injective
  rw [bits_flipBit, bits_flipBit, bits_flipBit, bits_flipBit, List.modify_modify_ne _ _ _ hij]

/-- A header does not validate a payload with two bits flipped. -/
theorem validate_flipBit {h : MessageHeader} {payload : Bytes} {i j : Nat}
    (hv : validate h payload = true) (hpayload : 8 * payload.length < 2 ^ 32) (hij : i ≠ j)
    (hi : i < 8 * payload.length) (hj : j < 8 * payload.length) :
    validate h (flipBit (flipBit payload i) j) = false := by
  rw [Bool.eq_false_iff]
  intro hv'
  obtain ⟨-, -, -, hcrc⟩ := validate_iff.mp hv
  obtain ⟨-, -, -, hcrc'⟩ := validate_iff.mp hv'
  have hsame := hcrc'.trans hcrc.symm
  rcases Nat.lt_or_gt_of_ne hij with hlt | hgt
  · exact calculateCRC32_flipBit_ne hpayload hlt hj hsame
  · rw [flipBit_comm _ hij] at hsame
    exact calculateCRC32_flipBit_ne hpayload hgt hi hsame

end OpenEnclave.Protocol
