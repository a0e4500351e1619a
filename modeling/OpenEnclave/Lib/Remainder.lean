import OpenEnclave.Lib.Lfsr
import Mathlib.Algebra.CharP.Two
import Mathlib.Algebra.Field.ZMod
import Mathlib.Algebra.Polynomial.Div
import Mathlib.Algebra.Polynomial.Monic
import Mathlib.Data.ZMod.Basic
import Mathlib.Tactic.LinearCombination

/-!
# Remainder — the register as a division of polynomials

Bits are read as a polynomial over the field of two elements, the first
bit in the highest degree (`poly`). A register holds its polynomial
reflected: bit 0 is the coefficient of the highest degree. One step then
multiplies by `X`, adds the message bit in degree `w`, and subtracts the
modulus `X ^ w + taps` if there is something in that degree
(`X_mul_poly_feed`), which is a step of long division. A run leaves the
remainder (`poly_run`).
-/

namespace Lfsr

open Polynomial

variable {w : Nat} (taps : BitVec w)

/-! ## Bits as coefficients -/

/-- A bit as a constant. -/
noncomputable def bit (b : Bool) : (ZMod 2)[X] := if b then 1 else 0

@[simp] theorem bit_false : bit false = 0 := rfl

@[simp] theorem bit_true : bit true = 1 := rfl

theorem bit_xor (a b : Bool) : bit (a ^^ b) = bit a + bit b := by
  cases a <;> cases b <;> simp [CharTwo.add_self_eq_zero]

theorem bit_eq_C (b : Bool) : bit b = C (if b then 1 else 0) := by
  cases b <;> simp

/-- The polynomial of a bit string, the first bit in the highest degree. -/
noncomputable def poly : List Bool → (ZMod 2)[X]
  | [] => 0
  | b :: bits => bit b * X ^ bits.length + poly bits

theorem poly_append (bits bits' : List Bool) :
    poly (bits ++ bits') = X ^ bits'.length * poly bits + poly bits' := by
  induction bits with
  | nil => simp [poly]
  | cons b bits ih =>
      rw [List.cons_append, poly, ih, poly, List.length_append, pow_add]
      ring

theorem poly_replicate_true (n : Nat) :
    poly (List.replicate n true) = ∑ i ∈ Finset.range n, X ^ i := by
  induction n with
  | zero => rfl
  | succ n ih =>
      rw [List.replicate_succ, poly, ih, List.length_replicate, bit_true, one_mul,
        Finset.sum_range_succ, add_comm]

theorem degree_poly_lt (bits : List Bool) : (poly bits).degree < bits.length := by
  induction bits with
  | nil => simp [poly]
  | cons b bits ih =>
      have hfirst : (bit b * X ^ bits.length).degree ≤ (bits.length : WithBot Nat) := by
        rw [bit_eq_C]
        exact degree_C_mul_X_pow_le _ _
      have hlt : (bits.length : WithBot Nat) < (b :: bits).length := by
        exact_mod_cast Nat.lt_succ_self _
      exact (degree_add_le _ _).trans_lt
        (max_lt (hfirst.trans_lt hlt) (ih.trans hlt))

/-- The coefficient in degree `k` is the bit that many places before the
last. -/
theorem coeff_poly (bits : List Bool) (k : Nat) :
    (poly bits).coeff k = if bits.reverse[k]? = some true then 1 else 0 := by
  induction bits with
  | nil => simp [poly]
  | cons b bits ih =>
      rw [poly, coeff_add, ih, bit_eq_C, coeff_C_mul_X_pow, List.reverse_cons]
      by_cases hk : k = bits.length
      · subst hk
        cases b <;> simp
      · by_cases hlt : k < bits.length
        · rw [if_neg hk, zero_add, List.getElem?_append_left (by simpa using hlt)]
        · rw [if_neg hk, zero_add, List.getElem?_eq_none (by simpa using hlt),
            List.getElem?_eq_none (by simp; omega)]

/-! ## Words -/

/-- The polynomial of a register, bit 0 in the highest degree. -/
noncomputable def wordPoly (r : BitVec w) : (ZMod 2)[X] := poly (lowBits w r)

theorem degree_wordPoly_lt (r : BitVec w) : (wordPoly r).degree < w := by
  have hdegree := degree_poly_lt (lowBits w r)
  rwa [lowBits_length] at hdegree

theorem poly_lowBits_xor (n : Nat) (r s : BitVec w) :
    poly (lowBits n (r ^^^ s)) = poly (lowBits n r) + poly (lowBits n s) := by
  induction n generalizing r s with
  | zero => simp [lowBits, poly]
  | succ n ih =>
      rw [lowBits_succ, lowBits_succ, lowBits_succ, poly, poly, poly,
        BitVec.ushiftRight_xor_distrib, ih, BitVec.getLsbD_xor, bit_xor]
      simp only [lowBits_length]
      ring

theorem wordPoly_zero : wordPoly 0#w = 0 := by
  have hself := poly_lowBits_xor w 0#w 0#w
  rw [BitVec.xor_self] at hself
  exact left_eq_add.mp hself

/-- A register moved towards bit 0 is multiplied by `X`, up to what falls
out. -/
theorem X_mul_wordPoly (r : BitVec w) :
    X * wordPoly r = bit (r.getLsbD 0) * X ^ w + wordPoly (r >>> 1) := by
  have hcons : poly (lowBits (w + 1) r) = bit (r.getLsbD 0) * X ^ w + wordPoly (r >>> 1) := by
    rw [lowBits_succ, poly, lowBits_length, wordPoly]
  have hsnoc : lowBits (w + 1) r = lowBits w r ++ [false] := by
    rw [lowBits, List.range_succ, List.map_append, List.map_singleton,
      BitVec.getLsbD_of_ge r w (Nat.le_refl w), lowBits]
  rw [← hcons, hsnoc, poly_append]
  simp [poly, wordPoly]

/-! ## Division -/

/-- What the register divides by. -/
noncomputable def modulus : (ZMod 2)[X] := X ^ w + wordPoly taps

theorem modulus_monic : (modulus taps).Monic := monic_X_pow_add (degree_wordPoly_lt taps)

theorem degree_modulus : (modulus taps).degree = w := by
  have hlow : (wordPoly taps).degree < (X ^ w : (ZMod 2)[X]).degree := by
    rw [degree_X_pow]
    exact degree_wordPoly_lt taps
  rw [modulus, degree_add_eq_left_of_degree_lt hlow, degree_X_pow]

/-- One step of long division. -/
theorem X_mul_poly_feed (r : BitVec w) (b : Bool) :
    X * wordPoly r + bit b * X ^ w =
      bit (r.getLsbD 0 ^^ b) * modulus taps + wordPoly (feed taps r b) := by
  have hfeed : wordPoly (feed taps r b) =
      wordPoly (r >>> 1) + bit (r.getLsbD 0 ^^ b) * wordPoly taps := by
    rw [feed, wordPoly, poly_lowBits_xor]
    congr 1
    cases r.getLsbD 0 ^^ b with
    | false => simpa [wordPoly] using wordPoly_zero (w := w)
    | true => simp [wordPoly]
  have hdouble := CharTwo.add_self_eq_zero (bit (r.getLsbD 0 ^^ b) * wordPoly taps)
  rw [X_mul_wordPoly, hfeed, modulus, bit_xor]
  rw [bit_xor] at hdouble
  linear_combination -hdouble

/-- A run agrees with the message, modulo the modulus. -/
theorem modulus_dvd_run (r : BitVec w) (bits : List Bool) :
    modulus taps ∣
      X ^ bits.length * wordPoly r + X ^ w * poly bits - wordPoly (run taps r bits) := by
  induction bits generalizing r with
  | nil => simp [run, poly]
  | cons b bits ih =>
      obtain ⟨q, hq⟩ := ih (feed taps r b)
      have hstep := X_mul_poly_feed taps r b
      refine ⟨q + X ^ bits.length * bit (r.getLsbD 0 ^^ b), ?_⟩
      rw [run_cons, poly, List.length_cons, pow_succ]
      linear_combination hq + X ^ bits.length * hstep

/-- **A run leaves the remainder** of the message, shifted up by the width
of the register, with the first register content added in front. -/
theorem poly_run (r : BitVec w) (bits : List Bool) :
    wordPoly (run taps r bits) =
      (X ^ w * poly bits + X ^ bits.length * wordPoly r) %ₘ modulus taps := by
  have hsmall : wordPoly (run taps r bits) %ₘ modulus taps = wordPoly (run taps r bits) := by
    rw [modByMonic_eq_self_iff (modulus_monic taps), degree_modulus]
    exact degree_wordPoly_lt _
  rw [← hsmall, add_comm]
  exact (modByMonic_eq_of_dvd_sub (modulus_monic taps) (modulus_dvd_run taps r bits)).symm

/-! ## Back to words -/

/-- The word of a polynomial: bit `i` is the coefficient in degree `i`. -/
noncomputable def ofPoly (w : Nat) (p : (ZMod 2)[X]) : BitVec w :=
  ofBits ((List.range w).map fun i => decide (p.coeff i = 1))

theorem getLsbD_ofPoly {i : Nat} (p : (ZMod 2)[X]) (hi : i < w) :
    (ofPoly w p).getLsbD i = decide (p.coeff i = 1) := by
  have hlen : ((List.range w).map fun i => decide (p.coeff i = 1)).length ≤ w := by simp
  have hat := congrArg (·[i]?) (lowBits_ofBits hlen)
  simp only [List.length_map, List.length_range, lowBits_getElem? _ hi, List.getElem?_map,
    List.getElem?_range hi, Option.map_some, Option.some.injEq] at hat
  exact hat

/-- Read in the usual order, the register stands reversed. -/
theorem ofPoly_wordPoly (r : BitVec w) : (ofPoly w (wordPoly r)).reverse = r := by
  apply BitVec.eq_of_getLsbD_eq
  intro i hi
  have hplace : w - 1 - (w - 1 - i) = i := by omega
  have hbit : (lowBits w r).reverse[w - 1 - i]? = some (r.getLsbD i) := by
    rw [List.getElem?_reverse (by rw [lowBits_length]; omega), lowBits_length, hplace,
      lowBits_getElem? _ hi]
  rw [BitVec.getLsbD_reverse, BitVec.getMsbD_eq_getLsbD, getLsbD_ofPoly _ (by omega), wordPoly,
    coeff_poly, hbit]
  cases r.getLsbD i <;> simp [hi]

end Lfsr
