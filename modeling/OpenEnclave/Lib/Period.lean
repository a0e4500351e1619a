import OpenEnclave.Lib.Lfsr
import Mathlib.Data.Nat.Prime.Basic
import Mathlib.Dynamics.PeriodicPts.Defs
import Mathlib.Tactic.Ring

/-!
# Period — how long a register runs before it repeats itself

Two flipped bits at some distance cancel exactly if that many steps
bring the taps back (`run_modify_modify_eq_iff`), so the double errors a
register misses are a matter of its period.

Periods are too long to be stepped through. The words are added and
multiplied like polynomials modulo the taps, a step being the product
with one fixed word, and `2 * n` steps from the unit are the square of
`n` steps (`power_eq`): any number of steps is evaluated with as many
products as it has binary digits. A period is then certified by its
prime divisors (`minimalPeriod_eq_of_prime_div`).
-/

/-! ## Changing a word at one position -/

namespace Word

variable {α : Type} {f : α → α} {l l' : List α} {i j : Nat}

theorem modify_append_left (h : i < l.length) :
    (l ++ l').modify i f = l.modify i f ++ l' := by
  apply List.ext_getElem?
  grind

theorem modify_append_right {k : Nat} (h : i = l.length + k) :
    (l ++ l').modify i f = l ++ l'.modify k f := by
  apply List.ext_getElem?
  grind

/-- Two changed positions cut a word into what stands before, between
and after them. -/
theorem exists_of_modify_modify (hij : i < j) (hj : j < l.length) :
    ∃ before a between b after, l = before ++ (a :: (between ++ (b :: after))) ∧
      (l.modify i f).modify j f = before ++ (f a :: (between ++ (f b :: after))) ∧
      between.length + 1 = j - i := by
  obtain ⟨before, a, rest, rfl, rfl, hfirst⟩ := List.exists_of_modify f (Nat.lt_trans hij hj)
  obtain ⟨k, rfl⟩ := Nat.exists_eq_add_of_lt hij
  rw [List.length_append, List.length_cons] at hj
  obtain ⟨between, b, after, rfl, rfl, hsecond⟩ :=
    List.exists_of_modify f (show k < rest.length by omega)
  refine ⟨before, a, between, b, after, rfl, ?_, by omega⟩
  have hseam : before.length + between.length + 1 = (before ++ [f a]).length + between.length := by
    simp only [List.length_append, List.length_singleton]
    omega
  rw [hfirst, List.append_cons, modify_append_right hseam, hsecond, ← List.append_cons]

end Word

namespace Lfsr

open Word

variable {w : Nat} (taps : BitVec w)

/-! ## Two errors -/

theorem feed_xor (r d : BitVec w) (bit : Bool) :
    feed taps (r ^^^ d) bit = feed taps r bit ^^^ shift taps d := by
  rw [feed_eq, feed_eq, shift_xor]
  ac_rfl

/-- What is added to the register before a message comes out of it
stepped as often as the message has bits. -/
theorem run_xor (r d : BitVec w) (bits : List Bool) :
    run taps (r ^^^ d) bits = run taps r bits ^^^ (shift taps)^[bits.length] d := by
  induction bits generalizing r d with
  | nil => rfl
  | cons bit bits ih =>
      rw [run_cons, feed_xor, ih, run_cons, List.length_cons, Function.iterate_succ_apply]

theorem feed_not (r : BitVec w) (bit : Bool) :
    feed taps r (!bit) = feed taps r bit ^^^ taps := by
  rw [feed_eq, feed_eq]
  cases bit with
  | false => simp
  | true =>
      simp only [Bool.not_true, Bool.false_eq_true, if_false, if_true, BitVec.xor_zero,
        BitVec.xor_assoc, BitVec.xor_self]

theorem xor_xor_eq_self_iff (x y z : BitVec w) : x ^^^ (y ^^^ z) = x ↔ y = z := by
  have hx : x = x ^^^ (z ^^^ z) := by rw [BitVec.xor_self, BitVec.xor_zero]
  constructor
  · intro h
    exact (BitVec.xor_left_inj z).mp ((BitVec.xor_right_inj x).mp (h.trans hx))
  · rintro rfl
    exact hx.symm

variable {taps} in
/-- **Two errors cancel exactly at a period of the taps.** -/
theorem run_modify_modify_eq_iff (htaps : taps.msb = true) (r : BitVec w) {bits : List Bool}
    {i j : Nat} (hij : i < j) (hj : j < bits.length) :
    run taps r ((bits.modify i (!·)).modify j (!·)) = run taps r bits ↔
      (shift taps)^[j - i] taps = taps := by
  obtain ⟨before, a, between, b, after, rfl, hflipped, hlen⟩ :=
    exists_of_modify_modify (f := (!·)) hij hj
  -- what follows the second error loses nothing
  rw [hflipped, run_append, run_cons, run_append, run_cons, run_append, run_cons, run_append,
    run_cons, (run_injective htaps after).eq_iff, feed_not, feed_not, run_xor, feed_xor,
    BitVec.xor_assoc, ← Function.iterate_succ_apply' (shift taps), Nat.succ_eq_add_one, hlen]
  exact xor_xor_eq_self_iff _ _ _

/-! ## Products -/

/-- Add up the multiples of a word that the bits select, from the highest
power of the step down. -/
def scale (d r : BitVec w) (bits : List Bool) : BitVec w :=
  bits.foldl (fun r bit => shift taps r ^^^ (if bit then d else 0#w)) r

/-- The product of two words modulo the taps. -/
def mul (a d : BitVec w) : BitVec w := scale taps d 0#w (lowBits w a)

@[simp] theorem shift_zero : shift taps 0#w = 0#w := by
  simp [shift]

theorem scale_shift (d r : BitVec w) (bits : List Bool) :
    scale taps (shift taps d) (shift taps r) bits = shift taps (scale taps d r bits) := by
  induction bits generalizing r with
  | nil => rfl
  | cons bit bits ih =>
      have hstep : shift taps (shift taps r) ^^^ (if bit then shift taps d else 0#w) =
          shift taps (shift taps r ^^^ (if bit then d else 0#w)) := by
        rw [shift_xor]
        cases bit <;> simp
      rw [scale, List.foldl_cons, hstep, ← scale, ih]
      rfl

theorem mul_iterate (n : Nat) (a d : BitVec w) :
    mul taps a ((shift taps)^[n] d) = (shift taps)^[n] (mul taps a d) := by
  induction n generalizing d with
  | zero => rfl
  | succ n ih =>
      have hone : mul taps a (shift taps d) = shift taps (mul taps a d) := by
        have hscale := scale_shift taps d 0#w (lowBits w a)
        rwa [shift_zero] at hscale
      rw [Function.iterate_succ_apply, ih, hone, Function.iterate_succ_apply]

/-- The taps are what a one becomes after as many steps as the register
is wide. -/
theorem mul_taps (a : BitVec w) : mul taps a taps = (shift taps)^[w] a := by
  have hscale : mul taps a taps = run taps 0#w (lowBits w a) := by
    rw [mul, scale, run]
    congr 1
    funext r bit
    rw [feed_eq]
  have hblock := iterate_shift_xor taps w 0#w a
  rw [BitVec.zero_xor, BitVec.ushiftRight_eq_zero (Nat.le_refl w)] at hblock
  rw [hscale, hblock, BitVec.xor_zero]

section
variable {taps} (htaps : taps.msb = true) {unit : BitVec w} (hunit : (shift taps)^[w] unit = taps)
include htaps hunit

/-- A number of steps is a product. -/
theorem mul_iterate_unit (n : Nat) (a : BitVec w) :
    mul taps a ((shift taps)^[n] unit) = (shift taps)^[n] a := by
  apply (shift_injective htaps).iterate w
  rw [← mul_iterate, ← Function.iterate_add_apply, Nat.add_comm, Function.iterate_add_apply, hunit,
    mul_iterate, mul_taps, ← Function.iterate_add_apply, Nat.add_comm, Function.iterate_add_apply]

end

/-! ## Powers -/

/-- The number that bits denote, the most significant first. -/
def number (bits : List Bool) : Nat := bits.foldl (fun n bit => 2 * n + bit.toNat) 0

/-- The `k` low binary digits of a number, the most significant first. -/
def binary : Nat → Nat → List Bool
  | 0, _ => []
  | k + 1, n => n.testBit k :: binary k n

theorem number_binary {k n : Nat} (hn : n < 2 ^ k) : number (binary k n) = n := by
  have hfrom : ∀ k m, (binary k n).foldl (fun n bit => 2 * n + bit.toNat) m =
      m * 2 ^ k + n % 2 ^ k := by
    intro k
    induction k with
    | zero => intro m; simp [binary, Nat.mod_one]
    | succ k ih =>
        intro m
        rw [binary, List.foldl_cons, ih, Nat.mod_pow_succ, Nat.toNat_testBit, Nat.pow_succ]
        ring
  rw [number, hfrom, Nat.zero_mul, Nat.zero_add, Nat.mod_eq_of_lt hn]

/-- As many steps from `unit` as the bits denote, by repeated squaring. -/
def power (unit : BitVec w) (bits : List Bool) : BitVec w :=
  bits.foldl (fun a bit => if bit then shift taps (mul taps a a) else mul taps a a) unit

variable {taps} in
theorem power_eq (htaps : taps.msb = true) {unit : BitVec w}
    (hunit : (shift taps)^[w] unit = taps) (bits : List Bool) :
    power taps unit bits = (shift taps)^[number bits] unit := by
  have hfrom : ∀ n, bits.foldl
      (fun a bit => if bit then shift taps (mul taps a a) else mul taps a a)
      ((shift taps)^[n] unit) =
      (shift taps)^[bits.foldl (fun n bit => 2 * n + bit.toNat) n] unit := by
    induction bits with
    | nil => exact fun n => rfl
    | cons bit bits ih =>
        intro n
        have hsquare : mul taps ((shift taps)^[n] unit) ((shift taps)^[n] unit) =
            (shift taps)^[2 * n] unit := by
          rw [mul_iterate_unit htaps hunit, ← Function.iterate_add_apply, Nat.two_mul]
        rw [List.foldl_cons, List.foldl_cons, hsquare, ← ih]
        cases bit with
        | false => rfl
        | true => rw [if_pos rfl, ← Function.iterate_succ_apply' (shift taps)]; rfl
  exact hfrom 0

variable {taps} in
/-- **Any number of steps by repeated squaring.** -/
theorem iterate_unit_eq_power (htaps : taps.msb = true) {unit : BitVec w}
    (hunit : (shift taps)^[w] unit = taps) {k n : Nat} (hn : n < 2 ^ k) :
    (shift taps)^[n] unit = power taps unit (binary k n) := by
  rw [power_eq htaps hunit, number_binary hn]

end Lfsr

/-! ## Certifying a period -/

/-- A number of steps that brings a point back is its period if no
quotient by a prime divisor does. -/
theorem minimalPeriod_eq_of_prime_div {α : Type} {f : α → α} {x : α} {n : Nat}
    (hperiod : f^[n] x = x) (hprime : ∀ p, p.Prime → p ∣ n → f^[n / p] x ≠ x) :
    Function.minimalPeriod f x = n := by
  obtain ⟨k, hk⟩ := Function.IsPeriodicPt.minimalPeriod_dvd hperiod
  by_cases hone : k = 1
  · rw [hk, hone, Nat.mul_one]
  · -- a prime divisor of what is left over gives a shorter multiple of the period
    obtain ⟨p, hp, l, rfl⟩ := Nat.exists_prime_and_dvd hone
    have hn : n = p * (Function.minimalPeriod f x * l) := by rw [hk, Nat.mul_left_comm]
    have hdiv : n / p = Function.minimalPeriod f x * l :=
      Nat.div_eq_of_eq_mul_right hp.pos hn
    have hback : Function.IsPeriodicPt f (n / p) x :=
      Function.isPeriodicPt_iff_minimalPeriod_dvd.mpr ⟨l, hdiv⟩
    exact absurd hback (hprime p hp ⟨_, hn⟩)
