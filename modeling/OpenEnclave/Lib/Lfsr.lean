import Mathlib.Data.List.Basic
import Mathlib.Logic.Function.Iterate
import Mathlib.Tactic.Common

/-!
# Lfsr — shift registers and the errors they tell apart

Two sections, both free of any particular format. The first says where
two words of the same length differ (`DiffersOnlyAt`) and follows that
through concatenation, so an error confined to one field of a record is
an error confined to a range of offsets.

The second is the linear feedback shift register behind a reflected
cyclic redundancy check, at any width and with any taps: message bits
enter at the low end, and the taps are added whenever a one falls out.
The step is linear over exclusive or (`shift_xor`), and it loses nothing
when the top tap is set (`shift_injective`). A block of bits that is no
longer than the register can therefore be added at once
(`iterate_shift_xor`), and two messages that differ inside such a window
leave different registers (`run_ne_of_burst`).
-/

/-! ## Where two words differ -/

namespace Word

variable {α : Type} {S : Nat → Prop} {a b a' b' : List α}

/-- Words of one length that agree at every position outside `S`. -/
def DiffersOnlyAt (S : Nat → Prop) (a a' : List α) : Prop :=
  a'.length = a.length ∧ ∀ i, a'[i]? ≠ a[i]? → S i

/-- Positions past the end do not count. -/
theorem DiffersOnlyAt.mono {T : Nat → Prop} (h : DiffersOnlyAt S a a')
    (hST : ∀ i < a.length, S i → T i) : DiffersOnlyAt T a a' := by
  refine ⟨h.1, fun i hi => ?_⟩
  by_cases hlt : i < a.length
  · exact hST i hlt (h.2 i hi)
  · rw [List.getElem?_eq_none (by rw [h.1]; omega), List.getElem?_eq_none (by omega)] at hi
    exact absurd rfl hi

theorem DiffersOnlyAt.getElem?_eq (h : DiffersOnlyAt S a a') {i : Nat} (hi : ¬ S i) :
    a'[i]? = a[i]? := by
  by_contra hne
  exact hi (h.2 i hne)

theorem DiffersOnlyAt.eq (h : DiffersOnlyAt S a a') (hS : ∀ i < a.length, ¬ S i) : a' = a := by
  apply List.ext_getElem?
  intro i
  by_cases hi : i < a.length
  · exact h.getElem?_eq (hS i hi)
  · rw [List.getElem?_eq_none (by rw [h.1]; omega), List.getElem?_eq_none (by omega)]

/-- Of two concatenations with a common seam, the left parts. -/
theorem DiffersOnlyAt.left (h : DiffersOnlyAt S (a ++ b) (a' ++ b'))
    (hlen : a'.length = a.length) : DiffersOnlyAt S a a' := by
  refine ⟨hlen, fun i hi => h.2 i ?_⟩
  by_cases hlt : i < a.length
  · rwa [List.getElem?_append_left hlt, List.getElem?_append_left (by omega)]
  · rw [List.getElem?_eq_none (by omega), List.getElem?_eq_none (by omega)] at hi
    exact absurd rfl hi

theorem DiffersOnlyAt.right (h : DiffersOnlyAt S (a ++ b) (a' ++ b'))
    (hlen : a'.length = a.length) : DiffersOnlyAt (fun i => S (a.length + i)) b b' := by
  have htotal := h.1
  rw [List.length_append, List.length_append] at htotal
  refine ⟨by omega, fun i hi => h.2 _ ?_⟩
  rwa [List.getElem?_append_right (by omega), List.getElem?_append_right (by omega), hlen,
    Nat.add_sub_cancel_left]

/-- A word that differs from a concatenation, cut at the same seam. -/
theorem DiffersOnlyAt.split {c : List α} (h : DiffersOnlyAt S (a ++ b) c) :
    ∃ a' b', c = a' ++ b' ∧ DiffersOnlyAt S a a' ∧
      DiffersOnlyAt (fun i => S (a.length + i)) b b' := by
  have hlen : (c.take a.length).length = a.length := by
    have htotal := h.1
    rw [List.length_append] at htotal
    rw [List.length_take]
    omega
  have hc : c = c.take a.length ++ c.drop a.length := (List.take_append_drop _ _).symm
  rw [hc] at h
  exact ⟨_, _, hc, h.left hlen, h.right hlen⟩

/-- Words that differ inside one window agree before it and after it. -/
theorem DiffersOnlyAt.window {start width : Nat}
    (h : DiffersOnlyAt (fun i => start ≤ i ∧ i < start + width) a a') :
    a'.take start = a.take start ∧ a'.drop (start + width) = a.drop (start + width) := by
  constructor
  · apply List.ext_getElem?
    intro i
    rw [List.getElem?_take, List.getElem?_take]
    split
    · exact h.getElem?_eq (by omega)
    · rfl
  · apply List.ext_getElem?
    intro i
    rw [List.getElem?_drop, List.getElem?_drop]
    exact h.getElem?_eq (by omega)

end Word

/-! ## The register -/

namespace Lfsr

open Word

variable {w : Nat} (taps : BitVec w)

/-- One step: the register moves towards bit 0, and a one that falls out
adds the taps. -/
def shift (r : BitVec w) : BitVec w := (r >>> 1) ^^^ (if r.getLsbD 0 then taps else 0#w)

/-- One message bit is added at the low end before the step. -/
def feed (r : BitVec w) (bit : Bool) : BitVec w :=
  (r >>> 1) ^^^ (if (r.getLsbD 0 ^^ bit) then taps else 0#w)

/-- The register after a message. -/
def run (r : BitVec w) (bits : List Bool) : BitVec w := bits.foldl (feed taps) r

/-- The `n` low bits of a word, least significant first. -/
def lowBits (n : Nat) (d : BitVec w) : List Bool := (List.range n).map d.getLsbD

@[simp] theorem lowBits_length (n : Nat) (d : BitVec w) : (lowBits n d).length = n := by
  simp [lowBits]

theorem lowBits_getElem? {n i : Nat} (d : BitVec w) (h : i < n) :
    (lowBits n d)[i]? = some (d.getLsbD i) := by
  simp [lowBits, h]

theorem lowBits_succ (n : Nat) (d : BitVec w) :
    lowBits (n + 1) d = d.getLsbD 0 :: lowBits n (d >>> 1) := by
  simp only [lowBits, List.range_succ_eq_map, List.map_cons, List.map_map]
  congr 1
  apply List.map_congr_left
  intro i _
  simp [Nat.add_comm 1 i]

theorem run_cons (r : BitVec w) (bit : Bool) (bits : List Bool) :
    run taps r (bit :: bits) = run taps (feed taps r bit) bits := rfl

theorem run_append (r : BitVec w) (bits bits' : List Bool) :
    run taps r (bits ++ bits') = run taps (run taps r bits) bits' :=
  List.foldl_append

/-! ## Linearity -/

theorem taps_xor (a b : Bool) :
    (if (a ^^ b) then taps else 0#w) =
      (if a then taps else 0#w) ^^^ (if b then taps else 0#w) := by
  cases a <;> cases b <;> simp

theorem shift_xor (r d : BitVec w) : shift taps (r ^^^ d) = shift taps r ^^^ shift taps d := by
  simp only [shift, BitVec.getLsbD_xor, BitVec.ushiftRight_xor_distrib, taps_xor]
  ac_rfl

theorem feed_eq (r : BitVec w) (bit : Bool) :
    feed taps r bit = shift taps r ^^^ (if bit then taps else 0#w) := by
  rw [feed, shift, taps_xor, BitVec.xor_assoc]

/-- A word added before the step is its low bit fed in and the rest of
it added after the step. -/
theorem shift_xor_word (r d : BitVec w) :
    shift taps (r ^^^ d) = feed taps r (d.getLsbD 0) ^^^ (d >>> 1) := by
  rw [shift_xor, feed_eq, shift.eq_1 taps d]
  ac_rfl

/-- **Block addition.** `n` steps from a register with a word added to it
are the word's `n` low bits fed in one by one, with the rest of the word
added at the end. -/
theorem iterate_shift_xor (n : Nat) (r d : BitVec w) :
    (shift taps)^[n] (r ^^^ d) = run taps r (lowBits n d) ^^^ (d >>> n) := by
  induction n generalizing r d with
  | zero => simp [run, lowBits]
  | succ n ih =>
      rw [Function.iterate_succ_apply, shift_xor_word, ih, lowBits_succ, run_cons,
        ← BitVec.shiftRight_add, Nat.add_comm 1 n]

/-! ## Nothing is lost -/

section
variable {taps}

/-- The bit that fell out can be read off the top of the new register. -/
theorem shift_msb (htaps : taps.msb = true) (r : BitVec w) :
    (shift taps r).msb = r.getLsbD 0 := by
  have hshift : (r >>> 1).msb = false := by simp [BitVec.msb_ushiftRight]
  rw [shift, BitVec.msb_xor, hshift, Bool.false_xor]
  split
  · rename_i hlow
    rw [htaps, hlow]
  · rename_i hlow
    rw [BitVec.msb_zero]
    simpa using hlow

theorem shift_injective (htaps : taps.msb = true) : Function.Injective (shift taps) := by
  intro r r' h
  have hlow : r.getLsbD 0 = r'.getLsbD 0 := by
    rw [← shift_msb htaps r, ← shift_msb htaps r', h]
  have hhigh : r >>> 1 = r' >>> 1 := by
    rw [shift, shift, hlow] at h
    exact (BitVec.xor_left_inj _).mp h
  apply BitVec.eq_of_getLsbD_eq
  intro i _
  cases i with
  | zero => exact hlow
  | succ i =>
      have hi := congrArg (BitVec.getLsbD · i) hhigh
      simpa [Nat.add_comm 1 i] using hi

theorem run_injective (htaps : taps.msb = true) (bits : List Bool) :
    Function.Injective (run taps · bits) := by
  induction bits with
  | nil => exact fun r r' h => h
  | cons bit bits ih =>
      intro r r' h
      have hfeed : feed taps r bit = feed taps r' bit := ih h
      rw [feed_eq, feed_eq] at hfeed
      exact shift_injective htaps ((BitVec.xor_left_inj _).mp hfeed)

/-- A bit string as a word of the register's width. -/
def ofBits (bits : List Bool) : BitVec w := (BitVec.ofBoolListLE bits).setWidth w

theorem lowBits_ofBits {bits : List Bool} (hle : bits.length ≤ w) :
    lowBits bits.length (ofBits bits : BitVec w) = bits := by
  apply List.ext_getElem (by simp)
  intro i _ hi
  have hw : i < w := by omega
  have hword : (BitVec.ofBoolListLE bits).getLsbD i = bits[i] := by
    rw [BitVec.getLsbD_ofBoolListLE, List.getD_eq_getElem?_getD, List.getElem?_eq_getElem hi,
      Option.getD_some]
  simpa [lowBits, ofBits, hw] using hword

theorem ofBits_shiftRight (bits : List Bool) :
    (ofBits bits : BitVec w) >>> bits.length = 0#w := by
  apply BitVec.eq_of_getLsbD_eq
  intro i _
  simp [ofBits]

/-- A message no longer than the register can be read back from it. -/
theorem run_injective_bits (htaps : taps.msb = true) (r : BitVec w) {bits bits' : List Bool}
    (hlen : bits'.length = bits.length) (hle : bits.length ≤ w)
    (h : run taps r bits = run taps r bits') : bits = bits' := by
  have hrun : ∀ {l : List Bool}, l.length ≤ w →
      run taps r l = (shift taps)^[l.length] (r ^^^ ofBits l) := by
    intro l hl
    rw [iterate_shift_xor, lowBits_ofBits hl, ofBits_shiftRight, BitVec.xor_zero]
  rw [hrun hle, hrun (by omega), hlen] at h
  have hword := (BitVec.xor_right_inj _).mp ((shift_injective htaps).iterate _ h)
  rw [← lowBits_ofBits hle, hword, ← hlen, lowBits_ofBits (by omega)]

/-- **A burst is detected.** Two different messages that differ only
inside a window no wider than the register leave different registers. -/
theorem run_ne_of_burst (htaps : taps.msb = true) (r : BitVec w) {bits bits' : List Bool}
    {start : Nat} (hne : bits' ≠ bits)
    (hburst : DiffersOnlyAt (fun i => start ≤ i ∧ i < start + w) bits bits') :
    run taps r bits' ≠ run taps r bits := by
  intro h
  obtain ⟨hbefore, hafter⟩ := hburst.window
  -- each message is the part before the window, the window, and the rest
  have hsplit : ∀ l : List Bool,
      l = l.take start ++ ((l.drop start).take w ++ l.drop (start + w)) := by
    intro l
    rw [← List.drop_drop, List.take_append_drop, List.take_append_drop]
  rw [hsplit bits', hsplit bits, hbefore, hafter, run_append, run_append, run_append,
    run_append] at h
  have hwindow := run_injective_bits htaps _
    (by simp only [List.length_take, List.length_drop, hburst.1])
    (by simp only [List.length_take]; omega) (run_injective htaps _ h)
  apply hne
  rw [hsplit bits', hsplit bits, hbefore, hafter, hwindow]

end

end Lfsr
