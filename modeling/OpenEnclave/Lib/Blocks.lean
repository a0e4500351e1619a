import Mathlib.Data.List.Pairwise
import Mathlib.Data.List.Perm.Lattice
import Mathlib.Data.UInt
import Mathlib.Tactic.Common

/-!
# Blocks — the blocks of a 64-bit heap

Memory with the blocks an allocator has given out and not yet taken
back. Where a new block goes is the allocator's business; all that is
asked of it is `Fresh`. Giving a block back needs a block that starts at
the pointer, and `free` fails without one, so a run that does not fail
has freed no block twice.

`Sound` is the invariant of any such heap: the live blocks lie apart,
and they and the freed ones together are the allocated ones, each once.
-/

namespace Blocks

structure Block where
  start : UInt64
  size : UInt64
deriving DecidableEq

namespace Block

/-- The first address behind the block. -/
def stop (b : Block) : Nat := b.start.toNat + b.size.toNat

/-- `a` is an address of the block. -/
def Has (b : Block) (a : UInt64) : Prop := a - b.start < b.size

/-- The block is not at null and does not wrap around. -/
def Fits (b : Block) : Prop := b.start ≠ 0 ∧ b.stop ≤ 2 ^ 64

/-- Two blocks start at different addresses and do not overlap. -/
def Apart (b c : Block) : Prop :=
  b.start ≠ c.start ∧ (b.stop ≤ c.start.toNat ∨ c.stop ≤ b.start.toNat)

instance (b : Block) (a : UInt64) : Decidable (b.Has a) :=
  inferInstanceAs (Decidable (a - b.start < b.size))

instance (b : Block) : Decidable b.Fits :=
  inferInstanceAs (Decidable (b.start ≠ 0 ∧ b.stop ≤ 2 ^ 64))

instance (b c : Block) : Decidable (b.Apart c) :=
  inferInstanceAs (Decidable (b.start ≠ c.start ∧
    (b.stop ≤ c.start.toNat ∨ c.stop ≤ b.start.toNat)))

instance : Std.Symm Apart := ⟨fun _ _ h => ⟨h.1.symm, h.2.symm⟩⟩

theorem has_iff {b : Block} (h : b.Fits) (a : UInt64) :
    b.Has a ↔ b.start.toNat ≤ a.toNat ∧ a.toNat < b.stop := by
  have hstop := h.2
  have ha := a.toNat_lt
  have hs := b.start.toNat_lt
  rw [Has, UInt64.lt_iff_toNat_lt, UInt64.toNat_sub]
  simp only [stop] at hstop ⊢
  omega

/-- Blocks that lie apart have no address in common. -/
theorem Apart.not_has {b c : Block} (h : b.Apart c) (hb : b.Fits) (hc : c.Fits) {a : UInt64}
    (ha : b.Has a) : ¬ c.Has a := by
  rw [has_iff hb] at ha
  rw [has_iff hc]
  have := h.2
  omega

/-- The addresses of a block by their offsets. -/
theorem has_add {b : Block} {i : Nat} (hi : i < b.size.toNat) :
    b.Has (b.start + UInt64.ofNat i) := by
  have hs := b.start.toNat_lt
  have hz := b.size.toNat_lt
  rw [Has, UInt64.lt_iff_toNat_lt, UInt64.toNat_sub, UInt64.toNat_add, UInt64.toNat_ofNat']
  omega

end Block

/-- Memory, the blocks given out, and the record of what was allocated
and, with the memory at that moment, freed. -/
structure Heap where
  mem : UInt64 → UInt8
  live : List Block
  allocated : List Block
  freed : List (Block × (UInt64 → UInt8))

namespace Heap

/-- What an allocator may return: a block that lies apart from all live
ones. -/
def Fresh (h : Heap) (b : Block) : Prop := b.Fits ∧ ∀ c ∈ h.live, b.Apart c

instance (h : Heap) (b : Block) : Decidable (h.Fresh b) :=
  inferInstanceAs (Decidable (b.Fits ∧ ∀ c ∈ h.live, b.Apart c))

/-- A block is given out with what happens to be in it. -/
def alloc (h : Heap) (b : Block) : Heap :=
  { h with live := b :: h.live, allocated := b :: h.allocated }

/-- The block that starts at `p` is taken back. -/
def free (h : Heap) (p : UInt64) : Option Heap :=
  (h.live.find? fun b => b.start = p).map fun b =>
    { h with live := h.live.erase b, freed := (b, h.mem) :: h.freed }

def init (mem : UInt64 → UInt8) : Heap := ⟨mem, [], [], []⟩

/-- The live blocks lie apart, and the ledger is balanced. -/
structure Sound (h : Heap) : Prop where
  fits : ∀ b ∈ h.live, b.Fits
  apart : h.live.Pairwise Block.Apart
  ledger : h.allocated.Perm (h.live ++ h.freed.map Prod.fst)

theorem sound_init (mem : UInt64 → UInt8) : (init mem).Sound :=
  ⟨fun _ hb => absurd hb List.not_mem_nil, .nil, .nil⟩

section
variable {h h' : Heap} {b c : Block} {p : UInt64}

theorem Sound.withMem (hs : h.Sound) (mem : UInt64 → UInt8) : { h with mem := mem }.Sound :=
  ⟨hs.fits, hs.apart, hs.ledger⟩

theorem Sound.alloc (hs : h.Sound) (hb : h.Fresh b) : (h.alloc b).Sound := by
  refine ⟨?_, .cons hb.2 hs.apart, hs.ledger.cons b⟩
  intro c hc
  rcases List.mem_cons.mp hc with rfl | hc
  · exact hb.1
  · exact hs.fits c hc

/-- Live blocks are known by where they start. -/
theorem Sound.eq_of_start (hs : h.Sound) (hb : b ∈ h.live) (hc : c ∈ h.live)
    (hstart : b.start = c.start) : b = c := by
  by_contra hne
  exact (hs.apart.forall hb hc hne).1 hstart

theorem Sound.not_has (hs : h.Sound) (hb : b ∈ h.live) (hc : c ∈ h.live) (hne : b ≠ c)
    {a : UInt64} (ha : b.Has a) : ¬ c.Has a :=
  (hs.apart.forall hb hc hne).not_has (hs.fits b hb) (hs.fits c hc) ha

theorem Sound.nodup (hs : h.Sound) : h.live.Nodup :=
  hs.apart.imp fun hx heq => hx.1 (congrArg Block.start heq)

/-- A pointer to a live block can be freed. -/
theorem Sound.free_eq (hs : h.Sound) (hb : b ∈ h.live) (hp : b.start = p) :
    h.free p = some { h with live := h.live.erase b, freed := (b, h.mem) :: h.freed } := by
  have hfind : h.live.find? (fun c => c.start = p) = some b := by
    cases hf : h.live.find? (fun c => c.start = p) with
    | none =>
        have hnone := List.find?_eq_none.mp hf b hb
        simp [hp] at hnone
    | some c =>
        have hc := List.mem_of_find?_eq_some hf
        have hstart : c.start = p := by simpa using List.find?_some hf
        rw [hs.eq_of_start hc hb (hstart.trans hp.symm)]
  rw [free, hfind, Option.map_some]

theorem Sound.free (hs : h.Sound) (hfree : h.free p = some h') : h'.Sound := by
  obtain ⟨b, hfind, rfl⟩ := Option.map_eq_some_iff.mp hfree
  have hb := List.mem_of_find?_eq_some hfind
  refine ⟨fun c hc => hs.fits c (List.mem_of_mem_erase hc),
    hs.apart.sublist List.erase_sublist, ?_⟩
  -- the block moves from one side of the ledger to the other
  have hmove : (h.live ++ h.freed.map Prod.fst).Perm
      (h.live.erase b ++ b :: h.freed.map Prod.fst) :=
    ((List.perm_cons_erase hb).append_right _).trans List.perm_middle.symm
  exact hs.ledger.trans hmove

end

end Heap

end Blocks
