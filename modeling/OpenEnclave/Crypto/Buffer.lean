import OpenEnclave.Lib.Blocks
import OpenEnclave.Lib.Family
import OpenEnclave.Crypto.Wipe

/-!
# Buffer — `SecureBuffer` objects and the memory they own

A `SecureBuffer<T>` allocates `size` elements, can be moved from, and
wipes `size_ * sizeof(T)` bytes before its `unique_ptr` frees them. The
allocation checks the product for overflow, the destructor computes it
again without a check, and a move hands over pointer and count in
separate statements. `buffers_owned` says that they stay together: over
any run, every block has one owner that knows its size, and is freed
once, with nothing in it.

`buffers_isolated` is the other half: seen through `Get()`, buffers
behave like values. What one holds changes by writes to it and by
nothing else, also not by what the rest of the program does with memory
it owns.

The builds are those in which `SecureWipe` is its loop. With
`OPENSSL_cleanse` after it, one wipe takes nearly all of memory, and with
it the members of the objects that are still alive.

Elements are of a type without a destructor of its own, as bytes and key
material are: it would run after the wipe.
-/

namespace OpenEnclave.Crypto

open Blocks ByteCodec

/-- The members: the pointer in `buffer_`, null being 0, and `size_`. -/
structure SecureBuffer where
  buffer : UInt64
  size : UInt64
deriving DecidableEq

/-- What a move leaves behind. -/
def SecureBuffer.movedFrom : SecureBuffer := ⟨0, 0⟩

inductive BufferOp (ι : Type) where
  /-- `SecureBuffer(size)`. `operator new[]` returns `start`, or throws. -/
  | construct (this : ι) (size : UInt64) (start : Option UInt64)
  | moveConstruct (this other : ι)
  /-- A byte is written through `Get()`. -/
  | write (this : ι) (i : UInt64) (byte : UInt8)
  | destroy (this : ι)
  /-- Other code writes to memory that no buffer has. -/
  | foreign (a : UInt64) (byte : UInt8)
deriving DecidableEq

inductive BufferFault where
  /-- The program uses an object or memory that is not there, or the
  allocator returns memory that is in use. -/
  | misuse
  /-- `delete[]` of a pointer to no live block. -/
  | invalidFree
deriving DecidableEq

/-- The heap, and the objects that are alive. Their members are not in
the heap's memory: no write goes there. -/
structure Buffers (ι : Type) where
  heap : Heap
  objects : ι → Option SecureBuffer

/-- `new T[size]` throws before it allocates more than this. -/
def maxArrayBytes : Nat := 2 ^ 63 - 1

section
variable {ι : Type} [DecidableEq ι] (width : UInt64)

namespace Buffers

/-- The constructor, with `width` for `sizeof(T)`. An exception leaves no
object. -/
def construct (s : Buffers ι) (this : ι) (size : UInt64) (start : Option UInt64) :
    Except BufferFault (Buffers ι) :=
  if s.objects this ≠ none then .error .misuse
  else if maxArrayBytes < size.toNat * width.toNat then .ok s
  else match start with
    | none => .ok s
    | some p =>
      if s.heap.Fresh ⟨p, size * width⟩ then
        .ok ⟨s.heap.alloc ⟨p, size * width⟩, Function.update s.objects this (some ⟨p, size⟩)⟩
      else .error .misuse

def moveConstruct (s : Buffers ι) (this other : ι) : Except BufferFault (Buffers ι) :=
  match s.objects this, s.objects other with
  | none, some o =>
      -- `std::move(other.buffer_)` leaves a null pointer
      let objects := Function.update s.objects this (some o)
      .ok { s with objects := Function.update objects other (some ⟨0, 0⟩) }
  | _, _ => .error .misuse

def write (s : Buffers ι) (this : ι) (i : UInt64) (byte : UInt8) :
    Except BufferFault (Buffers ι) :=
  match s.objects this with
  | none => .error .misuse
  | some o =>
    if o.buffer ≠ 0 ∧ i < o.size * width then
      .ok { s with heap := { s.heap with mem := Function.update s.heap.mem (o.buffer + i) byte } }
    else .error .misuse

/-- The destructor, in a build without the macro, and that of the
`unique_ptr` after it. -/
def destroy (s : Buffers ι) (this : ι) : Except BufferFault (Buffers ι) :=
  match s.objects this with
  | none => .error .misuse
  | some o =>
    let objects := Function.update s.objects this none
    if o.buffer = 0 then .ok { s with objects }
    else
      let mem := secureWipe none s.heap.mem o.buffer (o.size * width)
      match { s.heap with mem }.free o.buffer with
      | none => .error .invalidFree
      | some heap => .ok { heap, objects }

def foreign (s : Buffers ι) (a : UInt64) (byte : UInt8) : Except BufferFault (Buffers ι) :=
  if ∀ b ∈ s.heap.live, ¬ b.Has a then
    .ok { s with heap := { s.heap with mem := Function.update s.heap.mem a byte } }
  else .error .misuse

def step (s : Buffers ι) : BufferOp ι → Except BufferFault (Buffers ι)
  | .construct this size start => s.construct width this size start
  | .moveConstruct this other => s.moveConstruct this other
  | .write this i byte => s.write width this i byte
  | .destroy this => s.destroy width this
  | .foreign a byte => s.foreign a byte

/-- No object is alive, and the memory is what it is. -/
def init (mem : Memory) : Buffers ι := ⟨.init mem, fun _ => none⟩

def run (s : Buffers ι) (ops : List (BufferOp ι)) : Except BufferFault (Buffers ι) :=
  ops.foldlM (step width) s

end Buffers

/-! ## What the operations come to -/

/-- Objects and heap before and after an operation. -/
inductive BufferEffect (s : Buffers ι) : BufferOp ι → Buffers ι → Prop where
  | threw {this : ι} {size : UInt64} {start : Option UInt64} (hthis : s.objects this = none) :
      BufferEffect s (.construct this size start) s
  | constructed {this : ι} {size p : UInt64} (hthis : s.objects this = none)
      (hsize : size.toNat * width.toNat ≤ maxArrayBytes)
      (hfresh : s.heap.Fresh ⟨p, size * width⟩) :
      BufferEffect s (.construct this size (some p))
        ⟨s.heap.alloc ⟨p, size * width⟩, Function.update s.objects this (some ⟨p, size⟩)⟩
  | moved {this other : ι} {o : SecureBuffer} (hthis : s.objects this = none)
      (hother : s.objects other = some o) :
      BufferEffect s (.moveConstruct this other)
        ⟨s.heap, Function.update (Function.update s.objects this (some o)) other
          (some .movedFrom)⟩
  | wrote {this : ι} {i : UInt64} {byte : UInt8} {o : SecureBuffer}
      (ho : s.objects this = some o) (hbuffer : o.buffer ≠ 0) (hi : i < o.size * width) :
      BufferEffect s (.write this i byte)
        ⟨{ s.heap with mem := Function.update s.heap.mem (o.buffer + i) byte }, s.objects⟩
  | released {this : ι} {o : SecureBuffer} (ho : s.objects this = some o)
      (hbuffer : o.buffer = 0) :
      BufferEffect s (.destroy this) ⟨s.heap, Function.update s.objects this none⟩
  | destroyed {this : ι} {o : SecureBuffer} {heap : Heap} (ho : s.objects this = some o)
      (hbuffer : o.buffer ≠ 0)
      (hfree : { s.heap with
        mem := secureWipe none s.heap.mem o.buffer (o.size * width) }.free o.buffer =
          some heap) :
      BufferEffect s (.destroy this) ⟨heap, Function.update s.objects this none⟩
  | foreign {a : UInt64} {byte : UInt8} (ha : ∀ b ∈ s.heap.live, ¬ b.Has a) :
      BufferEffect s (.foreign a byte)
        ⟨{ s.heap with mem := Function.update s.heap.mem a byte }, s.objects⟩

theorem bufferEffect_of_step {s s' : Buffers ι} {op : BufferOp ι}
    (h : s.step width op = .ok s') : BufferEffect width s op s' := by
  cases op with
  | construct this size start =>
      unfold Buffers.step Buffers.construct at h
      simp only at h
      split at h
      · cases h
      · rename_i hthis
        have hthis := not_not.mp hthis
        split at h
        · cases h
          exact .threw hthis
        · rename_i hsize
          cases start with
          | none =>
              cases h
              exact .threw hthis
          | some p =>
              simp only at h
              split at h
              · rename_i hfresh
                cases h
                exact .constructed hthis (Nat.le_of_not_lt hsize) hfresh
              · cases h
  | moveConstruct this other =>
      rw [Buffers.step, Buffers.moveConstruct] at h
      split at h
      · rename_i o hthis hother
        cases h
        exact .moved hthis hother
      · cases h
  | write this i byte =>
      rw [Buffers.step, Buffers.write] at h
      split at h
      · cases h
      · rename_i o ho
        split at h
        · rename_i hi
          cases h
          exact .wrote ho hi.1 hi.2
        · cases h
  | destroy this =>
      rw [Buffers.step, Buffers.destroy] at h
      split at h
      · cases h
      · rename_i o ho
        simp only at h
        split at h
        · rename_i hbuffer
          cases h
          exact .released ho hbuffer
        · rename_i hbuffer
          split at h
          · cases h
          · rename_i heap hfree
            cases h
            exact .destroyed ho hbuffer hfree
  | foreign a byte =>
      rw [Buffers.step, Buffers.foreign] at h
      split at h
      · rename_i ha
        cases h
        exact .foreign ha
      · cases h

/-! ## One owner -/

/-- The object points to the block, and its count is the block's size. -/
def SecureBuffer.Owns (o : SecureBuffer) (b : Block) : Prop :=
  o.buffer = b.start ∧ o.size.toNat * width.toNat = b.size.toNat

/-- The destructor's unchecked product is the size of the block. -/
theorem SecureBuffer.Owns.mul_eq {width : UInt64} {o : SecureBuffer} {b : Block}
    (h : o.Owns width b) : o.size * width = b.size := by
  have hb := b.size.toNat_lt
  rw [← UInt64.toNat_inj, UInt64.toNat_mul, h.2, Nat.mod_eq_of_lt hb]

/-- The checked one as well. -/
theorem owns_constructed {width p size : UInt64}
    (hsize : size.toNat * width.toNat ≤ maxArrayBytes) :
    (⟨p, size⟩ : SecureBuffer).Owns width ⟨p, size * width⟩ := by
  refine ⟨rfl, ?_⟩
  have hmax : maxArrayBytes < 2 ^ 64 := by decide
  show size.toNat * width.toNat = (size * width).toNat
  rw [UInt64.toNat_mul, Nat.mod_eq_of_lt (by omega)]

/-- Objects and blocks belong together, one to one, and what was freed
had been wiped. -/
structure Buffers.Owned (s : Buffers ι) : Prop where
  sound : s.heap.Sound
  /-- An object was moved from, or owns a live block. -/
  object : ∀ this o, s.objects this = some o → o = .movedFrom ∨ ∃ b ∈ s.heap.live, o.Owns width b
  /-- A live block has an owner. -/
  owner : ∀ b ∈ s.heap.live, ∃ this o, s.objects this = some o ∧ o.Owns width b
  /-- It has one only. -/
  unique : ∀ b ∈ s.heap.live, ∀ this this' o o', s.objects this = some o →
    s.objects this' = some o' → o.buffer = b.start → o'.buffer = b.start → this = this'
  wiped : ∀ f ∈ s.heap.freed, ∀ a, f.1.Has a → f.2 a = 0

variable {width} {s s' : Buffers ι} {op : BufferOp ι}

namespace Buffers.Owned

omit [DecidableEq ι] in
theorem init (mem : Memory) : (Buffers.init mem : Buffers ι).Owned width where
  sound := Heap.sound_init mem
  object := fun _ _ ho => nomatch ho
  owner := fun _ hb => absurd hb List.not_mem_nil
  unique := fun _ hb => absurd hb List.not_mem_nil
  wiped := fun _ hf => absurd hf List.not_mem_nil

omit [DecidableEq ι] in
/-- Memory may change as it likes. -/
theorem withMem (h : s.Owned width) (mem : Memory) :
    (⟨{ s.heap with mem := mem }, s.objects⟩ : Buffers ι).Owned width :=
  ⟨h.sound.withMem mem, h.object, h.owner, h.unique, h.wiped⟩

omit [DecidableEq ι] in
/-- The block of a live object with a pointer. -/
theorem block (h : s.Owned width) {this : ι} {o : SecureBuffer} (ho : s.objects this = some o)
    (hbuffer : o.buffer ≠ 0) : ∃ b ∈ s.heap.live, o.Owns width b := by
  rcases h.object this o ho with rfl | hb
  · exact absurd rfl hbuffer
  · exact hb

theorem construct (h : s.Owned width) {this : ι} {size p : UInt64}
    (hthis : s.objects this = none) (hsize : size.toNat * width.toNat ≤ maxArrayBytes)
    (hfresh : s.heap.Fresh ⟨p, size * width⟩) :
    (⟨s.heap.alloc ⟨p, size * width⟩,
      Function.update s.objects this (some ⟨p, size⟩)⟩ : Buffers ι).Owned width := by
  -- the objects there were point elsewhere
  have hother : ∀ {x o}, s.objects x = some o → o.buffer ≠ p := by
    intro x o ho
    rcases h.object x o ho with rfl | ⟨b, hb, hstart, -⟩
    · exact hfresh.1.1.symm
    · rw [hstart]
      exact (hfresh.2 b hb).1.symm
  constructor
  · exact h.sound.alloc hfresh
  · intro x o ho
    rcases Family.update_cases ho with ⟨rfl, heq⟩ | ⟨-, ho⟩
    · cases heq
      exact .inr ⟨_, List.mem_cons_self, owns_constructed hsize⟩
    · rcases h.object x o ho with hmoved | ⟨b, hb, howns⟩
      · exact .inl hmoved
      · exact .inr ⟨b, List.mem_cons_of_mem _ hb, howns⟩
  · intro b hb
    rcases List.mem_cons.mp hb with rfl | hb
    · exact ⟨this, _, Function.update_self .., owns_constructed hsize⟩
    · obtain ⟨x, o, ho, howns⟩ := h.owner b hb
      have hx : x ≠ this := by
        rintro rfl
        rw [hthis] at ho
        cases ho
      exact ⟨x, o, (Function.update_of_ne hx ..).trans ho, howns⟩
  · intro b hb x x' o o' ho ho' hstart hstart'
    rcases Family.update_cases ho with ⟨hx, heq⟩ | ⟨-, ho⟩
    · cases heq
      rcases Family.update_cases ho' with ⟨hx', -⟩ | ⟨-, ho'⟩
      · rw [hx, hx']
      · exact absurd (hstart'.trans hstart.symm) (hother ho')
    · rcases Family.update_cases ho' with ⟨-, heq'⟩ | ⟨-, ho'⟩
      · cases heq'
        exact absurd (hstart.trans hstart'.symm) (hother ho)
      · rcases List.mem_cons.mp hb with rfl | hb
        · exact absurd hstart (hother ho)
        · exact h.unique b hb x x' o o' ho ho' hstart hstart'
  · exact h.wiped

/-- The objects after a move. -/
theorem moved_cases {this other x : ι} {o q : SecureBuffer}
    (h : Function.update (Function.update s.objects this (some o)) other (some .movedFrom) x =
      some q) :
    q = .movedFrom ∨ x = this ∧ q = o ∨ x ≠ other ∧ s.objects x = some q := by
  rcases Family.update_cases h with ⟨-, heq⟩ | ⟨hother, h⟩
  · exact .inl (Option.some.inj heq).symm
  · rcases Family.update_cases h with ⟨hx, heq⟩ | ⟨-, h⟩
    · exact .inr (.inl ⟨hx, (Option.some.inj heq).symm⟩)
    · exact .inr (.inr ⟨hother, h⟩)

theorem move (h : s.Owned width) {this other : ι} {o : SecureBuffer}
    (hthis : s.objects this = none) (hother : s.objects other = some o) :
    (⟨s.heap, Function.update (Function.update s.objects this (some o)) other
      (some .movedFrom)⟩ : Buffers ι).Owned width := by
  have hne : this ≠ other := by
    rintro rfl
    rw [hthis] at hother
    cases hother
  constructor
  · exact h.sound
  · intro x q hq
    rcases moved_cases hq with rfl | ⟨-, rfl⟩ | ⟨-, hq⟩
    · exact .inl rfl
    · exact h.object other q hother
    · exact h.object x q hq
  · intro b hb
    obtain ⟨x, q, hq, howns⟩ := h.owner b hb
    by_cases hx : x = other
    · -- the owner is now the new object
      subst hx
      rw [hother] at hq
      cases hq
      exact ⟨this, o, (Function.update_of_ne hne ..).trans (Function.update_self ..), howns⟩
    · have hxt : x ≠ this := by
        rintro rfl
        rw [hthis] at hq
        cases hq
      exact ⟨x, q, (Function.update_of_ne hx ..).trans ((Function.update_of_ne hxt ..).trans hq),
        howns⟩
  · intro b hb x x' q q' hq hq' hstart hstart'
    have hnull : ∀ {r : SecureBuffer}, r.buffer = b.start → r ≠ .movedFrom := by
      rintro r hr rfl
      exact (h.sound.fits b hb).1 hr.symm
    rcases moved_cases hq with hmoved | ⟨hx, rfl⟩ | ⟨hx, hold⟩
    · exact absurd hmoved (hnull hstart)
    · rcases moved_cases hq' with hmoved | ⟨hx', -⟩ | ⟨hx', hold'⟩
      · exact absurd hmoved (hnull hstart')
      · rw [hx, hx']
      · exact absurd (h.unique b hb _ _ _ _ hold' hother hstart' hstart) hx'
    · rcases moved_cases hq' with hmoved | ⟨-, rfl⟩ | ⟨-, hold'⟩
      · exact absurd hmoved (hnull hstart')
      · exact absurd (h.unique b hb _ _ _ _ hold hother hstart hstart') hx
      · exact h.unique b hb x x' q q' hold hold' hstart hstart'
  · exact h.wiped

/-- An object that was moved from goes without a trace. -/
theorem release (h : s.Owned width) {this : ι} {o : SecureBuffer} (ho : s.objects this = some o)
    (hbuffer : o.buffer = 0) :
    (⟨s.heap, Function.update s.objects this none⟩ : Buffers ι).Owned width := by
  have hold : ∀ {x q}, Function.update s.objects this none x = some q → s.objects x = some q := by
    intro x q hq
    rcases Family.update_cases hq with ⟨-, heq⟩ | ⟨-, hq⟩
    · cases heq
    · exact hq
  refine ⟨h.sound, fun x q hq => h.object x q (hold hq), ?_,
    fun b hb x x' q q' hq hq' => h.unique b hb x x' q q' (hold hq) (hold hq'), h.wiped⟩
  intro b hb
  obtain ⟨x, q, hq, howns⟩ := h.owner b hb
  have hx : x ≠ this := by
    rintro rfl
    rw [ho] at hq
    cases hq
    exact (h.sound.fits b hb).1 (howns.1.symm.trans hbuffer)
  exact ⟨x, q, (Function.update_of_ne hx ..).trans hq, howns⟩

omit [DecidableEq ι] in
/-- The heap after the destruction of an owner. -/
theorem free_eq (h : s.Owned width) {o : SecureBuffer} {b : Block} (hb : b ∈ s.heap.live)
    (howns : o.Owns width b) (mem : Memory) :
    { s.heap with mem := mem }.free o.buffer =
      some { s.heap with
        mem := mem, live := s.heap.live.erase b, freed := (b, mem) :: s.heap.freed } :=
  (h.sound.withMem mem).free_eq hb howns.1.symm

theorem destroy (h : s.Owned width) {this : ι} {o : SecureBuffer} {b : Block} {mem : Memory}
    (ho : s.objects this = some o) (hb : b ∈ s.heap.live) (howns : o.Owns width b)
    (hmem : ∀ a, b.Has a → mem a = 0) :
    (⟨{ s.heap with
        mem := mem, live := s.heap.live.erase b, freed := (b, mem) :: s.heap.freed },
      Function.update s.objects this none⟩ : Buffers ι).Owned width := by
  have hold : ∀ {x q}, Function.update s.objects this none x = some q →
      x ≠ this ∧ s.objects x = some q := by
    intro x q hq
    rcases Family.update_cases hq with ⟨-, heq⟩ | ⟨hx, hq⟩
    · cases heq
    · exact ⟨hx, hq⟩
  constructor
  · exact (h.sound.withMem mem).free (h.free_eq hb howns mem)
  · intro x q hq
    obtain ⟨hx, hqold⟩ := hold hq
    rcases h.object x q hqold with hmoved | ⟨c, hc, hqowns⟩
    · exact .inl hmoved
    · -- the block of another object is another block
      have hne : c ≠ b := by
        rintro rfl
        exact hx (h.unique c hc x this q o hqold ho hqowns.1 howns.1)
      exact .inr ⟨c, (List.mem_erase_of_ne hne).mpr hc, hqowns⟩
  · intro c hc
    obtain ⟨hne, hlive⟩ := (h.sound.nodup.mem_erase_iff).mp hc
    obtain ⟨x, q, hq, hqowns⟩ := h.owner c hlive
    have hx : x ≠ this := by
      rintro rfl
      rw [ho] at hq
      cases hq
      exact hne (h.sound.eq_of_start hlive hb (hqowns.1.symm.trans howns.1))
    exact ⟨x, q, (Function.update_of_ne hx ..).trans hq, hqowns⟩
  · intro c hc x x' q q' hq hq'
    exact h.unique c (List.mem_of_mem_erase hc) x x' q q' (hold hq).2 (hold hq').2
  · intro f hf
    rcases List.mem_cons.mp hf with rfl | hf
    · exact hmem
    · exact h.wiped f hf

/-- **One operation keeps it.** -/
theorem step (h : s.Owned width) (heffect : BufferEffect width s op s') : s'.Owned width := by
  cases heffect with
  | threw hthis => exact h
  | constructed hthis hsize hfresh => exact h.construct hthis hsize hfresh
  | moved hthis hother => exact h.move hthis hother
  | wrote ho hbuffer hi => exact h.withMem _
  | released ho hbuffer => exact h.release ho hbuffer
  | destroyed ho hbuffer hfree =>
      obtain ⟨b, hb, howns⟩ := h.block ho hbuffer
      rw [h.free_eq hb howns, Option.some.injEq] at hfree
      subst hfree
      refine h.destroy ho hb howns fun a ha => ?_
      rw [secureWipe_none hbuffer, howns.mul_eq, howns.1]
      exact if_pos ha
  | foreign ha => exact h.withMem _

/-- **No operation frees what is not there.** -/
theorem step_ne_invalidFree (h : s.Owned width) (op : BufferOp ι) :
    s.step width op ≠ .error .invalidFree := by
  cases op with
  | construct this size start =>
      unfold Buffers.step Buffers.construct
      simp only
      split
      · nofun
      · split
        · nofun
        · cases start with
          | none => nofun
          | some p =>
              simp only
              split <;> nofun
  | moveConstruct this other =>
      rw [Buffers.step, Buffers.moveConstruct]
      split <;> nofun
  | write this i byte =>
      rw [Buffers.step, Buffers.write]
      split
      · nofun
      · split <;> nofun
  | destroy this =>
      rw [Buffers.step, Buffers.destroy]
      split
      · nofun
      · rename_i o ho
        simp only
        split
        · nofun
        · rename_i hbuffer
          obtain ⟨b, hb, howns⟩ := h.block ho hbuffer
          rw [h.free_eq hb howns]
          nofun
  | foreign a byte =>
      rw [Buffers.step, Buffers.foreign]
      split <;> nofun

/-- **A run keeps it**, and ends in no invalid free. -/
theorem run (h : s.Owned width) (ops : List (BufferOp ι)) :
    s.run width ops ≠ .error .invalidFree ∧
      ∀ s', s.run width ops = .ok s' → s'.Owned width := by
  induction ops generalizing s with
  | nil =>
      refine ⟨nofun, ?_⟩
      rintro s' hrun
      cases hrun
      exact h
  | cons op ops ih =>
      rw [Buffers.run, List.foldlM_cons]
      cases hstep : s.step width op with
      | error fault =>
          refine ⟨?_, nofun⟩
          rintro heq
          cases heq
          exact h.step_ne_invalidFree op hstep
      | ok s₁ => exact ih (h.step (bufferEffect_of_step width hstep))

end Buffers.Owned

/-- **Every block has one owner, and is freed once and wiped.** Over every
run of constructions (which may throw), moves, writes, destructions and
whatever else the program writes: nothing is freed twice; a live block
belongs to exactly one object, which knows its size; every other object
was moved from; the live blocks and the freed ones are the allocated
ones; the freed ones were all zero; and without objects there are no
blocks. -/
theorem buffers_owned (mem : Memory) (ops : List (BufferOp ι)) :
    (Buffers.init mem).run width ops ≠ .error .invalidFree ∧
    ∀ s, (Buffers.init mem).run width ops = .ok s →
      (∀ b ∈ s.heap.live, ∃! this, ∃ o, s.objects this = some o ∧ o.Owns width b) ∧
      (∀ this o, s.objects this = some o →
        o = .movedFrom ∨ ∃ b ∈ s.heap.live, o.Owns width b) ∧
      s.heap.allocated.Perm (s.heap.live ++ s.heap.freed.map Prod.fst) ∧
      (∀ f ∈ s.heap.freed, ∀ a, f.1.Has a → f.2 a = 0) ∧
      ((∀ this, s.objects this = none) → s.heap.live = []) := by
  obtain ⟨hfree, hrun⟩ := (Buffers.Owned.init mem).run ops
  refine ⟨hfree, fun s hs => ?_⟩
  have h := hrun s hs
  refine ⟨fun b hb => ?_, h.object, h.sound.ledger, h.wiped, fun hnone => ?_⟩
  · obtain ⟨this, o, ho, howns⟩ := h.owner b hb
    refine ⟨this, ⟨o, ho, howns⟩, ?_⟩
    rintro other ⟨o', ho', howns'⟩
    exact h.unique b hb other this o' o ho' ho howns'.1 howns.1
  · rw [List.eq_nil_iff_forall_not_mem]
    intro b hb
    obtain ⟨this, o, ho, -⟩ := h.owner b hb
    rw [hnone] at ho
    cases ho

end

/-- A buffer of four bytes is filled, moved and destroyed. -/
def sampleBufferOps : List (BufferOp Bool) :=
  [.construct false 4 (some 0x1000), .write false 3 0xAB, .moveConstruct true false,
    .destroy false, .foreign 0x2000 1, .destroy true]

/-- It leaves one block of zeros. -/
theorem buffers_owned_moved :
    ∃ s f, (Buffers.init (fun _ => 7)).run 1 sampleBufferOps = .ok s ∧
      s.heap.live = [] ∧ s.heap.freed = [f] ∧ f.1 = ⟨0x1000, 4⟩ ∧ f.2 0x1003 = 0 := by
  have howned := @buffers_owned Bool _ 1 (fun _ => 7) sampleBufferOps
  have hrun : ∃ s, (Buffers.init (fun _ => 7)).run 1 sampleBufferOps = .ok s ∧
      s.heap.live = [] ∧ s.heap.freed.map Prod.fst = [⟨0x1000, 4⟩] := ⟨_, rfl, rfl, rfl⟩
  obtain ⟨s, hs, hlive, hfreed⟩ := hrun
  obtain ⟨f, hf, hblock⟩ := List.map_eq_singleton_iff.mp hfreed
  obtain ⟨-, -, -, hwiped, -⟩ := howned.2 s hs
  refine ⟨s, f, hs, hlive, hf, hblock, hwiped f (by rw [hf]; exact List.mem_singleton_self f) _ ?_⟩
  rw [hblock]
  decide

/-! ## Buffers as values -/

section
variable {ι : Type} (width : UInt64)

/-- What `Get()` and `Size()` give access to, or nothing after a move. -/
def SecureBuffer.value (mem : Memory) (o : SecureBuffer) : Option Bytes :=
  if o.buffer = 0 then none
  else some ((List.range (o.size * width).toNat).map fun i => mem (o.buffer + UInt64.ofNat i))

/-- The buffers that are alive, as values. -/
def Buffers.values (s : Buffers ι) : ι → Option (Option Bytes) :=
  fun this => (s.objects this).map (SecureBuffer.value width s.heap.mem)

variable [DecidableEq ι]

/-- What the operations do to buffers that are values: each has bytes of
its own, and a move takes them along. -/
inductive ValueEffect (v : ι → Option (Option Bytes)) :
    BufferOp ι → (ι → Option (Option Bytes)) → Prop where
  | threw {this : ι} {size : UInt64} {start : Option UInt64} (hthis : v this = none) :
      ValueEffect v (.construct this size start) v
  -- the bytes are there, whatever they are
  | constructed {this : ι} {size : UInt64} {start : Option UInt64} {content : Bytes}
      (hthis : v this = none) (hlen : content.length = size.toNat * width.toNat) :
      ValueEffect v (.construct this size start) (Function.update v this (some (some content)))
  | moved {this other : ι} {x : Option Bytes} (hthis : v this = none) (hother : v other = some x) :
      ValueEffect v (.moveConstruct this other)
        (Function.update (Function.update v this (some x)) other (some none))
  | wrote {this : ι} {i : UInt64} {byte : UInt8} {content : Bytes}
      (hthis : v this = some (some content)) (hi : i.toNat < content.length) :
      ValueEffect v (.write this i byte)
        (Function.update v this (some (some (content.set i.toNat byte))))
  | destroyed {this : ι} {x : Option Bytes} (hthis : v this = some x) :
      ValueEffect v (.destroy this) (Function.update v this none)
  | foreign {a : UInt64} {byte : UInt8} : ValueEffect v (.foreign a byte) v

inductive ValueRun : (ι → Option (Option Bytes)) → List (BufferOp ι) →
    (ι → Option (Option Bytes)) → Prop where
  | nil {v} : ValueRun v [] v
  | cons {v v₁ v₂ op ops} : ValueEffect width v op v₁ → ValueRun v₁ ops v₂ →
      ValueRun v (op :: ops) v₂

variable {width} {s s' : Buffers ι}

omit [DecidableEq ι] in
theorem values_eq_none {this : ι} (h : s.objects this = none) : s.values width this = none := by
  rw [Buffers.values, h, Option.map_none]

/-- The value of an owner is the content of its block. -/
theorem SecureBuffer.Owns.value_eq {o : SecureBuffer} {b : Block} (h : o.Owns width b)
    (hb : b.Fits) (mem : Memory) :
    o.value width mem =
      some ((List.range b.size.toNat).map fun i => mem (b.start + UInt64.ofNat i)) := by
  have hbuffer : o.buffer ≠ 0 := by
    rw [h.1]
    exact hb.1
  rw [value, if_neg hbuffer, h.mul_eq, h.1]

/-- Memory outside the block does not matter. -/
theorem SecureBuffer.Owns.value_congr {o : SecureBuffer} {b : Block} (h : o.Owns width b)
    (hb : b.Fits) {mem mem' : Memory} (hmem : ∀ a, b.Has a → mem' a = mem a) :
    o.value width mem' = o.value width mem := by
  rw [h.value_eq hb, h.value_eq hb, Option.some.injEq]
  apply List.map_congr_left
  intro i hi
  exact hmem _ (Block.has_add (List.mem_range.mp hi))

omit [DecidableEq ι] in
/-- Objects keep their values when no byte of theirs changes. -/
theorem Buffers.Owned.value_congr (h : s.Owned width) {mem : Memory} {this : ι}
    {o : SecureBuffer} (ho : s.objects this = some o)
    (hmem : ∀ b ∈ s.heap.live, o.Owns width b → ∀ a, b.Has a → mem a = s.heap.mem a) :
    o.value width mem = o.value width s.heap.mem := by
  rcases h.object this o ho with rfl | ⟨b, hb, howns⟩
  · rfl
  · exact howns.value_congr (h.sound.fits b hb) (hmem b hb howns)

omit [DecidableEq ι] in
theorem Buffers.Owned.values_congr (h : s.Owned width) {mem : Memory}
    (hmem : ∀ b ∈ s.heap.live, ∀ a, b.Has a → mem a = s.heap.mem a) :
    (⟨{ s.heap with mem := mem }, s.objects⟩ : Buffers ι).values width = s.values width := by
  funext this
  show (s.objects this).map _ = (s.objects this).map _
  cases ho : s.objects this with
  | none => rfl
  | some o =>
      rw [Option.map_some, Option.map_some, h.value_congr ho fun b hb _ => hmem b hb]

theorem values_update (heap : Heap) (objects : ι → Option SecureBuffer) (this : ι)
    (o : Option SecureBuffer) :
    (⟨heap, Function.update objects this o⟩ : Buffers ι).values width =
      Function.update ((⟨heap, objects⟩ : Buffers ι).values width) this
        (o.map (SecureBuffer.value width heap.mem)) :=
  Function.comp_update (Option.map (SecureBuffer.value width heap.mem)) objects this o

/-- A byte in a block is a byte of its content. -/
theorem content_update {b : Block} {i : UInt64} (hi : i < b.size) (mem : Memory) (byte : UInt8) :
    ((List.range b.size.toNat).map fun j =>
        Function.update mem (b.start + i) byte (b.start + UInt64.ofNat j)) =
      ((List.range b.size.toNat).map fun j => mem (b.start + UInt64.ofNat j)).set i.toNat byte := by
  have hlt := UInt64.lt_iff_toNat_lt.mp hi
  apply List.ext_getElem (by simp)
  intro j hj hj'
  have hb := b.size.toNat_lt
  simp only [List.length_map, List.length_range] at hj
  have hiff : b.start + UInt64.ofNat j = b.start + i ↔ i.toNat = j := by
    rw [UInt64.add_right_inj, ← UInt64.toNat_inj, UInt64.toNat_ofNat', Nat.mod_eq_of_lt (by omega),
      eq_comm]
  rw [List.getElem_set, List.getElem_map, List.getElem_map, List.getElem_range]
  by_cases hij : i.toNat = j
  · rw [if_pos hij, hiff.mpr hij, Function.update_self]
  · rw [if_neg hij, Function.update_of_ne fun h => hij (hiff.mp h)]

namespace Buffers.Owned

omit [DecidableEq ι] in
/-- A byte of one object's block is no byte of another's. -/
theorem not_has (h : s.Owned width) {this x : ι} {o q : SecureBuffer} {b c : Block}
    (ho : s.objects this = some o) (hb : b ∈ s.heap.live) (howns : o.Owns width b)
    (hq : s.objects x = some q) (hc : c ∈ s.heap.live) (hqowns : q.Owns width c) (hx : x ≠ this)
    {a : UInt64} (ha : c.Has a) : ¬ b.Has a := by
  have hne : c ≠ b := by
    rintro rfl
    exact hx (h.unique c hc x this q o hq ho hqowns.1 howns.1)
  exact h.sound.not_has hc hb hne ha

/-- Memory that changes only inside one object's block changes that
object's value and no other. -/
theorem values_eq_update (h : s.Owned width) {this : ι} {o : SecureBuffer} {b : Block}
    (ho : s.objects this = some o) (hb : b ∈ s.heap.live) (howns : o.Owns width b)
    {mem : Memory} (hmem : ∀ a, ¬ b.Has a → mem a = s.heap.mem a) :
    (⟨{ s.heap with mem := mem }, s.objects⟩ : Buffers ι).values width =
      Function.update (s.values width) this (some (o.value width mem)) := by
  funext x
  by_cases hx : x = this
  · subst hx
    rw [Function.update_self, Buffers.values, ho, Option.map_some]
  · rw [Function.update_of_ne hx]
    show (s.objects x).map _ = (s.objects x).map _
    cases hq : s.objects x with
    | none => rfl
    | some q =>
        rw [Option.map_some, Option.map_some, h.value_congr hq]
        intro c hc hqowns a ha
        exact hmem a (h.not_has ho hb howns hq hc hqowns hx ha)

/-- **An operation does to the values what it would do to values.** -/
theorem valueEffect (h : s.Owned width) {op : BufferOp ι}
    (heffect : BufferEffect width s op s') :
    ValueEffect width (s.values width) op (s'.values width) := by
  cases heffect with
  | threw hthis => exact .threw (values_eq_none hthis)
  | @constructed this size p hthis hsize hfresh =>
      rw [values_update, Option.map_some,
        (owns_constructed hsize).value_eq (b := ⟨p, size * width⟩) hfresh.1]
      refine .constructed (values_eq_none hthis) ?_
      rw [List.length_map, List.length_range]
      exact (owns_constructed hsize).2.symm
  | @moved this other o hthis hother =>
      rw [values_update, values_update, Option.map_some, Option.map_some]
      refine .moved (values_eq_none hthis) ?_
      rw [Buffers.values, hother, Option.map_some]
  | @wrote this i byte o ho hbuffer hi =>
      obtain ⟨b, hb, howns⟩ := h.block ho hbuffer
      have hfits := h.sound.fits b hb
      have hi : i < b.size := howns.mul_eq ▸ hi
      have hat : b.Has (b.start + i) := by
        have hlt := UInt64.lt_iff_toNat_lt.mp hi
        have hoffset := Block.has_add hlt
        rwa [UInt64.ofNat_toNat] at hoffset
      have hmem : ∀ a, ¬ b.Has a →
          Function.update s.heap.mem (o.buffer + i) byte a = s.heap.mem a := by
        intro a ha
        apply Function.update_of_ne
        rintro rfl
        rw [howns.1] at ha
        exact ha hat
      rw [h.values_eq_update ho hb howns hmem, howns.value_eq hfits, howns.1,
        content_update hi]
      refine .wrote ?_ ?_
      · rw [Buffers.values, ho, Option.map_some, howns.value_eq hfits]
      · rw [List.length_map, List.length_range]
        exact UInt64.lt_iff_toNat_lt.mp hi
  | @released this o ho hbuffer =>
      rw [values_update]
      refine .destroyed (x := o.value width s.heap.mem) ?_
      rw [Buffers.values, ho, Option.map_some]
  | @destroyed this o heap ho hbuffer hfree =>
      obtain ⟨b, hb, howns⟩ := h.block ho hbuffer
      rw [h.free_eq hb howns, Option.some.injEq] at hfree
      subst hfree
      have hmem : ∀ a, ¬ b.Has a →
          secureWipe none s.heap.mem o.buffer (o.size * width) a = s.heap.mem a := by
        intro a ha
        rw [secureWipe_none hbuffer, howns.mul_eq, howns.1]
        exact if_neg ha
      have hvalues := h.values_eq_update ho hb howns hmem
      rw [values_update]
      show ValueEffect width _ _ (Function.update ((⟨{ s.heap with mem := _ }, s.objects⟩ :
        Buffers ι).values width) this none)
      rw [hvalues, Function.update_idem]
      refine .destroyed (x := o.value width s.heap.mem) ?_
      rw [Buffers.values, ho, Option.map_some]
  | @foreign a byte ha =>
      have hmem : ∀ b ∈ s.heap.live, ∀ x, b.Has x →
          Function.update s.heap.mem a byte x = s.heap.mem x := by
        intro b hb x hx
        apply Function.update_of_ne
        rintro rfl
        exact ha b hb hx
      rw [h.values_congr hmem]
      exact .foreign

theorem valueRun (h : s.Owned width) {ops : List (BufferOp ι)}
    (hrun : s.run width ops = .ok s') :
    ValueRun width (s.values width) ops (s'.values width) := by
  induction ops generalizing s with
  | nil =>
      cases hrun
      exact .nil
  | cons op ops ih =>
      rw [Buffers.run, List.foldlM_cons, bind_ok_iff] at hrun
      obtain ⟨s₁, hstep, hrest⟩ := hrun
      have heffect := bufferEffect_of_step width hstep
      have howned := h.step heffect
      exact .cons (h.valueEffect heffect) (ih howned hrest)

end Buffers.Owned

/-- **Buffers are values.** What the objects give access to at the end of
any run is what the run would leave of values: a buffer's bytes change by
writes to that buffer only, go with a move, and are neither shared nor
lost. -/
theorem buffers_isolated {mem : Memory} {ops : List (BufferOp ι)}
    (hrun : (Buffers.init mem).run width ops = .ok s) :
    ValueRun width (fun _ => none) ops (s.values width) := by
  have h := (Buffers.Owned.init mem : (Buffers.init mem : Buffers ι).Owned width)
  exact h.valueRun hrun

end

/-- The bytes written to one buffer are in the other after the move. -/
theorem buffers_isolated_moved :
    ∃ s, (Buffers.init (fun _ => 7)).run 1 (sampleBufferOps.take 3) = .ok s ∧
      ValueRun 1 (fun _ => none) (sampleBufferOps.take 3) (s.values 1) ∧
      s.values 1 true = some (some [7, 7, 7, 0xAB]) ∧ s.values 1 false = some none := by
  have hrun : ∃ s, (Buffers.init (fun _ => 7)).run 1 (sampleBufferOps.take 3) = .ok s ∧
      s.values 1 true = some (some [7, 7, 7, 0xAB]) ∧ s.values 1 false = some none :=
    ⟨_, rfl, by decide, by decide⟩
  obtain ⟨s, hs, hvalues⟩ := hrun
  exact ⟨s, hs, buffers_isolated hs, hvalues⟩

end OpenEnclave.Crypto
