import OpenEnclave.Crypto.Wipe
import Mathlib.Data.UInt
import Mathlib.Data.Vector.Basic
import Mathlib.Logic.Function.Basic

/-!
# Objects — `SecureKey` objects over their lifetime

Objects are constructed by `Generate` or by a move, assigned to by a
move, and destroyed. The member functions are written statement by
statement over the objects that are alive, since copying, invalidating
and wiping are separate statements and the two objects of an assignment
may be one. `KeyEffect` sums up what each operation comes to.

The model is generic in the bytes, and the operations do nothing with
them but pass them on (`run_map`). With plain bytes it is the code, in a
build in which `SecureWipe` wipes its range: `objectAt_secureWipe` takes
its wipe from the loop in memory.
-/

namespace OpenEnclave.Crypto

open ByteCodec

/-! ## Objects -/

/-- The members of a `SecureKey`, with `β` for bytes. -/
@[ext] structure KeyObject (β : Type) where
  keyData : List.Vector β AES_KEY_SIZE
  isValid : Bool
deriving DecidableEq

def KeyObject.secureKey (o : KeyObject UInt8) : SecureKey := ⟨o.keyData, o.isValid⟩

inductive KeyOp (ι β : Type) where
  /-- `Generate`: `RAND_bytes` writes `bytes`, and fails if not `ok`. -/
  | generate (this : ι) (ok : Bool) (bytes : List.Vector β AES_KEY_SIZE)
  | moveConstruct (this other : ι)
  | moveAssign (this other : ι)
  | destroy (this : ι)
deriving DecidableEq

/-- The objects that are alive, by their addresses. -/
abbrev Objects (ι β : Type) := ι → Option (KeyObject β)

section
variable {ι β : Type} [Zero β]

/-- The state of an object after the default constructor, and after it
was moved from. -/
def KeyObject.wiped : KeyObject β := ⟨List.Vector.replicate _ 0, false⟩

/-- `SecureWipe(key_data_.data(), key_data_.size())`. -/
def KeyObject.secureWipe (o : KeyObject β) : KeyObject β :=
  { o with keyData := List.Vector.replicate _ 0 }

def KeyObject.setValid (valid : Bool) (o : KeyObject β) : KeyObject β := { o with isValid := valid }

variable [DecidableEq ι]

namespace Objects

/-- An object is constructed, written or, with `none`, released. -/
def put (s : Objects ι β) (this : ι) (o : Option (KeyObject β)) : Objects ι β :=
  Function.update s this o

/-- A statement on the members of one object. -/
def modify (s : Objects ι β) (this : ι) (f : KeyObject β → KeyObject β) : Objects ι β :=
  s.put this ((s this).map f)

/-- A statement that reads the members of another. -/
def copy (s : Objects ι β) (this other : ι) (f : KeyObject β → KeyObject β → KeyObject β) :
    Objects ι β :=
  s.put this ((s this).bind fun o => (s other).map (f o))

/-- `~SecureKey()`, after which the object is gone. -/
def destroy (s : Objects ι β) (this : ι) : Objects ι β :=
  let s := s.modify this KeyObject.secureWipe
  let s := s.modify this (KeyObject.setValid false)
  s.put this none

/-- `Generate`. The object is destroyed by its `unique_ptr` when
`RAND_bytes` fails, whatever that wrote. -/
def generate (s : Objects ι β) (this : ι) (ok : Bool) (bytes : List.Vector β AES_KEY_SIZE) :
    Objects ι β :=
  let s := s.put this (some KeyObject.wiped)
  let s := s.modify this fun o => { o with keyData := bytes }
  if ok = false then s.destroy this
  else s.modify this (KeyObject.setValid true)

/-- `SecureKey(SecureKey&& other)`. -/
def moveConstruct (s : Objects ι β) (this other : ι) : Objects ι β :=
  let s := s.put this ((s other).map fun o => ⟨o.keyData, o.isValid⟩)
  let s := s.modify other (KeyObject.setValid false)
  s.modify other KeyObject.secureWipe

/-- `operator=(SecureKey&& other)`. -/
def moveAssign (s : Objects ι β) (this other : ι) : Objects ι β :=
  if this ≠ other then
    let s := s.modify this KeyObject.secureWipe
    let s := s.copy this other fun o p => { o with keyData := p.keyData }
    let s := s.copy this other fun o p => { o with isValid := p.isValid }
    let s := s.modify other (KeyObject.setValid false)
    s.modify other KeyObject.secureWipe
  else s

/-- No object is alive. -/
def init : Objects ι β := fun _ => none

/-- Objects are constructed where none is alive, and moved or destroyed
while they are. -/
def step (s : Objects ι β) : KeyOp ι β → Option (Objects ι β)
  | .generate this ok bytes => if s this = none then some (s.generate this ok bytes) else none
  | .moveConstruct this other =>
      if s this = none ∧ s other ≠ none then some (s.moveConstruct this other) else none
  | .moveAssign this other =>
      if s this ≠ none ∧ s other ≠ none then some (s.moveAssign this other) else none
  | .destroy this => if s this ≠ none then some (s.destroy this) else none

def run (s : Objects ι β) : List (KeyOp ι β) → Option (Objects ι β)
  | [] => some s
  | op :: ops => (s.step op).bind fun s => s.run ops

/-! ## What the operations come to -/

omit [Zero β] in
@[simp] theorem put_self (s : Objects ι β) (this : ι) (o : Option (KeyObject β)) :
    s.put this o this = o :=
  Function.update_self ..

omit [Zero β] in
theorem put_of_ne {this x : ι} (h : x ≠ this) (s : Objects ι β) (o : Option (KeyObject β)) :
    s.put this o x = s x :=
  Function.update_of_ne h ..

omit [Zero β] in
@[simp] theorem put_put (s : Objects ι β) (this : ι) (o p : Option (KeyObject β)) :
    (s.put this o).put this p = s.put this p :=
  Function.update_idem ..

omit [Zero β] in
theorem put_eq_self {s : Objects ι β} {this : ι} {o : Option (KeyObject β)} (h : s this = o) :
    s.put this o = s :=
  Function.update_eq_self_iff.mpr h.symm

theorem destroy_eq (s : Objects ι β) (this : ι) : s.destroy this = s.put this none := by
  simp [destroy, modify]

theorem generate_eq (s : Objects ι β) (this : ι) (ok : Bool)
    (bytes : List.Vector β AES_KEY_SIZE) :
    s.generate this ok bytes = s.put this (if ok then some ⟨bytes, true⟩ else none) := by
  cases ok <;> simp [generate, modify, destroy_eq, KeyObject.setValid]

/-- What `src` held is in `this`, and `other` is wiped. -/
def transfer (s : Objects ι β) (this other : ι) (src : KeyObject β) : Objects ι β :=
  (s.put this (some src)).put other (some KeyObject.wiped)

/-- Where the content of an object comes from. -/
theorem transfer_eq_some {s : Objects ι β} {this other x : ι} {src o : KeyObject β}
    (hsrc : s other = some src) (h : s.transfer this other src x = some o) :
    o = KeyObject.wiped ∨ x ≠ other ∧ s (if x = this then other else x) = some o := by
  rw [transfer] at h
  by_cases hother : x = other
  · subst hother
    rw [put_self, Option.some.injEq] at h
    exact .inl h.symm
  · rw [put_of_ne hother] at h
    refine .inr ⟨hother, ?_⟩
    by_cases hthis : x = this
    · subst hthis
      rw [put_self] at h
      rw [if_pos rfl, hsrc, h]
    · rw [put_of_ne hthis] at h
      rw [if_neg hthis, h]

theorem step_generate (s : Objects ι β) (this : ι) (ok : Bool)
    (bytes : List.Vector β AES_KEY_SIZE) :
    s.step (.generate this ok bytes) =
      if s this = none then some (s.put this (if ok then some ⟨bytes, true⟩ else none))
      else none := by
  rw [step, generate_eq]

theorem step_moveConstruct (s : Objects ι β) (this other : ι) :
    s.step (.moveConstruct this other) =
      if s this = none then (s other).map (s.transfer this other) else none := by
  rw [step]
  by_cases hthis : s this = none
  · cases hother : s other with
    | none => simp
    | some src =>
        have hne : other ≠ this := by
          rintro rfl
          rw [hthis] at hother
          cases hother
        simp [moveConstruct, transfer, modify, hthis, hother, put_of_ne hne, KeyObject.setValid,
          KeyObject.secureWipe, KeyObject.wiped]
  · simp [hthis]

/-- The guard against self-assignment, which would wipe the key. -/
theorem step_moveAssign (s : Objects ι β) (this other : ι) :
    s.step (.moveAssign this other) =
      if s this = none then none
      else (s other).map fun src => if this = other then s else s.transfer this other src := by
  rw [step]
  cases hthis : s this with
  | none => simp
  | some o =>
      cases hother : s other with
      | none => simp
      | some src =>
          by_cases heq : this = other
          · simp [moveAssign, heq]
          · simp [moveAssign, transfer, modify, copy, hthis, hother, heq, put_of_ne (Ne.symm heq),
              KeyObject.setValid, KeyObject.secureWipe, KeyObject.wiped]

theorem step_destroy (s : Objects ι β) (this : ι) :
    s.step (.destroy this) = if s this ≠ none then some (s.put this none) else none := by
  rw [step, destroy_eq]

/-- The objects before and after an operation. -/
inductive KeyEffect (s : Objects ι β) : KeyOp ι β → Objects ι β → Prop where
  | generated {this : ι} {bytes : List.Vector β AES_KEY_SIZE} (h : s this = none) :
      KeyEffect s (.generate this true bytes) (s.put this (some ⟨bytes, true⟩))
  | failed {this : ι} {bytes : List.Vector β AES_KEY_SIZE} :
      KeyEffect s (.generate this false bytes) s
  | constructed {this other : ι} {src : KeyObject β} (hne : this ≠ other) (hthis : s this = none)
      (h : s other = some src) :
      KeyEffect s (.moveConstruct this other) (s.transfer this other src)
  | assigned {this other : ι} {src : KeyObject β} (hne : this ≠ other) (h : s other = some src) :
      KeyEffect s (.moveAssign this other) (s.transfer this other src)
  | selfAssigned {this : ι} : KeyEffect s (.moveAssign this this) s
  | destroyed {this : ι} : KeyEffect s (.destroy this) (s.put this none)

theorem keyEffect_of_step {s s' : Objects ι β} {op : KeyOp ι β} (h : s.step op = some s') :
    KeyEffect s op s' := by
  cases op with
  | generate this ok bytes =>
      rw [step_generate, Option.ite_none_right_eq_some] at h
      obtain ⟨hnone, heq⟩ := h
      cases heq
      cases ok with
      | true => exact .generated hnone
      | false =>
          rw [if_neg (by decide), put_eq_self hnone]
          exact .failed
  | moveConstruct this other =>
      rw [step_moveConstruct, Option.ite_none_right_eq_some, Option.map_eq_some_iff] at h
      obtain ⟨hnone, src, hsrc, rfl⟩ := h
      have hne : this ≠ other := by
        rintro rfl
        rw [hnone] at hsrc
        cases hsrc
      exact .constructed hne hnone hsrc
  | moveAssign this other =>
      rw [step_moveAssign, Option.ite_none_left_eq_some, Option.map_eq_some_iff] at h
      obtain ⟨-, src, hsrc, rfl⟩ := h
      by_cases heq : this = other
      · subst heq
        rw [if_pos rfl]
        exact .selfAssigned
      · rw [if_neg heq]
        exact .assigned heq hsrc
  | destroy this =>
      rw [step_destroy, Option.ite_none_right_eq_some] at h
      obtain ⟨-, heq⟩ := h
      cases heq
      exact .destroyed

theorem run_append (s : Objects ι β) (ops ops' : List (KeyOp ι β)) :
    s.run (ops ++ ops') = (s.run ops).bind fun s => s.run ops' := by
  induction ops generalizing s with
  | nil => rfl
  | cons op ops ih =>
      rw [List.cons_append, run, run]
      cases s.step op with
      | none => rfl
      | some s' => exact ih s'

end Objects

end

/-! ## Bytes are only passed on -/

section
variable {ι β γ : Type} [DecidableEq ι]

def KeyObject.map (f : β → γ) (o : KeyObject β) : KeyObject γ := ⟨o.keyData.map f, o.isValid⟩

def KeyOp.map (f : β → γ) : KeyOp ι β → KeyOp ι γ
  | .generate this ok bytes => .generate this ok (bytes.map f)
  | .moveConstruct this other => .moveConstruct this other
  | .moveAssign this other => .moveAssign this other
  | .destroy this => .destroy this

namespace Objects

def map (f : β → γ) (s : Objects ι β) : Objects ι γ := fun this => (s this).map (KeyObject.map f)

theorem map_put (f : β → γ) (s : Objects ι β) (this : ι) (o : Option (KeyObject β)) :
    (s.put this o).map f = (s.map f).put this (o.map (KeyObject.map f)) := by
  funext x
  by_cases hx : x = this
  · subst hx
    simp [map]
  · simp [map, put_of_ne hx]

omit [DecidableEq ι] in
theorem map_eq_none (f : β → γ) (s : Objects ι β) (this : ι) :
    s.map f this = none ↔ s this = none :=
  Option.map_eq_none_iff

variable [Zero β] [Zero γ] {f : β → γ} (hf : f 0 = 0)
include hf

theorem map_wiped : KeyObject.wiped.map f = KeyObject.wiped := by
  have hbytes : (List.Vector.replicate AES_KEY_SIZE (0 : β)).map f =
      List.Vector.replicate AES_KEY_SIZE 0 := by
    ext i
    simp [hf]
  rw [KeyObject.map, KeyObject.wiped, hbytes]
  rfl

theorem map_transfer (s : Objects ι β) (this other : ι) (src : KeyObject β) :
    (s.transfer this other src).map f = (s.map f).transfer this other (src.map f) := by
  rw [transfer, map_put, map_put, Option.map_some, Option.map_some, map_wiped hf, transfer]

/-- **One operation treats all bytes alike.** -/
theorem step_map (s : Objects ι β) (op : KeyOp ι β) :
    (s.map f).step (op.map f) = (s.step op).map (Objects.map f) := by
  cases op with
  | generate this ok bytes =>
      simp only [KeyOp.map, step_generate, map_eq_none]
      split
      · rw [Option.map_some, map_put]
        cases ok <;> rfl
      · rfl
  | moveConstruct this other =>
      simp only [KeyOp.map, step_moveConstruct, map_eq_none]
      split
      · rw [map, Option.map_map, Option.map_map]
        congr 1
        funext src
        exact (map_transfer hf s this other src).symm
      · rfl
  | moveAssign this other =>
      simp only [KeyOp.map, step_moveAssign, map_eq_none]
      split
      · rfl
      · rw [map, Option.map_map, Option.map_map]
        congr 1
        funext src
        by_cases heq : this = other
        · simp [heq]
        · simp [heq, map_transfer hf]
  | destroy this =>
      simp only [KeyOp.map, step_destroy, map_eq_none, ne_eq]
      split
      · rw [Option.map_some, map_put, Option.map_none]
      · rfl

theorem run_map (s : Objects ι β) (ops : List (KeyOp ι β)) :
    (s.map f).run (ops.map (KeyOp.map f)) = (s.run ops).map (Objects.map f) := by
  induction ops generalizing s with
  | nil => rfl
  | cons op ops ih =>
      rw [List.map_cons, run, step_map hf, run]
      cases s.step op with
      | none => rfl
      | some s' => exact ih s'

end Objects

end

/-! ## With plain bytes -/

/-- `Generate` hands out what `SecureKey.generate` says. -/
theorem generate_secureKey {ι : Type} [DecidableEq ι] (s : Objects ι UInt8) (this : ι) (ok : Bool)
    (bytes : Key) :
    (s.generate this ok bytes this).map KeyObject.secureKey =
      SecureKey.generate (if ok then some bytes else none) := by
  rw [Objects.generate_eq, Objects.put_self]
  cases ok <;> rfl

/-- The object at an address: the array, and behind it the flag. -/
def objectAt (mem : Memory) (p : UInt64) : KeyObject UInt8 where
  keyData := List.Vector.ofFn fun i => mem (p + UInt64.ofNat i.val)
  isValid := mem (p + UInt64.ofNat AES_KEY_SIZE) ≠ 0

theorem inRange_offset (p : UInt64) {n i : Nat} (hn : n < 2 ^ 64) (hi : i < 2 ^ 64) :
    InRange p (UInt64.ofNat n) (p + UInt64.ofNat i) ↔ i < n := by
  have hp := p.toNat_lt
  simp only [InRange, UInt64.lt_iff_toNat_lt, UInt64.toNat_sub, UInt64.toNat_add,
    UInt64.toNat_ofNat']
  omega

/-- `SecureWipe` on the array of an object is the wipe of the model. -/
theorem objectAt_secureWipe {p : UInt64} (hp : p ≠ 0) (mem : Memory) :
    objectAt (secureWipe none mem p (UInt64.ofNat AES_KEY_SIZE)) p =
      (objectAt mem p).secureWipe := by
  have hwipe := secureWipe_none hp mem (UInt64.ofNat AES_KEY_SIZE)
  apply KeyObject.ext
  · ext i
    have hi := i.isLt
    have hin : InRange p (UInt64.ofNat AES_KEY_SIZE) (p + UInt64.ofNat i.val) :=
      (inRange_offset p (by decide) (Nat.lt_trans hi (by decide))).mpr hi
    simp [objectAt, KeyObject.secureWipe, hwipe _, hin]
  · have hout : ¬ InRange p (UInt64.ofNat AES_KEY_SIZE) (p + UInt64.ofNat AES_KEY_SIZE) :=
      fun h => Nat.lt_irrefl _ ((inRange_offset p (by decide) (by decide)).mp h)
    simp only [objectAt, KeyObject.secureWipe, hwipe _, if_neg hout]

/-- An object elsewhere is left alone. -/
theorem objectAt_secureWipe_of_disjoint {p q : UInt64} (hp : p ≠ 0) (mem : Memory)
    (hdisjoint : ∀ i ≤ AES_KEY_SIZE,
      ¬ InRange p (UInt64.ofNat AES_KEY_SIZE) (q + UInt64.ofNat i)) :
    objectAt (secureWipe none mem p (UInt64.ofNat AES_KEY_SIZE)) q = objectAt mem q := by
  have hwipe := secureWipe_none hp mem (UInt64.ofNat AES_KEY_SIZE)
  apply KeyObject.ext
  · ext i
    have hi := i.isLt
    simp [objectAt, hwipe _, hdisjoint i.val (by omega)]
  · simp only [objectAt, hwipe _, if_neg (hdisjoint AES_KEY_SIZE (Nat.le_refl _))]

end OpenEnclave.Crypto
