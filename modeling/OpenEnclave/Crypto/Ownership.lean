import OpenEnclave.Crypto.Objects
import Mathlib.Data.List.Induction
import Mathlib.Data.Vector.Mem

/-!
# Ownership — who holds which key bytes

Equal bytes alone do not tell two keys apart, so a run is followed with
bytes that carry the number of the `Generate` they come from. The code
is the same code, and the labels go exactly where the bytes go.

`Owned` is the invariant: an object is wiped, or it is valid and has all
the bytes of one generation, and no generation is in two objects.
`HeldBy.step` and `HeldBy.before` follow one generation through one
operation, forwards and backwards. Together they give
`run_singleOwner`: a generation is in exactly one object until that
object is destroyed or assigned to.
-/

namespace OpenEnclave.Crypto

open ByteCodec

/-! ## Labels -/

/-- A byte with the number of the `Generate` it comes from. -/
structure LabelledByte where
  byte : UInt8
  origin : Option Nat
deriving DecidableEq

/-- What `SecureWipe` writes comes from no `Generate`. -/
instance : Zero LabelledByte := ⟨⟨0, none⟩⟩

/-- Key bytes with one label. -/
def labelled (origin : Option Nat) (bytes : Key) : List.Vector LabelledByte AES_KEY_SIZE :=
  bytes.map fun byte => ⟨byte, origin⟩

theorem origin_labelled {origin : Option Nat} {bytes : Key} {b : LabelledByte}
    (h : b ∈ (labelled origin bytes).toList) : b.origin = origin := by
  rw [labelled, List.Vector.toList_map, List.mem_map] at h
  obtain ⟨byte, -, rfl⟩ := h
  rfl

theorem map_labelled (origin : Option Nat) (bytes : Key) :
    (labelled origin bytes).map LabelledByte.byte = bytes := by
  ext i
  simp [labelled]

section
variable {ι : Type}

/-- The bytes a successful `Generate` produces. -/
def KeyOp.generated : KeyOp ι UInt8 → List Key
  | .generate _ ok bytes => if ok then [bytes] else []
  | .moveConstruct .. | .moveAssign .. | .destroy _ => []

/-- The bytes of the successful `Generate`s of a sequence, in order. -/
def generated (ops : List (KeyOp ι UInt8)) : List Key := ops.flatMap KeyOp.generated

/-- The operation with the label `g` on the bytes it generates. -/
def KeyOp.label (g : Nat) : KeyOp ι UInt8 → KeyOp ι LabelledByte
  | .generate this ok bytes => .generate this ok (labelled (if ok then some g else none) bytes)
  | .moveConstruct this other => .moveConstruct this other
  | .moveAssign this other => .moveAssign this other
  | .destroy this => .destroy this

/-- The `g`th successful `Generate` labels its bytes with `g`, counted from
`n`. -/
def labelFrom (n : Nat) : List (KeyOp ι UInt8) → List (KeyOp ι LabelledByte)
  | [] => []
  | op :: ops => op.label n :: labelFrom (n + op.generated.length) ops

theorem map_label (g : Nat) (op : KeyOp ι UInt8) : (op.label g).map LabelledByte.byte = op := by
  cases op <;> simp [KeyOp.label, KeyOp.map, map_labelled]

theorem map_labelFrom (n : Nat) (ops : List (KeyOp ι UInt8)) :
    (labelFrom n ops).map (KeyOp.map LabelledByte.byte) = ops := by
  induction ops generalizing n with
  | nil => rfl
  | cons op ops ih => rw [labelFrom, List.map_cons, map_label, ih]

theorem KeyOp.generated_getElem? {op : KeyOp ι UInt8} {k : Nat} {bytes : Key}
    (h : op.generated[k]? = some bytes) : k = 0 ∧ ∃ this, op = .generate this true bytes := by
  cases op with
  | generate this ok b =>
      cases ok with
      | true =>
          have hlt := (List.getElem?_eq_some_iff.mp h).1
          have hk : k = 0 := by
            simp only [KeyOp.generated, if_true, List.length_singleton] at hlt
            omega
          subst hk
          cases h
          exact ⟨rfl, this, rfl⟩
      | false => cases h
  | moveConstruct this other => cases h
  | moveAssign this other => cases h
  | destroy this => cases h

theorem generated_append (ops ops' : List (KeyOp ι UInt8)) :
    generated (ops ++ ops') = generated ops ++ generated ops' :=
  List.flatMap_append

theorem labelFrom_append (n : Nat) (ops ops' : List (KeyOp ι UInt8)) :
    labelFrom n (ops ++ ops') =
      labelFrom n ops ++ labelFrom (n + (generated ops).length) ops' := by
  induction ops generalizing n with
  | nil => rfl
  | cons op ops ih =>
      have hcons : generated (op :: ops) = op.generated ++ generated ops := rfl
      rw [List.cons_append, labelFrom, ih, labelFrom, hcons, List.length_append, Nat.add_assoc,
        List.cons_append]

/-- The cases of an operation with labels: a fresh generation, nothing,
a move, a destruction. -/
theorem label_cases [DecidableEq ι] {t t' : Objects ι LabelledByte} {n : Nat}
    {op : KeyOp ι UInt8} (h : t.step (op.label n) = some t') :
    (∃ this bytes, op = .generate this true bytes ∧ t this = none ∧
      t' = t.put this (some ⟨labelled (some n) bytes, true⟩)) ∨
    (t' = t ∧ op.generated = [] ∧ (∀ x, op ≠ .destroy x) ∧
      ∀ x other, other ≠ x → op ≠ .moveAssign x other) ∨
    (∃ this other src, this ≠ other ∧ t other = some src ∧ t' = t.transfer this other src ∧
      (op = .moveConstruct this other ∧ t this = none ∨ op = .moveAssign this other)) ∨
    ∃ this, op = .destroy this ∧ t' = t.put this none := by
  have heffect := Objects.keyEffect_of_step h
  cases op with
  | generate this ok bytes =>
      cases ok with
      | true =>
          cases heffect with
          | generated hnone => exact .inl ⟨this, bytes, rfl, hnone, rfl⟩
      | false =>
          cases heffect with
          | failed => exact .inr (.inl ⟨rfl, rfl, nofun, nofun⟩)
  | moveConstruct this other =>
      cases heffect with
      | constructed hne hnone hsrc =>
          exact .inr (.inr (.inl ⟨this, other, _, hne, hsrc, rfl, .inl ⟨rfl, hnone⟩⟩))
  | moveAssign this other =>
      cases heffect with
      | assigned hne hsrc =>
          exact .inr (.inr (.inl ⟨this, other, _, hne, hsrc, rfl, .inr rfl⟩))
      | selfAssigned =>
          refine .inr (.inl ⟨rfl, rfl, nofun, ?_⟩)
          rintro x other hne heq
          cases heq
          exact hne rfl
  | destroy this =>
      cases heffect with
      | destroyed => exact .inr (.inr (.inr ⟨this, rfl, rfl⟩))

/-! ## One owner -/

/-- The object contains a byte of generation `g`. -/
def Holds (t : Objects ι LabelledByte) (g : Nat) (this : ι) : Prop :=
  ∃ o, t this = some o ∧ ∃ b ∈ o.keyData.toList, b.origin = some g

/-- The object is valid and contains the bytes of generation `g`, all of
them and in their order. -/
def HeldBy (t : Objects ι LabelledByte) (g : Nat) (bytes : Key) (this : ι) : Prop :=
  t this = some ⟨labelled (some g) bytes, true⟩

theorem exists_mem_labelled (g : Nat) (bytes : Key) :
    ∃ b ∈ (labelled (some g) bytes).toList, b.origin = some g := by
  have hmem := List.Vector.get_mem (⟨0, by decide⟩ : Fin AES_KEY_SIZE) (labelled (some g) bytes)
  exact ⟨_, hmem, origin_labelled hmem⟩

theorem labelled_inj {g g' : Nat} {bytes bytes' : Key}
    (h : labelled (some g) bytes = labelled (some g') bytes') : g = g' ∧ bytes = bytes' := by
  constructor
  · obtain ⟨b, hb, hg⟩ := exists_mem_labelled g bytes
    rw [h] at hb
    have hg' := origin_labelled hb
    rw [hg, Option.some.injEq] at hg'
    exact hg'
  · rw [← map_labelled (some g) bytes, h, map_labelled]

theorem HeldBy.holds {t : Objects ι LabelledByte} {g : Nat} {bytes : Key} {this : ι}
    (h : HeldBy t g bytes this) : Holds t g this :=
  ⟨_, h, exists_mem_labelled g bytes⟩

/-- The holder is alive. -/
theorem HeldBy.ne_of_none {t : Objects ι LabelledByte} {g : Nat} {bytes : Key} {this x : ι}
    (h : HeldBy t g bytes this) (hnone : t x = none) : this ≠ x := by
  rintro rfl
  rw [HeldBy, hnone] at h
  cases h

theorem held_ne_wiped (g : Nat) (bytes : Key) :
    (⟨labelled (some g) bytes, true⟩ : KeyObject LabelledByte) ≠ KeyObject.wiped := by
  intro h
  cases congrArg KeyObject.isValid h

/-- What the objects look like after the generations `gens`. -/
structure Owned (gens : List Key) (t : Objects ι LabelledByte) : Prop where
  /-- An object is wiped, or valid with the bytes of one generation. -/
  content : ∀ this o, t this = some o → o = KeyObject.wiped ∨
    ∃ g bytes, gens[g]? = some bytes ∧ o = ⟨labelled (some g) bytes, true⟩
  /-- No generation is held twice. -/
  unique : ∀ g bytes bytes' this this', HeldBy t g bytes this → HeldBy t g bytes' this' →
    this = this'

namespace Owned

variable {gens : List Key} {t : Objects ι LabelledByte} {g : Nat} {this : ι}

theorem generation (h : Owned gens t) {bytes : Key} (hheld : HeldBy t g bytes this) :
    gens[g]? = some bytes := by
  rcases h.content this _ hheld with hwiped | ⟨g', bytes', hgens, heq⟩
  · exact absurd hwiped (held_ne_wiped g bytes)
  · obtain ⟨rfl, rfl⟩ := labelled_inj (congrArg KeyObject.keyData heq)
    exact hgens

/-- An object that contains one byte of a generation contains them all. -/
theorem heldBy (h : Owned gens t) (hholds : Holds t g this) :
    ∃ bytes, gens[g]? = some bytes ∧ HeldBy t g bytes this := by
  obtain ⟨o, ho, b, hb, hg⟩ := hholds
  rcases h.content this o ho with rfl | ⟨g', bytes, hgens, rfl⟩
  · have hzero : b = 0 := List.eq_of_mem_replicate hb
    rw [hzero] at hg
    cases hg
  · have horigin := origin_labelled hb
    rw [hg, Option.some.injEq] at horigin
    subst horigin
    exact ⟨bytes, hgens, ho⟩

theorem holds_unique (h : Owned gens t) {this' : ι} (hholds : Holds t g this)
    (hholds' : Holds t g this') : this = this' := by
  obtain ⟨bytes, -, hheld⟩ := h.heldBy hholds
  obtain ⟨bytes', -, hheld'⟩ := h.heldBy hholds'
  exact h.unique g bytes bytes' this this' hheld hheld'

theorem init : Owned [] (Objects.init : Objects ι LabelledByte) where
  content := fun _ _ ho => nomatch ho
  unique := fun _ _ _ _ _ hheld => nomatch hheld

variable [DecidableEq ι]

/-- A fresh generation has a label that no object has. -/
theorem generate (h : Owned gens t) (bytes : Key) :
    Owned (gens ++ [bytes])
      (t.put this (some ⟨labelled (some gens.length) bytes, true⟩)) := by
  have hold : ∀ {x : ι} {g : Nat} {b : Key}, x ≠ this →
      HeldBy (t.put this (some ⟨labelled (some gens.length) bytes, true⟩)) g b x →
      HeldBy t g b x ∧ g < gens.length := by
    intro x g b hx hheld
    rw [HeldBy, Objects.put_of_ne hx] at hheld
    exact ⟨hheld, (List.getElem?_eq_some_iff.mp (h.generation hheld)).1⟩
  have hnew : ∀ {g : Nat} {b : Key},
      HeldBy (t.put this (some ⟨labelled (some gens.length) bytes, true⟩)) g b this →
      g = gens.length := by
    intro g b hheld
    rw [HeldBy, Objects.put_self, Option.some.injEq] at hheld
    exact (labelled_inj (congrArg KeyObject.keyData hheld)).1.symm
  constructor
  · intro x o ho
    by_cases hx : x = this
    · subst hx
      rw [Objects.put_self, Option.some.injEq] at ho
      exact .inr ⟨gens.length, bytes, by simp, ho.symm⟩
    · rw [Objects.put_of_ne hx] at ho
      rcases h.content x o ho with hwiped | ⟨g, b, hgens, heq⟩
      · exact .inl hwiped
      · have hlt := (List.getElem?_eq_some_iff.mp hgens).1
        exact .inr ⟨g, b, by rw [List.getElem?_append_left hlt, hgens], heq⟩
  · intro g b b' x x' hheld hheld'
    by_cases hx : x = this
    · by_cases hx' : x' = this
      · rw [hx, hx']
      · have hlt := (hold hx' hheld').2
        rw [hx] at hheld
        rw [hnew hheld] at hlt
        omega
    · by_cases hx' : x' = this
      · have hlt := (hold hx hheld).2
        rw [hx'] at hheld'
        rw [hnew hheld'] at hlt
        omega
      · exact h.unique g b b' x x' (hold hx hheld).1 (hold hx' hheld').1

omit [DecidableEq ι] in
/-- Objects that were wiped, or that have their content from one object
each, own as before. -/
theorem relocate (h : Owned gens t) {t' : Objects ι LabelledByte} (source : ι → ι) (S : ι → Prop)
    (hsource : ∀ x o, t' x = some o → o = KeyObject.wiped ∨ S x ∧ t (source x) = some o)
    (hinj : ∀ x y, S x → S y → source x = source y → x = y) : Owned gens t' := by
  have hheld : ∀ {g : Nat} {b : Key} {x : ι}, HeldBy t' g b x →
      S x ∧ HeldBy t g b (source x) := by
    intro g b x hx
    rcases hsource x _ hx with hwiped | hmoved
    · exact absurd hwiped (held_ne_wiped g b)
    · exact hmoved
  constructor
  · intro x o ho
    rcases hsource x o ho with hwiped | ⟨-, hmoved⟩
    · exact .inl hwiped
    · exact h.content _ o hmoved
  · intro g b b' x x' hx hx'
    exact hinj x x' (hheld hx).1 (hheld hx').1
      (h.unique g b b' _ _ (hheld hx).2 (hheld hx').2)

theorem destroy (h : Owned gens t) (this : ι) : Owned gens (t.put this none) := by
  refine h.relocate id (fun _ => True) ?_ (fun x y _ _ heq => heq)
  intro x o ho
  by_cases hx : x = this
  · subst hx
    rw [Objects.put_self] at ho
    cases ho
  · rw [Objects.put_of_ne hx] at ho
    exact .inr ⟨trivial, ho⟩

theorem transfer (h : Owned gens t) {other : ι} {src : KeyObject LabelledByte}
    (hsrc : t other = some src) : Owned gens (t.transfer this other src) := by
  refine h.relocate (fun x => if x = this then other else x) (fun x => x ≠ other) ?_ ?_
  · exact fun x o ho => Objects.transfer_eq_some hsrc ho
  · intro x y hx hy heq
    split at heq <;> split at heq
    · rename_i hxt hyt
      rw [hxt, hyt]
    · exact absurd heq.symm hy
    · exact absurd heq hx
    · exact heq

/-- **One operation keeps it.** -/
theorem step (h : Owned gens t) {op : KeyOp ι UInt8} {t' : Objects ι LabelledByte}
    (hstep : t.step (op.label gens.length) = some t') : Owned (gens ++ op.generated) t' := by
  rcases label_cases hstep with ⟨this, bytes, rfl, -, rfl⟩ | ⟨rfl, hnone, -⟩ |
    ⟨this, other, src, -, hsrc, rfl, hop⟩ | ⟨this, rfl, rfl⟩
  · exact h.generate bytes
  · rwa [hnone, List.append_nil]
  · have hnone : op.generated = [] := by
      rcases hop with ⟨rfl, -⟩ | rfl <;> rfl
    rw [hnone, List.append_nil]
    exact h.transfer hsrc
  · rw [KeyOp.generated, List.append_nil]
    exact h.destroy this

end Owned

/-! ## Until it is destroyed or overwritten -/

/-- The operation destroys the object that holds generation `g`, or
assigns another object to it. -/
def Loses (t : Objects ι LabelledByte) (g : Nat) (op : KeyOp ι UInt8) : Prop :=
  ∃ this, Holds t g this ∧
    (op = .destroy this ∨ ∃ other, other ≠ this ∧ op = .moveAssign this other)

variable [DecidableEq ι]

/-- One of the operations was such a one. -/
def Lost (ops : List (KeyOp ι UInt8)) (g : Nat) : Prop :=
  ∃ before op after t, ops = before ++ op :: after ∧
    Objects.init.run (labelFrom 0 before) = some t ∧ Loses t g op

theorem lost_concat_iff {ops : List (KeyOp ι UInt8)} {op : KeyOp ι UInt8} {g : Nat} :
    Lost (ops ++ [op]) g ↔
      Lost ops g ∨ ∃ t, Objects.init.run (labelFrom 0 ops) = some t ∧ Loses t g op := by
  constructor
  · rintro ⟨before, op', after, t, heq, hrun, hloses⟩
    rcases List.eq_nil_or_concat after with rfl | ⟨after, last, rfl⟩
    · obtain ⟨rfl, hop⟩ := List.append_inj' heq rfl
      cases hop
      exact .inr ⟨t, hrun, hloses⟩
    · rw [List.concat_eq_append, ← List.cons_append, ← List.append_assoc] at heq
      obtain ⟨rfl, -⟩ := List.append_inj' heq rfl
      exact .inl ⟨before, op', after, t, rfl, hrun, hloses⟩
  · rintro (⟨before, op', after, t, rfl, hrun, hloses⟩ | ⟨t, hrun, hloses⟩)
    · exact ⟨before, op', after ++ [op], t, by simp, hrun, hloses⟩
    · exact ⟨ops, op, [], t, rfl, hrun, hloses⟩

/-- What is not overwritten moves along with `src`, or stays. -/
theorem HeldBy.transfer {t : Objects ι LabelledByte} {g : Nat} {bytes : Key} {this x other : ι}
    {src : KeyObject LabelledByte} (h : HeldBy t g bytes this) (hne : x ≠ other)
    (hsrc : t other = some src) (hx : this ≠ x) :
    ∃ this', HeldBy (t.transfer x other src) g bytes this' := by
  by_cases hother : this = other
  · subst hother
    refine ⟨x, ?_⟩
    rw [HeldBy, Objects.transfer, Objects.put_of_ne hne, Objects.put_self, ← hsrc, h]
  · refine ⟨this, ?_⟩
    rw [HeldBy, Objects.transfer, Objects.put_of_ne hother, Objects.put_of_ne hx, h]

theorem HeldBy.of_transfer {t : Objects ι LabelledByte} {this other x : ι}
    {src : KeyObject LabelledByte} {g : Nat} {bytes : Key} (hsrc : t other = some src)
    (h : HeldBy (t.transfer this other src) g bytes x) :
    x ≠ other ∧ HeldBy t g bytes (if x = this then other else x) := by
  rcases Objects.transfer_eq_some hsrc h with hwiped | hmoved
  · exact absurd hwiped (held_ne_wiped g bytes)
  · exact hmoved

/-- What is held stays held, by the object it was moved to if it was
moved, unless the operation loses it. -/
theorem HeldBy.step {t t' : Objects ι LabelledByte} {g n : Nat} {bytes : Key} {this : ι}
    {op : KeyOp ι UInt8} (h : HeldBy t g bytes this) (hstep : t.step (op.label n) = some t') :
    (∃ this', HeldBy t' g bytes this') ∨ Loses t g op := by
  rcases label_cases hstep with ⟨x, b, rfl, hnone, rfl⟩ | ⟨rfl, -⟩ |
    ⟨x, other, src, hne, hsrc, rfl, hop⟩ | ⟨x, rfl, rfl⟩
  · have hx := h.ne_of_none hnone
    exact .inl ⟨this, by rw [HeldBy, Objects.put_of_ne hx, h]⟩
  · exact .inl ⟨this, h⟩
  · rcases hop with ⟨-, hnone⟩ | rfl
    · exact .inl (h.transfer hne hsrc (h.ne_of_none hnone))
    · by_cases hx : this = x
      · subst hx
        exact .inr ⟨this, h.holds, .inr ⟨other, hne.symm, rfl⟩⟩
      · exact .inl (h.transfer hne hsrc hx)
  · by_cases hx : this = x
    · subst hx
      exact .inr ⟨this, h.holds, .inl rfl⟩
    · exact .inl ⟨this, by rw [HeldBy, Objects.put_of_ne hx, h]⟩

theorem run_concat {ops : List (KeyOp ι UInt8)} {op : KeyOp ι UInt8}
    {t : Objects ι LabelledByte} :
    Objects.init.run (labelFrom 0 (ops ++ [op])) = some t ↔
      ∃ t₀, Objects.init.run (labelFrom 0 ops) = some t₀ ∧
        t₀.step (op.label (generated ops).length) = some t := by
  have hlast : labelFrom (0 + (generated ops).length) [op] =
      [op.label (generated ops).length] := by
    rw [Nat.zero_add]
    rfl
  have hone : ∀ t₀ : Objects ι LabelledByte, t₀.run [op.label (generated ops).length] =
      t₀.step (op.label (generated ops).length) := fun t₀ => Option.bind_fun_some _
  rw [labelFrom_append, hlast, Objects.run_append, Option.bind_eq_some_iff]
  simp only [hone]

/-- **Every run keeps it.** -/
theorem owned_run {ops : List (KeyOp ι UInt8)} {t : Objects ι LabelledByte}
    (h : Objects.init.run (labelFrom 0 ops) = some t) : Owned (generated ops) t := by
  induction ops using List.reverseRecOn generalizing t with
  | nil =>
      cases h
      exact .init
  | append_singleton ops op ih =>
      obtain ⟨t₀, hrun, hstep⟩ := run_concat.mp h
      have howned := (ih hrun).step hstep
      rwa [generated_append, generated, generated, List.flatMap_singleton]

/-- A generation that is held after an operation is new, or was held
before by an object that the operation neither destroys nor overwrites. -/
theorem HeldBy.before {t t' : Objects ι LabelledByte} {n : Nat}
    {op : KeyOp ι UInt8} (hstep : t.step (op.label n) = some t') {g : Nat} {bytes : Key}
    {this : ι} (hheld : HeldBy t' g bytes this) :
    n ≤ g ∨ ∃ this', HeldBy t g bytes this' ∧ op ≠ .destroy this' ∧
      ∀ other, other ≠ this' → op ≠ .moveAssign this' other := by
  rcases label_cases hstep with ⟨x, b, rfl, -, rfl⟩ | ⟨rfl, -, hdestroy, hassign⟩ |
    ⟨x, other, src, hne, hsrc, rfl, hop⟩ | ⟨x, rfl, rfl⟩
  · by_cases hx : this = x
    · subst hx
      rw [HeldBy, Objects.put_self, Option.some.injEq] at hheld
      exact .inl (Nat.le_of_eq (labelled_inj (congrArg KeyObject.keyData hheld)).1)
    · rw [HeldBy, Objects.put_of_ne hx] at hheld
      exact .inr ⟨this, hheld, nofun, nofun⟩
  · exact .inr ⟨this, hheld, hdestroy this, hassign this⟩
  · obtain ⟨-, hbefore⟩ := hheld.of_transfer hsrc
    rcases hop with ⟨rfl, -⟩ | rfl
    · exact .inr ⟨_, hbefore, nofun, nofun⟩
    · -- the object assigned to is `x`, and it is not the one that held
      have hx : x ≠ (if this = x then other else this) := by
        split
        · exact hne
        · rename_i hthis
          exact fun heq => hthis heq.symm
      refine .inr ⟨_, hbefore, nofun, ?_⟩
      rintro y - heq
      exact hx (KeyOp.moveAssign.inj heq).1
  · have hx : this ≠ x := hheld.ne_of_none (Objects.put_self ..)
    rw [HeldBy, Objects.put_of_ne hx] at hheld
    refine .inr ⟨this, hheld, ?_, nofun⟩
    rintro heq
    exact hx (KeyOp.destroy.inj heq).symm

omit [DecidableEq ι] in
/-- Only what was generated can be lost. -/
theorem Loses.lt {gens : List Key} {t : Objects ι LabelledByte} (howned : Owned gens t) {g : Nat}
    {op : KeyOp ι UInt8} (h : Loses t g op) : g < gens.length := by
  obtain ⟨this, hholds, -⟩ := h
  obtain ⟨bytes, hgens, -⟩ := howned.heldBy hholds
  exact (List.getElem?_eq_some_iff.mp hgens).1

theorem Lost.lt {ops : List (KeyOp ι UInt8)} {g : Nat} (h : Lost ops g) :
    g < (generated ops).length := by
  obtain ⟨before, op, after, t, rfl, hrun, hloses⟩ := h
  have hlt := hloses.lt (owned_run hrun)
  rw [generated_append, List.length_append]
  omega

/-- **Held until lost**: a generation is held exactly as long as no
operation destroyed or overwrote its holder. -/
theorem heldBy_iff_not_lost {ops : List (KeyOp ι UInt8)} {t : Objects ι LabelledByte}
    (h : Objects.init.run (labelFrom 0 ops) = some t) {g : Nat} {bytes : Key}
    (hg : (generated ops)[g]? = some bytes) :
    (∃ this, HeldBy t g bytes this) ↔ ¬ Lost ops g := by
  induction ops using List.reverseRecOn generalizing t with
  | nil => cases hg
  | append_singleton ops op ih =>
      obtain ⟨t₀, hrun, hstep⟩ := run_concat.mp h
      have howned := owned_run hrun
      have hlast : generated [op] = op.generated := List.append_nil _
      rw [generated_append, hlast] at hg
      rw [lost_concat_iff]
      by_cases hlt : g < (generated ops).length
      · rw [List.getElem?_append_left hlt] at hg
        constructor
        · rintro ⟨this, hheld⟩
          rcases hheld.before hstep with hnew | ⟨this', hbefore, hdestroy, hassign⟩
          · omega
          · rintro (hlost | ⟨t₁, hrun₁, x, hholds, hop⟩)
            · exact (ih hrun hg).mp ⟨this', hbefore⟩ hlost
            · rw [hrun] at hrun₁
              cases hrun₁
              cases howned.holds_unique hholds hbefore.holds
              rcases hop with rfl | ⟨other, hne, rfl⟩
              · exact hdestroy rfl
              · exact hassign other hne rfl
        · intro hnot
          obtain ⟨hlost, hloses⟩ := not_or.mp hnot
          obtain ⟨this, hheld⟩ := (ih hrun hg).mpr hlost
          rcases hheld.step hstep with hafter | hnow
          · exact hafter
          · exact absurd ⟨t₀, hrun, hnow⟩ hloses
      · -- the last operation generated it
        rw [List.getElem?_append_right (by omega)] at hg
        obtain ⟨hzero, x, rfl⟩ := KeyOp.generated_getElem? hg
        have hg : g = (generated ops).length := by omega
        subst hg
        constructor
        · rintro - (hlost | ⟨t₁, hrun₁, hloses⟩)
          · exact hlt hlost.lt
          · exact hlt (hloses.lt (owned_run hrun₁))
        · intro _
          have heffect := Objects.keyEffect_of_step hstep
          cases heffect with
          | generated hnone => exact ⟨x, Objects.put_self ..⟩

/-! ## Key material has one owner -/

/-- The objects `s` after the operations `ops`. -/
structure SingleOwner (ops : List (KeyOp ι UInt8)) (s : Objects ι UInt8) : Prop where
  /-- An object that is not valid holds zeros and gives no key out. -/
  invalid : ∀ this o, s this = some o → o.isValid = false →
    o.keyData = List.Vector.replicate AES_KEY_SIZE 0 ∧ o.secureKey.getKeyData = none
  /-- Assigning an object to itself changes nothing. -/
  selfAssign : ∀ this, s this ≠ none → s.step (.moveAssign this this) = some s
  /-- With labels on the bytes, no generation is in two objects, and a
  generation is in exactly one valid object until it is lost. -/
  owner : ∃ t, Objects.init.run (labelFrom 0 ops) = some t ∧ t.map LabelledByte.byte = s ∧
    (∀ g this this', Holds t g this → Holds t g this' → this = this') ∧
    ∀ g bytes, (generated ops)[g]? = some bytes →
      ((∃! this, HeldBy t g bytes this) ↔ ¬ Lost ops g)

/-- Forgetting the labels gives the run of the code. -/
theorem exists_labelled_run {ops : List (KeyOp ι UInt8)} {s : Objects ι UInt8}
    (h : Objects.init.run ops = some s) :
    ∃ t, Objects.init.run (labelFrom 0 ops) = some t ∧ t.map LabelledByte.byte = s := by
  have hmap := Objects.run_map (f := LabelledByte.byte) rfl Objects.init (labelFrom 0 ops)
  rw [map_labelFrom] at hmap
  exact Option.map_eq_some_iff.mp (hmap.symm.trans h)

/-- **Key material has one owner**, after every sequence of operations. -/
theorem run_singleOwner {ops : List (KeyOp ι UInt8)} {s : Objects ι UInt8}
    (h : Objects.init.run ops = some s) : SingleOwner ops s := by
  obtain ⟨t, hrun, rfl⟩ := exists_labelled_run h
  have howned := owned_run hrun
  constructor
  · intro this o ho hvalid
    obtain ⟨o', ho', rfl⟩ := Option.map_eq_some_iff.mp ho
    refine ⟨?_, by rw [SecureKey.getKeyData, KeyObject.secureKey, hvalid]; rfl⟩
    rcases howned.content this o' ho' with rfl | ⟨g, bytes, -, rfl⟩
    · rw [Objects.map_wiped rfl]
      rfl
    · cases hvalid
  · intro this hthis
    obtain ⟨o, ho⟩ := Option.ne_none_iff_exists'.mp hthis
    rw [Objects.step_moveAssign, if_neg hthis, ho, Option.map_some, if_pos rfl]
  · refine ⟨t, hrun, rfl, fun g this this' => howned.holds_unique, fun g bytes hg => ?_⟩
    rw [← heldBy_iff_not_lost hrun hg]
    constructor
    · rintro ⟨this, hheld, -⟩
      exact ⟨this, hheld⟩
    · rintro ⟨this, hheld⟩
      exact ⟨this, hheld, fun this' hheld' => howned.holds_unique hheld'.holds hheld.holds⟩

/-- Two keys, of which one is moved twice and then overwrites the other. -/
def sampleOps : List (KeyOp Nat UInt8) :=
  [.generate 0 true (List.Vector.replicate _ 7), .generate 1 false (List.Vector.replicate _ 8),
    .moveConstruct 2 0, .moveAssign 2 2, .generate 1 true (List.Vector.replicate _ 7),
    .moveAssign 0 2, .moveAssign 1 0, .destroy 2]

theorem run_singleOwner_sampleOps :
    ∃ s, Objects.init.run sampleOps = some s ∧ SingleOwner sampleOps s := by
  obtain ⟨s, hs⟩ := Option.isSome_iff_exists.mp
    (show (Objects.init.run sampleOps).isSome = true by decide)
  exact ⟨s, hs, run_singleOwner hs⟩

end

end OpenEnclave.Crypto
