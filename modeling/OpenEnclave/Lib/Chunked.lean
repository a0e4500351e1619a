import Mathlib.Data.List.Basic

/-!
# Chunked — a byte stream as the kernel makes it available

A stream socket delivers a sequence of elements, but a receiver sees it
cut into chunks: a plain receive returns what is available now, a
wait-all receive blocks until its count is there or the stream has
ended. `Chunked` is a stream together with its cut; `recv` and
`recvAll` are the two receive calls. Every fact about the wait-all call
speaks of `elems` only, so it is independent of the cut; the plain call
depends on the first chunk and on nothing else.
-/

/-- A finite stream with the cut in which it becomes available. Chunks
are not empty: a receive that returns no element is the end of the
stream. -/
structure Chunked (α : Type) where
  chunks : List (List α)
  nonempty : ∀ c ∈ chunks, c ≠ []

namespace Chunked

variable {α : Type}

/-- The stream itself, the cut forgotten. -/
def elems (s : Chunked α) : List α := s.chunks.flatten

/-- How many elements the first receive finds available. -/
def available (s : Chunked α) : Nat := (s.chunks.head?.getD []).length

/-- The stream that arrives in one piece. -/
def whole : List α → Chunked α
  | [] => ⟨[], by simp⟩
  | a :: l => ⟨[a :: l], by simp⟩

@[simp] theorem elems_whole (l : List α) : (whole l).elems = l := by
  cases l <;> simp [whole, elems]

@[simp] theorem available_whole (l : List α) : (whole l).available = l.length := by
  cases l <;> simp [whole, available]

theorem available_le (s : Chunked α) : s.available ≤ s.elems.length := by
  obtain ⟨cs, h⟩ := s
  cases cs with
  | nil => simp [available]
  | cons c cs => simp [available, elems]

/-! ## Receive what is available -/

/-- The rest of the chunks once `n` elements of the first are taken. -/
def restChunks (n : Nat) : List (List α) → List (List α)
  | [] => []
  | c :: cs => if c.length ≤ n then cs else c.drop n :: cs

theorem restChunks_nonempty (n : Nat) {cs : List (List α)} (h : ∀ c ∈ cs, c ≠ []) :
    ∀ c ∈ restChunks n cs, c ≠ [] := by
  cases cs with
  | nil => simp [restChunks]
  | cons c cs =>
      intro d hd
      simp only [restChunks] at hd
      split at hd
      · exact h d (List.mem_cons_of_mem _ hd)
      · rename_i hlt
        rcases List.mem_cons.mp hd with rfl | hd
        · intro he
          exact hlt (by simpa using List.drop_eq_nil_iff.mp he)
        · exact h d (List.mem_cons_of_mem _ hd)

/-- `recv(fd, buf, n, 0)`: at most `n` elements of the first chunk, and
none exactly at the end of the stream. -/
def recv (n : Nat) (s : Chunked α) : List α × Chunked α :=
  ((s.chunks.head?.getD []).take n,
    ⟨restChunks n s.chunks, restChunks_nonempty n s.nonempty⟩)

theorem recv_fst (n : Nat) (s : Chunked α) :
    (s.recv n).1 = s.elems.take (min n s.available) := by
  obtain ⟨cs, h⟩ := s
  cases cs with
  | nil => simp [recv, elems]
  | cons c cs =>
      simp only [recv, elems, available, List.head?_cons, Option.getD_some,
        List.flatten_cons]
      rw [List.take_append_of_le_length (Nat.min_le_right _ _), List.take_eq_take_iff]
      omega

theorem recv_snd_elems (n : Nat) (s : Chunked α) :
    (s.recv n).2.elems = s.elems.drop (min n s.available) := by
  obtain ⟨cs, h⟩ := s
  cases cs with
  | nil => simp [recv, elems, restChunks]
  | cons c cs =>
      simp only [recv, elems, available, restChunks, List.head?_cons, Option.getD_some,
        List.flatten_cons]
      by_cases hc : c.length ≤ n
      · simp [hc]
      · have hmin : min n c.length = n := by omega
        rw [if_neg hc, hmin, List.flatten_cons, List.drop_append_of_le_length (by omega)]

/-! ## Receive with wait-all -/

/-- The chunks left once `n` elements are taken, across chunk borders. -/
def dropChunks : Nat → List (List α) → List (List α)
  | _, [] => []
  | n, c :: cs => if c.length ≤ n then dropChunks (n - c.length) cs else c.drop n :: cs

theorem dropChunks_nonempty {cs : List (List α)} (h : ∀ c ∈ cs, c ≠ []) (n : Nat) :
    ∀ c ∈ dropChunks n cs, c ≠ [] := by
  induction cs generalizing n with
  | nil => simp [dropChunks]
  | cons c cs ih =>
      have htail : ∀ d ∈ cs, d ≠ [] := fun d hd => h d (List.mem_cons_of_mem _ hd)
      rw [dropChunks]
      split
      · exact ih htail _
      · rename_i hlt
        intro d hd
        rcases List.mem_cons.mp hd with rfl | hd
        · intro he
          exact hlt (by simpa using List.drop_eq_nil_iff.mp he)
        · exact htail d hd

theorem flatten_dropChunks (n : Nat) (cs : List (List α)) :
    (dropChunks n cs).flatten = cs.flatten.drop n := by
  induction cs generalizing n with
  | nil => simp [dropChunks]
  | cons c cs ih =>
      rw [dropChunks]
      split
      · rename_i hle
        rw [ih, List.flatten_cons, List.drop_append, List.drop_eq_nil_of_le hle,
          List.nil_append]
      · rename_i hlt
        rw [List.flatten_cons, List.flatten_cons, List.drop_append_of_le_length (by omega)]

/-- `recv(fd, buf, n, MSG_WAITALL)`: the full count unless the stream
ends before it. -/
def recvAll (n : Nat) (s : Chunked α) : List α × Chunked α :=
  (s.elems.take n, ⟨dropChunks n s.chunks, dropChunks_nonempty s.nonempty n⟩)

@[simp] theorem recvAll_fst (n : Nat) (s : Chunked α) :
    (s.recvAll n).1 = s.elems.take n := rfl

@[simp] theorem recvAll_snd_elems (n : Nat) (s : Chunked α) :
    (s.recvAll n).2.elems = s.elems.drop n := flatten_dropChunks n s.chunks

end Chunked
