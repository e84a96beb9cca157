import Mathlib.Data.List.Basic

/-!
# Stream buffers

A buffer that is filled at its end and consumed from its start. The room behind the filled part is
its tail; what is consumed in front of it is not reused until the buffer is empty or is asked for
more room, when the filled part moves up to the front.
-/

namespace Framework

/-- `full` is the filled part; it begins at position `start` of `size` positions, at the first
one if it is empty. -/
structure StreamBuffer (α : Type) where
  size : Nat
  start : Nat
  full : List α
  inside : start + full.length ≤ size
  restarts : full = [] → start = 0
deriving DecidableEq, Repr

namespace StreamBuffer

variable {α : Type}

def empty (size : Nat) : StreamBuffer α := ⟨size, 0, [], Nat.zero_le size, fun _ => rfl⟩

def fullbytes (b : StreamBuffer α) : Nat := b.full.length

def tailbytes (b : StreamBuffer α) : Nat := b.size - (b.start + b.full.length)

/-- Write to the end of the filled part, where there is room. -/
def fill (b : StreamBuffer α) (xs : List α) (h : xs.length ≤ b.tailbytes) : StreamBuffer α where
  size := b.size
  start := b.start
  full := b.full ++ xs
  inside := by
    have hin := b.inside
    rw [tailbytes] at h
    rw [List.length_append]
    omega
  restarts := fun hnil => b.restarts (List.append_eq_nil_iff.mp hnil).1

/-- Take `n` elements off the front. An empty buffer starts over. -/
def consume (b : StreamBuffer α) (n : Nat) : StreamBuffer α :=
  if h : b.full.length ≤ n then ⟨b.size, 0, [], by simp, fun _ => rfl⟩
  else {
    size := b.size
    start := b.start + n
    full := b.full.drop n
    inside := by
      have hin := b.inside
      rw [List.length_drop]
      omega
    restarts := fun hnil => absurd (List.drop_eq_nil_iff.mp hnil) h }

/-- Make room for `n` more elements: move the filled part up, or get a larger buffer. -/
def reserve (b : StreamBuffer α) (n : Nat) : StreamBuffer α :=
  if n ≤ b.tailbytes then b
  else if n ≤ b.start + b.tailbytes then ⟨b.size, 0, b.full, by have := b.inside; omega, fun _ => rfl⟩
  else ⟨max (n + b.full.length) (b.size * 2), 0, b.full, by omega, fun _ => rfl⟩

@[simp] theorem fill_full (b : StreamBuffer α) (xs : List α) (h : xs.length ≤ b.tailbytes) :
    (b.fill xs h).full = b.full ++ xs := rfl

@[simp] theorem fill_size (b : StreamBuffer α) (xs : List α) (h : xs.length ≤ b.tailbytes) :
    (b.fill xs h).size = b.size := rfl

theorem fill_tailbytes (b : StreamBuffer α) (xs : List α) (h : xs.length ≤ b.tailbytes) :
    (b.fill xs h).tailbytes = b.tailbytes - xs.length := by
  change b.size - (b.start + (b.full ++ xs).length) = b.size - (b.start + b.full.length) - xs.length
  rw [List.length_append]
  omega

@[simp] theorem consume_full (b : StreamBuffer α) (n : Nat) :
    (b.consume n).full = b.full.drop n := by
  unfold consume
  split
  · rename_i h
    rw [List.drop_of_length_le h]
  · rfl

theorem consume_min_full (b : StreamBuffer α) (n : Nat) :
    (b.consume (min n b.fullbytes)).full = b.full.drop n := by
  rw [consume_full, fullbytes]
  cases Nat.le_total n b.full.length with
  | inl hle => rw [Nat.min_eq_left hle]
  | inr hle => rw [Nat.min_eq_right hle, List.drop_length, List.drop_of_length_le hle]

@[simp] theorem consume_size (b : StreamBuffer α) (n : Nat) : (b.consume n).size = b.size := by
  unfold consume
  split <;> rfl

@[simp] theorem reserve_full (b : StreamBuffer α) (n : Nat) : (b.reserve n).full = b.full := by
  unfold reserve
  split
  · rfl
  · split <;> rfl

theorem size_le_reserve (b : StreamBuffer α) (n : Nat) : b.size ≤ (b.reserve n).size := by
  unfold reserve
  split
  · exact Nat.le_refl _
  · split
    · exact Nat.le_refl _
    · show b.size ≤ max (n + b.full.length) (b.size * 2)
      omega

@[simp] theorem empty_full (size : Nat) : (empty size : StreamBuffer α).full = [] := rfl

@[simp] theorem empty_size (size : Nat) : (empty size : StreamBuffer α).size = size := rfl

theorem tailbytes_of_empty (b : StreamBuffer α) (h : b.full = []) : b.tailbytes = b.size := by
  rw [tailbytes, b.restarts h, h]
  rfl

theorem le_tailbytes_reserve (b : StreamBuffer α) (n : Nat) : n ≤ (b.reserve n).tailbytes := by
  have hin := b.inside
  unfold reserve
  split
  · assumption
  · split
    · simp only [tailbytes] at *
      omega
    · simp only [tailbytes]
      omega

end StreamBuffer

end Framework
