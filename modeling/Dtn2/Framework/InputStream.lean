import Mathlib.Data.List.Basic

/-!
# Input streams over a string

A stream holds the characters in front of its read position and those behind it. A read that runs
out of characters stores what there is and fails the stream, and a failed stream neither stores
anything nor moves.
-/

namespace Framework

structure InputStream (β : Type) where
  before : List β
  after : List β
  failed : Bool
deriving DecidableEq, Repr

namespace InputStream

variable {β : Type}

def ofList (xs : List β) : InputStream β := ⟨[], xs, false⟩

def data (s : InputStream β) : List β := s.before ++ s.after

/-- `get()`: the next character, `none` at the end of the string. -/
def get (s : InputStream β) : Option β × InputStream β :=
  if s.failed then (none, s)
  else match s.after with
    | [] => (none, { s with failed := true })
    | b :: bs => (some b, { s with before := s.before ++ [b], after := bs })

/-- `read(.., n)`: the characters that are stored. -/
def read (s : InputStream β) (n : Nat) : List β × InputStream β :=
  if s.failed then ([], s)
  else (s.after.take n, ⟨s.before ++ s.after.take n, s.after.drop n, decide (s.after.length < n)⟩)

/-- `tellg()`, `-1` for a failed stream. -/
def tellg (s : InputStream β) : Int := if s.failed then -1 else s.before.length

/-- `seekg(0, end)`. -/
def seekEnd (s : InputStream β) : InputStream β :=
  if s.failed then s else ⟨s.data, [], false⟩

/-- `seekg(p)`, which fails outside the string. -/
def seek (s : InputStream β) (p : Int) : InputStream β :=
  if s.failed then s
  else if 0 ≤ p ∧ p ≤ s.data.length then ⟨s.data.take p.toNat, s.data.drop p.toNat, false⟩
  else { s with failed := true }

/-- A stream that has not failed stands between two parts of its string. -/
def between (xs ys : List β) : InputStream β := ⟨xs, ys, false⟩

variable (xs ys zs : List β) (b : β)

@[simp] theorem between_before : (between xs ys).before = xs := rfl

@[simp] theorem between_after : (between xs ys).after = ys := rfl

@[simp] theorem tellg_between : (between xs ys).tellg = xs.length := rfl

@[simp] theorem get_between_cons : (between xs (b :: ys)).get = (some b, between (xs ++ [b]) ys) := rfl

@[simp] theorem read_between_append :
    (between xs (ys ++ zs)).read ys.length = (ys, between (xs ++ ys) zs) := by
  simp [between, read]

theorem read_between {n : Nat} (h : n ≤ ys.length) :
    (between xs ys).read n = (ys.take n, between (xs ++ ys.take n) (ys.drop n)) := by
  simp [between, read, Nat.not_lt.mpr h]

theorem read_short {n : Nat} (h : ys.length < n) :
    (between xs ys).read n = (ys, ⟨xs ++ ys, [], true⟩) := by
  simp [between, read, h, List.take_of_length_le (Nat.le_of_lt h), Nat.le_of_lt h]

theorem seekEnd_between : (between xs ys).seekEnd = between (xs ++ ys) [] := rfl

theorem seek_between : (between (xs ++ ys) zs).seek xs.length = between xs (ys ++ zs) := by
  have hdata : (between (xs ++ ys) zs).data = xs ++ (ys ++ zs) := List.append_assoc xs ys zs
  have hin : 0 ≤ (xs.length : Int) ∧ (xs.length : Int) ≤ (xs ++ (ys ++ zs)).length := by
    rw [List.length_append]
    omega
  have hgood : ¬ (between (xs ++ ys) zs).failed = true := Bool.false_ne_true
  rw [seek, hdata, if_neg hgood, if_pos hin, Int.toNat_natCast, List.take_left, List.drop_left]
  rfl

end InputStream

end Framework
