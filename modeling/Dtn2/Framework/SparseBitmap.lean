import Mathlib.Data.Finset.Max
import Mathlib.Order.Interval.Finset.Nat
import Mathlib.Order.Lattice.Nat

/-!
# Sparse bitmaps

A bitmap over the natural numbers, taken as the finite set of its bits. Bits are set in ranges,
cleared one by one, and visited in ascending order. Most bitmaps of a transfer are filled from the
bottom up: for those the set is `Finset.range n`, and every reading of it is `n`.
-/

namespace Framework

abbrev SparseBitmap := Finset Nat

namespace SparseBitmap

/-- Set `len` bits from `start` on. -/
def set (s : SparseBitmap) (start len : Nat) : SparseBitmap := s ∪ Finset.Ico start (start + len)

def clear (s : SparseBitmap) (i : Nat) : SparseBitmap := s.erase i

/-- The lowest bit, where an iteration begins. -/
def first (s : SparseBitmap) : Option Nat := s.min

def last (s : SparseBitmap) : Nat := s.sup id

/-- The number of bits set without a gap from `i` on, up to a bound. -/
def runFrom (s : SparseBitmap) : Nat → Nat → Nat
  | 0, _ => 0
  | bound + 1, i => if i ∈ s then runFrom s bound (i + 1) + 1 else 0

/-- The number of bits set without a gap from the lowest one on. -/
def numContiguous (s : SparseBitmap) : Nat :=
  match s.first with
  | none => 0
  | some i => s.runFrom s.card i

theorem first_eq_none {s : SparseBitmap} : s.first = none ↔ s = ∅ := Finset.min_eq_top

theorem first_eq_some {s : SparseBitmap} {i : Nat} (h : s.first = some i) :
    i ∈ s ∧ ∀ j ∈ s, i ≤ j := by
  refine ⟨Finset.mem_of_min h, ?_⟩
  intro j hj
  exact Finset.min_le_of_eq hj h

theorem first_of_least {s : SparseBitmap} {i : Nat} (hi : i ∈ s) (hle : ∀ j ∈ s, i ≤ j) :
    s.first = some i := by
  cases h : s.first with
  | none =>
      rw [first_eq_none.mp h] at hi
      simp at hi
  | some j =>
      obtain ⟨hj, hmin⟩ := first_eq_some h
      rw [Nat.le_antisymm (hmin i hi) (hle j hj)]

theorem mem_set {s : SparseBitmap} {start len i : Nat} :
    i ∈ s.set start len ↔ i ∈ s ∨ (start ≤ i ∧ i < start + len) := by
  simp [set]

/-! ## Bitmaps filled from the bottom up -/

theorem range_set (n len : Nat) : set (Finset.range n) n len = Finset.range (n + len) := by
  ext i
  rw [mem_set, Finset.mem_range, Finset.mem_range]
  omega

theorem range_set_zero (n len : Nat) : set (Finset.range n) 0 len = Finset.range (max n len) := by
  ext i
  rw [mem_set, Finset.mem_range, Finset.mem_range]
  omega

theorem range_eq_empty {n : Nat} : Finset.range n = ∅ ↔ n = 0 := by
  simp

theorem last_range {n : Nat} (h : n ≠ 0) : last (Finset.range n) + 1 = n := by
  have hle : (Finset.range n).sup id ≤ n - 1 := by
    apply Finset.sup_le
    intro i hi
    rw [Finset.mem_range] at hi
    show i ≤ n - 1
    omega
  have hge : n - 1 ≤ (Finset.range n).sup id := by
    have hmem : n - 1 ∈ Finset.range n := by
      rw [Finset.mem_range]
      omega
    exact Finset.le_sup (f := id) hmem
  rw [last]
  omega

private theorem runFrom_range (n bound i : Nat) (h : n ≤ i + bound) :
    runFrom (Finset.range n) bound i = n - i := by
  induction bound generalizing i with
  | zero =>
      rw [runFrom]
      omega
  | succ bound ih =>
      rw [runFrom]
      split
      · rename_i hmem
        rw [Finset.mem_range] at hmem
        rw [ih (i + 1) (by omega)]
        omega
      · rename_i hmem
        rw [Finset.mem_range] at hmem
        omega

@[simp] theorem numContiguous_range (n : Nat) : numContiguous (Finset.range n) = n := by
  rw [numContiguous]
  cases n with
  | zero => rfl
  | succ n =>
      have hfirst : first (Finset.range (n + 1)) = some 0 := by
        apply first_of_least
        · simp
        · intro j _
          omega
      rw [hfirst]
      show runFrom (Finset.range (n + 1)) (Finset.range (n + 1)).card 0 = n + 1
      rw [Finset.card_range, runFrom_range _ _ _ (by omega)]
      omega

end SparseBitmap

end Framework
