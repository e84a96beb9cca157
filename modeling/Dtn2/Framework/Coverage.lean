import Mathlib.Data.List.Pairwise
import Mathlib.Order.Interval.Set.Defs
import Mathlib.Order.Nat

/-!
# Covering an interval

Pieces with a start and a length, kept in a list by their start. The running end of the pieces,
taken from the front of the list, reaches `n` without meeting a hole exactly if the pieces cover
everything below `n`.
-/

namespace Framework

namespace Coverage

variable {α : Type} (start len : α → Nat)

def extent (a : α) : Set Nat := Set.Ico (start a) (start a + len a)

/-- The pieces cover everything below `n`. -/
def Covers (l : List α) (n : Nat) : Prop := ∀ x < n, ∃ a ∈ l, x ∈ extent start len a

/-- In front of the first piece that starts later. -/
def insertSorted (a : α) : List α → List α
  | [] => [a]
  | b :: l => if start a < start b then a :: b :: l else b :: insertSorted a l

/-- The end of what is covered without a hole, starting from `done`. -/
def highWater : List α → Nat → Option Nat
  | [], done => some done
  | a :: l, done => if done < start a then none else highWater l (max done (start a + len a))

/-- The pieces are in the order of their starts. -/
def Sorted (l : List α) : Prop := l.Pairwise fun a b => start a ≤ start b

theorem insertSorted_perm (a : α) (l : List α) : (insertSorted start a l).Perm (a :: l) := by
  induction l with
  | nil => exact List.Perm.refl _
  | cons b l ih =>
      rw [insertSorted]
      split
      · exact List.Perm.refl _
      · exact (ih.cons b).trans (List.Perm.swap a b l)

@[simp] theorem mem_insertSorted (a b : α) (l : List α) :
    b ∈ insertSorted start a l ↔ b = a ∨ b ∈ l := by
  rw [(insertSorted_perm start a l).mem_iff, List.mem_cons]

theorem sorted_insertSorted {l : List α} (h : Sorted start l) (a : α) :
    Sorted start (insertSorted start a l) := by
  induction l with
  | nil => exact List.pairwise_singleton _ _
  | cons b l ih =>
      obtain ⟨hb, hl⟩ := List.pairwise_cons.mp h
      rw [insertSorted]
      split
      · rename_i hlt
        refine List.pairwise_cons.mpr ⟨?_, h⟩
        intro c hc
        rcases List.mem_cons.mp hc with rfl | hc
        · exact hlt.le
        · exact hlt.le.trans (hb c hc)
      · rename_i hge
        refine List.pairwise_cons.mpr ⟨?_, ih hl⟩
        intro c hc
        rcases (mem_insertSorted start a c l).mp hc with rfl | hc
        · omega
        · exact hb c hc

variable {start len}

private theorem highWater_sound {l : List α} {done n : Nat}
    (h : highWater start len l done = some n) :
    done ≤ n ∧ ∀ x, done ≤ x → x < n → ∃ a ∈ l, x ∈ extent start len a := by
  induction l generalizing done with
  | nil =>
      obtain rfl := Option.some.inj h
      exact ⟨le_refl _, fun x hx hlt => by omega⟩
  | cons a l ih =>
      rw [highWater] at h
      split at h
      · cases h
      · rename_i hstart
        obtain ⟨hle, hall⟩ := ih h
        refine ⟨by omega, ?_⟩
        intro x hx hlt
        by_cases hin : x < start a + len a
        · exact ⟨a, List.mem_cons_self, by simp only [extent, Set.mem_Ico]; omega⟩
        · obtain ⟨b, hb, hbx⟩ := hall x (by omega) hlt
          exact ⟨b, List.mem_cons_of_mem _ hb, hbx⟩

private theorem highWater_complete {l : List α} {done n : Nat} (hsorted : Sorted start l)
    (hdone : done ≤ n) (hbound : ∀ a ∈ l, start a + len a ≤ n)
    (h : ∀ x, done ≤ x → x < n → ∃ a ∈ l, x ∈ extent start len a) :
    highWater start len l done = some n := by
  induction l generalizing done with
  | nil =>
      have hge : n ≤ done := by
        by_contra hlt
        obtain ⟨a, ha, -⟩ := h done (le_refl _) (by omega)
        cases ha
      rw [highWater, le_antisymm hdone hge]
  | cons a l ih =>
      obtain ⟨ha, hl⟩ := List.pairwise_cons.mp hsorted
      have hend := hbound a List.mem_cons_self
      have hstart : ¬ done < start a := by
        intro hlt
        obtain ⟨b, hb, hbx⟩ := h done (le_refl _) (by omega)
        simp only [extent, Set.mem_Ico] at hbx
        rcases List.mem_cons.mp hb with rfl | hb
        · omega
        · have := ha b hb
          omega
      rw [highWater, if_neg hstart]
      apply ih hl (by omega) fun b hb => hbound b (List.mem_cons_of_mem _ hb)
      intro x hx hlt
      obtain ⟨b, hb, hbx⟩ := h x (by omega) hlt
      rcases List.mem_cons.mp hb with rfl | hb
      · simp only [extent, Set.mem_Ico] at hbx
        omega
      · exact ⟨b, hb, hbx⟩

theorem le_of_highWater {l : List α} {done n : Nat} (h : highWater start len l done = some n) :
    ∀ a ∈ l, start a + len a ≤ n := by
  induction l generalizing done with
  | nil => exact fun a ha => absurd ha List.not_mem_nil
  | cons b l ih =>
      rw [highWater] at h
      split at h
      · cases h
      · have hle := (highWater_sound h).1
        intro a ha
        rcases List.mem_cons.mp ha with rfl | ha
        · omega
        · exact ih h a ha

/-- Pieces that stay below `n`, in order: the scan ends at `n` exactly if they cover it. -/
theorem highWater_eq_iff {l : List α} {n : Nat} (hsorted : Sorted start l)
    (hbound : ∀ a ∈ l, start a + len a ≤ n) :
    highWater start len l 0 = some n ↔ Covers start len l n := by
  constructor
  · intro h x hx
    exact (highWater_sound h).2 x (Nat.zero_le x) hx
  · intro h
    exact highWater_complete hsorted (Nat.zero_le n) hbound fun x _ hx => h x hx

end Coverage

end Framework
