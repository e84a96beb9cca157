import Mathlib.Order.Defs.Unbundled

/-!
# Ordered sets

A set in the order of a strict weak order `less` is a sorted list. An element is not inserted if there is
one that is neither less nor greater. The elements from a lower bound on are a suffix, and those of a
contiguous kind come first in it.
-/

namespace Framework

namespace OrderedSet

variable {α : Type} (less : α → α → Bool)

/-- Insert an element: whether there was none like it, and the set. -/
def insert (x : α) : List α → Bool × List α
  | [] => (true, [x])
  | y :: ys =>
      if less x y then (true, x :: y :: ys)
      else if less y x then ((insert x ys).1, y :: (insert x ys).2)
      else (false, y :: ys)

/-- The elements from the first one on that is not less than `x`. -/
def lowerBound (x : α) (xs : List α) : List α := xs.dropWhile fun y => less y x

/-- The elements of a set are strictly increasing. -/
def Sorted (xs : List α) : Prop := xs.Pairwise fun a b => less a b = true

/-- Two elements that a set does not tell apart. -/
def Same (x y : α) : Prop := ¬less x y = true ∧ ¬less y x = true

variable {less}

theorem insert_perm {x : α} {xs : List α} (h : (insert less x xs).1 = true) :
    (insert less x xs).2.Perm (x :: xs) := by
  induction xs with
  | nil => exact List.Perm.refl _
  | cons y ys ih =>
      rw [insert] at h ⊢
      split at h
      · rename_i hxy
        rw [if_pos hxy]
      · rename_i hxy
        split at h
        · rename_i hyx
          rw [if_neg hxy, if_pos hyx]
          exact ((ih h).cons y).trans (List.Perm.swap x y ys)
        · cases h

theorem insert_eq {x : α} {xs : List α} (h : (insert less x xs).1 = false) :
    (insert less x xs).2 = xs := by
  induction xs with
  | nil => cases h
  | cons y ys ih =>
      rw [insert] at h ⊢
      split at h
      · cases h
      · rename_i hxy
        split at h
        · rename_i hyx
          rw [if_neg hxy, if_pos hyx]
          exact congrArg (y :: ·) (ih h)
        · rename_i hyx
          rw [if_neg hxy, if_neg hyx]

theorem mem_of_mem_insert {x y : α} {xs : List α} (h : y ∈ (insert less x xs).2) :
    y = x ∨ y ∈ xs := by
  cases hnew : (insert less x xs).1 with
  | true => exact List.mem_cons.mp ((insert_perm hnew).mem_iff.mp h)
  | false =>
      rw [insert_eq hnew] at h
      exact Or.inr h

variable [hw : IsStrictWeakOrder α fun a b => less a b = true]

theorem less_trans {x y z : α} (hxy : less x y = true) (hyz : less y z = true) : less x z = true :=
  hw.trans x y z hxy hyz

theorem sorted_insert {x : α} {xs : List α} (h : Sorted less xs) :
    Sorted less (insert less x xs).2 := by
  induction xs with
  | nil => exact List.pairwise_singleton _ _
  | cons y ys ih =>
      obtain ⟨hy, hys⟩ := List.pairwise_cons.mp h
      rw [insert]
      split
      · rename_i hxy
        refine List.pairwise_cons.mpr ⟨fun z hz => ?_, h⟩
        rcases List.mem_cons.mp hz with rfl | hz
        · exact hxy
        · exact less_trans hxy (hy z hz)
      · split
        · rename_i hyx
          refine List.pairwise_cons.mpr ⟨fun z hz => ?_, ih hys⟩
          rcases mem_of_mem_insert hz with rfl | hz
          · exact hyx
          · exact hy z hz
        · exact h

theorem insert_fst {x : α} {xs : List α} (h : Sorted less xs) :
    (insert less x xs).1 = true ↔ ∀ y ∈ xs, ¬Same less x y := by
  induction xs with
  | nil => simp [insert]
  | cons y ys ih =>
      obtain ⟨hy, hys⟩ := List.pairwise_cons.mp h
      rw [insert, List.forall_mem_cons]
      split
      · rename_i hxy
        refine ⟨fun _ => ⟨fun hsame => hsame.1 hxy, fun z hz hsame => ?_⟩, fun _ => rfl⟩
        exact hsame.1 (less_trans hxy (hy z hz))
      · rename_i hxy
        split
        · rename_i hyx
          rw [ih hys]
          exact ⟨fun hall => ⟨fun hsame => hsame.2 hyx, hall⟩, fun hall => hall.2⟩
        · rename_i hyx
          exact ⟨fun hno => absurd hno Bool.false_ne_true, fun hall => absurd ⟨hxy, hyx⟩ hall.1⟩

/-- The elements of a kind stand together and are not less than `x`. -/
structure Contiguous (less : α → α → Bool) (x : α) (p : α → Bool) : Prop where
  from_bound : ∀ y, p y = true → ¬less y x = true
  between : ∀ y z, ¬less y x = true → less y z = true → p z = true → p y = true

theorem takeWhile_lowerBound {x : α} {p : α → Bool} {xs : List α} (hp : Contiguous less x p)
    (h : Sorted less xs) : (lowerBound less x xs).takeWhile p = xs.filter p := by
  induction xs with
  | nil => rfl
  | cons y ys ih =>
      obtain ⟨hy, hys⟩ := List.pairwise_cons.mp h
      rw [lowerBound, List.dropWhile_cons]
      by_cases hyx : less y x = true
      · have hno : ¬p y = true := fun hpy => hp.from_bound y hpy hyx
        rw [if_pos hyx, List.filter_cons_of_neg hno, ← lowerBound, ih hys]
      · rw [if_neg hyx]
        -- everything behind `y` is behind the lower bound as well
        have hall : lowerBound less x ys = ys := by
          cases ys with
          | nil => rfl
          | cons z zs =>
              have hyz := hy z List.mem_cons_self
              have hzx : ¬less z x = true := fun hzx => hyx (less_trans hyz hzx)
              rw [lowerBound, List.dropWhile_cons, if_neg hzx]
        have hrest := ih hys
        rw [hall] at hrest
        by_cases hpy : p y = true
        · rw [List.takeWhile_cons_of_pos hpy, List.filter_cons_of_pos hpy, hrest]
        · rw [List.takeWhile_cons_of_neg hpy, List.filter_cons_of_neg hpy]
          refine (List.filter_eq_nil_iff.mpr fun z hz hpz => ?_).symm
          exact hpy (hp.between y z hyx (hy z hz) hpz)

end OrderedSet

end Framework
