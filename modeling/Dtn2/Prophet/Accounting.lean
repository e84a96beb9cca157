import Dtn2.Prophet.HeapRoutines

/-!
# The bundles that the repository holds

Whatever the order of the list is, the heap routines only move its bundles. Every operation keeps the
bundles distinct and their octets counted modulo `2 ^ 32`, and this says which bundles it leaves.
-/

namespace Dtn2

namespace Prophet

open Framework BinaryHeap

variable {B : Type}

namespace Repository

section Count

variable (facade : Facade B)

def held (list : Nat → B) (size : Nat) : Nat :=
  (Finset.range size).sum fun i => facade.size (list i)

/-- The bundles are distinct, and `current_` counts their octets in 32 bits. -/
structure Counted (r : Repository B) : Prop where
  distinct : ∀ i, i < r.size → ∀ j, j < r.size → r.list i = r.list j → i = j
  current : r.current = held facade r.list r.size % 2 ^ 32

variable {facade} {r : Repository B}

theorem minus_add (a s : Nat) : minus ((a + s) % 2 ^ 32) s = a % 2 ^ 32 := by
  rw [minus]
  omega

theorem position_some {p : B → Bool} {pos : Nat} (h : r.position p = some pos) :
    pos < r.size ∧ p (r.list pos) = true := by
  rw [position] at h
  have hp := List.find?_some h
  exact ⟨List.mem_range.1 (List.mem_of_find?_eq_some h), hp⟩

theorem position_none {p : B → Bool} (h : r.position p = none) {i : Nat} (hi : i < r.size) :
    ¬p (r.list i) = true := by
  rw [position, List.find?_eq_none] at h
  exact h i (List.mem_range.2 hi)

theorem Counted.of_empty (hsize : r.size = 0) (hcurrent : r.current = 0) : Counted facade r := by
  constructor
  · intro i hi
    omega
  · rw [hcurrent, hsize]
    rfl

theorem Counted.current_of_empty (h : Counted facade r) (hsize : r.size = 0) : r.current = 0 := by
  rw [h.current, hsize]
  rfl

theorem Counted.shrink (h : Counted facade r) (hsize : 0 < r.size) {list : Nat → B} {gone : B}
    (hmoved : Rearranged r.size r.list (Function.update list (r.size - 1) gone)) :
    Counted facade { r with
      size := r.size - 1
      list := list
      current := minus r.current (facade.size gone) } where
  distinct i hi j hj hij := by
    have hinj := hmoved.injOn h.distinct i (by simp only at hi; omega) j (by simp only at hj; omega)
    simp only at hi hj
    rw [Function.update_of_ne (by omega), Function.update_of_ne (by omega)] at hinj
    exact hinj hij
  current := by
    have hsum := hmoved.sum_eq facade.size
    have hrange : r.size = (r.size - 1) + 1 := by omega
    rw [hrange, Finset.sum_range_succ, ← hrange, Function.update_self] at hsum
    have hrest : (Finset.range (r.size - 1)).sum
          (fun i => facade.size (Function.update list (r.size - 1) gone i)) =
        held facade list (r.size - 1) := by
      refine Finset.sum_congr rfl fun i hi => ?_
      rw [Function.update_of_ne (by have := Finset.mem_range.1 hi; omega)]
    rw [hrest] at hsum
    rw [h.current, held, ← hsum]
    exact minus_add _ _

theorem Counted.rearrange (h : Counted facade r) {list : Nat → B} {qc : QueueComp B}
    (hmoved : Rearranged r.size r.list list) :
    Counted facade { r with comp := qc, list := list } where
  distinct := hmoved.injOn h.distinct
  current := by
    rw [h.current, held, ← hmoved.sum_eq]
    rfl

theorem Counted.takeOut (h : Counted facade r) {pos : Nat} (hin : pos < r.size) :
    Counted facade (r.takeOut facade pos) :=
  h.shrink (by omega) (removeAndReheap_moved hin)

theorem popHeap_moved {after : B → B → Bool} {size : Nat} {list : Nat → B} (hsize : 0 < size) :
    Rearranged size list
      (Function.update (popHeap after size list (size - 1) (list (size - 1))) (size - 1) (list 0)) := by
  have hpop := @popHeap_rearranged B after size list hsize
  have hmoved := hpop.1
  rwa [← Function.update_eq_self (size - 1) (popHeap after _ _ _ _), hpop.2] at hmoved

def withoutTop (facade : Facade B) (r : Repository B) : Repository B :=
  { r with
    size := r.size - 1
    list := popHeap r.comp.after r.size r.list (r.size - 1) (r.list (r.size - 1))
    current := minus r.current (facade.size (r.list 0)) }

theorem evictTop_eq (hsize : 0 < r.size) :
    r.evictTop facade = some (r.withoutTop facade, r.list 0) := by
  have hpop := @popHeap_rearranged B r.comp.after r.size r.list hsize
  rw [evictTop, if_neg (by omega)]
  dsimp only
  rw [hpop.2]
  rfl

theorem Counted.withoutTop (h : Counted facade r) (hsize : 0 < r.size) :
    Counted facade (r.withoutTop facade) :=
  h.shrink hsize (popHeap_moved hsize)

theorem evict_cases (hsize : 0 < r.size) :
    r.evict facade = some (r.withoutTop facade, r.list 0) ∨
      ∃ pos, pos < r.size ∧ r.comp.lepr = true ∧ r.leprVictim = some pos ∧
        r.evict facade = some (r.takeOut facade pos, r.list pos) := by
  rw [evict]
  by_cases hlepr : r.comp.lepr = false
  · rw [if_pos hlepr]
    exact Or.inl (evictTop_eq hsize)
  · rw [if_neg hlepr]
    cases hvictim : r.leprVictim with
    | none => exact Or.inl (evictTop_eq hsize)
    | some pos => exact Or.inr ⟨pos, (position_some hvictim).1, by simpa using hlepr, rfl, rfl⟩

theorem insert_moved {after : B → B → Bool} {size : Nat} {list : Nat → B} {b : B} :
    Rearranged (size + 1) (Function.update list size b)
      (pushHeap after (Function.update list size b) size 0 b) := by
  have hpush : Rearranged (size + 1) (Function.update (Function.update list size b) size b)
      (pushHeap after (Function.update list size b) size 0 b) :=
    pushHeapLoop_rearranged (Nat.lt_succ_self size)
  rwa [Function.update_idem] at hpush

theorem Counted.insert (h : Counted facade r) {b : B} (hnew : ∀ i, i < r.size → r.list i ≠ b) :
    Counted facade (r.insert facade b) := by
  have hmoved := @insert_moved B r.comp.after r.size r.list b
  have hold : ∀ i, i < r.size → Function.update r.list r.size b i = r.list i :=
    fun i hi => Function.update_of_ne (by omega) _ _
  refine ⟨hmoved.injOn ?_, ?_⟩
  · intro i hi j hj hij
    by_cases hil : i = r.size
    · by_cases hjl : j = r.size
      · rw [hil, hjl]
      · rw [hil, Function.update_self, hold j (by omega)] at hij
        exact absurd hij.symm (hnew j (by omega))
    · rw [hold i (by omega)] at hij
      by_cases hjl : j = r.size
      · rw [hjl, Function.update_self] at hij
        exact absurd hij (hnew i (by omega))
      · rw [hold j (by omega)] at hij
        exact h.distinct i (by omega) j (by omega) hij
  · have hsum := hmoved.sum_eq facade.size
    rw [Finset.sum_range_succ fun i => facade.size (Function.update r.list r.size b i),
      Function.update_self] at hsum
    have hrest : (Finset.range r.size).sum
        (fun i => facade.size (Function.update r.list r.size b i)) = held facade r.list r.size :=
      Finset.sum_congr rfl fun i hi => by rw [hold i (Finset.mem_range.1 hi)]
    rw [hrest] at hsum
    show (r.current + facade.size b) % 2 ^ 32 =
      held facade (pushHeap r.comp.after (Function.update r.list r.size b) r.size 0 b)
        (r.size + 1) % 2 ^ 32
    rw [held, hsum, h.current, Nat.mod_add_mod]

theorem setComparator_moved (r : Repository B) (qc : QueueComp B) :
    Rearranged r.size r.list (r.setComparator qc).list := by
  rw [setComparator]
  by_cases hempty : r.size = 0
  · rw [if_pos hempty]
    exact .refl _ _
  · rw [if_neg hempty]
    exact makeHeap_rearranged.mono (by omega)

theorem changePriority_moved {b : B}
    (hfound : ∀ pos, r.position (fun x => facade.same x b) = some pos → r.list pos = b) :
    Rearranged r.size r.list (r.changePriority facade b).list := by
  rw [changePriority]
  cases hposition : r.position fun x => facade.same x b with
  | none => exact .refl _ _
  | some pos =>
      have hin := (position_some hposition).1
      have hmoved := @removeAndReheap_moved B r.comp.after r.size pos r.list hin
      rw [hfound pos hposition] at hmoved
      exact hmoved.trans (pushHeapLoop_rearranged (by omega))

end Count

/-! ## Sets of bundles -/

section Sets

variable [DecidableEq B] {facade : Facade B} {r : Repository B}

def bundles (r : Repository B) : Finset B := (Finset.range r.size).image r.list

theorem mem_bundles {b : B} : b ∈ r.bundles ↔ ∃ i, i < r.size ∧ r.list i = b := by
  simp [bundles]

theorem bundles_of_empty (hsize : r.size = 0) : r.bundles = ∅ := by
  rw [bundles, hsize]
  rfl

theorem position_eq_none {b : B} :
    (r.position fun x => decide (x = b)) = none ↔ b ∉ r.bundles := by
  simp [position, mem_bundles]

theorem Counted.card_bundles (h : Counted facade r) : r.bundles.card = r.size := by
  rw [bundles, Finset.card_image_of_injOn, Finset.card_range]
  intro i hi j hj hij
  rw [Finset.coe_range, Set.mem_Iio] at hi hj
  exact h.distinct i hi j hj hij

theorem Counted.sum_bundles (h : Counted facade r) :
    r.bundles.sum facade.size = held facade r.list r.size := by
  rw [bundles, Finset.sum_image, held]
  intro i hi j hj hij
  rw [Finset.coe_range, Set.mem_Iio] at hi hj
  exact h.distinct i hi j hj hij

theorem bundles_rearrange {list : Nat → B} {qc : QueueComp B}
    (hmoved : Rearranged r.size r.list list) :
    bundles { r with comp := qc, list := list } = r.bundles := by
  ext b
  rw [mem_bundles, mem_bundles]
  constructor
  · intro ⟨i, hi, hb⟩
    obtain ⟨j, hj, hij⟩ := hmoved.source hi
    exact ⟨j, hj, hij.symm.trans hb⟩
  · intro ⟨j, hj, hb⟩
    obtain ⟨i, hi, hij⟩ := hmoved.reached hj
    exact ⟨i, hi, hij.trans hb⟩

theorem Counted.bundles_shrink (h : Counted facade r) (hsize : 0 < r.size) {list : Nat → B}
    {gone : B} {current : Nat}
    (hmoved : Rearranged r.size r.list (Function.update list (r.size - 1) gone)) :
    bundles { r with size := r.size - 1, list := list, current := current } =
      r.bundles.erase gone := by
  have hinj := hmoved.injOn h.distinct
  ext b
  rw [Finset.mem_erase, mem_bundles, mem_bundles]
  constructor
  · intro ⟨i, hi, hb⟩
    simp only at hi hb
    have hkeep : Function.update list (r.size - 1) gone i = b := by
      rw [Function.update_of_ne (by omega), hb]
    refine ⟨fun hgone => ?_, ?_⟩
    · have hlast : i = r.size - 1 := hinj i (by omega) (r.size - 1) (by omega) (by
        rw [hkeep, hgone, Function.update_self])
      omega
    · obtain ⟨j, hj, hij⟩ := hmoved.source (show i < r.size by omega)
      exact ⟨j, hj, hij.symm.trans hkeep⟩
  · intro ⟨hne, j, hj, hb⟩
    obtain ⟨i, hi, hij⟩ := hmoved.reached hj
    have hnot : i ≠ r.size - 1 := by
      intro hlast
      rw [hlast, Function.update_self, hb] at hij
      exact hne hij.symm
    rw [Function.update_of_ne hnot, hb] at hij
    exact ⟨i, by simp only; omega, hij⟩

theorem Counted.bundles_takeOut (h : Counted facade r) {pos : Nat} (hin : pos < r.size) :
    (r.takeOut facade pos).bundles = r.bundles.erase (r.list pos) :=
  h.bundles_shrink (by omega) (removeAndReheap_moved hin)

theorem Counted.bundles_withoutTop (h : Counted facade r) (hsize : 0 < r.size) :
    (r.withoutTop facade).bundles = r.bundles.erase (r.list 0) :=
  h.bundles_shrink hsize (popHeap_moved hsize)

theorem bundles_insert (r : Repository B) (b : B) :
    (r.insert facade b).bundles = r.bundles ∪ {b} := by
  have hmoved := @insert_moved B r.comp.after r.size r.list b
  ext x
  rw [Finset.mem_union, Finset.mem_singleton, mem_bundles, mem_bundles]
  constructor
  · intro ⟨i, hi, hx⟩
    obtain ⟨j, hj, hij⟩ := hmoved.source hi
    rw [← hx]
    by_cases hlast : j = r.size
    · refine Or.inr (hij.trans ?_)
      rw [hlast, Function.update_self]
    · refine Or.inl ⟨j, by omega, ?_⟩
      exact (hij.trans (Function.update_of_ne hlast _ _)).symm
  · intro hx
    rcases hx with ⟨j, hj, hx⟩ | hx
    · obtain ⟨i, hi, hij⟩ := hmoved.reached (show j < r.size + 1 by omega)
      rw [Function.update_of_ne (by omega)] at hij
      exact ⟨i, hi, hij.trans hx⟩
    · obtain ⟨i, hi, hij⟩ := hmoved.reached (Nat.lt_succ_self r.size)
      rw [Function.update_self] at hij
      exact ⟨i, hi, hij.trans hx.symm⟩

end Sets

end Repository

end Prophet

end Dtn2
