import Mathlib.Algebra.BigOperators.Group.Finset.Basic
import Mathlib.Logic.Equiv.Basic
import Mathlib.Order.Defs.Unbundled

/-!
# Binary heaps

A heap lies in the first places of a vector, and the places `2 * i + 1` and `2 * i + 2` are the
children of `i`. Where `r x y` holds, `y` has to stand above `x`. The sifts work on a heap with a
hole, a place whose contents do not count: they move the hole up or down, and fill it when the order
allows it.
-/

namespace Framework

namespace BinaryHeap

/-- The place above another one. -/
def parent (i : Nat) : Nat := (i - 1) / 2

theorem parent_lt {i : Nat} (h : 0 < i) : parent i < i := by
  rw [parent]
  omega

theorem parent_eq {i p : Nat} (h : 0 < i) : parent i = p ↔ i = 2 * p + 1 ∨ i = 2 * p + 2 := by
  rw [parent]
  omega

/-- A place is below another one, or the same. -/
inductive Below (top : Nat) : Nat → Prop where
  | refl : Below top top
  | child {i : Nat} (hpos : 0 < i) (h : Below top (parent i)) : Below top i

theorem Below.le {top i : Nat} (h : Below top i) : top ≤ i := by
  induction h with
  | refl => exact Nat.le_refl top
  | child hpos _ ih => exact Nat.le_trans ih (Nat.le_of_lt (parent_lt hpos))

theorem Below.parent {top i : Nat} (h : Below top i) (hlt : top < i) : Below top (parent i) := by
  cases h with
  | refl => exact absurd hlt (Nat.lt_irrefl top)
  | child _ h => exact h

theorem below_zero (i : Nat) : Below 0 i := by
  induction i using Nat.strongRecOn with
  | ind i ih =>
      cases Nat.eq_zero_or_pos i with
      | inl hzero =>
          rw [hzero]
          exact .refl
      | inr hpos => exact .child hpos (ih _ (parent_lt hpos))

section Order

variable {α : Type} (r : α → α → Prop)

/-- No child of the first `n` places has to stand above its parent, from the place `root` on. -/
def Ordered (a : Nat → α) (root n : Nat) : Prop :=
  ∀ i, 0 < i → i < n → root ≤ parent i → ¬r (a (parent i)) (a i)

/-- The order of a heap with a hole: the pairs off the hole are in order, and so are the children of
the hole and its parent. -/
structure HoleOrder (a : Nat → α) (root n hole : Nat) : Prop where
  off : ∀ i, 0 < i → i < n → root ≤ parent i → i ≠ hole → parent i ≠ hole → ¬r (a (parent i)) (a i)
  across : 0 < hole → root ≤ parent hole → ∀ i, 0 < i → i < n → parent i = hole →
    ¬r (a (parent hole)) (a i)

variable {r} {a : Nat → α} {root n hole : Nat} {x : α}

theorem not_rel_trans [IsStrictWeakOrder α r] {x y z : α} (hxy : ¬r x y) (hyz : ¬r y z) :
    ¬r x z := by
  intro hxz
  by_cases hyx : r y x
  · exact hyz (IsTrans.trans _ _ _ hyx hxz)
  by_cases hzy : r z y
  · exact hxy (IsTrans.trans _ _ _ hxz hzy)
  have hxz' : ¬r x z ∧ ¬r z x := IsStrictWeakOrder.incomp_trans x y z ⟨hxy, hyx⟩ ⟨hyz, hzy⟩
  exact hxz'.1 hxz

theorem Ordered.root_first [IsStrictWeakOrder α r] (h : Ordered r a 0 n) {i : Nat} (hi : i < n) :
    ¬r (a 0) (a i) := by
  induction i using Nat.strongRecOn with
  | ind i ih =>
      cases Nat.eq_zero_or_pos i with
      | inl hzero =>
          rw [hzero]
          exact irrefl _
      | inr hpos =>
          have hlt := parent_lt hpos
          exact not_rel_trans (ih _ hlt (Nat.lt_trans hlt hi)) (h i hpos hi (Nat.zero_le _))

theorem Ordered.withHole [IsStrictWeakOrder α r] (h : Ordered r a root n) (hole : Nat)
    (hn : hole < n) : HoleOrder r a root n hole where
  off i hpos hi hroot _ _ := h i hpos hi hroot
  across hhole hroot i hpos hi hparent := by
    have hup := h hole hhole hn hroot
    have hle : root ≤ parent i := by
      have hlt := parent_lt hhole
      omega
    have hdown := h i hpos hi hle
    rw [hparent] at hdown
    exact not_rel_trans hup hdown

theorem Ordered.holeAbove (h : Ordered r a (root + 1) n) : HoleOrder r a root n root where
  off i hpos hi hroot _ hne := h i hpos hi (by omega)
  across hpos hroot := by
    have hlt := parent_lt hpos
    omega

theorem HoleOrder.congr {b : Nat → α} (h : HoleOrder r a root n hole)
    (hab : ∀ i, i < n → i ≠ hole → b i = a i) : HoleOrder r b root n hole where
  off i hpos hi hroot hne hparent := by
    have hlt := parent_lt hpos
    rw [hab i hi hne, hab _ (by omega) hparent]
    exact h.off i hpos hi hroot hne hparent
  across hhole hroot i hpos hi hparent := by
    have hlt := parent_lt hpos
    have hlt' := parent_lt hhole
    rw [hab i hi (by omega), hab _ (by omega) (by omega)]
    exact h.across hhole hroot i hpos hi hparent

theorem HoleOrder.mono {m : Nat} (h : HoleOrder r a root n hole) (hle : m ≤ n) :
    HoleOrder r a root m hole where
  off i hpos hi := h.off i hpos (Nat.lt_of_lt_of_le hi hle)
  across hhole hroot i hpos hi := h.across hhole hroot i hpos (Nat.lt_of_lt_of_le hi hle)

theorem HoleOrder.fill (h : HoleOrder r a root n hole)
    (habove : 0 < hole → hole < n → root ≤ parent hole → ¬r (a (parent hole)) x)
    (hbelow : ∀ i, 0 < i → i < n → parent i = hole → ¬r x (a i)) :
    Ordered r (Function.update a hole x) root n := by
  intro i hpos hi hroot
  by_cases hih : i = hole
  · have hup : parent i ≠ hole := by
      have hlt := parent_lt hpos
      omega
    rw [hih] at hpos hi hup hroot ⊢
    rw [Function.update_self, Function.update_of_ne hup]
    exact habove hpos hi hroot
  rw [Function.update_of_ne hih]
  by_cases hparent : parent i = hole
  · rw [hparent, Function.update_self]
    exact hbelow i hpos hi hparent
  · rw [Function.update_of_ne hparent]
    exact h.off i hpos hi hroot hih hparent

theorem Ordered.extend (h : Ordered r a root n) : HoleOrder r a root (n + 1) n where
  off i hpos hi hroot hne _ := h i hpos (by omega) hroot
  across _ _ i hpos hi hparent := by
    have hlt := parent_lt hpos
    omega

theorem HoleOrder.dropLast (h : HoleOrder r a root (n + 1) n) : Ordered r a root n := by
  intro i hpos hi hroot
  have hlt := parent_lt hpos
  exact h.off i hpos (by omega) hroot (by omega) (by omega)

/-- The hole moves up: its parent comes down. What has to stand above the parent may stand above all
the new children of the hole. -/
theorem HoleOrder.moveUp [IsStrictWeakOrder α r] (h : HoleOrder r a root n hole) (hpos : 0 < hole)
    (hin : hole < n) (hroot : root ≤ parent hole) (hx : r (a (parent hole)) x) :
    HoleOrder r (Function.update a hole (a (parent hole))) root n (parent hole) ∧
      ∀ i, 0 < i → i < n → parent i = parent hole →
        ¬r x (Function.update a hole (a (parent hole)) i) := by
  have hlt := parent_lt hpos
  have hup : 0 < parent hole → root ≤ parent (parent hole) →
      ¬r (a (parent (parent hole))) (a (parent hole)) := by
    intro hpos' hroot'
    have hlt' := parent_lt hpos'
    exact h.off _ hpos' (by omega) hroot' (by omega) (by omega)
  have hsibling : ∀ i, 0 < i → i < n → parent i = parent hole → i ≠ hole →
      ¬r (a (parent hole)) (a i) := by
    intro i hi hin' hparent hne
    have hoff := h.off i hi hin' (by omega) hne (by omega)
    rwa [hparent] at hoff
  refine ⟨⟨?_, ?_⟩, ?_⟩
  · intro i hi hin' hroot' hne hparent
    have hih : i ≠ hole := fun heq => hparent (congrArg parent heq)
    rw [Function.update_of_ne hih]
    by_cases hph : parent i = hole
    · rw [hph, Function.update_self]
      exact h.across hpos hroot i hi hin' hph
    · rw [Function.update_of_ne hph]
      exact h.off i hi hin' hroot' hih hph
  · intro hpos' hroot' i hi hin' hparent
    have hlt' := parent_lt hpos'
    have hne : parent (parent hole) ≠ hole := by omega
    rw [Function.update_of_ne hne]
    by_cases hih : i = hole
    · rw [hih, Function.update_self]
      exact hup hpos' hroot'
    · rw [Function.update_of_ne hih]
      exact not_rel_trans (hup hpos' hroot') (hsibling i hi hin' hparent hih)
  · intro i hi hin' hparent
    by_cases hih : i = hole
    · rw [hih, Function.update_self]
      exact asymm hx
    · rw [Function.update_of_ne hih]
      intro hxi
      exact hsibling i hi hin' hparent hih (IsTrans.trans _ _ _ hx hxi)

theorem HoleOrder.moveDown (h : HoleOrder r a root n hole) {c : Nat} (hpos : 0 < c)
    (hin : c < n) (hc : parent c = hole)
    (hbest : ∀ i, 0 < i → i < n → parent i = hole → ¬r (a c) (a i)) :
    HoleOrder r (Function.update a hole (a c)) root n c := by
  have hlt := parent_lt hpos
  constructor
  · intro i hi hin' hroot hne hparent
    by_cases hih : i = hole
    · have hup : parent i ≠ hole := by
        have hlt' := parent_lt hi
        omega
      rw [hih] at hi hup hroot ⊢
      rw [Function.update_self, Function.update_of_ne hup]
      exact h.across hi hroot c hpos hin hc
    rw [Function.update_of_ne hih]
    by_cases hph : parent i = hole
    · rw [hph, Function.update_self]
      exact hbest i hi hin' hph
    · rw [Function.update_of_ne hph]
      exact h.off i hi hin' hroot hih hph
  · intro _ hroot i hi hin' hparent
    have hlt' := parent_lt hi
    have hih : i ≠ hole := by omega
    rw [hc, Function.update_self, Function.update_of_ne hih]
    have hoff := h.off i hi hin' (by omega) hih (by omega)
    rwa [hparent] at hoff

end Order

section Rearranged

variable {α : Type}

/-- The elements of the first `n` places have changed places. -/
def Rearranged (n : Nat) (a b : Nat → α) : Prop :=
  ∃ σ : Equiv.Perm Nat, (∀ i, n ≤ i → σ i = i) ∧ ∀ i, b i = a (σ i)

namespace Rearranged

variable {n : Nat} {a b c : Nat → α}

theorem refl (n : Nat) (a : Nat → α) : Rearranged n a a :=
  ⟨Equiv.refl Nat, fun _ _ => rfl, fun _ => rfl⟩

theorem trans (h : Rearranged n a b) (h' : Rearranged n b c) : Rearranged n a c := by
  obtain ⟨σ, hσ, hb⟩ := h
  obtain ⟨τ, hτ, hc⟩ := h'
  refine ⟨τ.trans σ, ?_, ?_⟩
  · intro i hi
    rw [Equiv.trans_apply, hτ i hi, hσ i hi]
  · intro i
    rw [hc i, hb (τ i), Equiv.trans_apply]

theorem mono {m : Nat} (h : Rearranged n a b) (hle : n ≤ m) : Rearranged m a b := by
  obtain ⟨σ, hσ, hb⟩ := h
  exact ⟨σ, fun i hi => hσ i (Nat.le_trans hle hi), hb⟩

/-- A hole with `x` in it moves: what stood in its new place comes to the old one. -/
theorem moveHole (a : Nat → α) (x : α) {hole p : Nat} (hhole : hole < n) (hp : p < n) :
    Rearranged n (Function.update a hole x)
      (Function.update (Function.update a hole (a p)) p x) := by
  refine ⟨Equiv.swap hole p, ?_, ?_⟩
  · intro i hi
    exact Equiv.swap_apply_of_ne_of_ne (by omega) (by omega)
  · intro i
    by_cases hip : i = p
    · rw [hip, Equiv.swap_apply_right, Function.update_self, Function.update_self]
    by_cases hih : i = hole
    · rw [hih] at hip ⊢
      rw [Equiv.swap_apply_left, Function.update_of_ne hip, Function.update_self,
        Function.update_of_ne (Ne.symm hip)]
    · rw [Equiv.swap_apply_of_ne_of_ne hih hip, Function.update_of_ne hip,
        Function.update_of_ne hih, Function.update_of_ne hih]

theorem beyond (h : Rearranged n a b) {i : Nat} (hi : n ≤ i) : b i = a i := by
  obtain ⟨σ, hσ, hb⟩ := h
  rw [hb i, hσ i hi]

theorem source (h : Rearranged n a b) {i : Nat} (hi : i < n) : ∃ j, j < n ∧ b i = a j := by
  obtain ⟨σ, hσ, hb⟩ := h
  refine ⟨σ i, ?_, hb i⟩
  by_contra hle
  have hfix := σ.injective (hσ (σ i) (by omega))
  omega

theorem reached (h : Rearranged n a b) {j : Nat} (hj : j < n) : ∃ i, i < n ∧ b i = a j := by
  obtain ⟨σ, hσ, hb⟩ := h
  refine ⟨σ.symm j, ?_, by rw [hb, Equiv.apply_symm_apply]⟩
  by_contra hle
  have hfix := hσ (σ.symm j) (by omega)
  rw [Equiv.apply_symm_apply] at hfix
  omega

theorem updateLast {last : Nat} (h : Rearranged n a b) (hle : n ≤ last) {x : α} :
    Rearranged (last + 1) (Function.update a last x) (Function.update b last x) := by
  obtain ⟨σ, hσ, hb⟩ := h
  refine ⟨σ, fun i hi => hσ i (by omega), ?_⟩
  intro i
  by_cases hi : i = last
  · rw [hi, hσ last hle, Function.update_self, Function.update_self]
  · have hne : σ i ≠ last := fun heq => hi (σ.injective (heq.trans (hσ last hle).symm))
    rw [Function.update_of_ne hi, Function.update_of_ne hne, hb i]

theorem injOn (h : Rearranged n a b) (ha : ∀ i, i < n → ∀ j, j < n → a i = a j → i = j) :
    ∀ i, i < n → ∀ j, j < n → b i = b j → i = j := by
  obtain ⟨σ, hσ, hb⟩ := h
  have hin : ∀ i, i < n → σ i < n := by
    intro i hi
    by_contra hle
    have hfix := σ.injective (hσ (σ i) (by omega))
    omega
  intro i hi j hj hij
  rw [hb i, hb j] at hij
  exact σ.injective (ha _ (hin i hi) _ (hin j hj) hij)

theorem sum_eq (h : Rearranged n a b) (f : α → Nat) :
    (Finset.range n).sum (fun i => f (b i)) = (Finset.range n).sum (fun i => f (a i)) := by
  obtain ⟨σ, hσ, hb⟩ := h
  have hcomp := Equiv.Perm.sum_comp σ (Finset.range n) (fun i => f (a i)) (by
    intro i hi
    rw [Finset.coe_range, Set.mem_Iio]
    by_contra hle
    exact hi (hσ i (by omega)))
  rw [← hcomp]
  exact Finset.sum_congr rfl fun i _ => by rw [hb i]

end Rearranged

end Rearranged

end BinaryHeap

end Framework
