import Mathlib.Data.List.Induction
import Mathlib.Data.List.Perm.Basic
import Mathlib.Data.List.Nodup
import Mathlib.Tactic.Common

/-!
# Vectors with a capacity

A vector keeps its elements in a block of memory that may be larger than they need. An insertion into a
full vector copies everything to a larger block. An insertion with room to spare makes a copy of the last
element one place further on and assigns the others, and the new element, to their new places. The two
agree for an assignment that stores its argument. An assignment that stores nothing loses the new element
and keeps the last one twice.
-/

namespace Framework

/-- The capacity that a full vector of `n` elements moves to. -/
structure Growth where
  next : Nat → Nat
  lt_next : ∀ n, n < next n

namespace Growth

def doubling : Growth := ⟨fun n => max 1 (2 * n), fun n => by omega⟩

/-- The capacity of a vector that has been filled with one element after the other. -/
def capacityAfter (g : Growth) : Nat → Nat
  | 0 => 0
  | n + 1 => if n < g.capacityAfter n then g.capacityAfter n else g.next n

end Growth

structure GrowVector (α : Type) where
  data : List α
  capacity : Nat

namespace GrowVector

variable {α : Type}

def empty : GrowVector α := ⟨[], 0⟩

/-- Every element is assigned the one in front of it, the first one `x`. -/
def shift (assign : α → α → α) : α → List α → List α
  | _, [] => []
  | x, y :: ys => assign y x :: shift assign y ys

/-- The elements after an insertion, with or without room to spare. -/
def inserted (assign : α → α → α) (spare : Prop) [Decidable spare] (xs : List α) (pos : Nat) (x : α) :
    List α :=
  if spare ∧ pos < xs.length then
    xs.take pos ++ shift assign x (xs.drop pos) ++ xs.getLast?.toList
  else xs.take pos ++ x :: xs.drop pos

def insert (g : Growth) (assign : α → α → α) (v : GrowVector α) (pos : Nat) (x : α) :
    GrowVector α where
  data := inserted assign (v.data.length < v.capacity) v.data pos x
  capacity := if v.data.length < v.capacity then v.capacity else g.next v.data.length

theorem length_shift (assign : α → α → α) (x : α) (ys : List α) :
    (shift assign x ys).length = ys.length := by
  induction ys generalizing x with
  | nil => rfl
  | cons y ys ih => rw [shift, List.length_cons, ih, List.length_cons]

theorem length_inserted (assign : α → α → α) (spare : Prop) [Decidable spare] (xs : List α)
    (pos : Nat) (x : α) : (inserted assign spare xs pos x).length = xs.length + 1 := by
  rw [inserted]
  split
  · rename_i h
    have hne : xs ≠ [] := List.ne_nil_of_length_pos (Nat.zero_lt_of_lt h.2)
    rw [List.length_append, List.length_append, length_shift, List.length_take, List.length_drop,
      List.getLast?_eq_some_getLast hne]
    simp only [Option.toList_some, List.length_singleton]
    omega
  · rw [List.length_append, List.length_cons, List.length_take, List.length_drop]
    omega

theorem shift_of_keeps {assign : α → α → α} (hassign : ∀ a b, assign a b = a) (x : α)
    (ys : List α) : shift assign x ys = ys := by
  induction ys generalizing x with
  | nil => rfl
  | cons y ys ih => rw [shift, hassign, ih]

theorem inserted_of_keeps {assign : α → α → α} (hassign : ∀ a b, assign a b = a) {spare : Prop}
    [Decidable spare] {xs : List α} {pos : Nat} (x : α) (hspare : spare) (hpos : pos < xs.length) :
    inserted assign spare xs pos x = xs ++ xs.getLast?.toList := by
  rw [inserted, if_pos ⟨hspare, hpos⟩, shift_of_keeps hassign, List.take_append_drop]

/-- Every element is assigned the one behind it, and the last one is destroyed. -/
def unshift (assign : α → α → α) : List α → List α
  | [] => []
  | [_] => []
  | x :: y :: ys => assign x y :: unshift assign (y :: ys)

/-- The elements after `erase`. -/
def erased (assign : α → α → α) (xs : List α) (pos : Nat) : List α :=
  xs.take pos ++ unshift assign (xs.drop pos)

theorem unshift_of_keeps {assign : α → α → α} (hassign : ∀ a b, assign a b = a) (xs : List α) :
    unshift assign xs = xs.dropLast := by
  induction xs with
  | nil => rfl
  | cons x ys ih =>
      cases ys with
      | nil => rfl
      | cons y zs => rw [unshift, hassign, ih, List.dropLast_cons_cons]

theorem erased_of_keeps {assign : α → α → α} (hassign : ∀ a b, assign a b = a) {xs : List α}
    {pos : Nat} (hpos : pos < xs.length) : erased assign xs pos = xs.dropLast := by
  have hne : xs.drop pos ≠ [] := by simpa using hpos
  rw [erased, unshift_of_keeps hassign, ← List.dropLast_append_of_ne_nil hne,
    List.take_append_drop]

section Keeps

variable {assign : α → α → α} (hassign : ∀ a b, assign a b = a) {spare : Prop} [Decidable spare]
  {xs : List α} {pos : Nat} {x y z : α}

include hassign

theorem mem_inserted_of_keeps :
    y ∈ inserted assign spare xs pos x ↔ y ∈ xs ∨ ¬(spare ∧ pos < xs.length) ∧ y = x := by
  by_cases h : spare ∧ pos < xs.length
  · rw [inserted_of_keeps hassign x h.1 h.2, List.mem_append, Option.mem_toList]
    have hnot : ¬(¬(spare ∧ pos < xs.length) ∧ y = x) := fun hx => hx.1 h
    rw [or_iff_left hnot]
    exact or_iff_left_of_imp List.mem_of_getLast?
  · rw [inserted, if_neg h, List.mem_append, List.mem_cons, or_left_comm, ← List.mem_append,
      List.take_append_drop, and_iff_right h, or_comm]

theorem sublist_inserted_of_keeps : xs.Sublist (inserted assign spare xs pos x) := by
  by_cases h : spare ∧ pos < xs.length
  · rw [inserted_of_keeps hassign x h.1 h.2]
    exact List.sublist_append_left _ _
  · rw [inserted, if_neg h]
    have hsub := (List.sublist_cons_self x (xs.drop pos)).append_left (xs.take pos)
    rwa [List.take_append_drop] at hsub

theorem pair_of_inserted (hne : y ≠ z) (hold : ¬(spare ∧ pos < xs.length) → y ≠ x ∧ z ≠ x)
    (h : [y, z].Sublist (inserted assign spare xs pos x)) : [y, z].Sublist xs := by
  classical
  by_cases hspare : spare ∧ pos < xs.length
  · rw [inserted_of_keeps hassign x hspare.1 hspare.2] at h
    cases hlast : xs.getLast? with
    | none =>
        rw [hlast, Option.toList_none, List.append_nil] at h
        exact h
    | some l =>
        obtain ⟨init, rfl⟩ := List.getLast?_eq_some_iff.1 hlast
        rw [hlast, Option.toList_some] at h
        obtain ⟨front, back, hsplit, hfront, hback⟩ := List.sublist_append_iff.1 h
        cases back with
        | nil =>
            rw [List.append_nil] at hsplit
            rwa [hsplit]
        | cons b rest =>
            have hlen := hback.length_le
            obtain rfl : rest = [] := by
              rw [List.length_cons, List.length_singleton] at hlen
              exact List.eq_nil_of_length_eq_zero (by omega)
            have hb : b = l := List.mem_singleton.1 (hback.subset List.mem_cons_self)
            obtain ⟨rfl, rfl⟩ : front = [y] ∧ b = z := by
              cases front with
              | nil => cases hsplit
              | cons f rest' =>
                  cases rest' with
                  | nil =>
                      cases hsplit
                      exact ⟨rfl, rfl⟩
                  | cons f' rest' => simp at hsplit
            have hy : y ∈ init := by
              cases List.mem_append.1 (hfront.subset List.mem_cons_self) with
              | inl hin => exact hin
              | inr hl => exact absurd ((List.mem_singleton.1 hl).trans hb.symm) hne
            rw [hb]
            exact (List.singleton_sublist.2 hy).append (List.Sublist.refl [l])
  · rw [inserted, if_neg hspare] at h
    obtain ⟨hy, hz⟩ := hold hspare
    have hkept : [y, z].filter (fun e => decide (e ≠ x)) = [y, z] := by
      rw [List.filter_eq_self]
      intro e he
      cases List.mem_cons.1 he with
      | inl heq => simpa [heq] using hy
      | inr hmem => simpa [List.mem_singleton.1 hmem] using hz
    have hdropped : (xs.take pos ++ x :: xs.drop pos).filter (fun e => decide (e ≠ x)) =
        xs.filter fun e => decide (e ≠ x) := by
      rw [List.filter_append, @List.filter_cons_of_neg _ _ x _ (by simp), ← List.filter_append,
        List.take_append_drop]
    have hfilter := h.filter fun e => decide (e ≠ x)
    rw [hkept, hdropped] at hfilter
    exact hfilter.trans List.filter_sublist

end Keeps

/-! ## A vector and the insertions that made it -/

/-- An insertion: the position and the new element. -/
structure Call (α : Type) where
  position : Nat
  value : α
deriving DecidableEq, Repr

inductive Traced (g : Growth) (assign : α → α → α) : GrowVector α → List (Call α) → Prop where
  | empty : Traced g assign empty []
  | insert {v calls} (pos : Nat) (x : α) : Traced g assign v calls →
      Traced g assign (v.insert g assign pos x) (calls ++ [⟨pos, x⟩])

def placed (calls : List (Call α)) : List α :=
  calls.foldl (fun xs c => xs.take c.position ++ c.value :: xs.drop c.position) []

/-- Some insertion in front of the last element found room to spare. -/
def Spoiled (g : Growth) (calls : List (Call α)) : Prop :=
  ∃ p ∈ calls.zipIdx, p.1.position < p.2 ∧ p.2 < g.capacityAfter p.2

instance (g : Growth) (calls : List (Call α)) : Decidable (Spoiled g calls) :=
  inferInstanceAs (Decidable (∃ p ∈ calls.zipIdx, p.1.position < p.2 ∧ p.2 < g.capacityAfter p.2))

theorem spoiled_append (g : Growth) (calls : List (Call α)) (c : Call α) :
    Spoiled g (calls ++ [c]) ↔ Spoiled g calls ∨
      (c.position < calls.length ∧ calls.length < g.capacityAfter calls.length) := by
  rw [Spoiled, List.zipIdx_append, Spoiled]
  simp only [List.mem_append, or_and_right, exists_or, List.zipIdx_singleton, Nat.zero_add,
    List.mem_singleton, exists_eq_left]

theorem spoiled_of_append {g : Growth} {calls more : List (Call α)} (h : Spoiled g calls) :
    Spoiled g (calls ++ more) := by
  obtain ⟨p, hp, hspare⟩ := h
  refine ⟨p, ?_, hspare⟩
  rw [List.zipIdx_append]
  exact List.mem_append_left _ hp

theorem placed_append (calls : List (Call α)) (c : Call α) :
    placed (calls ++ [c]) =
      (placed calls).take c.position ++ c.value :: (placed calls).drop c.position := by
  rw [placed, List.foldl_append]
  rfl

theorem placed_perm (calls : List (Call α)) : (placed calls).Perm (calls.map Call.value) := by
  induction calls using List.reverseRec with
  | nil => exact List.Perm.refl _
  | append_singleton calls c ih =>
      rw [placed_append, List.map_append]
      refine List.perm_middle.trans ?_
      rw [List.take_append_drop]
      exact (ih.cons c.value).trans (List.perm_append_singleton c.value _).symm

theorem placed_filterMap {β : Type} (f : α → Option β) (calls : List (Call α))
    (hend : ∀ p ∈ calls.zipIdx, f p.1.value ≠ none → p.1.position = p.2) :
    (placed calls).filterMap f = (calls.map Call.value).filterMap f := by
  induction calls using List.reverseRec with
  | nil => rfl
  | append_singleton calls c ih =>
      rw [List.zipIdx_append] at hend
      have hprev := ih fun p hp => hend p (List.mem_append_left _ hp)
      have hlen : (placed calls).length = calls.length := by
        rw [(placed_perm calls).length_eq, List.length_map]
      rw [placed_append, List.map_append, List.filterMap_append, List.filterMap_append, ← hprev]
      by_cases hc : f c.value = none
      · rw [List.filterMap_cons_none hc, ← List.filterMap_append, List.take_append_drop]
        simp [hc]
      · have hpos : c.position = calls.length := by
          have hat := hend (c, calls.length) (List.mem_append_right _ (by simp)) hc
          exact hat
        rw [hpos, ← hlen, List.take_length, List.drop_length]
        rfl

theorem head_inserted (assign : α → α → α) (spare : Prop) [Decidable spare] {xs : List α}
    (hxs : xs ≠ []) {pos : Nat} (hpos : 1 ≤ pos) (x : α) :
    (inserted assign spare xs pos x).head? = xs.head? := by
  obtain ⟨y, ys, rfl⟩ := List.exists_cons_of_ne_nil hxs
  obtain ⟨k, rfl⟩ := Nat.exists_eq_add_of_le' hpos
  rw [inserted]
  split <;> rfl

section Traced

variable {g : Growth} {assign : α → α → α} {v : GrowVector α} {calls : List (Call α)}

theorem Traced.length_data (h : Traced g assign v calls) : v.data.length = calls.length := by
  induction h with
  | empty => rfl
  | insert pos x h ih =>
      rw [GrowVector.insert, length_inserted, ih, List.length_append, List.length_singleton]

theorem Traced.capacity_eq (h : Traced g assign v calls) :
    v.capacity = g.capacityAfter calls.length := by
  induction h with
  | empty => rfl
  | insert pos x h ih =>
      rw [GrowVector.insert, List.length_append, List.length_singleton, Growth.capacityAfter,
        h.length_data, ih]

theorem Traced.data_eq (h : Traced g assign v calls) (hspoiled : ¬Spoiled g calls) :
    v.data = placed calls := by
  induction h with
  | empty => rfl
  | @insert v calls pos x h ih =>
      rw [spoiled_append, not_or] at hspoiled
      have hplaced := ih hspoiled.1
      rw [placed_append, GrowVector.insert, inserted, h.length_data, h.capacity_eq,
        if_neg (fun hboth => hspoiled.2 ⟨hboth.2, hboth.1⟩), hplaced]

theorem Traced.mem_data (hassign : ∀ a b, assign a b = a) (h : Traced g assign v calls) :
    ∀ x ∈ v.data, x ∈ calls.map Call.value := by
  induction h with
  | empty => exact fun x hx => absurd hx List.not_mem_nil
  | @insert v calls pos y h ih =>
      intro x hx
      rw [List.map_append, List.mem_append]
      rw [GrowVector.insert, inserted] at hx
      split at hx
      · rw [shift_of_keeps hassign, List.take_append_drop, List.mem_append] at hx
        rcases hx with hx | hx
        · exact Or.inl (ih x hx)
        · rw [Option.mem_toList] at hx
          exact Or.inl (ih x (List.mem_of_getLast? hx))
      · rw [List.mem_append, List.mem_cons] at hx
        rcases hx with hx | rfl | hx
        · exact Or.inl (ih x (List.mem_of_mem_take hx))
        · exact Or.inr (List.mem_singleton.mpr rfl)
        · exact Or.inl (ih x (List.mem_of_mem_drop hx))

/-- An assignment that stores nothing loses an element as soon as an insertion finds room to
spare. -/
theorem Traced.lost (hassign : ∀ a b, assign a b = a) (h : Traced g assign v calls)
    (hnodup : (calls.map Call.value).Nodup) (hspoiled : Spoiled g calls) :
    ∃ c ∈ calls, c.value ∉ v.data := by
  induction h with
  | empty => exact absurd hspoiled (by rintro ⟨p, hp, -⟩; cases hp)
  | @insert v calls pos y h ih =>
      rw [List.map_append, List.nodup_append] at hnodup
      obtain ⟨hprev, -, hdisjoint⟩ := hnodup
      have hy : y ∉ calls.map Call.value := fun hmem =>
        hdisjoint y hmem y (List.mem_singleton.mpr rfl) rfl
      rw [spoiled_append] at hspoiled
      by_cases hnow : pos < calls.length ∧ calls.length < g.capacityAfter calls.length
      · refine ⟨⟨pos, y⟩, List.mem_append_right _ (List.mem_singleton.mpr rfl), ?_⟩
        rw [GrowVector.insert, h.length_data, h.capacity_eq] at *
        dsimp only
        rw [inserted_of_keeps hassign y hnow.2 (by rw [h.length_data]; exact hnow.1),
          List.mem_append, not_or]
        refine ⟨fun hmem => hy (h.mem_data hassign y hmem), fun hmem => ?_⟩
        rw [Option.mem_toList] at hmem
        exact hy (h.mem_data hassign y (List.mem_of_getLast? hmem))
      · obtain ⟨c, hc, hlost⟩ := ih hprev (hspoiled.resolve_right hnow)
        refine ⟨c, List.mem_append_left _ hc, ?_⟩
        have hne : c.value ≠ y := by
          rintro rfl
          exact hy (List.mem_map_of_mem hc)
        rw [GrowVector.insert, inserted, h.length_data, h.capacity_eq,
          if_neg (fun hboth => hnow ⟨hboth.2, hboth.1⟩), List.mem_append, List.mem_cons]
        rintro (hmem | hmem | hmem)
        · exact hlost (List.mem_of_mem_take hmem)
        · exact hne hmem
        · exact hlost (List.mem_of_mem_drop hmem)

theorem Traced.head_data (h : Traced g assign v calls)
    (hpos : ∀ c ∈ calls.tail, 1 ≤ c.position) : v.data.head? = calls.head?.map Call.value := by
  induction h with
  | empty => rfl
  | @insert v calls pos x h ih =>
      cases calls with
      | nil =>
          have hnil : v.data = [] := List.eq_nil_of_length_eq_zero h.length_data
          rw [GrowVector.insert, hnil, inserted, if_neg (fun hboth => absurd hboth.2 (by simp))]
          simp
      | cons first rest =>
          have hne : v.data ≠ [] := by
            intro hnil
            have hlen := h.length_data
            rw [hnil] at hlen
            cases hlen
          rw [List.cons_append, List.tail_cons] at hpos
          have hlast : 1 ≤ pos :=
            hpos ⟨pos, x⟩ (List.mem_append_right _ (List.mem_singleton.mpr rfl))
          rw [GrowVector.insert, head_inserted _ _ hne hlast, List.cons_append, List.head?_cons]
          exact ih fun c hc => hpos c (List.mem_append_left _ hc)

end Traced

end GrowVector

end Framework
