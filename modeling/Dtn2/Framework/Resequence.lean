import Mathlib.Data.List.Range
import Mathlib.Data.List.Perm.Subperm

/-!
# Items that are put back in order

A receiver takes numbered items in any order, some of them more than once. It hands out the item with the
number that is next, keeps those ahead of it and drops those behind it. What has been handed out is in order,
and the next number is the least one that has not arrived.
-/

namespace Framework

variable {α : Type}

/-- The next number, the items that wait and those that were handed out, after the items in `handled`. -/
structure Resequenced (number : α → Nat) (handled : List α) (next : Nat) (waiting out : List α) : Prop where
  inOrder : out.map number = List.range next
  arrived : ∀ x ∈ out, x ∈ handled
  ahead : ∀ x ∈ waiting, x ∈ handled ∧ next ≤ number x
  covered : ∀ x ∈ handled, number x < next ∨ ∃ y ∈ waiting, number y = number x

namespace Resequenced

variable {number : α → Nat} {handled waiting out : List α} {next : Nat}

theorem start (number : α → Nat) : Resequenced number [] 0 [] [] where
  inOrder := rfl
  arrived _ hx := hx
  ahead _ hx := absurd hx List.not_mem_nil
  covered _ hx := absurd hx List.not_mem_nil

theorem length_out (h : Resequenced number handled next waiting out) : out.length = next := by
  rw [← List.length_map number, h.inOrder, List.length_range]

theorem next_le (h : Resequenced number handled next waiting out) : next ≤ handled.length := by
  have hsub : List.range next ⊆ handled.map number := by
    intro k hk
    rw [← h.inOrder] at hk
    obtain ⟨x, hx, rfl⟩ := List.mem_map.mp hk
    exact List.mem_map_of_mem (h.arrived x hx)
  have hle := (List.nodup_range.subperm hsub).length_le
  rwa [List.length_range, List.length_map] at hle

theorem number_out (h : Resequenced number handled next waiting out) {i : Nat} {x : α}
    (hx : out[i]? = some x) : number x = i := by
  have hmap : (out.map number)[i]? = some (number x) := by rw [List.getElem?_map, hx]; rfl
  rw [h.inOrder] at hmap
  obtain ⟨hi, hget⟩ := List.getElem?_eq_some_iff.mp hmap
  rw [List.getElem_range] at hget
  exact hget.symm

theorem drop (h : Resequenced number handled next waiting out) {x : α} (hx : number x < next) :
    Resequenced number (handled ++ [x]) next waiting out where
  inOrder := h.inOrder
  arrived y hy := List.mem_append_left _ (h.arrived y hy)
  ahead y hy := ⟨List.mem_append_left _ (h.ahead y hy).1, (h.ahead y hy).2⟩
  covered y hy := by
    rcases List.mem_append.mp hy with hy | hy
    · exact h.covered y hy
    · exact Or.inl (List.mem_singleton.mp hy ▸ hx)

/-- An item waits, and takes the place of one with its number. -/
theorem wait (h : Resequenced number handled next waiting out) {x : α} (hx : next ≤ number x) :
    Resequenced number (handled ++ [x]) next (x :: waiting.filter fun y => number y ≠ number x) out where
  inOrder := h.inOrder
  arrived y hy := List.mem_append_left _ (h.arrived y hy)
  ahead y hy := by
    rcases List.mem_cons.mp hy with rfl | hy
    · exact ⟨List.mem_append_right _ (List.mem_singleton_self _), hx⟩
    · have hold := h.ahead y (List.mem_of_mem_filter hy)
      exact ⟨List.mem_append_left _ hold.1, hold.2⟩
  covered y hy := by
    rcases List.mem_append.mp hy with hy | hy
    · rcases h.covered y hy with hlt | ⟨z, hz, hzy⟩
      · exact Or.inl hlt
      · by_cases hsame : number z = number x
        · exact Or.inr ⟨x, List.mem_cons_self, hsame.symm.trans hzy⟩
        · exact Or.inr ⟨z, List.mem_cons_of_mem _ (List.mem_filter.mpr ⟨hz, by simpa using hsame⟩), hzy⟩
    · exact Or.inr ⟨x, List.mem_cons_self, by rw [List.mem_singleton.mp hy]⟩

/-- The item with the next number is handed out, whether it has just arrived or has waited. -/
private theorem handOut {handled' : List α} (h : Resequenced number handled next waiting out) {x : α}
    (hx : number x = next) (hmem : x ∈ handled') (hsub : ∀ y ∈ handled, y ∈ handled')
    (hnew : ∀ y ∈ handled', y ∈ handled ∨ y = x) :
    Resequenced number handled' (next + 1) (waiting.filter fun y => number y ≠ next) (out ++ [x]) where
  inOrder := by rw [List.map_append, List.map_singleton, h.inOrder, hx, List.range_succ]
  arrived y hy := by
    rcases List.mem_append.mp hy with hy | hy
    · exact hsub y (h.arrived y hy)
    · rwa [List.mem_singleton.mp hy]
  ahead y hy := by
    obtain ⟨hy, hne⟩ := List.mem_filter.mp hy
    have hold := h.ahead y hy
    have hne' : number y ≠ next := by simpa using hne
    exact ⟨hsub y hold.1, by omega⟩
  covered y hy := by
    rcases hnew y hy with hy | rfl
    · rcases h.covered y hy with hlt | ⟨z, hz, hzy⟩
      · exact Or.inl (by omega)
      · by_cases hsame : number z = next
        · exact Or.inl (by omega)
        · exact Or.inr ⟨z, List.mem_filter.mpr ⟨hz, by simpa using hsame⟩, hzy⟩
    · exact Or.inl (by omega)

/-- The next item arrives. -/
theorem deliver (h : Resequenced number handled next waiting out) {x : α} (hx : number x = next) :
    Resequenced number (handled ++ [x]) (next + 1) (waiting.filter fun y => number y ≠ next) (out ++ [x]) :=
  h.handOut hx (List.mem_append_right _ (List.mem_singleton_self x))
    (fun _ hy => List.mem_append_left _ hy)
    (fun _ hy => (List.mem_append.mp hy).imp_right List.mem_singleton.mp)

/-- The next item has waited. -/
theorem release (h : Resequenced number handled next waiting out) {x : α} (hx : number x = next)
    (hmem : x ∈ waiting) :
    Resequenced number handled (next + 1) (waiting.filter fun y => number y ≠ next) (out ++ [x]) :=
  h.handOut hx (h.ahead x hmem).1 (fun _ hy => hy) (fun _ hy => Or.inl hy)

/-- When the next item does not wait either, its number is the least one that has not arrived. -/
theorem least (h : Resequenced number handled next waiting out) (hnone : ∀ x ∈ waiting, number x ≠ next) :
    (∀ x ∈ handled, number x ≠ next) ∧ ∀ k < next, ∃ x ∈ handled, number x = k := by
  constructor
  · intro x hx hnext
    rcases h.covered x hx with hlt | ⟨y, hy, hyx⟩
    · omega
    · exact hnone y hy (hyx.trans hnext)
  · intro k hk
    have hmem : k ∈ out.map number := by
      rw [h.inOrder]
      exact List.mem_range.mpr hk
    obtain ⟨x, hx, hxk⟩ := List.mem_map.mp hmem
    exact ⟨x, h.arrived x hx, hxk⟩

/-- When there is one item for each number, those are handed out. -/
theorem getElem?_out (h : Resequenced number handled next waiting out) {source : Nat → Option α}
    (hsource : ∀ x ∈ handled, source (number x) = some x) {i : Nat} (hi : i < next) : out[i]? = source i := by
  have hlen : i < out.length := by rwa [h.length_out]
  have hget : out[i]? = some out[i] := List.getElem?_eq_getElem hlen
  have hitem := hsource _ (h.arrived _ (List.getElem_mem hlen))
  rw [h.number_out hget] at hitem
  rw [hget, hitem]

end Resequenced

end Framework
