import Mathlib.Data.List.Basic
import Mathlib.Tactic.Linarith

/-!
# Prefix readers

A reader takes a value off the front of a list and hands back what it did not use, or fails.
The readers of an incremental decoder are stable: a successful read is decided by the symbols
it used and by nothing that follows them, so it may be repeated on any longer or shorter input
that still holds those symbols.
-/

namespace Framework

/-- A partial function that consumes a prefix of its input. -/
abbrev Reader (β α : Type) := StateT (List β) Option α

namespace Reader

variable {β α γ : Type}

/-- A successful read depends only on the prefix it consumed. -/
def Stable (r : Reader β α) : Prop :=
  ∀ input a rest, r input = some (a, rest) →
    ∃ used, input = used ++ rest ∧ ∀ more, r (used ++ more) = some (a, more)

theorem stable_pure (a : α) : Stable (pure a : Reader β α) := by
  intro input b rest h
  have hb : some (a, input) = some (b, rest) := h
  simp only [Option.some.injEq, Prod.mk.injEq] at hb
  obtain ⟨rfl, rfl⟩ := hb
  exact ⟨[], rfl, fun more => rfl⟩

theorem stable_failure : Stable (fun _ => none : Reader β α) := by
  intro input a rest h
  cases h

theorem bind_eq_some (r : Reader β α) (f : α → Reader β γ) (input : List β) (c : γ)
    (rest : List β) :
    (r >>= f) input = some (c, rest) ↔
      ∃ a mid, r input = some (a, mid) ∧ f a mid = some (c, rest) := by
  change (r input).bind (fun p => f p.1 p.2) = _ ↔ _
  cases h : r input with
  | none => simp
  | some p =>
      obtain ⟨a, mid⟩ := p
      simp

theorem bind_of_some {r : Reader β α} {f : α → Reader β γ} {input mid : List β} {a : α}
    (h : r input = some (a, mid)) : (r >>= f) input = f a mid := by
  change (r input).bind (fun p => f p.1 p.2) = _
  rw [h]
  rfl

theorem Stable.bind {r : Reader β α} {f : α → Reader β γ} (hr : Stable r)
    (hf : ∀ a, Stable (f a)) : Stable (r >>= f) := by
  intro input c rest h
  obtain ⟨a, mid, ha, hc⟩ := (bind_eq_some r f input c rest).mp h
  obtain ⟨used, rfl, hmore⟩ := hr _ _ _ ha
  obtain ⟨used', rfl, hmore'⟩ := hf a _ _ _ hc
  refine ⟨used ++ used', by simp, ?_⟩
  intro more
  rw [List.append_assoc, bind_of_some (hmore _)]
  exact hmore' more

theorem Stable.append {r : Reader β α} (hr : Stable r) {input rest : List β} {a : α}
    (h : r input = some (a, rest)) (more : List β) :
    r (input ++ more) = some (a, rest ++ more) := by
  obtain ⟨used, rfl, hmore⟩ := hr _ _ _ h
  rw [List.append_assoc]
  exact hmore _

theorem Stable.length_le {r : Reader β α} (hr : Stable r) {input rest : List β} {a : α}
    (h : r input = some (a, rest)) : rest.length ≤ input.length := by
  obtain ⟨used, rfl, -⟩ := hr _ _ _ h
  simp

theorem Stable.rest_eq_drop {r : Reader β α} (hr : Stable r) {input rest : List β} {a : α}
    (h : r input = some (a, rest)) : rest = input.drop (input.length - rest.length) := by
  obtain ⟨used, rfl, -⟩ := hr _ _ _ h
  simp

/-- Cutting the input anywhere behind the symbols used does not change the read. -/
theorem Stable.take {r : Reader β α} (hr : Stable r) {input rest : List β} {a : α}
    (h : r input = some (a, rest)) {k : Nat} (hk : input.length - rest.length ≤ k) :
    r (input.take k) = some (a, rest.take (k - (input.length - rest.length))) := by
  obtain ⟨used, rfl, hmore⟩ := hr _ _ _ h
  have hlen : (used ++ rest).length - rest.length = used.length := by simp
  rw [hlen] at hk ⊢
  rw [List.take_append, List.take_of_length_le hk]
  exact hmore _

/-- A read that fails on a prefix and succeeds later uses more than that prefix. -/
theorem Stable.used_gt {r : Reader β α} (hr : Stable r) {input more rest : List β} {a : α}
    (hnone : r input = none) (h : r (input ++ more) = some (a, rest)) :
    input.length + rest.length < (input ++ more).length := by
  by_contra hle
  have htake := hr.take h (k := input.length) (by omega)
  rw [List.take_left] at htake
  rw [hnone] at htake
  cases htake

end Reader

end Framework
