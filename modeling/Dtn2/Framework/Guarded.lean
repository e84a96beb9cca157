import Mathlib.Tactic.Common

/-!
# Computations that must not stop in certain ways

A computation returns a value or stops with an error, and some errors are bad ones. It is guarded by
a postcondition if a value that it returns satisfies the postcondition, and an error that it stops
with is not a bad one. What holds of a run of steps follows from what holds of one.
-/

namespace Framework

section Guarded

variable {ε α β : Type} {bad : ε → Prop} {post mid : α → Prop} {next : β → Prop}

def Guarded (bad : ε → Prop) (post : α → Prop) : Except ε α → Prop
  | .ok a => post a
  | .error e => ¬ bad e

namespace Guarded

theorem ok {a : α} (h : post a) : Guarded bad post (.ok a) := h

theorem pure {a : α} (h : post a) : Guarded bad post (Pure.pure a : Except ε α) := h

theorem error {e : ε} (h : ¬ bad e) : Guarded bad post (.error e) := h

theorem mono {x : Except ε α} (h : Guarded bad mid x) (hpost : ∀ a, mid a → post a) :
    Guarded bad post x := by
  cases x with
  | error e => exact h
  | ok a => exact hpost a h

theorem bind {x : Except ε α} {f : α → Except ε β} (h : Guarded bad mid x)
    (hf : ∀ a, mid a → Guarded bad next (f a)) : Guarded bad next (x >>= f) := by
  cases x with
  | error e => exact h
  | ok a => exact hf a h

theorem of_ok {x : Except ε α} {a : α} (h : Guarded bad post x) (hx : x = .ok a) : post a := by
  subst hx
  exact h

theorem of_error {x : Except ε α} {e : ε} (h : Guarded bad post x) (hx : x = .error e) :
    ¬ bad e := by
  subst hx
  exact h

end Guarded

/-- What holds of a returned value can be computed. -/
instance decidableForallOk {x : Except ε α} [DecidablePred post] :
    Decidable (∀ a, x = .ok a → post a) :=
  match x with
  | .ok a => decidable_of_iff (post a) ⟨fun h _ hb => Except.ok.inj hb ▸ h, fun h => h a rfl⟩
  | .error _ => .isTrue fun _ h => nomatch h

/-! ## Runs -/

variable (step : α → β → Except ε α) (cond : α → β → Prop)

/-- In a run of the steps every step meets its condition on the state in front of it. -/
def Along (a : α) : List β → Prop
  | [] => True
  | b :: bs => cond a b ∧ ∀ a', step a b = .ok a' → Along a' bs

variable {step cond}

instance Along.decidable [∀ a b, Decidable (cond a b)] :
    (bs : List β) → (a : α) → Decidable (Along step cond a bs)
  | [], _ => .isTrue trivial
  | b :: bs, a =>
      have : DecidablePred fun a' => Along step cond a' bs := Along.decidable bs
      inferInstanceAs (Decidable (cond a b ∧ ∀ a', step a b = .ok a' → Along step cond a' bs))

theorem Guarded.run {inv : α → Prop} (hstep : ∀ a b, inv a → cond a b → Guarded bad inv (step a b))
    {a : α} {bs : List β} (h : inv a) (hbs : Along step cond a bs) :
    Guarded bad inv (bs.foldlM step a) := by
  induction bs generalizing a with
  | nil => exact h
  | cons b bs ih =>
      rw [List.foldlM_cons]
      have hfirst := hstep a b h hbs.1
      cases hb : step a b with
      | error e => exact hfirst.of_error hb
      | ok a' => exact ih (hfirst.of_ok hb) (hbs.2 a' hb)

end Guarded

end Framework
