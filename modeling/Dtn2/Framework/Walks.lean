import Mathlib.Algebra.GroupWithZero.Nat
import Mathlib.Algebra.BigOperators.Group.List.Basic

/-!
# Walks in weighted graphs

Edges know where they start and end, and whether they may be used. A walk is the list of its edges from
the last one back to the first one.
-/

namespace Framework

/-- A directed multigraph with weights on its edges. -/
structure WeightedGraph (ν ε : Type) where
  source : ε → ν
  dest : ε → ν
  usable : ε → Prop
  weight : ε → Nat

namespace WeightedGraph

variable {ν ε : Type} (G : WeightedGraph ν ε)

inductive Walk (a : ν) : List ε → ν → Prop where
  | start : Walk a [] a
  | step {path : List ε} {e : ε} (h : Walk a path (G.source e)) (he : G.usable e) :
      Walk a (e :: path) (G.dest e)

def total (path : List ε) : Nat := (path.map G.weight).sum

def Shortest (a : ν) (path : List ε) (n : ν) : Prop :=
  G.Walk a path n ∧ ∀ other, G.Walk a other n → G.total path ≤ G.total other

variable {G} {a n : ν} {path : List ε}

theorem total_cons (e : ε) (path : List ε) : G.total (e :: path) = G.weight e + G.total path := by
  rw [total, List.map_cons, List.sum_cons]
  rfl

theorem Shortest.tail {e : ε} (h : G.Shortest a (e :: path) n) :
    G.Shortest a path (G.source e) ∧ G.usable e ∧ G.dest e = n := by
  obtain ⟨hwalk, hleast⟩ := h
  cases hwalk with
  | step hpath he =>
      refine ⟨⟨hpath, fun other hother => ?_⟩, he, rfl⟩
      have hle := hleast (e :: other) (.step hother he)
      rw [total_cons, total_cons] at hle
      omega

/-- Distances that no edge out of a finished node can improve are at most the weights of walks, as far
as the nodes that are not finished are away. -/
theorem min_le_total {distance : ν → Nat} {done : ν → Prop} {m : Nat} (hstart : distance a = 0)
    (hdone : ∀ e, G.usable e → done (G.source e) →
      distance (G.dest e) ≤ distance (G.source e) + G.weight e)
    (hrest : ∀ n, ¬done n → m ≤ distance n) (h : G.Walk a path n) :
    min (distance n) m ≤ G.total path := by
  induction h with
  | start =>
      rw [hstart, Nat.zero_min]
      exact Nat.zero_le _
  | @step path e _ he ih =>
      rw [total_cons]
      by_cases hsource : done (G.source e)
      · have hle := hdone e he hsource
        omega
      · have hfar := hrest _ hsource
        omega

end WeightedGraph

end Framework
