import Dtn2.Framework.Coverage
import Mathlib.Algebra.Group.Nat.Defs

/-!
# The fragment list of a query

A query lists the parts of the answer that have been sent already, in the order of their offsets. Two
scans of the list look for gaps: one for any gap at all, one for a gap that a further fragment reaches
into. `is_complete` and `requires_fragment` take the space between the end of one fragment and the offset
of the next as a gap. For overlapping fragments this is not what the fragments leave out, and an
interval that is exactly a gap neither starts nor ends inside of it.
-/

namespace Dtn2

open Framework

/-- Values of `size_t`. -/
def sizeMod : Nat := 2 ^ 64

structure BPQFragment where
  offset : Nat
  length : Nat
deriving DecidableEq, Repr

namespace BPQFragment

/-- `offset() + length()`, in `size_t`. -/
def stop (f : BPQFragment) : Nat := (f.offset + f.length) % sizeMod

end BPQFragment

namespace BPQFragmentList

def insertSorted (f : BPQFragment) (l : List BPQFragment) : List BPQFragment :=
  Coverage.insertSorted BPQFragment.offset f l

/-- The scan of `is_complete` over the rest of the list. -/
def isCompleteFrom (totalLen : Nat) (gapStart : Nat) : List BPQFragment → Bool
  | [] => decide (totalLen = gapStart)
  | f :: l => if f.offset = gapStart then isCompleteFrom totalLen f.stop l else false

def isComplete (totalLen : Nat) (l : List BPQFragment) : Bool := isCompleteFrom totalLen 0 l

def inGap (gapStart gapEnd fragStart fragEnd : Nat) : Bool :=
  decide (gapStart < fragStart ∧ fragStart < gapEnd) || decide (gapStart < fragEnd ∧ fragEnd < gapEnd)

/-- The scan of `requires_fragment` over the rest of the list. -/
def requiresFrom (totalLen fragStart fragEnd : Nat) (gapStart : Nat) : List BPQFragment → Bool
  | [] => inGap gapStart totalLen fragStart fragEnd
  | f :: l =>
      if inGap gapStart f.offset fragStart fragEnd then true
      else requiresFrom totalLen fragStart fragEnd f.stop l

def requiresFragment (totalLen fragStart fragEnd : Nat) (l : List BPQFragment) : Bool :=
  requiresFrom totalLen fragStart fragEnd 0 l

/-! ## A fragment that closes the last gap is not required -/

theorem inGap_empty (gap fragStart fragEnd : Nat) : inGap gap gap fragStart fragEnd = false := by
  rw [inGap, Bool.or_eq_false_iff, decide_eq_false_iff_not, decide_eq_false_iff_not]
  omega

theorem inGap_exact (gapStart gapEnd : Nat) : inGap gapStart gapEnd gapStart gapEnd = false := by
  rw [inGap, Bool.or_eq_false_iff, decide_eq_false_iff_not, decide_eq_false_iff_not]
  omega

theorem requiresFrom_of_isCompleteFrom {totalLen gapStart : Nat} {l : List BPQFragment}
    (h : isCompleteFrom totalLen gapStart l = true) (fragStart fragEnd : Nat) :
    requiresFrom totalLen fragStart fragEnd gapStart l = false := by
  induction l generalizing gapStart with
  | nil =>
      rw [isCompleteFrom, decide_eq_true_eq] at h
      rw [requiresFrom, h, inGap_empty]
  | cons f l ih =>
      rw [isCompleteFrom] at h
      split at h
      · rename_i hoffset
        rw [requiresFrom, hoffset, inGap_empty, if_neg Bool.false_ne_true]
        exact ih h
      · cases h

theorem requiresFrom_of_inserted {totalLen gapStart : Nat} {f : BPQFragment} {l : List BPQFragment}
    (h : isCompleteFrom totalLen gapStart (insertSorted f l) = true) :
    requiresFrom totalLen f.offset f.stop gapStart l = false := by
  induction l generalizing gapStart with
  | nil =>
      change isCompleteFrom totalLen gapStart [f] = true at h
      simp only [isCompleteFrom] at h
      split at h
      · rename_i hoffset
        rw [decide_eq_true_eq] at h
        rw [requiresFrom, ← hoffset, h, inGap_exact]
      · cases h
  | cons g l ih =>
      rw [insertSorted, Coverage.insertSorted] at h
      split at h
      · -- the new fragment is the next one: it has to fill the gap in front of `g`
        simp only [isCompleteFrom] at h
        split at h
        · rename_i hoffset
          split at h
          · rename_i hg
            rw [requiresFrom, hg, ← hoffset, inGap_exact, if_neg Bool.false_ne_true]
            exact requiresFrom_of_isCompleteFrom h _ _
          · cases h
        · cases h
      · rw [isCompleteFrom] at h
        split at h
        · rename_i hg
          rw [requiresFrom, hg, inGap_empty, if_neg Bool.false_ne_true]
          exact ih h
        · cases h

theorem isComplete_insertSorted {totalLen : Nat} {f : BPQFragment} {l : List BPQFragment}
    (h : requiresFragment totalLen f.offset f.stop l = true) :
    isComplete totalLen (insertSorted f l) = false := by
  by_contra hne
  rw [Bool.not_eq_false] at hne
  have hnot : requiresFragment totalLen f.offset f.stop l = false := requiresFrom_of_inserted hne
  rw [h] at hnot
  cases hnot

/-! ## The list and what it covers -/

/-- The list that `insert_sorted` builds, one fragment after the other. -/
def built (fs : List BPQFragment) : List BPQFragment := fs.foldl (fun l f => insertSorted f l) []

/-- Every byte below `totalLen` lies in a fragment. -/
def Covered (totalLen : Nat) (l : List BPQFragment) : Prop :=
  Coverage.Covers BPQFragment.offset BPQFragment.length l totalLen

def Missing (l : List BPQFragment) (x : Nat) : Prop :=
  ∀ f ∈ l, x ∉ Coverage.extent BPQFragment.offset BPQFragment.length f

/-- `is_complete` tells whether all bytes are covered. -/
def CompleteDecides (totalLen : Nat) (l : List BPQFragment) : Prop :=
  isComplete totalLen l = true ↔ Covered totalLen l

/-- `requires_fragment` tells whether an interval has a byte that is missing. -/
def RequiresDecides (totalLen : Nat) (l : List BPQFragment) : Prop :=
  ∀ fragStart fragEnd, fragStart < fragEnd → fragEnd ≤ totalLen →
    (requiresFragment totalLen fragStart fragEnd l = true ↔
      ∃ x, fragStart ≤ x ∧ x < fragEnd ∧ Missing l x)

/-- No fragment starts before one in front of it ends. -/
def Ordered (l : List BPQFragment) : Prop := l.Pairwise fun f g => f.stop ≤ g.offset

instance (l : List BPQFragment) : Decidable (Ordered l) :=
  inferInstanceAs (Decidable (l.Pairwise fun f g => f.stop ≤ g.offset))

/-- The gaps that both scans look at. -/
def gapsFrom (totalLen : Nat) (gapStart : Nat) : List BPQFragment → List (Nat × Nat)
  | [] => [(gapStart, totalLen)]
  | f :: l => (gapStart, f.offset) :: gapsFrom totalLen f.stop l

def Narrow (totalLen : Nat) (l : List BPQFragment) : Prop :=
  ∀ gap ∈ gapsFrom totalLen 0 l, gap.2 ≤ gap.1 + 1

theorem not_missing_iff {l : List BPQFragment} {x : Nat} : ¬ Missing l x ↔
    ∃ f ∈ l, x ∈ Coverage.extent BPQFragment.offset BPQFragment.length f := by
  simp only [Missing, not_forall, not_not, exists_prop]

theorem mem_foldl_insertSorted (fs l : List BPQFragment) (f : BPQFragment) :
    f ∈ fs.foldl (fun l f => insertSorted f l) l ↔ f ∈ fs ∨ f ∈ l := by
  induction fs generalizing l with
  | nil => simp
  | cons g fs ih =>
      rw [List.foldl_cons, ih, insertSorted, Coverage.mem_insertSorted, List.mem_cons]
      exact or_left_comm.trans or_assoc.symm

theorem sorted_foldl_insertSorted (fs : List BPQFragment) {l : List BPQFragment}
    (h : Coverage.Sorted BPQFragment.offset l) :
    Coverage.Sorted BPQFragment.offset (fs.foldl (fun l f => insertSorted f l) l) := by
  induction fs generalizing l with
  | nil => exact h
  | cons g fs ih =>
      apply ih
      exact Coverage.sorted_insertSorted BPQFragment.offset h g

theorem mem_built {fs : List BPQFragment} {f : BPQFragment} : f ∈ built fs ↔ f ∈ fs := by
  rw [built, mem_foldl_insertSorted]
  simp

theorem sorted_built (fs : List BPQFragment) : Coverage.Sorted BPQFragment.offset (built fs) :=
  sorted_foldl_insertSorted fs List.Pairwise.nil

/-! ## The scan for any gap -/

section Scans

variable {totalLen : Nat} (htotal : totalLen < sizeMod)

include htotal

theorem stop_eq {f : BPQFragment} (h : f.offset + f.length ≤ totalLen) :
    f.stop = f.offset + f.length :=
  Nat.mod_eq_of_lt (Nat.lt_of_le_of_lt h htotal)

theorem isCompleteFrom_sound {gapStart : Nat} {l : List BPQFragment}
    (hl : ∀ f ∈ l, f.offset + f.length ≤ totalLen)
    (h : isCompleteFrom totalLen gapStart l = true) :
    (∀ f ∈ l, gapStart ≤ f.offset) ∧ Ordered l ∧
      ∀ x, gapStart ≤ x → x < totalLen → ¬ Missing l x := by
  induction l generalizing gapStart with
  | nil =>
      rw [isCompleteFrom, decide_eq_true_eq] at h
      refine ⟨fun f hf => absurd hf List.not_mem_nil, List.Pairwise.nil, ?_⟩
      intro x hx hlt
      omega
  | cons f l ih =>
      rw [List.forall_mem_cons] at hl
      have hstop := stop_eq htotal hl.1
      rw [isCompleteFrom] at h
      by_cases hoffset : f.offset = gapStart
      · rw [if_pos hoffset] at h
        obtain ⟨hfrom, hordered, hcovered⟩ := ih hl.2 h
        refine ⟨?_, List.pairwise_cons.mpr ⟨hfrom, hordered⟩, ?_⟩
        · intro g hg
          cases List.mem_cons.mp hg with
          | inl heq => rw [heq, hoffset]
          | inr hmem =>
              have hle := hfrom g hmem
              omega
        · intro x hx hlt
          by_cases hin : x < f.stop
          · rw [not_missing_iff]
            refine ⟨f, List.mem_cons_self, ?_⟩
            simp only [Coverage.extent, Set.mem_Ico]
            omega
          · intro hmissing
            apply hcovered x (Nat.not_lt.mp hin) hlt
            exact fun g hg => hmissing g (List.mem_cons_of_mem f hg)
      · rw [if_neg hoffset] at h
        cases h

theorem isCompleteFrom_complete {gapStart : Nat} {l : List BPQFragment}
    (hl : ∀ f ∈ l, f.offset + f.length ≤ totalLen) (hgap : gapStart ≤ totalLen)
    (hfrom : ∀ f ∈ l, gapStart ≤ f.offset) (hordered : Ordered l)
    (hcovered : ∀ x, gapStart ≤ x → x < totalLen → ¬ Missing l x) :
    isCompleteFrom totalLen gapStart l = true := by
  induction l generalizing gapStart with
  | nil =>
      rw [isCompleteFrom, decide_eq_true_eq]
      by_contra hne
      exact hcovered gapStart (le_refl _) (by omega) fun f hf => absurd hf List.not_mem_nil
  | cons f l ih =>
      rw [List.forall_mem_cons] at hl hfrom
      obtain ⟨hbehind, hordered⟩ := List.pairwise_cons.mp hordered
      have hstop := stop_eq htotal hl.1
      have hoffset : f.offset = gapStart := by
        by_contra hne
        apply hcovered gapStart (le_refl _) (by omega)
        intro g hg
        simp only [Coverage.extent, Set.mem_Ico]
        cases List.mem_cons.mp hg with
        | inl heq =>
            rw [heq]
            omega
        | inr hmem =>
            have hle := hbehind g hmem
            omega
      rw [isCompleteFrom, if_pos hoffset]
      apply ih hl.2 (by omega) hbehind hordered
      intro x hx hlt hmissing
      apply hcovered x (by omega) hlt
      intro g hg
      cases List.mem_cons.mp hg with
      | inl heq =>
          rw [heq]
          simp only [Coverage.extent, Set.mem_Ico]
          omega
      | inr hmem => exact hmissing g hmem

theorem isComplete_iff {l : List BPQFragment} (hl : ∀ f ∈ l, f.offset + f.length ≤ totalLen) :
    isComplete totalLen l = true ↔ Covered totalLen l ∧ Ordered l := by
  constructor
  · intro h
    obtain ⟨-, hordered, hcovered⟩ := isCompleteFrom_sound htotal hl h
    exact ⟨fun x hx => not_missing_iff.mp (hcovered x (Nat.zero_le x) hx), hordered⟩
  · rintro ⟨hcovered, hordered⟩
    apply isCompleteFrom_complete htotal hl (Nat.zero_le _) (fun f _ => Nat.zero_le _) hordered
    intro x _ hx
    exact not_missing_iff.mpr (hcovered x hx)

/-! ## The scan for a gap with an end inside -/

theorem requiresFrom_behind {gapStart fragStart fragEnd : Nat} {l : List BPQFragment}
    (hl : ∀ f ∈ l, f.offset + f.length ≤ totalLen) (hfrag : fragStart ≤ fragEnd)
    (hgap : fragEnd ≤ gapStart) (hfrom : ∀ f ∈ l, fragEnd ≤ f.offset) :
    requiresFrom totalLen fragStart fragEnd gapStart l = false := by
  have hout : ∀ gapEnd, inGap gapStart gapEnd fragStart fragEnd = false := by
    intro gapEnd
    rw [inGap, Bool.or_eq_false_iff, decide_eq_false_iff_not, decide_eq_false_iff_not]
    omega
  induction l generalizing gapStart with
  | nil => rw [requiresFrom, hout]
  | cons f l ih =>
      rw [List.forall_mem_cons] at hl hfrom
      have hstop := stop_eq htotal hl.1
      have hle : fragEnd ≤ f.stop := by omega
      rw [requiresFrom, hout, if_neg Bool.false_ne_true]
      apply ih hl.2 hle hfrom.2
      intro gapEnd
      rw [inGap, Bool.or_eq_false_iff, decide_eq_false_iff_not, decide_eq_false_iff_not]
      omega

theorem missed_interval {gapStart low x : Nat} {l : List BPQFragment}
    (hl : ∀ f ∈ l, f.offset + f.length ≤ totalLen) (hsorted : Coverage.Sorted BPQFragment.offset l)
    (hlow : low ≤ gapStart) (hfrom : ∀ f ∈ l, low ≤ f.offset) (hx : gapStart ≤ x)
    (hlt : x < totalLen) (hmissing : Missing l x) :
    ∃ fragStart fragEnd, low ≤ fragStart ∧ fragStart ≤ x ∧ x < fragEnd ∧ fragEnd ≤ totalLen ∧
      requiresFrom totalLen fragStart fragEnd gapStart l = false := by
  induction l generalizing gapStart low with
  | nil => exact ⟨gapStart, totalLen, hlow, hx, hlt, le_refl _, inGap_exact _ _⟩
  | cons f l ih =>
      rw [List.forall_mem_cons] at hl hfrom
      obtain ⟨hbehind, hsorted⟩ := List.pairwise_cons.mp hsorted
      have hstop := stop_eq htotal hl.1
      by_cases hfront : x < f.offset
      · refine ⟨gapStart, f.offset, hlow, hx, hfront, by omega, ?_⟩
        rw [requiresFrom, inGap_exact, if_neg Bool.false_ne_true]
        exact requiresFrom_behind htotal hl.2 (by omega) (by omega) hbehind
      · have hout := hmissing f List.mem_cons_self
        simp only [Coverage.extent, Set.mem_Ico] at hout
        have hstart : f.offset ≤ f.stop := by omega
        obtain ⟨fragStart, fragEnd, hge, hle, hend, hbound, hnot⟩ := ih hl.2 hsorted hstart hbehind
          (by omega) fun g hg => hmissing g (List.mem_cons_of_mem f hg)
        refine ⟨fragStart, fragEnd, by omega, hle, hend, hbound, ?_⟩
        have hgap : inGap gapStart f.offset fragStart fragEnd = false := by
          rw [inGap, Bool.or_eq_false_iff, decide_eq_false_iff_not, decide_eq_false_iff_not]
          omega
        rw [requiresFrom, hgap, if_neg Bool.false_ne_true]
        exact hnot

end Scans

theorem requiresFrom_iff {totalLen fragStart fragEnd gapStart : Nat} {l : List BPQFragment} :
    requiresFrom totalLen fragStart fragEnd gapStart l = true ↔
      ∃ gap ∈ gapsFrom totalLen gapStart l, inGap gap.1 gap.2 fragStart fragEnd = true := by
  induction l generalizing gapStart with
  | nil => simp [requiresFrom, gapsFrom]
  | cons f l ih =>
      simp only [requiresFrom, gapsFrom, List.mem_cons, exists_eq_or_imp]
      by_cases hin : inGap gapStart f.offset fragStart fragEnd = true
      · rw [if_pos hin]
        exact ⟨fun _ => Or.inl hin, fun _ => rfl⟩
      · rw [if_neg hin, ih]
        exact ⟨Or.inr, fun h => h.resolve_left hin⟩

theorem gapsFrom_le {totalLen gapStart : Nat} {l : List BPQFragment}
    (hl : ∀ f ∈ l, f.offset + f.length ≤ totalLen) :
    ∀ gap ∈ gapsFrom totalLen gapStart l, gap.2 ≤ totalLen := by
  induction l generalizing gapStart with
  | nil => simp [gapsFrom]
  | cons f l ih =>
      rw [List.forall_mem_cons] at hl
      rw [gapsFrom, List.forall_mem_cons]
      exact ⟨by omega, ih hl.2⟩

/-! ## When they decide coverage -/

theorem requiresDecides_iff {totalLen : Nat} (htotal : totalLen < sizeMod) {l : List BPQFragment}
    (hl : ∀ f ∈ l, f.offset + f.length ≤ totalLen)
    (hsorted : Coverage.Sorted BPQFragment.offset l) :
    RequiresDecides totalLen l ↔ Covered totalLen l ∧ Narrow totalLen l := by
  constructor
  · intro h
    have hcovered : Covered totalLen l := by
      intro x hx
      rw [← not_missing_iff]
      intro hmissing
      obtain ⟨fragStart, fragEnd, -, hle, hlt, hend, hnot⟩ := missed_interval htotal hl hsorted
        (le_refl 0) (fun f _ => Nat.zero_le _) (Nat.zero_le x) hx hmissing
      have hrequired := (h fragStart fragEnd (by omega) hend).mpr ⟨x, hle, hlt, hmissing⟩
      rw [requiresFragment, hnot] at hrequired
      cases hrequired
    refine ⟨hcovered, ?_⟩
    intro gap hgap
    by_contra hwide
    have hend := gapsFrom_le hl gap hgap
    have hrequired : requiresFragment totalLen (gap.1 + 1) (gap.1 + 2) l = true := by
      apply requiresFrom_iff.mpr
      refine ⟨gap, hgap, ?_⟩
      rw [inGap, Bool.or_eq_true, decide_eq_true_eq]
      omega
    obtain ⟨x, -, hlt, hmissing⟩ := (h _ _ (by omega) (by omega)).mp hrequired
    exact not_missing_iff.mpr (hcovered x (by omega)) hmissing
  · rintro ⟨hcovered, hnarrow⟩ fragStart fragEnd hlt hend
    constructor
    · intro hrequired
      obtain ⟨gap, hgap, hin⟩ := requiresFrom_iff.mp hrequired
      have hnear := hnarrow gap hgap
      rw [inGap, Bool.or_eq_true, decide_eq_true_eq, decide_eq_true_eq] at hin
      omega
    · rintro ⟨x, -, hx, hmissing⟩
      exact absurd hmissing (not_missing_iff.mpr (hcovered x (by omega)))

/-- The two scans decide coverage exactly on lists whose fragments cover everything and follow each
other: `is_complete` is wrong on all others that cover everything, and `requires_fragment` on all
that do not, and on those with a gap of two bytes between overlapping fragments. -/
theorem scans_decide_iff {totalLen : Nat} (htotal : totalLen < sizeMod) {fs : List BPQFragment}
    (hfs : ∀ f ∈ fs, f.offset + f.length ≤ totalLen) :
    (CompleteDecides totalLen (built fs) ∧ RequiresDecides totalLen (built fs) ↔
      Covered totalLen (built fs) ∧ Ordered (built fs)) ∧
    (CompleteDecides totalLen (built fs) ↔ (Covered totalLen (built fs) → Ordered (built fs))) ∧
    (RequiresDecides totalLen (built fs) ↔
      Covered totalLen (built fs) ∧ Narrow totalLen (built fs)) := by
  have hbuilt : ∀ f ∈ built fs, f.offset + f.length ≤ totalLen := by
    intro f hf
    exact hfs f (mem_built.mp hf)
  have hcomplete : CompleteDecides totalLen (built fs) ↔
      (Covered totalLen (built fs) → Ordered (built fs)) := by
    rw [CompleteDecides, isComplete_iff htotal hbuilt]
    exact and_iff_left_iff_imp
  have hrequires := requiresDecides_iff htotal hbuilt (sorted_built fs)
  refine ⟨?_, hcomplete, hrequires⟩
  constructor
  · rintro ⟨hc, hr⟩
    have hcovered := (hrequires.mp hr).1
    exact ⟨hcovered, hcomplete.mp hc hcovered⟩
  · rintro ⟨hcovered, hordered⟩
    refine ⟨hcomplete.mpr fun _ => hordered, ?_⟩
    have hnone := (isComplete_iff htotal hbuilt).mpr ⟨hcovered, hordered⟩
    intro fragStart fragEnd _ hend
    rw [requiresFragment, requiresFrom_of_isCompleteFrom hnone]
    constructor
    · exact fun hfalse => absurd hfalse Bool.false_ne_true
    · rintro ⟨x, -, hx, hmissing⟩
      exact absurd hmissing (not_missing_iff.mpr (hcovered x (by omega)))

/-- Two fragments that follow each other, added in the other order. -/
theorem scans_decide_iff_sample : CompleteDecides 10 (built [⟨5, 5⟩, ⟨0, 5⟩]) ∧
    RequiresDecides 10 (built [⟨5, 5⟩, ⟨0, 5⟩]) := by
  refine (scans_decide_iff (by decide) (by decide)).1.mpr ⟨?_, by decide⟩
  intro x hx
  by_cases hfirst : x < 5
  · refine ⟨⟨0, 5⟩, by decide, ?_⟩
    simp only [Coverage.extent, Set.mem_Ico]
    omega
  · refine ⟨⟨5, 5⟩, by decide, ?_⟩
    simp only [Coverage.extent, Set.mem_Ico]
    omega

/-- A nested fragment hides that everything is covered, and of a list without any fragments the
whole is not required. -/
theorem scans_not_decide :
    (isComplete 10 (built [⟨0, 10⟩, ⟨5, 5⟩]) = false ∧ Covered 10 (built [⟨0, 10⟩, ⟨5, 5⟩])) ∧
    (requiresFragment 10 0 10 (built []) = false ∧ Missing (built []) 0) ∧
    ¬ CompleteDecides 10 (built [⟨0, 10⟩, ⟨5, 5⟩]) ∧ ¬ RequiresDecides 10 (built []) := by
  have hincomplete : isComplete 10 (built [⟨0, 10⟩, ⟨5, 5⟩]) = false := by decide
  have hcovered : Covered 10 (built [⟨0, 10⟩, ⟨5, 5⟩]) := by
    intro x hx
    refine ⟨⟨0, 10⟩, by decide, ?_⟩
    simp only [Coverage.extent, Set.mem_Ico]
    omega
  have hrefused : requiresFragment 10 0 10 (built []) = false := by decide
  have hmissing : Missing (built []) 0 := fun f hf => absurd hf List.not_mem_nil
  refine ⟨⟨hincomplete, hcovered⟩, ⟨hrefused, hmissing⟩, ?_, ?_⟩
  · intro h
    have htrue := h.mpr hcovered
    rw [hincomplete] at htrue
    cases htrue
  · intro h
    have htrue := (h 0 10 (by decide) (by decide)).mpr ⟨0, by decide, by decide, hmissing⟩
    rw [hrefused] at htrue
    cases htrue

end BPQFragmentList

end Dtn2
