import Mathlib.Data.List.TakeWhile
import Mathlib.Data.List.Infix

/-!
# Tables of terminated strings

Strings stand one after the other, each with a terminator behind it, and are known by the offset at
which they start. A new string goes to the end and one that is there already is not stored again, so
an offset stays what it was while the table grows.
-/

namespace Framework

namespace StringTable

variable {α : Type}

/-- The table as one run of characters, with the terminator `z`. -/
def encode (z : α) : List (List α) → List α
  | [] => []
  | s :: strs => s ++ z :: encode z strs

@[simp] theorem encode_nil (z : α) : encode z [] = [] := rfl

@[simp] theorem encode_cons (z : α) (s : List α) (strs : List (List α)) :
    encode z (s :: strs) = s ++ z :: encode z strs := rfl

@[simp] theorem encode_append (z : α) (strs more : List (List α)) :
    encode z (strs ++ more) = encode z strs ++ encode z more := by
  induction strs with
  | nil => rfl
  | cons s strs ih => simp [ih]

theorem encode_prefix (z : α) {strs more : List (List α)} (h : strs <+: more) :
    encode z strs <+: encode z more := by
  obtain ⟨rest, rfl⟩ := h
  rw [encode_append]
  exact List.prefix_append _ _

theorem drop_encode_cons (z : α) (s : List α) (strs : List (List α)) (n : Nat) :
    (encode z (s :: strs)).drop (s.length + 1 + n) = (encode z strs).drop n := by
  have hfirst : (s ++ [z]).length = s.length + 1 := by simp
  rw [encode_cons, List.append_cons, ← List.drop_drop, ← hfirst, List.drop_left]

variable [DecidableEq α]

theorem takeWhile_encode_cons {z : α} {s : List α} (h : z ∉ s) (strs : List (List α)) :
    (encode z (s :: strs)).takeWhile (· ≠ z) = s := by
  rw [encode_cons, List.takeWhile_append_of_pos]
  · simp
  · intro c hc
    have hne : c ≠ z := fun heq => h (heq ▸ hc)
    simpa using hne

/-! ## Offsets -/

/-- Where the first copy of a string starts. -/
def offset (str : List α) : List (List α) → Option Nat
  | [] => none
  | s :: strs => if s = str then some 0 else (offset str strs).map (s.length + 1 + ·)

theorem offset_cons_self (str : List α) (strs : List (List α)) :
    offset str (str :: strs) = some 0 := by
  simp [offset]

theorem offset_cons_of_ne {s str : List α} (h : s ≠ str) (strs : List (List α)) :
    offset str (s :: strs) = (offset str strs).map (s.length + 1 + ·) := by
  simp [offset, h]

theorem offset_eq_none {str : List α} {strs : List (List α)} :
    offset str strs = none ↔ str ∉ strs := by
  induction strs with
  | nil => simp [offset]
  | cons s strs ih =>
      by_cases h : s = str
      · simp [offset, h]
      · rw [offset_cons_of_ne h, Option.map_eq_none_iff, ih, List.mem_cons]
        simp [Ne.symm h]

theorem mem_of_offset {str : List α} {strs : List (List α)} {o : Nat}
    (h : offset str strs = some o) : str ∈ strs := by
  by_contra hne
  rw [offset_eq_none.mpr hne] at h
  cases h

theorem exists_offset {str : List α} {strs : List (List α)} (h : str ∈ strs) :
    ∃ o, offset str strs = some o :=
  Option.ne_none_iff_exists'.mp fun hnone => offset_eq_none.mp hnone h

theorem offset_of_prefix {str : List α} {strs more : List (List α)} (h : strs <+: more)
    (hmem : str ∈ strs) : offset str more = offset str strs := by
  obtain ⟨rest, rfl⟩ := h
  induction strs with
  | nil => simp at hmem
  | cons s strs ih =>
      by_cases hs : s = str
      · rw [hs, List.cons_append, offset_cons_self, offset_cons_self]
      · have hrest : str ∈ strs := (List.mem_cons.mp hmem).resolve_left (Ne.symm hs)
        rw [List.cons_append, offset_cons_of_ne hs, offset_cons_of_ne hs, ih hrest]

theorem offset_inj {str str' : List α} {strs : List (List α)} {o : Nat}
    (h : offset str strs = some o) (h' : offset str' strs = some o) : str = str' := by
  induction strs generalizing o with
  | nil => simp [offset] at h
  | cons s strs ih =>
      by_cases hs : s = str
      · by_cases hs' : s = str'
        · exact hs.symm.trans hs'
        · rw [hs, offset_cons_self] at h
          rw [offset_cons_of_ne hs', Option.map_eq_some_iff] at h'
          obtain ⟨n, -, hn⟩ := h'
          have hzero : 0 = o := Option.some.inj h
          omega
      · rw [offset_cons_of_ne hs, Option.map_eq_some_iff] at h
        obtain ⟨n, hn, rfl⟩ := h
        by_cases hs' : s = str'
        · rw [hs', offset_cons_self] at h'
          have hzero := Option.some.inj h'
          omega
        · rw [offset_cons_of_ne hs', Option.map_eq_some_iff] at h'
          obtain ⟨n', hn', heq⟩ := h'
          have hsame : n' = n := by omega
          exact ih hn (hsame ▸ hn')

theorem drop_offset (z : α) {str : List α} {strs : List (List α)} {o : Nat}
    (h : offset str strs = some o) : ∃ more, (encode z strs).drop o = encode z (str :: more) := by
  induction strs generalizing o with
  | nil => simp [offset] at h
  | cons s strs ih =>
      by_cases hs : s = str
      · rw [hs, offset_cons_self] at h
        cases h
        exact ⟨strs, by rw [hs, List.drop_zero]⟩
      · rw [offset_cons_of_ne hs, Option.map_eq_some_iff] at h
        obtain ⟨n, hn, rfl⟩ := h
        rw [drop_encode_cons]
        exact ih hn

/-! ## Adding strings -/

def intern (strs : List (List α)) (str : List α) : List (List α) :=
  if str ∈ strs then strs else strs ++ [str]

def internAll (strs more : List (List α)) : List (List α) := more.foldl intern strs

theorem internAll_append (strs more rest : List (List α)) :
    internAll strs (more ++ rest) = internAll (internAll strs more) rest :=
  List.foldl_append

theorem prefix_intern (strs : List (List α)) (str : List α) : strs <+: intern strs str := by
  rw [intern]
  split
  · exact List.prefix_refl _
  · exact List.prefix_append _ _

theorem prefix_internAll (strs more : List (List α)) : strs <+: internAll strs more := by
  induction more generalizing strs with
  | nil => exact List.prefix_refl _
  | cons str more ih => exact (prefix_intern strs str).trans (ih _)

theorem mem_intern {s str : List α} {strs : List (List α)} :
    s ∈ intern strs str ↔ s ∈ strs ∨ s = str := by
  rw [intern]
  split
  · rename_i h
    constructor
    · exact Or.inl
    · rintro (hs | rfl)
      · exact hs
      · exact h
  · simp

theorem mem_internAll {s : List α} {strs more : List (List α)} :
    s ∈ internAll strs more ↔ s ∈ strs ∨ s ∈ more := by
  induction more generalizing strs with
  | nil => simp [internAll]
  | cons str more ih =>
      have hstep : internAll strs (str :: more) = internAll (intern strs str) more := rfl
      rw [hstep, ih, mem_intern, List.mem_cons, or_assoc]

end StringTable

end Framework
