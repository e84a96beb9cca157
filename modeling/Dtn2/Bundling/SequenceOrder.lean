import Dtn2.Bundling.SequenceID
import Mathlib.Order.Basic

/-!
# The order of sequence ids

What a sequence id says of an endpoint id is a counter, zero if it has no entry, or an identifier.
The values are partly ordered, and so are the sequence ids, endpoint id by endpoint id. `compare`
finds this order as long as it meets no values that cannot be compared. For these the column of its
table is missing, and what it reads is the first column of the next row.
-/

namespace Dtn2

namespace SequenceID

/-! ## Values -/

inductive Value where
  | counter (n : UInt64)
  | identifier (s : Bytes)
deriving DecidableEq, Repr

namespace Value

def Le : Value → Value → Prop
  | counter m, counter n => m ≤ n
  | identifier s, identifier t => s = t
  | _, _ => False

instance : PartialOrder Value where
  le := Le
  le_refl a := by
    cases a with
    | counter n => exact UInt64.le_refl n
    | identifier s => rfl
  le_trans a b c hab hbc := by
    cases a <;> cases b <;> cases c <;> first | exact hab.elim | exact hbc.elim | skip
    · exact UInt64.le_trans hab hbc
    · exact Eq.trans hab hbc
  le_antisymm a b hab hba := by
    cases a <;> cases b <;> first | exact hab.elim | skip
    · exact congrArg counter (UInt64.le_antisymm hab hba)
    · exact congrArg identifier hab

@[simp] theorem counter_le_counter (m n : UInt64) : counter m ≤ counter n ↔ m ≤ n := Iff.rfl

@[simp] theorem identifier_le_identifier (s t : Bytes) :
    identifier s ≤ identifier t ↔ s = t := Iff.rfl

@[simp] theorem counter_le_identifier (m : UInt64) (t : Bytes) :
    ¬ counter m ≤ identifier t := fun h => h

@[simp] theorem identifier_le_counter (s : Bytes) (n : UInt64) :
    ¬ identifier s ≤ counter n := fun h => h

theorem counter_lt_counter (m n : UInt64) : counter m < counter n ↔ m < n := by
  rw [lt_iff_le_not_ge, counter_le_counter, counter_le_counter, UInt64.le_iff_toNat_le,
    UInt64.le_iff_toNat_le, UInt64.lt_iff_toNat_lt]
  omega

end Value

def valueOf : Option SequenceEntry → Value
  | some (.counter _ n) => .counter n
  | some (.identifier _ s) => .identifier s
  | none => .counter 0

def value (v : SequenceID) (x : Bytes) : Value :=
  valueOf (v.vector.find? fun e => decide (e.eid.uri = x))

/-- The endpoint ids with an entry, in the order of the entries. -/
def keys (v : SequenceID) : List Bytes := v.vector.map fun e => e.eid.uri

theorem value_of_not_mem {v : SequenceID} {x : Bytes} (h : x ∉ v.keys) :
    v.value x = .counter 0 := by
  have hnone : v.vector.find? (fun e => decide (e.eid.uri = x)) = none := by
    rw [List.find?_eq_none]
    intro e he
    rw [decide_eq_true_eq]
    exact fun heq => h (heq ▸ List.mem_map_of_mem he)
  rw [value, hnone]
  rfl

/-! ## Results of comparisons -/

section Results

variable {α : Type} [PartialOrder α]

/-- The result says how `a` lies to `b`. -/
def Tells : Comp → α → α → Prop
  | .lt, a, b => a < b
  | .eq, a, b => a = b
  | .gt, a, b => b < a
  | .neq, a, b => ¬ a ≤ b ∧ ¬ b ≤ a
  | .ill, _, _ => False

theorem Tells.invert {c : Comp} {a b : α} (h : Tells c a b) : Tells (invert c) b a := by
  cases c with
  | lt => exact h
  | eq => exact Eq.symm h
  | gt => exact h
  | neq => exact ⟨h.2, h.1⟩
  | ill => exact h

theorem Tells.le_iff {c : Comp} {a b : α} (h : Tells c a b) :
    (a ≤ b ↔ c = .lt ∨ c = .eq) ∧ (b ≤ a ↔ c = .gt ∨ c = .eq) := by
  cases c with
  | lt => exact ⟨by simp [le_of_lt h], by simp [not_le_of_gt h]⟩
  | eq => exact ⟨by simp [le_of_eq h], by simp [le_of_eq (Eq.symm h)]⟩
  | gt => exact ⟨by simp [not_le_of_gt h], by simp [le_of_lt h]⟩
  | neq => exact ⟨by simp [h.1], by simp [h.2]⟩
  | ill => exact h.elim

theorem Tells.unique {c c' : Comp} {a b : α} (h : Tells c a b) (h' : Tells c' a b) : c = c' := by
  have hle := h.le_iff.1.symm.trans h'.le_iff.1
  have hge := h.le_iff.2.symm.trans h'.le_iff.2
  cases c <;> cases c' <;> first | rfl | exact h.elim | exact h'.elim | simp at hle hge

end Results

theorem compareEntries_tells (left right : Option SequenceEntry) :
    Tells (compareEntries left right) (valueOf left) (valueOf right) := by
  have hcounters : ∀ m n : UInt64, Tells (if m = n then Comp.eq else if m < n then .lt else .gt)
      (Value.counter m) (Value.counter n) := by
    intro m n
    by_cases heq : m = n
    · rw [if_pos heq, heq]
      rfl
    · rw [if_neg heq]
      by_cases hlt : m < n
      · rw [if_pos hlt]
        exact (Value.counter_lt_counter m n).mpr hlt
      · rw [if_neg hlt]
        apply (Value.counter_lt_counter n m).mpr
        rw [UInt64.lt_iff_toNat_lt] at hlt ⊢
        rw [← UInt64.toNat_inj] at heq
        omega
  have hmixed : ∀ (n : UInt64) (s : Bytes),
      ¬ Value.counter n ≤ Value.identifier s ∧ ¬ Value.identifier s ≤ Value.counter n :=
    fun n s => ⟨fun h => h, fun h => h⟩
  cases left with
  | none =>
      cases right with
      | none => exact hcounters 0 0
      | some right =>
          cases right with
          | counter _ n => exact hcounters 0 n
          | identifier _ t => exact hmixed 0 t
  | some left =>
      cases left with
      | counter _ m =>
          cases right with
          | none => exact hcounters m 0
          | some right =>
              cases right with
              | counter _ n => exact hcounters m n
              | identifier _ t => exact hmixed m t
      | identifier _ s =>
          cases right with
          | none => exact ⟨(hmixed 0 s).2, (hmixed 0 s).1⟩
          | some right =>
              cases right with
              | counter _ n => exact ⟨(hmixed n s).2, (hmixed n s).1⟩
              | identifier _ t =>
                  change Tells (if s ≠ t then Comp.neq else .eq) (Value.identifier s)
                    (Value.identifier t)
                  by_cases heq : s = t
                  · rw [if_neg (not_not.mpr heq), heq]
                    rfl
                  · rw [if_pos heq]
                    exact ⟨heq, fun h => heq (Eq.symm h)⟩

/-! ## Results for some of the endpoint ids -/

section Reached

variable {ι α : Type} [PartialOrder α] {f g : ι → α} {S T : List ι}

def BothWays (f g : ι → α) (S : List ι) : Prop := (∃ y ∈ S, f y < g y) ∧ ∃ z ∈ S, g z < f z

/-- The state says how `f` lies to `g` on `S`, when everything on it can be compared. -/
def Reached (f g : ι → α) (S : List ι) : Comp → Prop
  | .lt => (∀ x ∈ S, f x ≤ g x) ∧ ∃ x ∈ S, f x < g x
  | .eq => ∀ x ∈ S, f x = g x
  | .gt => (∀ x ∈ S, g x ≤ f x) ∧ ∃ x ∈ S, g x < f x
  | .neq => BothWays f g S
  | .ill => False

theorem BothWays.mono (h : BothWays f g S) (hsub : ∀ x ∈ S, x ∈ T) : BothWays f g T :=
  ⟨h.1.imp fun y hy => ⟨hsub y hy.1, hy.2⟩, h.2.imp fun z hz => ⟨hsub z hz.1, hz.2⟩⟩

theorem BothWays.symm (h : BothWays f g S) : BothWays g f S := ⟨h.2, h.1⟩

theorem Reached.invert {c : Comp} (h : Reached f g S c) : Reached g f S (invert c) := by
  cases c with
  | lt => exact h
  | eq => exact fun x hx => (h x hx).symm
  | gt => exact h
  | neq => exact h.symm
  | ill => exact h

theorem Reached.not_bothWays {c : Comp} (h : Reached f g S c) (hc : c ≠ .neq) :
    ¬ BothWays f g S := by
  intro hboth
  obtain ⟨⟨y, hy, hless⟩, z, hz, hmore⟩ := hboth
  cases c with
  | lt => exact not_le_of_gt hmore (h.1 z hz)
  | eq => exact ne_of_lt hless (h y hy)
  | gt => exact not_le_of_gt hless (h.1 y hy)
  | neq => exact hc rfl
  | ill => exact h

theorem Reached.next {cur comp : Comp} {x : ι} (h : Reached f g S cur) (hcur : cur ≠ .neq)
    (htells : Tells comp (f x) (g x)) (hcomp : comp ≠ .neq) :
    Reached f g (S ++ [x]) (nextState cur comp) := by
  have hold : ∀ y ∈ S, y ∈ S ++ [x] := fun y hy => List.mem_append_left _ hy
  have hnew : x ∈ S ++ [x] := List.mem_append_right _ (List.mem_singleton.mpr rfl)
  have hle := htells.le_iff
  have hall : ∀ {p : ι → Prop}, (∀ y ∈ S, p y) → p x → ∀ y ∈ S ++ [x], p y := by
    intro p hS hx y hy
    cases List.mem_append.mp hy with
    | inl hy => exact hS y hy
    | inr hy => exact List.mem_singleton.mp hy ▸ hx
  cases cur with
  | neq => exact absurd rfl hcur
  | ill => exact h.elim
  | lt =>
      obtain ⟨hles, y, hy, hlt⟩ := h
      cases comp with
      | lt => exact ⟨hall hles (le_of_lt htells), y, hold y hy, hlt⟩
      | eq => exact ⟨hall hles (le_of_eq htells), y, hold y hy, hlt⟩
      | gt => exact ⟨⟨y, hold y hy, hlt⟩, x, hnew, htells⟩
      | neq => exact absurd rfl hcomp
      | ill => exact htells.elim
  | eq =>
      cases comp with
      | lt => exact ⟨hall (fun y hy => le_of_eq (h y hy)) (le_of_lt htells), x, hnew, htells⟩
      | eq => exact hall h htells
      | gt => exact ⟨hall (fun y hy => le_of_eq (h y hy).symm) (le_of_lt htells), x, hnew, htells⟩
      | neq => exact absurd rfl hcomp
      | ill => exact htells.elim
  | gt =>
      obtain ⟨hles, y, hy, hlt⟩ := h
      cases comp with
      | lt => exact ⟨⟨x, hnew, htells⟩, y, hold y hy, hlt⟩
      | eq => exact ⟨hall hles (le_of_eq htells.symm), y, hold y hy, hlt⟩
      | gt => exact ⟨hall hles (le_of_lt htells), y, hold y hy, hlt⟩
      | neq => exact absurd rfl hcomp
      | ill => exact htells.elim

def Incomparable (a b : α) : Prop := ¬ a ≤ b ∧ ¬ b ≤ a

/-- Behind `S`, values on `T` that cannot be compared come only after there was less on both sides.
-/
def Timely (f g : ι → α) (S T : List ι) : Prop :=
  ∀ before x behind, T = before ++ x :: behind → Incomparable (f x) (g x) →
    BothWays f g (S ++ before)

theorem timely_nil : Timely f g S [] := by
  intro before x behind h
  exact absurd h.symm (by simp)

theorem timely_cons {x : ι} : Timely f g S (x :: T) ↔
    (Incomparable (f x) (g x) → BothWays f g S) ∧ Timely f g (S ++ [x]) T := by
  constructor
  · intro h
    constructor
    · intro hx
      have hboth := h [] x T rfl hx
      rwa [List.append_nil] at hboth
    · intro before y behind hT hy
      have hboth := h (x :: before) y behind (by rw [hT]; rfl) hy
      rwa [List.append_cons] at hboth
  · intro h before y behind hT hy
    cases before with
    | nil =>
        rw [List.append_nil]
        rw [List.nil_append] at hT
        exact h.1 ((List.cons.inj hT).1 ▸ hy)
    | cons z before =>
        rw [List.cons_append] at hT
        rw [List.append_cons, ← (List.cons.inj hT).1]
        exact h.2 before y behind (List.cons.inj hT).2 hy

theorem timely_append {T' : List ι} :
    Timely f g S (T ++ T') ↔ Timely f g S T ∧ Timely f g (S ++ T) T' := by
  induction T generalizing S with
  | nil =>
      rw [List.nil_append, List.append_nil]
      exact ⟨fun h => ⟨timely_nil, h⟩, fun h => h.2⟩
  | cons x T ih =>
      rw [List.cons_append, timely_cons, timely_cons, ih, and_assoc, List.append_assoc]
      rfl

theorem Timely.symm (h : Timely f g S T) : Timely g f S T :=
  fun before x behind hT hx => (h before x behind hT ⟨hx.2, hx.1⟩).symm

theorem BothWays.timely (h : BothWays f g S) : Timely f g S T :=
  fun _ _ _ _ _ => h.mono fun _ hx => List.mem_append_left _ hx

end Reached

/-! ## Accesses to the table -/

/-- The rows and columns that `compare_one_way` looks up. -/
def loopAccesses (lv rv : SequenceID) : List SequenceEntry → Comp → List (Comp × Comp)
  | [], _ => []
  | i :: rest, cur =>
      let comp := compareEntries (lv.getEntry i.eid) (rv.getEntry i.eid)
      (cur, comp) ::
        if nextState cur comp = .neq then [] else loopAccesses lv rv rest (nextState cur comp)

/-- The rows and columns that `compare` looks up. -/
def accesses (v other : SequenceID) : List (Comp × Comp) :=
  if v.isEmpty = true ∧ other.isEmpty = true then []
  else
    let cur := compareOneWay other v .eq
    loopAccesses other v other.vector .eq ++
      if cur ≠ .neq then loopAccesses v other v.vector (invert cur) else []

def InTable (a : Comp × Comp) : Prop := a.1.index < 4 ∧ a.2.index < 3

/-- No access of `compare` is outside of the table. -/
def InBounds (v other : SequenceID) : Prop := ∀ a ∈ accesses v other, InTable a

/-- In the order in which the entries are met, first those of `other`, values that cannot be
compared come only after there was less on both sides. -/
def MetInTime (v other : SequenceID) : Prop :=
  Timely v.value other.value [] (other.keys ++ v.keys)

theorem inTable_iff {cur comp : Comp} (hcur : cur ≠ .ill) (hcomp : comp ≠ .ill) :
    InTable (cur, comp) ↔ comp ≠ .neq := by
  cases cur <;> cases comp <;> simp [InTable, Comp.index] at *

theorem Reached.ne_ill {ι α : Type} [PartialOrder α] {f g : ι → α} {S : List ι} {c : Comp}
    (h : Reached f g S c) : c ≠ .ill := by
  intro hc
  rw [hc] at h
  exact h

/-- One pass: it stays in the table exactly if it meets in time what cannot be compared, and then
its state is right. -/
theorem compareLoop_spec (lv rv : SequenceID) (entries : List SequenceEntry) {S : List Bytes}
    {cur : Comp} (hcur : cur ≠ .neq) (hreached : Reached lv.value rv.value S cur) :
    ((∀ a ∈ loopAccesses lv rv entries cur, InTable a) ↔
        Timely lv.value rv.value S (entries.map fun e => e.eid.uri)) ∧
      (Timely lv.value rv.value S (entries.map fun e => e.eid.uri) →
        Reached lv.value rv.value (S ++ entries.map fun e => e.eid.uri)
          (compareLoop lv rv entries cur)) := by
  induction entries generalizing S cur with
  | nil =>
      refine ⟨⟨fun _ => timely_nil, fun _ a ha => absurd ha List.not_mem_nil⟩, fun _ => ?_⟩
      rw [List.map_nil, List.append_nil]
      exact hreached
  | cons i rest ih =>
      have htells : Tells _ (lv.value i.eid.uri) (rv.value i.eid.uri) :=
        compareEntries_tells (lv.getEntry i.eid) (rv.getEntry i.eid)
      have hill := compareEntries_ne_ill (lv.getEntry i.eid) (rv.getEntry i.eid)
      rw [loopAccesses, compareLoop, List.map_cons, timely_cons]
      generalize compareEntries (lv.getEntry i.eid) (rv.getEntry i.eid) = comp at htells hill ⊢
      rw [List.forall_mem_cons, inTable_iff hreached.ne_ill hill]
      by_cases hcomp : comp = .neq
      · rw [hcomp] at htells ⊢
        have hnot : ¬ BothWays lv.value rv.value S := hreached.not_bothWays hcur
        exact ⟨⟨fun h => absurd rfl h.1, fun h => absurd (h.1 htells) hnot⟩,
          fun h => absurd (h.1 htells) hnot⟩
      · have hnext := hreached.next hcur htells hcomp
        have hcan : ¬ Incomparable (lv.value i.eid.uri) (rv.value i.eid.uri) := by
          intro hx
          have hneq : Tells .neq (lv.value i.eid.uri) (rv.value i.eid.uri) := hx
          exact hcomp (htells.unique hneq)
        have happend : S ++ i.eid.uri :: List.map (fun e => e.eid.uri) rest =
            S ++ [i.eid.uri] ++ List.map (fun e => e.eid.uri) rest := List.append_cons _ _ _
        rw [happend]
        by_cases hstop : nextState cur comp = .neq
        · rw [if_pos hstop, if_pos hstop]
          rw [hstop] at hnext
          have hboth : BothWays lv.value rv.value (S ++ [i.eid.uri]) := hnext
          exact ⟨⟨fun _ => ⟨fun hx => absurd hx hcan, hboth.timely⟩,
            fun _ => ⟨hcomp, fun a ha => absurd ha List.not_mem_nil⟩⟩,
            fun _ => hboth.mono fun x hx => List.mem_append_left _ hx⟩
        · rw [if_neg hstop, if_neg hstop]
          have hrest := ih hstop hnext
          exact ⟨⟨fun h => ⟨fun hx => absurd hx hcan, hrest.1.mp h.2⟩,
            fun h => ⟨hcomp, hrest.1.mpr h.2⟩⟩, fun h => hrest.2 h.2⟩

theorem Reached.tells {u v : SequenceID} {S : List Bytes} {c : Comp}
    (h : Reached u.value v.value S c) (hu : ∀ x ∈ u.keys, x ∈ S) (hv : ∀ x ∈ v.keys, x ∈ S) :
    Tells c u.value v.value := by
  have hout : ∀ x, x ∉ S → u.value x = v.value x := by
    intro x hx
    rw [value_of_not_mem fun hin => hx (hu x hin), value_of_not_mem fun hin => hx (hv x hin)]
  have hle : ∀ {a b : SequenceID}, (∀ x ∈ S, a.value x ≤ b.value x) →
      (∀ x, x ∉ S → a.value x = b.value x) → a.value ≤ b.value := by
    intro a b hS hrest x
    by_cases hx : x ∈ S
    · exact hS x hx
    · exact le_of_eq (hrest x hx)
  cases c with
  | lt =>
      obtain ⟨hles, x, -, hlt⟩ := h
      exact lt_of_le_not_ge (hle hles hout) fun hge => not_le_of_gt hlt (hge x)
  | eq =>
      funext x
      by_cases hx : x ∈ S
      · exact h x hx
      · exact hout x hx
  | gt =>
      obtain ⟨hles, x, -, hlt⟩ := h
      exact lt_of_le_not_ge (hle hles fun x hx => (hout x hx).symm)
        fun hge => not_le_of_gt hlt (hge x)
  | neq =>
      obtain ⟨⟨y, -, hless⟩, z, -, hmore⟩ := h
      exact ⟨fun hge => not_le_of_gt hmore (hge z), fun hge => not_le_of_gt hless (hge y)⟩
  | ill => exact h

/-! ## The order -/

theorem keys_of_isEmpty {v : SequenceID} (h : v.isEmpty = true) : v.keys = [] := by
  rw [isEmpty, List.isEmpty_iff] at h
  rw [keys, h, List.map_nil]

theorem reached_nil (f g : Bytes → Value) : Reached f g [] .eq :=
  fun _ hx => absurd hx List.not_mem_nil

theorem firstPass_spec (v other : SequenceID) :
    ((∀ a ∈ loopAccesses other v other.vector .eq, InTable a) ↔
        Timely v.value other.value [] other.keys) ∧
      (Timely v.value other.value [] other.keys →
        Reached v.value other.value other.keys (invert (compareOneWay other v .eq))) := by
  have hspec := compareLoop_spec other v other.vector (show Comp.eq ≠ .neq by decide)
    (reached_nil other.value v.value)
  rw [List.nil_append] at hspec
  exact ⟨hspec.1.trans ⟨Timely.symm, Timely.symm⟩, fun h => (hspec.2 h.symm).invert⟩

theorem invert_ne_neq {c : Comp} (h : c ≠ .neq) : invert c ≠ .neq := by
  cases c <;> first | decide | exact absurd rfl h

/-- The accesses stay in the table exactly if what cannot be compared is met in time, and then the
result is right. -/
theorem compare_spec (v other : SequenceID) :
    (InBounds v other ↔ MetInTime v other) ∧
      (MetInTime v other → Tells (compare v other) v.value other.value) := by
  unfold InBounds MetInTime accesses compare
  by_cases hempty : v.isEmpty = true ∧ other.isEmpty = true
  · have hkeys : other.keys ++ v.keys = [] := by
      rw [keys_of_isEmpty hempty.1, keys_of_isEmpty hempty.2]
      rfl
    rw [if_pos hempty, if_pos hempty, hkeys]
    have hall := (reached_nil v.value other.value).tells
      (by rw [keys_of_isEmpty hempty.1]; exact fun _ h => h)
      (by rw [keys_of_isEmpty hempty.2]; exact fun _ h => h)
    exact ⟨⟨fun _ => timely_nil, fun _ a ha => absurd ha List.not_mem_nil⟩, fun _ => hall⟩
  · rw [if_neg hempty, if_neg hempty, timely_append, List.nil_append]
    have hfirst := firstPass_spec v other
    have hleft : ∀ x ∈ other.keys, x ∈ other.keys ++ v.keys :=
      fun x hx => List.mem_append_left _ hx
    have hright : ∀ x ∈ v.keys, x ∈ other.keys ++ v.keys :=
      fun x hx => List.mem_append_right _ hx
    dsimp only
    rw [List.forall_mem_append, hfirst.1]
    by_cases hneq : compareOneWay other v .eq = .neq
    · rw [if_neg (not_not.mpr hneq), if_neg (not_not.mpr hneq), hneq]
      rw [hneq] at hfirst
      constructor
      · constructor
        · intro h
          have hboth : BothWays v.value other.value other.keys := hfirst.2 h.1
          exact ⟨h.1, hboth.timely⟩
        · intro h
          exact ⟨h.1, fun a ha => absurd ha List.not_mem_nil⟩
      · intro h
        have hboth : BothWays v.value other.value other.keys := hfirst.2 h.1
        have hreached : Reached v.value other.value (other.keys ++ v.keys) .neq := hboth.mono hleft
        exact hreached.tells hright hleft
    · rw [if_pos hneq, if_pos hneq]
      have hsecond : ∀ h : Timely v.value other.value [] other.keys, _ := fun h =>
        compareLoop_spec v other v.vector (invert_ne_neq hneq) (hfirst.2 h)
      constructor
      · constructor
        · intro h
          exact ⟨h.1, (hsecond h.1).1.mp h.2⟩
        · intro h
          exact ⟨h.1, (hsecond h.1).1.mpr h.2⟩
      · intro h
        exact ((hsecond h.1).2 h.2).tells hright hleft

/-- The endpoint ids of the entries are distinct. -/
def Distinct (v : SequenceID) : Prop := v.keys.Nodup

instance Distinct.decidable (v : SequenceID) : Decidable v.Distinct :=
  inferInstanceAs (Decidable v.keys.Nodup)

theorem value_of_mem {v : SequenceID} (hdistinct : v.Distinct) {e : SequenceEntry}
    (he : e ∈ v.vector) : v.value e.eid.uri = valueOf (some e) := by
  have hfind : v.vector.find? (fun e' => decide (e'.eid.uri = e.eid.uri)) = some e := by
    unfold Distinct keys at hdistinct
    induction hvector : v.vector generalizing v with
    | nil =>
        rw [hvector] at he
        exact absurd he List.not_mem_nil
    | cons own rest ih =>
        rw [hvector, List.map_cons, List.nodup_cons] at hdistinct
        rw [hvector] at he
        cases List.mem_cons.mp he with
        | inl hown =>
            rw [List.find?_cons_of_pos]
            · rw [hown]
            · rw [hown]
              exact decide_eq_true rfl
        | inr hrest =>
            rw [List.find?_cons_of_neg]
            · exact ih (v := ⟨rest⟩) hdistinct.2 hrest rfl
            · rw [decide_eq_true_eq]
              intro hsame
              exact hdistinct.1 (hsame ▸ List.mem_map_of_mem hrest)
  rw [value, hfind]

theorem value_perm {v v' : SequenceID} (hdistinct : v.Distinct) (hperm : v.vector.Perm v'.vector) :
    v.value = v'.value := by
  have hkeys : v.keys.Perm v'.keys := hperm.map _
  have hdistinct' : v'.Distinct := hkeys.nodup_iff.mp hdistinct
  funext x
  by_cases hx : x ∈ v.keys
  · obtain ⟨e, he, hex⟩ := List.mem_map.mp hx
    rw [← hex, value_of_mem hdistinct he, value_of_mem hdistinct' (hperm.mem_iff.mp he)]
  · rw [value_of_not_mem hx, value_of_not_mem fun hin => hx (hkeys.mem_iff.mpr hin)]

def Counters (v : SequenceID) : Prop := ∀ e ∈ v.vector, ∃ eid n, e = .counter eid n

theorem Counters.value_eq {v : SequenceID} (h : v.Counters) (x : Bytes) :
    ∃ n, v.value x = .counter n := by
  unfold value
  cases hfind : v.vector.find? fun e => decide (e.eid.uri = x) with
  | none => exact ⟨0, rfl⟩
  | some e =>
      obtain ⟨eid, n, he⟩ := h e (List.mem_of_find?_eq_some hfind)
      rw [he]
      exact ⟨n, rfl⟩

theorem counters_singleton (eid : EndpointID) (n : UInt64) : Counters ⟨[.counter eid n]⟩ := by
  intro e he
  exact ⟨eid, n, List.mem_singleton.mp he⟩

theorem metInTime_of_counters {u v : SequenceID} (hu : u.Counters) (hv : v.Counters) :
    MetInTime u v := by
  intro before x behind _ hx
  obtain ⟨m, hm⟩ := hu.value_eq x
  obtain ⟨n, hn⟩ := hv.value_eq x
  unfold Incomparable at hx
  rw [hm, hn, Value.counter_le_counter, Value.counter_le_counter, UInt64.le_iff_toNat_le,
    UInt64.le_iff_toNat_le] at hx
  omega

theorem metInTime_of_lt {u v w : SequenceID} (huv : u.value < v.value) (hvw : v.value < w.value) :
    MetInTime u w := by
  intro before x behind _ hx
  exact absurd (le_trans (le_of_lt huv x) (le_of_lt hvw x)) hx.1

/-- `compare` finds the order of the values inside of its table exactly if it meets in time what
cannot be compared. Then the order of the entries does not matter, the result of the other side is
the mirror image, and less than is transitive. -/
theorem compare_tells_iff (u v : SequenceID) :
    (Tells (compare u v) u.value v.value ∧ InBounds u v ↔ MetInTime u v) ∧
    (∀ u' v' : SequenceID, u.Distinct → v.Distinct → u.vector.Perm u'.vector →
      v.vector.Perm v'.vector → MetInTime u v → MetInTime u' v' → compare u' v' = compare u v) ∧
    (MetInTime u v → MetInTime v u → compare v u = invert (compare u v)) ∧
    ∀ w : SequenceID, MetInTime u v → MetInTime v w → compare u v = .lt → compare v w = .lt →
      compare u w = .lt := by
  have hspec := compare_spec u v
  refine ⟨⟨fun h => hspec.1.mp h.2, fun h => ⟨hspec.2 h, hspec.1.mpr h⟩⟩, ?_, ?_, ?_⟩
  · intro u' v' hu hv hperm hperm' hmet hmet'
    have htells := hspec.2 hmet
    rw [value_perm hu hperm, value_perm hv hperm'] at htells
    exact ((compare_spec u' v').2 hmet').unique htells
  · intro hmet hmet'
    exact ((compare_spec v u).2 hmet').unique (hspec.2 hmet).invert
  · intro w hmet hmet' hlt hlt'
    have hless := hspec.2 hmet
    have hless' := (compare_spec v w).2 hmet'
    rw [hlt] at hless
    rw [hlt'] at hless'
    have htells : Tells .lt u.value w.value := lt_trans hless hless'
    exact ((compare_spec u w).2 (metInTime_of_lt hless hless')).unique htells

def sampleA : EndpointID := Oasys.plain.assign (ascii ['d', 't', 'n', ':', 'a'])

def sampleB : EndpointID := Oasys.plain.assign (ascii ['d', 't', 'n', ':', 'b'])

theorem compare_tells_iff_sample :
    (Tells (compare ⟨[.counter sampleA 1]⟩ ⟨[.counter sampleB 1]⟩)
        (value ⟨[.counter sampleA 1]⟩) (value ⟨[.counter sampleB 1]⟩) ∧
      InBounds ⟨[.counter sampleA 1]⟩ ⟨[.counter sampleB 1]⟩) ∧
    compare ⟨[.counter sampleB 2, .counter sampleA 1]⟩ ⟨[.counter sampleA 2]⟩ =
      compare ⟨[.counter sampleA 1, .counter sampleB 2]⟩ ⟨[.counter sampleA 2]⟩ ∧
    compare ⟨[.counter sampleA 2]⟩ ⟨[.counter sampleA 1]⟩ =
      invert (compare ⟨[.counter sampleA 1]⟩ ⟨[.counter sampleA 2]⟩) ∧
    compare ⟨[.counter sampleA 1]⟩ ⟨[.counter sampleA 3]⟩ = .lt := by
  have hone := counters_singleton
  have htwo : ∀ eid n eid' n', Counters ⟨[.counter eid n, .counter eid' n']⟩ := by
    intro eid n eid' n' e he
    cases List.mem_cons.mp he with
    | inl he => exact ⟨eid, n, he⟩
    | inr he => exact ⟨eid', n', List.mem_singleton.mp he⟩
  refine ⟨?_, ?_, ?_, ?_⟩
  · exact (compare_tells_iff _ _).1.mpr (metInTime_of_counters (hone _ _) (hone _ _))
  · exact (compare_tells_iff _ _).2.1 _ _ (by decide) (by decide) (List.Perm.swap _ _ _)
      (List.Perm.refl _) (metInTime_of_counters (htwo _ _ _ _) (hone _ _))
      (metInTime_of_counters (htwo _ _ _ _) (hone _ _))
  · exact (compare_tells_iff _ _).2.2.1 (metInTime_of_counters (hone _ _) (hone _ _))
      (metInTime_of_counters (hone _ _) (hone _ _))
  · exact (compare_tells_iff _ ⟨[.counter sampleA 2]⟩).2.2.2 _
      (metInTime_of_counters (hone _ _) (hone _ _))
      (metInTime_of_counters (hone _ _) (hone _ _)) (by decide) (by decide)

/-- An identifier that only `other` has, behind a counter that is less there. -/
theorem compare_not_pointwise :
    ¬ ∀ u v : SequenceID, u.Distinct → v.Distinct →
      Tells (compare u v) u.value v.value ∧ InBounds u v := by
  intro h
  have htells := (h ⟨[.counter sampleA 2]⟩
    ⟨[.counter sampleA 1, .identifier sampleB (ascii ['x'])]⟩ (by decide) (by decide)).1
  have hgt : compare ⟨[.counter sampleA 2]⟩
      ⟨[.counter sampleA 1, .identifier sampleB (ascii ['x'])]⟩ = .gt := by decide
  rw [hgt] at htells
  exact le_of_lt htells sampleB.uri

end SequenceID

end Dtn2
