import Dtn2.Prophet.Accounting

/-!
# The order of eviction

The repository between its operations: the list is a heap of distinct bundles, and their octets are
counted modulo `2 ^ 32`. Every operation keeps this when the bundles it moves fit.
-/

namespace Dtn2

namespace Prophet

open Framework BinaryHeap

variable {B : Type}

namespace Repository

/-! ## The repository -/


section Runs

variable (facade : Facade B)

def Started (r : Repository B) : Prop :=
  r.size = 0 ∧ r.current = 0 ∧ Weak r.comp.after

/-- What holds between the operations. -/
structure Ready (r : Repository B) : Prop where
  weak : Weak r.comp.after
  heap : Heap r.comp.after r.list 0 r.size
  distinct : ∀ i, i < r.size → ∀ j, j < r.size → r.list i = r.list j → i = j
  current : r.current = held facade r.list r.size % 2 ^ 32

variable {facade} {r : Repository B}

theorem Ready.counted (h : Ready facade r) : Counted facade r := ⟨h.distinct, h.current⟩

theorem Ready.shrink (h : Ready facade r) (hsize : 0 < r.size) {list : Nat → B} {gone : B}
    (hmoved : Rearranged r.size r.list (Function.update list (r.size - 1) gone))
    (hheap : Heap r.comp.after list 0 (r.size - 1)) :
    Ready facade { r with
      size := r.size - 1
      list := list
      current := minus r.current (facade.size gone) } where
  weak := h.weak
  heap := hheap
  distinct := (h.counted.shrink hsize hmoved).distinct
  current := (h.counted.shrink hsize hmoved).current

theorem Ready.rearrange (h : Ready facade r) {list : Nat → B} {qc : QueueComp B}
    (hweak : Weak qc.after) (hmoved : Rearranged r.size r.list list)
    (hheap : Heap qc.after list 0 r.size) :
    Ready facade { r with comp := qc, list := list } where
  weak := hweak
  heap := hheap
  distinct := hmoved.injOn h.distinct
  current := (h.counted.rearrange hmoved : Counted facade { r with comp := qc, list := list }).current

theorem Ready.takeOut (h : Ready facade r) {pos : Nat} (hin : pos < r.size)
    (hfits : Fits r.comp.after r.list r.size pos) : Ready facade (r.takeOut facade pos) := by
  have hweak := h.weak
  exact h.shrink (by omega) (removeAndReheap_moved hin)
    (removeAndReheap_heap hweak (h.heap.withHole pos hin) hin hfits)

theorem evictTop_ready (h : Ready facade r) (hsize : 0 < r.size) :
    ∃ r', r.evictTop facade = some (r', r.list 0) ∧ Ready facade r' ∧ r'.size = r.size - 1 ∧
      r'.comp = r.comp := by
  have hready := h.shrink hsize (popHeap_moved hsize) (popHeap_heap h.weak h.heap hsize)
  exact ⟨_, evictTop_eq hsize, hready, rfl, rfl⟩

/-- The victim of the LEPR policy may be taken out. -/
def VictimFits (r : Repository B) : Prop :=
  r.comp.lepr = true → ∀ pos, r.leprVictim = some pos → Fits r.comp.after r.list r.size pos

variable (facade) in
def EvictionsFit (max : Nat) : Nat → Repository B → Prop
  | 0, _ => True
  | fuel + 1, r =>
      max < r.current → r.VictimFits ∧ ∀ e, r.evict facade = some e → EvictionsFit max fuel e.1

/-- Of the evictions of a step: no held bundle had to be evicted before the one that was. -/
def InOrder (evictions : List (Repository B × B)) : Prop :=
  ∀ e ∈ evictions, e.1.comp.lepr = false →
    ∀ i, i < e.1.size → ¬e.1.comp.after e.2 (e.1.list i) = true

theorem evict_ready (h : Ready facade r) (hsize : 0 < r.size) (hfits : r.VictimFits) :
    ∃ r' b, r.evict facade = some (r', b) ∧ Ready facade r' ∧ r'.size = r.size - 1 ∧
      r'.comp = r.comp ∧ InOrder [(r, b)] := by
  obtain ⟨r', htop, hready, hsize', hcomp⟩ := evictTop_ready h hsize
  by_cases hlepr : r.comp.lepr = false
  · rw [evict, if_pos hlepr]
    refine ⟨r', r.list 0, htop, hready, hsize', hcomp, ?_⟩
    intro e he _ i hi
    rw [List.mem_singleton] at he
    rw [he] at hi ⊢
    have hweak := h.weak
    exact h.heap.root_first hi
  · have hvacuous : ∀ b, InOrder [(r, b)] := by
      intro b e he hfalse
      rw [List.mem_singleton] at he
      rw [he] at hfalse
      exact absurd hfalse hlepr
    rw [evict, if_neg hlepr]
    cases hvictim : r.leprVictim with
    | none => exact ⟨r', r.list 0, htop, hready, hsize', hcomp, hvacuous _⟩
    | some pos =>
        have hpos := (position_some hvictim).1
        have hfit := hfits (by simpa using hlepr) pos hvictim
        exact ⟨_, _, rfl, h.takeOut hpos hfit, rfl, rfl, hvacuous _⟩

theorem evictWhile_ready {max fuel : Nat} :
    ∀ {r : Repository B}, Ready facade r → r.size ≤ fuel → EvictionsFit facade max fuel r →
      ∃ r' evictions, evictWhile facade max fuel r = some (r', evictions) ∧ Ready facade r' ∧
        r'.comp = r.comp ∧ InOrder evictions := by
  induction fuel with
  | zero =>
      intro r h hsize _
      have hempty : r.size = 0 := by omega
      have hzero := h.counted.current_of_empty hempty
      rw [evictWhile, if_neg (by omega)]
      exact ⟨r, [], rfl, h, rfl, fun e he => absurd he List.not_mem_nil⟩
  | succ fuel ih =>
      intro r h hsize hfit
      rw [evictWhile]
      by_cases hover : max < r.current
      · have hpos : 0 < r.size := by
          by_contra hempty
          have hzero := h.counted.current_of_empty (by omega)
          omega
        have hfit := hfit hover
        obtain ⟨r₁, b, hevict, hready, hsize₁, hcomp₁, horder⟩ := evict_ready h hpos hfit.1
        obtain ⟨r₂, evictions, hrest, hready₂, hcomp₂, horder₂⟩ :=
          ih hready (by omega) (hfit.2 _ hevict)
        rw [if_pos hover, hevict, Option.bind_some, hrest]
        refine ⟨r₂, _, rfl, hready₂, hcomp₂.trans hcomp₁, ?_⟩
        intro e he
        cases List.mem_cons.1 he with
        | inl hhead => exact horder e (List.mem_singleton.2 hhead)
        | inr htail => exact horder₂ e htail
      · rw [if_neg hover]
        exact ⟨r, [], rfl, h, rfl, fun e he => absurd he List.not_mem_nil⟩

theorem handleChangeMax_ready (h : Ready facade r) {max : Nat}
    (hfit : 0 < max → EvictionsFit facade max r.size r) :
    ∃ r' evictions, r.handleChangeMax facade max = some (r', evictions) ∧ Ready facade r' ∧
      r'.comp = r.comp ∧ InOrder evictions := by
  rw [handleChangeMax]
  by_cases hmax : 0 < max
  · rw [if_pos hmax]
    exact evictWhile_ready h (Nat.le_refl _) (hfit hmax)
  · rw [if_neg hmax]
    exact ⟨r, [], rfl, h, rfl, fun e he => absurd he List.not_mem_nil⟩

theorem insert_ready (h : Ready facade r) {b : B} (hnew : ∀ i, i < r.size → r.list i ≠ b) :
    Ready facade (r.insert facade b) := by
  have hold : ∀ i, i < r.size → Function.update r.list r.size b i = r.list i :=
    fun i hi => Function.update_of_ne (by omega) _ _
  have hcounted := h.counted.insert hnew
  exact ⟨h.weak, pushHeap_heap h.weak b h.heap hold, hcounted.distinct, hcounted.current⟩

variable [DecidableEq B]

theorem add_ready (h : Ready facade r) {max : Nat} {b : B}
    (hfit : r.position (fun x => decide (x = b)) = none → 0 < max →
      EvictionsFit facade max (r.insert facade b).size (r.insert facade b)) :
    ∃ r' evictions, r.add facade max b = some (r', evictions) ∧ Ready facade r' ∧
      InOrder evictions := by
  rw [add]
  cases hposition : r.position fun x => decide (x = b) with
  | some pos => exact ⟨r, [], rfl, h, fun e he => absurd he List.not_mem_nil⟩
  | none =>
      have hnew : ∀ i, i < r.size → r.list i ≠ b := by
        intro i hi heq
        exact position_none hposition hi (decide_eq_true heq)
      obtain ⟨r', evictions, hchange, hready, _, horder⟩ :=
        handleChangeMax_ready (insert_ready h hnew) (hfit hposition)
      exact ⟨r', evictions, hchange, hready, horder⟩

theorem del_ready (h : Ready facade r) {b : B}
    (hfits : ∀ pos, r.position (fun x => decide (x = b)) = some pos →
      Fits r.comp.after r.list r.size pos) : Ready facade (r.del facade b) := by
  rw [del]
  cases hposition : r.position fun x => decide (x = b) with
  | none => exact h
  | some pos => exact h.takeOut (position_some hposition).1 (hfits pos hposition)

omit [DecidableEq B] in
theorem setComparator_ready (h : Ready facade r) {qc : QueueComp B} (hweak : Weak qc.after)
    (hlast : ∀ i, i + 1 < r.size → ¬qc.after (r.list i) (r.list (r.size - 1)) = true) :
    Ready facade (r.setComparator qc) := by
  rw [setComparator]
  by_cases hempty : r.size = 0
  · rw [if_pos hempty]
    refine h.rearrange hweak (.refl _ _) ?_
    intro i hi hlt
    omega
  · rw [if_neg hempty]
    exact h.rearrange hweak (makeHeap_rearranged.mono (by omega))
      (makeHeap_heap_all hweak (by omega) hlast)

omit [DecidableEq B] in
theorem changePriority_ready (h : Ready facade r) {b : B} {qc : QueueComp B} (hweak : Weak qc.after)
    (hagree : ∀ x y, x ≠ b → y ≠ b → qc.after x y = r.comp.after x y)
    (hfits : ∀ pos, r.position (fun x => facade.same x b) = some pos →
      r.list pos = b ∧ Fits qc.after r.list r.size pos) :
    Ready facade ({ r with comp := qc }.changePriority facade b) := by
  rw [changePriority]
  cases hposition : ({ r with comp := qc } : Repository B).position fun x => facade.same x b with
  | none =>
      have hother : ∀ i, i < r.size → r.list i ≠ b := by
        intro i hi heq
        refine position_none hposition hi ?_
        rw [← heq]
        exact facade.same_self _
      refine h.rearrange hweak (.refl _ _) ?_
      intro i hi hlt hle
      have hlt' := parent_lt hi
      show ¬qc.after _ _ = true
      rw [hagree _ _ (hother _ (by omega)) (hother i hlt)]
      exact h.heap i hi hlt hle
  | some pos =>
      obtain ⟨heq, hfit⟩ := hfits pos hposition
      have hin : pos < r.size := (position_some hposition).1
      have hother : ∀ i, i < r.size → i ≠ pos → r.list i ≠ b := by
        intro i hi hne hib
        exact hne (h.distinct i hi pos hin (hib.trans heq.symm))
      have hweak' := h.weak
      have hold := h.heap.withHole pos hin
      have hholed : Holed qc.after r.list 0 r.size pos := by
        constructor
        · intro i hi hlt hle hne hparent
          have hlt' := parent_lt hi
          rw [hagree _ _ (hother _ (by omega) hparent) (hother i hlt hne)]
          exact hold.off i hi hlt hle hne hparent
        · intro hpos hle i hi hlt hparent
          have hlt' := parent_lt hi
          have hlt'' := parent_lt hpos
          rw [hagree _ _ (hother _ (by omega) (by omega)) (hother i hlt (by omega))]
          exact hold.across hpos hle i hi hlt hparent
      have hremoved := removeAndReheap_heap hweak hholed hin hfit
      have hsize : r.size - 1 + 1 = r.size := by omega
      have hmoved := @removeAndReheap_moved B qc.after r.size pos r.list hin
      rw [heq] at hmoved
      have hpushed : Rearranged r.size
          (Function.update (removeAndReheap qc.after r.size r.list pos) (r.size - 1) b)
          (pushHeap qc.after (removeAndReheap qc.after r.size r.list pos) (r.size - 1) 0 b) :=
        pushHeapLoop_rearranged (by omega)
      have hheap := pushHeap_heap hweak b hremoved fun _ _ => rfl
      rw [hsize] at hheap
      exact h.rearrange hweak (hmoved.trans hpushed) hheap

/-! ## Runs -/

variable (facade)

/-- The comparators are strict weak orders. A change of priority changes the key of one bundle, and
not the policy. -/
def Admissible (r : Repository B) : Event B → Prop
  | .changePriority b qc =>
      Weak qc.after ∧ qc.lepr = r.comp.lepr ∧
        ∀ x y, x ≠ b → y ≠ b → qc.after x y = r.comp.after x y
  | .setComparator qc => Weak qc.after
  | _ => True

/-- The condition of a step: where a bundle is taken out, the last one fits in its place; under a
new comparator the last bundle does not have to come up at all; and a change of priority finds its
bundle before any equal one. -/
def Meets (r : Repository B) : Event B → Prop
  | .add max b =>
      r.position (fun x => decide (x = b)) = none → 0 < max →
        EvictionsFit facade max (r.insert facade b).size (r.insert facade b)
  | .del b =>
      ∀ pos, r.position (fun x => decide (x = b)) = some pos → Fits r.comp.after r.list r.size pos
  | .changePriority b qc =>
      ∀ pos, r.position (fun x => facade.same x b) = some pos →
        r.list pos = b ∧ Fits qc.after r.list r.size pos
  | .setComparator qc =>
      ∀ i, i + 1 < r.size → ¬qc.after (r.list i) (r.list (r.size - 1)) = true
  | .handleChangeMax max => 0 < max → EvictionsFit facade max r.size r

/-- A run whose steps are admissible and meet the condition. -/
def RunMeets (r : Repository B) : List (Event B) → Prop
  | [] => True
  | e :: events =>
      r.Admissible e ∧ r.Meets facade e ∧ ∀ s, r.step facade e = some s → RunMeets s.1 events

variable {facade}

theorem step_ready (h : Ready facade r) {e : Event B} (hadmissible : r.Admissible e)
    (hmeets : r.Meets facade e) :
    ∃ r' evictions, r.step facade e = some (r', evictions) ∧ Ready facade r' ∧
      InOrder evictions := by
  have hnothing : InOrder ([] : List (Repository B × B)) :=
    fun e he => absurd he List.not_mem_nil
  cases e with
  | add max b => exact add_ready h hmeets
  | del b => exact ⟨_, _, rfl, del_ready h hmeets, hnothing⟩
  | changePriority b qc =>
      exact ⟨_, _, rfl, changePriority_ready h hadmissible.1 hadmissible.2.2 hmeets, hnothing⟩
  | setComparator qc => exact ⟨_, _, rfl, setComparator_ready h hadmissible hmeets, hnothing⟩
  | handleChangeMax max =>
      obtain ⟨r', evictions, hchange, hready, _, horder⟩ := handleChangeMax_ready h hmeets
      exact ⟨r', evictions, hchange, hready, horder⟩

theorem run_ready {events : List (Event B)} :
    ∀ {r : Repository B}, Ready facade r → r.RunMeets facade events →
      ∃ r' evictions, r.run facade events = some (r', evictions) ∧ Ready facade r' ∧
        InOrder evictions := by
  induction events with
  | nil =>
      intro r h _
      exact ⟨r, [], rfl, h, fun e he => absurd he List.not_mem_nil⟩
  | cons e events ih =>
      intro r h hrun
      obtain ⟨hadmissible, hmeets, hrest⟩ := hrun
      obtain ⟨r₁, first, hstep, hready, horder⟩ := step_ready h hadmissible hmeets
      obtain ⟨r₂, rest, hrun₂, hready₂, horder₂⟩ := ih hready (hrest _ hstep)
      rw [run, hstep, Option.bind_some, hrun₂]
      refine ⟨r₂, _, rfl, hready₂, ?_⟩
      intro e he
      cases List.mem_append.1 he with
      | inl hfirst => exact horder e hfirst
      | inr hsecond => exact horder₂ e hsecond

/-- In a run that meets the condition the list is a heap under the current comparator after every
operation, and no eviction but one of the LEPR policy removes a bundle that another held bundle
precedes. -/
theorem run_in_order (hstart : r.Started) {events : List (Event B)}
    (hrun : r.RunMeets facade events) :
    ∃ r' evictions, r.run facade events = some (r', evictions) ∧
      Heap r'.comp.after r'.list 0 r'.size ∧ InOrder evictions := by
  obtain ⟨hempty, hnone, hweak⟩ := hstart
  have hready : Ready facade r := by
    refine ⟨hweak, ?_, ?_, ?_⟩
    · intro i hi hlt
      omega
    · intro i hi
      omega
    · rw [hnone, hempty]
      rfl
  obtain ⟨r', evictions, hr, h, horder⟩ := run_ready hready hrun
  exact ⟨r', evictions, hr, h.heap, horder⟩

end Runs

/-! ## Samples -/

namespace Sample

/-- Bundles of one octet each, named by their age. -/
def facade : Facade Nat := ⟨fun _ => 1, fun x y => decide (x = y), fun _ => decide_eq_true rfl⟩

/-- The oldest bundle is evicted first. -/
def fifo : QueueComp Nat := ⟨false, 0, fun x y => decide (y < x), fun _ => 0⟩

def start : Repository Nat := ⟨fifo, 0, id, 0⟩

theorem fifo_weak : Weak fifo.after where
  irrefl x := by simp [fifo]
  trans x y z := by
    simp only [fifo, decide_eq_true_eq]
    omega
  incomp_trans x y z := by
    simp only [fifo, decide_eq_true_eq]
    omega

theorem run_in_order_sample :
    ∃ r' evictions,
      start.run facade [.add 0 1, .add 0 2, .add 0 3, .del 2, .handleChangeMax 1] =
        some (r', evictions) ∧
      Heap r'.comp.after r'.list 0 r'.size ∧ InOrder evictions := by
  have hadd : ∀ (r : Repository Nat) (b : Nat), r.Meets facade (.add 0 b) :=
    fun _ _ _ h => absurd h (Nat.lt_irrefl 0)
  refine run_in_order ⟨rfl, rfl, fifo_weak⟩ ⟨trivial, hadd _ _, fun s₁ h₁ => ?_⟩
  cases h₁
  refine ⟨trivial, hadd _ _, fun s₂ h₂ => ?_⟩
  cases h₂
  refine ⟨trivial, hadd _ _, fun s₃ h₃ => ?_⟩
  cases h₃
  refine ⟨trivial, ?_, fun s₄ h₄ => ?_⟩
  · intro pos hpos
    cases hpos
    intro _
    exact ⟨fun _ => by decide, fun h => absurd h (by decide)⟩
  cases h₄
  refine ⟨trivial, fun _ _ => ?_, fun _ _ => trivial⟩
  refine ⟨fun h => absurd h (by decide), fun s₅ h₅ => ?_⟩
  cases h₅
  intro h
  exact absurd h (by decide)

/-- After the oldest of three bundles is deleted, the youngest one stands at the top, and is
evicted. -/
theorem del_breaks_order :
    start.Started ∧ ∃ r' q,
      start.run facade [.add 0 1, .add 0 2, .add 0 3, .del 1, .handleChangeMax 1] =
        some (r', [(q, 3)]) ∧
      q.comp.lepr = false ∧ 1 < q.size ∧ q.list 1 = 2 ∧ q.comp.after 3 2 = true ∧
      ¬Heap q.comp.after q.list 0 q.size := by
  refine ⟨⟨rfl, rfl, fifo_weak⟩, _, _, rfl, rfl, by decide, rfl, rfl, ?_⟩
  intro h
  exact h 1 (by decide) (by decide) (Nat.zero_le _) rfl

end Sample

end Repository

end Prophet

end Dtn2
