import Dtn2.Prophet.Accounting
import Mathlib.Algebra.Order.BigOperators.Group.Finset

/-!
# No bundle is lost in the repository

A ledger says which bundles were added and neither deleted nor evicted. The repository holds these, counts
their octets, and keeps the quota. The LEPR policy evicts without a call of `drop_bundle`, 32 bits may not
hold the sum of the octets, and `change_priority` takes any bundle with the same sequence number and
destination for the one that it is called for.
-/

namespace Dtn2

namespace Prophet

open Framework BinaryHeap

variable {B : Type}

namespace Repository

/-! ## Evictions -/

section Evictions

variable (facade : Facade B)

/-- What `evict` hands to `drop_bundle` when it removes the bundle `b`: the branch of the LEPR policy
returns before that. -/
def dropped (r : Repository B) (b : B) : List B :=
  if r.comp.lepr = false then [b]
  else match r.leprVictim with
    | some _ => []
    | none => [b]

/-- The calls of `drop_bundle`, in order. -/
def drops (evictions : List (Repository B × B)) : List B :=
  evictions.flatMap fun e => e.1.dropped e.2

def evicted (evictions : List (Repository B × B)) : List B := evictions.map Prod.snd

theorem evicted_cons (e : Repository B × B) (evictions : List (Repository B × B)) :
    evicted (e :: evictions) = e.2 :: evicted evictions := rfl

theorem evicted_append (first rest : List (Repository B × B)) :
    evicted (first ++ rest) = evicted first ++ evicted rest := List.map_append

theorem drops_append (first rest : List (Repository B × B)) :
    drops (first ++ rest) = drops first ++ drops rest := List.flatMap_append

/-- No eviction down to a quota is one of the LEPR policy. -/
def EvictionsDrop (max : Nat) : Nat → Repository B → Prop
  | 0, _ => True
  | fuel + 1, r =>
      max < r.current → (r.comp.lepr = true → r.leprVictim = none) ∧
        ∀ e, r.evict facade = some e → EvictionsDrop max fuel e.1

variable {facade} {r : Repository B}

theorem dropped_of (h : r.comp.lepr = true → r.leprVictim = none) (b : B) : r.dropped b = [b] := by
  rw [dropped]
  by_cases hlepr : r.comp.lepr = false
  · rw [if_pos hlepr]
  · rw [if_neg hlepr, h (by simpa using hlepr)]

theorem evictWhile_drops {max fuel : Nat} :
    ∀ {r : Repository B} {s : Repository B × List (Repository B × B)},
      evictWhile facade max fuel r = some s → EvictionsDrop facade max fuel r →
        drops s.2 = evicted s.2 := by
  induction fuel with
  | zero =>
      intro r s h _
      rw [evictWhile] at h
      split at h
      · cases h
      · cases h
        rfl
  | succ fuel ih =>
      intro r s h hdrop
      rw [evictWhile] at h
      split at h
      · rename_i hover
        obtain ⟨hpolicy, hrest⟩ := hdrop hover
        obtain ⟨e, hevict, h⟩ := Option.bind_eq_some_iff.mp h
        obtain ⟨f, hwhile, rfl⟩ := Option.map_eq_some_iff.mp h
        have hlater := ih hwhile (hrest e hevict)
        rw [drops, List.flatMap_cons, ← drops, hlater, dropped_of hpolicy]
        rfl
      · cases h
        rfl

variable [DecidableEq B]

theorem Counted.evict (h : Counted facade r) (hsize : 0 < r.size) :
    ∃ r' b, r.evict facade = some (r', b) ∧ Counted facade r' ∧ r'.size = r.size - 1 ∧
      r'.bundles = r.bundles.erase b := by
  rcases evict_cases hsize with htop | ⟨pos, hin, _, _, hvictim⟩
  · exact ⟨_, _, htop, h.withoutTop hsize, rfl, h.bundles_withoutTop hsize⟩
  · exact ⟨_, _, hvictim, h.takeOut hin, rfl, h.bundles_takeOut hin⟩

theorem Counted.evictWhile {max fuel : Nat} :
    ∀ {r : Repository B}, Counted facade r → r.size ≤ fuel →
      ∃ r' evictions, evictWhile facade max fuel r = some (r', evictions) ∧ Counted facade r' ∧
        r'.bundles = r.bundles \ (evicted evictions).toFinset ∧ r'.current ≤ max := by
  induction fuel with
  | zero =>
      intro r h hsize
      have hzero := h.current_of_empty (by omega)
      rw [Repository.evictWhile, if_neg (by omega)]
      exact ⟨r, [], rfl, h, by simp [evicted], by omega⟩
  | succ fuel ih =>
      intro r h hsize
      rw [Repository.evictWhile]
      by_cases hover : max < r.current
      · have hpos : 0 < r.size := by
          by_contra hempty
          have hzero := h.current_of_empty (by omega)
          omega
        obtain ⟨r₁, b, hevict, hcounted, hsize₁, hbundles⟩ := h.evict hpos
        obtain ⟨r₂, evictions, hrest, hcounted₂, hbundles₂, hquota⟩ :=
          ih hcounted (show r₁.size ≤ fuel by omega)
        rw [if_pos hover, hevict, Option.bind_some, hrest]
        refine ⟨r₂, _, rfl, hcounted₂, ?_, hquota⟩
        rw [hbundles₂, hbundles, evicted_cons, List.toFinset_cons]
        ext x
        simp only [Finset.mem_sdiff, Finset.mem_erase, Finset.mem_insert]
        tauto
      · rw [if_neg hover]
        exact ⟨r, [], rfl, h, by simp [evicted], by omega⟩

end Evictions

/-! ## The ledger -/

section Ledger

variable [DecidableEq B] (facade : Facade B)

def note (members : Finset B) (evictions : List (Repository B × B)) : Event B → Finset B
  | .add _ b => (members ∪ {b}) \ (evicted evictions).toFinset
  | .del b => members.erase b
  | .changePriority _ _ => members
  | .setComparator _ => members
  | .handleChangeMax _ => members \ (evicted evictions).toFinset

/-- The bundles that were added and neither deleted nor evicted in a run, from the ones before it. -/
def ledger (r : Repository B) : List (Event B) → Finset B → Finset B
  | [], members => members
  | e :: events, members =>
      match r.step facade e with
      | none => members
      | some s => ledger s.1 events (note members s.2 e)

/-- The quota after an operation: `handle_change_max` announces a new one. -/
def newQuota (quota : Nat) : Event B → Nat
  | .handleChangeMax max => max
  | _ => quota

def Announced (quota : Nat) : List (Event B) → Prop
  | [] => True
  | e :: events =>
      (∀ max b, e = .add max b → max = quota) ∧ Announced (newQuota quota e) events

def quotaAfter (quota : Nat) : List (Event B) → Nat
  | [] => quota
  | e :: events => quotaAfter (newQuota quota e) events

/-- What the repository should hold and count. -/
structure Accounted (quota : Nat) (members : Finset B) (r : Repository B) : Prop where
  bundles : r.bundles = members
  once : r.bundles.card = r.size
  current : r.current = members.sum facade.size
  quota : 0 < quota → r.current ≤ quota

/-- The condition of a step: the octets of a new bundle can be added to the others in 32 bits, no
eviction is one of the LEPR policy, and a change of priority finds its bundle before any other one with
the same sequence number and destination. -/
def Counts (r : Repository B) : Event B → Prop
  | .add max b =>
      b ∉ r.bundles → r.bundles.sum facade.size + facade.size b < 2 ^ 32 ∧
        (0 < max → EvictionsDrop facade max (r.insert facade b).size (r.insert facade b))
  | .changePriority b _ => ∀ pos, r.position (fun x => facade.same x b) = some pos → r.list pos = b
  | .handleChangeMax max => 0 < max → EvictionsDrop facade max r.size r
  | _ => True

/-- A run whose steps meet the condition. -/
def RunCounts (r : Repository B) : List (Event B) → Prop
  | [] => True
  | e :: events =>
      r.Counts facade e ∧ ∀ s, r.step facade e = some s → RunCounts s.1 events

variable {facade} {r : Repository B}

/-! ## One operation -/

/-- The repository with a sum of octets that 32 bits hold. -/
structure Exact (facade : Facade B) (r : Repository B) : Prop where
  counted : Counted facade r
  small : r.bundles.sum facade.size < 2 ^ 32

theorem Exact.current (h : Exact facade r) : r.current = r.bundles.sum facade.size := by
  rw [h.counted.current, ← h.counted.sum_bundles, Nat.mod_eq_of_lt h.small]

theorem Exact.of_subset (h : Exact facade r) {r' : Repository B} (hcounted : Counted facade r')
    (hsub : r'.bundles ⊆ r.bundles) : Exact facade r' :=
  ⟨hcounted, Nat.lt_of_le_of_lt (Finset.sum_le_sum_of_subset hsub) h.small⟩

theorem Exact.handleChangeMax (h : Exact facade r) {max : Nat}
    (hdrop : 0 < max → EvictionsDrop facade max r.size r) :
    ∃ r' evictions, r.handleChangeMax facade max = some (r', evictions) ∧ Exact facade r' ∧
      r'.bundles = r.bundles \ (evicted evictions).toFinset ∧ (0 < max → r'.current ≤ max) ∧
      drops evictions = evicted evictions := by
  rw [Repository.handleChangeMax]
  by_cases hmax : 0 < max
  · rw [if_pos hmax]
    obtain ⟨r', evictions, hwhile, hcounted, hbundles, hquota⟩ :
        ∃ r' evictions, evictWhile facade max r.size r = some (r', evictions) ∧ _ :=
      h.counted.evictWhile (Nat.le_refl r.size)
    have hsub : r'.bundles ⊆ r.bundles := by
      rw [hbundles]
      exact Finset.sdiff_subset
    exact ⟨r', evictions, hwhile, h.of_subset hcounted hsub, hbundles, fun _ => hquota,
      evictWhile_drops hwhile (hdrop hmax)⟩
  · rw [if_neg hmax]
    exact ⟨r, [], rfl, h, by simp [evicted], fun hpos => absurd hpos hmax, rfl⟩

theorem Exact.insert (h : Exact facade r) {b : B} (hnew : b ∉ r.bundles)
    (hsmall : r.bundles.sum facade.size + facade.size b < 2 ^ 32) :
    Exact facade (r.insert facade b) := by
  refine ⟨h.counted.insert fun i hi heq => hnew (mem_bundles.2 ⟨i, hi, heq⟩), ?_⟩
  rw [bundles_insert, Finset.sum_union (Finset.disjoint_singleton_right.2 hnew),
    Finset.sum_singleton]
  exact hsmall

theorem Exact.del (h : Exact facade r) (b : B) :
    Exact facade (r.del facade b) ∧ (r.del facade b).bundles = r.bundles.erase b ∧
      (r.del facade b).current ≤ r.current := by
  rw [Repository.del]
  cases hposition : r.position fun x => decide (x = b) with
  | none =>
      have hnone := position_eq_none.1 hposition
      exact ⟨h, (Finset.erase_eq_of_notMem hnone).symm, Nat.le_refl _⟩
  | some pos =>
      obtain ⟨hin, hb⟩ := position_some hposition
      have hbundles := h.counted.bundles_takeOut hin
      rw [of_decide_eq_true hb] at hbundles
      have hsub : (r.takeOut facade pos).bundles ⊆ r.bundles := by
        rw [hbundles]
        exact Finset.erase_subset _ _
      have hexact := h.of_subset (h.counted.takeOut hin) hsub
      refine ⟨hexact, hbundles, ?_⟩
      rw [hexact.current, h.current]
      exact Finset.sum_le_sum_of_subset hsub

theorem Exact.rearrange (h : Exact facade r) {list : Nat → B} {qc : QueueComp B}
    (hmoved : Rearranged r.size r.list list) :
    Exact facade { r with comp := qc, list := list } := by
  refine ⟨h.counted.rearrange hmoved, ?_⟩
  rw [bundles_rearrange hmoved]
  exact h.small

omit [DecidableEq B] in
theorem setComparator_eq (r : Repository B) (qc : QueueComp B) :
    r.setComparator qc = { r with comp := qc, list := (r.setComparator qc).list } := rfl

omit [DecidableEq B] in
theorem changePriority_eq (r : Repository B) (b : B) :
    r.changePriority facade b = { r with list := (r.changePriority facade b).list } := by
  rw [changePriority]
  cases r.position fun x => facade.same x b with
  | none => rfl
  | some pos => rfl

theorem step_accounted {quota : Nat} {e : Event B} (h : Exact facade r)
    (hquota : 0 < quota → r.current ≤ quota) (hadd : ∀ max b, e = .add max b → max = quota)
    (hcounts : r.Counts facade e) :
    ∃ r' evictions, r.step facade e = some (r', evictions) ∧ Exact facade r' ∧
      r'.bundles = note r.bundles evictions e ∧
      (0 < newQuota quota e → r'.current ≤ newQuota quota e) ∧
      drops evictions = evicted evictions := by
  cases e with
  | add max b =>
      obtain rfl := hadd max b rfl
      rw [step, add]
      cases hposition : r.position fun x => decide (x = b) with
      | some pos =>
          have hheld : b ∈ r.bundles := by
            by_contra hnot
            rw [position_eq_none.2 hnot] at hposition
            cases hposition
          refine ⟨r, [], rfl, h, ?_, hquota, rfl⟩
          rw [note, evicted, List.map_nil, List.toFinset_nil, Finset.sdiff_empty]
          exact (Finset.union_eq_left.2 (Finset.singleton_subset_iff.2 hheld)).symm
      | none =>
          have hnew := position_eq_none.1 hposition
          obtain ⟨hsmall, hdrop⟩ := hcounts hnew
          obtain ⟨r', evictions, hchange, hexact, hbundles, hle, hdrops⟩ :=
            (h.insert hnew hsmall).handleChangeMax hdrop
          rw [bundles_insert] at hbundles
          exact ⟨r', evictions, hchange, hexact, hbundles, hle, hdrops⟩
  | del b =>
      obtain ⟨hexact, hbundles, hle⟩ := h.del b
      exact ⟨_, [], rfl, hexact, hbundles, fun hpos => Nat.le_trans hle (hquota hpos), rfl⟩
  | changePriority b qc =>
      have hmoved := changePriority_moved (r := { r with comp := qc }) hcounts
      rw [step, changePriority_eq]
      exact ⟨_, [], rfl, h.rearrange hmoved, bundles_rearrange hmoved, hquota, rfl⟩
  | setComparator qc =>
      have hmoved := setComparator_moved r qc
      rw [step, setComparator_eq]
      exact ⟨_, [], rfl, h.rearrange hmoved, bundles_rearrange hmoved, hquota, rfl⟩
  | handleChangeMax max =>
      obtain ⟨r', evictions, hchange, hexact, hbundles, hle, hdrops⟩ := h.handleChangeMax hcounts
      exact ⟨r', evictions, hchange, hexact, hbundles, hle, hdrops⟩

/-! ## Runs -/

theorem run_exact {events : List (Event B)} :
    ∀ {r : Repository B} {quota : Nat}, Exact facade r → (0 < quota → r.current ≤ quota) →
      Announced quota events → r.RunCounts facade events →
        ∃ r' evictions, r.run facade events = some (r', evictions) ∧ Exact facade r' ∧
          r'.bundles = r.ledger facade events r.bundles ∧
          (0 < quotaAfter quota events → r'.current ≤ quotaAfter quota events) ∧
          drops evictions = evicted evictions := by
  induction events with
  | nil =>
      intro r quota h hquota _ _
      exact ⟨r, [], rfl, h, rfl, hquota, rfl⟩
  | cons e events ih =>
      intro r quota h hquota hannounced hrun
      obtain ⟨hadd, hannounced⟩ := hannounced
      obtain ⟨hcounts, hrest⟩ := hrun
      obtain ⟨r₁, first, hstep, hexact, hbundles, hquota₁, hdrops⟩ :=
        step_accounted h hquota hadd hcounts
      obtain ⟨r₂, rest, hrun₂, hexact₂, hbundles₂, hquota₂, hdrops₂⟩ :=
        ih hexact hquota₁ hannounced (hrest _ hstep)
      rw [run, hstep, Option.bind_some, hrun₂]
      refine ⟨r₂, _, rfl, hexact₂, ?_, hquota₂, ?_⟩
      · rw [ledger, hstep]
        dsimp only
        rw [← hbundles]
        exact hbundles₂
      · dsimp only
        rw [drops_append, evicted_append, hdrops, hdrops₂]

/-- In a run from an empty repository that meets the condition, every operation returns; the repository
holds what was added and neither deleted nor evicted, every bundle once; `current_` is the sum of their
octets and within the quota; and `drop_bundle` is called for the evicted bundles, once for each. -/
theorem run_accounted (hsize : r.size = 0) (hcurrent : r.current = 0) {quota : Nat}
    {events : List (Event B)} (hannounced : Announced quota events)
    (hrun : r.RunCounts facade events) :
    ∃ r' evictions, r.run facade events = some (r', evictions) ∧
      Accounted facade (quotaAfter quota events) (r.ledger facade events ∅) r' ∧
      drops evictions = evicted evictions := by
  have hexact : Exact facade r := by
    refine ⟨.of_empty hsize hcurrent, ?_⟩
    rw [bundles_of_empty hsize, Finset.sum_empty]
    decide
  obtain ⟨r', evictions, hr, h, hbundles, hquota, hdrops⟩ :=
    run_exact hexact (fun _ => by omega) hannounced hrun
  rw [bundles_of_empty hsize] at hbundles
  refine ⟨r', evictions, hr, ⟨hbundles, h.counted.card_bundles, ?_, hquota⟩, hdrops⟩
  rw [h.current, hbundles]

end Ledger

/-! ## Samples -/

namespace Sample

/-- Bundles by number, of so many octets each; the even ones have the same sequence number and
destination, and so do the odd ones. -/
def numbered (octets : Nat) : Facade Nat :=
  ⟨fun _ => octets, fun x y => decide (x % 2 = y % 2), fun _ => decide_eq_true rfl⟩

/-- The bundle with the smallest number is evicted first; under the LEPR policy it has to be forwarded
more than `minFwd` times, and all were forwarded once. -/
def smallest (lepr : Bool) (minFwd : Nat) : QueueComp Nat :=
  ⟨lepr, minFwd, fun x y => decide (y < x), fun _ => 1⟩

def emptied (comp : QueueComp Nat) : Repository Nat := ⟨comp, 0, id, 0⟩

theorem run_accounted_sample :
    ∃ r' evictions,
      (emptied (smallest true 1)).run (numbered 1) [.add 1 0, .add 1 1] = some (r', evictions) ∧
      Accounted (numbered 1) 1
        ((emptied (smallest true 1)).ledger (numbered 1) [.add 1 0, .add 1 1] ∅) r' ∧
      drops evictions = evicted evictions := by
  have hannounced : Announced 1 [Event.add 1 0, .add 1 1] := by
    refine ⟨fun max b h => ?_, fun max b h => ?_, trivial⟩ <;> (cases h; rfl)
  refine run_accounted rfl rfl hannounced ⟨fun _ => ⟨by decide, fun _ hover => ?_⟩, fun s₁ h₁ => ?_⟩
  · exact absurd hover (by decide)
  cases h₁
  refine ⟨fun _ => ⟨by decide, fun _ _ => ⟨fun _ => rfl, fun e he => ?_⟩⟩, fun s₂ _ => trivial⟩
  cases he
  exact fun hover => absurd hover (by decide)

/-- A bundle that the LEPR policy evicts is not dropped; `2 ^ 32` octets are counted as none; and the
change of priority of bundle 2 takes bundle 0 out. -/
theorem repository_unaccounted :
    (∃ r' evictions,
      (emptied (smallest true 0)).run (numbered 1) [.add 1 0, .add 1 1] = some (r', evictions) ∧
      evicted evictions = [0] ∧ drops evictions = []) ∧
    (∃ r', (emptied (smallest false 0)).run (numbered (2 ^ 31)) [.add 0 0, .add 0 1] =
        some (r', []) ∧ r'.bundles.sum (numbered (2 ^ 31)).size = 2 ^ 32 ∧ r'.current = 0) ∧
    (∃ r', (emptied (smallest false 0)).run (numbered 1)
        [.add 0 0, .add 0 2, .changePriority 2 (smallest false 0)] = some (r', []) ∧
      r'.bundles = {2} ∧ r'.size = 2) := by
  refine ⟨⟨_, _, rfl, rfl, rfl⟩, ⟨_, rfl, by decide, by decide⟩, ⟨_, rfl, by decide, rfl⟩⟩

end Sample

end Repository

end Prophet

end Dtn2
