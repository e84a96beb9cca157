import Dtn2.Reg.APIRegistration
import Mathlib.Data.Set.Insert

/-!
# Which bundles a registration keeps

Bundles move between the three lists, and the store follows. Only two operations break this: a
bundle that is deleted from a list stays in the store, and a bundle that is delivered again while
another list holds it is then on two lists.
-/

namespace Dtn2

namespace APIRegistration

open BundleList (World)
open BundleList.World (Steady)

variable {L B K : Type} [DecidableEq L] [DecidableEq B] [DecidableEq K] {r : Lists L}
  {settings : Settings} {key : B → K} {s s' : State L B} {bundles : Set B} {b : B}

/-! ## The lists -/

omit [DecidableEq L] in
theorem Lists.ne_all {l : L} (h : l ∈ r.own) : l ≠ r.allBundles := by
  have hdistinct : (r.own ++ [r.allBundles]).Nodup := r.distinct
  exact (List.nodup_append.mp hdistinct).2.2 l h r.allBundles (List.mem_singleton_self _)

omit [DecidableEq L] in
theorem Lists.distinct_own (r : Lists L) : r.bundleList ≠ r.unackedBundleList ∧
    r.bundleList ≠ r.ackedBundleList ∧ r.unackedBundleList ≠ r.ackedBundleList := by
  have hdistinct := r.distinct
  simp only [List.nodup_cons, List.mem_cons, List.not_mem_nil, or_false, not_or] at hdistinct
  exact ⟨hdistinct.1.1, hdistinct.1.2.1, hdistinct.2.1.1⟩

omit [DecidableEq L] in
theorem Lists.mem_own (r : Lists L) :
    r.bundleList ∈ r.own ∧ r.unackedBundleList ∈ r.own ∧ r.ackedBundleList ∈ r.own := by
  simp [Lists.own]

omit [DecidableEq L] [DecidableEq B] in
theorem queue_mem (r : Lists L) (settings : Settings) (s : State L B) :
    queue r settings s ∈ r.own := by
  rw [queue]
  split
  · exact r.mem_own.1
  · exact r.mem_own.2.2

/-! ## Moves -/

omit [DecidableEq L] [DecidableEq B] in
theorem Keeps.same (h : Keeps r s bundles) (hstored : s'.stored = s.stored)
    (hsame : ∀ l ∈ r.own, s'.world.bundles l = s.world.bundles l) : Keeps r s' bundles := by
  constructor
  · intro b hb
    obtain ⟨l, ⟨hl, hmem⟩, hunique⟩ := h.once b hb
    refine ⟨l, ⟨hl, by rwa [hsame l hl]⟩, ?_⟩
    rintro l' ⟨hl', hmem'⟩
    exact hunique l' ⟨hl', by rwa [← hsame l' hl']⟩
  · intro b hb l hl
    rw [hsame l hl]
    exact h.others b hb l hl
  · rw [hstored, h.stored]
    exact (List.map_congr_left hsame).symm

omit [DecidableEq B] in
theorem Keeps.moved (h : Keeps r s bundles) {w : World L B} {x y : L} (hx : x ∈ r.own)
    (hy : y ∈ r.own) (gone : Set B) (hgone : ∀ c ∈ gone, c ∈ s.world.bundles x)
    (hfrom : ∀ c, c ∈ w.bundles x ↔ c ∈ s.world.bundles x ∧ c ∉ gone)
    (hto : ∀ c, c ∈ w.bundles y ↔ c ∈ s.world.bundles y ∨ c ∈ gone)
    (hframe : ∀ l ∈ r.own, l ≠ x → l ≠ y → w.bundles l = s.world.bundles l) :
    Keeps r (s.updateWith r w) bundles := by
  -- a bundle that has not gone is where it was
  have hstays : ∀ c, c ∉ gone → ∀ l ∈ r.own, (c ∈ w.bundles l ↔ c ∈ s.world.bundles l) := by
    intro c hc l hl
    by_cases hlx : l = x
    · rw [hlx, hfrom, and_iff_left hc]
    · by_cases hly : l = y
      · rw [hly, hto, or_iff_left hc]
      · rw [hframe l hl hlx hly]
  refine ⟨?_, ?_, rfl⟩
  · intro b hb
    obtain ⟨l, ⟨hl, hmem⟩, hunique⟩ := h.once b hb
    by_cases hc : b ∈ gone
    · refine ⟨y, ⟨hy, (hto b).mpr (.inr hc)⟩, ?_⟩
      rintro l' ⟨hl', hmem'⟩
      change b ∈ w.bundles l' at hmem'
      by_contra hne
      by_cases hlx : l' = x
      · rw [hlx, hfrom] at hmem'
        exact hmem'.2 hc
      · rw [hframe l' hl' hlx hne] at hmem'
        have hx' := hunique x ⟨hx, hgone b hc⟩
        have hl'' := hunique l' ⟨hl', hmem'⟩
        exact hlx (hl''.trans hx'.symm)
    · refine ⟨l, ⟨hl, (hstays b hc l hl).mpr hmem⟩, ?_⟩
      rintro l' ⟨hl', hmem'⟩
      exact hunique l' ⟨hl', (hstays b hc l' hl').mp hmem'⟩
  · intro b hb l hl
    have hc : b ∉ gone := fun hc => h.others b hb x hx (hgone b hc)
    change b ∉ w.bundles l
    rw [hstays b hc l hl]
    exact h.others b hb l hl

theorem Keeps.queued (h : Keeps r s bundles) {w : World L B} {y : L} (hy : y ∈ r.own)
    (hto : ∀ c, c ∈ w.bundles y ↔ c ∈ s.world.bundles y ∨ c = b)
    (hframe : ∀ l ∈ r.own, l ≠ y → w.bundles l = s.world.bundles l) :
    Keeps r (s.updateWith r w) (insert b bundles) ↔
      ∀ l ∈ r.own, b ∈ s.world.bundles l → l = y := by
  constructor
  · intro hkeeps l hl hmem
    obtain ⟨l₀, -, hunique⟩ := hkeeps.once b (Set.mem_insert b bundles)
    have hy' := hunique y ⟨hy, (hto b).mpr (.inr rfl)⟩
    by_contra hne
    have hl' := hunique l ⟨hl, by change b ∈ w.bundles l; rwa [hframe l hl hne]⟩
    exact hne (hl'.trans hy'.symm)
  · intro honly
    have hstays : ∀ c, c ≠ b → ∀ l ∈ r.own, (c ∈ w.bundles l ↔ c ∈ s.world.bundles l) := by
      intro c hc l hl
      by_cases hly : l = y
      · rw [hly, hto, or_iff_left hc]
      · rw [hframe l hl hly]
    refine ⟨?_, ?_, rfl⟩
    · intro c hc
      by_cases hcb : c = b
      · rw [hcb]
        refine ⟨y, ⟨hy, (hto b).mpr (.inr rfl)⟩, ?_⟩
        rintro l ⟨hl, hmem⟩
        change b ∈ w.bundles l at hmem
        by_contra hne
        rw [hframe l hl hne] at hmem
        exact hne (honly l hl hmem)
      · obtain ⟨l, ⟨hl, hmem⟩, hunique⟩ := h.once c (Set.mem_of_mem_insert_of_ne hc hcb)
        refine ⟨l, ⟨hl, (hstays c hcb l hl).mpr hmem⟩, ?_⟩
        rintro l' ⟨hl', hmem'⟩
        exact hunique l' ⟨hl', (hstays c hcb l' hl').mp hmem'⟩
    · intro c hc l hl
      rw [Set.mem_insert_iff, not_or] at hc
      change c ∉ w.bundles l
      rw [hstays c hc.1 l hl]
      exact h.others c hc.2 l hl

/-! ## Operations that always keep the bundles -/

theorem replay_keeps (hsteady : s.world.Steady r.allBundles) (h : Keeps r s bundles) {l : L}
    (hl : l ∈ r.own) (hne : r.bundleList ≠ l) :
    ∃ s', replay r l s = some s' ∧ s'.world.Steady r.allBundles ∧ Keeps r s' bundles := by
  rw [replay]
  by_cases hempty : s.world.nodes l = []
  · rw [if_pos hempty]
    exact ⟨s, rfl, hsteady, h⟩
  · obtain ⟨w, hmove, hw, hfrom, hframe, hto⟩ :=
      hsteady.moveContents_exists (r.ne_all hl) hne
    rw [if_neg hempty, hmove]
    refine ⟨s.updateWith r w, rfl, hw, ?_⟩
    refine h.moved hl r.mem_own.1 (fun c => c ∈ s.world.bundles l) (fun c hc => hc) ?_ hto ?_
    · intro c
      rw [hfrom]
      exact iff_of_false List.not_mem_nil fun hc => hc.2 hc.1
    · intro l' _ hl' hlist
      exact hframe l' hl' hlist

theorem setActiveCallback_keeps (hsteady : s.world.Steady r.allBundles) (h : Keeps r s bundles)
    (a : Bool) : ∃ s', setActiveCallback r settings a s = some s' ∧
      s'.world.Steady r.allBundles ∧ Keeps r s' bundles := by
  rw [setActiveCallback]
  cases a with
  | false => exact ⟨s, rfl, hsteady, h⟩
  | true =>
      obtain ⟨v, hreplay, hv, hkeeps⟩ := replay_keeps hsteady h r.mem_own.2.1 r.distinct_own.1
      rw [if_neg (by decide), hreplay]
      cases hsettings : settings.replayAction with
      | new => exact ⟨v, rfl, hv, hkeeps⟩
      | none => exact ⟨v, rfl, hv, hkeeps⟩
      | all => exact replay_keeps hv hkeeps r.mem_own.2.2 r.distinct_own.2.1

theorem bundleAck_keeps (hsteady : s.world.Steady r.allBundles) (h : Keeps r s bundles) (k : K) :
    ∃ s', bundleAck r key s k = some s' ∧ s'.world.Steady r.allBundles ∧ Keeps r s' bundles := by
  rw [bundleAck]
  cases hfind : find key s.world r.unackedBundleList k with
  | none => exact ⟨s, rfl, hsteady, h⟩
  | some b =>
      have hb : b ∈ s.world.bundles r.unackedBundleList := List.mem_of_find?_eq_some hfind
      have hunacked := r.ne_all r.mem_own.2.1
      have hacked := r.ne_all r.mem_own.2.2
      have hne := r.distinct_own.2.2
      -- the bundle is held until the end
      obtain ⟨u, htake, hu, hfreed, hhandles, hsame⟩ :=
        hsteady.takeRef_exists (hsteady.listed hunacked hb).1
      obtain ⟨v, hpush, hv, hvhandles, -, hvframe, hvto⟩ :=
        hu.addBundle_exists (b := b) hacked (by rw [hfreed, (hsteady.listed hunacked hb).1])
          (Nat.le_refl (u.nodes r.ackedBundleList).length)
      have hvunacked : v.bundles r.unackedBundleList = s.world.bundles r.unackedBundleList :=
        (hvframe _ hne hunacked).trans (hsame _ hunacked)
      obtain ⟨w, herase, hw, hwhandles, hwframe, hwfrom⟩ :=
        hv.erase_exists hunacked (hvunacked ▸ hb)
      have hwacked : ∀ c, c ∈ w.bundles r.ackedBundleList ↔
          c ∈ s.world.bundles r.ackedBundleList ∨ c = b := by
        intro c
        rw [hwframe _ hne.symm, hvto, hsame _ hacked]
      have hin : b ∈ w.bundles r.ackedBundleList := (hwacked b).mpr (.inr rfl)
      obtain ⟨t, hdrop, hnodes, -⟩ := World.dropRef_of_one_lt (hw.listed hacked hin).1
        (hw.listed hacked hin).2 (by rw [hwhandles, hvhandles, hhandles]; exact Nat.succ_pos _)
      have hpush' : u.pushBack r.allBundles r.ackedBundleList b = some v := hpush
      refine ⟨{ s.updateWith r w with world := t }, ?_, hw.dropRef hdrop, ?_⟩
      · dsimp only
        rw [htake]
        dsimp only [Option.bind_eq_bind, Option.bind_some]
        rw [hpush']
        dsimp only [Option.bind_eq_bind, Option.bind_some]
        rw [herase]
        dsimp only [Option.bind_eq_bind, Option.bind_some]
        have hworld : (s.updateWith r w).world = w := rfl
        rw [hworld, hdrop]
        rfl
      · have hmoved : Keeps r (s.updateWith r w) bundles := by
          refine h.moved r.mem_own.2.1 r.mem_own.2.2 {b} ?_ ?_ hwacked ?_
          · rintro c rfl
            exact hb
          · intro c
            rw [hwfrom, hvunacked]
            rfl
          · intro l hl hx hy
            rw [hwframe l hx, hvframe l hy (r.ne_all hl), hsame l (r.ne_all hl)]
        refine hmoved.same rfl fun l _ => ?_
        exact congrArg (List.map Prod.snd) (congrFun hnodes l)

/-! ## Operations with a condition -/

theorem deliverFront_keeps (hsteady : s.world.Steady r.allBundles) (h : Keeps r s bundles)
    (hfront : s.world.bundles r.bundleList ≠ []) :
    ∃ s', deliverFront r settings s = some s' ∧ s'.world.Steady r.allBundles ∧
      Keeps r s' bundles := by
  have hlist := r.ne_all r.mem_own.1
  rw [deliverFront]
  cases hnodes : s.world.nodes r.bundleList with
  | nil => exact absurd (by rw [World.bundles, hnodes]; rfl) hfront
  | cons n ns =>
      obtain ⟨v, hpop, hv, hfreed, hvframe, hvfrom⟩ := hsteady.popFront_exists hlist hnodes
      have hfrom : n.2 ∈ s.world.bundles r.bundleList := by
        rw [World.bundles, hnodes]
        exact List.mem_cons_self
      obtain ⟨y, hy⟩ : ∃ y, y = if settings.deliveryAcking then r.unackedBundleList
        else r.ackedBundleList := ⟨_, rfl⟩
      have hyown : y ∈ r.own ∧ y ≠ r.bundleList := by
        rw [hy]
        split
        · exact ⟨r.mem_own.2.1, r.distinct_own.1.symm⟩
        · exact ⟨r.mem_own.2.2, r.distinct_own.2.1.symm⟩
      obtain ⟨w, hpush, hw, -, -, hwframe, hwto⟩ :=
        hv.addBundle_exists (r.ne_all hyown.1) hfreed (Nat.le_refl (v.nodes y).length)
      have hpush' : v.pushBack r.allBundles y n.2 = some w := hpush
      refine ⟨s.updateWith r w, ?_, hw, ?_⟩
      · dsimp only [List.head?_cons]
        rw [hpop, ← hy]
        dsimp only [Option.bind_eq_bind, Option.bind_some]
        rw [hpush']
        rfl
      · refine h.moved r.mem_own.1 hyown.1 {n.2} ?_ ?_ ?_ ?_
        · rintro c rfl
          exact hfrom
        · intro c
          rw [hwframe _ hyown.2.symm hlist, hvfrom]
          rfl
        · intro c
          rw [hwto, hvframe _ hyown.2]
          rfl
        · intro l hl hx hy'
          rw [hwframe l hy' (r.ne_all hl), hvframe l hx]

theorem deliverBundle_queued (random : Nat)
    (hqueued : ¬(s.active = false ∧ settings.failureAction = .drop)) (b : B) :
    ∃ i ≤ (s.world.nodes (queue r settings s)).length,
      deliverBundle r settings random s b =
        (s.world.addBundle (World.addRef r.allBundles) (queue r settings s) b i).map
          (s.updateWith r) := by
  rw [deliverBundle, if_neg hqueued]
  split
  · refine ⟨if (s.world.nodes (queue r settings s)).length = 0 then 0
      else random % (s.world.nodes (queue r settings s)).length, ?_, ?_⟩
    · split
      · exact Nat.zero_le _
      · exact Nat.le_of_lt (Nat.mod_lt _ (by omega))
    · rw [World.insertRandom]
      exact Option.map_eq_bind.symm
  · refine ⟨(s.world.nodes (queue r settings s)).length, Nat.le_refl _, ?_⟩
    rw [World.pushBack]
    exact Option.map_eq_bind.symm

theorem deliverBundle_dropped (hsteady : s.world.Steady r.allBundles) (h : Keeps r s bundles)
    (hdropped : s.active = false ∧ settings.failureAction = .drop) (random : Nat) (b : B) :
    ((∃ s', deliverBundle r settings random s b = some s' ∧ Keeps r s' bundles) ↔
      s.world.freed b = false) ∧
    ∀ s', deliverBundle r settings random s b = some s' → s'.world.Steady r.allBundles := by
  rw [deliverBundle, if_pos hdropped]
  cases hfreed : s.world.freed b with
  | true =>
      have hnone : s.world.takeRef r.allBundles b = none := by
        rw [World.takeRef, World.addRef, World.addRefTo, if_pos hfreed]
        rfl
      rw [hnone]
      refine ⟨iff_of_false ?_ (by decide), fun s' hs' => by cases hs'⟩
      rintro ⟨s', hs', -⟩
      cases hs'
  | false =>
      obtain ⟨w, htake, hw, -, -, hsame⟩ := hsteady.takeRef_exists hfreed
      rw [htake]
      refine ⟨iff_of_true ⟨_, rfl, h.same rfl fun l hl => hsame l (r.ne_all hl)⟩ rfl, fun s' hs' => ?_⟩
      cases hs'
      exact hw

theorem deliverBundle_inserted (hsteady : s.world.Steady r.allBundles) (h : Keeps r s bundles)
    (hqueued : ¬(s.active = false ∧ settings.failureAction = .drop)) (random : Nat) (b : B) :
    ((∃ s', deliverBundle r settings random s b = some s' ∧ Keeps r s' (insert b bundles)) ↔
      s.world.freed b = false ∧
        ∀ l ∈ r.own, b ∈ s.world.bundles l → l = queue r settings s) ∧
    ∀ s', deliverBundle r settings random s b = some s' → s'.world.Steady r.allBundles := by
  obtain ⟨i, hi, hdeliver⟩ := deliverBundle_queued random hqueued b
  have hown := queue_mem r settings s
  rw [hdeliver]
  cases hfreed : s.world.freed b with
  | true =>
      rw [World.addBundle, if_pos hfreed]
      refine ⟨iff_of_false ?_ (fun hsound => by cases hsound.1), fun s' hs' => ?_⟩
      · rintro ⟨s', hs', hkeeps⟩
        cases hs'
        obtain ⟨l, ⟨hl, hmem⟩, -⟩ := hkeeps.once b (Set.mem_insert b bundles)
        have hused := (hsteady.listed (r.ne_all hl) hmem).1
        rw [hfreed] at hused
        cases hused
      · cases hs'
        exact hsteady
  | false =>
      obtain ⟨w, hadd, hw, -, -, hframe, hto⟩ := hsteady.addBundle_exists (r.ne_all hown) hfreed hi
      rw [hadd, and_iff_right rfl]
      have hkeeps := h.queued (w := w) hown hto fun l hl hne => hframe l hne (r.ne_all hl)
      rw [← hkeeps]
      refine ⟨⟨?_, fun hw' => ⟨_, rfl, hw'⟩⟩, fun s' hs' => ?_⟩
      · rintro ⟨s', hs', hw'⟩
        cases hs'
        exact hw'
      · cases hs'
        exact hw

theorem deleteBundle_keeps (hsteady : s.world.Steady r.allBundles) (h : Keeps r s bundles) (b : B) :
    ((∃ s', deleteBundle r s b = some s' ∧ Keeps r s' (bundles \ {b})) ↔
      ∀ l ∈ r.own, b ∉ s.world.bundles l) ∧
    ∀ s', deleteBundle r s b = some s' → s'.world.Steady r.allBundles := by
  rw [deleteBundle]
  cases hfind : r.own.find? fun l => s.world.isQueuedOn l b with
  | none =>
      have hnone : ∀ l ∈ r.own, b ∉ s.world.bundles l := by
        intro l hl hmem
        have hq := List.find?_eq_none.mp hfind l hl
        exact hq ((hsteady.queued l b).mpr hmem)
      refine ⟨iff_of_true ⟨_, rfl, ?_⟩ hnone, fun s' hs' => ?_⟩
      · have hout : b ∉ bundles := by
          intro hb
          obtain ⟨l, ⟨hl, hmem⟩, -⟩ := h.once b hb
          exact hnone l hl hmem
        have hrest : bundles \ {b} = bundles := by
          ext c
          refine and_iff_left_of_imp fun hc => ?_
          rintro rfl
          exact hout hc
        rw [hrest]
        exact h.same h.stored.symm fun _ _ => rfl
      · cases hs'
        exact hsteady
  | some l =>
      have hl : l ∈ r.own := List.mem_of_find?_eq_some hfind
      have hq : s.world.isQueuedOn l b = true := by simpa using List.find?_some hfind
      have hmem := (hsteady.queued l b).mp hq
      obtain ⟨w, herase, hw, -, -, hfrom⟩ := hsteady.erase_exists (r.ne_all hl) hmem
      dsimp only
      rw [herase]
      refine ⟨iff_of_false ?_ fun hnone => hnone l hl hmem, fun s' hs' => ?_⟩
      · rintro ⟨s', hs', hkeeps⟩
        cases hs'
        -- the lists in the store are those before the deletion
        have hlists : s.held r = r.own.map w.bundles := by
          rw [← h.stored]
          exact hkeeps.stored
        have hsame : s.world.bundles l = w.bundles l := List.map_inj_left.mp hlists l hl
        rw [hsame, hfrom] at hmem
        exact hmem.2 rfl
      · cases hs'
        exact hw

/-! ## Runs -/

theorem step_keeps (settings : Settings) (key : B → K) (hsteady : s.world.Steady r.allBundles)
    (h : Keeps r s bundles) (op : Op r B K) :
    ((∃ s', step r settings key s op = some s' ∧ Keeps r s' (expected r settings s bundles op)) ↔
      op.Sound r settings s) ∧
    ∀ s', step r settings key s op = some s' → s'.world.Steady r.allBundles := by
  have hexists : (∃ s', step r settings key s op = some s' ∧ s'.world.Steady r.allBundles ∧
      Keeps r s' (expected r settings s bundles op)) → op.Sound r settings s →
      ((∃ s', step r settings key s op = some s' ∧
        Keeps r s' (expected r settings s bundles op)) ↔ op.Sound r settings s) ∧
      ∀ s', step r settings key s op = some s' → s'.world.Steady r.allBundles := by
    rintro ⟨s', hs', hw, hkeeps⟩ hsound
    refine ⟨iff_of_true ⟨s', hs', hkeeps⟩ hsound, fun t ht => ?_⟩
    rw [hs'] at ht
    cases ht
    exact hw
  cases op with
  | deliverBundle random b =>
      by_cases hdropped : s.active = false ∧ settings.failureAction = .drop
      · have hexpected : expected (K := K) r settings s bundles (.deliverBundle random b) = bundles :=
          if_pos hdropped
        have hsound : Op.Sound (K := K) r settings s (.deliverBundle random b) ↔
            s.world.freed b = false := and_iff_left fun hqueued => absurd hdropped hqueued
        rw [hexpected, hsound]
        exact deliverBundle_dropped hsteady h hdropped random b
      · have hexpected : expected (K := K) r settings s bundles (.deliverBundle random b) =
            insert b bundles := if_neg hdropped
        have hsound : Op.Sound (K := K) r settings s (.deliverBundle random b) ↔
            s.world.freed b = false ∧ ∀ l ∈ r.own, b ∈ s.world.bundles l → l = queue r settings s :=
          and_congr_right fun _ => forall_prop_of_true hdropped
        rw [hexpected, hsound]
        exact deliverBundle_inserted hsteady h hdropped random b
  | deleteBundle b => exact deleteBundle_keeps hsteady h b
  | setActive a =>
      refine hexists ?_ trivial
      have hactive : Keeps r { s with active := a } bundles := h.same rfl fun _ _ => rfl
      exact setActiveCallback_keeps (s := { s with active := a }) hsteady hactive a
  | setActiveCallback a => exact hexists (setActiveCallback_keeps hsteady h a) trivial
  | deliverFront =>
      by_cases hfront : s.world.bundles r.bundleList = []
      · have hnodes : s.world.nodes r.bundleList = [] := List.map_eq_nil_iff.mp hfront
        have hnone : step r settings key s .deliverFront = none := by
          rw [step, deliverFront, hnodes]
          rfl
        rw [hnone]
        refine ⟨iff_of_false ?_ fun hsound => hsound hfront, fun s' hs' => by cases hs'⟩
        rintro ⟨s', hs', -⟩
        cases hs'
      · exact hexists (deliverFront_keeps hsteady h hfront) hfront
  | bundleAck k => exact hexists (bundleAck_keeps hsteady h k) trivial
  | elsewhere e =>
      refine hexists ⟨_, rfl, e.steady _ hsteady, ?_⟩ trivial
      exact h.same rfl (e.own _ hsteady)

/-- The registration keeps its bundles after each operation of a run exactly if each operation is
sound in the state it is in. -/
theorem keepsAll_iff (ops : List (Op r B K)) (s : State L B) (bundles : Set B)
    (hsteady : s.world.Steady r.allBundles) (h : Keeps r s bundles) :
    KeepsAll r settings key ops s bundles ↔ SoundAll r settings key ops s := by
  induction ops generalizing s bundles with
  | nil => exact Iff.rfl
  | cons op ops ih =>
      obtain ⟨hiff, hkeep⟩ := step_keeps settings key hsteady h op
      constructor
      · rintro ⟨s', hs', hkeeps, hall⟩
        refine ⟨hiff.mp ⟨s', hs', hkeeps⟩, fun t ht => ?_⟩
        rw [Option.mem_def, hs'] at ht
        cases ht
        exact (ih s' _ (hkeep s' hs') hkeeps).mp hall
      · rintro ⟨hsound, hall⟩
        obtain ⟨s', hs', hkeeps⟩ := hiff.mpr hsound
        exact ⟨s', hs', hkeeps, (ih s' _ (hkeep s' hs') hkeeps).mpr (hall s' hs')⟩

/-! ## Samples -/

/-- Other code lets go of a bundle. -/
def Elsewhere.release (r : Lists L) (b : B) : Elsewhere r B where
  run w := (w.dropRef b).getD w
  steady w hw := by
    cases hdrop : w.dropRef b with
    | none => exact hw
    | some w' => exact hw.dropRef hdrop
  own w _ l _ := by
    cases hdrop : w.dropRef b with
    | none => rfl
    | some w' =>
        rw [World.dropRef] at hdrop
        split at hdrop
        · cases hdrop
        · cases World.delRef_cases hdrop with
          | inl h =>
              rw [h.1]
              rfl
          | inr h =>
              rw [h.1]
              rfl

instance Op.decidableSound (s : State L B) : (op : Op r B K) → Decidable (op.Sound r settings s)
  | .deliverBundle _ b => inferInstanceAs (Decidable (_ ∧ (¬_ →
      ∀ l ∈ r.own, b ∈ s.world.bundles l → l = queue r settings s)))
  | .deleteBundle b => inferInstanceAs (Decidable (∀ l ∈ r.own, b ∉ s.world.bundles l))
  | .deliverFront => inferInstanceAs (Decidable (s.world.bundles r.bundleList ≠ []))
  | .setActive _ | .setActiveCallback _ | .bundleAck _ | .elsewhere _ => .isTrue trivial

instance decidableSoundAll : (ops : List (Op r B K)) → (s : State L B) →
    Decidable (SoundAll r settings key ops s)
  | [], _ => .isTrue trivial
  | op :: ops, s =>
      have (s' : State L B) : Decidable (SoundAll r settings key ops s') := decidableSoundAll ops s'
      inferInstanceAs (Decidable (_ ∧ ∀ s' ∈ step r settings key s op, SoundAll r settings key ops s'))

namespace Sample

def lists : Lists (Fin 4) := ⟨1, 2, 3, 0, by decide⟩

/-- A new registration of an application that is connected. -/
def start : State (Fin 4) Bool := ⟨true, World.empty, [[], [], []], []⟩

/-- Bundles are kept for the application, and it acknowledges what it gets. -/
def acking : Settings := ⟨.defer, .all, true, false⟩

def plain : Settings := ⟨.defer, .all, false, false⟩

/-- A bundle is delivered and acknowledged, another one is delivered while the application is away.
-/
def session : List (Op lists Bool Bool) :=
  [.deliverBundle 0 false, .deliverFront, .elsewhere (.release lists false), .bundleAck false,
    .setActive false, .deliverBundle 0 true, .setActive true, .deliverFront]

theorem start_keeps : Keeps lists start ∅ where
  once _ hb := absurd hb id
  others _ _ _ _ := List.not_mem_nil
  stored := rfl

theorem keepsAll_iff_session : KeepsAll lists acking id session start ∅ :=
  (keepsAll_iff session start ∅ (BundleList.World.steady_empty 0) start_keeps).mpr (by decide +kernel)

/-- A bundle that is deleted stays in the store; and one that is delivered a second time, after it
was passed to the application, is on two lists. -/
theorem not_keepsAll :
    ¬KeepsAll lists plain (id : Bool → Bool) [.deliverBundle 0 false, .deleteBundle false] start ∅ ∧
      ¬KeepsAll lists plain (id : Bool → Bool)
        [.deliverBundle 0 false, .deliverFront, .deliverBundle 0 false] start ∅ := by
  constructor
  · rintro ⟨s, hs, -, t, ht, hkeeps, -⟩
    have hstored : ∀ s ∈ step lists plain (id : Bool → Bool) start (.deliverBundle 0 false),
        ∀ t ∈ step lists plain (id : Bool → Bool) s (.deleteBundle false),
          t.stored ≠ t.held lists := by
      decide +kernel
    exact hstored s hs t ht hkeeps.stored
  · rintro ⟨s, hs, -, t, ht, -, u, hu, hkeeps, -⟩
    have htwice : ∀ s ∈ step lists plain (id : Bool → Bool) start (.deliverBundle 0 false),
        ∀ t ∈ step lists plain (id : Bool → Bool) s .deliverFront,
          ∀ u ∈ step lists plain (id : Bool → Bool) t (.deliverBundle 0 false),
            false ∈ u.world.bundles 1 ∧ false ∈ u.world.bundles 3 := by
      decide +kernel
    obtain ⟨hqueued, hacked⟩ := htwice s hs t ht u hu
    have hexpected := hkeeps.once false
    rw [expected, if_neg (fun h => by cases h.2)] at hexpected
    obtain ⟨l, -, hunique⟩ := hexpected (Set.mem_insert _ _)
    have hfirst := hunique 1 ⟨lists.mem_own.1, hqueued⟩
    have hsecond := hunique 3 ⟨lists.mem_own.2.2, hacked⟩
    exact absurd (hfirst.trans hsecond.symm) (by decide)

end Sample

end APIRegistration

end Dtn2
