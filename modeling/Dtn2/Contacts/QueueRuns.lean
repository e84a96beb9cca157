import Dtn2.Contacts.QueueConsistency
import Mathlib.Data.List.Perm.Basic

/-!
# Runs over the queues of links

A step changes one link, and what the daemon and the connection hold for it. The invariant of each link
is kept as long as no bundle is reported as cancelled that is still on the in-flight list.
-/

namespace Dtn2

open ForwardingInfo

namespace LinkQueues

variable {L B : Type} [DecidableEq L] [DecidableEq B]

theorem blocks_update_self (blocks : B → L → Option Nat) (b : B) (l : L) (new : Option Nat) :
    (fun c => Function.update blocks b (Function.update (blocks b) l new) c l) =
      Function.update (fun c => blocks c l) b new := by
  funext c
  by_cases hc : c = b
  · subst hc
    simp
  · simp [hc]

theorem blocks_update_of_ne (blocks : B → L → Option Nat) (b : B) {l l' : L} (hl : l' ≠ l)
    (new : Option Nat) :
    (fun c => Function.update blocks b (Function.update (blocks b) l new) c l') =
      fun c => blocks c l' := by
  funext c
  by_cases hc : c = b
  · subst hc
    simp [hl]
  · simp [hc]

theorem count_transmitted (b c : B) (l l' : L) :
    [Report.transmitted b l].count (Report.transmitted c l') = if l' = l ∧ c = b then 1 else 0 := by
  by_cases hl : l' = l
  · by_cases hc : c = b
    · simp [hl, hc]
    · simp [hc, Ne.symm hc]
  · simp [hl, Ne.symm hl]

theorem count_cancelled (b c : B) (l l' : L) :
    [Report.cancelled b l].count (Report.cancelled c l') = if l' = l ∧ c = b then 1 else 0 := by
  by_cases hl : l' = l
  · by_cases hc : c = b
    · simp [hl, hc]
    · simp [hc, Ne.symm hc]
  · simp [hl, Ne.symm hl]

@[simp] theorem count_transmitted_cancelled (b c : B) (l l' : L) :
    [Report.transmitted b l].count (Report.cancelled c l') = 0 := by
  simp

@[simp] theorem count_cancelled_transmitted (b c : B) (l l' : L) :
    [Report.cancelled b l].count (Report.transmitted c l') = 0 := by
  simp

theorem perm_of_getElem? {α : Type} {xs : List α} {i : Nat} {x : α} (h : xs[i]? = some x) :
    (x :: xs.eraseIdx i).Perm xs := by
  obtain ⟨hi, rfl⟩ := List.getElem?_eq_some_iff.mp h
  exact List.getElem_cons_eraseIdx_perm hi

namespace State

variable {s : State L B} {b : B} {l : L}

/-- The bundles that a connection works on. -/
def held (s : State L B) (l : L) : List B := (s.conn l).map InFlightBundle.bundle

def Inv (s : State L B) : Prop :=
  ∀ l, LinkInv (s.daemon.link l) (fun b => s.daemon.blocks b l) (s.held l)
    (fun b => s.posted.count (.transmitted b l)) (fun b => s.posted.count (.cancelled b l))

theorem Inv.queueBundle (h : Inv s) (action : Action) (format : Format)
    (hfits : s.totalLength l (s.daemon.link l).queue + s.totalLength l (s.daemon.link l).inflight +
      format.length < uintMod) :
    Inv { s with daemon := s.daemon.queueBundle b l action format } := by
  intro l'
  change LinkInv ((s.daemon.queueBundle b l action format).link l')
    (fun c => (s.daemon.queueBundle b l action format).blocks c l') (s.held l') _ _
  have hl := h l
  have hl' := h l'
  have hqueued := s.daemon.queueBundle_queued b l action format
  generalize s.daemon.queueBundle b l action format = w at hqueued ⊢
  cases hqueued with
  | refused => exact hl'
  | left hnone hpos hlate =>
      change LinkInv (s.daemon.link l') (fun c => Function.update s.daemon.blocks b
        (Function.update (s.daemon.blocks b) l (some format.length)) c l') _ _ _
      by_cases hne : l' = l
      · subst hne
        rw [blocks_update_self]
        exact hl.format hnone _
      · rw [blocks_update_of_ne _ _ hne]
        exact hl'
  | suppressed hnone hpos hmtu =>
      change LinkInv (s.daemon.link l') (fun c => Function.update s.daemon.blocks b
        (Function.update (s.daemon.blocks b) l (some format.length)) c l') _ _ _
      by_cases hne : l' = l
      · subst hne
        rw [blocks_update_self]
        exact hl.format hnone _
      · rw [blocks_update_of_ne _ _ hne]
        exact hl'
  | queued hnone hpos hq hi =>
      change LinkInv (Function.update s.daemon.link l _ l') (fun c => Function.update s.daemon.blocks b
        (Function.update (s.daemon.blocks b) l (some format.length)) c l') _ _ _
      by_cases hne : l' = l
      · subst hne
        rw [blocks_update_self, Function.update_self]
        have hzero := hl.nowhere_of_none hnone
        refine (hl.format hnone format.length).addToQueue hzero (Function.update_self _ _ _) hpos ?_
        rw [total_update hq, total_update hi]
        exact hfits
      · rw [blocks_update_of_ne _ _ hne, Function.update_of_ne hne]
        exact hl'

theorem Inv.startNextBundle (h : Inv s) (l : L) : Inv (s.startNextBundle l) := by
  rw [State.startNextBundle]
  split
  · exact h
  rename_i b hhead
  split
  · exact h
  rename_i len hlen
  intro l'
  by_cases hne : l' = l
  · subst hne
    have hstart := (h l').start (List.mem_of_mem_head? hhead) hlen
    simpa only [held, Forwarding.setLink, Function.update_self, List.map_append, List.map_cons,
      List.map_nil] using hstart
  · simpa only [held, Forwarding.setLink, Function.update_of_ne hne] using h l'

omit [DecidableEq B] in
theorem held_progress (s : State L B) (l : L) (i : Nat) (sentData segmentTodo : Bool) (l' : L) :
    (s.progress l i sentData segmentTodo).held l' = s.held l' := by
  by_cases hne : l' = l
  · subst hne
    simp only [held, progress, Function.update_self]
    refine List.ext_getElem (by simp) ?_
    intro j hj hj'
    simp only [List.getElem_map, List.getElem_modify]
    split <;> rfl
  · simp only [held, progress, Function.update_of_ne hne]

theorem Inv.progress (h : Inv s) (l : L) (i : Nat) (sentData segmentTodo : Bool) :
    Inv (s.progress l i sentData segmentTodo) := by
  intro l'
  rw [held_progress]
  exact h l'

omit [DecidableEq L] [DecidableEq B] in
theorem held_perm {i : Nat} {r : InFlightBundle B} (hr : (s.conn l)[i]? = some r) :
    (r.bundle :: ((s.conn l).eraseIdx i).map InFlightBundle.bundle).Perm (s.held l) :=
  (perm_of_getElem? hr).map InFlightBundle.bundle

theorem Inv.complete (h : Inv s) (l : L) (i : Nat) : Inv (s.complete l i) := by
  rw [State.complete]
  split
  · exact h
  rename_i r hr
  intro l'
  simp only [List.count_append, count_transmitted, count_transmitted_cancelled, Nat.add_zero]
  by_cases hne : l' = l
  · subst hne
    have hreport := (h l').report (held_perm hr) (fun _ => rfl)
    simpa only [held, Function.update_self, true_and] using hreport
  · simpa only [held, Function.update_of_ne hne, hne, false_and, if_false, Nat.add_zero] using h l'

theorem Inv.putBack (h : Inv s) (l : L) (i : Nat) : Inv (s.putBack l i) := by
  rw [State.putBack]
  split
  · exact h
  rename_i r hr
  have hperm := held_perm hr
  split
  · rename_i hnone
    have hzero := (h l).nowhere_of_none hnone
    have hcount := hperm.count_eq r.bundle
    rw [List.count_cons_self] at hcount
    omega
  rename_i len hlen
  split
  · rename_i hb
    intro l'
    by_cases hne : l' = l
    · subst hne
      simpa only [held, Forwarding.setLink, Function.update_self] using (h l').putBack hperm hb hlen
    · simpa only [held, Forwarding.setLink, Function.update_of_ne hne] using h l'
  · rename_i hb
    intro l'
    by_cases hne : l' = l
    · subst hne
      simpa only [held, Function.update_self] using (h l').drop hperm hb
    · simpa only [held, Function.update_of_ne hne] using h l'

theorem Inv.cancelBundle (h : Inv s) (hmeets : ¬s.CancelsInflight b l) : Inv (s.cancelBundle b l) := by
  rw [CancelsInflight] at hmeets
  rw [State.cancelBundle]
  generalize hcancel : s.daemon.cancelBundle b l = result at hmeets
  rw [Forwarding.cancelBundle] at hcancel
  split at hcancel
  · subst hcancel
    exact h
  split at hcancel
  · subst hcancel
    exact h
  rename_i len hlen
  split at hcancel
  · rename_i hb
    subst hcancel
    intro l'
    simp only [List.count_append, count_cancelled, count_cancelled_transmitted, Nat.add_zero]
    by_cases hne : l' = l
    · subst hne
      have hcancelled := (h l').cancel hb hlen (fun _ => rfl)
      simpa only [held, Forwarding.setLink, Function.update_self, true_and] using hcancelled
    · simpa only [held, Forwarding.setLink, Function.update_of_ne hne, hne, false_and, if_false,
        Nat.add_zero] using h l'
  split at hcancel
  · subst hcancel
    -- the convergence layer reports nothing
    simp only [true_and, not_or, Bool.not_eq_false, Bool.not_eq_true] at hmeets
    simp only [clCancelBundle, hmeets.1, Bool.not_true, Bool.false_eq_true, if_false]
    rw [if_neg (by simpa [findCancellable] using hmeets.2)]
    exact h
  · subst hcancel
    exact h

theorem Inv.handle {retry : Bool} (h : Inv s) (i bytesSent reliablySent : Nat) :
    Inv (s.handle retry i bytesSent reliablySent) := by
  rw [State.handle]
  split
  · exact h
  · rename_i b l hr
    have hperm := perm_of_getElem? hr
    have hcount : ∀ c l', s.posted.count (.transmitted c l') =
        (s.posted.eraseIdx i).count (.transmitted c l') + if l' = l ∧ c = b then 1 else 0 := by
      intro c l'
      rw [← hperm.count_eq, ← List.singleton_append, List.count_append, count_transmitted, Nat.add_comm]
    have hother : ∀ c l', s.posted.count (.cancelled c l') =
        (s.posted.eraseIdx i).count (.cancelled c l') := by
      intro c l'
      rw [← hperm.count_eq, ← List.singleton_append, List.count_append, count_transmitted_cancelled,
        Nat.zero_add]
    have hsome : s.daemon.blocks b l ≠ none := by
      refine (h l).formatted b ?_
      have hb := hcount b l
      rw [if_pos ⟨rfl, rfl⟩] at hb
      omega
    obtain ⟨len, hlen⟩ := Option.ne_none_iff_exists'.mp hsome
    intro l'
    have hl' := h l'
    simp only [hother] at hl'
    change LinkInv ((s.daemon.handleBundleTransmitted retry b l bytesSent reliablySent).link l')
      (fun c => (s.daemon.handleBundleTransmitted retry b l bytesSent reliablySent).blocks c l')
      (s.held l') _ _
    rw [Forwarding.handleBundleTransmitted_link _ _ _ _ _ _ hlen,
      Forwarding.handleBundleTransmitted_blocks _ _ _ _ _ _ hlen]
    by_cases hne : l' = l
    · subst hne
      rw [Function.update_self, blocks_update_self]
      refine hl'.handleTransmitted hlen fun c => ?_
      simpa only [true_and] using hcount c l'
    · rw [Function.update_of_ne hne, blocks_update_of_ne _ _ hne]
      simpa only [hcount, hne, false_and, if_false, Nat.add_zero] using hl'
  · rename_i b l hr
    have hperm := perm_of_getElem? hr
    have hcount : ∀ c l', s.posted.count (.cancelled c l') =
        (s.posted.eraseIdx i).count (.cancelled c l') + if l' = l ∧ c = b then 1 else 0 := by
      intro c l'
      rw [← hperm.count_eq, ← List.singleton_append, List.count_append, count_cancelled, Nat.add_comm]
    have hother : ∀ c l', s.posted.count (.transmitted c l') =
        (s.posted.eraseIdx i).count (.transmitted c l') := by
      intro c l'
      rw [← hperm.count_eq, ← List.singleton_append, List.count_append, count_cancelled_transmitted,
        Nat.zero_add]
    intro l'
    have hl' := h l'
    simp only [hother] at hl'
    change LinkInv ((s.daemon.handleBundleCancelled b l).link l')
      (fun c => (s.daemon.handleBundleCancelled b l).blocks c l') (s.held l') _ _
    rw [Forwarding.handleBundleCancelled_link, Forwarding.handleBundleCancelled_blocks]
    by_cases hne : l' = l
    · subst hne
      rw [blocks_update_self]
      refine hl'.handleCancelled fun c => ?_
      simpa only [true_and] using hcount c l'
    · rw [blocks_update_of_ne _ _ hne]
      simpa only [hcount, hne, false_and, if_false, Nat.add_zero] using hl'

theorem Inv.setState (h : Inv s) (l : L) (state : LinkState) :
    Inv { s with daemon := s.daemon.setLink l { s.daemon.link l with state := state } } := by
  intro l'
  by_cases hne : l' = l
  · subst hne
    obtain ⟨hplace, hform, hfly, honce, hcounted, hfits⟩ := h l'
    change LinkInv (Function.update s.daemon.link l' { s.daemon.link l' with state := state } l')
      (fun b => s.daemon.blocks b l') _ _ _
    rw [Function.update_self]
    exact ⟨hplace, hform, hfly, honce, ⟨hcounted.queued, hcounted.flying, hcounted.formatted⟩, hfits⟩
  · simpa only [held, Forwarding.setLink, Function.update_of_ne hne] using h l'

theorem Inv.apply {retry : Bool} {step : Step L B} (h : Inv s) (hmeets : s.Meets step) :
    Inv (s.apply retry step) := by
  cases step with
  | queueBundle b l action format => exact h.queueBundle action format hmeets
  | startNextBundle l => exact h.startNextBundle l
  | progress l i sentData segmentTodo => exact h.progress l i sentData segmentTodo
  | complete l i => exact h.complete l i
  | putBack l i => exact h.putBack l i
  | cancelBundle b l => exact h.cancelBundle hmeets
  | handle i bytesSent reliablySent => exact h.handle i bytesSent reliablySent
  | setState l state => exact h.setState l state

theorem Inv.run {retry : Bool} {steps : List (Step L B)} (h : Inv s)
    (hmeets : s.RunMeets retry steps) : Inv (s.run retry steps) := by
  induction steps generalizing s with
  | nil => exact h
  | cons step steps ih => exact ih (h.apply hmeets.1) hmeets.2

/-! ## The lists of links -/

/-- Nothing has been sent yet. -/
structure Initial (s : State L B) : Prop where
  idle : ∀ l, (s.daemon.link l).queue = [] ∧ (s.daemon.link l).inflight = [] ∧
    (s.daemon.link l).bundlesQueued = 0 ∧ (s.daemon.link l).bytesQueued = 0 ∧
    (s.daemon.link l).bundlesInflight = 0 ∧ (s.daemon.link l).bytesInflight = 0
  blocks : ∀ b l, s.daemon.blocks b l = none
  conn : ∀ l, s.conn l = []
  posted : s.posted = []

theorem Initial.inv (h : Initial s) : Inv s := by
  intro l
  obtain ⟨hq, hi, hbq, hyq, hbi, hyi⟩ := h.idle l
  refine ⟨?_, ?_, ?_, ?_, ⟨?_, ?_, ?_⟩, ?_⟩
  · simp [hq, held, h.conn, h.posted]
  · simp [hq, held, h.conn, h.posted]
  · simp [hi]
  · simp [hi]
  · simp [Tally, hq, hbq, hyq, total]
  · simp [Tally, hi, hbi, hyi, total]
  · simp [hq, hi]
  · rw [hq, hi]
    change 0 < uintMod
    decide

theorem handle_blocks (retry : Bool) {i : Nat}
    (hr : s.posted[i]? = some (.transmitted b l) ∨ s.posted[i]? = some (.cancelled b l))
    (bytesSent reliablySent : Nat) :
    (s.handle retry i bytesSent reliablySent).daemon.blocks b l = none := by
  rcases hr with hr | hr
  · simp only [State.handle, hr]
    cases hlen : s.daemon.blocks b l with
    | none => simp only [Forwarding.handleBundleTransmitted, hlen]
    | some len =>
        rw [Forwarding.handleBundleTransmitted_blocks _ _ _ _ _ _ hlen]
        simp
  · simp only [State.handle, hr, Forwarding.handleBundleCancelled_blocks]
    simp

/-- As long as no bundle is cancelled that is on the in-flight list and the lengths fit into the
counters, a bundle is on at most one of the lists of a link and has blocks for the link while it is on
one, the counters are right, and a bundle is on no list of the link when the daemon has handled its
event. -/
theorem run_lists (retry : Bool) (s : State L B) (hinit : s.Initial) (steps : List (Step L B))
    (hmeets : s.RunMeets retry steps) :
    let s' := s.run retry steps
    (∀ l b, ¬(b ∈ (s'.daemon.link l).queue ∧ b ∈ (s'.daemon.link l).inflight)) ∧
    (∀ l b, b ∈ (s'.daemon.link l).queue ∨ b ∈ (s'.daemon.link l).inflight →
      s'.daemon.blocks b l ≠ none) ∧
    (∀ l, (s'.daemon.link l).bundlesQueued = (s'.daemon.link l).queue.length ∧
      (s'.daemon.link l).bytesQueued = s'.totalLength l (s'.daemon.link l).queue ∧
      (s'.daemon.link l).bundlesInflight = (s'.daemon.link l).inflight.length ∧
      (s'.daemon.link l).bytesInflight = s'.totalLength l (s'.daemon.link l).inflight) ∧
    ∀ i b l bytesSent reliablySent,
      s'.posted[i]? = some (.transmitted b l) ∨ s'.posted[i]? = some (.cancelled b l) →
      b ∉ ((s'.handle retry i bytesSent reliablySent).daemon.link l).queue ∧
        b ∉ ((s'.handle retry i bytesSent reliablySent).daemon.link l).inflight := by
  have h := hinit.inv.run hmeets
  refine ⟨?_, ?_, ?_, ?_⟩
  · rintro l b ⟨hq, hi⟩
    exact (h l).not_queued hi hq
  · intro l b hb
    obtain ⟨len, hlen, -⟩ := (h l).counted.formatted b (List.mem_append.mpr hb)
    exact hlen ▸ Option.some_ne_none len
  · intro l
    have hcounted := (h l).counted
    exact ⟨hcounted.queued.1, hcounted.queued.2, hcounted.flying.1, hcounted.flying.2⟩
  · intro i b l bytesSent reliablySent hr
    have hhandle : Inv ((s.run retry steps).handle retry i bytesSent reliablySent) :=
      h.handle i bytesSent reliablySent
    have hl := hhandle l
    have hnone := handle_blocks retry hr bytesSent reliablySent
    have hzero := hl.nowhere_of_none hnone
    exact hl.off_lists (by omega)

def sample : State (Fin 1) (Fin 1) where
  daemon :=
    { link := fun _ => ⟨.open, false, [], true, 0, 10, 1000, 10, 1000, [], [], 0, 0, 0, 0⟩
      log := fun _ => []
      blocks := fun _ _ => none
      timers := fun _ => []
      localCustody := fun _ => false }
  conn := fun _ => []
  posted := []

theorem sample_initial : sample.Initial :=
  ⟨fun _ => ⟨rfl, rfl, rfl, rfl, rfl, rfl⟩, fun _ _ => rfl, fun _ => rfl, rfl⟩

/-- A bundle is queued, sent and reported. -/
def sampleSteps : List (Step (Fin 1) (Fin 1)) :=
  [.queueBundle 0 0 .forward ⟨100, false⟩, .startNextBundle 0, .complete 0 0]

theorem run_lists_sample :
    sample.RunMeets false sampleSteps ∧
    ((sample.run false sampleSteps).daemon.link 0).inflight = [0] ∧
    ((sample.run false sampleSteps).daemon.link 0).bytesInflight = 100 ∧
    (0 : Fin 1) ∉ (((sample.run false sampleSteps).handle false 0 100 100).daemon.link 0).inflight := by
  have hmeets : sample.RunMeets false sampleSteps := by
    refine ⟨?_, trivial, trivial, trivial⟩
    change 0 + 0 + 100 < uintMod
    decide
  obtain ⟨-, -, hcount, hhandle⟩ := run_lists false sample sample_initial sampleSteps hmeets
  have hbytes := (hcount 0).2.2.2
  refine ⟨hmeets, by decide +kernel, ?_, (hhandle 0 0 0 100 100 (Or.inl (by decide +kernel))).2⟩
  rw [hbytes]
  decide +kernel

/-- The bundle is cancelled before a byte of it has been sent. When the daemon has handled the event,
the bundle is still on the in-flight list, and its blocks are gone. -/
theorem cancelled_inflight :
    let s := sample.run false [.queueBundle 0 0 .forward ⟨100, false⟩, .startNextBundle 0,
      .cancelBundle 0 0]
    s.posted[0]? = some (.cancelled 0 0) ∧
      (0 : Fin 1) ∈ ((s.handle false 0 0 0).daemon.link 0).inflight ∧
      (s.handle false 0 0 0).daemon.blocks 0 0 = none := by
  decide +kernel

end State

end LinkQueues

end Dtn2
