import Dtn2.Bundling.QueueBundle
import Dtn2.Routing.SingleCopyRuns

/-!
# Working off the deferred list

`check_next_hop` takes a bundle off the deferred list before it calls `queue_bundle`, and does not
look at the result. A bundle that `queue_bundle` refuses is on no list of the link any more.
-/

namespace Dtn2

open ForwardingInfo ForwardingLog

namespace TableBasedRouter

variable {L B : Type} [DecidableEq L] [DecidableEq B]

/-! ## One bundle -/

/-- The bundle is longer than what the link takes at a time. -/
def TooLong (link : Link B) (format : Format) : Prop :=
  link.mtu ≠ 0 ∧ format.length > link.mtu

instance decidableTooLong (link : Link B) (format : Format) : Decidable (TooLong link format) :=
  inferInstanceAs (Decidable (_ ∧ _))

/-- The checks of `queue_bundle` are passed, by a bundle that is not queued and has the given blocks
for the link. -/
structure Takes (link : Link B) (blocks : Option Nat) (b : B) (format : Format) : Prop where
  notDeleted : link.isDeleted = false
  noBlocks : blocks = none
  formatted : format.length ≠ 0
  sendable : if TooLong link format then format.fragments = true
    else b ∉ link.queue ∧ b ∉ link.inflight

/-- The link behind a bundle that it takes: fragments come back as bundles of their own. -/
def linkAfter (link : Link B) (b : B) (format : Format) : Link B :=
  if TooLong link format then link else link.addToQueue b format.length

section Queue

variable {w : Forwarding L B} {b c : B} {l : L} {action : Action} {format : Format}

theorem queueBundle_of_takes (hlatest : latestState (w.log b) l ≠ .queued)
    (h : Takes (w.link l) (w.blocks b l) b format) (action : Action) :
    (w.queueBundle b l action format).log b =
        ForwardingLog.addEntry (w.log b) l (w.link l).remoteEid action
          (if TooLong (w.link l) format then .suppressed else .queued) ∧
      (w.queueBundle b l action format).link l = linkAfter (w.link l) b format := by
  have hsendable := h.sendable
  simp only [Forwarding.queueBundle, h.notDeleted, h.noBlocks, h.formatted, Bool.false_eq_true,
    ne_eq, not_true_eq_false, if_false]
  rw [if_neg (by exact hlatest)]
  by_cases hlong : TooLong (w.link l) format
  · rw [if_pos hlong] at hsendable
    rw [if_pos (by exact hlong), if_pos hsendable, if_pos hlong, linkAfter, if_pos hlong]
    exact ⟨Function.update_self .., rfl⟩
  · rw [if_neg hlong] at hsendable
    rw [if_neg (by exact hlong), if_neg (by exact hsendable.1), if_neg (by exact hsendable.2),
      if_neg hlong, linkAfter, if_neg hlong]
    exact ⟨Function.update_self .., Function.update_self ..⟩

theorem queueBundle_of_not_takes (h : ¬ Takes (w.link l) (w.blocks b l) b format)
    (action : Action) :
    (w.queueBundle b l action format).log b = w.log b ∧
      (w.queueBundle b l action format).link l = w.link l := by
  rw [Forwarding.queueBundle]
  by_cases hdeleted : (w.link l).isDeleted = true
  · rw [if_pos hdeleted]
    exact ⟨rfl, rfl⟩
  rw [if_neg hdeleted]
  by_cases hblocks : w.blocks b l ≠ none
  · rw [if_pos hblocks]
    exact ⟨rfl, rfl⟩
  rw [if_neg hblocks]
  by_cases hlength : format.length = 0
  · rw [if_pos hlength]
    exact ⟨rfl, rfl⟩
  rw [if_neg hlength]
  dsimp only
  split
  · exact ⟨rfl, rfl⟩
  rw [Bool.not_eq_true] at hdeleted
  rw [not_not] at hblocks
  by_cases hlong : TooLong (w.link l) format
  · rw [if_pos (by exact hlong)]
    by_cases hfragments : format.fragments = true
    · exact absurd ⟨hdeleted, hblocks, hlength, by rwa [if_pos hlong]⟩ h
    · rw [if_neg hfragments]
      exact ⟨rfl, rfl⟩
  · rw [if_neg (by exact hlong)]
    by_cases hqueue : b ∈ (w.link l).queue
    · rw [if_pos (by exact hqueue)]
      exact ⟨rfl, rfl⟩
    rw [if_neg (by exact hqueue)]
    by_cases hinflight : b ∈ (w.link l).inflight
    · rw [if_pos (by exact hinflight)]
      exact ⟨rfl, rfl⟩
    · exact absurd ⟨hdeleted, hblocks, hlength, by rw [if_neg hlong]; exact ⟨hqueue, hinflight⟩⟩ h

theorem queueBundle_blocks_of_ne (hc : c ≠ b) :
    (w.queueBundle b l action format).blocks c = w.blocks c := by
  have hqueue := w.queueBundle_queued b l action format
  generalize w.queueBundle b l action format = w' at hqueue ⊢
  cases hqueue with
  | refused => rfl
  | left => exact Function.update_of_ne hc _ _
  | suppressed => exact Function.update_of_ne hc _ _
  | queued => exact Function.update_of_ne hc _ _

theorem queueBundle_queue (w : Forwarding L B) (b : B) (l : L) (action : Action) (format : Format) :
    ((w.queueBundle b l action format).link l).queue = (w.link l).queue ∨
      ((w.queueBundle b l action format).link l).queue = (w.link l).queue ++ [b] := by
  have hqueue := w.queueBundle_queued b l action format
  generalize w.queueBundle b l action format = w' at hqueue ⊢
  cases hqueue with
  | refused => exact Or.inl rfl
  | left => exact Or.inl rfl
  | suppressed => exact Or.inl rfl
  | queued hnone hpos hq hi =>
      apply Or.inr
      simp [Forwarding.setLink, Link.addToQueue, hq]

theorem queueBundle_isOpen (w : Forwarding L B) (b : B) (l : L) (action : Action)
    (format : Format) :
    ((w.queueBundle b l action format).link l).isOpen = (w.link l).isOpen := by
  have hqueue := w.queueBundle_queued b l action format
  generalize w.queueBundle b l action format = w' at hqueue ⊢
  cases hqueue with
  | refused => rfl
  | left => rfl
  | suppressed => rfl
  | queued hnone hpos hq hi => simp [Forwarding.setLink, Link.addToQueue, hq, Link.isOpen]

omit [DecidableEq B] in
theorem latestState_ne_queued {singletonDest : B → Bool}
    (h : shouldFwdLink singletonDest w b l action = true) : latestState (w.log b) l ≠ .queued := by
  intro hqueued
  simp [shouldFwdLink, hqueued] at h

omit [DecidableEq B] in
theorem openLink_of_isOpen {r : State L B} (h : (r.daemon.link l).isOpen = true) :
    r.openLink l = r := by
  simp [State.openLink, h]

end Queue

/-! ## The loop -/

/-- Each bundle of the list that is to be forwarded is taken by the link that the bundles in front
of it leave, up to where its queue is full. -/
def Accepts (singletonDest : B → Bool) (env : Env L B) (w : Forwarding L B) (l : L) :
    List (B × Action) → Link B → Prop
  | [], _ => True
  | (b, action) :: rest, link =>
      link.queueIsFull = true ∨
        if shouldFwdLink singletonDest w b l action = true then
          Takes link (w.blocks b l) b (env.format b l) ∧
            Accepts singletonDest env w l rest (linkAfter link b (env.format b l))
        else Accepts singletonDest env w l rest link

/-- Where a deferred bundle is after a call of `check_next_hop`: it is still deferred, or it is
queued, or it has been replaced by fragments. -/
inductive Placed (r r' : State L B) (l : L) (d : B × Action) : Prop
  | deferred (h : d ∈ (r'.deferred l).getD [])
  | queued (hlisted : (r'.daemon.link l).Listed d.1)
      (hlatest : latestState (r'.daemon.log d.1) l = .queued)
  | replaced (eid : Bytes) (action : Action)
      (h : r'.daemon.log d.1 =
        ForwardingLog.addEntry (r.daemon.log d.1) l eid action .suppressed)

/-- No bundle is stranded, and the bundles move in the order of the deferred list. -/
structure StrandsNone (r r' : State L B) (l : L) : Prop where
  placed : ∀ d ∈ (r.deferred l).getD [], Placed r r' l d
  order : ∃ moved, (r'.daemon.link l).queue = (r.daemon.link l).queue ++ moved ∧
    moved.Sublist (((r.deferred l).getD []).map Prod.fst)

section Loop

variable {singletonDest : B → Bool} {env : Env L B} {r : State L B} {l : L}

theorem accepts_congr (singletonDest : B → Bool) (env : Env L B) {w w' : Forwarding L B}
    {ds : List (B × Action)}
    (hlog : ∀ d ∈ ds, w'.log d.1 = w.log d.1) (hblocks : ∀ d ∈ ds, w'.blocks d.1 = w.blocks d.1)
    (heid : (w'.link l).remoteEid = (w.link l).remoteEid) (link : Link B) :
    Accepts singletonDest env w' l ds link ↔ Accepts singletonDest env w l ds link := by
  induction ds generalizing link with
  | nil => exact Iff.rfl
  | cons d ds ih =>
      have hfwd : shouldFwdLink singletonDest w' d.1 l d.2 =
          shouldFwdLink singletonDest w d.1 l d.2 :=
        shouldFwdLink_congr d.2 (hlog d List.mem_cons_self) heid
      have hrest := ih (fun c hc => hlog c (List.mem_cons_of_mem d hc))
        (fun c hc => hblocks c (List.mem_cons_of_mem d hc))
      rw [Accepts, Accepts, hfwd, hblocks d List.mem_cons_self, hrest, hrest]

def sendDeferred (env : Env L B) (r : State L B) (b : B) (l : L) (action : Action) : State L B :=
  (r.setDeferred l (((r.deferred l).getD []).filter fun d => !decide (d.1 = b))).queueBundle env b l
    action

theorem checkLoop_cons_of_fwd {b : B} {action : Action} {ds : List (B × Action)}
    (hopen : (r.daemon.link l).isOpen = true) (hfull : ¬ (r.daemon.link l).queueIsFull = true)
    (hfwd : shouldFwdLink singletonDest r.daemon b l action = true) :
    r.checkLoop singletonDest env l ((b, action) :: ds) =
      (sendDeferred env r b l action).checkLoop singletonDest env l ds := by
  rw [State.checkLoop, if_neg hfull, hfwd, openLink_of_isOpen hopen]
  rfl

theorem checkLoop_cons_of_not_fwd {b : B} {action : Action}
    {ds : List (B × Action)} (hfull : ¬ (r.daemon.link l).queueIsFull = true)
    (hfwd : ¬ shouldFwdLink singletonDest r.daemon b l action = true) :
    r.checkLoop singletonDest env l ((b, action) :: ds) = r.checkLoop singletonDest env l ds := by
  rw [State.checkLoop, if_neg hfull]
  simp [hfwd]

theorem sendDeferred_deferred (r : State L B) (b : B) (l : L) (action : Action) :
    ((sendDeferred env r b l action).deferred l).getD [] =
      ((r.deferred l).getD []).filter fun d => !decide (d.1 = b) := by
  simp [sendDeferred, State.queueBundle, State.setDeferred]

theorem mem_sendDeferred {b : B} {action : Action} {d : B × Action} (hd : d.1 ≠ b) :
    d ∈ ((sendDeferred env r b l action).deferred l).getD [] ↔ d ∈ (r.deferred l).getD [] := by
  simp [sendDeferred_deferred, hd]

theorem mem_checkLoop {ds : List (B × Action)} {d : B × Action} (hd : d.1 ∉ ds.map Prod.fst)
    (hopen : (r.daemon.link l).isOpen = true) :
    d ∈ ((r.checkLoop singletonDest env l ds).deferred l).getD [] ↔ d ∈ (r.deferred l).getD [] := by
  induction ds generalizing r with
  | nil => exact Iff.rfl
  | cons c ds ih =>
      rw [List.map_cons, List.mem_cons, not_or] at hd
      by_cases hfull : (r.daemon.link l).queueIsFull = true
      · rw [State.checkLoop, if_pos hfull]
      by_cases hfwd : shouldFwdLink singletonDest r.daemon c.1 l c.2 = true
      · have hopen' : ((sendDeferred env r c.1 l c.2).daemon.link l).isOpen = true := by
          rw [← hopen]
          exact queueBundle_isOpen r.daemon c.1 l c.2 (env.format c.1 l)
        rw [checkLoop_cons_of_fwd hopen hfull hfwd, ih hd.2 hopen', mem_sendDeferred hd.1]
      · rw [checkLoop_cons_of_not_fwd hfull hfwd, ih hd.2 hopen]

theorem checkLoop_queue (singletonDest : B → Bool) (env : Env L B) (ds : List (B × Action))
    (hopen : (r.daemon.link l).isOpen = true) :
    ∃ moved, ((r.checkLoop singletonDest env l ds).daemon.link l).queue =
      (r.daemon.link l).queue ++ moved ∧ moved.Sublist (ds.map Prod.fst) := by
  induction ds generalizing r with
  | nil => exact ⟨[], (List.append_nil _).symm, List.Sublist.refl _⟩
  | cons c ds ih =>
      by_cases hfull : (r.daemon.link l).queueIsFull = true
      · rw [State.checkLoop, if_pos hfull]
        exact ⟨[], (List.append_nil _).symm, List.nil_sublist _⟩
      by_cases hfwd : shouldFwdLink singletonDest r.daemon c.1 l c.2 = true
      · have hopen' : ((sendDeferred env r c.1 l c.2).daemon.link l).isOpen = true := by
          rw [← hopen]
          exact queueBundle_isOpen r.daemon c.1 l c.2 (env.format c.1 l)
        rw [checkLoop_cons_of_fwd hopen hfull hfwd]
        obtain ⟨moved, hqueue, hmoved⟩ := ih hopen'
        rw [hqueue]
        rcases queueBundle_queue r.daemon c.1 l c.2 (env.format c.1 l) with hsame | happend
        · refine ⟨moved, ?_, hmoved.cons c.1⟩
          rw [← hsame]
          rfl
        · refine ⟨c.1 :: moved, ?_, hmoved.cons_cons c.1⟩
          rw [List.append_cons, ← happend]
          rfl
      · rw [checkLoop_cons_of_not_fwd hfull hfwd]
        obtain ⟨moved, hqueue, hmoved⟩ := ih hopen
        exact ⟨moved, hqueue, hmoved.cons c.1⟩

theorem log_checkLoop_sendDeferred (singletonDest : B → Bool) (env : Env L B) (r : State L B)
    (action : Action) (l : L) {b : B} {ds : List (B × Action)} (hb : b ∉ ds.map Prod.fst) :
    ((sendDeferred env r b l action).checkLoop singletonDest env l ds).daemon.log b =
      (r.daemon.queueBundle b l action (env.format b l)).log b :=
  (Kept.unmoved_checkLoop hb (sendDeferred env r b l action) l).log

theorem placed_of_takes {b : B} {action : Action} {ds : List (B × Action)}
    (hopen : (r.daemon.link l).isOpen = true) (hb : b ∉ ds.map Prod.fst)
    (hfwd : shouldFwdLink singletonDest r.daemon b l action = true)
    (htakes : Takes (r.daemon.link l) (r.daemon.blocks b l) b (env.format b l)) :
    Placed r ((sendDeferred env r b l action).checkLoop singletonDest env l ds) l (b, action) := by
  have hsent := queueBundle_of_takes (latestState_ne_queued hfwd) htakes action
  have hopen' : ((sendDeferred env r b l action).daemon.link l).isOpen = true := by
    rw [← hopen]
    exact queueBundle_isOpen r.daemon b l action (env.format b l)
  have hlog := log_checkLoop_sendDeferred singletonDest env r action l hb
  rw [hsent.1] at hlog
  by_cases hlong : TooLong (r.daemon.link l) (env.format b l)
  · rw [if_pos hlong] at hlog
    exact .replaced _ _ hlog
  · rw [if_neg hlong] at hlog
    obtain ⟨moved, hqueue, _⟩ := checkLoop_queue singletonDest env ds hopen'
    have hlink := hsent.2
    rw [linkAfter, if_neg hlong] at hlink
    change _ = ((r.daemon.queueBundle b l action (env.format b l)).link l).queue ++ moved at hqueue
    apply Placed.queued
    · apply Or.inl
      rw [hqueue, hlink]
      have hnot := htakes.sendable
      rw [if_neg hlong] at hnot
      simp [Link.addToQueue, hnot.1]
    · rw [hlog]
      exact latestState_addEntry_self _ _ _ _ _

theorem not_placed_of_not_takes {b : B} {action : Action} {ds : List (B × Action)}
    (hopen : (r.daemon.link l).isOpen = true) (hb : b ∉ ds.map Prod.fst)
    (hfwd : shouldFwdLink singletonDest r.daemon b l action = true)
    (htakes : ¬ Takes (r.daemon.link l) (r.daemon.blocks b l) b (env.format b l)) :
    ¬ Placed r ((sendDeferred env r b l action).checkLoop singletonDest env l ds) l
      (b, action) := by
  have hleft := queueBundle_of_not_takes htakes action
  have hopen' : ((sendDeferred env r b l action).daemon.link l).isOpen = true := by
    rw [← hopen]
    exact queueBundle_isOpen r.daemon b l action (env.format b l)
  have hlog := log_checkLoop_sendDeferred singletonDest env r action l hb
  rw [hleft.1] at hlog
  intro h
  cases h with
  | deferred h =>
      rw [mem_checkLoop hb hopen', sendDeferred_deferred] at h
      simp at h
  | queued hlisted hlatest =>
      rw [hlog] at hlatest
      exact latestState_ne_queued hfwd hlatest
  | replaced eid action' h =>
      rw [hlog] at h
      have hlength := congrArg List.length h
      simp [ForwardingLog.addEntry] at hlength

theorem linkAfter_remoteEid (link : Link B) (b : B) (format : Format) :
    (linkAfter link b format).remoteEid = link.remoteEid := by
  rw [linkAfter]
  split
  · rfl
  · exact Link.addToQueue_remoteEid link b format.length

omit [DecidableEq B] in
theorem placed_congr {r₁ : State L B} (r' : State L B) (l : L) {d : B × Action}
    (hlog : r₁.daemon.log d.1 = r.daemon.log d.1) : Placed r₁ r' l d ↔ Placed r r' l d := by
  constructor
  · intro h
    cases h with
    | deferred h => exact .deferred h
    | queued hlisted hlatest => exact .queued hlisted hlatest
    | replaced eid action h => exact .replaced eid action (hlog ▸ h)
  · intro h
    cases h with
    | deferred h => exact .deferred h
    | queued hlisted hlatest => exact .queued hlisted hlatest
    | replaced eid action h => exact .replaced eid action (hlog ▸ h)

theorem checkLoop_placed_iff {ds : List (B × Action)} (hopen : (r.daemon.link l).isOpen = true)
    (hnodup : (ds.map Prod.fst).Nodup) (hdeferred : ∀ d ∈ ds, d ∈ (r.deferred l).getD []) :
    (∀ d ∈ ds, Placed r (r.checkLoop singletonDest env l ds) l d) ↔
      Accepts singletonDest env r.daemon l ds (r.daemon.link l) := by
  induction ds generalizing r with
  | nil => simp [Accepts]
  | cons c ds ih =>
      rw [List.map_cons, List.nodup_cons] at hnodup
      have hc := hdeferred c List.mem_cons_self
      have hrest : ∀ d ∈ ds, d ∈ (r.deferred l).getD [] :=
        fun d hd => hdeferred d (List.mem_cons_of_mem c hd)
      rw [List.forall_mem_cons, Accepts]
      by_cases hfull : (r.daemon.link l).queueIsFull = true
      · rw [State.checkLoop, if_pos hfull]
        exact iff_of_true ⟨.deferred hc, fun d hd => .deferred (hrest d hd)⟩ (Or.inl hfull)
      rw [or_iff_right hfull]
      by_cases hfwd : shouldFwdLink singletonDest r.daemon c.1 l c.2 = true
      · rw [if_pos hfwd, checkLoop_cons_of_fwd hopen hfull hfwd]
        by_cases htakes : Takes (r.daemon.link l) (r.daemon.blocks c.1 l) c.1 (env.format c.1 l)
        · have hplaced := placed_of_takes hopen hnodup.1 hfwd htakes
          have hne : ∀ d ∈ ds, d.1 ≠ c.1 := by
            intro d hd heq
            exact hnodup.1 (heq ▸ List.mem_map_of_mem hd)
          have hopen' : ((sendDeferred env r c.1 l c.2).daemon.link l).isOpen = true := by
            rw [← hopen]
            exact queueBundle_isOpen r.daemon c.1 l c.2 (env.format c.1 l)
          have hsame : ∀ d ∈ ds, Unmoved d.1 r.daemon (sendDeferred env r c.1 l c.2).daemon :=
            fun d hd => unmoved_queueBundle (hne d hd) r.daemon l c.2 (env.format c.1 l)
          have hlink : (sendDeferred env r c.1 l c.2).daemon.link l =
              linkAfter (r.daemon.link l) c.1 (env.format c.1 l) :=
            (queueBundle_of_takes (latestState_ne_queued hfwd) htakes c.2).2
          have hloop := ih hopen' hnodup.2
            (fun d hd => (mem_sendDeferred (hne d hd)).mpr (hrest d hd))
          have hplaces := forall₂_congr fun d hd => placed_congr
            ((sendDeferred env r c.1 l c.2).checkLoop singletonDest env l ds) l (hsame d hd).log
          have heid : ((sendDeferred env r c.1 l c.2).daemon.link l).remoteEid =
              (r.daemon.link l).remoteEid := by
            rw [hlink, linkAfter_remoteEid]
          have haccepts := accepts_congr singletonDest env (fun d hd => (hsame d hd).log)
            (fun d hd => queueBundle_blocks_of_ne (hne d hd)) heid
            (linkAfter (r.daemon.link l) c.1 (env.format c.1 l))
          rw [and_iff_right hplaced, and_iff_right htakes, ← hplaces, hloop, hlink]
          exact haccepts
        · apply iff_of_false
          · intro h
            exact not_placed_of_not_takes hopen hnodup.1 hfwd htakes h.1
          · intro h
            exact htakes h.1
      · rw [if_neg hfwd, checkLoop_cons_of_not_fwd hfull hfwd]
        have hplaced : Placed r (r.checkLoop singletonDest env l ds) l c :=
          .deferred ((mem_checkLoop hnodup.1 hopen).mpr hc)
        rw [and_iff_right hplaced]
        exact ih hopen hnodup.2 hrest

end Loop

/-! ## Deferred lists -/

def DeferredOnce (r : State L B) : Prop :=
  ∀ l, (((r.deferred l).getD []).map Prod.fst).Nodup

namespace DeferredOnce

variable {singletonDest : B → Bool} {env : Env L B} {r : State L B}

omit [DecidableEq L] [DecidableEq B] in
theorem daemon (h : DeferredOnce r) (w : Forwarding L B) : DeferredOnce { r with daemon := w } := h

omit [DecidableEq B] in
theorem setDeferred (h : DeferredOnce r) (l : L) {ds : List (B × Action)}
    (hds : (ds.map Prod.fst).Nodup) : DeferredOnce (r.setDeferred l ds) := by
  intro k
  by_cases hk : k = l
  · subst hk
    simpa [State.setDeferred] using hds
  · simpa [State.setDeferred, hk] using h k

omit [DecidableEq B] in
theorem openLink (h : DeferredOnce r) (l : L) : DeferredOnce (r.openLink l) := by
  rcases Kept.openLink_cases r l with hopen | hopen
  · rw [hopen]
    exact h
  · rw [hopen]
    exact h

theorem sendDeferred (h : DeferredOnce r) (b : B) (l : L) (action : Action) :
    DeferredOnce (sendDeferred env r b l action) := by
  apply h.setDeferred l
  exact (h l).sublist (List.filter_sublist.map Prod.fst)

theorem checkLoop (h : DeferredOnce r) (l : L) (ds : List (B × Action)) :
    DeferredOnce (r.checkLoop singletonDest env l ds) := by
  induction ds generalizing r with
  | nil => exact h
  | cons d ds ih =>
      rw [State.checkLoop]
      split
      · exact h
      · split
        · exact ih h
        · exact ih ((h.openLink l).sendDeferred d.1 l d.2)

theorem checkNextHop (h : DeferredOnce r) (l : L) :
    DeferredOnce (r.checkNextHop singletonDest env l) := by
  rw [State.checkNextHop]
  split
  · exact h
  · split
    · exact h
    · exact h.checkLoop l _

theorem fwdToNexthop (h : DeferredOnce r) (b : B) (route : RouteEntry L) :
    DeferredOnce (r.fwdToNexthop env b route) := by
  have hopen := h.openLink route.link
  rw [State.fwdToNexthop]
  generalize r.openLink route.link = r₁ at hopen ⊢
  split
  · exact hopen
  · have hlink := hopen route.link
    cases hdeferred : r₁.deferred route.link with
    | none => exact hopen
    | some ds =>
        rw [hdeferred] at hlink
        dsimp only
        split
        · exact hopen
        · rename_i hb
          apply hopen.setDeferred
          rw [List.map_append]
          exact List.Nodup.append hlink (List.nodup_singleton b) (by simpa using hb)

theorem routeOne (h : DeferredOnce r) (b : B) (route : RouteEntry L) :
    DeferredOnce (State.routeOne singletonDest env b r route) := by
  rw [State.routeOne]
  split
  · exact h
  · split
    · exact h
    · split
      · exact h
      · exact (h.checkNextHop route.link).fwdToNexthop b route

theorem routeBundle (h : DeferredOnce r) (b : B) :
    DeferredOnce (r.routeBundle singletonDest env b) := by
  have hroutes : ∀ routes : List (RouteEntry L),
      DeferredOnce (routes.foldl (State.routeOne singletonDest env b) r) := by
    intro routes
    induction routes generalizing r with
    | nil => exact h
    | cons route routes ih => exact ih (h.routeOne b route)
  rw [State.routeBundle]
  split
  · exact h
  · exact hroutes _

theorem rerouteAllBundles (h : DeferredOnce r) :
    DeferredOnce (r.rerouteAllBundles singletonDest env) := by
  rw [State.rerouteAllBundles]
  generalize r.pending = pending
  induction pending generalizing r with
  | nil => exact h
  | cons b pending ih => exact ih (h.routeBundle b)

omit [DecidableEq L] in
theorem removeFromDeferred (h : DeferredOnce r) (b : B) (actions : Nat) :
    DeferredOnce (r.removeFromDeferred b actions) := by
  intro l
  have hl := h l
  cases hdeferred : r.deferred l with
  | none => simp [State.removeFromDeferred, hdeferred]
  | some ds =>
      rw [hdeferred] at hl
      simp only [State.removeFromDeferred, hdeferred, Option.map_some, Option.getD_some]
      exact hl.sublist (List.filter_sublist.map Prod.fst)

theorem handle (h : DeferredOnce r) (retry : Bool) (e : Event L B) :
    DeferredOnce (r.handle singletonDest retry env e) := by
  cases e with
  | bundleReceived b source route =>
      have hreceive : DeferredOnce (r.receive b source) := by
        cases source with
        | none => exact h
        | some l => exact h
      rw [State.handle]
      split
      · dsimp only
        split
        · exact hreceive.routeBundle b
        · exact hreceive
      · exact h
  | routeAdd => exact h.rerouteAllBundles
  | linkCreated l addRoute =>
      have hlink : DeferredOnce (r.setDeferred l []) := h.setDeferred l List.nodup_nil
      rw [State.handle]
      cases addRoute with
      | false => exact hlink.rerouteAllBundles
      | true => exact hlink.rerouteAllBundles.rerouteAllBundles
  | linkAvailable l openIt =>
      have hstate : DeferredOnce (r.setState l .available) := h
      cases openIt with
      | false => exact hstate.checkNextHop l
      | true => exact (hstate.openLink l).checkNextHop l
  | contactUp l addRoute =>
      have hstate : DeferredOnce (r.setState l .open) := h
      cases addRoute with
      | false => exact hstate.checkNextHop l
      | true => exact hstate.rerouteAllBundles.checkNextHop l
  | contactDown l state back => exact h
  | bundleTransmitted b l bytesSent reliablySent =>
      have hhandled := h.daemon
        (r.daemon.handleBundleTransmitted retry b l bytesSent reliablySent)
      exact (hhandled.removeFromDeferred b Action.forward.bit).checkNextHop l
  | bundleCancelled b l expired =>
      have hhandled := h.daemon (r.daemon.handleBundleCancelled b l)
      cases expired with
      | false => exact hhandled.routeBundle b
      | true => exact hhandled
  | custodyTimeout b l => exact (h.daemon (r.daemon.handleCustodyTimeout b l)).routeBundle b
  | startNextBundle l => exact h
  | cancelBundle b l => exact h
  | acceptCustody b => exact h
  | releaseCustody b => exact h
  | deleteBundle b => exact removeFromDeferred (r := { r with pending := _ }) h b anyAction

theorem run (h : DeferredOnce r) (singletonDest : B → Bool) (retry : Bool)
    (events : List (Env L B × Event L B)) : DeferredOnce (r.run singletonDest retry events) := by
  induction events generalizing r with
  | nil => exact h
  | cons e events ih => exact ih (h.handle retry e.2)

end DeferredOnce

/-- `check_next_hop` strands no bundle exactly if the link accepts the deferred bundles that are
forwarded, one after the other, up to where its queue is full. -/
theorem checkNextHop_strandsNone_iff (singletonDest : B → Bool) (env : Env L B) (r : State L B)
    (l : L) (hnodup : (((r.deferred l).getD []).map Prod.fst).Nodup) :
    StrandsNone r (r.checkNextHop singletonDest env l) l ↔
      ((r.daemon.link l).isOpen = true → (r.daemon.link l).queueHasSpace = true →
        Accepts singletonDest env r.daemon l ((r.deferred l).getD []) (r.daemon.link l)) := by
  have hstay : StrandsNone r r l :=
    ⟨fun d hd => .deferred hd, [], (List.append_nil _).symm, List.nil_sublist _⟩
  rw [State.checkNextHop]
  by_cases hopen : (r.daemon.link l).isOpen = true
  · by_cases hspace : (r.daemon.link l).queueHasSpace = true
    · simp only [hopen, hspace, Bool.not_true, Bool.false_eq_true, if_false, forall_const]
      rw [← checkLoop_placed_iff hopen hnodup fun d hd => hd]
      constructor
      · intro h
        exact h.placed
      · intro h
        exact ⟨h, checkLoop_queue singletonDest env _ hopen⟩
    · simp [hopen, hspace, hstay]
  · simp [hopen, hstay]

/-- An open link with a deferred bundle, and the most bytes that it takes at a time. -/
def drainState (mtu : Nat) : State Unit Unit where
  daemon :=
    { link := fun _ => ⟨.open, false, EndpointID.dtnNone, false, mtu, 10, 1000, 10, 1000, [], [],
        0, 0, 0, 0⟩
      log := fun _ => []
      blocks := fun _ _ => none
      timers := fun _ => []
      localCustody := fun _ => false }
  deferred := fun _ => some [((), .forward)]
  pending := [()]

/-- The bundle has one byte of payload, so that it cannot be fragmented. -/
def drainEnv : Env Unit Unit where
  format := fun _ _ => Sender.sampleFormatting.format Oasys.plain 0 2 0 FragmentTable.empty 10
  matching := fun _ => []
  prevhop := fun _ => none

/-- Without a maximum length the bundle is queued. -/
theorem checkNextHop_strandsNone_iff_sample :
    StrandsNone (drainState 0) ((drainState 0).checkNextHop (fun _ => true) drainEnv ()) () := by
  apply (checkNextHop_strandsNone_iff (fun _ => true) drainEnv (drainState 0) ()
    (by simp [drainState])).mpr
  intro _ _
  apply Or.inr
  rw [if_pos (by decide)]
  exact ⟨⟨rfl, rfl, by decide +kernel, by rw [if_neg (by decide)]; simp [drainState]⟩, trivial⟩

/-- With ten bytes at a time it is dropped from the deferred list and goes nowhere. -/
theorem drainState_not_strandsNone :
    ¬ StrandsNone (drainState 10)
      ((drainState 10).checkNextHop (fun _ => true) drainEnv ()) () := by
  intro h
  have hlog : ((drainState 10).checkNextHop (fun _ => true) drainEnv ()).daemon.log () = [] := by
    decide +kernel
  cases h.placed ((), .forward) List.mem_cons_self with
  | deferred hdeferred => exact absurd hdeferred (by decide +kernel)
  | queued hlisted hlatest =>
      rw [hlog] at hlatest
      exact absurd hlatest (by decide)
  | replaced eid action hreplaced =>
      rw [hlog] at hreplaced
      simp [drainState, ForwardingLog.addEntry] at hreplaced

end TableBasedRouter

end Dtn2
