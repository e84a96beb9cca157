import Dtn2.Routing.TableBasedRouter

/-!
# One copy of a bundle

A bundle with a single destination is forwarded on one link at a time: its log has at most one entry
that says queued or transmitted. What carries this is that blocks for a link go with a queued entry for
it, so that a report about a link can only rewrite the entry that the bundle was queued with.
-/

namespace Dtn2

open ForwardingInfo ForwardingLog

namespace TableBasedRouter

variable {L B : Type} [DecidableEq L] [DecidableEq B] {singletonDest : B → Bool} {env : Env L B}

/-- Blocks and custody timers go with the newest entry of their link. -/
structure Inv (singletonDest : B → Bool) (w : Forwarding L B) : Prop where
  blocks : ∀ b l, w.blocks b l ≠ none → latestState (w.log b) l = .queued
  listed : ∀ b l, (w.link l).Listed b → w.blocks b l ≠ none
  once : ∀ l, (w.link l).Once
  timed : ∀ b, ∀ l ∈ w.timers b, latestState (w.log b) l = .transmitted
  timers : ∀ b, (w.timers b).Nodup
  single : ∀ b, singletonDest b = true → forwarded (w.log b) ≤ 1

variable {w : Forwarding L B} {b : B} {l : L}

/-! ## What `should_fwd` finds -/

omit [DecidableEq B] in
theorem shouldFwdLink_latest {action : Action}
    (h : shouldFwdLink singletonDest w b l action = true) :
    latestState (w.log b) l ≠ .transmitted ∧ latestState (w.log b) l ≠ .queued := by
  rw [shouldFwdLink] at h
  split at h
  · exact absurd h (by simp)
  · rename_i hstate
    exact ⟨fun ht => hstate (Or.inl ht), fun hq => hstate (Or.inr hq)⟩

omit [DecidableEq B] in
theorem shouldFwdLink_forwarded (h : shouldFwdLink singletonDest w b l .forward = true)
    (hb : singletonDest b = true) : forwarded (w.log b) = 0 := by
  rw [shouldFwdLink] at h
  split at h
  · exact absurd h (by simp)
  split at h
  · exact absurd h (by simp)
  split at h
  · exact absurd h (by simp)
  split at h
  · exact absurd h (by simp)
  · rename_i hcount
    rw [getCount_forward] at hcount
    by_contra hne
    exact hcount ⟨hb, rfl, Nat.pos_of_ne_zero hne⟩

omit [DecidableEq B] in
theorem shouldFwdLink_congr {w' : Forwarding L B} (action : Action) (hlog : w'.log b = w.log b)
    (heid : (w'.link l).remoteEid = (w.link l).remoteEid) :
    shouldFwdLink singletonDest w' b l action = shouldFwdLink singletonDest w b l action := by
  simp only [shouldFwdLink, hlog, heid]

/-! ## The steps -/

omit [DecidableEq B] in
theorem Inv.links (h : Inv singletonDest w) {link : L → Link B}
    (hlisted : ∀ b l, (link l).Listed b → w.blocks b l ≠ none) (honce : ∀ l, (link l).Once) :
    Inv singletonDest { w with link := link } :=
  ⟨h.blocks, hlisted, honce, h.timed, h.timers, h.single⟩

omit [DecidableEq B] in
theorem Inv.setLink (h : Inv singletonDest w) (l : L) {link : Link B}
    (hlisted : ∀ b, link.Listed b → w.blocks b l ≠ none) (honce : link.Once) :
    Inv singletonDest (w.setLink l link) := by
  refine h.links ?_ ?_
  · intro b l' hb
    by_cases hl : l' = l
    · subst hl
      rw [Function.update_self] at hb
      exact hlisted b hb
    · rw [Function.update_of_ne hl] at hb
      exact h.listed b l' hb
  · intro l'
    by_cases hl : l' = l
    · subst hl
      rw [Function.update_self]
      exact honce
    · rw [Function.update_of_ne hl]
      exact h.once l'

theorem latestState_setLog (w : Forwarding L B) (b c : B) (log : List (ForwardingInfo L)) (l : L) :
    latestState ((w.setLog b log).log c) l =
      if c = b then latestState log l else latestState (w.log c) l := by
  by_cases hc : c = b
  · simp [Forwarding.setLog, hc]
  · simp [Forwarding.setLog, hc]

theorem setBlocks_apply (w : Forwarding L B) (b c : B) (l l' : L) (new : Option Nat) :
    (w.setBlocks b l new).blocks c l' = if c = b ∧ l' = l then new else w.blocks c l' := by
  by_cases hc : c = b
  · subst hc
    by_cases hl : l' = l
    · subst hl
      simp [Forwarding.setBlocks]
    · simp [Forwarding.setBlocks, hl]
  · simp [Forwarding.setBlocks, hc]

theorem Inv.report (h : Inv singletonDest w) {state : ForwardingInfo.State} {link : L → Link B} {timers : B → List L}
    (hactive : state.isActive = true → latestState (w.log b) l = .queued)
    (hnone : latestState (w.log b) l ≠ .none)
    (hlisted : ∀ c l', (link l').Listed c → ¬(c = b ∧ l' = l) ∧ w.blocks c l' ≠ none)
    (honce : ∀ l', (link l').Once)
    (htimed : ∀ c, ∀ l' ∈ timers c, (c = b ∧ l' = l ∧ state = .transmitted) ∨
      (¬(c = b ∧ l' = l) ∧ l' ∈ w.timers c))
    (htimers : ∀ c, (timers c).Nodup) :
    Inv singletonDest
      { (w.setLog b (update (w.log b) l state)).setBlocks b l none with
        link := link, timers := timers } := by
  have hlatest : ∀ c l', latestState ((w.setLog b (update (w.log b) l state)).log c) l' =
      if c = b ∧ l' = l then state else latestState (w.log c) l' := by
    intro c l'
    rw [latestState_setLog]
    by_cases hc : c = b
    · subst hc
      by_cases hl : l' = l
      · subst hl
        rw [if_pos rfl, if_pos ⟨rfl, rfl⟩, latestState_update_self hnone]
      · rw [if_pos rfl, if_neg (fun hand => hl hand.2), latestState_update_of_ne _ (Ne.symm hl)]
    · rw [if_neg hc, if_neg (fun hand => hc hand.1)]
  refine ⟨?_, ?_, honce, ?_, htimers, ?_⟩
  · intro c l' hblocks
    change ((w.setLog b (update (w.log b) l state)).setBlocks b l none).blocks c l' ≠ none at hblocks
    rw [setBlocks_apply] at hblocks
    by_cases hcl : c = b ∧ l' = l
    · rw [if_pos hcl] at hblocks
      exact absurd rfl hblocks
    · rw [if_neg hcl] at hblocks
      change latestState ((w.setLog b (update (w.log b) l state)).log c) l' = _
      rw [hlatest, if_neg hcl]
      exact h.blocks c l' hblocks
  · intro c l' hc
    obtain ⟨hcl, hblocks⟩ := hlisted c l' hc
    change ((w.setLog b (update (w.log b) l state)).setBlocks b l none).blocks c l' ≠ none
    rw [setBlocks_apply, if_neg hcl]
    exact hblocks
  · intro c l' hl'
    change latestState ((w.setLog b (update (w.log b) l state)).log c) l' = _
    rw [hlatest]
    rcases htimed c l' hl' with ⟨hc, hl, hstate⟩ | ⟨hcl, hold⟩
    · rw [if_pos ⟨hc, hl⟩, hstate]
    · rw [if_neg hcl]
      exact h.timed c l' hold
  · intro c hc
    change forwarded (Function.update w.log b (update (w.log b) l state) c) ≤ 1
    by_cases hcb : c = b
    · subst hcb
      rw [Function.update_self]
      refine Nat.le_trans (forwarded_update_le fun hs => ?_) (h.single c hc)
      rw [hactive hs]
      rfl
    · rw [Function.update_of_ne hcb]
      exact h.single c hc

theorem Inv.transmitted (retry : Bool) (h : Inv singletonDest w) (b : B) (l : L)
    (bytesSent reliablySent : Nat) :
    Inv singletonDest (w.handleBundleTransmitted retry b l bytesSent reliablySent) := by
  cases hlen : w.blocks b l with
  | none => simpa only [Forwarding.handleBundleTransmitted, hlen] using h
  | some len =>
      have hqueued := h.blocks b l (by simp [hlen])
      have hnone : latestState (w.log b) l ≠ .none := by
        rw [hqueued]
        decide
      have huntimed : l ∉ w.timers b := by
        intro hl
        have htimed := h.timed b l hl
        rw [hqueued] at htimed
        exact absurd htimed (by decide)
      have hold : ∀ c, ∀ l' ∈ w.timers c, ¬(c = b ∧ l' = l) := by
        rintro c l' hl' ⟨rfl, rfl⟩
        exact huntimed hl'
      generalize hlink : Function.update w.link l
        (((w.link l).delFromInflight b len).delFromQueue b len) = link
      have hlisted : ∀ c l', (link l').Listed c → ¬(c = b ∧ l' = l) ∧ w.blocks c l' ≠ none := by
        intro c l' hc
        rw [← hlink] at hc
        by_cases hl : l' = l
        · subst hl
          rw [Function.update_self] at hc
          refine ⟨?_, h.listed c l' hc.of_delFromQueue.of_delFromInflight⟩
          rintro ⟨rfl, -⟩
          exact (h.once l').not_listed hc
        · rw [Function.update_of_ne hl] at hc
          exact ⟨fun hcl => hl hcl.2, h.listed c l' hc⟩
      have honce : ∀ l', (link l').Once := by
        intro l'
        rw [← hlink]
        by_cases hl : l' = l
        · subst hl
          rw [Function.update_self]
          exact ((h.once l').delFromInflight b len).delFromQueue b len
        · rw [Function.update_of_ne hl]
          exact h.once l'
      simp only [Forwarding.handleBundleTransmitted, hlen, Forwarding.setLink, hlink]
      split
      · exact h.report (by simp [State.isActive]) hnone hlisted honce
          (fun c l' hl' => Or.inr ⟨hold c l' hl', hl'⟩) h.timers
      split
      · refine h.report (fun _ => hqueued) hnone hlisted honce ?_ ?_
        · intro c l' hl'
          by_cases hc : c = b
          · subst hc
            change l' ∈ Function.update w.timers c (w.timers c ++ [l]) c at hl'
            rw [Function.update_self] at hl'
            rcases List.mem_append.mp hl' with hl' | hl'
            · exact Or.inr ⟨hold c l' hl', hl'⟩
            · exact Or.inl ⟨rfl, List.mem_singleton.mp hl', rfl⟩
          · change l' ∈ Function.update w.timers b (w.timers b ++ [l]) c at hl'
            rw [Function.update_of_ne hc] at hl'
            exact Or.inr ⟨hold c l' hl', hl'⟩
        · intro c
          change (Function.update w.timers b (w.timers b ++ [l]) c).Nodup
          by_cases hc : c = b
          · subst hc
            rw [Function.update_self]
            exact List.concat_eq_append ▸ (h.timers c).concat huntimed
          · rw [Function.update_of_ne hc]
            exact h.timers c
      · exact h.report (fun _ => hqueued) hnone hlisted honce
          (fun c l' hl' => Or.inr ⟨hold c l' hl', hl'⟩) h.timers

theorem Inv.cancelled (h : Inv singletonDest w) (hoff : ¬(w.link l).Listed b) :
    Inv singletonDest (w.handleBundleCancelled b l) := by
  cases hlen : w.blocks b l with
  | none => simpa only [Forwarding.handleBundleCancelled, hlen] using h
  | some len =>
      have hqueued := h.blocks b l (by simp [hlen])
      have hnone : latestState (w.log b) l ≠ .none := by
        rw [hqueued]
        decide
      simp only [Forwarding.handleBundleCancelled, hlen]
      refine h.report (by simp [State.isActive]) hnone ?_ h.once ?_ h.timers
      · intro c l' hc
        refine ⟨?_, h.listed c l' hc⟩
        rintro ⟨rfl, rfl⟩
        exact hoff hc
      · intro c l' hl'
        refine Or.inr ⟨?_, hl'⟩
        rintro ⟨rfl, rfl⟩
        have htimed := h.timed c l' hl'
        rw [hqueued] at htimed
        exact absurd htimed (by decide)

theorem Inv.custodyTimeout (h : Inv singletonDest w) (b : B) (l : L) :
    Inv singletonDest (w.handleCustodyTimeout b l) := by
  rw [Forwarding.handleCustodyTimeout]
  split
  · rename_i hl
    have htransmitted := h.timed b l hl
    have hnone : latestState (w.log b) l ≠ .none := by
      rw [htransmitted]
      decide
    have hblocks : w.blocks b l = none := by
      by_contra hne
      have hqueued := h.blocks b l hne
      rw [htransmitted] at hqueued
      exact absurd hqueued (by decide)
    have hsame : w.blocks = Function.update w.blocks b (Function.update (w.blocks b) l none) := by
      rw [← hblocks, Function.update_eq_self, Function.update_eq_self]
    rw [show ({ w with
        timers := Function.update w.timers b ((w.timers b).erase l)
        log := Function.update w.log b (update (w.log b) l .custodyTimeout) } : Forwarding L B) =
      { (w.setLog b (update (w.log b) l .custodyTimeout)).setBlocks b l none with
        link := w.link, timers := Function.update w.timers b ((w.timers b).erase l) } by
      simp only [Forwarding.setBlocks, Forwarding.setLog, ← hsame]]
    refine h.report (by simp [State.isActive]) hnone ?_ h.once ?_ ?_
    · intro c l' hc
      refine ⟨?_, h.listed c l' hc⟩
      rintro ⟨rfl, rfl⟩
      exact h.listed c l' hc hblocks
    · intro c l' hl'
      by_cases hc : c = b
      · subst hc
        rw [Function.update_self] at hl'
        refine Or.inr ⟨?_, List.mem_of_mem_erase hl'⟩
        rintro ⟨-, rfl⟩
        exact (h.timers c).not_mem_erase hl'
      · rw [Function.update_of_ne hc] at hl'
        exact Or.inr ⟨fun hcl => hc hcl.1, hl'⟩
    · intro c
      by_cases hc : c = b
      · subst hc
        rw [Function.update_self]
        exact (h.timers c).erase l
      · rw [Function.update_of_ne hc]
        exact h.timers c
  · exact h

theorem Inv.queueBundle (h : Inv singletonDest w) (format : Format)
    (hfwd : shouldFwdLink singletonDest w b l .forward = true)
    (hfits : (w.link l).mtu = 0 ∨ format.length ≤ (w.link l).mtu) :
    Inv singletonDest (w.queueBundle b l .forward format) := by
  obtain ⟨htransmitted, hqueued⟩ := shouldFwdLink_latest hfwd
  have hqueue := w.queueBundle_queued b l .forward format
  generalize w.queueBundle b l .forward format = w' at hqueue
  cases hqueue with
  | refused => exact h
  | left hnone hpos hlate =>
      exfalso
      rcases hlate with hlatest | ⟨hne, hlt⟩ | hq | hi
      · exact hqueued hlatest
      · omega
      · exact h.listed b l (Or.inl hq) hnone
      · exact h.listed b l (Or.inr hi) hnone
  | suppressed hnone hpos hmtu =>
      exfalso
      omega
  | queued hnone hpos hq hi =>
      have hlatest : ∀ c l', latestState (((w.setBlocks b l (some format.length)).addEntry b l .forward
          .queued).log c) l' = if c = b ∧ l' = l then .queued else latestState (w.log c) l' := by
        intro c l'
        rw [Forwarding.addEntry, latestState_setLog]
        by_cases hc : c = b
        · subst hc
          by_cases hl : l' = l
          · simp [hl]
          · rw [if_pos rfl, if_neg (fun hand => hl hand.2),
              latestState_addEntry_of_ne _ (Ne.symm hl)]
            rfl
        · rw [if_neg hc, if_neg (fun hand => hc hand.1)]
          rfl
      refine Inv.setLink (w := (w.setBlocks b l (some format.length)).addEntry b l .forward .queued)
        ⟨?_, ?_, h.once, ?_, h.timers, ?_⟩ l ?_ ((h.once l).addToQueue b format.length)
      · intro c l' hblocks
        rw [hlatest]
        change (w.setBlocks b l (some format.length)).blocks c l' ≠ none at hblocks
        rw [setBlocks_apply] at hblocks
        by_cases hcl : c = b ∧ l' = l
        · rw [if_pos hcl]
        · rw [if_neg hcl] at hblocks ⊢
          exact h.blocks c l' hblocks
      · intro c l' hc
        change (w.setBlocks b l (some format.length)).blocks c l' ≠ none
        rw [setBlocks_apply]
        split
        · exact Option.some_ne_none _
        · exact h.listed c l' hc
      · intro c l' hl'
        have htimed := h.timed c l' hl'
        rw [hlatest, if_neg]
        · exact htimed
        · rintro ⟨rfl, rfl⟩
          exact htransmitted htimed
      · intro c hc
        change forwarded (Function.update w.log b (ForwardingLog.addEntry (w.log b) l
          (w.link l).remoteEid .forward .queued) c) ≤ 1
        by_cases hcb : c = b
        · subst hcb
          rw [Function.update_self, forwarded_addEntry, shouldFwdLink_forwarded hfwd hc]
          split <;> omega
        · rw [Function.update_of_ne hcb]
          exact h.single c hc
      · intro c hc
        change (w.setBlocks b l (some format.length)).blocks c l ≠ none
        rw [setBlocks_apply]
        split
        · exact Option.some_ne_none _
        · rename_i hcb
          rcases Link.Listed.of_addToQueue hc with hc | rfl
          · exact h.listed c l hc
          · exact absurd ⟨rfl, rfl⟩ hcb

theorem Inv.received (h : Inv singletonDest w) (hnew : w.log b = []) (l : L) :
    Inv singletonDest (w.addEntry b l .forward .received) := by
  have hnone : ∀ l', latestState (w.log b) l' = .none := by
    intro l'
    rw [hnew]
    rfl
  have hlog : ∀ c, c ≠ b → (w.addEntry b l .forward .received).log c = w.log c :=
    fun c hc => Function.update_of_ne hc _ _
  refine ⟨?_, h.listed, h.once, ?_, h.timers, ?_⟩
  · intro c l' hblocks
    have hold := h.blocks c l' hblocks
    by_cases hc : c = b
    · subst hc
      rw [hnone] at hold
      exact absurd hold (by decide)
    · rw [hlog c hc]
      exact hold
  · intro c l' hl'
    have hold := h.timed c l' hl'
    by_cases hc : c = b
    · subst hc
      rw [hnone] at hold
      exact absurd hold (by decide)
    · rw [hlog c hc]
      exact hold
  · intro c hc
    by_cases hcb : c = b
    · subst hcb
      rw [Forwarding.addEntry, Forwarding.setLog]
      change forwarded (Function.update w.log c _ c) ≤ 1
      rw [Function.update_self, forwarded_addEntry]
      exact h.single c hc
    · rw [hlog c hcb]
      exact h.single c hc

end TableBasedRouter

end Dtn2
