import Dtn2.Routing.SingleCopy

/-!
# Runs of the table based router

Each function of the router keeps the invariant, and so does each event. `check_next_hop` runs inside
the loop of `route_bundle`, between the decision to forward a bundle and its queueing: it does not touch
the log of that bundle.
-/

namespace Dtn2

open ForwardingInfo ForwardingLog

namespace TableBasedRouter

variable {L B : Type} [DecidableEq L] [DecidableEq B] {singletonDest : B → Bool} {env : Env L B}

/-! ## What stays the same -/

/-- The maximum lengths and the remote endpoints of the links, and the log of a bundle. -/
structure Unmoved (b : B) (w w' : Forwarding L B) : Prop where
  log : w'.log b = w.log b
  mtu : ∀ l, (w'.link l).mtu = (w.link l).mtu
  eid : ∀ l, (w'.link l).remoteEid = (w.link l).remoteEid

omit [DecidableEq L] [DecidableEq B] in
theorem Unmoved.refl (b : B) (w : Forwarding L B) : Unmoved b w w :=
  ⟨rfl, fun _ => rfl, fun _ => rfl⟩

omit [DecidableEq L] [DecidableEq B] in
theorem Unmoved.trans {b : B} {w v w' : Forwarding L B} (h : Unmoved b w v) (h' : Unmoved b v w') :
    Unmoved b w w' :=
  ⟨h'.log.trans h.log, fun l => (h'.mtu l).trans (h.mtu l), fun l => (h'.eid l).trans (h.eid l)⟩

omit [DecidableEq B] in
theorem setLink_mtu (w : Forwarding L B) (l : L) {link : Link B} (hmtu : link.mtu = (w.link l).mtu)
    (l' : L) : ((w.setLink l link).link l').mtu = (w.link l').mtu := by
  by_cases hl : l' = l
  · subst hl
    simpa [Forwarding.setLink] using hmtu
  · simp [Forwarding.setLink, hl]

omit [DecidableEq B] in
theorem unmoved_setLink (b : B) (w : Forwarding L B) (l : L) {link : Link B}
    (hmtu : link.mtu = (w.link l).mtu) (heid : link.remoteEid = (w.link l).remoteEid) :
    Unmoved b w (w.setLink l link) := by
  refine ⟨rfl, setLink_mtu w l hmtu, ?_⟩
  intro l'
  by_cases hl : l' = l
  · subst hl
    simpa [Forwarding.setLink] using heid
  · simp [Forwarding.setLink, hl]

theorem unmoved_queueBundle {b c : B} (hc : c ≠ b) (w : Forwarding L B) (l : L) (action : Action)
    (format : Format) : Unmoved c w (w.queueBundle b l action format) := by
  have hlog : ∀ log, (w.setLog b log).log c = w.log c := fun log => Function.update_of_ne hc _ _
  have hqueue := w.queueBundle_queued b l action format
  generalize w.queueBundle b l action format = w' at hqueue ⊢
  cases hqueue with
  | refused => exact Unmoved.refl c w
  | left hnone hpos hlate => exact ⟨rfl, fun _ => rfl, fun _ => rfl⟩
  | suppressed hnone hpos hmtu => exact ⟨hlog _, fun _ => rfl, fun _ => rfl⟩
  | queued hnone hpos hq hi =>
      refine Unmoved.trans (v := (w.setBlocks b l (some format.length)).addEntry b l action .queued)
        ⟨hlog _, fun _ => rfl, fun _ => rfl⟩ (unmoved_setLink c _ l ?_ ?_)
      · exact Link.addToQueue_mtu _ _ _
      · exact Link.addToQueue_remoteEid _ _ _

/-! ## The functions of the router -/

/-- The invariant of the daemon. All deferred bundles are to be forwarded, and all bundles fit into the
maximum lengths of the links. -/
structure Kept (singletonDest : B → Bool) (env : Env L B) (r : State L B) : Prop where
  inv : Inv singletonDest r.daemon
  forward : ∀ l, ∀ d ∈ (r.deferred l).getD [], d.2 = .forward
  fits : ∀ b l, (r.daemon.link l).mtu = 0 ∨ (env.format b l).length ≤ (r.daemon.link l).mtu

namespace Kept

variable {r : State L B} {b : B} {l : L}

omit [DecidableEq B] in
theorem daemon (h : Kept singletonDest env r) {w : Forwarding L B} (hinv : Inv singletonDest w)
    (hmtu : ∀ l, (w.link l).mtu = (r.daemon.link l).mtu) :
    Kept singletonDest env { r with daemon := w } := by
  refine ⟨hinv, h.forward, ?_⟩
  intro b l
  change (w.link l).mtu = 0 ∨ (env.format b l).length ≤ (w.link l).mtu
  rw [hmtu]
  exact h.fits b l

omit [DecidableEq B] in
theorem setState (h : Kept singletonDest env r) (l : L) (state : LinkState) :
    Kept singletonDest env (r.setState l state) := by
  exact h.daemon (h.inv.setLink l (fun b hb => h.inv.listed b l hb) (h.inv.once l))
    (setLink_mtu r.daemon l rfl)

omit [DecidableEq B] in
theorem openLink_cases (r : State L B) (l : L) :
    r.openLink l = r ∨ r.openLink l = r.setState l .opening := by
  rw [State.openLink]
  split
  · rw [Link.openLink]
    split
    · left
      rw [Forwarding.setLink, Function.update_eq_self]
    · right
      rfl
  · exact Or.inl rfl

omit [DecidableEq B] in
theorem openLink (h : Kept singletonDest env r) (l : L) : Kept singletonDest env (r.openLink l) := by
  rcases openLink_cases r l with heq | heq
  · rw [heq]
    exact h
  · rw [heq]
    exact h.setState l .opening

omit [DecidableEq B] in
theorem unmoved_setState (b : B) (r : State L B) (l : L) (state : LinkState) :
    Unmoved b r.daemon (r.setState l state).daemon :=
  unmoved_setLink b r.daemon l rfl rfl

omit [DecidableEq B] in
theorem unmoved_openLink (b : B) (r : State L B) (l : L) :
    Unmoved b r.daemon (r.openLink l).daemon := by
  rcases openLink_cases r l with heq | heq
  · rw [heq]
    exact Unmoved.refl b r.daemon
  · rw [heq]
    exact unmoved_setState b r l .opening

omit [DecidableEq B] in
theorem setDeferred (h : Kept singletonDest env r) (l : L) {ds : List (B × Action)}
    (hds : ∀ d ∈ ds, d.2 = .forward) : Kept singletonDest env (r.setDeferred l ds) := by
  refine ⟨h.inv, ?_, h.fits⟩
  intro l' d hd
  by_cases hl : l' = l
  · subst hl
    rw [State.setDeferred] at hd
    simp only [Function.update_self, Option.getD_some] at hd
    exact hds d hd
  · rw [State.setDeferred] at hd
    simp only [Function.update_of_ne hl] at hd
    exact h.forward l' d hd

theorem queueBundle (h : Kept singletonDest env r)
    (hfwd : shouldFwdLink singletonDest r.daemon b l .forward = true) :
    Kept singletonDest env (r.queueBundle env b l .forward) := by
  refine h.daemon (h.inv.queueBundle (env.format b l) hfwd (h.fits b l)) fun l' => ?_
  have hqueue := r.daemon.queueBundle_queued b l .forward (env.format b l)
  generalize r.daemon.queueBundle b l .forward (env.format b l) = w' at hqueue ⊢
  cases hqueue with
  | refused => rfl
  | left hnone hpos hlate => rfl
  | suppressed hnone hpos hmtu => rfl
  | queued hnone hpos hq hi =>
      exact setLink_mtu _ l (Link.addToQueue_mtu (r.daemon.link l) b _) l'

theorem fwdToNexthop (h : Kept singletonDest env r) {route : RouteEntry L}
    (haction : route.action = .forward)
    (hfwd : shouldFwdLink singletonDest r.daemon b route.link .forward = true) :
    Kept singletonDest env (r.fwdToNexthop env b route) := by
  have hopen := h.openLink route.link
  have hsame := unmoved_openLink b r route.link
  have hfwd' : shouldFwdLink singletonDest (r.openLink route.link).daemon b route.link .forward =
      true := by
    rw [shouldFwdLink_congr _ hsame.log (hsame.eid route.link)]
    exact hfwd
  rw [State.fwdToNexthop]
  split
  · rw [haction]
    exact hopen.queueBundle hfwd'
  split
  · exact hopen
  · rename_i ds hds
    split
    · exact hopen
    · refine hopen.setDeferred route.link fun d hd => ?_
      rcases List.mem_append.mp hd with hd | hd
      · exact hopen.forward route.link d (by simpa [hds] using hd)
      · rw [List.mem_singleton.mp hd]
        exact haction

theorem checkLoop {ds : List (B × Action)} (h : Kept singletonDest env r)
    (hds : ∀ d ∈ ds, d.2 = .forward) : Kept singletonDest env (r.checkLoop singletonDest env l ds) := by
  induction ds generalizing r with
  | nil => exact h
  | cons d ds ih =>
      obtain ⟨c, action⟩ := d
      have hrest : ∀ d ∈ ds, d.2 = .forward := fun d hd => hds d (List.mem_cons_of_mem _ hd)
      obtain rfl : action = .forward := hds (c, action) List.mem_cons_self
      rw [State.checkLoop]
      split
      · exact h
      split
      · exact ih h hrest
      · rename_i hfwd
        have hopen := h.openLink l
        have hsame := unmoved_openLink c r l
        refine ih (Kept.queueBundle (hopen.setDeferred l fun d hd => ?_) ?_) hrest
        · exact hopen.forward l d (List.mem_of_mem_filter hd)
        · change shouldFwdLink singletonDest (r.openLink l).daemon c l .forward = true
          rw [shouldFwdLink_congr _ hsame.log (hsame.eid l)]
          simpa using hfwd

theorem unmoved_checkLoop {ds : List (B × Action)} (hb : b ∉ ds.map Prod.fst) (r : State L B) (l : L) :
    Unmoved b r.daemon (r.checkLoop singletonDest env l ds).daemon := by
  induction ds generalizing r with
  | nil => exact Unmoved.refl b r.daemon
  | cons d ds ih =>
      obtain ⟨c, action⟩ := d
      rw [List.map_cons, List.mem_cons, not_or] at hb
      rw [State.checkLoop]
      split
      · exact Unmoved.refl b r.daemon
      split
      · exact ih hb.2 r
      · refine Unmoved.trans (unmoved_openLink b r l) ?_
        refine Unmoved.trans ?_ (ih hb.2 _)
        exact unmoved_queueBundle hb.1 (r.openLink l).daemon l action (env.format c l)

theorem checkNextHop (h : Kept singletonDest env r) (l : L) :
    Kept singletonDest env (r.checkNextHop singletonDest env l) := by
  rw [State.checkNextHop]
  split
  · exact h
  split
  · exact h
  · exact h.checkLoop (h.forward l)

theorem unmoved_checkNextHop (r : State L B) (hb : r.isDeferred b l = false) :
    Unmoved b r.daemon (r.checkNextHop singletonDest env l).daemon := by
  rw [State.checkNextHop]
  split
  · exact Unmoved.refl b r.daemon
  split
  · exact Unmoved.refl b r.daemon
  · refine unmoved_checkLoop ?_ r l
    rw [State.isDeferred] at hb
    cases hds : r.deferred l with
    | none => simp
    | some ds => simpa [hds] using hb

/-- One route: the bundle is not on the deferred list that `check_next_hop` works off. -/
theorem routeOne (h : Kept singletonDest env r) {route : RouteEntry L}
    (haction : route.action = .forward) :
    Kept singletonDest env (State.routeOne singletonDest env b r route) := by
  rw [State.routeOne]
  split
  · exact h
  rename_i hfwd
  split
  · exact h
  split
  · exact h
  · rename_i hdeferred
    have hsame : Unmoved b r.daemon (r.checkNextHop singletonDest env route.link).daemon :=
      unmoved_checkNextHop r (Bool.eq_false_iff.mpr hdeferred)
    refine (h.checkNextHop route.link).fwdToNexthop haction ?_
    rw [shouldFwdLink_congr _ hsame.log (hsame.eid route.link), ← haction]
    rw [Bool.not_eq_true', Bool.not_eq_false, shouldFwd] at hfwd
    split at hfwd
    · exact absurd hfwd (by simp)
    · exact hfwd

theorem routeLoop {routes : List (RouteEntry L)} (h : Kept singletonDest env r)
    (hroutes : ∀ route ∈ routes, route.action = .forward) (b : B) :
    Kept singletonDest env (routes.foldl (State.routeOne singletonDest env b) r) := by
  induction routes generalizing r with
  | nil => exact h
  | cons route routes ih =>
      have hrest : ∀ route' ∈ routes, route'.action = .forward :=
        fun route' hr => hroutes route' (List.mem_cons_of_mem _ hr)
      exact ih (h.routeOne (hroutes route List.mem_cons_self)) hrest

theorem routeBundle (h : Kept singletonDest env r)
    (hroutes : ∀ b, ∀ route ∈ env.matching b, route.action = .forward) (b : B) :
    Kept singletonDest env (r.routeBundle singletonDest env b) := by
  rw [State.routeBundle]
  split
  · exact h
  · exact h.routeLoop (hroutes b) b

theorem rerouteAllBundles (h : Kept singletonDest env r)
    (hroutes : ∀ b, ∀ route ∈ env.matching b, route.action = .forward) :
    Kept singletonDest env (r.rerouteAllBundles singletonDest env) := by
  rw [State.rerouteAllBundles]
  generalize r.pending = bs
  induction bs generalizing r with
  | nil => exact h
  | cons b bs ih => exact ih (h.routeBundle hroutes b)

theorem removeFromDeferred (h : Kept singletonDest env r) (b : B) (actions : Nat) :
    Kept singletonDest env (r.removeFromDeferred b actions) := by
  refine ⟨h.inv, ?_, h.fits⟩
  intro l d hd
  cases hds : r.deferred l with
  | none => simp [State.removeFromDeferred, hds] at hd
  | some ds =>
      simp only [State.removeFromDeferred, hds, Option.map_some, Option.getD_some] at hd
      exact h.forward l d (by simpa [hds] using List.mem_of_mem_filter hd)

end Kept

/-! ## Events -/

variable {w : Forwarding L B}

theorem Inv.putBack (h : Inv singletonDest w) (l : L) (b : B) :
    Inv singletonDest (State.putBack l w b) := by
  rw [State.putBack]
  split
  · exact h
  rename_i len hlen
  split
  · refine h.setLink l ?_ (((h.once l).delFromInflight b len).addToQueue b len)
    intro c hc
    rcases Link.Listed.of_addToQueue hc with hc | rfl
    · exact h.listed c l hc.of_delFromInflight
    · simp [hlen]
  · exact h

theorem putBack_mtu (w : Forwarding L B) (l : L) (b : B) (l' : L) :
    ((State.putBack l w b).link l').mtu = (w.link l').mtu := by
  rw [State.putBack]
  split
  · rfl
  split
  · exact setLink_mtu w l (by simp) l'
  · rfl

theorem Inv.putBacks (h : Inv singletonDest w) (l : L) (back : List B) :
    Inv singletonDest (back.foldl (State.putBack l) w) ∧
      ∀ l', ((back.foldl (State.putBack l) w).link l').mtu = (w.link l').mtu := by
  induction back generalizing w with
  | nil => exact ⟨h, fun _ => rfl⟩
  | cons b back ih =>
      obtain ⟨hinv, hmtu⟩ := ih (h.putBack l b)
      exact ⟨hinv, fun l' => (hmtu l').trans (putBack_mtu w l b l')⟩

theorem Inv.startNextBundle (h : Inv singletonDest w) (l : L) :
    Inv singletonDest (State.startNextBundle w l) := by
  rw [State.startNextBundle]
  split
  · exact h
  rename_i b hhead
  split
  · exact h
  · rename_i len hlen
    refine h.setLink l ?_ (((h.once l).addToInflight b len).delFromQueue b len)
    intro c hc
    rcases Link.Listed.of_addToInflight hc.of_delFromQueue with hc | rfl
    · exact h.listed c l hc
    · simp [hlen]

theorem startNextBundle_mtu (w : Forwarding L B) (l l' : L) :
    ((State.startNextBundle w l).link l').mtu = (w.link l').mtu := by
  rw [State.startNextBundle]
  split
  · rfl
  split
  · rfl
  · exact setLink_mtu w l (by simp) l'

theorem Inv.cancelBundle (h : Inv singletonDest w) (b : B) (l : L) :
    Inv singletonDest (w.cancelBundle b l).1 := by
  rw [Forwarding.cancelBundle]
  split
  · exact h
  split
  · exact h
  rename_i len hlen
  split
  · refine h.setLink l ?_ ((h.once l).delFromQueue b len)
    intro c hc
    exact h.listed c l hc.of_delFromQueue
  split
  · exact h
  · exact h

theorem cancelBundle_mtu (w : Forwarding L B) (b : B) (l l' : L) :
    ((w.cancelBundle b l).1.link l').mtu = (w.link l').mtu := by
  rw [Forwarding.cancelBundle]
  split
  · rfl
  split
  · rfl
  split
  · exact setLink_mtu w l (by simp) l'
  split <;> rfl

theorem handleBundleTransmitted_mtu (retry : Bool) (w : Forwarding L B) (b : B) (l : L)
    (bytesSent reliablySent : Nat) (l' : L) :
    ((w.handleBundleTransmitted retry b l bytesSent reliablySent).link l').mtu =
      (w.link l').mtu := by
  cases hlen : w.blocks b l with
  | none => simp only [Forwarding.handleBundleTransmitted, hlen]
  | some len =>
      rw [Forwarding.handleBundleTransmitted_link _ _ _ _ _ _ hlen]
      exact setLink_mtu w l (by simp) l'

theorem handleCustodyTimeout_mtu (w : Forwarding L B) (b : B) (l l' : L) :
    ((w.handleCustodyTimeout b l).link l').mtu = (w.link l').mtu := by
  rw [Forwarding.handleCustodyTimeout]
  split <;> rfl

theorem Inv.releaseCustody (h : Inv singletonDest w) (b : B) (localCustody : B → Bool) :
    Inv singletonDest
      { w with localCustody := localCustody, timers := Function.update w.timers b [] } := by
  refine ⟨h.blocks, h.listed, h.once, ?_, ?_, h.single⟩
  · intro c l hl
    by_cases hc : c = b
    · subst hc
      simp at hl
    · simp only [Function.update_of_ne hc] at hl
      exact h.timed c l hl
  · intro c
    by_cases hc : c = b
    · subst hc
      simp
    · simp only [Function.update_of_ne hc]
      exact h.timers c

namespace State

/-- The condition on an event: the bundles fit into the maximum lengths of the links, and a bundle is
on no list of a link when it has been cancelled. -/
structure Meets (env : Env L B) (r : State L B) (e : Event L B) : Prop where
  fits : ∀ b l, (r.daemon.link l).mtu = 0 ∨ (env.format b l).length ≤ (r.daemon.link l).mtu
  cancelled : ∀ b l expired, e = .bundleCancelled b l expired → ¬(r.daemon.link l).Listed b

def RunMeets (singletonDest : B → Bool) (retryReliableUnacked : Bool) (r : State L B) :
    List (Env L B × Event L B) → Prop
  | [] => True
  | e :: events => Meets e.1 r e.2 ∧
      (r.handle singletonDest retryReliableUnacked e.1 e.2).RunMeets singletonDest
        retryReliableUnacked events

theorem handle_kept {r : State L B} {e : Event L B} (retry : Bool) (h : Kept singletonDest env r)
    (hroutes : ∀ b, ∀ route ∈ env.matching b, route.action = .forward) (hmeets : Meets env r e) :
    Kept singletonDest env (r.handle singletonDest retry env e) := by
  cases e with
  | bundleReceived b source route =>
      rw [State.handle]
      split
      · rename_i hnew
        have hreceive : Kept singletonDest env (r.receive b source) := by
          cases source with
          | none => exact ⟨h.inv, h.forward, h.fits⟩
          | some l => exact ⟨h.inv.received hnew l, h.forward, h.fits⟩
        split
        · exact hreceive.routeBundle hroutes b
        · exact hreceive
      · exact h
  | routeAdd => exact h.rerouteAllBundles hroutes
  | linkCreated l addRoute =>
      have hcreated : Kept singletonDest env (r.setDeferred l []) := h.setDeferred l (by simp)
      rw [State.handle]
      split
      · exact (hcreated.rerouteAllBundles hroutes).rerouteAllBundles hroutes
      · exact hcreated.rerouteAllBundles hroutes
  | linkAvailable l openIt =>
      rw [State.handle]
      split
      · exact ((h.setState l .available).openLink l).checkNextHop l
      · exact (h.setState l .available).checkNextHop l
  | contactUp l addRoute =>
      rw [State.handle]
      split
      · exact ((h.setState l .open).rerouteAllBundles hroutes).checkNextHop l
      · exact (h.setState l .open).checkNextHop l
  | contactDown l state back =>
      refine Kept.setState ?_ l state
      obtain ⟨hinv, hmtu⟩ := h.inv.putBacks l back
      exact h.daemon hinv hmtu
  | bundleTransmitted b l bytesSent reliablySent =>
      have hdaemon := h.daemon (h.inv.transmitted retry b l bytesSent reliablySent)
        (handleBundleTransmitted_mtu retry r.daemon b l bytesSent reliablySent)
      exact (hdaemon.removeFromDeferred b Action.forward.bit).checkNextHop l
  | bundleCancelled b l expired =>
      have hinv := h.inv.cancelled (hmeets.cancelled b l expired rfl)
      have hdaemon := h.daemon hinv fun l' => by rw [Forwarding.handleBundleCancelled_link]
      rw [State.handle]
      split
      · exact hdaemon
      · exact hdaemon.routeBundle hroutes b
  | custodyTimeout b l =>
      have hdaemon := h.daemon (h.inv.custodyTimeout b l) (handleCustodyTimeout_mtu r.daemon b l)
      exact hdaemon.routeBundle hroutes b
  | startNextBundle l => exact h.daemon (h.inv.startNextBundle l) (startNextBundle_mtu r.daemon l)
  | cancelBundle b l => exact h.daemon (h.inv.cancelBundle b l) (cancelBundle_mtu r.daemon b l)
  | acceptCustody b =>
      have hinv : Inv singletonDest { r.daemon with
          localCustody := Function.update r.daemon.localCustody b true } :=
        ⟨h.inv.blocks, h.inv.listed, h.inv.once, h.inv.timed, h.inv.timers, h.inv.single⟩
      exact h.daemon hinv fun _ => rfl
  | releaseCustody b => exact h.daemon (h.inv.releaseCustody b _) fun _ => rfl
  | deleteBundle b =>
      have hpending : Kept singletonDest env { r with pending := r.pending.erase b } :=
        ⟨h.inv, h.forward, h.fits⟩
      exact hpending.removeFromDeferred b anyAction

/-- Nothing has been received yet. -/
structure Initial (r : State L B) : Prop where
  idle : ∀ l, (r.daemon.link l).queue = [] ∧ (r.daemon.link l).inflight = []
  log : ∀ b, r.daemon.log b = []
  blocks : ∀ b l, r.daemon.blocks b l = none
  timers : ∀ b, r.daemon.timers b = []
  deferred : ∀ l, r.deferred l = none

omit [DecidableEq B] in
theorem Initial.inv {r : State L B} (h : Initial r) : Inv singletonDest r.daemon := by
  refine ⟨?_, ?_, ?_, ?_, ?_, ?_⟩
  · simp [h.blocks]
  · simp [Link.Listed, h.idle]
  · simp [Link.Once, h.idle]
  · simp [h.timers]
  · simp [h.timers]
  · simp [h.log, forwarded]

theorem run_inv {r : State L B} {retry : Bool} {events : List (Env L B × Event L B)}
    (hinv : Inv singletonDest r.daemon) (hforward : ∀ l, ∀ d ∈ (r.deferred l).getD [], d.2 = .forward)
    (hroutes : ∀ e ∈ events, ∀ b, ∀ route ∈ e.1.matching b, route.action = .forward)
    (hmeets : r.RunMeets singletonDest retry events) :
    Inv singletonDest (r.run singletonDest retry events).daemon := by
  induction events generalizing r with
  | nil => exact hinv
  | cons e events ih =>
      obtain ⟨hmeet, hrest⟩ := hmeets
      have hkept : Kept singletonDest e.1 r := ⟨hinv, hforward, hmeet.fits⟩
      have hnext := handle_kept retry hkept (hroutes e List.mem_cons_self) hmeet
      exact ih hnext.inv hnext.forward (fun e' he' => hroutes e' (List.mem_cons_of_mem _ he')) hrest

/-- In every run with routes that forward, in which the bundles fit into the maximum lengths of the
links and a cancelled bundle is on no list of its link any more, the log of a bundle with a single
destination never has two entries to forward it that are queued or transmitted. Reports may be
repeated, and come in any order. -/
theorem run_single_copy (singletonDest : B → Bool) (retry : Bool) (r : State L B) (hinit : r.Initial)
    (events : List (Env L B × Event L B))
    (hroutes : ∀ e ∈ events, ∀ b, ∀ route ∈ e.1.matching b, route.action = .forward)
    (hmeets : r.RunMeets singletonDest retry events) (b : B) (hb : singletonDest b = true) :
    forwarded ((r.run singletonDest retry events).daemon.log b) ≤ 1 := by
  refine (run_inv hinit.inv ?_ hroutes hmeets).single b hb
  simp [hinit.deferred]

/-- Two links, of which `false` takes bundles of up to 100 bytes, and bundles in custody. -/
def sample : State Bool Bool where
  daemon :=
    { link := fun l => ⟨.available, false, EndpointID.dtnNone, true, if l = false then 100 else 0, 10, 1000,
        10, 1000, [], [], 0, 0, 0, 0⟩
      log := fun _ => []
      blocks := fun _ _ => none
      timers := fun _ => []
      localCustody := fun _ => true }
  deferred := fun _ => none
  pending := []

theorem sample_initial : sample.Initial :=
  ⟨fun _ => ⟨rfl, rfl⟩, fun _ => rfl, fun _ _ => rfl, fun _ => rfl, fun _ => rfl⟩

/-- Both links match, and the bundle is formatted to the given length. -/
def sampleEnv (length : Nat) : Env Bool Bool :=
  ⟨fun _ _ => ⟨length, false⟩, fun _ => [⟨false, .forward⟩, ⟨true, .forward⟩], fun _ => none⟩

/-- The links come up, and the bundle is received and sent on the first one. -/
def sampleEvents : List (Env Bool Bool × Event Bool Bool) :=
  [(sampleEnv 100, .linkCreated false false), (sampleEnv 100, .linkCreated true false),
    (sampleEnv 100, .contactUp false false), (sampleEnv 100, .contactUp true false),
    (sampleEnv 100, .bundleReceived true none true), (sampleEnv 100, .startNextBundle false),
    (sampleEnv 100, .bundleTransmitted true false 100 100)]

theorem run_single_copy_sample :
    forwarded ((sample.run (fun _ => true) false
      (sampleEvents ++ [(sampleEnv 100, .custodyTimeout true false)])).daemon.log true) = 1 := by
  have hle := run_single_copy (fun _ => true) false sample sample_initial
    (sampleEvents ++ [(sampleEnv 100, .custodyTimeout true false)]) (by decide +kernel) ?_ true rfl
  · have hge : 0 < forwarded ((sample.run (fun _ => true) false
        (sampleEvents ++ [(sampleEnv 100, .custodyTimeout true false)])).daemon.log true) := by
      decide +kernel
    omega
  · refine ⟨?_, ?_, ?_, ?_, ?_, ?_, ?_, ?_, trivial⟩ <;>
      exact ⟨by decide +kernel, by simp⟩

/-- The custody timer goes off when the bundle has become longer than what the first link takes. Its
blocks for that link are left behind, and it is queued on the second link. A repeated report about the
first link then counts as a transmission. -/
theorem forwarded_twice :
    forwarded ((sample.run (fun _ => true) false (sampleEvents ++
      [(sampleEnv 101, .custodyTimeout true false),
        (sampleEnv 101, .bundleTransmitted true false 100 100)])).daemon.log true) = 2 := by
  decide +kernel

end State

end TableBasedRouter

end Dtn2
