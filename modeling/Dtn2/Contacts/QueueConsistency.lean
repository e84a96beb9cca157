import Dtn2.Bundling.BundleActions
import Mathlib.Tactic.Ring

/-!
# The lists of a link and its convergence layer

A bundle passes from the queue of a link to its convergence layer, which reports the outcome in an
event that the daemon handles later. All of these steps update lists, counters and blocks. A bundle that
is to be sent on a link is in exactly one place: on the queue, with the connection, or in an event. While
it is, it has blocks for the link.
-/

namespace Dtn2

open ForwardingInfo

namespace LinkQueues

variable {L B : Type} [DecidableEq L] [DecidableEq B]

/-- `InFlightBundle` of a connection: whether bytes of it have been sent, and whether it is the current
bundle with a started segment. -/
structure InFlightBundle (B : Type) where
  bundle : B
  sentData : Bool
  segmentTodo : Bool
deriving DecidableEq, Repr

inductive Report (L B : Type) where
  | transmitted (b : B) (l : L)
  | cancelled (b : B) (l : L)
deriving DecidableEq, Repr

/-- The daemon, the connection of each link, and the events that have not been handled. -/
structure State (L B : Type) where
  daemon : Forwarding L B
  conn : L → List (InFlightBundle B)
  posted : List (Report L B)

namespace State

/-- `StreamConvergenceLayer::Connection::start_next_bundle`, up to the first segment. -/
def startNextBundle (s : State L B) (l : L) : State L B :=
  match (s.daemon.link l).queue.head? with
  | none => s
  | some b =>
      match s.daemon.blocks b l with
      | none => s
      | some len =>
          { s with
            daemon := s.daemon.setLink l (((s.daemon.link l).addToInflight b len).delFromQueue b len)
            conn := Function.update s.conn l (s.conn l ++ [⟨b, false, false⟩]) }

omit [DecidableEq B] in
/-- The connection sends some bytes of a bundle. -/
def progress (s : State L B) (l : L) (i : Nat) (sentData segmentTodo : Bool) : State L B :=
  let sent := fun r : InFlightBundle B => { r with sentData := sentData, segmentTodo := segmentTodo }
  { s with conn := Function.update s.conn l ((s.conn l).modify i sent) }

omit [DecidableEq B] in
def complete (s : State L B) (l : L) (i : Nat) : State L B :=
  match (s.conn l)[i]? with
  | none => s
  | some r =>
      { s with
        conn := Function.update s.conn l ((s.conn l).eraseIdx i)
        posted := s.posted ++ [.transmitted r.bundle l] }

/-- `close_contact` puts a bundle back on the queue. -/
def putBack (s : State L B) (l : L) (i : Nat) : State L B :=
  match (s.conn l)[i]? with
  | none => s
  | some r =>
      let conn := Function.update s.conn l ((s.conn l).eraseIdx i)
      match s.daemon.blocks r.bundle l with
      | none => { s with conn := conn }
      | some len =>
          if r.bundle ∈ (s.daemon.link l).inflight then
            { s with
              daemon := s.daemon.setLink l
                (((s.daemon.link l).delFromInflight r.bundle len).addToQueue r.bundle len)
              conn := conn }
          else { s with conn := conn }

/-- The records that `handle_cancel_bundle` may drop. -/
def findCancellable (s : State L B) (b : B) (l : L) : Bool :=
  match (s.conn l).find? fun r => decide (r.bundle = b) with
  | none => false
  | some r => !r.sentData && !r.segmentTodo

/-- `ConnectionConvergenceLayer::cancel_bundle` and the `handle_cancel_bundle` of a stream connection:
the event is posted, and the bundle stays on the list of the link. -/
def clCancelBundle (s : State L B) (b : B) (l : L) : State L B :=
  if !(s.daemon.link l).isOpen then { s with posted := s.posted ++ [.cancelled b l] }
  else if s.findCancellable b l then
    { s with
      conn := Function.update s.conn l ((s.conn l).eraseP fun r => decide (r.bundle = b))
      posted := s.posted ++ [.cancelled b l] }
  else s

/-- `BundleActions::cancel_bundle`, with the convergence layer. -/
def cancelBundle (s : State L B) (b : B) (l : L) : State L B :=
  match s.daemon.cancelBundle b l with
  | (w, .nothing) => { s with daemon := w }
  | (w, .posted) => { s with daemon := w, posted := s.posted ++ [.cancelled b l] }
  | (w, .convergenceLayer) => { s with daemon := w }.clCancelBundle b l

/-- The daemon handles one of the posted events. -/
def handle (retryReliableUnacked : Bool) (s : State L B) (i bytesSent reliablySent : Nat) :
    State L B :=
  match s.posted[i]? with
  | none => s
  | some (.transmitted b l) =>
      { s with
        daemon := s.daemon.handleBundleTransmitted retryReliableUnacked b l bytesSent reliablySent
        posted := s.posted.eraseIdx i }
  | some (.cancelled b l) =>
      { s with daemon := s.daemon.handleBundleCancelled b l, posted := s.posted.eraseIdx i }

end State

/-- The steps of the daemon and of the connections. -/
inductive Step (L B : Type) where
  | queueBundle (b : B) (l : L) (action : Action) (format : Format)
  | startNextBundle (l : L)
  | progress (l : L) (i : Nat) (sentData segmentTodo : Bool)
  | complete (l : L) (i : Nat)
  | putBack (l : L) (i : Nat)
  | cancelBundle (b : B) (l : L)
  | handle (i bytesSent reliablySent : Nat)
  | setState (l : L) (state : LinkState)

namespace State

def apply (retryReliableUnacked : Bool) (s : State L B) : Step L B → State L B
  | .queueBundle b l action format => { s with daemon := s.daemon.queueBundle b l action format }
  | .startNextBundle l => s.startNextBundle l
  | .progress l i sentData segmentTodo => s.progress l i sentData segmentTodo
  | .complete l i => s.complete l i
  | .putBack l i => s.putBack l i
  | .cancelBundle b l => s.cancelBundle b l
  | .handle i bytesSent reliablySent => s.handle retryReliableUnacked i bytesSent reliablySent
  | .setState l state =>
      { s with daemon := s.daemon.setLink l { s.daemon.link l with state := state } }

def totalLength (s : State L B) (l : L) (bs : List B) : Nat :=
  (bs.map fun b => (s.daemon.blocks b l).getD 0).sum

/-- The convergence layer would report a bundle as cancelled that is on the in-flight list. -/
def CancelsInflight (s : State L B) (b : B) (l : L) : Prop :=
  (s.daemon.cancelBundle b l).2 = .convergenceLayer ∧
    ((s.daemon.link l).isOpen = false ∨ s.findCancellable b l = true)

/-- The condition on a step: no bundle is cancelled that is on the in-flight list, and the bytes of a
link fit into its counters. -/
def Meets (s : State L B) : Step L B → Prop
  | .cancelBundle b l => ¬s.CancelsInflight b l
  | .queueBundle _ l _ format =>
      s.totalLength l (s.daemon.link l).queue + s.totalLength l (s.daemon.link l).inflight +
        format.length < uintMod
  | _ => True

def RunMeets (retryReliableUnacked : Bool) (s : State L B) : List (Step L B) → Prop
  | [] => True
  | step :: steps => s.Meets step ∧ (s.apply retryReliableUnacked step).RunMeets retryReliableUnacked steps

def run (retryReliableUnacked : Bool) (s : State L B) (steps : List (Step L B)) : State L B :=
  steps.foldl (apply retryReliableUnacked) s

end State

/-! ## Counters -/

/-- The summed lengths of some bundles. -/
def total (blocks : B → Option Nat) (bs : List B) : Nat := (bs.map fun b => (blocks b).getD 0).sum

/-- The counters of a list of a link are right. -/
def Tally (blocks : B → Option Nat) (bs : List B) (bundles bytes : Nat) : Prop :=
  bundles = bs.length ∧ bytes = total blocks bs

omit [DecidableEq B] in
theorem total_append (blocks : B → Option Nat) (as bs : List B) :
    total blocks (as ++ bs) = total blocks as + total blocks bs := by
  rw [total, List.map_append, List.sum_append, total, total]

omit [DecidableEq B] in
theorem total_singleton {blocks : B → Option Nat} {b : B} {len : Nat} (h : blocks b = some len) :
    total blocks [b] = len := by
  simp [total, h]

theorem total_erase {blocks : B → Option Nat} {bs : List B} {b : B} {len : Nat} (hb : b ∈ bs)
    (h : blocks b = some len) : total blocks (bs.erase b) + len = total blocks bs := by
  have hperm := (List.perm_cons_erase hb).map fun b => (blocks b).getD 0
  rw [total, total, hperm.sum_nat, List.map_cons, List.sum_cons, h]
  exact Nat.add_comm _ _

theorem total_update {blocks : B → Option Nat} {bs : List B} {b : B} (hb : b ∉ bs)
    (len : Option Nat) : total (Function.update blocks b len) bs = total blocks bs := by
  refine congrArg List.sum (List.map_congr_left fun c hc => ?_)
  have hne : c ≠ b := by
    rintro rfl
    exact hb hc
  rw [Function.update_of_ne hne]

omit [DecidableEq B] in
theorem length_le_total {blocks : B → Option Nat} {bs : List B}
    (h : ∀ b ∈ bs, ∃ len, blocks b = some len ∧ 0 < len) : bs.length ≤ total blocks bs := by
  induction bs with
  | nil => exact Nat.zero_le _
  | cons b bs ih =>
      obtain ⟨len, hlen, hpos⟩ := h b List.mem_cons_self
      have hrest := ih fun c hc => h c (List.mem_cons_of_mem b hc)
      rw [total, List.map_cons, List.sum_cons, hlen]
      change bs.length + 1 ≤ len + total blocks bs
      omega

omit [DecidableEq B] in
theorem Tally.add {blocks : B → Option Nat} {bs : List B} {bundles bytes len : Nat} {b : B}
    (h : Tally blocks bs bundles bytes) (hlen : blocks b = some len) (hpos : 0 < len)
    (hle : bs.length ≤ total blocks bs) (hlt : total blocks bs + len < uintMod) :
    Tally blocks (bs ++ [b]) ((bundles + 1) % uintMod) ((bytes + len) % uintMod) := by
  obtain ⟨rfl, rfl⟩ := h
  refine ⟨?_, ?_⟩
  · rw [List.length_append, List.length_singleton, Nat.mod_eq_of_lt (by omega)]
  · rw [total_append, total_singleton hlen, Nat.mod_eq_of_lt hlt]

theorem Tally.del {blocks : B → Option Nat} {bs : List B} {bundles bytes len : Nat} {b : B}
    (h : Tally blocks bs bundles bytes) (hb : b ∈ bs) (hlen : blocks b = some len)
    (hle : bs.length ≤ total blocks bs) (hlt : total blocks bs < uintMod) :
    Tally blocks (bs.erase b) (Link.countDown bundles) (Link.bytesDown bytes len) := by
  obtain ⟨rfl, rfl⟩ := h
  have herase := total_erase hb hlen
  have hpos := List.length_pos_of_mem hb
  refine ⟨?_, ?_⟩
  · rw [List.length_erase_of_mem hb, Link.countDown,
      show bs.length + (uintMod - 1) = bs.length - 1 + uintMod by unfold uintMod at *; omega,
      Nat.add_mod_right, Nat.mod_eq_of_lt (by omega)]
  · rw [Link.bytesDown, if_pos (by omega)]
    omega

/-- The lists of a link, their counters and the blocks for the link agree. -/
structure Counted (blocks : B → Option Nat) (link : Link B) : Prop where
  queued : Tally blocks link.queue link.bundlesQueued link.bytesQueued
  flying : Tally blocks link.inflight link.bundlesInflight link.bytesInflight
  formatted : ∀ b ∈ link.queue ++ link.inflight, ∃ len, blocks b = some len ∧ 0 < len

namespace Counted

variable {blocks : B → Option Nat} {link : Link B} {b : B} {len : Nat}

omit [DecidableEq B] in
theorem queue_le (h : Counted blocks link) : link.queue.length ≤ total blocks link.queue :=
  length_le_total fun b hb => h.formatted b (List.mem_append_left _ hb)

omit [DecidableEq B] in
theorem inflight_le (h : Counted blocks link) : link.inflight.length ≤ total blocks link.inflight :=
  length_le_total fun b hb => h.formatted b (List.mem_append_right _ hb)

theorem addToQueue (h : Counted blocks link) (hb : b ∉ link.queue) (hlen : blocks b = some len)
    (hpos : 0 < len) (hfits : total blocks link.queue + len < uintMod) :
    Counted blocks (link.addToQueue b len) := by
  rw [Link.addToQueue, if_neg hb]
  refine ⟨h.queued.add hlen hpos h.queue_le hfits, h.flying, ?_⟩
  intro c hc
  simp only [List.mem_append, List.mem_singleton] at hc
  rcases hc with (hc | rfl) | hc
  · exact h.formatted c (List.mem_append_left _ hc)
  · exact ⟨len, hlen, hpos⟩
  · exact h.formatted c (List.mem_append_right _ hc)

theorem addToInflight (h : Counted blocks link) (hb : b ∉ link.inflight) (hlen : blocks b = some len)
    (hpos : 0 < len) (hfits : total blocks link.inflight + len < uintMod) :
    Counted blocks (link.addToInflight b len) := by
  rw [Link.addToInflight, if_neg hb]
  refine ⟨h.queued, h.flying.add hlen hpos h.inflight_le hfits, ?_⟩
  intro c hc
  simp only [List.mem_append, List.mem_singleton] at hc
  rcases hc with hc | hc | rfl
  · exact h.formatted c (List.mem_append_left _ hc)
  · exact h.formatted c (List.mem_append_right _ hc)
  · exact ⟨len, hlen, hpos⟩

theorem delFromQueue (h : Counted blocks link) (hlen : blocks b = some len)
    (hfits : total blocks link.queue < uintMod) : Counted blocks (link.delFromQueue b len) := by
  rw [Link.delFromQueue]
  split
  · rename_i hb
    refine ⟨h.queued.del hb hlen h.queue_le hfits, h.flying, ?_⟩
    intro c hc
    rcases List.mem_append.mp hc with hc | hc
    · exact h.formatted c (List.mem_append_left _ (List.mem_of_mem_erase hc))
    · exact h.formatted c (List.mem_append_right _ hc)
  · exact h

theorem delFromInflight (h : Counted blocks link) (hlen : blocks b = some len)
    (hfits : total blocks link.inflight < uintMod) : Counted blocks (link.delFromInflight b len) := by
  rw [Link.delFromInflight]
  split
  · rename_i hb
    refine ⟨h.queued, h.flying.del hb hlen h.inflight_le hfits, ?_⟩
    intro c hc
    rcases List.mem_append.mp hc with hc | hc
    · exact h.formatted c (List.mem_append_left _ hc)
    · exact h.formatted c (List.mem_append_right _ (List.mem_of_mem_erase hc))
  · exact h

theorem updateBlocks (h : Counted blocks link) (hq : b ∉ link.queue) (hi : b ∉ link.inflight)
    (new : Option Nat) : Counted (Function.update blocks b new) link := by
  obtain ⟨⟨hqn, hqb⟩, ⟨hin, hib⟩, hform⟩ := h
  refine ⟨⟨hqn, ?_⟩, ⟨hin, ?_⟩, ?_⟩
  · rw [hqb, total_update hq]
  · rw [hib, total_update hi]
  · intro c hc
    have hne : c ≠ b := by
      rintro rfl
      rcases List.mem_append.mp hc with hc | hc
      · exact hq hc
      · exact hi hc
    rw [Function.update_of_ne hne]
    exact hform c hc

end Counted

/-! ## The invariant of a link -/

/-- For a link, a bundle is in at most one place: on the queue, with the connection, or in an event.
It has blocks then. A bundle on the in-flight list is with the connection or has been reported as
sent. -/
structure LinkInv (link : Link B) (blocks : B → Option Nat) (held : List B) (sent cancelled : B → Nat) :
    Prop where
  place : ∀ b, link.queue.count b + held.count b + sent b + cancelled b ≤ 1
  formatted : ∀ b, 0 < link.queue.count b + held.count b + sent b + cancelled b → blocks b ≠ none
  flying : ∀ b ∈ link.inflight, 0 < held.count b + sent b
  once : link.inflight.Nodup
  counted : Counted blocks link
  fits : total blocks link.queue + total blocks link.inflight < uintMod

namespace LinkInv

variable {link : Link B} {blocks : B → Option Nat} {held held' : List B}
  {sent cancelled sent' cancelled' : B → Nat} {b : B} {len : Nat}

theorem not_queued (h : LinkInv link blocks held sent cancelled) (hb : b ∈ link.inflight) :
    b ∉ link.queue := by
  intro hq
  have hplace := h.place b
  have hfly := h.flying b hb
  have hcount := List.count_pos_iff.mpr hq
  omega

theorem off_lists (h : LinkInv link blocks held sent cancelled)
    (hb : link.queue.count b + held.count b + sent b = 0) : b ∉ link.queue ∧ b ∉ link.inflight := by
  refine ⟨?_, ?_⟩
  · intro hq
    have hcount := List.count_pos_iff.mpr hq
    omega
  · intro hi
    have hfly := h.flying b hi
    omega

theorem nowhere_of_none (h : LinkInv link blocks held sent cancelled) (hb : blocks b = none) :
    link.queue.count b + held.count b + sent b + cancelled b = 0 := by
  by_contra hne
  exact h.formatted b (Nat.pos_of_ne_zero hne) hb

theorem format (h : LinkInv link blocks held sent cancelled) (hb : blocks b = none) (len : Nat) :
    LinkInv link (Function.update blocks b (some len)) held sent cancelled := by
  have hzero := h.nowhere_of_none hb
  obtain ⟨hq, hi⟩ := h.off_lists (b := b) (by omega)
  refine ⟨h.place, ?_, h.flying, h.once, h.counted.updateBlocks hq hi _, ?_⟩
  · intro c hc
    by_cases hcb : c = b
    · simp [hcb]
    · rw [Function.update_of_ne hcb]
      exact h.formatted c hc
  · rw [total_update hq, total_update hi]
    exact h.fits

theorem addToQueue (h : LinkInv link blocks held sent cancelled)
    (hb : link.queue.count b + held.count b + sent b + cancelled b = 0) (hlen : blocks b = some len)
    (hpos : 0 < len) (hfits : total blocks link.queue + total blocks link.inflight + len < uintMod) :
    LinkInv (link.addToQueue b len) blocks held sent cancelled := by
  obtain ⟨hq, hi⟩ := h.off_lists (b := b) (by omega)
  have hcounted := h.counted.addToQueue hq hlen hpos (by omega)
  rw [Link.addToQueue, if_neg hq] at hcounted ⊢
  have hplaces : ∀ c, (link.queue ++ [b]).count c + held.count c + sent c + cancelled c =
      link.queue.count c + held.count c + sent c + cancelled c + if c = b then 1 else 0 := by
    intro c
    rw [List.count_append, List.count_singleton]
    by_cases hcb : c = b
    · subst hcb
      simp
      omega
    · simp [hcb, Ne.symm hcb]
  refine ⟨?_, ?_, h.flying, h.once, hcounted, ?_⟩
  · intro c
    have hc := h.place c
    rw [hplaces]
    split
    · rename_i hcb
      rw [hcb, hb]
    · exact hc
  · intro c hc
    rw [hplaces] at hc
    by_cases hcb : c = b
    · rw [hcb, hlen]
      exact Option.some_ne_none _
    · rw [if_neg hcb] at hc
      exact h.formatted c hc
  · change total blocks (link.queue ++ [b]) + total blocks link.inflight < uintMod
    rw [total_append, total_singleton hlen]
    omega

theorem start (h : LinkInv link blocks held sent cancelled) (hb : b ∈ link.queue)
    (hlen : blocks b = some len) :
    LinkInv ((link.addToInflight b len).delFromQueue b len) blocks (held ++ [b]) sent cancelled := by
  have hi : b ∉ link.inflight := fun hi => h.not_queued hi hb
  have hfits := h.fits
  have herase := total_erase hb hlen
  obtain ⟨len', hlen', hpos⟩ := h.counted.formatted b (List.mem_append_left _ hb)
  obtain rfl : len' = len := Option.some.inj (hlen'.symm.trans hlen)
  have hcounted : Counted blocks ((link.addToInflight b len').delFromQueue b len') := by
    refine (h.counted.addToInflight hi hlen hpos (by omega)).delFromQueue hlen ?_
    rw [Link.addToInflight, if_neg hi]
    change total blocks link.queue < uintMod
    omega
  rw [Link.addToInflight, if_neg hi, Link.delFromQueue, if_pos hb] at hcounted ⊢
  have hplaces : ∀ c, (link.queue.erase b).count c + (held ++ [b]).count c =
      link.queue.count c + held.count c := by
    intro c
    have hpos := List.count_pos_iff.mpr hb
    rw [List.count_append, List.count_singleton, List.count_erase]
    by_cases hcb : c = b
    · subst hcb
      simp
      omega
    · simp [Ne.symm hcb]
  refine ⟨?_, ?_, ?_, ?_, hcounted, ?_⟩
  · intro c
    change (link.queue.erase b).count c + (held ++ [b]).count c + sent c + cancelled c ≤ 1
    rw [hplaces]
    exact h.place c
  · intro c hc
    change 0 < (link.queue.erase b).count c + (held ++ [b]).count c + sent c + cancelled c at hc
    rw [hplaces] at hc
    exact h.formatted c hc
  · intro c hc
    rw [List.count_append]
    rcases List.mem_append.mp hc with hc | hc
    · have hfly := h.flying c hc
      omega
    · rw [List.mem_singleton] at hc
      subst hc
      simp
  · exact List.nodup_append.mpr ⟨h.once, List.nodup_singleton b, by
      intro c hc d hd hcd
      rw [List.mem_singleton] at hd
      exact hi (hd ▸ hcd ▸ hc)⟩
  · change total blocks (link.queue.erase b) + total blocks (link.inflight ++ [b]) < uintMod
    rw [total_append, total_singleton hlen]
    omega

theorem report (h : LinkInv link blocks held sent cancelled) (hheld : (b :: held').Perm held)
    (hsent : ∀ c, sent' c = sent c + if c = b then 1 else 0) :
    LinkInv link blocks held' sent' cancelled := by
  have hplaces : ∀ c, held'.count c + sent' c = held.count c + sent c := by
    intro c
    have hcount := hheld.count_eq c
    rw [List.count_cons] at hcount
    rw [hsent, ← hcount]
    by_cases hcb : c = b
    · subst hcb
      simp
      omega
    · simp [hcb, Ne.symm hcb]
  refine ⟨?_, ?_, ?_, h.once, h.counted, h.fits⟩
  · intro c
    have hc := h.place c
    have heq := hplaces c
    omega
  · intro c hc
    have heq := hplaces c
    exact h.formatted c (by omega)
  · intro c hc
    rw [hplaces]
    exact h.flying c hc

theorem drop (h : LinkInv link blocks held sent cancelled) (hheld : (b :: held').Perm held)
    (hi : b ∉ link.inflight) : LinkInv link blocks held' sent cancelled := by
  have hcount : ∀ c, held.count c = held'.count c + if b = c then 1 else 0 := by
    intro c
    rw [← hheld.count_eq c, List.count_cons]
    simp [beq_iff_eq]
  refine ⟨?_, ?_, ?_, h.once, h.counted, h.fits⟩
  · intro c
    have hc := h.place c
    have heq := hcount c
    omega
  · intro c hc
    have heq := hcount c
    exact h.formatted c (by omega)
  · intro c hc
    have hfly := h.flying c hc
    have heq := hcount c
    have hne : b ≠ c := by
      rintro rfl
      exact hi hc
    rw [if_neg hne] at heq
    omega

theorem delFromInflight (h : LinkInv link blocks held sent cancelled) (hlen : blocks b = some len) :
    LinkInv (link.delFromInflight b len) blocks held sent cancelled := by
  have hfits := h.fits
  have hcounted := h.counted.delFromInflight hlen (by omega)
  rw [Link.delFromInflight] at hcounted ⊢
  split
  · rename_i hb
    rw [if_pos hb] at hcounted
    have herase := total_erase hb hlen
    refine ⟨h.place, h.formatted, ?_, h.once.erase b, hcounted, ?_⟩
    · intro c hc
      exact h.flying c (List.mem_of_mem_erase hc)
    · change total blocks link.queue + total blocks (link.inflight.erase b) < uintMod
      omega
  · exact h

theorem delFromQueue (h : LinkInv link blocks held sent cancelled) (hlen : blocks b = some len) :
    LinkInv (link.delFromQueue b len) blocks held sent cancelled := by
  have hfits := h.fits
  have hcounted := h.counted.delFromQueue hlen (by omega)
  rw [Link.delFromQueue] at hcounted ⊢
  split
  · rename_i hb
    rw [if_pos hb] at hcounted
    have herase := total_erase hb hlen
    have hle : ∀ c, (link.queue.erase b).count c ≤ link.queue.count c :=
      fun c => List.erase_sublist.count_le c
    refine ⟨?_, ?_, h.flying, h.once, hcounted, ?_⟩
    · intro c
      have hc := h.place c
      have hcle := hle c
      change (link.queue.erase b).count c + held.count c + sent c + cancelled c ≤ 1
      omega
    · intro c hc
      change 0 < (link.queue.erase b).count c + held.count c + sent c + cancelled c at hc
      have hcle := hle c
      exact h.formatted c (by omega)
    · change total blocks (link.queue.erase b) + total blocks link.inflight < uintMod
      omega
  · exact h

theorem deleteBlocks (h : LinkInv link blocks held sent cancelled)
    (hb : link.queue.count b + held.count b + sent b + cancelled b = 0) :
    LinkInv link (Function.update blocks b none) held sent cancelled := by
  obtain ⟨hq, hi⟩ := h.off_lists (b := b) (by omega)
  refine ⟨h.place, ?_, h.flying, h.once, h.counted.updateBlocks hq hi _, ?_⟩
  · intro c hc
    have hne : c ≠ b := by
      rintro rfl
      omega
    rw [Function.update_of_ne hne]
    exact h.formatted c hc
  · rw [total_update hq, total_update hi]
    exact h.fits

theorem putBack (h : LinkInv link blocks held sent cancelled) (hheld : (b :: held').Perm held)
    (hb : b ∈ link.inflight) (hlen : blocks b = some len) :
    LinkInv ((link.delFromInflight b len).addToQueue b len) blocks held' sent cancelled := by
  have hfits := h.fits
  have herase := total_erase hb hlen
  have hplace := h.place b
  have hcount := hheld.count_eq b
  rw [List.count_cons_self] at hcount
  obtain ⟨len', hlen', hpos⟩ := h.counted.formatted b (List.mem_append_right _ hb)
  obtain rfl : len' = len := Option.some.inj (hlen'.symm.trans hlen)
  have hdel := h.delFromInflight (b := b) hlen
  have hgone : b ∉ (link.delFromInflight b len').inflight := by
    rw [Link.delFromInflight, if_pos hb]
    exact fun hmem => (List.Nodup.mem_erase_iff h.once).mp hmem |>.1 rfl
  have hqueue : (link.delFromInflight b len').queue = link.queue := by
    rw [Link.delFromInflight, if_pos hb]
  refine (hdel.drop hheld hgone).addToQueue ?_ hlen hpos ?_
  · rw [hqueue]
    omega
  · rw [Link.delFromInflight, if_pos hb]
    change total blocks link.queue + total blocks (link.inflight.erase b) + len' < uintMod
    omega

theorem cancel (h : LinkInv link blocks held sent cancelled) (hb : b ∈ link.queue)
    (hlen : blocks b = some len) (hcancelled : ∀ c, cancelled' c = cancelled c + if c = b then 1 else 0) :
    LinkInv (link.delFromQueue b len) blocks held sent cancelled' := by
  have hdel := h.delFromQueue (b := b) hlen
  have hqueue : (link.delFromQueue b len).queue = link.queue.erase b := by
    rw [Link.delFromQueue, if_pos hb]
  have hplaces : ∀ c, (link.queue.erase b).count c + cancelled' c =
      link.queue.count c + cancelled c := by
    intro c
    have hpos := List.count_pos_iff.mpr hb
    rw [hcancelled, List.count_erase]
    by_cases hcb : c = b
    · subst hcb
      simp
      omega
    · simp [hcb, Ne.symm hcb]
  refine ⟨?_, ?_, hdel.flying, hdel.once, hdel.counted, hdel.fits⟩
  · intro c
    have hc := h.place c
    have heq := hplaces c
    rw [hqueue]
    omega
  · intro c hc
    have heq := hplaces c
    rw [hqueue] at hc
    exact h.formatted c (by omega)

theorem handleTransmitted (h : LinkInv link blocks held sent cancelled) (hlen : blocks b = some len)
    (hsent : ∀ c, sent c = sent' c + if c = b then 1 else 0) :
    LinkInv ((link.delFromInflight b len).delFromQueue b len) (Function.update blocks b none) held sent'
      cancelled := by
  have hplace := h.place b
  have hb := hsent b
  rw [if_pos rfl] at hb
  have hdel := (h.delFromInflight (b := b) hlen).delFromQueue (b := b) hlen
  have hinflight : ((link.delFromInflight b len).delFromQueue b len).inflight =
      (link.delFromInflight b len).inflight := by
    rw [Link.delFromQueue]
    split <;> rfl
  have hgone : b ∉ (link.delFromInflight b len).inflight := by
    rw [Link.delFromInflight]
    split
    · exact fun hmem => (List.Nodup.mem_erase_iff h.once).mp hmem |>.1 rfl
    · assumption
  have hplaces := hdel.place b
  refine LinkInv.deleteBlocks ⟨?_, ?_, ?_, hdel.once, hdel.counted, hdel.fits⟩ (by omega)
  · intro c
    have hc := hdel.place c
    have heq := hsent c
    omega
  · intro c hc
    have heq := hsent c
    exact hdel.formatted c (by omega)
  · intro c hc
    have hfly := hdel.flying c hc
    have hne : c ≠ b := by
      rintro rfl
      exact hgone (hinflight ▸ hc)
    have heq := hsent c
    rw [if_neg hne] at heq
    omega

theorem handleCancelled (h : LinkInv link blocks held sent cancelled)
    (hcancelled : ∀ c, cancelled c = cancelled' c + if c = b then 1 else 0) :
    LinkInv link (Function.update blocks b none) held sent cancelled' := by
  have hplace := h.place b
  have hb := hcancelled b
  rw [if_pos rfl] at hb
  refine LinkInv.deleteBlocks ⟨?_, ?_, h.flying, h.once, h.counted, h.fits⟩ (by omega)
  · intro c
    have hc := h.place c
    have heq := hcancelled c
    omega
  · intro c hc
    have heq := hcancelled c
    exact h.formatted c (by omega)

end LinkInv

end LinkQueues

end Dtn2
