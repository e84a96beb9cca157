import Dtn2.Bundling.ForwardingLog
import Dtn2.Contacts.Link
import Mathlib.Logic.Function.Basic

/-!
# Sending bundles on links

`BundleActions` queues a bundle on a link and cancels it again, and the daemon handles what the
convergence layers report. A bundle has blocks for each link that it is to be sent on.
-/

namespace Dtn2

open ForwardingInfo ForwardingLog

/-- All links, and what each bundle has for them. The blocks of a bundle for a link are given by their
total length; a custody timer by its link. -/
structure Forwarding (L B : Type) where
  link : L → Link B
  log : B → List (ForwardingInfo L)
  blocks : B → L → Option Nat
  timers : B → List L
  localCustody : B → Bool

/-- What a formatting of a bundle for a link would give at a moment: the total length, or 0 where
`prepare_blocks` or `generate_blocks` fails (and deletes the blocks), and whether the bundle can be
fragmented. -/
structure Format where
  length : Nat
  fragments : Bool
deriving DecidableEq, Repr

namespace Forwarding

variable {L B : Type} [DecidableEq L] [DecidableEq B]

omit [DecidableEq B] in
def setLink (w : Forwarding L B) (l : L) (link : Link B) : Forwarding L B :=
  { w with link := Function.update w.link l link }

omit [DecidableEq L] in
def setLog (w : Forwarding L B) (b : B) (log : List (ForwardingInfo L)) : Forwarding L B :=
  { w with log := Function.update w.log b log }

def setBlocks (w : Forwarding L B) (b : B) (l : L) (blocks : Option Nat) : Forwarding L B :=
  { w with blocks := Function.update w.blocks b (Function.update (w.blocks b) l blocks) }

def addEntry (w : Forwarding L B) (b : B) (l : L) (action : Action) (state : State) : Forwarding L B :=
  w.setLog b (ForwardingLog.addEntry (w.log b) l (w.link l).remoteEid action state)

/-- `BundleActions::queue_bundle`. The bundle is on the queue if it gets to the end; in three of the
returns before that its blocks stay. -/
def queueBundle (w : Forwarding L B) (b : B) (l : L) (action : Action) (format : Format) : Forwarding L B :=
  if (w.link l).isDeleted then w
  else if w.blocks b l ≠ none then w
  else if format.length = 0 then w
  else
    let w := w.setBlocks b l (some format.length)
    if latestState (w.log b) l = .queued then w
    else if (w.link l).mtu ≠ 0 ∧ format.length > (w.link l).mtu then
      if format.fragments then w.addEntry b l action .suppressed else w
    else if b ∈ (w.link l).queue then w
    else if b ∈ (w.link l).inflight then w
    else
      let w := w.addEntry b l action .queued
      w.setLink l ((w.link l).addToQueue b format.length)

/-- What `cancel_bundle` comes to: nothing, a posted `BundleSendCancelledEvent`, or a call of the
convergence layer. -/
inductive CancelResult where
  | nothing
  | posted
  | convergenceLayer
deriving DecidableEq, Repr

def cancelBundle (w : Forwarding L B) (b : B) (l : L) : Forwarding L B × CancelResult :=
  if (w.link l).isDeleted then (w, .nothing)
  else
    match w.blocks b l with
    | none => (w, .nothing)
    | some len =>
        if b ∈ (w.link l).queue then (w.setLink l ((w.link l).delFromQueue b len), .posted)
        else if b ∈ (w.link l).inflight then (w, .convergenceLayer)
        else (w, .nothing)

/-- `BundleDaemon::handle_bundle_transmitted`, for the bytes sent and those of them that were sent
reliably. -/
def handleBundleTransmitted (retryReliableUnacked : Bool) (w : Forwarding L B) (b : B) (l : L)
    (bytesSent reliablySent : Nat) : Forwarding L B :=
  match w.blocks b l with
  | none => w
  | some len =>
      let w := w.setLink l (((w.link l).delFromInflight b len).delFromQueue b len)
      if retryReliableUnacked && (w.link l).isReliable && decide (bytesSent ≠ reliablySent) &&
          decide (reliablySent = 0) then
        (w.setLog b (update (w.log b) l .transmitFailed)).setBlocks b l none
      else
        let w := (w.setLog b (update (w.log b) l .transmitted)).setBlocks b l none
        if w.localCustody b then { w with timers := Function.update w.timers b (w.timers b ++ [l]) }
        else w

def handleBundleCancelled (w : Forwarding L B) (b : B) (l : L) : Forwarding L B :=
  match w.blocks b l with
  | none => w
  | some _ => (w.setBlocks b l none).setLog b (update (w.log b) l .cancelled)

def handleCustodyTimeout (w : Forwarding L B) (b : B) (l : L) : Forwarding L B :=
  if l ∈ w.timers b then
    { w with
      timers := Function.update w.timers b ((w.timers b).erase l)
      log := Function.update w.log b (update (w.log b) l .custodyTimeout) }
  else w

/-! ## What `queue_bundle` can do -/

/-- The results of `queue_bundle`: it refuses, it leaves blocks behind, or it makes an entry. -/
inductive Queued (w : Forwarding L B) (b : B) (l : L) (action : Action) (format : Format) :
    Forwarding L B → Prop
  | refused : Queued w b l action format w
  | left (hnone : w.blocks b l = none) (hpos : 0 < format.length)
      (hlate : latestState (w.log b) l = .queued ∨
        ((w.link l).mtu ≠ 0 ∧ format.length > (w.link l).mtu) ∨ b ∈ (w.link l).queue ∨
        b ∈ (w.link l).inflight) :
      Queued w b l action format (w.setBlocks b l (some format.length))
  | suppressed (hnone : w.blocks b l = none) (hpos : 0 < format.length)
      (hmtu : (w.link l).mtu ≠ 0 ∧ format.length > (w.link l).mtu) :
      Queued w b l action format
        ((w.setBlocks b l (some format.length)).addEntry b l action .suppressed)
  | queued (hnone : w.blocks b l = none) (hpos : 0 < format.length)
      (hq : b ∉ (w.link l).queue) (hi : b ∉ (w.link l).inflight) :
      Queued w b l action format
        (((w.setBlocks b l (some format.length)).addEntry b l action .queued).setLink l
          ((w.link l).addToQueue b format.length))

theorem queueBundle_queued (w : Forwarding L B) (b : B) (l : L) (action : Action) (format : Format) :
    Queued w b l action format (w.queueBundle b l action format) := by
  rw [queueBundle]
  split
  · exact .refused
  split
  · exact .refused
  rename_i hblocks
  split
  · exact .refused
  rename_i hlength
  have hnone : w.blocks b l = none := by
    by_contra h
    exact hblocks h
  have hpos := Nat.pos_of_ne_zero hlength
  dsimp only
  split
  · rename_i hlatest
    exact .left hnone hpos (.inl hlatest)
  split
  · rename_i hmtu
    split
    · exact .suppressed hnone hpos hmtu
    · exact .left hnone hpos (.inr (.inl hmtu))
  split
  · rename_i hq
    exact .left hnone hpos (.inr (.inr (.inl hq)))
  rename_i hq
  split
  · rename_i hi
    exact .left hnone hpos (.inr (.inr (.inr hi)))
  · rename_i hi
    exact .queued hnone hpos hq hi

/-! ## What the handlers leave -/

theorem handleBundleTransmitted_link (retry : Bool) (w : Forwarding L B) (b : B) (l : L)
    (bytesSent reliablySent : Nat) {len : Nat} (h : w.blocks b l = some len) :
    (w.handleBundleTransmitted retry b l bytesSent reliablySent).link =
      Function.update w.link l (((w.link l).delFromInflight b len).delFromQueue b len) := by
  simp only [handleBundleTransmitted, h]
  split
  · rfl
  · split <;> rfl

theorem handleBundleTransmitted_blocks (retry : Bool) (w : Forwarding L B) (b : B) (l : L)
    (bytesSent reliablySent : Nat) {len : Nat} (h : w.blocks b l = some len) :
    (w.handleBundleTransmitted retry b l bytesSent reliablySent).blocks =
      Function.update w.blocks b (Function.update (w.blocks b) l none) := by
  simp only [handleBundleTransmitted, h]
  split
  · rfl
  · split <;> rfl

theorem handleBundleCancelled_link (w : Forwarding L B) (b : B) (l : L) :
    (w.handleBundleCancelled b l).link = w.link := by
  rw [handleBundleCancelled]
  split <;> rfl

theorem handleBundleCancelled_blocks (w : Forwarding L B) (b : B) (l : L) :
    (w.handleBundleCancelled b l).blocks =
      Function.update w.blocks b (Function.update (w.blocks b) l none) := by
  rw [handleBundleCancelled]
  split
  · rename_i h
    rw [← h, Function.update_eq_self, Function.update_eq_self]
  · rfl

end Forwarding

end Dtn2
