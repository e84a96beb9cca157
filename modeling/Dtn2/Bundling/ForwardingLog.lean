import Dtn2.Bundling.Core

/-!
# The forwarding log

A bundle keeps a log of what has been done with it. The newest entry for a link is the one that the
daemon rewrites when it learns more. Link names are only compared, so their type is left open.
-/

namespace Dtn2

namespace ForwardingInfo

/-- `state_t`. -/
inductive State where
  | none
  | queued
  | transmitted
  | transmitFailed
  | cancelled
  | custodyTimeout
  | pendingDelivery
  | delivered
  | suppressed
  | received
deriving DecidableEq, Repr

def State.bit : State → Nat
  | .none => 0
  | .queued => 1
  | .transmitted => 2
  | .transmitFailed => 4
  | .cancelled => 8
  | .custodyTimeout => 16
  | .pendingDelivery => 32
  | .delivered => 64
  | .suppressed => 128
  | .received => 1024

/-- `QUEUED` or `TRANSMITTED`. -/
def State.isActive (state : State) : Bool := decide (state = .queued) || decide (state = .transmitted)

/-- `action_t`. -/
inductive Action where
  | invalid
  | forward
  | copy
deriving DecidableEq, Repr

def Action.bit : Action → Nat
  | .invalid => 0
  | .forward => 1
  | .copy => 2

def anyAction : Nat := 0xffffffff

end ForwardingInfo

open ForwardingInfo in
/-- `ForwardingInfo`. An entry for a registration or an endpoint has no link. -/
structure ForwardingInfo (L : Type) where
  state : State
  action : Action
  linkName : Option L
  remoteEid : Bytes
deriving DecidableEq, Repr

namespace ForwardingLog

open ForwardingInfo

variable {L : Type} [DecidableEq L]

def wildcardEid : Bytes := ascii ['*', ':', '*']

def getLatestEntry (log : List (ForwardingInfo L)) (link : L) : Option (ForwardingInfo L) :=
  log.reverse.find? fun info => decide (info.linkName = some link)

def latestState (log : List (ForwardingInfo L)) (link : L) : State :=
  match getLatestEntry log link with
  | some info => info.state
  | none => .none

omit [DecidableEq L] in
/-- `get_count`, for states and actions. -/
def getCount (log : List (ForwardingInfo L)) (states actions : Nat) : Nat :=
  log.countP fun info =>
    decide (info.state.bit &&& states ≠ 0) && decide (info.action.bit &&& actions ≠ 0)

omit [DecidableEq L] in
/-- `get_count` for a remote endpoint. -/
def getCountEid (log : List (ForwardingInfo L)) (eid : Bytes) (states actions : Nat) : Nat :=
  log.countP fun info =>
    (decide (info.remoteEid = wildcardEid) || decide (info.remoteEid = eid)) &&
      (decide (info.state.bit &&& states ≠ 0) && decide (info.action.bit &&& actions ≠ 0))

omit [DecidableEq L] in
def addEntry (log : List (ForwardingInfo L)) (link : L) (remoteEid : Bytes) (action : Action)
    (state : State) : List (ForwardingInfo L) :=
  log ++ [⟨state, action, some link, remoteEid⟩]

/-- The newest entry of a link gets a new state; the log is given with the newest entry first. -/
def updateFirst (link : L) (state : State) : List (ForwardingInfo L) → List (ForwardingInfo L)
  | [] => []
  | info :: rest =>
      if info.linkName = some link then { info with state := state } :: rest
      else info :: updateFirst link state rest

def update (log : List (ForwardingInfo L)) (link : L) (state : State) : List (ForwardingInfo L) :=
  (updateFirst link state log.reverse).reverse

/-! ## The newest entry -/

/-- An entry that says that the bundle has gone, or is about to go, to its only next hop. -/
def isForwarded (info : ForwardingInfo L) : Bool :=
  info.state.isActive && decide (info.action = .forward)

/-- The entries that `should_fwd` counts for a bundle with a single destination. -/
def forwarded (log : List (ForwardingInfo L)) : Nat := log.countP isForwarded

omit [DecidableEq L] in
theorem getCount_forward (log : List (ForwardingInfo L)) :
    getCount log (State.transmitted.bit ||| State.queued.bit) Action.forward.bit = forwarded log := by
  refine List.countP_congr fun info _ => ?_
  obtain ⟨state, action, linkName, remoteEid⟩ := info
  cases state <;> cases action <;> simp [isForwarded, State.isActive, State.bit, Action.bit]

theorem getLatestEntry_addEntry (log : List (ForwardingInfo L)) (link l : L) (eid : Bytes)
    (action : Action) (state : State) :
    getLatestEntry (addEntry log link eid action state) l =
      if link = l then some ⟨state, action, some link, eid⟩ else getLatestEntry log l := by
  rw [getLatestEntry, addEntry, List.reverse_append, List.reverse_singleton, List.singleton_append,
    List.find?_cons]
  by_cases h : link = l
  · simp [h]
  · simp [h, getLatestEntry]

@[simp] theorem latestState_addEntry_self (log : List (ForwardingInfo L)) (link : L) (eid : Bytes)
    (action : Action) (state : State) :
    latestState (addEntry log link eid action state) link = state := by
  rw [latestState, getLatestEntry_addEntry, if_pos rfl]

theorem latestState_addEntry_of_ne (log : List (ForwardingInfo L)) {link l : L} (h : link ≠ l)
    (eid : Bytes) (action : Action) (state : State) :
    latestState (addEntry log link eid action state) l = latestState log l := by
  rw [latestState, getLatestEntry_addEntry, if_neg h, latestState]

theorem find?_updateFirst (link l : L) (state : State) (log : List (ForwardingInfo L)) :
    (updateFirst link state log).find? (fun info => decide (info.linkName = some l)) =
      if link = l then
        (log.find? fun info => decide (info.linkName = some l)).map fun info =>
          { info with state := state }
      else log.find? fun info => decide (info.linkName = some l) := by
  induction log with
  | nil => simp [updateFirst]
  | cons info rest ih =>
      rw [updateFirst]
      by_cases hinfo : info.linkName = some link
      · rw [if_pos hinfo]
        by_cases hl : link = l
        · simp [hinfo, hl]
        · simp [hinfo, hl]
      · rw [if_neg hinfo, List.find?_cons, List.find?_cons, ih]
        by_cases hl : link = l
        · subst hl
          simp [hinfo]
        · simp only [if_neg hl]

theorem latestState_update_of_ne (log : List (ForwardingInfo L)) {link l : L} (h : link ≠ l)
    (state : State) : latestState (update log link state) l = latestState log l := by
  rw [latestState, latestState, getLatestEntry, getLatestEntry, update, List.reverse_reverse,
    find?_updateFirst, if_neg h]

theorem latestState_update_self {log : List (ForwardingInfo L)} {link : L}
    (h : latestState log link ≠ .none) (state : State) :
    latestState (update log link state) link = state := by
  rw [latestState, getLatestEntry] at h
  rw [latestState, getLatestEntry, update, List.reverse_reverse, find?_updateFirst, if_pos rfl]
  cases hfind : log.reverse.find? fun info => decide (info.linkName = some link) with
  | none => simp [hfind] at h
  | some info => rfl

omit [DecidableEq L] in
theorem forwarded_addEntry (log : List (ForwardingInfo L)) (link : L) (eid : Bytes) (action : Action)
    (state : State) :
    forwarded (addEntry log link eid action state) =
      forwarded log + if state.isActive = true ∧ action = .forward then 1 else 0 := by
  rw [forwarded, addEntry, List.countP_append, List.countP_singleton, forwarded]
  simp [isForwarded]

theorem countP_updateFirst_le {link : L} {state : State} (log : List (ForwardingInfo L))
    (h : state.isActive = true → ∀ info, log.find? (fun info => decide (info.linkName = some link)) =
      some info → info.state.isActive = true) :
    (updateFirst link state log).countP isForwarded ≤ log.countP isForwarded := by
  induction log with
  | nil => exact Nat.le_refl _
  | cons info rest ih =>
      rw [updateFirst]
      by_cases hinfo : info.linkName = some link
      · have hactive : state.isActive = true → info.state.isActive = true :=
          fun hs => h hs info (by simp [hinfo])
        rw [if_pos hinfo, List.countP_cons, List.countP_cons]
        refine Nat.add_le_add_left ?_ _
        simp only [isForwarded, Bool.and_eq_true]
        split
        · rename_i hnew
          rw [if_pos ⟨hactive hnew.1, hnew.2⟩]
        · exact Nat.zero_le _
      · rw [if_neg hinfo, List.countP_cons, List.countP_cons]
        refine Nat.add_le_add_right (ih fun hs info' hfind => h hs info' ?_) _
        rw [List.find?_cons_of_neg (by simp [hinfo]), hfind]

/-- A new state adds no forwarded entry, unless it makes one out of another. -/
theorem forwarded_update_le {log : List (ForwardingInfo L)} {link : L} {state : State}
    (h : state.isActive = true → (latestState log link).isActive = true) :
    forwarded (update log link state) ≤ forwarded log := by
  rw [forwarded, forwarded, update, List.countP_reverse, ← log.countP_reverse]
  refine countP_updateFirst_le log.reverse fun hs info hfind => ?_
  have hlatest := h hs
  rw [latestState, getLatestEntry, hfind] at hlatest
  exact hlatest

end ForwardingLog

end Dtn2
