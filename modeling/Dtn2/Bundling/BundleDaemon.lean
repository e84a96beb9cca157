import Mathlib.Data.List.Nodup
import Mathlib.Logic.Function.Basic

/-!
# Custody of bundles

The daemon takes custody of a bundle when it is received, and releases it when the bundle is delivered,
deleted or acknowledged by a custody signal. The bundles in custody are on a list of their own, apart
from the pending list.
-/

namespace Dtn2.BundleDaemon

/-- The fields of a `Bundle` that identify it, and those that say who has custody of it. A custody timer
is given by its link. -/
structure Bundle (E L : Type) where
  source : E
  creationTs : Nat × Nat
  isFragment : Bool
  fragOffset : Nat
  payloadLength : Nat
  custodyRequested : Bool
  custodian : E
  localCustody : Bool
  custodyTimers : List L
deriving DecidableEq, Repr

/-- `BundleDaemon::Params`, as far as the handlers below read them. -/
structure Params where
  earlyDeletion : Bool
  suppressDuplicates : Bool
  acceptCustody : Bool
deriving DecidableEq, Repr

/-- The bundle objects that the daemon has seen, and its two lists. -/
structure State (B E L : Type) where
  params : Params
  localEid : E
  nullEid : E
  bundle : B → Option (Bundle E L)
  pending : List B
  custody : List B

/-- `event_source_t`. A bundle object from the store comes with the custody flag it was stored with; all
others are new objects. -/
inductive EventSource where
  | peer
  | app
  | store (localCustody : Bool)
  | admin
  | fragmentation
  | router
  | cache
deriving DecidableEq, Repr

/-- An administrative bundle that the daemon generates, and whether the router lets it go at once. -/
structure Generated (B E : Type) where
  object : B
  creationTs : Nat × Nat
  payloadLength : Nat
  canDelete : Bool
deriving DecidableEq, Repr

/-- `BundleReceivedEvent`: the bundle as it is after reactive fragmentation, with what the validation, the
router and the clock say, and the administrative bundles that come of it. -/
structure Reception (B E : Type) where
  object : B
  source : EventSource
  sourceEid : E
  creationTs : Nat × Nat
  isFragment : Bool
  fragOffset : Nat
  payloadLength : Nat
  custodyRequested : Bool
  custodian : E
  accepted : Bool
  expired : Bool
  receiveReport : Option (Generated B E)
  deleteReport : Option (Generated B E)
  redundantSignal : Generated B E
  acceptSignal : Generated B E
  custodyReport : Option (Generated B E)
deriving DecidableEq, Repr

namespace Reception

variable {B E L : Type}

/-- The bundle that arrives. Custody timers are not stored. -/
def bundle (r : Reception B E) : Bundle E L where
  source := r.sourceEid
  creationTs := r.creationTs
  isFragment := r.isFragment
  fragOffset := r.fragOffset
  payloadLength := r.payloadLength
  custodyRequested := r.custodyRequested
  custodian := r.custodian
  localCustody := match r.source with
    | .store flag => flag
    | _ => false
  custodyTimers := []

end Reception

/-- `GbofId` with the outcome that a custody signal reports. -/
structure Signal (E : Type) where
  source : E
  creationTs : Nat × Nat
  isFragment : Bool
  fragLength : Nat
  fragOffset : Nat
  succeeded : Bool
  redundantReception : Bool
deriving DecidableEq, Repr

namespace State

variable {B E L : Type} [DecidableEq B] [DecidableEq E] [DecidableEq L]

omit [DecidableEq E] [DecidableEq L] in
def setBundle (s : State B E L) (b : B) (d : Bundle E L) : State B E L :=
  { s with bundle := Function.update s.bundle b (some d) }

omit [DecidableEq B] [DecidableEq E] [DecidableEq L] in
/-- `local_custody`, as a flag of the object. -/
def localCustody (s : State B E L) (b : B) : Bool :=
  match s.bundle b with
  | none => false
  | some d => d.localCustody

/-- The comparison of `find_duplicate`. -/
def isDuplicate (d d2 : Bundle E L) : Bool :=
  decide (d.source = d2.source) && decide (d.creationTs = d2.creationTs) &&
    decide (d.isFragment = d2.isFragment) && decide (d.fragOffset = d2.fragOffset) &&
    decide (d.payloadLength = d2.payloadLength)

/-- The loop of `find_duplicate` over the rest of the pending list. -/
def findDuplicateFrom (s : State B E L) (d : Bundle E L) (found : Option B) : List B → Option B
  | [] => found
  | b2 :: rest =>
      match s.bundle b2 with
      | none => s.findDuplicateFrom d found rest
      | some d2 =>
          if isDuplicate d d2 then
            if s.params.suppressDuplicates || d2.localCustody then some b2
            else s.findDuplicateFrom d (some b2) rest
          else s.findDuplicateFrom d found rest

def findDuplicate (s : State B E L) (d : Bundle E L) : Option B :=
  s.findDuplicateFrom d none s.pending

/-- A status report or a custody signal is received as soon as it is generated, from `EVENTSRC_ADMIN`. It
does not request custody. -/
def generate (s : State B E L) (g : Generated B E) : State B E L :=
  if s.bundle g.object ≠ none then s
  else
    let d : Bundle E L := ⟨s.localEid, g.creationTs, false, 0, g.payloadLength, false, s.nullEid, false, []⟩
    let s' := s.setBundle g.object d
    if (s.findDuplicate d).isSome && s.params.suppressDuplicates then s'
    else if s.params.earlyDeletion && g.canDelete then s'
    else { s' with pending := s.pending ++ [g.object] }

/-- `generate_status_report`, where the bundle asks for it. -/
def generateStatusReport (s : State B E L) (report : Option (Generated B E)) : State B E L :=
  match report with
  | none => s
  | some g => s.generate g

def generateCustodySignal (s : State B E L) (b : B) (signal : Generated B E) : State B E L :=
  match s.bundle b with
  | none => s
  | some d =>
      if d.localCustody then s
      else if d.custodian = s.nullEid then s
      else s.generate signal

def acceptCustody (s : State B E L) (b : B) (signal : Generated B E) (report : Option (Generated B E)) :
    State B E L :=
  match s.bundle b with
  | none => s
  | some d =>
      if d.localCustody then s
      else if d.custodian = s.localEid then s
      else
        let s := s.generateCustodySignal b signal
        let s := s.setBundle b { d with custodian := s.localEid, localCustody := true }
        { s with custody := s.custody ++ [b] }.generateStatusReport report

omit [DecidableEq E] [DecidableEq L] in
/-- `BundleDaemon::release_custody`, with `cancel_custody_timers`. -/
def releaseCustody (s : State B E L) (b : B) : State B E L :=
  match s.bundle b with
  | none => s
  | some d =>
      if !d.localCustody then s
      else
        let s := s.setBundle b
          { d with custodyTimers := [], custodian := s.nullEid, localCustody := false }
        { s with custody := s.custody.erase b }

def deleteBundle (s : State B E L) (b : B) (report : Option (Generated B E)) : State B E L :=
  let s := if s.localCustody b then s.releaseCustody b else s
  { s with pending := s.pending.erase b }.generateStatusReport report

def tryToDelete (s : State B E L) (b : B) (canDelete : Bool) (report : Option (Generated B E)) :
    State B E L :=
  if b ∉ s.pending then s
  else if !s.params.earlyDeletion then s
  else if !canDelete then s
  else s.deleteBundle b report

/-- The end of `handle_bundle_received`, from `add_to_pending` on. -/
def takeIn (s : State B E L) (r : Reception B E) (duplicate : Option B) : State B E L :=
  let s := { s with pending := s.pending ++ [r.object] }
  if r.expired then s
  else if r.custodyRequested && s.params.acceptCustody &&
      (duplicate.elim true fun b2 => !s.localCustody b2) then
    match r.source with
    | .store flag => if flag then { s with custody := s.custody ++ [r.object] } else s
    | _ => s.acceptCustody r.object r.acceptSignal r.custodyReport
  else s

/-- `BundleDaemon::handle_bundle_received`. An object is received once. -/
def handleBundleReceived (s : State B E L) (r : Reception B E) : State B E L :=
  if s.bundle r.object ≠ none then s
  else
    let s := s.setBundle r.object r.bundle
    let s := if r.source = .peer then s.generateStatusReport r.receiveReport else s
    if r.source = .peer ∧ !r.accepted then s.deleteBundle r.object r.deleteReport
    else
      let duplicate := s.findDuplicate r.bundle
      match duplicate with
      | none => s.takeIn r none
      | some b2 =>
          let redundant := r.custodyRequested && s.localCustody b2
          let s := if redundant then s.generateCustodySignal r.object r.redundantSignal else s
          if s.params.suppressDuplicates then s
          else if redundant then s
          else s.takeIn r (some b2)

/-- `BundleDaemon::handle_bundle_transmitted`, past its early returns: a timer is started on the link. -/
def handleBundleTransmitted (s : State B E L) (b : B) (l : L) (report : Option (Generated B E)) :
    State B E L :=
  let s := s.generateStatusReport report
  match s.bundle b with
  | none => s
  | some d =>
      if d.localCustody then s.setBundle b { d with custodyTimers := d.custodyTimers ++ [l] } else s

def handleBundleDelivered (s : State B E L) (b : B) (report : Option (Generated B E))
    (signal : Generated B E) : State B E L :=
  let s := s.generateStatusReport report
  match s.bundle b with
  | none => s
  | some d =>
      if !d.custodyRequested then s
      else if d.localCustody then s.releaseCustody b
      else s.generateCustodySignal b signal

/-- `GbofId::equals` on a bundle of the list. -/
def matchesSignal (signal : Signal E) (d : Bundle E L) : Bool :=
  decide (signal.creationTs = d.creationTs) && decide (signal.isFragment = d.isFragment) &&
    (!d.isFragment ||
      decide (signal.fragLength = d.payloadLength) && decide (signal.fragOffset = d.fragOffset)) &&
    decide (signal.source = d.source)

def handleCustodySignal (s : State B E L) (signal : Signal E) (canDelete : Bool)
    (report : Option (Generated B E)) : State B E L :=
  match s.custody.find? fun b => (s.bundle b).elim false (matchesSignal signal) with
  | none => s
  | some b =>
      if signal.succeeded || signal.redundantReception then
        (s.releaseCustody b).tryToDelete b canDelete report
      else s

/-- `BundleDaemon::handle_custody_timeout`: the timer of the link is taken off the bundle. -/
def handleCustodyTimeout (s : State B E L) (b : B) (l : L) : State B E L :=
  match s.bundle b with
  | none => s
  | some d => s.setBundle b { d with custodyTimers := d.custodyTimers.erase l }

end State

/-- The events that the daemon handles. Expiration, an explicit request, the reassembly of fragments and
a cancellation by an application all delete a bundle. -/
inductive Event (B E L : Type) where
  | setParams (params : Params)
  | received (r : Reception B E)
  | transmitted (b : B) (l : L) (report : Option (Generated B E))
  | delivered (b : B) (report : Option (Generated B E)) (signal : Generated B E)
  | delete (b : B) (report : Option (Generated B E))
  | completed (b : B) (canDelete : Bool) (report : Option (Generated B E))
  | custodySignal (signal : Signal E) (canDelete : Bool) (report : Option (Generated B E))
  | custodyTimeout (b : B) (l : L)
deriving DecidableEq, Repr

namespace State

variable {B E L : Type} [DecidableEq B] [DecidableEq E] [DecidableEq L]

/-- `BundleDaemon::dispatch_event`. -/
def handleEvent (s : State B E L) : Event B E L → State B E L
  | .setParams params => { s with params := params }
  | .received r => s.handleBundleReceived r
  | .transmitted b l report => s.handleBundleTransmitted b l report
  | .delivered b report signal => s.handleBundleDelivered b report signal
  | .delete b report => s.deleteBundle b report
  | .completed b canDelete report => s.tryToDelete b canDelete report
  | .custodySignal signal canDelete report => s.handleCustodySignal signal canDelete report
  | .custodyTimeout b l => s.handleCustodyTimeout b l

def run (s : State B E L) (events : List (Event B E L)) : State B E L :=
  events.foldl handleEvent s

end State

end Dtn2.BundleDaemon
