import Dtn2.Bundling.BundleActions

/-!
# The table based router

The router forwards a bundle to the links of its matching routes, or defers it until a link can take
it. It is called after the daemon has handled an event. What the route table, the reception cache and
the formatting of bundles give during an event is left open.
-/

namespace Dtn2

open ForwardingInfo ForwardingLog

/-- `RouteEntry`: the link and the action. -/
structure RouteEntry (L : Type) where
  link : L
  action : Action
deriving DecidableEq, Repr

namespace TableBasedRouter

variable {L B : Type} [DecidableEq L] [DecidableEq B]

/-- What the router meets during an event: the lengths of formatted bundles, the matching routes in the
order of `sort_routes`, and the previous hops in the reception cache. -/
structure Env (L B : Type) where
  format : B → L → Format
  matching : B → List (RouteEntry L)
  prevhop : B → Option Bytes

structure State (L B : Type) where
  daemon : Forwarding L B
  deferred : L → Option (List (B × Action))
  pending : List B

/-- `BundleRouter::should_fwd`. -/
def shouldFwdLink (singletonDest : B → Bool) (w : Forwarding L B) (b : B) (l : L) (action : Action) :
    Bool :=
  let state := latestState (w.log b) l
  if state = .transmitted ∨ state = .queued then false
  else if (w.link l).remoteEid ≠ EndpointID.dtnNone ∧
      0 < getCountEid (w.log b) (w.link l).remoteEid (State.transmitted.bit ||| State.queued.bit)
        anyAction then false
  else if (w.link l).remoteEid ≠ EndpointID.dtnNone ∧
      0 < getCountEid (w.log b) (w.link l).remoteEid State.suppressed.bit anyAction then false
  else if singletonDest b = true ∧ action = .forward ∧
      0 < getCount (w.log b) (State.transmitted.bit ||| State.queued.bit) action.bit then false
  else true

/-- `TableBasedRouter::should_fwd`: a bundle does not go back to where it came from. -/
def shouldFwd (singletonDest : B → Bool) (env : Env L B) (w : Forwarding L B) (b : B)
    (route : RouteEntry L) : Bool :=
  if env.prevhop b = some (w.link route.link).remoteEid ∧
      (w.link route.link).remoteEid ≠ EndpointID.dtnNone then false
  else shouldFwdLink singletonDest w b route.link route.action

namespace State

/-- `open_link`, when a message is intended for the link. -/
def openLink (r : State L B) (l : L) : State L B :=
  let link := r.daemon.link l
  if link.isAvailable && !link.isOpen && !link.isOpening then
    { r with daemon := r.daemon.setLink l link.openLink }
  else r

def queueBundle (env : Env L B) (r : State L B) (b : B) (l : L) (action : Action) : State L B :=
  { r with daemon := r.daemon.queueBundle b l action (env.format b l) }

omit [DecidableEq B] in
def setDeferred (r : State L B) (l : L) (deferred : List (B × Action)) : State L B :=
  { r with deferred := Function.update r.deferred l (some deferred) }

omit [DecidableEq L] in
/-- The bundle is on the deferred list of the link. -/
def isDeferred (r : State L B) (b : B) (l : L) : Bool :=
  match r.deferred l with
  | none => false
  | some deferred => decide (b ∈ deferred.map Prod.fst)

def fwdToNexthop (env : Env L B) (r : State L B) (b : B) (route : RouteEntry L) : State L B :=
  let r := r.openLink route.link
  let link := r.daemon.link route.link
  if link.isOpen && !link.queueIsFull then r.queueBundle env b route.link route.action
  else
    match r.deferred route.link with
    | none => r
    | some deferred =>
        if b ∈ deferred.map Prod.fst then r
        else r.setDeferred route.link (deferred ++ [(b, route.action)])

/-- The loop of `check_next_hop` over the deferred bundles. -/
def checkLoop (singletonDest : B → Bool) (env : Env L B) (l : L) :
    List (B × Action) → State L B → State L B
  | [], r => r
  | (b, action) :: rest, r =>
      if (r.daemon.link l).queueIsFull then r
      else if !shouldFwdLink singletonDest r.daemon b l action then
        checkLoop singletonDest env l rest r
      else
        let r := r.openLink l
        let r := r.setDeferred l (((r.deferred l).getD []).filter fun d => !decide (d.1 = b))
        checkLoop singletonDest env l rest (r.queueBundle env b l action)

def checkNextHop (singletonDest : B → Bool) (env : Env L B) (r : State L B) (l : L) : State L B :=
  if !(r.daemon.link l).isOpen then r
  else if !(r.daemon.link l).queueHasSpace then r
  else checkLoop singletonDest env l ((r.deferred l).getD []) r

/-- One round of the loop of `route_bundle`. -/
def routeOne (singletonDest : B → Bool) (env : Env L B) (b : B) (r : State L B)
    (route : RouteEntry L) : State L B :=
  if !shouldFwd singletonDest env r.daemon b route then r
  else if r.deferred route.link = none then r
  else if r.isDeferred b route.link then r
  else (r.checkNextHop singletonDest env route.link).fwdToNexthop env b route

def routeBundle (singletonDest : B → Bool) (env : Env L B) (r : State L B) (b : B) : State L B :=
  if 0 < getCountEid (r.daemon.log b) wildcardEid State.suppressed.bit anyAction then r
  else (env.matching b).foldl (routeOne singletonDest env b) r

def rerouteAllBundles (singletonDest : B → Bool) (env : Env L B) (r : State L B) : State L B :=
  r.pending.foldl (routeBundle singletonDest env) r

omit [DecidableEq L] in
def removeFromDeferred (r : State L B) (b : B) (actions : Nat) : State L B :=
  { r with
    deferred := fun l => (r.deferred l).map fun deferred =>
      deferred.filter fun d => !(decide (d.1 = b) && decide (d.2.bit &&& actions ≠ 0)) }

end State

/-- The events, with what the daemon or a convergence layer decides: the link that a bundle came from
and whether the router goes on to route it; whether a route to the next hop is added; the state of a
link that goes down and the bundles that go back to its queue. -/
inductive Event (L B : Type) where
  | bundleReceived (b : B) (source : Option L) (route : Bool)
  | routeAdd
  | linkCreated (l : L) (addRoute : Bool)
  | linkAvailable (l : L) (openIt : Bool)
  | contactUp (l : L) (addRoute : Bool)
  | contactDown (l : L) (state : LinkState) (back : List B)
  | bundleTransmitted (b : B) (l : L) (bytesSent reliablySent : Nat)
  | bundleCancelled (b : B) (l : L) (expired : Bool)
  | custodyTimeout (b : B) (l : L)
  | startNextBundle (l : L)
  | cancelBundle (b : B) (l : L)
  | acceptCustody (b : B)
  | releaseCustody (b : B)
  | deleteBundle (b : B)

namespace State

/-- `add_to_pending`, and the entry for the link that the bundle came from. -/
def receive (r : State L B) (b : B) (source : Option L) : State L B :=
  let r := { r with pending := r.pending ++ [b] }
  match source with
  | none => r
  | some l => { r with daemon := r.daemon.addEntry b l .forward .received }

/-- A bundle goes back to the queue when a contact goes down. -/
def putBack (l : L) (w : Forwarding L B) (b : B) : Forwarding L B :=
  match w.blocks b l with
  | none => w
  | some len =>
      if b ∈ (w.link l).inflight then
        w.setLink l (((w.link l).delFromInflight b len).addToQueue b len)
      else w

/-- A convergence layer takes the first bundle of the queue. -/
def startNextBundle (w : Forwarding L B) (l : L) : Forwarding L B :=
  match (w.link l).queue.head? with
  | none => w
  | some b =>
      match w.blocks b l with
      | none => w
      | some len => w.setLink l (((w.link l).addToInflight b len).delFromQueue b len)

omit [DecidableEq B] in
def setState (r : State L B) (l : L) (state : LinkState) : State L B :=
  { r with daemon := r.daemon.setLink l { r.daemon.link l with state := state } }

/-- The daemon handles an event, and then the router. A new bundle has an empty forwarding log. -/
def handle (singletonDest : B → Bool) (retryReliableUnacked : Bool) (env : Env L B) (r : State L B) :
    Event L B → State L B
  | .bundleReceived b source route =>
      if r.daemon.log b = [] then
        let r := r.receive b source
        if route then r.routeBundle singletonDest env b else r
      else r
  | .routeAdd => r.rerouteAllBundles singletonDest env
  | .linkCreated l addRoute =>
      let r := r.setDeferred l []
      let r := if addRoute then r.rerouteAllBundles singletonDest env else r
      r.rerouteAllBundles singletonDest env
  | .linkAvailable l openIt =>
      let r := r.setState l .available
      let r := if openIt then r.openLink l else r
      r.checkNextHop singletonDest env l
  | .contactUp l addRoute =>
      let r := r.setState l .open
      let r := if addRoute then r.rerouteAllBundles singletonDest env else r
      r.checkNextHop singletonDest env l
  | .contactDown l state back =>
      { r with daemon := back.foldl (putBack l) r.daemon }.setState l state
  | .bundleTransmitted b l bytesSent reliablySent =>
      let daemon := r.daemon.handleBundleTransmitted retryReliableUnacked b l bytesSent reliablySent
      ({ r with daemon := daemon }.removeFromDeferred b Action.forward.bit).checkNextHop
        singletonDest env l
  | .bundleCancelled b l expired =>
      let r := { r with daemon := r.daemon.handleBundleCancelled b l }
      if expired then r else r.routeBundle singletonDest env b
  | .custodyTimeout b l =>
      { r with daemon := r.daemon.handleCustodyTimeout b l }.routeBundle singletonDest env b
  | .startNextBundle l => { r with daemon := startNextBundle r.daemon l }
  | .cancelBundle b l => { r with daemon := (r.daemon.cancelBundle b l).1 }
  | .acceptCustody b =>
      { r with daemon := { r.daemon with
        localCustody := Function.update r.daemon.localCustody b true } }
  | .releaseCustody b =>
      { r with daemon := { r.daemon with
        localCustody := Function.update r.daemon.localCustody b false
        timers := Function.update r.daemon.timers b [] } }
  | .deleteBundle b => { r with pending := r.pending.erase b }.removeFromDeferred b anyAction

def run (singletonDest : B → Bool) (retryReliableUnacked : Bool) (r : State L B)
    (events : List (Env L B × Event L B)) : State L B :=
  events.foldl (fun r e => r.handle singletonDest retryReliableUnacked e.1 e.2) r

end State

end TableBasedRouter

end Dtn2
