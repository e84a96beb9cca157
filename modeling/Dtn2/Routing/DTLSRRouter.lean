import Dtn2.Bundling.ForwardingLog
import Dtn2.Framework.BigEndian
import Dtn2.Framework.Decimal
import Dtn2.Routing.MultiGraph

/-!
# The link state router

The router keeps a graph of the nodes it has heard of. The out-edges of the local node follow the
contacts and the registrations, those of every other node the announcements (LSAs) that it floods.
After each change the route of every node is computed anew. Times are in microseconds.
-/

namespace Dtn2

namespace DTLSR

structure LinkParams where
  state : Nat
  cost : Nat
  delay : Nat
  bw : Nat
  qcount : Nat
  qsize : Nat
deriving DecidableEq, Repr

def linkUp : Nat := 1

def linkDown : Nat := 2

def LinkParams.new : LinkParams := ⟨linkUp, 0, 0, 0, 0, 0⟩

/-- `DTLSR::LinkState`, one link of an announcement. -/
structure LinkState where
  dest : Bytes
  id : Bytes
  elapsed : Nat
  params : LinkParams
deriving DecidableEq, Repr

structure LSA where
  seqno : Nat
  links : List LinkState
deriving DecidableEq, Repr

def msgLsa : UInt8 := 1

end DTLSR

namespace DTLSRRouter

open DTLSR ForwardingInfo

/-- What the router uses of the support library: the query value `area` of an endpoint id, the route
pattern of a node (`EndpointIDPattern` with the service tag `*`), whether an endpoint id contains
another, the serialization of announcements, and the priority queue. -/
structure Library where
  area : Bytes → Bytes
  pattern : Bytes → EndpointID
  subsume : Bytes → Bytes → Bool
  subsume_self : ∀ eid, subsume eid eid = true
  marshal : LSA → Bytes
  unmarshal : Bytes → Option LSA
  queue : MultiGraph.Queue

/-- The network form of a string: its length in four bytes, and the string. -/
def marshalString (str : Bytes) : Bytes := Framework.BigEndian.encode 4 str.length ++ str

/-- The network form of a link of an announcement. -/
def marshalLink (ls : DTLSR.LinkState) : Bytes :=
  marshalString ls.dest ++ marshalString ls.id ++ Framework.BigEndian.encode 4 ls.elapsed ++
    UInt8.ofNat ls.params.state :: [ls.params.cost, ls.params.delay, ls.params.bw, ls.params.qcount,
      ls.params.qsize].flatMap (Framework.BigEndian.encode 4)

/-- A small instance. There are no areas, patterns are valid as in `Oasys.plain`, an endpoint id
contains itself only, and of the announcements in network form a few are known. -/
def Library.plain (known : List LSA) : Library where
  area _ := []
  pattern := Oasys.plain.assign
  subsume a b := decide (a = b)
  subsume_self _ := decide_eq_true rfl
  marshal lsa := Framework.BigEndian.encode 8 lsa.seqno ++
    Framework.BigEndian.encode 4 lsa.links.length ++ lsa.links.flatMap marshalLink
  unmarshal bs := known.find? fun lsa =>
    decide (Framework.BigEndian.encode 8 lsa.seqno ++
      Framework.BigEndian.encode 4 lsa.links.length ++ lsa.links.flatMap marshalLink = bs)
  queue := MultiGraph.Queue.plain

/-- `weight_fn_t`. -/
inductive WeightFn where
  | cost
  | delay
  | estimatedDelay
deriving DecidableEq, Repr

/-- `DTLSRConfig` and the local endpoint id. A node whose endpoint id is not in the scheme `dtn` does
not come up (`initialize`). -/
structure Config where
  localEid : Bytes
  isDtn : EndpointID.schemeStr ⟨localEid, true⟩ = ascii "dtn".toList
  area : Bytes
  weightFn : WeightFn
  weightShift : Nat
  lsaInterval : Nat
  minLsaInterval : Nat
  keepDownLinks : Bool

/-- The node `dtn://a` with the default configuration, but with a minimal interval of an hour between
its announcements. -/
def Config.sample : Config where
  localEid := ascii "dtn://a".toList
  isDtn := by decide
  area := []
  weightFn := .estimatedDelay
  weightShift := 0
  lsaInterval := 3600
  minLsaInterval := 3600
  keepDownLinks := true

structure NodeInfo where
  lastLsaSeqno : Nat
  lastLsaCreationTs : Nat
deriving DecidableEq, Repr, Inhabited

def NodeInfo.new : NodeInfo := ⟨0, 0⟩

structure EdgeInfo where
  id : Bytes
  params : LinkParams
  lastUpdate : Nat
  isRegistration : Bool
deriving DecidableEq, Repr

structure LsaBundle where
  bundleid : Nat
  source : Bytes
  dest : Bytes
  seconds : Nat
  payload : Bytes
deriving DecidableEq, Repr

/-- A link of the contact manager. -/
structure LinkInfo where
  name : Bytes
  remoteEid : Bytes
  cost : Nat
deriving DecidableEq, Repr

/-- What an event meets: the time, the queues of the links (`bundles_queued` and `bytes_queued`), and
the id and creation time that a new bundle gets. -/
structure Env where
  now : Nat
  queued : Bytes → Nat × Nat
  bundleid : Nat
  seconds : Nat

/-- An event at time zero. -/
def Env.sample : Env := ⟨0, fun _ => (0, 0), 0, 0⟩

/-- The router. The routes are the dynamic entries of the route table, `posted` are the announcements
handed to the daemon. -/
structure State where
  graph : MultiGraph NodeInfo EdgeInfo
  currentLsas : List LsaBundle
  fwdlog : Nat → List (ForwardingInfo Bytes)
  routes : List (EndpointID × Bytes)
  links : List LinkInfo
  delayedPending : Bool
  lastLsaTransmit : Nat
  posted : List LsaBundle

/-- `local_node_`, the first node of the graph. -/
def localNode : Nat := 0

/-- The seconds between two times, as `u_int32_t`. -/
def elapsedSec (now last : Nat) : Nat := (((now : Int) - last) / 1000000 % 2 ^ 32).toNat

/-- The milliseconds between two times, as `u_int32_t`. -/
def elapsedMs (now last : Nat) : Nat := (((now : Int) - last) / 1000 % 2 ^ 32).toNat

def costWeight (info : EdgeInfo) : Nat :=
  if info.params.state = linkDown then 0xffffffff else info.params.cost

def delayWeight (cfg : Config) (now : Nat) (info : EdgeInfo) : Nat :=
  if cfg.lsaInterval ≠ 0 ∧ 2 * cfg.lsaInterval % 2 ^ 32 < elapsedSec now info.lastUpdate then
    0xffffffff
  else if info.params.state = linkDown then 0xffffffff
  else info.params.delay

def estimatedDelayWeight (cfg : Config) (now : Nat) (info : EdgeInfo) : Nat :=
  if info.params.state = linkDown then
    min (((elapsedSec now info.lastUpdate + 5) % 2 ^ 32) >>> cfg.weightShift) (24 * 60 * 60)
  else
    let qdelay := (info.params.qcount + 1) % 2 ^ 32 * info.params.delay % 2 ^ 32 / 1000
    let bwdelay := if info.params.bw ≠ 0 then info.params.qsize / info.params.bw else 0
    (qdelay + bwdelay) % 2 ^ 32

def weight (cfg : Config) (now : Nat) (e : Edge EdgeInfo) : Nat :=
  match cfg.weightFn with
  | .cost => costWeight e.info
  | .delay => delayWeight cfg now e.info
  | .estimatedDelay => estimatedDelayWeight cfg now e.info

namespace State

/-- The router after `initialize`. The forwarding logs are what the daemon has put into them when the
bundles are delivered. -/
def initial (cfg : Config) (fwdlog : Nat → List (ForwardingInfo Bytes)) : State where
  graph := MultiGraph.empty.addNode cfg.localEid NodeInfo.new
  currentLsas := []
  fwdlog := fwdlog
  routes := []
  links := []
  delayedPending := false
  lastLsaTransmit := 0
  posted := []

def findLink (s : State) (name : Bytes) : Option LinkInfo :=
  s.links.find? fun l => decide (l.name = name)

/-- A contact or a new link: the contact manager knows the link. -/
def setLink (s : State) (link : LinkInfo) : State :=
  { s with links := link :: s.links.filter fun l => decide (l.name ≠ link.name) }

def setGraph (s : State) (graph : MultiGraph NodeInfo EdgeInfo) : State := { s with graph := graph }

/-- A node is looked up, and added when it is missing. -/
def findOrAdd (s : State) (id : Bytes) : State × Nat :=
  match s.graph.findNode id with
  | some n => (s, n)
  | none => (s.setGraph (s.graph.addNode id NodeInfo.new), s.graph.count)

/-- The entry `SUPPRESSED` for an endpoint in the forwarding log of a bundle. -/
def suppress (s : State) (bundleid : Nat) (eid : Bytes) : State :=
  { s with
    fwdlog := Function.update s.fwdlog bundleid
      (s.fwdlog bundleid ++ [⟨.suppressed, .forward, none, eid⟩]) }

/-- `BundleList::push_back` on the list of the current announcements. -/
def pushCurrent (s : State) (b : LsaBundle) : State :=
  if b ∈ s.currentLsas then s else { s with currentLsas := s.currentLsas ++ [b] }

def setLastLsa (s : State) (node seqno seconds : Nat) : State :=
  s.setGraph (s.graph.modify node fun n => { n with info := ⟨seqno, seconds⟩ })

/-- The loop of `update_current_lsa`: the current announcement of the node is taken off. -/
def dropStale (s : State) (node : Nat) : Exec (State × Bool) :=
  match s.currentLsas.find? fun c => decide (c.source = (s.graph.node node).id) with
  | none => pure (s, false)
  | some stale =>
      let s' := { s with currentLsas :=
        s.currentLsas.eraseP fun c => decide (c.source = (s.graph.node node).id) }
      if (s.graph.node node).info.lastLsaSeqno = 0 then .error (.fault .panic)
      else pure (s'.suppress stale.bundleid ForwardingLog.wildcardEid, true)

def updateCurrentLsa (s : State) (node : Nat) (b : LsaBundle) (seqno : Nat) : Exec (State × Bool) :=
  if seqno ≤ (s.graph.node node).info.lastLsaSeqno ∧
      b.seconds < (s.graph.node node).info.lastLsaCreationTs then
    pure (s.suppress b.bundleid ForwardingLog.wildcardEid, false)
  else do
    let (s, foundStaleLsa) ← s.dropStale node
    if (s.graph.node node).info.lastLsaSeqno = 0 then
      assertThat (foundStaleLsa = false)
    pure ((s.setLastLsa node seqno b.seconds).pushCurrent b, true)

/-- The body of the loop of `recompute_routes`. -/
def routeTo (lib : Library) (cfg : Config) (env : Env) (s : State) (dest : Nat) :
    Exec (Option (EndpointID × Bytes)) :=
  if dest = localNode then pure none
  else do
    let destEid := lib.pattern (s.graph.node dest).id
    assertThat (destEid.valid = true)
    let edge ← s.graph.bestNextHop lib.queue (weight cfg env.now) localNode dest
    match edge with
    | none => pure none
    | some e => pure ((s.findLink e.info.id).map fun link => (destEid, link.name))

def recomputeRoutes (lib : Library) (cfg : Config) (env : Env) (s : State) : Exec State := do
  let entries ← (List.range s.graph.count).mapM (s.routeTo lib cfg env)
  pure { s with routes := entries.filterMap id }

/-- The newest entry `RECEIVED` keeps an announcement from going back. -/
def suppressBack (s : State) (bundleid : Nat) : State :=
  match (s.fwdlog bundleid).reverse.find? fun info => decide (info.state = .received) with
  | none => s
  | some info => s.suppress bundleid info.remoteEid

/-- The body of the loop of `handle_lsa`. -/
def handleLinkState (env : Env) (a : Nat) (s : State) (ls : DTLSR.LinkState) : State :=
  if a = localNode ∧ s.findLink ls.id = none then s
  else
    let (s, b) := s.findOrAdd ls.dest
    match (s.graph.node a).outEdges.find? fun e => decide (e.info.id = ls.id) with
    | none => s.setGraph (s.graph.addEdge a b ⟨ls.id, ls.params, env.now, false⟩)
    | some e => s.setGraph (s.graph.modifyEdge a e.ptr fun info =>
        { info with params := ls.params, lastUpdate := env.now })

def handleLsa (lib : Library) (cfg : Config) (env : Env) (s : State) (b : LsaBundle) (lsa : LSA) :
    Exec State :=
  if cfg.area ≠ lib.area b.dest then pure (s.suppress b.bundleid ForwardingLog.wildcardEid)
  else do
    let (s, a) := s.findOrAdd b.source
    let (s, isNew) ← s.updateCurrentLsa a b lsa.seqno
    if isNew then
      (lsa.links.foldl (handleLinkState env a) (s.suppressBack b.bundleid)).recomputeRoutes lib cfg env
    else pure s

end State

def parseLsaBundle (lib : Library) (payload : Bytes) : Option LSA :=
  match payload with
  | [] => none
  | type :: rest => if type = msgLsa then lib.unmarshal rest else none

namespace State

def deliverBundle (lib : Library) (cfg : Config) (env : Env) (s : State) (b : LsaBundle) :
    Exec State :=
  if b.source = cfg.localEid then pure s
  else do
    assertThat (b.payload ≠ [])
    match parseLsaBundle lib b.payload with
    | none => pure s
    | some lsa => s.handleLsa lib cfg env b lsa

/-- `generate_link_state`, and the check of `send_lsa` on the link. -/
def generateLinkState (env : Env) (s : State) (e : Edge EdgeInfo) : Exec DTLSR.LinkState := do
  if e.info.isRegistration = false then
    assertThat ((s.findLink e.info.id).isSome = true)
  let params :=
    match s.findLink e.info.id with
    | some _ =>
        if e.info.isRegistration then e.info.params
        else { e.info.params with
          qcount := (env.queued e.info.id).1, qsize := (env.queued e.info.id).2 }
    | none => e.info.params
  let elapsed :=
    if e.info.lastUpdate / 1000000 ≠ 0 then elapsedMs env.now e.info.lastUpdate else 0
  pure ⟨(s.graph.node e.dest).id, e.info.id, elapsed, params⟩

/-- The destination of an announcement, cut to the size of the buffer. -/
def announceDest (cfg : Config) (seqno : Nat) : Bytes :=
  let query :=
    if cfg.area = [] then ascii "dtn://*/dtlsr?lsa_seqno=".toList
    else ascii "dtn://*/dtlsr?area=".toList ++ cfg.area ++ ascii ";lsa_seqno=".toList
  (query ++ Framework.Decimal.print seqno).take 63

def sendLsa (lib : Library) (cfg : Config) (env : Env) (s : State) : Exec State := do
  let seqno := ((s.graph.node localNode).info.lastLsaSeqno + 1) % 2 ^ 64
  let links ← (s.graph.node localNode).outEdges.mapM (s.generateLinkState env)
  let s := s.setGraph (s.graph.modify localNode fun n =>
    { n with outEdges := n.outEdges.map fun e =>
        { e with info := { e.info with lastUpdate := env.now } } })
  let bundle : LsaBundle :=
    ⟨env.bundleid, cfg.localEid, announceDest cfg seqno, env.seconds,
      msgLsa :: lib.marshal ⟨seqno, links⟩⟩
  let (s, _) ← s.updateCurrentLsa localNode bundle seqno
  pure { s with posted := s.posted ++ [bundle], lastLsaTransmit := env.now }

def scheduleLsa (lib : Library) (cfg : Config) (env : Env) (s : State) : Exec State :=
  if s.delayedPending then pure s
  else if cfg.minLsaInterval < elapsedSec env.now s.lastLsaTransmit then s.sendLsa lib cfg env
  else pure { s with delayedPending := true }

def handleContactUp (lib : Library) (cfg : Config) (env : Env) (s : State) (link : LinkInfo) :
    Exec State :=
  if link.remoteEid = EndpointID.dtnNone then pure s
  else do
    let (s, remote) := s.findOrAdd link.remoteEid
    let s :=
      match s.graph.findEdge localNode remote fun info => decide (info.id = link.name) with
      | none => s.setGraph (s.graph.addEdge localNode remote
          ⟨link.name, { LinkParams.new with cost := link.cost }, 0, false⟩)
      | some e => s.setGraph (s.graph.modifyEdge localNode e.ptr fun info =>
          { info with params := { info.params with state := linkUp } })
    let s ← s.recomputeRoutes lib cfg env
    s.scheduleLsa lib cfg env

def removeEdge (s : State) (e : Edge EdgeInfo) : Exec State := do
  let (graph, ok) ← s.graph.delEdge localNode e
  assertThat (ok = true)
  pure (s.setGraph graph)

def handleContactDown (lib : Library) (cfg : Config) (env : Env) (s : State) (link : LinkInfo) :
    Exec State :=
  match s.graph.findNode link.remoteEid with
  | none => pure s
  | some _ =>
      match (s.graph.node localNode).outEdges.find? fun e => decide (e.info.id = link.name) with
      | none => pure s
      | some e => do
          let s := s.setGraph (s.graph.modifyEdge localNode e.ptr fun info =>
            { info with params := { info.params with state := linkDown } })
          let s ← s.recomputeRoutes lib cfg env
          let s ← s.scheduleLsa lib cfg env
          if cfg.keepDownLinks then pure s else s.removeEdge e

def sessionCustody : Nat := 64

/-- The endpoint that `handle_registration_added` announces, if any. -/
def announcedEid (lib : Library) (cfg : Config) (endpoint : Bytes) (sessionFlags : Nat) :
    Option Bytes :=
  if lib.subsume endpoint cfg.localEid then none
  else if sessionFlags = 0 then some endpoint
  else if sessionFlags &&& sessionCustody ≠ 0 then some (ascii "dtn-session:".toList ++ endpoint)
  else none

def handleRegistrationAdded (lib : Library) (cfg : Config) (env : Env) (s : State) (endpoint : Bytes)
    (sessionFlags : Nat) : Exec State :=
  match announcedEid lib cfg endpoint sessionFlags with
  | none => pure s
  | some eid =>
      let (s, node) := s.findOrAdd eid
      let name := ascii "reg-".toList ++ eid
      match s.graph.findEdge localNode node fun info => decide (info.id = name) with
      | some _ => pure s
      | none =>
          (s.setGraph (s.graph.addEdge localNode node
            ⟨name, { LinkParams.new with bw := 0xffffffff }, 0, true⟩)).scheduleLsa lib cfg env

end State

/-- The events. A timer of `TransmitLSATimer` is the delayed or the periodic one. -/
inductive Event where
  | deliver (b : LsaBundle)
  | linkCreated (link : LinkInfo)
  | contactUp (link : LinkInfo)
  | contactDown (link : LinkInfo)
  | registrationAdded (endpoint : Bytes) (sessionFlags : Nat)
  | transmitTimeout (delayed : Bool)
deriving DecidableEq, Repr

namespace State

def step (lib : Library) (cfg : Config) (s : State) : Env × Event → Exec State
  | (env, .deliver b) => s.deliverBundle lib cfg env b
  | (env, .linkCreated link) => (s.setLink link).recomputeRoutes lib cfg env
  | (env, .contactUp link) => (s.setLink link).handleContactUp lib cfg env link
  | (env, .contactDown link) => (s.setLink link).handleContactDown lib cfg env link
  | (env, .registrationAdded endpoint flags) => s.handleRegistrationAdded lib cfg env endpoint flags
  | (env, .transmitTimeout delayed) =>
      (if delayed then { s with delayedPending := false } else s).sendLsa lib cfg env

def run (lib : Library) (cfg : Config) (s : State) (events : List (Env × Event)) : Exec State :=
  events.foldlM (step lib cfg) s

end State

end DTLSRRouter

end Dtn2
