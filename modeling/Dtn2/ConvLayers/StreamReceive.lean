import Dtn2.ConvLayers.Stream

/-!
# The receiving side of the stream convergence layer

`process_data` and its handlers on the bytes of the peer, `close_contact`, and the connection as
a machine that takes one event of its run loop after the other.
-/

namespace Dtn2.StreamConvergenceLayer

open Framework BundleProtocol

namespace Connection

/-- `break_contact(CL_ERROR)` in a handler that then returns false. -/
def protocolError (env : Env) (c : Connection) : Exec (Connection × Bool) := do
  let c ← c.breakContact env .clError
  pure (c, false)

/-! ## Data segments -/

/-- A new `IncomingBundle` at the back of the list. -/
def newIncoming (env : Env) (c : Connection) : Connection :=
  { c with
    incoming := c.incoming ++ [IncomingBundle.new (Bundle.new c.created (env.now c.created))]
    created := c.created + 1 }

/-- The record that `handle_data_segment` reads into; false if there cannot be one. -/
def openIncoming (env : Env) (c : Connection) (flags : UInt8) : Exec (Connection × Bool) :=
  match c.incoming.getLast? with
  | none =>
      if flags &&& bundleStart ≠ 0 then pure (c.newIncoming env, true) else c.protocolError env
  | some y =>
      if flags &&& bundleStart = 0 then pure (c, true)
      else if y.rcvdData = ∅ ∧ y.ackData = ∅ then pure (c, true)
      else if y.totalLength = 0 then c.protocolError env
      else pure (c.newIncoming env, true)

/-- Change the record at the back of the list. -/
def setLastIncoming (c : Connection) (y : IncomingBundle) : Connection :=
  { c with incoming := c.incoming.dropLast ++ [y] }

/-- `check_completed(IncomingBundle*)` on the record at the back. -/
def checkCompletedIncoming (env : Env) (c : Connection) (y : IncomingBundle) : Exec Connection :=
  let formattedLen := u32 (totalLength (y.bundle.recvBlocks.blocks.map fun b => ⟨b, none⟩))
  if y.totalLength = 0 then pure c
  else if u32 y.rcvdData.numContiguous < y.totalLength then pure c
  else if u32 y.rcvdData.numContiguous > y.totalLength ∨ y.totalLength ≠ formattedLen then
    (c.setLastIncoming { y with rcvdData := ∅ }).breakContact env .clError
  else pure { c with received := c.received ++ [⟨y.bundle, y.totalLength⟩] }

/-- The record of an incoming bundle after a chunk of `len` bytes. -/
def chunkRecord (y : IncomingBundle) (bundle : Bundle) (len : Nat) : IncomingBundle :=
  { y with bundle := bundle, rcvdData := y.rcvdData.set y.rcvdData.numContiguous len }

def chunkState (c : Connection) (y : IncomingBundle) (len : Nat) : Connection :=
  { c.setLastIncoming y with
    recvSegmentTodo := c.recvSegmentTodo - len
    recvbuf := c.recvbuf.consume len }

/-- What `handle_data_todo` does with the result of the parser. -/
def takeChunk (env : Env) (c : Connection) (y : IncomingBundle) (len : Nat) :
    Exec (Bundle × Int × Bool) → Exec (Connection × Bool)
  | .error .protocolError => c.protocolError env
  | .error (.fault f) => .error (.fault f)
  | .ok (bundle, cc, _) =>
      if cc < 0 then c.protocolError env
      else do
        assertThat (cc = toInt len)
        let y := chunkRecord y bundle len
        if c.recvSegmentTodo - len = 0 then do
          let c ← (c.chunkState y len).checkCompletedIncoming env y
          pure (c, true)
        else pure (c.chunkState y len, false)

def handleDataTodo (env : Env) (c : Connection) : Exec (Connection × Bool) :=
  match c.incoming.getLast? with
  | none => .error (.fault .assertion)
  | some y => do
      assertThat (c.recvSegmentTodo ≠ 0)
      if c.recvbuf.fullbytes = 0 then pure (c, false)
      else
        let chunk := c.recvbuf.full.take c.recvSegmentTodo
        c.takeChunk env y chunk.length (consume env.params env.os y.bundle chunk)

/-- A segment header has been read: mark the last byte of the segment, and the length of the
bundle if this is its last segment. -/
def beginSegment (c : Connection) (y : IncomingBundle) (flags : UInt8) (len : Nat) : Connection :=
  let offset := y.rcvdData.numContiguous
  { c.setLastIncoming { y with
      ackData := y.ackData.set (u32 (offset + len - 1)) 1
      totalLength := if flags &&& bundleEnd ≠ 0 then u32 (offset + len) else y.totalLength } with
    recvSegmentTodo := len }

/-- `recvbuf_.consume(n)`. -/
def skip (c : Connection) (n : Nat) : Connection := { c with recvbuf := c.recvbuf.consume n }

/-- The part of `handle_data_segment` behind the choice of the record. -/
def readSegment (env : Env) (c : Connection) (flags : UInt8) : Exec (Connection × Bool) :=
  match SDNV.decode32 (c.recvbuf.full.drop 1), c.incoming.getLast? with
  | none, _ => pure (c, false)
  | some _, none => .error (.fault .outOfBounds)
  | some (n, len), some y =>
      if len = 0 then (c.skip (1 + n)).protocolError env
      else ((c.skip (1 + n)).beginSegment y flags len).handleDataTodo env

def handleDataSegment (env : Env) (c : Connection) (flags : UInt8) : Exec (Connection × Bool) := do
  let (c, ok) ← c.openIncoming env flags
  if ok then c.readSegment env flags else pure (c, false)

/-! ## Acknowledgements and the other messages -/

/-- Where the acknowledged part of a bundle ends. -/
def ackBegin (x : InFlightBundle) : Nat :=
  match x.ackData.first with
  | none => 0
  | some i => u32 (i + x.ackData.numContiguous)

/-- All of the bundle in front is acknowledged: post the event. -/
def finalAck (c : Connection) (x : InFlightBundle) (rest : List InFlightBundle) : Connection :=
  { c with inflight := { x with transmitEventPosted := true } :: rest }.post
    (.transmitted x.entry x.xmit.bundleid x.sentData.numContiguous x.ackData.numContiguous)

/-- An acknowledgement of `acked` bytes for the record in front. -/
def acceptAck (c : Connection) (x : InFlightBundle) (rest : List InFlightBundle) (acked : Nat) :
    Exec Connection :=
  let x := { x with ackData := x.ackData.set 0 acked }
  if acked = x.totalLength then (c.finalAck x rest).checkCompleted x.entry
  else pure { c with inflight := x :: rest }

def handleAckSegment (env : Env) (c : Connection) : Exec (Connection × Bool) :=
  match SDNV.decode32 (c.recvbuf.full.drop 1) with
  | none => pure (c, false)
  | some (n, acked) =>
      match c.inflight with
      | [] => (c.skip (1 + n)).protocolError env
      | x :: rest =>
          if acked < ackBegin x then (c.skip (1 + n)).protocolError env
          else do
            let c ← (c.skip (1 + n)).acceptAck x rest acked
            pure (c, true)

def shutdownLength (flags : UInt8) : Nat :=
  1 + (if flags &&& shutdownHasReason ≠ 0 then 1 else 0) +
    (if flags &&& shutdownHasDelay ≠ 0 then 2 else 0)

def handleShutdown (env : Env) (c : Connection) (flags : UInt8) : Exec (Connection × Bool) :=
  if c.recvbuf.fullbytes < shutdownLength flags then pure (c, false)
  else do
    let c ← (c.skip (shutdownLength flags)).breakContact env .shutdown
    pure (c, false)

def handle (env : Env) (c : Connection) (type flags : UInt8) :
    Option (Exec (Connection × Bool)) :=
  if type = dataSegment then some (c.handleDataSegment env flags)
  else if type = ackSegment then some (c.handleAckSegment env)
  else if type = refuseBundle then
    some (do
      let c ← c.breakContact env .clError
      pure (c, true))
  else if type = keepalive then some (pure (c.skip 1, true))
  else if type = shutdown then some (c.handleShutdown env flags)
  else none

/-- Make room in the receive buffer for the rest of a message. -/
def makeRoom (c : Connection) : Exec Connection :=
  if c.recvbuf.fullbytes = c.recvbuf.size then
    pure { c with recvbuf := c.recvbuf.reserve (c.recvbuf.size * 2) }
  else if c.recvbuf.tailbytes = 0 then do
    let c := { c with recvbuf := c.recvbuf.reserve (c.recvbuf.size - c.recvbuf.fullbytes) }
    assertThat (c.recvbuf.tailbytes ≠ 0)
    pure c
  else pure c

/-- The message loop of `process_data`. -/
def processLoop (env : Env) : Nat → Connection → Exec Connection
  | 0, _ => .error (.fault .diverges)
  | fuel + 1, c =>
      match c.recvbuf.full with
      | [] => pure c
      | b :: _ =>
          if c.contactBroken ≠ none then pure c
          else
            match c.handle env (b &&& 0xf0) (b &&& 0x0f) with
            | none => c.breakContact env .clError
            | some result => do
                let (c, ok) ← result
                if ok then processLoop env fuel c else c.makeRoom

/-! ## Contact initiation -/

def negotiate (p : StreamLinkParams) (flags : UInt8) (keepaliveInterval : Nat) :
    StreamLinkParams :=
  { p with
    keepaliveInterval := min p.keepaliveInterval keepaliveInterval
    segmentAckEnabled := p.segmentAckEnabled && decide (flags &&& 1 ≠ 0)
    reactiveFragEnabled := p.reactiveFragEnabled && decide (flags &&& 2 ≠ 0) }

/-- The part of `handle_contact_initiation` behind the length checks: the header fields are in
`header`, the endpoint id of the peer is `eidLen` bytes long behind `n` bytes of length. -/
def acceptContact (env : Env) (c : Connection) (header : Bytes) (n eidLen : Nat) :
    Exec Connection :=
  let c := { c with recvbuf := c.recvbuf.consume 8 }
  if (header[4]?.getD 0) < env.clVersion then c.breakContact env .clVersion
  else
    let c := { c with
      params := negotiate c.params (header[5]?.getD 0)
        ((header[6]?.getD 0).toNat * 256 + (header[7]?.getD 0).toNat)
      recvbuf := c.recvbuf.consume n }
    if c.recvbuf.fullbytes < eidLen then .error (.fault .outOfBounds)
    else if (env.os.assign (c.recvbuf.full.take eidLen)).valid = false ∨ env.findContact = false then
      c.breakContact env .clError
    else pure { c with recvbuf := c.recvbuf.consume eidLen, contactUp := true }

def handleContactInitiation (env : Env) (c : Connection) : Exec Connection := do
  assertThat (c.contactUp = false)
  let bs := c.recvbuf.full
  if bs.length < 4 then pure c
  else if bs.take 4 ≠ [0x64, 0x74, 0x6e, 0x21] then c.breakContact env .clError
  else if bs.length < 8 then pure c
  else
    match SDNV.decode (bs.drop 8) with
    | (none, _) => pure c
    | (some n, eidLen) =>
        if bs.length < (8 + n + eidLen.toNat) % 2 ^ 64 then pure c
        else c.acceptContact env (bs.take 8) n eidLen.toNat

def processData (env : Env) (c : Connection) : Exec Connection :=
  if c.recvbuf.fullbytes = 0 then pure c
  else if c.contactUp = false then c.handleContactInitiation env
  else if c.recvSegmentTodo ≠ 0 then do
    let (c, ok) ← c.handleDataTodo env
    if ok then c.processLoop env (c.recvbuf.fullbytes + 1) else pure c
  else c.processLoop env (c.recvbuf.fullbytes + 1)

/-- `recv_data` of a chunk that fits into the buffer, and `process_data`. A read of nothing means
that the peer is gone. -/
def receive (env : Env) (c : Connection) (chunk : Bytes) : Exec Connection :=
  if chunk = [] then c.breakContact env .broken
  else if h : chunk.length ≤ c.recvbuf.tailbytes then
    { c with recvbuf := c.recvbuf.fill chunk h }.processData env
  else pure c

end Connection

/-! ## The run loop -/

/-- What the run loop of a connection reacts to, and bundles being queued on its link. -/
inductive Event where
  | queueBundle (x : XmitBundle)
  | sendPendingData
  | writeReady
  | receive (chunk : Bytes)
  | cancelBundle (bundleid : Nat)
  | pollTimeout (t : Connection.Timers)
  | checkKeepalive (due : Bool)
  | breakContact (reason : Reason)

namespace Connection

/-- The reaction of a connection whose contact is not broken. The socket is reported ready for
writing only while the buffer holds something. -/
def react (env : Env) (c : Connection) : Event → Exec Connection
  | .queueBundle x => pure { c with link := c.link.queueBundle x }
  | .sendPendingData => do
      let (c, _) ← c.sendPendingData env
      pure c
  | .writeReady => if c.sendbuf.fullbytes = 0 then pure c else c.sendData env
  | .receive chunk => c.receive env chunk
  | .cancelBundle id => pure (c.handleCancelBundle id)
  | .pollTimeout t => c.handlePollTimeout env t
  | .checkKeepalive due => c.checkKeepalive env due
  | .breakContact reason => c.breakContact env reason

/-- One event. The run loop of a broken connection has ended; its link still takes bundles. -/
def step (env : Env) (c : Connection) (e : Event) : Exec Connection :=
  match c.contactBroken, e with
  | some _, .queueBundle x => pure { c with link := c.link.queueBundle x }
  | some _, _ => pure c
  | none, e => c.react env e

def run (env : Env) : Connection → List Event → Exec Connection
  | c, [] => pure c
  | c, e :: es => do
      let c ← c.step env e
      run env c es

/-! ## Closing the contact -/

/-- Put a bundle back on the link queue. -/
def requeue (c : Connection) (x : InFlightBundle) : Exec Connection := do
  let (link, found) ← c.link.delFromInflight x.xmit.bundleid x.totalLength
  if found then
    match link.addToQueue x.xmit with
    | (link, true) =>
        pure ({ c with link := link }.post (.requeued x.entry x.xmit.bundleid))
    | (link, false) => pure { c with link := link }
  else pure { c with link := link }

/-- What `close_contact` does with one record of the bundles in flight. -/
def closeInflight (c : Connection) (x : InFlightBundle) : Exec Connection :=
  let sentBytes := u32 x.sentData.numContiguous
  let ackedBytes := u32 x.ackData.numContiguous
  if c.params.reactiveFragEnabled = false ∨ sentBytes = 0 ∨
      (c.link.reliable = true ∧ ackedBytes = 0) then c.requeue x
  else if x.transmitEventPosted then pure c
  else pure (c.post (.transmitted x.entry x.xmit.bundleid sentBytes ackedBytes))

/-- The loop of `close_contact` over the bundles in flight. -/
def closeInflights : List InFlightBundle → Connection → Exec Connection
  | [], c => pure c
  | x :: xs, c => do
      let c ← c.closeInflight x
      closeInflights xs c

/-- The partially received bundle at the back of the incoming list. -/
def closeIncoming (c : Connection) : Exec Connection :=
  match c.incoming.getLast? with
  | none => pure c
  | some y =>
      if y.rcvdData = ∅ then pure c
      else do
        let headerLen ← payloadOffset (y.bundle.recvBlocks.blocks.map fun b => ⟨b, none⟩)
        if y.totalLength = 0 ∧ c.params.reactiveFragEnabled = true ∧
            headerLen < y.rcvdData.last + 1 then
          pure { c with received := c.received ++ [⟨y.bundle, y.rcvdData.last + 1⟩] }
        else pure c

/-- `ConnectionConvergenceLayer::close_contact`, once the connection thread has stopped. -/
def closeContact (c : Connection) : Exec Connection := do
  let c ← closeInflights c.inflight c
  let c ← c.closeIncoming
  pure { c with inflight := [], incoming := [] }

end Connection

end Dtn2.StreamConvergenceLayer
