import Dtn2.ConvLayers.CLConnection

/-!
# The sending side of the stream convergence layer

`StreamConvergenceLayer::Connection` as a state and the functions that put bytes into its send
buffer: the contact header, segments of the bundles taken off the link queue, acknowledgements,
keepalives and the shutdown message. `send_data` of the socket classes drains the buffer; the
`n`-th write of a connection takes what the environment says.
-/

namespace Dtn2.StreamConvergenceLayer

open Framework BundleProtocol

/-- The environment of a connection: the parser's configuration and the support library, the
results of the writes to the socket, the creation times of incoming bundles, whether a link is
found for the peer, and the version of the layer. -/
structure Env where
  params : Params
  os : Oasys
  net : Nat → WriteResult
  now : Nat → UInt64
  findContact : Bool
  clVersion : UInt8

structure StreamLinkParams where
  segmentAckEnabled : Bool
  reactiveFragEnabled : Bool
  keepaliveInterval : Nat
  segmentLength : Nat
  testWriteDelay : Nat
deriving DecidableEq, Repr

/-- A small environment, in which every write takes up to a thousand bytes. -/
def Env.plain : Env := ⟨.default, .plain, fun _ => .wrote 1000, fun _ => 0, true, 3⟩

/-- Acknowledgements, reactive fragmentation, no keepalives and segments of up to 100 bytes. -/
def StreamLinkParams.plain : StreamLinkParams := ⟨true, true, 0, 100, 0⟩

/-- A connection with its link, everything it has written to the socket (`wire`) and everything
it has posted. `writes` counts the calls of `write`, `created` the incoming bundles, `entries`
the records of bundles in flight. -/
structure Connection where
  params : StreamLinkParams
  contactUp : Bool
  contactBroken : Option Reason
  breakingContact : Bool
  sendbuf : StreamBuffer UInt8
  recvbuf : StreamBuffer UInt8
  inflight : List InFlightBundle
  currentInflight : Option Nat
  sendSegmentTodo : Nat
  incoming : List IncomingBundle
  recvSegmentTodo : Nat
  link : LinkRef
  posted : List Outcome
  received : List BundleReceived
  wire : Bytes
  writes : Nat
  created : Nat
  entries : Nat

/-! ## Messages -/

def dataSegment : UInt8 := 0x10
def ackSegment : UInt8 := 0x20
def refuseBundle : UInt8 := 0x30
def keepalive : UInt8 := 0x40
def shutdown : UInt8 := 0x50
def bundleStart : UInt8 := 0x02
def bundleEnd : UInt8 := 0x01
def shutdownHasReason : UInt8 := 0x02
def shutdownHasDelay : UInt8 := 0x01

def segmentByte (start last : Bool) : UInt8 :=
  dataSegment ||| (if start then bundleStart else 0) ||| (if last then bundleEnd else 0)

def lengthMessage (type : UInt8) (len : Nat) : Bytes := type :: SDNV.encoded (UInt64.ofNat len)

/-- The reason code of a shutdown message; `SHUTDOWN_NO_REASON` is never sent. -/
def shutdownReason : Reason → Option UInt8
  | .user => some 0x2
  | .idle => some 0x0
  | .clVersion => some 0x1
  | .shutdown | .broken | .clError => none

def sendsShutdown : Reason → Bool
  | .user | .idle | .shutdown | .clVersion => true
  | .broken | .clError => false

/-- The shutdown message of `break_contact`. -/
def shutdownMessage (reason : Reason) : Bytes :=
  match shutdownReason reason with
  | some code => [shutdown ||| shutdownHasReason, code]
  | none => [shutdown]

namespace Connection

def new (params : StreamLinkParams) (sendbufLen recvbufLen : Nat) (link : LinkRef) : Connection where
  params := params
  contactUp := false
  contactBroken := none
  breakingContact := false
  sendbuf := StreamBuffer.empty sendbufLen
  recvbuf := StreamBuffer.empty recvbufLen
  inflight := []
  currentInflight := none
  sendSegmentTodo := 0
  incoming := []
  recvSegmentTodo := 0
  link := link
  posted := []
  received := []
  wire := []
  writes := 0
  created := 0
  entries := 0

/-! ## The buffer and the socket -/

/-- Write to the end of the send buffer and `fill`. -/
def put (c : Connection) (bs : Bytes) : Exec Connection :=
  if h : bs.length ≤ c.sendbuf.tailbytes then .ok { c with sendbuf := c.sendbuf.fill bs h }
  else .error (.fault .outOfBounds)

/-- `CLConnection::break_contact`. -/
def markBroken (c : Connection) (reason : Reason) : Connection :=
  { c with contactBroken := some reason }

/-- `break_contact(ContactEvent::BROKEN)`, which sends nothing. -/
def breakBroken (c : Connection) : Connection :=
  if c.breakingContact then c else { c with breakingContact := true }.markBroken .broken

def sendData (env : Env) (c : Connection) : Exec Connection := do
  assertThat (c.contactBroken = none)
  assertThat (0 < c.sendbuf.fullbytes)
  match env.net c.writes with
  | .wrote n =>
      pure { c with
        sendbuf := c.sendbuf.consume (min n c.sendbuf.fullbytes)
        wire := c.wire ++ c.sendbuf.full.take n
        writes := c.writes + 1 }
  | .closed => pure ({ c with writes := c.writes + 1 }.breakBroken)

/-- `Connection::break_contact`. A shutdown message goes out only between messages. -/
def breakContact (env : Env) (c : Connection) (reason : Reason) : Exec Connection :=
  if c.breakingContact then pure c
  else if sendsShutdown reason ∧ c.sendbuf.fullbytes = 0 ∧ c.sendSegmentTodo = 0 then do
    let c ← { c with breakingContact := true }.put (shutdownMessage reason)
    let c ← c.sendData env
    pure (c.markBroken reason)
  else pure ({ c with breakingContact := true }.markBroken reason)

/-! ## The records of bundles in flight -/

/-- Follow a pointer to a record. -/
def deref (c : Connection) (p : Nat) : Exec InFlightBundle :=
  match c.inflight.find? fun x => x.entry = p with
  | some x => pure x
  | none => .error (.fault .outOfBounds)

/-- Change the record a pointer points to. -/
def modify (c : Connection) (p : Nat) (f : InFlightBundle → InFlightBundle) : Connection :=
  { c with inflight := c.inflight.map fun x => if x.entry = p then f x else x }

def post (c : Connection) (o : Outcome) : Connection := { c with posted := c.posted ++ [o] }

/-- `ASSERT(inflight == inflight_.front())`, `pop_front` and the deletion. -/
def popInflight (c : Connection) (p : Nat) : Exec Connection := do
  assertThat (c.inflight.head?.map InFlightBundle.entry = some p)
  pure { c with inflight := c.inflight.tail }

/-- `check_completed(InFlightBundle*)`. -/
def checkCompleted (c : Connection) (p : Nat) : Exec Connection := do
  if c.currentInflight = some p then pure c
  else do
    let x ← c.deref p
    if c.params.segmentAckEnabled then
      if u32 x.ackData.numContiguous < x.totalLength then pure c else c.popInflight p
    else
      ((c.modify p fun x => { x with transmitEventPosted := true }).post
        (.transmitted p x.xmit.bundleid x.sentData.numContiguous
          x.sentData.numContiguous)).popInflight p

def finishBundle (c : Connection) (p : Nat) : Exec Connection := do
  let x ← c.deref p
  assertThat (x.sendComplete = true)
  assertThat (c.currentInflight = some p)
  { c with currentInflight := none }.checkCompleted p

/-! ## Segments -/

/-- One round of the loop of `send_data_todo`: the next bytes of the bundle go into the buffer
and the buffer is drained. -/
def sendChunk (env : Env) (c : Connection) (p : Nat) : Exec Connection := do
  let x ← c.deref p
  let sendLen := min c.sendSegmentTodo c.sendbuf.tailbytes
  let (out, last) ← produce env.os x.xmit.bundle x.xmit.blocks x.bytesSent sendLen
  assertThat (out.length = sendLen)
  let c ← c.put out
  let c := c.modify p fun y =>
    { y with sendComplete := last, sentData := y.sentData.set x.bytesSent sendLen }
  { c with sendSegmentTodo := c.sendSegmentTodo - sendLen }.sendData env

/-- The loop of `send_data_todo`. Every round sends at least one byte of the segment. -/
def sendLoop (env : Env) : Nat → Connection → Nat → Exec (Connection × Bool)
  | 0, c, _ => pure (c, decide (c.sendSegmentTodo = 0))
  | fuel + 1, c, p =>
      if c.sendSegmentTodo ≠ 0 ∧ c.sendbuf.tailbytes ≠ 0 then do
        let c ← c.sendChunk env p
        if c.contactBroken ≠ none then pure (c, true)
        else if c.params.testWriteDelay ≠ 0 then pure (c, true)
        else sendLoop env fuel c p
      else pure (c, decide (c.sendSegmentTodo = 0))

def sendDataTodo (env : Env) (c : Connection) (p : Nat) : Exec (Connection × Bool) := do
  assertThat (c.sendSegmentTodo ≠ 0)
  c.sendLoop env c.sendSegmentTodo p

/-- The segment of the record that is sent next: whether it is the last one, and its length. -/
def nextSegment (c : Connection) (x : InFlightBundle) : Bool × Nat :=
  if sizeSub x.totalLength x.bytesSent ≤ c.params.segmentLength then
    (true, sizeSub x.totalLength x.bytesSent)
  else (false, c.params.segmentLength)

def sendNextSegment (env : Env) (c : Connection) (p : Nat) : Exec (Connection × Bool) :=
  if c.sendbuf.tailbytes = 0 then pure (c, false)
  else do
    assertThat (c.sendSegmentTodo = 0)
    let x ← c.deref p
    if x.bytesSent = x.totalLength then do
      assertThat (x.sendComplete = true)
      let c ← c.finishBundle p
      pure (c, true)
    else do
      let (last, len) := c.nextSegment x
      if c.sendbuf.tailbytes < 1 + SDNV.encodingLen (UInt64.ofNat len) then pure (c, false)
      else do
        let c ← c.put (lengthMessage (segmentByte (decide (x.bytesSent = 0)) last) len)
        { c with sendSegmentTodo := len }.sendDataTodo env p

/-- The bookkeeping of `start_next_bundle`. `del_from_queue` has the same sanity check on the
length as `del_from_inflight`. -/
def takeBundle (c : Connection) (x : XmitBundle) (queue : List XmitBundle) : Exec Connection := do
  let y := InFlightBundle.new c.entries x
  assertThat (y.totalLength ≠ 0)
  pure { c with
    inflight := c.inflight ++ [y]
    currentInflight := some c.entries
    entries := c.entries + 1
    link := { (c.link.addToInflight x.bundleid) with queue := queue } }

def startNextBundle (env : Env) (c : Connection) : Exec (Connection × Bool) := do
  assertThat (c.currentInflight = none)
  if c.contactUp = false then pure (c, false)
  else
    match c.link.queue with
    | [] => pure (c, false)
    | x :: queue => do
        let c' ← c.takeBundle x queue
        c'.sendNextSegment env c.entries

/-! ## Acknowledgements -/

/-- The record of an incoming bundle after the acknowledgement for bit `i`. -/
def ackedRecord (y : IncomingBundle) (i : Nat) : IncomingBundle :=
  { y with ackedLength := u32 (i + 1), ackData := y.ackData.clear i }

/-- The loop of `send_pending_acks` on the record in front, with the number of acknowledgements
it may still write. -/
def ackLoop : Nat → Connection → IncomingBundle → Exec (Connection × IncomingBundle × Bool)
  | 0, c, y => pure (c, y, false)
  | fuel + 1, c, y =>
      match y.ackData.first with
      | none => pure (c, y, false)
      | some i =>
          let ackLen := u32 (i + 1)
          if y.rcvdData.numContiguous < ackLen then pure (c, y, false)
          else if c.params.segmentAckEnabled = false then ackLoop fuel c (ackedRecord y i)
          else if c.sendbuf.tailbytes < 1 + SDNV.encodingLen (UInt64.ofNat ackLen) then
            pure (c, y, false)
          else do
            let c ← c.put (lengthMessage ackSegment ackLen)
            let (c, y, _) ← ackLoop fuel c (ackedRecord y i)
            pure (c, y, true)

/-- The part of `send_pending_acks` in front of `check_done`, on the record in front. -/
def sendAcks (env : Env) (c : Connection) (y : IncomingBundle) (rest : List IncomingBundle) :
    Exec (Connection × Bool) :=
  if y.ackData = ∅ ∨ y.rcvdData = ∅ then pure (c, false)
  else do
    let (c, y, generated) ← c.ackLoop y.ackData.card y
    let c := { c with incoming := y :: rest }
    if generated then do
      let c ← c.sendData env
      pure (c, true)
    else pure (c, false)

/-- `check_done`: a bundle that has arrived and is acknowledged is forgotten. -/
def checkDone (c : Connection) : Connection :=
  match c.incoming with
  | [] => c
  | y :: rest =>
      if y.totalLength ≠ 0 ∧ y.totalLength = y.ackedLength then { c with incoming := rest } else c

def sendPendingAcks (env : Env) (c : Connection) : Exec (Connection × Bool) :=
  if c.contactBroken ≠ none then pure (c, false)
  else
    match c.incoming with
    | [] => pure (c, false)
    | y :: rest => do
        let (c, generated) ← c.sendAcks env y rest
        pure (c.checkDone, generated)

/-! ## The entry points -/

def continueSegment (env : Env) (c : Connection) : Exec Connection :=
  if c.sendSegmentTodo = 0 then pure c
  else
    match c.currentInflight with
    | none => .error (.fault .assertion)
    | some p => do
        let (c, _) ← c.sendDataTodo env p
        pure c

/-- Send the next segment of the current bundle, or start a new one. -/
def sendSegment (env : Env) (c : Connection) : Exec (Connection × Bool) :=
  match c.currentInflight with
  | none => c.startNextBundle env
  | some p => c.sendNextSegment env p

def sendPendingData (env : Env) (c : Connection) : Exec (Connection × Bool) :=
  if c.sendbuf.tailbytes = 0 then pure (c, false)
  else do
    let c ← c.continueSegment env
    if c.contactBroken ≠ none ∨ c.sendSegmentTodo ≠ 0 then
      pure (c, decide (c.params.testWriteDelay ≠ 0))
    else do
      let (c, sentAck) ← c.sendPendingAcks env
      if c.contactBroken ≠ none then pure (c, sentAck)
      else do
        let (c, sentData) ← c.sendSegment env
        pure (c, sentAck || sentData)

def sendKeepalive (env : Env) (c : Connection) : Exec Connection :=
  if c.sendbuf.fullbytes ≠ 0 then pure c
  else do
    assertThat (0 < c.sendbuf.tailbytes)
    assertThat (c.sendSegmentTodo = 0)
    let c ← c.put [keepalive]
    c.sendData env

/-- `check_keepalive`; `due` is the comparison of the clocks. -/
def checkKeepalive (env : Env) (c : Connection) (due : Bool) : Exec Connection :=
  if c.params.keepaliveInterval ≠ 0 ∧ due = true then
    if c.sendSegmentTodo ≠ 0 then pure c else c.sendKeepalive env
  else pure c

/-- What the clocks say at a poll timeout: nothing was heard for too long, the connection of an
on-demand link is idle, a keepalive is due. -/
structure Timers where
  dataTimeout : Bool
  idle : Bool
  keepaliveDue : Bool
deriving DecidableEq, Repr

/-- `handle_poll_timeout` of an initiated connection with a contact. -/
def handlePollTimeout (env : Env) (c : Connection) (t : Timers) : Exec Connection :=
  if 0 < c.params.keepaliveInterval ∧ t.dataTimeout = true then c.breakContact env .broken
  else if t.idle then c.breakContact env .idle
  else c.checkKeepalive env t.keepaliveDue

/-- `handle_cancel_bundle`: only a bundle nothing has been sent of is given up. -/
def handleCancelBundle (c : Connection) (id : Nat) : Connection :=
  match c.inflight.find? fun x => x.xmit.bundleid = id with
  | none => c
  | some x =>
      if x.sentData ≠ ∅ then c
      else if c.currentInflight = some x.entry ∧ c.sendSegmentTodo ≠ 0 then c
      else
        { c with
          currentInflight := if c.currentInflight = some x.entry then none else c.currentInflight
          inflight := c.inflight.eraseP fun y => y.xmit.bundleid = id
          posted := c.posted ++ [.sendCancelled x.entry id] }

/-! ## Contact initiation -/

/-- `SEGMENT_ACK_ENABLED` and `REACTIVE_FRAG_ENABLED`. -/
def contactFlags (p : StreamLinkParams) : UInt8 :=
  (if p.segmentAckEnabled then 1 else 0) ||| (if p.reactiveFragEnabled then 2 else 0)

def contactHeader (env : Env) (p : StreamLinkParams) (eid : Bytes) : Bytes :=
  [0x64, 0x74, 0x6e, 0x21, env.clVersion, contactFlags p,
    UInt8.ofNat (p.keepaliveInterval / 256), UInt8.ofNat p.keepaliveInterval] ++
    SDNV.encoded (UInt64.ofNat eid.length) ++ eid

/-- `initiate_contact`, with the two `reserve` calls for a buffer that is too short. -/
def initiateContact (env : Env) (c : Connection) (eid : Bytes) : Exec Connection := do
  assertThat (c.sendbuf.fullbytes = 0)
  let header := contactHeader env c.params eid
  let c := { c with sendbuf := c.sendbuf.reserve 8 }
  let c ← c.put (header.take 8)
  let c := { c with sendbuf := c.sendbuf.reserve (header.length - 8) }
  let c ← c.put (header.drop 8)
  c.sendData env

end Connection

end Dtn2.StreamConvergenceLayer
