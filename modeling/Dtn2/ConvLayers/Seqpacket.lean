import Dtn2.ConvLayers.StreamReceive
import Dtn2.Framework.BigEndian

/-!
# The sending side of the AX.25 connections

`SeqpacketConvergenceLayer::Connection` puts messages into its send buffer and queues the length of
every packet; `AX25CMConvergenceLayer::Connection` writes the packets to the socket, one for each
`send_data`, with a checksum behind each. The messages are those of the stream convergence layer.
The receiving side is left open: it hands over acknowledgements for the bundles in flight, leaves
any incoming bundles to acknowledge, and may break the contact.
-/

namespace Dtn2.SeqpacketConvergenceLayer

open Framework BundleProtocol
open StreamConvergenceLayer (ackSegment lengthMessage segmentByte sendsShutdown shutdownMessage)
open StreamConvergenceLayer.Connection (Timers)

/-! ## How the process ends -/

/-- An `ASSERT` in `send_data` fails, or the process ends elsewhere. -/
inductive Crash where
  | sendData
  | elsewhere (s : Stop)

abbrev Run := Except Crash

/-- What ends the process outside of `send_data`. -/
def elsewhere {α : Type} : Exec α → Run α
  | .ok a => .ok a
  | .error s => .error (.elsewhere s)

/-- `ASSERT(p)` in `send_data`. -/
def sendAssert (p : Prop) [Decidable p] : Run Unit := if p then .ok () else .error .sendData

/-! ## Messages and packets -/

structure SeqpacketLinkParams where
  segmentAckEnabled : Bool
  reactiveFragEnabled : Bool
  keepaliveInterval : Nat
  segmentLength : Nat
  ackWindow : Nat
  testWriteDelay : Nat
deriving DecidableEq, Repr

/-- What a write of a packet to the socket reports: all of it is taken, it would block, or another
error. -/
inductive PacketWrite where
  | taken
  | wouldBlock
  | failed
deriving DecidableEq, Repr

/-- The environment of a connection: the support library with its checksum, the results of the
writes, what `reserve` leaves behind the filled part when it moves, and the version of the layer. -/
structure Env where
  os : Oasys
  crc : Bytes → UInt32
  net : Nat → PacketWrite
  stale : Nat → UInt8
  clVersion : UInt8

/-- What the producers put into the send buffer; the acknowledgements of one `send_pending_acks` go
out together. -/
inductive Message where
  | contactHeader (params : SeqpacketLinkParams) (eid : Bytes)
  | acks (lens : List Nat)
  | segment (start last : Bool) (len : Nat)
  | keepalive
  | shutdown (reason : Reason)
deriving DecidableEq, Repr

/-- `SEGMENT_ACK_ENABLED` and `REACTIVE_FRAG_ENABLED`. -/
def contactFlags (p : SeqpacketLinkParams) : UInt8 :=
  (if p.segmentAckEnabled then 1 else 0) ||| (if p.reactiveFragEnabled then 2 else 0)

def contactHeader (env : Env) (p : SeqpacketLinkParams) (eid : Bytes) : Bytes :=
  [0x64, 0x74, 0x6e, 0x21, env.clVersion, contactFlags p,
    UInt8.ofNat (p.keepaliveInterval / 256), UInt8.ofNat p.keepaliveInterval] ++
    SDNV.encoded (UInt64.ofNat eid.length) ++ eid

/-- `encoding_len` of an acknowledgement or of the header of a segment. -/
def headerLen (len : Nat) : Nat := 1 + SDNV.encodingLen (UInt64.ofNat len)

def Message.Spells (env : Env) : Message → Bytes → Prop
  | .contactHeader p eid, bs => bs = SeqpacketConvergenceLayer.contactHeader env p eid
  | .acks lens, bs => bs = lens.flatMap (lengthMessage ackSegment)
  | .segment start last len, bs =>
      ∃ data : Bytes, data.length = len ∧ bs = lengthMessage (segmentByte start last) len ++ data
  | .keepalive, bs => bs = [StreamConvergenceLayer.keepalive]
  | .shutdown reason, bs => bs = shutdownMessage reason

/-- A payload with its checksum in network byte order. -/
def packet (env : Env) (payload : Bytes) : Bytes :=
  payload ++ BigEndian.encode 4 (env.crc payload).toNat

/-! ## Connections -/

/-- A connection with its link. `connecting` is the state of the socket, `pollout` whether the
thread polls for write readiness, `wire` the packets that the socket has taken. `messages` are those
that the producers have queued, in this order. -/
structure Connection where
  params : SeqpacketLinkParams
  connecting : Bool
  pollout : Bool
  contactInitiated : Bool
  contactUp : Bool
  contactBroken : Bool
  breakingContact : Bool
  sendbuf : StreamBuffer UInt8
  delimiters : List Nat
  sendSegmentTodo : Nat
  inflight : List InFlightBundle
  currentInflight : Option Nat
  incoming : List IncomingBundle
  ackWindowTodo : Nat
  link : LinkRef
  entries : Nat
  wire : List Bytes
  writes : Nat
  messages : List Message

namespace Connection

def new (params : SeqpacketLinkParams) (sendbufLen : Nat) (link : LinkRef) : Connection where
  params := params
  connecting := false
  pollout := false
  contactInitiated := false
  contactUp := false
  contactBroken := false
  breakingContact := false
  sendbuf := StreamBuffer.empty sendbufLen
  delimiters := []
  sendSegmentTodo := 0
  inflight := []
  currentInflight := none
  incoming := []
  ackWindowTodo := 0
  link := link
  entries := 0
  wire := []
  writes := 0
  messages := []

/-! ## The buffer and the socket -/

/-- Write to the end of the send buffer and `fill`. -/
def put (c : Connection) (bs : Bytes) : Run Connection :=
  if h : bs.length ≤ c.sendbuf.tailbytes then .ok { c with sendbuf := c.sendbuf.fill bs h }
  else .error (.elsewhere (.fault .outOfBounds))

/-- `sendbuf_sequence_delimiters_.push(n)`. -/
def push (c : Connection) (n : Nat) (m : Message) : Connection :=
  { c with delimiters := c.delimiters ++ [u32 n], messages := c.messages ++ [m] }

/-- `break_contact(ContactEvent::BROKEN)`, which sends nothing. -/
def breakBroken (c : Connection) : Connection :=
  if c.breakingContact then c else { c with breakingContact := true, contactBroken := true }

/-- The first `n` bytes from the start of the send buffer, and of the memory behind what is filled
in. -/
def sendbufStart (env : Env) (c : Connection) (n : Nat) : Bytes :=
  c.sendbuf.full.take n ++ (List.range (n - c.sendbuf.fullbytes)).map env.stale

/-- A socket that is not connected takes nothing. -/
def write (env : Env) (c : Connection) : PacketWrite :=
  if c.connecting then .failed else env.net c.writes

/-- The checks behind a write that took the packet in front. -/
def afterWrite (c : Connection) (rest : List Nat) : Run Connection :=
  let c := { c with delimiters := rest }
  if c.sendbuf.fullbytes ≠ 0 then do
    let c := { c with pollout := true }
    sendAssert (rest ≠ [])
    sendAssert (rest.headD 0 ≤ c.sendbuf.fullbytes)
    pure c
  else if c.pollout then do
    sendAssert (rest ≠ [])
    let c := { c with pollout := false }
    sendAssert (rest = [])
    pure c
  else pure c

/-- `send_data`: the packet in front goes to the socket, with its checksum. -/
def sendData (env : Env) (c : Connection) : Run Connection := do
  sendAssert (c.contactBroken = false)
  match c.delimiters with
  | [] => .error .sendData
  | payloadLength :: rest =>
      sendAssert (0 < payloadLength)
      let towrite := u32 (payloadLength + 4)
      sendAssert (payloadLength ≤ towrite)
      sendAssert (4 ≤ towrite - payloadLength)
      let payload := c.sendbufStart env payloadLength
      match c.write env with
      | .taken => do
          let c := { c with
            sendbuf := c.sendbuf.consume payloadLength
            wire := c.wire ++ [packet env payload]
            writes := c.writes + 1 }
          sendAssert (payloadLength + 4 = towrite)
          c.afterWrite rest
      | .wouldBlock => pure { c with writes := c.writes + 1, pollout := true }
      | .failed => pure { c with writes := c.writes + 1 }.breakBroken

/-- `Connection::break_contact`. A shutdown message goes out only between messages. -/
def breakContact (env : Env) (c : Connection) (reason : Reason) : Run Connection :=
  if c.breakingContact then pure c
  else if sendsShutdown reason ∧ c.sendbuf.fullbytes = 0 ∧ c.sendSegmentTodo = 0 then do
    let message := shutdownMessage reason
    let c ← { c with breakingContact := true }.put message
    let c ← (c.push message.length (.shutdown reason)).sendData env
    pure { c with contactBroken := true }
  else pure { c with breakingContact := true, contactBroken := true }

/-! ## The records of bundles in flight -/

/-- Follow a pointer to a record. -/
def deref (c : Connection) (p : Nat) : Run InFlightBundle :=
  match c.inflight.find? fun x => x.entry = p with
  | some x => pure x
  | none => .error (.elsewhere (.fault .outOfBounds))

/-- `check_completed(InFlightBundle*)`. -/
def checkCompleted (c : Connection) (p : Nat) : Run Connection :=
  if c.currentInflight = some p then pure c
  else do
    let x ← c.deref p
    if u32 x.ackData.numContiguous < x.totalLength then pure c
    else do
      elsewhere (assertThat (c.inflight.head?.map InFlightBundle.entry = some p))
      pure { c with inflight := c.inflight.tail }

def finishBundle (c : Connection) (p : Nat) : Run Connection := do
  let x ← c.deref p
  elsewhere (assertThat (x.sendComplete = true))
  elsewhere (assertThat (c.currentInflight = some p))
  { c with currentInflight := none }.checkCompleted p

/-! ## Segments -/

/-- One round of the loop of `send_data_todo`. -/
def sendChunk (env : Env) (c : Connection) (p : Nat) : Run Connection := do
  let x ← c.deref p
  let sendLen := min c.sendSegmentTodo c.sendbuf.tailbytes
  let (out, last) ← elsewhere (produce env.os x.xmit.bundle x.xmit.blocks x.bytesSent sendLen)
  elsewhere (assertThat (out.length = sendLen))
  let c ← c.put out
  let sent := { x with sendComplete := last, sentData := x.sentData.set x.bytesSent sendLen }
  { c with
    inflight := c.inflight.map fun y => if InFlightBundle.entry y = p then sent else y
    sendSegmentTodo := c.sendSegmentTodo - sendLen }.sendData env

/-- The loop of `send_data_todo`. Every round sends at least one byte of the segment. -/
def sendLoop (env : Env) : Nat → Connection → Nat → Run (Connection × Bool)
  | 0, c, _ => pure (c, decide (c.sendSegmentTodo = 0))
  | fuel + 1, c, p =>
      if c.sendSegmentTodo ≠ 0 ∧ c.sendbuf.tailbytes ≠ 0 then do
        let c ← c.sendChunk env p
        if c.contactBroken then pure (c, true)
        else if c.params.testWriteDelay ≠ 0 then pure (c, true)
        else sendLoop env fuel c p
      else pure (c, decide (c.sendSegmentTodo = 0))

def sendDataTodo (env : Env) (c : Connection) (p : Nat) : Run (Connection × Bool) := do
  elsewhere (assertThat (c.sendSegmentTodo ≠ 0))
  c.sendLoop env c.sendSegmentTodo p

/-- The segment of the record that is sent next: whether it is the last one, and its length. -/
def nextSegment (c : Connection) (x : InFlightBundle) : Bool × Nat :=
  if sizeSub x.totalLength x.bytesSent ≤ c.params.segmentLength then
    (true, sizeSub x.totalLength x.bytesSent)
  else (false, c.params.segmentLength)

/-- `reserve(n)` while `bs` stands behind the filled part: when something moves, what stands there
afterwards is not `bs`. -/
def reserveOver (env : Env) (c : Connection) (bs : Bytes) (n : Nat) : Connection × Bytes :=
  ({ c with sendbuf := c.sendbuf.reserve n },
    if n ≤ c.sendbuf.tailbytes then bs else (List.range bs.length).map env.stale)

def sendNextSegment (env : Env) (c : Connection) (p : Nat) : Run (Connection × Bool) :=
  if c.sendbuf.tailbytes = 0 then pure (c, false)
  else do
    elsewhere (assertThat (c.sendSegmentTodo = 0))
    let x ← c.deref p
    if x.bytesSent = x.totalLength then do
      elsewhere (assertThat (x.sendComplete = true))
      let c ← c.finishBundle p
      pure (c, true)
    else do
      let start := decide (x.bytesSent = 0)
      let (last, len) := c.nextSegment x
      if c.sendbuf.tailbytes < headerLen len then pure (c, false)
      else do
        -- the header is written in front of `reserve` and accounted for behind it
        let (c, header) :=
          c.reserveOver env (lengthMessage (segmentByte start last) len) (headerLen len + len)
        let c ← c.put header
        { c.push (headerLen len + len) (.segment start last len) with
          sendSegmentTodo := len }.sendDataTodo env p

/-- The bookkeeping of `start_next_bundle`. -/
def takeBundle (c : Connection) (x : XmitBundle) (queue : List XmitBundle) : Run Connection := do
  let y := InFlightBundle.new c.entries x
  elsewhere (assertThat (y.totalLength ≠ 0))
  pure { c with
    inflight := c.inflight ++ [y]
    currentInflight := some c.entries
    entries := c.entries + 1
    link := { (c.link.addToInflight x.bundleid) with queue := queue } }

def startNextBundle (env : Env) (c : Connection) : Run (Connection × Bool) := do
  elsewhere (assertThat (c.currentInflight = none))
  if c.contactUp = false then pure (c, false)
  else
    match c.link.queue with
    | [] => pure (c, false)
    | x :: queue => do
        let c' ← c.takeBundle x queue
        c'.sendNextSegment env c.entries

/-! ## Acknowledgements -/

/-- The record of an incoming bundle after an acknowledgement of `ackLen` for bit `i`. -/
def ackedRecord (y : IncomingBundle) (i ackLen : Nat) : IncomingBundle :=
  { y with ackedLength := u32 ackLen, ackData := y.ackData.clear i }

/-- The loop of `send_pending_acks` on the record in front, with the number of bits left in its
`ack_data_` and the bytes of acknowledgements so far; it also returns the lengths acknowledged. -/
def ackLoop : Nat → Connection → IncomingBundle → Nat → Run (Connection × IncomingBundle × List Nat)
  | 0, c, y, _ => pure (c, y, [])
  | fuel + 1, c, y, total =>
      match y.ackData.first with
      | none => pure (c, y, [])
      | some i =>
          let ackLen := y.rcvdData.numContiguous
          if c.ackWindowTodo ≠ 0 then pure (c, y, [])
          else
            let c := { c with ackWindowTodo := c.params.ackWindow }
            if c.sendbuf.tailbytes < headerLen ackLen then pure (c, y, [])
            else if c.params.segmentLength < total + headerLen ackLen then pure (c, y, [])
            else do
              let c ← c.put (lengthMessage ackSegment ackLen)
              let (c, y, lens) ←
                ackLoop fuel c (ackedRecord y i ackLen) (total + headerLen ackLen)
              pure (c, y, ackLen :: lens)

/-- The part of `send_pending_acks` in front of `check_done`, on the record in front. -/
def sendAcks (env : Env) (c : Connection) (y : IncomingBundle) (rest : List IncomingBundle) :
    Run (Connection × Bool) :=
  if y.ackData = ∅ ∨ y.rcvdData = ∅ then pure (c, false)
  else do
    let (c, y, lens) ← c.ackLoop y.ackData.card y 0
    let c := { c with incoming := y :: rest }
    if lens ≠ [] then do
      let c ← (c.push (lens.map headerLen).sum (.acks lens)).sendData env
      pure (c, true)
    else pure (c, false)

/-- `check_done`: a bundle that has arrived and is acknowledged is forgotten. -/
def checkDone (c : Connection) : Connection :=
  match c.incoming with
  | [] => c
  | y :: rest =>
      if y.totalLength ≠ 0 ∧ y.totalLength = y.ackedLength then { c with incoming := rest } else c

def sendPendingAcks (env : Env) (c : Connection) : Run (Connection × Bool) :=
  if c.contactBroken then pure (c, false)
  else
    match c.incoming with
    | [] => pure (c, false)
    | y :: rest => do
        let (c, generated) ← c.sendAcks env y rest
        pure (c.checkDone, generated)

/-! ## The entry points -/

def continueSegment (env : Env) (c : Connection) : Run Connection :=
  if c.sendSegmentTodo = 0 then pure c
  else
    match c.currentInflight with
    | none => .error (.elsewhere (.fault .assertion))
    | some p => do
        let (c, _) ← c.sendDataTodo env p
        pure c

/-- Send the next segment of the current bundle, or start a new one. -/
def sendSegment (env : Env) (c : Connection) : Run (Connection × Bool) :=
  match c.currentInflight with
  | none => c.startNextBundle env
  | some p => c.sendNextSegment env p

/-- `send_pending_data`; nothing depends on what it returns but the timeout of the next poll. -/
def sendPendingData (env : Env) (c : Connection) : Run Connection :=
  if c.sendbuf.tailbytes = 0 then pure c
  else do
    let c ← c.continueSegment env
    if c.contactBroken ∨ c.sendSegmentTodo ≠ 0 then pure c
    else do
      let (c, _) ← c.sendPendingAcks env
      if c.contactBroken then pure c
      else do
        let (c, _) ← c.sendSegment env
        pure c

def sendKeepalive (env : Env) (c : Connection) : Run Connection :=
  if c.sendbuf.fullbytes ≠ 0 then pure c
  else do
    elsewhere (assertThat (0 < c.sendbuf.tailbytes))
    elsewhere (assertThat (c.sendSegmentTodo = 0))
    let c ← c.put [StreamConvergenceLayer.keepalive]
    (c.push 1 .keepalive).sendData env

/-- `check_keepalive`; `due` is the comparison of the clocks. -/
def checkKeepalive (env : Env) (c : Connection) (due : Bool) : Run Connection :=
  if c.params.keepaliveInterval ≠ 0 ∧ due = true then
    if c.sendSegmentTodo ≠ 0 then pure c else c.sendKeepalive env
  else pure c

def handlePollTimeout (env : Env) (c : Connection) (t : Timers) : Run Connection :=
  if c.contactInitiated = false then pure c
  else if t.dataTimeout then c.breakContact env .broken
  else if t.idle then c.breakContact env .idle
  else c.checkKeepalive env t.keepaliveDue

/-- `handle_cancel_bundle`: only a bundle nothing has been sent of is given up. -/
def handleCancelBundle (c : Connection) (id : Nat) : Connection :=
  match c.inflight.find? fun x => x.xmit.bundleid = id with
  | none => c
  | some x =>
      if x.sentData ≠ ∅ then c
      else if c.currentInflight = some x.entry ∧ c.sendSegmentTodo ≠ 0 then c
      else
        { c with
          currentInflight := if c.currentInflight = some x.entry then none else c.currentInflight
          inflight := c.inflight.eraseP fun y => y.xmit.bundleid = id }

/-- `initiate_contact`, with the two `reserve` calls for a buffer that is too short. -/
def initiateContact (env : Env) (c : Connection) (eid : Bytes) : Run Connection := do
  elsewhere (assertThat (c.sendbuf.fullbytes = 0))
  let header := contactHeader env c.params eid
  let c := { c with sendbuf := c.sendbuf.reserve 8 }
  let c ← c.put (header.take 8)
  let rest := header.length - 8
  let c :=
    if c.sendbuf.tailbytes < rest then { c with sendbuf := c.sendbuf.reserve header.length } else c
  let c ← c.put (header.drop 8)
  let c ← (c.push header.length (.contactHeader c.params eid)).sendData env
  pure { c with contactInitiated := true }

/-! ## What the peer sends -/

/-- `handle_ack_segment`: an acknowledgement of `acked` bytes for the record in front, and whether
the message was handled. -/
def handleAckSegment (env : Env) (c : Connection) (acked : Nat) : Run (Connection × Bool) :=
  match c.inflight with
  | [] => do
      let c ← c.breakContact env .clError
      pure (c, false)
  | x :: rest =>
      if acked < StreamConvergenceLayer.Connection.ackBegin x then pure (c, false)
      else
        let x := { x with ackData := x.ackData.set 0 acked }
        if acked = x.totalLength then do
          let c ← { c with
            inflight := { x with transmitEventPosted := true } :: rest }.checkCompleted x.entry
          pure (c, true)
        else pure ({ c with inflight := x :: rest }, true)

def handleAckSegments (env : Env) : Connection → List Nat → Run Connection
  | c, [] => pure c
  | c, acked :: ackeds => do
      let (c, ok) ← c.handleAckSegment env acked
      if ok ∧ c.contactBroken = false then handleAckSegments env c ackeds else pure c

/-- What `recv_data` and `process_data` do with a packet: the acknowledgements in it, the incoming
bundles and the ack window afterwards, the keepalive interval after the negotiation, whether the
contact is up, and whether it is broken for a reason of their own. -/
structure Received where
  acks : List Nat
  incoming : List IncomingBundle
  ackWindowTodo : Nat
  keepaliveInterval : Nat
  contactUp : Bool
  broken : Option Reason

/-- A packet from the peer. A socket that is not connected has none to give. -/
def receive (env : Env) (c : Connection) (r : Received) : Run Connection :=
  if c.connecting then c.breakContact env .broken
  else do
    let c ← c.handleAckSegments env r.acks
    let c := { c with
      incoming := r.incoming
      ackWindowTodo := r.ackWindowTodo
      params := { c.params with keepaliveInterval := r.keepaliveInterval }
      contactUp := c.contactUp || r.contactUp }
    match r.broken with
    | none => pure c
    | some reason => c.breakContact env reason

/-! ## Steps of the thread -/

/-- What `poll` returns: an error on the socket, write readiness (with the result of a connection
attempt that it ends), and a packet (with the comparison of the clocks behind it). -/
structure PollEvents where
  error : Bool
  writeReady : Bool
  connected : Bool
  input : Option Received
  keepaliveDue : Bool

def handleConnected (env : Env) (c : Connection) (eid : Bytes) (connected : Bool) :
    Run Connection :=
  if connected ∧ c.sendbuf.fullbytes = 0 then
    { c with connecting := false }.initiateContact env eid
  else c.breakContact env .broken

def handleInput (env : Env) (c : Connection) (ev : PollEvents) : Run Connection :=
  if c.contactBroken then pure c
  else
    match ev.input with
    | none => pure c
    | some r => do
        let c ← c.receive env r
        if c.contactUp ∧ c.contactBroken = false then c.checkKeepalive env ev.keepaliveDue
        else pure c

/-- `handle_poll_activity`. Write readiness is reported only if the thread polls for it. -/
def handlePollActivity (env : Env) (c : Connection) (eid : Bytes) (ev : PollEvents) :
    Run Connection :=
  if ev.error then c.breakContact env .broken
  else if ev.writeReady ∧ c.pollout then
    let c := { c with pollout := false }
    if c.connecting then c.handleConnected env eid ev.connected
    else do
      let c ← c.sendData env
      c.handleInput env ev
  else c.handleInput env ev

/-- The start of the thread: an accepted connection, or one whose `connect` succeeds at once, is in
progress or fails. -/
inductive Opening where
  | accepted
  | connected
  | inProgress
  | failed
deriving DecidableEq, Repr

def start (env : Env) (c : Connection) (eid : Bytes) : Opening → Run Connection
  | .accepted | .connected => c.initiateContact env eid
  | .inProgress => pure { c with connecting := true, pollout := true }
  | .failed => c.breakContact env .broken

/-- What the thread of a connection does, and the bundles that the daemon queues meanwhile. -/
inductive Step where
  | sendPendingData
  | pollTimeout (t : Timers)
  | pollActivity (ev : PollEvents)
  | cancelBundle (id : Nat)
  | breakContact
  | queueBundle (x : XmitBundle)

/-- A step. The thread ends when the contact is broken. -/
def step (env : Env) (eid : Bytes) (c : Connection) : Step → Run Connection
  | .queueBundle x => pure { c with link := c.link.queueBundle x }
  | .sendPendingData => if c.contactBroken then pure c else c.sendPendingData env
  | .pollTimeout t => if c.contactBroken then pure c else c.handlePollTimeout env t
  | .pollActivity ev => if c.contactBroken then pure c else c.handlePollActivity env eid ev
  | .cancelBundle id => if c.contactBroken then pure c else pure (c.handleCancelBundle id)
  | .breakContact => if c.contactBroken then pure c else c.breakContact env .user

end Connection

end Dtn2.SeqpacketConvergenceLayer
