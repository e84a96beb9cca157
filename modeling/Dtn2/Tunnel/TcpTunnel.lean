import Dtn2.Bundling.Sdnv
import Dtn2.Framework.BigEndian
import Dtn2.Framework.Resequence
import Mathlib.Logic.Function.Basic

/-!
# TCP connections over bundles

`dtntunnel` takes what it reads from a TCP connection, cuts it into bundles with sequence numbers and sends
them to the tunnel at the other side, which opens a connection of its own and writes the data there. Bundles
may be lost, repeated and reordered on the way. Both tunnels run the same code, and data goes in both
directions.

A tunnel is modelled with all connections it has ever made, in the order in which they were made. The place
in this list stands for the pointer to the object. What a connection has done so far is kept beside its
state.
-/

namespace Dtn2

open Framework

/-- `DTNTunnel::BundleHeader`. The addresses are numbers in network order. -/
structure BundleHeader where
  protocol : UInt8
  eof : UInt8
  connectionId : UInt32
  seqno : UInt32
  clientAddr : UInt32
  remoteAddr : UInt32
  clientPort : UInt16
  remotePort : UInt16
deriving DecidableEq, Repr

namespace BundleHeader

/-- `sizeof(BundleHeader)`. -/
def size : Nat := 22

def bytes (h : BundleHeader) : Bytes :=
  [h.protocol, h.eof] ++ BigEndian.encode 4 h.connectionId.toNat ++ BigEndian.encode 4 h.seqno.toNat ++
    BigEndian.encode 4 h.clientAddr.toNat ++ BigEndian.encode 4 h.remoteAddr.toNat ++
    BigEndian.encode 2 h.clientPort.toNat ++ BigEndian.encode 2 h.remotePort.toNat

/-- The field of some bytes at a place. -/
def field (d : Bytes) (i n : Nat) : Nat := BigEndian.decode ((d.drop i).take n)

/-- The header in front of a payload. -/
def ofBytes (d : Bytes) : BundleHeader where
  protocol := d.getD 0 0
  eof := d.getD 1 0
  connectionId := UInt32.ofNat (field d 2 4)
  seqno := UInt32.ofNat (field d 6 4)
  clientAddr := UInt32.ofNat (field d 10 4)
  remoteAddr := UInt32.ofNat (field d 14 4)
  clientPort := UInt16.ofNat (field d 18 2)
  remotePort := UInt16.ofNat (field d 20 2)

@[simp] theorem length_bytes (h : BundleHeader) : h.bytes.length = size := by
  simp [bytes, size]

theorem ofBytes_bytes (h : BundleHeader) (d : Bytes) : ofBytes (h.bytes ++ d) = h := by
  have h32 (x : UInt32) : UInt32.ofNat (BigEndian.decode (BigEndian.encode 4 x.toNat)) = x := by
    rw [BigEndian.decode_encode_of_lt x.toNat_lt, UInt32.ofNat_toNat]
  have h16 (x : UInt16) : UInt16.ofNat (BigEndian.decode (BigEndian.encode 2 x.toNat)) = x := by
    rw [BigEndian.decode_encode_of_lt x.toNat_lt, UInt16.ofNat_toNat]
  have hconnection : field (h.bytes ++ d) 2 4 = BigEndian.decode (BigEndian.encode 4 h.connectionId.toNat) :=
    rfl
  have hseqno : field (h.bytes ++ d) 6 4 = BigEndian.decode (BigEndian.encode 4 h.seqno.toNat) := rfl
  have hclient : field (h.bytes ++ d) 10 4 = BigEndian.decode (BigEndian.encode 4 h.clientAddr.toNat) := rfl
  have hremote : field (h.bytes ++ d) 14 4 = BigEndian.decode (BigEndian.encode 4 h.remoteAddr.toNat) := rfl
  have hcport : field (h.bytes ++ d) 18 2 = BigEndian.decode (BigEndian.encode 2 h.clientPort.toNat) := rfl
  have hrport : field (h.bytes ++ d) 20 2 = BigEndian.decode (BigEndian.encode 2 h.remotePort.toNat) := rfl
  rw [ofBytes, hconnection, hseqno, hclient, hremote, hcport, hrport, h32, h32, h32, h32, h16, h16]
  rfl

theorem drop_bytes (h : BundleHeader) (d : Bytes) : (h.bytes ++ d).drop size = d :=
  List.drop_left' h.length_bytes

end BundleHeader

namespace TCPTunnel

def ipprotoTcp : UInt8 := 6

/-- `TCPTunnel::ConnKey`. -/
structure ConnKey where
  endpointId : Bytes
  clientAddr : UInt32
  clientPort : UInt16
  remoteAddr : UInt32
  remotePort : UInt16
  connectionId : UInt32
deriving DecidableEq, Repr

/-- What the thread of a connection does: it opens its socket, runs its loop, has left the loop, or is over. -/
inductive Phase where
  | connecting
  | running
  | closing
  | over
deriving DecidableEq, Repr

/-- What a connection has done: the bytes read from its socket and written to it, the payloads that the
daemon has taken, those that were handed to the connection, those put into its queue, and whether it has closed
its socket because of an eof. -/
structure Trace where
  read : Bytes
  written : Bytes
  sent : List Bytes
  handled : List Bytes
  delivered : List Bytes
  closed : Bool
deriving DecidableEq, Repr

/-- `TCPTunnel::Connection` with the local variables of its `run`. The key has its parameters. -/
structure Connection where
  key : ConnKey
  phase : Phase
  queue : List Bytes
  reorderTable : List (UInt32 × Bytes)
  nextSeqno : UInt32
  sendSeqno : UInt32
  nextRecvSeqno : UInt32
  totalSent : UInt32
  sockEof : Bool
  dtnBlocked : Bool
  first : Bool
  bXmit : Option Bytes
  trace : Trace
deriving DecidableEq, Repr

/-- What `send_bundle` returns. -/
inductive SendStatus where
  | success
  | noSpace
  | failed
deriving DecidableEq, Repr

/-- What becomes of a connection to a remote host: it is there, its socket cannot be bound, or it fails, and
the bundle that says so is sent or not. -/
inductive Opening where
  | established
  | unbound
  | refused (status : SendStatus)
deriving DecidableEq, Repr

/-- What a round of the loop meets: whether `poll` fails, what it reports about the queue and the socket, what
the socket gives (nothing for an error), whether the delay is over, what becomes of the bundle, after how many
bytes a write to the socket fails, and what becomes of the bundle with the eof. -/
structure Round where
  error : Bool
  msgReady : Bool
  sockReady : Bool
  received : Option Bytes
  expired : Bool
  status : SendStatus
  writeFails : Option Nat
  eofStatus : SendStatus
deriving DecidableEq, Repr

/-- Where control goes: to the next statement, to the next round, to `done`, or out of the process. -/
inductive Next where
  | proceed
  | again
  | done
  | exit
deriving DecidableEq, Repr

def seqnoOf (payload : Bytes) : UInt32 := (BundleHeader.ofBytes payload).seqno

namespace Connection

def new (key : ConnKey) (phase : Phase) : Connection :=
  ⟨key, phase, [], [], 0, 0, 0, 0, false, false, true, none, ⟨[], [], [], [], [], false⟩⟩

/-- `hdr` of `run`. -/
def header (key : ConnKey) (eof : UInt8) (seqno : UInt32) : BundleHeader :=
  ⟨ipprotoTcp, eof, key.connectionId, seqno, key.clientAddr, key.remoteAddr, key.clientPort, key.remotePort⟩

/-- A bundle is put into the queue. -/
def deliver (c : Connection) (b : Bytes) : Connection :=
  { c with
    queue := c.queue ++ [b]
    nextSeqno := c.nextSeqno + 1
    trace := { c.trace with delivered := c.trace.delivered ++ [b] } }

/-- `reorder_table_.erase`. -/
def erase (table : List (UInt32 × Bytes)) (seqno : UInt32) : List (UInt32 × Bytes) :=
  table.filter fun e => e.1 ≠ seqno

/-- At most `n` bundles of the reorder table that are next. -/
def drainFrom : Nat → Connection → Connection
  | 0, c => c
  | n + 1, c =>
      match c.reorderTable.find? fun e => e.1 = c.nextSeqno with
      | none => c
      | some e => drainFrom n ({ c with reorderTable := erase c.reorderTable c.nextSeqno }.deliver e.2)

/-- The loop over the reorder table. Every round takes a bundle out of it. -/
def drain (c : Connection) : Connection := drainFrom c.reorderTable.length c

/-- `Connection::handle_bundle`. -/
def handleBundle (c : Connection) (b : Bytes) : Connection :=
  let c := { c with trace := { c.trace with handled := c.trace.handled ++ [b] } }
  let recvSeqno := seqnoOf b
  if recvSeqno < c.nextSeqno then c
  else if recvSeqno ≠ c.nextSeqno then
    { c with reorderTable := (recvSeqno, b) :: erase c.reorderTable recvSeqno }
  else (c.deliver b).drain

/-- A new outgoing bundle with its header. -/
def newBundle (c : Connection) : Connection :=
  { c with
    first := false
    bXmit := some (header c.key 0 c.sendSeqno).bytes
    sendSeqno := c.sendSeqno + 1 }

/-- The data on the socket goes into the outgoing bundle `b`, as far as there is room. Nothing is left for an
error. -/
def readSocket (maxSize : UInt32) (received : Option Bytes) (b : Bytes) (c : Connection) : Option Connection :=
  let payloadTodo := maxSize - UInt32.ofNat b.length
  if payloadTodo = 0 then some c
  else
    match received with
    | none => none
    | some d =>
        let d := d.take payloadTodo.toNat
        if d = [] then some { c with bXmit := some (b.set 1 1), sockEof := true }
        else some { c with bXmit := some (b ++ d), trace := { c.trace with read := c.trace.read ++ d } }

/-- The outgoing bundle is sent when it is the last one, when it is full, or when the delay is over. -/
def sendBundle (maxSize : UInt32) (r : Round) (c : Connection) : Connection × Next :=
  match c.bXmit with
  | none => (c, .proceed)
  | some b =>
      if c.sockEof ∨ b.length = maxSize.toNat ∨ r.expired then
        match r.status with
        | .success =>
            ({ c with
                totalSent := c.totalSent + UInt32.ofNat b.length
                bXmit := none
                dtnBlocked := false
                trace := { c.trace with sent := c.trace.sent ++ [b] } }, .proceed)
        | .noSpace => ({ c with dtnBlocked := true }, .again)
        | .failed => (c, .exit)
      else (c, .proceed)

/-- The eof of a bundle that was received: the eof goes back if the socket has not had one. -/
def close (r : Round) (c : Connection) : Connection × Next :=
  if c.sockEof then ({ c with trace := { c.trace with closed := true } }, .done)
  else
    match r.eofStatus with
    | .success =>
        ({ c with
            sockEof := true
            sendSeqno := c.sendSeqno + 1
            trace := { c.trace with
              sent := c.trace.sent ++ [(header c.key 1 c.sendSeqno).bytes]
              closed := true } }, .done)
    | _ => ({ c with sockEof := true, sendSeqno := c.sendSeqno + 1 }, .exit)

/-- The next bundle of the queue is written to the socket. -/
def receive (r : Round) (c : Connection) : Connection × Next :=
  match c.queue with
  | [] => (c, .again)
  | b :: queue =>
      let c := { c with queue := queue }
      if seqnoOf b ≠ c.nextRecvSeqno then (c, .done)
      else
        let c := { c with nextRecvSeqno := c.nextRecvSeqno + 1 }
        let data := b.drop BundleHeader.size
        match r.writeFails with
        | some n => ({ c with trace := { c.trace with written := c.trace.written ++ data.take n } }, .done)
        | none =>
            let c := { c with trace := { c.trace with written := c.trace.written ++ data } }
            if (BundleHeader.ofBytes b).eof ≠ 0 then close r c else (c, .again)

/-- A round of the loop of `run`. The socket is not looked at after its eof, and not while the daemon has no
space. -/
def round (maxSize : UInt32) (r : Round) (c : Connection) : Connection × Next :=
  if r.error then (c, .done)
  else
    let sockReady := r.sockReady && !(c.sockEof || c.dtnBlocked)
    let c := if (c.first || sockReady) && c.bXmit.isNone then c.newBundle else c
    let filled :=
      match sockReady, c.bXmit with
      | true, some b => c.readSocket maxSize r.received b
      | _, _ => some c
    match filled with
    | none => (c, .done)
    | some c =>
        let done := c.sendBundle maxSize r
        if done.2 = .proceed then
          if r.msgReady then done.1.receive r else (done.1, .again)
        else done

/-- The start of `run` for a connection to a remote host: an empty bundle with the eof goes back when it
fails. -/
def connect (o : Opening) (c : Connection) : Connection × Next :=
  match o with
  | .established => (c, .again)
  | .unbound => (c, .done)
  | .refused .success =>
      ({ c with trace := { c.trace with sent := c.trace.sent ++ [(header c.key 1 0).bytes] } }, .done)
  | .refused _ => (c, .exit)

end Connection

end TCPTunnel

/-- A tunnel with its connections, the table of those that are in use, and the bundles that wait for a
connection. It keeps the bundles that have arrived, with their sources. -/
structure TCPTunnel where
  localEid : Bytes
  maxSize : UInt32
  connections : TCPTunnel.ConnKey → Option Nat
  noConnBundles : TCPTunnel.ConnKey → Option (List Bytes)
  nextConnectionId : UInt32
  conns : List TCPTunnel.Connection
  exited : Bool
  arrived : List (Bytes × Bytes)

namespace TCPTunnel

def new (localEid : Bytes) (maxSize : UInt32) : TCPTunnel :=
  ⟨localEid, maxSize, fun _ => none, fun _ => none, 0, [], false, []⟩

/-- The key of a bundle from a source. -/
def keyOf (source payload : Bytes) : ConnKey :=
  let hdr := BundleHeader.ofBytes payload
  ⟨source, hdr.clientAddr, hdr.clientPort, hdr.remoteAddr, hdr.remotePort, hdr.connectionId⟩

def modifyConn (t : TCPTunnel) (i : Nat) (f : Connection → Connection) : TCPTunnel :=
  { t with conns := t.conns.modify i f }

/-- A new connection in the table. -/
def create (t : TCPTunnel) (key : ConnKey) (phase : Phase) : TCPTunnel :=
  { t with
    conns := t.conns ++ [Connection.new key phase]
    connections := Function.update t.connections key (some t.conns.length) }

/-- A bundle goes to its connection, and behind it those that have waited for one. -/
def deliverTo (t : TCPTunnel) (i : Nat) (key : ConnKey) (payload : Bytes) : TCPTunnel :=
  let t := t.modifyConn i (·.handleBundle payload)
  match t.noConnBundles key with
  | none => t
  | some vec =>
      { t with noConnBundles := Function.update t.noConnBundles key none }.modifyConn i fun c =>
        vec.foldl Connection.handleBundle c

/-- `TCPTunnel::handle_bundle`. -/
def handleBundle (t : TCPTunnel) (source payload : Bytes) : TCPTunnel :=
  let t := { t with arrived := t.arrived ++ [(source, payload)] }
  let key := keyOf source payload
  match t.connections key with
  | none =>
      if seqnoOf payload = 0 then (t.create key .connecting).deliverTo t.conns.length key payload
      else
        { t with
          noConnBundles :=
            Function.update t.noConnBundles key (some ((t.noConnBundles key).getD [] ++ [payload])) }
  | some i => t.deliverTo i key payload

/-- `DTNTunnel::handle_bundle`. Bundles of other protocols are not for this class. -/
def dtnHandleBundle (t : TCPTunnel) (source payload : Bytes) : TCPTunnel :=
  if payload.length < BundleHeader.size then t
  else if (BundleHeader.ofBytes payload).protocol = ipprotoTcp then t.handleBundle source payload
  else t

/-- `Listener::accepted` for a host with an endpoint id, with `next_connection_id` and `new_connection`. A
connection with a key that is in the table is not entered, but runs. -/
def accepted (t : TCPTunnel) (dest : Bytes) (clientAddr : UInt32) (clientPort : UInt16) (remoteAddr : UInt32)
    (remotePort : UInt16) : TCPTunnel :=
  let id := t.nextConnectionId + 1
  let key : ConnKey := ⟨dest, clientAddr, clientPort, remoteAddr, remotePort, id⟩
  let t := { t with nextConnectionId := id }
  match t.connections key with
  | some _ => { t with conns := t.conns ++ [Connection.new key .running] }
  | none => t.create key .running

/-- `kill_connection`. The entry of the table may be another connection's. -/
def killConnection (t : TCPTunnel) (i : Nat) (key : ConnKey) : TCPTunnel :=
  if t.connections key = some i then { t with connections := Function.update t.connections key none } else t

/-- The thread of a connection takes a step of its own, and is in its loop, has left it, or takes the process
with it. -/
def advance (t : TCPTunnel) (i : Nat) (phase : Phase) (f : Connection → Connection × Next) : TCPTunnel :=
  match t.conns[i]? with
  | none => t
  | some c =>
      if c.phase ≠ phase then t
      else
        let done := f c
        match done.2 with
        | .done => t.modifyConn i fun _ => { done.1 with phase := .closing }
        | .exit => { t.modifyConn i fun _ => done.1 with exited := true }
        | _ => t.modifyConn i fun _ => { done.1 with phase := .running }

/-- The thread of a connection ends. -/
def finish (t : TCPTunnel) (i : Nat) : TCPTunnel :=
  match t.conns[i]? with
  | none => t
  | some c =>
      if c.phase ≠ .closing then t
      else (t.killConnection i c.key).modifyConn i fun c => { c with phase := .over }

/-! ## Tunnels and bundles -/

/-- What happens: a listener accepts a connection, a connection to a host is made or not, a connection does a
round or ends, or a bundle arrives: the `j`-th that connection `i` of `x` has sent. -/
inductive Event (ι : Type) where
  | accepted (x : ι) (dest : Bytes) (clientAddr : UInt32) (clientPort : UInt16) (remoteAddr : UInt32)
      (remotePort : UInt16)
  | connected (x : ι) (i : Nat) (o : Opening)
  | round (x : ι) (i : Nat) (r : Round)
  | finished (x : ι) (i : Nat)
  | arrives (y x : ι) (i j : Nat)

/-- The payload number `j` that connection `i` has sent, with its destination. -/
def sentBundle (t : TCPTunnel) (i j : Nat) : Option (Bytes × Bytes) := do
  let c ← t.conns[i]?
  let b ← c.trace.sent[j]?
  pure (c.key.endpointId, b)

variable {ι : Type} [DecidableEq ι]

/-- A tunnel after the arrival of a bundle, if it is the destination. -/
def arrive (nodes : ι → TCPTunnel) (y x : ι) (i j : Nat) : TCPTunnel :=
  match (nodes x).sentBundle i j with
  | none => nodes y
  | some (dest, payload) =>
      if dest = (nodes y).localEid then (nodes y).dtnHandleBundle (nodes x).localEid payload else nodes y

/-- The tunnel at which something happens, afterwards. Bundles may be lost, arrive late, and arrive more than
once. -/
def stepAt (nodes : ι → TCPTunnel) : Event ι → ι × TCPTunnel
  | .accepted x dest clientAddr clientPort remoteAddr remotePort =>
      (x, (nodes x).accepted dest clientAddr clientPort remoteAddr remotePort)
  | .connected x i o => (x, (nodes x).advance i .connecting (Connection.connect o))
  | .round x i r => (x, (nodes x).advance i .running (Connection.round (nodes x).maxSize r))
  | .finished x i => (x, (nodes x).finish i)
  | .arrives y x i j => (y, arrive nodes y x i j)

/-- Nothing happens in a process that has exited. -/
def step (nodes : ι → TCPTunnel) (e : Event ι) : ι → TCPTunnel :=
  let done := stepAt nodes e
  if (nodes done.1).exited then nodes else Function.update nodes done.1 done.2

def run (nodes : ι → TCPTunnel) (es : List (Event ι)) : ι → TCPTunnel := es.foldl step nodes

/-- Tunnels without connections. -/
def start (localEid : ι → Bytes) (maxSize : ι → UInt32) : ι → TCPTunnel := fun x => new (localEid x) (maxSize x)

end TCPTunnel

end Dtn2
