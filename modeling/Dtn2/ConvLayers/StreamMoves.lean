import Mathlib.Logic.Relation
import Dtn2.ConvLayers.StreamReceive

/-!
# The moves of a connection

Every function of the stream convergence layer is a row of small moves: a message goes into the
send buffer, the buffer is drained, a record changes, a message is taken from the receive buffer.
`Move` lists them with the conditions under which the code makes them. What holds for the records
of the bundles in flight in every state, whatever the peer sends, is collected in `SendInv`.
-/

namespace Dtn2

open Framework

namespace InFlightBundle

/-- The number of bytes of the bundle put into the send buffer. -/
def sent (x : InFlightBundle) : Nat := x.sentData.card

/-- The number of bytes of the bundle the peer has acknowledged. -/
def acked (x : InFlightBundle) : Nat := x.ackData.card

/-- The bookkeeping of a record agrees with its bundle. -/
structure Sound (x : InFlightBundle) : Prop where
  total : x.totalLength = u32 x.xmit.bytes.length
  pos : x.totalLength ≠ 0
  sentData : x.sentData = Finset.range x.sent
  le : x.sent ≤ x.totalLength
  complete : x.sendComplete = decide (x.sent = x.xmit.bytes.length)
  ackData : x.ackData = Finset.range x.acked

/-- The record after `k` more bytes of the bundle have been sent. -/
def advance (x : InFlightBundle) (k : Nat) : InFlightBundle :=
  { x with
    sendComplete := decide (x.sent + k = x.xmit.bytes.length)
    sentData := x.sentData.set x.sent k }

/-- The record after an acknowledgement of the first `n` bytes. -/
def acknowledge (x : InFlightBundle) (n : Nat) : InFlightBundle :=
  { x with ackData := x.ackData.set 0 n }

@[simp] theorem advance_entry (x : InFlightBundle) (k : Nat) : (x.advance k).entry = x.entry := rfl

@[simp] theorem advance_xmit (x : InFlightBundle) (k : Nat) : (x.advance k).xmit = x.xmit := rfl

@[simp] theorem advance_acked (x : InFlightBundle) (k : Nat) : (x.advance k).acked = x.acked := rfl

@[simp] theorem advance_totalLength (x : InFlightBundle) (k : Nat) :
    (x.advance k).totalLength = x.totalLength := rfl

@[simp] theorem acknowledge_entry (x : InFlightBundle) (n : Nat) :
    (x.acknowledge n).entry = x.entry := rfl

@[simp] theorem acknowledge_xmit (x : InFlightBundle) (n : Nat) :
    (x.acknowledge n).xmit = x.xmit := rfl

@[simp] theorem acknowledge_sent (x : InFlightBundle) (n : Nat) :
    (x.acknowledge n).sent = x.sent := rfl

@[simp] theorem acknowledge_totalLength (x : InFlightBundle) (n : Nat) :
    (x.acknowledge n).totalLength = x.totalLength := rfl

@[simp] theorem new_sent (entry : Nat) (x : XmitBundle) : (new entry x).sent = 0 := rfl

@[simp] theorem new_acked (entry : Nat) (x : XmitBundle) : (new entry x).acked = 0 := rfl

namespace Sound

variable {x : InFlightBundle}

theorem sent_lt (h : x.Sound) : x.sent < 2 ^ 32 := by
  have hle := h.le
  have hlt := u32_lt x.xmit.bytes.length
  rw [← h.total] at hlt
  omega

theorem total_le (h : x.Sound) : x.totalLength ≤ x.xmit.bytes.length := by
  rw [h.total]
  exact u32_le _

theorem bytesSent_eq (h : x.Sound) : x.bytesSent = x.sent := by
  have hlt := h.sent_lt
  rw [bytesSent]
  split
  · rename_i hzero
    rw [h.sentData, SparseBitmap.range_eq_empty] at hzero
    exact hzero.symm
  · rename_i hne
    rw [h.sentData, SparseBitmap.range_eq_empty] at hne
    rw [h.sentData, SparseBitmap.last_range hne, u32_of_lt hlt]

theorem numContiguous_sent (h : x.Sound) : x.sentData.numContiguous = x.sent := by
  rw [h.sentData, SparseBitmap.numContiguous_range]

theorem numContiguous_acked (h : x.Sound) : x.ackData.numContiguous = x.acked := by
  rw [h.ackData, SparseBitmap.numContiguous_range]

theorem sent_eq_zero (h : x.Sound) : x.sentData = ∅ ↔ x.sent = 0 := by
  rw [h.sentData, SparseBitmap.range_eq_empty]

theorem sent_advance (h : x.Sound) (k : Nat) : (x.advance k).sent = x.sent + k := by
  show (x.sentData.set x.sent k).card = x.sent + k
  rw [h.sentData, SparseBitmap.range_set, Finset.card_range]

theorem acked_acknowledge (h : x.Sound) (n : Nat) : (x.acknowledge n).acked = max x.acked n := by
  show (x.ackData.set 0 n).card = max x.acked n
  rw [h.ackData, SparseBitmap.range_set_zero, Finset.card_range]

/-- The acknowledged part begins at the first byte, so it ends where it is long. -/
theorem ackBegin_eq (h : x.Sound) (hlt : x.acked < 2 ^ 32) :
    StreamConvergenceLayer.Connection.ackBegin x = x.acked := by
  rw [StreamConvergenceLayer.Connection.ackBegin]
  cases hfirst : x.ackData.first with
  | none =>
      rw [h.ackData, SparseBitmap.first_eq_none, SparseBitmap.range_eq_empty] at hfirst
      exact hfirst.symm
  | some i =>
      have hi : i = 0 := by
        obtain ⟨hmem, hmin⟩ := SparseBitmap.first_eq_some hfirst
        rw [h.ackData, Finset.mem_range] at hmem
        have hzero : 0 ∈ x.ackData := by
          rw [h.ackData, Finset.mem_range]
          omega
        have := hmin 0 hzero
        omega
      subst hi
      show u32 (0 + x.ackData.numContiguous) = x.acked
      rw [Nat.zero_add, h.numContiguous_acked, u32_of_lt hlt]

theorem advance (h : x.Sound) {k : Nat} (hle : x.sent + k ≤ x.totalLength) : (x.advance k).Sound where
  total := h.total
  pos := h.pos
  sentData := by
    rw [h.sent_advance]
    show x.sentData.set x.sent k = _
    rw [h.sentData, SparseBitmap.range_set]
  le := by
    rw [h.sent_advance]
    exact hle
  complete := by
    rw [h.sent_advance]
    rfl
  ackData := h.ackData

theorem acknowledge (h : x.Sound) (n : Nat) : (x.acknowledge n).Sound where
  total := h.total
  pos := h.pos
  sentData := h.sentData
  le := h.le
  complete := h.complete
  ackData := by
    rw [h.acked_acknowledge]
    show x.ackData.set 0 n = _
    rw [h.ackData, SparseBitmap.range_set_zero]

theorem posted (h : x.Sound) : { x with transmitEventPosted := true }.Sound :=
  ⟨h.total, h.pos, h.sentData, h.le, h.complete, h.ackData⟩

end Sound

theorem sound_new (entry : Nat) (x : XmitBundle) (h : (new entry x).totalLength ≠ 0) :
    (new entry x).Sound where
  total := by
    show u32 (BundleProtocol.totalLength x.blocks) = _
    rw [x.totalLength_eq]
    rfl
  pos := h
  sentData := rfl
  le := by simp
  complete := by
    have hpos := x.bytes_pos
    show false = decide (0 = x.bytes.length)
    rw [eq_comm, decide_eq_false_iff_not]
    omega
  ackData := rfl

end InFlightBundle

namespace StreamConvergenceLayer

open BundleProtocol InFlightBundle Connection

/-! ## The invariant of the sending side -/

/-- The list of bundles in flight: those that are finished, and the one that is being sent. -/
structure SendShape (c : Connection) (fin : List InFlightBundle) (cur : Option InFlightBundle) :
    Prop where
  inflight : c.inflight = fin ++ cur.toList
  current : c.currentInflight = cur.map InFlightBundle.entry
  finished : ∀ x ∈ fin, x.sent = x.totalLength
  todo : c.sendSegmentTodo ≠ 0 → ∃ x, cur = some x ∧ x.sent + c.sendSegmentTodo ≤ x.totalLength
  plain : c.params.segmentAckEnabled = false → fin = []

/-- What holds for the bundles in flight in every state. -/
structure SendInv (c : Connection) : Prop where
  shape : ∃ fin cur, SendShape c fin cur
  sound : ∀ x ∈ c.inflight, x.Sound
  fresh : ∀ x ∈ c.inflight, x.entry < c.entries
  distinct : (c.inflight.map InFlightBundle.entry).Nodup
  acks : ∀ x ∈ c.inflight, x.acked < 2 ^ 32
  acks_front : ∀ x ∈ c.inflight.tail, x.acked = 0
  down : c.contactUp = false → c.inflight = [] ∧ c.incoming = [] ∧ c.recvSegmentTodo = 0

/-! ## Moves -/

/-- `handle_data_todo` finds a chunk and the parser takes it. -/
structure ChunkParsed (env : Env) (c : Connection) (y : IncomingBundle) (bundle : Bundle)
    (len : Nat) : Prop where
  back : c.incoming.getLast? = some y
  todo : c.recvSegmentTodo ≠ 0
  length : len = (c.recvbuf.full.take c.recvSegmentTodo).length
  pos : len ≠ 0
  parsed : ∃ last, consume env.params env.os y.bundle (c.recvbuf.full.take c.recvSegmentTodo) =
    .ok (bundle, toInt len, last)
  nonneg : 0 ≤ toInt len

/-- `check_completed` finds the bundle complete and of the right length. -/
def Complete (y : IncomingBundle) : Prop :=
  y.totalLength ≠ 0 ∧ u32 y.rcvdData.numContiguous = y.totalLength ∧
    y.totalLength = u32 (totalLength (y.bundle.recvBlocks.blocks.map fun b => ⟨b, none⟩))

/-- `check_completed` has to wait for more. -/
def Waiting (y : IncomingBundle) : Prop :=
  y.totalLength = 0 ∨ u32 y.rcvdData.numContiguous < y.totalLength

/-- The receive buffer begins with a type byte of this type, followed by a length. -/
structure Header (c : Connection) (type b : UInt8) (n len : Nat) : Prop where
  byte : ∃ t, c.recvbuf.full = b :: t
  type_eq : b &&& 0xf0 = type
  length : SDNV.decode32 (c.recvbuf.full.drop 1) = some (n, len)

/-- What other parties ask of a connection: the peer sends an acknowledgement, the daemon asks for
a bundle not to be sent. -/
inductive Input where
  | ack
  | cancel (bundleid : Nat)

/-- One move of a connection. The first group sends, the second receives. `A` is what is assumed
of the inputs, in the state they come in. -/
inductive Move (env : Env) (A : Input → Connection → Prop) (c : Connection) : Connection → Prop where
  | wrote (n : Nat) :
      Move env A c { c with
        sendbuf := c.sendbuf.consume (min n c.sendbuf.fullbytes)
        wire := c.wire ++ c.sendbuf.full.take n
        writes := c.writes + 1 }
  | writeFailed : Move env A c { c with writes := c.writes + 1 }
  | broke (reason : Reason) (breaking : Bool) :
      Move env A c { c with breakingContact := breaking, contactBroken := some reason }
  | shutdownPut (reason : Reason) (h : (shutdownMessage reason).length ≤ c.sendbuf.tailbytes) :
      sendsShutdown reason = true → c.sendbuf.full = [] → c.sendSegmentTodo = 0 →
      Move env A c { c with
        breakingContact := true, sendbuf := c.sendbuf.fill (shutdownMessage reason) h }
  | keepalivePut (h : [keepalive].length ≤ c.sendbuf.tailbytes) :
      c.sendbuf.full = [] → c.sendSegmentTodo = 0 →
      Move env A c { c with sendbuf := c.sendbuf.fill [keepalive] h }
  | ackPut (y : IncomingBundle) (rest : List IncomingBundle) (i : Nat)
      (h : (lengthMessage ackSegment (u32 (i + 1))).length ≤ c.sendbuf.tailbytes) :
      c.incoming = y :: rest → c.sendSegmentTodo = 0 → c.params.segmentAckEnabled = true →
      y.ackData.first = some i → u32 (i + 1) ≤ y.rcvdData.numContiguous →
      Move env A c { c with
        sendbuf := c.sendbuf.fill (lengthMessage ackSegment (u32 (i + 1))) h
        incoming := ackedRecord y i :: rest }
  | ackPassed (y : IncomingBundle) (rest : List IncomingBundle) (i : Nat) :
      c.incoming = y :: rest → c.params.segmentAckEnabled = false →
      y.ackData.first = some i → u32 (i + 1) ≤ y.rcvdData.numContiguous →
      Move env A c { c with incoming := ackedRecord y i :: rest }
  | incomingDone (y : IncomingBundle) (rest : List IncomingBundle) :
      c.incoming = y :: rest → y.totalLength ≠ 0 → y.totalLength = y.ackedLength →
      Move env A c { c with incoming := rest }
  | bundleTaken (fin : List InFlightBundle) (x : XmitBundle) (queue : List XmitBundle) :
      SendShape c fin none → c.contactUp = true → c.link.queue = x :: queue →
      (InFlightBundle.new c.entries x).totalLength ≠ 0 →
      Move env A c { c with
        inflight := c.inflight ++ [InFlightBundle.new c.entries x]
        currentInflight := some c.entries
        entries := c.entries + 1
        link := { (c.link.addToInflight x.bundleid) with queue := queue } }
  | headerPut (fin : List InFlightBundle) (x : InFlightBundle) (last : Bool) (len : Nat)
      (h : (lengthMessage (segmentByte (decide (x.sent = 0)) last) len).length ≤
        c.sendbuf.tailbytes) :
      SendShape c fin (some x) → c.sendSegmentTodo = 0 → x.sent ≠ x.totalLength →
      c.params.segmentLength ≠ 0 →
      len = min c.params.segmentLength (x.totalLength - x.sent) →
      last = decide (x.sent + len = x.totalLength) →
      Move env A c { c with
        sendbuf := c.sendbuf.fill (lengthMessage (segmentByte (decide (x.sent = 0)) last) len) h
        sendSegmentTodo := len }
  | chunkPut (fin : List InFlightBundle) (x : InFlightBundle) (k : Nat)
      (h : ((x.xmit.bytes.drop x.sent).take k).length ≤ c.sendbuf.tailbytes) :
      SendShape c fin (some x) → 0 < k → k ≤ c.sendSegmentTodo →
      Move env A c { c with
        sendbuf := c.sendbuf.fill ((x.xmit.bytes.drop x.sent).take k) h
        inflight := fin ++ [x.advance k]
        sendSegmentTodo := c.sendSegmentTodo - k }
  | finishWaiting (fin : List InFlightBundle) (x : InFlightBundle) :
      SendShape c fin (some x) → c.sendSegmentTodo = 0 → x.sent = x.totalLength →
      c.params.segmentAckEnabled = true → x.acked < x.totalLength →
      Move env A c { c with currentInflight := none }
  | finishAcked (x : InFlightBundle) :
      SendShape c [] (some x) → c.sendSegmentTodo = 0 → x.sent = x.totalLength →
      c.params.segmentAckEnabled = true → x.totalLength ≤ x.acked →
      Move env A c { c with currentInflight := none, inflight := [] }
  | finishPosted (x : InFlightBundle) :
      SendShape c [] (some x) → c.sendSegmentTodo = 0 → x.sent = x.totalLength →
      c.params.segmentAckEnabled = false →
      Move env A c { c with
        currentInflight := none
        inflight := []
        posted := c.posted ++ [.transmitted x.entry x.xmit.bundleid x.sent x.sent] }
  | cancelled (fin : List InFlightBundle) (x : InFlightBundle) :
      SendShape c fin (some x) → c.sendSegmentTodo = 0 → x.sent = 0 →
      A (.cancel x.xmit.bundleid) c →
      Move env A c { c with
        currentInflight := none
        inflight := fin
        posted := c.posted ++ [.sendCancelled x.entry x.xmit.bundleid] }
  | arrived (chunk : Bytes) (h : chunk.length ≤ c.recvbuf.tailbytes) :
      chunk ≠ [] → Move env A c { c with recvbuf := c.recvbuf.fill chunk h }
  | roomMade (n : Nat) : Move env A c { c with recvbuf := c.recvbuf.reserve n }
  | incomingOpened (b : UInt8) (t : Bytes) :
      c.contactUp = true → c.recvbuf.full = b :: t → b &&& 0xf0 = dataSegment →
      b &&& 0x0f &&& bundleStart ≠ 0 → c.recvSegmentTodo = 0 →
      (∀ y, c.incoming.getLast? = some y → ¬ (y.rcvdData = ∅ ∧ y.ackData = ∅) ∧
        y.totalLength ≠ 0) →
      Move env A c (c.newIncoming env)
  | segmentBegun (b : UInt8) (n len : Nat) (y : IncomingBundle) :
      c.contactUp = true → Header c dataSegment b n len → len ≠ 0 →
      c.incoming.getLast? = some y → c.recvSegmentTodo = 0 →
      (b &&& 0x0f &&& bundleStart ≠ 0 → y.rcvdData = ∅ ∧ y.ackData = ∅) →
      Move env A c ((skip c (1 + n)).beginSegment y (b &&& 0x0f) len)
  | chunkTaken (y : IncomingBundle) (bundle : Bundle) (len : Nat) :
      ChunkParsed env c y bundle len →
      (c.recvSegmentTodo - len ≠ 0 ∨ Waiting (chunkRecord y bundle len)) →
      Move env A c (chunkState c (chunkRecord y bundle len) len)
  | chunkDelivered (y : IncomingBundle) (bundle : Bundle) (len : Nat) :
      ChunkParsed env c y bundle len → c.recvSegmentTodo - len = 0 →
      Complete (chunkRecord y bundle len) →
      Move env A c { chunkState c (chunkRecord y bundle len) len with
        received := c.received ++ [⟨bundle, y.totalLength⟩] }
  | chunkSpoiled (y : IncomingBundle) (bundle : Bundle) (len : Nat) :
      ChunkParsed env c y bundle len → c.recvSegmentTodo - len = 0 →
      ¬ Waiting (chunkRecord y bundle len) → ¬ Complete (chunkRecord y bundle len) →
      Move env A c (chunkState c { chunkRecord y bundle len with rcvdData := ∅ } len)
  | zeroSegment (b : UInt8) (n : Nat) :
      Header c dataSegment b n 0 → c.recvSegmentTodo = 0 → Move env A c (skip c (1 + n))
  | ackPart (b : UInt8) (n acked : Nat) (x : InFlightBundle) (rest : List InFlightBundle) :
      c.contactUp = true → Header c ackSegment b n acked → c.inflight = x :: rest →
      ackBegin x ≤ acked → acked ≠ x.totalLength → c.recvSegmentTodo = 0 →
      A .ack c →
      Move env A c { skip c (1 + n) with inflight := x.acknowledge acked :: rest }
  | ackFinal (b : UInt8) (n : Nat) (x : InFlightBundle) (rest : List InFlightBundle) :
      c.contactUp = true → Header c ackSegment b n x.totalLength → c.inflight = x :: rest →
      ackBegin x ≤ x.totalLength → c.currentInflight = some x.entry → c.recvSegmentTodo = 0 →
      A .ack c →
      Move env A c { skip c (1 + n) with
        inflight := { x.acknowledge x.totalLength with transmitEventPosted := true } :: rest
        posted := c.posted ++ [.transmitted x.entry x.xmit.bundleid x.sent
          (x.acknowledge x.totalLength).acked] }
  | ackFinalDone (b : UInt8) (n : Nat) (x : InFlightBundle) (rest : List InFlightBundle) :
      c.contactUp = true → Header c ackSegment b n x.totalLength → c.inflight = x :: rest →
      ackBegin x ≤ x.totalLength → c.currentInflight ≠ some x.entry → c.recvSegmentTodo = 0 →
      A .ack c →
      Move env A c { skip c (1 + n) with
        inflight := rest
        posted := c.posted ++ [.transmitted x.entry x.xmit.bundleid x.sent
          (x.acknowledge x.totalLength).acked] }
  | strayAck (b : UInt8) (n acked : Nat) :
      Header c ackSegment b n acked →
      (∀ x, c.inflight.head? = some x → acked < ackBegin x) → c.recvSegmentTodo = 0 →
      Move env A c (skip c (1 + n))
  | keepaliveTaken (b : UInt8) (t : Bytes) :
      c.recvbuf.full = b :: t → b &&& 0xf0 = keepalive → c.recvSegmentTodo = 0 →
      Move env A c (skip c 1)
  | shutdownTaken (b : UInt8) (t : Bytes) :
      c.recvbuf.full = b :: t → b &&& 0xf0 = shutdown → c.recvSegmentTodo = 0 →
      shutdownLength (b &&& 0x0f) ≤ c.recvbuf.full.length →
      Move env A c (skip c (shutdownLength (b &&& 0x0f)))
  | negotiated (params : StreamLinkParams) (recvbuf : StreamBuffer UInt8) (up : Bool) :
      c.contactUp = false → params.segmentLength = c.params.segmentLength →
      Move env A c { c with params := params, recvbuf := recvbuf, contactUp := up }

def Moves (env : Env) (A : Input → Connection → Prop) : Connection → Connection → Prop := Relation.ReflTransGen (Move env A)

theorem Moves.keep {env : Env} {A : Input → Connection → Prop} {P : Connection → Prop} {c c' : Connection} (h : Moves env A c c')
    (hmove : ∀ a b, P a → Move env A a b → P b) (hc : P c) : P c' := by
  induction h with
  | refl => exact hc
  | tail _ hm ih => exact hmove _ _ ih hm

/-! ## Every move keeps the invariant -/

section Keep

variable {env : Env} {A : Input → Connection → Prop} {c c' : Connection}

theorem SendInv.congr (h : SendInv c) (hinflight : c'.inflight = c.inflight)
    (hcurrent : c'.currentInflight = c.currentInflight)
    (htodo : c'.sendSegmentTodo = c.sendSegmentTodo) (hparams : c'.params = c.params)
    (hentries : c'.entries = c.entries)
    (hdown : c'.contactUp = false → c'.incoming = [] ∧ c'.recvSegmentTodo = 0)
    (hup : c'.contactUp = c.contactUp) : SendInv c' := by
  obtain ⟨fin, cur, hshape⟩ := h.shape
  refine ⟨⟨fin, cur, ?_, ?_, hshape.finished, ?_, ?_⟩, ?_, ?_, ?_, ?_, ?_, ?_⟩
  · rw [hinflight]
    exact hshape.inflight
  · rw [hcurrent]
    exact hshape.current
  · rw [htodo]
    exact hshape.todo
  · rw [hparams]
    exact hshape.plain
  · rw [hinflight]
    exact h.sound
  · rw [hinflight, hentries]
    exact h.fresh
  · rw [hinflight]
    exact h.distinct
  · rw [hinflight]
    exact h.acks
  · rw [hinflight]
    exact h.acks_front
  · intro hfalse
    rw [hinflight]
    exact ⟨(h.down (hup ▸ hfalse)).1, hdown hfalse⟩

theorem SendShape.inflight_some {fin : List InFlightBundle} {x : InFlightBundle}
    (h : SendShape c fin (some x)) : c.inflight = fin ++ [x] := h.inflight

theorem SendShape.inflight_none {fin : List InFlightBundle} (h : SendShape c fin none) :
    c.inflight = fin := by
  rw [h.inflight, Option.toList_none, List.append_nil]

theorem SendShape.current_some {fin : List InFlightBundle} {x : InFlightBundle}
    (h : SendShape c fin (some x)) : c.currentInflight = some x.entry := h.current

theorem SendInv.current (h : SendInv c) {p : Nat} (hcur : c.currentInflight = some p) :
    ∃ fin x, SendShape c fin (some x) ∧ x.entry = p := by
  obtain ⟨fin, cur, hshape⟩ := h.shape
  cases cur with
  | none =>
      rw [hshape.current] at hcur
      cases hcur
  | some x => exact ⟨fin, x, hshape, Option.some.inj (hshape.current_some.symm.trans hcur)⟩

theorem SendShape.todo_some {fin : List InFlightBundle} {x : InFlightBundle}
    (h : SendShape c fin (some x)) (hne : c.sendSegmentTodo ≠ 0) :
    x.sent + c.sendSegmentTodo ≤ x.totalLength := by
  obtain ⟨y, hy, hle⟩ := h.todo hne
  cases hy
  exact hle

theorem SendShape.todo_none {fin : List InFlightBundle} (h : SendShape c fin none) :
    c.sendSegmentTodo = 0 := by
  by_contra hne
  obtain ⟨y, hy, -⟩ := h.todo hne
  cases hy

theorem SendInv.up_of_incoming (h : SendInv c) (hne : c.incoming ≠ []) : c.contactUp = true := by
  cases hup : c.contactUp with
  | true => rfl
  | false => exact absurd (h.down hup).2.1 hne

theorem SendInv.up_of_inflight (h : SendInv c) (hne : c.inflight ≠ []) : c.contactUp = true := by
  cases hup : c.contactUp with
  | true => rfl
  | false => exact absurd (h.down hup).1 hne

private theorem not_down {up : Bool} {P : Prop} (hup : up = true) (hf : up = false) : P := by
  rw [hup] at hf
  cases hf

private theorem tail_append_singleton {fin : List InFlightBundle} {x y : InFlightBundle}
    {P : InFlightBundle → Prop} (h : ∀ z ∈ (fin ++ [x]).tail, P z) (hy : fin ≠ [] → P x → P y) :
    ∀ z ∈ (fin ++ [y]).tail, P z := by
  cases fin with
  | nil => simp
  | cons a as =>
      intro z hz
      simp only [List.cons_append, List.tail_cons, List.mem_append, List.mem_singleton] at h hz
      rcases hz with hz | rfl
      · exact h z (Or.inl hz)
      · exact hy (by simp) (h x (Or.inr rfl))

private theorem SendInv.replace_current (h : SendInv c) {fin : List InFlightBundle}
    {x y : InFlightBundle} (hshape : SendShape c fin (some x)) (hy : y.Sound)
    (hentry : y.entry = x.entry) (hacked : y.acked = x.acked)
    (htodo : c'.sendSegmentTodo ≠ 0 → y.sent + c'.sendSegmentTodo ≤ y.totalLength)
    (hinflight : c'.inflight = fin ++ [y]) (hcurrent : c'.currentInflight = c.currentInflight)
    (hparams : c'.params = c.params) (hentries : c'.entries = c.entries)
    (hup : c'.contactUp = c.contactUp) : SendInv c' := by
  have hold := hshape.inflight_some
  have hmem : ∀ z ∈ fin, z ∈ c.inflight := by
    intro z hz
    rw [hold]
    exact List.mem_append_left _ hz
  have hx : x ∈ c.inflight := by
    rw [hold]
    simp
  have hall : ∀ {P : InFlightBundle → Prop}, (∀ z ∈ c.inflight, P z) → (P x → P y) →
      ∀ z ∈ c'.inflight, P z := by
    intro P hP hxy z hz
    rw [hinflight, List.mem_append, List.mem_singleton] at hz
    rcases hz with hz | rfl
    · exact hP z (hmem z hz)
    · exact hxy (hP x hx)
  refine ⟨⟨fin, some y, hinflight, ?_, hshape.finished, ?_, ?_⟩, ?_, ?_, ?_, ?_, ?_, ?_⟩
  · rw [hcurrent, hshape.current_some, ← hentry]
    rfl
  · intro hne
    exact ⟨y, rfl, htodo hne⟩
  · rw [hparams]
    exact hshape.plain
  · exact hall h.sound fun _ => hy
  · rw [hentries]
    exact hall h.fresh fun hlt => hentry ▸ hlt
  · have hdistinct := h.distinct
    rw [hold, List.map_append, List.map_singleton] at hdistinct
    rw [hinflight, List.map_append, List.map_singleton, hentry]
    exact hdistinct
  · exact hall h.acks fun hlt => hacked ▸ hlt
  · have hfront := h.acks_front
    rw [hold] at hfront
    rw [hinflight]
    exact tail_append_singleton hfront fun _ hzero => hacked ▸ hzero
  · intro hfalse
    have hnil := (h.down (hup ▸ hfalse)).1
    rw [hold] at hnil
    simp at hnil

private theorem SendInv.remove (h : SendInv c) (fin : List InFlightBundle)
    (cur : Option InFlightBundle) (hshape : SendShape c' fin cur)
    (hsub : List.Sublist c'.inflight c.inflight)
    (hfront : ∀ x ∈ c'.inflight.tail, x.acked = 0) (hentries : c'.entries = c.entries)
    (hup : c'.contactUp = true) : SendInv c' where
  shape := ⟨fin, cur, hshape⟩
  sound := fun x hx => h.sound x (hsub.subset hx)
  fresh := fun x hx => hentries ▸ h.fresh x (hsub.subset hx)
  distinct := h.distinct.sublist (hsub.map _)
  acks := fun x hx => h.acks x (hsub.subset hx)
  acks_front := hfront
  down := fun hf => not_down hup hf

private theorem SendInv.replace_front (h : SendInv c) {x y : InFlightBundle}
    {rest : List InFlightBundle} (hold : c.inflight = x :: rest) (hy : y.Sound)
    (hentry : y.entry = x.entry) (hsent : y.sent = x.sent)
    (htotal : y.totalLength = x.totalLength) (hacked : y.acked < 2 ^ 32)
    (hinflight : c'.inflight = y :: rest) (hcurrent : c'.currentInflight = c.currentInflight)
    (htodo : c'.sendSegmentTodo = c.sendSegmentTodo) (hparams : c'.params = c.params)
    (hentries : c'.entries = c.entries) (hup : c'.contactUp = c.contactUp) : SendInv c' := by
  obtain ⟨fin, cur, hshape⟩ := h.shape
  have hlist := hold.symm.trans hshape.inflight
  have hall : ∀ {P : InFlightBundle → Prop}, (∀ z ∈ c.inflight, P z) → P y →
      ∀ z ∈ c'.inflight, P z := by
    intro P hP hyP z hz
    rw [hinflight, List.mem_cons] at hz
    rcases hz with rfl | hz
    · exact hyP
    · exact hP z (by rw [hold]; exact List.mem_cons_of_mem _ hz)
  have hfresh : y.entry < c'.entries := by
    rw [hentry, hentries]
    exact h.fresh x (by rw [hold]; simp)
  refine ⟨?_, hall h.sound hy, hall (hentries ▸ h.fresh) hfresh, ?_, hall h.acks hacked, ?_, ?_⟩
  · cases fin with
    | nil =>
        cases cur with
        | none => simp at hlist
        | some z =>
            simp only [Option.toList_some, List.nil_append, List.cons.injEq] at hlist
            obtain ⟨rfl, rfl⟩ := hlist
            refine ⟨[], some y, hinflight, ?_, by simp, ?_, fun _ => rfl⟩
            · rw [hcurrent, hshape.current, Option.map_some, Option.map_some, hentry]
            · intro hne
              rw [htodo] at hne ⊢
              exact ⟨y, rfl, by rw [hsent, htotal]; exact hshape.todo_some hne⟩
    | cons z zs =>
        simp only [List.cons_append, List.cons.injEq] at hlist
        obtain ⟨rfl, rfl⟩ := hlist
        refine ⟨y :: zs, cur, hinflight, ?_, ?_, ?_, ?_⟩
        · rw [hcurrent]
          exact hshape.current
        · intro w hw
          rcases List.mem_cons.mp hw with rfl | hw
          · rw [hsent, htotal]
            exact hshape.finished x (by simp)
          · exact hshape.finished w (List.mem_cons_of_mem _ hw)
        · rw [htodo]
          exact hshape.todo
        · rw [hparams]
          intro hplain
          have := hshape.plain hplain
          simp at this
  · have hdistinct := h.distinct
    rw [hold, List.map_cons] at hdistinct
    rw [hinflight, List.map_cons, hentry]
    exact hdistinct
  · have hfront := h.acks_front
    rw [hold] at hfront
    rw [hinflight]
    exact hfront
  · intro hfalse
    have hnil := (h.down (hup ▸ hfalse)).1
    rw [hold] at hnil
    simp at hnil

theorem Header.length_lt {type b : UInt8} {n len : Nat} (h : Header c type b n len) :
    len < 2 ^ 32 := by
  have hlen := h.length
  rw [SDNV.decode32] at hlen
  dsimp only at hlen
  split at hlen
  · cases hlen
  · rename_i hle
    rw [Option.map_eq_some_iff] at hlen
    obtain ⟨m, -, hm⟩ := hlen
    rw [← (Prod.mk.inj hm).2]
    omega

theorem sendInv_move (h : SendInv c) (hm : Move env A c c') : SendInv c' := by
  cases hm with
  | wrote n => exact h.congr rfl rfl rfl rfl rfl (fun hf => (h.down hf).2) rfl
  | writeFailed => exact h.congr rfl rfl rfl rfl rfl (fun hf => (h.down hf).2) rfl
  | broke reason breaking => exact h.congr rfl rfl rfl rfl rfl (fun hf => (h.down hf).2) rfl
  | shutdownPut reason hlen _ _ _ => exact h.congr rfl rfl rfl rfl rfl (fun hf => (h.down hf).2) rfl
  | keepalivePut hlen _ _ => exact h.congr rfl rfl rfl rfl rfl (fun hf => (h.down hf).2) rfl
  | ackPut y rest i hlen hin _ _ _ _ =>
      have hup := h.up_of_incoming (by rw [hin]; simp)
      exact h.congr rfl rfl rfl rfl rfl (fun hf => not_down hup hf) rfl
  | ackPassed y rest i hin _ _ _ =>
      have hup := h.up_of_incoming (by rw [hin]; simp)
      exact h.congr rfl rfl rfl rfl rfl (fun hf => not_down hup hf) rfl
  | incomingDone y rest hin _ _ =>
      have hup := h.up_of_incoming (by rw [hin]; simp)
      exact h.congr rfl rfl rfl rfl rfl (fun hf => not_down hup hf) rfl
  | bundleTaken fin x queue hshape hup hqueue htotal =>
      have hnone := hshape.inflight_none
      refine ⟨⟨fin, some (InFlightBundle.new c.entries x), ?_, rfl, hshape.finished, ?_,
        hshape.plain⟩, ?_, ?_, ?_, ?_, ?_, ?_⟩
      · show c.inflight ++ _ = _
        rw [hnone]
        rfl
      · intro hne
        exact absurd hshape.todo_none hne
      · intro z hz
        rcases List.mem_append.mp hz with hz | hz
        · exact h.sound z hz
        · rw [List.mem_singleton.mp hz]
          exact sound_new c.entries x htotal
      · intro z hz
        show z.entry < c.entries + 1
        rcases List.mem_append.mp hz with hz | hz
        · have := h.fresh z hz
          omega
        · rw [List.mem_singleton.mp hz]
          show c.entries < c.entries + 1
          omega
      · show ((c.inflight ++ [InFlightBundle.new c.entries x]).map InFlightBundle.entry).Nodup
        rw [List.map_append, List.nodup_append]
        refine ⟨h.distinct, by simp, ?_⟩
        intro a ha b hb
        obtain ⟨z, hz, rfl⟩ := List.mem_map.mp ha
        rw [List.map_singleton, List.mem_singleton] at hb
        have hlt := h.fresh z hz
        rw [hb]
        exact Nat.ne_of_lt hlt
      · intro z hz
        rcases List.mem_append.mp hz with hz | hz
        · exact h.acks z hz
        · rw [List.mem_singleton.mp hz]
          show 0 < 2 ^ 32
          decide
      · intro z hz
        show z.acked = 0
        cases hlist : c.inflight with
        | nil =>
            simp only [hlist, List.nil_append, List.tail_cons] at hz
            cases hz
        | cons a as =>
            simp only [hlist, List.cons_append, List.tail_cons, List.mem_append,
              List.mem_singleton] at hz
            rcases hz with hz | rfl
            · exact h.acks_front z (by rw [hlist]; exact hz)
            · rfl
      · intro hf
        exact not_down hup hf
  | headerPut fin x last len hlen hshape _ hne _ hmin _ =>
      have hx := h.sound x (by rw [hshape.inflight_some]; simp)
      have hle : x.sent + len ≤ x.totalLength := by
        have := hx.le
        omega
      exact h.replace_current hshape hx rfl rfl (fun _ => hle) hshape.inflight_some rfl rfl rfl rfl
  | chunkPut fin x k hlen hshape hpos hle =>
      have hx := h.sound x (by rw [hshape.inflight_some]; simp)
      have htodo := hshape.todo_some (by omega)
      have hadv : (x.advance k).Sound := hx.advance (by omega)
      have hrest : (x.advance k).sent + (c.sendSegmentTodo - k) ≤ (x.advance k).totalLength := by
        rw [hx.sent_advance, advance_totalLength]
        omega
      exact h.replace_current hshape hadv rfl rfl (fun _ => hrest) rfl rfl rfl rfl rfl
  | finishWaiting fin x hshape htodo hsent hacks _ =>
      have hin := hshape.inflight_some
      refine h.remove (fin ++ [x]) none ⟨?_, rfl, ?_, ?_, ?_⟩
        (List.Sublist.refl _) h.acks_front rfl (h.up_of_inflight (by rw [hin]; simp))
      · show c.inflight = _
        rw [hin, Option.toList_none, List.append_nil]
      · intro z hz
        rcases List.mem_append.mp hz with hz | hz
        · exact hshape.finished z hz
        · rw [List.mem_singleton.mp hz]
          exact hsent
      · intro hne
        exact absurd htodo hne
      · intro hplain
        rw [show c.params.segmentAckEnabled = true from hacks] at hplain
        cases hplain
  | finishAcked x hshape htodo _ hacks _ =>
      have hin := hshape.inflight_some
      exact h.remove [] none ⟨rfl, rfl, by simp, fun hne => absurd htodo hne,
        fun _ => rfl⟩ (List.nil_sublist _) (by simp) rfl (h.up_of_inflight (by rw [hin]; simp))
  | finishPosted x hshape htodo _ hacks =>
      have hin := hshape.inflight_some
      exact h.remove [] none ⟨rfl, rfl, by simp, fun hne => absurd htodo hne,
        fun _ => rfl⟩ (List.nil_sublist _) (by simp) rfl (h.up_of_inflight (by rw [hin]; simp))
  | cancelled fin x hshape htodo hzero _ =>
      have hin := hshape.inflight_some
      have hsub : List.Sublist fin c.inflight := by
        rw [hin]
        exact List.sublist_append_left _ _
      refine h.remove fin none ⟨?_, rfl, hshape.finished,
        fun hne => absurd htodo hne, hshape.plain⟩ hsub ?_ rfl
        (h.up_of_inflight (by rw [hin]; simp))
      · simp
      · intro z hz
        apply h.acks_front z
        rw [hin]
        cases fin with
        | nil => simp at hz
        | cons a as =>
            rw [List.cons_append, List.tail_cons]
            exact List.mem_append_left _ hz
  | arrived chunk hlen _ => exact h.congr rfl rfl rfl rfl rfl (fun hf => (h.down hf).2) rfl
  | roomMade n => exact h.congr rfl rfl rfl rfl rfl (fun hf => (h.down hf).2) rfl
  | incomingOpened b t hup _ _ _ _ _ =>
      exact h.congr rfl rfl rfl rfl rfl (fun hf => not_down hup hf) rfl
  | segmentBegun b n len y hup _ _ _ _ _ =>
      exact h.congr rfl rfl rfl rfl rfl (fun hf => not_down hup hf) rfl
  | chunkTaken y bundle len hparsed _ =>
      have hup := h.up_of_incoming (by intro hnil; have := hparsed.back; rw [hnil] at this; cases this)
      exact h.congr rfl rfl rfl rfl rfl (fun hf => not_down hup hf) rfl
  | chunkDelivered y bundle len hparsed _ _ =>
      have hup := h.up_of_incoming (by intro hnil; have := hparsed.back; rw [hnil] at this; cases this)
      exact h.congr rfl rfl rfl rfl rfl (fun hf => not_down hup hf) rfl
  | chunkSpoiled y bundle len hparsed _ _ _ =>
      have hup := h.up_of_incoming (by intro hnil; have := hparsed.back; rw [hnil] at this; cases this)
      exact h.congr rfl rfl rfl rfl rfl (fun hf => not_down hup hf) rfl
  | zeroSegment b n _ _ => exact h.congr rfl rfl rfl rfl rfl (fun hf => (h.down hf).2) rfl
  | ackPart b n acked x rest hup hheader hin _ _ _ _ =>
      have hx := h.sound x (by rw [hin]; simp)
      have hlt := h.acks x (by rw [hin]; simp)
      have hlen := hheader.length_lt
      exact h.replace_front hin (hx.acknowledge acked) rfl rfl rfl
        (by rw [hx.acked_acknowledge]; omega) rfl rfl rfl rfl rfl rfl
  | ackFinal b n x rest hup hheader hin _ _ _ _ =>
      have hx := h.sound x (by rw [hin]; simp)
      have hlt := h.acks x (by rw [hin]; simp)
      have hlen := hheader.length_lt
      have hack : (x.acknowledge x.totalLength).acked < 2 ^ 32 := by
        rw [hx.acked_acknowledge]
        omega
      exact h.replace_front hin (hx.acknowledge _).posted rfl rfl rfl hack rfl rfl rfl rfl rfl rfl
  | ackFinalDone b n x rest hup hheader hin _ hcur _ _ =>
      obtain ⟨fin, cur, hshape⟩ := h.shape
      have hlist := hin.symm.trans hshape.inflight
      cases fin with
      | nil =>
          cases cur with
          | none => simp at hlist
          | some z =>
              simp only [Option.toList_some, List.nil_append, List.cons.injEq] at hlist
              exact absurd (hlist.1 ▸ hshape.current_some) hcur
      | cons z zs =>
          simp only [List.cons_append, List.cons.injEq] at hlist
          obtain ⟨rfl, rfl⟩ := hlist
          refine h.remove zs cur ⟨rfl, hshape.current, ?_, hshape.todo, ?_⟩
            ?_ ?_ rfl hup
          · intro w hw
            exact hshape.finished w (List.mem_cons_of_mem _ hw)
          · intro hplain
            have := hshape.plain hplain
            simp at this
          · rw [hin]
            exact List.sublist_cons_self _ _
          · intro w hw
            apply h.acks_front w
            rw [hin]
            exact List.mem_of_mem_tail hw
  | strayAck b n acked _ _ _ => exact h.congr rfl rfl rfl rfl rfl (fun hf => (h.down hf).2) rfl
  | keepaliveTaken b t _ _ _ => exact h.congr rfl rfl rfl rfl rfl (fun hf => (h.down hf).2) rfl
  | shutdownTaken b t _ _ _ _ => exact h.congr rfl rfl rfl rfl rfl (fun hf => (h.down hf).2) rfl
  | negotiated params recvbuf up hdown _ =>
      obtain ⟨hin, hincoming, hrecv⟩ := h.down hdown
      obtain ⟨fin, cur, hshape⟩ := h.shape
      have hnil := hin.symm.trans hshape.inflight
      cases cur with
      | some z => simp at hnil
      | none =>
          simp only [Option.toList_none, List.append_nil] at hnil
          subst hnil
          refine ⟨⟨[], none, hin, hshape.current, by simp, hshape.todo, fun _ => rfl⟩, h.sound,
            h.fresh, h.distinct, h.acks, h.acks_front, fun _ => ⟨hin, hincoming, hrecv⟩⟩

theorem sendInv_moves (h : SendInv c) (hm : Moves env A c c') : SendInv c' :=
  hm.keep (fun _ _ ha hab => sendInv_move ha hab) h

end Keep

end StreamConvergenceLayer

end Dtn2
