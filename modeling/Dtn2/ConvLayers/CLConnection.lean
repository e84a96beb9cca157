import Dtn2.Framework.SparseBitmap
import Dtn2.Framework.StreamBuffer
import Dtn2.Bundling.ProduceSpec

/-!
# Connections

What the connection-oriented convergence layers share: the bundles waiting on a link with their
transmit blocks, the records of bundles in flight and of bundles coming in, and what becomes of a
bundle. Time is left to the environment, as is how much the socket takes at every write.
-/

namespace Dtn2

open Framework BundleProtocol

/-- A value kept in a `u_int32_t`. -/
def u32 (n : Nat) : Nat := n % 2 ^ 32

theorem u32_of_lt {n : Nat} (h : n < 2 ^ 32) : u32 n = n := Nat.mod_eq_of_lt h

theorem u32_le (n : Nat) : u32 n ≤ n := Nat.mod_le n _

theorem u32_lt (n : Nat) : u32 n < 2 ^ 32 := Nat.mod_lt n (by decide)

theorem le_of_u32_ne {n : Nat} (h : u32 n ≠ n) : 2 ^ 32 ≤ n := by
  by_contra hlt
  exact h (u32_of_lt (by omega))

attribute [irreducible] u32

/-- A bundle on a link: its transmit blocks are in the state `generate_blocks` leaves them in. -/
structure XmitBundle where
  bundle : Bundle
  blocks : List XmitBlock
  nonempty : blocks ≠ []
  placed : ∀ y ∈ blocks, Placed bundle y.toBlockInfo
  marked : LastMarked blocks

namespace XmitBundle

def bytes (x : XmitBundle) : Bytes := wires x.bundle x.blocks

def bundleid (x : XmitBundle) : Nat := x.bundle.bundleid

theorem totalLength_eq (x : XmitBundle) : BundleProtocol.totalLength x.blocks = x.bytes.length :=
  Dtn2.totalLength_eq x.placed

theorem bytes_pos (x : XmitBundle) : 0 < x.bytes.length := by
  cases hblocks : x.blocks with
  | nil => exact absurd hblocks x.nonempty
  | cons y ys =>
      have hy := (x.placed y (by rw [hblocks]; simp)).pos
      rw [bytes, hblocks, wires_cons, List.length_append]
      omega

theorem produce_eq (x : XmitBundle) (os : Oasys) {offset len : Nat}
    (hlen : 0 < len) (hoff : offset + len ≤ x.bytes.length) :
    produce os x.bundle x.blocks offset len =
      .ok ((x.bytes.drop offset).take len, decide (offset + len = x.bytes.length)) := by
  have hlt : offset < (wires x.bundle x.blocks).length := by
    rw [bytes] at hoff
    omega
  rw [produce_spec x.placed x.marked hlt hlen]
  congr 2
  rw [decide_eq_decide, bytes] at *
  omega

/-- A small bundle with one byte of payload; all its endpoint ids are `dtn:none`. -/
def sample (bundleid : Nat) : XmitBundle where
  bundle := { Bundle.new bundleid 0 with
    source := ⟨EndpointID.dtnNone, true⟩
    dest := ⟨EndpointID.dtnNone, true⟩
    replyto := ⟨EndpointID.dtnNone, true⟩
    custodian := ⟨EndpointID.dtnNone, true⟩
    payload := ⟨.memory, [0xaa]⟩ }
  blocks :=
    [⟨⟨.primary, [], ⟨[6, 0x81, 0x10, 21, 0, 4, 0, 4, 0, 4, 0, 4, 0, 1, 0, 9, 100, 116, 110, 0,
        110, 111, 110, 101, 0], List.replicate 39 0⟩, 25, 0, false, none⟩, none⟩,
      ⟨⟨.payload, [], ⟨[1, 8, 1], List.replicate 61 0⟩, 1, 3, false, none⟩, none⟩]
  nonempty := by simp
  placed := by
    intro y hy
    rcases List.mem_cons.mp hy with rfl | hy
    · exact ⟨rfl, by simp [wire], fun hpayload => by cases hpayload⟩
    · rw [List.mem_singleton.mp hy]
      exact ⟨rfl, by simp [wire], fun _ => ⟨rfl, by simp, by simp [BundlePayload.length]⟩⟩
  marked := ⟨⟨0, by decide, by decide⟩, ⟨8, by decide, by decide⟩, trivial⟩

example : (do
    let dict ← PrimaryBlockProcessor.prepare (sample 1).bundle
    let xmit ← generateBlocks .plain (sample 1).bundle [⟨.primary, none⟩, ⟨.payload, none⟩] dict
    pure xmit.blocks) = Except.ok (sample 1).blocks := by
  decide +kernel

end XmitBundle

/-- `InFlightBundle`. The list of bundles in flight holds pointers: `entry` is the identity of the
record. -/
structure InFlightBundle where
  entry : Nat
  xmit : XmitBundle
  totalLength : Nat
  sendComplete : Bool
  transmitEventPosted : Bool
  sentData : SparseBitmap
  ackData : SparseBitmap

namespace InFlightBundle

/-- The record that `start_next_bundle` makes for a bundle. -/
def new (entry : Nat) (x : XmitBundle) : InFlightBundle where
  entry := entry
  xmit := x
  totalLength := u32 (BundleProtocol.totalLength x.blocks)
  sendComplete := false
  transmitEventPosted := false
  sentData := ∅
  ackData := ∅

/-- `sent_data_.empty() ? 0 : sent_data_.last() + 1`. -/
def bytesSent (x : InFlightBundle) : Nat :=
  if x.sentData = ∅ then 0 else u32 (x.sentData.last + 1)

end InFlightBundle

structure IncomingBundle where
  bundle : Bundle
  totalLength : Nat
  ackedLength : Nat
  rcvdData : SparseBitmap
  ackData : SparseBitmap
deriving DecidableEq

/-- The record of a bundle nothing has arrived of. -/
def IncomingBundle.new (bundle : Bundle) : IncomingBundle := ⟨bundle, 0, 0, ∅, ∅⟩

/-- What becomes of a bundle in flight: the events posted for it and its return to the link
queue. Every outcome names the record and the bundle. -/
inductive Outcome where
  | transmitted (entry bundleid bytesSent reliablySent : Nat)
  | sendCancelled (entry bundleid : Nat)
  | requeued (entry bundleid : Nat)
deriving DecidableEq, Repr

/-- `BundleReceivedEvent`. -/
structure BundleReceived where
  bundle : Bundle
  bytesReceived : Nat
deriving DecidableEq

/-- The queues of a link. Only the identity of the bundles in flight matters to the link. -/
structure LinkRef where
  reliable : Bool
  queue : List XmitBundle
  inflight : List Nat

namespace LinkRef

def addToQueue (l : LinkRef) (x : XmitBundle) : LinkRef × Bool :=
  if x.bundleid ∈ l.queue.map XmitBundle.bundleid then (l, false)
  else ({ l with queue := l.queue ++ [x] }, true)

def addToInflight (l : LinkRef) (id : Nat) : LinkRef :=
  if id ∈ l.inflight then l else { l with inflight := l.inflight ++ [id] }

/-- `del_from_inflight`, with the sanity check on the length. -/
def delFromInflight (l : LinkRef) (id totalLen : Nat) : Exec (LinkRef × Bool) :=
  if id ∈ l.inflight then do
    assertThat (totalLen ≠ 0)
    pure ({ l with inflight := l.inflight.erase id }, true)
  else pure (l, false)

/-- The checks of `queue_bundle` on the two lists, and `add_to_queue`. -/
def queueBundle (l : LinkRef) (x : XmitBundle) : LinkRef :=
  if x.bundleid ∈ l.queue.map XmitBundle.bundleid ∨ x.bundleid ∈ l.inflight then l
  else (l.addToQueue x).1

end LinkRef

/-- `ContactEvent::reason_t`, as far as `break_contact` takes them. -/
inductive Reason where
  | user
  | idle
  | shutdown
  | broken
  | clError
  | clVersion
deriving DecidableEq, Repr

/-- What a write to the socket reports: so many bytes taken (none if it would block), or that the
other side is gone. -/
inductive WriteResult where
  | wrote (n : Nat)
  | closed
deriving DecidableEq, Repr

end Dtn2
