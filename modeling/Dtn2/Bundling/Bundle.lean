import Dtn2.Bundling.Dictionary

/-!
# Blocks, payloads and bundles

The records the bundle protocol works on: `BlockInfo` with its accessors `type`, `flags` and
`last_block`, the payload with its checked writes, and the bundle itself. Fields keep the width
the source gives them, so `full_length` is the 32-bit sum of its two parts.
-/

namespace Dtn2

/-- The block processors: those registered by default, and the two internal ones. -/
inductive Processor where
  | primary
  | payload
  | previousHop
  | metadata
  | session
  | sequenceID
  | obsoletesID
  | age
  | unknown
  | api
deriving DecidableEq, Repr

namespace Processor

/-- `block_type()`; the last two are internal codes outside the range of a type byte. -/
def blockType : Processor → Nat
  | primary => 0x000
  | payload => 0x001
  | previousHop => 0x005
  | metadata => 0x008
  | age => 0x00a
  | session => 0x00c
  | sequenceID => 0x010
  | obsoletesID => 0x011
  | api => 0x100
  | unknown => 0x101

/-- The owners whose blocks may carry a first byte other than their type. -/
def anyFirstByte : Processor → Bool
  | primary => false
  | payload => false
  | _ => true

end Processor

def blockFlagReplicate : UInt64 := 0x01
def blockFlagReportOnError : UInt64 := 0x02
def blockFlagDiscardBundleOnError : UInt64 := 0x04
def blockFlagLastBlock : UInt64 := 0x08
def blockFlagDiscardBlockOnError : UInt64 := 0x10
def blockFlagForwardedUnprocessed : UInt64 := 0x20
def blockFlagEidRefs : UInt64 := 0x40

structure MetadataBlock where
  error : Bool
  ontology : UInt64
  metadata : Bytes
deriving DecidableEq, Repr

/-- A formatted or partially received block. -/
structure BlockInfo where
  owner : Processor
  eidList : List EndpointID
  contents : ScratchBuffer
  dataLength : UInt32
  dataOffset : UInt32
  complete : Bool
  locals : Option MetadataBlock
deriving DecidableEq, Repr

namespace BlockInfo

/-- A new block with the static 64 bytes of its contents buffer. -/
def new (os : Oasys) (owner : Processor) : BlockInfo where
  owner := owner
  eidList := []
  contents := ScratchBuffer.fresh os 64
  dataLength := 0
  dataOffset := 0
  complete := false
  locals := none

def fullLength (b : BlockInfo) : UInt32 := b.dataOffset + b.dataLength

/-- The bytes from `data()` on, as far as the memory of the block goes. -/
def dataMemory (b : BlockInfo) : Bytes := b.contents.memory.drop b.dataOffset.toNat

def data (b : BlockInfo) : Bytes := b.dataMemory.take b.dataLength.toNat

/-- `type()`: the first byte, checked against an owner that has just one type. -/
def type (b : BlockInfo) : Exec Nat :=
  if b.owner.blockType = 0 then pure 0
  else
    match b.contents.filled with
    | [] => pure b.owner.blockType
    | first :: _ => do
        assertThat (first.toNat = b.owner.blockType ∨ b.owner.anyFirstByte)
        pure first.toNat

/-- `flags()`: zero for the primary block, else the value behind the type byte. With no contents
the remaining length wraps around and the decoder runs through unwritten memory. -/
def flags (b : BlockInfo) : Exec UInt64 := do
  if (← b.type) = 0 then pure 0
  else
    match b.contents.filled with
    | [] => .error (.fault .outOfBounds)
    | _ :: rest =>
        match SDNV.decode rest with
        | (some _, flags) => pure flags
        | (none, _) => .error (.fault .assertion)

def lastBlock (b : BlockInfo) : Exec Bool := do
  if b.contents.len < 2 then pure false
  else
    let flags ← b.flags
    pure (flags &&& blockFlagLastBlock ≠ 0)

end BlockInfo

structure XmitBlock extends BlockInfo where
  source : Option BlockInfo
deriving DecidableEq, Repr

structure BlockInfoVec (α : Type) where
  blocks : List α
  dict : Dictionary
deriving DecidableEq, Repr

inductive Location where
  | memory
  | disk
  | nodata
deriving DecidableEq, Repr

structure BundlePayload where
  location : Location
  data : Bytes
deriving DecidableEq, Repr

namespace BundlePayload

def length (p : BundlePayload) : Nat := p.data.length

/-- `set_length`: bytes that were never written are whatever the store holds. -/
def setLength (os : Oasys) (p : BundlePayload) (n : Nat) : BundlePayload :=
  { p with data := p.data.take n ++ (List.range' p.length (n - p.length)).map os.junk }

/-- Overwrite part of the data; the caller has checked that it lies inside. -/
def overwrite (p : BundlePayload) (bp : Bytes) (offset : Nat) : BundlePayload :=
  { p with data := p.data.take offset ++ bp ++ p.data.drop (offset + bp.length) }

def writeData (p : BundlePayload) (bp : Bytes) (offset : Nat) : Exec BundlePayload := do
  assertThat (bp.length + offset ≤ p.length)
  assertThat (p.location ≠ .nodata)
  pure (p.overwrite bp offset)

/-- `write_data` from another payload. The two assertions compare 64-bit sums; the copy itself
reads and writes the ranges as they are. -/
def writeFrom (p : BundlePayload) (src : BundlePayload) (srcOffset len dstOffset : Nat) :
    Exec BundlePayload := do
  assertThat ((dstOffset + len) % 2 ^ 64 ≤ p.length)
  assertThat ((srcOffset + len) % 2 ^ 64 ≤ src.length)
  assertThat (src.location ≠ .nodata)
  if src.length < srcOffset + len then .error (.fault .outOfBounds)
  else do
    assertThat (p.location ≠ .nodata)
    if p.length < dstOffset + len then .error (.fault .outOfBounds)
    else pure (p.overwrite ((src.data.drop srcOffset).take len) dstOffset)

def truncate (p : BundlePayload) (n : Nat) : Exec BundlePayload := do
  assertThat (n ≤ p.length)
  assertThat (p.location ≠ .nodata)
  pure { p with data := p.data.take n }

end BundlePayload

structure BundleTimestamp where
  seconds : UInt64
  seqno : UInt64
deriving DecidableEq, Repr

inductive SequenceEntry where
  | counter (eid : EndpointID) (value : UInt64)
  | identifier (eid : EndpointID) (value : Bytes)
deriving DecidableEq, Repr

/-- The fields of a bundle that parsing, formatting and fragmentation read or write.
`bundleid` identifies the object. -/
structure Bundle where
  bundleid : Nat
  isFragment : Bool
  isAdmin : Bool
  doNotFragment : Bool
  custodyRequested : Bool
  singletonDest : Bool
  appAckedRcpt : Bool
  priority : UInt8
  receiveRcpt : Bool
  custodyRcpt : Bool
  forwardRcpt : Bool
  deliveryRcpt : Bool
  deletionRcpt : Bool
  source : EndpointID
  dest : EndpointID
  replyto : EndpointID
  custodian : EndpointID
  prevhop : EndpointID
  creationTs : BundleTimestamp
  expiration : UInt64
  fragOffset : UInt32
  origLength : UInt32
  fragmentedIncoming : Bool
  freed : Bool
  sequenceId : List SequenceEntry
  obsoletesId : List SequenceEntry
  sessionEid : EndpointID
  sessionFlags : UInt8
  age : UInt64
  recvMetadata : List MetadataBlock
  recvBlocks : BlockInfoVec BlockInfo
  payload : BundlePayload
deriving DecidableEq, Repr

/-- `Bundle::init` and the constructor: a new bundle, created at the given time. -/
def Bundle.new (id : Nat) (now : UInt64) : Bundle where
  bundleid := id
  isFragment := false
  isAdmin := false
  doNotFragment := false
  custodyRequested := false
  singletonDest := true
  appAckedRcpt := false
  priority := 1
  receiveRcpt := false
  custodyRcpt := false
  forwardRcpt := false
  deliveryRcpt := false
  deletionRcpt := false
  source := .default
  dest := .default
  replyto := .default
  custodian := .default
  prevhop := .default
  creationTs := ⟨now, UInt64.ofNat id⟩
  expiration := 0
  fragOffset := 0
  origLength := 0
  fragmentedIncoming := false
  freed := false
  sequenceId := []
  obsoletesId := []
  sessionEid := .default
  sessionFlags := 0
  age := 0
  recvMetadata := []
  recvBlocks := ⟨[], Dictionary.empty⟩
  payload := ⟨.disk, []⟩

/-- `Bundle::copy_metadata`: the fields copied into `newBundle`. -/
def Bundle.copyMetadata (b newBundle : Bundle) : Bundle :=
  { newBundle with
    isAdmin := b.isAdmin
    isFragment := b.isFragment
    doNotFragment := b.doNotFragment
    source := b.source
    dest := b.dest
    custodian := b.custodian
    replyto := b.replyto
    priority := b.priority
    custodyRequested := b.custodyRequested
    singletonDest := b.singletonDest
    custodyRcpt := b.custodyRcpt
    receiveRcpt := b.receiveRcpt
    forwardRcpt := b.forwardRcpt
    deliveryRcpt := b.deliveryRcpt
    deletionRcpt := b.deletionRcpt
    appAckedRcpt := b.appAckedRcpt
    creationTs := b.creationTs
    expiration := b.expiration
    age := b.age }

end Dtn2
