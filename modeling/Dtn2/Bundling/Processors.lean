import Dtn2.Bundling.PrimaryBlock

/-!
# Consuming blocks

The `consume` functions of the registered block processors. All but the payload processor run
the generic `BlockProcessor::consume` and look at the block once it is complete; the payload
processor keeps only the preamble in the block and writes the data to the payload.
-/

namespace Dtn2

open Framework

/-- The parameters of `BundleProtocol` that the age block processor reads. -/
structure Params where
  ageInboundProcessing : Bool
  ageZeroCreationTsTime : Bool
deriving DecidableEq, Repr

def Params.default : Params := ⟨true, true⟩

namespace PreviousHopBlockProcessor

/-- The block holds the endpoint id of the previous hop as a string. -/
def finish (os : Oasys) (bundle : Bundle) (block : BlockInfo) : Exec (Bundle × BlockInfo) :=
  let prevhop := os.assign block.data
  if prevhop.valid then pure ({ bundle with prevhop := prevhop }, block)
  else .error .protocolError

end PreviousHopBlockProcessor

namespace SessionBlockProcessor

/-- Just one endpoint id; the flags are the byte at `data()`, whatever the data length is. -/
def finish (bundle : Bundle) (block : BlockInfo) : Exec (Bundle × BlockInfo) :=
  match block.eidList with
  | [eid] =>
      match block.dataMemory with
      | [] => .error (.fault .outOfBounds)
      | flags :: _ => pure ({ bundle with sessionEid := eid, sessionFlags := flags }, block)
  | _ => .error .protocolError

end SessionBlockProcessor

namespace SequenceIDBlockProcessor

def counterEntry : UInt8 := 1
def identifierEntry : UInt8 := 2

/-- `SDNV::decode` on memory from `bp` on with a length that may be larger than the memory. -/
def decodeAt (bp : Bytes) (length : Nat) : Exec (Nat × UInt64) :=
  match SDNV.decode (bp.take length) with
  | (some n, val) => pure (n, val)
  | (none, _) =>
      if bp.length < length ∧ bp.all (fun b => b &&& 0x80 ≠ 0) then .error (.fault .outOfBounds)
      else .error .protocolError

/-- One entry for every endpoint id of the block, read from memory at `bp`. The remaining
length wraps around below zero and is never compared with an identifier's length. -/
def parseEntries : List EndpointID → Bytes → Nat → Exec (List SequenceEntry)
  | [], _, _ => pure []
  | _ :: _, [], _ => .error (.fault .outOfBounds)
  | eid :: eids, type :: bp, length => do
      let length := sizeSub length 1
      if type = counterEntry then
        let (n, counter) ← decodeAt bp length
        let entries ← parseEntries eids (bp.drop n) (length - n)
        pure (.counter eid counter :: entries)
      else if type = identifierEntry then
        let (n, idLen) ← decodeAt bp length
        let bp := bp.drop n
        if bp.length < idLen.toNat then .error (.fault .outOfBounds)
        else
          let entries ← parseEntries eids (bp.drop idLen.toNat) (sizeSub (length - n) idLen.toNat)
          pure (.identifier eid (bp.take idLen.toNat) :: entries)
      else .error .protocolError

def entries (block : BlockInfo) : Exec (List SequenceEntry) :=
  if block.eidList = [] then .error .protocolError
  else parseEntries block.eidList block.dataMemory block.dataLength.toNat

end SequenceIDBlockProcessor

namespace AgeBlockProcessor

/-- A value that cannot be decoded is logged and used as far as it was read. -/
def finish (params : Params) (bundle : Bundle) (block : BlockInfo) : Exec (Bundle × BlockInfo) :=
  let age := (SDNV.decode block.data).2
  let bundle := { bundle with age := age }
  pure (if params.ageZeroCreationTsTime then
    { bundle with creationTs := ⟨0, bundle.creationTs.seqno⟩ } else bundle, block)

end AgeBlockProcessor

namespace MetadataBlockProcessor

/-- `parse_metadata` on the data of the block: its fields, or the error mark. -/
def parseData (data : Bytes) : MetadataBlock :=
  match SDNV.read data with
  | none => ⟨true, 0, []⟩
  | some (ontology, buf) =>
      match SDNV.read buf with
      | none => ⟨true, ontology, []⟩
      | some (length, buf) =>
          if buf.length ≠ length.toNat then ⟨true, ontology, []⟩ else ⟨false, ontology, buf⟩

/-- `parse_metadata`: the outcome is kept with the bundle and as locals of the block. -/
def finish (bundle : Bundle) (block : BlockInfo) : Exec (Bundle × BlockInfo) := do
  assertThat ((← block.type) = Processor.metadata.blockType)
  assertThat (block.complete = true)
  assertThat (0 < block.dataOffset)
  let metadata := parseData block.data
  pure ({ bundle with recvMetadata := bundle.recvMetadata ++ [metadata] },
    { block with locals := some metadata })

end MetadataBlockProcessor

def finishBlock (params : Params) (os : Oasys) (bundle : Bundle) (block : BlockInfo) :
    Exec (Bundle × BlockInfo) :=
  match block.owner with
  | .primary => do
      let bundle ← PrimaryBlockProcessor.finish os bundle block
      pure (bundle, block)
  | .previousHop => PreviousHopBlockProcessor.finish os bundle block
  | .session => SessionBlockProcessor.finish bundle block
  | .sequenceID => do
      let entries ← SequenceIDBlockProcessor.entries block
      pure ({ bundle with sequenceId := bundle.sequenceId ++ entries }, block)
  | .obsoletesID => do
      let entries ← SequenceIDBlockProcessor.entries block
      pure ({ bundle with obsoletesId := bundle.obsoletesId ++ entries }, block)
  | .age => AgeBlockProcessor.finish params bundle block
  | .metadata => MetadataBlockProcessor.finish bundle block
  | .payload => pure (bundle, block)
  | .unknown => pure (bundle, block)
  | .api => pure (bundle, block)

/-- The `consume` of the processors that build on `BlockProcessor::consume`: `-1` is passed on,
an incomplete block must have taken the whole chunk, a complete one is looked at. -/
def consumeGeneric (params : Params) (os : Oasys) (bundle : Bundle) (block : BlockInfo)
    (buf : Bytes) : Exec (Bundle × BlockInfo × Nat) := do
  let (block, n) ← BlockProcessor.consume os bundle.recvBlocks.dict block buf
  if toInt n = -1 then .error .protocolError
  else if block.complete = false then do
    assertThat (toInt n = toInt buf.length)
    pure (bundle, block, n)
  else do
    let (bundle, block) ← finishBlock params os bundle block
    pure (bundle, block, n)

namespace PayloadBlockProcessor

/-- The first part of `consume`, up to the end of the preamble. The assertion stands in the
branch that calls `consume_preamble`. -/
def consumeHead (os : Oasys) (bundle : Bundle) (block : BlockInfo) (buf : Bytes) :
    Exec (BlockInfo × Bytes) := do
  let (newBlock, rest) ← BlockProcessor.consumeHead os bundle.recvBlocks.dict block buf
  if block.dataOffset = 0 then do
    assertThat (bundle.payload.length = 0)
    pure (newBlock, rest)
  else pure (newBlock, rest)

/-- The second part of `consume`: move data into the payload until it has the announced
length. Returns the number of bytes written. -/
def consumeData (os : Oasys) (bundle : Bundle) (block : BlockInfo) (rest : Bytes) :
    Exec (Bundle × BlockInfo × Nat) :=
  if block.dataOffset = 0 then do
    assertThat (rest.length = 0)
    pure (bundle, block, 0)
  else if bundle.payload.location = .nodata then pure (bundle, { block with complete := true }, 0)
  else if block.dataLength = 0 then pure (bundle, { block with complete := true }, 0)
  else if rest = [] then pure (bundle, block, 0)
  else do
    assertThat (block.contents.len = block.dataOffset.toNat)
    assertThat (bundle.payload.length < block.dataLength.toNat)
    let rcvd := bundle.payload.length
    let remainder := block.dataLength.toNat - rcvd
    let tocopy := if remainder ≤ rest.length then remainder else rest.length
    let payload ← (bundle.payload.setLength os (rcvd + tocopy)).writeData (rest.take tocopy) rcvd
    pure ({ bundle with payload := payload },
      { block with complete := block.complete || decide (remainder ≤ rest.length) }, tocopy)

def consume (os : Oasys) (bundle : Bundle) (block : BlockInfo) (buf : Bytes) :
    Exec (Bundle × BlockInfo × Nat) := do
  let (block, rest) ← consumeHead os bundle block buf
  let (bundle, block, stored) ← consumeData os bundle block rest
  pure (bundle, block, buf.length - rest.length + stored)

end PayloadBlockProcessor

/-- `owner()->consume(..)` for a received block. An API block is never received. -/
def consumeBlock (params : Params) (os : Oasys) (bundle : Bundle) (block : BlockInfo)
    (buf : Bytes) : Exec (Bundle × BlockInfo × Nat) :=
  match block.owner with
  | .payload => PayloadBlockProcessor.consume os bundle block buf
  | .api => .error .protocolError
  | .unknown => do
      let (block, n) ← BlockProcessor.consume os bundle.recvBlocks.dict block buf
      pure (bundle, block, n)
  | _ => consumeGeneric params os bundle block buf

namespace BundleProtocol

/-- `find_processor`. The age block is unknown while its inbound processing is switched off. -/
def findProcessor (params : Params) (type : UInt8) : Processor :=
  match type.toNat with
  | 0x00 => .primary
  | 0x01 => .payload
  | 0x05 => .previousHop
  | 0x08 => .metadata
  | 0x0a => if params.ageInboundProcessing then .age else .unknown
  | 0x0c => .session
  | 0x10 => .sequenceID
  | 0x11 => .obsoletesID
  | _ => .unknown

/-- `append_block` on the received blocks. -/
def appendBlock (os : Oasys) (bundle : Bundle) (owner : Processor) : Bundle :=
  { bundle with recvBlocks := { bundle.recvBlocks with
      blocks := bundle.recvBlocks.blocks ++ [BlockInfo.new os owner] } }

/-- Put a changed block back at the end of the received blocks. -/
def setBack (bundle : Bundle) (info : BlockInfo) : Bundle :=
  { bundle with recvBlocks := { bundle.recvBlocks with
      blocks := bundle.recvBlocks.blocks.dropLast ++ [info] } }

/-- The block that the next byte goes to: the one at the back, or a new one if that is
complete. -/
def openBlock (params : Params) (os : Oasys) (bundle : Bundle) (data : Bytes) : Bundle :=
  match bundle.recvBlocks.blocks.getLast?, data with
  | some info, first :: _ =>
      if info.complete then appendBlock os bundle (findProcessor params first) else bundle
  | _, _ => bundle

/-- The end of a round, with the `n` bytes that the block has consumed: the bundle, the bytes
left and `*last`. -/
def endRound (data : Bytes) (bundle : Bundle) (info : BlockInfo) (n : Nat) :
    Exec (Bundle × Bytes × Bool) :=
  if toInt n < 0 then .error .protocolError
  else
    let rest := data.drop (toInt n).toNat
    let bundle := setBack bundle info
    if info.complete = true then do
      let flags ← info.flags
      pure (bundle, rest, decide (flags &&& blockFlagLastBlock ≠ 0))
    else do
      assertThat (rest.length = 0)
      pure (bundle, rest, false)

/-- The round of the loop of `consume` behind `openBlock`. -/
def consumeBack (params : Params) (os : Oasys) (bundle : Bundle) (data : Bytes) :
    Exec (Bundle × Bytes × Bool) :=
  match bundle.recvBlocks.blocks.getLast? with
  | none => .error (.fault .outOfBounds)
  | some info => do
      let (bundle, info, n) ← consumeBlock params os bundle info data
      endRound data bundle info n

/-- One round of the loop of `consume`. -/
def consumeRound (params : Params) (os : Oasys) (bundle : Bundle) (data : Bytes) :
    Exec (Bundle × Bytes × Bool) :=
  consumeBack params os (openBlock params os bundle data) data

/-- The loop of `consume`; a round that returns has used at least one byte. -/
def consumeLoop (params : Params) (os : Oasys) : Nat → Bundle → Bytes → Exec (Bundle × Bytes × Bool)
  | _, bundle, [] => pure (bundle, [], false)
  | 0, _, _ :: _ => .error (.fault .diverges)
  | fuel + 1, bundle, b :: bs => do
      let (bundle, rest, last) ← consumeRound params os bundle (b :: bs)
      if last then pure (bundle, rest, true) else consumeLoop params os fuel bundle rest

/-- The special case of the first call. -/
def openPrimary (os : Oasys) (bundle : Bundle) : Bundle :=
  if bundle.recvBlocks.blocks = [] then appendBlock os bundle .primary else bundle

/-- `BundleProtocol::consume`: the bundle, the return value and `*last`. -/
def consume (params : Params) (os : Oasys) (bundle : Bundle) (data : Bytes) :
    Exec (Bundle × Int × Bool) := do
  let (bundle, rest, last) ← consumeLoop params os data.length (openPrimary os bundle) data
  pure (bundle, toInt (data.length - rest.length), last)

/-- A call of `consume` as its caller sees it. -/
structure Report where
  consumed : Int
  last : Bool
deriving DecidableEq, Repr

/-- Hand over chunk after chunk until a call fails or reports the last block: the bundle, and
what each call reported. -/
def feed (params : Params) (os : Oasys) : Bundle → List Bytes → Exec (Bundle × List Report)
  | bundle, [] => pure (bundle, [])
  | bundle, chunk :: chunks => do
      let (bundle, n, last) ← consume params os bundle chunk
      if last then pure (bundle, [⟨n, true⟩])
      else do
        let (bundle, reports) ← feed params os bundle chunks
        pure (bundle, ⟨n, false⟩ :: reports)

end BundleProtocol

end Dtn2
