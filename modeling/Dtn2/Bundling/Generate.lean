import Dtn2.Bundling.PrimaryBlock

/-!
# Formatting a bundle

`BundleProtocol::generate_blocks` and `BundleProtocol::produce` on a transmit list of a primary
block, a payload block and extension blocks that are passed on: those received with a type this
node does not know, and those handed over at the API. All blocks share one dictionary, which is
written with the primary block after the other blocks have added their endpoint ids.
-/

namespace Dtn2

/-- A block of a transmit list. The owner of an entry is one of four processors. -/
inductive Generator where
  | primary
  | payload
  | unknown
  | api
deriving DecidableEq, Repr

def Generator.owner : Generator → Processor
  | primary => .primary
  | payload => .payload
  | unknown => .unknown
  | api => .api

/-- An entry of the transmit list as `prepare` leaves it: the owner and the block to copy. -/
structure Prepared where
  generator : Generator
  source : Option BlockInfo
deriving DecidableEq, Repr

namespace PrimaryBlockProcessor

/-- `PrimaryBlockProcessor::prepare` on an empty list: the dictionary starts with the four
endpoint ids of the bundle. -/
def prepare (bundle : Bundle) : Exec Dictionary := do
  let dict ← Dictionary.empty.addEid bundle.dest
  let dict ← dict.addEid bundle.source
  let dict ← dict.addEid bundle.replyto
  dict.addEid bundle.custodian

end PrimaryBlockProcessor

namespace BlockProcessor

/-- The flags of a copied block, kept in eight bits. -/
def copiedFlags (flags : UInt64) (last : Bool) : UInt8 :=
  if last then flags.toUInt8 ||| blockFlagLastBlock.toUInt8
  else flags.toUInt8 &&& ~~~ blockFlagLastBlock.toUInt8

/-- `reserve(full_length())`, the `memcpy` of the data from position `start` of the source, and
`set_len(full_length())`. -/
def copyData (os : Oasys) (block source : BlockInfo) (start : Nat) : Exec BlockInfo := do
  let contents := block.contents.reserve os block.fullLength.toNat
  let data := (source.contents.memory.drop start).take block.dataLength.toNat
  if data.length < block.dataLength.toNat then .error (.fault .outOfBounds)
  else do
    let contents ← contents.append data
    pure { block with contents := contents.shrink block.fullLength.toNat }

end BlockProcessor

def UnknownBlockProcessor.generate (os : Oasys) (dict : Dictionary) (source : Option BlockInfo)
    (last : Bool) : Exec (BlockInfo × Dictionary) :=
  match source with
  | none => .error (.fault .assertion)
  | some source => do
      assertThat (source.owner = .unknown)
      let flags ← source.flags
      assertThat (flags &&& blockFlagDiscardBundleOnError = 0)
      assertThat (flags &&& blockFlagDiscardBlockOnError = 0)
      assertThat (source.contents.len ≠ 0)
      assertThat (source.dataOffset ≠ 0)
      let flags := BlockProcessor.copiedFlags flags last ||| blockFlagForwardedUnprocessed.toUInt8
      let type ← source.type
      let (block, dict) ← BlockProcessor.generatePreamble dict
        { BlockInfo.new os .unknown with eidList := source.eidList } (UInt8.ofNat type)
        flags.toUInt64 source.dataLength.toUInt64
      assertThat (block.dataLength = source.dataLength)
      let block ← BlockProcessor.copyData os block source source.dataOffset.toNat
      pure (block, dict)

/-- `APIBlockProcessor::generate`. The endpoint ids of the source are not looked at. -/
def APIBlockProcessor.generate (os : Oasys) (dict : Dictionary) (source : Option BlockInfo)
    (last : Bool) : Exec (BlockInfo × Dictionary) :=
  match source with
  | none => .error (.fault .assertion)
  | some source => do
      assertThat (source.owner = .api)
      assertThat (source.contents.len ≠ 0)
      assertThat (source.dataOffset ≠ 0)
      let flags := BlockProcessor.copiedFlags (← source.flags) last
      let type ← source.type
      let (block, dict) ← BlockProcessor.generatePreamble dict (BlockInfo.new os .api)
        (UInt8.ofNat type) flags.toUInt64 source.dataLength.toUInt64
      assertThat (block.dataOffset = source.dataOffset)
      assertThat (block.dataLength = source.dataLength)
      let block ← BlockProcessor.copyData os block source block.dataOffset.toNat
      pure (block, dict)

/-- `PayloadBlockProcessor::generate`: only the preamble, the data stays in the payload. -/
def PayloadBlockProcessor.generate (os : Oasys) (bundle : Bundle) (dict : Dictionary)
    (last : Bool) : Exec (BlockInfo × Dictionary) :=
  BlockProcessor.generatePreamble dict (BlockInfo.new os .payload) 1
    (if last then blockFlagLastBlock else 0) (UInt64.ofNat bundle.payload.length)

namespace BundleProtocol

/-- `owner()->generate(..)` for an entry of the transmit list. -/
def generate (os : Oasys) (bundle : Bundle) (dict : Dictionary) (entry : Prepared) (last : Bool) :
    Exec (BlockInfo × Dictionary) :=
  match entry.generator with
  | .primary => do
      assertThat (last = false)
      pure (BlockInfo.new os .primary, dict)
  | .payload => PayloadBlockProcessor.generate os bundle dict last
  | .unknown => UnknownBlockProcessor.generate os dict entry.source last
  | .api => APIBlockProcessor.generate os dict entry.source last

/-- The pass of `generate_blocks` that generates one block after the other. -/
def generateEach (os : Oasys) (bundle : Bundle) :
    List Prepared → Dictionary → Exec (List XmitBlock × Dictionary)
  | [], dict => pure ([], dict)
  | entry :: entries, dict => do
      let (block, dict) ← generate os bundle dict entry entries.isEmpty
      let flags ← block.flags
      assertThat (decide (flags &&& blockFlagLastBlock ≠ 0) = entries.isEmpty)
      let (blocks, dict) ← generateEach os bundle entries dict
      pure (⟨block, entry.source⟩ :: blocks, dict)

/-- `finalize` of every block, from the end of the list to its front. -/
def finalizeEach (bundle : Bundle) : List XmitBlock → Exec Unit
  | [] => pure ()
  | block :: blocks => do
      finalizeEach bundle blocks
      let type ← block.type
      if bundle.isAdmin ∧ type ≠ 0 then do
        let flags ← block.flags
        assertThat (flags &&& blockFlagReportOnError = 0)
      else pure ()

def generateBlocks (os : Oasys) (bundle : Bundle) (entries : List Prepared) (dict : Dictionary) :
    Exec (BlockInfoVec XmitBlock) := do
  assertThat (2 ≤ entries.length)
  assertThat (entries.head?.map Prepared.generator = some .primary)
  let (blocks, dict) ← generateEach os bundle entries dict
  match blocks with
  | [] => .error (.fault .outOfBounds)
  | front :: blocks => do
      let info ← PrimaryBlockProcessor.generatePrimary os bundle dict front.toBlockInfo
      let blocks := ⟨info, front.source⟩ :: blocks
      finalizeEach bundle blocks
      pure ⟨blocks, dict⟩

def totalLength (blocks : List XmitBlock) : Nat :=
  (blocks.map fun b => b.fullLength.toNat).sum

def payloadOffset : List XmitBlock → Exec Nat
  | [] => pure 0
  | block :: blocks => do
      if (← block.type) = Processor.payload.blockType then pure block.dataOffset.toNat
      else do
        let rest ← payloadOffset blocks
        pure (block.fullLength.toNat + rest)

end BundleProtocol

def BundlePayload.readData (p : BundlePayload) (offset len : Nat) : Exec Bytes := do
  assertThat (offset + len ≤ p.length)
  assertThat (p.location ≠ .nodata)
  pure ((p.data.drop offset).take len)

/-- `PayloadBlockProcessor::produce`: the preamble from the contents, the data from the payload.
What is not written of the buffer of `len` bytes keeps what it held. -/
def PayloadBlockProcessor.produce (os : Oasys) (bundle : Bundle) (block : BlockInfo)
    (offset len : Nat) : Exec Bytes := do
  let head := if offset < block.dataOffset.toNat then
    (block.contents.memory.drop offset).take (min len (block.dataOffset.toNat - offset)) else []
  let offset := offset + head.length
  if len - head.length = 0 then pure head
  else do
    let start := offset - block.dataOffset.toNat
    let data ← bundle.payload.readData start
      (min (len - head.length) (sizeSub bundle.payload.length start))
    let out := head ++ data
    pure (out ++ (List.range' out.length (len - out.length)).map os.junk)

namespace BundleProtocol

/-- `owner()->produce(..)` for a generated block. -/
def produceBlock (os : Oasys) (bundle : Bundle) (block : BlockInfo) (offset len : Nat) :
    Exec Bytes :=
  if block.owner = .payload then PayloadBlockProcessor.produce os bundle block offset len
  else BlockProcessor.produce block offset len

/-- Advance past the blocks in front of the offset. -/
def skipBlocks : List XmitBlock → Nat → Exec (List XmitBlock × Nat)
  | [], _ => .error (.fault .assertion)
  | block :: blocks, offset =>
      if block.fullLength.toNat ≤ offset then
        skipBlocks blocks (offset - block.fullLength.toNat)
      else pure (block :: blocks, offset)

/-- Copy out block by block, until the buffer is full or the last block is done. -/
def produceLoop (os : Oasys) (bundle : Bundle) :
    List XmitBlock → Nat → Nat → Exec (Bytes × Bool)
  | [], _, _ => .error (.fault .assertion)
  | block :: blocks, offset, len => do
      let remainder := block.fullLength.toNat - offset
      let tocopy := min len remainder
      let out ← produceBlock os bundle block.toBlockInfo offset tocopy
      if len - tocopy = 0 ∧ tocopy ≠ remainder then pure (out, false)
      else do
        let flags ← block.flags
        if flags &&& blockFlagLastBlock ≠ 0 then do
          assertThat (blocks = [])
          pure (out, true)
        else if len - tocopy = 0 then pure (out, false)
        else do
          let (more, last) ← produceLoop os bundle blocks 0 (len - tocopy)
          pure (out ++ more, last)

/-- `BundleProtocol::produce`: the bytes written and `*last`. -/
def produce (os : Oasys) (bundle : Bundle) (blocks : List XmitBlock) (offset len : Nat) :
    Exec (Bytes × Bool) :=
  if len = 0 then pure ([], false)
  else do
    let (blocks, offset) ← skipBlocks blocks offset
    produceLoop os bundle blocks offset len

end BundleProtocol

end Dtn2
