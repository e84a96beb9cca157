import Dtn2.Bundling.BlockProcessor
import Dtn2.Naming.Ipn

/-!
# The primary block

`PrimaryBlockProcessor`: the processing flags, `get_primary_len` and `generate_primary` on the
sending side, and the parsing of a complete primary block on the receiving side. The four
endpoint ids go through the dictionary, or, when the destination starts with `ipn`, into pairs
of numbers.
-/

namespace Dtn2

open Framework

def flagBit (b : Bool) (mask : UInt64) : UInt64 := if b then mask else 0

namespace PrimaryBlockProcessor

def currentVersion : UInt8 := 6

def bundleIsFragment : UInt64 := 0x01
def bundleIsAdmin : UInt64 := 0x02
def bundleDoNotFragment : UInt64 := 0x04
def bundleCustodyXferRequested : UInt64 := 0x08
def bundleSingletonDestination : UInt64 := 0x10
def bundleAckByApp : UInt64 := 0x20

def statusReceived : UInt64 := 0x4000
def statusCustodyAccepted : UInt64 := 0x8000
def statusForwarded : UInt64 := 0x10000
def statusDelivered : UInt64 := 0x20000
def statusDeleted : UInt64 := 0x40000

def formatBundleFlags (b : Bundle) : UInt64 :=
  flagBit b.isFragment bundleIsFragment ||| flagBit b.isAdmin bundleIsAdmin |||
    flagBit b.doNotFragment bundleDoNotFragment |||
    flagBit b.custodyRequested bundleCustodyXferRequested |||
    flagBit b.singletonDest bundleSingletonDestination ||| flagBit b.appAckedRcpt bundleAckByApp

def parseBundleFlags (b : Bundle) (flags : UInt64) : Bundle :=
  { b with
    isFragment := decide (flags &&& bundleIsFragment ≠ 0)
    isAdmin := decide (flags &&& bundleIsAdmin ≠ 0)
    doNotFragment := decide (flags &&& bundleDoNotFragment ≠ 0)
    custodyRequested := decide (flags &&& bundleCustodyXferRequested ≠ 0)
    singletonDest := decide (flags &&& bundleSingletonDestination ≠ 0)
    appAckedRcpt := decide (flags &&& bundleAckByApp ≠ 0) }

def formatCosFlags (b : Bundle) : UInt64 := (b.priority &&& 3).toUInt64 <<< 7

def parseCosFlags (b : Bundle) (flags : UInt64) : Bundle :=
  { b with priority := ((flags >>> 7) &&& 3).toUInt8 }

def formatSrrFlags (b : Bundle) : UInt64 :=
  flagBit b.receiveRcpt statusReceived ||| flagBit b.custodyRcpt statusCustodyAccepted |||
    flagBit b.forwardRcpt statusForwarded ||| flagBit b.deliveryRcpt statusDelivered |||
    flagBit b.deletionRcpt statusDeleted

/-- The report requests are only ever switched on. -/
def parseSrrFlags (b : Bundle) (flags : UInt64) : Bundle :=
  { b with
    receiveRcpt := b.receiveRcpt || decide (flags &&& statusReceived ≠ 0)
    custodyRcpt := b.custodyRcpt || decide (flags &&& statusCustodyAccepted ≠ 0)
    forwardRcpt := b.forwardRcpt || decide (flags &&& statusForwarded ≠ 0)
    deliveryRcpt := b.deliveryRcpt || decide (flags &&& statusDelivered ≠ 0)
    deletionRcpt := b.deletionRcpt || decide (flags &&& statusDeleted ≠ 0) }

/-- The three parts of the processing flags of a received primary block. -/
def parseFlags (b : Bundle) (flags : UInt64) : Bundle :=
  parseSrrFlags (parseCosFlags (parseBundleFlags b flags) flags) flags

end PrimaryBlockProcessor

/-- `PrimaryBlockProcessor::PrimaryBlock`; the version byte is a constant. -/
structure PrimaryBlock where
  processingFlags : UInt64
  blockLength : UInt64
  destSchemeOffset : UInt64
  destSspOffset : UInt64
  sourceSchemeOffset : UInt64
  sourceSspOffset : UInt64
  replytoSchemeOffset : UInt64
  replytoSspOffset : UInt64
  custodianSchemeOffset : UInt64
  custodianSspOffset : UInt64
  creationTime : UInt64
  creationSequence : UInt64
  lifetime : UInt64
  dictionaryLength : UInt64
deriving DecidableEq, Repr

namespace PrimaryBlock

def zero : PrimaryBlock := ⟨0, 0, 0, 0, 0, 0, 0, 0, 0, 0, 0, 0, 0, 0⟩

/-- The eight endpoint id fields in wire order. -/
def offsets (p : PrimaryBlock) : List UInt64 :=
  [p.destSchemeOffset, p.destSspOffset, p.sourceSchemeOffset, p.sourceSspOffset,
    p.replytoSchemeOffset, p.replytoSspOffset, p.custodianSchemeOffset, p.custodianSspOffset]

/-- Everything between the block length and the dictionary, in wire order. -/
def fields (p : PrimaryBlock) : List UInt64 :=
  p.offsets ++ [p.creationTime, p.creationSequence, p.lifetime, p.dictionaryLength]

end PrimaryBlock

namespace PrimaryBlockProcessor

/-- The sum of `SDNV::encoding_len` over some values. -/
def sdnvLen (vs : List UInt64) : Nat := (vs.map SDNV.encodingLen).sum

/-- `get_offsets` into two fields that were zeroed before. -/
def storedOffsets (dict : Dictionary) (eid : EndpointID) : Exec (UInt64 × UInt64) := do
  match ← dict.getOffset eid.schemeStr with
  | none => pure (0, 0)
  | some schemeOffset =>
      match ← dict.getOffset eid.ssp with
      | none => pure (UInt64.ofNat schemeOffset, 0)
      | some sspOffset => pure (UInt64.ofNat schemeOffset, UInt64.ofNat sspOffset)

/-- The branch condition of `get_primary_len`: `strncmp(dest, "ipn", 3) == 0`. -/
def usesIpn (bundle : Bundle) : Bool := (ascii ['i', 'p', 'n']).isPrefixOf (cString bundle.dest.uri)

/-- The endpoint id fields as numbers; only the result of the first `get_ipn` is looked at. -/
def ipnFields (bundle : Bundle) : Option PrimaryBlock :=
  let dest := getIpn bundle.dest 0 0
  let source := getIpn bundle.source 0 0
  let replyto := getIpn bundle.replyto 0 0
  let custodian := getIpn bundle.custodian 0 0
  if dest.1 then
    some { PrimaryBlock.zero with
      destSchemeOffset := dest.2.1
      destSspOffset := dest.2.2
      sourceSchemeOffset := source.2.1
      sourceSspOffset := source.2.2
      replytoSchemeOffset := replyto.2.1
      replytoSspOffset := replyto.2.2
      custodianSchemeOffset := custodian.2.1
      custodianSspOffset := custodian.2.2 }
  else none

def dictFields (bundle : Bundle) (dict : Dictionary) : Exec PrimaryBlock := do
  let dest ← storedOffsets dict bundle.dest
  let source ← storedOffsets dict bundle.source
  let replyto ← storedOffsets dict bundle.replyto
  let custodian ← storedOffsets dict bundle.custodian
  pure { PrimaryBlock.zero with
    destSchemeOffset := dest.1
    destSspOffset := dest.2
    sourceSchemeOffset := source.1
    sourceSspOffset := source.2
    replytoSchemeOffset := replyto.1
    replytoSspOffset := replyto.2
    custodianSchemeOffset := custodian.1
    custodianSspOffset := custodian.2
    dictionaryLength := UInt64.ofNat dict.dict.length }

def fragmentFields (bundle : Bundle) : List UInt64 :=
  if bundle.isFragment then [bundle.fragOffset.toUInt64, bundle.origLength.toUInt64] else []

/-- The part of `get_primary_len` behind the endpoint ids. -/
def completeFields (bundle : Bundle) (eids : PrimaryBlock) : PrimaryBlock :=
  let primary := { eids with
    processingFlags := formatBundleFlags bundle ||| formatCosFlags bundle ||| formatSrrFlags bundle
    creationTime := bundle.creationTs.seconds
    creationSequence := bundle.creationTs.seqno
    lifetime := bundle.expiration }
  { primary with
    blockLength := UInt64.ofNat (sdnvLen primary.fields + primary.dictionaryLength.toNat +
      sdnvLen (fragmentFields bundle)) }

/-- `get_primary_len`: the computed length and the fields it filled in. -/
def getPrimaryLen (bundle : Bundle) (dict : Dictionary) : Exec (Nat × PrimaryBlock) :=
  let finish (eids : PrimaryBlock) :=
    let primary := completeFields bundle eids
    (1 + SDNV.encodingLen primary.processingFlags + SDNV.encodingLen primary.blockLength +
      primary.blockLength.toNat, primary)
  if usesIpn bundle then
    match ipnFields bundle with
    | none => pure (0, PrimaryBlock.zero)
    | some eids => pure (finish eids)
  else do
    let eids ← dictFields bundle dict
    pure (finish eids)

/-- `PBP_WRITE_SDNV` on one value after the other: the bytes written and the remaining `len`. -/
def writeSdnvs : List UInt64 → Int → Exec (Bytes × Int)
  | [], len => pure ([], len)
  | v :: vs, len =>
      match SDNV.encode v (len % 2 ^ 64).toNat with
      | none => .error (.fault .assertion)
      | some out => do
          let (rest, len) ← writeSdnvs vs (len - out.length)
          pure (out ++ rest, len)

/-- `generate_primary`. The whole block is its data: the data offset stays zero. -/
def generatePrimary (os : Oasys) (bundle : Bundle) (dict : Dictionary) (block : BlockInfo) :
    Exec BlockInfo := do
  let (primaryLen, primary) ← getPrimaryLen bundle dict
  let contents := block.contents.reserve os primaryLen
  let (fields, len) ← writeSdnvs ([primary.processingFlags, primary.blockLength] ++
    primary.offsets ++ [bundle.creationTs.seconds, bundle.creationTs.seqno, bundle.expiration,
      primary.dictionaryLength]) (toInt primaryLen - 1)
  let dictionary := dict.dict.take primary.dictionaryLength.toNat
  let (fragment, len) ← writeSdnvs (fragmentFields bundle) (len - primary.dictionaryLength.toNat)
  let contents ← contents.write (currentVersion :: fields ++ dictionary ++ fragment) primaryLen
  assertThat (len = 0)
  pure { block with contents := contents, dataLength := UInt32.ofNat primaryLen }

/-- Everything between the version byte and the bundle flags being parsed. -/
def readHead : Reader UInt8 (UInt64 × UInt64) := do
  let processingFlags ← SDNV.read
  let blockLength ← SDNV.read
  pure (processingFlags, blockLength)

def readFields : Reader UInt8 PrimaryBlock := do
  let destSchemeOffset ← SDNV.read
  let destSspOffset ← SDNV.read
  let sourceSchemeOffset ← SDNV.read
  let sourceSspOffset ← SDNV.read
  let replytoSchemeOffset ← SDNV.read
  let replytoSspOffset ← SDNV.read
  let custodianSchemeOffset ← SDNV.read
  let custodianSspOffset ← SDNV.read
  let creationTime ← SDNV.read
  let creationSequence ← SDNV.read
  let lifetime ← SDNV.read
  let dictionaryLength ← SDNV.read
  pure { PrimaryBlock.zero with
    destSchemeOffset := destSchemeOffset
    destSspOffset := destSspOffset
    sourceSchemeOffset := sourceSchemeOffset
    sourceSspOffset := sourceSspOffset
    replytoSchemeOffset := replytoSchemeOffset
    replytoSspOffset := replytoSspOffset
    custodianSchemeOffset := custodianSchemeOffset
    custodianSspOffset := custodianSspOffset
    creationTime := creationTime
    creationSequence := creationSequence
    lifetime := lifetime
    dictionaryLength := dictionaryLength }

/-- `make_ipn` into a buffer of 52 bytes, and `assign` of what it holds. -/
def assignIpn (os : Oasys) (eid path : UInt64) : Exec EndpointID :=
  if 52 < (makeIpn eid path).length + 1 then .error (.fault .outOfBounds)
  else pure (os.assign (cString (makeIpn eid path)))

/-- The endpoint ids of a block without a dictionary. -/
def parseIpnEids (os : Oasys) (bundle : Bundle) (primary : PrimaryBlock) : Exec Bundle := do
  let source ← assignIpn os primary.sourceSchemeOffset primary.sourceSspOffset
  let dest ← assignIpn os primary.destSchemeOffset primary.destSspOffset
  let replyto ← assignIpn os primary.replytoSchemeOffset primary.replytoSspOffset
  let custodian ← assignIpn os primary.custodianSchemeOffset primary.custodianSspOffset
  pure { bundle with source := source, dest := dest, replyto := replyto, custodian := custodian }

/-- The endpoint ids of a block with a dictionary, which is kept with the received blocks. -/
def parseDictEids (os : Oasys) (bundle : Bundle) (primary : PrimaryBlock) (dictionary : Bytes) :
    Exec Bundle := do
  let dict ← bundle.recvBlocks.dict.setDict dictionary
  pure { bundle with
    recvBlocks := { bundle.recvBlocks with dict := dict }
    source := (dict.extractEid os bundle.source primary.sourceSchemeOffset
      primary.sourceSspOffset).2
    dest := (dict.extractEid os bundle.dest primary.destSchemeOffset primary.destSspOffset).2
    replyto := (dict.extractEid os bundle.replyto primary.replytoSchemeOffset
      primary.replytoSspOffset).2
    custodian := (dict.extractEid os bundle.custodian primary.custodianSchemeOffset
      primary.custodianSspOffset).2 }

/-- The endpoint ids, `buf` starting with the dictionary if there is one. -/
def parseEids (os : Oasys) (bundle : Bundle) (primary : PrimaryBlock) (buf : Bytes) :
    Exec Bundle :=
  if primary.dictionaryLength = 0 then parseIpnEids os bundle primary
  else parseDictEids os bundle primary (buf.take primary.dictionaryLength.toNat)

def parseTimes (bundle : Bundle) (primary : PrimaryBlock) : Bundle :=
  { bundle with
    creationTs := ⟨primary.creationTime, primary.creationSequence⟩
    expiration := primary.lifetime }

/-- The fragment offset and the original length, which must fit into 32 bits. -/
def parseFragment (bundle : Bundle) (buf : Bytes) : Exec Bundle :=
  if bundle.isFragment = false then pure bundle
  else
    match SDNV.read buf with
    | none => .error .protocolError
    | some (fragOffset, buf) =>
        if 0xffffffff < fragOffset.toNat then .error .protocolError
        else
          match SDNV.read buf with
          | none => .error .protocolError
          | some (origLength, _) =>
              if 0xffffffff < origLength.toNat then .error .protocolError
              else pure { bundle with
                fragOffset := fragOffset.toUInt32, origLength := origLength.toUInt32 }

/-- The parsing of the fields behind the flags, `buf` being the rest of the block `contents`. The
check for a final NUL looks at the byte in front of the dictionary when that is empty. -/
def parseFields (os : Oasys) (bundle : Bundle) (contents buf : Bytes) : Exec Bundle :=
  match readFields buf with
  | none => .error .protocolError
  | some (primary, buf) =>
      let dictionaryLength := primary.dictionaryLength.toNat
      if buf.length < dictionaryLength then .error .protocolError
      else if contents[contents.length - buf.length + dictionaryLength - 1]? ≠ some 0 then
        .error .protocolError
      else do
        let bundle ← parseEids os (parseTimes bundle primary) primary buf
        parseFragment bundle (buf.drop dictionaryLength)

/-- What `PrimaryBlockProcessor::consume` does with a complete block. -/
def finish (os : Oasys) (bundle : Bundle) (block : BlockInfo) : Exec Bundle := do
  assertThat (block.fullLength.toNat = block.contents.len)
  match block.contents.filled with
  | [] => .error (.fault .outOfBounds)
  | version :: buf =>
      if version ≠ currentVersion then .error .protocolError
      else
        match readHead buf with
        | none => .error .protocolError
        | some ((flags, _), buf) => do
            assertThat (buf.length = block.dataLength.toNat)
            parseFields os (parseFlags bundle flags) block.contents.filled buf

end PrimaryBlockProcessor

end Dtn2
