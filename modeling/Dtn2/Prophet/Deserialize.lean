import Dtn2.Framework.BigEndian
import Dtn2.Prophet.Tlv

/-!
# Reading Prophet messages

The parsers get a pointer and the count of bytes behind it. A pointer is the part of the message
from there to its end, and a read behind the end is a fault. The count is kept apart, as the source
does; subtractions from it are those of natural numbers, which is the same as long as nothing is
subtracted that is larger.
-/

namespace Dtn2

namespace Prophet

open Framework

def readByte (bp : Bytes) (i : Nat) : Exec UInt8 :=
  match bp[i]? with
  | some b => pure b
  | none => .error (.fault .outOfBounds)

/-- `n` bytes from an offset on. -/
def readBytes (bp : Bytes) (i n : Nat) : Exec Bytes :=
  if n = 0 ∨ i + n ≤ bp.length then pure ((bp.drop i).take n) else .error (.fault .outOfBounds)

/-- `ntohs` of a field. -/
def readU16 (bp : Bytes) (i : Nat) : Exec UInt16 := do
  let bytes ← readBytes bp i 2
  pure (UInt16.ofNat (BigEndian.decode bytes))

/-- `ntohl` of a field. -/
def readU32 (bp : Bytes) (i : Nat) : Exec UInt32 := do
  let bytes ← readBytes bp i 4
  pure (UInt32.ofNat (BigEndian.decode bytes))

namespace HelloTLV

def deserialize (bp : Bytes) (len : Nat) : Exec (Option TLV) := do
  let type ← readByte bp 0
  if type ≠ 0x01 then pure none
  else if len < helloHeaderSize then pure none
  else
    let helloLen ← readU16 bp 2
    if len < helloLen.toNat then pure none
    else
      let nameLength ← readByte bp 5
      if helloLen.toNat < nameLength.toNat then pure none
      else
        let hf ← readByte bp 1
        let timer ← readByte bp 4
        let name ← readBytes bp helloHeaderSize nameLength.toNat
        pure (some ⟨.hello (.ofBits (hf >>> 5)) timer name, 0, helloLen⟩)

end HelloTLV

namespace RIBDTLV

/-- `read_ras_entry`: the count of bytes read, and the string id and the name as they are left. -/
def readRasEntry (sid : UInt16) (destId bp : Bytes) (len : Nat) : Exec (Nat × UInt16 × Bytes) :=
  if routingAddressStringSize > len then pure (0, sid, destId)
  else do
    let length ← readByte bp 2
    let copylen := fourByteAlign length.toNat
    if copylen > len - routingAddressStringSize then pure (routingAddressStringSize, sid, destId)
    else
      let stringId ← readU16 bp 0
      let name ← readBytes bp routingAddressStringSize length.toNat
      pure (routingAddressStringSize + copylen, stringId, name)

def readEntries : Nat → UInt16 → Bytes → Dictionary → Bytes → Nat → Nat → Exec (Dictionary × Nat)
  | 0, _, _, ribd, _, _, amtRead => pure (ribd, amtRead)
  | count + 1, sid, destId, ribd, bp, len, amtRead => do
      let (bytesRead, sid, destId) ← readRasEntry sid destId bp len
      if bytesRead = 0 then pure (ribd, amtRead)
      else
        match ribd.assign destId sid with
        | none => pure (ribd, amtRead)
        | some ribd =>
            readEntries count sid destId ribd (bp.drop bytesRead) (len - bytesRead)
              (amtRead + bytesRead)

/-- `RIBDTLV::deserialize`. The string id is not initialised before the first entry; `assign` does
not look at it while the name is empty. -/
def deserialize (bp : Bytes) (len : Nat) : Exec (Option TLV) := do
  let type ← readByte bp 0
  if type ≠ 0xA0 then pure none
  else if len < ribdHeaderSize then pure none
  else
    let length ← readU16 bp 2
    if len < length.toNat then pure none
    else
      let flags ← readByte bp 1
      let entryCount ← readU16 bp 4
      let (ribd, amtRead) ← readEntries entryCount.toNat 0 [] .empty (bp.drop ribdHeaderSize)
        (len - ribdHeaderSize) ribdHeaderSize
      if amtRead = length.toNat then pure (some ⟨.ribd ribd, flags, length⟩) else pure none

end RIBDTLV

namespace RIBTLV

/-- The flags of a RIB and of its entries. -/
def relayNode : UInt8 := 0x01

def custodyNode : UInt8 := 0x02

def internetGwNode : UInt8 := 0x04

/-- `read_rib_entry`, if there are enough bytes. -/
def readRibEntry (bp : Bytes) : Exec RIBNode := do
  let sid ← readU16 bp 0
  let pvalue ← readByte bp 2
  let flags ← readByte bp 3
  pure ⟨sid, pvalue, decide (flags &&& relayNode = relayNode),
    decide (flags &&& custodyNode = custodyNode), decide (flags &&& internetGwNode = internetGwNode)⟩

def readEntries : Nat → List RIBNode → Bytes → Nat → Nat → Exec (List RIBNode × Nat)
  | 0, nodes, _, _, amtRead => pure (nodes, amtRead)
  | count + 1, nodes, bp, len, amtRead =>
      if ribEntrySize > len then pure (nodes, amtRead)
      else do
        let node ← readRibEntry bp
        readEntries count (nodes ++ [node]) (bp.drop ribEntrySize) (len - ribEntrySize)
          (amtRead + ribEntrySize)

def deserialize (bp : Bytes) (len : Nat) : Exec (Option TLV) :=
  if ribHeaderSize > len then pure none
  else do
    let type ← readByte bp 0
    if type ≠ 0xA1 then pure none
    else
      let length ← readU16 bp 2
      if length.toNat > len then pure none
      else
        let flags ← readByte bp 1
        let entryCount ← readU16 bp 4
        let (nodes, amtRead) ← readEntries entryCount.toNat [] (bp.drop ribHeaderSize)
          (len - ribHeaderSize) ribHeaderSize
        if amtRead = length.toNat then
          pure (some ⟨.rib nodes (decide (flags &&& relayNode = relayNode))
            (decide (flags &&& custodyNode = custodyNode))
            (decide (flags &&& internetGwNode = internetGwNode)), flags, length⟩)
        else pure none

end RIBTLV

namespace BundleTLV

def custodyFlag : UInt8 := 0x01

def acceptedFlag : UInt8 := 0x02

def ackFlag : UInt8 := 0x80

/-- `read_bundle_entry`, if there are enough bytes. -/
def readBundleEntry (bp : Bytes) : Exec BundleTLVEntry := do
  let flags ← readByte bp 2
  let sid ← readU16 bp 0
  let cts ← readU32 bp 4
  let seq ← readU32 bp 8
  pure ⟨cts, seq, sid, decide (flags &&& custodyFlag = custodyFlag),
    decide (flags &&& acceptedFlag = acceptedFlag), decide (flags &&& ackFlag = ackFlag)⟩

/-- The loop over the entries; nothing if one of them is refused. -/
def readEntries {type : BundleEntryType} (length : Nat) :
    Nat → BundleEntryList type → Bytes → Nat → Nat → Exec (Option (BundleEntryList type × Nat))
  | 0, list, _, _, amtRead => pure (some (list, amtRead))
  | count + 1, list, bp, len, amtRead =>
      if len ≥ bundleHeaderSize ∧ amtRead + bundleHeaderSize ≤ length then
        if bundleEntrySize > len then pure none
        else do
          let entry ← readBundleEntry bp
          match list.addEntry entry with
          | none => pure none
          | some list =>
              readEntries length count list (bp.drop bundleEntrySize) (len - bundleEntrySize)
                (amtRead + bundleEntrySize)
      else pure (some (list, amtRead))

/-- The body that `OfferTLV::deserialize` and `ResponseTLV::deserialize` share. -/
def deserialize {type : BundleEntryType} (typecode : UInt8) (body : BundleEntryList type → Body)
    (bp : Bytes) (len : Nat) : Exec (Option TLV) :=
  if bundleHeaderSize > len then pure none
  else do
    let first ← readByte bp 0
    if first ≠ typecode then pure none
    else
      let length ← readU16 bp 2
      if length.toNat > len then pure none
      else
        let flags ← readByte bp 1
        let offerCount ← readU16 bp 4
        match ← readEntries length.toNat offerCount.toNat .empty (bp.drop bundleHeaderSize)
            (len - bundleHeaderSize) bundleHeaderSize with
        | none => pure none
        | some (list, amtRead) =>
            if amtRead = length.toNat then pure (some ⟨body list, flags, length⟩) else pure none

end BundleTLV

def OfferTLV.deserialize : Bytes → Nat → Exec (Option TLV) := BundleTLV.deserialize 0xA2 .offer

def ResponseTLV.deserialize : Bytes → Nat → Exec (Option TLV) :=
  BundleTLV.deserialize 0xA3 .response

namespace ProphetTLV

def version : UInt8 := 0x01

/-- The header of a message. The 16 bits in front of the length say that it is a part of a longer
one, which is not supported. -/
def readHeader (src dst bp : Bytes) : Exec (Option Message) :=
  if prophetHeaderSize > bp.length then pure none
  else do
    let v ← readByte bp 0
    if v ≠ version then pure none
    else
      let flags ← readByte bp 1
      if flags ≠ 0 then pure none
      else
        let code ← readByte bp 3
        if code ≠ 0 then pure none
        else
          let length ← readU16 bp 14
          if length.toNat > bp.length then pure none
          else
            let result ← readByte bp 2
            let senderInstance ← readU16 bp 4
            let receiverInstance ← readU16 bp 6
            let tid ← readU32 bp 8
            let low ← readByte bp 12
            let high ← readByte bp 13
            if low &&& 1 = 1 ∨ low >>> 1 ≠ 0 ∨ high ≠ 0 then pure none
            else pure (some ⟨src, dst, .ofByte result, senderInstance, receiverInstance, tid,
              UInt16.ofNat prophetHeaderSize, []⟩)

def readTlv (bp : Bytes) (len : Nat) : Exec (Option TLV) := do
  let typecode ← readByte bp 0
  if typecode = 0x01 then HelloTLV.deserialize bp len
  else if typecode = 0xA0 then RIBDTLV.deserialize bp len
  else if typecode = 0xA1 then RIBTLV.deserialize bp len
  else if typecode = 0xA2 then OfferTLV.deserialize bp len
  else if typecode = 0xA3 then ResponseTLV.deserialize bp len
  else pure none

/-- The loop over the TLVs, for a number of rounds. -/
def readTlvs : Nat → Message → Bytes → Nat → Exec Message
  | 0, _, _, _ => .error (.fault .diverges)
  | fuel + 1, p, bp, len =>
      if len = 0 then pure p
      else do
        match ← readTlv bp len with
        | none => pure p
        | some tlv =>
            readTlvs fuel (p.addTlv tlv) (bp.drop tlv.length.toNat) (len - tlv.length.toNat)

def deserialize (fuel : Nat) (src dst bp : Bytes) : Exec (Option Message) := do
  match ← readHeader src dst bp with
  | none => pure none
  | some p =>
      let p ← readTlvs fuel p (bp.drop prophetHeaderSize) (bp.length - prophetHeaderSize)
      pure (some p)

end ProphetTLV

end Prophet

end Dtn2
