import Dtn2.Bundling.Bundle
import Dtn2.Naming.Ipn

/-!
# Custody signals

A node that takes custody of a bundle, or has it already, sends a signal to the custodian before
it. The signal names the bundle by its source, its creation timestamp and its fragment fields, and
the custodian looks for a bundle with these in the list of those it has custody of.
`ipn` sources are written in another spelling.
-/

namespace Dtn2

open Framework

/-- The reason codes of custody signals. -/
inductive CustodyReason where
  | noAddtlInfo
  | redundantReception
  | depletedStorage
  | endpointIdUnintelligible
  | noRouteToDest
  | noTimelyContact
  | blockUnintelligible
deriving DecidableEq, Repr

def CustodyReason.code : CustodyReason → UInt8
  | noAddtlInfo => 0x00
  | redundantReception => 0x03
  | depletedStorage => 0x04
  | endpointIdUnintelligible => 0x05
  | noRouteToDest => 0x06
  | noTimelyContact => 0x07
  | blockUnintelligible => 0x08

def EndpointID.nullEid : EndpointID := ⟨EndpointID.dtnNone, true⟩

def dot : UInt8 := 0x2e

/-- The spelling of an `ipn` endpoint id in a node. -/
def ipnUri (a b : UInt64) : Bytes :=
  ipnPrefix ++ Decimal.print a.toNat ++ slash :: Decimal.print b.toNat

/-- The spelling of an `ipn` endpoint id in a signal. -/
def ipnText (a b : UInt64) : Bytes :=
  ascii ['i', 'p', 'n', ':'] ++ Decimal.print a.toNat ++ dot :: Decimal.print b.toNat

/-- `sscanf` with two numbers behind the literal `lit`, separated by `sep`. -/
def scanPair (lit : Bytes) (sep : UInt8) (input : Bytes) : Option (UInt64 × UInt64) :=
  match matchLiteral lit input with
  | none => none
  | some rest =>
      match scanUnsigned rest with
      | .value a rest =>
          match matchLiteral [sep] rest with
          | none => none
          | some rest =>
              match scanUnsigned rest with
              | .value b _ => some (a, b)
              | _ => none
      | _ => none

namespace CustodySignal

/-- The string starts with `ipn`. -/
def startsIpn (eid : EndpointID) : Bool := (ascii ['i', 'p', 'n']).isPrefixOf (cString eid.uri)

def tsEncodingLen (ts : BundleTimestamp) : Nat :=
  SDNV.encodingLen ts.seconds + SDNV.encodingLen ts.seqno

def signalLen (now : UInt64) (orig : Bundle) : Nat :=
  let eidLen := orig.source.uri.length - if startsIpn orig.source then 2 else 0
  2 + (if orig.isFragment = true then
      SDNV.encodingLen orig.fragOffset.toUInt64 + SDNV.encodingLen orig.origLength.toUInt64 else 0) +
    tsEncodingLen ⟨now, 0⟩ + tsEncodingLen orig.creationTs +
    (SDNV.encodingLen (UInt64.ofNat eidLen) + eidLen)

/-- `SDNV::encode` with the assertion on its return value. -/
def encodeField (val : UInt64) (len : Nat) : Exec Bytes :=
  match SDNV.encode val len with
  | none => .error (.fault .assertion)
  | some bytes => pure bytes

def encodePair (a b : UInt64) (len : Nat) : Exec Bytes := do
  let first ← encodeField a len
  let second ← encodeField b (len - first.length)
  pure (first ++ second)

def fragmentFields (orig : Bundle) (len : Nat) : Exec Bytes :=
  if orig.isFragment = true then encodePair orig.fragOffset.toUInt64 orig.origLength.toUInt64 len
  else pure []

/-- The length and the text of the source. An `ipn` text is copied out of a buffer of 80 bytes, up to
the length that was computed. -/
def sourceField (os : Oasys) (source : EndpointID) (len : Nat) : Exec Bytes :=
  match scanPair ipnPrefix slash (cString source.uri) with
  | some (a, b) => do
      let text := ipnText a b
      let count ← encodeField (UInt64.ofNat text.length) len
      let len := len - count.length
      if 80 < len then .error (.fault .outOfBounds)
      else pure (count ++ (text ++ 0 :: (List.range 80).map os.junk).take len)
  | none => do
      let count ← encodeField (UInt64.ofNat source.uri.length) len
      assertThat (len - count.length = source.uri.length)
      pure (count ++ source.uri)

/-- The payload of `create_custody_signal`. -/
def signalPayload (os : Oasys) (now : UInt64) (orig : Bundle) (succeeded : Bool)
    (reason : CustodyReason) : Exec Bytes := do
  let len := signalLen now orig - 2
  let fragment ← fragmentFields orig len
  let len := len - fragment.length
  let signalTime ← encodePair now 0 len
  let len := len - signalTime.length
  let creation ← encodePair orig.creationTs.seconds orig.creationTs.seqno len
  let len := len - creation.length
  let source ← sourceField os orig.source len
  pure ((0x20 ||| if orig.isFragment = true then 0x01 else 0) ::
    ((if succeeded then 0x80 else 0) ||| (reason.code &&& 0x7f)) ::
    (fragment ++ signalTime ++ creation ++ source))

def createCustodySignal (os : Oasys) (now : UInt64) (bundle orig : Bundle) (sourceEid : EndpointID)
    (succeeded : Bool) (reason : CustodyReason) : Exec Bundle :=
  if orig.custodian.uri = EndpointID.dtnNone then .error (.fault .panic)
  else do
    let payload ← signalPayload os now orig succeeded reason
    pure { bundle with
      source := sourceEid
      dest := orig.custodian
      replyto := .nullEid
      custodian := .nullEid
      isAdmin := true
      expiration := orig.expiration
      payload := { bundle.payload with data := payload } }

structure Data where
  adminFlags : UInt8
  succeeded : Bool
  reason : UInt8
  fragment : Option (UInt64 × UInt64)
  signalTime : BundleTimestamp
  creationTs : BundleTimestamp
  source : EndpointID
deriving DecidableEq, Repr

def readPair (input : Bytes) : Option ((UInt64 × UInt64) × Bytes) :=
  match SDNV.read input with
  | none => none
  | some (a, input) =>
      match SDNV.read input with
      | none => none
      | some (b, input) => some ((a, b), input)

def readFragment (flags : UInt8) (input : Bytes) : Option (Option (UInt64 × UInt64) × Bytes) :=
  if flags &&& 0x01 ≠ 0 then
    match readPair input with
    | none => none
    | some (fields, input) => some (some fields, input)
  else some (none, input)

def validEid (eid : EndpointID) : Option EndpointID := if eid.valid = true then some eid else none

/-- The source behind its length. `sscanf` reads on in the memory behind the payload. -/
def readSource (os : Oasys) (input beyond : Bytes) : Option EndpointID :=
  match SDNV.read input with
  | none => none
  | some (count, text) =>
      if text.length ≠ count.toNat then none
      else
        match scanPair (ascii ['i', 'p', 'n', ':']) dot (cString (text ++ beyond)) with
        | some (a, b) => validEid (os.assign (ipnUri a b))
        | none => validEid (os.assign text)

/-- `parse_custody_signal` on a payload, with the memory behind it. -/
def parseCustodySignal (os : Oasys) (payload beyond : Bytes) : Option Data :=
  match payload with
  | first :: status :: input =>
      if first >>> 4 ≠ 0x02 then none
      else
        match readFragment (first &&& 0xf) input with
        | none => none
        | some (fragment, input) =>
            match readPair input with
            | none => none
            | some (signalTime, input) =>
                match readPair input with
                | none => none
                | some (creation, input) =>
                    match readSource os input beyond with
                    | none => none
                    | some source => some ⟨first &&& 0xf, decide (status >>> 7 ≠ 0), status &&& 0x7f,
                        fragment, ⟨signalTime.1, signalTime.2⟩, ⟨creation.1, creation.2⟩, source⟩
  | _ => none

end CustodySignal

structure GbofId where
  source : EndpointID
  creationTs : BundleTimestamp
  isFragment : Bool
  fragLength : UInt32
  fragOffset : UInt32
deriving DecidableEq, Repr

def GbofId.equals (a b : GbofId) : Bool :=
  decide (a.creationTs = b.creationTs) && decide (a.isFragment = b.isFragment) &&
    (!a.isFragment || (decide (a.fragLength = b.fragLength) && decide (a.fragOffset = b.fragOffset)))
      && decide (a.source.uri = b.source.uri)

/-- The id that `BundleList::find` compares with: the length is that of the payload. -/
def Bundle.gbofId (b : Bundle) : GbofId :=
  ⟨b.source, b.creationTs, b.isFragment, UInt32.ofNat b.payload.length, b.fragOffset⟩

def BundleList.find (id : GbofId) (l : List Bundle) : Option Bundle :=
  l.find? fun b => id.equals b.gbofId && !b.freed

namespace CustodySignal

/-- The id that `handle_custody_signal` builds from a signal. -/
def Data.gbofId (data : Data) : GbofId :=
  let isFragment := decide (data.adminFlags &&& 0x01 ≠ 0)
  ⟨data.source, data.creationTs, isFragment,
    if isFragment then (data.fragment.getD (0, 0)).2.toUInt32 else 0,
    if isFragment then (data.fragment.getD (0, 0)).1.toUInt32 else 0⟩

/-- `handle_custody_signal`: the bundle whose custody is released. -/
def handleCustodySignal (custody : List Bundle) (data : Data) : Option Bundle :=
  match BundleList.find data.gbofId custody with
  | none => none
  | some orig =>
      if data.succeeded = true ∨ data.reason = CustodyReason.redundantReception.code then some orig
      else none

end CustodySignal

end Dtn2
