import Dtn2.Bpq.FragmentCoverage
import Dtn2.Bundling.Bundle

/-!
# The BPQ block

A query, a response or a publication carries its kind, a matching rule, the creation timestamp and the
source of the original bundle, the query and the list of the fragments that have been sent. `length`,
`write_to_buffer` and `initialise_from_buf` each go through these fields.
-/

namespace Dtn2

open Framework

/-- The fields of a `BPQBlock`. The query has its length in a `u_int` of its own. -/
structure BPQBlock where
  kind : UInt8
  matchingRule : UInt8
  creationTs : BundleTimestamp
  source : EndpointID
  query : Bytes
  fragments : List BPQFragment
deriving DecidableEq, Repr

namespace BPQBlock

/-- Values of `u_int`. -/
def uintMod : Nat := 2 ^ 32

def addFragment (b : BPQBlock) (f : BPQFragment) : BPQBlock :=
  { b with fragments := BPQFragmentList.insertSorted f b.fragments }

/-! ## Writing -/

/-- What `write_to_buffer` puts into the buffer: a byte or a value if there is room for it, and as many
bytes of a string as there is room for. -/
inductive Field where
  | byte (b : UInt8)
  | sdnv (val : UInt64)
  | bytes (bs : Bytes)
deriving DecidableEq, Repr

namespace Field

def encoded : Field → Bytes
  | byte b => [b]
  | sdnv val => SDNV.encoded val
  | bytes bs => bs

/-- One step of `write_to_buffer` in a buffer of `len` bytes, behind what has been written. -/
def write (len : Nat) (out : Bytes) : Field → Exec Bytes
  | byte b => if out.length < len then .ok (out ++ [b]) else .error .protocolError
  | sdnv val =>
      if out.length < len then
        match SDNV.encode val (len - out.length) with
        | none => .error .protocolError
        | some bs => .ok (out ++ bs)
      else .error .protocolError
  | bytes bs => .ok (out ++ bs.take (len - out.length))

end Field

/-- The length of the query, in `query_len_`. -/
def queryLen (b : BPQBlock) : UInt32 := UInt32.ofNat b.query.length

def fragLen (b : BPQBlock) : UInt32 := UInt32.ofNat b.fragments.length

def fragmentFields (f : BPQFragment) : List Field :=
  [.sdnv (UInt64.ofNat f.offset), .sdnv (UInt64.ofNat f.length)]

/-- The fields in the order of `write_to_buffer`. -/
def fields (b : BPQBlock) : List Field :=
  [.byte b.kind, .byte b.matchingRule, .sdnv b.creationTs.seconds, .sdnv b.creationTs.seqno,
    .sdnv (UInt64.ofNat b.source.uri.length), .bytes b.source.uri, .sdnv b.queryLen.toUInt64,
    .bytes (b.query.take b.queryLen.toNat), .sdnv b.fragLen.toUInt64] ++
  b.fragments.flatMap fragmentFields

/-- `BPQBlock::length`, a sum in `u_int`. -/
def length (b : BPQBlock) : Nat :=
  (2 + SDNV.encodingLen b.creationTs.seconds + SDNV.encodingLen b.creationTs.seqno +
    SDNV.encodingLen (UInt64.ofNat b.source.uri.length) + b.source.uri.length +
    SDNV.encodingLen b.queryLen.toUInt64 + b.queryLen.toNat + SDNV.encodingLen b.fragLen.toUInt64 +
    (b.fragments.map fun f => SDNV.encodingLen (UInt64.ofNat f.offset) +
      SDNV.encodingLen (UInt64.ofNat f.length)).sum) % uintMod

def writeFields (len : Nat) : List Field → Bytes → Exec Bytes
  | [], out => .ok out
  | f :: rest, out => do
      let out ← f.write len out
      writeFields len rest out

/-- `BPQBlock::write_to_buffer`: the return value and the bytes it stands for. -/
def writeToBuffer (b : BPQBlock) (len : Nat) : Exec (Int × Bytes) := do
  let out ← writeFields len b.fields []
  assertThat (out.length = b.length)
  pure (toInt out.length, out)

/-! ## Reading -/

/-- `extract_kind` and `extract_matching_rule`. -/
def extractByte (buf : Bytes) (i : Nat) : Exec (UInt8 × Nat) :=
  match buf[i]? with
  | some b => .ok (b, (i + 1) % uintMod)
  | none => .error .protocolError

/-- A value of 64 bits, with the index behind it. -/
def extractSdnv (buf : Bytes) (i : Nat) : Exec (UInt64 × Nat) :=
  if i < buf.length then
    match SDNV.decode (buf.drop i) with
    | (some n, val) => .ok (val, (i + n) % uintMod)
    | (none, _) => .error .protocolError
  else .error .protocolError

/-- A value of 32 bits, with the index behind it. -/
def extractSdnv32 (buf : Bytes) (i : Nat) : Exec (Nat × Nat) :=
  if i < buf.length then
    match SDNV.decode32 (buf.drop i) with
    | some (n, val) => .ok (val, (i + n) % uintMod)
    | none => .error .protocolError
  else .error .protocolError

def extractCreationTs (buf : Bytes) (i : Nat) : Exec (BundleTimestamp × Nat) := do
  let (seconds, i) ← extractSdnv buf i
  let (seqno, i) ← extractSdnv buf i
  pure (⟨seconds, seqno⟩, i)

/-- The bytes that a length in front of them announces. The sum is compared in `u_int`; the copy has the
length as it is. -/
def extractBytes (buf : Bytes) (i len : Nat) : Exec (Bytes × Nat) :=
  if (i + len) % uintMod < buf.length then
    if buf.length < i + len then .error (.fault .outOfBounds)
    else .ok ((buf.drop i).take len, (i + len) % uintMod)
  else .error .protocolError

def extractSource (os : Oasys) (buf : Bytes) (i : Nat) : Exec (EndpointID × Nat) := do
  let (srcEidLen, i) ← extractSdnv32 buf i
  let (bs, i) ← extractBytes buf i srcEidLen
  let source := os.assign bs
  if source.valid then pure (source, i) else .error .protocolError

def extractQuery (buf : Bytes) (i : Nat) : Exec (Bytes × Nat) := do
  let (queryLen, i) ← extractSdnv32 buf i
  extractBytes buf i queryLen

/-- The loop of `extract_fragments`, with the list so far. -/
def extractFragmentsLoop (buf : Bytes) : Nat → Nat → List BPQFragment → Exec (List BPQFragment)
  | 0, _, fragments => .ok fragments
  | count + 1, i, fragments => do
      let (offset, i) ← extractSdnv32 buf i
      let (len, i) ← extractSdnv32 buf i
      extractFragmentsLoop buf count i (BPQFragmentList.insertSorted ⟨offset, len⟩ fragments)

def extractFragments (buf : Bytes) (i : Nat) : Exec (List BPQFragment) := do
  let (count, i) ← extractSdnv32 buf i
  extractFragmentsLoop buf count i []

/-- `BPQBlock::initialise_from_buf` of a new block; the error is `BP_FAIL`. -/
def initialiseFromBuf (os : Oasys) (buf : Bytes) : Exec BPQBlock := do
  let (kind, i) ← extractByte buf 0
  let (matchingRule, i) ← extractByte buf i
  let (creationTs, i) ← extractCreationTs buf i
  let (source, i) ← extractSource os buf i
  let (query, i) ← extractQuery buf i
  let fragments ← extractFragments buf i
  pure ⟨kind, matchingRule, creationTs, source, query, fragments⟩

end BPQBlock

end Dtn2
