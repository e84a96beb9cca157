import Dtn2.Bundling.Bundle

/-!
# The generic block processor

`BlockProcessor::consume_preamble` and `BlockProcessor::consume`, which every received block goes
through, and `BlockProcessor::generate_preamble`, which writes the same preamble on the way out.
A partial preamble is kept in the contents buffer and parsed again from its start when more
bytes arrive; only a preamble that was parsed whole is recorded in the block.
-/

namespace Dtn2

open Framework

/-- What a preamble announces behind the type byte. -/
structure Preamble where
  flags : UInt64
  eidList : List EndpointID
  blockLen : UInt64
deriving DecidableEq, Repr

/-- The pairs of dictionary offsets. An endpoint id that cannot be extracted stays as it was
constructed. -/
def readEids (os : Oasys) (dict : Dictionary) : Nat → Reader UInt8 (List EndpointID)
  | 0 => pure []
  | n + 1 => do
      let schemeOffset ← SDNV.read
      let sspOffset ← SDNV.read
      let rest ← readEids os dict n
      pure ((dict.extractEid os .default schemeOffset sspOffset).2 :: rest)

/-- The EID-references field. The loop counter has 32 bits, so a count of `2 ^ 32` or more is
never reached and the loop ends where the buffer does. -/
def readEidRefs (os : Oasys) (dict : Dictionary) (flags : UInt64) :
    Reader UInt8 (List EndpointID) :=
  if flags &&& blockFlagEidRefs = 0 then pure []
  else do
    let eidRefCount ← SDNV.read
    if eidRefCount.toNat < 2 ^ 32 then readEids os dict eidRefCount.toNat else fun _ => none

def readPreamble (os : Oasys) (dict : Dictionary) : Reader UInt8 Preamble := do
  let flags ← SDNV.read
  let eidList ← readEidRefs os dict flags
  let blockLen ← SDNV.read
  pure ⟨flags, eidList, blockLen⟩

/-- The return of a partial preamble: the whole chunk must have been buffered. -/
def partialPreamble (block : BlockInfo) (contents : ScratchBuffer) (tocopy len : Nat) :
    Exec (BlockInfo × Nat) := do
  assertThat (tocopy = len)
  pure ({ block with contents := contents }, len)

namespace BlockProcessor

/-- The contents buffer with space for more of the preamble: it is expanded when it is full. -/
def openContents (os : Oasys) (block : BlockInfo) : ScratchBuffer :=
  if block.contents.nfree = 0 then block.contents.reserve os (block.contents.len + 64)
  else block.contents

/-- `BlockProcessor::consume_preamble`: the block afterwards and the number of bytes of `buf`
that were needed. -/
def consumePreamble (os : Oasys) (dict : Dictionary) (block : BlockInfo) (buf : Bytes) :
    Exec (BlockInfo × Nat) := do
  assertThat (block.complete = false)
  assertThat (block.dataOffset = 0)
  let contents := openContents os block
  let maxPreamble := contents.bufLen
  let prevConsumed := contents.len
  let tocopy := min buf.length (maxPreamble - prevConsumed)
  assertThat (prevConsumed < maxPreamble)
  assertThat (tocopy ≤ contents.nfree)
  let contents ← contents.append (buf.take tocopy)
  match SDNV.read (contents.filled.drop 1) with
  | none => partialPreamble block contents tocopy buf.length
  | some _ => do
      assertThat (block.eidList = [])
      match readPreamble os dict (contents.filled.drop 1) with
      | none => partialPreamble block contents tocopy buf.length
      | some (p, rest) =>
          if 0xffffffff < p.blockLen.toNat then .error .protocolError
          else
            let bufOffset := contents.len - rest.length
            pure ({ block with
              contents := contents.shrink bufOffset
              dataLength := p.blockLen.toUInt32
              dataOffset := UInt32.ofNat bufOffset
              eidList := p.eidList }, sizeSub bufOffset prevConsumed)

/-- `buf += cc; len -= cc` for an `int` return value: `-1` is passed on, and any other negative
value takes the pointer out of the chunk. -/
def advance (n : Nat) (buf : Bytes) : Exec Bytes :=
  if toInt n = -1 then .error .protocolError
  else if toInt n < 0 ∨ buf.length < (toInt n).toNat then .error (.fault .outOfBounds)
  else .ok (buf.drop (toInt n).toNat)

/-- The first part of `consume`: parse the preamble unless that was done before. Returns the
block and the rest of the chunk. -/
def consumeHead (os : Oasys) (dict : Dictionary) (block : BlockInfo) (buf : Bytes) :
    Exec (BlockInfo × Bytes) :=
  if block.dataOffset = 0 then do
    let (block, n) ← consumePreamble os dict block buf
    let rest ← advance n buf
    pure (block, rest)
  else pure (block, buf)

/-- With its preamble complete and no data to come, the block is complete. -/
def markEmpty (block : BlockInfo) : BlockInfo :=
  { block with
    complete := block.complete || decide (block.dataOffset ≠ 0 ∧ block.dataLength = 0) }

/-- The second part of `consume`: store data until the block is complete. Returns the block and
the number of bytes stored. -/
def consumeData (os : Oasys) (block : BlockInfo) (rest : Bytes) : Exec (BlockInfo × Nat) := do
  let block := markEmpty block
  if rest = [] then pure (block, 0)
  else do
    assertThat (block.dataLength = 0 ∨ block.contents.len < block.fullLength.toNat)
    let contents := block.contents.reserve os block.fullLength.toNat
    let remainder := sizeSub block.fullLength.toNat contents.len
    let tocopy := if remainder ≤ rest.length then remainder else rest.length
    let contents ← contents.append (rest.take tocopy)
    pure ({ block with
      contents := contents
      complete := block.complete || decide (remainder ≤ rest.length) }, tocopy)

/-- `BlockProcessor::consume`: the block afterwards and the number of bytes consumed. -/
def consume (os : Oasys) (dict : Dictionary) (block : BlockInfo) (buf : Bytes) :
    Exec (BlockInfo × Nat) := do
  assertThat (block.complete = false)
  let (block, rest) ← consumeHead os dict block buf
  if block.dataOffset = 0 then assertThat (rest.length = 0)
  let (block, stored) ← consumeData os block rest
  pure (block, buf.length - rest.length + stored)

/-- The offsets of the endpoint ids of a block as they go into the preamble. Each endpoint id
is added to the dictionary first. -/
def writeEids : List EndpointID → Dictionary → Exec (Bytes × Dictionary)
  | [], dict => pure ([], dict)
  | eid :: eids, dict => do
      let dict ← dict.addEid eid
      let offsets ← dict.getOffsets eid
      -- the return value of get_offsets is not looked at: it has just been added
      match offsets with
      | none => .error (.fault .assertion)
      | some (schemeOffset, sspOffset) => do
          let (out, dict) ← writeEids eids dict
          pure (SDNV.encoded (UInt32.ofNat schemeOffset).toUInt64 ++
            SDNV.encoded (UInt32.ofNat sspOffset).toUInt64 ++ out, dict)

/-- The EID-references field of a block, the flags with its bit set, and the dictionary with the
endpoint ids of the block. -/
def writeEidField (eids : List EndpointID) (flags : UInt64) (dict : Dictionary) :
    Exec (Bytes × UInt64 × Dictionary) :=
  if eids = [] then pure ([], flags, dict)
  else do
    let (out, dict) ← writeEids eids dict
    pure (SDNV.encoded (UInt32.ofNat eids.length).toUInt64 ++ out, flags ||| blockFlagEidRefs, dict)

/-- `BlockProcessor::generate_preamble` on an empty block: the block with its preamble, and the
dictionary. The EID-references field is assembled in a buffer of 1000 bytes. -/
def generatePreamble (dict : Dictionary) (block : BlockInfo) (type : UInt8) (flags : UInt64)
    (dataLength : UInt64) : Exec (BlockInfo × Dictionary) := do
  let (eidField, flags, dict) ← writeEidField block.eidList flags dict
  if 1000 < eidField.length then .error (.fault .outOfBounds)
  else do
    let preamble := type :: SDNV.encoded flags ++ eidField ++ SDNV.encoded dataLength
    assertThat (block.contents.len = 0)
    assertThat (preamble.length ≤ block.contents.bufLen)
    let contents ← block.contents.append preamble
    pure ({ block with
      contents := contents
      dataLength := dataLength.toUInt32
      dataOffset := UInt32.ofNat preamble.length }, dict)

/-- `BlockProcessor::produce`: part of the contents. -/
def produce (block : BlockInfo) (offset len : Nat) : Exec Bytes := do
  assertThat (offset < block.contents.len)
  assertThat (offset + len ≤ block.contents.len)
  pure ((block.contents.filled.drop offset).take len)

end BlockProcessor

end Dtn2
