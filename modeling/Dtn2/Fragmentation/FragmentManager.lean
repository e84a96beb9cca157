import Dtn2.Fragmentation.FragmentState
import Dtn2.Bundling.Generate

/-!
# The fragment manager

`FragmentManager`: cutting a bundle into fragments that fit a link, cutting off the tail of a
bundle that was sent in part, turning a bundle that was received in part into a fragment, and
putting fragments together again. Lengths are `size_t` values, and the subtractions wrap around.
-/

namespace Dtn2

namespace FragmentManager

/-! ## Cutting -/

/-- The condition of `create_fragment` to copy a block into the fragment. -/
def copiesBlock (first last foundPayload : Bool) (type : Nat) (block : XmitBlock) : Exec Bool :=
  if type = Processor.primary.blockType ∨ type = Processor.payload.blockType ∨
      (foundPayload = false ∧ first = true) ∨ (foundPayload = true ∧ last = true) ∨
      block.source = none then pure true
  else do
    let flags ← block.flags
    pure (decide (flags &&& blockFlagReplicate ≠ 0))

/-- The blocks that go into the fragment, and the bytes of those that are counted: all but the
payload block. -/
def copyBlocks (first last : Bool) : List XmitBlock → Bool → Exec (List BlockInfo × Nat)
  | [], _ => pure ([], 0)
  | block :: blocks, foundPayload => do
      let type ← block.type
      let copied ← copiesBlock first last foundPayload type block
      let (sources, counted) ← copyBlocks first last blocks
        (foundPayload || decide (type = Processor.payload.blockType))
      if copied = true then
        pure (block.source.toList ++ sources,
          if type = Processor.payload.blockType then counted
          else block.contents.len + counted)
      else pure (sources, counted)

/-- The bytes that the fragment fields add to the primary block. -/
def addedFields (bundle : Bundle) (offset : Nat) : Nat :=
  if bundle.isFragment = false then
    SDNV.encodingLen (UInt64.ofNat bundle.payload.length) +
      SDNV.encodingLen (UInt64.ofNat offset)
  else
    sizeSub (SDNV.encodingLen (UInt64.ofNat (bundle.fragOffset.toNat + offset)))
      (SDNV.encodingLen bundle.fragOffset.toUInt64)

/-- The check for an overallocated length: the rest of the payload, and of that the first
fragment takes one half. -/
def clampLength (payloadLen offset length : Nat) (first : Bool) : Nat :=
  if payloadLen ≤ (offset + length) % 2 ^ 64 then
    let length := sizeSub payloadLen offset
    if first = true then
      if length % 2 = 0 then length / 2 else length / 2 + 1
    else length
  else length

/-- `create_fragment`, into a new bundle. -/
def createFragment (os : Oasys) (id : Nat) (now : UInt64) (bundle : Bundle)
    (xmitBlocks : List XmitBlock) (offset length : Nat) (first last : Bool) : Exec Bundle := do
  let fragment := { bundle.copyMetadata (Bundle.new id now) with
    isFragment := true
    doNotFragment := false }
  let (sources, counted) ← copyBlocks first last xmitBlocks false
  let length := clampLength bundle.payload.length offset
    (sizeSub (sizeSub length counted) (addedFields bundle offset)) first
  let payload ← (fragment.payload.setLength os length).writeFrom bundle.payload offset length 0
  pure { fragment with
    recvBlocks := { fragment.recvBlocks with blocks := sources }
    origLength := if bundle.isFragment = false then UInt32.ofNat bundle.payload.length
      else bundle.origLength
    fragOffset := if bundle.isFragment = false then UInt32.ofNat offset
      else UInt32.ofNat (bundle.fragOffset.toNat + offset)
    payload := payload }

/-! ## Fragmenting for a link -/

/-- The pass of `proactively_fragment` over the transmit list: the bytes in the first and in the
last fragment. -/
def blockLengths : List XmitBlock → Bool → Exec (Nat × Nat)
  | [], _ => pure (0, 0)
  | block :: blocks, foundPayload => do
      let type ← block.type
      if type = Processor.primary.blockType then do
        let (firstLen, lastLen) ← blockLengths blocks foundPayload
        pure (block.contents.len + firstLen, block.contents.len + lastLen)
      else if type = Processor.payload.blockType then blockLengths blocks true
      else do
        let flags ← block.flags
        let (firstLen, lastLen) ← blockLengths blocks foundPayload
        if flags &&& blockFlagReplicate ≠ 0 ∨ block.source = none then
          pure (block.contents.len + firstLen, block.contents.len + lastLen)
        else if foundPayload = true then pure (firstLen, block.contents.len + lastLen)
        else pure (block.contents.len + firstLen, lastLen)

def estimatedFields (bundle : Bundle) : Nat :=
  if bundle.isFragment = true then SDNV.encodingLen bundle.origLength.toUInt64
  else SDNV.encodingLen (UInt64.ofNat (bundle.payload.length * 2))

/-- A fragment and the arguments of `create_fragment` that it was made with. -/
structure Piece where
  offset : Nat
  first : Bool
  last : Bool
  fragment : Bundle
deriving DecidableEq, Repr

/-- The loop of `proactively_fragment`: the fragments in the order they are created, and the state
they were added to. New bundles get consecutive ids. -/
def fragmentLoop (os : Oasys) (now : UInt64) (bundle : Bundle) (blocks : List XmitBlock)
    (maxLength lastLen : Nat) : Nat → Nat → Option FragmentState → Bool → Bool → Nat → Nat →
      Exec (List Piece × FragmentState)
  | 0, _, _, _, _, _, _ => .error (.fault .diverges)
  | fuel + 1, id, state, first, last, offset, todo => do
      let last := last || (!first && decide (todo + lastLen ≤ maxLength))
      let fragment ← createFragment os id now bundle blocks offset maxLength first last
      match state with
      | none => .error (.fault .nullPointer)
      | some state => do
          let state := state.addFragment fragment
          let todo := sizeSub todo fragment.payload.length
          if todo = 0 then pure ([⟨offset, first, last, fragment⟩], state)
          else do
            let (pieces, state) ← fragmentLoop os now bundle blocks maxLength lastLen fuel (id + 1)
              (some state) false last (offset + fragment.payload.length) todo
            pure (⟨offset, first, last, fragment⟩ :: pieces, state)

def proactiveState (table : FragmentTable) (bundle : Bundle) : Option FragmentState :=
  if bundle.isFragment = false then some ⟨bundle, []⟩ else table (getHashKey bundle)

/-- `proactively_fragment`, giving the loop at most `fuel` rounds. -/
def proactivelyFragment (os : Oasys) (fuel id : Nat) (now : UInt64) (table : FragmentTable)
    (bundle : Bundle) (blocks : List XmitBlock) (maxLength : Nat) :
    Exec (Option (List Piece × FragmentTable)) :=
  if bundle.payload.length ≤ 1 then pure none
  else do
    let (firstLen, lastLen) ← blockLengths blocks false
    let firstLen := firstLen + estimatedFields bundle
    let lastLen := lastLen + estimatedFields bundle
    if maxLength ≤ firstLen ∨ maxLength ≤ lastLen then pure none
    else do
      let (pieces, state) ← fragmentLoop os now bundle blocks maxLength lastLen fuel id
        (proactiveState table bundle) true false 0 bundle.payload.length
      match pieces.getLast? with
      | none => .error (.fault .nullPointer)
      | some piece => pure (some (pieces, table.insert (getHashKey piece.fragment) state))

/-! ## Fragmenting what was sent or received in part -/

def findBlock (type : Nat) : List BlockInfo → Exec (Option BlockInfo)
  | [] => pure none
  | block :: blocks => do
      if (← block.type) = type ∨ block.owner.blockType = type then pure (some block)
      else findBlock type blocks

/-- The offset and the length of the tail that `try_to_reactively_fragment` makes. -/
def tailOf (payloadLen payloadSent : Nat) : Nat × Nat :=
  if payloadLen ≤ payloadSent then (payloadLen - 1, 1)
  else (payloadSent, payloadLen - payloadSent)

/-- The assertion on a payload that was sent as a whole: there are blocks behind it. -/
def checkTrailing (payloadLen payloadSent : Nat) (payloadBlock : Option BlockInfo) : Exec Unit :=
  if payloadLen ≤ payloadSent then
    match payloadBlock with
    | none => .error (.fault .nullPointer)
    | some payloadBlock => do
        let lastBlock ← payloadBlock.lastBlock
        assertThat (lastBlock = false)
  else pure ()

/-- `try_to_reactively_fragment`: the tail fragment that is posted, if there is one. -/
def tryToReactivelyFragment (os : Oasys) (id : Nat) (now : UInt64) (bundle : Bundle)
    (blocks : List XmitBlock) (bytesSent : Nat) : Exec (Option Bundle) :=
  if bundle.doNotFragment = true then pure none
  else do
    let payloadOffset ← BundleProtocol.payloadOffset blocks
    if bytesSent ≤ payloadOffset then pure none
    else if BundleProtocol.totalLength blocks ≤ bytesSent then pure none
    else do
      let payloadBlock ← findBlock Processor.payload.blockType (blocks.map XmitBlock.toBlockInfo)
      let payloadLen := bundle.payload.length
      let payloadSent := min payloadLen (bytesSent - payloadOffset)
      if payloadLen ≤ 1 then pure none
      else do
        checkTrailing payloadLen payloadSent payloadBlock
        let tail ← createFragment os id now bundle blocks (tailOf payloadLen payloadSent).1
          (tailOf payloadLen payloadSent).2 false true
        pure (some tail)

def wholeBundlePresent (payloadBlock : BlockInfo) (blocks : List BlockInfo) : Exec Bool := do
  if (← payloadBlock.lastBlock) then pure true
  else
    match blocks.getLast? with
    | none => .error (.fault .outOfBounds)
    | some block =>
        if block.dataOffset ≠ 0 ∧ block.complete = true then block.lastBlock else pure false

/-- The fragment fields of a bundle that was received in part. -/
def markFragment (bundle : Bundle) (payloadLen : UInt32) : Bundle :=
  if bundle.isFragment = false then
    { bundle with
      isFragment := true
      origLength := payloadLen
      fragOffset := 0
      fragmentedIncoming := true }
  else { bundle with fragmentedIncoming := true }

/-- `try_to_convert_to_fragment`: whether the bundle was turned into a fragment, and the bundle. -/
def tryToConvertToFragment (bundle : Bundle) : Exec (Bool × Bundle) := do
  match ← findBlock Processor.payload.blockType bundle.recvBlocks.blocks with
  | none => pure (false, bundle)
  | some payloadBlock =>
      if payloadBlock.dataOffset = 0 ∨ bundle.doNotFragment = true ∨
          payloadBlock.dataLength.toNat ≤ 1 then pure (false, bundle)
      else if payloadBlock.dataLength.toNat ≤ bundle.payload.length then do
        assertThat (payloadBlock.complete = true ∨ payloadBlock.dataLength.toNat = 0)
        if (← wholeBundlePresent payloadBlock bundle.recvBlocks.blocks) then pure (false, bundle)
        else do
          let payload ← bundle.payload.truncate (bundle.payload.length - 1)
          pure (true, markFragment { bundle with payload := payload } payloadBlock.dataLength)
      else pure (true, markFragment bundle payloadBlock.dataLength)

/-! ## Reassembly -/

/-- The event that a bundle is complete: the bundle and the fragments it was made of. -/
structure ReassemblyCompleted where
  bundle : Bundle
  fragments : List Bundle
deriving DecidableEq, Repr

def newState (os : Oasys) (id : Nat) (now : UInt64) (fragment : Bundle) : FragmentState :=
  let bundle := { fragment.copyMetadata (Bundle.new id now) with isFragment := false }
  ⟨{ bundle with payload := bundle.payload.setLength os fragment.origLength.toNat }, []⟩

def headBlocks : List BlockInfo → Exec (List BlockInfo)
  | [] => pure []
  | block :: blocks => do
      if (← block.type) = Processor.payload.blockType then pure [block]
      else do
        let rest ← headBlocks blocks
        pure (block :: rest)

def tailBlocks : List BlockInfo → Bool → Exec (List BlockInfo)
  | [], _ => pure []
  | block :: blocks, seenPayload => do
      let type ← block.type
      let rest ← tailBlocks blocks (seenPayload || decide (type = Processor.payload.blockType))
      pure (if seenPayload = true then block :: rest else rest)

/-- What a fragment puts in front of the blocks of the bundle: its blocks up to the payload, if it
starts the payload. -/
def frontBlocks (fragment : Bundle) : Exec (List BlockInfo) :=
  if fragment.fragOffset = 0 then headBlocks fragment.recvBlocks.blocks else pure []

/-- What a fragment puts behind the blocks of the bundle: those behind its payload, if it ends the
payload. -/
def backBlocks (fragment : Bundle) : Exec (List BlockInfo) :=
  if fragment.fragOffset.toNat + fragment.payload.length = fragment.origLength.toNat then
    tailBlocks fragment.recvBlocks.blocks false
  else pure []

def mergeBlocks (bundle fragment : Bundle) : Exec Bundle := do
  let front ← frontBlocks fragment
  let back ← backBlocks fragment
  pure { bundle with recvBlocks := { bundle.recvBlocks with
    blocks := front ++ bundle.recvBlocks.blocks ++ back } }

/-- The part of `process_for_reassembly` that puts the fragment into the state. -/
def addToState (state : FragmentState) (fragment : Bundle) : Exec FragmentState := do
  let state := state.addFragment fragment
  let payload ← state.bundle.payload.writeFrom fragment.payload 0 fragment.payload.length
    fragment.fragOffset.toNat
  let bundle ← mergeBlocks { state.bundle with payload := payload } fragment
  pure { state with bundle := bundle }

/-- `process_for_reassembly`: the table, and the event if the bundle is complete. -/
def processForReassembly (os : Oasys) (id : Nat) (now : UInt64) (table : FragmentTable)
    (fragment : Bundle) : Exec (FragmentTable × Option ReassemblyCompleted) := do
  assertThat (fragment.isFragment = true)
  let state ← addToState ((table (getHashKey fragment)).getD (newState os id now fragment)) fragment
  if (← state.checkCompleted) then
    pure (table.erase (getHashKey fragment), some ⟨state.bundle, state.fragments⟩)
  else pure (table.insert (getHashKey fragment) state, none)

def deleteFragment (table : FragmentTable) (fragment : Bundle) : Exec FragmentTable := do
  assertThat (fragment.isFragment = true)
  match table (getHashKey fragment) with
  | none => pure table
  | some state =>
      match state.eraseFragment fragment with
      | (false, _) => pure table
      | (true, state) =>
          if state.fragments = [] then pure (table.erase (getHashKey fragment))
          else pure (table.insert (getHashKey fragment) state)

end FragmentManager

end Dtn2
