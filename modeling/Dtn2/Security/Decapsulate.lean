import Dtn2.Security.Encapsulate

/-!
# Encrypted extension blocks are restored

`Ciphersuite_ES::validate` decrypts the block it is called for and all blocks with the same correlator. A
decrypted block is parsed again with a preamble that is made up from two sources: the type, the flags and
the lengths are its own, the dictionary offsets are those of the security block. Blocks that turn out to be
security blocks themselves are validated in turn, and what comes of that is not looked at.
-/

namespace Dtn2

namespace Security

open PrepareBlocks (Owner Suite findSuite csBlockHasSource csBlockHasDest)

/-- What `validate` works on: the bundle and its blocks. -/
structure Received where
  bundle : Bundle
  blocks : List CSBlock

/-- The position behind a number, `SDNV::len` further on. -/
def Pointer.skip (memory : Bytes) (p : Pointer) : Exec Pointer :=
  match (bytesAt memory p.pos).findIdx? fun b => decide (b &&& 0x80 = 0) with
  | some n => .ok (p.advance (n + 1))
  | none => .error (.fault .outOfBounds)

def Pointer.copyNumbers (memory : Bytes) : Nat → Pointer → Exec (Bytes × Pointer)
  | 0, p => pure ([], p)
  | n + 1, p => do
      let next ← p.skip memory
      let rest ← copyNumbers memory n next
      pure ((bytesAt memory p.pos).take (next.pos - p.pos).toNat ++ rest.1, rest.2)

/-- `sdnv_len = SDNV::encode(val, ptr, rem); ptr += sdnv_len; rem -= sdnv_len`. A value that does not fit
takes the pointer one byte back. -/
def putNumber (val : UInt64) (out : Bytes × Nat) : Bytes × Nat :=
  match SDNV.encode val out.2 with
  | some bs => (out.1 ++ bs, sizeSub out.2 bs.length)
  | none => (out.1.dropLast, (out.2 + 1) % 2 ^ 64)

/-- What a call returns that may fail. -/
def attempt {α : Type} : Exec α → Exec (Option α)
  | .ok a => .ok (some a)
  | .error .protocolError => .ok none
  | .error (.fault f) => .error (.fault f)

namespace CSBlock

/-- A new block of a type, with the protection that is noted for the old one. -/
def init (node : Node) (type : UInt8) (bsp : List ProtectionInfo) : CSBlock :=
  match node.findProcessor type with
  | .base processor => ⟨.base processor, BlockInfo.new node.os processor, none, bsp⟩
  | owner => ⟨owner, BlockInfo.new node.os .unknown, none, bsp⟩

/-- `owner()->consume(..)`. -/
def consume (node : Node) (bundle : Bundle) (b : CSBlock) (buf : Bytes) :
    Exec (Bundle × CSBlock × Nat) :=
  match b.owner with
  | .base processor => do
      let done ← consumeBlock node.params node.os bundle { b.info with owner := processor } buf
      pure (done.1, { b with info := done.2.1 }, done.2.2)
  | _ => do
      let done ← ASBlockProcessor.consume node.os bundle.recvBlocks.dict b.info buf
      pure (bundle, { b with
        info := done.1, locals := done.2.1.map fun l => ⟨l, .none, 0⟩ }, done.2.2)

end CSBlock

namespace CiphersuiteES

/-! ## The synthetic preamble -/

/-- The preamble of a decrypted block, as far as `recreate_block` reads it: its type, flags, number of
endpoint ids and data length, and the pointer to its data. -/
structure Decrypted where
  type : UInt8
  flags : UInt64
  eidRefCount : UInt64
  contentLength : UInt64
  data : Pointer

/-- The number of endpoint ids if the flags announce some; it must be that of the security block without
those that are to be skipped. -/
def readEidCount (memory : Bytes) (flags : UInt64) (eidCount skip : Nat) (p : Pointer) :
    Exec (Option (UInt64 × Pointer)) :=
  if flags &&& blockFlagEidRefs ≠ 0 then do
    let count ← p.number memory
    if (count.1.toNat + skip) % 2 ^ 64 ≠ eidCount then pure none else pure (some count)
  else pure (some (0, p))

/-- The first part of `recreate_block`. -/
def readDecrypted (memory : Bytes) (len eidCount skip : Nat) : Exec (Option Decrypted) :=
  match memory with
  | [] => .error (.fault .outOfBounds)
  | type :: _ => do
      let flags ← (Pointer.mk 0 len).advance 1 |>.number memory
      match ← readEidCount memory flags.1 eidCount skip flags.2 with
      | none => pure none
      | some count => do
          let refs ← count.2.copyNumbers memory (2 * count.1.toNat % 2 ^ 64)
          let contentLength ← refs.2.number memory
          pure (some ⟨type, flags.1, count.1, contentLength.1, contentLength.2⟩)

/-- The flags of the new block: whether it is the last one is what the security block says. -/
def lastFlagOf (outer flags : UInt64) : UInt64 :=
  if outer &&& blockFlagLastBlock ≠ 0 then flags ||| blockFlagLastBlock
  else flags &&& ~~~blockFlagLastBlock

/-- The offsets of the security block behind those that are to be skipped. -/
def copyOffsets (outer : BlockInfo) (count : UInt64) (skip : Nat) (out : Bytes × Nat) :
    Exec (Bytes × Nat) :=
  if count = 0 then pure out
  else do
    let memory := outer.contents.memory
    let flags ← ((Pointer.mk 0 outer.fullLength.toNat).advance 1).skip memory
    let eids ← flags.skip memory
    let out := putNumber count out
    let own ← eids.copyNumbers memory (2 * skip)
    let refs ← own.2.copyNumbers memory (2 * count.toNat % 2 ^ 64)
    pure (out.1 ++ refs.1, sizeSub out.2 refs.1.length)

/-- The preamble that is put together in a buffer of the size of the security block. -/
def syntheticPreamble (b : CSBlock) (d : Decrypted) (skip : Nat) : Exec Bytes := do
  let outer ← b.flags
  let full := b.info.fullLength.toNat
  let out := putNumber (lastFlagOf outer d.flags) ([d.type], sizeSub full 1)
  let out ← copyOffsets b.info d.eidRefCount skip out
  let out := putNumber d.contentLength out
  if full < out.1.length then .error (.fault .outOfBounds) else pure out.1

/-- `recreate_block`: whether it succeeds, the bundle and the block. The block is consumed in two parts,
the preamble and the data. What a `consume` that fails leaves in the block is not kept. -/
def recreateBlock (node : Node) (bundle : Bundle) (b : CSBlock) (text tag : Bytes) (skip : Nat) :
    Exec (Bool × Bundle × CSBlock) := do
  let memory := text ++ tag
  match ← readDecrypted memory text.length b.info.eidList.length skip with
  | none => pure (false, bundle, b)
  | some d => do
      let preamble ← syntheticPreamble b d skip
      let fresh := CSBlock.init node d.type b.bsp
      match ← attempt (fresh.consume node bundle preamble) with
      | none => pure (false, bundle, fresh)
      | some head =>
          if toInt head.2.2 < 0 then pure (false, head.1, head.2.1)
          else if (bytesAt memory d.data.pos).length < d.data.len then .error (.fault .outOfBounds)
          else do
            let rest := (bytesAt memory d.data.pos).take d.data.len
            match ← attempt (head.2.1.consume node head.1 rest) with
            | none => pure (false, head.1, head.2.1)
            | some tail => pure (decide (0 ≤ toInt tail.2.2), tail.1, tail.2.1)

/-! ## Decryption -/

/-- The key, the salt and the correlator that the blocks of an instance share. -/
structure Session where
  key : Bytes
  salt : Bytes
  correlator : UInt64

/-- What `decapsulate` does only for the first block. Key information that is missing is logged. -/
def openSession (node : Node) (bundle : Bundle) (l target : Locals) : Exec (Option Session) :=
  match findItem csSaltField target.securityParams with
  | none => pure none
  | some salt =>
      if salt.length ≠ saltLen then pure none
      else
        match node.cipher.decrypt (node.host (securityDestEid l bundle)) l.ownerCsNum
            ((findItem csKeyInfoField target.securityParams).getD []) with
        | none => pure none
        | some db =>
            if db.length < getKeyLen l.ownerCsNum then .error (.fault .outOfBounds)
            else pure (some ⟨db.take (getKeyLen l.ownerCsNum), salt, target.correlator⟩)

def sessionFor (node : Node) (bundle : Bundle) (l target : Locals) :
    Option Session → Exec (Option Session)
  | some s => pure (some s)
  | none => openSession node bundle l target

/-- The endpoint ids of the first block that are not those of the encapsulated one. -/
def eidsToSkip (l : Locals) (first : Bool) : Nat :=
  if first then (if l.has csBlockHasSource then 1 else 0) + (if l.has csBlockHasDest then 1 else 0)
  else 0

/-- The decryption of the result, behind the checks of the parameters. -/
def decryptBlock (node : Node) (bundle : Bundle) (b : CSBlock) (target : Locals) (iv : Bytes)
    (session : Session) (skip : Nat) : Exec (Bool × Bundle × CSBlock) :=
  match findItem csEncapBlockField target.securityResult with
  | none => pure (false, bundle, b)
  | some sealed =>
      if sealed.length < tagLen then .error (.fault .outOfBounds)
      else
        let tag := sealed.drop (sealed.length - tagLen)
        match node.cipher.decryptMessage session.key (session.salt ++ iv)
            (sealed.take (sealed.length - tagLen)) tag with
        | none => pure (false, bundle, b)
        | some text => recreateBlock node bundle b text tag skip

/-- `decapsulate` with the locals `l` of the first block: whether it succeeds, the bundle and the block,
and what the blocks of the instance share. The first block has no `session` yet. -/
def decapsulate (node : Node) (bundle : Bundle) (b : CSBlock) (l : Locals)
    (session : Option Session) : Exec ((Bool × Bundle × CSBlock) × Option Session) :=
  match b.locals with
  | none => pure ((false, bundle, b), session)
  | some target =>
      match findItem csIVField target.securityParams with
      | none => pure ((false, bundle, b), session)
      | some iv =>
          if iv.length ≠ ivLen then pure ((false, bundle, b), session)
          else do
            let opened ← sessionFor node bundle l target session
            match opened with
            | none => pure ((false, bundle, b), none)
            | some s => do
                let done ← decryptBlock node bundle b target iv s
                  (eidsToSkip l (decide (session.isNone)))
                pure (done, some s)

/-! ## Validation -/

def destinationIsLocalNode (node : Node) (bundle : Bundle) (b : CSBlock) : Bool :=
  match b.locals with
  | none => false
  | some l =>
      if l.has csBlockHasDest then decide (node.localEid = l.securityDest)
      else decide (node.localEid = node.basePortion bundle.dest.uri)

/-- `security_src_eid` of an extension security block. -/
def securitySrcEid (l : Locals) (bundle : Bundle) : Bytes :=
  if l.has csBlockHasSource then l.securitySrc else bundle.source.uri

def protection (l : Locals) (bundle : Bundle) : ProtectionInfo :=
  ⟨l.ownerCsNum.toNat, securitySrcEid l bundle, securityDestEid l bundle⟩

/-- `block.bsp.push_back(bsp)`. -/
def noted (b : CSBlock) (info : ProtectionInfo) : CSBlock := { b with bsp := b.bsp ++ [info] }

/-- The round of the loop over the blocks for the block at `j`, if it has the correlator of the
instance: whether the loop goes on, the blocks, and whether the block is to be validated. -/
def decapsulateAt (node : Node) (l : Locals) (info : ProtectionInfo) (session : Session)
    (st : Received) (j : Nat) (b : CSBlock) : Exec (Bool × Received × Bool) := do
  let type ← b.type
  if type ≠ Owner.extensionSecurity.blockType then pure (true, st, false)
  else
    match b.locals with
    | none => .error (.fault .nullPointer)
    | some target =>
        if target.correlator ≠ session.correlator then pure (true, st, false)
        else do
          let done ← decapsulate node st.bundle b l (some session)
          if done.1.1 = false then
            pure (false, ⟨done.1.2.1, st.blocks.set j done.1.2.2⟩, false)
          else do
            let type ← done.1.2.2.type
            pure (true, ⟨done.1.2.1, st.blocks.set j (noted done.1.2.2 info)⟩,
              decide (type = Owner.extensionSecurity.blockType))

/-- The loop over the blocks from `j` on: whether it comes to its end, the blocks, and which of them are
to be validated. -/
def decapsulateLoop (node : Node) (l : Locals) (info : ProtectionInfo) (session : Session) :
    Nat → Nat → Received → Exec (Bool × Received × List Nat)
  | 0, _, st => pure (true, st, [])
  | count + 1, j, st =>
      match st.blocks[j]? with
      | none => pure (true, st, [])
      | some b => do
          let round ← decapsulateAt node l info session st j b
          if round.1 = false then pure (false, round.2.1, [])
          else do
            let rest ← decapsulateLoop node l info session count (j + 1) round.2.1
            pure (rest.1, rest.2.1, (if round.2.2 then [j] else []) ++ rest.2.2)

/-- The blocks that are to be validated are, one after the other; the results are not looked at. -/
def revalidate (validate : Received → Nat → Exec (Bool × Received)) :
    List Nat → Received → Exec Received
  | [], st => pure st
  | j :: rest, st => do
      let done ← validate st j
      revalidate validate rest done.2

/-- The processors that pass `validate` on to the ciphersuite of the block. -/
def isSecurity : Owner → Bool
  | .authentication | .integrity | .confidentiality | .extensionSecurity => true
  | .base _ | .query => false

/-- `AS_BlockProcessor::validate` with `validate` of the ciphersuite. Ciphersuites of other kinds are not
looked into: they leave the blocks as they are. -/
def validateSecurity (node : Node) (validate : Received → Nat → Exec (Bool × Received))
    (st : Received) (i : Nat) : Exec (Bool × Received) :=
  match st.blocks[i]? with
  | none => .error (.fault .outOfBounds)
  | some b =>
      match b.locals with
      | none => pure (false, st)
      | some l =>
          if destinationIsLocalNode node st.bundle b = false then pure (true, st)
          else
            match findSuite l.ownerCsNum.toNat with
            | some .es => validate st i
            | some _ => pure (true, st)
            | none => pure (false, st)

/-- The second part of `validate`, behind the decryption of the block at `i`. -/
def validateRest (node : Node) (inner : Received → Nat → Exec (Bool × Received)) (l : Locals)
    (info : ProtectionInfo) (session : Session) (st : Received) (i : Nat) (b : CSBlock) :
    Exec (Bool × Received) := do
  let type ← b.type
  let st : Received := ⟨st.bundle, st.blocks.set i (noted b info)⟩
  let loop ← decapsulateLoop node l info session st.blocks.length 0 st
  if loop.1 = false then pure (false, loop.2.1)
  else
    -- the block at `i` again: the loop may have changed it
    match loop.2.1.blocks[i]? with
    | none => .error (.fault .outOfBounds)
    | some b => do
        let found ← b.type
        let again := (if type = Owner.extensionSecurity.blockType ∧ i ∉ loop.2.2 then [i] else []) ++
          loop.2.2
        if isSecurity (node.findProcessor (UInt8.ofNat found)) = true then do
          let st ← revalidate (validateSecurity node inner) (again.mergeSort (· ≤ ·)) loop.2.1
          pure (true, st)
        else pure (true, loop.2.1)

/-- `Ciphersuite_ES::validate` for the block at `i`. Every validation of a decrypted block is one level
deeper. -/
def validate (node : Node) : Nat → Received → Nat → Exec (Bool × Received)
  | 0, _, _ => .error (.fault .diverges)
  | depth + 1, st, i =>
      match st.blocks[i]? with
      | none => .error (.fault .outOfBounds)
      | some b =>
          match b.locals with
          | none => pure (false, st)
          | some l =>
              if destinationIsLocalNode node st.bundle b = false then pure (true, st)
              else do
                let info := protection l st.bundle
                let done ← decapsulate node st.bundle b l none
                let st : Received := ⟨done.1.2.1, st.blocks.set i done.1.2.2⟩
                match done.1.1, done.2 with
                | true, some session =>
                    validateRest node (validate node depth) l info session st i done.1.2.2
                | _, _ => pure (false, st)

/-- The extension security blocks from the one at `i` on are validated. -/
def validateFrom (node : Node) (depth : Nat) : Nat → Nat → Received → Exec (Bool × Received)
  | 0, _, st => pure (true, st)
  | count + 1, i, st =>
      match st.blocks[i]? with
      | none => pure (true, st)
      | some b =>
          if b.owner = .extensionSecurity then do
            let done ← validateSecurity node (validate node depth) st i
            if done.1 = false then pure (false, done.2)
            else validateFrom node depth count (i + 1) done.2
          else validateFrom node depth count (i + 1) st

def validateAll (node : Node) (depth : Nat) (st : Received) : Exec (Bool × Received) :=
  validateFrom node depth st.blocks.length 0 st

end CiphersuiteES

end Security

end Dtn2
