import Dtn2.Bundling.Processors
import Dtn2.Security.ParseBlock

/-!
# Extension blocks are encrypted

`Ciphersuite_ES` puts a placeholder into the transmit list. `finalize` erases it and turns every extension
block into an extension security block that holds the encrypted block. The first of them has the key and
the security source and destination, all of them have a correlator if there are several. The list is a
`std::vector<BlockInfo>`, and `BlockInfo` defines its own assignment. Encryption is a parameter.
-/

namespace Dtn2

namespace Security

open Framework
open PrepareBlocks (Owner ListOwner findSuite csBlockHasSource csBlockHasDest csBlockHasCorrelator)

def csIVField : UInt8 := 1
def csKeyInfoField : UInt8 := 3
def csSaltField : UInt8 := 7
def csEncapBlockField : UInt8 := 10

def saltLen : Nat := 4
def ivLen : Nat := 8
def tagLen : Nat := 16

/-- `get_key_len()` of the ciphersuites 4, 8 and 12. -/
def getKeyLen (csNum : UInt16) : Nat := if csNum = 12 then 32 else 16

/-- AES-GCM with a key and a nonce, and the encryption of keys for a host with a ciphersuite. -/
structure Cipher where
  encryptMessage : Bytes → Bytes → Bytes → Bytes × Bytes
  decryptMessage : Bytes → Bytes → Bytes → Bytes → Option Bytes
  decrypt_message : ∀ key nonce text, decryptMessage key nonce (encryptMessage key nonce text).1
    (encryptMessage key nonce text).2 = some text
  length_text : ∀ key nonce text, (encryptMessage key nonce text).1.length = text.length
  length_tag : ∀ key nonce text, (encryptMessage key nonce text).2.length = tagLen
  encrypt : Bytes → UInt16 → Bytes → Option Bytes
  decrypt : Bytes → UInt16 → Bytes → Option Bytes
  decrypt_key : ∀ host csNum key enc, encrypt host csNum key = some enc →
    decrypt host csNum enc = some key

/-- A node: the support library, its parameters, its endpoint id, what it makes of endpoint ids, and its
keys. -/
structure Node where
  os : Oasys
  params : Params
  localEid : Bytes
  basePortion : Bytes → Bytes
  host : Bytes → Bytes
  cipher : Cipher

/-- `find_processor` with the security blocks. -/
def Node.findProcessor (node : Node) (type : UInt8) : Owner :=
  match type.toNat with
  | 0x02 => .authentication
  | 0x03 => .integrity
  | 0x04 => .confidentiality
  | 0x09 => .extensionSecurity
  | _ => .base (BundleProtocol.findProcessor node.params type)

/-- A block with its processor; the locals are none unless they are a `BP_Local_CS`. -/
structure CSBlock where
  owner : Owner
  info : BlockInfo
  locals : Option Locals
  bsp : List ProtectionInfo
deriving DecidableEq, Repr

namespace CSBlock

def anyFirstByte : Owner → Bool
  | .base processor => processor.anyFirstByte
  | .extensionSecurity | .query => true
  | .authentication | .integrity | .confidentiality => false

def type (b : CSBlock) : Exec Nat :=
  if b.owner.blockType = 0 then pure 0
  else
    match b.info.contents.filled with
    | [] => pure b.owner.blockType
    | first :: _ => do
        assertThat (first.toNat = b.owner.blockType ∨ anyFirstByte b.owner)
        pure first.toNat

def flags (b : CSBlock) : Exec UInt64 := do
  let type ← b.type
  if type = 0 then pure 0
  else
    match b.info.contents.filled with
    | [] => .error (.fault .outOfBounds)
    | _ :: rest =>
        match SDNV.decode rest with
        | (some _, flags) => pure flags
        | (none, _) => .error (.fault .assertion)

def lastBlock (b : CSBlock) : Exec Bool :=
  if b.info.contents.len < 2 then pure false
  else do
    let flags ← b.flags
    pure (flags &&& blockFlagLastBlock ≠ 0)

/-- `BlockInfo::operator=` makes a copy of its argument, which it returns, and leaves the block that is
assigned to as it is. -/
def assign (this _bi : CSBlock) : CSBlock := this

end CSBlock

/-! ## The placeholder -/

/-- `create_bsp_block_from_source` for a block that was not received, from the security source and
destination of the block it is made for: its endpoint ids and its locals. -/
def createBspBlockFromSource (node : Node) (bundle : Bundle) (src dest : Bytes) (csNum : UInt16)
    (list : ListOwner) : List EndpointID × Locals :=
  let src := if src = [] ∧ node.localEid ≠ bundle.source.uri then node.localEid else src
  let flags := (if src ≠ [] then csBlockHasSource else 0) ||| (if dest ≠ [] then csBlockHasDest else 0)
  let eids := (if src ≠ [] then [node.os.assign src] else []) ++
    (if dest ≠ [] then [node.os.assign dest] else [])
  (eids, ⟨⟨csNum, UInt16.ofNat flags, 0, [], src, dest, []⟩, list, 0⟩)

namespace CiphersuiteES

/-- The block that `prepare` inserts. `LIST_NONE` marks it. -/
def prepared (node : Node) (bundle : Bundle) (src dest : Bytes) (csNum : UInt16) : CSBlock :=
  let made := createBspBlockFromSource node bundle src dest csNum .none
  ⟨.extensionSecurity, { BlockInfo.new node.os .unknown with eidList := made.1 }, some made.2, []⟩

/-- `generate` of a block that was not received. -/
def generate (node : Node) (dict : Dictionary) (block : CSBlock) (last : Bool) :
    Exec (CSBlock × Dictionary) :=
  match block.locals with
  | none => .error .protocolError
  | some l => do
      let made ← l.serialize node.os dict block.info (UInt8.ofNat block.owner.blockType) last
      pure ({ block with info := made.1 }, made.2)

/-! ## Encapsulation -/

def shouldBeEncapsulated (b : CSBlock) : Exec Bool := do
  let type ← b.type
  if type = Owner.extensionSecurity.blockType then
    match b.locals with
    | none => .error (.fault .nullPointer)
    | some l => pure (decide (l.listOwner ≠ .none) && esbable type)
  else pure (esbable type)

def countBlocks : List CSBlock → Exec Nat
  | [] => pure 0
  | b :: rest => do
      let counted ← shouldBeEncapsulated b
      let n ← countBlocks rest
      pure ((if counted then 1 else 0) + n)

/-- The first loop of `finalize`: `old_ESB_block` is erased, and the blocks are counted. After the
erasure the loop looks at the block that is in the same place, which may be the end of the list. -/
def eraseLoop (old : Nat) (blocks : List CSBlock) : Exec (List CSBlock × Nat) := do
  let before ← countBlocks (blocks.take old)
  let left := GrowVector.erased CSBlock.assign blocks old
  if left.length = old then .error (.fault .outOfBounds)
  else do
    let behind ← countBlocks (left.drop old)
    pure (left, before + behind)

def createCorrelator (bundle : Bundle) (blocks : List CSBlock) : UInt64 :=
  let high := blocks.foldl (fun high b =>
    match b.locals with
    | some l => max high (l.correlator.toNat % 2 ^ 16)
    | none => high) 0
  (if bundle.isFragment then (bundle.fragOffset <<< 24).toUInt64 else 0) ||| UInt64.ofNat (high + 1)

/-- What `finalize` draws at random: the salt, the key, and the initialisation vectors, which are
numbered. -/
structure Draws where
  salt : Bytes
  key : Bytes
  iv : Nat → Bytes
  length_salt : salt.length = saltLen
  length_iv : ∀ n, (iv n).length = ivLen

/-- What the encapsulation of all blocks has in common: the locals of the placeholder, the encrypted key,
and whether there are several blocks. -/
structure Instance where
  locals : Locals
  encryptedKey : Bytes
  useCorrelator : Bool

/-- The endpoint ids of the first block: the security source and destination come before its own. -/
def addSecSrcDest (os : Oasys) (l : Locals) (eids : List EndpointID) : List EndpointID :=
  (if l.securitySrc ≠ [] then [os.assign l.securitySrc] else []) ++
    (if l.securityDest ≠ [] then [os.assign l.securityDest] else []) ++ eids

def encapsulatedLocals (draws : Draws) (inst : Instance) (first : Bool) (iv sealed : Bytes) :
    Locals :=
  let l : Locals :=
    { Locals.new with
      ownerCsNum := inst.locals.ownerCsNum
      correlator := if inst.useCorrelator then inst.locals.correlator else 0
      listOwner := .xmit }
  let l := if inst.useCorrelator then l.setFlag csBlockHasCorrelator else l
  let l := if first ∧ inst.locals.securitySrc ≠ [] then l.setFlag csBlockHasSource else l
  let l := if first ∧ inst.locals.securityDest ≠ [] then l.setFlag csBlockHasDest else l
  let l := l.addSecurityParam csIVField iv
  let l := if first then (l.addSecurityParam csSaltField draws.salt).addSecurityParam csKeyInfoField
    inst.encryptedKey else l
  l.addSecurityResult csEncapBlockField sealed

/-- `encapsulate`. The contents are encrypted in place before they are written anew. -/
def encapsulate (node : Node) (draws : Draws) (inst : Instance) (first : Bool) (iv : Bytes)
    (dict : Dictionary) (b : CSBlock) : Exec (CSBlock × Dictionary) := do
  let last ← b.lastBlock
  let full := b.info.fullLength.toNat
  if b.info.contents.bufLen < full then .error (.fault .outOfBounds)
  else do
    let enc := node.cipher.encryptMessage draws.key (draws.salt ++ iv)
      (b.info.contents.memory.take full)
    let contents ← b.info.contents.write enc.1 b.info.contents.len
    let eids := if first then addSecSrcDest node.os inst.locals b.info.eidList else b.info.eidList
    let l := encapsulatedLocals draws inst first iv (enc.1 ++ enc.2)
    let made ← l.serialize node.os dict { b.info with contents := contents, eidList := eids }
      (UInt8.ofNat Owner.extensionSecurity.blockType) last
    pure (⟨.extensionSecurity, made.1, some l, b.bsp⟩, made.2)

/-- The last loop of `finalize`. -/
def encapsulateLoop (node : Node) (draws : Draws) (inst : Instance) :
    List CSBlock → Bool → Dictionary → Exec (List CSBlock × Dictionary)
  | [], _, dict => pure ([], dict)
  | b :: rest, first, dict => do
      let chosen ← shouldBeEncapsulated b
      if chosen then do
        let made ← encapsulate node draws inst first (draws.iv rest.length) dict b
        let after ← encapsulateLoop node draws inst rest false made.2
        pure (made.1 :: after.1, after.2)
      else do
        let after ← encapsulateLoop node draws inst rest first dict
        pure (b :: after.1, after.2)

/-- The locals of the placeholder, which get the correlator of the new blocks. -/
def correlated (bundle : Bundle) (blocks : List CSBlock) (count : Nat) (l : Locals) : Locals :=
  if 1 < count then
    { l.setFlag csBlockHasCorrelator with
      correlator := createCorrelator bundle blocks ||| (l.ownerCsNum.toUInt64 <<< 16) }
  else l

/-- The security destination of a block that has one, else that of the bundle. -/
def securityDestEid (l : Locals) (bundle : Bundle) : Bytes :=
  if l.has csBlockHasDest then l.securityDest else bundle.dest.uri

/-- `finalize` for the block at a position: whether it succeeds, and the transmit list. -/
def finalize (node : Node) (draws : Draws) (bundle : Bundle) (xmit : BlockInfoVec CSBlock)
    (old : Nat) : Exec (Bool × BlockInfoVec CSBlock) :=
  match xmit.blocks[old]?.bind CSBlock.locals with
  | none => pure (false, xmit)
  | some l =>
      if l.listOwner = .received then pure (true, xmit)
      else do
        let erased ← eraseLoop old xmit.blocks
        let l := correlated bundle erased.1 erased.2 l
        -- the placeholder that is still in the list has the same locals
        let blocks := erased.1.modify old fun b => { b with locals := some l }
        match node.cipher.encrypt (node.host (securityDestEid l bundle)) l.ownerCsNum draws.key with
        | none => pure (false, { xmit with blocks := blocks })
        | some encryptedKey => do
            let after ← encapsulateLoop node draws ⟨l, encryptedKey, decide (1 < erased.2)⟩ blocks true
              xmit.dict
            pure (true, ⟨after.1, after.2⟩)

end CiphersuiteES

end Security

end Dtn2
