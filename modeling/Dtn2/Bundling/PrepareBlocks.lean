import Dtn2.Bundling.Bundle
import Dtn2.Framework.GrowVector

/-!
# Preparing the blocks of a transmission

`BundleProtocol::prepare_blocks` makes the list of blocks for a link: `prepare` of the owner is called for
every received block, for every block of the API, and for every registered processor that has no block in
the list. Generated metadata and the security blocks of the outgoing rules follow. The list is a
`std::vector<BlockInfo>`, and `BlockInfo` defines its own assignment.
-/

namespace Dtn2

namespace PrepareBlocks

open Framework

/-- The processors, with those of the builds with `BPQ_ENABLED` and `BSP_ENABLED`. -/
inductive Owner where
  | base (processor : Processor)
  | query
  | authentication
  | integrity
  | confidentiality
  | extensionSecurity
deriving DecidableEq, Repr

namespace Owner

def blockType : Owner → Nat
  | base processor => processor.blockType
  | authentication => 0x002
  | integrity => 0x003
  | confidentiality => 0x004
  | extensionSecurity => 0x009
  | query => 0x00b

def primary : Owner := base .primary

def payload : Owner := base .payload

end Owner

/-- `list_owner_t`. -/
inductive ListOwner where
  | none
  | received
  | api
  | ext
  | xmit
deriving DecidableEq, Repr

/-- `BP_Local_CS`, as far as `prepare` reads and sets it. -/
structure SecurityLocals where
  ownerCsNum : Nat
  listOwner : ListOwner
  securitySrc : Bytes
  securityDest : Bytes
  csFlags : Nat
  correlator : Nat
  correlatorSequence : Nat
deriving DecidableEq, Repr

def SecurityLocals.new : SecurityLocals := ⟨0, .none, [], [], 0, 0, 0⟩

/-- The locals of a received block or of a block of the API. Metadata may be in error, or may have been
marked for removal on this link. -/
inductive SourceLocals where
  | metadata (error removed : Bool)
  | security (locals : SecurityLocals)
deriving DecidableEq, Repr

structure SourceBlock where
  owner : Owner
  type : Nat
  discardOnError : Bool
  eidList : List Bytes
  locals : Option SourceLocals
deriving DecidableEq, Repr

/-- The `source_` pointer: into the received blocks, the blocks of the API, or to the block that
`prepare_out_blocks` makes up for a rule. -/
inductive Source where
  | received (index : Nat)
  | api (index : Nat)
  | rule (index : Nat)
deriving DecidableEq, Repr

/-- The locals of a block in the transmit list; a metadata block is known by its id. -/
inductive XmitLocals where
  | metadata (id : Nat)
  | security (locals : SecurityLocals)
deriving DecidableEq, Repr

/-- A block as `prepare` leaves it, without contents. `call` numbers the blocks as they are made; a
copy keeps the number. -/
structure XmitBlock where
  owner : Owner
  source : Option Source
  eidList : List Bytes
  locals : Option XmitLocals
  call : Nat
deriving DecidableEq, Repr

/-- `BlockInfo::operator=` makes a copy of its argument, which it returns, and leaves the block that is
assigned to as it is. -/
def XmitBlock.assign (this _bi : XmitBlock) : XmitBlock := this

/-- The transmit list, with the insertions that made it. -/
structure XmitBlocks (g : Growth) where
  vec : GrowVector XmitBlock
  calls : List (GrowVector.Call XmitBlock)
  traced : GrowVector.Traced g XmitBlock.assign vec calls
  numbered : ∀ p ∈ calls.zipIdx, p.1.value.call = p.2

namespace XmitBlocks

variable {g : Growth}

def empty (g : Growth) : XmitBlocks g where
  vec := .empty
  calls := []
  traced := .empty
  numbered := fun _ hp => absurd hp List.not_mem_nil

def blocks (v : XmitBlocks g) : List XmitBlock := v.vec.data

def block (v : XmitBlocks g) (owner : Owner) (source : Option Source) (eidList : List Bytes)
    (locals : Option XmitLocals) : XmitBlock :=
  ⟨owner, source, eidList, locals, v.calls.length⟩

/-- `insert(begin() + position, ..)`. -/
def insert (v : XmitBlocks g) (position : Nat) (owner : Owner) (source : Option Source)
    (eidList : List Bytes) (locals : Option XmitLocals) : XmitBlocks g where
  vec := v.vec.insert g XmitBlock.assign position (v.block owner source eidList locals)
  calls := v.calls ++ [⟨position, v.block owner source eidList locals⟩]
  traced := v.traced.insert position _
  numbered := by
    intro p hp
    rw [List.zipIdx_append, List.mem_append] at hp
    rcases hp with hp | hp
    · exact v.numbered p hp
    · rw [List.zipIdx_singleton, List.mem_singleton, Nat.zero_add] at hp
      rw [hp]
      rfl

/-- `push_back`, which makes its copy behind the last block. -/
def pushBack (v : XmitBlocks g) (owner : Owner) (source : Option Source) (eidList : List Bytes)
    (locals : Option XmitLocals) : XmitBlocks g :=
  v.insert v.blocks.length owner source eidList locals

/-- `has_block`. The blocks have no contents yet, and their type is that of the owner. -/
def hasBlock (v : XmitBlocks g) (type : Nat) : Bool :=
  v.blocks.any fun b => decide (b.owner.blockType = type)

/-- `(*xmit_blocks)[0].type() == PRIMARY_BLOCK`. -/
def startsWithPrimary (v : XmitBlocks g) : Bool :=
  match v.blocks with
  | [] => false
  | b :: _ => decide (b.owner.blockType = 0)

end XmitBlocks

/-- A metadata block that was generated here, possibly from another one. -/
structure GeneratedMetadata where
  id : Nat
  metadataLen : Nat
  sourceId : Option Nat
deriving DecidableEq, Repr

/-- How the program is built and configured. -/
structure Config where
  growth : Growth
  bpqEnabled : Bool
  bspEnabled : Bool
  ageOutboundEnabled : Bool
  ageInboundProcessing : Bool
  localEid : Bytes

/-- What `prepare_blocks` reads of the bundle and the link. `outgoingRules` are the ciphersuites and
security destinations of the policy, unless it is inconsistent. -/
structure Outgoing where
  recvBlocks : List SourceBlock
  apiBlocks : List SourceBlock
  fragmentedIncoming : Bool
  source : Bytes
  destNode : Bytes
  fragOffset : Option Nat
  sessionEid : Bytes
  hasSequenceId : Bool
  hasObsoletesId : Bool
  prevhopHdr : Bool
  linkMetadata : Option (List GeneratedMetadata)
  nullMetadata : Option (List GeneratedMetadata)
  outgoingRules : Option (List (Nat × Bytes))
deriving DecidableEq, Repr

def findProcessor (config : Config) (type : Nat) : Owner :=
  match type with
  | 0x00 => .base .primary
  | 0x01 => .base .payload
  | 0x02 => if config.bspEnabled then .authentication else .base .unknown
  | 0x03 => if config.bspEnabled then .integrity else .base .unknown
  | 0x04 => if config.bspEnabled then .confidentiality else .base .unknown
  | 0x05 => .base .previousHop
  | 0x08 => .base .metadata
  | 0x09 => if config.bspEnabled then .extensionSecurity else .base .unknown
  | 0x0a => if config.ageInboundProcessing then .base .age else .base .unknown
  | 0x0b => if config.bpqEnabled then .query else .base .unknown
  | 0x0c => .base .session
  | 0x10 => .base .sequenceID
  | 0x11 => .base .obsoletesID
  | _ => .base .unknown

inductive Suite where
  | ba
  | pi
  | pc
  | es
deriving DecidableEq, Repr

/-- `Ciphersuite::find_suite` with the registered ciphersuites 1 to 12. -/
def findSuite (num : Nat) : Option Suite :=
  if 1 ≤ num ∧ num ≤ 12 then
    match num % 4 with
    | 1 => some .ba
    | 2 => some .pi
    | 3 => some .pc
    | _ => some .es
  else none

def csBlockHasSource : Nat := 0x10
def csBlockHasDest : Nat := 0x08
def csBlockHasCorrelator : Nat := 0x02

/-- `create_correlator`: the fragment offset in a 32 bit word, and one more than the low 16 bits of any
correlator in the list. -/
def createCorrelator (bundle : Outgoing) (blocks : List XmitBlock) : Nat :=
  let high := blocks.foldl (fun high b =>
    match b.locals with
    | some (.security locals) => max high (locals.correlator % 2 ^ 16)
    | _ => high) 0
  (match bundle.fragOffset with
    | some offset => offset * 2 ^ 24 % 2 ^ 32
    | none => 0) ||| (high + 1)

/-- `create_bsp_block_from_source`: the endpoint ids and the locals of the new block. -/
def createBspBlockFromSource (config : Config) (bundle : Outgoing) (list : ListOwner) (csNum : Nat)
    (eidList : List Bytes) (source : SecurityLocals) : List Bytes × SecurityLocals :=
  let src :=
    if list ≠ .received ∧ source.securitySrc = [] ∧ config.localEid ≠ bundle.source then
      config.localEid
    else source.securitySrc
  let dest := source.securityDest
  let flags := (if src ≠ [] then csBlockHasSource else 0) ||| (if dest ≠ [] then csBlockHasDest else 0)
  let eids :=
    if list = .received then eidList
    else (if src ≠ [] then [src] else []) ++ (if dest ≠ [] then [dest] else [])
  (eids, { SecurityLocals.new with
    ownerCsNum := csNum, listOwner := list, securitySrc := src, securityDest := dest,
    csFlags := flags })

def destinationIsLocalNode (config : Config) (bundle : Outgoing) (source : SourceBlock) : Bool :=
  match source.locals with
  | some (.security locals) =>
      if locals.csFlags &&& csBlockHasDest ≠ 0 then decide (config.localEid = locals.securityDest)
      else decide (config.localEid = bundle.destNode)
  | _ => false

section Prepare

variable (config : Config) (bundle : Outgoing)

/-- `BlockProcessor::prepare`. Received blocks are added to the end, any other ones behind the primary
block. -/
def BlockProcessor.prepare (v : XmitBlocks config.growth) (owner : Owner) (source : Option Source)
    (list : ListOwner) : Exec (Bool × XmitBlocks config.growth) :=
  if list = .received then pure (true, v.pushBack owner source [] none)
  else do
    assertThat (v.startsWithPrimary = true)
    pure (true, v.insert 1 owner source [] none)

/-- `PrimaryBlockProcessor::prepare`; the dictionary is left out. -/
def PrimaryBlockProcessor.prepare (v : XmitBlocks config.growth) (source : Option Source) :
    Exec (Bool × XmitBlocks config.growth) := do
  assertThat (v.blocks.length = 0)
  pure (true, v.insert 0 .primary source [] none)

def MetadataBlockProcessor.prepare (v : XmitBlocks config.growth)
    (source : Option (Source × SourceBlock)) (list : ListOwner) :
    Exec (Bool × XmitBlocks config.growth) :=
  match source with
  | none => pure (false, v)
  | some (ref, block) => do
      assertThat (block.owner = .base .metadata)
      assertThat (block.type = Processor.metadata.blockType)
      match block.locals with
      | some (.metadata error removed) =>
          if error = true ∧ block.discardOnError = true then pure (false, v)
          else if removed = true then pure (false, v)
          else do
            let (_, v) ← BlockProcessor.prepare config v (.base .metadata) (some ref) list
            pure (true, v)
      | _ => pure (false, v)

def SessionBlockProcessor.prepare (v : XmitBlocks config.growth) (source : Option Source)
    (list : ListOwner) : Exec (Bool × XmitBlocks config.growth) :=
  if bundle.sessionEid.length = 0 then pure (true, v)
  else do
    assertThat (bundle.sessionEid ≠ EndpointID.dtnNone)
    let (_, v) ← BlockProcessor.prepare config v (.base .session) source list
    pure (true, v)

/-- `SequenceIDBlockProcessor::prepare` for either of its two types. -/
def SequenceIDBlockProcessor.prepare (v : XmitBlocks config.growth) (type : Processor)
    (present : Bool) (source : Option Source) (list : ListOwner) :
    Exec (Bool × XmitBlocks config.growth) :=
  if present = false then pure (true, v)
  else do
    let (_, v) ← BlockProcessor.prepare config v (.base type) source list
    pure (true, v)

def AgeBlockProcessor.prepare (v : XmitBlocks config.growth) (source : Option Source)
    (list : ListOwner) : Exec (Bool × XmitBlocks config.growth) :=
  if config.ageOutboundEnabled = false then pure (false, v)
  else if (bundle.apiBlocks.any fun b =>
      decide (b.type = Processor.age.blockType ∨ b.owner.blockType = Processor.age.blockType)) then
    pure (false, v)
  else BlockProcessor.prepare config v (.base .age) source list

def UnknownBlockProcessor.prepare (v : XmitBlocks config.growth)
    (source : Option (Source × SourceBlock)) (list : ListOwner) :
    Exec (Bool × XmitBlocks config.growth) :=
  match source with
  | none => .error (.fault .assertion)
  | some (ref, block) => do
      assertThat (block.owner = .base .unknown)
      if block.discardOnError = true then pure (false, v)
      else BlockProcessor.prepare config v (.base .unknown) (some ref) list

def BPQBlockProcessor.prepare (v : XmitBlocks config.growth) (source : Option Source)
    (list : ListOwner) : Exec (Bool × XmitBlocks config.growth) :=
  match list with
  | .api => do
      assertThat (v.startsWithPrimary = true)
      let v := v.insert 1 .query source [] none
      assertThat (v.hasBlock Owner.query.blockType = true)
      pure (true, v)
  | .received => do
      let v := v.pushBack .query source [] none
      assertThat (v.hasBlock Owner.query.blockType = true)
      pure (true, v)
  | _ => pure (false, v)

/-- `Ciphersuite_BA::prepare`: a block behind the primary block and one at the end. -/
def CiphersuiteBA.prepare (v : XmitBlocks config.growth) (csNum : Nat) (ref : Source)
    (source : SecurityLocals) : Bool × XmitBlocks config.growth :=
  let src := if source.securitySrc = [] then config.localEid else source.securitySrc
  let dest := source.securityDest
  let flags := csBlockHasCorrelator ||| csBlockHasSource |||
    (if dest ≠ [] then csBlockHasDest else 0)
  let eids := src :: (if dest ≠ [] then [dest] else [])
  let correlator := createCorrelator bundle v.blocks ||| csNum * 2 ^ 16
  let front : SecurityLocals := ⟨csNum, .none, src, dest, flags, correlator, 0⟩
  let back : SecurityLocals := ⟨csNum, .none, [], [], flags, correlator, 1⟩
  let v := v.insert (if v.startsWithPrimary = true then 1 else 0) .authentication (some ref) eids
    (some (.security front))
  (true, v.pushBack .authentication (some ref) eids (some (.security back)))

/-- The block that the other ciphersuites put in front of the first block of a type that they do not
skip; if there is none, it is only added to an empty list. -/
def insertSecurityBlock (v : XmitBlocks config.growth) (skipped : List Nat) (owner : Owner)
    (ref : Source) (made : List Bytes × SecurityLocals) : XmitBlocks config.growth :=
  if v.blocks.length = 0 then v.pushBack owner (some ref) made.1 (some (.security made.2))
  else
    match v.blocks.findIdx? fun b => decide (b.owner.blockType ∉ skipped) with
    | some position => v.insert position owner (some ref) made.1 (some (.security made.2))
    | none => v

/-- `prepare` of a ciphersuite. Integrity blocks get the processor of the confidentiality blocks. -/
def Ciphersuite.prepare (v : XmitBlocks config.growth) (suite : Suite) (csNum : Nat) (ref : Source)
    (source : SecurityLocals) (list : ListOwner) : Bool × XmitBlocks config.growth :=
  let made := createBspBlockFromSource config bundle list csNum [] source
  match suite with
  | .ba => CiphersuiteBA.prepare config bundle v csNum ref source
  | .pi | .pc =>
      if source.securityDest = config.localEid then (true, v)
      else (true, insertSecurityBlock config v [0x00, 0x02] .confidentiality ref made)
  | .es =>
      if source.securityDest = config.localEid then (true, v)
      else
        (true, insertSecurityBlock config v [0x00, 0x01, 0x04, 0x02] .extensionSecurity ref
          (made.1, { made.2 with listOwner := .none }))

def BABlockProcessor.prepare (v : XmitBlocks config.growth)
    (source : Option (Source × SourceBlock)) (list : ListOwner) : Bool × XmitBlocks config.growth :=
  match source with
  | none => (true, v)
  | some (ref, block) =>
      if list = .none then (true, v)
      else
        match block.locals with
        | some (.security locals) =>
            if list = .api ∨ list = .ext then
              match findSuite locals.ownerCsNum with
              | none => (false, v)
              | some suite =>
                  Ciphersuite.prepare config bundle v suite locals.ownerCsNum ref locals list
            else (true, v)
        | _ => (false, v)

def ASBlockProcessor.prepare (v : XmitBlocks config.growth) (owner : Owner)
    (source : Option (Source × SourceBlock)) (list : ListOwner) :
    Exec (Bool × XmitBlocks config.growth) :=
  match source with
  | none => if list = .received then .error (.fault .assertion) else pure (false, v)
  | some (ref, block) =>
      if list = .received then
        if destinationIsLocalNode config bundle block = true then pure (true, v)
        else
          match block.locals with
          | none => pure (false, v.pushBack owner (some ref) [] none)
          | some (.metadata _ _) => .error (.fault .nullPointer)
          | some (.security locals) =>
              let made := createBspBlockFromSource config bundle list locals.ownerCsNum
                block.eidList locals
              pure (true, v.pushBack owner (some ref) made.1 (some (.security made.2)))
      else
        match block.locals with
        | some (.security locals) =>
            match findSuite locals.ownerCsNum with
            | none => pure (false, v)
            | some suite =>
                pure (Ciphersuite.prepare config bundle v suite locals.ownerCsNum ref locals list)
        | _ => pure (false, v)

/-- `owner()->prepare(..)`; the result says whether it is `BP_SUCCESS`. -/
def prepare (v : XmitBlocks config.growth) (owner : Owner) (source : Option (Source × SourceBlock))
    (list : ListOwner) : Exec (Bool × XmitBlocks config.growth) :=
  let ref := source.map Prod.fst
  match owner with
  | .base .primary => PrimaryBlockProcessor.prepare config v ref
  | .base .payload => BlockProcessor.prepare config v owner ref list
  | .base .previousHop =>
      if bundle.prevhopHdr = false then pure (false, v)
      else BlockProcessor.prepare config v owner ref list
  | .base .metadata => MetadataBlockProcessor.prepare config v source list
  | .base .session => SessionBlockProcessor.prepare config bundle v ref list
  | .base .sequenceID =>
      SequenceIDBlockProcessor.prepare config v .sequenceID bundle.hasSequenceId ref list
  | .base .obsoletesID =>
      SequenceIDBlockProcessor.prepare config v .obsoletesID bundle.hasObsoletesId ref list
  | .base .age => AgeBlockProcessor.prepare config bundle v ref list
  | .base .unknown => UnknownBlockProcessor.prepare config v source list
  | .base .api => BlockProcessor.prepare config v owner ref list
  | .query => BPQBlockProcessor.prepare config v ref list
  | .authentication => pure (BABlockProcessor.prepare config bundle v source list)
  | .integrity | .confidentiality | .extensionSecurity =>
      ASBlockProcessor.prepare config bundle v owner source list

/-- The received blocks from the one at `index` on. Once a reactive fragment has its payload, the blocks
behind it are left out. -/
def prepareReceived : List SourceBlock → Nat → XmitBlocks config.growth →
    Exec (Option (XmitBlocks config.growth))
  | [], _, v => pure (some v)
  | block :: rest, index, v =>
      if bundle.fragmentedIncoming = true ∧ v.hasBlock Owner.payload.blockType = true then
        prepareReceived rest (index + 1) v
      else do
        let (success, v) ← prepare config bundle v block.owner (some (.received index, block)) .received
        if success = true then prepareReceived rest (index + 1) v else pure none

/-- The blocks of the API from the one at `index` on. -/
def prepareApi : List SourceBlock → Nat → XmitBlocks config.growth →
    Exec (Option (XmitBlocks config.growth))
  | [], _, v => pure (some v)
  | block :: rest, index, v => do
      let (success, v) ← prepare config bundle v block.owner (some (.api index, block)) .api
      if success = true then prepareApi rest (index + 1) v else pure none

/-- The processors that have no block in the list yet. Most of them fail, which does not matter. -/
def prepareMissing (types : List Nat) (v : XmitBlocks config.growth) :
    Exec (XmitBlocks config.growth) :=
  types.foldlM (fun v type =>
    let owner := findProcessor config type
    if owner = .base .unknown ∨ v.hasBlock type = true then pure v
    else do
      let (_, v) ← prepare config bundle v owner none .none
      pure v) v

/-- `prepare_generated_metadata`: the metadata for this link, then the metadata for all links, unless
the link has its own version of it. -/
def prepareGeneratedMetadata (v : XmitBlocks config.growth) : XmitBlocks config.growth :=
  let link := (bundle.linkMetadata.getD []).filter fun m => decide (0 < m.metadataLen)
  let all := (bundle.nullMetadata.getD []).filter fun m =>
    !(bundle.linkMetadata.getD []).any fun l => decide (l.sourceId = some m.id)
  (link ++ all).foldl (fun v m =>
    v.pushBack (.base .metadata) none [] (some (.metadata m.id))) v

/-- `SecurityConfig::prepare_out_blocks` for the rules from the one at `index` on. -/
def prepareRules : List (Nat × Bytes) → Nat → XmitBlocks config.growth →
    Option (XmitBlocks config.growth)
  | [], _, v => some v
  | (csNum, dest) :: rest, index, v =>
      match findSuite csNum with
      | none => none
      | some suite =>
          let (success, v) := Ciphersuite.prepare config bundle v suite csNum (.rule index)
            { SecurityLocals.new with securityDest := dest } .none
          if success = true then prepareRules rest (index + 1) v else none

/-- The primary and the payload block of a bundle that was not received. -/
def prepareLocal (v : XmitBlocks config.growth) : Exec (Option (XmitBlocks config.growth)) := do
  let (success, v) ← prepare config bundle v .primary none .none
  if success = true then do
    let (success, v) ← prepare config bundle v .payload none .none
    if success = true then pure (some v) else pure none
  else pure none

/-- The part of `prepare_blocks` behind the received blocks. -/
def prepareRest (v : XmitBlocks config.growth) : Exec (Option (XmitBlocks config.growth)) := do
  match ← prepareApi config bundle bundle.apiBlocks 0 v with
  | none => pure none
  | some v => do
      let v ← prepareMissing config bundle (List.range 256) v
      let v := prepareGeneratedMetadata config bundle v
      if config.bspEnabled = true then
        match bundle.outgoingRules with
        | none => pure none
        | some rules => pure (prepareRules config bundle rules 0 v)
      else pure (some v)

def prepareBlocks : Exec (Option (XmitBlocks config.growth)) := do
  match bundle.recvBlocks with
  | [] => do
      match ← prepareLocal config bundle (.empty _) with
      | none => pure none
      | some v => prepareRest config bundle v
  | front :: rest => do
      assertThat (front.type = Processor.primary.blockType)
      match ← prepareReceived config bundle (front :: rest) 0 (.empty _) with
      | none => pure none
      | some v => prepareRest config bundle v

end Prepare

end PrepareBlocks

end Dtn2
