import Dtn2.Bundling.PrepareBlocks

/-!
# Security blocks and the incoming policy

A received security block is checked twice. `validate` of its processor leaves it to its ciphersuite,
which computes a digest and compares it, or lets the block pass. `verify_in_policy` then looks for a block
with a ciphersuite number, a security source and a security destination that satisfy the rule. Message
digests, signatures and decryption are parameters.
-/

namespace Dtn2

namespace Security

open PrepareBlocks (Owner Suite findSuite csBlockHasSource csBlockHasDest)

/-- `BP_Local_CS` of a received block, as `Ciphersuite::parse` leaves it. -/
structure LocalsCS where
  ownerCsNum : Nat
  csFlags : Nat
  correlator : Nat
  securitySrc : Bytes
  securityDest : Bytes
  securityResult : List (Nat × Bytes)
deriving DecidableEq, Repr

/-- `BSPProtectionInfo`: an extension security block that a block came out of. -/
structure ProtectionInfo where
  csnum : Nat
  secsrc : Bytes
  secdest : Bytes
deriving DecidableEq, Repr

/-- A received block; `locals` are none unless they are a `BP_Local_CS`. -/
structure Block where
  owner : Owner
  locals : Option LocalsCS
  bsp : List ProtectionInfo
deriving DecidableEq, Repr

/-- The endpoint ids of the bundle that the checks read. -/
structure Header where
  source : Bytes
  dest : Bytes
  prevhop : Bytes
deriving DecidableEq, Repr

/-- The node, its keys and the cryptographic functions. `mac` is the digest of `Ciphersuite_BA` over the
received blocks for the block at an index, `digest` that of `Ciphersuite_PI`, `recover` what
`EVP_PK::verify` gets out of a signature with the public key of a host, and `decapsulate` what the
ciphersuites PC and ES make of the blocks. `otherValid` is `validate` of all other processors. -/
structure Env where
  localEid : Bytes
  basePortion : Bytes → Bytes
  host : Bytes → Bytes
  findKey : Bytes → Nat → Option Bytes
  resultLen : Nat → Nat
  mac : Nat → Bytes → Header → List Block → Nat → Option Bytes
  digest : Nat → Header → List Block → Nat → Option Bytes
  recover : Bytes → Nat → Bytes → Option Bytes
  decapsulate : Suite → Header → List Block → Nat → Option (List Block)
  otherValid : Header → List Block → Nat → Bool

def csBlockHasResult : Nat := 0x01

def csSignatureField : Nat := 5

/-- Whether `SecurityConfig::get_block_type` of a number is that of the authentication blocks. -/
def isBA (csnum : Nat) : Bool := decide (csnum = 1 ∨ csnum = 5 ∨ csnum = 9)

def isPI (csnum : Nat) : Bool := decide (csnum = 2 ∨ csnum = 6 ∨ csnum = 10)

def isES (csnum : Nat) : Bool := decide (csnum = 4 ∨ csnum = 8 ∨ csnum = 12)

namespace LocalsCS

def hasFlag (l : LocalsCS) (flag : Nat) : Bool := decide (l.csFlags &&& flag ≠ 0)

def getSecurityResult (l : LocalsCS) (type : Nat) : Option Bytes :=
  (l.securityResult.find? fun r => decide (r.1 = type)).map Prod.snd

def securitySrcEid (l : LocalsCS) (b : Header) : Bytes :=
  if l.hasFlag csBlockHasSource then l.securitySrc
  else if isBA l.ownerCsNum then b.prevhop
  else b.source

def securityDestEid (env : Env) (l : LocalsCS) (b : Header) : Bytes :=
  if l.hasFlag csBlockHasDest then l.securityDest
  else if isBA l.ownerCsNum then env.localEid
  else b.dest

end LocalsCS

def destinationIsLocalNode (env : Env) (b : Header) (block : Block) : Bool :=
  match block.locals with
  | none => false
  | some l =>
      if l.hasFlag csBlockHasDest then decide (env.localEid = l.securityDest)
      else decide (env.localEid = env.basePortion b.dest)

/-- How `validate` of a block ends: it fails, it returns true without a comparison, or it returns true
after a digest was compared and found equal. -/
inductive Verdict where
  | rejected
  | unchecked
  | verified (digest : Bytes)
deriving DecidableEq, Repr

section Validate

variable (env : Env) (b : Header)

/-- The loop of `Ciphersuite_BA::validate` over the blocks, for the one that carries the result. -/
def checkResult (csNum correlator : Nat) (result : Bytes) : List Block → Verdict
  | [] => .rejected
  | target :: rest =>
      if target.owner.blockType ≠ Owner.authentication.blockType then
        checkResult csNum correlator result rest
      else
        match target.locals with
        | none => .rejected
        | some l =>
            if l.ownerCsNum ≠ csNum ∨ l.correlator ≠ correlator then
              checkResult csNum correlator result rest
            else if l.hasFlag csBlockHasResult = false then
              checkResult csNum correlator result rest
            else
              match l.getSecurityResult csSignatureField with
              | none => .rejected
              | some carried =>
                  if carried.length ≠ env.resultLen csNum then .rejected
                  else if carried ≠ result.take (env.resultLen csNum) then .rejected
                  else .verified carried

def CiphersuiteBA.validate (blocks : List Block) (index : Nat) (l : LocalsCS) : Exec Verdict :=
  if l.hasFlag csBlockHasResult = true then pure .unchecked
  else
    match env.findKey (env.host (l.securitySrcEid b)) l.ownerCsNum with
    | none => pure .rejected
    | some key => do
        assertThat (key.length = env.resultLen l.ownerCsNum)
        match env.mac l.ownerCsNum key b blocks index with
        | none => pure .rejected
        | some result => pure (checkResult env l.ownerCsNum l.correlator result blocks)

/-- `Ciphersuite_PI::validate`. A missing signature is only logged. -/
def CiphersuitePI.validate (blocks : List Block) (index : Nat) (block : Block) (l : LocalsCS) :
    Verdict :=
  if destinationIsLocalNode env b block = false then .unchecked
  else if l.hasFlag csBlockHasResult = false then .rejected
  else
    let sig := (l.getSecurityResult csSignatureField).getD []
    match env.digest l.ownerCsNum b blocks index with
    | none => .rejected
    | some db =>
        match env.recover (env.host (l.securitySrcEid b)) l.ownerCsNum sig with
        | none => .rejected
        | some carried =>
            if db.length ≠ carried.length then .rejected
            else if carried ≠ db then .rejected
            else .verified db

/-- `validate` of a ciphersuite, with the blocks that it leaves. -/
def Ciphersuite.validate (blocks : List Block) (index : Nat) (block : Block) (l : LocalsCS)
    (suite : Suite) : Exec (Verdict × List Block) :=
  match suite with
  | .ba => do
      let verdict ← CiphersuiteBA.validate env b blocks index l
      pure (verdict, blocks)
  | .pi => pure (CiphersuitePI.validate env b blocks index block l, blocks)
  | .pc | .es =>
      if destinationIsLocalNode env b block = true then
        match env.decapsulate suite b blocks index with
        | none => pure (.rejected, blocks)
        | some blocks => pure (.unchecked, blocks)
      else pure (.unchecked, blocks)

/-- `BA_BlockProcessor::validate` and `AS_BlockProcessor::validate`, which differ in that the latter
lets blocks for other nodes pass. -/
def validateSecurity (blocks : List Block) (index : Nat) (block : Block) :
    Exec (Verdict × List Block) :=
  match block.locals with
  | none => pure (.rejected, blocks)
  | some l =>
      if block.owner = .authentication ∨ destinationIsLocalNode env b block = true then
        match findSuite l.ownerCsNum with
        | none => pure (.rejected, blocks)
        | some suite => Ciphersuite.validate env b blocks index block l suite
      else pure (.unchecked, blocks)

/-- `owner()->validate(..)`. -/
def validateBlock (blocks : List Block) (index : Nat) (block : Block) :
    Exec (Verdict × List Block) :=
  match block.owner with
  | .authentication | .integrity | .confidentiality | .extensionSecurity =>
      validateSecurity env b blocks index block
  | _ => pure (if env.otherValid b blocks index = true then .unchecked else .rejected, blocks)

/-- What happened to a block: the blocks of the bundle at that time, its position and the verdict. -/
structure Entry where
  blocks : List Block
  index : Nat
  block : Block
  verdict : Verdict
deriving DecidableEq, Repr

/-- The blocks from the one at `index` on are validated. The result is none if one is rejected. -/
def validateFrom : Nat → Nat → List Block → Exec (Option (List Block × List Entry))
  | 0, _, blocks => pure (some (blocks, []))
  | count + 1, index, blocks =>
      match blocks[index]? with
      | none => pure (some (blocks, []))
      | some block => do
          let (verdict, after) ← validateBlock env b blocks index block
          if verdict = .rejected then pure none
          else
            match ← validateFrom count (index + 1) after with
            | none => pure none
            | some (last, entries) => pure (some (last, ⟨blocks, index, block, verdict⟩ :: entries))

/-- Every block passes `validate` of its processor. -/
def validateAll (blocks : List Block) : Exec (Option (List Block × List Entry)) :=
  validateFrom env b blocks.length 0 blocks

end Validate

/-! ## The policy -/

/-- `IncomingRule`; a pattern is what it matches, and the two security patterns may be null. -/
structure IncomingRule where
  src : Bytes → Bool
  dest : Bytes → Bool
  secsrc : Option (Bytes → Bool)
  secdest : Option (Bytes → Bool)
  csnums : List Nat

section Policy

variable (env : Env) (b : Header)

/-- `BP_Local_CS::security_src_matches` for an endpoint id. -/
def securitySrcMatches (secSrc : Bytes) (src : Option (Bytes → Bool)) (csnum : Nat) : Bool :=
  match src with
  | some pattern => pattern secSrc
  | none =>
      if isBA csnum then decide (secSrc = env.basePortion b.prevhop)
      else decide (secSrc = env.basePortion b.source)

/-- `BP_Local_CS::security_dest_matches` for an endpoint id. -/
def securityDestMatches (secDest : Bytes) (dest : Option (Bytes → Bool)) (csnum : Nat) : Bool :=
  match dest with
  | some pattern => pattern secDest
  | none =>
      if isBA csnum then decide (secDest = env.basePortion env.localEid)
      else decide (secDest = env.basePortion b.dest)

def checkSrcDestMatch (l : LocalsCS) (src dest : Option (Bytes → Bool)) : Bool :=
  securityDestMatches env b (env.basePortion (l.securityDestEid env b)) dest l.ownerCsNum &&
    securitySrcMatches env b (env.basePortion (l.securitySrcEid b)) src l.ownerCsNum

def checkEsbMetadata (block : Block) (src dest : Option (Bytes → Bool)) (csnum : Nat) : Bool :=
  block.bsp.any fun info =>
    securitySrcMatches env b info.secsrc src info.csnum &&
      securityDestMatches env b info.secdest dest info.csnum && decide (csnum = info.csnum)

def esbable (type : Nat) : Bool := decide (type ∉ [0x00, 0x01, 0x02, 0x04, 0x03, 0x05])

/-- `check_validation`; the number is a 16 bit parameter. Extension security blocks can be encapsulated
themselves, and the second branch is never taken. -/
def checkValidation (blocks : List Block) (num : Nat) (src dest : Option (Bytes → Bool)) : Bool :=
  let num := num % 2 ^ 16
  if isES num then
    blocks.all fun block =>
      if esbable block.owner.blockType then checkEsbMetadata env b block src dest num
      else if block.owner = .extensionSecurity then
        checkEsbMetadata env b block src dest num ||
          (match block.locals with
            | some l => checkSrcDestMatch env b l src dest
            | none => false)
      else true
  else
    blocks.any fun block =>
      match block.locals with
      | some l => decide (l.ownerCsNum = num) && checkSrcDestMatch env b l src dest
      | none => false

def verifyOneCiphersuite (blocks : List Block) (rule : IncomingRule) : Bool :=
  rule.csnums.contains 0 ||
    rule.csnums.any fun num => checkValidation env b blocks num rule.secsrc rule.secdest

/-- Whether a rule matches the source and the destination of the bundle. -/
def IncomingRule.applies (rule : IncomingRule) : Bool :=
  rule.src (env.basePortion b.source) && rule.dest (env.basePortion b.dest)

def verifyInPolicy (blocks : List Block) (rules : List IncomingRule) : Bool :=
  rules.all fun rule => !rule.applies env b || verifyOneCiphersuite env b blocks rule

end Policy

end Security

end Dtn2
