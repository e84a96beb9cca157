import Dtn2.Bundling.BlockProcessor
import Dtn2.Security.Policy

/-!
# Parsing a received security block

`Ciphersuite::parse` walks over the data of a block with a pointer and a length that it never compares
with anything. A number that cannot be decoded takes the pointer one byte back; the ciphersuite number
indexes a table; and the items of a field are copied before their length is looked at. A read outside
the memory of the block, or outside its data where items are copied, is a fault.
-/

namespace Dtn2

namespace Security

open PrepareBlocks (csBlockHasSource csBlockHasDest csBlockHasCorrelator)

/-- `CS_MAX`, the size of `ciphersuites_`. -/
def csMax : Nat := 1024

def csBlockHasParams : Nat := 0x04

/-- `buf` and `len` of `parse`: a position in the contents and what is taken to be left. -/
structure Pointer where
  pos : Int
  len : Nat
deriving DecidableEq, Repr

/-- `buf += n; len -= n`. -/
def Pointer.advance (p : Pointer) (n : Nat) : Pointer := ⟨p.pos + n, sizeSub p.len n⟩

def Pointer.back (p : Pointer) : Pointer := ⟨p.pos - 1, (p.len + 1) % 2 ^ 64⟩

def bytesAt (memory : Bytes) (pos : Int) : Bytes :=
  if 0 ≤ pos then memory.drop pos.toNat else []

/-- A number that is decoded with this length ends inside the bytes. -/
def SdnvInside (bytes : Bytes) (len : Nat) : Prop := len ≤ bytes.length ∨ ∃ b ∈ bytes, b &&& 0x80 = 0

instance (bytes : Bytes) (len : Nat) : Decidable (SdnvInside bytes len) :=
  inferInstanceAs (Decidable (_ ∨ _))

def Pointer.Inside (memory : Bytes) (p : Pointer) : Prop := SdnvInside (bytesAt memory p.pos) p.len

instance (memory : Bytes) (p : Pointer) : Decidable (p.Inside memory) :=
  inferInstanceAs (Decidable (SdnvInside _ _))

def Pointer.decoded (memory : Bytes) (p : Pointer) : UInt64 × Pointer :=
  match SDNV.decode ((bytesAt memory p.pos).take p.len) with
  | (some n, value) => (value, p.advance n)
  | (none, value) => (value, p.back)

/-- `sdnv_len = SDNV::decode(buf, len, ..); buf += sdnv_len; len -= sdnv_len`. -/
def Pointer.number (memory : Bytes) (p : Pointer) : Exec (UInt64 × Pointer) :=
  if p.Inside memory then .ok (p.decoded memory) else .error (.fault .outOfBounds)

/-! ## Fields of items -/

/-- `target[type]` is set; the map is ordered by type. -/
def setItem (itemType : UInt8) (value : Bytes) : List (UInt8 × Bytes) → List (UInt8 × Bytes)
  | [] => [(itemType, value)]
  | e :: rest =>
      if e.1 = itemType then (itemType, value) :: rest
      else if itemType.toNat < e.1.toNat then (itemType, value) :: e :: rest
      else e :: setItem itemType value rest

/-- The loop of `parse_params_or_result` over the bytes of the block's data from `buf` on. The return
value is not looked at. -/
def parseItems (buf : Bytes) (len : Nat) (target : List (UInt8 × Bytes)) :
    Exec (List (UInt8 × Bytes)) :=
  match len, buf with
  | 0, _ => .ok target
  | _ + 1, [] => .error (.fault .outOfBounds)
  | len + 1, itemType :: buf =>
      if len < 1 then .ok target
      else if SdnvInside buf len then
        match SDNV.decode (buf.take len) with
        | (none, _) => .ok target
        | (some n, fieldLength) =>
            -- the copy comes before the comparison with what is left
            if n + fieldLength.toNat ≤ buf.length then
              let target := setItem itemType ((buf.drop n).take fieldLength.toNat) target
              if len < n + fieldLength.toNat then .ok target
              else parseItems (buf.drop (n + fieldLength.toNat)) (len - (n + fieldLength.toNat)) target
            else .error (.fault .outOfBounds)
      else .error (.fault .outOfBounds)
termination_by buf.length
decreasing_by
  rw [List.length_drop, List.length_cons]
  omega

def dataAt (block : BlockInfo) (pos : Int) : Option Bytes :=
  if (block.dataOffset.toNat : Int) ≤ pos then
    some (block.data.drop (pos - block.dataOffset.toNat).toNat)
  else none

def parseParamsOrResult (block : BlockInfo) (pos : Int) (len : Nat) : Exec (List (UInt8 × Bytes)) :=
  match dataAt block pos with
  | some buf => parseItems buf len []
  | none => if len = 0 then .ok [] else .error (.fault .outOfBounds)

/-- A field: its length, its items, and the pointer behind what the length says. -/
def parseField (block : BlockInfo) (p : Pointer) : Exec (List (UInt8 × Bytes) × Pointer) := do
  let field ← p.number block.contents.memory
  let items ← parseParamsOrResult block field.2.pos field.1.toNat
  pure (items, field.2.advance field.1.toNat)

/-! ## The block -/

/-- `BP_Local_CS`, as far as `parse` sets it. -/
structure ParsedLocals where
  ownerCsNum : UInt16
  csFlags : UInt16
  correlator : UInt64
  securityParams : List (UInt8 × Bytes)
  securitySrc : Bytes
  securityDest : Bytes
  securityResult : List (UInt8 × Bytes)
deriving DecidableEq, Repr

def hasFlag (flags : UInt64) (flag : Nat) : Bool := decide (flags.toNat &&& flag ≠ 0)

/-- `ciphersuites_[suite_num]`. All ciphersuites make the same locals, so the entry does not matter. -/
def indexSuites (suiteNum : UInt64) : Exec Unit :=
  if suiteNum.toNat < csMax then .ok () else .error (.fault .outOfBounds)

/-- The security source and destination from the endpoint ids; a block without any is let pass. -/
def parseEids (flags : UInt64) (eids : List EndpointID) : Exec (Bytes × Bytes) :=
  match eids with
  | [] => pure ([], [])
  | first :: rest =>
      let src := if hasFlag flags csBlockHasSource then first.uri else []
      let iter := if hasFlag flags csBlockHasSource then rest else first :: rest
      if hasFlag flags csBlockHasDest then
        match iter with
        | eid :: _ => pure (src, eid.uri)
        | [] => .error (.fault .outOfBounds)
      else pure (src, [])

def parseCorrelator (memory : Bytes) (present : Bool) (p : Pointer) : Exec (UInt64 × Pointer) :=
  if present then p.number memory else pure (0, p)

/-- A field if the flags announce it. -/
def parseOptional (block : BlockInfo) (present : Bool) (p : Pointer) :
    Exec (List (UInt8 × Bytes) × Pointer) :=
  if present then parseField block p else pure ([], p)

/-- `Ciphersuite::parse` on a block without locals. -/
def Ciphersuite.parse (block : BlockInfo) : Exec ParsedLocals := do
  let memory := block.contents.memory
  let suite ← Pointer.number memory ⟨block.dataOffset.toNat, block.dataLength.toNat⟩
  let flags ← suite.2.number memory
  indexSuites suite.1
  assertThat (suite.1.toNat < 65535)
  assertThat (flags.1.toNat < 65535)
  let correlator ← parseCorrelator memory (hasFlag flags.1 csBlockHasCorrelator) flags.2
  let params ← parseOptional block (hasFlag flags.1 csBlockHasParams) correlator.2
  let eids ← parseEids flags.1 block.eidList
  let result ← parseOptional block (hasFlag flags.1 csBlockHasResult) params.2
  pure ⟨suite.1.toUInt16, flags.1.toUInt16, correlator.1, params.1, eids.1, eids.2, result.1⟩

/-- `AS_BlockProcessor::consume`: the block, its locals once it is complete, and the bytes used. -/
def ASBlockProcessor.consume (os : Oasys) (dict : Dictionary) (block : BlockInfo) (buf : Bytes) :
    Exec (BlockInfo × Option ParsedLocals × Nat) := do
  let (block, cc) ← BlockProcessor.consume os dict block buf
  if block.complete = false then do
    assertThat (cc = buf.length)
    pure (block, none, cc)
  else do
    let locals ← Ciphersuite.parse block
    pure (block, some locals, cc)

end Security

/-! ## Writing a security block

`BP_Local_CS::serialize` writes the preamble and the fields of a security block from its locals. A result
that is not known yet leaves a hole behind the fields, in which the memory stays as it was. -/

namespace Security

open PrepareBlocks (ListOwner csBlockHasSource csBlockHasDest csBlockHasCorrelator)

/-- `BP_Local_CS`. -/
structure Locals extends ParsedLocals where
  listOwner : ListOwner
  securityResultHole : Nat
deriving DecidableEq, Repr

def Locals.new : Locals := ⟨⟨0, 0, 0, [], [], [], []⟩, .none, 0⟩

def lengthOfResultOrParams (items : List (UInt8 × Bytes)) : Nat :=
  (items.map fun e => 1 + SDNV.encodingLen (UInt64.ofNat e.2.length) + e.2.length).sum

def writeResultOrParams (items : List (UInt8 × Bytes)) : Bytes :=
  items.flatMap fun e => e.1 :: SDNV.encoded (UInt64.ofNat e.2.length) ++ e.2

/-- `find` in `security_params_` or `security_result_`. -/
def findItem (itemType : UInt8) (items : List (UInt8 × Bytes)) : Option Bytes :=
  (items.find? fun e => e.1 = itemType).map Prod.snd

namespace Locals

/-- `cs_flags() & flag`. -/
def has (l : Locals) (flag : Nat) : Bool := hasFlag l.csFlags.toUInt64 flag

/-- `set_cs_flags(cs_flags() | flag)`. -/
def setFlag (l : Locals) (flag : Nat) : Locals :=
  { l with csFlags := l.csFlags ||| UInt16.ofNat flag }

def addSecurityParam (l : Locals) (itemType : UInt8) (value : Bytes) : Locals :=
  { l.setFlag csBlockHasParams with securityParams := setItem itemType value l.securityParams }

def addSecurityResult (l : Locals) (itemType : UInt8) (value : Bytes) : Locals :=
  { l.setFlag csBlockHasResult with securityResult := setItem itemType value l.securityResult }

/-- The length of the result, with the part that is missing. -/
def resultLen (l : Locals) : Nat := lengthOfResultOrParams l.securityResult + l.securityResultHole

/-- What `serialize` writes behind the preamble. -/
def fields (l : Locals) : Bytes :=
  SDNV.encoded l.ownerCsNum.toUInt64 ++ SDNV.encoded l.csFlags.toUInt64 ++
    (if l.has csBlockHasCorrelator then SDNV.encoded l.correlator else []) ++
    (if l.has csBlockHasParams then
      SDNV.encoded (UInt64.ofNat (lengthOfResultOrParams l.securityParams)) ++
        writeResultOrParams l.securityParams else []) ++
    (if l.has csBlockHasResult then
      SDNV.encoded (UInt64.ofNat l.resultLen) ++ writeResultOrParams l.securityResult else [])

def length (l : Locals) : Nat :=
  l.fields.length + (if l.has csBlockHasResult then l.securityResultHole else 0)

/-- `serialize` into a block of a type: the block and the dictionary. What the contents held before is
given up. -/
def serialize (os : Oasys) (l : Locals) (dict : Dictionary) (block : BlockInfo) (type : UInt8)
    (last : Bool) : Exec (BlockInfo × Dictionary) := do
  let block := { block with contents := block.contents.shrink 0 }
  let made ← BlockProcessor.generatePreamble dict block type
    (if last then blockFlagLastBlock else 0) (UInt64.ofNat l.length)
  let contents := made.1.contents.reserve os (made.1.dataOffset.toNat + l.length)
  let contents ← contents.write (made.1.contents.filled ++ l.fields)
    (made.1.dataOffset.toNat + l.length)
  pure ({ made.1 with contents := contents }, made.2)

end Locals

end Security

end Dtn2
