import Dtn2.Security.Encapsulate

/-!
# The state of a security block

A ciphersuite adds parameters and results to the locals of its block and serializes them. The reset
of the results asks the map whether it is empty and takes nothing out of it; the parameter for
fragments starts with two bytes that were never written, and it is looked for among the results; and
the form of `write_result_or_params` for a buffer starts over at each item.
-/

namespace Dtn2

namespace Security

open PrepareBlocks (csBlockHasSource csBlockHasDest csBlockHasCorrelator)

def csFragmentOffsetAndLengthField : UInt8 := 4

def writeItem (itemType : UInt8) (value : Bytes) : Bytes :=
  itemType :: SDNV.encoded (UInt64.ofNat value.length) ++ value

def itemLen (length : Nat) : Nat := 1 + SDNV.encodingLen (UInt64.ofNat length) + length

/-- `write_result_or_params` into a buffer. The buffer gets the length of the item, and its start
the item. -/
def writeIntoBuffer (os : Oasys) : List (UInt8 × Bytes) → ScratchBuffer → Exec ScratchBuffer
  | [], buffer => pure buffer
  | e :: items, buffer => do
      let len := itemLen e.2.length
      let buffer ← (buffer.reserve os len).write (writeItem e.1 e.2) len
      writeIntoBuffer os items buffer

/-- `get_fragment_offset`: the offset and the length, if it returns true. -/
def ParsedLocals.getFragmentOffset (l : ParsedLocals) : Exec (Option (UInt64 × UInt64)) :=
  match findItem csFragmentOffsetAndLengthField l.securityResult with
  | none => pure none
  | some buf => do
      let fragOffset ← Pointer.number buf ⟨0, buf.length⟩
      let origLength ← fragOffset.2.number buf
      pure (some (fragOffset.1, origLength.1))

namespace Locals

def addEncapsulatedBlock (l : Locals) (block tag : Bytes) : Locals :=
  { l with securityResult := setItem csEncapBlockField (block ++ tag) l.securityResult }.setFlag
    csBlockHasResult

def addSecurityResultSpace (l : Locals) (length : Nat) : Locals :=
  { l with securityResultHole := l.securityResultHole + itemLen length }.setFlag csBlockHasResult

def resetSecurityResult (l : Locals) : Locals :=
  { l with
    securityResultHole := 0
    csFlags := l.csFlags &&& UInt16.ofNat (0xffffffff - csBlockHasResult) }

/-- `add_fragment_param`. The first two bytes of `fragment_item` are whatever the stack holds. -/
def addFragmentParam (l : Locals) (stack : UInt8 × UInt8) (bundle : Bundle) : Locals :=
  let numbers := SDNV.encoded bundle.fragOffset.toUInt64 ++
    SDNV.encoded (UInt64.ofNat bundle.payload.length)
  l.addSecurityParam csFragmentOffsetAndLengthField
    ((stack.1 :: stack.2 :: numbers).take numbers.length)

/-- `add_missing_security_result`: the last bytes of the contents are the item. -/
def addMissingSecurityResult (l : Locals) (block : BlockInfo) (itemType : UInt8) (value : Bytes) :
    Exec (Locals × BlockInfo) := do
  let lenToAdd := itemLen value.length
  let l := l.addSecurityResult itemType value
  let l := { l with securityResultHole := sizeSub l.securityResultHole lenToAdd }
  if lenToAdd ≤ block.contents.len then
    let kept := block.contents.filled.take (block.contents.len - lenToAdd)
    pure (l, { block with
      contents := { block.contents with filled := kept ++ writeItem itemType value } })
  else .error (.fault .outOfBounds)

end Locals

/-! ## Runs -/

namespace BlockState

/-- What a ciphersuite does with its locals before they are serialized. -/
inductive Op where
  | addSecurityParam (itemType : UInt8) (value : Bytes)
  | addSecurityResult (itemType : UInt8) (value : Bytes)
  | addEncapsulatedBlock (block tag : Bytes)
  | addSecurityResultSpace (length : Nat)
  | resetSecurityResult
  | addFragmentParam (stack : UInt8 × UInt8) (bundle : Bundle)
  | setCorrelator (correlator : UInt64)
  | setCsFlags (flags : UInt16)
  | setOwnerCsNum (csNum : UInt16)

def Op.apply (l : Locals) : Op → Locals
  | .addSecurityParam itemType value => l.addSecurityParam itemType value
  | .addSecurityResult itemType value => l.addSecurityResult itemType value
  | .addEncapsulatedBlock block tag => l.addEncapsulatedBlock block tag
  | .addSecurityResultSpace length => l.addSecurityResultSpace length
  | .resetSecurityResult => l.resetSecurityResult
  | .addFragmentParam stack bundle => l.addFragmentParam stack bundle
  | .setCorrelator correlator => { l with correlator := correlator }
  | .setCsFlags flags => { l with csFlags := flags }
  | .setOwnerCsNum csNum => { l with ownerCsNum := csNum }

def run (ops : List Op) : Locals := ops.foldl Op.apply .new

/-- What has been added: the parameters, the results since the last reset, the lengths announced for
results since then, and the offset and length of a fragment. -/
structure Added where
  params : UInt8 → Option Bytes
  results : UInt8 → Option Bytes
  spaces : List Nat
  fragment : Option (UInt64 × UInt64)

def Added.none : Added := ⟨fun _ => .none, fun _ => .none, [], .none⟩

def Added.withResult (a : Added) (itemType : UInt8) (value : Bytes) : Added :=
  { a with results := Function.update a.results itemType (some value) }

def Added.apply (a : Added) : Op → Added
  | .addSecurityParam itemType value =>
      { a with params := Function.update a.params itemType (some value) }
  | .addSecurityResult itemType value => a.withResult itemType value
  | .addEncapsulatedBlock block tag => a.withResult csEncapBlockField (block ++ tag)
  | .addSecurityResultSpace length => { a with spaces := a.spaces ++ [length] }
  | .resetSecurityResult => { a with results := fun _ => .none, spaces := [] }
  | .addFragmentParam _ bundle =>
      let fragment := (bundle.fragOffset.toUInt64, UInt64.ofNat bundle.payload.length)
      { a with
        params := Function.update a.params csFragmentOffsetAndLengthField
          (some (SDNV.encoded fragment.1 ++ SDNV.encoded fragment.2))
        fragment := some fragment }
  | .setCorrelator _ | .setCsFlags _ | .setOwnerCsNum _ => a

def added (ops : List Op) : Added := ops.foldl Added.apply .none

structure Target where
  os : Oasys
  dict : Dictionary
  block : BlockInfo
  type : UInt8
  last : Bool

/-- `add_missing_security_result` for each of the announced results. -/
def addMissing : List (UInt8 × Bytes) → Locals × BlockInfo → Exec (Locals × BlockInfo)
  | [], state => pure state
  | e :: missing, state => do
      let state ← state.1.addMissingSecurityResult state.2 e.1 e.2
      addMissing missing state

/-- The locals are serialized and the missing results added. -/
def send (l : Locals) (target : Target) (missing : List (UInt8 × Bytes)) :
    Exec (Locals × BlockInfo) := do
  let made ← l.serialize target.os target.dict target.block target.type target.last
  addMissing missing (l, made.1)

/-- What is parsed from a block has what the locals are set to and all that has been added to them.
-/
structure Holds (parsed : ParsedLocals) (l : Locals) (a : Added) : Prop where
  suite : parsed.ownerCsNum = l.ownerCsNum
  flags : parsed.csFlags = l.csFlags
  correlator : parsed.correlator = l.correlator
  params : ∀ t, findItem t parsed.securityParams = a.params t
  results : ∀ t, findItem t parsed.securityResult = a.results t
  fragment : ∀ numbers, a.fragment = some numbers → parsed.getFragmentOffset = .ok (some numbers)

def Added.complete (a : Added) (missing : List (UInt8 × Bytes)) : Added :=
  missing.foldl (fun a e => a.withResult e.1 e.2) a

/-- The block made of the locals of a run is parsed and gives back what they hold. -/
def RoundTrips (ops : List Op) (target : Target) (missing : List (UInt8 × Bytes)) : Prop :=
  ∃ r ∈ (send (run ops) target missing).toOption, ∃ parsed ∈ (Ciphersuite.parse r.2).toOption,
    Holds parsed (run ops) ((added ops).complete missing)

/-- The two forms of `write_result_or_params` give the same bytes. -/
def WritersAgree (os : Oasys) (items : List (UInt8 × Bytes)) : Prop :=
  ∃ buffer ∈ (writeIntoBuffer os items (.fresh os 16)).toOption,
    buffer.filled = writeResultOrParams items

/-! ## The condition -/

/-- No result is reset, no parameter for a fragment is added, and space is announced just once. -/
def Op.Sound (l : Locals) (a : Added) : Op → Prop
  | .resetSecurityResult => l.securityResult = []
  | .addFragmentParam _ _ => False
  | .addSecurityResultSpace _ => a.spaces = []
  | _ => True

def Sound (l : Locals) (a : Added) : List Op → Prop
  | [] => True
  | op :: ops => op.Sound l a ∧ Sound (op.apply l) (a.apply op) ops

/-- The flags announce what the locals hold, the numbers are in range, and the preamble can be
written. -/
structure Ready (l : Locals) (target : Target) : Prop where
  suite : l.ownerCsNum.toNat < csMax
  flags : l.csFlags.toNat < 65535
  correlator : l.correlator = 0 ∨ l.has csBlockHasCorrelator = true
  params : l.securityParams = [] ∨ l.has csBlockHasParams = true
  results : (l.securityResult = [] ∧ l.securityResultHole = 0) ∨ l.has csBlockHasResult = true
  eids : target.block.eidList.length = 1 →
    ¬(l.has csBlockHasSource = true ∧ l.has csBlockHasDest = true)
  small : l.length < 2 ^ 32
  preamble : ∃ made, BlockProcessor.generatePreamble target.dict
    { target.block with contents := target.block.contents.shrink 0 } target.type
    (if target.last then blockFlagLastBlock else 0) (UInt64.ofNat l.length) = .ok made

end BlockState

end Security

end Dtn2
