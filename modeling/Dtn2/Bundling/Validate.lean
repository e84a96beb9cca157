import Dtn2.Bundling.Bundle

/-!
# Validating a received bundle

`BundleProtocol::validate` looks at every received block, through the processor that owns it, and
at the position of the primary block and of the last-block flag. A last block that was cut inside
its preamble is forgotten.
-/

namespace Dtn2

/-- The reasons for status reports that validation sets. -/
inductive ReportReason where
  | noAddtlInfo
  | blockUnintelligible
deriving DecidableEq, Repr

/-- The reasons that are passed along with a bundle. -/
structure Reasons where
  reception : ReportReason
  deletion : ReportReason
deriving DecidableEq, Repr

namespace Reasons

def initial : Reasons := ⟨.noAddtlInfo, .noAddtlInfo⟩

def delete (reasons : Reasons) : Reasons := { reasons with deletion := .blockUnintelligible }

def report (reasons : Reasons) : Reasons := { reasons with reception := .blockUnintelligible }

end Reasons

def Bundle.receiptRequested (b : Bundle) : Bool :=
  b.receiveRcpt || b.custodyRcpt || b.forwardRcpt || b.deliveryRcpt || b.deletionRcpt

def PrimaryBlockProcessor.validate (bundle : Bundle) (reasons : Reasons) : Bool × Reasons :=
  if (bundle.source.valid && bundle.dest.valid && bundle.custodian.valid &&
      bundle.replyto.valid) = false then (false, reasons.delete)
  else if bundle.source.uri = EndpointID.dtnNone ∧
      (bundle.receiptRequested = true ∨ bundle.appAckedRcpt = true ∨
        bundle.custodyRequested = true ∨ bundle.doNotFragment = false) then
    (false, reasons.delete)
  else if bundle.isAdmin = true ∧ (bundle.custodyRequested = true ∨
      bundle.receiptRequested = true ∨ bundle.appAckedRcpt = true) then (false, reasons.delete)
  else (true, reasons)

def BlockProcessor.validate (bundle : Bundle) (block : BlockInfo) (reasons : Reasons) :
    Exec (Bool × Reasons) :=
  if bundle.isAdmin = true then do
    let type ← block.type
    if type = Processor.primary.blockType then pure (true, reasons)
    else do
      let flags ← block.flags
      if flags &&& blockFlagReportOnError ≠ 0 then pure (false, reasons.delete)
      else pure (true, reasons)
  else pure (true, reasons)

def PayloadBlockProcessor.validate (bundle : Bundle) (block : BlockInfo) (reasons : Reasons) :
    Exec (Bool × Reasons) := do
  let (valid, reasons) ← BlockProcessor.validate bundle block reasons
  if valid = false then pure (false, reasons)
  else if block.complete = false ∧ (block.dataOffset = 0 ∨
      (block.dataLength ≠ 0 ∧ bundle.payload.length = 0) ∨ bundle.doNotFragment = true) then
    pure (false, reasons.delete)
  else pure (true, reasons)

/-- What the flags of a block in error say about it: report it, and discard the bundle. -/
def BlockInfo.handleError (block : BlockInfo) (reasons : Reasons) : Exec (Bool × Reasons) := do
  let flags ← block.flags
  let reasons := if flags &&& blockFlagReportOnError ≠ 0 then reasons.report else reasons
  if flags &&& blockFlagDiscardBundleOnError ≠ 0 then pure (false, reasons.delete)
  else pure (true, reasons)

/-- `UnknownBlockProcessor::validate`: a block of unknown type is in error. -/
def UnknownBlockProcessor.validate (bundle : Bundle) (block : BlockInfo) (reasons : Reasons) :
    Exec (Bool × Reasons) := do
  let (valid, reasons) ← BlockProcessor.validate bundle block reasons
  if valid = false then pure (false, reasons)
  else block.handleError reasons

/-- `MetadataBlockProcessor::validate`. The mark that it leaves on a block of a bundle it refuses
is not kept here. -/
def MetadataBlockProcessor.validate (bundle : Bundle) (block : BlockInfo) (reasons : Reasons) :
    Exec (Bool × Reasons) := do
  assertThat (block.owner = .metadata)
  let type ← block.type
  assertThat (type = Processor.metadata.blockType)
  match block.locals with
  | none => .error (.fault .assertion)
  | some metadata =>
      if metadata.error = true then block.handleError reasons
      else BlockProcessor.validate bundle block reasons

namespace BundleProtocol

/-- `owner()->validate(..)`. -/
def validateBlock (bundle : Bundle) (block : BlockInfo) (reasons : Reasons) :
    Exec (Bool × Reasons) :=
  match block.owner with
  | .primary => pure (PrimaryBlockProcessor.validate bundle reasons)
  | .payload => PayloadBlockProcessor.validate bundle block reasons
  | .unknown => UnknownBlockProcessor.validate bundle block reasons
  | .metadata => MetadataBlockProcessor.validate bundle block reasons
  | _ => BlockProcessor.validate bundle block reasons

def checkBlock (bundle : Bundle) (block : BlockInfo) (last : Bool) (reasons : Reasons) :
    Exec (Bool × Reasons) := do
  let (valid, reasons) ← validateBlock bundle block reasons
  if valid = false then pure (false, reasons)
  else do
    let flagged ← block.lastBlock
    if last = true ∧ flagged = false ∧ bundle.fragmentedIncoming = false then
      pure (false, reasons.delete)
    else if last = false ∧ flagged = true then pure (false, reasons.delete)
    else pure (true, reasons)

/-- The verdict of `validate`: whether the bundle is valid, the reasons, and the blocks that are
left. -/
structure Verdict where
  valid : Bool
  reasons : Reasons
  blocks : List BlockInfo
deriving DecidableEq, Repr

def checkCounts (blocks : List BlockInfo) (primaries payloads : Nat) (reasons : Reasons) : Verdict :=
  if primaries = 1 ∧ payloads ≤ 1 then ⟨true, reasons, blocks⟩ else ⟨false, reasons.delete, blocks⟩

/-- A last block without a full preamble is dropped, and the one in front of it is the last one
now. `done` are the blocks in front of it, the latest first. -/
def dropLast (bundle : Bundle) (done : List BlockInfo) (primaries payloads : Nat)
    (reasons : Reasons) : Exec Verdict :=
  match done with
  | last :: _ :: _ => do
      let (valid, reasons) ← checkBlock bundle last true reasons
      if valid = false then pure ⟨false, reasons, done.reverse⟩
      else pure (checkCounts done.reverse primaries payloads reasons)
  | _ => pure ⟨false, reasons.delete, done.reverse⟩

/-- The loop of `validate`: `done` are the blocks it has seen, the latest first. -/
def validateLoop (bundle : Bundle) : List BlockInfo → List BlockInfo → Nat → Nat → Reasons →
    Exec Verdict
  | [], done, primaries, payloads, reasons =>
      pure (checkCounts done.reverse primaries payloads reasons)
  | block :: blocks, done, primaries, payloads, reasons =>
      if block.dataOffset = 0 then
        if blocks = [] then dropLast bundle done primaries payloads reasons
        else pure ⟨false, reasons.delete, done.reverse ++ block :: blocks⟩
      else do
        let type ← block.type
        let (valid, reasons) ← checkBlock bundle block blocks.isEmpty reasons
        if valid = false then pure ⟨false, reasons, done.reverse ++ block :: blocks⟩
        else
          validateLoop bundle blocks (block :: done)
            (if type = Processor.primary.blockType then primaries + 1 else primaries)
            (if type = Processor.payload.blockType then payloads + 1 else payloads) reasons

def validate (bundle : Bundle) (reasons : Reasons) : Exec Verdict :=
  match bundle.recvBlocks.blocks with
  | front :: second :: blocks => do
      let type ← front.type
      if type ≠ Processor.primary.blockType then
        pure ⟨false, reasons.delete, bundle.recvBlocks.blocks⟩
      else validateLoop bundle (front :: second :: blocks) [] 0 0 reasons
  | _ => pure ⟨false, reasons.delete, bundle.recvBlocks.blocks⟩

/-! ## What a valid bundle is like -/

theorem checkCounts_valid {blocks : List BlockInfo} {primaries payloads : Nat}
    {reasons : Reasons} {verdict : Verdict}
    (h : checkCounts blocks primaries payloads reasons = verdict) (hvalid : verdict.valid = true) :
    verdict.blocks = blocks ∧ primaries = 1 ∧ payloads ≤ 1 := by
  unfold checkCounts at h
  split at h
  · rename_i hcounts
    rw [← h]
    exact ⟨rfl, hcounts⟩
  · rw [← h] at hvalid
    cases hvalid

theorem dropLast_valid {bundle : Bundle} {done : List BlockInfo} {primaries payloads : Nat}
    {reasons : Reasons} {verdict : Verdict}
    (h : dropLast bundle done primaries payloads reasons = .ok verdict)
    (hvalid : verdict.valid = true) :
    verdict.blocks = done.reverse ∧ primaries = 1 ∧ payloads ≤ 1 := by
  unfold dropLast at h
  split at h
  · obtain ⟨⟨valid, reasons'⟩, -, hrest⟩ := Exec.bind_eq_ok.mp h
    dsimp only at hrest
    split at hrest
    · rw [← Except.ok.inj hrest] at hvalid
      cases hvalid
    · exact checkCounts_valid (Except.ok.inj hrest) hvalid
  · rw [← Except.ok.inj h] at hvalid
    cases hvalid

theorem validateLoop_types {bundle : Bundle} {blocks done : List BlockInfo}
    {primaries payloads : Nat} {reasons : Reasons} {verdict : Verdict}
    (hdone : ∀ block ∈ done, ∃ type, block.type = .ok type)
    (h : validateLoop bundle blocks done primaries payloads reasons = .ok verdict)
    (hvalid : verdict.valid = true) :
    ∀ block ∈ verdict.blocks, ∃ type, block.type = .ok type := by
  induction blocks generalizing done primaries payloads reasons with
  | nil =>
      obtain ⟨heq, -⟩ := checkCounts_valid (Except.ok.inj h) hvalid
      rw [heq]
      intro block hblock
      exact hdone block (List.mem_reverse.mp hblock)
  | cons front blocks ih =>
      rw [validateLoop] at h
      split at h
      · split at h
        · obtain ⟨heq, -⟩ := dropLast_valid h hvalid
          rw [heq]
          intro block hblock
          exact hdone block (List.mem_reverse.mp hblock)
        · rw [← Except.ok.inj h] at hvalid
          cases hvalid
      · obtain ⟨type, htype, hrest⟩ := Exec.bind_eq_ok.mp h
        obtain ⟨⟨valid, reasons'⟩, -, hloop⟩ := Exec.bind_eq_ok.mp hrest
        dsimp only at hloop
        split at hloop
        · rw [← Except.ok.inj hloop] at hvalid
          cases hvalid
        · refine ih ?_ hloop
          intro block hblock
          rcases List.mem_cons.mp hblock with rfl | hblock
          · exact ⟨type, htype⟩
          · exact hdone block hblock

theorem validate_types {bundle : Bundle} {reasons : Reasons} {verdict : Verdict}
    (h : validate bundle reasons = .ok verdict) (hvalid : verdict.valid = true) :
    ∀ block ∈ verdict.blocks, ∃ type, block.type = .ok type := by
  unfold validate at h
  split at h
  · obtain ⟨type, -, hrest⟩ := Exec.bind_eq_ok.mp h
    split at hrest
    · rw [← Except.ok.inj hrest] at hvalid
      cases hvalid
    · refine validateLoop_types ?_ hrest hvalid
      intro block hblock
      cases hblock
  · rw [← Except.ok.inj h] at hvalid
    cases hvalid

end BundleProtocol

end Dtn2
