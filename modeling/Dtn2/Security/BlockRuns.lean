import Dtn2.Security.BlockRoundTrip
import Dtn2.Security.EncryptionSent

/-!
# Runs on the state of a security block

While no result is reset, no parameter for a fragment is added and space is announced just once, the
locals hold what has been added. The data of the block is then what the parser expects.
-/

namespace Dtn2

namespace Security

open PrepareBlocks (csBlockHasSource csBlockHasDest csBlockHasCorrelator)

/-! ## Both writers -/

theorem writeItem_length (itemType : UInt8) (value : Bytes) :
    (writeItem itemType value).length = itemLen value.length := by
  rw [writeItem, itemLen, SDNV.encodingLen_eq, List.cons_append, List.length_cons, List.length_append]
  omega

theorem writeItem_into (os : Oasys) (e : UInt8 × Bytes) (buffer : ScratchBuffer) :
    ∃ next, (buffer.reserve os (itemLen e.2.length)).write (writeItem e.1 e.2)
      (itemLen e.2.length) = .ok next ∧ next.filled = writeItem e.1 e.2 := by
  have hroom := ScratchBuffer.le_bufLen_reserve os buffer (itemLen e.2.length)
  rw [← writeItem_length e.1] at hroom ⊢
  refine ⟨_, by rw [ScratchBuffer.write, if_pos hroom], ?_⟩
  exact List.take_left

theorem writeIntoBuffer_last (os : Oasys) (e : UInt8 × Bytes) (items : List (UInt8 × Bytes))
    (buffer : ScratchBuffer) :
    ∃ written front last, writeIntoBuffer os (e :: items) buffer = .ok written ∧
      e :: items = front ++ [last] ∧ written.filled = writeItem last.1 last.2 := by
  induction items generalizing e buffer with
  | nil =>
      obtain ⟨next, hnext, hfilled⟩ := writeItem_into os e buffer
      refine ⟨next, [], e, ?_, rfl, hfilled⟩
      rw [writeIntoBuffer, hnext]
      rfl
  | cons f items ih =>
      obtain ⟨next, hnext, -⟩ := writeItem_into os e buffer
      obtain ⟨written, front, last, hwritten, heq, hfilled⟩ := ih f next
      refine ⟨written, e :: front, last, ?_, by rw [heq]; rfl, hfilled⟩
      rw [writeIntoBuffer, hnext]
      exact hwritten

theorem writeResultOrParams_append (items more : List (UInt8 × Bytes)) :
    writeResultOrParams (items ++ more) = writeResultOrParams items ++ writeResultOrParams more := by
  rw [writeResultOrParams, List.flatMap_append]
  rfl

theorem writeResultOrParams_eq_nil {items : List (UInt8 × Bytes)} :
    writeResultOrParams items = [] ↔ items = [] := by
  cases items with
  | nil => exact iff_of_true rfl rfl
  | cons e items => simp [writeResultOrParams]

namespace BlockState

theorem writersAgree_iff (os : Oasys) (items : List (UInt8 × Bytes)) :
    WritersAgree os items ↔ items.length ≤ 1 := by
  cases items with
  | nil =>
      refine iff_of_true ?_ (Nat.zero_le 1)
      exact ⟨_, rfl, ScratchBuffer.fresh_filled os 16⟩
  | cons e items =>
      obtain ⟨written, front, last, hwritten, heq, hfilled⟩ :=
        writeIntoBuffer_last os e items (.fresh os 16)
      have hlast : writeResultOrParams [last] = writeItem last.1 last.2 := List.append_nil _
      have hbytes : written.filled = writeResultOrParams (e :: items) ↔ front = [] := by
        rw [hfilled, heq, writeResultOrParams_append, hlast, ← writeResultOrParams_eq_nil]
        exact List.self_eq_append_left
      have hlength : (e :: items).length = front.length + 1 := by
        rw [heq, List.length_append, List.length_singleton]
      have hagree : WritersAgree os (e :: items) ↔
          written.filled = writeResultOrParams (e :: items) := by
        rw [WritersAgree, hwritten]
        constructor
        · rintro ⟨buffer, hbuffer, h⟩
          cases hbuffer
          exact h
        · intro h
          exact ⟨written, rfl, h⟩
      rw [hagree, hbytes, hlength, ← List.length_eq_zero_iff]
      omega

/-! ## The data of the block -/

theorem generatePreamble_short {dict : Dictionary} {block : BlockInfo} {type : UInt8}
    {flags len : UInt64} {made : BlockInfo × Dictionary}
    (h : BlockProcessor.generatePreamble dict block type flags len = .ok made) :
    made.1.contents.filled.length < 2 ^ 32 := by
  rw [BlockProcessor.generatePreamble] at h
  obtain ⟨⟨eidField, flags', dict'⟩, _, h⟩ := Exec.bind_eq_ok.mp h
  dsimp only at h
  split at h
  · cases h
  case isFalse hshort =>
    obtain ⟨_, hempty, h⟩ := Exec.bind_eq_ok.mp h
    obtain ⟨_, _, h⟩ := Exec.bind_eq_ok.mp h
    obtain ⟨contents, happend, h⟩ := Exec.bind_eq_ok.mp h
    rw [assertThat_eq_ok, ScratchBuffer.len] at hempty
    obtain ⟨_, rfl⟩ := ScratchBuffer.append_eq_ok.mp happend
    cases h
    have hflags := SDNV.encoded_length_le flags'
    have hlen := SDNV.encoded_length_le len
    rw [SDNV.maxLength] at hflags hlen
    simp only [List.length_append, List.length_cons, hempty]
    omega

structure Contents (block : BlockInfo) (bytes : Bytes) : Prop where
  filled : ∃ preamble, block.contents.filled = preamble ++ bytes ∧
    block.dataOffset.toNat = preamble.length
  length : block.dataLength.toNat = bytes.length

theorem Contents.data {block : BlockInfo} {bytes : Bytes} (h : Contents block bytes) :
    block.data = bytes := by
  obtain ⟨preamble, hfilled, hoffset⟩ := h.filled
  rw [BlockInfo.data, BlockInfo.dataMemory, ScratchBuffer.memory, hfilled, hoffset, h.length,
    List.append_assoc, List.drop_left, List.take_left]

theorem serialize_contents {l : Locals} {target : Target} (h : Ready l target) :
    ∃ made hole, l.serialize target.os target.dict target.block target.type target.last = .ok made ∧
      Contents made.1 (l.fields ++ hole) ∧ (l.fields ++ hole).length = l.length ∧
      made.1.eidList = target.block.eidList := by
  obtain ⟨pre, hpre⟩ := h.preamble
  obtain ⟨_, _, heids, _, hoffset, hlength⟩ := CiphersuiteES.generatePreamble_ok hpre
  have hpreamble : pre.1.dataOffset.toNat = pre.1.contents.filled.length := by
    rw [hoffset, UInt32.toNat_ofNat_of_lt' (generatePreamble_short hpre)]
  have hdata : pre.1.dataLength.toNat = l.length := by
    have hsmall := h.small
    rw [hlength, UInt64.toNat_toUInt32, UInt64.toNat_ofNat']
    omega
  have hle : l.fields.length ≤ l.length := Nat.le_add_right _ _
  have hroom := ScratchBuffer.le_bufLen_reserve target.os pre.1.contents
    (pre.1.dataOffset.toNat + l.length)
  generalize hcontents : pre.1.contents.reserve target.os (pre.1.dataOffset.toNat + l.length) =
    contents at hroom
  have hfits : (pre.1.contents.filled ++ l.fields).length ≤ contents.bufLen := by
    rw [List.length_append]
    omega
  -- the memory behind the fields is as it was
  obtain ⟨behind, hbehind⟩ : ∃ behind, behind = (contents.filled ++ contents.spare).drop
      (pre.1.contents.filled ++ l.fields).length := ⟨_, rfl⟩
  have htake : (pre.1.contents.filled ++ l.fields ++ behind).take
      (pre.1.dataOffset.toNat + l.length) =
      pre.1.contents.filled ++ (l.fields ++ behind.take (l.length - l.fields.length)) := by
    rw [hpreamble, List.append_assoc, List.take_length_add_append, List.take_append,
      List.take_of_length_le hle]
  have hhole : (l.fields ++ behind.take (l.length - l.fields.length)).length = l.length := by
    have hbuf : behind.length = contents.bufLen - (pre.1.contents.filled ++ l.fields).length := by
      rw [hbehind, List.length_drop, List.length_append]
      rfl
    rw [List.length_append] at hbuf hfits
    rw [List.length_append, List.length_take, hbuf]
    omega
  have hmade : l.serialize target.os target.dict target.block target.type target.last =
      .ok ({ pre.1 with
        contents := ⟨(pre.1.contents.filled ++ l.fields ++ behind).take
          (pre.1.dataOffset.toNat + l.length), (pre.1.contents.filled ++ l.fields ++ behind).drop
          (pre.1.dataOffset.toNat + l.length)⟩ }, pre.2) := by
    rw [Locals.serialize, hpre, Exec.ok_bind]
    dsimp only
    rw [hcontents, ScratchBuffer.write, if_pos hfits, ← hbehind]
    rfl
  refine ⟨_, behind.take (l.length - l.fields.length), hmade, ⟨?_, ?_⟩, hhole, heids⟩
  · exact ⟨_, htake, hpreamble⟩
  · rw [hhole]
    exact hdata

theorem addMissing_contents (l : Locals) {block : BlockInfo} {bytes hole : Bytes} (itemType : UInt8)
    {value : Bytes} (h : Contents block (bytes ++ hole)) (hhole : hole.length = itemLen value.length) :
    ∃ r, l.addMissingSecurityResult block itemType value = .ok r ∧
      Contents r.2 (bytes ++ writeItem itemType value) ∧ r.2.eidList = block.eidList := by
  obtain ⟨preamble, hfilled, hoffset⟩ := h.filled
  have hlen : block.contents.len = (preamble ++ bytes).length + itemLen value.length := by
    rw [ScratchBuffer.len, hfilled, ← List.append_assoc, List.length_append, hhole]
  have hkept : block.contents.filled.take (block.contents.len - itemLen value.length) =
      preamble ++ bytes := by
    rw [hlen, Nat.add_sub_cancel, hfilled, ← List.append_assoc, List.take_left]
  have hdata := h.length
  rw [List.length_append, hhole, ← writeItem_length itemType, ← List.length_append] at hdata
  have hadded : ∃ l', l.addMissingSecurityResult block itemType value =
      .ok (l', { block with
        contents := { block.contents with
          filled := preamble ++ bytes ++ writeItem itemType value } }) := by
    rw [Locals.addMissingSecurityResult, if_pos (by omega), hkept]
    exact ⟨_, rfl⟩
  obtain ⟨l', hadded⟩ := hadded
  refine ⟨_, hadded, ⟨⟨preamble, ?_, hoffset⟩, hdata⟩, rfl⟩
  exact List.append_assoc _ _ _

/-! ## What the locals hold -/

/-- The locals hold what has been added, and the hole fits what has been announced. -/
structure Tracks (l : Locals) (a : Added) : Prop where
  params : ∀ t, findItem t l.securityParams = a.params t
  results : ∀ t, findItem t l.securityResult = a.results t
  orderedParams : Ordered l.securityParams
  orderedResults : Ordered l.securityResult
  hole : l.securityResultHole = (a.spaces.map itemLen).sum
  single : a.spaces.length ≤ 1
  fragment : a.fragment = none

theorem tracks_new : Tracks .new .none where
  params := fun _ => rfl
  results := fun _ => rfl
  orderedParams := List.Pairwise.nil
  orderedResults := List.Pairwise.nil
  hole := rfl
  single := Nat.zero_le 1
  fragment := rfl

theorem findItem_update {items : List (UInt8 × Bytes)} {f : UInt8 → Option Bytes}
    (h : ∀ t, findItem t items = f t) (itemType : UInt8) (value : Bytes) (t : UInt8) :
    findItem t (setItem itemType value items) = Function.update f itemType (some value) t := by
  have hf : (fun t => findItem t items) = f := funext h
  rw [findItem_setItem, hf]

theorem Tracks.withResult {l : Locals} {a : Added} (h : Tracks l a) (flags : UInt16)
    (itemType : UInt8) (value : Bytes) :
    Tracks { l with
      csFlags := flags
      securityResult := setItem itemType value l.securityResult } (a.withResult itemType value) :=
  { h with
    results := findItem_update h.results itemType value
    orderedResults := h.orderedResults.setItem itemType value }

theorem Tracks.apply {l : Locals} {a : Added} (h : Tracks l a) {op : Op} (hop : op.Sound l a) :
    Tracks (op.apply l) (a.apply op) := by
  cases op with
  | addSecurityParam itemType value =>
      exact { h with
        params := findItem_update h.params itemType value
        orderedParams := h.orderedParams.setItem itemType value }
  | addSecurityResult itemType value => exact h.withResult _ itemType value
  | addEncapsulatedBlock block tag => exact h.withResult _ csEncapBlockField (block ++ tag)
  | addSecurityResultSpace length =>
      have hspaces : a.spaces = [] := hop
      refine { h with hole := ?_, single := ?_ }
      · change l.securityResultHole + itemLen length = ((a.spaces ++ [length]).map itemLen).sum
        rw [h.hole, List.map_append, List.sum_append]
        rfl
      · change (a.spaces ++ [length]).length ≤ 1
        rw [hspaces]
        exact le_refl 1
  | resetSecurityResult =>
      have hresults : l.securityResult = [] := hop
      refine { h with results := ?_, hole := rfl, single := Nat.zero_le 1 }
      intro t
      change findItem t l.securityResult = none
      rw [hresults]
      rfl
  | addFragmentParam stack bundle => exact absurd hop id
  | setCorrelator correlator => exact { h with }
  | setCsFlags flags => exact { h with }
  | setOwnerCsNum csNum => exact { h with }

theorem Tracks.foldl {l : Locals} {a : Added} (h : Tracks l a) {ops : List Op}
    (hops : Sound l a ops) : Tracks (ops.foldl Op.apply l) (ops.foldl Added.apply a) := by
  induction ops generalizing l a with
  | nil => exact h
  | cons op ops ih => exact ih (h.apply hops.1) hops.2

/-! ## The way back -/

theorem complete_other (a : Added) (missing : List (UInt8 × Bytes)) :
    (a.complete missing).params = a.params ∧ (a.complete missing).fragment = a.fragment := by
  induction missing generalizing a with
  | nil => exact ⟨rfl, rfl⟩
  | cons e missing ih => exact ih (a.withResult e.1 e.2)

theorem findItem_complete {items : List (UInt8 × Bytes)} {a : Added}
    (h : ∀ t, findItem t items = a.results t) (missing : List (UInt8 × Bytes)) (t : UInt8) :
    findItem t (setItems items missing) = (a.complete missing).results t := by
  induction missing generalizing items a with
  | nil => exact h t
  | cons e missing ih => exact ih (findItem_update h e.1 e.2)

theorem findItem_setItems_nil {items : List (UInt8 × Bytes)} (h : Ordered items) (t : UInt8) :
    findItem t (setItems [] items) = findItem t items := by
  rw [findItem_setItems h]
  exact Option.or_none

theorem setItems_append (items more : List (UInt8 × Bytes)) :
    setItems [] (items ++ more) = setItems (setItems [] items) more := List.foldl_append

theorem fields_missing {l : Locals} {missing : List (UInt8 × Bytes)}
    (hhole : l.securityResultHole = (writeResultOrParams missing).length)
    (hnone : l.has csBlockHasResult = false → missing = []) :
    l.fields ++ writeResultOrParams missing =
      written l.ownerCsNum l.csFlags l.correlator l.securityParams (l.securityResult ++ missing) := by
  have hresult : l.resultLen = (writeResultOrParams (l.securityResult ++ missing)).length := by
    rw [Locals.resultLen, lengthOfResultOrParams_eq, hhole, writeResultOrParams_append,
      List.length_append]
  have hwritten : written l.ownerCsNum l.csFlags l.correlator l.securityParams
      (l.securityResult ++ missing) = SDNV.encoded l.ownerCsNum.toUInt64 ++
        (SDNV.encoded l.csFlags.toUInt64 ++
          ((if l.has csBlockHasCorrelator then SDNV.encoded l.correlator else []) ++
            ((if l.has csBlockHasParams then fieldBytes l.securityParams else []) ++
              (if l.has csBlockHasResult then fieldBytes (l.securityResult ++ missing) else [])))) :=
    rfl
  rw [hwritten, Locals.fields, hresult, lengthOfResultOrParams_eq]
  simp only [fieldBytes, List.append_assoc]
  cases hhas : l.has csBlockHasResult with
  | true => simp only [if_true, writeResultOrParams_append, List.append_assoc]
  | false =>
      have hmissing : writeResultOrParams missing = [] := by
        rw [hnone hhas]
        rfl
      simp only [Bool.false_eq_true, if_false, hmissing, List.append_nil]

theorem send_written {l : Locals} {target : Target} {missing : List (UInt8 × Bytes)}
    (h : Ready l target) (hsingle : missing.length ≤ 1)
    (hhole : l.securityResultHole = (writeResultOrParams missing).length)
    (hnone : l.has csBlockHasResult = false → missing = []) :
    ∃ r, send l target missing = .ok r ∧
      Contents r.2 (written l.ownerCsNum l.csFlags l.correlator l.securityParams
        (l.securityResult ++ missing)) ∧ r.2.eidList = target.block.eidList := by
  obtain ⟨made, hole, hmade, hcontents, hlength, heids⟩ := serialize_contents h
  have hsize : hole.length = (writeResultOrParams missing).length := by
    rw [List.length_append, Locals.length] at hlength
    cases hhas : l.has csBlockHasResult with
    | true =>
        rw [hhas, if_pos rfl, hhole] at hlength
        exact Nat.add_left_cancel hlength
    | false =>
        rw [hhas, if_neg Bool.false_ne_true] at hlength
        rw [hnone hhas]
        exact Nat.add_left_cancel hlength
  rw [← fields_missing hhole hnone]
  cases missing with
  | nil =>
      have hempty : hole = [] := List.eq_nil_of_length_eq_zero hsize
      rw [hempty] at hcontents
      refine ⟨(l, made.1), ?_, hcontents, heids⟩
      rw [send, hmade]
      rfl
  | cons e rest =>
      have hrest : rest = [] := List.eq_nil_of_length_eq_zero (Nat.le_zero.mp (Nat.le_of_succ_le_succ
        hsingle))
      have hitem : writeResultOrParams [e] = writeItem e.1 e.2 := List.append_nil _
      rw [hrest, hitem] at hsize ⊢
      rw [writeItem_length] at hsize
      obtain ⟨r, hr, hfinal, heids'⟩ := addMissing_contents l e.1 hcontents hsize
      refine ⟨r, ?_, hfinal, heids'.trans heids⟩
      rw [send, hmade, Exec.ok_bind, addMissing, hr]
      rfl

/-- While the operations are sound, the block gives back what has been added; and the writers agree
exactly on maps with at most one item. -/
theorem roundTrips_of_sound (ops : List Op) (target : Target) (missing : List (UInt8 × Bytes))
    (hmissing : missing.map (fun e => e.2.length) = (added ops).spaces)
    (hsound : Sound .new .none ops) (hready : Ready (run ops) target) :
    RoundTrips ops target missing ∧
      ∀ items, WritersAgree target.os items ↔ items.length ≤ 1 := by
  refine ⟨?_, writersAgree_iff target.os⟩
  have htracks : Tracks (run ops) (added ops) := tracks_new.foldl hsound
  rw [RoundTrips]
  generalize run ops = l at hready htracks ⊢
  generalize added ops = a at hmissing htracks ⊢
  -- the hole is as long as the missing results
  have hhole : l.securityResultHole = (writeResultOrParams missing).length := by
    rw [htracks.hole, ← hmissing, List.map_map, writeResultOrParams, List.length_flatMap]
    refine congrArg List.sum (List.map_congr_left fun e _ => ?_)
    exact (writeItem_length e.1 e.2).symm
  have hnone : l.has csBlockHasResult = false → l.securityResult = [] ∧ missing = [] := by
    intro hhas
    cases hready.results with
    | inl h =>
        refine ⟨h.1, writeResultOrParams_eq_nil.mp (List.eq_nil_of_length_eq_zero ?_)⟩
        rw [← hhole, h.2]
    | inr h => rw [hhas] at h; cases h
  have hsingle : missing.length ≤ 1 := by
    rw [← List.length_map (fun e : UInt8 × Bytes => e.2.length), hmissing]
    exact htracks.single
  obtain ⟨r, hsend, hcontents, heids⟩ := send_written hready hsingle hhole fun h => (hnone h).2
  have hdata := hcontents.data
  obtain ⟨parsed, hparse, hsuite, hflags, hcorrelator, hparams, hresults⟩ :=
    parse_written hdata (by rw [hdata, hcontents.length]) hready.suite hready.flags
      (by rw [heids]; exact hready.eids)
  rw [hsend]
  refine ⟨r, rfl, parsed, by rw [hparse]; rfl, hsuite, hflags, ?_, ?_, ?_, ?_⟩
  · rw [hcorrelator]
    cases hready.correlator with
    | inl h => rw [h, ite_self]
    | inr h => exact if_pos h
  · intro t
    rw [(complete_other a missing).1, ← htracks.params t, hparams]
    cases hready.params with
    | inl h =>
        rw [h]
        exact congrArg (findItem t) (ite_self _)
    | inr h =>
        have hhas : hasFlag l.csFlags.toUInt64 csBlockHasParams = true := h
        rw [if_pos hhas]
        exact findItem_setItems_nil htracks.orderedParams t
  · intro t
    rw [hresults]
    by_cases hhas : hasFlag l.csFlags.toUInt64 csBlockHasResult = true
    · rw [if_pos hhas, setItems_append]
      refine findItem_complete (fun t => ?_) missing t
      rw [findItem_setItems_nil htracks.orderedResults, htracks.results]
    · obtain ⟨hempty, hmissing⟩ := hnone (Bool.not_eq_true _ ▸ hhas)
      rw [if_neg hhas, hmissing]
      have hresults := htracks.results t
      rw [hempty] at hresults
      exact hresults
  · intro numbers h
    rw [(complete_other a missing).2, htracks.fragment] at h
    cases h

/-! ## Samples -/

namespace Sample

/-- A new block of type 9, the last one of its bundle. -/
def target : Target := ⟨.plain, .empty, .new .plain .unknown, 9, true⟩

/-- A payload block that is written before its tag is known, as a ciphersuite of type 3 does it. -/
def tagged : List Op :=
  [.setOwnerCsNum 3, .setCorrelator 0x30001, .setCsFlags 0x02, .addSecurityParam 7 [1, 2, 3, 4],
    .addSecurityParam 1 [5, 6], .addSecurityResultSpace 3]

/-- The first result is given up for another one. -/
def changed : List Op :=
  [.setOwnerCsNum 2, .addSecurityResult 5 [1], .resetSecurityResult, .addSecurityResult 10 [2]]

/-- A fragment from offset 300 on, of an empty payload. -/
def fragment : Bundle := { Bundle.new 1 0 with isFragment := true, fragOffset := 300 }

/-- The parameter of the fragment, over two bytes of the stack. -/
def fragmented : List Op := [.setOwnerCsNum 3, .addFragmentParam (7, 8) fragment]

theorem tagged_preamble : ∃ made, BlockProcessor.generatePreamble target.dict
    { target.block with contents := target.block.contents.shrink 0 } target.type
    (if target.last then blockFlagLastBlock else 0) (UInt64.ofNat (run tagged).length) = .ok made := by
  have h : (BlockProcessor.generatePreamble target.dict
      { target.block with contents := target.block.contents.shrink 0 } target.type
      (if target.last then blockFlagLastBlock else 0)
      (UInt64.ofNat (run tagged).length)).toOption.isSome = true := by
    decide +kernel
  obtain ⟨made, hmade⟩ := Option.isSome_iff_exists.mp h
  exact ⟨made, Exec.mem_toOption.mp hmade⟩

theorem tagged_ready : Ready (run tagged) target where
  suite := by decide +kernel
  flags := by decide +kernel
  correlator := .inr (by decide +kernel)
  params := .inr (by decide +kernel)
  results := .inr (by decide +kernel)
  eids := fun h => absurd h (by decide)
  small := by decide +kernel
  preamble := tagged_preamble

theorem roundTrips_of_sound_tagged :
    RoundTrips tagged target [(8, [9, 9, 9])] ∧
      ∀ items, WritersAgree target.os items ↔ items.length ≤ 1 :=
  roundTrips_of_sound tagged target [(8, [9, 9, 9])] rfl
    ⟨trivial, trivial, trivial, trivial, trivial, rfl, trivial⟩ tagged_ready

def received (ops : List Op) : Option ParsedLocals :=
  (send (run ops) target []).toOption.bind fun r => (Ciphersuite.parse r.2).toOption

theorem RoundTrips.received {ops : List Op} (h : RoundTrips ops target []) :
    ∃ parsed, Sample.received ops = some parsed ∧ Holds parsed (run ops) (added ops) := by
  obtain ⟨r, hr, parsed, hparsed, hholds⟩ := h
  refine ⟨parsed, ?_, hholds⟩
  rw [Sample.received, Option.mem_def.mp hr]
  exact hparsed

/-- The result that was given up comes back, the parameter and the numbers of a fragment do not, and
a buffer gets the last of two items. -/
theorem changed_not_roundTrips :
    ¬RoundTrips changed target [] ∧ ¬RoundTrips fragmented target [] ∧
      ¬WritersAgree .plain [(1, [5]), (7, [6])] := by
  refine ⟨?_, ?_, ?_⟩
  · intro h
    obtain ⟨parsed, hparsed, hholds⟩ := RoundTrips.received h
    have hkept : ∀ p ∈ received changed, findItem 5 p.securityResult = some [1] := by decide +kernel
    have hnone : (added changed).results 5 = none := by decide +kernel
    have hresult := hholds.results 5
    rw [hkept parsed hparsed, hnone] at hresult
    cases hresult
  · intro h
    obtain ⟨parsed, hparsed, hholds⟩ := RoundTrips.received h
    have hnone : ∀ p ∈ received fragmented, findItem 4 p.securityResult = none := by decide +kernel
    have hfragment := hholds.fragment (300, 0) (by decide +kernel)
    have habsent := hnone parsed hparsed
    rw [ParsedLocals.getFragmentOffset, csFragmentOffsetAndLengthField, habsent] at hfragment
    cases hfragment
  · have hlast : ∀ buffer ∈ (writeIntoBuffer .plain [(1, [5]), (7, [6])]
        (.fresh .plain 16)).toOption, buffer.filled ≠ writeResultOrParams [(1, [5]), (7, [6])] := by
      decide +kernel
    rintro ⟨buffer, hbuffer, h⟩
    exact hlast buffer hbuffer h

end Sample

end BlockState

end Security

end Dtn2
