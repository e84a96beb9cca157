import Dtn2.Bundling.Processors

/-!
# What a byte string means to the parser

The parser receives a bundle in arbitrary chunks. This module says what the whole byte string
means, with no chunks in it: `parseBlock` cuts one block off the front, and `parse` runs through
the string block by block. Where a string ends inside a block, `parse` stops with the bytes of
that block and can be continued: parsing a string and then what follows it is parsing the
concatenation.

Received blocks are compared without the unused memory behind their contents.
-/

namespace Dtn2

open Framework

/-- The block without the memory behind its contents. -/
def BlockInfo.erase (b : BlockInfo) : BlockInfo := { b with contents := ⟨b.contents.filled, []⟩ }

theorem BlockInfo.erase_setContents (b : BlockInfo) (c : ScratchBuffer) :
    ({ b with contents := c } : BlockInfo).erase = { b.erase with contents := ⟨c.filled, []⟩ } :=
  rfl

theorem BlockInfo.erase_setComplete (b : BlockInfo) (c : ScratchBuffer) (d : Bool) :
    ({ b with contents := c, complete := d } : BlockInfo).erase =
      { b.erase with contents := ⟨c.filled, []⟩, complete := d } := rfl

def Bundle.withBlocks (b : Bundle) (blocks : List BlockInfo) : Bundle :=
  { b with recvBlocks := { b.recvBlocks with blocks := blocks } }

def Bundle.reframe (b : Bundle) (blocks : List BlockInfo) (payload : BundlePayload) : Bundle :=
  { b with payload := payload, recvBlocks := { b.recvBlocks with blocks := blocks } }

def Bundle.erase (b : Bundle) : Bundle := b.withBlocks (b.recvBlocks.blocks.map BlockInfo.erase)

namespace BundleProtocol

/-- The preamble at the front of a block, behind its type byte, and what follows it. -/
def scanPreamble (os : Oasys) (dict : Dictionary) (bytes : Bytes) : Option (Preamble × Bytes) :=
  readPreamble os dict (bytes.drop 1)

/-- The bytes of a block that stay in its contents buffer: all, or the preamble of the payload
block. -/
def kept (owner : Processor) (bytes : Bytes) (offset : Nat) : Bytes :=
  if owner = .payload then bytes.take offset else bytes

theorem kept_of_ne {owner : Processor} (hne : owner ≠ .payload) (bytes : Bytes) (n : Nat) :
    kept owner bytes n = bytes := if_neg hne

theorem kept_payload (bytes : Bytes) (n : Nat) : kept .payload bytes n = bytes.take n := rfl

def moved (owner : Processor) (data : Bytes) : Bytes := if owner = .payload then data else []

def wholeBlock (owner : Processor) (p : Preamble) (bytes : Bytes) (offset : Nat) : BlockInfo where
  owner := owner
  eidList := p.eidList
  contents := ⟨kept owner (bytes.take (offset + p.blockLen.toNat)) offset, []⟩
  dataLength := p.blockLen.toUInt32
  dataOffset := UInt32.ofNat offset
  complete := true
  locals := none

inductive BlockParse where
  | incomplete
  | malformed
  | complete (block : BlockInfo) (data rest : Bytes)

/-- The block at the front of a byte string, its data and what follows it. -/
def parseBlock (os : Oasys) (dict : Dictionary) (owner : Processor) (bytes : Bytes) :
    BlockParse :=
  match scanPreamble os dict bytes with
  | none => .incomplete
  | some (p, rest) =>
      let offset := bytes.length - rest.length
      if 0xffffffff < p.blockLen.toNat then .malformed
      else if rest.length < p.blockLen.toNat then .incomplete
      else .complete (wholeBlock owner p bytes offset)
        (rest.take p.blockLen.toNat) (rest.drop p.blockLen.toNat)

def partialBlock (os : Oasys) (dict : Dictionary) (owner : Processor) (bytes : Bytes) :
    BlockInfo :=
  match scanPreamble os dict bytes with
  | none => ⟨owner, [], ⟨bytes, []⟩, 0, 0, false, none⟩
  | some (p, rest) =>
      let offset := bytes.length - rest.length
      ⟨owner, p.eidList, ⟨kept owner bytes offset, []⟩, p.blockLen.toUInt32, UInt32.ofNat offset,
        false, none⟩

/-- The payload bytes among the bytes of a block that is not complete. -/
def partialData (os : Oasys) (dict : Dictionary) (owner : Processor) (bytes : Bytes) : Bytes :=
  match scanPreamble os dict bytes with
  | none => []
  | some (_, rest) => moved owner rest

def setPayload (bundle : Bundle) (data : Bytes) : Bundle :=
  { bundle with payload := { bundle.payload with data := data } }

def pushBlock (bundle : Bundle) (block : BlockInfo) : Bundle :=
  bundle.withBlocks (bundle.recvBlocks.blocks ++ [block])

@[simp] theorem pushBlock_blocks (b : Bundle) (block : BlockInfo) (data : Bytes) :
    (pushBlock (setPayload b data) block).recvBlocks.blocks = b.recvBlocks.blocks ++ [block] := rfl

@[simp] theorem pushBlock_dict (b : Bundle) (block : BlockInfo) (data : Bytes) :
    (pushBlock (setPayload b data) block).recvBlocks.dict = b.recvBlocks.dict := rfl

@[simp] theorem pushBlock_data (b : Bundle) (block : BlockInfo) (data : Bytes) :
    (pushBlock (setPayload b data) block).payload.data = data := rfl

theorem pushBlock_reframe (b : Bundle) (block : BlockInfo) (data : Bytes) (p : BundlePayload) :
    (pushBlock (setPayload b data) block).reframe [] p = b.reframe [] p := rfl

theorem reframe_reframe (b : Bundle) (bs bs' : List BlockInfo)
    (p p' : BundlePayload) : (b.reframe bs p).reframe bs' p' = b.reframe bs' p' := rfl

/-- A complete block joins the bundle: the bundle and whether it was the last block. -/
def completeBlock (params : Params) (os : Oasys) (bundle : Bundle) (block : BlockInfo)
    (data : Bytes) : Exec (Bundle × Bool) := do
  let (bundle, block) ← finishBlock params os
    (setPayload bundle (bundle.payload.data ++ moved block.owner data)) block
  let flags ← block.flags
  pure (pushBlock bundle block, decide (flags &&& blockFlagLastBlock ≠ 0))

/-- How far a byte string leads: to a protocol error, into a block, between two blocks, or to
the end of the last block. -/
inductive Progress where
  | error
  | within (base : Bundle) (owner : Processor) (bytes : Bytes)
  | between (base : Bundle)
  | done (bundle : Bundle) (rest : Bytes)

/-! ## Readers of a preamble are stable -/

theorem readEids_stable (os : Oasys) (dict : Dictionary) (n : Nat) :
    Reader.Stable (readEids os dict n) := by
  induction n with
  | zero => exact Reader.stable_pure _
  | succ n ih =>
      refine SDNV.read_stable.bind fun schemeOffset => ?_
      refine SDNV.read_stable.bind fun sspOffset => ?_
      exact ih.bind fun rest => Reader.stable_pure _

theorem readEidRefs_stable (os : Oasys) (dict : Dictionary) (flags : UInt64) :
    Reader.Stable (readEidRefs os dict flags) := by
  unfold readEidRefs
  split
  · exact Reader.stable_pure _
  · refine SDNV.read_stable.bind fun count => ?_
    split
    · exact readEids_stable os dict _
    · exact Reader.stable_failure

theorem readPreamble_stable (os : Oasys) (dict : Dictionary) :
    Reader.Stable (readPreamble os dict) := by
  refine SDNV.read_stable.bind fun flags => ?_
  refine (readEidRefs_stable os dict flags).bind fun eids => ?_
  exact SDNV.read_stable.bind fun len => Reader.stable_pure _

section Scan

variable {os : Oasys} {dict : Dictionary} {bytes more rest : Bytes} {p : Preamble}

theorem scanPreamble_length (h : scanPreamble os dict bytes = some (p, rest)) :
    rest.length + 2 ≤ bytes.length := by
  obtain ⟨flags, mid, hf, htail⟩ := (Reader.bind_eq_some _ _ _ _ _).mp h
  have hlt := SDNV.read_length_lt hf
  have hstable : Reader.Stable (do
      let eidList ← readEidRefs os dict flags
      let blockLen ← SDNV.read
      pure ⟨flags, eidList, blockLen⟩ : Reader UInt8 Preamble) :=
    (readEidRefs_stable os dict flags).bind fun eids =>
      SDNV.read_stable.bind fun len => Reader.stable_pure _
  have hle := hstable.length_le htail
  rw [List.length_drop] at hlt
  omega

theorem scanPreamble_append (h : scanPreamble os dict bytes = some (p, rest)) (more : Bytes) :
    scanPreamble os dict (bytes ++ more) = some (p, rest ++ more) := by
  have hlen := scanPreamble_length h
  unfold scanPreamble at h ⊢
  rw [List.drop_append_of_le_length (by omega)]
  exact (readPreamble_stable os dict).append h more

theorem scanPreamble_rest (h : scanPreamble os dict bytes = some (p, rest)) :
    rest = bytes.drop (bytes.length - rest.length) := by
  have hlen := scanPreamble_length h
  have hdrop := (readPreamble_stable os dict).rest_eq_drop h
  rw [List.drop_drop, List.length_drop] at hdrop
  have hpos : 1 + (bytes.length - 1 - rest.length) = bytes.length - rest.length := by omega
  rw [hpos] at hdrop
  exact hdrop

theorem scanPreamble_used (hnone : scanPreamble os dict bytes = none)
    (h : scanPreamble os dict (bytes ++ more) = some (p, rest)) :
    bytes.length + rest.length < (bytes ++ more).length := by
  have hlen := scanPreamble_length h
  by_cases hb : bytes = []
  · subst hb
    simp only [List.length_nil, List.nil_append] at hlen ⊢
    omega
  · have hpos := List.length_pos_of_ne_nil hb
    unfold scanPreamble at h hnone
    rw [List.drop_append_of_le_length (by omega)] at h
    have hlt := (readPreamble_stable os dict).used_gt hnone h
    simp only [List.length_append, List.length_drop] at hlt ⊢
    omega

theorem scanPreamble_take (h : scanPreamble os dict bytes = some (p, rest)) {k : Nat}
    (hk : bytes.length - rest.length ≤ k) :
    scanPreamble os dict (bytes.take k) =
      some (p, rest.take (k - (bytes.length - rest.length))) := by
  have hlen := scanPreamble_length h
  unfold scanPreamble at h ⊢
  rw [List.drop_take]
  have htake := (readPreamble_stable os dict).take h (k := k - 1) (by rw [List.length_drop]; omega)
  rw [List.length_drop] at htake
  have hpos : k - 1 - (bytes.length - 1 - rest.length) = k - (bytes.length - rest.length) := by
    omega
  rw [htake, hpos]

end Scan

/-! ## Parsing block by block -/

section ParseBlock

variable {os : Oasys} {dict : Dictionary} {owner : Processor} {bytes data rest : Bytes}
  {block : BlockInfo}

theorem parseBlock_eq_incomplete (h : parseBlock os dict owner bytes = .incomplete) :
    scanPreamble os dict bytes = none ∨ ∃ p tail, scanPreamble os dict bytes = some (p, tail) ∧
      ¬ 0xffffffff < p.blockLen.toNat ∧ tail.length < p.blockLen.toNat := by
  unfold parseBlock at h
  cases hs : scanPreamble os dict bytes with
  | none => exact Or.inl rfl
  | some r =>
      obtain ⟨p, tail⟩ := r
      rw [hs] at h
      simp only at h
      split at h
      · cases h
      · rename_i hsmall
        split at h
        · rename_i hfew
          exact Or.inr ⟨p, tail, rfl, hsmall, hfew⟩
        · cases h

theorem parseBlock_eq_malformed (h : parseBlock os dict owner bytes = .malformed) :
    ∃ p tail, scanPreamble os dict bytes = some (p, tail) ∧ 0xffffffff < p.blockLen.toNat := by
  unfold parseBlock at h
  cases hs : scanPreamble os dict bytes with
  | none => rw [hs] at h; cases h
  | some r =>
      obtain ⟨p, tail⟩ := r
      rw [hs] at h
      simp only at h
      split at h
      · rename_i hbig
        exact ⟨p, tail, rfl, hbig⟩
      · split at h <;> cases h

theorem parseBlock_eq_complete (h : parseBlock os dict owner bytes = .complete block data rest) :
    ∃ p tail, scanPreamble os dict bytes = some (p, tail) ∧ ¬ 0xffffffff < p.blockLen.toNat ∧
      ¬ tail.length < p.blockLen.toNat ∧
      block = wholeBlock owner p bytes (bytes.length - tail.length) ∧
      data = tail.take p.blockLen.toNat ∧ rest = tail.drop p.blockLen.toNat := by
  unfold parseBlock at h
  cases hs : scanPreamble os dict bytes with
  | none => rw [hs] at h; cases h
  | some r =>
      obtain ⟨p, tail⟩ := r
      rw [hs] at h
      simp only at h
      split at h
      · cases h
      · rename_i hsmall
        split at h
        · cases h
        · rename_i henough
          injection h with hblock hdata hrest
          exact ⟨p, tail, rfl, hsmall, henough, hblock.symm, hdata.symm, hrest.symm⟩

theorem parseBlock_malformed_of {p : Preamble} {tail : Bytes}
    (hs : scanPreamble os dict bytes = some (p, tail)) (hbig : 0xffffffff < p.blockLen.toNat) :
    parseBlock os dict owner bytes = .malformed := by
  simp only [parseBlock, hs, if_pos hbig]

variable (owner) in
theorem parseBlock_complete_of {p : Preamble} {tail : Bytes}
    (hs : scanPreamble os dict bytes = some (p, tail)) (hsmall : ¬ 0xffffffff < p.blockLen.toNat)
    (henough : ¬ tail.length < p.blockLen.toNat) :
    parseBlock os dict owner bytes = .complete
      (wholeBlock owner p bytes (bytes.length - tail.length)) (tail.take p.blockLen.toNat)
      (tail.drop p.blockLen.toNat) := by
  simp only [parseBlock, hs, if_neg hsmall, if_neg henough]

theorem parseBlock_length (h : parseBlock os dict owner bytes = .complete block data rest) :
    rest.length < bytes.length := by
  obtain ⟨p, tail, hs, -, -, -, -, rfl⟩ := parseBlock_eq_complete h
  have hlen := scanPreamble_length hs
  rw [List.length_drop]
  omega

theorem parseBlock_append_malformed (h : parseBlock os dict owner bytes = .malformed)
    (more : Bytes) : parseBlock os dict owner (bytes ++ more) = .malformed := by
  obtain ⟨p, tail, hs, hbig⟩ := parseBlock_eq_malformed h
  exact parseBlock_malformed_of (scanPreamble_append hs more) hbig

theorem parseBlock_append_complete (h : parseBlock os dict owner bytes = .complete block data rest)
    (more : Bytes) :
    parseBlock os dict owner (bytes ++ more) = .complete block data (rest ++ more) := by
  obtain ⟨p, tail, hs, hsmall, henough, rfl, rfl, rfl⟩ := parseBlock_eq_complete h
  have hlen := scanPreamble_length hs
  have hoff : (bytes ++ more).length - (tail ++ more).length = bytes.length - tail.length := by
    simp only [List.length_append]
    omega
  have hmore : ¬ (tail ++ more).length < p.blockLen.toNat := by
    rw [List.length_append]
    omega
  rw [parseBlock_complete_of owner (scanPreamble_append hs more) hsmall hmore, hoff, wholeBlock,
    List.take_append_of_le_length (by omega), List.take_append_of_le_length (by omega),
    List.drop_append_of_le_length (by omega)]
  rfl

theorem parseBlock_used {acc more : Bytes} (hacc : parseBlock os dict owner acc = .incomplete)
    (h : parseBlock os dict owner (acc ++ more) = .complete block data rest) :
    ∃ used, used ≠ [] ∧ more = used ++ rest ∧
      parseBlock os dict owner (acc ++ used) = .complete block data [] := by
  obtain ⟨p, tail, hs, hsmall, henough, rfl, rfl, rfl⟩ := parseBlock_eq_complete h
  have hlen := scanPreamble_length hs
  have htail := scanPreamble_rest hs
  rw [List.length_append] at hlen htail
  have hpast : acc.length < acc.length + more.length - tail.length + p.blockLen.toNat := by
    by_contra hle
    have hk : (acc ++ more).length - tail.length ≤ acc.length := by
      rw [List.length_append]
      omega
    have hs' := scanPreamble_take hs hk
    rw [List.take_left, List.length_append] at hs'
    have henough' : ¬ (tail.take (acc.length - (acc.length + more.length - tail.length))).length <
        p.blockLen.toNat := by
      rw [List.length_take]
      omega
    rw [parseBlock_complete_of owner hs' hsmall henough'] at hacc
    cases hacc
  -- the end of the block, as a position in the new bytes
  obtain ⟨k, hk⟩ : ∃ k, acc.length + more.length - tail.length + p.blockLen.toNat =
      acc.length + k := ⟨_, (Nat.add_sub_of_le (le_of_lt hpast)).symm⟩
  have hrest : tail.drop p.blockLen.toNat = more.drop k := by
    have hdrop := congrArg (List.drop p.blockLen.toNat) htail
    have hnil : acc.drop (acc.length + k) = [] := List.drop_of_length_le (by omega)
    rw [List.drop_drop, hk, List.drop_append, hnil, List.nil_append, Nat.add_sub_cancel_left]
      at hdrop
    exact hdrop
  refine ⟨more.take k, ?_, ?_, ?_⟩
  · intro hnil
    have hzero := congrArg List.length hnil
    rw [List.length_take, List.length_nil] at hzero
    omega
  · rw [hrest, List.take_append_drop]
  · have hall : acc ++ more.take k = (acc ++ more).take (acc.length + k) := by
      rw [List.take_length_add_append]
    have hfit : (acc ++ more).length - tail.length ≤ acc.length + k := by
      rw [List.length_append]
      omega
    have hs' := scanPreamble_take hs hfit
    have hsub : acc.length + k - ((acc ++ more).length - tail.length) = p.blockLen.toNat := by
      rw [List.length_append]
      omega
    rw [hsub] at hs'
    have htake : (tail.take p.blockLen.toNat).length = p.blockLen.toNat := by
      rw [List.length_take]
      omega
    have hoff : ((acc ++ more).take (acc.length + k)).length -
        (tail.take p.blockLen.toNat).length = (acc ++ more).length - tail.length := by
      rw [htake, List.length_take, List.length_append]
      omega
    have hpos : (acc ++ more).length - tail.length + p.blockLen.toNat = acc.length + k := by
      rw [List.length_append]
      omega
    rw [hall, parseBlock_complete_of owner hs' hsmall (by omega), hoff, wholeBlock, wholeBlock, hpos,
      List.take_take, Nat.min_self, List.take_take, Nat.min_self,
      List.drop_of_length_le (le_of_eq htake)]

theorem parseBlock_rest {acc more : Bytes} (hacc : parseBlock os dict owner acc = .incomplete)
    (h : parseBlock os dict owner (acc ++ more) = .complete block data rest) :
    rest.length < more.length ∧ more.drop (more.length - rest.length) = rest := by
  obtain ⟨used, hne, rfl, -⟩ := parseBlock_used hacc h
  have hpos := List.length_pos_of_ne_nil hne
  rw [List.length_append, Nat.add_sub_cancel, List.drop_left]
  exact ⟨by omega, rfl⟩

end ParseBlock

/-- Parse a byte string that starts in front of a block of the given owner. -/
def parse (params : Params) (os : Oasys) (base : Bundle) (owner : Processor) (bytes : Bytes) :
    Progress :=
  match h : parseBlock os base.recvBlocks.dict owner bytes with
  | .incomplete => .within base owner bytes
  | .malformed => .error
  | .complete block data rest =>
      have := parseBlock_length h
      match completeBlock params os base block data with
      | .error _ => .error
      | .ok (bundle, true) => .done bundle rest
      | .ok (bundle, false) =>
          match rest.head? with
          | none => .between bundle
          | some first => parse params os bundle (findProcessor params first) rest
termination_by bytes.length

def Progress.continue (params : Params) (os : Oasys) (σ : Progress) (more : Bytes) : Progress :=
  match σ with
  | .error => .error
  | .within base owner bytes => parse params os base owner (bytes ++ more)
  | .between base =>
      match more.head? with
      | none => .between base
      | some first => parse params os base (findProcessor params first) more
  | .done bundle rest => .done bundle (rest ++ more)

def afterBlock (params : Params) (os : Oasys) (rest : Bytes) : Exec (Bundle × Bool) → Progress
  | .error _ => .error
  | .ok (bundle, true) => .done bundle rest
  | .ok (bundle, false) => (Progress.between bundle).continue params os rest

section Unfold

variable {params : Params} {os : Oasys} {base : Bundle} {owner : Processor}
  {bytes data rest : Bytes} {block : BlockInfo}

theorem parse_incomplete (h : parseBlock os base.recvBlocks.dict owner bytes = .incomplete) :
    parse params os base owner bytes = .within base owner bytes := by
  rw [parse]
  split <;> simp_all

theorem parse_malformed (h : parseBlock os base.recvBlocks.dict owner bytes = .malformed) :
    parse params os base owner bytes = .error := by
  rw [parse]
  split <;> simp_all

theorem parse_complete
    (h : parseBlock os base.recvBlocks.dict owner bytes = .complete block data rest) :
    parse params os base owner bytes =
      afterBlock params os rest (completeBlock params os base block data) := by
  rw [parse]
  split
  · simp_all
  · simp_all
  · rename_i block' data' rest' h'
    rw [h] at h'
    injection h' with h1 h2 h3
    subst h1 h2 h3
    rcases completeBlock params os base block data with s | ⟨bundle, _ | _⟩ <;> rfl

end Unfold

theorem afterBlock_append (params : Params) (os : Oasys) (rest more : Bytes)
    (x : Exec (Bundle × Bool))
    (ih : ∀ bundle first, x = .ok (bundle, false) → rest.head? = some first →
      parse params os bundle (findProcessor params first) (rest ++ more) =
        (parse params os bundle (findProcessor params first) rest).continue params os more) :
    afterBlock params os (rest ++ more) x = (afterBlock params os rest x).continue params os more := by
  rcases x with s | ⟨bundle, _ | _⟩
  · rfl
  · cases rest with
    | nil => rfl
    | cons first tail => exact ih bundle first rfl rfl
  · rfl

theorem parse_append (params : Params) (os : Oasys) (base : Bundle) (owner : Processor)
    (bytes more : Bytes) :
    parse params os base owner (bytes ++ more) =
      (parse params os base owner bytes).continue params os more := by
  induction hn : bytes.length using Nat.strong_induction_on generalizing base owner bytes with
  | _ n ih =>
      cases h : parseBlock os base.recvBlocks.dict owner bytes with
      | incomplete =>
          rw [parse_incomplete h]
          rfl
      | malformed =>
          rw [parse_malformed h, parse_malformed (parseBlock_append_malformed h more)]
          rfl
      | complete block data rest =>
          have hlt := parseBlock_length h
          rw [parse_complete h, parse_complete (parseBlock_append_complete h more)]
          apply afterBlock_append
          intro bundle first hx hfirst
          exact ih rest.length (by omega) bundle _ rest rfl

theorem Progress.continue_append (params : Params) (os : Oasys) (σ : Progress) (a b : Bytes) :
    (σ.continue params os a).continue params os b = σ.continue params os (a ++ b) := by
  cases σ with
  | error => rfl
  | within base owner bytes =>
      change (parse params os base owner (bytes ++ a)).continue params os b =
        parse params os base owner (bytes ++ (a ++ b))
      rw [← parse_append, List.append_assoc]
  | between base =>
      cases a with
      | nil => rfl
      | cons first tail => exact (parse_append params os base _ (first :: tail) b).symm
  | done bundle rest =>
      change Progress.done bundle (rest ++ a ++ b) = Progress.done bundle (rest ++ (a ++ b))
      rw [List.append_assoc]

end BundleProtocol

end Dtn2
