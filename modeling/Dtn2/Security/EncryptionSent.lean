import Dtn2.Security.Decapsulate

/-!
# The transmit list after encryption

The erasure of the placeholder assigns every block behind it to the one in front, which stores nothing, and
then destroys the last block. So the placeholder stays in the list, and the last block is lost.
-/

namespace Dtn2

namespace Security

open Framework
open PrepareBlocks (Owner findSuite csBlockHasSource csBlockHasDest csBlockHasCorrelator)
open CiphersuiteES (isSecurity)

/-! ## What is to be undone -/

/-- The same type, flags but for the last-block flag, endpoint ids and data. The primary block is written
anew on the way, and the data of the payload block is that of the bundle. -/
structure SameBlock (a b : CSBlock) : Prop where
  type : ∃ t, a.type = .ok t ∧ b.type = .ok t
  flags : ∃ f g, a.flags = .ok f ∧ b.flags = .ok g ∧
    f &&& ~~~blockFlagLastBlock = g &&& ~~~blockFlagLastBlock
  eidList : a.type ≠ .ok 0 → a.info.eidList = b.info.eidList
  data : a.type ≠ .ok 0 → a.type ≠ .ok 1 → a.info.data = b.info.data

/-- A block of the transmit list as it arrives: forwarders rewrite dictionary offsets and the last-block
flag, and security blocks are parsed. -/
structure Carried (node : Node) (s g : CSBlock) : Prop where
  same : SameBlock s g
  owner : ∀ t, g.type = .ok t → g.owner = node.findProcessor (UInt8.ofNat t)
  complete : g.type ≠ .ok 0 → g.type ≠ .ok 1 → g.info.data.length = g.info.dataLength.toNat
  parsed : isSecurity g.owner = true →
    ∃ l, Ciphersuite.parse g.info = .ok l ∧ g.locals = some ⟨l, .none, 0⟩
  plain : isSecurity g.owner = false → g.locals = none

def Restored (originals blocks : List CSBlock) : Prop :=
  ∃ kept, kept.Sublist blocks ∧ List.Forall₂ SameBlock originals kept

/-- A transmit list with the placeholder that `prepare` and `generate` have made for a ciphersuite, a
security source and a security destination. The primary block comes first and is the only one. -/
structure Job where
  node : Node
  draws : CiphersuiteES.Draws
  bundle : Bundle
  src : Bytes
  dest : Bytes
  csNum : UInt16
  primary : CSBlock
  before : List CSBlock
  placeholder : CSBlock
  after : List CSBlock
  dict : Dictionary
  suite : findSuite csNum.toNat = some .es
  first : primary.type = .ok 0
  single : ∀ b ∈ before ++ after, b.type ≠ .ok 0
  generated : ∃ dict₀ dict₁ last, CiphersuiteES.generate node dict₀
    (CiphersuiteES.prepared node bundle src dest csNum) last = .ok (placeholder, dict₁)

namespace Job

variable (job : Job)

def blocks : List CSBlock := job.primary :: job.before ++ job.placeholder :: job.after

def position : Nat := job.before.length + 1

def originals : List CSBlock := job.primary :: job.before ++ job.after

def AtDestination (receiver : Node) (bundle : Bundle) : Prop :=
  receiver.localEid =
    if job.dest ≠ [] then (job.node.os.assign job.dest).uri
    else receiver.basePortion bundle.dest.uri

/-- What is encrypted arrives at the security destination, passes there, and the blocks are back. -/
def Undone (receiver : Node) : Prop :=
  ∃ ok sent depth st final,
    CiphersuiteES.finalize job.node job.draws job.bundle ⟨job.blocks, job.dict⟩ job.position =
      .ok (ok, sent) ∧
    List.Forall₂ (Carried receiver) sent.blocks st.blocks ∧
    job.AtDestination receiver st.bundle ∧
    CiphersuiteES.validateAll receiver depth st = .ok (true, final) ∧
    Restored job.originals final.blocks

end Job

/-! ## The placeholder -/

namespace CiphersuiteES

def placeholderData (csNum flags : UInt16) : Bytes :=
  SDNV.encoded csNum.toUInt64 ++ SDNV.encoded flags.toUInt64

def placeholderFlags (src dest : Bytes) : UInt16 :=
  UInt16.ofNat ((if src ≠ [] then csBlockHasSource else 0) |||
    if dest ≠ [] then csBlockHasDest else 0)

def placeholderEids (os : Oasys) (src dest : Bytes) : List EndpointID :=
  (if src ≠ [] then [os.assign src] else []) ++ if dest ≠ [] then [os.assign dest] else []

/-- The security source that the placeholder gets. -/
def sourceOf (node : Node) (bundle : Bundle) (src : Bytes) : Bytes :=
  if src = [] ∧ node.localEid ≠ bundle.source.uri then node.localEid else src

theorem generatePreamble_ok {dict : Dictionary} {block : BlockInfo} {type : UInt8}
    {flags len : UInt64} {made : BlockInfo × Dictionary}
    (h : BlockProcessor.generatePreamble dict block type flags len = .ok made) :
    ∃ rest, made.1.contents.filled = type :: rest ∧ made.1.eidList = block.eidList ∧
      made.1.contents.filled.length ≤ block.contents.bufLen ∧
      made.1.dataOffset = UInt32.ofNat made.1.contents.filled.length ∧
      made.1.dataLength = len.toUInt32 := by
  rw [BlockProcessor.generatePreamble] at h
  obtain ⟨⟨eidField, flags', dict'⟩, _, h⟩ := Exec.bind_eq_ok.mp h
  dsimp only at h
  split at h
  · cases h
  obtain ⟨_, hempty, h⟩ := Exec.bind_eq_ok.mp h
  obtain ⟨_, hfits, h⟩ := Exec.bind_eq_ok.mp h
  obtain ⟨contents, happend, h⟩ := Exec.bind_eq_ok.mp h
  rw [assertThat_eq_ok] at hempty hfits
  obtain ⟨_, rfl⟩ := ScratchBuffer.append_eq_ok.mp happend
  have hnil : block.contents.filled = [] := List.eq_nil_of_length_eq_zero hempty
  cases h
  refine ⟨SDNV.encoded flags' ++ eidField ++ SDNV.encoded len, ?_, rfl, ?_, ?_, rfl⟩
  · simp [hnil]
  · simpa [hnil] using hfits
  · simp [hnil]

theorem write_ok {b b' : ScratchBuffer} {bs : Bytes} {n : Nat} (h : b.write bs n = .ok b') :
    b'.memory = bs ++ b.memory.drop bs.length ∧ b'.filled = b'.memory.take n := by
  rw [ScratchBuffer.write] at h
  split at h
  · cases h
    refine ⟨List.take_append_drop _ _, ?_⟩
    rw [ScratchBuffer.memory, List.take_append_drop]
  · cases h

theorem serialize_ok {os : Oasys} {l : Locals} {dict : Dictionary} {block : BlockInfo} {type : UInt8}
    {last : Bool} {made : BlockInfo × Dictionary} (hmemory : block.contents.bufLen ≤ 64)
    (hsmall : l.length < 2 ^ 32) (hwhole : l.has csBlockHasResult = false)
    (h : l.serialize os dict block type last = .ok made) :
    made.1.contents.filled.head? = some type ∧ made.1.eidList = block.eidList ∧
      made.1.data = l.fields := by
  rw [Locals.serialize] at h
  obtain ⟨pre, hpre, h⟩ := Exec.bind_eq_ok.mp h
  obtain ⟨contents, hwrite, h⟩ := Exec.bind_eq_ok.mp h
  cases h
  obtain ⟨rest, hfilled, heids, hlen, hoffset, hlength⟩ := generatePreamble_ok hpre
  obtain ⟨hmem, hfill⟩ := write_ok hwrite
  have hbuf : (block.contents.shrink 0).bufLen = block.contents.bufLen := by
    simp [ScratchBuffer.bufLen, ScratchBuffer.shrink]
  have hsize : pre.1.contents.filled.length < 2 ^ 32 := by
    dsimp only at hlen
    omega
  have hoff : pre.1.dataOffset.toNat = pre.1.contents.filled.length := by
    rw [hoffset, UInt32.toNat_ofNat_of_lt' hsize]
  have hfields : l.length = l.fields.length := by rw [Locals.length, hwhole]; rfl
  have hdata : pre.1.dataLength.toNat = l.fields.length := by
    rw [hlength, UInt64.toNat_toUInt32, UInt64.toNat_ofNat', ← hfields]
    omega
  refine ⟨?_, heids, ?_⟩
  · dsimp only
    rw [hfill, hmem, hoff, hfilled, List.length_cons, Nat.add_right_comm]
    rfl
  · rw [BlockInfo.data, BlockInfo.dataMemory]
    dsimp only
    rw [hmem, hoff, hdata, List.append_assoc, List.drop_left, List.take_left]

/-- The placeholder as it is left in the transmit list; its locals may have got a correlator. -/
structure Left (job : Job) (b : CSBlock) : Prop where
  owner : b.owner = .extensionSecurity
  head : b.info.contents.filled.head? = some 9
  eidList : b.info.eidList =
    placeholderEids job.node.os (sourceOf job.node job.bundle job.src) job.dest
  data : b.info.data = placeholderData job.csNum
    (placeholderFlags (sourceOf job.node job.bundle job.src) job.dest)
  dummy : ∃ l, b.locals = some l ∧ l.listOwner = .none

theorem placeholderFlags_plain (src dest : Bytes) :
    hasFlag (placeholderFlags src dest).toUInt64 csBlockHasCorrelator = false ∧
      hasFlag (placeholderFlags src dest).toUInt64 csBlockHasParams = false ∧
      hasFlag (placeholderFlags src dest).toUInt64 csBlockHasResult = false := by
  unfold placeholderFlags
  split <;> split <;> decide

theorem placeholderData_length (csNum flags : UInt16) :
    (placeholderData csNum flags).length ≤ 20 := by
  have hnum := SDNV.encoded_length_le csNum.toUInt64
  have hflags := SDNV.encoded_length_le flags.toUInt64
  rw [SDNV.maxLength] at hnum hflags
  rw [placeholderData, List.length_append]
  omega

theorem fields_plain {l : Locals} (hcorrelator : l.has csBlockHasCorrelator = false)
    (hparams : l.has csBlockHasParams = false) (hresult : l.has csBlockHasResult = false) :
    l.fields = placeholderData l.ownerCsNum l.csFlags := by
  rw [Locals.fields, hcorrelator, hparams, hresult]
  simp [placeholderData]

theorem prepared_locals (node : Node) (bundle : Bundle) (src dest : Bytes) (csNum : UInt16) :
    ∃ l, (prepared node bundle src dest csNum).locals = some l ∧ l.listOwner = .none ∧
      l.has csBlockHasResult = false ∧ l.length < 2 ^ 32 ∧
      l.fields = placeholderData csNum (placeholderFlags (sourceOf node bundle src) dest) := by
  obtain ⟨hcorrelator, hparams, hresult⟩ :=
    placeholderFlags_plain (sourceOf node bundle src) dest
  have hfields := fields_plain
    (l := (createBspBlockFromSource node bundle src dest csNum .none).2) hcorrelator hparams hresult
  have hhole : (createBspBlockFromSource node bundle src dest csNum .none).2.has csBlockHasResult =
      false := hresult
  refine ⟨_, rfl, rfl, hresult, ?_, hfields⟩
  have hlen := placeholderData_length csNum (placeholderFlags (sourceOf node bundle src) dest)
  rw [Locals.length, hhole, hfields]
  exact Nat.lt_of_le_of_lt hlen (by decide)

theorem left_placeholder (job : Job) : Left job job.placeholder := by
  obtain ⟨dict₀, dict₁, last, h⟩ := job.generated
  obtain ⟨l, hlocals, hnone, hresult, hlength, hfields⟩ :=
    prepared_locals job.node job.bundle job.src job.dest job.csNum
  rw [generate, hlocals] at h
  obtain ⟨made, hmade, h⟩ := Exec.bind_eq_ok.mp h
  have hplaceholder := congrArg Prod.fst (Except.ok.inj h)
  rw [← hlocals] at hplaceholder
  dsimp only at hplaceholder
  have hbuf : (prepared job.node job.bundle job.src job.dest job.csNum).info.contents.bufLen ≤ 64 := by
    simp [prepared, BlockInfo.new, ScratchBuffer.bufLen, ScratchBuffer.fresh]
  obtain ⟨hhead, heids, hdata⟩ := serialize_ok hbuf hlength hresult hmade
  rw [← hplaceholder]
  exact ⟨rfl, hhead, heids, hdata.trans hfields, l, hlocals, hnone⟩

theorem Left.type {job : Job} {b : CSBlock} (h : Left job b) : b.type = .ok 9 := by
  rw [CSBlock.type, h.owner, if_neg (by decide)]
  cases hfilled : b.info.contents.filled with
  | nil =>
      have hhead := h.head
      rw [hfilled] at hhead
      cases hhead
  | cons first rest =>
      have hhead := h.head
      rw [hfilled] at hhead
      cases hhead
      rfl

theorem Left.not_encapsulated {job : Job} {b : CSBlock} (h : Left job b) :
    shouldBeEncapsulated b = .ok false := by
  obtain ⟨l, hlocals, hnone⟩ := h.dummy
  rw [shouldBeEncapsulated, h.type, Exec.ok_bind, if_pos (by decide), hlocals]
  dsimp only
  rw [hnone]
  rfl

/-! ## The list that is sent -/

theorem eraseLoop_ok {old : Nat} {blocks : List CSBlock} {r : List CSBlock × Nat}
    (hold : old < blocks.length) (h : eraseLoop old blocks = .ok r) :
    r.1 = blocks.dropLast ∧ old < r.1.length := by
  rw [eraseLoop] at h
  obtain ⟨before, _, h⟩ := Exec.bind_eq_ok.mp h
  have herased : GrowVector.erased CSBlock.assign blocks old = blocks.dropLast :=
    GrowVector.erased_of_keeps (fun _ _ => rfl) hold
  dsimp only at h
  rw [herased] at h
  split at h
  · cases h
  · rename_i hne
    obtain ⟨behind, _, h⟩ := Exec.bind_eq_ok.mp h
    cases h
    refine ⟨rfl, ?_⟩
    rw [List.length_dropLast] at *
    omega

theorem encapsulateLoop_ok {node : Node} {draws : Draws} {inst : Instance} {blocks : List CSBlock}
    {first : Bool} {dict : Dictionary} {r : List CSBlock × Dictionary}
    (h : encapsulateLoop node draws inst blocks first dict = .ok r) :
    r.1.length = blocks.length ∧ ∀ (k : Nat) (b : CSBlock), blocks[k]? = some b →
      shouldBeEncapsulated b = .ok false → r.1[k]? = some b := by
  induction blocks generalizing first dict r with
  | nil =>
      cases h
      exact ⟨rfl, fun k b hb => by cases hb⟩
  | cons a rest ih =>
      rw [encapsulateLoop] at h
      obtain ⟨chosen, hchosen, h⟩ := Exec.bind_eq_ok.mp h
      cases chosen with
      | true =>
          obtain ⟨made, _, h⟩ := Exec.bind_eq_ok.mp h
          obtain ⟨after, hafter, h⟩ := Exec.bind_eq_ok.mp h
          cases h
          obtain ⟨hlen, hkept⟩ := ih hafter
          refine ⟨by rw [List.length_cons, List.length_cons, hlen], fun k b hb hnot => ?_⟩
          cases k with
          | zero =>
              cases hb
              rw [hchosen] at hnot
              cases hnot
          | succ k => exact hkept k b hb hnot
      | false =>
          obtain ⟨after, hafter, h⟩ := Exec.bind_eq_ok.mp h
          cases h
          obtain ⟨hlen, hkept⟩ := ih hafter
          refine ⟨by rw [List.length_cons, List.length_cons, hlen], fun k b hb hnot => ?_⟩
          cases k with
          | zero => exact hb
          | succ k => exact hkept k b hb hnot

theorem Left.correlated {job : Job} {b : CSBlock} (h : Left job b) {l : Locals}
    (hlocals : b.locals = some l) (blocks : List CSBlock) (count : Nat) :
    Left job { b with locals := some (CiphersuiteES.correlated job.bundle blocks count l) } := by
  refine ⟨h.owner, h.head, h.eidList, h.data, _, rfl, ?_⟩
  obtain ⟨l', hl', hnone⟩ := h.dummy
  rw [hlocals] at hl'
  cases hl'
  unfold CiphersuiteES.correlated
  split
  · exact hnone
  · exact hnone

theorem primary_not_encapsulated {b : CSBlock} (h : b.type = .ok 0) :
    shouldBeEncapsulated b = .ok false := by
  rw [shouldBeEncapsulated, h, Exec.ok_bind, if_neg (by decide)]
  rfl

theorem blocks_position (job : Job) : job.blocks[job.position]? = some job.placeholder := by
  rw [Job.blocks, Job.position, List.cons_append, List.getElem?_cons_succ,
    List.getElem?_append_right (Nat.le_refl _), Nat.sub_self]
  rfl

theorem blocks_length (job : Job) : job.blocks.length = job.originals.length + 1 := by
  rw [Job.blocks, Job.originals]
  simp only [List.cons_append, List.length_cons, List.length_append]
  omega

theorem finalize_left {job : Job} {ok : Bool} {sent : BlockInfoVec CSBlock}
    (h : finalize job.node job.draws job.bundle ⟨job.blocks, job.dict⟩ job.position =
      .ok (ok, sent)) :
    sent.blocks.length = job.originals.length ∧ sent.blocks[0]? = some job.primary ∧
      ∃ b, sent.blocks[job.position]? = some b ∧ Left job b := by
  have hleft := left_placeholder job
  obtain ⟨l, hlocals, hnone⟩ := hleft.dummy
  have hposition : job.position < job.blocks.length :=
    (List.getElem?_eq_some_iff.mp (blocks_position job)).1
  rw [finalize, blocks_position job, Option.bind_some, hlocals] at h
  dsimp only at h
  rw [hnone, if_neg (by decide)] at h
  obtain ⟨erased, herase, h⟩ := Exec.bind_eq_ok.mp h
  obtain ⟨hblocks, hlt⟩ := eraseLoop_ok hposition herase
  have hroom : job.position < job.blocks.length - 1 := by
    rwa [hblocks, List.length_dropLast] at hlt
  -- the list in which the placeholder has got its correlator
  have hlen : (erased.1.modify job.position fun b => { b with
      locals := some (CiphersuiteES.correlated job.bundle erased.1 erased.2 l) }).length =
      job.originals.length := by
    rw [List.length_modify, hblocks, List.length_dropLast, blocks_length job]
    rfl
  have hfirst : (erased.1.modify job.position fun b => { b with
      locals := some (CiphersuiteES.correlated job.bundle erased.1 erased.2 l) })[0]? =
      some job.primary := by
    rw [List.getElem?_modify, hblocks, List.getElem?_dropLast,
      if_pos (Nat.zero_lt_of_lt hroom)]
    rfl
  have hthere : (erased.1.modify job.position fun b => { b with
      locals := some (CiphersuiteES.correlated job.bundle erased.1 erased.2 l) })[job.position]? =
      some { job.placeholder with
        locals := some (CiphersuiteES.correlated job.bundle erased.1 erased.2 l) } := by
    rw [List.getElem?_modify, hblocks, List.getElem?_dropLast, if_pos hroom,
      blocks_position job]
    simp
  have hkept := hleft.correlated hlocals erased.1 erased.2
  split at h
  · cases h
    exact ⟨hlen, hfirst, _, hthere, hkept⟩
  · obtain ⟨after, hafter, h⟩ := Exec.bind_eq_ok.mp h
    cases h
    obtain ⟨hsame, hloop⟩ := encapsulateLoop_ok hafter
    exact ⟨hsame.trans hlen, hloop _ _ hfirst (primary_not_encapsulated job.first), _,
      hloop _ _ hthere hkept.not_encapsulated, hkept⟩

end CiphersuiteES

end Security

end Dtn2
