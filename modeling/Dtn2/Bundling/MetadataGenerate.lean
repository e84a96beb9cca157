import Dtn2.Bundling.Generate
import Dtn2.Bundling.Processors

/-!
# Metadata blocks are sent on

`MetadataBlockProcessor::generate` writes a metadata block that was received, that was received and
modified for the link, or that was generated here. A received block is copied from its own buffer at
the offset of the new preamble. For the other two the free space of the buffer is checked after its
length has been set.
-/

namespace Dtn2

open Framework

structure OutgoingMetadata where
  link : Nat
  remove : Bool
  metadata : Bytes
deriving DecidableEq, Repr

/-- A `MetadataBlock` with what `generate` reads of it beyond the parsed fields. -/
structure Metadata extends MetadataBlock where
  flags : UInt64
  outgoing : List OutgoingMetadata
deriving DecidableEq, Repr

namespace Metadata

def findOutgoing (m : Metadata) (link : Nat) : Option OutgoingMetadata :=
  m.outgoing.find? fun o => o.link = link

/-- `metadata_modified`, with the buffer that it sets. -/
def modified (m : Metadata) (link : Nat) : Option Bytes :=
  match m.findOutgoing link with
  | none => none
  | some o => if o.remove then none else some o.metadata

end Metadata

/-- A metadata block of the transmit list: `source()` with its locals, and the locals. -/
structure XmitMetadata where
  source : Option (BlockInfo × Option Metadata)
  locals : Option Metadata
deriving DecidableEq, Repr

namespace MetadataBlockProcessor

/-- `sdnv_len = SDNV::encode(val, outgoing_buf, outgoing_len)` with the two updates behind it. A
value that does not fit takes the pointer one byte back. -/
def putSdnv (val : UInt64) (out : Bytes × Nat) : Bytes × Nat :=
  match SDNV.encode val out.2 with
  | some bs => (out.1 ++ bs, (out.2 + 2 ^ 32 - bs.length) % 2 ^ 32)
  | none => (out.1.dropLast, (out.2 + 1) % 2 ^ 32)

/-- The length of the data for an ontology and `len` bytes. -/
def blockDataLen (ontology : UInt64) (len : Nat) : Nat :=
  SDNV.encodingLen ontology + SDNV.encodingLen (UInt64.ofNat len) + len

/-- The preamble, `reserve` and `set_len`, and the ontology with the bytes of `buf`. -/
def writeMetadata (os : Oasys) (dict : Dictionary) (flags : UInt8) (ontology : UInt64)
    (buf : Bytes) : Exec (BlockInfo × Dictionary) := do
  let len := buf.length % 2 ^ 32
  let dataLen := blockDataLen ontology len
  let made ← BlockProcessor.generatePreamble dict (BlockInfo.new os .metadata) 8 flags.toUInt64
    (UInt64.ofNat dataLen)
  let size := made.1.dataOffset.toNat + dataLen
  let contents := made.1.contents.reserve os (size + 100)
  let out := putSdnv (UInt64.ofNat len) (putSdnv ontology ([], dataLen % 2 ^ 32))
  assertThat (len ≤ contents.bufLen - size)
  if buf.length < out.2 then .error (.fault .outOfBounds)
  else do
    let contents ← contents.append (out.1 ++ buf.take out.2)
    pure ({ made.1 with contents := contents }, made.2)

/-- The preamble, `reserve` and `set_len`, and the `memcpy` from the buffer of the source, at the
offset of the new block. -/
def copyMetadata (os : Oasys) (dict : Dictionary) (flags : UInt8) (source : BlockInfo) :
    Exec (BlockInfo × Dictionary) := do
  let made ← BlockProcessor.generatePreamble dict (BlockInfo.new os .metadata) 8 flags.toUInt64
    source.dataLength.toUInt64
  let size := made.1.dataOffset.toNat + source.dataLength.toNat
  let contents := made.1.contents.reserve os (size + 100)
  let data := (source.contents.memory.drop made.1.dataOffset.toNat).take made.1.dataLength.toNat
  if data.length < made.1.dataLength.toNat then .error (.fault .outOfBounds)
  else do
    let contents ← contents.append data
    pure ({ made.1 with contents := contents }, made.2)

/-- `generate` of a block that was received. -/
def generateReceived (os : Oasys) (dict : Dictionary) (source : BlockInfo) (m : Metadata)
    (link : Nat) (last : Bool) : Exec (BlockInfo × Dictionary) := do
  let flags ← source.flags
  assertThat (m.error = true → flags &&& blockFlagDiscardBundleOnError = 0 ∧
    flags &&& blockFlagDiscardBlockOnError = 0)
  match m.modified link with
  | none => copyMetadata os dict (BlockProcessor.copiedFlags flags last) source
  | some buf => writeMetadata os dict (BlockProcessor.copiedFlags flags last) m.ontology buf

def generate (os : Oasys) (dict : Dictionary) (x : XmitMetadata) (link : Nat) (last : Bool) :
    Exec (BlockInfo × Dictionary) :=
  match x.source, x.locals with
  | some (source, some m), none => do
      assertThat (source.owner = .metadata)
      generateReceived os dict source m link last
  | none, some m =>
      writeMetadata os dict (BlockProcessor.copiedFlags m.flags last) m.ontology m.metadata
  | _, _ => .error (.fault .assertion)

/-! ## What is to arrive -/

/-- A complete received block whose data was parsed without an error. -/
structure Arrived (source : BlockInfo) (m : Metadata) : Prop where
  owner : source.owner = .metadata
  flags : ∃ flags, source.flags = .ok flags
  complete : source.contents.len = source.dataOffset.toNat + source.dataLength.toNat
  parsed : parseData source.data = m.toMetadataBlock
  valid : m.error = false

/-- The metadata block that is sent, and the ontology and the bytes that it has to arrive with. -/
inductive Sends (link : Nat) : XmitMetadata → UInt64 → Bytes → Prop where
  | unmodified {source : BlockInfo} {m : Metadata} : Arrived source m → m.modified link = none →
      Sends link ⟨some (source, some m), none⟩ m.ontology m.metadata
  | modified {source : BlockInfo} {m : Metadata} {buf : Bytes} : Arrived source m →
      m.modified link = some buf → buf.length < 2 ^ 32 →
      Sends link ⟨some (source, some m), none⟩ m.ontology buf
  | generated {m : Metadata} : m.metadata.length < 2 ^ 32 →
      Sends link ⟨none, some m⟩ m.ontology m.metadata

/-- `parse_metadata` of the complete block leaves these locals. -/
def Parses (block : BlockInfo) (m : MetadataBlock) : Prop :=
  ∀ bundle, ∃ bundle' info,
    finish bundle { block with complete := true } = .ok (bundle', info) ∧ info.locals = some m

/-- The source whose data has to be kept, if the block was received and is not modified. -/
def XmitMetadata.copied (x : XmitMetadata) (link : Nat) : Option BlockInfo :=
  match x.source with
  | some (source, some m) => if m.modified link = none then some source else none
  | _ => none

/-- The block is generated, parsed back with the ontology and the bytes, and has the data of a
source that is not modified. -/
def Survives (os : Oasys) (dict : Dictionary) (x : XmitMetadata) (link : Nat) (last : Bool)
    (ontology : UInt64) (bytes : Bytes) : Prop :=
  ∃ block dict', generate os dict x link last = .ok (block, dict') ∧
    Parses block ⟨false, ontology, bytes⟩ ∧
    ∀ source ∈ XmitMetadata.copied x link, block.data = source.data

/-- The length of a preamble without endpoint ids, both numbers minimal. -/
def preambleLen (flags : UInt8) (dataLen : Nat) : Nat :=
  1 + SDNV.encodingLen flags.toUInt64 + SDNV.encodingLen (UInt64.ofNat dataLen)

/-- In the buffer of the source the data also stands where the new preamble ends. -/
def StandsBehind (source : BlockInfo) (last : Bool) : Prop :=
  ∃ flags, source.flags = .ok flags ∧
    (source.contents.memory.drop (preambleLen (BlockProcessor.copiedFlags flags last)
      source.dataLength.toNat)).take source.dataLength.toNat = source.data

/-- A block that is copied has its data in the place of the new one; one that is written has no more
bytes than what is reserved beyond its own length. -/
def Fits (x : XmitMetadata) (link : Nat) (last : Bool) (bytes : Bytes) : Prop :=
  match XmitMetadata.copied x link with
  | some source => StandsBehind source last
  | none => bytes.length ≤ 100

/-! ## The new preamble -/

def preamble (flags : UInt8) (len : UInt64) : Bytes :=
  8 :: SDNV.encoded flags.toUInt64 ++ SDNV.encoded len

theorem preamble_length (flags : UInt8) (n : Nat) :
    (preamble flags (UInt64.ofNat n)).length = preambleLen flags n := by
  simp only [preamble, preambleLen, SDNV.encodingLen_eq, List.length_append, List.length_cons]
  omega

theorem preamble_length_le (flags : UInt8) (len : UInt64) : (preamble flags len).length ≤ 21 := by
  have hflags := SDNV.encoded_length_le flags.toUInt64
  have hlen := SDNV.encoded_length_le len
  simp only [preamble, List.length_append, List.length_cons, SDNV.maxLength] at *
  omega

def opened (os : Oasys) (flags : UInt8) (len : UInt64) : BlockInfo :=
  { BlockInfo.new os .metadata with
    contents := ⟨preamble flags len, (ScratchBuffer.fresh os 64).spare.drop (preamble flags len).length⟩
    dataLength := len.toUInt32
    dataOffset := UInt32.ofNat (preamble flags len).length }

theorem generatePreamble_new (os : Oasys) (dict : Dictionary) (flags : UInt8) (len : UInt64) :
    BlockProcessor.generatePreamble dict (BlockInfo.new os .metadata) 8 flags.toUInt64 len =
      .ok (opened os flags len, dict) := by
  have hle := preamble_length_le flags len
  have hspare : (ScratchBuffer.fresh os 64).nfree = 64 := ScratchBuffer.fresh_nfree os 64
  have hfield : BlockProcessor.writeEidField (BlockInfo.new os .metadata).eidList flags.toUInt64
      dict = .ok ([], flags.toUInt64, dict) := rfl
  have hpre : (8 : UInt8) :: SDNV.encoded flags.toUInt64 ++ [] ++ SDNV.encoded len =
      preamble flags len := by
    simp [preamble]
  have hroom : (preamble flags len).length ≤ (BlockInfo.new os .metadata).contents.bufLen := by
    change _ ≤ (ScratchBuffer.fresh os 64).bufLen
    rw [ScratchBuffer.bufLen, ScratchBuffer.fresh_filled, List.length_nil, Nat.zero_add]
    change _ ≤ (ScratchBuffer.fresh os 64).nfree
    omega
  have happend : (BlockInfo.new os .metadata).contents.append (preamble flags len) =
      .ok ⟨preamble flags len,
        (ScratchBuffer.fresh os 64).spare.drop (preamble flags len).length⟩ := by
    apply ScratchBuffer.append_of_le
    change _ ≤ (ScratchBuffer.fresh os 64).nfree
    omega
  have hempty : (BlockInfo.new os .metadata).contents.len = 0 := rfl
  rw [BlockProcessor.generatePreamble, hfield, Exec.ok_bind]
  dsimp only
  rw [if_neg (by simp), hpre, Exec.assert_bind hempty, Exec.assert_bind hroom, happend]
  rfl

section Opened

variable (os : Oasys) (flags : UInt8)

theorem opened_dataOffset (n : Nat) :
    (opened os flags (UInt64.ofNat n)).dataOffset.toNat = preambleLen flags n := by
  have hle := preamble_length_le flags (UInt64.ofNat n)
  change (UInt32.ofNat (preamble flags (UInt64.ofNat n)).length).toNat = _
  rw [UInt32.toNat_ofNat_of_lt' (by simp only [UInt32.size]; omega), preamble_length]

theorem opened_dataLength {n : Nat} (hn : n < 2 ^ 32) :
    (opened os flags (UInt64.ofNat n)).dataLength.toNat = n := by
  change (UInt64.ofNat n).toUInt32.toNat = n
  rw [UInt64.toNat_toUInt32, UInt64.toNat_ofNat_of_lt' (by simp only [UInt64.size]; omega)]
  omega

theorem opened_bufLen (n : Nat) : (opened os flags (UInt64.ofNat n)).contents.bufLen = 64 := by
  have hle := preamble_length_le flags (UInt64.ofNat n)
  have hfree : (ScratchBuffer.fresh os 64).spare.length = 64 := ScratchBuffer.fresh_nfree os 64
  simp only [opened, ScratchBuffer.bufLen, List.length_drop, hfree]
  omega

theorem append_opened {n : Nat} {data : Bytes} (hdata : data.length = n) {m : Nat}
    (hm : preambleLen flags n + n ≤ m) :
    ((opened os flags (UInt64.ofNat n)).contents.reserve os m).append data =
      .ok ⟨preamble flags (UInt64.ofNat n) ++ data,
        ((opened os flags (UInt64.ofNat n)).contents.reserve os m).spare.drop data.length⟩ := by
  have hfilled : ((opened os flags (UInt64.ofNat n)).contents.reserve os m).filled =
      preamble flags (UInt64.ofNat n) := by
    rw [ScratchBuffer.reserve_filled]
    rfl
  have hlen : (opened os flags (UInt64.ofNat n)).contents.len = preambleLen flags n := by
    rw [← preamble_length]
    rfl
  have hfree := ScratchBuffer.nfree_le_reserve os (opened os flags (UInt64.ofNat n)).contents m
  rw [ScratchBuffer.append_of_le (by omega), hfilled]

theorem data_opened {n : Nat} {data spare : Bytes} (hdata : data.length = n) (hn : n < 2 ^ 32) :
    BlockInfo.data { opened os flags (UInt64.ofNat n) with
      contents := ⟨preamble flags (UInt64.ofNat n) ++ data, spare⟩ } = data := by
  have hlen := preamble_length flags n
  rw [BlockInfo.data, BlockInfo.dataMemory]
  dsimp only
  rw [opened_dataOffset, opened_dataLength os flags hn, ScratchBuffer.memory, List.append_assoc,
    ← hlen, List.drop_left, ← hdata, List.take_left]

end Opened

theorem parses_iff {os : Oasys} {flags : UInt8} {n : Nat} {data spare : Bytes} {m : MetadataBlock} :
    Parses { opened os flags (UInt64.ofNat n) with
      contents := ⟨preamble flags (UInt64.ofNat n) ++ data, spare⟩ } m ↔
    parseData (BlockInfo.data { opened os flags (UInt64.ofNat n) with
      contents := ⟨preamble flags (UInt64.ofNat n) ++ data, spare⟩ }) = m := by
  generalize hblock : ({ opened os flags (UInt64.ofNat n) with
    contents := ⟨preamble flags (UInt64.ofNat n) ++ data, spare⟩ } : BlockInfo) = block
  have howner : block.owner = .metadata := by
    rw [← hblock]
    rfl
  have hoffset : 0 < block.dataOffset := by
    rw [UInt32.lt_iff_toNat_lt, ← hblock]
    dsimp only
    rw [opened_dataOffset, preambleLen]
    change 0 < _
    omega
  have htype : BlockInfo.type { block with complete := true } = .ok 8 := by
    rw [BlockInfo.type]
    dsimp only
    rw [howner, if_neg (by decide), ← hblock]
    rfl
  have hfinish : ∀ bundle, finish bundle { block with complete := true } =
      .ok ({ bundle with recvMetadata := bundle.recvMetadata ++ [parseData block.data] },
        { block with complete := true, locals := some (parseData block.data) }) := by
    intro bundle
    rw [finish, htype, Exec.ok_bind, Exec.assert_bind (by rfl), Exec.assert_bind rfl,
      Exec.assert_bind hoffset]
    rfl
  constructor
  · intro h
    obtain ⟨bundle, info, hrun, hlocals⟩ := h (Bundle.new 0 0)
    rw [hfinish] at hrun
    rw [← (Prod.mk.inj (Except.ok.inj hrun)).2] at hlocals
    exact Option.some.inj hlocals
  · intro h bundle
    exact ⟨_, _, hfinish bundle, congrArg some h⟩

/-! ## A block that is written -/

def written (ontology : UInt64) (buf : Bytes) : Bytes :=
  SDNV.encoded ontology ++ (SDNV.encoded (UInt64.ofNat buf.length) ++ buf)

theorem written_length (ontology : UInt64) (buf : Bytes) :
    (written ontology buf).length = blockDataLen ontology buf.length := by
  simp only [written, blockDataLen, SDNV.encodingLen_eq, List.length_append]
  omega

theorem parseData_written {ontology : UInt64} {buf : Bytes} (h : buf.length < 2 ^ 32) :
    parseData (written ontology buf) = ⟨false, ontology, buf⟩ := by
  have hlen : (UInt64.ofNat buf.length).toNat = buf.length :=
    UInt64.toNat_ofNat_of_lt' (by simp only [UInt64.size]; omega)
  simp only [parseData, written, SDNV.read_encoded, hlen]
  rw [if_neg (not_not_intro rfl)]

theorem putSdnv_fits {val : UInt64} {out : Bytes} {room : Nat}
    (h : (SDNV.encoded val).length ≤ room) (hroom : room < 2 ^ 32) :
    putSdnv val (out, room) = (out ++ SDNV.encoded val, room - (SDNV.encoded val).length) := by
  rw [putSdnv, SDNV.encode]
  dsimp only
  rw [if_neg (by omega)]
  dsimp only
  congr 1
  omega

theorem writeMetadata_short (os : Oasys) (dict : Dictionary) (flags : UInt8) (ontology : UInt64)
    {buf : Bytes} (h : buf.length ≤ 100) : ∃ block,
    writeMetadata os dict flags ontology buf = .ok (block, dict) ∧
      Parses block ⟨false, ontology, buf⟩ := by
  have hlt : buf.length < 2 ^ 32 := by omega
  have hmod : buf.length % 2 ^ 32 = buf.length := Nat.mod_eq_of_lt hlt
  have hontology := SDNV.encoded_length_le ontology
  have hlength := SDNV.encoded_length_le (UInt64.ofNat buf.length)
  have hsize := written_length ontology buf
  have hdataLen : blockDataLen ontology buf.length = (SDNV.encoded ontology).length +
      (SDNV.encoded (UInt64.ofNat buf.length)).length + buf.length := by
    rw [blockDataLen, SDNV.encodingLen_eq, SDNV.encodingLen_eq]
  rw [SDNV.maxLength] at hontology hlength
  generalize hn : blockDataLen ontology buf.length = n at hsize hdataLen
  have hn32 : n < 2 ^ 32 := by omega
  have hout : putSdnv (UInt64.ofNat buf.length) (putSdnv ontology ([], n % 2 ^ 32)) =
      (SDNV.encoded ontology ++ SDNV.encoded (UInt64.ofNat buf.length), buf.length) := by
    rw [Nat.mod_eq_of_lt hn32, putSdnv_fits (by omega) hn32, List.nil_append,
      putSdnv_fits (by omega) (by omega)]
    congr 1
    omega
  have hbuf := ScratchBuffer.le_bufLen_reserve os (opened os flags (UInt64.ofNat n)).contents
    (preambleLen flags n + n + 100)
  rw [writeMetadata]
  dsimp only
  rw [hmod, hn, generatePreamble_new, Exec.ok_bind]
  dsimp only
  rw [opened_dataOffset, hout, Exec.assert_bind (by omega)]
  dsimp only
  rw [if_neg (Nat.lt_irrefl _), List.take_length, List.append_assoc]
  rw [show SDNV.encoded ontology ++ (SDNV.encoded (UInt64.ofNat buf.length) ++ buf) =
    written ontology buf from rfl, append_opened os flags hsize (by omega), Exec.ok_bind]
  refine ⟨_, rfl, parses_iff.mpr ?_⟩
  rw [data_opened os flags hsize hn32, parseData_written hlt]

theorem length_le_of_writeMetadata {dict : Dictionary} {flags : UInt8} {ontology : UInt64}
    {buf : Bytes} {made : BlockInfo × Dictionary} (hlt : buf.length < 2 ^ 32)
    (h : writeMetadata Oasys.plain dict flags ontology buf = .ok made) : buf.length ≤ 100 := by
  rw [writeMetadata] at h
  dsimp only at h
  rw [Nat.mod_eq_of_lt hlt, generatePreamble_new, Exec.ok_bind] at h
  dsimp only at h
  generalize blockDataLen ontology buf.length = n at h
  obtain ⟨_, hfree, _⟩ := Exec.bind_eq_ok.mp h
  rw [assertThat_eq_ok, opened_dataOffset] at hfree
  have hexact : ((opened Oasys.plain flags (UInt64.ofNat n)).contents.reserve Oasys.plain
      (preambleLen flags n + n + 100)).bufLen = preambleLen flags n + n + 100 := by
    have hbuf := opened_bufLen Oasys.plain flags n
    generalize (opened Oasys.plain flags (UInt64.ofNat n)).contents = contents at hbuf
    rw [ScratchBuffer.reserve, if_pos (by omega)]
    rw [ScratchBuffer.bufLen] at hbuf ⊢
    simp only [Oasys.plain, ScratchBuffer.bufLen, List.length_append, List.length_map,
      List.length_range]
    omega
  omega

/-! ## A block that is copied -/

theorem toUInt64_eq (n : UInt32) : n.toUInt64 = UInt64.ofNat n.toNat := by
  have hn : n.toNat < 2 ^ 32 := n.toNat_lt
  apply UInt64.toNat_inj.mp
  rw [UInt32.toNat_toUInt64, UInt64.toNat_ofNat_of_lt' (by simp only [UInt64.size]; omega)]

theorem copyMetadata_ok (os : Oasys) (dict : Dictionary) (flags : UInt8) {source : BlockInfo}
    {data : Bytes}
    (hdata : data = (source.contents.memory.drop
      (preambleLen flags source.dataLength.toNat)).take source.dataLength.toNat) :
    (data.length = source.dataLength.toNat → ∃ spare,
      copyMetadata os dict flags source = .ok ({ opened os flags source.dataLength.toUInt64 with
        contents := ⟨preamble flags source.dataLength.toUInt64 ++ data, spare⟩ }, dict)) ∧
    (∀ made, copyMetadata os dict flags source = .ok made →
      data.length = source.dataLength.toNat) := by
  have hn : source.dataLength.toNat < 2 ^ 32 := source.dataLength.toNat_lt
  have h64 := toUInt64_eq source.dataLength
  rw [copyMetadata, h64, generatePreamble_new, Exec.ok_bind]
  dsimp only
  rw [opened_dataOffset, opened_dataLength os flags hn, ← hdata]
  constructor
  · intro hlen
    rw [if_neg (by omega), append_opened os flags hlen (by omega), Exec.ok_bind]
    exact ⟨_, rfl⟩
  · intro made h
    by_cases hshort : data.length < source.dataLength.toNat
    · rw [if_pos hshort] at h
      cases h
    · have hle : data.length ≤ source.dataLength.toNat := by
        rw [hdata]
        exact List.length_take_le _ _
      omega

/-! ## The three kinds of blocks -/

theorem generate_received {os : Oasys} {dict : Dictionary} {source : BlockInfo} {m : Metadata}
    {flags : UInt64} (h : Arrived source m) (hflags : source.flags = .ok flags) (link : Nat)
    (last : Bool) : generate os dict ⟨some (source, some m), none⟩ link last =
      match m.modified link with
      | none => copyMetadata os dict (BlockProcessor.copiedFlags flags last) source
      | some buf =>
          writeMetadata os dict (BlockProcessor.copiedFlags flags last) m.ontology buf := by
  have herror : m.error = true → flags &&& blockFlagDiscardBundleOnError = 0 ∧
      flags &&& blockFlagDiscardBlockOnError = 0 := by
    intro htrue
    rw [h.valid] at htrue
    cases htrue
  rw [generate]
  dsimp only
  rw [Exec.assert_bind h.owner, generateReceived, hflags, Exec.ok_bind, Exec.assert_bind herror]

theorem Arrived.data_length {source : BlockInfo} {m : Metadata} (h : Arrived source m) :
    source.data.length = source.dataLength.toNat := by
  have hcomplete := h.complete
  rw [ScratchBuffer.len] at hcomplete
  rw [BlockInfo.data, BlockInfo.dataMemory, ScratchBuffer.memory, List.length_take,
    List.length_drop, List.length_append]
  omega

theorem survives_copied_iff {dict : Dictionary} {source : BlockInfo} {m : Metadata} {link : Nat}
    {last : Bool} (h : Arrived source m) (hmodified : m.modified link = none) :
    (∀ os, Survives os dict ⟨some (source, some m), none⟩ link last m.ontology m.metadata) ↔
      StandsBehind source last := by
  obtain ⟨flags, hflags⟩ := h.flags
  have hrun : ∀ os, generate os dict ⟨some (source, some m), none⟩ link last =
      copyMetadata os dict (BlockProcessor.copiedFlags flags last) source := by
    intro os
    rw [generate_received h hflags, hmodified]
  have hcopied : XmitMetadata.copied ⟨some (source, some m), none⟩ link = some source := by
    simp only [XmitMetadata.copied, hmodified, if_true]
  have hn : source.dataLength.toNat < 2 ^ 32 := source.dataLength.toNat_lt
  have h64 := toUInt64_eq source.dataLength
  constructor
  · intro hall
    obtain ⟨block, dict', hgenerate, -, hsame⟩ := hall Oasys.plain
    rw [hrun] at hgenerate
    obtain ⟨hok, hlen⟩ :=
      copyMetadata_ok Oasys.plain dict (BlockProcessor.copiedFlags flags last) (Eq.refl _)
    obtain ⟨spare, hcopy⟩ := hok (hlen _ hgenerate)
    rw [hcopy] at hgenerate
    have hblock := (Prod.mk.inj (Except.ok.inj hgenerate)).1
    refine ⟨flags, hflags, ?_⟩
    rw [← hsame source hcopied, ← hblock, h64]
    exact (data_opened Oasys.plain _ (hlen _ hcopy) hn).symm
  · intro hstands os
    obtain ⟨flags', hflags', hdata⟩ := hstands
    rw [hflags] at hflags'
    obtain rfl := Except.ok.inj hflags'
    obtain ⟨spare, hcopy⟩ := (copyMetadata_ok os dict _ hdata.symm).1 h.data_length
    refine ⟨_, dict, (hrun os).trans hcopy, ?_, ?_⟩
    · rw [h64, parses_iff, data_opened os _ h.data_length hn, h.parsed]
      cases hm : m.toMetadataBlock with
      | mk error ontology metadata =>
          have herror : error = false := by
            have hvalid := h.valid
            rw [hm] at hvalid
            exact hvalid
          rw [herror]
    · intro source' hsource
      rw [hcopied] at hsource
      rw [← Option.some.inj hsource, h64, data_opened os _ h.data_length hn]

theorem survives_written_iff {dict : Dictionary} {x : XmitMetadata} {link : Nat} {last : Bool}
    {flags : UInt8} {ontology : UInt64} {buf : Bytes} (hlt : buf.length < 2 ^ 32)
    (hrun : ∀ os, generate os dict x link last = writeMetadata os dict flags ontology buf)
    (hcopied : XmitMetadata.copied x link = none) :
    (∀ os, Survives os dict x link last ontology buf) ↔ buf.length ≤ 100 := by
  constructor
  · intro hall
    obtain ⟨block, dict', hgenerate, -⟩ := hall Oasys.plain
    rw [hrun] at hgenerate
    exact length_le_of_writeMetadata hlt hgenerate
  · intro hle os
    obtain ⟨block, hwrite, hparses⟩ := writeMetadata_short os dict flags ontology hle
    refine ⟨block, dict, (hrun os).trans hwrite, hparses, ?_⟩
    intro source hsource
    rw [hcopied] at hsource
    cases hsource

/-- Whatever `reserve` gives beyond what it is asked for, a metadata block survives exactly if it is
copied from where its data also stands, or is written with no more than 100 bytes. -/
theorem survives_iff (dict : Dictionary) (x : XmitMetadata) (link : Nat) (last : Bool)
    (ontology : UInt64) (bytes : Bytes) (h : Sends link x ontology bytes) :
    (∀ os, Survives os dict x link last ontology bytes) ↔ Fits x link last bytes := by
  cases h with
  | @unmodified source m harrived hmodified =>
      have hcopied : XmitMetadata.copied ⟨some (source, some m), none⟩ link = some source := by
        simp only [XmitMetadata.copied, hmodified, if_true]
      rw [survives_copied_iff harrived hmodified, Fits, hcopied]
  | @modified source m _ harrived hmodified hlt =>
      obtain ⟨flags, hflags⟩ := harrived.flags
      have hcopied : XmitMetadata.copied ⟨some (source, some m), none⟩ link = none := by
        simp only [XmitMetadata.copied, hmodified, reduceCtorEq, if_false]
      rw [Fits, hcopied]
      apply survives_written_iff hlt _ hcopied
      · exact BlockProcessor.copiedFlags flags last
      · intro os
        rw [generate_received harrived hflags, hmodified]
  | @generated m hlt =>
      exact survives_written_iff hlt (fun os => rfl) rfl

/-! ## Blocks that were received -/

/-- A received block with the ontology 1, the byte 7 and a preamble of four bytes, of which two are
the length. -/
def longLength : BlockInfo :=
  ⟨.metadata, [], ⟨[8, 0, 0x80, 3, 1, 1, 7], []⟩, 3, 4, true, none⟩

def shortLength : BlockInfo :=
  ⟨.metadata, [], ⟨[8, 0, 3, 1, 1, 7], []⟩, 3, 3, true, none⟩

def sampleMetadata : Metadata := ⟨⟨false, 1, [7]⟩, 0, []⟩

theorem longLength_arrived : Arrived longLength sampleMetadata :=
  ⟨rfl, ⟨0, by decide⟩, rfl, by decide, rfl⟩

theorem shortLength_arrived : Arrived shortLength sampleMetadata :=
  ⟨rfl, ⟨0, by decide⟩, rfl, by decide, rfl⟩

theorem survives_iff_sample :
    Survives Oasys.plain .empty ⟨some (shortLength, some sampleMetadata), none⟩ 0 false 1 [7] :=
  (survives_iff .empty _ 0 false 1 [7] (.unmodified shortLength_arrived rfl)).mpr
    ⟨0, by decide, by decide +kernel⟩ Oasys.plain

/-- The block with the longer preamble arrives with the last byte of its length in front of its
data, and 101 generated bytes do not pass the check. -/
theorem not_survives :
    ¬ (∀ os, Survives os .empty ⟨some (longLength, some sampleMetadata), none⟩ 0 false 1 [7]) ∧
    ¬ (∀ os, Survives os .empty ⟨none, some ⟨⟨false, 1, List.replicate 101 7⟩, 0, []⟩⟩ 0 false 1
      (List.replicate 101 7)) ∧
    ¬ ∀ (dict : Dictionary) (x : XmitMetadata) (link : Nat) (last : Bool) (ontology : UInt64)
      (bytes : Bytes), Sends link x ontology bytes →
      ∀ os, Survives os dict x link last ontology bytes := by
  have hcopy : ¬ (∀ os,
      Survives os .empty ⟨some (longLength, some sampleMetadata), none⟩ 0 false 1 [7]) := by
    intro h
    obtain ⟨flags, hflags, hdata⟩ := (survives_copied_iff longLength_arrived rfl).mp h
    obtain rfl : 0 = flags := Except.ok.inj hflags
    revert hdata
    decide +kernel
  refine ⟨hcopy, ?_, ?_⟩
  · intro h
    have hle := (survives_written_iff (by decide) (fun os => rfl) rfl).mp h
    revert hle
    decide
  · intro h
    exact hcopy (h .empty _ 0 false 1 [7] (.unmodified longLength_arrived rfl))

end MetadataBlockProcessor

end Dtn2
