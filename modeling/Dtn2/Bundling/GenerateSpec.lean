import Dtn2.Bundling.Generate
import Dtn2.Bundling.Parse

/-!
# What the formatter writes

The preamble that `generate_preamble` writes is the one that `consume_preamble` reads, with the
dictionary as it is once all blocks have added their endpoint ids. The primary block is as long
as `get_primary_len` says. `produce` hands out the contents of the blocks one after the other.
-/

namespace Dtn2

open Framework BundleProtocol

/-- An endpoint id that survives being cut into its two strings and put together again. -/
structure Wellformed (os : Oasys) (eid : EndpointID) : Prop where
  named : Dictionary.WellNamed eid
  assign_eq : os.assign (eid.schemeStr ++ EndpointID.colon :: eid.ssp) = eid

/-! ## Endpoint id references -/

def Refers (dict : Dictionary) : List EndpointID → Bytes → Prop
  | [], out => out = []
  | eid :: eids, out => ∃ s t rest,
      out = SDNV.encoded (UInt32.ofNat s).toUInt64 ++ SDNV.encoded (UInt32.ofNat t).toUInt64 ++
        rest ∧ dict.At eid.schemeStr s ∧ dict.At eid.ssp t ∧ Refers dict eids rest

theorem Refers.mono {dict dict' : Dictionary} (hext : dict.dict <+: dict'.dict)
    {eids : List EndpointID} {out : Bytes} (h : Refers dict eids out) : Refers dict' eids out := by
  induction eids generalizing out with
  | nil => exact h
  | cons eid eids ih =>
      obtain ⟨s, t, rest, hout, hs, ht, hrest⟩ := h
      exact ⟨s, t, rest, hout, hs.append hext, ht.append hext, ih hrest⟩

theorem Refers.length_le {dict : Dictionary} {eids : List EndpointID} {out : Bytes}
    (h : Refers dict eids out) : eids.length ≤ out.length := by
  induction eids generalizing out with
  | nil => simp
  | cons eid eids ih =>
      obtain ⟨s, t, rest, hout, -, -, hrest⟩ := h
      have hpos := List.length_pos_of_ne_nil (SDNV.encoded_ne_nil (UInt32.ofNat s).toUInt64)
      have hle := ih hrest
      rw [hout, List.length_append, List.length_append, List.length_cons]
      omega

theorem writeEids_spec {eids : List EndpointID} {dict dict' : Dictionary} {out : Bytes}
    (hd : dict.Sound) (hnames : ∀ eid ∈ eids, Dictionary.WellNamed eid)
    (h : BlockProcessor.writeEids eids dict = .ok (out, dict')) :
    dict'.Sound ∧ dict.dict <+: dict'.dict ∧ (∀ s, dict.Has s → dict'.Has s) ∧
      Refers dict' eids out := by
  induction eids generalizing dict out with
  | nil =>
      have heq : ([] : Bytes) = out ∧ dict = dict' := by
        simpa [BlockProcessor.writeEids, pure, Except.pure] using h
      obtain ⟨rfl, rfl⟩ := heq
      exact ⟨hd, List.prefix_refl _, fun s hs => hs, rfl⟩
  | cons eid eids ih =>
      rw [BlockProcessor.writeEids] at h
      obtain ⟨mid, hmid, h⟩ := Exec.bind_eq_ok.mp h
      obtain ⟨offsets, hoff, h⟩ := Exec.bind_eq_ok.mp h
      have hname := hnames eid (by simp)
      obtain ⟨hsound, hpre, -, hkeep⟩ := Dictionary.addEid_spec hd hname hmid
      cases offsets with
      | none => cases h
      | some st =>
          obtain ⟨s, t⟩ := st
          obtain ⟨⟨rest, last⟩, hrest, h⟩ := Exec.bind_eq_ok.mp h
          obtain ⟨hs, ht⟩ := Dictionary.getOffsets_spec hsound hname hoff
          simp only [pure, Except.pure, Except.ok.injEq, Prod.mk.injEq] at h
          obtain ⟨rfl, rfl⟩ := h
          obtain ⟨hsound', hpre', hkeep', hrefers⟩ :=
            ih hsound (fun e he => hnames e (List.mem_cons_of_mem _ he)) hrest
          exact ⟨hsound', hpre.trans hpre', fun x hx => hkeep' x (hkeep x hx), s, t, rest, rfl,
            hs.append hpre', ht.append hpre', hrefers⟩

def Dictionary.installed (dict : Dictionary) : Dictionary :=
  ⟨dict.dict, UInt32.ofNat dict.dict.length⟩

theorem Dictionary.Sound.installed_length {dict : Dictionary} (h : dict.Sound) :
    dict.installed.dictLength.toNat = dict.installed.dict.length := by
  have hlt := dict.dictLength.toNat_lt
  have hle := h.sized
  change (UInt32.ofNat dict.dict.length).toNat = dict.dict.length
  rw [UInt32.toNat_ofNat', Nat.mod_eq_of_lt (by omega)]

theorem extractEid_of_at (os : Oasys) {dict : Dictionary} (eid : EndpointID) {e : EndpointID}
    {s t : Nat}
    (hlen : dict.dictLength.toNat = dict.dict.length) (hform : Wellformed os e)
    (hs : dict.At e.schemeStr s) (ht : dict.At e.ssp t) :
    (dict.extractEid os eid (UInt32.ofNat s).toUInt64 (UInt32.ofNat t).toUInt64).2 = e := by
  have hcut : ∀ n : UInt32, n.toUInt64.toUInt32 = n := by
    intro n
    simp
  rw [Dictionary.extractEid, hcut, hcut, Dictionary.extractEid32_of_at os hlen hform.named hs ht,
    hform.assign_eq]

theorem readEids_of_refers (os : Oasys) {dict : Dictionary}
    (hlen : dict.dictLength.toNat = dict.dict.length) {eids : List EndpointID} {out : Bytes}
    (hforms : ∀ eid ∈ eids, Wellformed os eid) (h : Refers dict eids out) (rest : Bytes) :
    readEids os dict eids.length (out ++ rest) = some (eids, rest) := by
  induction eids generalizing out with
  | nil =>
      have hout : out = [] := h
      rw [hout]
      rfl
  | cons eid eids ih =>
      obtain ⟨s, t, tail, rfl, hs, ht, htail⟩ := h
      have hrec := ih (fun e he => hforms e (List.mem_cons_of_mem _ he)) htail
      have hext := extractEid_of_at os .default hlen (hforms eid (by simp)) hs ht
      rw [List.length_cons, readEids]
      simp only [List.append_assoc]
      refine (Reader.bind_eq_some _ _ _ _ _).mpr ⟨_, _, SDNV.read_encoded _ _, ?_⟩
      refine (Reader.bind_eq_some _ _ _ _ _).mpr ⟨_, _, SDNV.read_encoded _ _, ?_⟩
      refine (Reader.bind_eq_some _ _ _ _ _).mpr ⟨_, _, hrec, ?_⟩
      rw [hext]
      rfl

/-! ## Preambles -/

def preambleBytes (type : UInt8) (flags : UInt64) (eidField : Bytes) (len : UInt64) : Bytes :=
  type :: SDNV.encoded flags ++ eidField ++ SDNV.encoded len

def RefersField (dict : Dictionary) (flags : UInt64) (eids : List EndpointID) (field : Bytes) :
    Prop :=
  (eids = [] ∧ flags &&& blockFlagEidRefs = 0 ∧ field = []) ∨
    (flags &&& blockFlagEidRefs ≠ 0 ∧ eids.length < 2 ^ 32 ∧ ∃ out,
      field = SDNV.encoded (UInt32.ofNat eids.length).toUInt64 ++ out ∧ Refers dict eids out)

theorem RefersField.mono {dict dict' : Dictionary} (hext : dict.dict <+: dict'.dict)
    {flags : UInt64} {eids : List EndpointID} {field : Bytes}
    (h : RefersField dict flags eids field) : RefersField dict' flags eids field := by
  rcases h with h | ⟨hflags, hlt, out, hfield, hrefers⟩
  · exact Or.inl h
  · exact Or.inr ⟨hflags, hlt, out, hfield, hrefers.mono hext⟩

theorem scanPreamble_preambleBytes (os : Oasys) {dict : Dictionary}
    (hlen : dict.dictLength.toNat = dict.dict.length) {eids : List EndpointID} {field : Bytes}
    {flags : UInt64} (hforms : ∀ eid ∈ eids, Wellformed os eid)
    (h : RefersField dict flags eids field) (type : UInt8) (len : UInt64) (rest : Bytes) :
    scanPreamble os dict (preambleBytes type flags field len ++ rest) =
      some (⟨flags, eids, len⟩, rest) := by
  have hbytes : (preambleBytes type flags field len ++ rest).drop 1 =
      SDNV.encoded flags ++ (field ++ (SDNV.encoded len ++ rest)) := by
    simp [preambleBytes, List.append_assoc]
  have hrefs : readEidRefs os dict flags (field ++ (SDNV.encoded len ++ rest)) =
      some (eids, SDNV.encoded len ++ rest) := by
    unfold readEidRefs
    rcases h with ⟨rfl, hflags, rfl⟩ | ⟨hflags, hlt, out, rfl, hrefers⟩
    · rw [if_pos hflags]
      rfl
    · have hcount : (UInt32.ofNat eids.length).toUInt64.toNat = eids.length := by
        rw [UInt32.toNat_toUInt64, UInt32.toNat_ofNat', Nat.mod_eq_of_lt hlt]
      rw [if_neg hflags, List.append_assoc]
      refine (Reader.bind_eq_some _ _ _ _ _).mpr ⟨_, _, SDNV.read_encoded _ _, ?_⟩
      rw [hcount, if_pos hlt]
      exact readEids_of_refers os hlen hforms hrefers _
  rw [scanPreamble, hbytes, readPreamble]
  refine (Reader.bind_eq_some _ _ _ _ _).mpr ⟨_, _, SDNV.read_encoded _ _, ?_⟩
  refine (Reader.bind_eq_some _ _ _ _ _).mpr ⟨_, _, hrefs, ?_⟩
  refine (Reader.bind_eq_some _ _ _ _ _).mpr ⟨_, _, SDNV.read_encoded _ _, ?_⟩
  rfl

private theorem or_eidRefs_ne (flags : UInt64) : (flags ||| blockFlagEidRefs) &&& blockFlagEidRefs ≠ 0 := by
  have habsorb : (flags ||| blockFlagEidRefs) &&& blockFlagEidRefs = blockFlagEidRefs := by
    apply UInt64.toBitVec_inj.mp
    simp only [UInt64.toBitVec_and, UInt64.toBitVec_or]
    ext i
    simp
    tauto
  rw [habsorb]
  decide

/-- The flags that `generate_preamble` writes. -/
def writtenFlags (eids : List EndpointID) (flags : UInt64) : UInt64 :=
  if eids = [] then flags else flags ||| blockFlagEidRefs

theorem generatePreamble_spec {dict dict' : Dictionary} {block block' : BlockInfo} {type : UInt8}
    {flags len : UInt64} (hd : dict.Sound)
    (hnames : ∀ eid ∈ block.eidList, Dictionary.WellNamed eid)
    (hflags : block.eidList = [] → flags &&& blockFlagEidRefs = 0)
    (h : BlockProcessor.generatePreamble dict block type flags len = .ok (block', dict')) :
    dict'.Sound ∧ dict.dict <+: dict'.dict ∧ (∀ s, dict.Has s → dict'.Has s) ∧
      ∃ field, RefersField dict' (writtenFlags block.eidList flags) block.eidList field ∧
        (preambleBytes type (writtenFlags block.eidList flags) field len).length ≤
          block.contents.bufLen ∧ block.contents.filled = [] ∧
        block' = { block with
          contents := ⟨preambleBytes type (writtenFlags block.eidList flags) field len,
            block.contents.spare.drop
              (preambleBytes type (writtenFlags block.eidList flags) field len).length⟩
          dataLength := len.toUInt32
          dataOffset := UInt32.ofNat
            (preambleBytes type (writtenFlags block.eidList flags) field len).length } := by
  rw [BlockProcessor.generatePreamble] at h
  obtain ⟨⟨field, flags', mid⟩, hfield, h⟩ := Exec.bind_eq_ok.mp h
  simp only at h
  split at h
  · cases h
  · rename_i hsmall
    obtain ⟨_, hempty, h⟩ := Exec.bind_eq_ok.mp h
    obtain ⟨_, hroom, h⟩ := Exec.bind_eq_ok.mp h
    obtain ⟨contents, hcontents, h⟩ := Exec.bind_eq_ok.mp h
    simp only [pure, Except.pure, Except.ok.injEq, Prod.mk.injEq] at h
    obtain ⟨hblock, rfl⟩ := h
    rw [assertThat_eq_ok] at hempty hroom
    have hfilled : block.contents.filled = [] := List.length_eq_zero_iff.mp hempty
    obtain ⟨-, rfl⟩ := ScratchBuffer.append_eq_ok.mp hcontents
    have hout : mid.Sound ∧ dict.dict <+: mid.dict ∧ (∀ s, dict.Has s → mid.Has s) ∧
        flags' = writtenFlags block.eidList flags ∧
        RefersField mid (writtenFlags block.eidList flags) block.eidList field := by
      unfold writtenFlags
      rw [BlockProcessor.writeEidField] at hfield
      by_cases hnil : block.eidList = []
      · rw [if_pos hnil] at hfield
        simp only [pure, Except.pure, Except.ok.injEq, Prod.mk.injEq] at hfield
        obtain ⟨rfl, rfl, rfl⟩ := hfield
        rw [if_pos hnil]
        exact ⟨hd, List.prefix_refl _, fun s hs => hs, rfl, Or.inl ⟨hnil, hflags hnil, rfl⟩⟩
      · rw [if_neg hnil] at hfield
        obtain ⟨⟨out, last⟩, hwrite, hfield⟩ := Exec.bind_eq_ok.mp hfield
        simp only [pure, Except.pure, Except.ok.injEq, Prod.mk.injEq] at hfield
        obtain ⟨rfl, rfl, rfl⟩ := hfield
        obtain ⟨hsound, hpre, hkeep, hrefers⟩ := writeEids_spec hd hnames hwrite
        have hlen := hrefers.length_le
        rw [if_neg hnil]
        refine ⟨hsound, hpre, hkeep, rfl, Or.inr ⟨or_eidRefs_ne flags, ?_, out, rfl, hrefers⟩⟩
        rw [List.length_append] at hsmall
        omega
    obtain ⟨hsound, hpre, hkeep, rfl, hrefers⟩ := hout
    refine ⟨hsound, hpre, hkeep, field, hrefers, hroom, hfilled, ?_⟩
    rw [← hblock, hfilled]
    rfl

/-! ## Blocks with data -/

/-- A generated block: its preamble and, unless it is the payload block, its data. -/
structure Formed (dict : Dictionary) (x : BlockInfo) (type : UInt8) (flags : UInt64)
    (field data : Bytes) : Prop where
  refers : RefersField dict flags x.eidList field
  pre_le : (preambleBytes type flags field (UInt64.ofNat data.length)).length ≤ 64
  offset : x.dataOffset = UInt32.ofNat
    (preambleBytes type flags field (UInt64.ofNat data.length)).length
  length : x.dataLength = UInt32.ofNat data.length
  small : data.length < 2 ^ 32
  no_wrap : x.owner ≠ .payload →
    (preambleBytes type flags field (UInt64.ofNat data.length)).length + data.length < 2 ^ 32
  filled : x.contents.filled = kept x.owner
    (preambleBytes type flags field (UInt64.ofNat data.length) ++ data)
    (preambleBytes type flags field (UInt64.ofNat data.length)).length

theorem Formed.mono {dict dict' : Dictionary} (hext : dict.dict <+: dict'.dict) {x : BlockInfo}
    {type : UInt8} {flags : UInt64} {field data : Bytes}
    (h : Formed dict x type flags field data) : Formed dict' x type flags field data :=
  { h with refers := h.refers.mono hext }

/-- Copying the data of a block behind its preamble. A length that wraps around leaves no space
for the data. -/
theorem copyData_spec {os : Oasys} {block block' source : BlockInfo} {start : Nat}
    (hoff : block.contents.filled.length = block.dataOffset.toNat)
    (hcap : block.contents.bufLen = 64)
    (h : BlockProcessor.copyData os block source start = .ok block') :
    ∃ data contents, data.length = block.dataLength.toNat ∧
      block.dataOffset.toNat + block.dataLength.toNat < 2 ^ 32 ∧
      contents.filled = block.contents.filled ++ data ∧
      block' = { block with contents := contents } := by
  rw [BlockProcessor.copyData] at h
  split at h
  · cases h
  · rename_i henough
    obtain ⟨contents, hcontents, h⟩ := Exec.bind_eq_ok.mp h
    obtain ⟨hfree, rfl⟩ := ScratchBuffer.append_eq_ok.mp hcontents
    have hlen : ((source.contents.memory.drop start).take block.dataLength.toNat).length =
        block.dataLength.toNat := by
      have hle := List.length_take_le block.dataLength.toNat (source.contents.memory.drop start)
      omega
    have hoff64 : block.contents.filled.length ≤ 64 := by
      rw [ScratchBuffer.bufLen] at hcap
      omega
    have hlt := block.dataLength.toNat_lt
    have hfull : block.fullLength.toNat =
        (block.dataOffset.toNat + block.dataLength.toNat) % 2 ^ 32 := by
      rw [BlockInfo.fullLength, UInt32.toNat_add]
    have hnowrap : block.dataOffset.toNat + block.dataLength.toNat < 2 ^ 32 := by
      by_contra hwrap
      -- the wrapped length is small, so the buffer has not grown
      have hsame : block.contents.reserve os block.fullLength.toNat = block.contents := by
        rw [ScratchBuffer.reserve, if_neg (by rw [hcap, hfull]; omega)]
      rw [hsame, ScratchBuffer.nfree, hlen] at hfree
      rw [ScratchBuffer.bufLen] at hcap
      omega
    simp only [pure, Except.pure, Except.ok.injEq] at h
    refine ⟨_, _, hlen, hnowrap, ?_, h.symm⟩
    rw [ScratchBuffer.shrink_filled, ScratchBuffer.reserve_filled, hfull,
      Nat.mod_eq_of_lt hnowrap, List.take_of_length_le (by rw [List.length_append, hlen]; omega)]

private theorem uint8_forall {p : UInt8 → Prop} (h : ∀ i : Fin 256, p (UInt8.ofNat i.val))
    (b : UInt8) : p b := by
  have hb := h ⟨b.toNat, b.toNat_lt⟩
  simpa using hb

theorem copiedFlags_eidRefs (flags : UInt64) (last : Bool) (h : flags &&& blockFlagEidRefs = 0) :
    (BlockProcessor.copiedFlags flags last).toUInt64 &&& blockFlagEidRefs = 0 ∧
      (BlockProcessor.copiedFlags flags last |||
        blockFlagForwardedUnprocessed.toUInt8).toUInt64 &&& blockFlagEidRefs = 0 := by
  have hlow : flags.toUInt8 &&& 0x40 = 0 := by
    have hcut := congrArg UInt64.toUInt8 h
    rw [UInt64.toUInt8_and] at hcut
    exact hcut
  unfold BlockProcessor.copiedFlags
  generalize flags.toUInt8 = b at hlow
  revert hlow
  cases last with
  | true =>
      exact uint8_forall (p := fun b => b &&& 0x40 = 0 →
        (b ||| blockFlagLastBlock.toUInt8).toUInt64 &&& blockFlagEidRefs = 0 ∧
        ((b ||| blockFlagLastBlock.toUInt8) |||
          blockFlagForwardedUnprocessed.toUInt8).toUInt64 &&& blockFlagEidRefs = 0)
        (by decide +kernel) b
  | false =>
      exact uint8_forall (p := fun b => b &&& 0x40 = 0 →
        (b &&& ~~~ blockFlagLastBlock.toUInt8).toUInt64 &&& blockFlagEidRefs = 0 ∧
        ((b &&& ~~~ blockFlagLastBlock.toUInt8) |||
          blockFlagForwardedUnprocessed.toUInt8).toUInt64 &&& blockFlagEidRefs = 0)
        (by decide +kernel) b

theorem formed_of_copyData {os : Oasys} {dict dict' : Dictionary} {owner : Processor}
    {eids : List EndpointID} {block block' source : BlockInfo} {type : UInt8} {flags : UInt64}
    {start : Nat} {len : UInt32} (hd : dict.Sound) (howner : owner ≠ .payload)
    (hnames : ∀ eid ∈ eids, Dictionary.WellNamed eid)
    (hflags : eids = [] → flags &&& blockFlagEidRefs = 0)
    (hpre : BlockProcessor.generatePreamble dict { BlockInfo.new os owner with eidList := eids }
      type flags len.toUInt64 = .ok (block, dict'))
    (hcopy : BlockProcessor.copyData os block source start = .ok block') :
    dict'.Sound ∧ dict.dict <+: dict'.dict ∧ (∀ s, dict.Has s → dict'.Has s) ∧
      block'.owner = owner ∧ block'.eidList = eids ∧
      ∃ flags' field data, Formed dict' block' type flags' field data := by
  obtain ⟨hsound, hext, hkeep, field, hrefers, hroom, -, hblock⟩ :=
    generatePreamble_spec hd hnames hflags hpre
  have hbuf : (ScratchBuffer.fresh os 64).bufLen = 64 := by
    simp [ScratchBuffer.bufLen, ScratchBuffer.fresh]
  have hroom' : (preambleBytes type (writtenFlags eids flags) field len.toUInt64).length ≤ 64 := by
    rw [← hbuf]
    exact hroom
  have hoff : block.dataOffset.toNat =
      (preambleBytes type (writtenFlags eids flags) field len.toUInt64).length := by
    rw [hblock]
    change (UInt32.ofNat (preambleBytes type (writtenFlags eids flags) field
      len.toUInt64).length).toNat = _
    rw [UInt32.toNat_ofNat', Nat.mod_eq_of_lt (by omega)]
  have hfilled : block.contents.filled =
      preambleBytes type (writtenFlags eids flags) field len.toUInt64 := by
    rw [hblock]
  have hlen : block.dataLength = len := by
    rw [hblock]
    simp
  have hcap : block.contents.bufLen = 64 := by
    rw [ScratchBuffer.bufLen, hfilled, hblock]
    simp only [BlockInfo.new, ScratchBuffer.fresh, List.length_drop, List.length_map,
      List.length_range]
    omega
  obtain ⟨data, contents, hdata, hnowrap, hcontents, hblock'⟩ :=
    copyData_spec (by rw [hfilled, hoff]) hcap hcopy
  rw [hlen] at hdata hnowrap
  have h64 : UInt64.ofNat data.length = len.toUInt64 := by
    rw [hdata]
    apply UInt64.toNat_inj.mp
    have hlt := len.toNat_lt
    rw [UInt64.toNat_ofNat', UInt32.toNat_toUInt64, Nat.mod_eq_of_lt (by omega)]
  have howner' : block'.owner = owner := by rw [hblock', hblock]; rfl
  have heids' : block'.eidList = eids := by rw [hblock', hblock]
  refine ⟨hsound, hext, hkeep, howner', heids', writtenFlags eids flags, field, data, ?_⟩
  constructor
  · rw [heids']
    exact hrefers
  · rw [h64]
    exact hroom'
  · rw [h64, hblock', hblock]
  · rw [hdata, hblock']
    change block.dataLength = _
    rw [hlen, UInt32.ofNat_toNat]
  · rw [hdata]
    exact len.toNat_lt
  · intro _
    rw [h64, hdata, ← hoff]
    exact hnowrap
  · rw [h64, howner', kept, if_neg howner, hblock', ← hfilled]
    exact hcontents

/-! ## The pass over the transmit list -/

/-- An extension block that is passed on, that the receiver has no processor for, and whose flags
announce endpoint ids only where it has some to write. -/
structure PassedOn (params : Params) (os : Oasys) (entry : Prepared) : Prop where
  generator : entry.generator = .unknown ∨ entry.generator = .api
  type : ∀ source t, entry.source = some source → source.type = .ok t →
    findProcessor params (UInt8.ofNat t) = .unknown
  eids : ∀ source, entry.source = some source → ∀ eid ∈ source.eidList, Wellformed os eid
  refs : ∀ source flags, entry.source = some source → source.flags = .ok flags →
    flags &&& blockFlagEidRefs ≠ 0 → entry.generator = .unknown ∧ source.eidList ≠ []

/-- A generated block that the receiver treats as an unknown block or as the payload block. -/
structure Wired (params : Params) (os : Oasys) (bundle : Bundle) (dict : Dictionary)
    (x : BlockInfo) (type : UInt8) (flags : UInt64) (field data : Bytes) : Prop where
  formed : Formed dict x type flags field data
  eids : ∀ eid ∈ x.eidList, Wellformed os eid
  owner : (findProcessor params type = .unknown ∧ (x.owner = .unknown ∨ x.owner = .api)) ∨
    (type = 1 ∧ x.owner = .payload ∧ data = bundle.payload.data)
  short : x.owner = .payload → x.dataOffset.toNat ≤ 7

/-- What a pass over a part of the transmit list does to the dictionary. -/
structure Grows (dict dict' : Dictionary) : Prop where
  sound : dict'.Sound
  ext : dict.dict <+: dict'.dict
  keeps : ∀ s, dict.Has s → dict'.Has s

theorem Grows.trans {a b c : Dictionary} (h : Grows a b) (h' : Grows b c) : Grows a c :=
  ⟨h'.sound, h.ext.trans h'.ext, fun s hs => h'.keeps s (h.keeps s hs)⟩

theorem Wired.mono {params : Params} {os : Oasys} {bundle : Bundle} {dict dict' : Dictionary}
    {x : BlockInfo} {type : UInt8} {flags : UInt64} {field data : Bytes}
    (h : Wired params os bundle dict x type flags field data) (hg : Grows dict dict') :
    Wired params os bundle dict' x type flags field data :=
  { h with formed := h.formed.mono hg.ext }

section Pass

variable {params : Params} {os : Oasys} {bundle : Bundle} {dict dict' : Dictionary}

private theorem unknown_generate {entry : Prepared} {block : BlockInfo} {last : Bool}
    (hd : dict.Sound) (hp : PassedOn params os entry)
    (h : UnknownBlockProcessor.generate os dict entry.source last = .ok (block, dict')) :
    Grows dict dict' ∧ block.owner = .unknown ∧
      ∃ type flags field data, Wired params os bundle dict' block type flags field data := by
  unfold UnknownBlockProcessor.generate at h
  split at h
  · cases h
  · rename_i source hsource
    obtain ⟨_, _, h⟩ := Exec.bind_eq_ok.mp h
    obtain ⟨flags, hflags, h⟩ := Exec.bind_eq_ok.mp h
    obtain ⟨_, _, h⟩ := Exec.bind_eq_ok.mp h
    obtain ⟨_, _, h⟩ := Exec.bind_eq_ok.mp h
    obtain ⟨_, _, h⟩ := Exec.bind_eq_ok.mp h
    obtain ⟨_, _, h⟩ := Exec.bind_eq_ok.mp h
    obtain ⟨type, htype, h⟩ := Exec.bind_eq_ok.mp h
    obtain ⟨⟨mid, dict''⟩, hpre, h⟩ := Exec.bind_eq_ok.mp h
    obtain ⟨_, _, h⟩ := Exec.bind_eq_ok.mp h
    obtain ⟨final, hcopy, h⟩ := Exec.bind_eq_ok.mp h
    simp only [pure, Except.pure, Except.ok.injEq, Prod.mk.injEq] at h
    obtain ⟨rfl, rfl⟩ := h
    have hplain : source.eidList = [] →
        (BlockProcessor.copiedFlags flags last |||
          blockFlagForwardedUnprocessed.toUInt8).toUInt64 &&& blockFlagEidRefs = 0 := by
      intro hnil
      have hzero : flags &&& blockFlagEidRefs = 0 := by
        by_contra hne
        exact (hp.refs source flags hsource hflags hne).2 hnil
      exact (copiedFlags_eidRefs flags last hzero).2
    have heids := hp.eids source hsource
    obtain ⟨hsound, hext, hkeep, howner, hlist, flags', field, data, hformed⟩ :=
      formed_of_copyData hd (by decide) (fun e he => (heids e he).named) hplain hpre hcopy
    refine ⟨⟨hsound, hext, hkeep⟩, howner, UInt8.ofNat type, flags', field, data, hformed, ?_, ?_,
      ?_⟩
    · rw [hlist]
      exact heids
    · exact Or.inl ⟨hp.type source type hsource htype, Or.inl howner⟩
    · rw [howner]
      simp

private theorem api_generate {entry : Prepared} {block : BlockInfo} {last : Bool}
    (hd : dict.Sound) (hp : PassedOn params os entry) (hgen : entry.generator = .api)
    (h : APIBlockProcessor.generate os dict entry.source last = .ok (block, dict')) :
    Grows dict dict' ∧ block.owner = .api ∧
      ∃ type flags field data, Wired params os bundle dict' block type flags field data := by
  unfold APIBlockProcessor.generate at h
  split at h
  · cases h
  · rename_i source hsource
    obtain ⟨_, _, h⟩ := Exec.bind_eq_ok.mp h
    obtain ⟨_, _, h⟩ := Exec.bind_eq_ok.mp h
    obtain ⟨_, _, h⟩ := Exec.bind_eq_ok.mp h
    obtain ⟨flags, hflags, h⟩ := Exec.bind_eq_ok.mp h
    obtain ⟨type, htype, h⟩ := Exec.bind_eq_ok.mp h
    obtain ⟨⟨mid, dict''⟩, hpre, h⟩ := Exec.bind_eq_ok.mp h
    obtain ⟨_, _, h⟩ := Exec.bind_eq_ok.mp h
    obtain ⟨_, _, h⟩ := Exec.bind_eq_ok.mp h
    obtain ⟨final, hcopy, h⟩ := Exec.bind_eq_ok.mp h
    simp only [pure, Except.pure, Except.ok.injEq, Prod.mk.injEq] at h
    obtain ⟨rfl, rfl⟩ := h
    have hzero : flags &&& blockFlagEidRefs = 0 := by
      by_contra hne
      have hother := (hp.refs source flags hsource hflags hne).1
      rw [hgen] at hother
      cases hother
    have hnone : ({ BlockInfo.new os .api with eidList := [] } : BlockInfo) = BlockInfo.new os .api :=
      rfl
    rw [← hnone] at hpre
    obtain ⟨hsound, hext, hkeep, howner, hlist, flags', field, data, hformed⟩ :=
      formed_of_copyData hd (by decide) (by simp)
        (fun _ => (copiedFlags_eidRefs flags last hzero).1) hpre hcopy
    refine ⟨⟨hsound, hext, hkeep⟩, howner, UInt8.ofNat type, flags', field, data, hformed, ?_, ?_,
      ?_⟩
    · rw [hlist]
      simp
    · exact Or.inl ⟨hp.type source type hsource htype, Or.inr howner⟩
    · rw [howner]
      simp

private theorem payload_preamble (last : Bool) {field : Bytes}
    (hsmall : bundle.payload.length < 2 ^ 32)
    (hrefers : RefersField dict' (writtenFlags [] (if last then blockFlagLastBlock else 0)) []
      field) :
    (preambleBytes 1 (writtenFlags [] (if last then blockFlagLastBlock else 0)) field
      (UInt64.ofNat bundle.payload.length)).length ≤ 7 := by
  have hflags : writtenFlags [] (if last then blockFlagLastBlock else 0) &&& blockFlagEidRefs = 0 ∧
      (SDNV.encoded (writtenFlags [] (if last then blockFlagLastBlock else 0))).length = 1 := by
    cases last <;> decide +kernel
  have hfield : field = [] := by
    rcases hrefers with ⟨-, -, hnil⟩ | ⟨hset, -⟩
    · exact hnil
    · exact absurd hflags.1 hset
  have hlen : (SDNV.encoded (UInt64.ofNat bundle.payload.length)).length ≤ 5 := by
    rw [SDNV.encoded_length, UInt64.toNat_ofNat', Nat.mod_eq_of_lt (by omega)]
    have hlog : Nat.log 128 bundle.payload.length < 5 :=
      Nat.log_lt_of_lt_pow' (by decide) (by omega)
    omega
  simp only [preambleBytes, hfield, List.length_append, List.length_cons, List.length_nil, hflags.2]
  omega

private theorem payload_generate {block : BlockInfo} {last : Bool} (hd : dict.Sound)
    (hsmall : bundle.payload.length < 2 ^ 32)
    (h : PayloadBlockProcessor.generate os bundle dict last = .ok (block, dict')) :
    Grows dict dict' ∧ block.owner = .payload ∧
      ∃ type flags field data, Wired params os bundle dict' block type flags field data := by
  have hflags : (if last then blockFlagLastBlock else 0) &&& blockFlagEidRefs = 0 := by
    cases last <;> decide
  rw [PayloadBlockProcessor.generate] at h
  obtain ⟨hsound, hext, hkeep, field, hrefers, hroom, -, hblock⟩ :=
    generatePreamble_spec hd (by simp [BlockInfo.new]) (fun _ => hflags) h
  have hbuf : (BlockInfo.new os .payload).contents.bufLen = 64 := by
    simp [BlockInfo.new, ScratchBuffer.bufLen, ScratchBuffer.fresh]
  rw [hbuf] at hroom
  have howner : block.owner = .payload := by rw [hblock]; rfl
  have hlist : block.eidList = [] := by rw [hblock]; rfl
  refine ⟨⟨hsound, hext, hkeep⟩, howner, 1,
    writtenFlags (BlockInfo.new os .payload).eidList (if last then blockFlagLastBlock else 0),
    field, bundle.payload.data, ?_, ?_, Or.inr ⟨rfl, howner, rfl⟩, fun _ => ?_⟩
  · constructor
    · rw [hlist]
      exact hrefers
    · exact hroom
    · rw [hblock]
      rfl
    · rw [hblock]
      change (UInt64.ofNat bundle.payload.data.length).toUInt32 = _
      simp
    · exact hsmall
    · intro hne
      exact absurd howner hne
    · rw [howner, kept_payload, List.take_left, hblock]
      rfl
  · rw [hlist]
    simp
  · have hshort := payload_preamble last hsmall hrefers
    rw [hblock]
    change (UInt32.ofNat (preambleBytes 1 (writtenFlags [] (if last then blockFlagLastBlock else 0))
      field (UInt64.ofNat bundle.payload.length)).length).toNat ≤ 7
    rw [UInt32.toNat_ofNat']
    omega

def LastMarked : List XmitBlock → Prop
  | [] => True
  | x :: xs => (∃ flags, x.flags = .ok flags ∧
      decide (flags &&& blockFlagLastBlock ≠ 0) = xs.isEmpty) ∧ LastMarked xs

theorem generateEach_spec {entries : List Prepared} {xs : List XmitBlock} (hd : dict.Sound)
    (hsmall : bundle.payload.length < 2 ^ 32)
    (hentries : ∀ entry ∈ entries, entry.generator = .payload ∨ PassedOn params os entry)
    (h : generateEach os bundle entries dict = .ok (xs, dict')) :
    Grows dict dict' ∧ LastMarked xs ∧
      xs.map (fun x => x.owner) = entries.map (fun entry => entry.generator.owner) ∧
      ∀ x ∈ xs, ∃ type flags field data,
        Wired params os bundle dict' x.toBlockInfo type flags field data := by
  induction entries generalizing dict xs with
  | nil =>
      have heq : ([] : List XmitBlock) = xs ∧ dict = dict' := by
        simpa [generateEach, pure, Except.pure] using h
      obtain ⟨rfl, rfl⟩ := heq
      exact ⟨⟨hd, List.prefix_refl _, fun s hs => hs⟩, trivial, rfl, by simp⟩
  | cons entry entries ih =>
      rw [generateEach] at h
      obtain ⟨⟨block, mid⟩, hblock, h⟩ := Exec.bind_eq_ok.mp h
      obtain ⟨flags, hflags, h⟩ := Exec.bind_eq_ok.mp h
      obtain ⟨_, hlast, h⟩ := Exec.bind_eq_ok.mp h
      obtain ⟨⟨xs', last⟩, hrest, h⟩ := Exec.bind_eq_ok.mp h
      simp only [pure, Except.pure, Except.ok.injEq, Prod.mk.injEq] at h
      obtain ⟨rfl, rfl⟩ := h
      rw [assertThat_eq_ok] at hlast
      have hthis : Grows dict mid ∧ block.owner = entry.generator.owner ∧
          ∃ type flags field data,
            Wired params os bundle mid block type flags field data := by
        unfold generate at hblock
        rcases hentries entry (by simp) with hpay | hpass
        · rw [hpay] at hblock ⊢
          exact payload_generate hd hsmall hblock
        · rcases hpass.generator with hg | hg
          · rw [hg] at hblock ⊢
            exact unknown_generate hd hpass hblock
          · rw [hg] at hblock ⊢
            exact api_generate hd hpass hg hblock
      obtain ⟨hgrow, howner, type, fl, field, data, hwired⟩ := hthis
      obtain ⟨hgrow', hmarked, howners, hall⟩ := ih hgrow.sound
        (fun e he => hentries e (List.mem_cons_of_mem _ he)) hrest
      have hempty : entries.isEmpty = xs'.isEmpty := by
        have hlen := congrArg List.length howners
        rw [List.length_map, List.length_map] at hlen
        cases entries <;> cases xs' <;> simp_all
      refine ⟨hgrow.trans hgrow', ⟨⟨flags, hflags, by rw [hlast, hempty]⟩, hmarked⟩, ?_, ?_⟩
      · simp only [List.map_cons, howner, howners]
      · intro x hx
        rcases List.mem_cons.mp hx with rfl | hx
        · exact ⟨type, fl, field, data, hwired.mono hgrow'⟩
        · exact hall x hx

end Pass

end Dtn2
