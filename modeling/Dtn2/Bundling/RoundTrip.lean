import Dtn2.Bundling.Arrival
import Dtn2.Bundling.ProduceSpec
import Dtn2.Bundling.PrimarySpec

/-!
# From one node to the next

A bundle that `generate_blocks` and `produce` turn into bytes is the bundle that `consume` builds
from them, however the bytes are cut on the way.
-/

namespace Dtn2

open Framework BundleProtocol

/-! ## Blocks on the wire -/

/-- A received block has the type, the flags, the endpoint ids and the bytes of the block that
was sent. The preamble of a primary block is known to the receiver only. -/
structure SameBlock (x r : BlockInfo) : Prop where
  type : x.type = r.type
  flags : x.flags = r.flags
  eidList : x.eidList = r.eidList
  contents : x.contents.filled = r.contents.filled
  data : x.owner ≠ .primary → x.dataOffset = r.dataOffset ∧ x.dataLength = r.dataLength

section Wired

variable {params : Params} {os : Oasys} {bundle : Bundle} {dict : Dictionary} {x : BlockInfo}
  {type : UInt8} {flags : UInt64} {field data : Bytes}

def received (params : Params) (x : BlockInfo) (type : UInt8) (flags : UInt64)
    (field data : Bytes) : BlockInfo :=
  wholeBlock (findProcessor params type) ⟨flags, x.eidList, UInt64.ofNat data.length⟩
    (preambleBytes type flags field (UInt64.ofNat data.length) ++ data)
    (preambleBytes type flags field (UInt64.ofNat data.length)).length

theorem findProcessor_payload (params : Params) : findProcessor params 1 = .payload := rfl

theorem Wired.owner_iff (h : Wired params os bundle dict x type flags field data) :
    findProcessor params type = .payload ↔ x.owner = .payload := by
  rcases h.owner with ⟨hfind, hown⟩ | ⟨rfl, hown, -⟩
  · rw [hfind]
    rcases hown with hown | hown <;> simp [hown]
  · simp [hown, findProcessor_payload]

theorem Wired.wire_eq (h : Wired params os bundle dict x type flags field data) :
    wire bundle x = preambleBytes type flags field (UInt64.ofNat data.length) ++ data := by
  rw [wire, h.formed.filled]
  by_cases hown : x.owner = .payload
  · rw [if_pos hown, hown, kept_payload, List.take_left]
    rcases h.owner with ⟨-, hother⟩ | ⟨-, -, hdata⟩
    · rw [hown] at hother
      rcases hother with h | h <;> cases h
    · rw [hdata]
  · rw [if_neg hown, kept_of_ne hown, List.append_nil]

private theorem Wired.blockLen (h : Wired params os bundle dict x type flags field data) :
    (UInt64.ofNat data.length).toNat = data.length := by
  have hlt := h.formed.small
  rw [UInt64.toNat_ofNat', Nat.mod_eq_of_lt (by omega)]

theorem Wired.scan (h : Wired params os bundle dict x type flags field data) (hd : dict.Sound)
    (rest : Bytes) :
    scanPreamble os dict.installed
        (preambleBytes type flags field (UInt64.ofNat data.length) ++ rest) =
      some (⟨flags, x.eidList, UInt64.ofNat data.length⟩, rest) := by
  have hsame : dict.dict <+: dict.installed.dict := List.prefix_refl dict.dict
  exact scanPreamble_preambleBytes os hd.installed_length h.eids (h.formed.refers.mono hsame)
    type _ rest

theorem Wired.parse_eq (h : Wired params os bundle dict x type flags field data)
    (hd : dict.Sound) (more : Bytes) :
    parseBlock os dict.installed (findProcessor params type) (wire bundle x ++ more) =
      .complete (received params x type flags field data) data more := by
  have hlt := h.formed.small
  have hbl := h.blockLen
  have hsmall : ¬ 0xffffffff < (UInt64.ofNat data.length).toNat := by omega
  have henough : ¬ (data ++ more).length < (UInt64.ofNat data.length).toNat := by
    rw [hbl, List.length_append]
    omega
  have hscan := h.scan hd (data ++ more)
  have hoff : (preambleBytes type flags field (UInt64.ofNat data.length) ++ (data ++ more)).length -
      (data ++ more).length =
      (preambleBytes type flags field (UInt64.ofNat data.length)).length := by
    rw [List.length_append]
    omega
  rw [h.wire_eq, List.append_assoc, parseBlock_complete_of _ hscan hsmall henough, hoff, hbl,
    List.take_left, List.drop_left]
  have hwhole : wholeBlock (findProcessor params type)
      ⟨flags, x.eidList, UInt64.ofNat data.length⟩
      (preambleBytes type flags field (UInt64.ofNat data.length) ++ (data ++ more))
      (preambleBytes type flags field (UInt64.ofNat data.length)).length =
      received params x type flags field data := by
    unfold received wholeBlock
    rw [hbl, ← List.append_assoc, ← List.length_append, List.take_left, List.take_length]
  rw [hwhole]

theorem Wired.received_filled (h : Wired params os bundle dict x type flags field data) :
    (received params x type flags field data).contents.filled = x.contents.filled := by
  have hbl := h.blockLen
  rw [h.formed.filled]
  change kept (findProcessor params type) _ _ = _
  rw [hbl, ← List.length_append, List.take_length]
  by_cases hown : x.owner = .payload
  · rw [hown, h.owner_iff.mpr hown]
  · rw [kept_of_ne hown, kept_of_ne fun hp => hown (h.owner_iff.mp hp)]

private theorem preambleBytes_cons (type : UInt8) (flags : UInt64) (field : Bytes) (len : UInt64) :
    ∃ tail, preambleBytes type flags field len = type :: tail := ⟨_, rfl⟩

theorem Wired.type_eq (h : Wired params os bundle dict x type flags field data) :
    x.type = .ok type.toNat ∧ (received params x type flags field data).type = .ok type.toNat := by
  obtain ⟨tail, htail⟩ : ∃ tail, x.contents.filled = type :: tail := by
    obtain ⟨tail, htail⟩ := preambleBytes_cons type flags field (UInt64.ofNat data.length)
    rw [h.formed.filled, htail]
    unfold kept
    split
    · exact ⟨_, List.take_succ_cons⟩
    · exact ⟨_, rfl⟩
  have hfilled := h.received_filled
  have hgen : ∀ b : BlockInfo, b.contents.filled = type :: tail → b.owner.blockType ≠ 0 →
      (type.toNat = b.owner.blockType ∨ b.owner.anyFirstByte = true) → b.type = .ok type.toNat := by
    intro b hb hne hok
    rw [BlockInfo.type, if_neg hne, hb]
    simp only
    rw [Exec.assert_bind hok]
    rfl
  have hown : (received params x type flags field data).owner = findProcessor params type := rfl
  rcases h.owner with ⟨hfind, hother⟩ | ⟨rfl, hpay, -⟩
  · refine ⟨?_, ?_⟩
    · apply hgen x htail <;> rcases hother with ho | ho <;> rw [ho] <;> simp [Processor.blockType,
        Processor.anyFirstByte]
    · apply hgen _ (hfilled.trans htail) <;> rw [hown, hfind] <;> simp [Processor.blockType,
        Processor.anyFirstByte]
  · refine ⟨?_, ?_⟩
    · apply hgen x htail <;> rw [hpay]
      · decide
      · exact Or.inl rfl
    · apply hgen _ (hfilled.trans htail) <;> rw [hown, findProcessor_payload]
      · decide
      · exact Or.inl rfl

theorem Wired.sameBlock (h : Wired params os bundle dict x type flags field data) :
    SameBlock x (received params x type flags field data) := by
  obtain ⟨htype, htype'⟩ := h.type_eq
  refine ⟨htype.trans htype'.symm, ?_, rfl, h.received_filled.symm, ?_⟩
  · unfold BlockInfo.flags
    rw [htype, htype', h.received_filled]
  · intro _
    refine ⟨h.formed.offset, h.formed.length.trans ?_⟩
    change _ = (UInt64.ofNat data.length).toUInt32
    simp

theorem Wired.complete_eq (h : Wired params os bundle dict x type flags field data)
    (base : Bundle) {f : UInt64} (hf : x.flags = .ok f) :
    completeBlock params os base (received params x type flags field data) data =
      .ok (pushBlock (setPayload base (base.payload.data ++ moved (findProcessor params type) data))
        (received params x type flags field data), decide (f &&& blockFlagLastBlock ≠ 0)) := by
  have hown : (received params x type flags field data).owner = findProcessor params type := rfl
  have hflags := h.sameBlock.flags
  rw [hf] at hflags
  have hfinish : ∀ b, finishBlock params os b (received params x type flags field data) =
      .ok (b, received params x type flags field data) := by
    intro b
    unfold finishBlock
    rw [hown]
    rcases h.owner with ⟨hfind, -⟩ | ⟨rfl, -, -⟩
    · rw [hfind]
      rfl
    · rfl
  rw [completeBlock, hfinish, Exec.ok_bind]
  simp only
  rw [← hflags, Exec.ok_bind, hown]
  rfl

theorem Wired.fits (h : Wired params os bundle dict x type flags field data)
    (hd : dict.Sound) {base : Bundle} (hbase : base.recvBlocks.dict = dict.installed)
    (hpay : x.owner = .payload → base.payload.data = []) (more : Bytes) :
    BlockFits os base (findProcessor params type) (wire bundle x ++ more)
      (received params x type flags field data) data := by
  have hbl := h.blockLen
  have hscan := h.scan hd (data ++ more)
  have hlens : ∀ p tail, scanPreamble os base.recvBlocks.dict (wire bundle x ++ more) =
      some (p, tail) → p.blockLen.toNat = data.length ∧
        (wire bundle x ++ more).length - tail.length =
          (preambleBytes type flags field (UInt64.ofNat data.length)).length := by
    intro p tail hs
    rw [hbase, h.wire_eq, List.append_assoc, hscan, Option.some.injEq, Prod.mk.injEq] at hs
    obtain ⟨rfl, rfl⟩ := hs
    refine ⟨hbl, ?_⟩
    rw [h.wire_eq, List.append_assoc, List.length_append]
    omega
  have hown : (received params x type flags field data).owner = findProcessor params type := rfl
  have hkind : findProcessor params type = .unknown ∨ findProcessor params type = .payload := by
    rcases h.owner with ⟨hfind, -⟩ | ⟨rfl, -, -⟩
    · exact Or.inl hfind
    · exact Or.inr rfl
  constructor
  · intro p tail hs
    rw [(hlens p tail hs).2]
    exact h.formed.pre_le
  · intro hne p tail hs
    rw [(hlens p tail hs).1, (hlens p tail hs).2]
    exact h.formed.no_wrap fun ho => hne (h.owner_iff.mpr ho)
  · intro ho
    exact hpay (h.owner_iff.mp ho)
  · rw [ReadsData, hown]
    rcases hkind with hk | hk <;> rw [hk] <;> simp
  · rw [FitsData, hown]
    rcases hkind with hk | hk <;> rw [hk] <;> simp

end Wired

/-! ## A row of blocks -/

/-- What a row of blocks adds to a bundle: the blocks, and the payload with the payload block. -/
structure Joined (bundle base : Bundle) (xs : List XmitBlock) (result : Bundle) : Prop where
  blocks : ∃ rs, result.recvBlocks.blocks = base.recvBlocks.blocks ++ rs ∧
    List.Forall₂ (fun (x : XmitBlock) r => SameBlock x.toBlockInfo r) xs rs
  fields : result.reframe [] base.payload = base.reframe [] base.payload
  payload : result.payload.data = base.payload.data ++
    if Processor.payload ∈ xs.map (fun x => x.owner) then bundle.payload.data else []

section Row

variable {params : Params} {os : Oasys} {bundle : Bundle} {dict : Dictionary}

private theorem joined_cons {base mid result : Bundle} {x : XmitBlock} {xs : List XmitBlock}
    {type : UInt8} {flags : UInt64} {field data : Bytes}
    (h : Wired params os bundle dict x.toBlockInfo type flags field data)
    (hmid : mid = pushBlock (setPayload base (base.payload.data ++
      moved (findProcessor params type) data)) (received params x.toBlockInfo type flags field data))
    (honce : (((x :: xs).map fun x => x.owner).count .payload) ≤ 1)
    (hrest : Joined bundle mid xs result) : Joined bundle base (x :: xs) result := by
  subst hmid
  obtain ⟨rs, hrs, hsame⟩ := hrest.blocks
  refine ⟨⟨received params x.toBlockInfo type flags field data :: rs, ?_,
    List.Forall₂.cons h.sameBlock hsame⟩, ?_, ?_⟩
  · rw [hrs, pushBlock_blocks, List.append_assoc, List.singleton_append]
  · have hfields := congrArg (fun b => b.reframe [] base.payload) hrest.fields
    rw [reframe_reframe, reframe_reframe, pushBlock_reframe] at hfields
    exact hfields
  · rw [hrest.payload, pushBlock_data]
    rw [List.map_cons, List.count_cons] at honce
    rw [List.append_assoc, List.map_cons]
    congr 1
    by_cases hown : x.owner = .payload
    · have hno : Processor.payload ∉ xs.map (fun x => x.owner) := by
        rw [← List.count_eq_zero]
        simp only [hown, beq_self_eq_true, if_true] at honce
        omega
      have hdata : data = bundle.payload.data := by
        rcases h.owner with ⟨-, hother⟩ | ⟨-, -, hdata⟩
        · rw [hown] at hother
          rcases hother with ho | ho <;> cases ho
        · exact hdata
      rw [h.owner_iff.mpr hown, if_neg hno, moved, if_pos rfl, List.append_nil, if_pos, hdata]
      rw [hown]
      exact List.mem_cons_self
    · have hne : findProcessor params type ≠ .payload := fun hp => hown (h.owner_iff.mp hp)
      rw [moved, if_neg hne, List.nil_append]
      congr 1
      simp only [List.mem_cons, eq_iff_iff]
      constructor
      · exact Or.inr
      · rintro (he | hm)
        · exact absurd he.symm hown
        · exact hm

theorem parses_row {xs : List XmitBlock} {base : Bundle} (hd : dict.Sound) (hxs : xs ≠ [])
    (hbase : base.recvBlocks.dict = dict.installed)
    (hwired : ∀ x ∈ xs, ∃ type flags field data,
      Wired params os bundle dict x.toBlockInfo type flags field data)
    (hmarked : LastMarked xs) (honce : ((xs.map fun x => x.owner).count .payload) ≤ 1)
    (hpay : Processor.payload ∈ xs.map (fun x => x.owner) → base.payload.data = []) :
    ∃ first tail result, wires bundle xs = first :: tail ∧
      Parses params os base (findProcessor params first) (first :: tail) result ∧
      Joined bundle base xs result := by
  induction xs generalizing base with
  | nil => exact absurd rfl hxs
  | cons x xs ih =>
      obtain ⟨type, flags, field, data, h⟩ := hwired x (by simp)
      obtain ⟨⟨f, hf, hlast⟩, hmarked'⟩ := hmarked
      obtain ⟨start, hstart⟩ : ∃ start, wire bundle x.toBlockInfo = type :: start := by
        obtain ⟨start, hstart⟩ := preambleBytes_cons type flags field (UInt64.ofNat data.length)
        rw [h.wire_eq, hstart]
        exact ⟨_, rfl⟩
      have hpay' : x.owner = .payload → base.payload.data = [] := by
        intro ho
        apply hpay
        rw [List.map_cons, ho]
        exact List.mem_cons_self
      have hcomplete := h.complete_eq base hf
      rw [wires_cons]
      cases xs with
      | nil =>
          have hp := h.parse_eq hd []
          have hfits := h.fits hd hbase hpay' []
          rw [← hbase] at hp
          rw [hlast] at hcomplete
          rw [List.append_nil] at hp hfits
          rw [wires, List.flatMap_nil, List.append_nil, hstart]
          rw [hstart] at hp hfits
          refine ⟨type, start, _, rfl, .last hp hfits hcomplete, ?_⟩
          refine joined_cons h rfl honce ⟨⟨[], ?_, .nil⟩, rfl, ?_⟩
          · rw [List.append_nil]
          · simp
      | cons y ys =>
          have honce' : (((y :: ys).map fun x => x.owner).count .payload) ≤ 1 := by
            rw [List.map_cons, List.count_cons] at honce
            omega
          have hmid : Processor.payload ∈ (y :: ys).map (fun x => x.owner) →
              (pushBlock (setPayload base (base.payload.data ++
                moved (findProcessor params type) data))
                (received params x.toBlockInfo type flags field data)).payload.data = [] := by
            intro hmem
            have hne : x.owner ≠ .payload := by
              intro ho
              have hpos := List.count_pos_iff.mpr hmem
              rw [List.map_cons, List.count_cons, ho] at honce
              simp only [beq_self_eq_true, if_true] at honce
              omega
            rw [pushBlock_data, moved, if_neg fun hp => hne (h.owner_iff.mp hp), List.append_nil]
            exact hpay (by rw [List.map_cons]; exact List.mem_cons_of_mem _ hmem)
          obtain ⟨first, tail, result, hbytes, hparses, hjoined⟩ := @ih
            (pushBlock (setPayload base (base.payload.data ++
              moved (findProcessor params type) data))
              (received params x.toBlockInfo type flags field data)) (by simp) hbase
            (fun z hz => hwired z (List.mem_cons_of_mem _ hz)) hmarked' honce' hmid
          have hp := h.parse_eq hd (first :: tail)
          have hfits := h.fits hd hbase hpay' (first :: tail)
          rw [← hbase] at hp
          rw [hlast] at hcomplete
          rw [hbytes]
          rw [hstart] at hp hfits ⊢
          exact ⟨type, start ++ first :: tail, result, rfl, .next hp hfits hcomplete hparses,
            joined_cons h rfl honce hjoined⟩

end Row

/-! ## The primary block -/

namespace PrimaryBlockProcessor

section Dict

variable {os : Oasys} {bundle base : Bundle} {dict : Dictionary}

def Knows (dict : Dictionary) (eid : EndpointID) : Prop := dict.Has eid.schemeStr ∧ dict.Has eid.ssp

theorem storedOffsets_spec {eid : EndpointID} (hd : dict.Sound) (hform : Wellformed os eid)
    (hknows : Knows dict eid) :
    ∃ st, storedOffsets dict eid = .ok st ∧
      ∀ e, (dict.installed.extractEid os e st.1 st.2).2 = eid := by
  obtain ⟨⟨s, hs⟩, ⟨t, ht⟩⟩ := hknows
  refine ⟨(UInt64.ofNat s, UInt64.ofNat t), ?_, ?_⟩
  · rw [storedOffsets, hs, Exec.ok_bind]
    simp only
    rw [ht, Exec.ok_bind]
    rfl
  · intro e
    have hsat := Dictionary.at_of_getOffset hd.terminated hform.named.scheme_nul hs
    have htat := Dictionary.at_of_getOffset hd.terminated hform.named.ssp_nul ht
    have hsame : dict.dict <+: dict.installed.dict := List.prefix_refl dict.dict
    have hcut : ∀ n, (UInt64.ofNat n).toUInt32 = UInt32.ofNat n := by simp
    rw [Dictionary.extractEid, hcut, hcut, Dictionary.extractEid32_of_at os hd.installed_length
      hform.named (hsat.append hsame) (htat.append hsame), hform.assign_eq]

/-- A bundle with the times and the endpoint ids of another, and the dictionary they came in. -/
def withEids (bundle b : Bundle) (dict : Dictionary) : Bundle :=
  { b with
    creationTs := bundle.creationTs
    expiration := bundle.expiration
    recvBlocks := { b.recvBlocks with dict := dict.installed }
    source := bundle.source
    dest := bundle.dest
    replyto := bundle.replyto
    custodian := bundle.custodian }

/-- A bundle with everything that the primary block of another carries. -/
def arrived (bundle base : Bundle) (dict : Dictionary) : Bundle :=
  withFragment bundle (withEids bundle (withFlags bundle base) dict)

/-- What a sender needs to know of a bundle so that its primary block can be read. -/
structure Readable (os : Oasys) (bundle : Bundle) (dict : Dictionary) : Prop where
  plain : usesIpn bundle = false
  priority : bundle.priority.toNat < 4
  dest : Wellformed os bundle.dest ∧ Knows dict bundle.dest
  source : Wellformed os bundle.source ∧ Knows dict bundle.source
  replyto : Wellformed os bundle.replyto ∧ Knows dict bundle.replyto
  custodian : Wellformed os bundle.custodian ∧ Knows dict bundle.custodian

/-- The endpoint id fields lead back to the endpoint ids of the bundle. -/
structure FieldsOf (os : Oasys) (bundle : Bundle) (dict : Dictionary) (eids : PrimaryBlock) :
    Prop where
  length : eids.dictionaryLength = UInt64.ofNat dict.dict.length
  dest : ∀ e, (dict.installed.extractEid os e eids.destSchemeOffset eids.destSspOffset).2 =
    bundle.dest
  source : ∀ e, (dict.installed.extractEid os e eids.sourceSchemeOffset eids.sourceSspOffset).2 =
    bundle.source
  replyto : ∀ e, (dict.installed.extractEid os e eids.replytoSchemeOffset
    eids.replytoSspOffset).2 = bundle.replyto
  custodian : ∀ e, (dict.installed.extractEid os e eids.custodianSchemeOffset
    eids.custodianSspOffset).2 = bundle.custodian

theorem dictFields_spec (hd : dict.Sound) (h : Readable os bundle dict) :
    ∃ eids, dictFields bundle dict = .ok eids ∧ FieldsOf os bundle dict eids := by
  obtain ⟨dst, hdst, edst⟩ := storedOffsets_spec hd h.dest.1 h.dest.2
  obtain ⟨src, hsrc, esrc⟩ := storedOffsets_spec hd h.source.1 h.source.2
  obtain ⟨rpl, hrpl, erpl⟩ := storedOffsets_spec hd h.replyto.1 h.replyto.2
  obtain ⟨cst, hcst, ecst⟩ := storedOffsets_spec hd h.custodian.1 h.custodian.2
  have hfields : dictFields bundle dict = .ok { PrimaryBlock.zero with
      destSchemeOffset := dst.1
      destSspOffset := dst.2
      sourceSchemeOffset := src.1
      sourceSspOffset := src.2
      replytoSchemeOffset := rpl.1
      replytoSspOffset := rpl.2
      custodianSchemeOffset := cst.1
      custodianSspOffset := cst.2
      dictionaryLength := UInt64.ofNat dict.dict.length } := by
    rw [dictFields, hdst, Exec.ok_bind, hsrc, Exec.ok_bind, hrpl, Exec.ok_bind, hcst, Exec.ok_bind]
    rfl
  exact ⟨_, hfields, rfl, edst, esrc, erpl, ecst⟩

private theorem dict_length (hd : dict.Sound) :
    (UInt64.ofNat dict.dict.length).toNat = dict.dict.length ∧ dict.dict.length < 2 ^ 32 := by
  have hle := hd.sized
  have hlt := dict.dictLength.toNat_lt
  refine ⟨?_, by omega⟩
  rw [UInt64.toNat_ofNat', Nat.mod_eq_of_lt (by omega)]

theorem generatePrimary_dict {eids : PrimaryBlock} (hd : dict.Sound)
    (h : usesIpn bundle = false) (heids : dictFields bundle dict = .ok eids)
    (hf : FieldsOf os bundle dict eids) {block x : BlockInfo}
    (hgen : generatePrimary os bundle dict block = .ok x) :
    (primaryBytes bundle (completeFields bundle eids) dict.dict).length < 2 ^ 31 ∧
      x.contents.filled = primaryBytes bundle (completeFields bundle eids) dict.dict ∧
      x = { block with
        contents := x.contents
        dataLength := UInt32.ofNat
          (primaryBytes bundle (completeFields bundle eids) dict.dict).length } := by
  obtain ⟨hnat, hlt⟩ := dict_length hd
  have hdlen : eids.dictionaryLength.toNat = dict.dict.length := by rw [hf.length, hnat]
  have htake : dict.dict.take eids.dictionaryLength.toNat = dict.dict := by
    rw [hdlen, List.take_length]
  have hget : getPrimaryLen bundle dict = .ok
      ((primaryBytes bundle (completeFields bundle eids)
        (dict.dict.take eids.dictionaryLength.toNat)).length, completeFields bundle eids) := by
    rw [primaryBytes_length (by omega) (by rw [htake, hdlen]), getPrimaryLen, h]
    simp only [Bool.false_eq_true, if_false]
    rw [heids, Exec.ok_bind]
    rfl
  have hsmall := generatePrimary_lt (by rw [htake, hdlen]) hget hgen
  obtain ⟨contents, hfilled, hok⟩ :=
    generatePrimary_spec os (by rw [htake, hdlen]) hget hsmall block
  rw [htake] at hsmall hfilled hok
  rw [hok] at hgen
  injection hgen with hx
  subst hx
  exact ⟨hsmall, hfilled, rfl⟩

theorem parseEids_dict {eids : PrimaryBlock} {b : Bundle} (hd : dict.Sound)
    (hf : FieldsOf os bundle dict eids) (hne : dict.dict ≠ [])
    (hb : b.recvBlocks.dict.dictLength = 0) (rest : Bytes) :
    parseEids os (parseTimes b (behindLength (completeFields bundle eids)))
        (behindLength (completeFields bundle eids)) (dict.dict ++ rest) =
      .ok (withEids bundle b dict) := by
  obtain ⟨hnat, hlt⟩ := dict_length hd
  have hdlen : eids.dictionaryLength.toNat = dict.dict.length := by rw [hf.length, hnat]
  have hfield : (behindLength (completeFields bundle eids)).dictionaryLength =
      eids.dictionaryLength := rfl
  have hnz : eids.dictionaryLength ≠ 0 := by
    intro hzero
    have hlen : dict.dict.length = 0 := by
      rw [← hdlen, hzero]
      rfl
    exact hne (List.length_eq_zero_iff.mp hlen)
  have hset : (parseTimes b (behindLength (completeFields bundle eids))).recvBlocks.dict.setDict
      dict.dict = .ok dict.installed := by
    change b.recvBlocks.dict.setDict dict.dict = _
    rw [Dictionary.setDict, Exec.assert_bind hb]
    rfl
  rw [parseEids, hfield, if_neg hnz, hdlen, List.take_left, parseDictEids, hset, Exec.ok_bind]
  have e1 := hf.source b.source
  have e2 := hf.dest b.dest
  have e3 := hf.replyto b.replyto
  have e4 := hf.custodian b.custodian
  simp only [parseTimes, behindLength, completeFields, withEids, e1, e2, e3, e4]
  rfl

end Dict

/-- A primary block at the front of the bytes, as the parser sees it once it is complete. -/
structure PrimaryRead (bundle : Bundle) (primary : PrimaryBlock) (dictionary : Bytes)
    (blk : BlockInfo) : Prop where
  owner : blk.owner = .primary
  filled : blk.contents.filled = primaryBytes bundle primary dictionary
  full : blk.fullLength.toNat = blk.contents.len
  data : blk.dataLength.toNat =
    (sdnvs primary.fields ++ (dictionary ++ sdnvs (fragmentFields bundle))).length
  eids : blk.eidList = []

theorem new_dict_length (id : Nat) (now : UInt64) :
    (Bundle.new id now).recvBlocks.dict.dictLength.toNat =
      (Bundle.new id now).recvBlocks.dict.dict.length := rfl

theorem parse_primaryBytes (os : Oasys) {bundle base : Bundle} {primary : PrimaryBlock}
    {dictionary : Bytes}
    (hbase : base.recvBlocks.dict.dictLength.toNat = base.recvBlocks.dict.dict.length)
    (hplain : primary.processingFlags &&& blockFlagEidRefs = 0)
    (hbl : primary.blockLength.toNat =
      (sdnvs primary.fields ++ (dictionary ++ sdnvs (fragmentFields bundle))).length)
    (hsmall : (primaryBytes bundle primary dictionary).length < 2 ^ 31) (more : Bytes) :
    ∃ blk d, parseBlock os base.recvBlocks.dict .primary
        (primaryBytes bundle primary dictionary ++ more) = .complete blk d more ∧
      BlockFits os base .primary (primaryBytes bundle primary dictionary ++ more) blk d ∧
      PrimaryRead bundle primary dictionary blk := by
  generalize hbody : sdnvs primary.fields ++ (dictionary ++ sdnvs (fragmentFields bundle)) = body
    at hbl
  have hbytes : primaryBytes bundle primary dictionary =
      preambleBytes currentVersion primary.processingFlags [] primary.blockLength ++ body := by
    rw [← hbody]
    simp [primaryBytes, preambleBytes, List.append_assoc]
  have hscan : ∀ rest, scanPreamble os base.recvBlocks.dict
      (preambleBytes currentVersion primary.processingFlags [] primary.blockLength ++ rest) =
      some (⟨primary.processingFlags, [], primary.blockLength⟩, rest) := fun rest =>
    scanPreamble_preambleBytes os hbase (by simp) (Or.inl ⟨rfl, hplain, rfl⟩) _ _ rest
  have hpre : (preambleBytes currentVersion primary.processingFlags []
      primary.blockLength).length ≤ 21 := by
    have h1 := SDNV.encoded_length_le primary.processingFlags
    have h2 := SDNV.encoded_length_le primary.blockLength
    simp only [SDNV.maxLength] at h1 h2
    simp only [preambleBytes, List.length_append, List.length_cons, List.append_nil]
    omega
  rw [hbytes] at hsmall
  rw [List.length_append] at hsmall
  have hoff : (preambleBytes currentVersion primary.processingFlags [] primary.blockLength ++
      (body ++ more)).length - (body ++ more).length =
      (preambleBytes currentVersion primary.processingFlags [] primary.blockLength).length := by
    rw [List.length_append]
    omega
  have hbig : ¬ 0xffffffff < primary.blockLength.toNat := by omega
  have henough : ¬ (body ++ more).length < primary.blockLength.toNat := by
    rw [hbl, List.length_append]
    omega
  have hparse : parseBlock os base.recvBlocks.dict .primary
      (primaryBytes bundle primary dictionary ++ more) = .complete
        (wholeBlock .primary ⟨primary.processingFlags, [], primary.blockLength⟩
          (primaryBytes bundle primary dictionary ++ more)
          (preambleBytes currentVersion primary.processingFlags [] primary.blockLength).length)
        body more := by
    have hcomplete := parseBlock_complete_of .primary (hscan (body ++ more)) hbig henough
    rw [hoff] at hcomplete
    rw [hbytes, List.append_assoc, hcomplete, hbl, List.take_left, List.drop_left]
  have hread : PrimaryRead bundle primary dictionary
      (wholeBlock .primary ⟨primary.processingFlags, [], primary.blockLength⟩
        (primaryBytes bundle primary dictionary ++ more)
        (preambleBytes currentVersion primary.processingFlags [] primary.blockLength).length) := by
    have hfilled : (wholeBlock .primary ⟨primary.processingFlags, [], primary.blockLength⟩
        (primaryBytes bundle primary dictionary ++ more)
        (preambleBytes currentVersion primary.processingFlags []
          primary.blockLength).length).contents.filled = primaryBytes bundle primary dictionary := by
      rw [wholeBlock]
      simp only
      rw [kept_of_ne (by decide), hbl, ← List.length_append, ← hbytes, List.take_left]
    have hdata : (UInt64.toUInt32 primary.blockLength).toNat = body.length := by
      rw [UInt64.toNat_toUInt32, Nat.mod_eq_of_lt (by omega), hbl]
    refine ⟨rfl, hfilled, ?_, ?_, rfl⟩
    · rw [ScratchBuffer.len, hfilled, BlockInfo.fullLength]
      change (UInt32.ofNat (preambleBytes currentVersion primary.processingFlags []
        primary.blockLength).length + UInt64.toUInt32 primary.blockLength).toNat = _
      rw [UInt32.toNat_add, hdata, UInt32.toNat_ofNat', hbytes, List.length_append]
      omega
    · rw [hbody]
      exact hdata
  refine ⟨_, body, hparse, ?_, hread⟩
  have hlens : ∀ p tail, scanPreamble os base.recvBlocks.dict
      (primaryBytes bundle primary dictionary ++ more) = some (p, tail) →
      p.blockLen = primary.blockLength ∧
        (primaryBytes bundle primary dictionary ++ more).length - tail.length =
          (preambleBytes currentVersion primary.processingFlags [] primary.blockLength).length := by
    intro p tail hs
    rw [hbytes, List.append_assoc, hscan, Option.some.injEq, Prod.mk.injEq] at hs
    obtain ⟨rfl, rfl⟩ := hs
    refine ⟨rfl, ?_⟩
    rw [hbytes, List.append_assoc, hoff]
  constructor
  · intro p tail hs
    rw [(hlens p tail hs).2]
    omega
  · intro _ p tail hs
    rw [(hlens p tail hs).1, (hlens p tail hs).2, hbl]
    omega
  · intro ho
    cases ho
  · rw [ReadsData, hread.owner]
    simp
  · rw [FitsData, hread.owner, PlainFlags, hread.filled]
    refine ⟨?_, by simp⟩
    intro _ _ r hr
    have hflags : SDNV.read ((primaryBytes bundle primary dictionary).drop 1) =
        some (primary.processingFlags, SDNV.encoded primary.blockLength ++ body) := by
      rw [hbytes]
      simp [preambleBytes, List.append_assoc]
    rw [hflags, Option.mem_some_iff] at hr
    rw [← hr]
    exact hplain

end PrimaryBlockProcessor

/-! ## The whole bundle -/

/-- A received bundle has the endpoint ids, the flags, the times and the payload of the bundle
that was sent, and its fragment fields if it is a fragment. -/
structure SameBundle (b r : Bundle) : Prop where
  source : r.source = b.source
  dest : r.dest = b.dest
  replyto : r.replyto = b.replyto
  custodian : r.custodian = b.custodian
  processing : r.isFragment = b.isFragment ∧ r.isAdmin = b.isAdmin ∧
    r.doNotFragment = b.doNotFragment ∧ r.custodyRequested = b.custodyRequested ∧
    r.singletonDest = b.singletonDest ∧ r.appAckedRcpt = b.appAckedRcpt
  reports : r.receiveRcpt = b.receiveRcpt ∧ r.custodyRcpt = b.custodyRcpt ∧
    r.forwardRcpt = b.forwardRcpt ∧ r.deliveryRcpt = b.deliveryRcpt ∧
    r.deletionRcpt = b.deletionRcpt
  priority : r.priority = b.priority
  creationTs : r.creationTs = b.creationTs
  expiration : r.expiration = b.expiration
  fragment : b.isFragment = true → r.fragOffset = b.fragOffset ∧ r.origLength = b.origLength
  payload : r.payload.data = b.payload.data

namespace PrimaryBlockProcessor

section Arrived

variable (bundle base : Bundle) (dict : Dictionary)

theorem arrived_recvBlocks :
    (arrived bundle base dict).recvBlocks = ⟨base.recvBlocks.blocks, dict.installed⟩ := by
  unfold arrived withFragment
  split <;> rfl

theorem arrived_payload : (arrived bundle base dict).payload = base.payload := by
  unfold arrived withFragment
  split <;> rfl

theorem sameBundle_arrived {result : Bundle} {p : BundlePayload}
    (hfields : result.reframe [] p = (arrived bundle base dict).reframe [] p)
    (hpayload : result.payload.data = bundle.payload.data) : SameBundle bundle result := by
  have hfield : ∀ {α : Type} (f : Bundle → α), (∀ b, f (b.reframe [] p) = f b) →
      f result = f (arrived bundle base dict) := by
    intro α f hf
    rw [← hf result, hfields, hf]
  have hsame : SameBundle bundle (setPayload (arrived bundle base dict) bundle.payload.data) := by
    unfold arrived withFragment
    by_cases hfrag : bundle.isFragment = true
    · rw [if_pos hfrag]
      exact ⟨rfl, rfl, rfl, rfl, ⟨rfl, rfl, rfl, rfl, rfl, rfl⟩, ⟨rfl, rfl, rfl, rfl, rfl⟩, rfl,
        rfl, rfl, fun _ => ⟨rfl, rfl⟩, rfl⟩
    · rw [if_neg hfrag]
      exact ⟨rfl, rfl, rfl, rfl, ⟨rfl, rfl, rfl, rfl, rfl, rfl⟩, ⟨rfl, rfl, rfl, rfl, rfl⟩, rfl,
        rfl, rfl, fun h => absurd h hfrag, rfl⟩
  exact ⟨(hfield Bundle.source fun _ => rfl).trans hsame.source,
    (hfield Bundle.dest fun _ => rfl).trans hsame.dest,
    (hfield Bundle.replyto fun _ => rfl).trans hsame.replyto,
    (hfield Bundle.custodian fun _ => rfl).trans hsame.custodian,
    ⟨(hfield Bundle.isFragment fun _ => rfl).trans hsame.processing.1,
      (hfield Bundle.isAdmin fun _ => rfl).trans hsame.processing.2.1,
      (hfield Bundle.doNotFragment fun _ => rfl).trans hsame.processing.2.2.1,
      (hfield Bundle.custodyRequested fun _ => rfl).trans hsame.processing.2.2.2.1,
      (hfield Bundle.singletonDest fun _ => rfl).trans hsame.processing.2.2.2.2.1,
      (hfield Bundle.appAckedRcpt fun _ => rfl).trans hsame.processing.2.2.2.2.2⟩,
    ⟨(hfield Bundle.receiveRcpt fun _ => rfl).trans hsame.reports.1,
      (hfield Bundle.custodyRcpt fun _ => rfl).trans hsame.reports.2.1,
      (hfield Bundle.forwardRcpt fun _ => rfl).trans hsame.reports.2.2.1,
      (hfield Bundle.deliveryRcpt fun _ => rfl).trans hsame.reports.2.2.2.1,
      (hfield Bundle.deletionRcpt fun _ => rfl).trans hsame.reports.2.2.2.2⟩,
    (hfield Bundle.priority fun _ => rfl).trans hsame.priority,
    (hfield Bundle.creationTs fun _ => rfl).trans hsame.creationTs,
    (hfield Bundle.expiration fun _ => rfl).trans hsame.expiration,
    fun h => ⟨(hfield Bundle.fragOffset fun _ => rfl).trans (hsame.fragment h).1,
      (hfield Bundle.origLength fun _ => rfl).trans (hsame.fragment h).2⟩, hpayload⟩

end Arrived

end PrimaryBlockProcessor

end Dtn2
