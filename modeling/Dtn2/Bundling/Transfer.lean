import Dtn2.Bundling.RoundTrip

/-!
# The transfer of a bundle

The primary block that `generate_primary` writes is read back whole, and with the row of blocks
behind it the bundle is on the other side.
-/

namespace Dtn2

open Framework BundleProtocol

/-! ## The primary block on the wire -/

namespace PrimaryBlockProcessor

section Primary

variable {params : Params} {os : Oasys} {bundle : Bundle} {dict : Dictionary}

theorem Knows.mono {dict' : Dictionary} {eid : EndpointID} (h : Knows dict eid)
    (hg : Grows dict dict') : Knows dict' eid :=
  ⟨hg.keeps _ h.1, hg.keeps _ h.2⟩

theorem prepare_spec (hdest : Dictionary.WellNamed bundle.dest)
    (hsource : Dictionary.WellNamed bundle.source)
    (hreplyto : Dictionary.WellNamed bundle.replyto)
    (hcustodian : Dictionary.WellNamed bundle.custodian) (h : prepare bundle = .ok dict) :
    dict.Sound ∧ Knows dict bundle.dest ∧ Knows dict bundle.source ∧ Knows dict bundle.replyto ∧
      Knows dict bundle.custodian := by
  obtain ⟨d1, h1, h⟩ := Exec.bind_eq_ok.mp h
  obtain ⟨d2, h2, h⟩ := Exec.bind_eq_ok.mp h
  obtain ⟨d3, h3, h⟩ := Exec.bind_eq_ok.mp h
  obtain ⟨hs1, hp1, hk1, hg1⟩ := Dictionary.addEid_spec Dictionary.sound_empty hdest h1
  obtain ⟨hs2, hp2, hk2, hg2⟩ := Dictionary.addEid_spec hs1 hsource h2
  obtain ⟨hs3, hp3, hk3, hg3⟩ := Dictionary.addEid_spec hs2 hreplyto h3
  obtain ⟨hs4, hp4, hk4, hg4⟩ := Dictionary.addEid_spec hs3 hcustodian h
  have g2 : Grows d1 d2 := ⟨hs2, hp2, hg2⟩
  have g3 : Grows d2 d3 := ⟨hs3, hp3, hg3⟩
  have g4 : Grows d3 dict := ⟨hs4, hp4, hg4⟩
  have k1 : Knows d1 bundle.dest := hk1
  have k2 : Knows d2 bundle.source := hk2
  have k3 : Knows d3 bundle.replyto := hk3
  exact ⟨hs4, k1.mono ((g2.trans g3).trans g4), k2.mono (g3.trans g4), k3.mono g4, hk4⟩

private theorem dict_ne_nil (hd : dict.Sound) {eid : EndpointID}
    (hname : Dictionary.WellNamed eid) (hknows : Knows dict eid) : dict.dict ≠ [] := by
  obtain ⟨⟨s, hs⟩, -⟩ := hknows
  have hat := Dictionary.at_of_getOffset hd.terminated hname.scheme_nul hs
  intro hnil
  have hle := hat.2
  rw [hnil, List.length_nil] at hle
  omega

theorem type_of_primary {x : BlockInfo} (h : x.owner = .primary) : x.type = .ok 0 := by
  rw [BlockInfo.type, h]
  rfl

theorem flags_of_primary {x : BlockInfo} (h : x.owner = .primary) : x.flags = .ok 0 := by
  rw [BlockInfo.flags, type_of_primary h]
  rfl

structure PrimarySent (bundle : Bundle) (x : BlockInfo) (bytes : Bytes) : Prop where
  owner : x.owner = .primary
  eids : x.eidList = []
  filled : x.contents.filled = bytes
  full : x.fullLength.toNat = bytes.length

theorem PrimarySent.wire_eq {x : BlockInfo} {bytes : Bytes} (h : PrimarySent bundle x bytes) :
    wire bundle x = bytes := by
  rw [wire, h.filled, h.owner, if_neg (by decide), List.append_nil]

theorem PrimarySent.placed {x : BlockInfo} {bytes : Bytes} (h : PrimarySent bundle x bytes)
    (hne : bytes ≠ []) : Placed bundle x := by
  refine ⟨by rw [h.wire_eq, h.full], ?_, ?_⟩
  · rw [h.wire_eq]
    exact List.length_pos_of_ne_nil hne
  · intro ho
    rw [h.owner] at ho
    cases ho

theorem PrimarySent.sameBlock {x blk : BlockInfo} {primary : PrimaryBlock} {dictionary : Bytes}
    (h : PrimarySent bundle x (primaryBytes bundle primary dictionary))
    (hread : PrimaryRead bundle primary dictionary blk) : SameBlock x blk := by
  refine ⟨?_, ?_, ?_, ?_, ?_⟩
  · rw [type_of_primary h.owner, type_of_primary hread.owner]
  · rw [flags_of_primary h.owner, flags_of_primary hread.owner]
  · rw [h.eids, hread.eids]
  · rw [h.filled, hread.filled]
  · intro hne
    exact absurd h.owner hne

theorem primaryBytes_ne_nil (bundle : Bundle) (primary : PrimaryBlock) (dictionary : Bytes) :
    primaryBytes bundle primary dictionary ≠ [] := by
  simp [primaryBytes]

private theorem sent_of_generatePrimary {x : BlockInfo} {bytes : Bytes} (hlen : bytes.length < 2 ^ 31)
    (hfilled : x.contents.filled = bytes)
    (hx : x = { BlockInfo.new os .primary with
      contents := x.contents
      dataLength := UInt32.ofNat bytes.length }) : PrimarySent bundle x bytes := by
  refine ⟨?_, ?_, hfilled, ?_⟩
  · rw [hx]
    rfl
  · rw [hx]
    rfl
  · rw [BlockInfo.fullLength, hx]
    change (0 + UInt32.ofNat bytes.length).toNat = _
    rw [UInt32.zero_add, UInt32.toNat_ofNat', Nat.mod_eq_of_lt (by omega)]

private theorem FieldsOf.length_eq {eids : PrimaryBlock} (hf : FieldsOf os bundle dict eids)
    (hd : dict.Sound) : dict.dict.length = (completeFields bundle eids).dictionaryLength.toNat ∧
      eids.dictionaryLength.toNat < 2 ^ 32 := by
  have hle := hd.sized
  have hlt := dict.dictLength.toNat_lt
  have heq : dict.dict.length = eids.dictionaryLength.toNat := by
    rw [hf.length, UInt64.toNat_ofNat', Nat.mod_eq_of_lt (by omega)]
  exact ⟨heq, by omega⟩

private theorem finish_arrived {id : Nat} {now : UInt64} {eids : PrimaryBlock} {blk : BlockInfo}
    (hd : dict.Sound) (hr : Readable os bundle dict) (hf : FieldsOf os bundle dict eids)
    (hread : PrimaryRead bundle (completeFields bundle eids) dict.dict blk) :
    finish os (Bundle.new id now) blk = .ok (arrived bundle (Bundle.new id now) dict) := by
  have hne := dict_ne_nil hd hr.dest.1.named hr.dest.2
  obtain ⟨hlen, -⟩ := hf.length_eq hd
  have hflags : parseFlags (Bundle.new id now) (completeFields bundle eids).processingFlags =
      withFlags bundle (Bundle.new id now) :=
    parseFlags_formatFlags hr.priority ⟨rfl, rfl, rfl, rfl, rfl⟩
  rw [finish_primaryBytes hread.filled hread.full hread.data hlen hd.terminated, hflags,
    parseEids_dict hd hf hne rfl, Exec.ok_bind]
  exact parseFragment_sdnvs rfl

variable (params) in
theorem primary_arrives (id : Nat) (now : UInt64) {x : BlockInfo} (hd : dict.Sound)
    (hr : Readable os bundle dict)
    (hgen : generatePrimary os bundle dict (BlockInfo.new os .primary) = .ok x) :
    Placed bundle x ∧ x.owner = .primary ∧ ∀ more, ∃ blk d,
      parseBlock os (Bundle.new id now).recvBlocks.dict .primary (wire bundle x ++ more) =
        .complete blk d more ∧
      BlockFits os (Bundle.new id now) .primary (wire bundle x ++ more) blk d ∧
      completeBlock params os (Bundle.new id now) blk d =
        .ok (pushBlock (arrived bundle (Bundle.new id now) dict) blk, false) ∧
      SameBlock x blk := by
  obtain ⟨eids, heids, hf⟩ := dictFields_spec hd hr
  obtain ⟨hsmall, hfilled, hx⟩ := generatePrimary_dict hd hr.plain heids hf hgen
  have hsent : PrimarySent bundle x (primaryBytes bundle (completeFields bundle eids) dict.dict) :=
    sent_of_generatePrimary hsmall hfilled hx
  have hplain : (completeFields bundle eids).processingFlags &&& blockFlagEidRefs = 0 :=
    formatFlags_plain bundle
  obtain ⟨hlen, hlt⟩ := hf.length_eq hd
  refine ⟨hsent.placed (primaryBytes_ne_nil _ _ _), hsent.owner, ?_⟩
  intro more
  rw [hsent.wire_eq]
  have hbl : (completeFields bundle eids).blockLength.toNat =
      (sdnvs (completeFields bundle eids).fields ++
        (dict.dict ++ sdnvs (fragmentFields bundle))).length := by
    have hdl : (completeFields bundle eids).dictionaryLength = eids.dictionaryLength := rfl
    rw [completeFields_blockLength bundle hlt, List.length_append, List.length_append, hlen, hdl]
    omega
  obtain ⟨blk, d, hparse, hfits, hread⟩ := parse_primaryBytes os
    (new_dict_length id now) hplain hbl hsmall more
  refine ⟨blk, d, hparse, hfits, ?_, hsent.sameBlock hread⟩
  have hset : setPayload (Bundle.new id now) ((Bundle.new id now).payload.data ++
      moved blk.owner d) = Bundle.new id now := by
    rw [hread.owner, moved, if_neg (by decide)]
    rfl
  have hfinish : finishBlock params os (Bundle.new id now) blk =
      .ok (arrived bundle (Bundle.new id now) dict, blk) := by
    rw [finishBlock, hread.owner]
    simp only
    rw [finish_arrived hd hr hf hread]
    rfl
  rw [completeBlock, hset, hfinish, Exec.ok_bind]
  simp only
  rw [flags_of_primary hread.owner, Exec.ok_bind]
  rfl

end Primary

end PrimaryBlockProcessor

/-! ## The whole bundle on the wire -/

section Transfer

variable {params : Params} {os : Oasys} {bundle : Bundle} {dict : Dictionary}

theorem Wired.placed {x : BlockInfo} {type : UInt8} {flags : UInt64} {field data : Bytes}
    (h : Wired params os bundle dict x type flags field data)
    (hsmall : bundle.payload.length + 7 < 2 ^ 32) (hloc : bundle.payload.location ≠ .nodata) :
    Placed bundle x := by
  have hpre := h.formed.pre_le
  have hoff : x.dataOffset.toNat =
      (preambleBytes type flags field (UInt64.ofNat data.length)).length := by
    rw [h.formed.offset, UInt32.toNat_ofNat', Nat.mod_eq_of_lt (by omega)]
  have hlen : x.dataLength.toNat = data.length := by
    rw [h.formed.length, UInt32.toNat_ofNat', Nat.mod_eq_of_lt h.formed.small]
  have hnowrap : x.dataOffset.toNat + x.dataLength.toNat < 2 ^ 32 := by
    by_cases hown : x.owner = .payload
    · have hshort := h.short hown
      rcases h.owner with ⟨-, hother⟩ | ⟨-, -, hdata⟩
      · rw [hown] at hother
        rcases hother with ho | ho <;> cases ho
      · rw [hdata] at hlen
        unfold BundlePayload.length at hsmall
        omega
    · rw [hoff, hlen]
      exact h.formed.no_wrap hown
  refine ⟨?_, ?_, ?_⟩
  · rw [h.wire_eq, List.length_append, BlockInfo.fullLength, UInt32.toNat_add,
      Nat.mod_eq_of_lt hnowrap, hoff, hlen]
  · rw [h.wire_eq, preambleBytes, List.cons_append]
    simp
  · intro hown
    refine ⟨?_, hloc, by omega⟩
    rw [hoff, h.formed.filled, hown, kept_payload, List.take_left]

/-- A bundle and its transmit list: the endpoint ids and the payload can be read, a primary block
is in front, and one payload block stands among extension blocks that are passed on. -/
structure Sendable (params : Params) (os : Oasys) (bundle : Bundle) (entries : List Prepared) :
    Prop where
  plain : PrimaryBlockProcessor.usesIpn bundle = false
  priority : bundle.priority.toNat < 4
  dest : Wellformed os bundle.dest
  source : Wellformed os bundle.source
  replyto : Wellformed os bundle.replyto
  custodian : Wellformed os bundle.custodian
  location : bundle.payload.location ≠ .nodata
  row : ∃ first before payload behind, entries = first :: (before ++ payload :: behind) ∧
    first.generator = .primary ∧ payload.generator = .payload ∧
    ∀ entry ∈ before ++ behind, PassedOn params os entry

private theorem sameBlock_erase {x r : BlockInfo} (h : SameBlock x r.erase) : SameBlock x r :=
  ⟨h.type, h.flags, h.eidList, h.contents, h.data⟩

private theorem sameBundle_erase {r : Bundle} (h : SameBundle bundle r.erase) :
    SameBundle bundle r :=
  ⟨h.source, h.dest, h.replyto, h.custodian, h.processing, h.reports, h.priority, h.creationTs,
    h.expiration, h.fragment, h.payload⟩

private theorem row_owners {before behind : List Prepared} {payload : Prepared}
    (hpay : payload.generator = .payload)
    (hpass : ∀ entry ∈ before ++ behind, PassedOn params os entry) :
    ((before ++ payload :: behind).map fun entry => entry.generator.owner).count .payload = 1 := by
  have hnone : ∀ l : List Prepared, (∀ entry ∈ l, PassedOn params os entry) →
      (l.map fun entry => entry.generator.owner).count .payload = 0 := by
    intro l hl
    rw [List.count_eq_zero, List.mem_map]
    rintro ⟨entry, hmem, howner⟩
    rcases (hl entry hmem).generator with hg | hg <;> rw [hg] at howner <;> cases howner
  rw [List.map_append, List.map_cons, List.count_append, List.count_cons, hpay,
    hnone before fun e he => hpass e (List.mem_append_left _ he),
    hnone behind fun e he => hpass e (List.mem_append_right _ he)]
  rfl

theorem generateBlocks_spec {entries : List Prepared} {dict : Dictionary}
    {xmit : BlockInfoVec XmitBlock} (h : Sendable params os bundle entries)
    (hsmall : bundle.payload.length + 7 < 2 ^ 32)
    (hprep : PrimaryBlockProcessor.prepare bundle = .ok dict)
    (hgen : generateBlocks os bundle entries dict = .ok xmit) :
    ∃ x xs, xmit.blocks = x :: xs ∧ xmit.dict.Sound ∧
      PrimaryBlockProcessor.Readable os bundle xmit.dict ∧
      PrimaryBlockProcessor.generatePrimary os bundle xmit.dict (BlockInfo.new os .primary) =
        .ok x.toBlockInfo ∧
      (∀ y ∈ xs, ∃ type flags field data,
        Wired params os bundle xmit.dict y.toBlockInfo type flags field data) ∧
      LastMarked xs ∧ (xs.map fun y => y.owner).count .payload = 1 := by
  obtain ⟨first, before, payload, behind, rfl, hfirst, hpay, hpass⟩ := h.row
  obtain ⟨hd, hkd, hks, hkr, hkc⟩ := PrimaryBlockProcessor.prepare_spec h.dest.named h.source.named
    h.replyto.named h.custodian.named hprep
  rw [generateBlocks] at hgen
  obtain ⟨_, _, hgen⟩ := Exec.bind_eq_ok.mp hgen
  obtain ⟨_, _, hgen⟩ := Exec.bind_eq_ok.mp hgen
  obtain ⟨⟨blocks, final⟩, heach, hgen⟩ := Exec.bind_eq_ok.mp hgen
  rw [generateEach] at heach
  obtain ⟨⟨front, mid⟩, hfront, heach⟩ := Exec.bind_eq_ok.mp heach
  obtain ⟨_, _, heach⟩ := Exec.bind_eq_ok.mp heach
  obtain ⟨_, _, heach⟩ := Exec.bind_eq_ok.mp heach
  obtain ⟨⟨xs, final'⟩, hrow, heach⟩ := Exec.bind_eq_ok.mp heach
  simp only [pure, Except.pure, Except.ok.injEq, Prod.mk.injEq] at heach
  obtain ⟨rfl, rfl⟩ := heach
  rw [generate, hfirst] at hfront
  obtain ⟨_, _, hfront⟩ := Exec.bind_eq_ok.mp hfront
  simp only [pure, Except.pure, Except.ok.injEq, Prod.mk.injEq] at hfront
  obtain ⟨rfl, rfl⟩ := hfront
  obtain ⟨info, hinfo, hgen⟩ := Exec.bind_eq_ok.mp hgen
  obtain ⟨_, _, hgen⟩ := Exec.bind_eq_ok.mp hgen
  simp only [pure, Except.pure, Except.ok.injEq] at hgen
  subst hgen
  have hentries : ∀ entry ∈ before ++ payload :: behind,
      entry.generator = .payload ∨ PassedOn params os entry := by
    intro entry hmem
    rcases List.mem_append.mp hmem with hb | hb
    · exact Or.inr (hpass entry (List.mem_append_left _ hb))
    · rcases List.mem_cons.mp hb with rfl | hb
      · exact Or.inl hpay
      · exact Or.inr (hpass entry (List.mem_append_right _ hb))
  obtain ⟨hgrow, hmarked, howners, hwired⟩ := generateEach_spec hd (by omega) hentries hrow
  refine ⟨_, _, rfl, hgrow.sound, ?_, hinfo, hwired, hmarked, ?_⟩
  · exact ⟨h.plain, h.priority, ⟨h.dest, hkd.mono hgrow⟩, ⟨h.source, hks.mono hgrow⟩,
      ⟨h.replyto, hkr.mono hgrow⟩, ⟨h.custodian, hkc.mono hgrow⟩⟩
  · rw [howners]
    exact row_owners hpay hpass

theorem row_placed {x : XmitBlock} {xs : List XmitBlock} (hplaced : Placed bundle x.toBlockInfo)
    (hwired : ∀ y ∈ xs, ∃ type flags field data,
      Wired params os bundle dict y.toBlockInfo type flags field data)
    (hsmall : bundle.payload.length + 7 < 2 ^ 32) (hloc : bundle.payload.location ≠ .nodata) :
    ∀ y ∈ x :: xs, Placed bundle y.toBlockInfo := by
  intro y hy
  cases List.mem_cons.mp hy with
  | inl hfirst =>
      rw [hfirst]
      exact hplaced
  | inr hy =>
      obtain ⟨type, flags, field, data, hw⟩ := hwired y hy
      exact hw.placed hsmall hloc

theorem row_marked {x : XmitBlock} {xs : List XmitBlock} (howner : x.owner = .primary)
    (hxs : xs ≠ []) (hmarked : LastMarked xs) : LastMarked (x :: xs) := by
  refine ⟨⟨0, PrimaryBlockProcessor.flags_of_primary howner, ?_⟩, hmarked⟩
  cases xs with
  | nil => exact absurd rfl hxs
  | cons y ys => rfl

/-- A bundle that is generated and produced arrives as it was sent, however its bytes are cut into
chunks on the way. -/
theorem feed_produced {entries : List Prepared} {dict : Dictionary}
    {xmit : BlockInfoVec XmitBlock} (h : Sendable params os bundle entries)
    (hsmall : bundle.payload.length + 7 < 2 ^ 32)
    (hprep : PrimaryBlockProcessor.prepare bundle = .ok dict)
    (hgen : generateBlocks os bundle entries dict = .ok xmit) :
    ∃ bytes, produce os bundle xmit.blocks 0 (totalLength xmit.blocks) = .ok (bytes, true) ∧
      ∀ (id : Nat) (now : UInt64) (chunks : List Bytes), chunks.flatten = bytes →
        (∀ chunk ∈ chunks, chunk ≠ [] ∧ chunk.length < 2 ^ 31) →
        ∃ result, feed params os (Bundle.new id now) chunks = .ok (result, taken chunks) ∧
          SameBundle bundle result ∧
          List.Forall₂ (fun (x : XmitBlock) r => SameBlock x.toBlockInfo r) xmit.blocks
            result.recvBlocks.blocks := by
  obtain ⟨x, xs, hblocks, hd, hr, hprimary, hwired, hmarked, hcount⟩ :=
    generateBlocks_spec h hsmall hprep hgen
  have hxs : xs ≠ [] := by
    rintro rfl
    simp at hcount
  have hmem : Processor.payload ∈ xs.map (fun y => y.owner) := by
    rw [← List.count_pos_iff]
    omega
  have harrives := fun (id : Nat) (now : UInt64) =>
    PrimaryBlockProcessor.primary_arrives params id now hd hr hprimary
  obtain ⟨hplaced, howner, -⟩ := harrives 0 0
  have hall := row_placed hplaced hwired hsmall h.location
  have hmarked' := row_marked howner hxs hmarked
  have htotal := totalLength_eq hall
  have hpos : 0 < (wires bundle (x :: xs)).length := by
    have hp := hplaced.pos
    rw [wires_cons, List.length_append]
    omega
  refine ⟨wires bundle (x :: xs), ?_, ?_⟩
  · rw [hblocks, htotal, produce_spec hall hmarked' hpos hpos, List.drop_zero, List.take_length,
      decide_eq_true (by omega)]
  intro id now chunks hflat hchunks
  obtain ⟨-, -, hfront⟩ := harrives id now
  obtain ⟨blk, d, hparse, hfits, hcomplete, hsame⟩ := hfront (wires bundle xs)
  have hbase : (pushBlock (PrimaryBlockProcessor.arrived bundle (Bundle.new id now) xmit.dict)
      blk).recvBlocks.dict = xmit.dict.installed := by
    change (PrimaryBlockProcessor.arrived bundle (Bundle.new id now) xmit.dict).recvBlocks.dict = _
    rw [PrimaryBlockProcessor.arrived_recvBlocks]
  have hempty : (pushBlock (PrimaryBlockProcessor.arrived bundle (Bundle.new id now) xmit.dict)
      blk).payload.data = [] := by
    change (PrimaryBlockProcessor.arrived bundle (Bundle.new id now) xmit.dict).payload.data = _
    rw [PrimaryBlockProcessor.arrived_payload]
    rfl
  obtain ⟨first, tail, result, hbytes, hparses, hjoined⟩ := parses_row hd hxs hbase hwired hmarked
    (by omega) fun _ => hempty
  rw [hbytes] at hparse hfits
  have hwhole : Parses params os (Bundle.new id now) .primary (wires bundle (x :: xs)) result := by
    rw [wires_cons, hbytes]
    exact .next hparse hfits hcomplete hparses
  obtain ⟨r, hfeed, herase⟩ := feed_of_parses hwhole chunks hflat
    (fun c hc => (hchunks c hc).1) fun c hc => (hchunks c hc).2
  refine ⟨r, hfeed, sameBundle_erase ?_, ?_⟩
  · rw [herase]
    apply PrimaryBlockProcessor.sameBundle_arrived bundle (Bundle.new id now) xmit.dict
      hjoined.fields
    rw [hjoined.payload, hempty, if_pos hmem, List.nil_append]
  · obtain ⟨rs, hrs, hsames⟩ := hjoined.blocks
    have hnil : (PrimaryBlockProcessor.arrived bundle (Bundle.new id now)
        xmit.dict).recvBlocks.blocks = [] := by
      rw [PrimaryBlockProcessor.arrived_recvBlocks]
      rfl
    have hlist : r.recvBlocks.blocks.map BlockInfo.erase = blk :: rs := by
      change r.erase.recvBlocks.blocks = _
      rw [herase, hrs]
      change ((PrimaryBlockProcessor.arrived bundle (Bundle.new id now)
        xmit.dict).recvBlocks.blocks ++ [blk]) ++ rs = _
      rw [hnil]
      rfl
    have hforall : List.Forall₂ (fun (x : XmitBlock) r => SameBlock x.toBlockInfo r) (x :: xs)
        (r.recvBlocks.blocks.map BlockInfo.erase) := by
      rw [hlist]
      exact .cons hsame hsames
    rw [hblocks]
    rw [List.forall₂_map_right_iff] at hforall
    exact hforall.imp fun _ _ => sameBlock_erase

end Transfer

def sampleBundle : Bundle :=
  { Bundle.new 1 0 with
    source := ⟨ascii ['d', 't', 'n', ':', '/', '/', 'a'], true⟩
    dest := ⟨ascii ['d', 't', 'n', ':', '/', '/', 'b'], true⟩
    replyto := ⟨ascii ['d', 't', 'n', ':', '/', '/', 'a'], true⟩
    custodian := ⟨EndpointID.dtnNone, true⟩
    isFragment := true
    fragOffset := 200
    origLength := 300
    expiration := 3600
    payload := ⟨.memory, [0xaa, 0xbb, 0xcc]⟩ }

/-- A received block of an unknown type with one endpoint id and two bytes of data. -/
def sampleExtension : BlockInfo where
  owner := .unknown
  eidList := [⟨ascii ['d', 't', 'n', ':', '/', '/', 'c'], true⟩]
  contents := ⟨[0x20, 0x41, 1, 0, 3, 2, 7, 7], List.replicate 56 0⟩
  dataLength := 2
  dataOffset := 6
  complete := true
  locals := none

def sampleEntries : List Prepared :=
  [⟨.primary, none⟩, ⟨.payload, none⟩, ⟨.unknown, some sampleExtension⟩]

private theorem sample_wellformed : ∀ eid ∈ [sampleBundle.dest, sampleBundle.source,
    sampleBundle.replyto, sampleBundle.custodian, ⟨ascii ['d', 't', 'n', ':', '/', '/', 'c'], true⟩],
    Wellformed .plain eid := by
  have hall : ∀ eid ∈ [sampleBundle.dest, sampleBundle.source, sampleBundle.replyto,
      sampleBundle.custodian, ⟨ascii ['d', 't', 'n', ':', '/', '/', 'c'], true⟩],
      eid.schemeStr ≠ [] ∧ eid.ssp ≠ [] ∧ 0 ∉ eid.schemeStr ∧ 0 ∉ eid.ssp ∧
        Oasys.plain.assign (eid.schemeStr ++ EndpointID.colon :: eid.ssp) = eid := by
    decide +kernel
  intro eid hmem
  obtain ⟨h1, h2, h3, h4, h5⟩ := hall eid hmem
  exact ⟨⟨h1, h2, h3, h4⟩, h5⟩

theorem sample_sendable (data : Bytes) :
    Sendable .default .plain (setPayload sampleBundle data) sampleEntries where
  plain := by
    change PrimaryBlockProcessor.usesIpn sampleBundle = false
    decide +kernel
  priority := by
    change sampleBundle.priority.toNat < 4
    decide
  dest := sample_wellformed _ (by simp [setPayload])
  source := sample_wellformed _ (by simp [setPayload])
  replyto := sample_wellformed _ (by simp [setPayload])
  custodian := sample_wellformed _ (by simp [setPayload])
  location := by
    change Location.memory ≠ .nodata
    decide
  row := by
    refine ⟨_, [], _, [⟨.unknown, some sampleExtension⟩], rfl, rfl, rfl, ?_⟩
    intro entry hmem
    rw [List.nil_append, List.mem_singleton] at hmem
    subst hmem
    refine ⟨Or.inl rfl, ?_, ?_, ?_⟩
    · intro source t hs ht
      obtain rfl := Option.some.inj hs
      have htype : sampleExtension.type = .ok 0x20 := by decide +kernel
      rw [htype] at ht
      obtain rfl := Except.ok.inj ht
      rfl
    · intro source hs eid hmem
      obtain rfl := Option.some.inj hs
      obtain rfl := List.mem_singleton.mp hmem
      exact sample_wellformed _ (by simp)
    · intro source flags hs _ _
      obtain rfl := Option.some.inj hs
      exact ⟨rfl, by decide⟩

theorem feed_produced_sample : ∃ dict xmit bytes result,
    PrimaryBlockProcessor.prepare sampleBundle = .ok dict ∧
    generateBlocks .plain sampleBundle sampleEntries dict = .ok xmit ∧
    produce .plain sampleBundle xmit.blocks 0 (totalLength xmit.blocks) = .ok (bytes, true) ∧
    feed .default .plain (Bundle.new 2 0) (bytes.map fun b => [b]) =
      .ok (result, taken (bytes.map fun b => [b])) ∧
    SameBundle sampleBundle result ∧
    List.Forall₂ (fun (x : XmitBlock) r => SameBlock x.toBlockInfo r) xmit.blocks
      result.recvBlocks.blocks := by
  have hrun : (PrimaryBlockProcessor.prepare sampleBundle >>=
      generateBlocks .plain sampleBundle sampleEntries).isOk = true := by decide +kernel
  cases hall : PrimaryBlockProcessor.prepare sampleBundle >>=
      generateBlocks .plain sampleBundle sampleEntries with
  | error e =>
      rw [hall] at hrun
      cases hrun
  | ok xmit =>
      obtain ⟨dict, hprep, hgen⟩ := Exec.bind_eq_ok.mp hall
      obtain ⟨bytes, hproduce, hfeed⟩ := feed_produced (sample_sendable sampleBundle.payload.data)
        (by decide) hprep hgen
      have hflat : (bytes.map fun b => [b]).flatten = bytes := by
        clear hproduce hfeed
        induction bytes with
        | nil => rfl
        | cons b bs ih => rw [List.map_cons, List.flatten_cons, ih, List.singleton_append]
      obtain ⟨result, hresult⟩ := hfeed 2 0 (bytes.map fun b => [b]) hflat (by simp)
      exact ⟨dict, xmit, bytes, result, hprep, hgen, hproduce, hresult⟩

/-- The same bundle with a payload whose length does not fit into 32 bits. -/
def largeBundle : Bundle := setPayload sampleBundle (List.replicate (2 ^ 32) 0)

/-- The sender cuts the length of the payload block to 32 bits, so it produces the preambles only;
the receiver finds a length it does not take. -/
theorem feed_produced_large : Sendable .default .plain largeBundle sampleEntries ∧
    ∃ dict xmit bytes, PrimaryBlockProcessor.prepare largeBundle = .ok dict ∧
      generateBlocks .plain largeBundle sampleEntries dict = .ok xmit ∧
      produce .plain largeBundle xmit.blocks 0 (totalLength xmit.blocks) = .ok (bytes, true) ∧
      feed .default .plain (Bundle.new 2 0) [bytes] = .error .protocolError := by
  refine ⟨sample_sendable _, ?_⟩
  have hlen : largeBundle.payload.length = 2 ^ 32 := List.length_replicate
  have hrun : (do
      let dict ← PrimaryBlockProcessor.prepare largeBundle
      let xmit ← generateBlocks .plain largeBundle sampleEntries dict
      let r ← produce .plain largeBundle xmit.blocks 0 (totalLength xmit.blocks)
      pure (r.2 && decide (feed .default .plain (Bundle.new 2 0) [r.1] = .error .protocolError)) :
      Exec Bool) = .ok true := by
    simp only [generateBlocks, sampleEntries, generateEach, generate,
      PayloadBlockProcessor.generate, hlen]
    decide +kernel
  obtain ⟨dict, hprep, hrun⟩ := Exec.bind_eq_ok.mp hrun
  obtain ⟨xmit, hgen, hrun⟩ := Exec.bind_eq_ok.mp hrun
  obtain ⟨⟨bytes, last⟩, hproduce, hrun⟩ := Exec.bind_eq_ok.mp hrun
  simp only [pure, Except.pure, Except.ok.injEq, Bool.and_eq_true, decide_eq_true_eq] at hrun
  obtain ⟨rfl, hfeed⟩ := hrun
  exact ⟨dict, xmit, bytes, hprep, hgen, hproduce, hfeed⟩

end Dtn2
