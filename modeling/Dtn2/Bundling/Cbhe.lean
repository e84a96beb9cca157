import Dtn2.Bundling.RoundTrip

/-!
# Compressed bundle headers

When the destination is an `ipn` endpoint id, the primary block has no dictionary: the four
endpoint ids are pairs of numbers, which `get_ipn` scans and `make_ipn` prints. What the receiver
prints is the endpoint id of the sender exactly when that is in the form `make_ipn` gives it.
-/

namespace Dtn2

open Framework BundleProtocol

namespace PrimaryBlockProcessor

variable {params : Params} {os : Oasys} {bundle : Bundle} {dict : Dictionary}

/-- The receiver has the four endpoint ids of the sender. -/
structure SameEids (bundle result : Bundle) : Prop where
  dest : result.dest = bundle.dest
  source : result.source = bundle.source
  replyto : result.replyto = bundle.replyto
  custodian : result.custodian = bundle.custodian

/-- `generate_primary` writes a block of the length it has computed, and `consume` reads the four
endpoint ids from it. -/
def CbheRoundTrip (params : Params) (os : Oasys) (bundle : Bundle) (dict : Dictionary) : Prop :=
  ∃ block, generatePrimary os bundle dict (BlockInfo.new os .primary) = .ok block ∧
    (∃ primary, getPrimaryLen bundle dict = .ok (block.contents.len, primary)) ∧
    ∀ (id : Nat) (now : UInt64), ∃ result info,
      consumeBlock params os (Bundle.new id now) (BlockInfo.new os .primary) block.contents.filled =
        .ok (result, info, block.contents.len) ∧ info.complete = true ∧ SameEids bundle result

/-! ## Sending -/

def receivedEid (os : Oasys) (e : EndpointID) : EndpointID :=
  os.assign (makeIpn (getIpn e 0 0).2.1 (getIpn e 0 0).2.2)

/-- The endpoint id fields are the numbers that `get_ipn` finds in the endpoint ids. -/
structure NumbersOf (bundle : Bundle) (eids : PrimaryBlock) : Prop where
  length : eids.dictionaryLength = 0
  dest : (eids.destSchemeOffset, eids.destSspOffset) = (getIpn bundle.dest 0 0).2
  source : (eids.sourceSchemeOffset, eids.sourceSspOffset) = (getIpn bundle.source 0 0).2
  replyto : (eids.replytoSchemeOffset, eids.replytoSspOffset) = (getIpn bundle.replyto 0 0).2
  custodian : (eids.custodianSchemeOffset, eids.custodianSspOffset) = (getIpn bundle.custodian 0 0).2

variable (bundle) in
theorem ipnFields_spec : (ipnFields bundle = none ∧ (getIpn bundle.dest 0 0).1 = false) ∨
    ∃ eids, ipnFields bundle = some eids ∧ NumbersOf bundle eids := by
  unfold ipnFields
  cases hdest : (getIpn bundle.dest 0 0).1 with
  | false => exact Or.inl ⟨by simp [hdest], rfl⟩
  | true =>
      simp only [hdest, if_true]
      exact Or.inr ⟨_, rfl, rfl, rfl, rfl, rfl, rfl⟩

/-- A destination in which `get_ipn` finds no number leaves nothing to send. -/
theorem generatePrimary_none (huses : usesIpn bundle = true) (hnone : ipnFields bundle = none)
    (block x : BlockInfo) : generatePrimary os bundle dict block ≠ .ok x := by
  intro hgen
  have hget : getPrimaryLen bundle dict = .ok (0, PrimaryBlock.zero) := by
    rw [getPrimaryLen, huses, hnone]
    rfl
  have hlen := generatePrimary_len hget hgen
  have hzero : toInt 0 = 0 := rfl
  omega

variable (bundle) in
private theorem primary_length_lt (eids : PrimaryBlock) :
    (primaryBytes bundle (completeFields bundle eids) []).length < 2 ^ 31 := by
  have hfields := sdnvs_length_le ([(completeFields bundle eids).processingFlags,
    (completeFields bundle eids).blockLength] ++ (completeFields bundle eids).fields)
  have hcount : ([(completeFields bundle eids).processingFlags,
    (completeFields bundle eids).blockLength] ++ (completeFields bundle eids).fields).length = 14 :=
    rfl
  have hfrag := sdnvs_length_le (fragmentFields bundle)
  have hfcount : (fragmentFields bundle).length ≤ 2 := by
    unfold fragmentFields
    split <;> simp
  rw [primaryBytes, List.length_cons, List.length_append, List.length_append, List.length_nil]
  omega

variable (os dict) in
theorem generatePrimary_ipn {eids : PrimaryBlock} (huses : usesIpn bundle = true)
    (heids : ipnFields bundle = some eids) (hnum : NumbersOf bundle eids) :
    ∃ x, generatePrimary os bundle dict (BlockInfo.new os .primary) = .ok x ∧
      x.contents.filled = primaryBytes bundle (completeFields bundle eids) [] ∧
      ∃ primary, getPrimaryLen bundle dict = .ok (x.contents.len, primary) := by
  have hzero : eids.dictionaryLength.toNat = 0 := by
    rw [hnum.length]
    rfl
  have htake : dict.dict.take eids.dictionaryLength.toNat = [] := by
    rw [hzero, List.take_zero]
  have hget : getPrimaryLen bundle dict = .ok
      ((primaryBytes bundle (completeFields bundle eids)
        (dict.dict.take eids.dictionaryLength.toNat)).length, completeFields bundle eids) := by
    rw [primaryBytes_length (by omega) (by rw [htake, hzero]; rfl), getPrimaryLen, huses]
    simp only [if_true, heids]
    rfl
  have hlt := primary_length_lt bundle eids
  obtain ⟨contents, hfilled, hok⟩ := generatePrimary_spec os (by rw [htake, hzero]; rfl)
    hget (by rw [htake]; exact hlt) (BlockInfo.new os .primary)
  rw [htake] at hget hfilled
  refine ⟨_, hok, hfilled, completeFields bundle eids, ?_⟩
  rw [hget, ScratchBuffer.len, hfilled]

/-! ## Receiving -/

private theorem assigned {e : EndpointID} {n m : UInt64} (h : (n, m) = (getIpn e 0 0).2) :
    assignIpn os n m = .ok (receivedEid os e) := by
  rw [assignIpn_eq, receivedEid, ← h]

/-- A bundle with the endpoint ids that the receiver prints. -/
def withNumbers (os : Oasys) (bundle b : Bundle) : Bundle :=
  { b with
    source := receivedEid os bundle.source
    dest := receivedEid os bundle.dest
    replyto := receivedEid os bundle.replyto
    custodian := receivedEid os bundle.custodian }

theorem parseEids_ipn {eids : PrimaryBlock} (hnum : NumbersOf bundle eids) (b : Bundle)
    (rest : Bytes) :
    parseEids os (parseTimes b (behindLength (completeFields bundle eids)))
        (behindLength (completeFields bundle eids)) rest =
      .ok (withNumbers os bundle
        (parseTimes b (behindLength (completeFields bundle eids)))) := by
  have hzero : (behindLength (completeFields bundle eids)).dictionaryLength = 0 := hnum.length
  rw [parseEids, if_pos hzero, parseIpnEids]
  simp only [behindLength, completeFields, assigned hnum.source, assigned hnum.dest,
    assigned hnum.replyto, assigned hnum.custodian]
  rfl

private theorem new_holds (id : Nat) (now : UInt64) :
    Holds os .primary [] [] (Bundle.new id now) where
  payload_data := by
    rw [partialData_of_ne (by decide)]
    rfl
  pre_nil := by simp
  location := by
    change Location.disk ≠ .nodata
    decide

variable (os) in
private theorem finish_ipn {eids : PrimaryBlock} {info : BlockInfo} (hnum : NumbersOf bundle eids)
    (hread : PrimaryRead bundle (completeFields bundle eids) [] info) (base : Bundle) :
    ∃ result, finish os base info = .ok result ∧ result.dest = receivedEid os bundle.dest ∧
      result.source = receivedEid os bundle.source ∧
      result.replyto = receivedEid os bundle.replyto ∧
      result.custodian = receivedEid os bundle.custodian := by
  have hlen : ([] : Bytes).length = (completeFields bundle eids).dictionaryLength.toNat := by
    change 0 = eids.dictionaryLength.toNat
    rw [hnum.length]
    rfl
  have hfrag : (withNumbers os bundle (parseTimes (parseFlags base
      (completeFields bundle eids).processingFlags)
      (behindLength (completeFields bundle eids)))).isFragment = bundle.isFragment :=
    parseFlags_isFragment bundle base
  rw [finish_primaryBytes hread.filled hread.full hread.data hlen (Or.inl rfl),
    parseEids_ipn hnum, Exec.ok_bind, parseFragment_sdnvs hfrag]
  refine ⟨_, rfl, ?_⟩
  unfold withFragment
  split <;> exact ⟨rfl, rfl, rfl, rfl⟩

variable (params os) in
theorem consumeBlock_ipn {eids : PrimaryBlock} (hnum : NumbersOf bundle eids) (id : Nat)
    (now : UInt64) :
    ∃ result info, consumeBlock params os (Bundle.new id now) (BlockInfo.new os .primary)
        (primaryBytes bundle (completeFields bundle eids) []) =
          .ok (result, info, (primaryBytes bundle (completeFields bundle eids) []).length) ∧
      info.complete = true ∧ result.dest = receivedEid os bundle.dest ∧
      result.source = receivedEid os bundle.source ∧
      result.replyto = receivedEid os bundle.replyto ∧
      result.custodian = receivedEid os bundle.custodian := by
  have hlt := primary_length_lt bundle eids
  have hbl : (completeFields bundle eids).blockLength.toNat =
      (sdnvs (completeFields bundle eids).fields ++ ([] ++ sdnvs (fragmentFields bundle))).length := by
    have hzero : eids.dictionaryLength.toNat = 0 := by
      rw [hnum.length]
      rfl
    rw [completeFields_blockLength bundle (by omega), List.length_append, List.nil_append]
    omega
  obtain ⟨blk, d, hp, hfits, hread⟩ := parse_primaryBytes os
    (new_dict_length id now) (formatFlags_plain bundle) hbl hlt []
  generalize hbytes : primaryBytes bundle (completeFields bundle eids) [] = bytes at hp hfits hlt
  have hrep := represents_new os (Bundle.new id now).recvBlocks.dict .primary
  have hsize : ChunkFits (BlockInfo.new os .primary) bytes := by
    refine ⟨hlt, fun _ => ?_⟩
    change 0 + bytes.length < _
    omega
  have hcall : CallFits os (Bundle.new id now) (BlockInfo.new os .primary) bytes :=
    BlockFits.callFits hrep hp hfits rfl (by simp)
  rw [List.append_nil] at hp
  obtain ⟨info, herase, -, hconsume⟩ := consumeBlock_complete params hrep
    (new_holds id now) hsize hcall (by decide) hp
  have hread' : PrimaryRead bundle (completeFields bundle eids) [] info := by
    rw [← herase] at hread
    exact ⟨hread.owner, hread.filled, hread.full, hread.data, hread.eids⟩
  have hset : setPayload (Bundle.new id now) ([] ++ moved .primary d) = Bundle.new id now := rfl
  obtain ⟨result, hfinish, heids⟩ := finish_ipn os hnum hread' (Bundle.new id now)
  have hblock : finishBlock params os (Bundle.new id now) info = .ok (result, info) := by
    rw [finishBlock, hread'.owner]
    simp only
    rw [hfinish]
    rfl
  refine ⟨result, info, ?_, ?_, heids⟩
  · rw [hconsume, hset, hblock, Exec.ok_bind]
    rfl
  · have hcomplete : blk.complete = true := by
      obtain ⟨p, tail, -, -, -, rfl, -⟩ := parseBlock_eq_complete hp
      rfl
    rw [← herase] at hcomplete
    exact hcomplete

/-! ## Round trip -/

theorem receivedEid_eq_iff {e : EndpointID} (hassign : os.assign e.uri = e)
    (hkeeps : ∀ s, CanonicalIpn s → (os.assign s).uri = s) :
    receivedEid os e = e ↔ CanonicalIpn e.uri := by
  constructor
  · intro h
    have hcanon := makeIpn_canonical (getIpn e 0 0).2.1 (getIpn e 0 0).2.2
    have huri := congrArg EndpointID.uri h
    rw [receivedEid, hkeeps _ hcanon] at huri
    rwa [← huri]
  · intro h
    rw [receivedEid, (getIpn_canonical h).2, hassign]

theorem usesIpn_of_scheme (h : bundle.dest.schemeStr = ascii ['i', 'p', 'n']) :
    usesIpn bundle = true := by
  have huri : bundle.dest.uri =
      ascii ['i', 'p', 'n'] ++ bundle.dest.uri.dropWhile (· ≠ EndpointID.colon) := by
    rw [← h]
    exact (List.takeWhile_append_dropWhile).symm
  rw [usesIpn, huri, cString, List.takeWhile_append_of_pos (by decide +kernel)]
  simp

/-- A bundle for an `ipn` destination is sent and received with its four endpoint ids exactly if
all of them are in the form that `make_ipn` prints. -/
theorem cbheRoundTrip_iff (params : Params) (os : Oasys) (bundle : Bundle) (dict : Dictionary)
    (hscheme : bundle.dest.schemeStr = ascii ['i', 'p', 'n'])
    (hassign : ∀ e ∈ [bundle.dest, bundle.source, bundle.replyto, bundle.custodian],
      e.valid = true ∧ os.assign e.uri = e)
    (hkeeps : ∀ s, CanonicalIpn s → (os.assign s).uri = s) :
    CbheRoundTrip params os bundle dict ↔
      ∀ e ∈ [bundle.dest, bundle.source, bundle.replyto, bundle.custodian], CanonicalIpn e.uri := by
  have huses := usesIpn_of_scheme hscheme
  have heid := fun e he => receivedEid_eq_iff (hassign e he).2 hkeeps
  rcases ipnFields_spec bundle with ⟨hnone, hdest⟩ | ⟨eids, heids, hnum⟩
  · constructor
    · rintro ⟨block, hgen, -⟩
      exact absurd hgen (generatePrimary_none huses hnone _ _)
    · intro hall
      have htrue := (getIpn_canonical (hall bundle.dest (by simp))).1
      rw [hdest] at htrue
      cases htrue
  · obtain ⟨x, hgen, hfilled, hlen⟩ := generatePrimary_ipn os dict huses heids hnum
    have hlength : x.contents.len = (primaryBytes bundle (completeFields bundle eids) []).length := by
      rw [ScratchBuffer.len, hfilled]
    constructor
    · rintro ⟨block, hblock, -, hconsume⟩
      rw [hgen] at hblock
      obtain rfl := Except.ok.inj hblock
      obtain ⟨result, info, hcons, -, hsame⟩ := hconsume 0 0
      obtain ⟨result', info', hcons', -, hd, hs, hr, hc⟩ :=
        consumeBlock_ipn params os hnum 0 0
      rw [hfilled, hcons', hlength] at hcons
      simp only [Except.ok.injEq, Prod.mk.injEq] at hcons
      obtain ⟨rfl, -⟩ := hcons
      intro e he
      apply (heid e he).mp
      simp only [List.mem_cons, List.not_mem_nil, or_false] at he
      rcases he with rfl | rfl | rfl | rfl
      · rw [← hd, hsame.dest]
      · rw [← hs, hsame.source]
      · rw [← hr, hsame.replyto]
      · rw [← hc, hsame.custodian]
    · intro hall
      refine ⟨x, hgen, hlen, ?_⟩
      intro id now
      obtain ⟨result, info, hcons, hcomplete, hd, hs, hr, hc⟩ :=
        consumeBlock_ipn params os hnum id now
      have hback := fun e he => (heid e he).mpr (hall e he)
      rw [hfilled, hlength]
      exact ⟨result, info, hcons, hcomplete, hd.trans (hback _ (by simp)),
        hs.trans (hback _ (by simp)), hr.trans (hback _ (by simp)), hc.trans (hback _ (by simp))⟩

/-- A bundle from one `ipn` node to another. -/
def sampleIpn : Bundle :=
  { Bundle.new 1 0 with
    source := ⟨ascii ['i', 'p', 'n', ':', '/', '/', '5'], true⟩
    dest := ⟨ascii ['i', 'p', 'n', ':', '/', '/', '7', '/', '2'], true⟩
    replyto := ⟨EndpointID.dtnNone, true⟩
    custodian := ⟨EndpointID.dtnNone, true⟩ }

private theorem plain_keeps (s : Bytes) : (Oasys.plain.assign s).uri = s := rfl

theorem cbheRoundTrip_sample : CbheRoundTrip .default .plain sampleIpn .empty := by
  apply (cbheRoundTrip_iff .default .plain sampleIpn .empty (by decide +kernel) (by decide +kernel)
    fun s _ => plain_keeps s).mpr
  intro e he
  simp only [List.mem_cons, List.not_mem_nil, or_false] at he
  rcases he with rfl | rfl | rfl | rfl
  · exact .service 7 2 (by decide) (by decide)
  · exact .node 5 (by decide)
  · exact .none
  · exact .none

/-- The same bundle from a node with another scheme. -/
def sampleForeign : Bundle :=
  { sampleIpn with source := ⟨ascii ['d', 't', 'n', ':', '/', '/', 'a'], true⟩ }

/-- The source of a bundle to an `ipn` destination is lost when it has another scheme: the
receiver finds the null endpoint id. -/
theorem not_cbheRoundTrip_foreign :
    (IPNScheme.validate sampleForeign.dest = true ∧
      ∀ e ∈ [sampleForeign.dest, sampleForeign.source, sampleForeign.replyto,
        sampleForeign.custodian], e.valid = true ∧ Oasys.plain.assign e.uri = e) ∧
    ¬ CbheRoundTrip .default .plain sampleForeign .empty := by
  refine ⟨by decide +kernel, ?_⟩
  rintro ⟨block, hgen, -, hconsume⟩
  obtain ⟨result, info, hcons, -, hsame⟩ := hconsume 0 0
  have hrun : (do
      let block ← generatePrimary .plain sampleForeign .empty (BlockInfo.new .plain .primary)
      let r ← consumeBlock .default .plain (Bundle.new 0 0) (BlockInfo.new .plain .primary)
        block.contents.filled
      pure r.1.source.uri : Exec Bytes) = .ok EndpointID.dtnNone := by decide +kernel
  rw [hgen, Exec.ok_bind, hcons, Exec.ok_bind] at hrun
  have huri : result.source.uri = EndpointID.dtnNone := Except.ok.inj hrun
  rw [hsame.source] at huri
  revert huri
  decide

end PrimaryBlockProcessor

end Dtn2
