import Dtn2.Bundling.FinishBlock
import Mathlib.Data.Nat.Bitwise

/-!
# The primary block, written and read

The primary block is as long as `get_primary_len` computes, its fields read as they were written,
and the processing flags survive the trip.
-/

namespace Dtn2

open Framework BundleProtocol

namespace PrimaryBlockProcessor

/-! ## Processing flags -/

private theorem and_mask_ne {x m : UInt64} {i : Nat} (hm : m.toNat = 2 ^ i) :
    decide (x &&& m ≠ 0) = x.toNat.testBit i := by
  have hand : (x &&& m).toNat = (x.toNat.testBit i).toNat * 2 ^ i := by
    rw [UInt64.toNat_and, hm, Nat.and_two_pow]
  have hzero : x &&& m = 0 ↔ x.toNat.testBit i = false := by
    rw [← UInt64.toNat_inj, hand]
    cases x.toNat.testBit i <;> simp
  cases hb : x.toNat.testBit i with
  | false => simp [hzero.mpr hb]
  | true =>
      have hne : ¬ x &&& m = 0 := fun h0 => by
        rw [hzero.mp h0] at hb
        cases hb
      simp [hne]

private theorem flagBit_testBit (c : Bool) {m : UInt64} {i : Nat} (hm : m.toNat = 2 ^ i) (j : Nat) :
    (flagBit c m).toNat.testBit j = (c && decide (i = j)) := by
  cases c with
  | false => simp [flagBit]
  | true => simp [flagBit, hm, Nat.testBit_two_pow]

private theorem priority_cases {p : UInt8} (h : p.toNat < 4) : p = 0 ∨ p = 1 ∨ p = 2 ∨ p = 3 := by
  have hp : p = UInt8.ofNat p.toNat := (UInt8.ofNat_toNat).symm
  rcases (by omega : p.toNat = 0 ∨ p.toNat = 1 ∨ p.toNat = 2 ∨ p.toNat = 3) with h | h | h | h
  · exact Or.inl (by rw [hp, h]; rfl)
  · exact Or.inr (Or.inl (by rw [hp, h]; rfl))
  · exact Or.inr (Or.inr (Or.inl (by rw [hp, h]; rfl)))
  · exact Or.inr (Or.inr (Or.inr (by rw [hp, h]; rfl)))

private theorem cosFlags_testBit {p : UInt8} (h : p.toNat < 4) (j : Nat) :
    (((p &&& 3).toUInt64 <<< 7).toNat).testBit j =
      ((p.toNat.testBit 0 && decide (7 = j)) || (p.toNat.testBit 1 && decide (8 = j))) := by
  rcases priority_cases h with rfl | rfl | rfl | rfl
  · exact Nat.zero_testBit j
  · exact (Nat.testBit_two_pow (n := 7)).trans (by simp [Nat.testBit_succ])
  · exact (Nat.testBit_two_pow (n := 8)).trans (by simp [Nat.testBit_succ])
  · have hsum : (((3 : UInt8) &&& 3).toUInt64 <<< 7).toNat = 2 ^ 7 ||| 2 ^ 8 := by decide
    rw [hsum, Nat.testBit_or, Nat.testBit_two_pow, Nat.testBit_two_pow]
    simp [Nat.testBit_succ]

def formatFlags (b : Bundle) : UInt64 :=
  formatBundleFlags b ||| formatCosFlags b ||| formatSrrFlags b

private theorem formatFlags_testBit {b : Bundle} (h : b.priority.toNat < 4) (j : Nat) :
    (formatFlags b).toNat.testBit j =
      ((b.isFragment && decide (0 = j)) || (b.isAdmin && decide (1 = j)) ||
        (b.doNotFragment && decide (2 = j)) || (b.custodyRequested && decide (3 = j)) ||
        (b.singletonDest && decide (4 = j)) || (b.appAckedRcpt && decide (5 = j)) ||
        ((b.priority.toNat.testBit 0 && decide (7 = j)) ||
          (b.priority.toNat.testBit 1 && decide (8 = j))) ||
        ((b.receiveRcpt && decide (14 = j)) || (b.custodyRcpt && decide (15 = j)) ||
          (b.forwardRcpt && decide (16 = j)) || (b.deliveryRcpt && decide (17 = j)) ||
          (b.deletionRcpt && decide (18 = j)))) := by
  simp only [formatFlags, formatBundleFlags, formatSrrFlags, formatCosFlags, UInt64.toNat_or,
    Nat.testBit_or, cosFlags_testBit h]
  rw [flagBit_testBit _ (i := 0) rfl, flagBit_testBit _ (i := 1) rfl,
    flagBit_testBit _ (i := 2) rfl, flagBit_testBit _ (i := 3) rfl,
    flagBit_testBit _ (i := 4) rfl, flagBit_testBit _ (i := 5) rfl,
    flagBit_testBit _ (i := 14) rfl, flagBit_testBit _ (i := 15) rfl,
    flagBit_testBit _ (i := 16) rfl, flagBit_testBit _ (i := 17) rfl,
    flagBit_testBit _ (i := 18) rfl]

private theorem formatFlags_masked (b : Bundle) :
    formatFlags { b with priority := b.priority &&& 3 } = formatFlags b := by
  have hmask : b.priority &&& 3 &&& 3 = b.priority &&& 3 := by
    rw [UInt8.and_assoc, UInt8.and_self]
  simp only [formatFlags, formatCosFlags, hmask]
  rfl

private theorem priority_masked (p : UInt8) : (p &&& 3).toNat < 4 := by
  rw [UInt8.toNat_and]
  exact Nat.lt_succ_of_le Nat.and_le_right

theorem formatFlags_plain (b : Bundle) : formatFlags b &&& blockFlagEidRefs = 0 := by
  have hbit : decide (formatFlags b &&& blockFlagEidRefs ≠ 0) = false := by
    rw [and_mask_ne (i := 6) rfl, ← formatFlags_masked, formatFlags_testBit (priority_masked _)]
    simp
  simpa using hbit

theorem parseFlags_isFragment (b base : Bundle) :
    (parseFlags base (formatFlags b)).isFragment = b.isFragment := by
  change decide (formatFlags b &&& bundleIsFragment ≠ 0) = _
  rw [and_mask_ne (i := 0) rfl, ← formatFlags_masked, formatFlags_testBit (priority_masked _)]
  simp

private theorem formatFlags_priority {b : Bundle} (h : b.priority.toNat < 4) :
    ((formatFlags b >>> 7) &&& 3).toUInt8 = b.priority := by
  apply UInt8.toNat_inj.mp
  apply Nat.eq_of_testBit_eq
  intro j
  have hcut : ((formatFlags b >>> 7) &&& 3).toUInt8.toNat =
      ((formatFlags b).toNat >>> 7) &&& 3 := by
    have hle : ((formatFlags b).toNat >>> 7) &&& 3 ≤ 3 := Nat.and_le_right
    rw [UInt64.toNat_toUInt8, UInt64.toNat_and, UInt64.toNat_shiftRight]
    exact Nat.mod_eq_of_lt (by
      change (formatFlags b).toNat >>> 7 &&& 3 < 2 ^ 8
      omega)
  rw [hcut, Nat.testBit_and, Nat.testBit_shiftRight, formatFlags_testBit h]
  rcases priority_cases h with hp | hp | hp | hp <;> rw [hp] <;>
    rcases j with _ | _ | j <;> simp [Nat.testBit_succ]

def withFlags (b base : Bundle) : Bundle :=
  { base with
    isFragment := b.isFragment
    isAdmin := b.isAdmin
    doNotFragment := b.doNotFragment
    custodyRequested := b.custodyRequested
    singletonDest := b.singletonDest
    appAckedRcpt := b.appAckedRcpt
    priority := b.priority
    receiveRcpt := b.receiveRcpt
    custodyRcpt := b.custodyRcpt
    forwardRcpt := b.forwardRcpt
    deliveryRcpt := b.deliveryRcpt
    deletionRcpt := b.deletionRcpt }

theorem parseFlags_formatFlags {b base : Bundle} (h : b.priority.toNat < 4)
    (hbase : base.receiveRcpt = false ∧ base.custodyRcpt = false ∧ base.forwardRcpt = false ∧
      base.deliveryRcpt = false ∧ base.deletionRcpt = false) :
    parseFlags base (formatFlags b) = withFlags b base := by
  obtain ⟨h1, h2, h3, h4, h5⟩ := hbase
  have hbits : decide (formatFlags b &&& bundleIsFragment ≠ 0) = b.isFragment ∧
      decide (formatFlags b &&& bundleIsAdmin ≠ 0) = b.isAdmin ∧
      decide (formatFlags b &&& bundleDoNotFragment ≠ 0) = b.doNotFragment ∧
      decide (formatFlags b &&& bundleCustodyXferRequested ≠ 0) = b.custodyRequested ∧
      decide (formatFlags b &&& bundleSingletonDestination ≠ 0) = b.singletonDest ∧
      decide (formatFlags b &&& bundleAckByApp ≠ 0) = b.appAckedRcpt := by
    rw [and_mask_ne (i := 0) rfl, and_mask_ne (i := 1) rfl, and_mask_ne (i := 2) rfl,
      and_mask_ne (i := 3) rfl, and_mask_ne (i := 4) rfl, and_mask_ne (i := 5) rfl]
    simp [formatFlags_testBit h]
  have hsrr : decide (formatFlags b &&& statusReceived ≠ 0) = b.receiveRcpt ∧
      decide (formatFlags b &&& statusCustodyAccepted ≠ 0) = b.custodyRcpt ∧
      decide (formatFlags b &&& statusForwarded ≠ 0) = b.forwardRcpt ∧
      decide (formatFlags b &&& statusDelivered ≠ 0) = b.deliveryRcpt ∧
      decide (formatFlags b &&& statusDeleted ≠ 0) = b.deletionRcpt := by
    rw [and_mask_ne (i := 14) rfl, and_mask_ne (i := 15) rfl, and_mask_ne (i := 16) rfl,
      and_mask_ne (i := 17) rfl, and_mask_ne (i := 18) rfl]
    simp [formatFlags_testBit h]
  obtain ⟨b1, b2, b3, b4, b5, b6⟩ := hbits
  obtain ⟨s1, s2, s3, s4, s5⟩ := hsrr
  simp only [withFlags, parseFlags, parseSrrFlags, parseCosFlags, parseBundleFlags,
    formatFlags_priority h,
    b1, b2, b3, b4, b5, b6, s1, s2, s3, s4, s5, h1, h2, h3, h4, h5, Bool.false_or]

/-! ## Writing the block -/

def sdnvs (vs : List UInt64) : Bytes := vs.flatMap SDNV.encoded

@[simp] theorem sdnvs_nil : sdnvs [] = [] := rfl

@[simp] theorem sdnvs_cons (v : UInt64) (vs : List UInt64) :
    sdnvs (v :: vs) = SDNV.encoded v ++ sdnvs vs := rfl

@[simp] theorem sdnvs_append (us vs : List UInt64) : sdnvs (us ++ vs) = sdnvs us ++ sdnvs vs :=
  List.flatMap_append

theorem sdnvLen_eq (vs : List UInt64) : sdnvLen vs = (sdnvs vs).length := by
  induction vs with
  | nil => rfl
  | cons v vs ih =>
      rw [sdnvs_cons, List.length_append, ← ih, sdnvLen, List.map_cons, List.sum_cons,
        SDNV.encodingLen_eq]
      rfl

theorem sdnvs_length_le (vs : List UInt64) : (sdnvs vs).length ≤ 10 * vs.length := by
  induction vs with
  | nil => simp
  | cons v vs ih =>
      have hle := SDNV.encoded_length_le v
      simp only [SDNV.maxLength] at hle
      rw [sdnvs_cons, List.length_append, List.length_cons]
      omega

theorem writeSdnvs_eq_ok {vs : List UInt64} {len len' : Int} {out : Bytes}
    (h : writeSdnvs vs len = .ok (out, len')) :
    out = sdnvs vs ∧ len' = len - (sdnvs vs).length := by
  induction vs generalizing len out with
  | nil =>
      have heq : ([] : Bytes) = out ∧ len = len' := by
        simpa [writeSdnvs, pure, Except.pure] using h
      obtain ⟨rfl, rfl⟩ := heq
      simp
  | cons v vs ih =>
      rw [writeSdnvs, SDNV.encode] at h
      by_cases hroom : (len % 2 ^ 64).toNat < (SDNV.encoded v).length
      · rw [if_pos hroom] at h
        cases h
      · rw [if_neg hroom] at h
        obtain ⟨⟨rest, last⟩, hrest, h⟩ := Exec.bind_eq_ok.mp h
        simp only [pure, Except.pure, Except.ok.injEq, Prod.mk.injEq] at h
        obtain ⟨rfl, rfl⟩ := h
        obtain ⟨rfl, hlen⟩ := ih hrest
        refine ⟨rfl, ?_⟩
        rw [hlen, sdnvs_cons, List.length_append]
        omega

theorem writeSdnvs_of_le (vs : List UInt64) {len : Int} (hle : ((sdnvs vs).length : Int) ≤ len)
    (hlt : len < 2 ^ 64) : writeSdnvs vs len = .ok (sdnvs vs, len - (sdnvs vs).length) := by
  induction vs generalizing len with
  | nil => simp [writeSdnvs, pure, Except.pure]
  | cons v vs ih =>
      rw [sdnvs_cons, List.length_append] at hle
      have hroom : ¬ (len % 2 ^ 64).toNat < (SDNV.encoded v).length := by
        rw [Int.emod_eq_of_lt (by omega) hlt]
        omega
      rw [writeSdnvs, SDNV.encode, if_neg hroom, sdnvs_cons, List.length_append]
      simp only
      rw [ih (by omega) (by omega), Exec.ok_bind]
      simp only [pure, Except.pure, Except.ok.injEq, Prod.mk.injEq, true_and]
      omega

def primaryBytes (bundle : Bundle) (primary : PrimaryBlock) (dictionary : Bytes) : Bytes :=
  currentVersion :: (sdnvs ([primary.processingFlags, primary.blockLength] ++ primary.fields) ++
    dictionary ++ sdnvs (fragmentFields bundle))

section Write

variable {os : Oasys} {bundle : Bundle} {dict : Dictionary} {eids : PrimaryBlock}

variable (bundle) in
theorem completeFields_blockLength (hdl : eids.dictionaryLength.toNat < 2 ^ 32) :
    (completeFields bundle eids).blockLength.toNat =
      (sdnvs (completeFields bundle eids).fields).length + eids.dictionaryLength.toNat +
        (sdnvs (fragmentFields bundle)).length := by
  have hfields := sdnvs_length_le (completeFields bundle eids).fields
  have hcount : (completeFields bundle eids).fields.length = 12 := rfl
  have hfrag := sdnvs_length_le (fragmentFields bundle)
  have hfcount : (fragmentFields bundle).length ≤ 2 := by
    unfold fragmentFields
    split <;> simp
  have hvalue : (completeFields bundle eids).blockLength = UInt64.ofNat
      ((sdnvs (completeFields bundle eids).fields).length + eids.dictionaryLength.toNat +
        (sdnvs (fragmentFields bundle)).length) := by
    rw [← sdnvLen_eq, ← sdnvLen_eq]
    rfl
  rw [hvalue, UInt64.toNat_ofNat', Nat.mod_eq_of_lt (by omega)]

theorem primaryBytes_length (hdl : eids.dictionaryLength.toNat < 2 ^ 32) {dictionary : Bytes}
    (hlen : dictionary.length = eids.dictionaryLength.toNat) :
    (primaryBytes bundle (completeFields bundle eids) dictionary).length =
      1 + SDNV.encodingLen (completeFields bundle eids).processingFlags +
        SDNV.encodingLen (completeFields bundle eids).blockLength +
        (completeFields bundle eids).blockLength.toNat := by
  have hbl := completeFields_blockLength bundle hdl
  rw [SDNV.encodingLen_eq, SDNV.encodingLen_eq, hbl, primaryBytes]
  simp only [sdnvs_append, sdnvs_cons, sdnvs_nil, List.append_nil, List.length_cons,
    List.length_append, hlen]
  omega

theorem generatePrimary_len {n : Nat} {primary : PrimaryBlock} {block x : BlockInfo}
    (hget : getPrimaryLen bundle dict = .ok (n, primary))
    (hgen : generatePrimary os bundle dict block = .ok x) :
    toInt n = 1 + (sdnvs ([primary.processingFlags, primary.blockLength] ++ primary.offsets ++
      [bundle.creationTs.seconds, bundle.creationTs.seqno, bundle.expiration,
        primary.dictionaryLength])).length + primary.dictionaryLength.toNat +
      (sdnvs (fragmentFields bundle)).length := by
  rw [generatePrimary, hget, Exec.ok_bind] at hgen
  simp only at hgen
  obtain ⟨⟨out, len⟩, hout, hgen⟩ := Exec.bind_eq_ok.mp hgen
  obtain ⟨⟨out', len'⟩, hout', hgen⟩ := Exec.bind_eq_ok.mp hgen
  obtain ⟨_, _, hgen⟩ := Exec.bind_eq_ok.mp hgen
  obtain ⟨_, hzero, -⟩ := Exec.bind_eq_ok.mp hgen
  rw [assertThat_eq_ok] at hzero
  obtain ⟨-, hl⟩ := writeSdnvs_eq_ok hout
  obtain ⟨-, hl'⟩ := writeSdnvs_eq_ok hout'
  omega

variable (bundle) in
private theorem primaryBytes_split
    (hlen : (dict.dict.take eids.dictionaryLength.toNat).length = eids.dictionaryLength.toNat) :
    (primaryBytes bundle (completeFields bundle eids)
      (dict.dict.take eids.dictionaryLength.toNat)).length =
      1 + (sdnvs ([(completeFields bundle eids).processingFlags,
        (completeFields bundle eids).blockLength] ++ (completeFields bundle eids).fields)).length +
        eids.dictionaryLength.toNat + (sdnvs (fragmentFields bundle)).length := by
  rw [primaryBytes, List.length_cons, List.length_append, List.length_append, hlen]
  omega

theorem generatePrimary_lt {block x : BlockInfo}
    (hlen : (dict.dict.take eids.dictionaryLength.toNat).length = eids.dictionaryLength.toNat)
    (hget : getPrimaryLen bundle dict = .ok
      ((primaryBytes bundle (completeFields bundle eids)
        (dict.dict.take eids.dictionaryLength.toNat)).length, completeFields bundle eids))
    (hgen : generatePrimary os bundle dict block = .ok x) :
    (primaryBytes bundle (completeFields bundle eids)
      (dict.dict.take eids.dictionaryLength.toNat)).length < 2 ^ 31 := by
  have hint := generatePrimary_len hget hgen
  have hbytes := primaryBytes_split bundle hlen
  generalize (primaryBytes bundle (completeFields bundle eids)
    (dict.dict.take eids.dictionaryLength.toNat)).length = n at hint hbytes
  have hsame : toInt n = n := by
    rw [hint, hbytes]
    simp only [Nat.cast_add, Nat.cast_one]
    rfl
  unfold toInt at hsame
  have hbound := Int.bmod_lt (x := (n : Int)) (m := 2 ^ 32) (by decide)
  omega

variable (os) in
theorem generatePrimary_spec
    (hlen : (dict.dict.take eids.dictionaryLength.toNat).length = eids.dictionaryLength.toNat)
    (hget : getPrimaryLen bundle dict = .ok
      ((primaryBytes bundle (completeFields bundle eids)
        (dict.dict.take eids.dictionaryLength.toNat)).length, completeFields bundle eids))
    (hlt : (primaryBytes bundle (completeFields bundle eids)
      (dict.dict.take eids.dictionaryLength.toNat)).length < 2 ^ 31) (block : BlockInfo) :
    ∃ contents, contents.filled = primaryBytes bundle (completeFields bundle eids)
        (dict.dict.take eids.dictionaryLength.toNat) ∧
      generatePrimary os bundle dict block = .ok { block with
        contents := contents
        dataLength := UInt32.ofNat (primaryBytes bundle (completeFields bundle eids)
          (dict.dict.take eids.dictionaryLength.toNat)).length } := by
  have hdict : (completeFields bundle eids).dictionaryLength = eids.dictionaryLength := rfl
  have hvalues : [(completeFields bundle eids).processingFlags,
      (completeFields bundle eids).blockLength] ++ (completeFields bundle eids).offsets ++
      [bundle.creationTs.seconds, bundle.creationTs.seqno, bundle.expiration,
        eids.dictionaryLength] =
      [(completeFields bundle eids).processingFlags, (completeFields bundle eids).blockLength] ++
        (completeFields bundle eids).fields := rfl
  have hbytes := primaryBytes_split bundle hlen
  generalize hn : (primaryBytes bundle (completeFields bundle eids)
    (dict.dict.take eids.dictionaryLength.toNat)).length = n at hget hbytes hlt
  have hint := toInt_of_lt hlt
  have hfirst := writeSdnvs_of_le ([(completeFields bundle eids).processingFlags,
    (completeFields bundle eids).blockLength] ++ (completeFields bundle eids).fields)
    (show _ ≤ (n : Int) - 1 by omega) (by omega)
  have hlast := writeSdnvs_of_le (fragmentFields bundle)
    (show _ ≤ (n : Int) - 1 - (sdnvs ([(completeFields bundle eids).processingFlags,
      (completeFields bundle eids).blockLength] ++ (completeFields bundle eids).fields)).length -
      eids.dictionaryLength.toNat by omega) (by omega)
  have hroom : n ≤ (block.contents.reserve os n).bufLen :=
    ScratchBuffer.le_bufLen_reserve os _ _
  have hwrite := primaryBytes.eq_1 bundle (completeFields bundle eids)
    (dict.dict.take eids.dictionaryLength.toNat)
  rw [generatePrimary, hget, Exec.ok_bind]
  simp only [hdict, hvalues, hint]
  rw [hfirst, Exec.ok_bind]
  simp only
  rw [hlast, Exec.ok_bind]
  simp only
  rw [List.cons_append, List.cons_append, ← hwrite, ScratchBuffer.write, hn, if_pos hroom,
    Exec.ok_bind, Exec.assert_bind (by omega)]
  refine ⟨_, ?_, rfl⟩
  simp only
  rw [← hn, List.take_left]

end Write

/-! ## Reading the block -/

section Read

variable {os : Oasys} {bundle base : Bundle} {primary : PrimaryBlock}

def behindLength (p : PrimaryBlock) : PrimaryBlock :=
  { p with processingFlags := 0, blockLength := 0 }

theorem readFields_sdnvs (p : PrimaryBlock) (rest : Bytes) :
    readFields (sdnvs p.fields ++ rest) = some (behindLength p, rest) := by
  have hfields : sdnvs p.fields ++ rest =
      SDNV.encoded p.destSchemeOffset ++ (SDNV.encoded p.destSspOffset ++
      (SDNV.encoded p.sourceSchemeOffset ++ (SDNV.encoded p.sourceSspOffset ++
      (SDNV.encoded p.replytoSchemeOffset ++ (SDNV.encoded p.replytoSspOffset ++
      (SDNV.encoded p.custodianSchemeOffset ++ (SDNV.encoded p.custodianSspOffset ++
      (SDNV.encoded p.creationTime ++ (SDNV.encoded p.creationSequence ++
      (SDNV.encoded p.lifetime ++ (SDNV.encoded p.dictionaryLength ++ rest))))))))))) := by
    simp [PrimaryBlock.fields, PrimaryBlock.offsets, List.append_assoc]
  rw [hfields, readFields]
  refine (Reader.bind_eq_some _ _ _ _ _).mpr ⟨_, _, SDNV.read_encoded _ _, ?_⟩
  refine (Reader.bind_eq_some _ _ _ _ _).mpr ⟨_, _, SDNV.read_encoded _ _, ?_⟩
  refine (Reader.bind_eq_some _ _ _ _ _).mpr ⟨_, _, SDNV.read_encoded _ _, ?_⟩
  refine (Reader.bind_eq_some _ _ _ _ _).mpr ⟨_, _, SDNV.read_encoded _ _, ?_⟩
  refine (Reader.bind_eq_some _ _ _ _ _).mpr ⟨_, _, SDNV.read_encoded _ _, ?_⟩
  refine (Reader.bind_eq_some _ _ _ _ _).mpr ⟨_, _, SDNV.read_encoded _ _, ?_⟩
  refine (Reader.bind_eq_some _ _ _ _ _).mpr ⟨_, _, SDNV.read_encoded _ _, ?_⟩
  refine (Reader.bind_eq_some _ _ _ _ _).mpr ⟨_, _, SDNV.read_encoded _ _, ?_⟩
  refine (Reader.bind_eq_some _ _ _ _ _).mpr ⟨_, _, SDNV.read_encoded _ _, ?_⟩
  refine (Reader.bind_eq_some _ _ _ _ _).mpr ⟨_, _, SDNV.read_encoded _ _, ?_⟩
  refine (Reader.bind_eq_some _ _ _ _ _).mpr ⟨_, _, SDNV.read_encoded _ _, ?_⟩
  refine (Reader.bind_eq_some _ _ _ _ _).mpr ⟨_, _, SDNV.read_encoded _ _, ?_⟩
  rfl

/-- The byte that `consume` wants to be NUL: the last one of the dictionary, or, without one, the
last one of the zero length in front of it. -/
private theorem last_byte (head : Bytes) {dictionary : Bytes} {len : UInt64}
    (hlen : dictionary.length = len.toNat) (hlast : dictionary = [] ∨ dictionary.getLast? = some 0) :
    (head ++ SDNV.encoded len ++ dictionary).getLast? = some 0 := by
  rcases hlast with rfl | hl
  · have hzero : len = 0 := by
      apply UInt64.toNat_inj.mp
      simpa using hlen.symm
    have henc : SDNV.encoded 0 = [0] := by decide +kernel
    rw [hzero, henc]
    simp
  · rw [List.getLast?_append, hl]
    rfl

theorem parseFields_sdnvs {head dictionary fragment : Bytes}
    (hlen : dictionary.length = primary.dictionaryLength.toNat)
    (hlast : dictionary = [] ∨ dictionary.getLast? = some 0) :
    parseFields os base (head ++ (sdnvs primary.fields ++ (dictionary ++ fragment)))
        (sdnvs primary.fields ++ (dictionary ++ fragment)) =
      (parseEids os (parseTimes base (behindLength primary))
          (behindLength primary) (dictionary ++ fragment) >>=
        fun b => parseFragment b fragment) := by
  have hdl : (behindLength primary).dictionaryLength.toNat = dictionary.length :=
    hlen.symm
  obtain ⟨front, hfront⟩ : ∃ front, head ++ sdnvs primary.fields =
      front ++ SDNV.encoded primary.dictionaryLength := by
    refine ⟨head ++ sdnvs (primary.offsets ++ [primary.creationTime, primary.creationSequence,
      primary.lifetime]), ?_⟩
    simp [PrimaryBlock.fields, List.append_assoc]
  have hbytes : head ++ (sdnvs primary.fields ++ (dictionary ++ fragment)) =
      (front ++ SDNV.encoded primary.dictionaryLength ++ dictionary) ++ fragment := by
    rw [← hfront]
    simp only [List.append_assoc]
  have hend := last_byte front hlen hlast
  have hpos : 0 < (SDNV.encoded primary.dictionaryLength).length :=
    List.length_pos_of_ne_nil (SDNV.encoded_ne_nil _)
  have hnul : (head ++ (sdnvs primary.fields ++ (dictionary ++ fragment)))[
      (head ++ (sdnvs primary.fields ++ (dictionary ++ fragment))).length -
        (dictionary ++ fragment).length + dictionary.length - 1]? = some 0 := by
    rw [hbytes, List.getElem?_append_left (by simp only [List.length_append]; omega)]
    rw [← hend, List.getLast?_eq_getElem?]
    congr 1
    simp only [List.length_append]
    omega
  rw [parseFields, readFields_sdnvs]
  simp only [hdl]
  rw [if_neg (by rw [List.length_append]; omega), hnul, if_neg (by simp), List.drop_left]

def withFragment (bundle b : Bundle) : Bundle :=
  if bundle.isFragment then
    { b with fragOffset := bundle.fragOffset, origLength := bundle.origLength } else b

theorem parseFragment_sdnvs {b : Bundle} (h : b.isFragment = bundle.isFragment) :
    parseFragment b (sdnvs (fragmentFields bundle)) = .ok (withFragment bundle b) := by
  unfold parseFragment fragmentFields withFragment
  cases hb : bundle.isFragment with
  | false =>
      rw [hb] at h
      simp [h, pure, Except.pure]
  | true =>
      rw [hb] at h
      have hoff := bundle.fragOffset.toNat_lt
      have horig := bundle.origLength.toNat_lt
      have h1 : ¬ 0xffffffff < bundle.fragOffset.toUInt64.toNat := by
        rw [UInt32.toNat_toUInt64]
        omega
      have h2 : ¬ 0xffffffff < bundle.origLength.toUInt64.toNat := by
        rw [UInt32.toNat_toUInt64]
        omega
      have hread : SDNV.read (sdnvs [bundle.fragOffset.toUInt64, bundle.origLength.toUInt64]) =
          some (bundle.fragOffset.toUInt64, SDNV.encoded bundle.origLength.toUInt64 ++ []) :=
        SDNV.read_encoded _ _
      simp only [h, if_true, hread, if_neg h1, SDNV.read_encoded, if_neg h2, reduceCtorEq, if_false]
      simp [pure, Except.pure]

theorem finish_primaryBytes {blk : BlockInfo} {dictionary : Bytes}
    (hfilled : blk.contents.filled = primaryBytes bundle primary dictionary)
    (hfull : blk.fullLength.toNat = blk.contents.len)
    (hdata : blk.dataLength.toNat = (sdnvs primary.fields ++
      (dictionary ++ sdnvs (fragmentFields bundle))).length)
    (hlen : dictionary.length = primary.dictionaryLength.toNat)
    (hlast : dictionary = [] ∨ dictionary.getLast? = some 0) :
    finish os base blk =
      (parseEids os (parseTimes (parseFlags base primary.processingFlags)
          (behindLength primary)) (behindLength primary)
          (dictionary ++ sdnvs (fragmentFields bundle)) >>=
        fun b => parseFragment b (sdnvs (fragmentFields bundle))) := by
  have hsplit : primaryBytes bundle primary dictionary =
      currentVersion :: (SDNV.encoded primary.processingFlags ++ (SDNV.encoded primary.blockLength ++
        (sdnvs primary.fields ++ (dictionary ++ sdnvs (fragmentFields bundle))))) := by
    simp [primaryBytes, List.append_assoc]
  have hhead : readHead (SDNV.encoded primary.processingFlags ++
      (SDNV.encoded primary.blockLength ++
        (sdnvs primary.fields ++ (dictionary ++ sdnvs (fragmentFields bundle))))) =
      some ((primary.processingFlags, primary.blockLength),
        sdnvs primary.fields ++ (dictionary ++ sdnvs (fragmentFields bundle))) := by
    rw [readHead]
    refine (Reader.bind_eq_some _ _ _ _ _).mpr ⟨_, _, SDNV.read_encoded _ _, ?_⟩
    refine (Reader.bind_eq_some _ _ _ _ _).mpr ⟨_, _, SDNV.read_encoded _ _, ?_⟩
    rfl
  have hcontents : primaryBytes bundle primary dictionary =
      (currentVersion :: (SDNV.encoded primary.processingFlags ++
        SDNV.encoded primary.blockLength)) ++
        (sdnvs primary.fields ++ (dictionary ++ sdnvs (fragmentFields bundle))) := by
    rw [hsplit]
    simp only [List.cons_append, List.append_assoc]
  unfold finish
  rw [Exec.assert_bind hfull, hfilled, hsplit]
  simp only [ne_eq, not_true_eq_false, if_false]
  rw [hhead]
  simp only
  rw [Exec.assert_bind hdata.symm, ← hsplit, hcontents]
  exact parseFields_sdnvs hlen hlast

end Read

end PrimaryBlockProcessor

end Dtn2
