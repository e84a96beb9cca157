import Dtn2.Discovery.BeaconServices

/-!
# From the formatter to the parser

What `format` writes is read back by `parse`, with two exceptions. The number of services that is
announced counts those that are skipped, and a service that ends less than four bytes behind its start
is not looked for. The endpoint id is written up to its first NUL and counted as a whole.
-/

namespace Dtn2

namespace IPND

open Framework InputStream

/-! ## The parts of a beacon that was written -/

section Parts

variable (ann : IPNDAnnouncement)

theorem parseEid_string (oasys : Oasys) (xs eid rest : Bytes)
    (hflag : ann.flags &&& beaconContainsEid ≠ 0) (hsize : eid.length < 2 ^ 31) :
    ann.parseEid oasys (between xs (SDNV.encoded (UInt64.ofNat eid.length) ++ (eid ++ rest))) =
      .ok (true, { ann with canonicalEid := oasys.assign eid },
        between (xs ++ SDNV.encoded (UInt64.ofNat eid.length) ++ eid) rest) := by
  have hpos := encoded_length_pos (UInt64.ofNat eid.length)
  have hten := SDNV.encoded_length_le (UInt64.ofNat eid.length)
  rw [SDNV.maxLength] at hten
  have hlen : (UInt64.ofNat eid.length).toNat = eid.length := by
    rw [UInt64.toNat_ofNat', Nat.mod_eq_of_lt (by omega)]
  have hresult : ((SDNV.encoded (UInt64.ofNat eid.length)).length + eid.length) % 2 ^ 64 ≠ 0 := by
    omega
  rw [IPNDAnnouncement.parseEid, if_pos hflag, readStringWithSDNV, readSDNV_encoded, ok_bind]
  dsimp only
  rw [if_neg (Nat.ne_of_gt hpos), hlen, read_between_append]
  dsimp only
  rw [if_neg (Nat.lt_irrefl _), ok_bind]
  dsimp only
  rw [if_neg hresult]

theorem parseServices_bytes (s : BeaconService) (svcs : List BeaconService) (xs rest : Bytes)
    (hflag : 4 ≤ ann.version ∧ ann.flags &&& beaconServiceBlock ≠ 0)
    (hall : BeaconService.AllWritten (s :: svcs))
    (hlong : BeaconService.EndsLong (s :: svcs) rest.length)
    (hsize : (xs ++ (SDNV.encoded (UInt64.ofNat (s :: svcs).length) ++
      (BeaconService.bytes (s :: svcs) ++ rest))).length < 2 ^ 31) :
    ∃ ys, ann.parseServices (between xs (SDNV.encoded (UInt64.ofNat (s :: svcs).length) ++
        (BeaconService.bytes (s :: svcs) ++ rest))) =
      .ok (true, { ann with
        services := ((s :: svcs).filterMap BeaconService.received).map ClaService.toService },
        between ys rest) := by
  have hfour := BeaconService.four_le_bytes hall hlong
  have htwo := BeaconService.length_le_bytes hall
  have hnonzero : 0 < (s :: svcs).length := Nat.succ_pos _
  generalize s :: svcs = all at *
  have hpos := encoded_length_pos (UInt64.ofNat all.length)
  rw [← List.append_assoc] at hsize
  have hbytes : (BeaconService.bytes all).length < 2 ^ 31 := by
    have hsum := hsize
    simp only [List.length_append] at hsum
    omega
  have hlen : (UInt64.ofNat all.length).toNat = all.length := by
    rw [UInt64.toNat_ofNat', Nat.mod_eq_of_lt (by omega)]
  have hcount : UInt64.ofNat all.length ≠ 0 := by
    rw [← UInt64.toNat_inj.ne, hlen, UInt64.toNat_zero]
    omega
  have hmod : all.length % 2 ^ 32 = all.length := Nat.mod_eq_of_lt (by omega)
  have htotal : toInt (0 + (BeaconService.bytes all).length) = (BeaconService.bytes all).length := by
    rw [Nat.zero_add, toInt_of_lt hbytes]
  have hused : decide (0 < ((BeaconService.bytes all).length : Int)) = true :=
    decide_eq_true (by omega)
  refine ⟨xs ++ SDNV.encoded (UInt64.ofNat all.length) ++ BeaconService.bytes all, ?_⟩
  rw [IPNDAnnouncement.parseServices, if_pos hflag, readSDNV_encoded, ok_bind]
  dsimp only
  rw [if_neg (Nat.ne_of_gt hpos), if_neg hcount, hlen, hmod, readServices_between _ _ _ hsize,
    if_neg (Nat.not_lt.mpr hfour),
    BeaconService.readServicesLoop_bytes all _ rest 0 [] hall hlong hsize, ok_bind, ok_bind]
  rw [if_pos rfl, htotal, List.nil_append]
  dsimp only [IPNDAnnouncement.afterServices]
  rw [hused]

theorem parsePeriod_number (xs rest : Bytes) (v : UInt64)
    (hflag : 3 ≤ ann.version ∧ ann.flags &&& beaconContainsPeriod ≠ 0) :
    ann.parsePeriod (between xs (SDNV.encoded v ++ rest)) =
      .ok (true, { ann with beaconPeriod := v }) := by
  have hpos := encoded_length_pos v
  rw [IPNDAnnouncement.parsePeriod, if_pos hflag, readSDNV_encoded, ok_bind]
  dsimp only
  rw [if_neg (Nat.ne_of_gt hpos)]

end Parts

/-! ## What is sent -/

namespace IPNDAnnouncement

theorem flags_bits : ∀ eid block period : Bool, ∀ f, f = (if eid then beaconContainsEid else 0) |||
    (if block then beaconServiceBlock else 0) ||| (if period then beaconContainsPeriod else 0) →
    (f &&& beaconContainsEid ≠ 0 ↔ eid) ∧ (f &&& beaconServiceBlock ≠ 0 ↔ block) ∧
      (f &&& beaconContainsPeriod ≠ 0 ↔ period) := by
  rintro (_ | _) (_ | _) (_ | _) f rfl
  all_goals decide

variable (ann : IPNDAnnouncement)

theorem formatFlags_bits :
    (ann.formatFlags &&& beaconContainsEid ≠ 0 ↔ ann.canonicalEid.uri ≠ []) ∧
      (ann.formatFlags &&& beaconServiceBlock ≠ 0 ↔ ann.services ≠ []) ∧
      (ann.formatFlags &&& beaconContainsPeriod ≠ 0 ↔ 0 < ann.beaconPeriod ∧ 2 < ann.version) := by
  have hbits := flags_bits (decide (ann.canonicalEid.uri ≠ [])) (decide (ann.services ≠ []))
    (decide (0 < ann.beaconPeriod ∧ 2 < ann.version)) ann.formatFlags
  simp only [decide_eq_true_eq] at hbits
  exact hbits rfl

/-- What is sent: the bytes of the buffer that `format` says it has filled. -/
def sent (bp : Bytes) : Bytes := (ann.format bp bp.length).2.take (ann.format bp bp.length).1

/-- The bytes of the buffer that are sent although nothing was written there. -/
def unwritten (bp : Bytes) : Bytes :=
  (bp.drop ann.formatted.length).take (ann.formattedLength - ann.formatted.length)

theorem cString_length_le (bs : Bytes) : (cString bs).length ≤ bs.length := by
  have hprefix : cString bs <+: bs := List.takeWhile_prefix _
  exact hprefix.length_le

theorem formatEid_eq (h : ann.canonicalEid.uri ≠ []) :
    ann.formatEid = (SDNV.encoded (UInt64.ofNat ann.canonicalEid.uri.length) ++
      cString ann.canonicalEid.uri,
      (SDNV.encoded (UInt64.ofNat ann.canonicalEid.uri.length)).length +
        ann.canonicalEid.uri.length) := by
  rw [formatEid, if_pos (ann.formatFlags_bits.1.mpr h), writeStringWithSDNV, SDNV.encodingLen_eq]

theorem formatEid_nil (h : ann.canonicalEid.uri = []) : ann.formatEid = ([], 0) := by
  rw [formatEid, if_neg (ann.formatFlags_bits.1.not.mpr (not_not.mpr h))]

theorem formattedLength_eq :
    ann.formattedLength = ann.formatted.length +
      (ann.canonicalEid.uri.length - (cString ann.canonicalEid.uri).length) := by
  have hle := cString_length_le ann.canonicalEid.uri
  rw [formattedLength, formatted]
  simp only [List.length_append, BigEndian.length_encode, List.length_cons, List.length_nil]
  by_cases huri : ann.canonicalEid.uri = []
  · rw [ann.formatEid_nil huri, huri]
    simp only [List.length_nil]
    omega
  · rw [ann.formatEid_eq huri]
    simp only [List.length_append]
    omega

theorem sent_eq {bp : Bytes} (h : ann.formattedLength ≤ bp.length) :
    ann.sent bp = ann.formatted ++ ann.unwritten bp := by
  have hlen := ann.formattedLength_eq
  have hle : ann.formatted.length ≤ ann.formattedLength := by omega
  rw [sent, format, if_pos h]
  dsimp only
  rw [List.take_of_length_le hle, List.take_append, List.take_of_length_le hle, unwritten]

theorem unwritten_length {bp : Bytes} (h : ann.formattedLength ≤ bp.length) :
    (ann.unwritten bp).length =
      ann.canonicalEid.uri.length - (cString ann.canonicalEid.uri).length := by
  have hlen := ann.formattedLength_eq
  rw [unwritten, List.length_take, List.length_drop]
  omega

theorem format_pos (bp : Bytes) : 0 < (ann.format bp bp.length).1 ↔ ann.formattedLength ≤ bp.length := by
  rw [format]
  by_cases h : ann.formattedLength ≤ bp.length
  · rw [if_pos h]
    refine iff_of_true ?_ h
    simp only [formattedLength]
    omega
  · rw [if_neg h]
    exact iff_of_false (Nat.lt_irrefl 0) h

/-- The endpoint id as `parse` finds it, and what is behind it. -/
def eidField (bp : Bytes) : Bytes :=
  (cString ann.canonicalEid.uri ++ (ann.formatServices ++ (ann.formatPeriod ++ ann.unwritten bp))).take
    ann.canonicalEid.uri.length

def behindEid (bp : Bytes) : Bytes :=
  (cString ann.canonicalEid.uri ++ (ann.formatServices ++ (ann.formatPeriod ++ ann.unwritten bp))).drop
    ann.canonicalEid.uri.length

theorem eidField_length {bp : Bytes} (h : ann.formattedLength ≤ bp.length) :
    (ann.eidField bp).length = ann.canonicalEid.uri.length := by
  have hle := cString_length_le ann.canonicalEid.uri
  have hun := ann.unwritten_length h
  rw [eidField, List.length_take]
  simp only [List.length_append]
  omega

theorem behindEid_length {bp : Bytes} (h : ann.formattedLength ≤ bp.length) :
    (ann.behindEid bp).length = (ann.formatServices ++ ann.formatPeriod).length := by
  have hle := cString_length_le ann.canonicalEid.uri
  have hun := ann.unwritten_length h
  rw [behindEid, List.length_drop]
  simp only [List.length_append]
  omega

theorem eidField_behindEid (bp : Bytes) :
    ann.eidField bp ++ ann.behindEid bp = cString ann.canonicalEid.uri ++
      (ann.formatServices ++ (ann.formatPeriod ++ ann.unwritten bp)) :=
  List.take_append_drop _ _

theorem sent_fields {bp : Bytes} (h : ann.formattedLength ≤ bp.length) :
    ann.sent bp = [ann.version, ann.formatFlags] ++ BigEndian.encode 2 ann.sequenceNum.toNat ++
      ((if ann.canonicalEid.uri = [] then []
        else SDNV.encoded (UInt64.ofNat (ann.eidField bp).length)) ++
      (ann.eidField bp ++ ann.behindEid bp)) := by
  rw [ann.sent_eq h, eidField_behindEid, formatted, ann.eidField_length h]
  by_cases huri : ann.canonicalEid.uri = []
  · rw [if_pos huri, ann.formatEid_nil huri, huri]
    simp [cString]
  · rw [if_neg huri, ann.formatEid_eq huri]
    simp only [List.append_assoc]

def header (oasys : Oasys) (bp : Bytes) : IPNDAnnouncement where
  version := 4
  flags := ann.formatFlags
  sequenceNum := ann.sequenceNum
  canonicalEid :=
    if ann.canonicalEid.uri = [] then EndpointID.default else oasys.assign (ann.eidField bp)
  services := []
  beaconPeriod := 0

theorem parse_four (oasys : Oasys) (flags x y : UInt8) (d : Bytes) :
    IPNDAnnouncement.fresh.parse oasys (4 :: flags :: x :: y :: d) =
      parseBody oasys ⟨4, flags, UInt16.ofNat (BigEndian.decode [x, y]), EndpointID.default, [], 0⟩
        (between [4, flags, x, y] d) := by
  have hsupported : (2 : UInt8) ≤ 4 := by decide
  rw [parse]
  exact if_pos hsupported

theorem parse_sent (oasys : Oasys) {bp : Bytes} (hversion : ann.version = 4)
    (h : ann.formattedLength ≤ bp.length) (hsize : bp.length < 2 ^ 31) :
    ∃ xs, (xs ++ ann.behindEid bp).length < 2 ^ 31 ∧
      IPNDAnnouncement.fresh.parse oasys (ann.sent bp) =
        (ann.header oasys bp).parseServices (between xs (ann.behindEid bp)) >>= fun s =>
          if s.1 = false then .ok (false, s.2.1) else s.2.1.parsePeriod s.2.2 := by
  obtain ⟨x, y, hxy⟩ := List.length_eq_two.mp (BigEndian.length_encode 2 ann.sequenceNum.toNat)
  have hlen : (ann.sent bp).length < 2 ^ 31 := by
    have hfilled := ann.formattedLength_eq
    have hun := ann.unwritten_length h
    rw [ann.sent_eq h, List.length_append]
    omega
  have hnumber : UInt16.ofNat (BigEndian.decode [x, y]) = ann.sequenceNum := by
    rw [← hxy, BigEndian.decode_encode_of_lt ann.sequenceNum.toNat_lt, UInt16.ofNat_toNat]
  have hfields := ann.sent_fields h
  have hfield := ann.eidField_length h
  rw [hxy, hversion] at hfields
  rw [hfields] at hlen ⊢
  have hparse : ∀ d, IPNDAnnouncement.fresh.parse oasys ([4, ann.formatFlags] ++ [x, y] ++ d) = _ :=
    parse_four oasys ann.formatFlags x y
  rw [hparse, hnumber]
  by_cases huri : ann.canonicalEid.uri = []
  · have hnone : ann.eidField bp = [] := by
      rw [huri] at hfield
      exact List.eq_nil_of_length_eq_zero hfield
    have hskip : ¬ (ann.formatFlags &&& beaconContainsEid ≠ 0) :=
      ann.formatFlags_bits.1.not.mpr (not_not.mpr huri)
    rw [if_pos huri, hnone, List.nil_append, List.nil_append] at hlen ⊢
    refine ⟨_, hlen, ?_⟩
    rw [parseBody, parseEid, if_neg hskip, ok_bind, header, if_pos huri]
    rfl
  · have hread := parseEid_string
      ⟨4, ann.formatFlags, ann.sequenceNum, EndpointID.default, [], 0⟩ oasys
      [4, ann.formatFlags, x, y] (ann.eidField bp) (ann.behindEid bp)
      (ann.formatFlags_bits.1.mpr huri) (by
        simp only [List.length_append] at hlen
        omega)
    rw [if_neg huri] at hlen ⊢
    refine ⟨[4, ann.formatFlags, x, y] ++ SDNV.encoded (UInt64.ofNat (ann.eidField bp).length) ++
      ann.eidField bp, ?_, ?_⟩
    · simp only [List.append_assoc] at hlen ⊢
      exact hlen
    · rw [parseBody, hread, ok_bind, header, if_neg huri]
      rfl

theorem formatServices_nil (h : ann.services = []) : ann.formatServices = [] := by
  rw [formatServices, if_neg]
  intro hflag
  exact ann.formatFlags_bits.2.1.mp hflag.2 h

theorem formatServices_cons (hversion : ann.version = 4) (h : ann.services ≠ []) :
    ann.formatServices = SDNV.encoded (UInt64.ofNat ann.services.length) ++
      (ann.services.filterMap IPNDService.raw).flatten := by
  rw [formatServices, if_pos]
  refine ⟨?_, ann.formatFlags_bits.2.1.mpr h⟩
  rw [hversion]
  decide

theorem formatPeriod_zero (h : ann.beaconPeriod = 0) : ann.formatPeriod = [] := by
  rw [formatPeriod, if_neg]
  intro hflag
  have hpos := (ann.formatFlags_bits.2.2.mp hflag).1
  rw [h] at hpos
  exact absurd hpos (by decide)

theorem formatFlags_four (hversion : ann.version = 4) (h : ann.beaconPeriod ≠ 0) :
    ann.formatFlags &&& beaconContainsPeriod ≠ 0 := by
  apply ann.formatFlags_bits.2.2.mpr
  rw [hversion]
  exact ⟨UInt64.pos_iff_ne_zero.mpr h, by decide⟩

theorem formatPeriod_pos (hversion : ann.version = 4) (h : ann.beaconPeriod ≠ 0) :
    ann.formatPeriod = SDNV.encoded ann.beaconPeriod := by
  rw [formatPeriod, if_pos (ann.formatFlags_four hversion h)]

/-- The receiver finds the endpoint id: it has no NUL, or it comes last and the buffer happens to hold
what is behind its NUL. -/
def EidSurvives (bp : Bytes) : Prop :=
  0 ∉ ann.canonicalEid.uri ∨ ann.services = [] ∧ ann.beaconPeriod = 0 ∧
    (cString ann.canonicalEid.uri ++ bp.drop ann.formatted.length).take
      ann.canonicalEid.uri.length = ann.canonicalEid.uri

theorem eidField_alone {bp : Bytes} (hservices : ann.services = []) (hperiod : ann.beaconPeriod = 0) :
    ann.eidField bp = (cString ann.canonicalEid.uri ++ bp.drop ann.formatted.length).take
      ann.canonicalEid.uri.length := by
  have hlen := ann.formattedLength_eq
  have hdiff : ann.formattedLength - ann.formatted.length =
      ann.canonicalEid.uri.length - (cString ann.canonicalEid.uri).length := by omega
  rw [eidField, ann.formatServices_nil hservices, ann.formatPeriod_zero hperiod, List.nil_append,
    List.nil_append, unwritten, hdiff, List.take_append, List.take_take, Nat.min_self,
    ← List.take_append]

theorem eidField_of_survives {bp : Bytes} (h : ann.EidSurvives bp) :
    ann.eidField bp = ann.canonicalEid.uri := by
  cases h with
  | inl hnul =>
      rw [eidField, cString_eq_self hnul]
      exact List.take_left
  | inr hlast =>
      obtain ⟨hservices, hperiod, hheld⟩ := hlast
      rw [ann.eidField_alone hservices hperiod, hheld]

theorem cString_split {bs : Bytes} (h : 0 ∈ bs) : ∃ more, bs = cString bs ++ 0 :: more := by
  induction bs with
  | nil => cases h
  | cons b bs ih =>
      by_cases hb : b = 0
      · refine ⟨bs, ?_⟩
        rw [hb]
        rfl
      · obtain ⟨more, hmore⟩ := ih ((List.mem_cons.mp h).resolve_left (Ne.symm hb))
        refine ⟨more, ?_⟩
        rw [cString, List.takeWhile_cons_of_pos (by simpa using hb), List.cons_append]
        exact congrArg (b :: ·) hmore

theorem behindEid_of_eidField {bp : Bytes} (hversion : ann.version = 4)
    (hcount : ann.services.length < 2 ^ 64) (hfit : ann.formattedLength ≤ bp.length)
    (h : ann.eidField bp = ann.canonicalEid.uri) :
    ann.EidSurvives bp ∧ ann.behindEid bp = ann.formatServices ++ ann.formatPeriod := by
  have hall := ann.eidField_behindEid bp
  have hbehind := ann.behindEid_length hfit
  have hun := ann.unwritten_length hfit
  by_cases hnul : 0 ∈ ann.canonicalEid.uri
  · obtain ⟨more, hmore⟩ := cString_split hnul
    have hstart : 0 :: (more ++ ann.behindEid bp) =
        ann.formatServices ++ (ann.formatPeriod ++ ann.unwritten bp) := by
      have hsame : cString ann.canonicalEid.uri ++ 0 :: (more ++ ann.behindEid bp) =
          cString ann.canonicalEid.uri ++
            (ann.formatServices ++ (ann.formatPeriod ++ ann.unwritten bp)) := by
        rw [← hall, h]
        conv_rhs => rw [hmore]
        rw [List.append_assoc]
        rfl
      exact List.append_cancel_left hsame
    have hservices : ann.services = [] := by
      by_contra hne
      have hcount0 : UInt64.ofNat ann.services.length ≠ 0 := by
        rw [← UInt64.toNat_inj.ne, UInt64.toNat_ofNat', Nat.mod_eq_of_lt hcount, UInt64.toNat_zero]
        exact Nat.ne_of_gt (List.length_pos_of_ne_nil hne)
      obtain ⟨b, num, hnum, hb⟩ := encoded_head hcount0
      rw [ann.formatServices_cons hversion hne, hnum] at hstart
      exact hb (List.cons.inj hstart).1.symm
    rw [ann.formatServices_nil hservices, List.nil_append] at hstart hbehind ⊢
    have hperiod : ann.beaconPeriod = 0 := by
      by_contra hne
      obtain ⟨b, num, hnum, hb⟩ := encoded_head hne
      rw [ann.formatPeriod_pos hversion hne, hnum] at hstart
      exact hb (List.cons.inj hstart).1.symm
    rw [ann.formatPeriod_zero hperiod, List.length_nil] at hbehind
    rw [ann.formatPeriod_zero hperiod]
    refine ⟨Or.inr ⟨hservices, hperiod, ?_⟩, List.eq_nil_of_length_eq_zero hbehind⟩
    rw [← ann.eidField_alone hservices hperiod, h]
  · refine ⟨Or.inl hnul, ?_⟩
    rw [cString_eq_self hnul, Nat.sub_self] at hun
    rw [h, cString_eq_self hnul, List.eq_nil_of_length_eq_zero hun, List.append_nil] at hall
    exact List.append_cancel_left hall

/-- An announcement of version 4 with a canonical endpoint id and these services. -/
structure Announced (oasys : Oasys) (svcs : List BeaconService) : Prop where
  version : ann.version = 4
  services : ann.services = svcs.map BeaconService.toService
  canonical : ann.canonicalEid =
    if ann.canonicalEid.uri = [] then EndpointID.default else oasys.assign ann.canonicalEid.uri

/-- A fresh announcement gets what was announced from the bytes that were sent, if any were. -/
def RoundTrips (oasys : Oasys) (svcs : List BeaconService) (bp : Bytes) : Prop :=
  0 < (ann.format bp bp.length).1 → ∃ a,
    IPNDAnnouncement.fresh.parse oasys (ann.sent bp) = .ok (true, a) ∧
      a.canonicalEid = ann.canonicalEid ∧ a.sequenceNum = ann.sequenceNum ∧
      a.beaconPeriod = ann.beaconPeriod ∧
      a.services = (svcs.filterMap BeaconService.received).map ClaService.toService

/-- Every service is written, and the last one is long enough to be looked for: it has components, or two
bytes of a period follow it. -/
def ServicesComplete (svcs : List BeaconService) : Prop :=
  BeaconService.AllWritten svcs ∧
    ∀ last ∈ svcs.getLast?, last.toService.components ≠ [] ∨ 128 ≤ ann.beaconPeriod.toNat

section Announced

variable {ann} {oasys : Oasys} {svcs : List BeaconService} (h : ann.Announced oasys svcs)
include h

theorem Announced.formatPeriod_length : 2 ≤ ann.formatPeriod.length ↔ 128 ≤ ann.beaconPeriod.toNat := by
  by_cases hzero : ann.beaconPeriod = 0
  · rw [ann.formatPeriod_zero hzero, hzero]
    decide
  · rw [ann.formatPeriod_pos h.version hzero, SDNV.encoded_length]
    have hlog := Nat.log_pos_iff (b := 128) (n := ann.beaconPeriod.toNat)
    omega

theorem Announced.endsLong (hcomplete : ann.ServicesComplete svcs) :
    BeaconService.EndsLong svcs ann.formatPeriod.length := by
  intro last hlast
  rw [h.formatPeriod_length]
  exact hcomplete.2 last hlast

theorem Announced.formatServices_bytes (hne : svcs ≠ []) :
    ann.formatServices =
      SDNV.encoded (UInt64.ofNat svcs.length) ++ BeaconService.bytes svcs := by
  have hservices : ann.services ≠ [] := by
    rw [h.services]
    exact fun hnil => hne (List.map_eq_nil_iff.mp hnil)
  rw [ann.formatServices_cons h.version hservices, h.services, List.length_map, BeaconService.bytes]

theorem Announced.parseServices (a : IPNDAnnouncement) (xs : Bytes) (hversion : a.version = 4)
    (hflags : a.flags = ann.formatFlags) (hnone : a.services = [])
    (hcomplete : ann.ServicesComplete svcs)
    (hsize : (xs ++ (ann.formatServices ++ ann.formatPeriod)).length < 2 ^ 31) :
    ∃ ys, a.parseServices (between xs (ann.formatServices ++ ann.formatPeriod)) =
      .ok (true, { a with
        services := (svcs.filterMap BeaconService.received).map ClaService.toService },
        between ys ann.formatPeriod) := by
  cases svcs with
  | nil =>
      have hskip : ¬ (4 ≤ a.version ∧ a.flags &&& beaconServiceBlock ≠ 0) := by
        intro hflag
        rw [hflags, ann.formatFlags_bits.2.1, h.services] at hflag
        exact hflag.2 rfl
      refine ⟨xs, ?_⟩
      rw [IPNDAnnouncement.parseServices, if_neg hskip, ann.formatServices_nil h.services]
      cases a
      cases hnone
      rfl
  | cons s svcs =>
      have hne : s :: svcs ≠ [] := List.cons_ne_nil s svcs
      have hflag : 4 ≤ a.version ∧ a.flags &&& beaconServiceBlock ≠ 0 := by
        rw [hversion, hflags, ann.formatFlags_bits.2.1, h.services]
        exact ⟨by decide, List.cons_ne_nil _ _⟩
      rw [h.formatServices_bytes hne, List.append_assoc] at hsize ⊢
      exact parseServices_bytes a s svcs xs ann.formatPeriod hflag hcomplete.1
        (h.endsLong hcomplete) hsize

theorem Announced.parsePeriod (a : IPNDAnnouncement) (xs : Bytes) (hversion : a.version = 4)
    (hflags : a.flags = ann.formatFlags) (hnone : a.beaconPeriod = 0) :
    a.parsePeriod (between xs ann.formatPeriod) =
      .ok (true, { a with beaconPeriod := ann.beaconPeriod }) := by
  by_cases hzero : ann.beaconPeriod = 0
  · have hskip : ¬ (3 ≤ a.version ∧ a.flags &&& beaconContainsPeriod ≠ 0) := by
      intro hflag
      rw [hflags, ann.formatFlags_bits.2.2, hzero] at hflag
      exact absurd hflag.2.1 (by decide)
    rw [IPNDAnnouncement.parsePeriod, if_neg hskip, hzero, ← hnone]
  · have hflag : 3 ≤ a.version ∧ a.flags &&& beaconContainsPeriod ≠ 0 := by
      rw [hversion, hflags]
      exact ⟨by decide, ann.formatFlags_four h.version hzero⟩
    have hread := parsePeriod_number a xs [] ann.beaconPeriod hflag
    rw [List.append_nil] at hread
    rw [ann.formatPeriod_pos h.version hzero, hread]

theorem Announced.roundTrips {bp : Bytes} (hsize : bp.length < 2 ^ 31) (heid : ann.EidSurvives bp)
    (hcomplete : ann.ServicesComplete svcs) : ann.RoundTrips oasys svcs bp := by
  intro hpos
  have hfit := (ann.format_pos bp).mp hpos
  have hfound := ann.eidField_of_survives heid
  have hcount : ann.services.length < 2 ^ 64 := by
    have htwo := BeaconService.length_le_bytes hcomplete.1
    rw [h.services, List.length_map]
    cases svcs with
    | nil => decide
    | cons s svcs =>
        rw [formattedLength, h.formatServices_bytes (List.cons_ne_nil s svcs),
          List.length_append] at hfit
        omega
  obtain ⟨xs, hxs, hparse⟩ := ann.parse_sent oasys h.version hfit hsize
  obtain ⟨-, hbehind⟩ := ann.behindEid_of_eidField h.version hcount hfit hfound
  rw [hbehind] at hxs hparse
  obtain ⟨ys, hblock⟩ := h.parseServices (ann.header oasys bp) xs rfl rfl rfl hcomplete hxs
  have hperiod := h.parsePeriod { ann.header oasys bp with
    services := (svcs.filterMap BeaconService.received).map ClaService.toService } ys rfl rfl rfl
  have heid : (ann.header oasys bp).canonicalEid = ann.canonicalEid := by
    rw [header, hfound]
    exact h.canonical.symm
  rw [hblock, ok_bind] at hparse
  exact ⟨_, hparse.trans hperiod, heid, rfl, rfl, rfl⟩

theorem Announced.servicesComplete (a r : IPNDAnnouncement) (xs : Bytes) (hversion : a.version = 4)
    (hflags : a.flags = ann.formatFlags) (hcount : svcs.length < 2 ^ 32)
    (hsize : (xs ++ (ann.formatServices ++ ann.formatPeriod)).length < 2 ^ 31)
    (hparse : (a.parseServices (between xs (ann.formatServices ++ ann.formatPeriod)) >>= fun s =>
      if s.1 = false then .ok (false, s.2.1) else s.2.1.parsePeriod s.2.2) = .ok (true, r)) :
    ann.ServicesComplete svcs := by
  by_cases hne : svcs = []
  · rw [hne]
    refine ⟨?_, ?_⟩
    · intro s hs
      cases hs
    · intro last hlast
      cases hlast
  have hflag : 4 ≤ a.version ∧ a.flags &&& beaconServiceBlock ≠ 0 := by
    rw [hversion, hflags, ann.formatFlags_bits.2.1, h.services]
    exact ⟨by decide, fun hnil => hne (List.map_eq_nil_iff.mp hnil)⟩
  have hfollows := parseServices_follows a xs _ hsize
  have hvalue := value_encoded (n := svcs.length) (by omega)
  have hlen := List.length_pos_of_ne_nil hne
  have hmod : value (SDNV.encoded (UInt64.ofNat svcs.length)) % 2 ^ 32 = svcs.length := by omega
  rw [h.formatServices_bytes hne, List.append_assoc] at hfollows hparse
  rw [blockCourse, if_pos hflag, splitNumber_encoded] at hfollows
  dsimp only at hfollows
  rw [hvalue, hmod, if_neg (Nat.ne_of_gt hlen)] at hfollows
  generalize a.parseServices (between xs (SDNV.encoded (UInt64.ofNat svcs.length) ++
    (BeaconService.bytes svcs ++ ann.formatPeriod))) = x at hfollows hparse
  split at hfollows
  · obtain ⟨a', s, rfl⟩ := hfollows
    cases hparse
  cases hcourse : servicesCourse svcs.length (BeaconService.bytes svcs ++ ann.formatPeriod) with
  | stuck =>
      rw [hcourse] at hfollows
      obtain ⟨t, rfl⟩ := hfollows
      cases hparse
  | rejected =>
      rw [hcourse] at hfollows
      obtain ⟨a', s, rfl⟩ := hfollows
      cases hparse
  | reached rest clean =>
      rw [hcourse] at hfollows
      dsimp only at hfollows
      split at hfollows
      · obtain ⟨a', s, rfl⟩ := hfollows
        cases hparse
      obtain ⟨b, ys, rfl, hb, hbflags, -⟩ := hfollows
      have hnumber : ann.formatPeriod = [] ∨ ∃ v, ann.formatPeriod = SDNV.encoded v := by
        by_cases hzero : ann.beaconPeriod = 0
        · exact Or.inl (ann.formatPeriod_zero hzero)
        · exact Or.inr ⟨_, ann.formatPeriod_pos h.version hzero⟩
      cases BeaconService.servicesCourse_bytes svcs 0 hnumber hcourse with
      | inl hall =>
          obtain ⟨-, hwritten, hlong⟩ := hall
          refine ⟨hwritten, ?_⟩
          intro last hlast
          rw [← h.formatPeriod_length]
          exact hlong last hlast
      | inr hend =>
          -- the period was taken for a service, and nothing is left for the period
          obtain ⟨hperiod, rfl⟩ := hend
          have hzero : ann.beaconPeriod ≠ 0 := fun hzero => hperiod (ann.formatPeriod_zero hzero)
          have hread : 3 ≤ b.version ∧ b.flags &&& beaconContainsPeriod ≠ 0 := by
            rw [hb, hbflags, hversion, hflags]
            exact ⟨by decide, ann.formatFlags_four h.version hzero⟩
          have hstuck := parsePeriod_follows b ys []
          rw [periodCourse, if_pos hread] at hstuck
          obtain ⟨t, ht⟩ := hstuck
          rw [ok_bind] at hparse
          cases ht.symm.trans hparse

end Announced

theorem parseServices_eid {a a' : IPNDAnnouncement} {s s' : InputStream UInt8} {b : Bool}
    (h : a.parseServices s = .ok (b, a', s')) : a'.canonicalEid = a.canonicalEid := by
  rw [parseServices] at h
  split at h
  · cases hnumber : readSDNV s with
    | error t =>
        rw [hnumber] at h
        cases h
    | ok r =>
        rw [hnumber, ok_bind] at h
        split at h
        · cases h
          rfl
        split at h
        · cases h
          rfl
        cases hfound : readServices (r.2.1.toNat % 2 ^ 32) r.2.2 with
        | error t =>
            rw [hfound] at h
            cases h
        | ok found =>
            obtain ⟨services, num, input⟩ := found
            rw [hfound, ok_bind] at h
            cases num with
            | none => cases h
            | some num =>
                cases h
                rfl
  · cases h
    rfl

theorem parsePeriod_eid {a a' : IPNDAnnouncement} {s : InputStream UInt8} {b : Bool}
    (h : a.parsePeriod s = .ok (b, a')) : a'.canonicalEid = a.canonicalEid := by
  rw [parsePeriod] at h
  split at h
  · cases hnumber : readSDNV s with
    | error t =>
        rw [hnumber] at h
        cases h
    | ok r =>
        rw [hnumber, ok_bind] at h
        split at h
        · cases h
          rfl
        · cases h
          rfl
  · cases h
    rfl

theorem behindEid_eid {a r : IPNDAnnouncement} {s : InputStream UInt8} {b : Bool}
    (h : (a.parseServices s >>= fun p =>
      if p.1 = false then .ok (false, p.2.1) else p.2.1.parsePeriod p.2.2) = .ok (b, r)) :
    r.canonicalEid = a.canonicalEid := by
  cases hservices : a.parseServices s with
  | error t =>
      rw [hservices] at h
      cases h
  | ok p =>
      obtain ⟨found, a', s'⟩ := p
      have hkept := parseServices_eid hservices
      rw [hservices, ok_bind] at h
      split at h
      · cases h
        exact hkept
      · exact (parsePeriod_eid h).trans hkept

/-- For every announcement and every buffer whose positions fit an `int`, what was formatted is received
if the endpoint id survives and the services are complete. This is the only way, for up to 2^32 services
and an endpoint id that is assigned from no other string if it has a NUL. -/
theorem beacon_roundTrips_iff {ann : IPNDAnnouncement} {oasys : Oasys} {svcs : List BeaconService}
    {bp : Bytes} (h : ann.Announced oasys svcs) (hsize : bp.length < 2 ^ 31) :
    (bp.length < ann.formattedLength ∨ ann.EidSurvives bp ∧ ann.ServicesComplete svcs →
        ann.RoundTrips oasys svcs bp) ∧
      (svcs.length < 2 ^ 32 →
        (0 ∈ ann.canonicalEid.uri →
          ∀ str, oasys.assign str = ann.canonicalEid → str = ann.canonicalEid.uri) →
        ann.RoundTrips oasys svcs bp →
        bp.length < ann.formattedLength ∨ ann.EidSurvives bp ∧ ann.ServicesComplete svcs) := by
  constructor
  · intro hcond
    cases hcond with
    | inl hshort =>
        intro hpos
        exact absurd ((ann.format_pos bp).mp hpos) (Nat.not_le.mpr hshort)
    | inr hwhole => exact h.roundTrips hsize hwhole.1 hwhole.2
  · intro hcount hassign htrips
    by_cases hshort : bp.length < ann.formattedLength
    · exact Or.inl hshort
    have hfit := Nat.le_of_not_lt hshort
    obtain ⟨r, hr, heid, -⟩ := htrips ((ann.format_pos bp).mpr hfit)
    obtain ⟨xs, hxs, hparse⟩ := ann.parse_sent oasys h.version hfit hsize
    rw [hparse] at hr
    have hfound : ann.eidField bp = ann.canonicalEid.uri := by
      by_cases hnul : 0 ∈ ann.canonicalEid.uri
      · have hne : ann.canonicalEid.uri ≠ [] := List.ne_nil_of_mem hnul
        have hkept := behindEid_eid hr
        rw [header, if_neg hne] at hkept
        exact hassign hnul _ (hkept.symm.trans heid)
      · exact ann.eidField_of_survives (Or.inl hnul)
    have hservices : ann.services.length < 2 ^ 64 := by
      rw [h.services, List.length_map]
      omega
    obtain ⟨hsurvives, hbehind⟩ := ann.behindEid_of_eidField h.version hservices hfit hfound
    rw [hbehind] at hxs hr
    exact Or.inr ⟨hsurvives, h.servicesComplete _ r xs rfl rfl hcount hxs hr⟩

/-- An announcement with the endpoint id "a:b", a service and a period. -/
def sampleAnnounced : IPNDAnnouncement where
  version := 4
  flags := 0
  sequenceNum := 7
  canonicalEid := Oasys.plain.assign [0x61, 0x3a, 0x62]
  services := [(BeaconService.cla false 0x01020304 4556).toService]
  beaconPeriod := 30

theorem roundTrips_sample :
    0 < (sampleAnnounced.format (List.replicate 64 0) 64).1 ∧
      sampleAnnounced.RoundTrips Oasys.plain [BeaconService.cla false 0x01020304 4556]
        (List.replicate 64 0) := by
  have hannounced : sampleAnnounced.Announced Oasys.plain [BeaconService.cla false 0x01020304 4556] :=
    ⟨rfl, rfl, rfl⟩
  have hcomplete : sampleAnnounced.ServicesComplete [BeaconService.cla false 0x01020304 4556] := by
    refine ⟨?_, ?_⟩
    · intro s hs
      rw [List.mem_singleton.mp hs, BeaconService.cla_raw]
      exact Option.some_ne_none _
    · intro last hlast
      cases hlast
      exact Or.inl (List.cons_ne_nil _ _)
  refine ⟨by decide +kernel, ?_⟩
  exact (beacon_roundTrips_iff hannounced (by decide)).1 (Or.inr ⟨Or.inl (by decide), hcomplete⟩)

/-- An announcement of one service that is not filled. The count announces the service, and the receiver
rejects the beacon. -/
def unsetAnnounced : IPNDAnnouncement where
  version := 4
  flags := 0
  sequenceNum := 7
  canonicalEid := EndpointID.default
  services := [(BeaconService.unset false).toService]
  beaconPeriod := 0

theorem unset_not_roundTrips :
    unsetAnnounced.Announced Oasys.plain [BeaconService.unset false] ∧
      unsetAnnounced.sent (List.replicate 64 0) = [4, 2, 0, 7, 1] ∧
      ¬ unsetAnnounced.RoundTrips Oasys.plain [BeaconService.unset false] (List.replicate 64 0) := by
  have hsent : unsetAnnounced.sent (List.replicate 64 0) = [4, 2, 0, 7, 1] := by decide +kernel
  refine ⟨⟨rfl, rfl, rfl⟩, hsent, ?_⟩
  intro htrips
  obtain ⟨a, ha, -⟩ := htrips (by decide +kernel)
  rw [hsent] at ha
  cases ha

end IPNDAnnouncement

end IPND

end Dtn2
