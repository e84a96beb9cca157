import Dtn2.Bundling.StatusReport
import Dtn2.Bundling.Custody

/-!
# Status reports are read back

The report has the length that was computed, and the parser finds in it what was written. The parser
reads no byte outside of its string, and what it accepts it has used up.
-/

namespace Dtn2

open Framework

namespace BundleStatusReport

/-! ## Writing -/

open CustodySignal in
def reportText (now : UInt32) (orig : Bundle) (statusFlags reason : UInt8) : Bytes :=
  adminByte orig :: statusFlags :: reason ::
    (fragmentBytes orig ++ (SDNV.encoded now.toUInt64 ++ SDNV.encoded 0) ++
      (SDNV.encoded orig.creationTs.seconds ++ SDNV.encoded orig.creationTs.seqno) ++
        (SDNV.encoded (UInt64.ofNat orig.source.uri.length) ++ orig.source.uri))

open CustodySignal in
theorem reportText_length (now : UInt32) (orig : Bundle) (statusFlags reason : UInt8) :
    (reportText now orig statusFlags reason).length = reportLength now orig := by
  have hfragment : (fragmentBytes orig).length = if orig.isFragment = true then
      SDNV.encodingLen orig.fragOffset.toUInt64 + SDNV.encodingLen orig.origLength.toUInt64
        else 0 := by
    unfold fragmentBytes
    split <;> simp
  unfold reportText reportLength
  rw [← hfragment]
  simp only [tsEncodingLen, List.length_append, List.length_cons, SDNV.encodingLen_eq]
  omega

open CustodySignal in
theorem reportBytes_eq (now : UInt32) (orig : Bundle) (statusFlags reason : UInt8) :
    reportBytes now orig statusFlags reason = .ok (reportText now orig statusFlags reason) := by
  have hlen := reportText_length now orig statusFlags reason
  simp only [reportText, List.length_append, List.length_cons] at hlen
  have hfields : fragmentFields orig (reportLength now orig - 3) = .ok (fragmentBytes orig) := by
    unfold fragmentFields
    by_cases hfrag : orig.isFragment = true
    · simp only [fragmentBytes, if_pos hfrag, List.length_append] at hlen
      rw [if_pos hfrag, fragmentBytes, if_pos hfrag]
      apply encodePair_ok
      simp only [SDNV.encodingLen_eq]
      omega
    · rw [if_neg hfrag, fragmentBytes, if_neg hfrag]
      rfl
  unfold reportBytes
  dsimp only
  rw [hfields, Exec.ok_bind, encodePair_ok, Exec.ok_bind, encodePair_ok, Exec.ok_bind,
    encodeField_ok, Exec.ok_bind, Exec.assert_bind]
  · rfl
  all_goals
    simp only [List.length_append, SDNV.encodingLen_eq]
    omega

theorem createStatusReport_eq (os : Oasys) (now : UInt32) (bundle orig : Bundle)
    (source : EndpointID) (statusFlags reason : UInt8) :
    ∃ report, createStatusReport os now bundle orig source statusFlags reason = .ok report ∧
      report.payload.data = reportText now orig statusFlags reason := by
  unfold createStatusReport
  rw [reportBytes_eq, Exec.ok_bind]
  refine ⟨_, rfl, ?_⟩
  rw [← reportText_length now orig statusFlags reason]
  exact List.take_left

/-! ## Reading inside the string -/

def Inside (s : Parse) : Prop := s.bp.length = s.len.toNat

/-- A part of the parser that reads inside the string and stays there. -/
def Safe (f : Step) : Prop := ∀ s, Inside s → ∃ s' ok, f s = .ok (s', ok) ∧ Inside s'

theorem inside_advance {s : Parse} (h : Inside s) {n : Nat} (hn : n ≤ s.bp.length) :
    Inside (s.advance n) := by
  have hlt := s.len.toNat_lt
  unfold Inside at *
  have hof : (UInt32.ofNat n).toNat = n := by
    rw [UInt32.toNat_ofNat']
    omega
  have hsub : UInt32.ofNat n ≤ s.len := by
    rw [UInt32.le_iff_toNat_le, hof, ← h]
    exact hn
  simp only [Parse.advance, List.length_drop]
  rw [UInt32.toNat_sub_of_le _ _ hsub, hof, h]

theorem Safe.andThen {f g : Step} (hf : Safe f) (hg : Safe g) : Safe (f.andThen g) := by
  intro s hs
  obtain ⟨s', ok, hfs, hs'⟩ := hf s hs
  unfold Step.andThen
  rw [hfs, Exec.ok_bind]
  cases ok with
  | false => exact ⟨s', false, rfl, hs'⟩
  | true => exact hg s' hs'

theorem readByte_safe (store : Data → UInt8 → Data) : Safe (readByte store) := by
  intro s hs
  unfold readByte
  by_cases hlen : s.len < 1
  · rw [if_pos hlen]
    exact ⟨s, false, rfl, hs⟩
  · rw [if_neg hlen]
    cases hbp : s.bp with
    | nil =>
        have hzero : s.len.toNat = 0 := by
          rw [← hs, hbp]
          rfl
        rw [UInt32.lt_iff_toNat_lt, hzero] at hlen
        exact absurd (by decide) hlen
    | cons b rest =>
        have hone : 1 ≤ s.bp.length := by
          rw [hbp]
          simp
        exact ⟨_, true, rfl, inside_advance hs hone⟩

theorem decodeAt_inside {s : Parse} (hs : Inside s) :
    SDNV.decodeAt s.bp s.len.toNat = .ok (SDNV.decode s.bp) := by
  rw [SDNV.decodeAt_eq (Nat.le_of_eq hs.symm), ← hs, List.take_length]

theorem readNumber_safe (store : Data → UInt64 → Data) : Safe (readNumber store) := by
  intro s hs
  unfold readNumber
  rw [decodeAt_inside hs, Exec.ok_bind]
  cases hdec : SDNV.decode s.bp with
  | mk ret val =>
      cases ret with
      | none => exact ⟨_, false, rfl, hs⟩
      | some n =>
          have hn := (SDNV.decode_some hdec).2.1
          exact ⟨_, true, rfl, inside_advance (s := { s with data := store s.data val }) hs hn⟩

theorem decodeAt_behind {s : Parse} (hs : Inside s) (n : Nat) :
    SDNV.decodeAt (s.bp.drop n) (s.len.toNat - n) = .ok (SDNV.decode (s.bp.drop n)) := by
  rw [← hs, ← List.length_drop, SDNV.decodeAt_eq (Nat.le_refl _), List.take_length]

theorem readTimestamp_safe (get : Data → BundleTimestamp)
    (store : Data → BundleTimestamp → Data) : Safe (readTimestamp get store) := by
  intro s hs
  unfold readTimestamp
  rw [decodeAt_inside hs, Exec.ok_bind]
  cases hdec : SDNV.decode s.bp with
  | mk ret val =>
      cases ret with
      | none => exact ⟨s, false, rfl, hs⟩
      | some n =>
          have hn := (SDNV.decode_some hdec).2.1
          dsimp only
          rw [decodeAt_behind hs n, Exec.ok_bind]
          cases hdec' : SDNV.decode (s.bp.drop n) with
          | mk ret' val' =>
              cases ret' with
              | none => exact ⟨_, false, rfl, hs⟩
              | some m =>
                  have hm := (SDNV.decode_some hdec').2.1
                  rw [List.length_drop] at hm
                  exact ⟨_, true, rfl, inside_advance hs (by omega)⟩

theorem checkType_safe : Safe checkType := fun s hs => ⟨s, _, rfl, hs⟩

theorem readFragment_safe : Safe readFragment := by
  intro s hs
  unfold readFragment
  by_cases hflag : s.data.adminFlags &&& 0x01 ≠ 0
  · rw [if_pos hflag]
    exact (readNumber_safe _).andThen (readNumber_safe _) s hs
  · rw [if_neg hflag]
    exact ⟨s, true, rfl, hs⟩

theorem readAckTime_safe (t : ReportTime) : Safe (readAckTime t) := by
  intro s hs
  unfold readAckTime
  by_cases hflag : s.data.statusFlags &&& t.flag ≠ 0
  · rw [if_pos hflag]
    exact readTimestamp_safe _ _ s hs
  · rw [if_neg hflag]
    exact ⟨_, true, rfl, hs⟩

theorem readAckTimes_safe : Safe readAckTimes :=
  (readAckTime_safe _).andThen <| (readAckTime_safe _).andThen <| (readAckTime_safe _).andThen <|
    (readAckTime_safe _).andThen <| (readAckTime_safe _).andThen (readAckTime_safe _)

theorem readSource_spec (os : Oasys) {s : Parse} (hs : Inside s) :
    ∃ s' ok, readSource os s = .ok (s', ok) ∧ Inside s' ∧ (ok = true → s'.bp = []) := by
  unfold readSource
  rw [decodeAt_inside hs, Exec.ok_bind]
  cases hdec : SDNV.decode s.bp with
  | mk ret val =>
      cases ret with
      | none => exact ⟨s, false, rfl, hs, fun h => absurd h (by decide)⟩
      | some n =>
          have hn := inside_advance hs (SDNV.decode_some hdec).2.1
          dsimp only
          by_cases hlen : (s.advance n).len.toUInt64 ≠ val
          · rw [if_pos hlen]
            exact ⟨_, false, rfl, hn, fun h => absurd h (by decide)⟩
          · have hle : (s.advance n).len.toNat ≤ (s.advance n).bp.length := Nat.le_of_eq hn.symm
            rw [if_neg hlen, if_neg (Nat.not_lt.mpr hle)]
            refine ⟨_, _, rfl, inside_advance hn hle, fun _ => ?_⟩
            simp only [Parse.advance, List.drop_drop]
            exact List.drop_eq_nil_of_le (by
              have hlast := Nat.le_of_eq hn
              simp only [Parse.advance, List.length_drop] at hlast
              omega)

theorem Safe.andThen_spec {f g : Step} (hf : Safe f)
    (hg : ∀ {s}, Inside s → ∃ s' ok, g s = .ok (s', ok) ∧ Inside s' ∧ (ok = true → s'.bp = []))
    {s : Parse} (hs : Inside s) :
    ∃ s' ok, f.andThen g s = .ok (s', ok) ∧ Inside s' ∧ (ok = true → s'.bp = []) := by
  obtain ⟨s', ok, hfs, hs'⟩ := hf s hs
  unfold Step.andThen
  rw [hfs, Exec.ok_bind]
  cases ok with
  | false => exact ⟨s', false, rfl, hs', fun h => absurd h (by decide)⟩
  | true => exact hg hs'

theorem readReport_spec (os : Oasys) {s : Parse} (hs : Inside s) :
    ∃ s' ok, readReport os s = .ok (s', ok) ∧ Inside s' ∧ (ok = true → s'.bp = []) := by
  unfold readReport
  apply (readByte_safe _).andThen_spec _ hs
  apply checkType_safe.andThen_spec
  apply (readByte_safe _).andThen_spec
  apply (readByte_safe _).andThen_spec
  apply readFragment_safe.andThen_spec
  apply readAckTimes_safe.andThen_spec
  apply (readTimestamp_safe _ _).andThen_spec
  exact readSource_spec os

/-! ## Reading what was written -/

def start (d : Data) (bp : Bytes) : Parse := ⟨d, bp, UInt32.ofNat bp.length⟩

/-- The part reads `bs`, whatever follows, and makes `d'` of `d`. -/
def Reads (f : Step) (bs : Bytes) (d d' : Data) : Prop :=
  ∀ rest, (bs ++ rest).length < 2 ^ 32 → f (start d (bs ++ rest)) = .ok (start d' rest, true)

theorem inside_start (d : Data) {bp : Bytes} (h : bp.length < 2 ^ 32) : Inside (start d bp) := by
  change bp.length = (UInt32.ofNat bp.length).toNat
  rw [UInt32.toNat_ofNat']
  omega

theorem start_advance (d : Data) (bs rest : Bytes) :
    (start d (bs ++ rest)).advance bs.length = start d rest := by
  have hlen : UInt32.ofNat (bs ++ rest).length - UInt32.ofNat bs.length =
      UInt32.ofNat rest.length := by
    rw [List.length_append, UInt32.ofNat_add, UInt32.add_comm, UInt32.add_sub_cancel]
  unfold start Parse.advance
  rw [hlen, List.drop_left]

theorem Reads.andThen {f g : Step} {bs bs' : Bytes} {d d' d'' : Data} (hf : Reads f bs d d')
    (hg : Reads g bs' d' d'') : Reads (f.andThen g) (bs ++ bs') d d'' := by
  intro rest hlen
  rw [List.append_assoc] at hlen ⊢
  have hrest : (bs' ++ rest).length < 2 ^ 32 := by
    rw [List.length_append] at hlen
    omega
  unfold Step.andThen
  rw [hf _ hlen, Exec.ok_bind]
  exact hg rest hrest

theorem readByte_reads (store : Data → UInt8 → Data) (d : Data) (b : UInt8) :
    Reads (readByte store) [b] d (store d b) := by
  intro rest hlen
  have hpos : ¬ (start d ([b] ++ rest)).len < 1 := by
    have hin : _ = _ := inside_start d hlen
    rw [UInt32.lt_iff_toNat_lt, ← hin]
    simp [start]
  have hadvance := start_advance (store d b) [b] rest
  unfold readByte
  rw [if_neg hpos, ← hadvance]
  rfl

theorem readNumber_reads (store : Data → UInt64 → Data) (d : Data) (val : UInt64) :
    Reads (readNumber store) (SDNV.encoded val) d (store d val) := by
  intro rest hlen
  unfold readNumber
  rw [decodeAt_inside (inside_start d hlen), Exec.ok_bind]
  simp only [start, SDNV.decode_encoded]
  exact congrArg (fun s => Except.ok (s, true)) (start_advance (store d val) _ rest)

/-- A field that can be stored twice and read back. -/
structure Field (get : Data → BundleTimestamp) (store : Data → BundleTimestamp → Data) : Prop where
  get_store : ∀ d tv, get (store d tv) = tv
  store_store : ∀ d tv tv', store (store d tv) tv' = store d tv'

theorem readTimestamp_reads {get : Data → BundleTimestamp} {store : Data → BundleTimestamp → Data}
    (hfield : Field get store) (d : Data) (tv : BundleTimestamp) :
    Reads (readTimestamp get store) (SDNV.encoded tv.seconds ++ SDNV.encoded tv.seqno) d
      (store d tv) := by
  intro rest hlen
  have hin := inside_start d hlen
  have hseconds : SDNV.decode (start d (SDNV.encoded tv.seconds ++ SDNV.encoded tv.seqno ++
      rest)).bp = (some (SDNV.encoded tv.seconds).length, tv.seconds) := by
    simp only [start, List.append_assoc, SDNV.decode_encoded]
  have hseqno : SDNV.decode ((start d (SDNV.encoded tv.seconds ++ SDNV.encoded tv.seqno ++
      rest)).bp.drop (SDNV.encoded tv.seconds).length) =
      (some (SDNV.encoded tv.seqno).length, tv.seqno) := by
    simp only [start, List.append_assoc, List.drop_left, SDNV.decode_encoded]
  unfold readTimestamp
  rw [decodeAt_inside hin, Exec.ok_bind, hseconds]
  dsimp only
  rw [decodeAt_behind hin, Exec.ok_bind, hseqno]
  dsimp only
  rw [hfield.get_store, hfield.store_store, ← List.length_append]
  exact congrArg (fun s => Except.ok (s, true)) (start_advance (store d tv) _ rest)

theorem checkType_reads {d : Data} (h : d.adminType = 0x01) : Reads checkType [] d d := by
  intro rest _
  unfold checkType
  rw [decide_eq_true (show (start d ([] ++ rest)).data.adminType = 0x01 from h)]
  rfl

theorem setTime_field (t : ReportTime) :
    Field (fun d => d.time t) (fun d tv => d.setTime tv t) := by
  constructor
  · intro d tv
    cases t <;> rfl
  · intro d tv tv'
    cases t <;> rfl

/-- The bytes and the fragment fields of two records are the same. -/
structure SameHead (d d' : Data) : Prop where
  adminType : d'.adminType = d.adminType
  adminFlags : d'.adminFlags = d.adminFlags
  statusFlags : d'.statusFlags = d.statusFlags
  reasonCode : d'.reasonCode = d.reasonCode
  fragOffset : d'.origFragOffset = d.origFragOffset
  fragLength : d'.origFragLength = d.origFragLength

theorem SameHead.trans {d d' d'' : Data} (h : SameHead d d') (h' : SameHead d' d'') :
    SameHead d d'' where
  adminType := h'.adminType.trans h.adminType
  adminFlags := h'.adminFlags.trans h.adminFlags
  statusFlags := h'.statusFlags.trans h.statusFlags
  reasonCode := h'.reasonCode.trans h.reasonCode
  fragOffset := h'.fragOffset.trans h.fragOffset
  fragLength := h'.fragLength.trans h.fragLength

theorem setTime_head (d : Data) (tv : BundleTimestamp) (t : ReportTime) :
    SameHead d (d.setTime tv t) := by
  cases t <;> exact ⟨rfl, rfl, rfl, rfl, rfl, rfl⟩

@[simp] theorem setTime_statusFlags (d : Data) (tv : BundleTimestamp) (t : ReportTime) :
    (d.setTime tv t).statusFlags = d.statusFlags :=
  (setTime_head d tv t).statusFlags

theorem flag_and_ne_zero (t e : ReportTime) : t.flag &&& e.flag ≠ 0 ↔ e = t := by
  cases t <;> cases e <;> decide

def timeBytes (tv : BundleTimestamp) : Bytes := SDNV.encoded tv.seconds ++ SDNV.encoded tv.seqno

theorem readAckTime_reads {t : ReportTime} {d : Data} (hflags : d.statusFlags = t.flag)
    (tv : BundleTimestamp) (e : ReportTime) :
    Reads (readAckTime e) (if e = t then timeBytes tv else []) d
      (d.setTime (if e = t then tv else ⟨0, 0⟩) e) := by
  intro rest hlen
  have hflag : (start d ((if e = t then timeBytes tv else []) ++ rest)).data.statusFlags =
      t.flag := hflags
  unfold readAckTime
  rw [hflag]
  by_cases he : e = t
  · rw [if_pos ((flag_and_ne_zero t e).mpr he), if_pos he]
    rw [if_pos he] at hlen ⊢
    exact readTimestamp_reads (setTime_field e) d tv rest hlen
  · rw [if_neg (fun h => he ((flag_and_ne_zero t e).mp h)), if_neg he, if_neg he]
    rfl

def setTimes (t : ReportTime) (tv : BundleTimestamp) (d : Data) : Data :=
  let timeOf := fun e => if e = t then tv else ⟨0, 0⟩
  (((((d.setTime (timeOf .receipt) .receipt).setTime (timeOf .custody) .custody).setTime
    (timeOf .forwarding) .forwarding).setTime (timeOf .delivery) .delivery).setTime
      (timeOf .deletion) .deletion).setTime (timeOf .ackByApp) .ackByApp

theorem setTimes_time (t : ReportTime) (tv : BundleTimestamp) (d : Data) (e : ReportTime) :
    (setTimes t tv d).time e = if e = t then tv else ⟨0, 0⟩ := by
  cases e <;> rfl

theorem setTimes_head (t : ReportTime) (tv : BundleTimestamp) (d : Data) :
    SameHead d (setTimes t tv d) := by
  unfold setTimes
  exact (setTime_head _ _ .receipt).trans <| (setTime_head _ _ .custody).trans <|
    (setTime_head _ _ .forwarding).trans <| (setTime_head _ _ .delivery).trans <|
    (setTime_head _ _ .deletion).trans (setTime_head _ _ .ackByApp)

theorem readAckTimes_reads {t : ReportTime} {d : Data} (hflags : d.statusFlags = t.flag)
    (tv : BundleTimestamp) : Reads readAckTimes (timeBytes tv) d (setTimes t tv d) := by
  have hall := (readAckTime_reads hflags tv .receipt).andThen <|
    (readAckTime_reads (by simpa using hflags) tv .custody).andThen <|
    (readAckTime_reads (by simpa using hflags) tv .forwarding).andThen <|
    (readAckTime_reads (by simpa using hflags) tv .delivery).andThen <|
    (readAckTime_reads (by simpa using hflags) tv .deletion).andThen <|
    readAckTime_reads (by simpa using hflags) tv .ackByApp
  have hbytes : timeBytes tv = (if ReportTime.receipt = t then timeBytes tv else []) ++
      ((if ReportTime.custody = t then timeBytes tv else []) ++
      ((if ReportTime.forwarding = t then timeBytes tv else []) ++
      ((if ReportTime.delivery = t then timeBytes tv else []) ++
      ((if ReportTime.deletion = t then timeBytes tv else []) ++
        if ReportTime.ackByApp = t then timeBytes tv else [])))) := by
    cases t <;> simp
  rw [hbytes]
  exact hall

/-- The fragment fields after the parser went over them. -/
def setFragment (orig : Bundle) (d : Data) : Data :=
  if orig.isFragment = true then
    { d with origFragOffset := orig.fragOffset.toUInt64, origFragLength := orig.origLength.toUInt64 }
  else d

theorem readFragment_reads {orig : Bundle} {d : Data}
    (hflags : d.adminFlags &&& 0x01 ≠ 0 ↔ orig.isFragment = true) :
    Reads readFragment (CustodySignal.fragmentBytes orig) d (setFragment orig d) := by
  intro rest hlen
  have hstart : ∀ bs, (start d bs).data.adminFlags = d.adminFlags := fun _ => rfl
  unfold readFragment setFragment
  unfold CustodySignal.fragmentBytes at *
  rw [hstart]
  by_cases hfrag : orig.isFragment = true
  · rw [if_pos hfrag] at hlen
    rw [if_pos hfrag, if_pos hfrag, if_pos (hflags.mpr hfrag)]
    exact ((readNumber_reads _ d _).andThen (readNumber_reads _ _ _)) rest hlen
  · rw [if_neg hfrag, if_neg hfrag, if_neg (fun h => hfrag (hflags.mp h))]
    rfl

/-- The last part reads `bs` to its end and makes `d'` of `d`. -/
def Ends (f : Step) (bs : Bytes) (d d' : Data) : Prop :=
  bs.length < 2 ^ 32 → f (start d bs) = .ok (start d' [], true)

theorem Reads.andThen_ends {f g : Step} {bs bs' : Bytes} {d d' d'' : Data} (hf : Reads f bs d d')
    (hg : Ends g bs' d' d'') : Ends (f.andThen g) (bs ++ bs') d d'' := by
  intro hlen
  have hrest : bs'.length < 2 ^ 32 := by
    rw [List.length_append] at hlen
    omega
  unfold Step.andThen
  rw [hf _ hlen, Exec.ok_bind]
  exact hg hrest

/-- An endpoint id as `EndpointID::validate` leaves it: the parts are bounded by
`MAX_EID_PART_LENGTH`. -/
structure ValidEid (os : Oasys) (eid : EndpointID) : Prop where
  assigned : os.assign eid.uri = eid
  valid : eid.valid = true
  scheme : eid.schemeStr.length ≤ 1023
  ssp : eid.ssp.length ≤ 1023

theorem ValidEid.length_le {os : Oasys} {eid : EndpointID} (h : ValidEid os eid) :
    eid.uri.length ≤ 2047 := by
  have hscheme := h.scheme
  have hssp := h.ssp
  have hsplit := congrArg List.length
    (List.takeWhile_append_dropWhile (p := (· ≠ EndpointID.colon)) (l := eid.uri))
  unfold EndpointID.schemeStr at hscheme
  unfold EndpointID.ssp at hssp
  rw [List.length_tail] at hssp
  rw [List.length_append] at hsplit
  omega

theorem readSource_rest (os : Oasys) {s : Parse} (hs : Inside s) {n : Nat} {val : UInt64}
    (hdec : SDNV.decode s.bp = (some n, val)) (hlen : (s.advance n).len.toUInt64 = val) :
    readSource os s = .ok ({ (s.advance n).advance (s.advance n).len.toNat with
      data := { s.data with origSourceEid := os.assign (s.advance n).bp } },
        (os.assign (s.advance n).bp).valid) := by
  have hin := inside_advance hs (SDNV.decode_some hdec).2.1
  have htext : (s.advance n).bp.take (s.advance n).len.toNat = (s.advance n).bp := by
    rw [← hin, List.take_length]
  unfold readSource
  rw [decodeAt_inside hs, Exec.ok_bind, hdec]
  dsimp only
  rw [if_neg (not_not.mpr hlen), if_neg (Nat.not_lt.mpr (Nat.le_of_eq hin.symm)), htext]
  rfl

theorem readSource_reads {os : Oasys} {eid : EndpointID} (h : ValidEid os eid) (d : Data) :
    Ends (readSource os) (SDNV.encoded (UInt64.ofNat eid.uri.length) ++ eid.uri) d
      { d with origSourceEid := eid } := by
  intro hlen
  have hshort := h.length_le
  have hfits : eid.uri.length < 2 ^ 32 := by omega
  have hin : eid.uri.length = (start d eid.uri).len.toNat := inside_start d hfits
  have hcount : (start d eid.uri).len.toUInt64 = UInt64.ofNat eid.uri.length := by
    rw [← UInt64.toNat_inj, UInt32.toNat_toUInt64, UInt64.toNat_ofNat', ← hin]
    omega
  have hend : (start d eid.uri).advance eid.uri.length = start d [] := by
    have hadvance := start_advance d eid.uri []
    rwa [List.append_nil] at hadvance
  have hadvance := start_advance d (SDNV.encoded (UInt64.ofNat eid.uri.length)) eid.uri
  rw [readSource_rest os (inside_start d hlen) (SDNV.decode_encoded _ _) (by rw [hadvance, hcount]),
    hadvance, ← hin, hend]
  change Except.ok (start { d with origSourceEid := os.assign eid.uri } [],
    (os.assign eid.uri).valid) = _
  rw [h.assigned, h.valid]

/-! ## The report of a bundle -/

structure Tells (now : UInt32) (orig : Bundle) (t : ReportTime) (reason : UInt8) (d : Data) :
    Prop where
  adminType : d.adminType = 0x01
  statusFlags : d.statusFlags = t.flag
  reasonCode : d.reasonCode = reason
  time : d.time t = ⟨now.toUInt64, 0⟩
  others : ∀ e, e ≠ t → d.time e = ⟨0, 0⟩
  creationTs : d.origCreationTv = orig.creationTs
  source : d.origSourceEid = orig.source
  isFragment : d.adminFlags &&& 0x01 ≠ 0 ↔ orig.isFragment = true
  fragment : orig.isFragment = true →
    d.origFragOffset = orig.fragOffset.toUInt64 ∧ d.origFragLength = orig.origLength.toUInt64

/-- The two bytes and the flags of a report, as the parser stores them. -/
def receivedHead (orig : Bundle) (t : ReportTime) (reason : UInt8) (init : Data) : Data :=
  { init with
    adminType := 0x01
    adminFlags := if orig.isFragment = true then 1 else 0
    statusFlags := t.flag
    reasonCode := reason }

/-- The fields of a report, in the order in which the parser stores them. -/
def received (now : UInt32) (orig : Bundle) (t : ReportTime) (reason : UInt8) (init : Data) : Data :=
  { setTimes t ⟨now.toUInt64, 0⟩ (setFragment orig (receivedHead orig t reason init)) with
    origCreationTv := orig.creationTs
    origSourceEid := orig.source }

theorem adminByte_fields (orig : Bundle) :
    adminByte orig >>> 4 = 0x01 ∧
      adminByte orig &&& 0xf = if orig.isFragment = true then 1 else 0 := by
  unfold adminByte
  cases orig.isFragment <;> decide

theorem receivedHead_isFragment (orig : Bundle) (t : ReportTime) (reason : UInt8) (init : Data) :
    (receivedHead orig t reason init).adminFlags &&& 0x01 ≠ 0 ↔ orig.isFragment = true := by
  unfold receivedHead
  cases orig.isFragment <;> simp

theorem setFragment_bytes (orig : Bundle) (d : Data) :
    (setFragment orig d).adminType = d.adminType ∧ (setFragment orig d).adminFlags = d.adminFlags ∧
      (setFragment orig d).statusFlags = d.statusFlags ∧
      (setFragment orig d).reasonCode = d.reasonCode := by
  unfold setFragment
  split <;> exact ⟨rfl, rfl, rfl, rfl⟩

theorem creation_field :
    Field (fun d => d.origCreationTv) fun d tv => { d with origCreationTv := tv } :=
  ⟨fun _ _ => rfl, fun _ _ _ => rfl⟩

theorem reportText_fits {os : Oasys} (now : UInt32) {orig : Bundle}
    (hsource : ValidEid os orig.source) (statusFlags reason : UInt8) :
    (reportText now orig statusFlags reason).length < 2 ^ 32 := by
  have hshort := hsource.length_le
  have hten := SDNV.encoded_length_le
  unfold SDNV.maxLength at hten
  have hfragment : (CustodySignal.fragmentBytes orig).length ≤ 20 := by
    have hoffset := hten orig.fragOffset.toUInt64
    have hlength := hten orig.origLength.toUInt64
    unfold CustodySignal.fragmentBytes
    split
    · rw [List.length_append]
      omega
    · exact Nat.zero_le 20
  have hnow := hten now.toUInt64
  have hzero := hten 0
  have hseconds := hten orig.creationTs.seconds
  have hseqno := hten orig.creationTs.seqno
  have hcount := hten (UInt64.ofNat orig.source.uri.length)
  simp only [reportText, List.length_cons, List.length_append]
  omega

theorem parseStatusReport_text {os : Oasys} (now : UInt32) {orig : Bundle}
    (hsource : ValidEid os orig.source) (t : ReportTime) (reason : UInt8) (init : Data) :
    parseStatusReport os init (reportText now orig t.flag reason)
        (UInt32.ofNat (reportText now orig t.flag reason).length) =
      .ok (start (received now orig t reason init) [], true) := by
  have hbytes := adminByte_fields orig
  have hadmin := readByte_reads
    (fun d b => { d with adminType := b >>> 4, adminFlags := b &&& 0xf }) init (adminByte orig)
  simp only [hbytes.1, hbytes.2] at hadmin
  have hflags := (setFragment_bytes orig (receivedHead orig t reason init)).2.2.1
  have hends : Ends (readReport os) (reportText now orig t.flag reason) init
      (received now orig t reason init) := by
    have hall := hadmin.andThen_ends <| (checkType_reads rfl).andThen_ends <|
      (readByte_reads (fun d b => { d with statusFlags := b }) _ t.flag).andThen_ends <|
      (readByte_reads (fun d b => { d with reasonCode := b }) _ reason).andThen_ends <|
      (readFragment_reads (receivedHead_isFragment orig t reason init)).andThen_ends <|
      (readAckTimes_reads hflags ⟨now.toUInt64, 0⟩).andThen_ends <|
      (readTimestamp_reads creation_field _ orig.creationTs).andThen_ends <|
      readSource_reads hsource _
    have htext : reportText now orig t.flag reason = [adminByte orig] ++ ([] ++ ([t.flag] ++
        ([reason] ++ (CustodySignal.fragmentBytes orig ++ (timeBytes ⟨now.toUInt64, 0⟩ ++
        ((SDNV.encoded orig.creationTs.seconds ++ SDNV.encoded orig.creationTs.seqno) ++
        (SDNV.encoded (UInt64.ofNat orig.source.uri.length) ++ orig.source.uri))))))) := by
      simp only [reportText, timeBytes, List.append_assoc, List.cons_append, List.nil_append]
    rw [htext]
    exact hall
  exact hends (reportText_fits now hsource t.flag reason)

theorem received_tells (now : UInt32) (orig : Bundle) (t : ReportTime) (reason : UInt8)
    (init : Data) : Tells now orig t reason (received now orig t reason init) := by
  have hhead := setTimes_head t ⟨now.toUInt64, 0⟩
    (setFragment orig (receivedHead orig t reason init))
  have hbytes := setFragment_bytes orig (receivedHead orig t reason init)
  have htime : ∀ e, (received now orig t reason init).time e =
      if e = t then ⟨now.toUInt64, 0⟩ else ⟨0, 0⟩ := by
    intro e
    rw [← setTimes_time t _ (setFragment orig (receivedHead orig t reason init))]
    cases e <;> rfl
  constructor
  · exact hhead.adminType.trans hbytes.1
  · exact hhead.statusFlags.trans hbytes.2.2.1
  · exact hhead.reasonCode.trans hbytes.2.2.2
  · rw [htime t, if_pos rfl]
  · intro e he
    rw [htime e, if_neg he]
  · rfl
  · rfl
  · have hflags : (received now orig t reason init).adminFlags =
        (receivedHead orig t reason init).adminFlags := hhead.adminFlags.trans hbytes.2.1
    rw [hflags]
    exact receivedHead_isFragment orig t reason init
  · intro hfrag
    constructor
    · refine hhead.fragOffset.trans ?_
      rw [setFragment, if_pos hfrag]
    · refine hhead.fragLength.trans ?_
      rw [setFragment, if_pos hfrag]

/-- A report is as long as was computed, and the parser finds in it what was written. Whatever string
the parser is given, it reads inside of it, and a string that it accepts is used up. -/
theorem statusReport_roundTrips (os : Oasys) (init : Data) :
    (∀ (now : UInt32) (bundle orig : Bundle) (source : EndpointID) (t : ReportTime) (reason : UInt8),
      ValidEid os orig.source →
      ∃ report, createStatusReport os now bundle orig source t.flag reason = .ok report ∧
        reportBytes now orig t.flag reason = .ok report.payload.data ∧
        report.payload.data.length = reportLength now orig ∧
        ∃ s, parseStatusReport os init report.payload.data
            (UInt32.ofNat report.payload.data.length) = .ok (s, true) ∧
          Tells now orig t reason s.data) ∧
    ∀ (bp : Bytes) (len : UInt32), bp.length = len.toNat →
      ∃ s ok, parseStatusReport os init bp len = .ok (s, ok) ∧ (ok = true → s.bp = []) := by
  constructor
  · intro now bundle orig source t reason hsource
    obtain ⟨report, hreport, hdata⟩ := createStatusReport_eq os now bundle orig source t.flag reason
    refine ⟨report, hreport, ?_, ?_, start (received now orig t reason init) [], ?_,
      received_tells now orig t reason init⟩
    · rw [hdata, reportBytes_eq]
    · rw [hdata, reportText_length]
    · rw [hdata]
      exact parseStatusReport_text now hsource t reason init
  · intro bp len hlen
    obtain ⟨s, ok, hparse, -, hend⟩ := readReport_spec os (s := ⟨init, bp, len⟩) hlen
    exact ⟨s, ok, hparse, hend⟩

/-- A fragment of a bundle of `dtn:none`. -/
def sampleFragment : Bundle :=
  { Bundle.new 1 700000000 with
    source := .nullEid
    isFragment := true
    fragOffset := 300
    origLength := 70000 }

/-- A record that was never filled. -/
def sampleData : Data :=
  ⟨0, 0, 0, 0, 0, 0, ⟨0, 0⟩, ⟨0, 0⟩, ⟨0, 0⟩, ⟨0, 0⟩, ⟨0, 0⟩, ⟨0, 0⟩, ⟨0, 0⟩, .default⟩

theorem statusReport_roundTrips_sample :
    ValidEid .plain sampleFragment.source ∧
    (∃ report, createStatusReport .plain 700000100 (Bundle.new 2 700000100) sampleFragment .nullEid
        ReportTime.delivery.flag 0 = .ok report ∧
      reportBytes 700000100 sampleFragment ReportTime.delivery.flag 0 = .ok report.payload.data ∧
      report.payload.data.length = reportLength 700000100 sampleFragment ∧
      ∃ s, parseStatusReport .plain sampleData report.payload.data
          (UInt32.ofNat report.payload.data.length) = .ok (s, true) ∧
        Tells 700000100 sampleFragment .delivery 0 s.data) ∧
    ∃ s ok, parseStatusReport .plain sampleData [0x10, 0x08] 2 = .ok (s, ok) ∧
      (ok = true → s.bp = []) := by
  have hvalid : ValidEid .plain sampleFragment.source :=
    ⟨by decide, by decide, by decide, by decide⟩
  refine ⟨hvalid, ?_, ?_⟩
  · exact (statusReport_roundTrips .plain sampleData).1 _ _ _ _ .delivery 0 hvalid
  · exact (statusReport_roundTrips .plain sampleData).2 [0x10, 0x08] 2 rfl

end BundleStatusReport

end Dtn2
