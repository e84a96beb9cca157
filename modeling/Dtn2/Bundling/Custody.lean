import Dtn2.Bundling.CustodySignal

/-!
# Custody signals reach their bundle

What a node downstream writes into a signal is what the custodian reads, as far as the source
survives the change of its spelling. The signal of a fragment carries the length of the original
bundle, and the custodian compares it with the length of the fragment.
-/

namespace Dtn2

open Framework

namespace CustodySignal

/-! ## Writing and reading the fields -/

theorem encodeField_ok {val : UInt64} {len : Nat} (h : SDNV.encodingLen val ≤ len) :
    encodeField val len = .ok (SDNV.encoded val) := by
  rw [SDNV.encodingLen_eq] at h
  unfold encodeField SDNV.encode
  rw [if_neg (by omega)]
  rfl

theorem encodePair_ok {a b : UInt64} {len : Nat}
    (h : SDNV.encodingLen a + SDNV.encodingLen b ≤ len) :
    encodePair a b len = .ok (SDNV.encoded a ++ SDNV.encoded b) := by
  have hb : SDNV.encodingLen b ≤ len - (SDNV.encoded a).length := by
    rw [SDNV.encodingLen_eq a] at h
    omega
  unfold encodePair
  rw [encodeField_ok (by omega), Exec.ok_bind, encodeField_ok hb]
  rfl

@[simp] theorem readPair_encoded (a b : UInt64) (rest : Bytes) :
    readPair (SDNV.encoded a ++ SDNV.encoded b ++ rest) = some ((a, b), rest) := by
  rw [List.append_assoc]
  simp [readPair]

def fragmentBytes (orig : Bundle) : Bytes :=
  if orig.isFragment = true then
    SDNV.encoded orig.fragOffset.toUInt64 ++ SDNV.encoded orig.origLength.toUInt64
  else []

def sourceLen (source : EndpointID) : Nat :=
  let eidLen := source.uri.length - if startsIpn source then 2 else 0
  SDNV.encodingLen (UInt64.ofNat eidLen) + eidLen

def firstByte (orig : Bundle) : UInt8 := 0x20 ||| if orig.isFragment = true then 0x01 else 0

def statusByte (succeeded : Bool) (reason : CustodyReason) : UInt8 :=
  (if succeeded then 0x80 else 0) ||| (reason.code &&& 0x7f)

theorem signalPayload_eq (os : Oasys) (now : UInt64) (orig : Bundle) (succeeded : Bool)
    (reason : CustodyReason) :
    signalPayload os now orig succeeded reason =
      sourceField os orig.source (sourceLen orig.source) >>= fun source =>
        pure (firstByte orig :: statusByte succeeded reason :: (fragmentBytes orig ++
          (SDNV.encoded now ++ SDNV.encoded 0) ++
          (SDNV.encoded orig.creationTs.seconds ++ SDNV.encoded orig.creationTs.seqno) ++
            source)) := by
  have hfragment : (fragmentBytes orig).length = if orig.isFragment = true then
      SDNV.encodingLen orig.fragOffset.toUInt64 + SDNV.encodingLen orig.origLength.toUInt64
        else 0 := by
    unfold fragmentBytes
    split <;> simp
  have hlen : signalLen now orig = 2 + (fragmentBytes orig).length +
      (SDNV.encoded now ++ SDNV.encoded 0).length +
      (SDNV.encoded orig.creationTs.seconds ++ SDNV.encoded orig.creationTs.seqno).length +
      sourceLen orig.source := by
    rw [hfragment]
    simp only [signalLen, tsEncodingLen, sourceLen, List.length_append, SDNV.encodingLen_eq]
  have hfields : fragmentFields orig (signalLen now orig - 2) = .ok (fragmentBytes orig) := by
    unfold fragmentFields fragmentBytes at *
    split
    · rename_i hfrag
      rw [if_pos hfrag] at hlen hfragment
      apply encodePair_ok
      simp only [List.length_append, SDNV.encodingLen_eq] at *
      omega
    · rfl
  unfold signalPayload
  dsimp only
  rw [hfields, Exec.ok_bind, encodePair_ok, Exec.ok_bind, encodePair_ok, Exec.ok_bind]
  · congr 2
    rw [hlen]
    omega
  · simp only [List.length_append, SDNV.encodingLen_eq] at *
    omega
  · simp only [List.length_append, SDNV.encodingLen_eq] at *
    omega

theorem parseCustodySignal_eq (os : Oasys) (now : UInt64) (orig : Bundle) (succeeded : Bool)
    (reason : CustodyReason) (source beyond : Bytes) :
    parseCustodySignal os (firstByte orig :: statusByte succeeded reason :: (fragmentBytes orig ++
        (SDNV.encoded now ++ SDNV.encoded 0) ++
        (SDNV.encoded orig.creationTs.seconds ++ SDNV.encoded orig.creationTs.seqno) ++ source))
        beyond =
      (readSource os source beyond).map fun eid =>
        ⟨if orig.isFragment = true then 1 else 0, succeeded, reason.code,
          if orig.isFragment = true then
            some (orig.fragOffset.toUInt64, orig.origLength.toUInt64) else none,
          ⟨now, 0⟩, orig.creationTs, eid⟩ := by
  have hstatus : decide (statusByte succeeded reason >>> 7 ≠ 0) = succeeded ∧
      statusByte succeeded reason &&& 0x7f = reason.code := by
    cases succeeded <;> cases reason <;> decide
  have hread : readFragment (firstByte orig &&& 0xf) (fragmentBytes orig ++
      (SDNV.encoded now ++ SDNV.encoded 0) ++
      (SDNV.encoded orig.creationTs.seconds ++ SDNV.encoded orig.creationTs.seqno) ++ source) =
      some (if orig.isFragment = true then
          some (orig.fragOffset.toUInt64, orig.origLength.toUInt64) else none,
        (SDNV.encoded now ++ SDNV.encoded 0) ++
          ((SDNV.encoded orig.creationTs.seconds ++ SDNV.encoded orig.creationTs.seqno) ++
            source)) := by
    unfold readFragment fragmentBytes firstByte
    cases orig.isFragment with
    | true =>
        rw [if_pos (by decide)]
        simp only [if_true, List.append_assoc]
        rw [← List.append_assoc, readPair_encoded]
    | false =>
        rw [if_neg (by decide)]
        simp
  have hflags : firstByte orig &&& 0xf = if orig.isFragment = true then 1 else 0 := by
    unfold firstByte
    cases orig.isFragment <;> decide
  have htype : ¬ firstByte orig >>> 4 ≠ 0x02 := by
    unfold firstByte
    cases orig.isFragment <;> decide
  rw [parseCustodySignal, if_neg htype, hread]
  simp only [readPair_encoded, hstatus.1, hstatus.2, hflags]
  cases readSource os source beyond <;> rfl

/-! ## The source -/

/-- The source can be respelled and read back: it does not start with `ipn`, or it is the text that
is printed for two numbers, and the memory behind the payload does not continue the second one. -/
def SourceSurvives (source : EndpointID) (beyond : Bytes) : Prop :=
  startsIpn source = false ∨ ∃ a b rest, source.uri = ipnUri a b ∧
    scanUnsigned (Decimal.print b.toNat ++ cString beyond) = .value b rest

section Source

variable {os : Oasys} {source : EndpointID} {beyond : Bytes}

theorem cString_append {s : Bytes} (h : 0 ∉ s) (rest : Bytes) :
    cString (s ++ rest) = s ++ cString rest := by
  unfold cString
  apply List.takeWhile_append_of_pos
  intro b hb
  have hne : b ≠ 0 := fun h0 => h (h0 ▸ hb)
  simpa using hne

theorem zero_notMem_ipnUri (a b : UInt64) : (0 : UInt8) ∉ ipnUri a b := by
  unfold ipnUri
  rw [List.mem_append, List.mem_append, List.mem_cons, not_or, not_or, not_or]
  exact ⟨⟨by decide, zero_notMem_print _⟩, by decide, zero_notMem_print _⟩

theorem zero_notMem_ipnText (a b : UInt64) : (0 : UInt8) ∉ ipnText a b := by
  unfold ipnText
  rw [List.mem_append, List.mem_append, List.mem_cons, not_or, not_or, not_or]
  exact ⟨⟨by decide, zero_notMem_print _⟩, by decide, zero_notMem_print _⟩

theorem print_length (v : UInt64) : (Decimal.print v.toNat).length ≤ 20 :=
  Decimal.print_length_le (by decide) (by have := v.toNat_lt; omega)

theorem ipnText_length_le (a b : UInt64) : (ipnText a b).length ≤ 45 := by
  have ha := print_length a
  have hb := print_length b
  simp only [ipnText, ascii, List.length_append, List.length_cons, List.length_map,
    List.length_nil]
  omega

theorem ipnUri_length (a b : UInt64) : (ipnUri a b).length = (ipnText a b).length + 2 := by
  simp only [ipnUri, ipnText, ipnPrefix, ascii, List.length_append, List.length_cons,
    List.length_map, List.length_nil]
  omega

theorem scanUnsigned_print_append (n : UInt64) (rest : Bytes) :
    ∃ v tail, scanUnsigned (Decimal.print n.toNat ++ rest) = .value v tail := by
  obtain ⟨b, bs, hprint⟩ := List.exists_cons_of_ne_nil (Decimal.print_ne_nil n.toNat)
  have hb : Decimal.isDigit b = true :=
    @Decimal.isDigit_of_mem_print n.toNat b (by rw [hprint]; exact List.mem_cons_self)
  obtain ⟨hspace, hplus, hminus, -⟩ := isDigit_facts hb
  have hdrop : (b :: (bs ++ rest)).dropWhile isSpace = b :: (bs ++ rest) := by
    rw [List.dropWhile_cons, hspace]
    simp
  have hscan : Decimal.scan (b :: (bs ++ rest)) =
      some (Decimal.value ((b :: (bs ++ rest)).takeWhile Decimal.isDigit),
        (b :: (bs ++ rest)).dropWhile Decimal.isDigit) := by
    unfold Decimal.scan
    rw [if_neg]
    rw [List.takeWhile_cons, hb]
    simp
  rw [hprint, List.cons_append, scanUnsigned, hdrop]
  simp only [hplus, hminus, or_self, if_false, hscan]
  exact ⟨_, _, rfl⟩

/-- Two printed numbers: the first one is scanned back, the second one with what follows it. -/
theorem scanPair_printed {lit : Bytes} {sep : UInt8} (hsep : Decimal.isDigit sep = false)
    (a : UInt64) {b b' : UInt64} {rest tail : Bytes}
    (hb : scanUnsigned (Decimal.print b.toNat ++ rest) = .value b' tail) :
    scanPair lit sep (lit ++ Decimal.print a.toNat ++ sep :: (Decimal.print b.toNat ++ rest)) =
      some (a, b') := by
  have ha := scanUnsigned_print a (sep :: (Decimal.print b.toNat ++ rest)) (by
    intro c hc
    obtain rfl := Option.some.inj hc
    exact hsep)
  have hmatch : matchLiteral [sep] (sep :: (Decimal.print b.toNat ++ rest)) =
      some (Decimal.print b.toNat ++ rest) := matchLiteral_append [sep] _
  rw [scanPair, List.append_assoc, matchLiteral_append]
  simp only [ha, hmatch, hb]

theorem scanPair_ipnUri (a b : UInt64) : scanPair ipnPrefix slash (ipnUri a b) = some (a, b) := by
  have hb := scanUnsigned_print b [] (by simp)
  have hpair := @scanPair_printed ipnPrefix slash (by decide) a b b [] _ hb
  rwa [List.append_nil] at hpair

theorem scanPair_ipnText {a b b' : UInt64} {tail : Bytes}
    (hb : scanUnsigned (Decimal.print b.toNat ++ cString beyond) = .value b' tail) :
    scanPair (ascii ['i', 'p', 'n', ':']) dot (cString (ipnText a b ++ beyond)) = some (a, b') := by
  rw [cString_append (zero_notMem_ipnText a b), ipnText, List.append_assoc, List.cons_append]
  exact scanPair_printed (by decide) a hb

theorem scanPair_isPrefix {lit input : Bytes} {sep : UInt8} {p : UInt64 × UInt64}
    (h : scanPair lit sep input = some p) : lit <+: input := by
  unfold scanPair at h
  cases hmatch : matchLiteral lit input with
  | none =>
      rw [hmatch] at h
      cases h
  | some rest =>
      unfold matchLiteral at hmatch
      split at hmatch
      · rename_i hprefix
        exact List.isPrefixOf_iff_prefix.mp hprefix
      · cases hmatch

theorem startsIpn_of_scanPair {p : UInt64 × UInt64}
    (h : scanPair ipnPrefix slash (cString source.uri) = some p) : startsIpn source = true := by
  have hshort : ascii ['i', 'p', 'n'] <+: ipnPrefix := by decide
  exact List.isPrefixOf_iff_prefix.mpr (hshort.trans (scanPair_isPrefix h))

theorem scanPair_other (hstarts : startsIpn source = false)
    (hcolon : EndpointID.colon ∈ source.uri) :
    scanPair (ascii ['i', 'p', 'n', ':']) dot (cString (source.uri ++ beyond)) = none := by
  rw [Option.eq_none_iff_forall_ne_some]
  intro p hp
  have hlong : ascii ['i', 'p', 'n', ':'] <+: source.uri ++ beyond :=
    (scanPair_isPrefix hp).trans (List.takeWhile_prefix _)
  have hstarts' : startsIpn source = true := by
    rcases List.prefix_or_prefix_of_prefix hlong (List.prefix_append source.uri beyond) with
      ⟨rest, hrest⟩ | hshort
    · unfold startsIpn
      rw [← hrest, cString_append (by decide)]
      exact List.isPrefixOf_iff_prefix.mpr
        ((by decide : ascii ['i', 'p', 'n'] <+: ascii ['i', 'p', 'n', ':']).trans
          (List.prefix_append _ _))
    · have hall : ∀ u ∈ (ascii ['i', 'p', 'n', ':']).inits, EndpointID.colon ∈ u →
          (ascii ['i', 'p', 'n']).isPrefixOf (cString u) = true := by decide
      exact hall _ ((List.mem_inits _ _).mpr hshort) hcolon
  rw [hstarts] at hstarts'
  cases hstarts'

theorem sourceField_other (hstarts : startsIpn source = true)
    (hscan : scanPair ipnPrefix slash (cString source.uri) = none)
    (hlt : source.uri.length < 2 ^ 64) (field : Bytes) :
    sourceField os source (sourceLen source) ≠ .ok field := by
  intro h
  have hlen : 3 ≤ source.uri.length := by
    have hprefix := List.isPrefixOf_iff_prefix.mp hstarts
    have := hprefix.length_le
    have := (List.takeWhile_prefix (l := source.uri) (p := (· ≠ 0))).length_le
    simp only [cString, ascii, List.length_map, List.length_cons, List.length_nil] at *
    omega
  unfold sourceField at h
  rw [hscan] at h
  obtain ⟨count, hcount, h⟩ := Exec.bind_eq_ok.mp h
  obtain ⟨_, hassert, -⟩ := Exec.bind_eq_ok.mp h
  rw [assertThat_eq_ok] at hassert
  have hmono : SDNV.encodingLen (UInt64.ofNat (source.uri.length - 2)) ≤
      SDNV.encodingLen (UInt64.ofNat source.uri.length) := by
    apply SDNV.encodingLen_mono
    rw [UInt64.toNat_ofNat', UInt64.toNat_ofNat', Nat.mod_eq_of_lt (by omega),
      Nat.mod_eq_of_lt hlt]
    omega
  have hcountLen : count.length = SDNV.encodingLen (UInt64.ofNat source.uri.length) := by
    unfold encodeField SDNV.encode at hcount
    split at hcount
    · cases hcount
    · rename_i bytes hbytes
      split at hbytes
      · cases hbytes
      · rw [← Except.ok.inj hcount, ← Option.some.inj hbytes, SDNV.encodingLen_eq]
  unfold sourceLen at hassert
  rw [hstarts] at hassert
  simp only [if_true] at hassert
  omega

theorem sourceField_pair {a b : UInt64}
    (hscan : scanPair ipnPrefix slash (cString source.uri) = some (a, b)) (len : Nat)
    (hlen : 0 < len) :
    sourceField os source len =
      if 80 < len - 1 then .error (.fault .outOfBounds)
      else .ok (SDNV.encoded (UInt64.ofNat (ipnText a b).length) ++
        (ipnText a b ++ 0 :: (List.range 80).map os.junk).take (len - 1)) := by
  have hle := ipnText_length_le a b
  have hone : SDNV.encodingLen (UInt64.ofNat (ipnText a b).length) = 1 := by
    rw [SDNV.encodingLen_eq, SDNV.encoded_length, UInt64.toNat_ofNat',
      Nat.mod_eq_of_lt (by omega), Nat.log_of_lt (by omega)]
  have hcount : (SDNV.encoded (UInt64.ofNat (ipnText a b).length)).length = 1 := by
    rw [← SDNV.encodingLen_eq, hone]
  unfold sourceField
  rw [hscan]
  dsimp only
  rw [encodeField_ok (by omega), Exec.ok_bind, hcount]
  rfl

/-- What is read for a source that is two numbers: it has the length that was announced, and its
second number is scanned with the memory behind the payload. -/
theorem readSource_pair {a b b' : UInt64} {tail : Bytes} {len : Nat} (hlen : len ≤ 80)
    (hb : scanUnsigned (Decimal.print b.toNat ++ cString beyond) = .value b' tail) :
    readSource os (SDNV.encoded (UInt64.ofNat (ipnText a b).length) ++
        (ipnText a b ++ 0 :: (List.range 80).map os.junk).take len) beyond =
      if len ≠ (ipnText a b).length then none
      else if (os.assign (ipnUri a b')).valid = true then some (os.assign (ipnUri a b'))
      else none := by
  have hle := ipnText_length_le a b
  have htake : ((ipnText a b ++ 0 :: (List.range 80).map os.junk).take len).length = len := by
    rw [List.length_take, List.length_append, List.length_cons, List.length_map,
      List.length_range]
    omega
  unfold readSource
  rw [SDNV.read_encoded]
  dsimp only
  rw [htake, UInt64.toNat_ofNat', Nat.mod_eq_of_lt (by omega)]
  by_cases heq : len = (ipnText a b).length
  · rw [if_neg (not_not.mpr heq), if_neg (not_not.mpr heq), heq, List.take_left,
      scanPair_ipnText hb]
    rfl
  · rw [if_pos heq, if_pos heq]

theorem readSource_iff (hassign : os.assign source.uri = source) (hvalid : source.valid = true)
    (hcolon : EndpointID.colon ∈ source.uri) (hlt : source.uri.length < 2 ^ 64)
    (hkeeps : ∀ a b, (os.assign (ipnUri a b)).uri = ipnUri a b) :
    (∃ field eid, sourceField os source (sourceLen source) = .ok field ∧
      readSource os field beyond = some eid ∧ eid.uri = source.uri) ↔
        SourceSurvives source beyond := by
  cases hscan : scanPair ipnPrefix slash (cString source.uri) with
  | none =>
      cases hstarts : startsIpn source with
      | true =>
          constructor
          · rintro ⟨field, eid, hfield, -⟩
            exact absurd hfield (sourceField_other hstarts hscan hlt field)
          · rintro (hno | ⟨a, b, rest, huri, -⟩)
            · rw [hstarts] at hno
              cases hno
            · rw [huri, cString_eq_self (zero_notMem_ipnUri a b), scanPair_ipnUri] at hscan
              cases hscan
      | false =>
          refine ⟨fun _ => Or.inl hstarts, fun _ => ?_⟩
          refine ⟨SDNV.encoded (UInt64.ofNat source.uri.length) ++ source.uri, source, ?_, ?_, rfl⟩
          · unfold sourceField sourceLen
            rw [hscan, hstarts]
            simp only [Bool.false_eq_true, if_false, Nat.sub_zero]
            rw [encodeField_ok (by omega), Exec.ok_bind, SDNV.encodingLen_eq,
              Exec.assert_bind (by omega)]
            rfl
          · unfold readSource
            rw [SDNV.read_encoded]
            simp only [scanPair_other hstarts hcolon, hassign, validEid, hvalid, if_true]
            rw [if_neg]
            rw [UInt64.toNat_ofNat', Nat.mod_eq_of_lt hlt]
            simp
  | some p =>
      obtain ⟨a, b⟩ := p
      have hstarts := startsIpn_of_scanPair hscan
      have hpos : 0 < sourceLen source := by
        have hone := SDNV.encodingLen_pos (UInt64.ofNat (source.uri.length - 2))
        unfold sourceLen
        rw [hstarts]
        simp only [if_true]
        omega
      obtain ⟨b', tail, hb⟩ := scanUnsigned_print_append b (cString beyond)
      rw [sourceField_pair hscan _ hpos]
      constructor
      · rintro ⟨field, eid, hfield, hread, heid⟩
        split at hfield
        · cases hfield
        · rename_i hlen
          rw [← Except.ok.inj hfield, readSource_pair (by omega) hb] at hread
          split at hread
          · cases hread
          · split at hread
            · rw [← Option.some.inj hread, hkeeps] at heid
              rw [← heid, cString_eq_self (zero_notMem_ipnUri a b'), scanPair_ipnUri] at hscan
              obtain rfl : b' = b := (Prod.mk.inj (Option.some.inj hscan)).2
              exact Or.inr ⟨a, b', tail, heid.symm, hb⟩
            · cases hread
      · rintro (hno | ⟨a', b'', rest, huri, hb''⟩)
        · rw [hstarts] at hno
          cases hno
        · rw [huri, cString_eq_self (zero_notMem_ipnUri a' b''), scanPair_ipnUri] at hscan
          obtain ⟨rfl, rfl⟩ := Prod.mk.inj (Option.some.inj hscan)
          have hsame : b' = b'' := by
            rw [hb] at hb''
            exact (Scanned.value.inj hb'').1
          have hlen : sourceLen source - 1 = (ipnText a' b'').length := by
            have hle := ipnText_length_le a' b''
            unfold sourceLen
            rw [hstarts, huri, ipnUri_length]
            simp only [if_true, Nat.add_sub_cancel, SDNV.encodingLen_eq, SDNV.encoded_length]
            rw [UInt64.toNat_ofNat', Nat.mod_eq_of_lt (by omega), Nat.log_of_lt (by omega)]
            omega
          have hle := ipnText_length_le a' b''
          rw [if_neg (by omega)]
          refine ⟨_, source, rfl, ?_, rfl⟩
          rw [readSource_pair (by omega) hb, if_neg (not_not.mpr hlen), hsame, ← huri, hassign,
            if_pos hvalid]

end Source

/-! ## The bundle that is found -/

/-- A copy of a bundle at another node; it has a custodian to signal to. -/
structure FaithfulCopy (b copy : Bundle) : Prop where
  source : copy.source = b.source
  creationTs : copy.creationTs = b.creationTs
  isFragment : copy.isFragment = b.isFragment
  fragOffset : copy.fragOffset = b.fragOffset
  origLength : copy.origLength = b.origLength
  payload : copy.payload.data = b.payload.data
  custodian : copy.custodian.uri ≠ EndpointID.dtnNone

/-- The signal for the copy is accepted and names the bundle and no other, so that custody of just
this bundle is released. -/
def Reaches (os : Oasys) (now : UInt64) (empty copy b : Bundle) (sourceEid : EndpointID)
    (succeeded : Bool) (reason : CustodyReason) (beyond : Bytes) : Prop :=
  ∃ signal data, createCustodySignal os now empty copy sourceEid succeeded reason = .ok signal ∧
    parseCustodySignal os signal.payload.data beyond = some data ∧
    data.gbofId.equals b.gbofId = true ∧
    (∀ c : Bundle, data.gbofId.equals c.gbofId = true → c.gbofId.equals b.gbofId = true) ∧
    ∀ custody : List Bundle, b ∈ custody → b.freed = false →
      (∀ c ∈ custody, c.gbofId.equals b.gbofId = true → c = b) →
      handleCustodySignal custody data =
        if succeeded = true ∨ reason = .redundantReception then some b else none

theorem equals_iff {g h : GbofId} :
    g.equals h = true ↔ g.creationTs = h.creationTs ∧ g.isFragment = h.isFragment ∧
      (g.isFragment = true → g.fragLength = h.fragLength ∧ g.fragOffset = h.fragOffset) ∧
      g.source.uri = h.source.uri := by
  unfold GbofId.equals
  cases g.isFragment <;> simp [and_assoc]

theorem equals_of_equals {g h k : GbofId} (hgh : g.equals h = true) (hgk : g.equals k = true) :
    k.equals h = true := by
  rw [equals_iff] at *
  obtain ⟨hts, hfrag, hfields, huri⟩ := hgh
  obtain ⟨hts', hfrag', hfields', huri'⟩ := hgk
  refine ⟨hts'.symm.trans hts, hfrag'.symm.trans hfrag, ?_, huri'.symm.trans huri⟩
  intro hk
  have hg : g.isFragment = true := hfrag'.trans hk
  exact ⟨(hfields' hg).1.symm.trans (hfields hg).1, (hfields' hg).2.symm.trans (hfields hg).2⟩

theorem find_unique {id : GbofId} {b : Bundle} {l : List Bundle} (hb : b ∈ l)
    (hfreed : b.freed = false) (hid : id.equals b.gbofId = true)
    (hunique : ∀ c ∈ l, c.gbofId.equals b.gbofId = true → c = b) :
    BundleList.find id l = some b := by
  unfold BundleList.find
  cases hfind : l.find? fun c => id.equals c.gbofId && !c.freed with
  | none =>
      have hnot := List.find?_eq_none.mp hfind b hb
      rw [hid, hfreed] at hnot
      exact absurd rfl hnot
  | some c =>
      have hc := List.find?_some hfind
      rw [Bool.and_eq_true] at hc
      rw [hunique c (List.mem_of_find?_eq_some hfind) (equals_of_equals hid hc.1)]

variable {os : Oasys} {now : UInt64} {empty copy b : Bundle} {sourceEid : EndpointID}
variable {succeeded : Bool} {reason : CustodyReason} {beyond : Bytes}

theorem redundant_code_iff :
    reason.code = CustodyReason.redundantReception.code ↔ reason = .redundantReception := by
  cases reason <;> decide

theorem create_parse_iff (hcustodian : copy.custodian.uri ≠ EndpointID.dtnNone) (data : Data) :
    (∃ signal, createCustodySignal os now empty copy sourceEid succeeded reason = .ok signal ∧
      parseCustodySignal os signal.payload.data beyond = some data) ↔
    ∃ field eid, sourceField os copy.source (sourceLen copy.source) = .ok field ∧
      readSource os field beyond = some eid ∧
      data = ⟨if copy.isFragment = true then 1 else 0, succeeded, reason.code,
        if copy.isFragment = true then
          some (copy.fragOffset.toUInt64, copy.origLength.toUInt64) else none,
        ⟨now, 0⟩, copy.creationTs, eid⟩ := by
  unfold createCustodySignal
  rw [if_neg hcustodian, signalPayload_eq]
  constructor
  · rintro ⟨signal, hcreate, hparse⟩
    obtain ⟨payload, hpayload, hsignal⟩ := Exec.bind_eq_ok.mp hcreate
    obtain ⟨field, hfield, hbytes⟩ := Exec.bind_eq_ok.mp hpayload
    rw [← Except.ok.inj hsignal, ← Except.ok.inj hbytes, parseCustodySignal_eq,
      Option.map_eq_some_iff] at hparse
    obtain ⟨eid, heid, hdata⟩ := hparse
    exact ⟨field, eid, hfield, heid, hdata.symm⟩
  · rintro ⟨field, eid, hfield, heid, rfl⟩
    rw [hfield, Exec.ok_bind]
    refine ⟨_, rfl, ?_⟩
    rw [parseCustodySignal_eq, heid]
    rfl

/-- A custody signal for a faithful copy reaches its bundle exactly if the source survives, and a
fragment is as long as the original bundle. -/
theorem reaches_iff (hcopy : FaithfulCopy b copy) (hassign : os.assign b.source.uri = b.source)
    (hvalid : b.source.valid = true) (hcolon : EndpointID.colon ∈ b.source.uri)
    (hlt : b.source.uri.length < 2 ^ 64)
    (hkeeps : ∀ n m, (os.assign (ipnUri n m)).uri = ipnUri n m) :
    Reaches os now empty copy b sourceEid succeeded reason beyond ↔
      SourceSurvives b.source beyond ∧
        (b.isFragment = true → UInt32.ofNat b.payload.length = b.origLength) := by
  have hid : ∀ eid : EndpointID, (Data.gbofId ⟨if copy.isFragment = true then 1 else 0, succeeded,
      reason.code, if copy.isFragment = true then
        some (copy.fragOffset.toUInt64, copy.origLength.toUInt64) else none,
      ⟨now, 0⟩, copy.creationTs, eid⟩).equals b.gbofId = true ↔
        (b.isFragment = true → UInt32.ofNat b.payload.length = b.origLength) ∧
          eid.uri = b.source.uri := by
    intro eid
    rw [equals_iff, hcopy.isFragment, hcopy.creationTs, hcopy.fragOffset, hcopy.origLength]
    unfold Data.gbofId Bundle.gbofId
    cases b.isFragment with
    | true => simp [eq_comm]
    | false => simp
  have hsource := @readSource_iff os b.source beyond hassign hvalid hcolon hlt hkeeps
  constructor
  · rintro ⟨signal, data, hcreate, hparse, hequals, -⟩
    obtain ⟨field, eid, hfield, heid, rfl⟩ :=
      (create_parse_iff hcopy.custodian data).mp ⟨signal, hcreate, hparse⟩
    obtain ⟨hfragment, huri⟩ := (hid eid).mp hequals
    rw [hcopy.source] at hfield
    exact ⟨hsource.mp ⟨field, eid, hfield, heid, huri⟩, hfragment⟩
  · rintro ⟨hsurvives, hfragment⟩
    obtain ⟨field, eid, hfield, heid, huri⟩ := hsource.mpr hsurvives
    rw [← hcopy.source] at hfield
    obtain ⟨signal, hcreate, hparse⟩ :=
      (create_parse_iff hcopy.custodian _).mpr ⟨field, eid, hfield, heid, rfl⟩
    have hequals := (hid eid).mpr ⟨hfragment, huri⟩
    refine ⟨signal, _, hcreate, hparse, hequals, fun c hc => equals_of_equals hequals hc, ?_⟩
    intro custody hb hfreed hunique
    unfold handleCustodySignal
    rw [find_unique hb hfreed hequals hunique]
    simp only [redundant_code_iff]

/-- A bundle in custody from an `ipn` node. -/
def sampleCustody : Bundle :=
  { Bundle.new 1 0 with
    source := ⟨ascii ['i', 'p', 'n', ':', '/', '/', '5', '/', '1'], true⟩
    custodian := ⟨ascii ['d', 't', 'n', ':', '/', '/', 'a'], true⟩
    creationTs := ⟨1000, 7⟩
    payload := ⟨.disk, [1, 2]⟩ }

theorem reaches_iff_sample :
    Reaches .plain 2000 (Bundle.new 2 0) sampleCustody sampleCustody
      ⟨ascii ['d', 't', 'n', ':', '/', '/', 'b'], true⟩ true .noAddtlInfo [] := by
  refine (reaches_iff ⟨rfl, rfl, rfl, rfl, rfl, rfl, by decide⟩ (by decide +kernel) rfl (by decide)
    (by decide) fun _ _ => rfl).mpr ⟨Or.inr ⟨5, 1, [], by decide +kernel, by decide +kernel⟩, ?_⟩
  intro hfrag
  cases hfrag

/-- The first two bytes of a bundle of five, in custody. -/
def sampleCustodyFragment : Bundle :=
  { sampleCustody with
    source := ⟨ascii ['d', 't', 'n', ':', '/', '/', 'c'], true⟩
    isFragment := true
    fragOffset := 0
    origLength := 5 }

/-- The signal for a fragment carries the length of the whole bundle, and the fragment is not
found. -/
theorem not_reaches_fragment :
    (FaithfulCopy sampleCustodyFragment sampleCustodyFragment ∧
      sampleCustodyFragment.source.valid = true ∧
      Oasys.plain.assign sampleCustodyFragment.source.uri = sampleCustodyFragment.source) ∧
    ¬ Reaches .plain 2000 (Bundle.new 2 0) sampleCustodyFragment sampleCustodyFragment
      ⟨ascii ['d', 't', 'n', ':', '/', '/', 'b'], true⟩ true .noAddtlInfo [] := by
  refine ⟨⟨⟨rfl, rfl, rfl, rfl, rfl, rfl, by decide⟩, rfl, by decide +kernel⟩, ?_⟩
  rintro ⟨signal, data, hcreate, hparse, hequals, -⟩
  have hrun : ((createCustodySignal .plain 2000 (Bundle.new 2 0) sampleCustodyFragment
      ⟨ascii ['d', 't', 'n', ':', '/', '/', 'b'], true⟩ true .noAddtlInfo).toOption.bind
        fun signal => parseCustodySignal .plain signal.payload.data []).map
          (fun data => data.gbofId.equals sampleCustodyFragment.gbofId) = some false := by
    decide +kernel
  rw [hcreate] at hrun
  have hrun' : (parseCustodySignal .plain signal.payload.data []).map
      (fun data => data.gbofId.equals sampleCustodyFragment.gbofId) = some false := hrun
  rw [hparse] at hrun'
  exact Bool.noConfusion (hequals.symm.trans (Option.some.inj hrun'))

end CustodySignal

end Dtn2
