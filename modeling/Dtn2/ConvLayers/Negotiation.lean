import Dtn2.ConvLayers.ContactInitiation

/-!
# Agreement of the two sides

The contact header of the other side is read back in whatever chunks it arrives. The interval goes
through a 16 bit field, and a side that takes an idle link drops what it has negotiated, so that the two
sides agree under a condition on their configuration only.
-/

namespace Dtn2

namespace ContactInitiation

open StreamConvergenceLayer StreamConvergenceLayer.Connection

def idleParams (contact : Option Bytes) (find : FindContact) : Option LinkParams :=
  match contact, find with
  | none, .idle params => some params
  | _, _ => none

/-- The two sides work with the same parameters. -/
structure Agree (p q : LinkParams) : Prop where
  keepaliveInterval : p.keepaliveInterval = q.keepaliveInterval
  segmentAckEnabled : p.segmentAckEnabled = q.segmentAckEnabled
  reactiveFragEnabled : p.reactiveFragEnabled = q.reactiveFragEnabled
  negativeAckEnabled : p.negativeAckEnabled = q.negativeAckEnabled

instance (p q : LinkParams) : Decidable (Agree p q) :=
  decidable_of_iff (p.keepaliveInterval = q.keepaliveInterval ∧
    p.segmentAckEnabled = q.segmentAckEnabled ∧ p.reactiveFragEnabled = q.reactiveFragEnabled ∧
      p.negativeAckEnabled = q.negativeAckEnabled)
    ⟨fun h => ⟨h.1, h.2.1, h.2.2.1, h.2.2.2⟩, fun h => ⟨h.1, h.2, h.3, h.4⟩⟩

/-- Two intervals of which neither is changed by the 16 bit field, or one is and still is not the
smaller one, or both are and come out the same. -/
def IntervalsAgree (a b : Nat) : Prop :=
  (a < 65536 ∧ b < 65536) ∨ (65536 ≤ a ∧ b ≤ a % 65536) ∨ (65536 ≤ b ∧ a ≤ b % 65536) ∨
    (65536 ≤ a ∧ 65536 ≤ b ∧ a % 65536 = b % 65536)

/-- The parameters of an idle link that one side takes are those that the other side negotiates. -/
structure IdleMatches (idle own other : LinkParams) : Prop where
  keepaliveInterval : idle.keepaliveInterval =
    min other.keepaliveInterval (own.keepaliveInterval % 65536)
  segmentAckEnabled : idle.segmentAckEnabled = (own.segmentAckEnabled && other.segmentAckEnabled)
  reactiveFragEnabled :
    idle.reactiveFragEnabled = (own.reactiveFragEnabled && other.reactiveFragEnabled)
  negativeAckEnabled : idle.negativeAckEnabled = false

def Peer.Compatible (a b : Peer) : Prop :=
  match idleParams a.contact a.find, idleParams b.contact b.find with
  | none, none => IntervalsAgree a.params.keepaliveInterval b.params.keepaliveInterval
  | some idle, none => IdleMatches idle a.params b.params
  | none, some idle => IdleMatches idle b.params a.params
  | some idleA, some idleB => Agree idleA idleB

/-! ## The header of the other side -/

theorem contactHeader_length {env : Env} {q : StreamLinkParams} {eid : Bytes} :
    (contactHeader env q eid).length =
      8 + (SDNV.encoded (UInt64.ofNat eid.length)).length + eid.length := by
  rw [contactHeader, List.length_append, List.length_append]
  rfl

theorem toNat_ofNat_length {eid : Bytes} (hshort : eid.length ≤ 2047) :
    (UInt64.ofNat eid.length).toNat = eid.length := by
  rw [UInt64.toNat_ofNat']
  omega

theorem contactFlags_segmentAck (q : StreamLinkParams) :
    decide (contactFlags q &&& 1 ≠ 0) = q.segmentAckEnabled := by
  rw [contactFlags]
  cases q.segmentAckEnabled <;> cases q.reactiveFragEnabled <;> decide

theorem contactFlags_reactiveFrag (q : StreamLinkParams) :
    decide (contactFlags q &&& 2 ≠ 0) = q.reactiveFragEnabled := by
  rw [contactFlags]
  cases q.segmentAckEnabled <;> cases q.reactiveFragEnabled <;> decide

theorem contactFlags_negativeAck (q : StreamLinkParams) :
    decide (contactFlags q &&& 4 ≠ 0) = false := by
  rw [contactFlags]
  cases q.segmentAckEnabled <;> cases q.reactiveFragEnabled <;> decide

theorem interval_sent (k : Nat) :
    (UInt8.ofNat (k / 256)).toNat * 256 + (UInt8.ofNat k).toNat = k % 65536 := by
  rw [UInt8.toNat_ofNat', UInt8.toNat_ofNat']
  omega

section Header

variable {env env' : Env} {find : FindContact} {s : State} {q : StreamLinkParams} {eid : Bytes}

theorem decode_contactHeader (rest : Bytes) :
    SDNV.decode ((contactHeader env' q eid ++ rest).drop 8) =
      (some (SDNV.encoded (UInt64.ofNat eid.length)).length, UInt64.ofNat eid.length) := by
  have hdrop : (contactHeader env' q eid ++ rest).drop 8 =
      SDNV.encoded (UInt64.ofNat eid.length) ++ (eid ++ rest) := by
    rw [contactHeader, List.append_assoc, List.append_assoc]
    rfl
  rw [hdrop]
  exact SDNV.decode_encoded _ _

theorem handleContactInitiation_short (h : Waiting s) (hshort : eid.length ≤ 2047)
    {more rest : Bytes} (hstream : s.recvbuf ++ more = contactHeader env' q eid ++ rest)
    (hlen : s.recvbuf.length < (contactHeader env' q eid).length) :
    s.handleContactInitiation env find = .ok s := by
  rw [State.handleContactInitiation, Exec.assert_bind h.down]
  split
  · rfl
  rename_i hlen4
  have hmagic : s.recvbuf.take 4 = magic := by
    have htake : (s.recvbuf ++ more).take 4 = magic := by
      rw [hstream]
      rfl
    rwa [List.take_append_of_le_length (by omega)] at htake
  rw [if_neg (not_not.mpr hmagic)]
  split
  · rfl
  rename_i hlen8
  cases hpart : SDNV.decode (s.recvbuf.drop 8) with
  | mk ret v =>
      cases ret with
      | none => rfl
      | some n =>
          have hwhole := decode_append hpart more
          rw [← List.drop_append_of_le_length (by omega), hstream, decode_contactHeader] at hwhole
          cases hwhole
          dsimp only
          rw [contactHeader_length] at hlen
          have henc := SDNV.encoded_length_le (UInt64.ofNat eid.length)
          rw [SDNV.maxLength] at henc
          rw [toNat_ofNat_length hshort, if_pos (by omega)]
          rfl

theorem handleContactInitiation_header (h : Waiting s) (hshort : eid.length ≤ 2047)
    {tail : Bytes} (hbuf : s.recvbuf = contactHeader env' q eid ++ tail) :
    s.handleContactInitiation env find =
      s.acceptContact env find (SDNV.encoded (UInt64.ofNat eid.length)).length eid.length := by
  have hlen : s.recvbuf.length =
      8 + (SDNV.encoded (UInt64.ofNat eid.length)).length + eid.length + tail.length := by
    rw [hbuf, List.length_append, contactHeader_length]
  have henc := SDNV.encoded_length_le (UInt64.ofNat eid.length)
  rw [SDNV.maxLength] at henc
  have hmagic : s.recvbuf.take 4 = magic := by
    rw [hbuf]
    rfl
  have hdecode : SDNV.decode (s.recvbuf.drop 8) =
      (some (SDNV.encoded (UInt64.ofNat eid.length)).length, UInt64.ofNat eid.length) := by
    rw [hbuf]
    exact decode_contactHeader tail
  rw [State.handleContactInitiation, Exec.assert_bind h.down, if_neg (by omega),
    if_neg (not_not.mpr hmagic), if_neg (by omega), hdecode]
  dsimp only
  rw [toNat_ofNat_length hshort, if_neg (by omega)]

theorem findContact_spec {peerEid : Bytes} {s' : State}
    (h : s.findContact find peerEid = some s') :
    s'.params = (idleParams s.contact find).getD s.params ∧ s'.recvbuf = s.recvbuf := by
  unfold State.findContact at h
  unfold idleParams
  split at h
  · rename_i hcontact
    cases h
    rw [hcontact]
    exact ⟨rfl, rfl⟩
  · rename_i hcontact
    rw [hcontact]
    split at h <;> cases h <;> exact ⟨rfl, rfl⟩

/-- A header that is accepted leaves what follows it, the endpoint id of the peer and the common
parameters, or those of the idle link. -/
theorem acceptContact_header (h : Waiting s) (hver : env'.clVersion = env.clVersion)
    {tail : Bytes} (hbuf : s.recvbuf = contactHeader env' q eid ++ tail) :
    ∃ s', s.acceptContact env find (SDNV.encoded (UInt64.ofNat eid.length)).length eid.length =
        .ok s' ∧
      (s'.contactUp = true ∨ s'.contactBroken ≠ none) ∧
      (s'.contactUp = true → s'.recvbuf = tail ∧ s'.peerEid = some eid ∧
        s'.params = (idleParams s.contact find).getD
          (negotiate s.params (contactFlags q) (q.keepaliveInterval % 65536))) := by
  have hdrop : (s.recvbuf.drop 8).drop (SDNV.encoded (UInt64.ofNat eid.length)).length =
      eid ++ tail := by
    rw [hbuf, contactHeader, List.append_assoc, List.append_assoc]
    exact List.drop_left
  rw [State.acceptContact]
  dsimp only
  rw [if_neg (by rw [hbuf]; simp [contactHeader, hver]), hdrop,
    if_neg (by rw [List.length_append]; omega)]
  split
  · exact ⟨_, rfl, Or.inr (by simp [State.breakContact]),
      fun hup => absurd (h.down.symm.trans hup) (by decide)⟩
  split
  · exact ⟨_, rfl, Or.inr (by simp [State.breakContact]),
      fun hup => absurd (h.down.symm.trans hup) (by decide)⟩
  · rename_i found hfound
    obtain ⟨hparams, hrecv⟩ := findContact_spec hfound
    refine ⟨_, rfl, Or.inl rfl, fun _ => ⟨?_, ?_, ?_⟩⟩
    · dsimp only
      rw [setRemoteEid_recvbuf]
      dsimp only
      rw [hrecv]
      exact List.drop_left
    · dsimp only
      rw [setRemoteEid_peerEid]
      exact congrArg some List.take_left
    · dsimp only
      rw [setRemoteEid_params]
      dsimp only
      rw [hparams, hbuf]
      dsimp only
      congr 2
      exact interval_sent q.keepaliveInterval

theorem run_header (h : Waiting s) (hver : env'.clVersion = env.clVersion)
    (hshort : eid.length ≤ 2047) {rest : Bytes} (chunks : List Bytes)
    (hstream : s.recvbuf ++ chunks.flatten = contactHeader env' q eid ++ rest)
    (hlen : s.recvbuf.length < (contactHeader env' q eid).length) {s' : State}
    (hrun : s.run env find chunks = .ok s') (hup : s'.contactUp = true) :
    s'.recvbuf = rest ∧ s'.peerEid = some eid ∧
      s'.params = (idleParams s.contact find).getD
        (negotiate s.params (contactFlags q) (q.keepaliveInterval % 65536)) := by
  induction chunks generalizing s with
  | nil =>
      cases hrun
      exact absurd (h.down.symm.trans hup) (by decide)
  | cons c chunks ih =>
      rw [List.flatten_cons, ← List.append_assoc] at hstream
      have hwaiting : Waiting { s with recvbuf := s.recvbuf ++ c } := ⟨h.down, h.whole⟩
      rw [State.run, List.foldlM_cons, receive_waiting h] at hrun
      by_cases hpart : (s.recvbuf ++ c).length < (contactHeader env' q eid).length
      · rw [handleContactInitiation_short hwaiting hshort hstream hpart, Exec.ok_bind] at hrun
        exact ih (s := { s with recvbuf := s.recvbuf ++ c }) hwaiting hstream hpart hrun
      · -- the header is complete, so that this call decides
        obtain ⟨tail, htail⟩ : contactHeader env' q eid <+: s.recvbuf ++ c :=
          List.prefix_of_prefix_length_le ⟨rest, hstream.symm⟩ (List.prefix_append _ _)
            (Nat.le_of_not_lt hpart)
        rw [← htail, List.append_assoc, List.append_cancel_left_eq] at hstream
        rw [handleContactInitiation_header hwaiting hshort htail.symm] at hrun
        obtain ⟨s₁, hs₁, hdecided, haccepted⟩ := acceptContact_header hwaiting hver htail.symm
        rw [hs₁, Exec.ok_bind] at hrun
        have hend := (run_decided hdecided chunks).symm.trans hrun
        cases hend
        obtain ⟨hrecv, hpeer, hparams⟩ := haccepted hup
        refine ⟨?_, hpeer, hparams⟩
        dsimp only
        rw [hrecv]
        exact hstream

end Header

/-! ## The two sides -/

theorem min_agree_iff {a b : Nat} :
    min a (b % 65536) = min b (a % 65536) ↔ IntervalsAgree a b := by
  rw [IntervalsAgree]
  omega

theorem Agree.symm {p q : LinkParams} (h : Agree p q) : Agree q p :=
  ⟨h.1.symm, h.2.symm, h.3.symm, h.4.symm⟩

theorem agree_comm {p q : LinkParams} : Agree p q ↔ Agree q p := ⟨Agree.symm, Agree.symm⟩

/-- What a side negotiates from its own parameters and those in the header of the other side. -/
def negotiated (own other : LinkParams) : LinkParams :=
  negotiate own (contactFlags other.toStreamLinkParams) (other.keepaliveInterval % 65536)

theorem agree_negotiated {idle own other : LinkParams} :
    Agree idle (negotiated other own) ↔ IdleMatches idle own other := by
  have hseg : (negotiated other own).segmentAckEnabled =
      (own.segmentAckEnabled && other.segmentAckEnabled) := by
    rw [Bool.and_comm, negotiated, negotiate, Connection.negotiate, contactFlags_segmentAck]
  have hreact : (negotiated other own).reactiveFragEnabled =
      (own.reactiveFragEnabled && other.reactiveFragEnabled) := by
    rw [Bool.and_comm, negotiated, negotiate, Connection.negotiate, contactFlags_reactiveFrag]
  have hneg : (negotiated other own).negativeAckEnabled = false := by
    rw [negotiated, negotiate, contactFlags_negativeAck, Bool.and_false]
  constructor
  · intro h
    exact ⟨h.keepaliveInterval, h.segmentAckEnabled.trans hseg,
      h.reactiveFragEnabled.trans hreact, h.negativeAckEnabled.trans hneg⟩
  · intro h
    exact ⟨h.keepaliveInterval, h.segmentAckEnabled.trans hseg.symm,
      h.reactiveFragEnabled.trans hreact.symm, h.negativeAckEnabled.trans hneg.symm⟩

theorem negotiated_agree {a b : LinkParams} :
    Agree (negotiated a b) (negotiated b a) ↔
      IntervalsAgree a.keepaliveInterval b.keepaliveInterval := by
  rw [agree_negotiated, ← min_agree_iff]
  constructor
  · intro h
    exact h.keepaliveInterval
  · intro h
    refine ⟨h, ?_, ?_, ?_⟩
    · rw [negotiated, negotiate, Connection.negotiate, contactFlags_segmentAck]
    · rw [negotiated, negotiate, Connection.negotiate, contactFlags_reactiveFrag]
    · rw [negotiated, negotiate, contactFlags_negativeAck, Bool.and_false]

theorem agree_iff (a b : Peer) :
    Agree ((idleParams a.contact a.find).getD (negotiated a.params b.params))
      ((idleParams b.contact b.find).getD (negotiated b.params a.params)) ↔ a.Compatible b := by
  rw [Peer.Compatible]
  cases idleParams a.contact a.find with
  | none =>
      cases idleParams b.contact b.find with
      | none => exact negotiated_agree
      | some idle => exact agree_comm.trans agree_negotiated
  | some idle =>
      cases idleParams b.contact b.find with
      | none => exact agree_negotiated
      | some idle' => exact Iff.rfl

theorem start_waiting (p : Peer) : Waiting p.start := ⟨rfl, rfl⟩

theorem run_initiated {env env' : Env} {p q : Peer} {sendbufLen recvbufLen : Nat} {link : LinkRef}
    {c : Connection} (hver : env'.clVersion = env.clVersion)
    (hc : (Connection.new q.params.toStreamLinkParams sendbufLen recvbufLen link).initiateContact
      env' q.eid = .ok c) {rest : Bytes} {chunks : List Bytes}
    (hstream : chunks.flatten = c.wire ++ c.sendbuf.full ++ rest) {s' : State}
    (hrun : p.start.run env p.find chunks = .ok s') (hup : s'.contactUp = true) :
    s'.recvbuf = rest ∧ s'.peerEid = some q.eid ∧
      s'.params = (idleParams p.contact p.find).getD (negotiated p.params q.params) := by
  obtain ⟨-, -, -, -, -, hheader⟩ := initiateContact_spec hc
  rw [hheader] at hstream
  refine run_header (start_waiting p) hver q.short chunks ?_ ?_ hrun hup
  · exact hstream
  · rw [contactHeader_length]
    change 0 < _
    omega

/-- Two sides whose contacts come up have learned the endpoint id of each other, have taken the two
headers and no more from the streams, and agree on the parameters exactly for a compatible
configuration. Whatever an arbitrary peer sends, nothing is read beyond it exactly if the length in it
does not wrap around. -/
theorem contact_initiation {envA envB : Env} (hver : envA.clVersion = envB.clVersion) (a b : Peer)
    {sendA recvA sendB recvB : Nat} {linkA linkB : LinkRef} {ca cb : Connection}
    (hca : (Connection.new a.params.toStreamLinkParams sendA recvA linkA).initiateContact
      envA a.eid = .ok ca)
    (hcb : (Connection.new b.params.toStreamLinkParams sendB recvB linkB).initiateContact
      envB b.eid = .ok cb)
    (restA restB : Bytes) (toA toB : List Bytes)
    (htoA : toA.flatten = cb.wire ++ cb.sendbuf.full ++ restB)
    (htoB : toB.flatten = ca.wire ++ ca.sendbuf.full ++ restA)
    (env : Env) (p : Peer) (stream : List Bytes) (hsize : stream.flatten.length < 2 ^ 64) :
    (∀ sa sb, a.start.run envA a.find toA = .ok sa → b.start.run envB b.find toB = .ok sb →
      sa.contactUp = true → sb.contactUp = true →
        ((Agree sa.params sb.params ∧ sa.peerEid = some b.eid ∧ sb.peerEid = some a.eid ∧
          sa.recvbuf = restB ∧ sb.recvbuf = restA) ↔ a.Compatible b)) ∧
    ((∃ s, p.start.run env p.find stream = .ok s ∧ s.recvbuf <:+ stream.flatten) ↔
      ¬Overlong env.clVersion stream.flatten) := by
  constructor
  · intro sa sb hrunA hrunB hupA hupB
    obtain ⟨hrecvA, hpeerA, hparamsA⟩ := run_initiated hver.symm hcb htoA hrunA hupA
    obtain ⟨hrecvB, hpeerB, hparamsB⟩ := run_initiated hver hca htoB hrunB hupB
    rw [← agree_iff, hparamsA, hparamsB]
    exact ⟨fun h => h.1, fun h => ⟨h, hpeerA, hpeerB, hrecvA, hrecvB⟩⟩
  · constructor
    · rintro ⟨s, hs, -⟩ hlong
      have hnow : ¬Overlong env.clVersion p.start.recvbuf := by
        intro h
        exact absurd h.1 (Nat.not_succ_le_zero 7)
      have hfaults : (p.start.run env p.find stream).Faults :=
        run_overlong (start_waiting p) stream hsize hnow hlong
      rw [hs] at hfaults
      exact Exec.not_faults_ok s hfaults
    · intro hlong
      exact run_safe (start_waiting p) stream hsize hlong

/-- A side that has a link to a peer that it does not know yet. -/
def Peer.active (keepaliveInterval : Nat) (h : keepaliveInterval < 2 ^ 32) : Peer where
  eid := ascii ['d', 't', 'n', ':', '/', '/', 'a']
  short := by decide
  params := ⟨⟨true, true, keepaliveInterval, 100, 0⟩, true, 30000⟩
  interval := h
  contact := some EndpointID.dtnNone
  find := .failed
  pollTimeout := 30000

/-- A side that accepts connections. -/
def Peer.passive : Peer where
  eid := ascii ['d', 't', 'n', ':', '/', '/', 'b']
  short := by decide
  params := ⟨⟨true, false, 10, 100, 0⟩, true, 30000⟩
  interval := by decide
  contact := none
  find := .created
  pollTimeout := 30000

/-- The header of a side in two chunks, the second one with the byte of a keepalive behind it. -/
def inChunks (p : Peer) : List Bytes :=
  [(contactHeader .plain p.params.toStreamLinkParams p.eid).take 5,
    (contactHeader .plain p.params.toStreamLinkParams p.eid).drop 5 ++ [0x40]]

theorem contact_initiation_sample :
    ∃ sa sb, (Peer.active 20 (by decide)).start.run .plain .failed (inChunks .passive) = .ok sa ∧
      Peer.passive.start.run .plain .created (inChunks (.active 20 (by decide))) = .ok sb ∧
      Agree sa.params sb.params ∧ sa.peerEid = some Peer.passive.eid ∧
      sb.peerEid = some (Peer.active 20 (by decide)).eid ∧ sa.recvbuf = [0x40] ∧
      sb.recvbuf = [0x40] := by
  have hinit : ∀ p ∈ [Peer.active 20 (by decide), Peer.passive],
      ∃ c ∈ ((Connection.new p.params.toStreamLinkParams 100 100 ⟨true, [], []⟩).initiateContact
        .plain p.eid).toOption,
        (inChunks p).flatten = c.wire ++ c.sendbuf.full ++ [0x40] := by
    decide +kernel
  have hruns : ∃ sa ∈ ((Peer.active 20 (by decide)).start.run .plain .failed
      (inChunks .passive)).toOption, ∃ sb ∈ (Peer.passive.start.run .plain .created
        (inChunks (.active 20 (by decide)))).toOption,
        sa.contactUp = true ∧ sb.contactUp = true := by
    decide +kernel
  obtain ⟨ca, hca, htoB⟩ := hinit _ (List.mem_cons_self)
  obtain ⟨cb, hcb, htoA⟩ := hinit _ (List.mem_cons_of_mem _ List.mem_cons_self)
  obtain ⟨sa, hsa, sb, hsb, hupA, hupB⟩ := hruns
  rw [Exec.mem_toOption] at hca hcb hsa hsb
  have hboth := contact_initiation rfl (.active 20 (by decide)) .passive hca hcb [0x40] [0x40]
    _ _ htoA htoB .plain .passive [] (by decide)
  have hagree := (hboth.1 sa sb hsa hsb hupA hupB).mpr (Or.inl (by decide))
  exact ⟨sa, sb, hsa, hsb, hagree⟩

/-- With an interval of 65541 seconds at one side and of 10 seconds at the other, the one goes on with
10 and the other with 5 seconds. A length of 2^64 - 9 makes the handler read bytes that it has not
received. -/
theorem interval_disagreement :
    (∃ sa sb,
      (Peer.active 65541 (by decide)).start.run .plain .failed (inChunks .passive) = .ok sa ∧
      Peer.passive.start.run .plain .created (inChunks (.active 65541 (by decide))) = .ok sb ∧
      sa.contactUp = true ∧ sb.contactUp = true ∧ sa.params.keepaliveInterval = 10 ∧
      sb.params.keepaliveInterval = 5) ∧
    (Peer.passive.start.run .plain .created
      [magic ++ [3, 0, 0, 0] ++ SDNV.encoded (UInt64.ofNat (2 ^ 64 - 9))]).Faults := by
  have hruns : ∃ sa ∈ ((Peer.active 65541 (by decide)).start.run .plain .failed
      (inChunks .passive)).toOption, ∃ sb ∈ (Peer.passive.start.run .plain .created
        (inChunks (.active 65541 (by decide)))).toOption,
        sa.contactUp = true ∧ sb.contactUp = true ∧ sa.params.keepaliveInterval = 10 ∧
        sb.params.keepaliveInterval = 5 := by
    decide +kernel
  obtain ⟨sa, hsa, sb, hsb, hrest⟩ := hruns
  rw [Exec.mem_toOption] at hsa hsb
  refine ⟨⟨sa, sb, hsa, hsb, hrest⟩, .outOfBounds, ?_⟩
  rfl

end ContactInitiation

end Dtn2
