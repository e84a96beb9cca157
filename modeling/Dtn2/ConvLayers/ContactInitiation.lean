import Dtn2.ConvLayers.StreamSteps

/-!
# Contact initiation

Both sides of a connection send a contact header and derive the common parameters from their own
configuration and the header of the other side. The handler is called again on every chunk until the
header is complete. A side that has no contact yet then finds a link for the peer, and goes on with the
parameters of that link.
-/

namespace Dtn2

namespace ContactInitiation

open StreamConvergenceLayer StreamConvergenceLayer.Connection

/-- `StreamLinkParams` with the fields that only contact initiation uses. -/
structure LinkParams extends StreamLinkParams where
  negativeAckEnabled : Bool
  dataTimeout : Nat
deriving DecidableEq, Repr

/-- What `find_contact` comes to for a connection without a contact: no link can be made, an idle link
to the peer is taken with its own parameters, or a new one is made. A new link gets a copy of the
default parameters, which are the ones that a connection without a contact works on. -/
inductive FindContact where
  | failed
  | idle (params : LinkParams)
  | created
deriving DecidableEq, Repr

/-- A connection before its contact is up. `contact` is the remote endpoint id of the link of the
contact, if there is one, and `peerEid` the endpoint id that was read. -/
structure State where
  params : LinkParams
  contact : Option Bytes
  recvbuf : Bytes
  pollTimeout : Nat
  contactUp : Bool
  contactBroken : Option Reason
  peerEid : Option Bytes
deriving DecidableEq, Repr

/-- The magic number `dtn!`. -/
def magic : Bytes := [0x64, 0x74, 0x6e, 0x21]

def negotiate (p : LinkParams) (flags : UInt8) (keepaliveInterval : Nat) : LinkParams :=
  { p with
    toStreamLinkParams := Connection.negotiate p.toStreamLinkParams flags keepaliveInterval
    negativeAckEnabled := p.negativeAckEnabled && decide (flags &&& 4 ≠ 0) }

/-- `poll_timeout_` after the negotiation. -/
def adjustPollTimeout (p : LinkParams) (pollTimeout : Nat) : Nat :=
  if p.keepaliveInterval ≠ 0 ∧ p.keepaliveInterval * 1000 % 2 ^ 32 < p.dataTimeout then
    p.keepaliveInterval * 1000 % 2 ^ 32
  else pollTimeout

namespace State

/-- `break_contact`, as far as it matters here. -/
def breakContact (s : State) (reason : Reason) : State := { s with contactBroken := some reason }

def findContact (find : FindContact) (s : State) (peerEid : Bytes) : Option State :=
  match s.contact with
  | some _ => some s
  | none =>
      match find with
      | .failed => none
      | .idle params => some { s with contact := some peerEid, params := params }
      | .created => some { s with contact := some peerEid }

/-- The link of the contact learns the endpoint id of the peer if it has none. -/
def setRemoteEid (s : State) (peerEid : Bytes) : State :=
  if s.contact = some EndpointID.dtnNone then { s with contact := some peerEid } else s

/-- `handle_contact_initiation` behind the length checks. -/
def acceptContact (env : Env) (find : FindContact) (s : State) (n eidLen : Nat) : Exec State :=
  let header := s.recvbuf.take 8
  let s := { s with recvbuf := s.recvbuf.drop 8 }
  if (header[4]?.getD 0) < env.clVersion then pure (s.breakContact .clVersion)
  else
    let params := negotiate s.params (header[5]?.getD 0)
      ((header[6]?.getD 0).toNat * 256 + (header[7]?.getD 0).toNat)
    let s := { s with
      params := params
      pollTimeout := adjustPollTimeout params s.pollTimeout
      recvbuf := s.recvbuf.drop n }
    if s.recvbuf.length < eidLen then .error (.fault .outOfBounds)
    else
      let peerEid := s.recvbuf.take eidLen
      if (env.os.assign peerEid).valid = false then pure (s.breakContact .clError)
      else
        match s.findContact find peerEid with
        | none => pure (s.breakContact .clError)
        | some s =>
            let s := { s with recvbuf := s.recvbuf.drop eidLen, peerEid := some peerEid }
            pure { s.setRemoteEid peerEid with contactUp := true }

def handleContactInitiation (env : Env) (find : FindContact) (s : State) : Exec State := do
  assertThat (s.contactUp = false)
  if s.recvbuf.length < 4 then pure s
  else if s.recvbuf.take 4 ≠ magic then pure (s.breakContact .clError)
  else if s.recvbuf.length < 8 then pure s
  else
    match SDNV.decode (s.recvbuf.drop 8) with
    | (none, _) => pure s
    | (some n, eidLen) =>
        if s.recvbuf.length < (8 + n + eidLen.toNat) % 2 ^ 64 then pure s
        else s.acceptContact env find n eidLen.toNat

/-- A chunk arrives. Once the contact is up or broken, the handler is not called any more. -/
def receive (env : Env) (find : FindContact) (s : State) (chunk : Bytes) : Exec State :=
  let s := { s with recvbuf := s.recvbuf ++ chunk }
  if s.contactUp = true ∨ s.contactBroken ≠ none then pure s
  else s.handleContactInitiation env find

def run (env : Env) (find : FindContact) (s : State) (chunks : List Bytes) : Exec State :=
  chunks.foldlM (receive env find) s

end State

/-- A side of a connection. A valid local endpoint id has a scheme and a specific part of at most 1023
bytes (`MAX_EID_PART_LENGTH`). -/
structure Peer where
  eid : Bytes
  short : eid.length ≤ 2047
  params : LinkParams
  interval : params.keepaliveInterval < 2 ^ 32
  contact : Option Bytes
  find : FindContact
  pollTimeout : Nat

/-- The connection before anything has arrived. -/
def Peer.start (p : Peer) : State where
  params := p.params
  contact := p.contact
  recvbuf := []
  pollTimeout := p.pollTimeout
  contactUp := false
  contactBroken := none
  peerEid := none

/-! ## The handler on a part of the stream -/

/-- Nothing has been decided. -/
structure Waiting (s : State) : Prop where
  down : s.contactUp = false
  whole : s.contactBroken = none

/-- The length of the endpoint id is so large that the sum of the lengths wraps around. -/
def Overlong (version : UInt8) (bs : Bytes) : Prop :=
  8 ≤ bs.length ∧ bs.take 4 = magic ∧ ¬((bs.take 8)[4]?.getD 0) < version ∧
    ∃ n v, SDNV.decode (bs.drop 8) = (some n, v) ∧ 2 ^ 64 ≤ 8 + n + v.toNat

theorem decode_append {bs : Bytes} {n : Nat} {v : UInt64} (h : SDNV.decode bs = (some n, v))
    (more : Bytes) : SDNV.decode (bs ++ more) = (some n, v) := by
  obtain ⟨-, -, hmore⟩ := SDNV.decode_some h
  have hall := hmore (bs.drop n ++ more)
  rwa [← List.append_assoc, List.take_append_drop] at hall

theorem overlong_append {version : UInt8} {bs : Bytes} (h : Overlong version bs) (more : Bytes) :
    Overlong version (bs ++ more) := by
  obtain ⟨hlen, hmagic, hversion, n, v, hdecode, hwrap⟩ := h
  refine ⟨?_, ?_, ?_, n, v, ?_, hwrap⟩
  · rw [List.length_append]
    omega
  · rw [List.take_append_of_le_length (by omega)]
    exact hmagic
  · rw [List.take_append_of_le_length hlen]
    exact hversion
  · rw [List.drop_append_of_le_length hlen]
    exact decode_append hdecode more

section Handler

variable {env : Env} {find : FindContact} {s : State}

theorem findContact_recvbuf {peerEid : Bytes} {s' : State}
    (h : s.findContact find peerEid = some s') : s'.recvbuf = s.recvbuf := by
  unfold State.findContact at h
  split at h
  · cases h
    rfl
  split at h
  · cases h
  · cases h
    rfl
  · cases h
    rfl

@[simp] theorem setRemoteEid_recvbuf (peerEid : Bytes) :
    (s.setRemoteEid peerEid).recvbuf = s.recvbuf := by
  rw [State.setRemoteEid]
  split <;> rfl

@[simp] theorem setRemoteEid_params (peerEid : Bytes) :
    (s.setRemoteEid peerEid).params = s.params := by
  rw [State.setRemoteEid]
  split <;> rfl

@[simp] theorem setRemoteEid_peerEid (peerEid : Bytes) :
    (s.setRemoteEid peerEid).peerEid = s.peerEid := by
  rw [State.setRemoteEid]
  split <;> rfl

theorem acceptContact_faults {n : Nat} {v : UInt64} (hlen : 8 ≤ s.recvbuf.length)
    (hn : n ≤ (s.recvbuf.drop 8).length) :
    (s.acceptContact env find n v.toNat).Faults ↔
      ¬((s.recvbuf.take 8)[4]?.getD 0) < env.clVersion ∧
        s.recvbuf.length < 8 + n + v.toNat := by
  rw [State.acceptContact]
  dsimp only
  rw [List.length_drop] at hn
  split
  · rename_i hversion
    constructor
    · exact fun h => absurd h (Exec.not_faults_ok _)
    · exact fun h => absurd hversion h.1
  · rename_i hversion
    rw [List.drop_drop, List.length_drop]
    split
    · exact ⟨fun _ => ⟨hversion, by omega⟩, fun _ => ⟨.outOfBounds, rfl⟩⟩
    · rename_i hroom
      constructor
      · intro h
        refine absurd h ?_
        split
        · exact Exec.not_faults_ok _
        · split
          · exact Exec.not_faults_ok _
          · exact Exec.not_faults_ok _
      · intro h
        omega

theorem handleContactInitiation_faults (h : Waiting s) (hsize : s.recvbuf.length < 2 ^ 64) :
    (s.handleContactInitiation env find).Faults ↔ Overlong env.clVersion s.recvbuf := by
  have hok : ∀ {s' : State} {P : Prop}, ¬P → (Exec.Faults (.ok s' : Exec State) ↔ P) := by
    intro s' P hP
    exact ⟨fun hf => absurd hf (Exec.not_faults_ok s'), fun hp => absurd hp hP⟩
  rw [State.handleContactInitiation, Exec.assert_bind h.down]
  split
  · exact hok fun hlong => by have := hlong.1; omega
  split
  · rename_i hmagic
    exact hok fun hlong => hmagic hlong.2.1
  split
  · exact hok fun hlong => by have := hlong.1; omega
  rename_i hmagic hlen
  have hlen8 : 8 ≤ s.recvbuf.length := Nat.le_of_not_lt hlen
  cases hdecode : SDNV.decode (s.recvbuf.drop 8) with
  | mk ret v =>
      cases ret with
      | none =>
          refine hok ?_
          rintro ⟨-, -, -, n, w, hsome, -⟩
          rw [hdecode] at hsome
          cases hsome
      | some n =>
          obtain ⟨-, hn, -⟩ := SDNV.decode_some hdecode
          have hn' := hn
          rw [List.length_drop] at hn'
          have hv : v.toNat < 2 ^ 64 := v.toNat_lt
          have hlong : Overlong env.clVersion s.recvbuf ↔
              ¬((s.recvbuf.take 8)[4]?.getD 0) < env.clVersion ∧ 2 ^ 64 ≤ 8 + n + v.toNat := by
            constructor
            · rintro ⟨-, -, hversion, n', v', hsome, hwrap⟩
              rw [hdecode] at hsome
              cases hsome
              exact ⟨hversion, hwrap⟩
            · rintro ⟨hversion, hwrap⟩
              exact ⟨hlen8, not_not.mp hmagic, hversion, n, v, hdecode, hwrap⟩
          rw [hlong]
          dsimp only
          by_cases hwrap : 2 ^ 64 ≤ 8 + n + v.toNat
          · rw [if_neg (by omega), acceptContact_faults hlen8 hn]
            exact and_congr_right fun _ => ⟨fun _ => hwrap, fun _ => by omega⟩
          · split
            · exact hok fun hboth => hwrap hboth.2
            · rw [acceptContact_faults hlen8 hn]
              exact and_congr_right fun _ => ⟨fun _ => by omega, fun hboth => absurd hboth hwrap⟩

theorem handleContactInitiation_overlong (h : Waiting s) (hsize : s.recvbuf.length < 2 ^ 64)
    {more : Bytes} (hlong : Overlong env.clVersion (s.recvbuf ++ more)) :
    s.handleContactInitiation env find = .ok s ∨ (s.handleContactInitiation env find).Faults := by
  by_cases hnow : Overlong env.clVersion s.recvbuf
  · exact Or.inr ((handleContactInitiation_faults h hsize).mpr hnow)
  · refine Or.inl ?_
    obtain ⟨-, hmagic, hversion, n, v, hdecode, hwrap⟩ := hlong
    rw [State.handleContactInitiation, Exec.assert_bind h.down]
    split
    · rfl
    rename_i hlen4
    have hmagic' : s.recvbuf.take 4 = magic := by
      rwa [List.take_append_of_le_length (by omega)] at hmagic
    rw [if_neg (not_not.mpr hmagic')]
    split
    · rfl
    rename_i hlen8
    rw [List.take_append_of_le_length (by omega)] at hversion
    rw [List.drop_append_of_le_length (by omega)] at hdecode
    cases hpart : SDNV.decode (s.recvbuf.drop 8) with
    | mk ret w =>
        cases ret with
        | none => rfl
        | some k =>
            have hsame := (decode_append hpart more).symm.trans hdecode
            cases hsame
            exact absurd ⟨by omega, hmagic', hversion, n, v, hpart, hwrap⟩ hnow

/-- What the handler does without a fault leaves the buffer alone, or decides. -/
theorem handleContactInitiation_ok (h : Waiting s) {s' : State}
    (hs' : s.handleContactInitiation env find = .ok s') :
    s' = s ∨ s'.contactUp = true ∨ s'.contactBroken ≠ none := by
  rw [State.handleContactInitiation, Exec.assert_bind h.down] at hs'
  split at hs'
  · cases hs'
    exact Or.inl rfl
  split at hs'
  · cases hs'
    exact Or.inr (Or.inr (by simp [State.breakContact]))
  split at hs'
  · cases hs'
    exact Or.inl rfl
  cases hdecode : SDNV.decode (s.recvbuf.drop 8) with
  | mk ret v =>
      rw [hdecode] at hs'
      cases ret with
      | none =>
          cases hs'
          exact Or.inl rfl
      | some n =>
          dsimp only at hs'
          split at hs'
          · cases hs'
            exact Or.inl rfl
          refine Or.inr ?_
          rw [State.acceptContact] at hs'
          dsimp only at hs'
          split at hs'
          · cases hs'
            exact Or.inr (by simp [State.breakContact])
          split at hs'
          · cases hs'
          split at hs'
          · cases hs'
            exact Or.inr (by simp [State.breakContact])
          split at hs'
          · cases hs'
            exact Or.inr (by simp [State.breakContact])
          · cases hs'
            exact Or.inl rfl

theorem handleContactInitiation_error {stop : Stop} (h : Waiting s)
    (hs : s.handleContactInitiation env find = .error stop) :
    (s.handleContactInitiation env find).Faults := by
  have hgoal : ∃ f, stop = .fault f := by
    rw [State.handleContactInitiation, Exec.assert_bind h.down] at hs
    split at hs
    · cases hs
    split at hs
    · cases hs
    split at hs
    · cases hs
    split at hs
    · cases hs
    split at hs
    · cases hs
    rw [State.acceptContact] at hs
    dsimp only at hs
    split at hs
    · cases hs
    split at hs
    · cases hs
      exact ⟨_, rfl⟩
    split at hs
    · cases hs
    split at hs <;> cases hs
  obtain ⟨f, rfl⟩ := hgoal
  exact ⟨f, hs⟩

theorem handleContactInitiation_suffix {s' : State}
    (hs' : s.handleContactInitiation env find = .ok s') : s'.recvbuf <:+ s.recvbuf := by
  rw [State.handleContactInitiation] at hs'
  obtain ⟨_, -, hs'⟩ := Exec.bind_eq_ok.mp hs'
  split at hs'
  · cases hs'
    exact List.suffix_refl _
  split at hs'
  · cases hs'
    exact List.suffix_refl _
  split at hs'
  · cases hs'
    exact List.suffix_refl _
  split at hs'
  · cases hs'
    exact List.suffix_refl _
  split at hs'
  · cases hs'
    exact List.suffix_refl _
  rw [State.acceptContact] at hs'
  dsimp only at hs'
  split at hs'
  · cases hs'
    exact List.drop_suffix _ _
  split at hs'
  · cases hs'
  split at hs'
  · cases hs'
    exact (List.drop_suffix _ _).trans (List.drop_suffix _ _)
  split at hs'
  · cases hs'
    exact (List.drop_suffix _ _).trans (List.drop_suffix _ _)
  · rename_i found hfound
    cases hs'
    have hsame : found.recvbuf = (s.recvbuf.drop 8).drop _ := findContact_recvbuf hfound
    rw [setRemoteEid_recvbuf, hsame]
    exact ((List.drop_suffix _ _).trans (List.drop_suffix _ _)).trans (List.drop_suffix _ _)

end Handler

/-! ## The handler on a stream in chunks -/

section Stream

variable {env : Env} {find : FindContact} {s : State}

theorem receive_waiting (h : Waiting s) (chunk : Bytes) :
    s.receive env find chunk =
      { s with recvbuf := s.recvbuf ++ chunk }.handleContactInitiation env find := by
  rw [State.receive]
  dsimp only
  rw [if_neg (by simp [h.down, h.whole])]

theorem run_decided (h : s.contactUp = true ∨ s.contactBroken ≠ none) (chunks : List Bytes) :
    s.run env find chunks = .ok { s with recvbuf := s.recvbuf ++ chunks.flatten } := by
  induction chunks generalizing s with
  | nil =>
      rw [List.flatten_nil, List.append_nil]
      rfl
  | cons c rest ih =>
      have hstep : s.receive env find c = .ok { s with recvbuf := s.recvbuf ++ c } := by
        rw [State.receive]
        exact if_pos h
      rw [State.run, List.foldlM_cons, hstep, Exec.ok_bind]
      have hrest := ih (s := { s with recvbuf := s.recvbuf ++ c }) h
      rw [List.flatten_cons, ← List.append_assoc]
      exact hrest

/-- Unless the whole stream has an overlong length, nothing is read beyond it. -/
theorem run_safe (h : Waiting s) (chunks : List Bytes)
    (hsize : (s.recvbuf ++ chunks.flatten).length < 2 ^ 64)
    (hlong : ¬Overlong env.clVersion (s.recvbuf ++ chunks.flatten)) :
    ∃ s', s.run env find chunks = .ok s' ∧ s'.recvbuf <:+ s.recvbuf ++ chunks.flatten := by
  induction chunks generalizing s with
  | nil =>
      rw [List.flatten_nil, List.append_nil]
      exact ⟨s, rfl, List.suffix_refl _⟩
  | cons c rest ih =>
      rw [List.flatten_cons, ← List.append_assoc] at hsize hlong ⊢
      have hwaiting : Waiting { s with recvbuf := s.recvbuf ++ c } := ⟨h.down, h.whole⟩
      have hpart : (s.recvbuf ++ c).length < 2 ^ 64 := by
        rw [List.length_append] at hsize
        omega
      rw [State.run, List.foldlM_cons, receive_waiting h]
      cases hstep : { s with recvbuf := s.recvbuf ++ c }.handleContactInitiation env find with
      | error stop =>
          have hfault := handleContactInitiation_error hwaiting hstep
          have hnow := (handleContactInitiation_faults hwaiting hpart).mp hfault
          exact absurd (overlong_append hnow rest.flatten) hlong
      | ok s' =>
          rw [Exec.ok_bind]
          rcases handleContactInitiation_ok hwaiting hstep with rfl | hdecided
          · exact ih hwaiting hsize hlong
          · refine ⟨_, run_decided hdecided rest, ?_⟩
            obtain ⟨gone, hgone⟩ := handleContactInitiation_suffix hstep
            refine ⟨gone, ?_⟩
            dsimp only at hgone ⊢
            rw [← List.append_assoc, hgone]

theorem run_overlong (h : Waiting s) (chunks : List Bytes)
    (hsize : (s.recvbuf ++ chunks.flatten).length < 2 ^ 64)
    (hnow : ¬Overlong env.clVersion s.recvbuf)
    (hlong : Overlong env.clVersion (s.recvbuf ++ chunks.flatten)) :
    (s.run env find chunks).Faults := by
  induction chunks generalizing s with
  | nil =>
      rw [List.flatten_nil, List.append_nil] at hlong
      exact absurd hlong hnow
  | cons c rest ih =>
      rw [List.flatten_cons, ← List.append_assoc] at hsize hlong
      have hwaiting : Waiting { s with recvbuf := s.recvbuf ++ c } := ⟨h.down, h.whole⟩
      have hpart : (s.recvbuf ++ c).length < 2 ^ 64 := by
        rw [List.length_append] at hsize
        omega
      rw [State.run, List.foldlM_cons, receive_waiting h]
      set s₁ : State := { s with recvbuf := s.recvbuf ++ c }
      have hcases : s₁.handleContactInitiation env find = .ok s₁ ∨
          (s₁.handleContactInitiation env find).Faults :=
        handleContactInitiation_overlong hwaiting hpart hlong
      rcases hcases with hok | hfault
      · have hstill : ¬Overlong env.clVersion (s.recvbuf ++ c) := by
          intro hoverlong
          have hf : (s₁.handleContactInitiation env find).Faults :=
            (handleContactInitiation_faults hwaiting hpart).mpr hoverlong
          rw [hok] at hf
          exact Exec.not_faults_ok _ hf
        rw [hok, Exec.ok_bind]
        exact ih hwaiting hsize hstill hlong
      · obtain ⟨f, hf⟩ := hfault
        rw [hf]
        exact ⟨f, rfl⟩

end Stream

end ContactInitiation

end Dtn2
