import Dtn2.ConvLayers.SeqpacketRuns

/-!
# Packet boundaries in every run

Every step of a connection's thread keeps the packets whole, except that one that begins a segment
does so only if `reserve` has nothing to move.
-/

namespace Dtn2.SeqpacketConvergenceLayer

open Framework BundleProtocol
open StreamConvergenceLayer (ackSegment lengthMessage segmentByte sendsShutdown shutdownMessage)
open StreamConvergenceLayer.Connection (Timers)

section Steps

variable {env : Env} {c : Connection}

theorem shutdownMessage_length (reason : Reason) :
    0 < (shutdownMessage reason).length ∧ (shutdownMessage reason).length ≤ 2 := by
  cases reason <;> decide

theorem breakContact_safe {reason : Reason} (h : Inv env c) :
    Safe (Inv env) (c.breakContact env reason) := by
  rw [Connection.breakContact]
  split
  · exact Guarded.pure h
  · rename_i hbreaking
    split
    · rename_i hsends
      have hopen : c.contactBroken = false := by
        by_contra hbroken
        exact hbreaking (h.breaking (by simpa using hbroken))
      obtain ⟨hpos, hle⟩ := shutdownMessage_length reason
      have hspells : (Message.shutdown reason).Spells env (shutdownMessage reason) := rfl
      apply put_bind
      intro hfit
      refine Guarded.bind (message_safe h hspells hpos (by omega) h.todo rfl rfl rfl rfl rfl
        rfl hopen) ?_
      rintro d ⟨hd, hset⟩
      exact Guarded.pure (hd.congr rfl rfl rfl rfl rfl rfl rfl
        fun _ => hset rfl)
    · exact Guarded.pure (h.congr rfl rfl rfl rfl rfl rfl rfl fun _ => rfl)

theorem sendKeepalive_safe (h : Inv env c) (hopen : c.contactBroken = false) :
    Safe (Inv env) (c.sendKeepalive env) := by
  rw [Connection.sendKeepalive]
  split
  · exact Guarded.pure h
  · apply safe_check
    intro _
    apply safe_check
    intro _
    apply put_bind
    intro hfit
    have hspells : Message.keepalive.Spells env [StreamConvergenceLayer.keepalive] := rfl
    exact Guarded.mono (message_safe h hspells (by decide) (by decide) h.todo rfl rfl rfl rfl rfl
      rfl hopen) fun d hd => hd.1

theorem checkKeepalive_safe {due : Bool} (h : Inv env c) (hopen : c.contactBroken = false) :
    Safe (Inv env) (c.checkKeepalive env due) := by
  rw [Connection.checkKeepalive]
  split
  · split
    · exact Guarded.pure h
    · exact sendKeepalive_safe h hopen
  · exact Guarded.pure h

theorem handlePollTimeout_safe {t : Timers} (h : Inv env c) (hopen : c.contactBroken = false) :
    Safe (Inv env) (c.handlePollTimeout env t) := by
  rw [Connection.handlePollTimeout]
  split
  · exact Guarded.pure h
  · split
    · exact breakContact_safe h
    · split
      · exact breakContact_safe h
      · exact checkKeepalive_safe h hopen

theorem handleCancelBundle_inv {id : Nat} (h : Inv env c) : Inv env (c.handleCancelBundle id) := by
  rw [Connection.handleCancelBundle]
  split
  · exact h
  · split
    · exact h
    · split
      · exact h
      · exact h.congr rfl rfl rfl rfl rfl rfl rfl h.breaking

/-- The length of the contact header with an endpoint id. -/
def headerBytes (eid : Bytes) : Nat :=
  8 + SDNV.encodingLen (UInt64.ofNat eid.length) + eid.length

theorem contactHeader_length (env : Env) (p : SeqpacketLinkParams) (eid : Bytes) :
    (contactHeader env p eid).length = headerBytes eid := by
  rw [headerBytes, SDNV.encodingLen_eq]
  simp only [contactHeader, List.length_append, List.length_cons, List.length_nil]

theorem initiateContact_safe {eid : Bytes} (h : Inv env c) (hopen : c.contactBroken = false)
    (heid : headerBytes eid + 4 < 2 ^ 32) : Safe (Inv env) (c.initiateContact env eid) := by
  have hlen := contactHeader_length env c.params eid
  have hpos : 0 < headerBytes eid := by
    rw [headerBytes]
    omega
  have hspells : (Message.contactHeader c.params eid).Spells env
      (contactHeader env c.params eid) := rfl
  -- the second part of the header goes behind the first one, wherever that has moved
  have hrest : ∀ b : StreamBuffer UInt8,
      b.full = c.sendbuf.full ++ (contactHeader env c.params eid).take 8 →
      Safe (Inv env) (do
        let d ← { c with sendbuf := b }.put ((contactHeader env c.params eid).drop 8)
        let d ← (d.push (contactHeader env c.params eid).length
          (.contactHeader d.params eid)).sendData env
        pure { d with contactInitiated := true }) := by
    intro b hb
    apply put_bind
    intro hfit
    refine Guarded.bind (message_safe h hspells (by omega) (by omega) h.todo rfl rfl rfl ?_ rfl
      rfl hopen) ?_
    · show b.full ++ _ = _
      rw [hb, List.append_assoc, List.take_append_drop]
    · rintro d ⟨hd, _⟩
      exact Guarded.pure (hd.congr rfl rfl rfl rfl rfl rfl rfl hd.breaking)
  rw [Connection.initiateContact]
  apply safe_check
  intro _
  apply put_bind
  intro hfirst
  have hfull : ((c.sendbuf.reserve 8).fill ((contactHeader env c.params eid).take 8) hfirst).full =
      c.sendbuf.full ++ (contactHeader env c.params eid).take 8 := by
    rw [StreamBuffer.fill_full, StreamBuffer.reserve_full]
  simp only
  split
  · exact hrest _ ((StreamBuffer.reserve_full _ _).trans hfull)
  · exact hrest _ hfull

theorem handleAckSegment_safe {acked : Nat} (h : Inv env c) :
    Safe (fun r => Inv env r.1) (c.handleAckSegment env acked) := by
  rw [Connection.handleAckSegment]
  split
  · refine Guarded.bind (breakContact_safe h) ?_
    intro d hd
    exact Guarded.pure hd
  · split
    · exact Guarded.pure h
    · simp only
      split
      · refine Guarded.bind (checkCompleted_safe
          (h.congr rfl rfl rfl rfl rfl rfl rfl h.breaking)) ?_
        intro d hd
        exact Guarded.pure hd
      · exact Guarded.pure (h.congr rfl rfl rfl rfl rfl rfl rfl h.breaking)

theorem handleAckSegments_safe {ackeds : List Nat} (h : Inv env c) :
    Safe (Inv env) (c.handleAckSegments env ackeds) := by
  induction ackeds generalizing c with
  | nil => exact Guarded.pure h
  | cons acked ackeds ih =>
      rw [Connection.handleAckSegments]
      refine Guarded.bind (handleAckSegment_safe h) ?_
      rintro ⟨d, ok⟩ hd
      simp only
      split
      · exact ih hd
      · exact Guarded.pure hd

theorem receive_safe {r : Connection.Received} (h : Inv env c) :
    Safe (Inv env) (c.receive env r) := by
  rw [Connection.receive]
  split
  · exact breakContact_safe h
  · refine Guarded.bind (handleAckSegments_safe h) ?_
    intro d hd
    have hd' : Inv env { d with
        incoming := r.incoming
        ackWindowTodo := r.ackWindowTodo
        params := { d.params with keepaliveInterval := r.keepaliveInterval }
        contactUp := d.contactUp || r.contactUp } :=
      hd.congr rfl rfl rfl rfl rfl rfl rfl hd.breaking
    simp only
    split
    · exact Guarded.pure hd'
    · exact breakContact_safe hd'

theorem handleInput_safe {ev : Connection.PollEvents} (h : Inv env c) :
    Safe (Inv env) (c.handleInput env ev) := by
  rw [Connection.handleInput]
  split
  · exact Guarded.pure h
  · split
    · exact Guarded.pure h
    · refine Guarded.bind (receive_safe h) ?_
      intro d hd
      split
      · rename_i hup
        exact checkKeepalive_safe hd hup.2
      · exact Guarded.pure hd

theorem handleConnected_safe {eid : Bytes} {connected : Bool} (h : Inv env c)
    (hidle : c.pollout = false) (hopen : c.contactBroken = false)
    (heid : headerBytes eid + 4 < 2 ^ 32) :
    Safe (Inv env) (c.handleConnected env eid connected) := by
  rw [Connection.handleConnected]
  split
  · refine initiateContact_safe (h.frame rfl rfl rfl rfl rfl ?_ h.breaking) hopen heid
    intro _ hp
    exact absurd (hidle.symm.trans hp) Bool.false_ne_true
  · exact breakContact_safe h

/-- The thread polls for write readiness only while a packet waits, so there is one to send. -/
theorem handlePollActivity_safe {eid : Bytes} {ev : Connection.PollEvents} (h : Inv env c)
    (hopen : c.contactBroken = false) (heid : headerBytes eid + 4 < 2 ^ 32) :
    Safe (Inv env) (c.handlePollActivity env eid ev) := by
  rw [Connection.handlePollActivity]
  split
  · exact breakContact_safe h
  · split
    · rename_i hready
      have hcleared : Inv env { c with pollout := false } :=
        h.frame rfl rfl rfl rfl rfl (fun _ hp => absurd hp Bool.false_ne_true) h.breaking
      simp only
      split
      · exact handleConnected_safe hcleared rfl hopen heid
      · rename_i hconnected
        have hne := h.polls (by simpa using hconnected) hready.2
        obtain ⟨sent, pending, hq⟩ := hcleared.queued
        have hwaits : pending ≠ [] := by
          rintro rfl
          exact hne hq.delimiters
        refine Guarded.bind (sendData_safe hq hcleared.todo hopen hwaits
          fun _ hp => absurd hp Bool.false_ne_true) ?_
        rintro d ⟨hd, _⟩
        exact handleInput_safe hd
    · exact handleInput_safe h

theorem step_safe {eid : Bytes} {s : Connection.Step} (h : Inv env c)
    (heid : headerBytes eid + 4 < 2 ^ 32) (hroomy : c.RoomyStep env s) :
    Safe (Inv env) (Connection.step env eid c s) := by
  cases s with
  | queueBundle x =>
      exact Guarded.pure (h.congr rfl rfl rfl rfl rfl rfl rfl h.breaking)
  | sendPendingData =>
      rw [Connection.step]
      split
      · exact Guarded.pure h
      · exact sendPendingData_safe h hroomy.1 hroomy.2
  | pollTimeout t =>
      rw [Connection.step]
      split
      · exact Guarded.pure h
      · rename_i hopen
        exact handlePollTimeout_safe h (by simpa using hopen)
  | pollActivity ev =>
      rw [Connection.step]
      split
      · exact Guarded.pure h
      · rename_i hopen
        exact handlePollActivity_safe h (by simpa using hopen) heid
  | cancelBundle id =>
      rw [Connection.step]
      split
      · exact Guarded.pure h
      · exact Guarded.pure (handleCancelBundle_inv h)
  | breakContact =>
      rw [Connection.step]
      split
      · exact Guarded.pure h
      · exact breakContact_safe h

theorem start_safe {eid : Bytes} {opening : Connection.Opening} (h : Inv env c)
    (hopen : c.contactBroken = false) (heid : headerBytes eid + 4 < 2 ^ 32) :
    Safe (Inv env) (c.start env eid opening) := by
  cases opening with
  | accepted => exact initiateContact_safe h hopen heid
  | connected => exact initiateContact_safe h hopen heid
  | inProgress =>
      refine Guarded.pure (h.frame rfl rfl rfl rfl rfl ?_ h.breaking)
      intro hc
      cases hc
  | failed => exact breakContact_safe h

end Steps

/-! ## Runs -/

theorem inv_new (env : Env) (params : SeqpacketLinkParams) (sendbufLen : Nat) (link : LinkRef) :
    Inv env (Connection.new params sendbufLen link) :=
  ⟨rfl, ⟨[], [], ⟨List.Forall₂.nil, rfl, rfl, rfl, by simp⟩⟩,
    fun _ hp => absurd hp Bool.false_ne_true, fun hb => absurd hb Bool.false_ne_true⟩

/-- The life of a connection: its start, and the steps of its thread. -/
def run (env : Env) (eid : Bytes) (c : Connection) (opening : Connection.Opening)
    (steps : List Connection.Step) : Run Connection := do
  let c ← c.start env eid opening
  steps.foldlM (Connection.step env eid) c

/-- In every state of the run, the step that comes next begins no segment or has room for it. -/
def RoomyRun (env : Env) (eid : Bytes) (c : Connection) (opening : Connection.Opening)
    (steps : List Connection.Step) : Prop :=
  ∀ d, c.start env eid opening = .ok d →
    Along (Connection.step env eid) (Connection.RoomyStep env) d steps

instance (env : Env) (eid : Bytes) (c : Connection) (opening : Connection.Opening)
    (steps : List Connection.Step) : Decidable (RoomyRun env eid c opening steps) :=
  inferInstanceAs (Decidable (∀ d, c.start env eid opening = .ok d → _))

section Runs

variable {env : Env} {eid : Bytes} {params : SeqpacketLinkParams} {sendbufLen : Nat}
  {link : LinkRef} {opening : Connection.Opening} {steps : List Connection.Step}

theorem run_safe (heid : headerBytes eid + 4 < 2 ^ 32)
    (hroomy : RoomyRun env eid (Connection.new params sendbufLen link) opening steps) :
    Safe (Inv env) (run env eid (Connection.new params sendbufLen link) opening steps) := by
  have hstart : Safe (Inv env) ((Connection.new params sendbufLen link).start env eid opening) :=
    start_safe (inv_new env params sendbufLen link) rfl heid
  rw [run]
  cases hd : (Connection.new params sendbufLen link).start env eid opening with
  | error e => exact hstart.of_error hd
  | ok d =>
      exact Guarded.run (fun c s h hc => step_safe h heid hc) (hstart.of_ok hd) (hroomy d hd)

/-- In every run that begins no segment without room for it, no `ASSERT` in `send_data` fails, the
delimiters sum to what is in the buffer, and whole messages go out as packets, in their order. -/
theorem packet_boundaries (heid : headerBytes eid + 4 < 2 ^ 32)
    (hroomy : RoomyRun env eid (Connection.new params sendbufLen link) opening steps) :
    Safe (Bounded env) (run env eid (Connection.new params sendbufLen link) opening steps) :=
  (run_safe heid hroomy).mono fun _ h => h.bounded

end Runs

/-! ## A header that is lost -/

namespace LostHeader

/-- Two writes block. Behind the filled part a header of 10 bytes of data is left over. -/
def env : Env where
  os := .plain
  crc := fun _ => 0
  net := fun n => if n = 1 ∨ n = 2 then .wouldBlock else .taken
  stale := fun n => if n = 0 then 0x10 else 10
  clVersion := 4

/-- `dtn:none`. -/
def eid : Bytes := [0x64, 0x74, 0x6e, 0x3a, 0x6e, 0x6f, 0x6e, 0x65]

def params : SeqpacketLinkParams where
  segmentAckEnabled := true
  reactiveFragEnabled := true
  keepaliveInterval := 0
  segmentLength := 10
  ackWindow := 1
  testWriteDelay := 0

def link : LinkRef := ⟨false, [], []⟩

def contactMade : Connection.PollEvents where
  error := false
  writeReady := false
  connected := false
  input := some ⟨[], [], 0, 0, true, none⟩
  keepaliveDue := false

def writable : Connection.PollEvents where
  error := false
  writeReady := true
  connected := false
  input := none
  keepaliveDue := false

/-- A bundle of 29 bytes goes out in segments of 10, 10 and 9 bytes. -/
def steps : List Connection.Step :=
  [.queueBundle (XmitBundle.sample 1), .pollActivity contactMade, .sendPendingData,
    .sendPendingData, .pollActivity writable, .sendPendingData, .pollActivity writable]

end LostHeader

theorem packet_boundaries_sample :
    Safe (Bounded LostHeader.env) (run LostHeader.env LostHeader.eid
      (Connection.new LostHeader.params 40 LostHeader.link) .accepted LostHeader.steps) :=
  packet_boundaries (by decide +kernel) (by decide +kernel)

/-- In a buffer of 30 bytes the last segment goes out under the header of the one in front of it. -/
theorem not_packet_boundaries :
    ¬ ∀ (env : Env) (eid : Bytes) (params : SeqpacketLinkParams) (sendbufLen : Nat)
      (link : LinkRef) (opening : Connection.Opening) (steps : List Connection.Step),
      (∀ n, env.net n = .taken ∨ env.net n = .wouldBlock) →
        Safe (Bounded env) (run env eid (Connection.new params sendbufLen link) opening steps) := by
  intro hall
  have hnet : ∀ n, LostHeader.env.net n = .taken ∨ LostHeader.env.net n = .wouldBlock := by
    intro n
    show (if _ then _ else _) = _ ∨ (if _ then _ else _) = _
    split
    · exact Or.inr rfl
    · exact Or.inl rfl
  have hsafe := hall LostHeader.env LostHeader.eid LostHeader.params 30 LostHeader.link .accepted
    LostHeader.steps hnet
  have hend : ((run LostHeader.env LostHeader.eid
      (Connection.new LostHeader.params 30 LostHeader.link) .accepted
      LostHeader.steps).toOption.map fun c => (c.wire.map List.head?, c.messages.drop 3)) =
      some ([some 0x64, some 0x12, some 0x10, some 0x10], [.segment false true 9]) := by
    decide +kernel
  cases hrun : run LostHeader.env LostHeader.eid
      (Connection.new LostHeader.params 30 LostHeader.link) .accepted LostHeader.steps with
  | error e =>
      rw [hrun] at hend
      cases hend
  | ok c =>
      rw [hrun] at hend
      obtain ⟨hwire, hmessages⟩ := Prod.mk.inj (Option.some.inj hend)
      obtain ⟨payloads, hpackets, hspelled⟩ := (hsafe.of_ok hrun).packets
      have hlen : payloads.length = 4 := by
        have hcount := congrArg List.length hwire
        rwa [hpackets, List.length_map, List.length_map] at hcount
      have hlast := List.forall₂_drop 3 hspelled
      have hfront := congrArg (List.drop 3) hwire
      rw [hpackets, ← List.map_drop, ← List.map_drop] at hfront
      rw [hlen, List.drop_take, hmessages] at hlast
      generalize payloads.drop 3 = last at hlast hfront
      rcases hlast with _ | ⟨⟨data, _, rfl⟩, hnil⟩
      cases hnil
      have hbyte : some (segmentByte false true) = some 0x10 := (List.cons.inj hfront).1
      exact absurd hbyte (by decide)

end Dtn2.SeqpacketConvergenceLayer
