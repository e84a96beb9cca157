import Dtn2.ConvLayers.ReceiveSafety

/-!
# What sending leaves of the receiving side

No function that sends touches the receive buffer or the segment that is coming in. The records of
the bundles that are coming in change only by the acknowledgements that are written for them.
-/

namespace Dtn2.StreamConvergenceLayer

open Framework BundleProtocol Connection

/-- Where it returns, the receiving side is as in `c`. -/
def Frame {α : Type} (c : Connection) (st : α → Connection) (x : Exec α) : Prop :=
  ∀ a, x = .ok a → Keeps c (st a)

section Compose

variable {α β : Type} {c c' : Connection} {st : α → Connection} {st' : β → Connection}

theorem Keeps.broken (hrecvbuf : c'.recvbuf = c.recvbuf) (hsize : c'.sendbuf.size = c.sendbuf.size)
    (hbroken : c'.contactBroken ≠ none) (hincoming : c'.incoming = c.incoming) : Keeps c c' := by
  refine ⟨hrecvbuf, hsize, fun hunbroken => absurd hunbroken hbroken, ?_⟩
  rw [hincoming]
  exact fun y hy => ⟨y, hy, rfl⟩

theorem Frame.ok {a : α} (h : Keeps c (st a)) : Frame c st (.ok a) := by
  intro a' ha
  cases ha
  exact h

theorem Frame.pure {a : α} (h : Keeps c (st a)) : Frame c st (Pure.pure a) := Frame.ok h

theorem Frame.error (s : Stop) : Frame c st (.error s) := by
  intro a ha
  cases ha

theorem Frame.bind {x : Exec α} {f : α → Exec β} (hx : Frame c st x)
    (hf : ∀ a, Frame (st a) st' (f a)) : Frame c st' (x >>= f) := by
  intro b hb
  obtain ⟨a, ha, hb⟩ := Exec.bind_eq_ok.mp hb
  exact (hx a ha).trans (hf a b hb)

theorem Frame.read {x : Exec α} {f : α → Exec β} (hf : ∀ a, Frame c st' (f a)) :
    Frame c st' (x >>= f) := by
  intro b hb
  obtain ⟨a, -, hb⟩ := Exec.bind_eq_ok.mp hb
  exact hf a b hb

theorem Frame.after {x : Exec β} (hkeeps : Keeps c c') (h : Frame c' st' x) : Frame c st' x :=
  fun b hb => hkeeps.trans (h b hb)

end Compose

/-! ## The buffer and the socket -/

section Socket

variable (env : Env) (c : Connection)

theorem put_frame (bs : Bytes) : Frame c id (c.put bs) := by
  intro c' h
  obtain ⟨hfit, rfl⟩ := put_spec h
  exact Keeps.same rfl rfl rfl rfl rfl

theorem breakBroken_keeps : Keeps c c.breakBroken := by
  rw [breakBroken]
  by_cases hbreaking : c.breakingContact = true
  · rw [if_pos hbreaking]
    exact Keeps.refl c
  · rw [if_neg hbreaking]
    exact Keeps.broken rfl rfl (by simp [markBroken]) rfl

theorem sendData_frame : Frame c id (c.sendData env) := by
  rw [sendData]
  apply Frame.read
  intro _
  apply Frame.read
  intro _
  cases env.net c.writes with
  | wrote n =>
      apply Frame.pure
      exact Keeps.same rfl (StreamBuffer.consume_size _ _) rfl rfl rfl
  | closed =>
      apply Frame.pure
      have hwrite : Keeps c { c with writes := c.writes + 1 } :=
        Keeps.same rfl rfl rfl rfl rfl
      exact hwrite.trans (breakBroken_keeps _)

theorem breakContact_frame (reason : Reason) : Frame c id (c.breakContact env reason) := by
  rw [breakContact]
  by_cases hbreaking : c.breakingContact = true
  · rw [if_pos hbreaking]
    exact Frame.pure (Keeps.refl c)
  rw [if_neg hbreaking]
  by_cases hsend : sendsShutdown reason = true ∧ c.sendbuf.fullbytes = 0 ∧ c.sendSegmentTodo = 0
  · rw [if_pos hsend]
    intro c' h
    obtain ⟨d, hput, h⟩ := Exec.bind_eq_ok.mp h
    obtain ⟨d', hdata, h⟩ := Exec.bind_eq_ok.mp h
    cases h
    have hd := put_frame _ _ d hput
    have hd' := hd.trans (sendData_frame env d d' hdata)
    exact {
      recvbuf := hd'.recvbuf
      size := hd'.size
      quiet := fun hunbroken => by cases hunbroken
      incoming := hd'.incoming }
  · rw [if_neg hsend]
    exact Frame.pure (Keeps.broken rfl rfl (by simp [markBroken]) rfl)

end Socket

/-! ## Segments -/

section Segments

variable (env : Env) (c : Connection)

theorem popInflight_frame (p : Nat) : Frame c id (c.popInflight p) := by
  rw [popInflight]
  apply Frame.read
  intro _
  exact Frame.pure (Keeps.same rfl rfl rfl rfl rfl)

theorem checkCompleted_frame (p : Nat) : Frame c id (c.checkCompleted p) := by
  rw [checkCompleted]
  by_cases hcurrent : c.currentInflight = some p
  · rw [if_pos hcurrent]
    exact Frame.pure (Keeps.refl c)
  rw [if_neg hcurrent]
  apply Frame.read
  intro x
  by_cases hacks : c.params.segmentAckEnabled = true
  · rw [if_pos hacks]
    by_cases hwait : u32 x.ackData.numContiguous < x.totalLength
    · rw [if_pos hwait]
      exact Frame.pure (Keeps.refl c)
    · rw [if_neg hwait]
      exact popInflight_frame c p
  · rw [if_neg hacks]
    apply Frame.after _ (popInflight_frame _ p)
    exact Keeps.same rfl rfl rfl rfl rfl

theorem finishBundle_frame (p : Nat) : Frame c id (c.finishBundle p) := by
  rw [finishBundle]
  apply Frame.read
  intro x
  apply Frame.read
  intro _
  apply Frame.read
  intro _
  apply Frame.after _ (checkCompleted_frame _ p)
  exact Keeps.same rfl rfl rfl rfl rfl

theorem sendChunk_frame (p : Nat) : Frame c id (c.sendChunk env p) := by
  rw [sendChunk]
  apply Frame.read
  intro x
  apply Frame.read
  intro r
  apply Frame.read
  intro _
  apply Frame.bind (put_frame c r.1)
  intro d
  dsimp only
  apply Frame.after _ (sendData_frame env _)
  exact Keeps.same rfl rfl rfl rfl rfl

theorem sendLoop_frame (fuel : Nat) (p : Nat) : Frame c Prod.fst (c.sendLoop env fuel p) := by
  induction fuel generalizing c with
  | zero => exact Frame.pure (Keeps.refl c)
  | succ fuel ih =>
      rw [sendLoop]
      by_cases hmore : c.sendSegmentTodo ≠ 0 ∧ c.sendbuf.tailbytes ≠ 0
      · rw [if_pos hmore]
        apply Frame.bind (sendChunk_frame env c p)
        intro d
        by_cases hbroken : d.contactBroken ≠ none
        · rw [if_pos hbroken]
          exact Frame.pure (Keeps.refl d)
        rw [if_neg hbroken]
        by_cases hdelay : d.params.testWriteDelay ≠ 0
        · rw [if_pos hdelay]
          exact Frame.pure (Keeps.refl d)
        · rw [if_neg hdelay]
          exact ih d
      · rw [if_neg hmore]
        exact Frame.pure (Keeps.refl c)

theorem sendDataTodo_frame (p : Nat) : Frame c Prod.fst (c.sendDataTodo env p) := by
  rw [sendDataTodo]
  apply Frame.read
  intro _
  exact sendLoop_frame env c _ p

theorem sendNextSegment_frame (p : Nat) : Frame c Prod.fst (c.sendNextSegment env p) := by
  rw [sendNextSegment]
  by_cases htail : c.sendbuf.tailbytes = 0
  · rw [if_pos htail]
    exact Frame.pure (Keeps.refl c)
  rw [if_neg htail]
  apply Frame.read
  intro _
  apply Frame.read
  intro x
  by_cases hsent : x.bytesSent = x.totalLength
  · rw [if_pos hsent]
    apply Frame.read
    intro _
    apply Frame.bind (finishBundle_frame c p)
    intro d
    exact Frame.pure (Keeps.refl d)
  rw [if_neg hsent]
  generalize c.nextSegment x = r
  obtain ⟨last, len⟩ := r
  dsimp only
  by_cases hroom : c.sendbuf.tailbytes < 1 + SDNV.encodingLen (UInt64.ofNat len)
  · rw [if_pos hroom]
    exact Frame.pure (Keeps.refl c)
  · rw [if_neg hroom]
    apply Frame.bind (put_frame c _)
    intro d
    apply Frame.after _ (sendDataTodo_frame env _ p)
    exact Keeps.same rfl rfl rfl rfl rfl

theorem startNextBundle_frame : Frame c Prod.fst (c.startNextBundle env) := by
  rw [startNextBundle]
  apply Frame.read
  intro _
  by_cases hdown : c.contactUp = false
  · rw [if_pos hdown]
    exact Frame.pure (Keeps.refl c)
  rw [if_neg hdown]
  cases c.link.queue with
  | nil => exact Frame.pure (Keeps.refl c)
  | cons x queue =>
      have htake : Frame c id (c.takeBundle x queue) := by
        rw [takeBundle]
        apply Frame.read
        intro _
        exact Frame.pure (Keeps.same rfl rfl rfl rfl rfl)
      apply Frame.bind htake
      intro d
      exact sendNextSegment_frame env d c.entries

end Segments

/-! ## Acknowledgements -/

section Acks

variable (env : Env) (c : Connection)

theorem keeps_acked (y : IncomingBundle) (rest : List IncomingBundle) (i : Nat) :
    Keeps { c with incoming := y :: rest } { c with incoming := ackedRecord y i :: rest } := by
  refine ⟨rfl, rfl, fun hunbroken => ⟨hunbroken, rfl⟩, ?_⟩
  cases rest with
  | nil =>
      intro z hz
      cases hz
      exact ⟨y, rfl, rfl⟩
  | cons r rest => exact fun z hz => ⟨z, hz, rfl⟩

theorem ackLoop_frame (rest : List IncomingBundle) (fuel : Nat) (y : IncomingBundle) :
    Frame { c with incoming := y :: rest } (fun r => { r.1 with incoming := r.2.1 :: rest })
      (c.ackLoop fuel y) := by
  induction fuel generalizing c y with
  | zero => exact Frame.pure (Keeps.refl _)
  | succ fuel ih =>
      rw [ackLoop]
      cases y.ackData.first with
      | none => exact Frame.pure (Keeps.refl _)
      | some i =>
          dsimp only
          by_cases hrcvd : y.rcvdData.numContiguous < u32 (i + 1)
          · rw [if_pos hrcvd]
            exact Frame.pure (Keeps.refl _)
          rw [if_neg hrcvd]
          have hacked := keeps_acked c y rest i
          by_cases hplain : c.params.segmentAckEnabled = false
          · rw [if_pos hplain]
            exact Frame.after hacked (ih c (ackedRecord y i))
          rw [if_neg hplain]
          by_cases hroom : c.sendbuf.tailbytes < 1 + SDNV.encodingLen (UInt64.ofNat (u32 (i + 1)))
          · rw [if_pos hroom]
            exact Frame.pure (Keeps.refl _)
          · rw [if_neg hroom]
            have hput : Frame { c with incoming := y :: rest }
                (fun d => { d with incoming := ackedRecord y i :: rest })
                (c.put (lengthMessage ackSegment (u32 (i + 1)))) := by
              intro d hd
              obtain ⟨hfit, rfl⟩ := put_spec hd
              exact hacked.trans (Keeps.same rfl rfl rfl rfl rfl)
            apply Frame.bind hput
            intro d
            apply Frame.bind (ih d (ackedRecord y i))
            intro r
            exact Frame.pure (Keeps.refl _)

theorem sendAcks_frame {y : IncomingBundle} {rest : List IncomingBundle}
    (hincoming : c.incoming = y :: rest) : Frame c Prod.fst (c.sendAcks env y rest) := by
  have hself : Keeps c { c with incoming := y :: rest } :=
    Keeps.same rfl rfl rfl rfl hincoming.symm
  rw [sendAcks]
  by_cases hnone : y.ackData = ∅ ∨ y.rcvdData = ∅
  · rw [if_pos hnone]
    exact Frame.pure (Keeps.refl c)
  rw [if_neg hnone]
  apply Frame.bind (Frame.after hself (ackLoop_frame c rest y.ackData.card y))
  intro r
  obtain ⟨d, y', generated⟩ := r
  cases generated with
  | true =>
      dsimp only
      rw [if_pos rfl]
      apply Frame.bind (sendData_frame env _)
      intro d'
      exact Frame.pure (Keeps.refl d')
  | false =>
      dsimp only
      rw [if_neg Bool.false_ne_true]
      exact Frame.pure (Keeps.refl _)

theorem checkDone_keeps : Keeps c c.checkDone := by
  rw [checkDone]
  cases hincoming : c.incoming with
  | nil => exact Keeps.refl c
  | cons y rest =>
      dsimp only
      by_cases hdone : y.totalLength ≠ 0 ∧ y.totalLength = y.ackedLength
      · rw [if_pos hdone]
        refine ⟨rfl, rfl, fun hunbroken => ⟨hunbroken, rfl⟩, ?_⟩
        rw [hincoming]
        cases rest with
        | nil =>
            intro z hz
            cases hz
        | cons r rest => exact fun z hz => ⟨z, hz, rfl⟩
      · rw [if_neg hdone]
        exact Keeps.refl c

theorem sendPendingAcks_frame : Frame c Prod.fst (c.sendPendingAcks env) := by
  rw [sendPendingAcks]
  by_cases hbroken : c.contactBroken ≠ none
  · rw [if_pos hbroken]
    exact Frame.pure (Keeps.refl c)
  rw [if_neg hbroken]
  cases hincoming : c.incoming with
  | nil => exact Frame.pure (Keeps.refl c)
  | cons y rest =>
      apply Frame.bind (sendAcks_frame env c hincoming)
      intro r
      exact Frame.pure (checkDone_keeps r.1)

end Acks

/-! ## The entry points -/

section Entry

variable (env : Env) (c : Connection)

theorem continueSegment_frame : Frame c id (c.continueSegment env) := by
  rw [continueSegment]
  by_cases htodo : c.sendSegmentTodo = 0
  · rw [if_pos htodo]
    exact Frame.pure (Keeps.refl c)
  rw [if_neg htodo]
  cases c.currentInflight with
  | none => exact Frame.error _
  | some p =>
      apply Frame.bind (sendDataTodo_frame env c p)
      intro r
      exact Frame.pure (Keeps.refl r.1)

theorem sendSegment_frame : Frame c Prod.fst (c.sendSegment env) := by
  rw [sendSegment]
  cases c.currentInflight with
  | none => exact startNextBundle_frame env c
  | some p => exact sendNextSegment_frame env c p

theorem sendPendingData_frame : Frame c Prod.fst (c.sendPendingData env) := by
  rw [sendPendingData]
  by_cases htail : c.sendbuf.tailbytes = 0
  · rw [if_pos htail]
    exact Frame.pure (Keeps.refl c)
  rw [if_neg htail]
  apply Frame.bind (continueSegment_frame env c)
  intro d
  by_cases hstop : d.contactBroken ≠ none ∨ d.sendSegmentTodo ≠ 0
  · rw [id, if_pos hstop]
    exact Frame.pure (Keeps.refl d)
  rw [id, if_neg hstop]
  apply Frame.bind (sendPendingAcks_frame env d)
  intro r
  obtain ⟨d', sentAck⟩ := r
  dsimp only
  by_cases hbroken : d'.contactBroken ≠ none
  · rw [if_pos hbroken]
    exact Frame.pure (Keeps.refl d')
  · rw [if_neg hbroken]
    apply Frame.bind (sendSegment_frame env d')
    intro r
    exact Frame.pure (Keeps.refl r.1)

theorem checkKeepalive_frame (due : Bool) : Frame c id (c.checkKeepalive env due) := by
  have hsend : Frame c id (c.sendKeepalive env) := by
    rw [sendKeepalive]
    by_cases hfull : c.sendbuf.fullbytes ≠ 0
    · rw [if_pos hfull]
      exact Frame.pure (Keeps.refl c)
    · rw [if_neg hfull]
      apply Frame.read
      intro _
      apply Frame.read
      intro _
      apply Frame.bind (put_frame c [keepalive])
      intro d
      exact sendData_frame env d
  rw [checkKeepalive]
  by_cases hdue : c.params.keepaliveInterval ≠ 0 ∧ due = true
  · rw [if_pos hdue]
    by_cases htodo : c.sendSegmentTodo ≠ 0
    · rw [if_pos htodo]
      exact Frame.pure (Keeps.refl c)
    · rw [if_neg htodo]
      exact hsend
  · rw [if_neg hdue]
    exact Frame.pure (Keeps.refl c)

theorem handlePollTimeout_frame (t : Timers) : Frame c id (c.handlePollTimeout env t) := by
  rw [handlePollTimeout]
  by_cases hsilent : 0 < c.params.keepaliveInterval ∧ t.dataTimeout = true
  · rw [if_pos hsilent]
    exact breakContact_frame env c .broken
  rw [if_neg hsilent]
  by_cases hidle : t.idle = true
  · rw [if_pos hidle]
    exact breakContact_frame env c .idle
  · rw [if_neg hidle]
    exact checkKeepalive_frame env c t.keepaliveDue

theorem handleCancelBundle_keeps (id : Nat) : Keeps c (c.handleCancelBundle id) := by
  rw [handleCancelBundle]
  cases c.inflight.find? fun x => x.xmit.bundleid = id with
  | none => exact Keeps.refl c
  | some x =>
      dsimp only
      by_cases hsent : x.sentData ≠ ∅
      · rw [if_pos hsent]
        exact Keeps.refl c
      rw [if_neg hsent]
      by_cases hbusy : c.currentInflight = some x.entry ∧ c.sendSegmentTodo ≠ 0
      · rw [if_pos hbusy]
        exact Keeps.refl c
      · rw [if_neg hbusy]
        exact Keeps.same rfl rfl rfl rfl rfl

theorem react_frame {e : Event} (he : ∀ chunk, e ≠ .receive chunk) : Frame c id (c.react env e) := by
  cases e with
  | queueBundle x => exact Frame.pure (Keeps.same rfl rfl rfl rfl rfl)
  | sendPendingData =>
      apply Frame.bind (sendPendingData_frame env c)
      intro r
      exact Frame.pure (Keeps.refl r.1)
  | writeReady =>
      rw [react]
      by_cases hempty : c.sendbuf.fullbytes = 0
      · rw [if_pos hempty]
        exact Frame.pure (Keeps.refl c)
      · rw [if_neg hempty]
        exact sendData_frame env c
  | receive chunk => exact absurd rfl (he chunk)
  | cancelBundle id => exact Frame.pure (handleCancelBundle_keeps c id)
  | pollTimeout t => exact handlePollTimeout_frame env c t
  | checkKeepalive due => exact checkKeepalive_frame env c due
  | breakContact reason => exact breakContact_frame env c reason

end Entry

end Dtn2.StreamConvergenceLayer
