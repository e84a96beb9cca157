import Dtn2.ConvLayers.StreamRuns

/-!
# The steps of the run loop

The functions that receive are rows of moves where they return, and so is every reaction of the
run loop. An invariant of the moves that also survives the queueing of a bundle therefore holds in
every state of every run.
-/

namespace Dtn2.StreamConvergenceLayer

open Framework BundleProtocol InFlightBundle Connection

/-! ## What is assumed of the inputs -/

def goesOn : Option (Exec (Connection × Bool)) → Option Connection
  | some (.ok (c, true)) => some c
  | _ => none

/-- The acknowledgements among the messages the loop takes come in states with `A`. -/
def LoopMeets (env : Env) (A : Input → Connection → Prop) : Nat → Connection → Prop
  | 0, _ => True
  | fuel + 1, c =>
      ∀ b ∈ c.recvbuf.full.head?, c.contactBroken = none →
        (b &&& 0xf0 = ackSegment → A .ack c) ∧
          ∀ c' ∈ goesOn (c.handle env (b &&& 0xf0) (b &&& 0x0f)), LoopMeets env A fuel c'

/-- So do those that `process_data` takes. -/
def DataMeets (env : Env) (A : Input → Connection → Prop) (c : Connection) : Prop :=
  c.contactUp = true →
    if c.recvSegmentTodo = 0 then LoopMeets env A (c.recvbuf.fullbytes + 1) c
    else ∀ c' ∈ goesOn (some (c.handleDataTodo env)), LoopMeets env A (c'.recvbuf.fullbytes + 1) c'

/-- The inputs that come with an event come in states with `A`. -/
def Meets (env : Env) (A : Input → Connection → Prop) (c : Connection) : Event → Prop
  | .receive chunk => ∀ h : chunk.length ≤ c.recvbuf.tailbytes,
      DataMeets env A { c with recvbuf := c.recvbuf.fill chunk h }
  | .cancelBundle id => A (.cancel id) c
  | _ => True

/-- All inputs of a run come in states with `A`. -/
def RunMeets (env : Env) (A : Input → Connection → Prop) : Connection → List Event → Prop
  | _, [] => True
  | c, e :: es =>
      (c.contactBroken = none → Meets env A c e) ∧
        ∀ c' ∈ (c.step env e).toOption, RunMeets env A c' es

section Decide

variable (env : Env) (A : Input → Connection → Prop) [∀ i c, Decidable (A i c)]

instance decidableLoopMeets : ∀ fuel c, Decidable (LoopMeets env A fuel c)
  | 0, _ => inferInstanceAs (Decidable True)
  | fuel + 1, c =>
      have : DecidablePred (LoopMeets env A fuel) := decidableLoopMeets fuel
      inferInstanceAs (Decidable (∀ b ∈ c.recvbuf.full.head?, c.contactBroken = none →
        (b &&& 0xf0 = ackSegment → A .ack c) ∧
          ∀ c' ∈ goesOn (c.handle env (b &&& 0xf0) (b &&& 0x0f)), LoopMeets env A fuel c'))

instance (c : Connection) : Decidable (DataMeets env A c) := by
  unfold DataMeets
  infer_instance

instance (c : Connection) : (e : Event) → Decidable (Meets env A c e)
  | .receive chunk => inferInstanceAs (Decidable (∀ h : chunk.length ≤ c.recvbuf.tailbytes,
      DataMeets env A { c with recvbuf := c.recvbuf.fill chunk h }))
  | .cancelBundle id => inferInstanceAs (Decidable (A (.cancel id) c))
  | .queueBundle _ | .sendPendingData | .writeReady | .pollTimeout _ | .checkKeepalive _
  | .breakContact _ => inferInstanceAs (Decidable True)

instance decidableRunMeets : ∀ c es, Decidable (RunMeets env A c es)
  | _, [] => inferInstanceAs (Decidable True)
  | c, e :: es =>
      have : DecidablePred fun c => RunMeets env A c es := fun c => decidableRunMeets c es
      inferInstanceAs (Decidable ((c.contactBroken = none → Meets env A c e) ∧
        ∀ c' ∈ (c.step env e).toOption, RunMeets env A c' es))

end Decide

/-! ## The handlers -/

section Handlers

variable {env : Env} {A : Input → Connection → Prop} {c c' : Connection} {ok : Bool}

theorem protocolError_moves (hup : c.contactBroken = none)
    (h : c.protocolError env = .ok (c', ok)) : Moves env A c c' ∧ ok = false := by
  rw [protocolError] at h
  obtain ⟨d, hbreak, hd⟩ := Exec.bind_eq_ok.mp h
  cases hd
  exact ⟨(breakContact_runs env hup .clError).moves hbreak, rfl⟩

theorem openIncoming_moves {b : UInt8} {t : Bytes} (hcontact : c.contactUp = true)
    (hbyte : c.recvbuf.full = b :: t) (htype : b &&& 0xf0 = dataSegment)
    (htodo : c.recvSegmentTodo = 0) (hup : c.contactBroken = none)
    (h : c.openIncoming env (b &&& 0x0f) = .ok (c', ok)) :
    Moves env A c c' ∧ (ok = true → c'.contactUp = true ∧ c'.contactBroken = none ∧
      c'.recvbuf = c.recvbuf ∧ c'.recvSegmentTodo = 0 ∧ ∃ y, c'.incoming.getLast? = some y ∧
        (b &&& 0x0f &&& bundleStart ≠ 0 → y.rcvdData = ∅ ∧ y.ackData = ∅)) := by
  rw [openIncoming] at h
  cases hlast : c.incoming.getLast? with
  | none =>
      rw [hlast] at h
      dsimp only at h
      split at h
      · rename_i hstart
        cases h
        refine ⟨Move.one (Move.incomingOpened b t hcontact hbyte htype hstart htodo
          (fun y hy => by rw [hlast] at hy; cases hy)), fun _ => ⟨hcontact, hup, rfl, htodo, _,
            List.getLast?_concat, fun _ => ⟨rfl, rfl⟩⟩⟩
      · obtain ⟨hmoves, hfalse⟩ := protocolError_moves hup h
        exact ⟨hmoves, fun hok => by rw [hok] at hfalse; cases hfalse⟩
  | some y =>
      rw [hlast] at h
      dsimp only at h
      split at h
      · rename_i hstart
        cases h
        exact ⟨Moves.nil env c, fun _ => ⟨hcontact, hup, rfl, htodo, y, hlast,
          fun hne => absurd hstart hne⟩⟩
      rename_i hstart
      split at h
      · rename_i hempty
        cases h
        exact ⟨Moves.nil env c, fun _ => ⟨hcontact, hup, rfl, htodo, y, hlast, fun _ => hempty⟩⟩
      rename_i hempty
      split at h
      · obtain ⟨hmoves, hfalse⟩ := protocolError_moves hup h
        exact ⟨hmoves, fun hok => by rw [hok] at hfalse; cases hfalse⟩
      · rename_i htotal
        cases h
        refine ⟨Move.one (Move.incomingOpened b t hcontact hbyte htype hstart htodo ?_),
          fun _ => ⟨hcontact, hup, rfl, htodo, _, List.getLast?_concat, fun _ => ⟨rfl, rfl⟩⟩⟩
        intro z hz
        rw [hlast] at hz
        cases hz
        exact ⟨hempty, htotal⟩

theorem setLastIncoming_chunkState (c : Connection) (y z : IncomingBundle) (len : Nat) :
    (c.chunkState y len).setLastIncoming z = c.chunkState z len := by
  simp [chunkState, setLastIncoming]

theorem checkCompletedIncoming_moves {y : IncomingBundle} {bundle : Bundle} {len : Nat}
    (hparsed : ChunkParsed env c y bundle len) (hlast : c.recvSegmentTodo - len = 0)
    (hup : c.contactBroken = none)
    (h : (c.chunkState (chunkRecord y bundle len) len).checkCompletedIncoming env
      (chunkRecord y bundle len) = .ok c') :
    Moves env A c c' ∧ c'.recvSegmentTodo = 0 ∧ c'.contactUp = c.contactUp := by
  rw [checkCompletedIncoming] at h
  split at h
  · rename_i hzero
    cases h
    exact ⟨Move.one (Move.chunkTaken y bundle len hparsed (Or.inr (Or.inl hzero))), hlast, rfl⟩
  rename_i hnonzero
  split at h
  · rename_i hwait
    cases h
    exact ⟨Move.one (Move.chunkTaken y bundle len hparsed (Or.inr (Or.inr hwait))), hlast, rfl⟩
  rename_i hwait
  have hnot : ¬ Waiting (chunkRecord y bundle len) := by
    rintro (hw | hw)
    · exact hnonzero hw
    · exact hwait hw
  split at h
  · rename_i hspoiled
    have hincomplete : ¬ Complete (chunkRecord y bundle len) := by
      rintro ⟨-, hrcvd, hformat⟩
      rcases hspoiled with hs | hs
      · omega
      · exact hs hformat
    rw [setLastIncoming_chunkState] at h
    have hmove : Move env A c _ := Move.chunkSpoiled y bundle len hparsed hlast hnot hincomplete
    rcases breakContact_spec (c := c.chunkState { chunkRecord y bundle len with rcvdData := ∅ } len)
      env hup .clError with ⟨d, hbreak, hmoves, p, w, n, r, k, heq⟩ | ⟨hbreak, -⟩
    · rw [hbreak] at h
      cases h
      rw [heq] at hmoves ⊢
      exact ⟨(Move.one hmove).trans hmoves, hlast, rfl⟩
    · rw [hbreak] at h
      cases h
  · rename_i hfine
    rw [not_or, not_not] at hfine
    cases h
    have hcomplete : Complete (chunkRecord y bundle len) := ⟨hnonzero, by omega, hfine.2⟩
    exact ⟨Move.one (Move.chunkDelivered y bundle len hparsed hlast hcomplete), hlast, rfl⟩

theorem handleDataTodo_moves (hup : c.contactBroken = none)
    (h : c.handleDataTodo env = .ok (c', ok)) :
    Moves env A c c' ∧ (ok = true → c'.recvSegmentTodo = 0 ∧ c'.contactUp = c.contactUp) := by
  rw [handleDataTodo] at h
  cases hlast : c.incoming.getLast? with
  | none =>
      rw [hlast] at h
      cases h
  | some y =>
      rw [hlast] at h
      dsimp only at h
      obtain ⟨_, htodo, h⟩ := Exec.bind_eq_ok.mp h
      rw [assertThat_eq_ok] at htodo
      split at h
      · cases h
        exact ⟨Moves.nil env c, fun hok => by cases hok⟩
      rename_i hfull
      have herr : ∀ {d : Connection} {b : Bool}, c.protocolError env = .ok (d, b) →
          Moves env A c d ∧ (b = true → d.recvSegmentTodo = 0 ∧ d.contactUp = c.contactUp) := by
        intro d b hd
        obtain ⟨hmoves, hfalse⟩ := protocolError_moves hup hd
        exact ⟨hmoves, fun hb => by rw [hb] at hfalse; cases hfalse⟩
      cases hconsume : consume env.params env.os y.bundle
          (c.recvbuf.full.take c.recvSegmentTodo) with
      | error e =>
          rw [hconsume] at h
          cases e with
          | protocolError => exact herr h
          | fault f => cases h
      | ok r =>
          obtain ⟨bundle, cc, last⟩ := r
          rw [hconsume, takeChunk] at h
          split at h
          · exact herr h
          rename_i hcc
          obtain ⟨_, hassert, h⟩ := Exec.bind_eq_ok.mp h
          rw [assertThat_eq_ok] at hassert
          have hpos : (c.recvbuf.full.take c.recvSegmentTodo).length ≠ 0 := by
            rw [StreamBuffer.fullbytes] at hfull
            rw [List.length_take]
            omega
          have hparsed : ChunkParsed env c y bundle
              (c.recvbuf.full.take c.recvSegmentTodo).length :=
            ⟨hlast, htodo, rfl, hpos, ⟨last, by rw [hconsume, hassert]⟩, by omega⟩
          dsimp only at h
          split at h
          · rename_i hdone
            obtain ⟨d, hcheck, hd⟩ := Exec.bind_eq_ok.mp h
            cases hd
            obtain ⟨hmoves, hzero, hcontact⟩ :=
              checkCompletedIncoming_moves hparsed hdone hup hcheck
            exact ⟨hmoves, fun _ => ⟨hzero, hcontact⟩⟩
          · rename_i hmore
            cases h
            exact ⟨Move.one (Move.chunkTaken y bundle _ hparsed (Or.inl hmore)),
              fun hok => by cases hok⟩

theorem handleDataSegment_moves {b : UInt8} {t : Bytes} (hcontact : c.contactUp = true)
    (hbyte : c.recvbuf.full = b :: t) (htype : b &&& 0xf0 = dataSegment)
    (htodo : c.recvSegmentTodo = 0) (hup : c.contactBroken = none)
    (h : c.handleDataSegment env (b &&& 0x0f) = .ok (c', ok)) :
    Moves env A c c' ∧ (ok = true → c'.recvSegmentTodo = 0 ∧ c'.contactUp = true) := by
  rw [handleDataSegment] at h
  obtain ⟨⟨d, found⟩, hopen, h⟩ := Exec.bind_eq_ok.mp h
  obtain ⟨hmoves, hfound⟩ := openIncoming_moves (A := A) hcontact hbyte htype htodo hup hopen
  dsimp only at h
  cases found with
  | false =>
      cases h
      exact ⟨hmoves, fun hok => by cases hok⟩
  | true =>
      obtain ⟨hcontact', hup', hbuf, htodo', y, hlast, hstart⟩ := hfound rfl
      rw [if_pos rfl, readSegment, hlast] at h
      cases hdecode : SDNV.decode32 (d.recvbuf.full.drop 1) with
      | none =>
          rw [hdecode] at h
          cases h
          exact ⟨hmoves, fun hok => by cases hok⟩
      | some r =>
          obtain ⟨n, len⟩ := r
          rw [hdecode] at h
          dsimp only at h
          have hheader : Header d dataSegment b n len := ⟨⟨t, by rw [hbuf, hbyte]⟩, htype, hdecode⟩
          split at h
          · rename_i hzero
            subst hzero
            obtain ⟨herr, hfalse⟩ := protocolError_moves (c := d.skip (1 + n)) hup' h
            exact ⟨(hmoves.trans (Move.one (Move.zeroSegment b n hheader htodo'))).trans herr,
              fun hok => by rw [hok] at hfalse; cases hfalse⟩
          · rename_i hlen
            have hbegin : Move env A d _ :=
              Move.segmentBegun b n len y hcontact' hheader hlen hlast htodo' hstart
            obtain ⟨hchunk, hok⟩ := handleDataTodo_moves
              (c := (d.skip (1 + n)).beginSegment y (b &&& 0x0f) len) hup' h
            exact ⟨(hmoves.trans (Move.one hbegin)).trans hchunk,
              fun hb => ⟨(hok hb).1, (hok hb).2.trans hcontact'⟩⟩

private theorem checkCompleted_current {d : Connection} {p : Nat}
    (hcurrent : d.currentInflight = some p) : d.checkCompleted p = .ok d := by
  rw [checkCompleted, if_pos hcurrent]
  rfl

private theorem checkCompleted_front {d : Connection} {y : InFlightBundle}
    {rest : List InFlightBundle} {p : Nat} (hd : d.inflight = y :: rest) (hp : y.entry = p)
    (hcurrent : d.currentInflight ≠ some p) (hacks : d.params.segmentAckEnabled = true)
    (hacked : ¬ u32 y.ackData.numContiguous < y.totalLength) :
    d.checkCompleted p = .ok { d with inflight := rest } := by
  have hderef : d.deref p = .ok y := by
    rw [deref, hd, List.find?_cons_of_pos (by simpa using hp)]
    rfl
  rw [checkCompleted, if_neg hcurrent, hderef, Exec.ok_bind, if_pos hacks, if_neg hacked,
    popInflight_cons hd hp]

private theorem acceptAck_final (hinv : SendInv c) {b : UInt8} {n : Nat} {x : InFlightBundle}
    {rest : List InFlightBundle} (hcontact : c.contactUp = true)
    (hheader : Header c ackSegment b n x.totalLength) (hinflight : c.inflight = x :: rest)
    (hlow : ackBegin x ≤ x.totalLength) (htodo : c.recvSegmentTodo = 0) (hA : A .ack c)
    (h : (c.skip (1 + n)).acceptAck x rest x.totalLength = .ok c') :
    Moves env A c c' ∧ c'.recvSegmentTodo = 0 ∧ c'.contactUp = true := by
  have hx := hinv.sound x (by rw [hinflight]; simp)
  have hacked := hx.acked_acknowledge x.totalLength
  have hlt : (x.acknowledge x.totalLength).acked < 2 ^ 32 := by
    have := hinv.acks x (by rw [hinflight]; simp)
    have := hheader.length_lt
    omega
  have hstate : (c.skip (1 + n)).finalAck (x.acknowledge x.totalLength) rest =
      { c.skip (1 + n) with
        inflight := { x.acknowledge x.totalLength with transmitEventPosted := true } :: rest
        posted := c.posted ++ [.transmitted x.entry x.xmit.bundleid x.sent
          (x.acknowledge x.totalLength).acked] } := by
    rw [finalAck, (hx.acknowledge x.totalLength).numContiguous_sent,
      (hx.acknowledge x.totalLength).numContiguous_acked]
    rfl
  have hcheck : ((c.skip (1 + n)).finalAck (x.acknowledge x.totalLength) rest).checkCompleted
      x.entry = .ok c' := by
    rw [acceptAck] at h
    exact (if_pos rfl).symm.trans h
  rw [hstate] at hcheck
  by_cases hcurrent : c.currentInflight = some x.entry
  · rw [checkCompleted_current (by exact hcurrent)] at hcheck
    cases hcheck
    exact ⟨Move.one (Move.ackFinal b n x rest hcontact hheader hinflight hlow hcurrent htodo hA),
      htodo, hcontact⟩
  · obtain ⟨fin, cur, hshape⟩ := hinv.shape
    have hacks : c.params.segmentAckEnabled = true := by
      cases hplain : c.params.segmentAckEnabled with
      | true => rfl
      | false =>
          have hnil := hshape.plain hplain
          have hlist := hinflight.symm.trans hshape.inflight
          rw [hnil, List.nil_append] at hlist
          cases cur with
          | none => cases hlist
          | some z =>
              cases hlist
              exact absurd hshape.current_some hcurrent
    have hfull : ¬ u32 (x.acknowledge x.totalLength).ackData.numContiguous < x.totalLength := by
      rw [(hx.acknowledge x.totalLength).numContiguous_acked, u32_of_lt hlt]
      omega
    rw [checkCompleted_front (by rfl) (by rfl) (by exact hcurrent) (by exact hacks)
      (by exact hfull)] at hcheck
    cases hcheck
    exact ⟨Move.one (Move.ackFinalDone b n x rest hcontact hheader hinflight hlow hcurrent htodo
      hA), htodo, hcontact⟩

theorem handleAckSegment_moves (hinv : SendInv c) {b : UInt8} {t : Bytes}
    (hcontact : c.contactUp = true) (hbyte : c.recvbuf.full = b :: t)
    (htype : b &&& 0xf0 = ackSegment) (htodo : c.recvSegmentTodo = 0)
    (hup : c.contactBroken = none) (hA : A .ack c) (h : c.handleAckSegment env = .ok (c', ok)) :
    Moves env A c c' ∧ (ok = true → c'.recvSegmentTodo = 0 ∧ c'.contactUp = true) := by
  rw [handleAckSegment] at h
  cases hdecode : SDNV.decode32 (c.recvbuf.full.drop 1) with
  | none =>
      rw [hdecode] at h
      cases h
      exact ⟨Moves.nil env c, fun hok => by cases hok⟩
  | some r =>
      obtain ⟨n, acked⟩ := r
      have hheader : Header c ackSegment b n acked := ⟨⟨t, hbyte⟩, htype, hdecode⟩
      rw [hdecode] at h
      dsimp only at h
      have hstray : (∀ x, c.inflight.head? = some x → acked < ackBegin x) →
          (c.skip (1 + n)).protocolError env = .ok (c', ok) →
          Moves env A c c' ∧ (ok = true → c'.recvSegmentTodo = 0 ∧ c'.contactUp = true) := by
        intro hnone herr
        obtain ⟨hmoves, hfalse⟩ := protocolError_moves (c := c.skip (1 + n)) hup herr
        exact ⟨(Move.one (Move.strayAck b n acked hheader hnone htodo)).trans hmoves,
          fun hok => by rw [hok] at hfalse; cases hfalse⟩
      cases hinflight : c.inflight with
      | nil =>
          rw [hinflight] at h
          apply hstray _ h
          intro x hx
          rw [hinflight] at hx
          cases hx
      | cons x rest =>
          rw [hinflight] at h
          dsimp only at h
          split at h
          · rename_i hlow
            apply hstray _ h
            intro z hz
            rw [hinflight] at hz
            cases hz
            exact hlow
          rename_i hlow
          rw [not_lt] at hlow
          obtain ⟨d, haccept, hd⟩ := Exec.bind_eq_ok.mp h
          cases hd
          by_cases hfinal : acked = x.totalLength
          · subst hfinal
            obtain ⟨hmoves, hrest⟩ :=
              acceptAck_final hinv hcontact hheader hinflight hlow htodo hA haccept
            exact ⟨hmoves, fun _ => hrest⟩
          · rw [acceptAck] at haccept
            dsimp only at haccept
            rw [if_neg hfinal] at haccept
            cases haccept
            exact ⟨Move.one (Move.ackPart b n acked x rest hcontact hheader hinflight hlow hfinal
              htodo hA), fun _ => ⟨htodo, hcontact⟩⟩

theorem handle_moves (hinv : SendInv c) {b : UInt8} {t : Bytes} {result : Exec (Connection × Bool)}
    (hcontact : c.contactUp = true) (hbyte : c.recvbuf.full = b :: t)
    (htodo : c.recvSegmentTodo = 0) (hup : c.contactBroken = none)
    (hA : b &&& 0xf0 = ackSegment → A .ack c)
    (hresult : c.handle env (b &&& 0xf0) (b &&& 0x0f) = some result) (h : result = .ok (c', ok)) :
    Moves env A c c' ∧ (ok = true → c'.recvSegmentTodo = 0 ∧ c'.contactUp = true) := by
  subst h
  rw [handle] at hresult
  split at hresult
  · rename_i htype
    exact handleDataSegment_moves hcontact hbyte htype htodo hup (Option.some.inj hresult)
  split at hresult
  · rename_i htype
    exact handleAckSegment_moves hinv hcontact hbyte htype htodo hup (hA htype)
      (Option.some.inj hresult)
  split at hresult
  · obtain ⟨d, hbreak, hd⟩ := Exec.bind_eq_ok.mp (Option.some.inj hresult)
    cases hd
    rcases breakContact_spec env hup .clError with
      ⟨d', hbreak', hmoves, p, w, n, r, k, heq⟩ | ⟨hbreak', -⟩
    · rw [hbreak'] at hbreak
      cases hbreak
      rw [heq] at hmoves ⊢
      exact ⟨hmoves, fun _ => ⟨htodo, hcontact⟩⟩
    · rw [hbreak'] at hbreak
      cases hbreak
  split at hresult
  · rename_i htype
    cases Option.some.inj hresult
    exact ⟨Move.one (Move.keepaliveTaken b t hbyte htype htodo), fun _ => ⟨htodo, hcontact⟩⟩
  split at hresult
  · rename_i htype
    have hshut := Option.some.inj hresult
    rw [handleShutdown] at hshut
    split at hshut
    · cases hshut
      exact ⟨Moves.nil env c, fun hok => by cases hok⟩
    · rename_i hlen
      rw [not_lt] at hlen
      obtain ⟨d, hbreak, hd⟩ := Exec.bind_eq_ok.mp hshut
      cases hd
      have hmoves : Moves env A _ _ := (breakContact_runs
        (c := c.skip (shutdownLength (b &&& 0x0f))) env hup .shutdown).moves hbreak
      exact ⟨(Move.one (Move.shutdownTaken b t hbyte htype htodo hlen)).trans hmoves,
        fun hok => by cases hok⟩
  · cases hresult

theorem makeRoom_moves (h : c.makeRoom = .ok c') : Moves env A c c' := by
  rw [makeRoom] at h
  split at h
  · cases h
    exact Move.one (Move.roomMade _)
  split at h
  · obtain ⟨_, -, hd⟩ := Exec.bind_eq_ok.mp h
    cases hd
    exact Move.one (Move.roomMade _)
  · cases h
    exact Moves.nil env _

theorem processLoop_moves (fuel : Nat) (hinv : SendInv c) (hcontact : c.contactUp = true)
    (htodo : c.recvSegmentTodo = 0) (hA : LoopMeets env A fuel c)
    (h : c.processLoop env fuel = .ok c') : Moves env A c c' := by
  induction fuel generalizing c with
  | zero => cases h
  | succ fuel ih =>
      rw [processLoop] at h
      cases hbyte : c.recvbuf.full with
      | nil =>
          rw [hbyte] at h
          cases h
          exact Moves.nil env _
      | cons b t =>
          rw [hbyte] at h
          dsimp only at h
          split at h
          · cases h
            exact Moves.nil env _
          rename_i hbroken
          have hup := not_not.mp hbroken
          cases hresult : c.handle env (b &&& 0xf0) (b &&& 0x0f) with
          | none =>
              rw [hresult] at h
              exact (breakContact_runs env hup .clError).moves h
          | some result =>
              rw [hresult] at h
              obtain ⟨⟨d, ok⟩, hr, h⟩ := Exec.bind_eq_ok.mp h
              obtain ⟨hack, hnext⟩ := hA b (by rw [hbyte]; rfl) hup
              obtain ⟨hmoves, hok⟩ := handle_moves hinv hcontact hbyte htodo hup hack hresult hr
              dsimp only at h
              cases ok with
              | true =>
                  obtain ⟨htodo', hcontact'⟩ := hok rfl
                  rw [hresult, hr] at hnext
                  exact hmoves.trans
                    (ih (sendInv_moves hinv hmoves) hcontact' htodo' (hnext d rfl) h)
              | false => exact hmoves.trans (makeRoom_moves h)

theorem handleContactInitiation_moves (hup : c.contactBroken = none)
    (h : c.handleContactInitiation env = .ok c') : Moves env A c c' := by
  rw [handleContactInitiation] at h
  obtain ⟨_, hdown, h⟩ := Exec.bind_eq_ok.mp h
  rw [assertThat_eq_ok] at hdown
  dsimp only at h
  split at h
  · cases h
    exact Moves.nil env c
  split at h
  · exact (breakContact_runs env hup .clError).moves h
  split at h
  · cases h
    exact Moves.nil env c
  split at h
  · cases h
    exact Moves.nil env c
  split at h
  · cases h
    exact Moves.nil env c
  have hstep : ∀ (params : StreamLinkParams) (recvbuf : StreamBuffer UInt8) (up : Bool),
      params.segmentLength = c.params.segmentLength →
      Move env A c { c with params := params, recvbuf := recvbuf, contactUp := up } :=
    fun params recvbuf up hseg => Move.negotiated params recvbuf up hdown hseg
  rw [acceptContact] at h
  dsimp only at h
  split at h
  · exact (Move.one (hstep c.params _ c.contactUp rfl)).trans
      ((breakContact_runs (c := { c with recvbuf := c.recvbuf.consume 8 }) env hup
        .clVersion).moves h)
  split at h
  · cases h
  split at h
  · exact (Move.one (hstep (negotiate c.params _ _) _ c.contactUp rfl)).trans
      ((breakContact_runs env (by exact hup) .clError).moves h)
  · cases h
    exact Move.one (hstep _ _ true rfl)

theorem processData_moves (hinv : SendInv c) (hup : c.contactBroken = none)
    (hA : DataMeets env A c) (h : c.processData env = .ok c') : Moves env A c c' := by
  rw [processData] at h
  split at h
  · cases h
    exact Moves.nil env c
  split at h
  · exact handleContactInitiation_moves hup h
  rename_i hcontact
  have hcontact' : c.contactUp = true := by simpa using hcontact
  split at h
  · rename_i hne
    obtain ⟨⟨d, ok⟩, hdata, h⟩ := Exec.bind_eq_ok.mp h
    obtain ⟨hmoves, hok⟩ := handleDataTodo_moves hup hdata
    dsimp only at h
    cases ok with
    | false =>
        cases h
        exact hmoves
    | true =>
        obtain ⟨htodo, hsame⟩ := hok rfl
        have hloop := hA hcontact'
        rw [if_neg hne, hdata] at hloop
        exact hmoves.trans (processLoop_moves _ (sendInv_moves hinv hmoves)
          (hsame.trans hcontact') htodo (hloop d rfl) h)
  · rename_i hne
    have htodo := not_not.mp hne
    have hloop := hA hcontact'
    rw [if_pos htodo] at hloop
    exact processLoop_moves _ hinv hcontact' htodo hloop h

theorem receive_moves {chunk : Bytes} (hinv : SendInv c) (hup : c.contactBroken = none)
    (hA : Meets env A c (.receive chunk)) (h : c.receive env chunk = .ok c') : Moves env A c c' := by
  rw [receive] at h
  split at h
  · exact (breakContact_runs env hup .broken).moves h
  rename_i hne
  split at h
  · rename_i hfit
    have hmove : Move env A c _ := Move.arrived chunk hfit hne
    exact (Move.one hmove).trans (processData_moves (sendInv_move hinv hmove) hup (hA hfit) h)
  · cases h
    exact Moves.nil env c

end Handlers

/-! ## The first state -/

/-- A connection nothing has been sent or received on. -/
structure Fresh (c : Connection) : Prop where
  down : c.contactUp = false
  inflight : c.inflight = []
  current : c.currentInflight = none
  todo : c.sendSegmentTodo = 0
  incoming : c.incoming = []
  recvTodo : c.recvSegmentTodo = 0
  recvbuf : c.recvbuf.full = []
  posted : c.posted = []
  received : c.received = []
  created : c.created = 0
  entries : c.entries = 0

theorem Fresh.sendInv {c : Connection} (h : Fresh c) : SendInv c where
  shape := ⟨[], none, h.inflight, h.current, by simp, fun hne => absurd h.todo hne, fun _ => rfl⟩
  sound := by simp [h.inflight]
  fresh := by simp [h.inflight]
  distinct := by simp [h.inflight]
  acks := by simp [h.inflight]
  acks_front := by simp [h.inflight]
  down := fun _ => ⟨h.inflight, h.incoming, h.recvTodo⟩

theorem put_spec {c c' : Connection} {bs : Bytes} (h : c.put bs = .ok c') :
    ∃ hfit, c' = { c with sendbuf := c.sendbuf.fill bs hfit } := by
  rw [put] at h
  split at h
  · rename_i hfit
    cases h
    exact ⟨hfit, rfl⟩
  · cases h

theorem initiateContact_cases {env : Env} {params : StreamLinkParams} {sendbufLen recvbufLen : Nat}
    {link : LinkRef} {eid : Bytes} {c : Connection}
    (h : (Connection.new params sendbufLen recvbufLen link).initiateContact env eid = .ok c) :
    ∃ b : StreamBuffer UInt8, b.full = contactHeader env params eid ∧ sendbufLen ≤ b.size ∧
      8 ≤ b.size ∧
      { Connection.new params sendbufLen recvbufLen link with sendbuf := b }.sendData env =
        .ok c := by
  rw [initiateContact] at h
  obtain ⟨_, -, h⟩ := Exec.bind_eq_ok.mp h
  dsimp only at h
  obtain ⟨c₁, hput₁, h⟩ := Exec.bind_eq_ok.mp h
  obtain ⟨c₂, hput₂, h⟩ := Exec.bind_eq_ok.mp h
  obtain ⟨hfit₁, rfl⟩ := put_spec hput₁
  obtain ⟨hfit₂, rfl⟩ := put_spec hput₂
  have hfirst := StreamBuffer.size_le_reserve (StreamBuffer.empty sendbufLen : StreamBuffer UInt8) 8
  have height : 8 ≤ ((StreamBuffer.empty sendbufLen : StreamBuffer UInt8).reserve 8).size := by
    have htail := (StreamBuffer.empty sendbufLen : StreamBuffer UInt8).le_tailbytes_reserve 8
    rw [StreamBuffer.tailbytes] at htail
    omega
  have hgrow := StreamBuffer.size_le_reserve
    (((StreamBuffer.empty sendbufLen : StreamBuffer UInt8).reserve 8).fill _ hfit₁)
    ((contactHeader env params eid).length - 8)
  refine ⟨((((StreamBuffer.empty sendbufLen).reserve 8).fill _ hfit₁).reserve
    ((contactHeader env params eid).length - 8)).fill _ hfit₂, ?_, hfirst.trans hgrow,
    height.trans hgrow, h⟩
  simp [Connection.new]

theorem initiateContact_spec {env : Env} {params : StreamLinkParams} {sendbufLen recvbufLen : Nat}
    {link : LinkRef} {eid : Bytes} {c : Connection}
    (h : (Connection.new params sendbufLen recvbufLen link).initiateContact env eid = .ok c) :
    Fresh c ∧ c.link = link ∧ c.params = params ∧ sendbufLen ≤ c.sendbuf.size ∧
      c.recvbuf = StreamBuffer.empty recvbufLen ∧
      c.wire ++ c.sendbuf.full = contactHeader env params eid := by
  obtain ⟨buf, hfull, hlen, -, hsend⟩ := initiateContact_cases h
  obtain ⟨hwire, hsize, b, w, n, r, k, heq⟩ := sendData_wire hsend
  refine ⟨?_, ?_, ?_, ?_, ?_, ?_⟩
  · rw [heq]
    exact ⟨rfl, rfl, rfl, rfl, rfl, rfl, rfl, rfl, rfl, rfl, rfl⟩
  · rw [heq]
    rfl
  · rw [heq]
    rfl
  · rw [hsize]
    exact hlen
  · rw [heq]
    rfl
  · rw [hwire, ← hfull]
    rfl

/-! ## Runs -/

section Runs

variable {env : Env} {A : Input → Connection → Prop} {c c' : Connection}

theorem react_moves {e : Event} (hinv : SendInv c) (hup : c.contactBroken = none)
    (hA : Meets env A c e) (h : c.react env e = .ok c') :
    (∃ x, e = .queueBundle x ∧ c' = { c with link := c.link.queueBundle x }) ∨ Moves env A c c' := by
  cases e with
  | queueBundle x =>
      cases h
      exact Or.inl ⟨x, rfl, rfl⟩
  | sendPendingData =>
      obtain ⟨⟨d, b⟩, hsend, hd⟩ := Exec.bind_eq_ok.mp h
      cases hd
      exact Or.inr ((sendPendingData_runs env hinv hup).moves hsend)
  | writeReady =>
      rw [react] at h
      split at h
      · cases h
        exact Or.inr (Moves.nil env c)
      · rename_i hfull
        obtain ⟨d, hdata, hmoves, -⟩ := sendData_spec env hup (Nat.pos_of_ne_zero hfull)
        rw [hdata] at h
        cases h
        exact Or.inr hmoves
  | receive chunk => exact Or.inr (receive_moves hinv hup hA h)
  | cancelBundle id =>
      cases h
      exact Or.inr (handleCancelBundle_moves env hinv id hA)
  | pollTimeout t => exact Or.inr ((handlePollTimeout_runs env t hup).moves h)
  | checkKeepalive due => exact Or.inr ((checkKeepalive_runs env due hup).moves h)
  | breakContact reason => exact Or.inr ((breakContact_runs env hup reason).moves h)

theorem step_of_up (hup : c.contactBroken = none) (e : Event) : c.step env e = c.react env e := by
  unfold step
  rw [hup]

theorem step_queueBundle (x : XmitBundle) :
    c.step env (.queueBundle x) = .ok { c with link := c.link.queueBundle x } := by
  unfold step
  split
  · rename_i h
    cases h
    rfl
  · rename_i hne
    exact absurd rfl (hne x)
  · rfl

theorem step_of_broken (hbroken : c.contactBroken ≠ none) (e : Event) :
    (∃ x, e = .queueBundle x) ∨ c.step env e = .ok c := by
  obtain ⟨reason, hreason⟩ := Option.ne_none_iff_exists'.mp hbroken
  unfold step
  rw [hreason]
  cases e with
  | queueBundle x => exact Or.inl ⟨x, rfl⟩
  | _ => exact Or.inr rfl

theorem step_moves {e : Event} (hinv : SendInv c) (hA : c.contactBroken = none → Meets env A c e)
    (h : c.step env e = .ok c') :
    (∃ x, e = .queueBundle x ∧ c' = { c with link := c.link.queueBundle x }) ∨ Moves env A c c' := by
  by_cases hup : c.contactBroken = none
  · rw [step_of_up hup] at h
    exact react_moves hinv hup (hA hup) h
  rcases step_of_broken hup e with ⟨x, rfl⟩ | hstep
  · rw [step_queueBundle] at h
    cases h
    exact Or.inl ⟨x, rfl, rfl⟩
  · rw [hstep] at h
    cases h
    exact Or.inr (Moves.nil env _)

theorem sendInv_queue (h : SendInv c) (x : XmitBundle) :
    SendInv { c with link := c.link.queueBundle x } :=
  h.congr rfl rfl rfl rfl rfl (fun hf => (h.down hf).2) rfl

theorem loopMeets_true (fuel : Nat) (c : Connection) : LoopMeets env (fun _ _ => True) fuel c := by
  induction fuel generalizing c with
  | zero => exact trivial
  | succ fuel ih => exact fun _ _ _ => ⟨fun _ => trivial, fun d _ => ih d⟩

theorem meets_true (c : Connection) (e : Event) : Meets env (fun _ _ => True) c e := by
  cases e with
  | receive chunk =>
      intro _ _
      split
      · exact loopMeets_true _ _
      · exact fun d _ => loopMeets_true _ d
  | _ => exact trivial

theorem sendInv_step {e : Event} (hinv : SendInv c) (h : c.step env e = .ok c') : SendInv c' := by
  rcases step_moves hinv (fun _ => meets_true c e) h with ⟨x, -, rfl⟩ | hmoves
  · exact sendInv_queue hinv x
  · exact sendInv_moves hinv hmoves

theorem step_keep {P : Connection → Prop} (hmove : ∀ a b, SendInv a → P a → Move env A a b → P b)
    (hqueue : ∀ a x, SendInv a → P a → P { a with link := a.link.queueBundle x })
    {e : Event} (hinv : SendInv c) (hA : c.contactBroken = none → Meets env A c e) (hP : P c)
    (h : c.step env e = .ok c') : P c' := by
  rcases step_moves hinv hA h with ⟨x, -, rfl⟩ | hmoves
  · exact hqueue c x hinv hP
  · exact (hmoves.keep (P := fun a => SendInv a ∧ P a)
      (fun a b hab hm => ⟨sendInv_move hab.1 hm, hmove a b hab.1 hab.2 hm⟩) ⟨hinv, hP⟩).2

theorem run_keep {P : Connection → Prop} (hmove : ∀ a b, SendInv a → P a → Move env A a b → P b)
    (hqueue : ∀ a x, SendInv a → P a → P { a with link := a.link.queueBundle x })
    {es : List Event} (hinv : SendInv c) (hA : RunMeets env A c es) (hP : P c)
    (h : c.run env es = .ok c') : SendInv c' ∧ P c' := by
  induction es generalizing c with
  | nil =>
      cases h
      exact ⟨hinv, hP⟩
  | cons e es ih =>
      rw [run] at h
      obtain ⟨d, hstep, hrest⟩ := Exec.bind_eq_ok.mp h
      rw [RunMeets, hstep] at hA
      exact ih (sendInv_step hinv hstep) (hA.2 d rfl)
        (step_keep hmove hqueue hinv hA.1 hP hstep) hrest

end Runs

end Dtn2.StreamConvergenceLayer
