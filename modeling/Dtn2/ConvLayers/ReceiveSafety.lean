import Dtn2.Bundling.ConsumeWhole
import Dtn2.ConvLayers.StreamSteps

/-!
# What any peer may send

`process_data` handles one message of the peer after the other. A message that meets `MessageFits`
is handled without a fault: the connection goes on, breaks the contact, or waits for the rest of a
message.
-/

namespace Dtn2.StreamConvergenceLayer

open Framework BundleProtocol Connection

/-! ## Messages of the peer -/

/-- A segment with data, an acknowledgement, a refusal, a keepalive and a shutdown message. -/
inductive PeerMessage : Bytes → Prop
  | segment {b : UInt8} {num data : Bytes} (htype : b &&& 0xf0 = dataSegment)
      (hnum : SDNV.decode32 num = some (num.length, data.length)) (hdata : data ≠ []) :
      PeerMessage (b :: (num ++ data))
  | ack {b : UInt8} {num : Bytes} {acked : Nat} (htype : b &&& 0xf0 = ackSegment)
      (hnum : SDNV.decode32 num = some (num.length, acked)) : PeerMessage (b :: num)
  | refuse {b : UInt8} (htype : b &&& 0xf0 = refuseBundle) : PeerMessage [b]
  | keepalive {b : UInt8} (htype : b &&& 0xf0 = keepalive) : PeerMessage [b]
  | shutdown {b : UInt8} {rest : Bytes} (htype : b &&& 0xf0 = shutdown)
      (hlen : (b :: rest).length = shutdownLength (b &&& 0x0f)) : PeerMessage (b :: rest)

/-- The bytes are the front of a message, without its end. -/
def Waits (bs : Bytes) : Prop := ∃ more, more ≠ [] ∧ PeerMessage (bs ++ more)

/-- The bytes are the front of a number of 32 bits, without its end. -/
def Unfinished (num : Bytes) : Prop :=
  num.length < 9 ∧ (SDNV.decodeLoop num 0 0).1 = none ∧ (SDNV.decodeLoop num 0 0).2.toNat < 2 ^ 25

instance (num : Bytes) : Decidable (Unfinished num) := inferInstanceAs (Decidable (_ ∧ _ ∧ _))

/-! ## What is assumed of the messages -/

/-- The number behind the type byte is complete or can be completed. -/
def NumberFits (c : Connection) : Prop :=
  SDNV.decode32 (c.recvbuf.full.drop 1) = none → Unfinished (c.recvbuf.full.drop 1)

/-- There is still a record for the current segment, and the parser takes what has arrived as a
whole. -/
def DataFits (env : Env) (c : Connection) : Prop :=
  ∃ y ∈ c.incoming.getLast?, BundleProtocol.LoopMeets (RoundWhole env.params env.os) env.params env.os
    (c.recvbuf.full.take c.recvSegmentTodo).length (openPrimary env.os y.bundle)
    (c.recvbuf.full.take c.recvSegmentTodo)

/-- What a data segment has to meet once there is a record for it. -/
def SegmentFits (env : Env) (c : Connection) (flags : UInt8) : Prop :=
  NumberFits c ∧ ∀ p ∈ SDNV.decode32 (c.recvbuf.full.drop 1), p.2 ≠ 0 →
    ∀ y ∈ c.incoming.getLast?, DataFits env ((c.skip (1 + p.1)).beginSegment y flags p.2)

/-- What the message with this type byte has to meet. -/
def MessageFits (env : Env) (c : Connection) (b : UInt8) : Prop :=
  (b &&& 0xf0 = ackSegment → NumberFits c) ∧
    (b &&& 0xf0 = dataSegment → ∀ r ∈ (c.openIncoming env (b &&& 0x0f)).toOption, r.2 = true →
      SegmentFits env r.1 (b &&& 0x0f))

def LoopFits (env : Env) : Nat → Connection → Prop
  | 0, _ => True
  | fuel + 1, c =>
      ∀ b ∈ c.recvbuf.full.head?, c.contactBroken = none → MessageFits env c b ∧
        ∀ c' ∈ goesOn (c.handle env (b &&& 0xf0) (b &&& 0x0f)), LoopFits env fuel c'

/-- What `process_data` finds in the buffer meets it. -/
def BufferFits (env : Env) (c : Connection) : Prop :=
  c.contactUp = true →
    if c.recvSegmentTodo = 0 then LoopFits env (c.recvbuf.fullbytes + 1) c
    else DataFits env c ∧
      ∀ c' ∈ goesOn (some (c.handleDataTodo env)), LoopFits env (c'.recvbuf.fullbytes + 1) c'

/-! ## States -/

/-- What holds of a connection between two messages until the contact is broken. -/
structure Ready (env : Env) (c : Connection) : Prop where
  unbroken : c.contactBroken = none
  quiet : c.breakingContact = false
  room : 2 ≤ c.sendbuf.size
  parsing : ∀ y ∈ c.incoming.getLast?, BundleProtocol.Open env.params env.os
    (openPrimary env.os y.bundle)

/-- The contact is broken, or the connection is ready for the peer. -/
def Survives (env : Env) (c : Connection) : Prop := c.contactBroken ≠ none ∨ Ready env c

/-- What a handler leaves: it may go on with less in the buffer, or waits for more. -/
def Handled (env : Env) (c : Connection) : Exec (Connection × Bool) → Prop
  | .error _ => False
  | .ok (c', true) => c'.contactBroken ≠ none ∨
      (Ready env c' ∧ c'.recvbuf.full.length < c.recvbuf.full.length)
  | .ok (c', false) => c'.contactBroken ≠ none ∨ (Ready env c' ∧ Waits c'.recvbuf.full)

/-! ## What the sending side changes -/

/-- The receive buffer and the bundle that is being parsed are the same; the contact was not broken
before. -/
structure Keeps (c c' : Connection) : Prop where
  recvbuf : c'.recvbuf = c.recvbuf
  size : c'.sendbuf.size = c.sendbuf.size
  quiet : c'.contactBroken = none →
    c.contactBroken = none ∧ c'.breakingContact = c.breakingContact
  incoming : ∀ y' ∈ c'.incoming.getLast?, ∃ y ∈ c.incoming.getLast?, y'.bundle = y.bundle

section Numbers

theorem decodeLoop_unfinished {num : Bytes} {val : UInt64} {n : Nat}
    (h : (SDNV.decodeLoop num val n).1 = none) (more : Bytes) :
    SDNV.decodeLoop (num ++ more) val n =
      SDNV.decodeLoop more (SDNV.decodeLoop num val n).2 (n + num.length) := by
  induction num generalizing val n with
  | nil => rfl
  | cons b num ih =>
      rw [SDNV.decodeLoop] at h
      by_cases hb : b &&& 0x80 = 0
      · simp only [if_pos hb] at h
        cases h
      · simp only [if_neg hb] at h
        rw [List.cons_append, SDNV.decodeLoop, SDNV.decodeLoop, if_neg hb, if_neg hb, ih h,
          List.length_cons]
        congr 1
        omega

theorem Unfinished.completed {num : Bytes} (h : Unfinished num) :
    ∃ val, SDNV.decode32 (num ++ [1]) = some ((num ++ [1]).length, val) ∧ val ≠ 0 := by
  obtain ⟨hshort, hnone, hval⟩ := h
  generalize hv : (SDNV.decodeLoop num 0 0).2 = v at hval
  have hloop : SDNV.decodeLoop (num ++ [1]) 0 0 = (some (num.length + 1), v <<< 7 ||| 1) := by
    rw [decodeLoop_unfinished hnone, hv, Nat.zero_add]
    rfl
  have hgood : ¬ (SDNV.maxLength < num.length + 1 ∨
      num.length + 1 = SDNV.maxLength ∧ (num ++ [1]).head? ≠ some 0x81) := by
    simp only [SDNV.maxLength]
    omega
  have hsmall : (v <<< 7 ||| 1).toNat < 2 ^ 32 := by
    rw [UInt64.toNat_or]
    apply Nat.or_lt_two_pow
    · have hshift : (v <<< 7).toNat = v.toNat * 2 ^ 7 % 2 ^ 64 := by
        rw [UInt64.toNat_shiftLeft, Nat.shiftLeft_eq]
        rfl
      omega
    · decide
  refine ⟨(v <<< 7 ||| 1).toNat, ?_, ?_⟩
  · rw [SDNV.decode32, SDNV.decode, hloop]
    dsimp only
    rw [if_neg hgood, List.length_append, List.length_singleton]
    dsimp only
    rw [if_neg (by omega)]
    rfl
  · have hone : (1 : Nat) ≤ (v <<< 7 ||| 1).toNat := by
      rw [UInt64.toNat_or]
      exact Nat.right_le_or
    omega

theorem waits_nil : Waits [] := ⟨[0x40], by simp, .keepalive rfl⟩

theorem waits_segment {b : UInt8} {num : Bytes} (htype : b &&& 0xf0 = dataSegment)
    (h : Unfinished num) : Waits (b :: num) := by
  obtain ⟨val, hval, hne⟩ := h.completed
  refine ⟨1 :: List.replicate val 0, by simp, ?_⟩
  have hdata : List.replicate val (0 : UInt8) ≠ [] := by
    apply List.ne_nil_of_length_pos
    rw [List.length_replicate]
    omega
  have hmessage : PeerMessage (b :: ((num ++ [1]) ++ List.replicate val 0)) := by
    refine .segment htype ?_ hdata
    rw [List.length_replicate]
    exact hval
  rw [List.append_assoc] at hmessage
  exact hmessage

theorem waits_ack {b : UInt8} {num : Bytes} (htype : b &&& 0xf0 = ackSegment)
    (h : Unfinished num) : Waits (b :: num) := by
  obtain ⟨val, hval, -⟩ := h.completed
  exact ⟨[1], by simp, .ack htype hval⟩

theorem waits_shutdown {b : UInt8} {rest : Bytes} (htype : b &&& 0xf0 = shutdown)
    (h : (b :: rest).length < shutdownLength (b &&& 0x0f)) : Waits (b :: rest) := by
  refine ⟨List.replicate (shutdownLength (b &&& 0x0f) - (b :: rest).length) 0, ?_, ?_⟩
  · apply List.ne_nil_of_length_pos
    rw [List.length_replicate]
    omega
  · apply PeerMessage.shutdown htype
    have hlen : (b :: rest).length = rest.length + 1 := rfl
    change (rest ++ _).length + 1 = _
    rw [List.length_append, List.length_replicate]
    omega

end Numbers

/-! ## Breaking the contact -/

section Handlers

variable {env : Env} {c c' : Connection}

theorem Ready.congr (h : Ready env c) (hbroken : c'.contactBroken = c.contactBroken)
    (hbreaking : c'.breakingContact = c.breakingContact) (hsize : c'.sendbuf.size = c.sendbuf.size)
    (hincoming : c'.incoming = c.incoming) : Ready env c' where
  unbroken := hbroken.trans h.unbroken
  quiet := hbreaking.trans h.quiet
  room := hsize ▸ h.room
  parsing := hincoming ▸ h.parsing

theorem breakContact_broken {reason : Reason} (hquiet : c.breakingContact = false)
    (h : c.breakContact env reason = .ok c') : c'.contactBroken = some reason := by
  rw [breakContact, hquiet, if_neg Bool.false_ne_true] at h
  by_cases hsend : sendsShutdown reason = true ∧ c.sendbuf.fullbytes = 0 ∧ c.sendSegmentTodo = 0
  · rw [if_pos hsend] at h
    obtain ⟨d, -, h⟩ := Exec.bind_eq_ok.mp h
    obtain ⟨d', -, h⟩ := Exec.bind_eq_ok.mp h
    cases h
    rfl
  · rw [if_neg hsend] at h
    cases h
    rfl

theorem breakContact_breaks (hunbroken : c.contactBroken = none) (hquiet : c.breakingContact = false)
    (hroom : 2 ≤ c.sendbuf.size) (reason : Reason) :
    ∃ c', c.breakContact env reason = .ok c' ∧ c'.contactBroken ≠ none := by
  have hspec : (∃ c', c.breakContact env reason = .ok c' ∧ Moves env (fun _ _ => True) c c' ∧
      SocketOnly c c') ∨ (c.breakContact env reason = .error (.fault .outOfBounds) ∧
        c.sendbuf.size < 2) := breakContact_spec env hunbroken reason
  cases hspec with
  | inl hok =>
      obtain ⟨c', hbreak, -, -⟩ := hok
      refine ⟨c', hbreak, ?_⟩
      rw [breakContact_broken hquiet hbreak]
      simp
  | inr herr => omega

theorem Ready.breaks (h : Ready env c) (reason : Reason) :
    ∃ c', c.breakContact env reason = .ok c' ∧ c'.contactBroken ≠ none :=
  breakContact_breaks h.unbroken h.quiet h.room reason

theorem Ready.protocolError (h : Ready env c) :
    ∃ c', c.protocolError env = .ok (c', false) ∧ c'.contactBroken ≠ none := by
  obtain ⟨c', hbreak, hbroken⟩ := h.breaks .clError
  refine ⟨c', ?_, hbroken⟩
  rw [Connection.protocolError, hbreak]
  rfl

theorem handled_protocolError {d : Connection} (h : Ready env d) :
    Handled env c (d.protocolError env) := by
  obtain ⟨c', herr, hbroken⟩ := h.protocolError
  rw [herr]
  exact Or.inl hbroken

/-! ## Data of a segment -/

theorem ready_setLast (h : Ready env c) {y : IncomingBundle}
    (hopen : BundleProtocol.Open env.params env.os (openPrimary env.os y.bundle)) :
    Ready env (c.setLastIncoming y) where
  unbroken := h.unbroken
  quiet := h.quiet
  room := h.room
  parsing := by
    intro z hz
    rw [setLastIncoming, List.getLast?_concat] at hz
    cases hz
    exact hopen

theorem checkCompletedIncoming_handled (h : Ready env c) (y : IncomingBundle) :
    ∃ c', c.checkCompletedIncoming env y = .ok c' ∧
      (c'.contactBroken ≠ none ∨ (Ready env c' ∧ c'.recvbuf = c.recvbuf)) := by
  rw [checkCompletedIncoming]
  by_cases hzero : y.totalLength = 0
  · rw [if_pos hzero]
    exact ⟨c, rfl, Or.inr ⟨h, rfl⟩⟩
  rw [if_neg hzero]
  by_cases hwait : u32 y.rcvdData.numContiguous < y.totalLength
  · rw [if_pos hwait]
    exact ⟨c, rfl, Or.inr ⟨h, rfl⟩⟩
  rw [if_neg hwait]
  split
  · have hbreaks := @breakContact_breaks env (c.setLastIncoming { y with rcvdData := ∅ })
      h.unbroken h.quiet h.room .clError
    obtain ⟨c', hbreak, hbroken⟩ := hbreaks
    exact ⟨c', hbreak, Or.inl hbroken⟩
  · exact ⟨_, rfl, Or.inr ⟨h.congr rfl rfl rfl rfl, rfl⟩⟩

theorem handleDataTodo_handled (h : Ready env c) (htodo : c.recvSegmentTodo ≠ 0)
    (hfits : DataFits env c) : Handled env c (c.handleDataTodo env) := by
  obtain ⟨y, hy, hmeets⟩ := hfits
  rw [Option.mem_def] at hy
  rw [handleDataTodo, hy]
  dsimp only
  rw [Exec.assert_bind htodo]
  by_cases hempty : c.recvbuf.fullbytes = 0
  · have hnil : c.recvbuf.full = [] := List.eq_nil_of_length_eq_zero hempty
    rw [if_pos hempty]
    refine Or.inr ⟨h, ?_⟩
    rw [hnil]
    exact waits_nil
  · rw [if_neg hempty]
    have hpos : 0 < c.recvbuf.full.length := Nat.pos_of_ne_zero hempty
    have hlen : (c.recvbuf.full.take c.recvSegmentTodo).length =
        min c.recvSegmentTodo c.recvbuf.full.length := List.length_take
    cases consume_atEnd (h.parsing y hy) hmeets with
    | inl herr =>
        rw [herr]
        exact handled_protocolError h
    | inr hok =>
        obtain ⟨bundle, last, hok, hint, hopen⟩ := hok
        rw [hok]
        generalize (c.recvbuf.full.take c.recvSegmentTodo).length = len at *
        have hset : Ready env (c.setLastIncoming (chunkRecord y bundle len)) :=
          ready_setLast h hopen
        have hchunk : Ready env (c.chunkState (chunkRecord y bundle len) len) :=
          hset.congr rfl rfl rfl rfl
        have hrest : (c.chunkState (chunkRecord y bundle len) len).recvbuf.full =
            c.recvbuf.full.drop len := StreamBuffer.consume_full _ _
        rw [takeChunk, if_neg (by omega), Exec.assert_bind rfl]
        dsimp only
        by_cases hdone : c.recvSegmentTodo - len = 0
        · rw [if_pos hdone]
          obtain ⟨c', hcheck, hend⟩ :=
            checkCompletedIncoming_handled hchunk (chunkRecord y bundle len)
          rw [hcheck]
          refine hend.imp_right ?_
          rintro ⟨hready, hbuf⟩
          refine ⟨hready, ?_⟩
          rw [hbuf, hrest, List.length_drop]
          omega
        · rw [if_neg hdone]
          refine Or.inr ⟨hchunk, ?_⟩
          rw [hrest, List.drop_of_length_le (by omega)]
          exact waits_nil

/-! ## Messages -/

theorem Handled.mono {d : Connection} {r : Exec (Connection × Bool)} (h : Handled env d r)
    (hle : d.recvbuf.full.length ≤ c.recvbuf.full.length) : Handled env c r := by
  cases r with
  | error s => exact h
  | ok r =>
      obtain ⟨c', ok⟩ := r
      cases ok with
      | false => exact h
      | true =>
          exact h.imp_right fun hdone => ⟨hdone.1, lt_of_lt_of_le hdone.2 hle⟩

theorem skip_full (c : Connection) (n : Nat) :
    (c.skip n).recvbuf.full = c.recvbuf.full.drop n := StreamBuffer.consume_full _ _

theorem ready_newIncoming (h : Ready env c) : Ready env (c.newIncoming env) where
  unbroken := h.unbroken
  quiet := h.quiet
  room := h.room
  parsing := by
    intro z hz
    rw [newIncoming, List.getLast?_concat] at hz
    cases hz
    exact open_new env.params env.os _ _

theorem openIncoming_ready (h : Ready env c) (flags : UInt8) :
    (∃ c', c.openIncoming env flags = .ok (c', false) ∧ c'.contactBroken ≠ none) ∨
      ∃ c' y, c.openIncoming env flags = .ok (c', true) ∧ Ready env c' ∧ c'.recvbuf = c.recvbuf ∧
        c'.incoming.getLast? = some y := by
  have hnew : ∃ c' y, Except.ok (c.newIncoming env, true) = (Except.ok (c', true) : Exec _) ∧
      Ready env c' ∧ c'.recvbuf = c.recvbuf ∧ c'.incoming.getLast? = some y :=
    ⟨_, _, rfl, ready_newIncoming h, rfl, List.getLast?_concat⟩
  rw [openIncoming]
  cases hy : c.incoming.getLast? with
  | none =>
      dsimp only
      by_cases hstart : flags &&& bundleStart ≠ 0
      · rw [if_pos hstart]
        exact Or.inr hnew
      · rw [if_neg hstart]
        exact Or.inl h.protocolError
  | some y =>
      dsimp only
      have hsame : ∃ c' y, Except.ok (c, true) = (Except.ok (c', true) : Exec _) ∧
          Ready env c' ∧ c'.recvbuf = c.recvbuf ∧ c'.incoming.getLast? = some y :=
        ⟨c, y, rfl, h, rfl, hy⟩
      by_cases hstart : flags &&& bundleStart = 0
      · rw [if_pos hstart]
        exact Or.inr hsame
      rw [if_neg hstart]
      by_cases hempty : y.rcvdData = ∅ ∧ y.ackData = ∅
      · rw [if_pos hempty]
        exact Or.inr hsame
      rw [if_neg hempty]
      by_cases hopen : y.totalLength = 0
      · rw [if_pos hopen]
        exact Or.inl h.protocolError
      · rw [if_neg hopen]
        exact Or.inr hnew

theorem readSegment_handled (h : Ready env c) {y : IncomingBundle}
    (hy : c.incoming.getLast? = some y) {b : UInt8} {t : Bytes} (hbyte : c.recvbuf.full = b :: t)
    (htype : b &&& 0xf0 = dataSegment) (hfits : SegmentFits env c (b &&& 0x0f)) :
    Handled env c (c.readSegment env (b &&& 0x0f)) := by
  obtain ⟨hnumber, hsegment⟩ := hfits
  rw [readSegment, hy]
  cases hdecode : SDNV.decode32 (c.recvbuf.full.drop 1) with
  | none =>
      refine Or.inr ⟨h, ?_⟩
      have hnum := hnumber hdecode
      rw [hbyte] at hnum ⊢
      exact waits_segment htype hnum
  | some r =>
      obtain ⟨n, len⟩ := r
      have hskip : Ready env (c.skip (1 + n)) := h.congr rfl rfl rfl rfl
      dsimp only
      by_cases hzero : len = 0
      · rw [if_pos hzero]
        exact handled_protocolError hskip
      · rw [if_neg hzero]
        have hdata := hsegment (n, len) hdecode hzero y hy
        have hbuf : ((c.skip (1 + n)).beginSegment y (b &&& 0x0f) len).recvbuf.full =
            c.recvbuf.full.drop (1 + n) := skip_full c (1 + n)
        have hset : Ready env ((c.skip (1 + n)).setLastIncoming { y with
            ackData := y.ackData.set (u32 (y.rcvdData.numContiguous + len - 1)) 1
            totalLength := if b &&& 0x0f &&& bundleEnd ≠ 0 then
              u32 (y.rcvdData.numContiguous + len) else y.totalLength }) :=
          ready_setLast hskip (h.parsing y hy)
        have hbegun : Ready env ((c.skip (1 + n)).beginSegment y (b &&& 0x0f) len) :=
          hset.congr rfl rfl rfl rfl
        have hdone := handleDataTodo_handled hbegun hzero hdata
        apply hdone.mono
        rw [hbuf, List.length_drop]
        omega

theorem handleDataSegment_handled (h : Ready env c) {b : UInt8} {t : Bytes}
    (hbyte : c.recvbuf.full = b :: t) (htype : b &&& 0xf0 = dataSegment)
    (hfits : ∀ r ∈ (c.openIncoming env (b &&& 0x0f)).toOption, r.2 = true →
      SegmentFits env r.1 (b &&& 0x0f)) :
    Handled env c (c.handleDataSegment env (b &&& 0x0f)) := by
  rw [handleDataSegment]
  cases openIncoming_ready h (b &&& 0x0f) with
  | inl herr =>
      obtain ⟨c', herr, hbroken⟩ := herr
      rw [herr]
      exact Or.inl hbroken
  | inr hok =>
      obtain ⟨c', y, hok, hready, hbuf, hy⟩ := hok
      rw [hok] at hfits ⊢
      have hbyte' : c'.recvbuf.full = b :: t := by
        rw [hbuf]
        exact hbyte
      have hread := readSegment_handled hready hy hbyte' htype (hfits (c', true) rfl rfl)
      apply hread.mono
      rw [hbuf]

/-! ### Acknowledgements -/

theorem Keeps.refl (c : Connection) : Keeps c c :=
  ⟨rfl, rfl, fun hunbroken => ⟨hunbroken, rfl⟩, fun y hy => ⟨y, hy, rfl⟩⟩

theorem Keeps.trans {d : Connection} (h : Keeps c d) (h' : Keeps d c') : Keeps c c' where
  recvbuf := h'.recvbuf.trans h.recvbuf
  size := h'.size.trans h.size
  quiet := by
    intro hunbroken
    have hlate := h'.quiet hunbroken
    have hearly := h.quiet hlate.1
    exact ⟨hearly.1, hlate.2.trans hearly.2⟩
  incoming := by
    intro y'' hy''
    obtain ⟨y', hy', hlate⟩ := h'.incoming y'' hy''
    obtain ⟨y, hy, hearly⟩ := h.incoming y' hy'
    exact ⟨y, hy, hlate.trans hearly⟩

theorem Keeps.same (hrecvbuf : c'.recvbuf = c.recvbuf) (hsize : c'.sendbuf.size = c.sendbuf.size)
    (hbroken : c'.contactBroken = c.contactBroken)
    (hbreaking : c'.breakingContact = c.breakingContact) (hincoming : c'.incoming = c.incoming) :
    Keeps c c' := by
  refine ⟨hrecvbuf, hsize, fun hunbroken => ⟨hbroken ▸ hunbroken, hbreaking⟩, ?_⟩
  rw [hincoming]
  exact fun y hy => ⟨y, hy, rfl⟩

theorem Ready.keeps (h : Ready env c) (hkeeps : Keeps c c') (hunbroken : c'.contactBroken = none) :
    Ready env c' where
  unbroken := hunbroken
  quiet := (hkeeps.quiet hunbroken).2.trans h.quiet
  room := hkeeps.size ▸ h.room
  parsing := by
    intro y' hy'
    obtain ⟨y, hy, hsame⟩ := hkeeps.incoming y' hy'
    rw [hsame]
    exact h.parsing y hy

theorem checkCompleted_head (c : Connection) {x : InFlightBundle} {rest : List InFlightBundle}
    (hfront : c.inflight = x :: rest) : ∃ c', c.checkCompleted x.entry = .ok c' ∧ Keeps c c' := by
  rw [checkCompleted]
  by_cases hcurrent : c.currentInflight = some x.entry
  · rw [if_pos hcurrent]
    exact ⟨c, rfl, .refl c⟩
  · have hderef : c.deref x.entry = .ok x := by
      rw [deref, hfront, List.find?_cons_of_pos (by simp)]
      rfl
    rw [if_neg hcurrent, hderef, Exec.ok_bind]
    by_cases hacks : c.params.segmentAckEnabled = true
    · rw [if_pos hacks]
      by_cases hwait : u32 x.ackData.numContiguous < x.totalLength
      · rw [if_pos hwait]
        exact ⟨c, rfl, .refl c⟩
      · rw [if_neg hwait, popInflight_cons hfront rfl]
        exact ⟨_, rfl, .same rfl rfl rfl rfl rfl⟩
    · have hhead : (c.modify x.entry fun x => { x with transmitEventPosted := true }).inflight.head?.map
          InFlightBundle.entry = some x.entry := by
        rw [Connection.modify, hfront, List.map_cons, if_pos rfl]
        rfl
      rw [if_neg hacks, popInflight, Exec.assert_bind (by exact hhead)]
      exact ⟨_, rfl, .same rfl rfl rfl rfl rfl⟩

theorem acceptAck_keeps (c : Connection) (x : InFlightBundle) (rest : List InFlightBundle)
    (acked : Nat) : ∃ c', c.acceptAck x rest acked = .ok c' ∧ Keeps c c' := by
  rw [acceptAck]
  dsimp only
  by_cases hfinal : acked = x.totalLength
  · rw [if_pos hfinal]
    generalize hy : ({ x with ackData := x.ackData.set 0 acked } : InFlightBundle) = y
    obtain ⟨c', hcheck, hkeeps⟩ :=
      @checkCompleted_head (c.finalAck y rest) { y with transmitEventPosted := true } rest rfl
    have hfinalAck : Keeps c (c.finalAck y rest) := .same rfl rfl rfl rfl rfl
    refine ⟨c', ?_, hfinalAck.trans hkeeps⟩
    rw [← hy] at hcheck ⊢
    exact hcheck
  · rw [if_neg hfinal]
    exact ⟨_, rfl, .same rfl rfl rfl rfl rfl⟩

theorem handleAckSegment_handled (h : Ready env c) {b : UInt8} {t : Bytes}
    (hbyte : c.recvbuf.full = b :: t) (htype : b &&& 0xf0 = ackSegment) (hfits : NumberFits c) :
    Handled env c (c.handleAckSegment env) := by
  rw [handleAckSegment]
  cases hdecode : SDNV.decode32 (c.recvbuf.full.drop 1) with
  | none =>
      have hnum := hfits hdecode
      refine Or.inr ⟨h, ?_⟩
      rw [hbyte] at hnum ⊢
      exact waits_ack htype hnum
  | some r =>
      obtain ⟨n, acked⟩ := r
      have hskip : Ready env (c.skip (1 + n)) := h.congr rfl rfl rfl rfl
      dsimp only
      cases hfront : c.inflight with
      | nil => exact handled_protocolError hskip
      | cons x rest =>
          dsimp only
          by_cases hlow : acked < ackBegin x
          · rw [if_pos hlow]
            exact handled_protocolError hskip
          · rw [if_neg hlow]
            obtain ⟨c', haccept, hkeeps⟩ := acceptAck_keeps (c.skip (1 + n)) x rest acked
            rw [haccept]
            by_cases hunbroken : c'.contactBroken = none
            · refine Or.inr ⟨hskip.keeps hkeeps hunbroken, ?_⟩
              rw [hkeeps.recvbuf, skip_full, List.length_drop, hbyte, List.length_cons]
              omega
            · exact Or.inl hunbroken

/-! ### The other messages -/

theorem handleShutdown_handled (h : Ready env c) {b : UInt8} {t : Bytes}
    (hbyte : c.recvbuf.full = b :: t) (htype : b &&& 0xf0 = shutdown) :
    Handled env c (c.handleShutdown env (b &&& 0x0f)) := by
  rw [handleShutdown]
  by_cases hshort : c.recvbuf.fullbytes < shutdownLength (b &&& 0x0f)
  · rw [if_pos hshort]
    refine Or.inr ⟨h, ?_⟩
    rw [StreamBuffer.fullbytes, hbyte] at hshort
    rw [hbyte]
    exact waits_shutdown htype hshort
  · rw [if_neg hshort]
    have hskip : Ready env (c.skip (shutdownLength (b &&& 0x0f))) := h.congr rfl rfl rfl rfl
    obtain ⟨c', hbreak, hbroken⟩ := hskip.breaks .shutdown
    rw [hbreak]
    exact Or.inl hbroken

theorem handle_handled (h : Ready env c) {b : UInt8} {t : Bytes} (hbyte : c.recvbuf.full = b :: t)
    (hfits : MessageFits env c b) {result : Exec (Connection × Bool)}
    (hresult : c.handle env (b &&& 0xf0) (b &&& 0x0f) = some result) : Handled env c result := by
  rw [handle] at hresult
  by_cases hdata : b &&& 0xf0 = dataSegment
  · rw [if_pos hdata] at hresult
    cases hresult
    exact handleDataSegment_handled h hbyte hdata (hfits.2 hdata)
  rw [if_neg hdata] at hresult
  by_cases hack : b &&& 0xf0 = ackSegment
  · rw [if_pos hack] at hresult
    cases hresult
    exact handleAckSegment_handled h hbyte hack (hfits.1 hack)
  rw [if_neg hack] at hresult
  by_cases hrefuse : b &&& 0xf0 = refuseBundle
  · rw [if_pos hrefuse] at hresult
    cases hresult
    obtain ⟨c', hbreak, hbroken⟩ := h.breaks .clError
    rw [hbreak]
    exact Or.inl hbroken
  rw [if_neg hrefuse] at hresult
  by_cases halive : b &&& 0xf0 = keepalive
  · rw [if_pos halive] at hresult
    cases hresult
    have hskip : Ready env (c.skip 1) := h.congr rfl rfl rfl rfl
    refine Or.inr ⟨hskip, ?_⟩
    rw [skip_full, List.length_drop, hbyte, List.length_cons]
    omega
  rw [if_neg halive] at hresult
  by_cases hshut : b &&& 0xf0 = shutdown
  · rw [if_pos hshut] at hresult
    cases hresult
    exact handleShutdown_handled h hbyte hshut
  · rw [if_neg hshut] at hresult
    cases hresult

/-! ## The message loop -/

/-- What `process_data` leaves: a broken contact, or the front of a message. -/
def Processed (env : Env) : Exec Connection → Prop
  | .error _ => False
  | .ok c => c.contactBroken ≠ none ∨ (Ready env c ∧ Waits c.recvbuf.full)

theorem makeRoom_processed (h : c.contactBroken ≠ none ∨ (Ready env c ∧ Waits c.recvbuf.full)) :
    Processed env c.makeRoom := by
  have hmade : ∀ n, Processed env (.ok { c with recvbuf := c.recvbuf.reserve n }) := by
    intro n
    refine h.imp_right ?_
    rintro ⟨hready, hwaits⟩
    refine ⟨hready.congr rfl rfl rfl rfl, ?_⟩
    rw [StreamBuffer.reserve_full]
    exact hwaits
  rw [makeRoom]
  by_cases hfull : c.recvbuf.fullbytes = c.recvbuf.size
  · rw [if_pos hfull]
    exact hmade _
  · rw [if_neg hfull]
    by_cases htail : c.recvbuf.tailbytes = 0
    · have hinside := c.recvbuf.inside
      have hroom := c.recvbuf.le_tailbytes_reserve (c.recvbuf.size - c.recvbuf.fullbytes)
      have hpos : (c.recvbuf.reserve (c.recvbuf.size - c.recvbuf.fullbytes)).tailbytes ≠ 0 := by
        rw [StreamBuffer.fullbytes] at hfull hroom ⊢
        omega
      rw [if_pos htail]
      dsimp only
      rw [Exec.assert_bind hpos]
      exact hmade _
    · rw [if_neg htail]
      exact h

theorem processLoop_processed (fuel : Nat) (h : Survives env c) (hfuel : 0 < fuel)
    (hlength : c.contactBroken = none → c.recvbuf.full.length < fuel)
    (hfits : LoopFits env fuel c) : Processed env (c.processLoop env fuel) := by
  induction fuel generalizing c with
  | zero => exact absurd hfuel (lt_irrefl 0)
  | succ fuel ih =>
      rw [processLoop]
      cases hbyte : c.recvbuf.full with
      | nil =>
          refine h.imp_right ?_
          intro hready
          refine ⟨hready, ?_⟩
          rw [hbyte]
          exact waits_nil
      | cons b t =>
          dsimp only
          by_cases hbroken : c.contactBroken ≠ none
          · rw [if_pos hbroken]
            exact Or.inl hbroken
          rw [if_neg hbroken]
          have hready := h.resolve_left hbroken
          obtain ⟨hmessage, hnext⟩ := hfits b (by rw [hbyte]; rfl) (not_not.mp hbroken)
          cases hresult : c.handle env (b &&& 0xf0) (b &&& 0x0f) with
          | none =>
              obtain ⟨c', hbreak, hbroken'⟩ := hready.breaks .clError
              dsimp only
              rw [hbreak]
              exact Or.inl hbroken'
          | some result =>
              have hhandled := handle_handled hready hbyte hmessage hresult
              rw [hresult] at hnext
              cases result with
              | error s => exact absurd hhandled id
              | ok r =>
                  obtain ⟨c', ok⟩ := r
                  cases ok with
                  | false =>
                      apply makeRoom_processed
                      exact hhandled
                  | true =>
                      have hlen := hlength (not_not.mp hbroken)
                      have hpos : 0 < c.recvbuf.full.length := by
                        rw [hbyte]
                        exact Nat.succ_pos _
                      apply ih _ (by omega) _ (hnext c' rfl)
                      · exact hhandled.imp_right fun hdone => hdone.1
                      · intro hunbroken
                        have hless := (hhandled.resolve_left (not_not.mpr hunbroken)).2
                        omega

end Handlers

end Dtn2.StreamConvergenceLayer
