import Dtn2.ConvLayers.Seqpacket
import Dtn2.ConvLayers.StreamRuns
import Dtn2.Framework.Guarded

/-!
# Packet boundaries

The queue of delimiters says where the packets in the send buffer end. Between two steps the buffer
holds whole messages, one for each delimiter, as long as a segment that is begun fits behind what is
filled in: `send_next_segment` writes the header there before it makes room for the data.
-/

namespace Dtn2.SeqpacketConvergenceLayer

open Framework BundleProtocol
open StreamConvergenceLayer (ackSegment lengthMessage segmentByte sendsShutdown shutdownMessage)
open StreamConvergenceLayer.Connection (Timers)

/-! ## What must hold -/

/-- The delimiters sum to what is in the buffer and still to be put there, and the packets written
are the messages in the order in which they were queued, whole and with their checksums. -/
structure Bounded (env : Env) (c : Connection) : Prop where
  sum : c.delimiters.sum = c.sendbuf.fullbytes + c.sendSegmentTodo
  packets : ∃ payloads : List Bytes, c.wire = payloads.map (packet env) ∧
    List.Forall₂ (Message.Spells env) (c.messages.take payloads.length) payloads

/-- No `ASSERT` in `send_data` fails, and the result has the property. -/
abbrev Safe {α : Type} (post : α → Prop) (x : Run α) : Prop :=
  Guarded (fun e => e = Crash.sendData) post x

section Safe

variable {α β : Type} {next : β → Prop}

theorem elsewhere_bind {x : Exec α} {f : α → Run β} (h : ∀ a, x = .ok a → Safe next (f a)) :
    Safe next (elsewhere x >>= f) := by
  cases x with
  | error s =>
      intro hs
      cases hs
  | ok a => exact h a rfl

theorem safe_check {p : Prop} [Decidable p] {f : Unit → Run β} (h : p → Safe next (f ())) :
    Safe next (elsewhere (assertThat p) >>= f) := by
  apply elsewhere_bind
  intro u hp
  exact h ((assertThat_eq_ok p u).mp hp)

theorem sendAssert_bind {p : Prop} [Decidable p] (h : p) (f : Unit → Run β) :
    (sendAssert p >>= f) = f () := by
  rw [sendAssert, if_pos h]
  rfl

end Safe

/-! ## The queue of packets -/

/-- The packets are those on the wire and those in the buffer, in this order, and each is a message
of its own. -/
structure Queued (env : Env) (c : Connection) (sent pending : List Bytes) : Prop where
  spelled : List.Forall₂ (Message.Spells env) c.messages (sent ++ pending)
  wire : c.wire = sent.map (packet env)
  delimiters : c.delimiters = pending.map List.length
  full : c.sendbuf.full = pending.flatten
  sized : ∀ p ∈ pending, 0 < p.length ∧ p.length + 4 < 2 ^ 32

/-- Between two steps. The thread polls for write readiness only while there is a packet. -/
structure Inv (env : Env) (c : Connection) : Prop where
  todo : c.sendSegmentTodo = 0
  queued : ∃ sent pending, Queued env c sent pending
  polls : c.connecting = false → c.pollout = true → c.delimiters ≠ []
  breaking : c.contactBroken = true → c.breakingContact = true

theorem Inv.bounded {env : Env} {c : Connection} (h : Inv env c) : Bounded env c := by
  obtain ⟨sent, pending, hq⟩ := h.queued
  refine ⟨?_, sent, hq.wire, ?_⟩
  · rw [hq.delimiters, h.todo, StreamBuffer.fullbytes, hq.full, List.length_flatten]
    rfl
  · have htake := List.forall₂_take sent.length hq.spelled
    rwa [List.take_left] at htake

section Send

variable {env : Env} {c c' : Connection} {sent pending : List Bytes}

theorem Queued.congr (h : Queued env c sent pending) (hmessages : c'.messages = c.messages)
    (hwire : c'.wire = c.wire) (hdelimiters : c'.delimiters = c.delimiters)
    (hfull : c'.sendbuf.full = c.sendbuf.full) : Queued env c' sent pending :=
  ⟨by rw [hmessages]; exact h.spelled, by rw [hwire]; exact h.wire,
    by rw [hdelimiters]; exact h.delimiters, by rw [hfull]; exact h.full, h.sized⟩

/-- What the invariant does not speak of may change, and the thread may stop to poll. -/
theorem Inv.frame (h : Inv env c) (htodo : c'.sendSegmentTodo = c.sendSegmentTodo)
    (hmessages : c'.messages = c.messages) (hwire : c'.wire = c.wire)
    (hdelimiters : c'.delimiters = c.delimiters) (hfull : c'.sendbuf.full = c.sendbuf.full)
    (hpolls : c'.connecting = false → c'.pollout = true → c.connecting = false ∧ c.pollout = true)
    (hbroken : c'.contactBroken = true → c'.breakingContact = true) : Inv env c' := by
  obtain ⟨sent, pending, hq⟩ := h.queued
  refine ⟨by rw [htodo]; exact h.todo,
    ⟨sent, pending, hq.congr hmessages hwire hdelimiters hfull⟩, ?_, hbroken⟩
  intro hconnecting hpollout
  rw [hdelimiters]
  exact h.polls (hpolls hconnecting hpollout).1 (hpolls hconnecting hpollout).2

theorem Inv.congr (h : Inv env c) (htodo : c'.sendSegmentTodo = c.sendSegmentTodo)
    (hmessages : c'.messages = c.messages) (hwire : c'.wire = c.wire)
    (hdelimiters : c'.delimiters = c.delimiters) (hfull : c'.sendbuf.full = c.sendbuf.full)
    (hconnecting : c'.connecting = c.connecting) (hpollout : c'.pollout = c.pollout)
    (hbroken : c'.contactBroken = true → c'.breakingContact = true) : Inv env c' :=
  h.frame htodo hmessages hwire hdelimiters hfull
    (fun hc hp => ⟨hconnecting.symm.trans hc, hpollout.symm.trans hp⟩) hbroken

theorem afterWrite_safe {rest : List Nat} (htodo : c.sendSegmentTodo = 0)
    (hq : Queued env { c with delimiters := rest } sent pending)
    (hlast : pending = [] → c.pollout = false)
    (hbreaking : c.contactBroken = true → c.breakingContact = true) :
    Safe (fun c' => Inv env c' ∧ c'.breakingContact = c.breakingContact) (c.afterWrite rest) := by
  have hrest : rest = pending.map List.length := hq.delimiters
  have hfull : c.sendbuf.full = pending.flatten := hq.full
  cases pending with
  | nil =>
      have hempty : c.sendbuf.fullbytes = 0 := by rw [StreamBuffer.fullbytes, hfull]; rfl
      have hpollout := hlast rfl
      have hidle : ¬ c.pollout = true := by rw [hpollout]; exact Bool.false_ne_true
      simp only [Connection.afterWrite]
      rw [if_neg (by omega), if_neg hidle]
      exact Guarded.pure ⟨⟨htodo,
        ⟨sent, [], hq.congr rfl rfl rfl rfl⟩,
        fun _ hp => absurd hp hidle, hbreaking⟩, rfl⟩
  | cons p more =>
      have hpos := (hq.sized p (List.mem_cons_self ..)).1
      have hlen : c.sendbuf.fullbytes = p.length + more.flatten.length := by
        rw [StreamBuffer.fullbytes, hfull, List.flatten_cons, List.length_append]
      have hne : rest ≠ [] := by simp [hrest]
      have hhead : rest.headD 0 ≤ c.sendbuf.fullbytes := by
        rw [hrest, hlen]
        exact Nat.le_add_right _ _
      simp only [Connection.afterWrite]
      rw [if_pos (by omega), sendAssert_bind hne, sendAssert_bind hhead]
      exact Guarded.pure ⟨⟨htodo,
        ⟨sent, p :: more, hq.congr rfl rfl rfl rfl⟩,
        fun _ _ => hne, hbreaking⟩, rfl⟩

/-- No check of `send_data` fails if there is a packet, and another one if the thread polls. -/
theorem sendData_safe (hq : Queued env c sent pending)
    (htodo : c.sendSegmentTodo = 0) (hopen : c.contactBroken = false) (hne : pending ≠ [])
    (hpolls : c.connecting = false → c.pollout = true → 2 ≤ pending.length) :
    Safe (fun c' => Inv env c' ∧ (c.breakingContact = true → c'.breakingContact = true))
      (c.sendData env) := by
  cases pending with
  | nil => exact absurd rfl hne
  | cons p rest =>
      obtain ⟨hpos, hsmall⟩ := hq.sized p (List.mem_cons_self ..)
      have hdelimiters : c.delimiters = p.length :: rest.map List.length := hq.delimiters
      have htowrite : u32 (p.length + 4) = p.length + 4 := u32_of_lt hsmall
      have hfull : c.sendbuf.full = p ++ rest.flatten := hq.full
      have hpayload : c.sendbufStart env p.length = p := by
        have hnone : p.length - c.sendbuf.fullbytes = 0 := by
          rw [StreamBuffer.fullbytes, hfull, List.length_append]
          omega
        rw [Connection.sendbufStart, hnone, hfull, List.take_left]
        exact List.append_nil _
      have hbreaking : c.contactBroken = true → c.breakingContact = true := by
        intro hbroken
        exact absurd (hopen.symm.trans hbroken) Bool.false_ne_true
      have hsized : ∀ q ∈ rest, 0 < q.length ∧ q.length + 4 < 2 ^ 32 :=
        fun q hmem => hq.sized q (List.mem_cons_of_mem _ hmem)
      rw [Connection.sendData, sendAssert_bind hopen]
      split
      · rename_i hnil
        rw [hdelimiters] at hnil
        cases hnil
      rename_i payloadLength more hfront
      obtain ⟨rfl, rfl⟩ := List.cons.inj (hfront.symm.trans hdelimiters)
      have hdel : c.delimiters ≠ [] := by
        rw [hdelimiters]
        exact List.cons_ne_nil _ _
      rw [sendAssert_bind hpos, htowrite, sendAssert_bind (by omega), sendAssert_bind (by omega),
        hpayload]
      cases hwrite : c.write env with
      | taken =>
          simp only
          rw [sendAssert_bind trivial]
          have hconnected : c.connecting = false := by
            by_contra hconnecting
            rw [Connection.write, if_pos (by simpa using hconnecting)] at hwrite
            cases hwrite
          have htaken : Queued env { c with
              sendbuf := c.sendbuf.consume p.length
              wire := c.wire ++ [packet env p]
              writes := c.writes + 1
              delimiters := rest.map List.length } (sent ++ [p]) rest := by
            refine ⟨?_, ?_, rfl, ?_, hsized⟩
            · rw [List.append_assoc]
              exact hq.spelled
            · rw [List.map_append, ← hq.wire]
              rfl
            · show (c.sendbuf.consume p.length).full = rest.flatten
              rw [StreamBuffer.consume_full, hfull, List.drop_left]
          refine Guarded.mono (afterWrite_safe (c := { c with
            sendbuf := c.sendbuf.consume p.length
            wire := c.wire ++ [packet env p]
            writes := c.writes + 1 }) htodo htaken ?_ hbreaking) ?_
          · rintro rfl
            by_contra hpollout
            have htwo := hpolls hconnected (by simpa using hpollout)
            simp at htwo
          · rintro c' ⟨hinv, hsame⟩
            exact ⟨hinv, fun hb => hsame.trans hb⟩
      | wouldBlock =>
          exact Guarded.pure ⟨⟨htodo, ⟨sent, p :: rest, hq.congr rfl rfl rfl rfl⟩,
            fun _ _ => hdel, hbreaking⟩, id⟩
      | failed =>
          refine Guarded.pure ?_
          rw [Connection.breakBroken]
          split
          · rename_i hb
            exact ⟨⟨htodo, ⟨sent, p :: rest, hq.congr rfl rfl rfl rfl⟩, fun _ _ => hdel,
              fun _ => hb⟩, fun _ => hb⟩
          · exact ⟨⟨htodo, ⟨sent, p :: rest, hq.congr rfl rfl rfl rfl⟩, fun _ _ => hdel,
              fun _ => rfl⟩, fun _ => rfl⟩

theorem Queued.append {m : Message} {bs : Bytes} (h : Queued env c sent pending)
    (hspells : m.Spells env bs) (hpos : 0 < bs.length) (hsmall : bs.length + 4 < 2 ^ 32)
    (hmessages : c'.messages = c.messages ++ [m]) (hwire : c'.wire = c.wire)
    (hdelimiters : c'.delimiters = c.delimiters ++ [u32 bs.length])
    (hfull : c'.sendbuf.full = c.sendbuf.full ++ bs) : Queued env c' sent (pending ++ [bs]) := by
  refine ⟨?_, by rw [hwire, h.wire], ?_, ?_, ?_⟩
  · rw [hmessages, ← List.append_assoc]
    exact List.rel_append h.spelled (List.Forall₂.cons hspells List.Forall₂.nil)
  · rw [hdelimiters, h.delimiters, u32_of_lt (by omega), List.map_append]
    rfl
  · rw [hfull, h.full, List.flatten_append, List.flatten_singleton]
  · intro q hq
    rcases List.mem_append.mp hq with hq | hq
    · exact h.sized q hq
    · rw [List.mem_singleton.mp hq]
      exact ⟨hpos, hsmall⟩

theorem message_safe {m : Message} {bs : Bytes} (h : Inv env c) (hspells : m.Spells env bs)
    (hpos : 0 < bs.length) (hsmall : bs.length + 4 < 2 ^ 32)
    (htodo : c'.sendSegmentTodo = 0) (hmessages : c'.messages = c.messages ++ [m])
    (hwire : c'.wire = c.wire) (hdelimiters : c'.delimiters = c.delimiters ++ [u32 bs.length])
    (hfull : c'.sendbuf.full = c.sendbuf.full ++ bs)
    (hconnecting : c'.connecting = c.connecting) (hpollout : c'.pollout = c.pollout)
    (hopen : c'.contactBroken = false) :
    Safe (fun d => Inv env d ∧ (c'.breakingContact = true → d.breakingContact = true))
      (c'.sendData env) := by
  obtain ⟨sent, pending, hq⟩ := h.queued
  have hq' := hq.append hspells hpos hsmall hmessages hwire hdelimiters hfull
  refine sendData_safe hq' htodo hopen (by simp) ?_
  intro hc hp
  have hne := h.polls (hconnecting.symm.trans hc) (hpollout.symm.trans hp)
  rw [hq.delimiters] at hne
  have hlen : 0 < pending.length := List.length_pos_of_ne_nil (by simpa using hne)
  rw [List.length_append, List.length_singleton]
  omega

theorem put_bind {β : Type} {next : β → Prop} {bs : Bytes} {f : Connection → Run β}
    (h : ∀ hfit : bs.length ≤ c.sendbuf.tailbytes,
      Safe next (f { c with sendbuf := c.sendbuf.fill bs hfit })) : Safe next (c.put bs >>= f) := by
  rw [Connection.put]
  split
  · rename_i hfit
    exact h hfit
  · intro hs
    cases hs

end Send

/-! ## Acknowledgements -/

theorem lengthMessage_headerLen (type : UInt8) (len : Nat) :
    (lengthMessage type len).length = headerLen len :=
  StreamConvergenceLayer.lengthMessage_length type len

/-- The loop appends whole acknowledgements, at most a segment of them and where there is room. -/
structure Acknowledged (c c' : Connection) (total : Nat) (lens : List Nat) : Prop where
  same : ∃ b w, c' = { c with sendbuf := b, ackWindowTodo := w } ∧
    b.full = c.sendbuf.full ++ lens.flatMap (lengthMessage ackSegment)
  atMost : lens ≠ [] → total + (lens.map headerLen).sum ≤ c.params.segmentLength
  room : (lens.map headerLen).sum ≤ c.sendbuf.tailbytes

theorem Acknowledged.none {c : Connection} {w total : Nat} :
    Acknowledged c { c with ackWindowTodo := w } total [] :=
  ⟨⟨c.sendbuf, w, rfl, (List.append_nil _).symm⟩, fun h => absurd rfl h, Nat.zero_le _⟩

theorem ackLoop_safe {fuel : Nat} {c : Connection} {y : IncomingBundle} {total : Nat} :
    Safe (fun r => Acknowledged c r.1 total r.2.2) (c.ackLoop fuel y total) := by
  induction fuel generalizing c y total with
  | zero => exact Guarded.pure Acknowledged.none
  | succ fuel ih =>
      rw [Connection.ackLoop]
      split
      · exact Guarded.pure Acknowledged.none
      · split
        · exact Guarded.pure Acknowledged.none
        · simp only
          split
          · exact Guarded.pure Acknowledged.none
          · split
            · exact Guarded.pure Acknowledged.none
            · rename_i hwindow
              apply put_bind
              intro hfit
              refine Guarded.bind ih ?_
              rintro ⟨c', y', lens⟩ ⟨⟨b, w, rfl, hb⟩, hmost, hroom⟩
              refine Guarded.pure ⟨⟨b, w, rfl, ?_⟩, fun _ => ?_, ?_⟩
              · rw [hb, List.flatMap_cons, ← List.append_assoc]
                rfl
              · rw [List.map_cons, List.sum_cons]
                cases lens with
                | nil =>
                    rw [List.map_nil, List.sum_nil]
                    omega
                | cons len lens =>
                    have hrest := hmost (List.cons_ne_nil _ _)
                    simp only at hrest ⊢
                    omega
              · have hone := lengthMessage_headerLen ackSegment y.rcvdData.numContiguous
                have hput : (lengthMessage ackSegment y.rcvdData.numContiguous).length ≤
                    c.sendbuf.tailbytes := hfit
                have hleft : (lens.map headerLen).sum ≤ (c.sendbuf.fill _ hput).tailbytes := hroom
                rw [StreamBuffer.fill_tailbytes] at hleft
                show (List.map headerLen (y.rcvdData.numContiguous :: lens)).sum ≤
                  c.sendbuf.tailbytes
                rw [List.map_cons, List.sum_cons]
                omega

theorem headerLen_pos (len : Nat) : 0 < headerLen len :=
  Nat.lt_of_lt_of_le Nat.one_pos (Nat.le_add_right _ _)

theorem acks_length (lens : List Nat) :
    (lens.flatMap (lengthMessage ackSegment)).length = (lens.map headerLen).sum := by
  rw [List.length_flatMap]
  congr 1
  exact List.map_congr_left fun len _ => lengthMessage_headerLen ackSegment len

section Acks

variable {env : Env} {c : Connection}

theorem sendAcks_safe {y : IncomingBundle} {rest : List IncomingBundle} (h : Inv env c)
    (hopen : c.contactBroken = false)
    (hsmall : min c.params.segmentLength c.sendbuf.tailbytes + 4 < 2 ^ 32) :
    Safe (fun r => Inv env r.1) (c.sendAcks env y rest) := by
  rw [Connection.sendAcks]
  split
  · exact Guarded.pure h
  · refine Guarded.bind ackLoop_safe ?_
    rintro ⟨c', y', lens⟩ ⟨⟨b, w, rfl, hb⟩, hmost, hroom⟩
    simp only
    split
    · rename_i hne
      have hlen := acks_length lens
      have hpos : 0 < (lens.map headerLen).sum := by
        cases lens with
        | nil => exact absurd rfl hne
        | cons len lens =>
            have hhead := headerLen_pos len
            rw [List.map_cons, List.sum_cons]
            omega
      have hmin : (lens.map headerLen).sum ≤ c.sendbuf.tailbytes := hroom
      have hmax : 0 + (lens.map headerLen).sum ≤ c.params.segmentLength := hmost hne
      have hspells : (Message.acks lens).Spells env (lens.flatMap (lengthMessage ackSegment)) := rfl
      refine Guarded.bind (message_safe h hspells (by omega) (by omega) h.todo rfl rfl ?_ hb rfl
        rfl hopen) ?_
      · rw [hlen]
        rfl
      · rintro d ⟨hd, _⟩
        exact Guarded.pure hd
    · rename_i hnil
      have hnil : lens = [] := by simpa using hnil
      refine Guarded.pure (h.congr rfl rfl rfl rfl ?_ rfl rfl h.breaking)
      rw [hnil, List.flatMap_nil, List.append_nil] at hb
      exact hb

theorem checkDone_inv (h : Inv env c) : Inv env c.checkDone := by
  rw [Connection.checkDone]
  split
  · exact h
  · split
    · exact h.congr rfl rfl rfl rfl rfl rfl rfl h.breaking
    · exact h

theorem sendPendingAcks_safe (h : Inv env c)
    (hsmall : min c.params.segmentLength c.sendbuf.tailbytes + 4 < 2 ^ 32) :
    Safe (fun r => Inv env r.1) (c.sendPendingAcks env) := by
  rw [Connection.sendPendingAcks]
  split
  · exact Guarded.pure h
  · rename_i hopen
    split
    · exact Guarded.pure h
    · refine Guarded.bind (sendAcks_safe h (by simpa using hopen) hsmall) ?_
      rintro ⟨c', generated⟩ hinv
      exact Guarded.pure (checkDone_inv hinv)

end Acks

/-! ## Segments -/

namespace Connection

/-- A segment of the record is not begun, or `reserve` finds room for it and moves nothing, and 32
bits hold the length of its packet. -/
def Fits (c : Connection) (x : InFlightBundle) : Prop :=
  x.bytesSent = x.totalLength ∨ c.sendbuf.tailbytes < headerLen (c.nextSegment x).2 ∨
    headerLen (c.nextSegment x).2 + (c.nextSegment x).2 ≤ c.sendbuf.tailbytes ∧
      headerLen (c.nextSegment x).2 + (c.nextSegment x).2 + 4 < 2 ^ 32

instance (c : Connection) : DecidablePred c.Fits := fun _ =>
  inferInstanceAs (Decidable (_ ∨ _ ∨ _))

/-- The record that `send_next_segment` is called with. -/
def upcoming (c : Connection) : Option InFlightBundle :=
  match c.currentInflight with
  | some p => c.inflight.find? fun x => x.entry = p
  | none =>
      match c.link.queue with
      | [] => none
      | x :: _ =>
          (c.inflight ++ [InFlightBundle.new c.entries x]).find? fun y => y.entry = c.entries

/-- The segment that comes next, if one does, is not begun or finds room. -/
def Roomy (c : Connection) : Prop :=
  c.contactBroken = true ∨ (c.currentInflight = none ∧ c.contactUp = false) ∨
    ∀ x ∈ c.upcoming, c.Fits x

instance : DecidablePred Roomy := fun c =>
  inferInstanceAs (Decidable (_ ∨ _ ∨ ∀ x ∈ c.upcoming, c.Fits x))

/-- The step begins no segment, or one that finds room behind the acknowledgements in front of
it, whose packet is not too long either. -/
def RoomyStep (env : Env) (c : Connection) : Step → Prop
  | .sendPendingData =>
      min c.params.segmentLength c.sendbuf.tailbytes + 4 < 2 ^ 32 ∧
        ∀ r, c.sendPendingAcks env = .ok r → r.1.Roomy
  | _ => True

instance (env : Env) (c : Connection) : (s : Step) → Decidable (c.RoomyStep env s)
  | .sendPendingData =>
      inferInstanceAs (Decidable (_ ∧ ∀ r, c.sendPendingAcks env = .ok r → _))
  | .pollTimeout _ | .pollActivity _ | .cancelBundle _ | .breakContact | .queueBundle _ =>
      .isTrue trivial

end Connection

section Segments

variable {env : Env} {c : Connection}

theorem deref_bind {β : Type} {next : β → Prop} {p : Nat} {f : InFlightBundle → Run β}
    (h : ∀ x, (c.inflight.find? fun x => x.entry = p) = some x → Safe next (f x)) :
    Safe next (c.deref p >>= f) := by
  rw [Connection.deref]
  split
  · rename_i x hx
    exact h x hx
  · intro hs
    cases hs

theorem checkCompleted_safe {p : Nat} (h : Inv env c) : Safe (Inv env) (c.checkCompleted p) := by
  rw [Connection.checkCompleted]
  split
  · exact Guarded.pure h
  · apply deref_bind
    intro x _
    split
    · exact Guarded.pure h
    · apply safe_check
      intro _
      exact Guarded.pure (h.congr rfl rfl rfl rfl rfl rfl rfl h.breaking)

theorem finishBundle_safe {p : Nat} (h : Inv env c) : Safe (Inv env) (c.finishBundle p) := by
  rw [Connection.finishBundle]
  apply deref_bind
  intro x _
  apply safe_check
  intro _
  apply safe_check
  intro _
  exact checkCompleted_safe (h.congr rfl rfl rfl rfl rfl rfl rfl h.breaking)

theorem sendLoop_of_todo {fuel p : Nat} (htodo : c.sendSegmentTodo = 0) :
    c.sendLoop env fuel p = .ok (c, true) := by
  cases fuel with
  | zero => simp [Connection.sendLoop, htodo, pure, Except.pure]
  | succ fuel => simp [Connection.sendLoop, htodo, pure, Except.pure]

/-- `c'` is `c` with the header of a segment in the buffer, and room for the data. -/
structure Begun (c c' : Connection) (start last : Bool) (len : Nat) : Prop where
  messages : c'.messages = c.messages ++ [.segment start last len]
  wire : c'.wire = c.wire
  delimiters : c'.delimiters = c.delimiters ++ [u32 (headerLen len + len)]
  full : c'.sendbuf.full = c.sendbuf.full ++ lengthMessage (segmentByte start last) len
  todo : c'.sendSegmentTodo = len
  room : len ≤ c'.sendbuf.tailbytes
  connecting : c'.connecting = c.connecting
  pollout : c'.pollout = c.pollout
  opened : c'.contactBroken = false

theorem sendChunk_safe {c' : Connection} {p len : Nat} {start last : Bool} (h : Inv env c)
    (hb : Begun c c' start last len) (hsmall : headerLen len + len + 4 < 2 ^ 32) :
    Safe (Inv env) (c'.sendChunk env p) := by
  rw [Connection.sendChunk]
  apply deref_bind
  intro x _
  have hmin : min c'.sendSegmentTodo c'.sendbuf.tailbytes = len := by
    rw [hb.todo]
    exact Nat.min_eq_left hb.room
  simp only
  rw [hmin]
  apply elsewhere_bind
  rintro ⟨out, last'⟩ _
  apply safe_check
  intro hout
  apply put_bind
  intro hfit
  have hpos := headerLen_pos len
  have hlen : (lengthMessage (segmentByte start last) len ++ out).length = headerLen len + len := by
    rw [List.length_append, lengthMessage_headerLen, hout]
  have hspells : (Message.segment start last len).Spells env
      (lengthMessage (segmentByte start last) len ++ out) := ⟨out, hout, rfl⟩
  refine Guarded.mono (message_safe h hspells (by omega) (by omega) ?_ ?_ ?_ ?_ ?_ ?_ ?_ ?_)
    fun d hd => hd.1
  · show c'.sendSegmentTodo - len = 0
    rw [hb.todo]
    exact Nat.sub_self len
  · exact hb.messages
  · exact hb.wire
  · rw [hlen]
    exact hb.delimiters
  · show c'.sendbuf.full ++ out = _
    rw [hb.full, List.append_assoc]
  · exact hb.connecting
  · exact hb.pollout
  · exact hb.opened

theorem sendDataTodo_safe {c' : Connection} {p len : Nat} {start last : Bool} (h : Inv env c)
    (hb : Begun c c' start last len) (hsmall : headerLen len + len + 4 < 2 ^ 32) :
    Safe (fun r => Inv env r.1) (c'.sendDataTodo env p) := by
  rw [Connection.sendDataTodo]
  apply safe_check
  intro htodo
  obtain ⟨fuel, hfuel⟩ := Nat.exists_eq_succ_of_ne_zero htodo
  have hroom := hb.room
  rw [← hb.todo] at hroom
  rw [hfuel, Connection.sendLoop, if_pos ⟨htodo, by omega⟩]
  refine Guarded.bind (sendChunk_safe h hb hsmall) ?_
  intro d hd
  split
  · exact Guarded.pure hd
  · split
    · exact Guarded.pure hd
    · rw [sendLoop_of_todo hd.todo]
      exact Guarded.ok hd

theorem reserveOver_of_le {bs : Bytes} {n : Nat} (h : n ≤ c.sendbuf.tailbytes) :
    c.reserveOver env bs n = (c, bs) := by
  have hstay : c.sendbuf.reserve n = c.sendbuf := by rw [StreamBuffer.reserve, if_pos h]
  rw [Connection.reserveOver, if_pos h, hstay]

theorem sendNextSegment_safe {p : Nat} (h : Inv env c) (hopen : c.contactBroken = false)
    (hfits : ∀ x, (c.inflight.find? fun x => x.entry = p) = some x → c.Fits x) :
    Safe (fun r => Inv env r.1) (c.sendNextSegment env p) := by
  rw [Connection.sendNextSegment]
  split
  · exact Guarded.pure h
  · apply safe_check
    intro htodo
    apply deref_bind
    intro x hx
    split
    · apply safe_check
      intro _
      refine Guarded.bind (finishBundle_safe h) ?_
      intro d hd
      exact Guarded.pure hd
    · rename_i hmore
      have hfit := hfits x hx
      rw [Connection.Fits] at hfit
      split
      rename_i last len hnext
      rw [hnext] at hfit
      show Safe _ (if c.sendbuf.tailbytes < headerLen len then _ else _)
      split
      · exact Guarded.pure h
      · rename_i hheader
        have hroom : headerLen len + len ≤ c.sendbuf.tailbytes ∧
            headerLen len + len + 4 < 2 ^ 32 := by
          rcases hfit with hdone | hshort | hroom
          · exact absurd hdone hmore
          · exact absurd hshort hheader
          · exact hroom
        rw [reserveOver_of_le hroom.1]
        apply put_bind
        intro hput
        refine sendDataTodo_safe h ⟨rfl, rfl, rfl, rfl, rfl, ?_, rfl, rfl, hopen⟩ hroom.2
        show _ ≤ (c.sendbuf.fill _ hput).tailbytes
        rw [StreamBuffer.fill_tailbytes, lengthMessage_headerLen]
        omega

theorem startNextBundle_safe (h : Inv env c) (hopen : c.contactBroken = false)
    (hroomy : c.currentInflight = none → c.Roomy) :
    Safe (fun r => Inv env r.1) (c.startNextBundle env) := by
  rw [Connection.startNextBundle]
  apply safe_check
  intro hnone
  split
  · exact Guarded.pure h
  · rename_i hup
    split
    · exact Guarded.pure h
    · rename_i x queue hqueue
      rw [Connection.takeBundle, bind_assoc]
      apply safe_check
      intro _
      rw [pure_bind]
      refine sendNextSegment_safe
        (h.congr rfl rfl rfl rfl rfl rfl rfl h.breaking) hopen ?_
      intro y hy
      rcases hroomy hnone with hbroken | hdown | hfits
      · exact absurd (hopen.symm.trans hbroken) Bool.false_ne_true
      · exact absurd hdown.2 hup
      · apply hfits y
        rw [Connection.upcoming, hnone, hqueue]
        exact hy

theorem sendSegment_safe (h : Inv env c) (hopen : c.contactBroken = false) (hroomy : c.Roomy) :
    Safe (fun r => Inv env r.1) (c.sendSegment env) := by
  rw [Connection.sendSegment]
  split
  · exact startNextBundle_safe h hopen fun _ => hroomy
  · rename_i p hp
    refine sendNextSegment_safe h hopen ?_
    intro x hx
    rcases hroomy with hbroken | hdown | hfits
    · exact absurd (hopen.symm.trans hbroken) Bool.false_ne_true
    · rw [hp] at hdown
      cases hdown.1
    · apply hfits x
      rw [Connection.upcoming, hp]
      exact hx

theorem sendPendingData_safe (h : Inv env c)
    (hsmall : min c.params.segmentLength c.sendbuf.tailbytes + 4 < 2 ^ 32)
    (hroomy : ∀ r, c.sendPendingAcks env = .ok r → r.1.Roomy) :
    Safe (Inv env) (c.sendPendingData env) := by
  rw [Connection.sendPendingData]
  split
  · exact Guarded.pure h
  · rw [Connection.continueSegment, if_pos h.todo, pure_bind]
    split
    · exact Guarded.pure h
    · have hacks := sendPendingAcks_safe h hsmall
      cases hsent : c.sendPendingAcks env with
      | error e => exact hacks.of_error hsent
      | ok r =>
          obtain ⟨d, generated⟩ := r
          have hinv : Inv env d := hacks.of_ok hsent
          show Safe (Inv env) (if d.contactBroken = true then _ else _)
          split
          · exact Guarded.pure hinv
          · rename_i hopen
            refine Guarded.bind (sendSegment_safe hinv (by simpa using hopen) (hroomy _ hsent)) ?_
            rintro ⟨c', _⟩ hc'
            exact Guarded.pure hc'

end Segments

end Dtn2.SeqpacketConvergenceLayer
