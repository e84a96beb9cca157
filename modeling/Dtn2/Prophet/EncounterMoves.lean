import Dtn2.Prophet.Encounter
import Mathlib.Logic.Relation

/-!
# What an encounter can do

Each handler of an encounter is a series of moves: a hello is sent, a peer is recognized, a phase is
entered. A move names the state in which it is made, so that an invariant of encounters only has to
be checked for the moves. A handler that reports a failure leaves a session that does nothing more.
-/

namespace Dtn2

namespace Prophet

/-- A request repeats an open one, or is for a bundle that was offered. -/
def AskedFor (opened : List BundleTLVEntry) (offers : List BundleTLVEntry) (r : BundleTLVEntry) :
    Prop :=
  r.key ∈ opened.map BundleTLVEntry.key ∨ ∃ o ∈ offers, o.ack = false ∧ o.key = r.key

namespace Encounter

/-- The moves of an encounter. The peer delivers what `R` allows; with the requests that are open, an
offer is only taken if `A` allows it. -/
inductive Move (R : Message → Body → Prop) (A : BundleResponseList → BundleOfferList → Prop) :
    Encounter → Encounter → Prop
  | quiet (e : Encounter) (tid nextTid timeout helloRate : UInt32) (dataSent dataRcvd : Int)
      (remoteRibd : Dictionary) :
      Move R A e { e with
        tid := tid, nextTid := nextTid, timeout := timeout, helloRate := helloRate
        dataSent := dataSent, dataRcvd := dataRcvd, remoteRibd := remoteRibd }
  | receive (e : Encounter) (m : Message) (body : Body) (hr : R m body)
      (hs : ∀ list, body = .offer list → e.state ≠ .sendDr ∧ e.state ≠ .request) :
      Move R A e { e with log := e.log ++ [.received m body] }
  | bundle (e : Encounter) (b : Bundle) : Move R A e { e with log := e.log ++ [.bundle b] }
  | syn (e : Encounter) (hr : HeaderResult) (tid : UInt32) (timer : UInt8) (hs : e.state = .synsent) :
      Move R A e { e with
        synsent := true
        log := e.log ++ [.sent (e.message hr tid [.hello .syn timer e.peers.localEid])] }
  | synack (e : Encounter) (hr : HeaderResult) (tid : UInt32) (timer : UInt8)
      (hs : e.state = .synrcvd) :
      Move R A e { e with
        synsent := true
        log := e.log ++ [.sent (e.message hr tid [.hello .synack timer e.peers.localEid])] }
  | ack (e : Encounter) (hr : HeaderResult) (tid : UInt32) (timer : UInt8) (hs : e.estab = true) :
      Move R A e { e with
        log := e.log ++ [.sent (e.message hr tid [.hello .ack timer e.peers.localEid])] }
  | rstack (e : Encounter) (hr : HeaderResult) (tid : UInt32) (timer : UInt8)
      (hs : ∃ m body, .received m body ∈ e.log) :
      Move R A e { e with
        log := e.log ++ [.sent (e.message hr tid [.hello .rstack timer e.peers.localEid])] }
  | hearSyn (e : Encounter) (m : Message) (timer : UInt8) (sender : Bytes)
      (hm : .received m (.hello .syn timer sender) ∈ e.log) (hs : e.estab = false) :
      Move R A e { e with remoteInstance := m.senderInstance, state := .synrcvd }
  | hearSynack (e : Encounter) (m : Message) (timer : UInt8) (sender : Bytes)
      (hm : .received m (.hello .synack timer sender) ∈ e.log) (hs : e.estab = false)
      (hc : e.localInstance = m.receiverInstance) :
      Move R A e { e with remoteInstance := m.senderInstance, state := .estab, estab := true }
  | hearAck (e : Encounter) (m : Message) (timer : UInt8) (sender : Bytes)
      (hm : .received m (.hello .ack timer sender) ∈ e.log) (hs : e.estab = false)
      (hstate : e.state = .synrcvd) (ha : e.remoteInstance = m.senderInstance)
      (hc : e.localInstance = m.receiverInstance) :
      Move R A e { e with state := .estab, estab := true }
  | phase (e : Encounter) (s : State) (hs : e.estab = true)
      (hphase : s = .waitDict ∨ s = .waitRib ∨ s = .offer ∨ s = .waitInfo) :
      Move R A e { e with state := s }
  | dictionary (e : Encounter) (hr : HeaderResult) (tid : UInt32) (d : Dictionary)
      (nodes : List RIBNode) (relay custody internet : Bool) (hs : e.estab = true) :
      Move R A e { e with
        localRibd := d
        state := .sendDr
        log := e.log ++ [.sent (e.message hr tid [.ribd d, .rib nodes relay custody internet])] }
  | offer (e : Encounter) (hr : HeaderResult) (tid : UInt32) (list : BundleOfferList)
      (hs : e.estab = true) :
      Move R A e { e with log := e.log ++ [.sent (e.message hr tid [.offer list])] }
  | takeOffer (e : Encounter) (m : Message) (list : BundleOfferList) (hr : R m (.offer list))
      (hs : e.state = .sendDr ∨ e.state = .request) (ha : A e.localResponse list)
      (hest : e.estab = true) :
      Move R A e { e with
        remoteOffers := list
        state := .request
        log := e.log ++ [.received m (.offer list)] }
  | response (e : Encounter) (hr : HeaderResult) (tid : UInt32) (list : BundleResponseList)
      (hs : e.state = .request)
      (hlist : ∀ r ∈ list.list, AskedFor e.localResponse.list e.remoteOffers.list r) :
      Move R A e { e with
        localResponse := list, log := e.log ++ [.sent (e.message hr tid [.response list])] }
  | arrival (e : Encounter) (list : BundleResponseList)
      (hlist : list.list.Sublist e.localResponse.list) :
      Move R A e { e with localResponse := list }

structure Failed (e e' : Encounter) : Prop where
  peers : e'.peers = e.peers
  localInstance : e'.localInstance = e.localInstance
  synsender : e'.synsender = e.synsender
  estab : e'.estab = e.estab
  remote : e.estab = true → e'.remoteInstance = e.remoteInstance
  log : e'.log = e.log

/-- A handler is a series of moves, at the end of which it may give up. -/
inductive Moves (R : Message → Body → Prop) (A : BundleResponseList → BundleOfferList → Prop) :
    Encounter → Encounter × Bool → Prop
  | done (e : Encounter) : Moves R A e (e, true)
  | fail {e e' : Encounter} (h : Failed e e') : Moves R A e (e', false)
  | step {e e' : Encounter} {r : Encounter × Bool} (h : Move R A e e') (hr : Moves R A e' r) : Moves R A e r

variable {R : Message → Body → Prop} {A : BundleResponseList → BundleOfferList → Prop} {env : Env} {e : Encounter}

theorem Moves.of_move {e e' : Encounter} (h : Move R A e e') : Moves R A e (e', true) :=
  .step h (.done e')

theorem Moves.of_failed {r : Encounter × Bool} (hr : r.2 = false) (h : Failed e r.1) :
    Moves R A e r := by
  obtain ⟨e', ok⟩ := r
  cases hr
  exact .fail h

theorem Moves.trans {r : Encounter × Bool} {r' : Encounter × Bool} (h : Moves R A e r)
    (hok : r.2 = true) (hr : Moves R A r.1 r') : Moves R A e r' := by
  induction h with
  | done e => exact hr
  | fail h => cases hok
  | step h _ ih => exact .step h (ih hok hr)

theorem Moves.keep {Inv Lost : Encounter → Prop} (hmove : ∀ e e', Move R A e e' → Inv e → Inv e')
    (hfail : ∀ e e', Failed e e' → Inv e → Lost e') {r : Encounter × Bool} (h : Moves R A e r)
    (he : Inv e) : (r.2 = true → Inv r.1) ∧ (r.2 = false → Lost r.1) := by
  induction h with
  | done e => exact ⟨fun _ => he, fun h => by cases h⟩
  | fail h => exact ⟨fun h => (by cases h), fun _ => hfail _ _ h he⟩
  | step h _ ih => exact ih (hmove _ _ h he)

/-! ## Sending -/

theorem sendBodies_cases (env : Env) (hr : HeaderResult) (tid : UInt32) (bodies : List Body)
    (e : Encounter) : ∃ next t,
      e.sendBodies env hr tid bodies =
        ({ e with
          nextTid := next, dataSent := env.now
          log := e.log ++ [.sent (e.message hr t bodies)] }, true) ∨
      e.sendBodies env hr tid bodies = ({ e with nextTid := next }, false) := by
  unfold sendBodies sendTlv
  split
  · refine ⟨e.takeTid.nextTid, e.takeTid.nextTid, ?_⟩
    split
    · exact Or.inl rfl
    · exact Or.inr rfl
  · refine ⟨e.nextTid, tid, ?_⟩
    split
    · exact Or.inl rfl
    · exact Or.inr rfl

/-- The flag `synsent_` after a hello. -/
def marks (hf : HelloHf) (synsent : Bool) : Bool :=
  match hf with
  | .syn => true
  | .synack => true
  | _ => synsent

theorem sendHello_cases (env : Env) (hf : HelloHf) (hr : HeaderResult) (tid : UInt32)
    (e : Encounter) : ∃ next t,
      e.sendHello env hf hr tid = (e, true) ∨
      e.sendHello env hf hr tid =
        ({ e with
          nextTid := next, dataSent := env.now, synsent := marks hf e.synsent
          log := e.log ++
            [.sent (e.message hr t [.hello hf env.params.helloInterval e.peers.localEid])] }, true) ∨
      e.sendHello env hf hr tid = ({ e with nextTid := next }, false) := by
  obtain ⟨next, t, hsend⟩ := sendBodies_cases env hr tid
    [.hello hf env.params.helloInterval e.peers.localEid] e
  refine ⟨next, t, ?_⟩
  unfold sendHello
  split
  · exact Or.inl rfl
  · right
    rcases hsend with hsend | hsend
    · left
      cases hf <;> simp [hsend, marks]
    · right
      simp [hsend]

theorem failed_refl (e : Encounter) : Failed e e := ⟨rfl, rfl, rfl, rfl, fun _ => rfl, rfl⟩

def Allowed (hf : HelloHf) (e : Encounter) : Prop :=
  match hf with
  | .syn => e.state = .synsent
  | .synack => e.state = .synrcvd
  | .ack => e.estab = true
  | .rstack => ∃ m body, .received m body ∈ e.log
  | _ => False

theorem Moves.of_same (ok : Bool) : Moves R A e (e, ok) := by
  cases ok with
  | false => exact .fail (failed_refl e)
  | true => exact .done e

theorem sendHello_moves {hf : HelloHf} (hr : HeaderResult) (tid : UInt32) (h : Allowed hf e) :
    Moves R A e (e.sendHello env hf hr tid) := by
  obtain ⟨next, t, hsend | hsend | hsend⟩ := sendHello_cases env hf hr tid e
  · rw [hsend]
    exact .done e
  · rw [hsend]
    refine .step (.quiet e e.tid next e.timeout e.helloRate env.now e.dataRcvd e.remoteRibd) ?_
    cases hf with
    | syn => exact .of_move (.syn _ hr t env.params.helloInterval h)
    | synack => exact .of_move (.synack _ hr t env.params.helloInterval h)
    | ack => exact .of_move (.ack _ hr t env.params.helloInterval h)
    | rstack => exact .of_move (.rstack _ hr t env.params.helloInterval h)
    | unknown => exact h.elim
    | unnamed n => exact h.elim
  · rw [hsend]
    exact .fail ⟨rfl, rfl, rfl, rfl, fun _ => rfl, rfl⟩

/-- A dictionary is sent together with the routing information base, or the handler gives up. -/
theorem sendDictionaryRib_cases (env : Env) (e : Encounter) :
    (∃ next t d nodes relay custody internet, e.sendDictionaryRib env =
      ({ e with
        localRibd := d, nextTid := next, dataSent := env.now
        log := e.log ++ [.sent (e.message .noSuccessAck t
          [.ribd d, .rib nodes relay custody internet])] }, true)) ∨
    ((e.sendDictionaryRib env).2 = false ∧ Failed e (e.sendDictionaryRib env).1) := by
  unfold sendDictionaryRib
  split
  · exact Or.inr ⟨rfl, failed_refl e⟩
  · split
    · exact Or.inr ⟨rfl, failed_refl e⟩
    · rename_i d hd
      dsimp only
      split
      · exact Or.inr ⟨rfl, rfl, rfl, rfl, rfl, fun _ => rfl, rfl⟩
      · rename_i rib hrib
        obtain ⟨nodes, -, rfl⟩ := Option.map_eq_some_iff.mp hrib
        obtain ⟨next, t, hsend | hsend⟩ := sendBodies_cases env .noSuccessAck 0
          [.ribd (d.withRoles e.roleSender e.roleReceiver),
            .rib nodes env.params.relayNode env.core.custodyAccepted env.params.internetGw]
          { e with localRibd := d.withRoles e.roleSender e.roleReceiver }
        · rw [hsend]
          exact Or.inl ⟨next, t, _, nodes, _, _, _, rfl⟩
        · rw [hsend]
          exact Or.inr ⟨rfl, rfl, rfl, rfl, rfl, fun _ => rfl, rfl⟩

theorem createDr_moves (he : e.estab = true) : Moves R A e (e.createDr env) := by
  unfold createDr
  rcases sendDictionaryRib_cases env (e.setState .createDr) with
    ⟨next, t, d, nodes, relay, custody, internet, hsend⟩ | ⟨hok, hfailed⟩
  · rw [hsend]
    refine .step (.quiet e e.tid next e.timeout e.helloRate env.now e.dataRcvd e.remoteRibd) ?_
    exact .of_move (.dictionary _ .noSuccessAck t d nodes relay custody internet he)
  · simp only [hok, Bool.false_eq_true, if_false]
    exact .of_failed hok ⟨hfailed.peers, hfailed.localInstance, hfailed.synsender, hfailed.estab,
      hfailed.remote, hfailed.log⟩

theorem sendDictionaryRib_moves (he : e.estab = true) (hs : e.state = .sendDr) :
    Moves R A e (e.sendDictionaryRib env) := by
  rcases sendDictionaryRib_cases env e with
    ⟨next, t, d, nodes, relay, custody, internet, hsend⟩ | ⟨hok, hfailed⟩
  · rw [hsend]
    refine .step (.quiet e e.tid next e.timeout e.helloRate env.now e.dataRcvd e.remoteRibd) ?_
    have hmove := Move.dictionary (R := R) (A := A) { e with nextTid := next, dataSent := env.now }
      .noSuccessAck t d nodes relay custody internet he
    rw [← hs] at hmove
    exact .of_move hmove
  · exact .of_failed hok hfailed

theorem sendOffer_moves (he : e.estab = true) : Moves R A e (e.sendOffer env) := by
  unfold sendOffer
  obtain ⟨next, t, hsend | hsend⟩ := sendBodies_cases env .noSuccessAck 0
    [.offer (getBundleOffer env.core e.remoteRibd env.offered env.newAcks)] e
  · rw [hsend]
    refine .step (.quiet e e.tid next e.timeout e.helloRate env.now e.dataRcvd e.remoteRibd) ?_
    exact .of_move (.offer _ .noSuccessAck t _ he)
  · rw [hsend]
    exact .fail ⟨rfl, rfl, rfl, rfl, fun _ => rfl, rfl⟩

/-! ## Responses -/

theorem respondTo_asked (core : BundleCore) (d : Dictionary) (o : BundleTLVEntry) (s : Answer) :
    ∀ r ∈ (respondTo core d o s).list.list,
      r.key ∈ s.list.list.map BundleTLVEntry.key ∨ (o.ack = false ∧ o.key = r.key) := by
  intro r hr
  have hkeep : r ∈ s.list.list → r.key ∈ s.list.list.map BundleTLVEntry.key :=
    List.mem_map_of_mem
  unfold respondTo at hr
  dsimp only at hr
  split at hr
  · split at hr
    · unfold ackBundle at hr
      split at hr
      · exact Or.inl (hkeep hr)
      · exact Or.inl (hkeep hr)
    · exact Or.inl (hkeep hr)
  · split at hr
    · exact Or.inl (hkeep hr)
    · rename_i hack
      split at hr
      · exact Or.inl (hkeep hr)
      · dsimp only at hr
        cases hadd : s.list.addEntry ⟨o.creationTs, o.seqno, o.sid,
            o.custody && core.custodyAccepted, true, false⟩ with
        | none =>
            rw [hadd] at hr
            exact Or.inl (hkeep hr)
        | some l =>
            rw [hadd, Option.getD_some, BundleEntryList.addEntry_list hadd, List.mem_append,
              List.mem_singleton] at hr
            rcases hr with hr | rfl
            · exact Or.inl (hkeep hr)
            · exact Or.inr ⟨by simpa using hack, rfl⟩

theorem response_asked (env : Env) (offers : BundleOfferList) (list : BundleResponseList)
    (d : Dictionary) :
    ∀ r ∈ (TLVCreator.response env offers list d).list, AskedFor list.list offers.list r := by
  unfold TLVCreator.response
  suffices h : ∀ (entries : List BundleTLVEntry) (s : Answer),
      ∀ r ∈ (entries.foldl (fun s e => respondTo env.core d e
        { s with bundles := env.order e s.bundles }) s).list.list,
      AskedFor s.list.list entries r from h _ _
  intro entries
  induction entries with
  | nil => exact fun s r hr => Or.inl (List.mem_map_of_mem hr)
  | cons o rest ih =>
      intro s r hr
      rcases ih _ r hr with hold | ⟨o', ho', hoffer⟩
      · obtain ⟨r', hr', hkey⟩ := List.mem_map.mp hold
        rcases respondTo_asked env.core d o _ r' hr' with hold | ⟨hack, hoffer⟩
        · rw [hkey] at hold
          exact Or.inl hold
        · exact Or.inr ⟨o, List.mem_cons_self, hack, hoffer.trans hkey⟩
      · exact Or.inr ⟨o', List.mem_cons_of_mem _ ho', hoffer⟩

theorem sendResponse_moves (he : e.estab = true) (hs : e.state = .request) :
    Moves R A e (e.sendResponse env) := by
  have hasked := response_asked env e.remoteOffers e.localResponse e.localRibd
  unfold sendResponse
  dsimp only
  obtain ⟨next, t, hsend | hsend⟩ := sendBodies_cases env .noSuccessAck 0
    [.response (TLVCreator.response env e.remoteOffers e.localResponse e.localRibd)]
    { e with localResponse := TLVCreator.response env e.remoteOffers e.localResponse e.localRibd }
  · rw [hsend]
    refine .step (.quiet e e.tid next e.timeout e.helloRate env.now e.dataRcvd e.remoteRibd) ?_
    refine .step (.response _ .noSuccessAck t _ hs hasked) ?_
    split
    · exact .of_move (.phase _ .waitInfo he (Or.inr (Or.inr (Or.inr rfl))))
    · exact .done _
  · rw [hsend, if_neg (fun h => Bool.false_ne_true h.2)]
    exact .fail ⟨rfl, rfl, rfl, rfl, fun _ => rfl, rfl⟩

/-! ## The handlers -/

/-- Before a session is established, an encounter is in a state of the hello procedure; after that it
never is. -/
def Phased (e : Encounter) : Prop :=
  e.estab = false ↔ e.state = .waitNb ∨ e.state = .synsent ∨ e.state = .synrcvd

theorem Phased.move {e e' : Encounter} (hmove : Move R A e e') (h : Phased e) : Phased e' := by
  unfold Phased at h ⊢
  cases hmove with
  | hearSyn m timer sender hm hs => simp [hs]
  | hearSynack m timer sender hm hs hc => simp
  | hearAck m timer sender hm hs hstate ha hc => simp
  | phase s hs hphase => rcases hphase with rfl | rfl | rfl | rfl <;> simp [hs]
  | dictionary hr tid d nodes relay custody internet hs => simp [hs]
  | takeOffer m list hr hs ha hest => simp [hest]
  | _ => exact h

theorem Phased.estab_of {e : Encounter} (h : Phased e) {s : State} (hs : e.state = s)
    (hne : ¬ (s = .waitNb ∨ s = .synsent ∨ s = .synrcvd)) : e.estab = true := by
  rw [Phased, hs] at h
  rcases Bool.eq_false_or_eq_true e.estab with he | he
  · exact he
  · exact absurd (h.mp he) hne

theorem sendAck_moves (he : e.estab = true) : Moves R A e (e.sendAck env) :=
  sendHello_moves _ _ he

theorem sendRstack_moves {m : Message} {body : Body} (hm : .received m body ∈ e.log) :
    Moves R A e (e.sendRstack env) := sendHello_moves _ _ ⟨m, body, hm⟩

theorem sendSynack_moves (hs : e.state = .synrcvd) : Moves R A e (e.sendSynack env) :=
  sendHello_moves _ _ hs

theorem sendSyn_moves (hs : e.state = .synsent) : Moves R A e (e.sendSyn env) :=
  .step (.quiet e e.tid e.takeTid.nextTid e.timeout e.helloRate e.dataSent e.dataRcvd e.remoteRibd)
    (sendHello_moves (e := e.takeTid) _ _ hs)

theorem Moves.of_helloRate (rate : UInt32) {r : Encounter × Bool}
    (h : Moves R A { e with helloRate := rate } r) : Moves R A e r :=
  .step (.quiet e e.tid e.nextTid e.timeout rate e.dataSent e.dataRcvd e.remoteRibd) h

theorem handleSyn_moves {m : Message} {timer : UInt8} {sender : Bytes}
    (hm : .received m (.hello .syn timer sender) ∈ e.log) : Moves R A e (e.handleSyn env m) := by
  unfold handleSyn
  split
  · rename_i he
    exact .of_helloRate 2 (sendAck_moves he)
  · rename_i he
    split
    · dsimp only
      refine .step (.hearSyn e m timer sender hm (by simpa using he)) ?_
      unfold sendSynack
      obtain ⟨next, t, hsend | hsend | hsend⟩ := sendHello_cases env .synack .noSuccessAck e.tid
        { e with remoteInstance := m.senderInstance }
      · rw [hsend]
        exact .done _
      · rw [hsend]
        refine .step (.quiet _ e.tid next e.timeout e.helloRate env.now e.dataRcvd e.remoteRibd) ?_
        exact .of_move (.synack _ .noSuccessAck t env.params.helloInterval rfl)
      · rw [hsend]
        exact .fail ⟨rfl, rfl, rfl, rfl, fun _ => rfl, rfl⟩
    · exact .done e

theorem handleSynack_moves {m : Message} {timer : UInt8} {sender : Bytes}
    (hm : .received m (.hello .synack timer sender) ∈ e.log) : Moves R A e (e.handleSynack env m) := by
  unfold handleSynack
  split
  · rename_i he
    exact .of_helloRate 2 (sendAck_moves he)
  · rename_i he
    have hest : e.estab = false := by simpa using he
    split
    · split
      · rename_i hc
        dsimp only
        unfold sendAck
        obtain ⟨next, t, hsend | hsend | hsend⟩ := sendHello_cases env .ack .noSuccessAck e.tid
          { e with helloRate := 0, remoteInstance := m.senderInstance }
        · rw [hsend]
          exact .of_helloRate 0 (.of_move (.hearSynack _ m timer sender hm hest hc))
        · rw [hsend]
          refine .step (.quiet e e.tid next e.timeout 0 env.now e.dataRcvd e.remoteRibd) ?_
          refine .step (.hearSynack _ m timer sender hm hest hc) ?_
          exact .of_move (.ack _ .noSuccessAck t env.params.helloInterval rfl)
        · rw [hsend]
          refine .fail ⟨rfl, rfl, rfl, rfl, fun h => ?_, rfl⟩
          rw [hest] at h
          cases h
      · exact sendRstack_moves hm
    · exact .done e

theorem setState_moves (s : State) (he : e.estab = true)
    (hs : s = .waitDict ∨ s = .waitRib ∨ s = .offer ∨ s = .waitInfo) :
    Moves R A e (e.setState s, true) := .of_move (.phase e s he hs)

theorem handleAck_moves {m : Message} {timer : UInt8} {sender : Bytes} {known : Bool}
    (hm : .received m (.hello .ack timer sender) ∈ e.log) (hp : Phased e)
    (hknown : known = true →
      e.remoteInstance = m.senderInstance ∧ e.localInstance = m.receiverInstance) :
    Moves R A e (e.handleAck env known) := by
  unfold handleAck
  split
  · exact sendRstack_moves hm
  · split
    · exact sendRstack_moves hm
    · rename_i hs
      split
      · rename_i hk
        have hest : e.estab = false := hp.mpr (Or.inr (Or.inr hs))
        exact .of_move (.hearAck e m timer sender hm hest hs (hknown hk).1 (hknown hk).2)
      · exact sendRstack_moves hm
    · rename_i hs
      exact setState_moves _ (hp.estab_of hs (by decide)) (Or.inl rfl)
    · rename_i hs
      exact setState_moves _ (hp.estab_of hs (by decide)) (Or.inl rfl)
    · rename_i hs
      exact createDr_moves (hp.estab_of hs (by decide))
    · rename_i hs
      split
      · split
        · exact createDr_moves (hp.estab_of hs (by decide))
        · exact setState_moves _ (hp.estab_of hs (by decide)) (Or.inl rfl)
      · exact .done e
    · exact .done e

theorem negotiate_eq (env : Env) (timer : UInt8) (e : Encounter) :
    ∃ t, e.negotiate env timer = { e with timeout := t } := by
  unfold negotiate
  split
  · exact ⟨_, rfl⟩
  · exact ⟨e.timeout, rfl⟩

theorem handleHello_moves {m : Message} {hf : HelloHf} {timer : UInt8} {sender : Bytes}
    (hm : .received m (.hello hf timer sender) ∈ e.log) (hp : Phased e) :
    Moves R A e (e.handleHello env m hf timer) := by
  unfold handleHello
  dsimp only
  obtain ⟨t, ht⟩ := negotiate_eq env timer e
  rw [ht]
  refine .step (.quiet e e.tid e.nextTid t e.helloRate e.dataSent e.dataRcvd e.remoteRibd) ?_
  cases hf with
  | syn => exact handleSyn_moves hm
  | synack => exact handleSynack_moves hm
  | ack =>
      refine handleAck_moves hm hp ?_
      intro hknown
      simp only [Bool.and_eq_true, decide_eq_true_eq] at hknown
      exact ⟨hknown.1.1, hknown.2⟩
  | rstack =>
      exact .of_same _
  | unknown => exact .done _
  | unnamed n => exact .done _

theorem takeRibd_moves (d : Dictionary) (he : e.estab = true) : Moves R A e (e.takeRibd d, true) :=
  .step (.quiet e e.tid e.nextTid e.timeout e.helloRate e.dataSent e.dataRcvd
    (d.withRoles e.roleSender e.roleReceiver))
    (.of_move (.phase _ .waitRib he (Or.inr (Or.inl rfl))))

theorem handleRibd_moves (d : Dictionary) (he : e.estab = true) :
    Moves R A e (e.handleRibd env d) := by
  unfold handleRibd
  split
  · split
    · exact .of_same false
    · exact takeRibd_moves d he
  · exact takeRibd_moves d he
  · exact takeRibd_moves d he
  · exact sendOffer_moves he
  · exact .of_same false

theorem handleRib_moves (he : e.estab = true) : Moves R A e (e.handleRib env) := by
  unfold handleRib
  split
  · exact (setState_moves .offer he (Or.inr (Or.inr (Or.inl rfl)))).trans rfl (sendOffer_moves he)
  · exact .of_same false

theorem handleOffer_moves {m : Message} {list : BundleOfferList} (hr : R m (.offer list))
    (he : e.estab = true)
    (ha : e.state = .sendDr ∨ e.state = .request → A e.localResponse list) :
    Moves R A e (handleOffer env list { e with log := e.log ++ [.received m (.offer list)] }) := by
  unfold handleOffer
  split
  · rename_i hs
    exact .step (.takeOffer e m list hr hs (ha hs) he) (sendResponse_moves he rfl)
  · rename_i hs
    refine .step (.receive e m (.offer list) hr fun _ _ => not_or.mp hs) ?_
    split
    · exact .of_same true
    · exact .of_same false

theorem sendRequested_moves (r : BundleTLVEntry) : Moves R A e (sendRequested env e r, true) := by
  unfold sendRequested
  split
  · rename_i b hb
    split
    · exact .step (.quiet e e.tid e.nextTid e.timeout e.helloRate env.now e.dataRcvd e.remoteRibd)
        (.of_move (.bundle _ b))
    · exact .done e
  · exact .done e

theorem sendAllRequested_moves (list : List BundleTLVEntry) (e : Encounter) :
    Moves R A e (list.foldl (sendRequested env) e, true) := by
  induction list generalizing e with
  | nil => exact .done e
  | cons r rest ih => exact (sendRequested_moves r).trans rfl (ih _)

theorem handleResponse_moves (list : BundleResponseList) (he : e.estab = true) :
    Moves R A e (e.handleResponse env list) := by
  unfold handleResponse
  split
  · exact (setState_moves .waitDict he (Or.inl rfl)).trans rfl (sendAck_moves he)
  · split
    · exact setState_moves .waitInfo he (Or.inr (Or.inr (Or.inr rfl)))
    · exact sendAllRequested_moves list.list e
  · exact .of_same false

theorem remind_moves : Moves R A e (e.remind env) := by
  unfold remind
  refine .of_helloRate 2 ?_
  dsimp only
  split
  · rename_i hs
    exact sendSyn_moves hs
  · rename_i hs
    exact sendSynack_moves hs
  · exact .done _

/-- An offer that is taken is one that `A` allows. -/
def Admits (A : BundleResponseList → BundleOfferList → Prop) (body : Body) (e : Encounter) : Prop :=
  ∀ list, body = .offer list → e.estab = true → e.state = .sendDr ∨ e.state = .request →
    A e.localResponse list

theorem Moves.followed {c : Prop} [Decidable c] {r r' : Encounter × Bool} (h : Moves R A e r)
    (hc : c → r.2 = true ∧ Moves R A r.1 r') : Moves R A e (if c then r' else r) := by
  split
  · rename_i hcond
    exact h.trans (hc hcond).1 (hc hcond).2
  · exact h

theorem Moves.phased {r : Encounter × Bool} (h : Moves R A e r) (hp : Phased e) :
    r.2 = true → Phased r.1 :=
  (h.keep (fun _ _ => Phased.move) (fun _ _ _ _ => True.intro) hp).1

theorem receive_moves {m : Message} {body : Body} {r : Encounter × Bool} (hr : R m body)
    (hbody : ∀ list, body ≠ .offer list)
    (h : Moves R A { e with log := e.log ++ [.received m body] } r) : Moves R A e r :=
  .step (.receive e m body hr fun list hlist => absurd hlist (hbody list)) h

theorem dispatchTlv_moves {m : Message} {body : Body} (hr : R m body) (hp : Phased e)
    (ha : Admits A body e) :
    Moves R A e (e.dispatchTlv env m body) := by
  have hm : .received m body ∈ e.log ++ [.received m body] :=
    List.mem_append_right _ (List.mem_singleton.mpr rfl)
  unfold dispatchTlv
  cases body with
  | hello hf timer sender =>
      refine receive_moves hr (by simp) ?_
      have hhello : Moves R A _ (handleHello env m hf timer
        { e with log := e.log ++ [.received m (.hello hf timer sender)] }) := handleHello_moves hm hp
      refine hhello.followed ?_
      rintro ⟨hok, -, hest⟩
      refine ⟨hok, ?_⟩
      split
      · exact createDr_moves hest
      · exact setState_moves _ hest (Or.inl rfl)
  | ribd d =>
      refine receive_moves hr (by simp) ?_
      dsimp only
      split
      · rename_i he
        exact handleRibd_moves d he
      · exact remind_moves
  | rib nodes relay custody internet =>
      refine receive_moves hr (by simp) ?_
      dsimp only
      split
      · rename_i he
        exact handleRib_moves he
      · exact remind_moves
  | offer list =>
      dsimp only
      split
      · rename_i he
        have hoffer : Moves R A e (handleOffer env list
          { e with log := e.log ++ [.received m (.offer list)] }) :=
          handleOffer_moves hr he (ha list rfl he)
        refine hoffer.followed ?_
        rintro ⟨hok, -, hs⟩
        exact ⟨hok, setState_moves _ ((hoffer.phased hp hok).estab_of hs (by decide)) (Or.inl rfl)⟩
      · rename_i he
        -- the hello procedure is not over, so the offer is not taken
        have hstate := hp.mp (by simpa using he)
        refine .step (.receive e m (.offer list) hr fun _ _ => ?_) remind_moves
        rcases hstate with h | h | h <;> simp [h]
  | response list =>
      refine receive_moves hr (by simp) ?_
      dsimp only
      split
      · rename_i he
        have hresponse : Moves R A _ (handleResponse env list
          { e with log := e.log ++ [.received m (.response list)] }) := handleResponse_moves list he
        refine hresponse.followed ?_
        rintro ⟨hok, -, hs⟩
        have hphased := hresponse.phased hp hok
        exact ⟨hok, createDr_moves (hphased.estab_of hs (by decide))⟩
      · exact remind_moves

/-! ## Events and runs -/

/-- All TLVs of a message are dispatched as `A` allows it. -/
def AdmitsAll (A : BundleResponseList → BundleOfferList → Prop) (m : Message) :
    (Nat → Env) → List Body → Encounter → Prop
  | _, [], _ => True
  | env, body :: rest, e => Admits A body e ∧
      ((e.dispatchTlv (env 0) m body).2 = true →
        AdmitsAll A m (fun i => env (i + 1)) rest (e.dispatchTlv (env 0) m body).1)

theorem dispatchAll_moves {m : Message} {bodies : List Body} {env : Nat → Env}
    (hr : ∀ body ∈ bodies, R m body) (hp : Phased e)
    (ha : AdmitsAll A m env bodies e) : Moves R A e (e.dispatchAll m env bodies) := by
  induction bodies generalizing env e with
  | nil => exact .done e
  | cons body rest ih =>
      have hmoves : Moves R A e (e.dispatchTlv (env 0) m body) :=
        dispatchTlv_moves (hr body List.mem_cons_self) hp ha.1
      unfold dispatchAll
      dsimp only
      split
      · rename_i hok
        exact hmoves.trans hok (ih (fun b hb => hr b (List.mem_cons_of_mem _ hb)) (hmoves.phased hp hok)
          (ha.2 hok))
      · exact hmoves

theorem timeoutAction_moves (hp : Phased e) : Moves R A e (e.timeoutAction env) := by
  unfold timeoutAction
  split
  · exact .done e
  · rename_i hs
    exact sendSyn_moves hs
  · rename_i hs
    exact sendSynack_moves hs
  · rename_i hs
    exact sendAck_moves (hp.estab_of hs (by decide))
  · rename_i hs
    have he := hp.estab_of hs (by decide)
    dsimp only
    unfold sendAck
    refine .step (.phase e .waitDict he (Or.inl rfl)) ?_
    obtain ⟨next, t, hsend | hsend | hsend⟩ := sendHello_cases env .ack .noSuccessAck e.tid e
    · rw [hsend]
      exact .done _
    · rw [hsend]
      refine .step (.quiet _ e.tid next e.timeout e.helloRate env.now e.dataRcvd e.remoteRibd) ?_
      exact .of_move (.ack _ .noSuccessAck t env.params.helloInterval he)
    · rw [hsend]
      exact .fail ⟨rfl, rfl, rfl, rfl, fun _ => rfl, rfl⟩
  · rename_i hs
    exact sendOffer_moves (hp.estab_of hs (by decide))
  · rename_i hs
    exact sendDictionaryRib_moves (hp.estab_of hs (by decide)) hs
  · rename_i hs
    exact sendResponse_moves (hp.estab_of hs (by decide)) hs
  · rename_i hs
    have he := hp.estab_of hs (by decide)
    split
    · split
      · exact createDr_moves he
      · exact setState_moves _ he (Or.inl rfl)
    · exact .done e
  · exact .of_same false

/-- The events that an encounter handles. -/
inductive Step (R : Message → Body → Prop) (A : BundleResponseList → BundleOfferList → Prop) :
    Encounter → Encounter → Prop
  | receive (e : Encounter) (env : Nat → Env) (m : Message)
      (hr : ∀ body ∈ m.list.map TLV.body, R m body)
      (ha : AdmitsAll A m env (m.list.map TLV.body) { e with dataRcvd := (env 0).now, tid := m.tid }) :
      Step R A e (e.receiveTlv env m).1
  | timeout (e : Encounter) (env : Env) : Step R A e (e.handleTimeout env)
  | bundle (e : Encounter) (env : Env) (b : Bundle) : Step R A e (e.handleBundleReceived env b)
  | interval (e : Encounter) (env : Env) : Step R A e (e.helloIntervalChanged env)

def Reachable (R : Message → Body → Prop) (A : BundleResponseList → BundleOfferList → Prop)
    (e : Encounter) : Prop :=
  ∃ env peers inst, Relation.ReflTransGen (Step R A) (new env peers inst) e

theorem removeEntry_sublist {type : BundleEntryType} (l : BundleEntryList type) (cts seq : UInt32)
    (sid : UInt16) : (l.removeEntry cts seq sid).list.Sublist l.list := List.filter_sublist

section Keep

variable {Inv Lost : Encounter → Prop} (hmove : ∀ e e', Move R A e e' → Inv e → Inv e')
  (hfail : ∀ e e', Failed e e' → Inv e → Lost e') (hphased : ∀ e, Inv e → Phased e)
  (hinv : ∀ e, Inv e → Lost e)
  (hlost : ∀ e l g, Lost e → Lost { e with localResponse := l, gone := g })

include hmove hfail hphased hinv hlost

theorem Step.keep {e e' : Encounter} (h : Step R A e e') (he : (e.gone = false → Inv e) ∧ Lost e) :
    (e'.gone = false → Inv e') ∧ Lost e' := by
  cases h with
  | receive env m hr ha =>
      unfold receiveTlv
      split
      · exact he
      · rename_i hgone
        have hstart := he.1 (by simpa using hgone)
        have hquiet := hmove _ _ (.quiet e m.tid e.nextTid e.timeout e.helloRate e.dataSent
          (env 0).now e.remoteRibd) hstart
        have hmoves := dispatchAll_moves hr (hphased _ hquiet) ha
        have hkeep := hmoves.keep hmove hfail hquiet
        dsimp only
        split
        · rename_i hok
          exact ⟨fun _ => hkeep.1 hok, hinv _ (hkeep.1 hok)⟩
        · rename_i hok
          exact ⟨fun h => (by cases h), hlost _ _ true (hkeep.2 (by simpa using hok))⟩
  | timeout env =>
      unfold handleTimeout
      split
      · exact he
      · rename_i hgone
        have hstart := he.1 (by simpa using hgone)
        have hmoves : Moves R A e (e.timeoutAction env) := timeoutAction_moves (hphased _ hstart)
        have hkeep := hmoves.keep hmove hfail hstart
        dsimp only
        split
        · refine ⟨fun h => (by cases h), hlost _ _ true ?_⟩
          rcases Bool.eq_false_or_eq_true (e.timeoutAction env).2 with hok | hok
          · exact hinv _ (hkeep.1 hok)
          · exact hkeep.2 hok
        · rename_i hok
          rw [not_or, Bool.not_eq_false] at hok
          exact ⟨fun _ => hkeep.1 hok.1, hinv _ (hkeep.1 hok.1)⟩
  | bundle env b =>
      unfold handleBundleReceived
      split
      · exact he
      · dsimp only
        split
        · exact he
        · refine ⟨fun hgone => ?_, hlost _ _ e.gone he.2⟩
          exact hmove _ _ (.arrival e _ (removeEntry_sublist _ _ _ _)) (he.1 hgone)
  | interval env =>
      unfold helloIntervalChanged
      split
      · exact he
      · rename_i hgone
        have hquiet := hmove _ _ (.quiet e e.tid e.nextTid (env.params.helloInterval.toUInt32 * 100)
          e.helloRate e.dataSent e.dataRcvd e.remoteRibd) (he.1 (by simpa using hgone))
        exact ⟨fun _ => hquiet, hinv _ hquiet⟩

omit hfail hphased hlost in
theorem new_keep {env : Env} {peers : Peers} {inst : UInt16} (hfresh : Inv (fresh env peers inst))
    (hsyn : (fresh env peers inst).synsender = true →
      Inv ((fresh env peers inst).setState .synsent)) :
    ((new env peers inst).gone = false → Inv (new env peers inst)) ∧ Lost (new env peers inst) := by
  suffices h : Inv (new env peers inst) from ⟨fun _ => h, hinv _ h⟩
  unfold new
  dsimp only
  split
  · rename_i hs
    obtain ⟨next, t, hsend | hsend | hsend⟩ := sendHello_cases env .syn .noSuccessAck 0
      (fresh env peers inst)
    · rw [hsend]
      exact hsyn hs
    · rw [hsend]
      have hquiet := hmove _ _ (.quiet _ 0 next (env.params.helloInterval.toUInt32 * 100) 0 env.now
        env.now .empty) (hsyn hs)
      exact hmove _ _ (.syn _ .noSuccessAck t env.params.helloInterval rfl) hquiet
    · rw [hsend]
      exact hmove _ _ (.quiet _ 0 next (env.params.helloInterval.toUInt32 * 100) 0 env.now env.now
        .empty) hfresh
  · exact hfresh

theorem Run.keep {e e' : Encounter} (h : Relation.ReflTransGen (Step R A) e e')
    (he : (e.gone = false → Inv e) ∧ Lost e) : (e'.gone = false → Inv e') ∧ Lost e' := by
  induction h with
  | refl => exact he
  | tail _ hstep ih => exact Step.keep hmove hfail hphased hinv hlost hstep ih

end Keep

end Encounter

end Prophet

end Dtn2
