import Dtn2.Prophet.Handshake

/-!
# How long a session lasts

Two encounters exchange their messages over channels that keep the order and may lose messages. Each
of them repeats what it said last when a timeout comes. A dictionary travels with the routing
information base, and a listener that has already made its offer repeats the offer for the one and
ends the session for the other.
-/

namespace Dtn2

namespace Prophet

namespace Encounter

variable {R : Message → Body → Prop} {A : BundleResponseList → BundleOfferList → Prop}
  {env : Env} {e : Encounter}

/-! ## Handlers that succeed -/

/-- A dictionary and a routing information base can be made of the node table. -/
def Tabled (env : Env) (sender receiver : Bytes) : Prop :=
  ∃ d, TLVCreator.ribd env sender receiver = some d ∧
    ∃ rib, TLVCreator.rib env (d.withRoles sender receiver) = some rib

theorem sendBodies_ok (hsend : ∀ m, env.sendMessage m = true) (hr : HeaderResult) (tid : UInt32)
    (bodies : List Body) : (e.sendBodies env hr tid bodies).2 = true := by
  unfold sendBodies sendTlv
  split <;> simp [hsend]

theorem sendHello_ok (hsend : ∀ m, env.sendMessage m = true) (hf : HelloHf) (hr : HeaderResult)
    (tid : UInt32) : (e.sendHello env hf hr tid).2 = true := by
  unfold sendHello
  split
  · rfl
  · dsimp only
    split
    · rfl
    · exact sendBodies_ok hsend hr tid _

theorem sendHello_sent (hsend : ∀ m, env.sendMessage m = true) {hf : HelloHf} (hr : HeaderResult)
    (tid : UInt32) (hs : suppressed env hf e = false) : ∃ next t,
      e.sendHello env hf hr tid =
        ({ e with
          nextTid := next, dataSent := env.now, synsent := marks hf e.synsent
          log := e.log ++
            [.sent (e.message hr t [.hello hf env.params.helloInterval e.peers.localEid])] }, true) := by
  have hok : (e.sendBodies env hr tid [.hello hf env.params.helloInterval e.peers.localEid]).2 = true :=
    sendBodies_ok hsend hr tid _
  obtain ⟨next, t, hcases | hcases⟩ := sendBodies_cases env hr tid
    [.hello hf env.params.helloInterval e.peers.localEid] e
  · refine ⟨next, t, ?_⟩
    unfold sendHello
    rw [hs]
    cases hf <;> simp [hcases, marks]
  · rw [hcases] at hok
    cases hok

theorem sendDictionaryRib_ok (hsend : ∀ m, env.sendMessage m = true)
    (htable : Tabled env e.roleSender e.roleReceiver)
    (hs : e.state = .createDr ∨ e.state = .sendDr) : (e.sendDictionaryRib env).2 = true := by
  obtain ⟨d, hd, rib, hrib⟩ := htable
  unfold sendDictionaryRib
  rw [if_neg (by rcases hs with h | h <;> simp [h]), hd]
  dsimp only
  rw [hrib]
  exact sendBodies_ok hsend _ _ _

theorem createDr_ok (hsend : ∀ m, env.sendMessage m = true)
    (htable : Tabled env e.roleSender e.roleReceiver) :
    (e.createDr env).2 = true ∧ (e.createDr env).1.state = .sendDr := by
  have hok := sendDictionaryRib_ok (e := e.setState .createDr) hsend htable (Or.inl rfl)
  unfold createDr
  dsimp only
  rw [if_pos hok]
  exact ⟨rfl, rfl⟩

theorem sendOffer_ok (hsend : ∀ m, env.sendMessage m = true) : (e.sendOffer env).2 = true :=
  sendBodies_ok hsend _ _ _

theorem sendResponse_ok (hsend : ∀ m, env.sendMessage m = true) : (e.sendResponse env).2 = true := by
  unfold sendResponse
  dsimp only
  split
  · rfl
  · exact sendBodies_ok hsend _ _ _

theorem handleSyn_ok (hsend : ∀ m, env.sendMessage m = true) (m : Message) :
    (e.handleSyn env m).2 = true := by
  unfold handleSyn
  split
  · exact sendHello_ok hsend _ _ _
  · split
    · exact sendHello_ok hsend _ _ _
    · rfl

theorem handleSynack_ok (hsend : ∀ m, env.sendMessage m = true) (m : Message) :
    (e.handleSynack env m).2 = true := by
  unfold handleSynack
  split
  · exact sendHello_ok hsend _ _ _
  · split
    · split
      · dsimp only
        split
        · rfl
        · exact sendHello_ok hsend _ _ _
      · exact sendHello_ok hsend _ _ _
    · rfl

theorem handleAck_ok (hsend : ∀ m, env.sendMessage m = true)
    (htable : Tabled env e.roleSender e.roleReceiver) (known : Bool) :
    (e.handleAck env known).2 = true := by
  unfold handleAck
  split
  · exact sendHello_ok hsend _ _ _
  · split
    · exact sendHello_ok hsend _ _ _
    · split
      · rfl
      · exact sendHello_ok hsend _ _ _
    · rfl
    · rfl
    · exact (createDr_ok hsend htable).1
    · split
      · split
        · exact (createDr_ok hsend htable).1
        · rfl
      · rfl
    · rfl

theorem handleHello_ok (hsend : ∀ m, env.sendMessage m = true)
    (htable : Tabled env e.roleSender e.roleReceiver) {hf : HelloHf}
    (hrst : hf = .rstack → e.synsent = true) (m : Message) (timer : UInt8) :
    (e.handleHello env m hf timer).2 = true := by
  obtain ⟨t, ht⟩ := negotiate_eq env timer e
  unfold handleHello
  dsimp only
  rw [ht]
  cases hf with
  | syn => exact handleSyn_ok hsend m
  | synack => exact handleSynack_ok hsend m
  | ack =>
      refine handleAck_ok hsend ?_ _
      exact htable
  | rstack => simp [hrst rfl]
  | unknown => rfl
  | unnamed n => rfl

theorem remind_ok (hsend : ∀ m, env.sendMessage m = true) : (e.remind env).2 = true := by
  unfold remind
  dsimp only
  split
  · exact sendHello_ok hsend _ _ _
  · exact sendHello_ok hsend _ _ _
  · rfl

/-! ## Steady states -/

structure Steady (e : Encounter) : Prop where
  phased : Phased e
  settled : e.estab = true →
    e.state ≠ .undefinedState ∧ e.state ≠ .estab ∧ e.state ≠ .createDr

theorem Moves.keep_true {P : Encounter → Prop} {r : Encounter × Bool}
    (hmove : ∀ x x', Move R A x x' → P x → P x') (h : Moves R A e r) (he : P e) (hok : r.2 = true) :
    P r.1 := (h.keep hmove (fun _ _ _ _ => True.intro) he).1 hok

theorem Steady.move {e e' : Encounter} (hmove : Move R A e e')
    (h : e.estab = true ∧ Steady e) : e'.estab = true ∧ Steady e' := by
  obtain ⟨hest, hsteady⟩ := h
  have hphased := hsteady.phased.move hmove
  have hsettled := hsteady.settled
  cases hmove with
  | hearSyn m timer sender hm hs => exact absurd hest (by simp [hs])
  | hearSynack m timer sender hm hs hc => exact absurd hest (by simp [hs])
  | hearAck m timer sender hm hs hstate ha hc => exact absurd hest (by simp [hs])
  | phase s hs hphase =>
      rcases hphase with rfl | rfl | rfl | rfl <;> exact ⟨hest, hphased, by simp⟩
  | dictionary hr tid d nodes relay custody internet hs => exact ⟨hest, hphased, by simp⟩
  | takeOffer m list hr hs ha hest' => exact ⟨hest, hphased, by simp⟩
  | _ => exact ⟨hest, hphased, hsettled⟩

theorem Steady.of_unestablished (hp : Phased e) (he : e.estab = false) : Steady e :=
  ⟨hp, fun h => absurd h (by simp [he])⟩

theorem Steady.moves {r : Encounter × Bool} (h : Moves R A e r) (hsteady : Steady e)
    (hok : r.2 = true) (hkept : e.estab = false → r.1.estab = false) : Steady r.1 := by
  rcases Bool.eq_false_or_eq_true e.estab with he | he
  · exact (h.keep_true (fun _ _ => Steady.move) ⟨he, hsteady⟩ hok).2
  · exact .of_unestablished (h.phased hsteady.phased hok) (hkept he)

theorem sendHello_estab (hf : HelloHf) (hr : HeaderResult) (tid : UInt32) :
    (e.sendHello env hf hr tid).1.estab = e.estab := by
  obtain ⟨next, t, hsend | hsend | hsend⟩ := sendHello_cases env hf hr tid e <;> rw [hsend]

theorem remind_estab : (e.remind env).1.estab = e.estab := by
  unfold remind
  dsimp only
  split
  · exact sendHello_estab _ _ _
  · exact sendHello_estab _ _ _
  · rfl

theorem Moves.roles {r : Encounter × Bool} (h : Moves R A e r) :
    r.1.roleSender = e.roleSender ∧ r.1.roleReceiver = e.roleReceiver := by
  have hmove : ∀ x x', Move R A x x' → x.peers = e.peers ∧ x.synsender = e.synsender →
      x'.peers = e.peers ∧ x'.synsender = e.synsender := by
    intro x x' hmove hx
    cases hmove <;> exact hx
  have hfail : ∀ x x', Failed x x' → x.peers = e.peers ∧ x.synsender = e.synsender →
      x'.peers = e.peers ∧ x'.synsender = e.synsender := by
    intro x x' hfail hx
    exact ⟨hfail.peers.trans hx.1, hfail.synsender.trans hx.2⟩
  have hkeep := h.keep hmove hfail ⟨rfl, rfl⟩
  have hsame : r.1.peers = e.peers ∧ r.1.synsender = e.synsender := by
    rcases Bool.eq_false_or_eq_true r.2 with hok | hok
    · exact hkeep.1 hok
    · exact hkeep.2 hok
  simp only [roleSender, roleReceiver, hsame, and_self]

/-- The environment of an encounter in which sends succeed, no limit of the clock is reached, and the
node table can be sent. -/
structure Calm (env : Env) (e : Encounter) : Prop where
  send : ∀ m, env.sendMessage m = true
  sent : env.now - e.dataSent ≤ env.params.helloInterval.toNat
  rcvd : env.now - e.dataRcvd ≤
    (env.params.helloDead * env.params.helloInterval.toUInt32 / 20).toNat
  table : Tabled env e.roleSender e.roleReceiver

theorem handleHello_steady {hf : HelloHf} {timer : UInt8} {sender : Bytes} {m : Message}
    (hm : .received m (.hello hf timer sender) ∈ e.log) (hcalm : Calm env e) (hsteady : Steady e)
    (hrst : hf = .rstack → e.synsent = true) {r : Encounter × Bool}
    (hr : r = if (e.handleHello env m hf timer).2 = true ∧ e.estab = false ∧
        (e.handleHello env m hf timer).1.estab = true then
      if (e.handleHello env m hf timer).1.synsender then (e.handleHello env m hf timer).1.createDr env
      else ((e.handleHello env m hf timer).1.setState .waitDict, true)
      else e.handleHello env m hf timer) : r.2 = true ∧ Steady r.1 := by
  have hmoves : Moves (fun _ _ => True) (fun _ _ => True) e (e.handleHello env m hf timer) :=
    handleHello_moves hm hsteady.phased
  have hok := handleHello_ok hcalm.send hcalm.table hrst m timer
  have hphased := hmoves.phased hsteady.phased hok
  generalize e.handleHello env m hf timer = x at hmoves hok hphased hr
  split at hr
  · rename_i hnew
    have hsettled : x.1.estab = true := hnew.2.2
    split at hr
    · have htable := hcalm.table
      rw [← hmoves.roles.1, ← hmoves.roles.2] at htable
      have hcreate := createDr_ok hcalm.send htable
      have hmoves' : Moves (fun _ _ => True) (fun _ _ => True) x.1 (x.1.createDr env) :=
        createDr_moves hsettled
      rw [hr]
      refine ⟨hcreate.1, hmoves'.phased hphased hcreate.1, fun _ => ?_⟩
      rw [hcreate.2]
      decide
    · have hmoves' : Moves (fun _ _ => True) (fun _ _ => True) x.1 (x.1.setState .waitDict, true) :=
        setState_moves .waitDict hsettled (Or.inl rfl)
      rw [hr]
      exact ⟨rfl, hmoves'.phased hphased rfl, fun _ => ⟨nofun, nofun, nofun⟩⟩
  · rename_i hold
    rw [hr]
    refine ⟨hok, hsteady.moves hmoves hok ?_⟩
    intro he
    rcases Bool.eq_false_or_eq_true x.1.estab with hest | hest
    · exact absurd ⟨hok, he, hest⟩ hold
    · exact hest

theorem Calm.hear (h : Calm env e) (m : Message) (body : Body) :
    Calm env { e with log := e.log ++ [.received m body] } := ⟨h.send, h.sent, h.rcvd, h.table⟩

/-- A hello never ends a session, if a `SYN` or `SYNACK` was sent before an `RSTACK` comes. -/
theorem dispatchTlv_hello {hf : HelloHf} {timer : UInt8} {sender : Bytes} (m : Message)
    (hcalm : Calm env e) (hsteady : Steady e) (hrst : hf = .rstack → e.synsent = true) :
    (e.dispatchTlv env m (.hello hf timer sender)).2 = true ∧
      Steady (e.dispatchTlv env m (.hello hf timer sender)).1 :=
  handleHello_steady (List.mem_append_right _ (List.mem_singleton.mpr rfl)) (hcalm.hear m _)
    ⟨hsteady.phased, hsteady.settled⟩ hrst rfl

theorem dispatchTlv_remind (env : Env) (m : Message) {body : Body} (he : e.estab = false)
    (hbody : ∀ hf timer sender, body ≠ .hello hf timer sender) :
    e.dispatchTlv env m body = remind env { e with log := e.log ++ [.received m body] } := by
  have hne : ¬ e.estab = true := by simp [he]
  unfold dispatchTlv
  cases body with
  | hello hf timer sender => exact absurd rfl (hbody hf timer sender)
  | ribd d => exact if_neg hne
  | rib nodes relay custody internet => exact if_neg hne
  | offer list => exact if_neg hne
  | response list => exact if_neg hne

theorem dispatchTlv_steady {m : Message} {body : Body} (hsteady : Steady e)
    (hbody : ∀ hf timer sender, body ≠ .hello hf timer sender)
    (hok : (e.dispatchTlv env m body).2 = true) : Steady (e.dispatchTlv env m body).1 := by
  have hmoves : Moves (fun _ _ => True) (fun _ _ => True) e (e.dispatchTlv env m body) :=
    dispatchTlv_moves trivial hsteady.phased fun _ _ _ _ => trivial
  refine hsteady.moves hmoves hok ?_
  intro he
  rw [dispatchTlv_remind env m he hbody]
  exact remind_estab.trans he

/-! ## Messages -/

inductive Shaped (m : Message) : Prop
  | hello (hf : HelloHf) (timer : UInt8) (sender : Bytes) (h : m.bodies = [.hello hf timer sender])
  | dictionary (d : Dictionary) (nodes : List RIBNode) (relay custody internet : Bool)
      (h : m.bodies = [.ribd d, .rib nodes relay custody internet])
  | offer (list : BundleOfferList) (h : m.bodies = [.offer list])
  | response (list : BundleResponseList) (h : m.bodies = [.response list])

/-- The first TLV of a message comes in a state in which the encounter has a use for all of it. -/
def ExpectedIn : List Body → Encounter → Prop
  | .ribd _ :: _, e => e.estab = true → e.state = .waitDict ∨ e.state = .waitRib ∨ e.state = .waitInfo
  | .offer _ :: _, e => e.estab = true → e.state = .sendDr ∨ e.state = .request ∨ e.state = .waitInfo
  | .response _ :: _, e => e.estab = true → e.state = .waitRib ∨ e.state = .offer
  | _, _ => True

instance : (bodies : List Body) → (e : Encounter) → Decidable (ExpectedIn bodies e)
  | [], _ => isTrue trivial
  | .hello .. :: _, _ => isTrue trivial
  | .ribd _ :: _, e => inferInstanceAs (Decidable (e.estab = true → _ ∨ _ ∨ _))
  | .rib .. :: _, _ => isTrue trivial
  | .offer _ :: _, e => inferInstanceAs (Decidable (e.estab = true → _ ∨ _ ∨ _))
  | .response _ :: _, e => inferInstanceAs (Decidable (e.estab = true → _ ∨ _))

def Expected (m : Message) (e : Encounter) : Prop := ExpectedIn m.bodies e

instance (m : Message) (e : Encounter) : Decidable (Expected m e) :=
  inferInstanceAs (Decidable (ExpectedIn m.bodies e))

theorem expectedIn_congr {bodies : List Body} {e e' : Encounter} (he : e'.estab = e.estab)
    (hs : e'.state = e.state) : ExpectedIn bodies e' ↔ ExpectedIn bodies e := by
  cases bodies with
  | nil => exact Iff.rfl
  | cons body rest => cases body <;> simp [ExpectedIn, he, hs]

theorem dispatchAll_singleton (m : Message) (env : Nat → Env) (body : Body) (e : Encounter) :
    e.dispatchAll m env [body] = e.dispatchTlv (env 0) m body := by
  unfold dispatchAll
  dsimp only
  split
  · rename_i hok
    exact Prod.ext rfl hok.symm
  · rfl

theorem followed_ok {c : Prop} [Decidable c] {r r' : Encounter × Bool} (hr : c → r.2 = true)
    (hr' : c → r'.2 = true) : (if c then r' else r).2 = r.2 := by
  split
  · rename_i hc
    rw [hr hc, hr' hc]
  · rfl

theorem handleRibd_ok (d : Dictionary) (hcalm : Calm env e) : (e.handleRibd env d).2 = true ↔
    e.state = .waitDict ∨ e.state = .waitRib ∨ e.state = .waitInfo ∨ e.state = .offer := by
  have hidle : ¬ (env.now - e.dataSent > env.params.helloInterval.toNat ∧ e.synsender = true) :=
    fun h => absurd h.1 (not_lt.mpr hcalm.sent)
  unfold handleRibd
  rw [if_neg hidle]
  split <;> rename_i hs
  · simp [hs]
  · simp [hs]
  · simp [hs]
  · simp [hs, sendOffer_ok hcalm.send]
  · simp only [Bool.false_eq_true, false_iff, not_or]
    refine ⟨?_, ?_, ?_, ?_⟩ <;> intro h <;> simp [h] at *

theorem handleRib_ok (hcalm : Calm env e) : (e.handleRib env).2 = true ↔ e.state = .waitRib := by
  unfold handleRib
  split <;> rename_i hs
  · simp [hs, sendOffer_ok hcalm.send]
  · simp [hs]

theorem handleOffer_ok (list : BundleOfferList) (hcalm : Calm env e) :
    (e.handleOffer env list).2 = true ↔
      e.state = .sendDr ∨ e.state = .request ∨ e.state = .waitInfo := by
  unfold handleOffer
  split <;> rename_i hs
  · rcases hs with hs | hs <;> simp [hs, sendResponse_ok hcalm.send]
  · rw [not_or] at hs
    split <;> rename_i hi
    · simp [hi]
    · simp [hs.1, hs.2, hi]

theorem handleResponse_ok (list : BundleResponseList) (hcalm : Calm env e) :
    (e.handleResponse env list).2 = true ↔ e.state = .waitRib ∨ e.state = .offer := by
  unfold handleResponse
  split <;> rename_i hs
  · have hok : ((e.setState .waitDict).sendAck env).2 = true := sendHello_ok hcalm.send _ _ _
    simp [hs, hok]
  · split <;> simp [hs]
  · simp only [Bool.false_eq_true, false_iff, not_or]
    refine ⟨?_, ?_⟩ <;> intro h <;> simp [h] at *

theorem dispatchTlv_offer (m : Message) (list : BundleOfferList) (hcalm : Calm env e) :
    (e.dispatchTlv env m (.offer list)).2 = true ↔
      (e.estab = true → e.state = .sendDr ∨ e.state = .request ∨ e.state = .waitInfo) := by
  rcases Bool.eq_false_or_eq_true e.estab with he | he
  · have hok := handleOffer_ok list (hcalm.hear m (.offer list))
    unfold dispatchTlv
    dsimp only
    rw [if_pos he, followed_ok (fun hc => hc.1) (fun _ => rfl), hok]
    simp [he]
  · rw [dispatchTlv_remind env m he (by simp)]
    simp [he, remind_ok hcalm.send]

theorem dispatchTlv_response (m : Message) (list : BundleResponseList) (hcalm : Calm env e) :
    (e.dispatchTlv env m (.response list)).2 = true ↔
      (e.estab = true → e.state = .waitRib ∨ e.state = .offer) := by
  rcases Bool.eq_false_or_eq_true e.estab with he | he
  · have hok := handleResponse_ok list (hcalm.hear m (.response list))
    have hmoves : Moves (fun _ _ => True) (fun _ _ => True) _ (handleResponse env list
        { e with log := e.log ++ [.received m (.response list)] }) := handleResponse_moves list he
    have htable : Tabled env (roleSender { e with log := e.log ++ [.received m (.response list)] })
        (roleReceiver { e with log := e.log ++ [.received m (.response list)] }) := hcalm.table
    rw [← hmoves.roles.1, ← hmoves.roles.2] at htable
    unfold dispatchTlv
    dsimp only
    rw [if_pos he, followed_ok (fun hc => hc.1) (fun _ => (createDr_ok hcalm.send htable).1), hok]
    simp [he]
  · rw [dispatchTlv_remind env m he (by simp)]
    simp [he, remind_ok hcalm.send]

theorem dispatchTlv_ribd (m : Message) (d : Dictionary) (hcalm : Calm env e) :
    (e.dispatchTlv env m (.ribd d)).2 = true ↔
      (e.estab = true → e.state = .waitDict ∨ e.state = .waitRib ∨ e.state = .waitInfo ∨
        e.state = .offer) := by
  rcases Bool.eq_false_or_eq_true e.estab with he | he
  · have hok := handleRibd_ok d (hcalm.hear m (.ribd d))
    unfold dispatchTlv
    dsimp only
    rw [if_pos he, hok]
    simp [he]
  · rw [dispatchTlv_remind env m he (by simp)]
    simp [he, remind_ok hcalm.send]

theorem dispatchTlv_rib (m : Message) (nodes : List RIBNode) (relay custody internet : Bool)
    (hcalm : Calm env e) : (e.dispatchTlv env m (.rib nodes relay custody internet)).2 = true ↔
      (e.estab = true → e.state = .waitRib) := by
  rcases Bool.eq_false_or_eq_true e.estab with he | he
  · have hok := handleRib_ok (hcalm.hear m (.rib nodes relay custody internet))
    unfold dispatchTlv
    dsimp only
    rw [if_pos he, hok]
    simp [he]
  · rw [dispatchTlv_remind env m he (by simp)]
    simp [he, remind_ok hcalm.send]

theorem sendOffer_state : (e.sendOffer env).1.state = e.state := by
  unfold sendOffer
  obtain ⟨next, t, hsend | hsend⟩ := sendBodies_cases env .noSuccessAck 0
    [.offer (getBundleOffer env.core e.remoteRibd env.offered env.newAcks)] e <;> rw [hsend]

theorem dispatchTlv_ribd_state (m : Message) (d : Dictionary) (hcalm : Calm env e)
    (he : e.estab = true) :
    (e.state = .offer → (e.dispatchTlv env m (.ribd d)).1.state = .offer) ∧
    (e.state = .waitDict ∨ e.state = .waitRib ∨ e.state = .waitInfo →
      (e.dispatchTlv env m (.ribd d)).1.state = .waitRib) := by
  have hidle : ¬ (env.now - e.dataSent > env.params.helloInterval.toNat ∧ e.synsender = true) :=
    fun h => absurd h.1 (not_lt.mpr hcalm.sent)
  unfold dispatchTlv
  dsimp only
  rw [if_pos he]
  unfold handleRibd
  dsimp only
  rw [if_neg hidle]
  constructor
  · intro hs
    rw [hs]
    exact sendOffer_state
  · rintro (hs | hs | hs) <;> rw [hs] <;> rfl

def CalmAll (m : Message) : (Nat → Env) → List Body → Encounter → Prop
  | _, [], _ => True
  | env, body :: rest, e => Calm (env 0) e ∧
      ((e.dispatchTlv (env 0) m body).2 = true →
        CalmAll m (fun i => env (i + 1)) rest (e.dispatchTlv (env 0) m body).1)

/-- A dictionary is always followed by the routing information base, which has to find the listener
waiting for it. -/
theorem dispatchAll_dictionary (m : Message) (env : Nat → Env) (d : Dictionary)
    (nodes : List RIBNode) (relay custody internet : Bool) (hsteady : Steady e)
    (hcalm : CalmAll m env [.ribd d, .rib nodes relay custody internet] e) :
    (e.dispatchAll m env [.ribd d, .rib nodes relay custody internet]).2 = true ↔
      (e.estab = true → e.state = .waitDict ∨ e.state = .waitRib ∨ e.state = .waitInfo) := by
  have hribd := dispatchTlv_ribd m d hcalm.1
  have hmoves : Moves (fun _ _ => True) (fun _ _ => True) e (e.dispatchTlv (env 0) m (.ribd d)) :=
    dispatchTlv_moves trivial hsteady.phased fun _ _ _ _ => trivial
  unfold dispatchAll
  dsimp only
  split
  · rename_i hok
    rw [dispatchAll_singleton, dispatchTlv_rib m nodes relay custody internet (hcalm.2 hok).1]
    rcases Bool.eq_false_or_eq_true e.estab with he | he
    · obtain ⟨hoffer, hwait⟩ := dispatchTlv_ribd_state m d hcalm.1 he
      obtain ⟨hest, -⟩ := hmoves.keep_true (fun _ _ => Steady.move) ⟨he, hsteady⟩ hok
      simp only [hest, he, forall_const]
      constructor
      · intro hs
        rcases hribd.mp hok he with h | h | h | h
        · exact Or.inl h
        · exact Or.inr (Or.inl h)
        · exact Or.inr (Or.inr h)
        · rw [hoffer h] at hs
          cases hs
      · exact hwait
    · have hest : (e.dispatchTlv (env 0) m (.ribd d)).1.estab = false := by
        rw [dispatchTlv_remind (env 0) m he (by simp)]
        exact remind_estab.trans he
      simp [hest, he]
  · rename_i hok
    rw [hribd] at hok
    simp only [hribd, hok, false_iff]
    intro h
    refine hok fun he => ?_
    rcases h he with h | h | h
    · exact Or.inl h
    · exact Or.inr (Or.inl h)
    · exact Or.inr (Or.inr (Or.inl h))

theorem dispatchAll_expected {m : Message} {env : Nat → Env} (hsteady : Steady e) (hshape : Shaped m)
    (hcalm : CalmAll m env m.bodies e)
    (hrst : ∀ timer sender, .hello .rstack timer sender ∈ m.bodies → e.synsent = true) :
    ((e.dispatchAll m env m.bodies).2 = true ↔ Expected m e) ∧
      ((e.dispatchAll m env m.bodies).2 = true → Steady (e.dispatchAll m env m.bodies).1) := by
  cases hshape with
  | hello hf timer sender h =>
      rw [h] at hcalm hrst ⊢
      have hok : (e.dispatchTlv (env 0) m (.hello hf timer sender)).2 = true ∧
          Steady (e.dispatchTlv (env 0) m (.hello hf timer sender)).1 :=
        dispatchTlv_hello m hcalm.1 hsteady fun hrstack => hrst timer sender (by simp [hrstack])
      rw [dispatchAll_singleton]
      simp only [Expected, ExpectedIn, h, iff_true]
      exact ⟨hok.1, fun _ => hok.2⟩
  | dictionary d nodes relay custody internet h =>
      rw [h] at hcalm ⊢
      refine ⟨?_, ?_⟩
      · rw [dispatchAll_dictionary m env d nodes relay custody internet hsteady hcalm]
        simp only [Expected, ExpectedIn, h]
      · unfold dispatchAll
        dsimp only
        split
        · rename_i hok
          rw [dispatchAll_singleton]
          exact dispatchTlv_steady (dispatchTlv_steady hsteady (by simp) hok) (by simp)
        · exact fun hok => absurd hok ‹_›
  | offer list h =>
      rw [h] at hcalm ⊢
      rw [dispatchAll_singleton]
      refine ⟨?_, dispatchTlv_steady hsteady (by simp)⟩
      rw [dispatchTlv_offer m list hcalm.1]
      simp only [Expected, ExpectedIn, h]
  | response list h =>
      rw [h] at hcalm ⊢
      rw [dispatchAll_singleton]
      refine ⟨?_, dispatchTlv_steady hsteady (by simp)⟩
      rw [dispatchTlv_response m list hcalm.1]
      simp only [Expected, ExpectedIn, h]

/-! ## Timeouts -/

@[simp] theorem sendBodies_dataRcvd (hr : HeaderResult) (tid : UInt32) (bodies : List Body) :
    (e.sendBodies env hr tid bodies).1.dataRcvd = e.dataRcvd := by
  obtain ⟨next, t, hsend | hsend⟩ := sendBodies_cases env hr tid bodies e <;> rw [hsend]

@[simp] theorem sendHello_dataRcvd (hf : HelloHf) (hr : HeaderResult) (tid : UInt32) :
    (e.sendHello env hf hr tid).1.dataRcvd = e.dataRcvd := by
  obtain ⟨next, t, hsend | hsend | hsend⟩ := sendHello_cases env hf hr tid e <;> rw [hsend]

@[simp] theorem sendDictionaryRib_dataRcvd :
    (e.sendDictionaryRib env).1.dataRcvd = e.dataRcvd := by
  unfold sendDictionaryRib
  split
  · rfl
  · split
    · rfl
    · dsimp only
      split
      · rfl
      · exact sendBodies_dataRcvd _ _ _

@[simp] theorem createDr_dataRcvd : (e.createDr env).1.dataRcvd = e.dataRcvd := by
  unfold createDr
  dsimp only
  split <;> exact sendDictionaryRib_dataRcvd

theorem sendResponse_dataRcvd : (e.sendResponse env).1.dataRcvd = e.dataRcvd := by
  unfold sendResponse
  dsimp only
  split <;> exact sendBodies_dataRcvd _ _ _

theorem timeoutAction_dataRcvd : (e.timeoutAction env).1.dataRcvd = e.dataRcvd := by
  unfold timeoutAction
  split
  · rfl
  · exact sendHello_dataRcvd _ _ _
  · exact sendHello_dataRcvd _ _ _
  · exact sendHello_dataRcvd _ _ _
  · exact sendHello_dataRcvd _ _ _
  · exact sendBodies_dataRcvd _ _ _
  · exact sendDictionaryRib_dataRcvd
  · exact sendResponse_dataRcvd
  · split
    · split
      · exact createDr_dataRcvd
      · rfl
    · rfl
  · rfl

theorem timeoutAction_ok (hsteady : Steady e) (hcalm : Calm env e) :
    (e.timeoutAction env).2 = true := by
  unfold timeoutAction
  split
  · rfl
  · exact sendHello_ok hcalm.send _ _ _
  · exact sendHello_ok hcalm.send _ _ _
  · exact sendHello_ok hcalm.send _ _ _
  · exact sendHello_ok hcalm.send _ _ _
  · exact sendOffer_ok hcalm.send
  · rename_i hs
    exact sendDictionaryRib_ok hcalm.send hcalm.table (Or.inr hs)
  · exact sendResponse_ok hcalm.send
  · rw [if_neg (not_lt.mpr hcalm.rcvd)]
  · -- the other states are not steady
    exfalso
    obtain ⟨hphased, hsettled⟩ := hsteady
    cases hs : e.state with
    | undefinedState =>
        exact (hsettled (hphased.estab_of hs (by decide))).1 hs
    | estab => exact (hsettled (hphased.estab_of hs (by decide))).2.1 hs
    | createDr => exact (hsettled (hphased.estab_of hs (by decide))).2.2 hs
    | _ => simp_all

theorem timeoutAction_estab (he : e.estab = false) (hp : Phased e) :
    (e.timeoutAction env).1.estab = false := by
  unfold timeoutAction
  rcases hp.mp he with hs | hs | hs <;> rw [hs]
  · exact he
  · exact (sendHello_estab _ _ _).trans he
  · exact (sendHello_estab _ _ _).trans he

theorem handleTimeout_steady (hgone : e.gone = false) (hsteady : Steady e) (hcalm : Calm env e) :
    (e.handleTimeout env) = (e.timeoutAction env).1 ∧ Steady (e.handleTimeout env) := by
  have hok := timeoutAction_ok hsteady hcalm
  have hmoves : Moves (fun _ _ => True) (fun _ _ => True) e (e.timeoutAction env) :=
    timeoutAction_moves hsteady.phased
  have hsilent : (e.timeoutAction env).1.silent env = false := by
    have hlimit := hcalm.rcvd
    rw [silent, timeoutAction_dataRcvd, decide_eq_false_iff_not, not_lt]
    refine hlimit.trans ?_
    simp only [UInt32.toNat_div]
    exact_mod_cast Nat.div_le_div_left (by decide) (by decide)
  have heq : e.handleTimeout env = (e.timeoutAction env).1 := by
    unfold handleTimeout
    rw [if_neg (by simp [hgone])]
    dsimp only
    rw [if_neg (by simp [hok, hsilent])]
  rw [heq]
  exact ⟨rfl, hsteady.moves hmoves hok fun he => timeoutAction_estab he hsteady.phased⟩

/-! ## What was sent -/

/-- The messages that an encounter has sent. An `RSTACK` answers a message of the peer. -/
structure Conforming (e : Encounter) : Prop where
  shaped : ∀ m, .sent m ∈ e.log → Shaped m
  answers : ∀ m, e.SentHello .rstack m → ∃ m' body, .received m' body ∈ e.log

theorem Conforming.append (h : Conforming e) (synsent : Bool) (ev : Event)
    (hshaped : ∀ m, ev = .sent m → Shaped m)
    (hanswers : ∀ m timer sender, ev = .sent m → .hello .rstack timer sender ∈ m.bodies →
      ∃ m' body, .received m' body ∈ e.log) :
    Conforming { e with synsent := synsent, log := e.log ++ [ev] } where
  shaped m hm := by
    rcases List.mem_append.mp hm with hm | hm
    · exact h.shaped m hm
    · exact hshaped m (List.mem_singleton.mp hm).symm
  answers m hm := by
    have hheard : ∃ m' body, .received m' body ∈ e.log := by
      rcases sentHello_append hm with hm | ⟨hev, timer, sender, hhello⟩
      · exact h.answers m hm
      · exact hanswers m timer sender hev hhello
    obtain ⟨m', body, hm'⟩ := hheard
    exact ⟨m', body, List.mem_append_left _ hm'⟩

theorem Conforming.move {e e' : Encounter} (hmove : Move R A e e') (h : Conforming e) :
    Conforming e' := by
  have hother : ∀ (hr : HeaderResult) (tid : UInt32) (bodies : List Body) (synsent : Bool),
      Shaped (e.message hr tid bodies) →
      (∀ timer sender, .hello .rstack timer sender ∉ bodies) →
      Conforming { e with synsent := synsent, log := e.log ++ [.sent (e.message hr tid bodies)] } := by
    intro hr tid bodies synsent hshape hbodies
    refine h.append synsent _ ?_ ?_
    · rintro m ⟨⟩
      exact hshape
    · rintro m timer sender ⟨⟩ hm
      exact absurd hm (by simpa using hbodies timer sender)
  cases hmove with
  | receive m body hr hs => exact h.append e.synsent _ (by simp) (by simp)
  | bundle b => exact h.append e.synsent _ (by simp) (by simp)
  | syn hr tid timer hs =>
      exact hother hr tid _ true (.hello .syn timer e.peers.localEid (by simp)) (by simp)
  | synack hr tid timer hs =>
      exact hother hr tid _ true (.hello .synack timer e.peers.localEid (by simp)) (by simp)
  | ack hr tid timer hs =>
      exact hother hr tid _ e.synsent (.hello .ack timer e.peers.localEid (by simp)) (by simp)
  | rstack hr tid timer hs =>
      refine h.append e.synsent _ ?_ fun _ _ _ _ _ => hs
      rintro m ⟨⟩
      exact .hello .rstack timer e.peers.localEid (by simp)
  | dictionary hr tid d nodes relay custody internet hs =>
      have hlog := hother hr tid [.ribd d, .rib nodes relay custody internet] e.synsent
        (.dictionary d nodes relay custody internet (by simp)) (by simp)
      exact ⟨hlog.shaped, hlog.answers⟩
  | offer hr tid list hs =>
      exact hother hr tid _ e.synsent (.offer list (by simp)) (by simp)
  | takeOffer m list hr hs ha hest =>
      have hlog := h.append e.synsent (.received m (.offer list)) (by simp) (by simp)
      exact ⟨hlog.shaped, hlog.answers⟩
  | response hr tid list hs hlist =>
      have hlog := hother hr tid [.response list] e.synsent (.response list (by simp)) (by simp)
      exact ⟨hlog.shaped, hlog.answers⟩
  | _ => exact ⟨h.shaped, h.answers⟩

theorem synsent_move {e e' : Encounter} (hmove : Move R A e e') (h : e.synsent = true) :
    e'.synsent = true := by
  cases hmove with
  | syn => rfl
  | synack => rfl
  | _ => exact h

/-- A passive encounter that has not heard of its peer. -/
structure Dormant (e : Encounter) : Prop where
  state : e.state = .waitNb
  estab : e.estab = false
  quiet : ∀ m, .sent m ∉ e.log

theorem Dormant.hear (h : Dormant e) (m : Message) (body : Body) (timeout helloRate : UInt32) :
    Dormant { e with
      timeout := timeout, helloRate := helloRate, log := e.log ++ [.received m body] } where
  state := h.state
  estab := h.estab
  quiet m' hm' := by
    rcases List.mem_append.mp hm' with hm' | hm'
    · exact h.quiet m' hm'
    · cases List.mem_singleton.mp hm'

theorem sendSynack_synsent (hsend : ∀ m, env.sendMessage m = true) (hs : e.state = .waitNb) :
    (e.sendSynack env).1.synsent = true := by
  have hsuppressed : suppressed env .synack e = false := by simp [suppressed, hs]
  obtain ⟨next, t, hsent⟩ := sendHello_sent hsend .noSuccessAck e.tid hsuppressed
  rw [sendSynack, hsent]
  rfl

theorem handleHello_dormant (m : Message) (hf : HelloHf) (timer : UInt8)
    (hsend : ∀ m, env.sendMessage m = true) (h : Dormant e) :
    (e.handleHello env m hf timer).1.estab = false ∧
      (Dormant (e.handleHello env m hf timer).1 ∨
        (e.handleHello env m hf timer).1.synsent = true) := by
  obtain ⟨t, ht⟩ := negotiate_eq env timer e
  have hsame : Dormant { e with timeout := t } := ⟨h.state, h.estab, h.quiet⟩
  unfold handleHello
  dsimp only
  rw [ht]
  have hne : ¬ e.estab = true := by simp [h.estab]
  cases hf with
  | syn =>
      dsimp only
      unfold handleSyn
      rw [if_neg hne, if_pos (Or.inr (Or.inr h.state))]
      exact ⟨(sendHello_estab _ _ _).trans h.estab, Or.inr (sendSynack_synsent hsend h.state)⟩
  | synack =>
      dsimp only
      unfold handleSynack
      rw [if_neg hne, if_neg (by simp [h.state])]
      exact ⟨h.estab, Or.inl hsame⟩
  | ack =>
      dsimp only
      unfold handleAck
      rw [if_neg (by simp [h.estab])]
      simp only [h.state]
      rw [← h.state]
      exact ⟨h.estab, Or.inl hsame⟩
  | rstack => exact ⟨h.estab, Or.inl hsame⟩
  | unknown => exact ⟨h.estab, Or.inl hsame⟩
  | unnamed n => exact ⟨h.estab, Or.inl hsame⟩

theorem dispatchTlv_dormant (m : Message) (body : Body) (hsend : ∀ m, env.sendMessage m = true)
    (h : Dormant e) : Dormant (e.dispatchTlv env m body).1 ∨
      (e.dispatchTlv env m body).1.synsent = true := by
  have hother : (∀ hf timer sender, body ≠ .hello hf timer sender) →
      Dormant (e.dispatchTlv env m body).1 := by
    intro hbody
    rw [dispatchTlv_remind env m h.estab hbody]
    unfold remind
    simp only [h.state]
    simpa only [h.state] using h.hear m body e.timeout 2
  cases body with
  | hello hf timer sender =>
      have hheard := h.hear m (.hello hf timer sender) e.timeout e.helloRate
      obtain ⟨hest, hresult⟩ := handleHello_dormant m hf timer hsend hheard
      unfold dispatchTlv
      dsimp only
      rw [if_neg (by simp [hest])]
      exact hresult
  | ribd d => exact Or.inl (hother (by simp))
  | rib nodes relay custody internet => exact Or.inl (hother (by simp))
  | offer list => exact Or.inl (hother (by simp))
  | response list => exact Or.inl (hother (by simp))

theorem dispatchAll_dormant {m : Message} {bodies : List Body} {env : Nat → Env}
    (hp : Phased e) (hcalm : CalmAll m env bodies e) (h : Dormant e ∨ e.synsent = true)
    (hok : (e.dispatchAll m env bodies).2 = true) :
    Dormant (e.dispatchAll m env bodies).1 ∨ (e.dispatchAll m env bodies).1.synsent = true := by
  induction bodies generalizing env e with
  | nil => exact h
  | cons body rest ih =>
      have hmoves : Moves (fun _ _ => True) (fun _ _ => True) e (e.dispatchTlv (env 0) m body) :=
        dispatchTlv_moves trivial hp fun _ _ _ _ => trivial
      unfold dispatchAll at hok ⊢
      dsimp only at hok ⊢
      split at hok
      · rename_i hfirst
        rw [if_pos hfirst]
        refine ih (hmoves.phased hp hfirst) (hcalm.2 hfirst) ?_ hok
        rcases h with h | h
        · exact dispatchTlv_dormant m body hcalm.1.send h
        · exact Or.inr (hmoves.keep_true (fun _ _ => synsent_move) h hfirst)
      · rename_i hfirst
        exact absurd hok hfirst

end Encounter

end Prophet

end Dtn2
