import Dtn2.Prophet.Sessions

/-!
# Two encounters

The two ends of a link, with the messages that are on their way to either of them. A message is
delivered or lost in the order in which it was sent, and timeouts and bundles come at any time.
-/

namespace Dtn2

namespace Prophet

namespace Encounter

variable {R : Message → Body → Prop} {A : BundleResponseList → BundleOfferList → Prop}
  {env : Env} {e : Encounter}

/-- What is left of an encounter by an event that does not end the session. -/
structure Lasts (R : Message → Body → Prop) (e e' : Encounter) : Prop where
  gone : e'.gone = false
  steady : Steady e'
  conforming : Conforming e'
  synsent : e.synsent = true → e'.synsent = true
  log : ∀ ev ∈ e.log, ev ∈ e'.log
  heard : ∀ m body, .received m body ∈ e'.log → R m body

theorem Lasts.of_moves {r : Encounter × Bool} (h : Moves R A e r) (hok : r.2 = true)
    (hgone : e.gone = false) (hconforming : Conforming e) (hsteady : Steady r.1)
    (hheard : ∀ m body, .received m body ∈ e.log → R m body) : Lasts R e r.1 := by
  have hgrown : Grown R e e := ⟨rfl, rfl, fun _ => id, hheard, fun he => ⟨he, rfl⟩⟩
  have hresult := h.keep_true (fun _ _ => Grown.move) hgrown hok
  refine ⟨?_, hsteady, h.keep_true (fun _ _ => Conforming.move) hconforming hok,
    fun hs => h.keep_true (fun _ _ => synsent_move) hs hok, hresult.log, hresult.heard⟩
  have hkept : ∀ x x', Move R A x x' → x.gone = false → x'.gone = false := by
    intro x x' hmove hx
    cases hmove <;> exact hx
  exact h.keep_true hkept hgone hok

def arrived (env : Nat → Env) (m : Message) (e : Encounter) : Encounter :=
  { e with dataRcvd := (env 0).now, tid := m.tid }

theorem receiveTlv_eq (env : Nat → Env) (m : Message) (hgone : e.gone = false) :
    e.receiveTlv env m =
      if ((e.arrived env m).dispatchAll m env m.bodies).2 then
        (e.arrived env m).dispatchAll m env m.bodies
      else ({ ((e.arrived env m).dispatchAll m env m.bodies).1 with gone := true }, false) := by
  unfold receiveTlv
  rw [if_neg (by simp [hgone])]
  rfl

theorem receiveTlv_lasts {env : Nat → Env} {m : Message} (hgone : e.gone = false)
    (hsteady : Steady e) (hconforming : Conforming e) (hshape : Shaped m)
    (hcalm : CalmAll m env m.bodies (e.arrived env m))
    (hrst : ∀ timer sender, .hello .rstack timer sender ∈ m.bodies → e.synsent = true) :
    ((e.receiveTlv env m).2 = true ↔ Expected m e) ∧
      (Expected m e → Lasts (fun _ _ => True) e (e.receiveTlv env m).1) := by
  have hstart : Steady (e.arrived env m) := ⟨hsteady.phased, hsteady.settled⟩
  obtain ⟨hexpected, hresult⟩ := dispatchAll_expected hstart hshape hcalm hrst
  have hadmits := admitsAll_true m env m.bodies (e.arrived env m)
  have hmoves : Moves (fun _ _ => True) (fun _ _ => True) (e.arrived env m)
      ((e.arrived env m).dispatchAll m env m.bodies) :=
    dispatchAll_moves (fun _ _ => trivial) hstart.phased hadmits
  have hsame : Expected m (e.arrived env m) ↔ Expected m e := expectedIn_congr rfl rfl
  rw [receiveTlv_eq env m hgone]
  constructor
  · rw [← hsame, ← hexpected]
    split
    · exact Iff.rfl
    · rename_i hok
      simp [hok]
  intro h
  have htrue := hexpected.mpr (hsame.mpr h)
  rw [if_pos htrue]
  have hlasts := Lasts.of_moves hmoves htrue hgone ⟨hconforming.shaped, hconforming.answers⟩
    (hresult htrue) fun _ _ _ => trivial
  exact ⟨hlasts.gone, hlasts.steady, hlasts.conforming, hlasts.synsent, hlasts.log, hlasts.heard⟩

theorem handleTimeout_lasts (hgone : e.gone = false) (hsteady : Steady e)
    (hconforming : Conforming e) (hcalm : Calm env e) :
    Lasts (fun m body => .received m body ∈ e.log) e (e.handleTimeout env) := by
  obtain ⟨heq, hresult⟩ := handleTimeout_steady hgone hsteady hcalm
  have hmoves : Moves (fun m body => .received m body ∈ e.log) (fun _ _ => True) e
      (e.timeoutAction env) := timeoutAction_moves hsteady.phased
  rw [heq] at hresult ⊢
  exact .of_moves hmoves (timeoutAction_ok hsteady hcalm) hgone hconforming hresult fun _ _ => id

theorem handleBundleReceived_eq (env : Env) (b : Bundle) (e : Encounter) :
    ∃ l, e.handleBundleReceived env b = { e with localResponse := l } := by
  unfold handleBundleReceived
  split
  · exact ⟨e.localResponse, rfl⟩
  · dsimp only
    split
    · exact ⟨e.localResponse, rfl⟩
    · exact ⟨_, rfl⟩

end Encounter

open Encounter

/-! ## The system -/

/-- The two ends, and the messages on their way to each of them. The end `true` sends the first
hello. -/
structure Session where
  ends : Bool → Encounter
  inbox : Bool → List Message

def sentSince (e e' : Encounter) : List Message :=
  (e'.log.drop e.log.length).filterMap fun ev =>
    match ev with
    | .sent m => some m
    | _ => none

theorem sent_of_sentSince {e e' : Encounter} {m : Message} (h : m ∈ sentSince e e') :
    .sent m ∈ e'.log := by
  obtain ⟨ev, hev, hm⟩ := List.mem_filterMap.mp h
  have hlog := List.mem_of_mem_drop hev
  cases ev with
  | sent m' =>
      cases hm
      exact hlog
  | received m' body => cases hm
  | bundle b => cases hm

namespace Session

/-- One end has handled an event. What it has sent is on its way to the other. -/
def act (s : Session) (i : Bool) (e : Encounter) (rest : List Message) : Session where
  ends j := if j = i then e else s.ends j
  inbox j := if j = i then rest else s.inbox j ++ sentSince (s.ends i) e

def start (env : Bool → Env) (peers : Bool → Peers) (inst : Bool → UInt16) : Session where
  ends i := .new (env i) (peers i) (inst i)
  inbox i := sentSince (fresh (env !i) (peers !i) (inst !i)) (.new (env !i) (peers !i) (inst !i))

/-- A message is delivered or lost, or an end has a timeout or gets a bundle. Messages come to states
for which `P` holds. -/
inductive Step (P : Message → Encounter → Prop) : Session → Session → Prop
  | deliver (s : Session) (i : Bool) (env : Nat → Env) (m : Message) (rest : List Message)
      (hm : s.inbox i = m :: rest) (hcalm : CalmAll m env m.bodies ((s.ends i).arrived env m))
      (hp : P m (s.ends i)) : Step P s (s.act i ((s.ends i).receiveTlv env m).1 rest)
  | lose (s : Session) (inbox : Bool → List Message) (h : ∀ i, (inbox i).Sublist (s.inbox i)) :
      Step P s { s with inbox := inbox }
  | timeout (s : Session) (i : Bool) (env : Env) (hcalm : Calm env (s.ends i)) :
      Step P s (s.act i ((s.ends i).handleTimeout env) (s.inbox i))
  | bundle (s : Session) (i : Bool) (env : Env) (b : Bundle) :
      Step P s (s.act i ((s.ends i).handleBundleReceived env b) (s.inbox i))

structure Lively (s : Session) : Prop where
  gone : ∀ i, (s.ends i).gone = false
  steady : ∀ i, Steady (s.ends i)
  conforming : ∀ i, Conforming (s.ends i)
  inbox : ∀ i, ∀ m ∈ s.inbox i, .sent m ∈ (s.ends !i).log
  active : (s.ends true).synsent = true
  passive : (s.ends false).synsent = true ∨
    Dormant (s.ends false) ∧ ∀ m body, .received m body ∉ (s.ends true).log

theorem Lively.act {s : Session} (h : Lively s) {R : Message → Body → Prop} (i : Bool)
    {e : Encounter} {rest : List Message} (hrest : ∀ m ∈ rest, m ∈ s.inbox i)
    (he : Lasts R (s.ends i) e)
    (hpassive : i = false → Dormant (s.ends false) → e.synsent = true ∨ Dormant e)
    (hactive : i = true → Dormant (s.ends false) →
      (∀ m body, .received m body ∉ (s.ends true).log) → ∀ m body, .received m body ∉ e.log) :
    Lively (s.act i e rest) where
  gone j := by
    by_cases hj : j = i
    · simpa [Session.act, hj] using he.gone
    · simpa [Session.act, hj] using h.gone j
  steady j := by
    by_cases hj : j = i
    · simpa [Session.act, hj] using he.steady
    · simpa [Session.act, hj] using h.steady j
  conforming j := by
    by_cases hj : j = i
    · simpa [Session.act, hj] using he.conforming
    · simpa [Session.act, hj] using h.conforming j
  inbox j m hm := by
    by_cases hj : j = i
    · subst hj
      have hne : ¬ (!j) = j := by cases j <;> decide
      simp only [Session.act, if_true, hne, if_false] at hm ⊢
      exact h.inbox j m (hrest m hm)
    · have hother : (!j) = i := by cases i <;> cases j <;> simp at hj ⊢
      simp only [Session.act, hj, if_false, hother, if_true, List.mem_append] at hm ⊢
      rcases hm with hm | hm
      · refine he.log _ ?_
        rw [← hother]
        exact h.inbox j m hm
      · exact sent_of_sentSince hm
  active := by
    by_cases hi : true = i
    · subst hi
      simpa [Session.act] using he.synsent h.active
    · simpa [Session.act, hi] using h.active
  passive := by
    cases i with
    | false =>
        simp only [Session.act, if_true, Bool.true_eq_false, if_false]
        rcases h.passive with hp | ⟨hp, hq⟩
        · exact Or.inl (he.synsent hp)
        · rcases hpassive rfl hp with hs | hd
          · exact Or.inl hs
          · exact Or.inr ⟨hd, hq⟩
    | true =>
        simp only [Session.act, if_true, Bool.false_eq_true, if_false]
        rcases h.passive with hp | ⟨hp, hq⟩
        · exact Or.inl hp
        · exact Or.inr ⟨hp, hactive rfl hp hq⟩

theorem Lively.rstack {s : Session} (h : Lively s) {i : Bool} {m : Message} (hm : m ∈ s.inbox i)
    {timer : UInt8} {sender : Bytes} (hrst : .hello .rstack timer sender ∈ m.bodies) :
    (s.ends i).synsent = true := by
  cases i with
  | true => exact h.active
  | false =>
      rcases h.passive with hp | ⟨-, hq⟩
      · exact hp
      · obtain ⟨m', body, hheard⟩ := (h.conforming true).answers m
          ⟨h.inbox false m hm, timer, sender, hrst⟩
        exact absurd hheard (hq m' body)

theorem Lively.receive {s : Session} (h : Lively s) {i : Bool} {env : Nat → Env} {m : Message}
    {rest : List Message} (hm : s.inbox i = m :: rest)
    (hcalm : CalmAll m env m.bodies ((s.ends i).arrived env m)) :
    (((s.ends i).receiveTlv env m).2 = true ↔ Expected m (s.ends i)) ∧
      (Expected m (s.ends i) →
        Lasts (fun _ _ => True) (s.ends i) ((s.ends i).receiveTlv env m).1) := by
  have hin : m ∈ s.inbox i := by
    rw [hm]
    exact List.mem_cons_self
  have hshape := (h.conforming !i).shaped m (h.inbox i m hin)
  exact receiveTlv_lasts (h.gone i) (h.steady i) (h.conforming i) hshape hcalm
    fun timer sender hrst => h.rstack hin hrst

theorem Lively.step {s s' : Session} (hstep : Step Expected s s') (h : Lively s) : Lively s' := by
  cases hstep with
  | deliver i env m rest hm hcalm hp =>
      obtain ⟨hok, hlasts⟩ := h.receive hm hcalm
      have hin : m ∈ s.inbox i := by
        rw [hm]
        exact List.mem_cons_self
      refine h.act i (fun x hx => ?_) (hlasts hp) ?_ ?_
      · rw [hm]
        exact List.mem_cons_of_mem _ hx
      · rintro rfl hdormant
        have hphased : Phased ((s.ends false).arrived env m) := (h.steady false).phased
        have hstart : Dormant ((s.ends false).arrived env m) ∨
            ((s.ends false).arrived env m).synsent = true :=
          Or.inl ⟨hdormant.state, hdormant.estab, hdormant.quiet⟩
        have htrue := hok.mpr hp
        rw [receiveTlv_eq env m (h.gone false)] at htrue ⊢
        split at htrue
        · rename_i hall
          rw [if_pos hall]
          exact (dispatchAll_dormant hphased hcalm hstart hall).symm
        · cases htrue
      · rintro rfl hdormant -
        exact absurd (h.inbox true m hin) (hdormant.quiet m)
  | lose inbox hsub =>
      exact ⟨h.gone, h.steady, h.conforming, fun i m hm => h.inbox i m ((hsub i).subset hm), h.active,
        h.passive⟩
  | timeout i env hcalm =>
      have hlasts := handleTimeout_lasts (h.gone i) (h.steady i) (h.conforming i) hcalm
      refine h.act i (fun _ => id) hlasts ?_ ?_
      · rintro rfl hdormant
        obtain ⟨heq, -⟩ := handleTimeout_steady (h.gone false) (h.steady false) hcalm
        rw [heq, timeoutAction, hdormant.state]
        exact Or.inr hdormant
      · rintro rfl - hquiet m body hm
        exact hquiet m body (hlasts.heard m body hm)
  | bundle i env b =>
      obtain ⟨l, hl⟩ := handleBundleReceived_eq env b (s.ends i)
      have hlasts : Lasts (fun m body => .received m body ∈ (s.ends i).log) (s.ends i)
          ((s.ends i).handleBundleReceived env b) := by
        rw [hl]
        exact ⟨h.gone i, ⟨(h.steady i).phased, (h.steady i).settled⟩,
          ⟨(h.conforming i).shaped, (h.conforming i).answers⟩, id, fun _ => id, fun _ _ => id⟩
      refine h.act i (fun _ => id) hlasts ?_ ?_
      · rintro rfl hdormant
        rw [hl]
        exact Or.inr ⟨hdormant.state, hdormant.estab, hdormant.quiet⟩
      · rintro rfl - hquiet m body hm
        exact hquiet m body (hlasts.heard m body hm)

/-! ## The start of a session -/

/-- Each end knows the other, and the end `true` has the smaller endpoint id. -/
structure Linked (peers : Bool → Peers) : Prop where
  known : ∀ i, (peers i).remoteEid = (peers !i).localEid
  lt : (peers true).localEid < (peers false).localEid

theorem Linked.synsender {peers : Bool → Peers} (h : Linked peers) (env : Env) (i : Bool)
    (inst : UInt16) : (fresh env (peers i) inst).synsender = i := by
  have hlt := h.lt
  change decide ((peers i).localEid < (peers i).remoteEid) = i
  rw [h.known i]
  cases i with
  | true => exact decide_eq_true hlt
  | false => exact decide_eq_false (List.lt_asymm hlt)

theorem new_active {env : Env} {peers : Peers} {inst : UInt16}
    (hs : (fresh env peers inst).synsender = true) (hsend : ∀ m, env.sendMessage m = true) :
    ∃ next t, new env peers inst = { fresh env peers inst with
      nextTid := next, synsent := true, state := .synsent
      log := [.sent ((fresh env peers inst).message .noSuccessAck t
        [.hello .syn env.params.helloInterval peers.localEid])] } := by
  obtain ⟨next, t, hsent⟩ := sendHello_sent (e := fresh env peers inst) hsend .noSuccessAck 0
    (show suppressed env .syn (fresh env peers inst) = false from rfl)
  refine ⟨next, t, ?_⟩
  unfold new
  dsimp only
  rw [if_pos hs, hsent]
  rfl

theorem new_passive {env : Env} {peers : Peers} {inst : UInt16}
    (hs : (fresh env peers inst).synsender = false) : new env peers inst = fresh env peers inst := by
  unfold new
  dsimp only
  rw [if_neg (by simp [hs])]

theorem Lively.start {env : Bool → Env} {peers : Bool → Peers} {inst : Bool → UInt16}
    (hlinked : Linked peers) (hsend : ∀ m, (env true).sendMessage m = true) :
    Lively (start env peers inst) := by
  obtain ⟨next, t, hactive⟩ := new_active (hlinked.synsender (env true) true (inst true)) hsend
  have hpassive := new_passive (hlinked.synsender (env false) false (inst false))
  have htrue : (Session.start env peers inst).ends true = new (env true) (peers true) (inst true) := rfl
  have hfalse : (Session.start env peers inst).ends false =
      new (env false) (peers false) (inst false) := rfl
  refine ⟨?_, ?_, ?_, fun i m hm => sent_of_sentSince hm, ?_, Or.inr ⟨?_, ?_⟩⟩
  · intro i
    cases i with
    | true => rw [htrue, hactive]; rfl
    | false => rw [hfalse, hpassive]; rfl
  · intro i
    cases i with
    | true => rw [htrue, hactive]; exact ⟨by simp [Phased, fresh], by simp [fresh]⟩
    | false => rw [hfalse, hpassive]; exact ⟨by simp [Phased, fresh], by simp [fresh]⟩
  · intro i
    cases i with
    | true =>
        rw [htrue, hactive]
        refine ⟨?_, ?_⟩
        · rintro m hm
          cases List.mem_singleton.mp hm
          exact .hello .syn (env true).params.helloInterval (peers true).localEid (by simp)
        · rintro m ⟨hm, timer, sender, hhello⟩
          cases List.mem_singleton.mp hm
          simp at hhello
    | false => rw [hfalse, hpassive]; exact ⟨by simp [fresh], by simp [fresh, SentHello]⟩
  · rw [htrue, hactive]
  · rw [hfalse, hpassive]
    exact ⟨rfl, rfl, by simp [fresh]⟩
  · rw [htrue, hactive]
    simp

/-- In every run in which each message is one that its receiver waits for, no session ends; and in any
state of such a run, the next message is accepted exactly if it is waited for. -/
theorem session_lasts {env : Bool → Env} {peers : Bool → Peers} {inst : Bool → UInt16}
    (hlinked : Linked peers) (hsend : ∀ m, (env true).sendMessage m = true) {s : Session}
    (hrun : Relation.ReflTransGen (Step Expected) (start env peers inst) s) :
    (∀ i, (s.ends i).gone = false) ∧
      ∀ i env m rest, s.inbox i = m :: rest → CalmAll m env m.bodies ((s.ends i).arrived env m) →
        (((s.ends i).receiveTlv env m).2 = true ↔ Expected m (s.ends i)) := by
  have hlively : Lively s := by
    induction hrun with
    | refl => exact Lively.start hlinked hsend
    | tail _ hstep ih => exact ih.step hstep
  exact ⟨hlively.gone, fun i env m rest hm hcalm => (hlively.receive hm hcalm).1⟩

/-! ## A session that ends -/

/-- The plain environment is calm for an encounter that has just been active. -/
def atRest (m : Message) : List Body → Encounter → Bool
  | [], _ => true
  | body :: rest, e => decide (e.dataSent = 0) && decide (e.dataRcvd = 0) &&
      atRest m rest (e.dispatchTlv .plain m body).1

theorem calm_plain {e : Encounter} (hsent : e.dataSent = 0) (hrcvd : e.dataRcvd = 0) :
    Calm .plain e where
  send _ := rfl
  sent := by
    rw [hsent]
    decide
  rcvd := by
    rw [hrcvd]
    decide
  table := ⟨_, rfl, _, rfl⟩

theorem calmAll_plain {m : Message} {bodies : List Body} {e : Encounter}
    (h : atRest m bodies e = true) : CalmAll m (fun _ => .plain) bodies e := by
  induction bodies generalizing e with
  | nil => trivial
  | cons body rest ih =>
      simp only [atRest, Bool.and_eq_true, decide_eq_true_eq] at h
      exact ⟨calm_plain h.1.1 h.1.2, fun _ => ih h.2⟩

def next (i : Bool) (s : Session) : Session :=
  match s.inbox i with
  | [] => s
  | m :: rest => s.act i ((s.ends i).receiveTlv (fun _ => .plain) m).1 rest

def nextAtRest (i : Bool) (s : Session) : Bool :=
  match s.inbox i with
  | [] => true
  | m :: _ => atRest m m.bodies ((s.ends i).arrived (fun _ => .plain) m)

theorem next_run {P : Message → Encounter → Prop} {start s : Session} (i : Bool)
    (hrun : Relation.ReflTransGen (Step P) start s) (hrest : nextAtRest i s = true)
    (hp : ∀ m rest, s.inbox i = m :: rest → P m (s.ends i)) :
    Relation.ReflTransGen (Step P) start (next i s) := by
  unfold next
  unfold nextAtRest at hrest
  cases h : s.inbox i with
  | nil => exact hrun
  | cons m rest =>
      rw [h] at hrest
      exact hrun.tail (.deliver s i _ m rest h (calmAll_plain hrest) (hp m rest h))

def nextExpected (i : Bool) (s : Session) : Bool :=
  match s.inbox i with
  | [] => true
  | m :: _ => decide (Expected m (s.ends i))

theorem expected_of_next {i : Bool} {s : Session} (h : nextExpected i s = true) :
    ∀ m rest, s.inbox i = m :: rest → Expected m (s.ends i) := by
  intro m rest hm
  rw [nextExpected, hm] at h
  exact of_decide_eq_true h

def samplePeers : Bool → Peers
  | true => ⟨[97], [98], [97], [98]⟩
  | false => ⟨[98], [97], [98], [97]⟩

/-- Two nodes that are about to meet. -/
def sampleStart : Session := start (fun _ => .plain) samplePeers fun i => if i then 1 else 7

def sampleOffered : Session := next false (next false (next true (next false sampleStart)))

/-- The active end has sent its dictionary once more. -/
def sampleRepeated : Session :=
  sampleOffered.act true ((sampleOffered.ends true).handleTimeout .plain) (sampleOffered.inbox true)

theorem samplePeers_linked : Linked samplePeers := ⟨by decide, by decide⟩

/-- Up to the first offer every message is expected. -/
theorem session_lasts_sample : (sampleOffered.ends false).state = .offer ∧
    ∀ i, (sampleOffered.ends i).gone = false := by
  have hrun : Relation.ReflTransGen (Step Expected) sampleStart sampleOffered := by
    refine next_run _ (next_run _ (next_run _ (next_run _ .refl ?_ ?_) ?_ ?_) ?_ ?_) ?_ ?_
    all_goals first | decide +kernel | exact expected_of_next (by decide +kernel)
  exact ⟨by decide +kernel, (session_lasts samplePeers_linked (fun _ => rfl) hrun).1⟩

/-- The initiator has a timeout before the offer comes. The listener ends the session when the
dictionary and the routing information base come again. -/
theorem not_session_lasts : ∃ s, Relation.ReflTransGen (Step fun _ _ => True) sampleStart s ∧
    (s.ends false).gone = true := by
  have hoffered : Relation.ReflTransGen (Step fun _ _ => True) sampleStart sampleOffered := by
    refine next_run _ (next_run _ (next_run _ (next_run _ .refl ?_ ?_) ?_ ?_) ?_ ?_) ?_ ?_
    all_goals first | decide +kernel | exact fun _ _ _ => trivial
  have hrepeated : Relation.ReflTransGen (Step fun _ _ => True) sampleStart sampleRepeated :=
    hoffered.tail (.timeout _ true .plain (calm_plain (by decide +kernel) (by decide +kernel)))
  refine ⟨next false sampleRepeated, next_run false hrepeated (by decide +kernel)
    fun _ _ _ => trivial, ?_⟩
  decide +kernel

end Session

end Prophet

end Dtn2
