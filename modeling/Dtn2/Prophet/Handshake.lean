import Dtn2.Prophet.Requests

/-!
# The hello procedure

Two nodes meet again and again, and each time a new encounter starts at either end. The hellos of
earlier encounters may still be on their way, and messages may be lost, repeated or overtaken. Which
end of an encounter sends the first hello is settled by the endpoint ids.
-/

namespace Dtn2

namespace Prophet

namespace Encounter

def SentHello (e : Encounter) (hf : HelloHf) (m : Message) : Prop :=
  .sent m ∈ e.log ∧ ∃ timer sender, .hello hf timer sender ∈ m.bodies

def HeardHello (e : Encounter) (hf : HelloHf) (m : Message) : Prop :=
  ∃ timer sender, .received m (.hello hf timer sender) ∈ e.log

/-- A `SYN` with the instance number was received. -/
def HeardSyn (e : Encounter) (inst : UInt16) : Prop :=
  ∃ m, e.HeardHello .syn m ∧ m.senderInstance = inst

/-- What the log of an encounter says about the hello procedure, also when the session is over. -/
structure Greeted (e : Encounter) : Prop where
  senders : ∀ m, .sent m ∈ e.log → m.senderInstance = e.localInstance
  syn : ∀ m, e.SentHello .syn m → e.synsender = true
  synack : ∀ m, e.SentHello .synack m → e.HeardSyn m.receiverInstance
  ack : ∀ m, e.SentHello .ack m → e.estab = true ∧ e.remoteInstance = m.receiverInstance
  estab : e.estab = true →
    (∃ m, e.HeardHello .synack m ∧ m.senderInstance = e.remoteInstance ∧
      m.receiverInstance = e.localInstance) ∨
    e.HeardSyn e.remoteInstance ∧ ∃ m, e.HeardHello .ack m ∧ m.senderInstance = e.remoteInstance ∧
      m.receiverInstance = e.localInstance

structure Greeting (e : Encounter) : Prop extends Greeted e where
  phased : Phased e
  synsent : e.state = .synsent → e.synsender = true
  verified : e.state = .synrcvd → e.HeardSyn e.remoteInstance

/-! ## Logs grow -/

theorem sentHello_append {e : Encounter} {ev : Event} {hf : HelloHf} {m : Message}
    (h : SentHello { e with log := e.log ++ [ev] } hf m) :
    e.SentHello hf m ∨ ev = .sent m ∧ ∃ timer sender, .hello hf timer sender ∈ m.bodies := by
  obtain ⟨hm, hhello⟩ := h
  rcases List.mem_append.mp hm with hm | hm
  · exact Or.inl ⟨hm, hhello⟩
  · exact Or.inr ⟨(List.mem_singleton.mp hm).symm, hhello⟩

theorem HeardHello.append {e : Encounter} {hf : HelloHf} {m : Message} (h : e.HeardHello hf m)
    (synsent : Bool) (ev : Event) :
    HeardHello { e with synsent := synsent, log := e.log ++ [ev] } hf m := by
  obtain ⟨timer, sender, hm⟩ := h
  exact ⟨timer, sender, List.mem_append_left _ hm⟩

theorem HeardSyn.append {e : Encounter} {inst : UInt16} (h : e.HeardSyn inst) (synsent : Bool)
    (ev : Event) : HeardSyn { e with synsent := synsent, log := e.log ++ [ev] } inst := by
  obtain ⟨m, hm, hinst⟩ := h
  exact ⟨m, hm.append synsent ev, hinst⟩

theorem Greeting.append {e : Encounter} (h : Greeting e) (synsent : Bool) (ev : Event)
    (hsender : ∀ m, ev = .sent m → m.senderInstance = e.localInstance)
    (hsyn : ∀ m timer sender, ev = .sent m → .hello .syn timer sender ∈ m.bodies →
      e.synsender = true)
    (hsynack : ∀ m timer sender, ev = .sent m → .hello .synack timer sender ∈ m.bodies →
      e.HeardSyn m.receiverInstance)
    (hack : ∀ m timer sender, ev = .sent m → .hello .ack timer sender ∈ m.bodies →
      e.estab = true ∧ e.remoteInstance = m.receiverInstance) :
    Greeting { e with synsent := synsent, log := e.log ++ [ev] } where
  senders m hm := by
    rcases List.mem_append.mp hm with hm | hm
    · exact h.senders m hm
    · exact hsender m (List.mem_singleton.mp hm).symm
  syn m hm := by
    rcases sentHello_append hm with hm | ⟨hev, timer, sender, hhello⟩
    · exact h.syn m hm
    · exact hsyn m timer sender hev hhello
  synack m hm := by
    rcases sentHello_append hm with hm | ⟨hev, timer, sender, hhello⟩
    · exact (h.synack m hm).append synsent ev
    · exact (hsynack m timer sender hev hhello).append synsent ev
  ack m hm := by
    rcases sentHello_append hm with hm | ⟨hev, timer, sender, hhello⟩
    · exact h.ack m hm
    · exact hack m timer sender hev hhello
  estab he := by
    rcases h.estab he with ⟨m, hm, hinst⟩ | ⟨hheard, m, hm, hinst⟩
    · exact Or.inl ⟨m, hm.append synsent ev, hinst⟩
    · exact Or.inr ⟨hheard.append synsent ev, m, hm.append synsent ev, hinst⟩
  phased := h.phased
  synsent := h.synsent
  verified hs := (h.verified hs).append synsent ev

theorem Greeting.other {e : Encounter} (h : Greeting e) (hr : HeaderResult) (tid : UInt32)
    (bodies : List Body) (hbodies : ∀ hf timer sender, .hello hf timer sender ∉ bodies)
    (hsender : (e.message hr tid bodies).senderInstance = e.localInstance) :
    Greeting { e with log := e.log ++ [.sent (e.message hr tid bodies)] } := by
  refine h.append e.synsent _ ?_ ?_ ?_ ?_
  · rintro m ⟨⟩
    exact hsender
  · rintro m timer sender ⟨⟩ hm
    exact absurd hm (by simpa using hbodies .syn timer sender)
  · rintro m timer sender ⟨⟩ hm
    exact absurd hm (by simpa using hbodies .synack timer sender)
  · rintro m timer sender ⟨⟩ hm
    exact absurd hm (by simpa using hbodies .ack timer sender)

theorem Greeting.hello {e : Encounter} (h : Greeting e) (synsent : Bool) (hr : HeaderResult)
    (tid : UInt32) (hf : HelloHf) (timer : UInt8) (hallowed : Allowed hf e) :
    Greeting { e with
      synsent := synsent
      log := e.log ++ [.sent (e.message hr tid [.hello hf timer e.peers.localEid])] } := by
  refine h.append synsent _ ?_ ?_ ?_ ?_
  · rintro m ⟨⟩
    rfl
  · rintro m timer' sender ⟨⟩ hm
    simp only [message_bodies, List.mem_singleton, Body.hello.injEq] at hm
    obtain ⟨rfl, -⟩ := hm
    exact h.synsent hallowed
  · rintro m timer' sender ⟨⟩ hm
    simp only [message_bodies, List.mem_singleton, Body.hello.injEq] at hm
    obtain ⟨rfl, -⟩ := hm
    exact h.verified hallowed
  · rintro m timer' sender ⟨⟩ hm
    simp only [message_bodies, List.mem_singleton, Body.hello.injEq] at hm
    obtain ⟨rfl, -⟩ := hm
    exact ⟨hallowed, rfl⟩

variable {R : Message → Body → Prop} {A : BundleResponseList → BundleOfferList → Prop}

theorem Greeting.move {e e' : Encounter} (hmove : Move R A e e') (h : Greeting e) : Greeting e' := by
  have hphased := h.phased.move hmove
  cases hmove with
  | quiet => exact ⟨⟨h.senders, h.syn, h.synack, h.ack, h.estab⟩, hphased, h.synsent, h.verified⟩
  | receive m body hr hs => exact h.append e.synsent _ (by simp) (by simp) (by simp) (by simp)
  | bundle b => exact h.append e.synsent _ (by simp) (by simp) (by simp) (by simp)
  | syn hr tid timer hs => exact h.hello true hr tid .syn timer hs
  | synack hr tid timer hs => exact h.hello true hr tid .synack timer hs
  | ack hr tid timer hs => exact h.hello e.synsent hr tid .ack timer hs
  | rstack hr tid timer hs => exact h.hello e.synsent hr tid .rstack timer hs
  | hearSyn m timer sender hm hs =>
      have hack : ∀ m, ¬ e.SentHello .ack m := by
        intro m hm
        exact absurd (h.ack m hm).1 (by simp [hs])
      exact ⟨⟨h.senders, h.syn, h.synack, fun m hm => absurd hm (hack m), by simp [hs]⟩, hphased,
        by simp, fun _ => ⟨m, ⟨timer, sender, hm⟩, rfl⟩⟩
  | hearSynack m timer sender hm hs hc =>
      have hack : ∀ m, ¬ e.SentHello .ack m := by
        intro m hm
        exact absurd (h.ack m hm).1 (by simp [hs])
      exact ⟨⟨h.senders, h.syn, h.synack, fun m hm => absurd hm (hack m),
        fun _ => Or.inl ⟨m, ⟨timer, sender, hm⟩, rfl, hc.symm⟩⟩, hphased, by simp, by simp⟩
  | hearAck m timer sender hm hs hstate ha hc =>
      exact ⟨⟨h.senders, h.syn, h.synack, fun m hm => ⟨rfl, (h.ack m hm).2⟩,
        fun _ => Or.inr ⟨h.verified hstate, m, ⟨timer, sender, hm⟩, ha.symm, hc.symm⟩⟩, hphased,
        by simp, by simp⟩
  | phase s hs hphase =>
      rcases hphase with rfl | rfl | rfl | rfl <;>
        exact ⟨⟨h.senders, h.syn, h.synack, h.ack, h.estab⟩, hphased, by simp, by simp⟩
  | dictionary hr tid d nodes relay custody internet hs =>
      have hlog := h.other hr tid [.ribd d, .rib nodes relay custody internet] (by simp) rfl
      exact ⟨⟨hlog.senders, hlog.syn, hlog.synack, hlog.ack, hlog.estab⟩, hphased, by simp, by simp⟩
  | offer hr tid list hs => exact h.other hr tid _ (by simp) rfl
  | takeOffer m list hr hs ha hest =>
      have hlog := h.append e.synsent (.received m (.offer list)) (by simp) (by simp) (by simp)
        (by simp)
      exact ⟨⟨hlog.senders, hlog.syn, hlog.synack, hlog.ack, hlog.estab⟩, hphased, by simp, by simp⟩
  | response hr tid list hs hlist =>
      have hlog := h.other hr tid [.response list] (by simp) rfl
      exact ⟨⟨hlog.senders, hlog.syn, hlog.synack, hlog.ack, hlog.estab⟩, hphased, hlog.synsent,
        hlog.verified⟩
  | arrival list hlist =>
      exact ⟨⟨h.senders, h.syn, h.synack, h.ack, h.estab⟩, hphased, h.synsent, h.verified⟩

theorem Greeted.failed {e e' : Encounter} (hfailed : Failed e e') (h : Greeted e) : Greeted e' := by
  obtain ⟨-, hlocal, hsynsender, hestab, hremote, hlog⟩ := hfailed
  refine ⟨?_, ?_, ?_, ?_, ?_⟩
  · rw [hlog, hlocal]
    exact h.senders
  · rw [hsynsender]
    simpa only [SentHello, hlog] using h.syn
  · simpa only [SentHello, HeardSyn, HeardHello, hlog] using h.synack
  · intro m hm
    have hack := h.ack m (by simpa only [SentHello, hlog] using hm)
    rw [hestab, hremote hack.1]
    exact hack
  · intro he
    rw [hestab] at he
    simpa only [HeardSyn, HeardHello, hlog, hremote he, hlocal] using h.estab he

/-- What is left of an encounter by its later steps: who it is, what it has done, and that it only
hears what is delivered. -/
structure Grown (R : Message → Body → Prop) (start e : Encounter) : Prop where
  localInstance : e.localInstance = start.localInstance
  synsender : e.synsender = start.synsender
  log : ∀ ev ∈ start.log, ev ∈ e.log
  heard : ∀ m body, .received m body ∈ e.log → R m body
  frozen : start.estab = true → e.estab = true ∧ e.remoteInstance = start.remoteInstance

theorem Grown.append {start e : Encounter} (h : Grown R start e) (synsent : Bool) (ev : Event)
    (hev : ∀ m body, ev = .received m body → R m body) :
    Grown R start { e with synsent := synsent, log := e.log ++ [ev] } where
  localInstance := h.localInstance
  synsender := h.synsender
  log ev' hev' := List.mem_append_left _ (h.log ev' hev')
  heard m body hm := by
    rcases List.mem_append.mp hm with hm | hm
    · exact h.heard m body hm
    · exact hev m body (List.mem_singleton.mp hm).symm
  frozen := h.frozen

theorem Grown.move {start e e' : Encounter} (hmove : Move R A e e') (h : Grown R start e) :
    Grown R start e' := by
  have hnew : e.estab = false → start.estab = false := by
    intro he
    rcases Bool.eq_false_or_eq_true start.estab with hs | hs
    · exact absurd (h.frozen hs).1 (by simp [he])
    · exact hs
  cases hmove with
  | quiet => exact ⟨h.localInstance, h.synsender, h.log, h.heard, h.frozen⟩
  | receive m body hr hs => exact h.append e.synsent _ fun m' body' heq => by cases heq; exact hr
  | bundle b => exact h.append e.synsent _ (by simp)
  | syn hr tid timer hs => exact h.append true _ (by simp)
  | synack hr tid timer hs => exact h.append true _ (by simp)
  | ack hr tid timer hs => exact h.append e.synsent _ (by simp)
  | rstack hr tid timer hs => exact h.append e.synsent _ (by simp)
  | hearSyn m timer sender hm hs =>
      exact ⟨h.localInstance, h.synsender, h.log, h.heard, by simp [hnew hs]⟩
  | hearSynack m timer sender hm hs hc =>
      exact ⟨h.localInstance, h.synsender, h.log, h.heard, by simp [hnew hs]⟩
  | hearAck m timer sender hm hs hstate ha hc =>
      exact ⟨h.localInstance, h.synsender, h.log, h.heard, by simp [hnew hs]⟩
  | phase s hs hphase => exact ⟨h.localInstance, h.synsender, h.log, h.heard, h.frozen⟩
  | dictionary hr tid d nodes relay custody internet hs =>
      have hlog := h.append e.synsent
        (.sent (e.message hr tid [.ribd d, .rib nodes relay custody internet])) (by simp)
      exact ⟨hlog.localInstance, hlog.synsender, hlog.log, hlog.heard, hlog.frozen⟩
  | offer hr tid list hs => exact h.append e.synsent _ (by simp)
  | takeOffer m list hr hs ha hest =>
      have hlog := h.append e.synsent (.received m (.offer list)) fun m' body' heq => by
        cases heq
        exact hr
      exact ⟨hlog.localInstance, hlog.synsender, hlog.log, hlog.heard, hlog.frozen⟩
  | response hr tid list hs hlist =>
      have hlog := h.append e.synsent (.sent (e.message hr tid [.response list])) (by simp)
      exact ⟨hlog.localInstance, hlog.synsender, hlog.log, hlog.heard, hlog.frozen⟩
  | arrival list hlist => exact ⟨h.localInstance, h.synsender, h.log, h.heard, h.frozen⟩

theorem Grown.failed {start e e' : Encounter} (hfailed : Failed e e') (h : Grown R start e) :
    Grown R start e' := by
  obtain ⟨-, hlocal, hsynsender, hestab, hremote, hlog⟩ := hfailed
  refine ⟨hlocal.trans h.localInstance, hsynsender.trans h.synsender, hlog ▸ h.log, hlog ▸ h.heard, ?_⟩
  intro hs
  obtain ⟨he, hinst⟩ := h.frozen hs
  exact ⟨hestab.trans he, (hremote he).trans hinst⟩

/-- What holds of an encounter at a node whose peer has delivered nothing but `R`. -/
structure Sound (R : Message → Body → Prop) (synsender : Bool) (e : Encounter) : Prop where
  greeting : e.gone = false → Greeting e
  greeted : Greeted e
  role : e.synsender = synsender
  heard : ∀ m body, .received m body ∈ e.log → R m body

theorem Sound.step {synsender : Bool} {e e' : Encounter} (hstep : Step R A e e')
    (h : Sound R synsender e) : Sound R synsender e' ∧ Grown R e e' := by
  have hmove : ∀ x x', Move R A x x' → Greeting x ∧ Grown R e x → Greeting x' ∧ Grown R e x' :=
    fun x x' hmove hx => ⟨hx.1.move hmove, hx.2.move hmove⟩
  have hfailed : ∀ x x', Failed x x' → Greeting x ∧ Grown R e x → Greeted x' ∧ Grown R e x' :=
    fun x x' hfailed hx => ⟨hx.1.toGreeted.failed hfailed, hx.2.failed hfailed⟩
  have hlost : ∀ (x : Encounter) (l : BundleResponseList) (g : Bool), Greeted x ∧ Grown R e x →
      Greeted { x with localResponse := l, gone := g } ∧
        Grown R e { x with localResponse := l, gone := g } := by
    intro x l g ⟨hx, hgrown⟩
    exact ⟨⟨hx.senders, hx.syn, hx.synack, hx.ack, hx.estab⟩, ⟨hgrown.localInstance,
      hgrown.synsender, hgrown.log, hgrown.heard, hgrown.frozen⟩⟩
  have hself : Grown R e e := ⟨rfl, rfl, fun _ => id, h.heard, fun he => ⟨he, rfl⟩⟩
  have hkeep := hstep.keep hmove hfailed (fun x hx => hx.1.phased)
    (fun x hx => ⟨hx.1.toGreeted, hx.2⟩) hlost
    ⟨fun hgone => ⟨h.greeting hgone, hself⟩, h.greeted, hself⟩
  exact ⟨⟨fun hgone => (hkeep.1 hgone).1, hkeep.2.1, hkeep.2.2.synsender.trans h.role,
    hkeep.2.2.heard⟩, hkeep.2.2⟩

theorem Greeting.fresh (env : Env) (peers : Peers) (inst : UInt16) :
    Greeting (fresh env peers inst) := by
  refine ⟨⟨?_, ?_, ?_, ?_, ?_⟩, ?_, ?_, ?_⟩ <;>
    simp [Encounter.fresh, SentHello, Phased]

theorem Greeting.start {env : Env} {peers : Peers} {inst : UInt16}
    (hs : (Encounter.fresh env peers inst).synsender = true) :
    Greeting ((Encounter.fresh env peers inst).setState .synsent) := by
  refine ⟨⟨?_, ?_, ?_, ?_, ?_⟩, ?_, fun _ => hs, ?_⟩ <;>
    simp [Encounter.fresh, SentHello, Phased, setState]

theorem Sound.new (env : Env) (peers : Peers) (inst : UInt16) :
    Sound R (decide (peers.localEid < peers.remoteEid)) (new env peers inst) := by
  have hmove : ∀ x x', Move R (fun _ _ => True) x x' →
      Greeting x ∧ Grown R (Encounter.fresh env peers inst) x →
      Greeting x' ∧ Grown R (Encounter.fresh env peers inst) x' :=
    fun x x' hmove hx => ⟨hx.1.move hmove, hx.2.move hmove⟩
  have hself : ∀ s, Grown R (Encounter.fresh env peers inst)
      ((Encounter.fresh env peers inst).setState s) := by
    intro s
    refine ⟨rfl, rfl, ?_, ?_, ?_⟩ <;> simp [Encounter.fresh, setState]
  have hkeep := new_keep hmove (fun x hx => hx) ⟨Greeting.fresh env peers inst, hself .waitNb⟩
    fun hs => ⟨Greeting.start hs, hself .synsent⟩
  exact ⟨fun _ => hkeep.2.1, hkeep.2.1.toGreeted, hkeep.2.2.synsender, hkeep.2.2.heard⟩

theorem Sound.mono {R' : Message → Body → Prop} {synsender : Bool} {e : Encounter}
    (h : Sound R synsender e) (hR : ∀ m body, R m body → R' m body) : Sound R' synsender e :=
  ⟨h.greeting, h.greeted, h.role, fun m body hm => hR m body (h.heard m body hm)⟩

end Encounter

/-! ## Two nodes -/

/-- The encounters of two nodes, from the first one on. Those of the node that sends the first hello
are active. An encounter that is deleted handles no more events. -/
structure Nodes where
  active : List Encounter
  passive : List Encounter

/-- A TLV of a message that one of the encounters has sent, at whatever time. -/
def Delivers (es : List Encounter) (m : Message) (body : Body) : Prop :=
  (∃ e ∈ es, .sent m ∈ e.log) ∧ body ∈ m.bodies

namespace Nodes

/-- An encounter starts, or one of them handles an event. Its messages are any of those that the other
node has sent. -/
inductive Step (a b : Bytes) : Nodes → Nodes → Prop
  | newActive (n : Nodes) (env : Env) (peers : Peers) (inst : UInt16) (hlocal : peers.localEid = a)
      (hremote : peers.remoteEid = b) (hinst : inst ≠ 0)
      (hnew : ∀ e ∈ n.active, e.localInstance ≠ inst) :
      Step a b n { n with active := n.active ++ [.new env peers inst] }
  | newPassive (n : Nodes) (env : Env) (peers : Peers) (inst : UInt16) (hlocal : peers.localEid = b)
      (hremote : peers.remoteEid = a) (hinst : inst ≠ 0)
      (hnew : ∀ e ∈ n.passive, e.localInstance ≠ inst) :
      Step a b n { n with passive := n.passive ++ [.new env peers inst] }
  | active (n : Nodes) (i : Nat) (e e' : Encounter) (he : n.active[i]? = some e)
      (h : Encounter.Step (Delivers n.passive) (fun _ _ => True) e e') :
      Step a b n { n with active := n.active.set i e' }
  | passive (n : Nodes) (i : Nat) (e e' : Encounter) (he : n.passive[i]? = some e)
      (h : Encounter.Step (Delivers n.active) (fun _ _ => True) e e') :
      Step a b n { n with passive := n.passive.set i e' }

structure Sound (n : Nodes) : Prop where
  active : ∀ e ∈ n.active, e.Sound (Delivers n.passive) true
  passive : ∀ e ∈ n.passive, e.Sound (Delivers n.active) false

/-- What has been established stays, also which instance of the peer it was with. -/
def Kept (es es' : List Encounter) : Prop :=
  ∀ (i : Nat) (e : Encounter), es[i]? = some e → e.estab = true →
    ∃ e' : Encounter, es'[i]? = some e' ∧ e'.estab = true ∧ e'.remoteInstance = e.remoteInstance

theorem delivers_append {es es' : List Encounter} {m : Message} {body : Body}
    (h : Delivers es m body) : Delivers (es ++ es') m body := by
  obtain ⟨⟨e, he, hm⟩, hbody⟩ := h
  exact ⟨⟨e, List.mem_append_left _ he, hm⟩, hbody⟩

theorem mem_set_of_mem {es : List Encounter} {i : Nat} {e e' x : Encounter} (he : es[i]? = some e)
    (hx : x ∈ es) : x = e ∨ x ∈ es.set i e' := by
  obtain ⟨j, hj, rfl⟩ := List.getElem_of_mem hx
  by_cases hij : i = j
  · subst hij
    rw [List.getElem?_eq_getElem hj, Option.some.injEq] at he
    exact Or.inl he
  · right
    refine List.mem_iff_getElem?.mpr ⟨j, ?_⟩
    rw [List.getElem?_set_ne hij, List.getElem?_eq_getElem hj]

theorem delivers_set {R : Message → Body → Prop} {es : List Encounter} {i : Nat} {e e' : Encounter}
    (he : es[i]? = some e) (hgrown : Encounter.Grown R e e') {m : Message} {body : Body}
    (h : Delivers es m body) : Delivers (es.set i e') m body := by
  obtain ⟨⟨x, hx, hm⟩, hbody⟩ := h
  refine ⟨?_, hbody⟩
  rcases mem_set_of_mem he hx with rfl | hx
  · have hi : i < es.length := (List.getElem?_eq_some_iff.mp he).1
    exact ⟨e', List.mem_set hi e', hgrown.log _ hm⟩
  · exact ⟨x, hx, hm⟩

theorem kept_refl (es : List Encounter) : Kept es es := fun _ e he hest => ⟨e, he, hest, rfl⟩

theorem kept_append (es es' : List Encounter) : Kept es (es ++ es') := by
  intro i e he hest
  refine ⟨e, ?_, hest, rfl⟩
  rw [List.getElem?_append_left (List.getElem?_eq_some_iff.mp he).1]
  exact he

theorem kept_set {R : Message → Body → Prop} {es : List Encounter} {i : Nat} {e e' : Encounter}
    (he : es[i]? = some e) (hgrown : Encounter.Grown R e e') : Kept es (es.set i e') := by
  intro j x hx hest
  by_cases hij : i = j
  · subst hij
    rw [he, Option.some.injEq] at hx
    subst hx
    have hi : i < es.length := (List.getElem?_eq_some_iff.mp he).1
    exact ⟨e', List.getElem?_set_self hi, hgrown.frozen hest⟩
  · exact ⟨x, by rw [List.getElem?_set_ne hij]; exact hx, hest, rfl⟩

theorem Kept.trans {es es' es'' : List Encounter} (h : Kept es es') (h' : Kept es' es'') :
    Kept es es'' := by
  intro i e he hest
  obtain ⟨e', he', hest', hinst'⟩ := h i e he hest
  obtain ⟨e'', he'', hest'', hinst''⟩ := h' i e' he' hest'
  exact ⟨e'', he'', hest'', hinst''.trans hinst'⟩

variable {a b : Bytes} {n n' : Nodes}

theorem Sound.step (hab : a < b) (hstep : Step a b n n') (h : Sound n) :
    Sound n' ∧ Kept n.active n'.active ∧ Kept n.passive n'.passive := by
  cases hstep with
  | newActive env peers inst hlocal hremote hinst hnew =>
      have hrole : decide (peers.localEid < peers.remoteEid) = true := by simp [hlocal, hremote, hab]
      refine ⟨⟨?_, fun e he => (h.passive e he).mono fun _ _ => delivers_append⟩, kept_append _ _,
        kept_refl _⟩
      intro e he
      rcases List.mem_append.mp he with he | he
      · exact h.active e he
      · rw [List.mem_singleton.mp he, ← hrole]
        exact Encounter.Sound.new env peers inst
  | newPassive env peers inst hlocal hremote hinst hnew =>
      have hrole : decide (peers.localEid < peers.remoteEid) = false := by
        rw [hlocal, hremote]
        exact decide_eq_false (List.lt_asymm hab)
      refine ⟨⟨fun e he => (h.active e he).mono fun _ _ => delivers_append, ?_⟩, kept_refl _,
        kept_append _ _⟩
      intro e he
      rcases List.mem_append.mp he with he | he
      · exact h.passive e he
      · rw [List.mem_singleton.mp he, ← hrole]
        exact Encounter.Sound.new env peers inst
  | active i e e' he hevent =>
      obtain ⟨hsound, hgrown⟩ := (h.active e (List.mem_of_getElem? he)).step hevent
      refine ⟨⟨?_, fun x hx => (h.passive x hx).mono fun _ _ => delivers_set he hgrown⟩,
        kept_set he hgrown, kept_refl _⟩
      intro x hx
      rcases List.mem_or_eq_of_mem_set hx with hx | rfl
      · exact h.active x hx
      · exact hsound
  | passive i e e' he hevent =>
      obtain ⟨hsound, hgrown⟩ := (h.passive e (List.mem_of_getElem? he)).step hevent
      refine ⟨⟨fun x hx => (h.active x hx).mono fun _ _ => delivers_set he hgrown, ?_⟩,
        kept_refl _, kept_set he hgrown⟩
      intro x hx
      rcases List.mem_or_eq_of_mem_set hx with hx | rfl
      · exact h.passive x hx
      · exact hsound

theorem Sound.run (hab : a < b) (hrun : Relation.ReflTransGen (Step a b) n n') (h : Sound n) :
    Sound n' ∧ Kept n.active n'.active ∧ Kept n.passive n'.passive := by
  induction hrun with
  | refl => exact ⟨h, kept_refl _, kept_refl _⟩
  | tail _ hstep ih =>
      obtain ⟨hsound, hactive, hpassive⟩ := ih
      obtain ⟨hsound', hactive', hpassive'⟩ := hsound.step hab hstep
      exact ⟨hsound', hactive.trans hactive', hpassive.trans hpassive'⟩

/-! ## Agreement -/

theorem sender_of_heard {es : List Encounter} {synsender synsender' : Bool}
    {R : Message → Body → Prop} (hes : ∀ x ∈ es, x.Sound R synsender') {e : Encounter}
    (he : e.Sound (Delivers es) synsender) {hf : HelloHf} {m : Message} (hm : e.HeardHello hf m) :
    ∃ x ∈ es, x.SentHello hf m ∧ x.localInstance = m.senderInstance := by
  obtain ⟨timer, sender, hm⟩ := hm
  obtain ⟨⟨x, hx, hsent⟩, hbody⟩ := he.heard m _ hm
  exact ⟨x, hx, ⟨hsent, timer, sender, hbody⟩, ((hes x hx).greeted.senders m hsent).symm⟩

theorem Sound.no_syn (h : Sound n) {e : Encounter} (he : e ∈ n.active) (m : Message) :
    ¬ e.HeardHello .syn m := by
  intro hm
  obtain ⟨x, hx, hsent, -⟩ := sender_of_heard h.passive (h.active e he) hm
  have hrole := (h.passive x hx).greeted.syn m hsent
  rw [(h.passive x hx).role] at hrole
  cases hrole

theorem Sound.no_synack (h : Sound n) {e : Encounter} (he : e ∈ n.passive) (m : Message) :
    ¬ e.HeardHello .synack m := by
  intro hm
  obtain ⟨x, hx, hsent, -⟩ := sender_of_heard h.active (h.passive e he) hm
  obtain ⟨m', hheard, -⟩ := (h.active x hx).greeted.synack m hsent
  exact h.no_syn hx m' hheard

theorem Sound.active_agrees (h : Sound n) {e : Encounter} (he : e ∈ n.active) (hest : e.estab = true) :
    ∃ x ∈ n.passive, x.localInstance = e.remoteInstance ∧ x.HeardSyn e.localInstance := by
  rcases (h.active e he).greeted.estab hest with ⟨m, hm, hsender, hreceiver⟩ | ⟨⟨m, hm, -⟩, -⟩
  · obtain ⟨x, hx, hsent, hinst⟩ := sender_of_heard h.passive (h.active e he) hm
    refine ⟨x, hx, hinst.trans hsender, ?_⟩
    rw [← hreceiver]
    exact (h.passive x hx).greeted.synack m hsent
  · exact absurd hm (h.no_syn he m)

theorem Sound.passive_agrees (h : Sound n) {e : Encounter} (he : e ∈ n.passive)
    (hest : e.estab = true) : ∃ x ∈ n.active, x.localInstance = e.remoteInstance ∧
      x.estab = true ∧ x.remoteInstance = e.localInstance := by
  rcases (h.passive e he).greeted.estab hest with ⟨m, hm, -⟩ | ⟨-, m, hm, hsender, hreceiver⟩
  · exact absurd hm (h.no_synack he m)
  · obtain ⟨x, hx, hsent, hinst⟩ := sender_of_heard h.active (h.passive e he) hm
    obtain ⟨hest', hremote⟩ := (h.active x hx).greeted.ack m hsent
    exact ⟨x, hx, hinst.trans hsender, hest', hremote.trans hreceiver⟩

/-- However messages are lost, repeated or overtaken: an active encounter is established with an
instance of the peer that has heard its `SYN`, a passive one with an instance that is established with
it, and neither ever changes. -/
theorem hello_agreement (hab : a < b) (hrun : Relation.ReflTransGen (Step a b) ⟨[], []⟩ n) :
    (∀ e ∈ n.active, e.estab = true →
      ∃ x ∈ n.passive, x.localInstance = e.remoteInstance ∧ x.HeardSyn e.localInstance) ∧
    (∀ e ∈ n.passive, e.estab = true →
      ∃ x ∈ n.active, x.localInstance = e.remoteInstance ∧ x.estab = true ∧
        x.remoteInstance = e.localInstance) ∧
    ∀ n', Relation.ReflTransGen (Step a b) n n' →
      Kept n.active n'.active ∧ Kept n.passive n'.passive := by
  have hstart : Sound ⟨[], []⟩ := ⟨by simp, by simp⟩
  obtain ⟨hsound, -, -⟩ := hstart.run hab hrun
  exact ⟨fun e he => hsound.active_agrees he, fun e he => hsound.passive_agrees he,
    fun n' hrun' => (hsound.run hab hrun').2⟩

/-! ## A complete handshake -/

/-- An encounter after it has received a message with the given hello from the other one. -/
def greet (hf : HelloHf) (x e : Encounter) : Encounter :=
  (e.receiveTlv (fun _ => .plain) (x.message .noSuccessAck 1 [.hello hf 20 x.peers.localEid])).1

def sampleActive : Encounter := .new .plain ⟨[97], [98], [97], [98]⟩ 1

def samplePassive : Encounter := .new .plain ⟨[98], [97], [98], [97]⟩ 7

theorem greet_step {hf : HelloHf} {x e : Encounter}
    (h : .sent (x.message .noSuccessAck 1 [.hello hf 20 x.peers.localEid]) ∈ x.log) :
    Encounter.Step (Delivers [x]) (fun _ _ => True) e (greet hf x e) :=
  .receive e _ _ (fun _ hbody => ⟨⟨x, List.mem_singleton.mpr rfl, h⟩, hbody⟩)
    (Encounter.admitsAll_true _ _ _ _)

theorem hello_agreement_sample : ∃ n, Relation.ReflTransGen (Step [97] [98]) ⟨[], []⟩ n ∧
    (∃ e ∈ n.passive, e.estab = true ∧ e.remoteInstance = 1) ∧ ∀ e ∈ n.passive, e.estab = true →
      ∃ x ∈ n.active, x.localInstance = e.remoteInstance ∧ x.estab = true ∧
        x.remoteInstance = e.localInstance := by
  let p := greet .syn sampleActive samplePassive
  let x := greet .synack p sampleActive
  have hactive : Step [97] [98] ⟨[], []⟩ ⟨[sampleActive], []⟩ :=
    .newActive ⟨[], []⟩ .plain ⟨[97], [98], [97], [98]⟩ 1 rfl rfl (by decide) (by simp)
  have hpassive : Step [97] [98] ⟨[sampleActive], []⟩ ⟨[sampleActive], [samplePassive]⟩ :=
    .newPassive ⟨[sampleActive], []⟩ .plain ⟨[98], [97], [98], [97]⟩ 7 rfl rfl (by decide) (by simp)
  have hsyn : Step [97] [98] ⟨[sampleActive], [samplePassive]⟩ ⟨[sampleActive], [p]⟩ :=
    .passive _ 0 samplePassive p rfl (greet_step (by decide +kernel))
  have hsynack : Step [97] [98] ⟨[sampleActive], [p]⟩ ⟨[x], [p]⟩ :=
    .active _ 0 sampleActive x rfl (greet_step (by decide +kernel))
  have hack : Step [97] [98] ⟨[x], [p]⟩ ⟨[x], [greet .ack x p]⟩ :=
    .passive _ 0 p (greet .ack x p) rfl (greet_step (by decide +kernel))
  have hrun := ((((Relation.ReflTransGen.single hactive).tail hpassive).tail hsyn).tail
    hsynack).tail hack
  refine ⟨⟨[x], [greet .ack x p]⟩, hrun, ⟨_, List.mem_singleton.mpr rfl, ?_⟩,
    (hello_agreement (by decide) hrun).2.1⟩
  decide +kernel

end Nodes

end Prophet

end Dtn2
