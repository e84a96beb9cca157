import Dtn2.ConvLayers.Outcomes

/-!
# Closing a contact

A connection runs in a thread of its own: the daemon handles the events it posts some time later,
and takes the bundles off the list of the link then. `close_contact` decides what becomes of the
bundles still in flight, from the flags of their records and the list of the link.
-/

namespace Dtn2

open Framework

/-- The bundle of a `BundleTransmittedEvent`. -/
def Outcome.transmittedId : Outcome → Option Nat
  | transmitted _ id _ _ => some id
  | sendCancelled _ _ | requeued _ _ => none

namespace LinkRef

structure Sound (l : LinkRef) : Prop where
  queue : (l.queue.map XmitBundle.bundleid).Nodup
  inflight : l.inflight.Nodup
  apart : ∀ id ∈ l.queue.map XmitBundle.bundleid, id ∉ l.inflight

/-- What `handle_bundle_transmitted` does to the lists of the link. `handle_bundle_cancelled`
leaves them alone. -/
def handleOutcome (l : LinkRef) (o : Outcome) : LinkRef :=
  match o.transmittedId with
  | none => l
  | some id => { l with
      inflight := l.inflight.erase id
      queue := l.queue.eraseP fun x => x.bundleid = id }

theorem Sound.queueBundle {l : LinkRef} (h : l.Sound) (x : XmitBundle) : (l.queueBundle x).Sound := by
  rw [LinkRef.queueBundle]
  split
  · exact h
  · rename_i hnew
    rw [not_or] at hnew
    rw [addToQueue, if_neg hnew.1]
    refine ⟨?_, h.inflight, ?_⟩
    · rw [List.map_append, List.map_singleton, List.nodup_append]
      refine ⟨h.queue, by simp, ?_⟩
      intro a ha b hb
      rw [List.mem_singleton.mp hb]
      rintro rfl
      exact hnew.1 ha
    · intro id hid
      rw [List.map_append, List.map_singleton, List.mem_append, List.mem_singleton] at hid
      rcases hid with hid | rfl
      · exact h.apart id hid
      · exact hnew.2

theorem queueBundle_inflight (l : LinkRef) (x : XmitBundle) :
    (l.queueBundle x).inflight = l.inflight := by
  rw [queueBundle]
  split
  · rfl
  · rw [addToQueue]
    split <;> rfl

theorem Sound.handleOutcome {l : LinkRef} (h : l.Sound) (o : Outcome) : (l.handleOutcome o).Sound := by
  rw [LinkRef.handleOutcome]
  split
  · exact h
  · rename_i id _
    have hsub := List.Sublist.map XmitBundle.bundleid
      (List.eraseP_sublist (p := fun x : XmitBundle => decide (x.bundleid = id)) (l := l.queue))
    refine ⟨h.queue.sublist hsub, h.inflight.erase id, ?_⟩
    intro i hi hmem
    exact h.apart i (hsub.subset hi) (List.mem_of_mem_erase hmem)

theorem Sound.take {l : LinkRef} (h : l.Sound) {x : XmitBundle} {queue : List XmitBundle}
    (hqueue : l.queue = x :: queue) :
    x.bundleid ∉ l.inflight ∧
      { l.addToInflight x.bundleid with queue := queue }.Sound ∧
      (l.addToInflight x.bundleid).inflight = l.inflight ++ [x.bundleid] := by
  have hnodup := h.queue
  have hapart := h.apart
  rw [hqueue, List.map_cons] at hnodup hapart
  rw [List.nodup_cons] at hnodup
  have hnew := hapart x.bundleid (by simp)
  rw [addToInflight, if_neg hnew]
  refine ⟨hnew, ⟨hnodup.2, ?_, ?_⟩, rfl⟩
  · rw [List.nodup_append]
    refine ⟨h.inflight, by simp, ?_⟩
    intro a ha b hb
    rw [List.mem_singleton.mp hb]
    rintro rfl
    exact hnew ha
  · intro id hid hmem
    rcases List.mem_append.mp hmem with hmem | hmem
    · exact hapart id (List.mem_cons_of_mem _ hid) hmem
    · rw [List.mem_singleton.mp hmem] at hid
      exact hnodup.1 hid

theorem Sound.putBack {l : LinkRef} (h : l.Sound) {x : XmitBundle} (hx : x.bundleid ∈ l.inflight) :
    x.bundleid ∉ l.queue.map XmitBundle.bundleid ∧
      { l with inflight := l.inflight.erase x.bundleid, queue := l.queue ++ [x] }.Sound := by
  have hqueue : x.bundleid ∉ l.queue.map XmitBundle.bundleid := fun hmem => h.apart _ hmem hx
  refine ⟨hqueue, ?_, h.inflight.erase _, ?_⟩
  · rw [List.map_append, List.map_singleton, List.nodup_append]
    refine ⟨h.queue, by simp, ?_⟩
    intro a ha b hb
    rw [List.mem_singleton.mp hb]
    rintro rfl
    exact hqueue ha
  · intro id hid hmem
    rw [List.map_append, List.map_singleton, List.mem_append, List.mem_singleton] at hid
    rcases hid with hid | rfl
    · exact h.apart id hid (List.mem_of_mem_erase hmem)
    · exact h.inflight.not_mem_erase hmem

end LinkRef

namespace StreamConvergenceLayer

open BundleProtocol InFlightBundle Connection

/-! ## The connection and the daemon -/

/-- A connection and the daemon, which has handled the first `handled` of the events posted. -/
structure Session where
  conn : Connection
  handled : Nat

inductive SessionEvent where
  | conn (e : Event)
  | daemon

namespace Session

/-- The connection reacts to an event, or the daemon handles the next event posted. -/
def step (env : Env) (s : Session) : SessionEvent → Exec Session
  | .conn e => do
      let c ← s.conn.step env e
      pure { s with conn := c }
  | .daemon =>
      match s.conn.posted[s.handled]? with
      | none => pure s
      | some o => pure ⟨{ s.conn with link := s.conn.link.handleOutcome o }, s.handled + 1⟩

def run (env : Env) : Session → List SessionEvent → Exec Session
  | s, [] => pure s
  | s, e :: es => do
      let s ← s.step env e
      run env s es

/-- The inputs of one step come in states with `A`. -/
def StepMeets (env : Env) (A : Input → Connection → Prop) (s : Session) : SessionEvent → Prop
  | .conn e => s.conn.contactBroken = none → Meets env A s.conn e
  | .daemon => True

/-- All inputs of a run come in states with `A`. -/
def RunMeets (env : Env) (A : Input → Connection → Prop) : Session → List SessionEvent → Prop
  | _, [] => True
  | s, e :: es => StepMeets env A s e ∧ ∀ s' ∈ (s.step env e).toOption, RunMeets env A s' es

section Decide

variable (env : Env) (A : Input → Connection → Prop) [∀ i c, Decidable (A i c)]

instance (s : Session) : (e : SessionEvent) → Decidable (StepMeets env A s e)
  | .conn e => inferInstanceAs (Decidable (s.conn.contactBroken = none → Meets env A s.conn e))
  | .daemon => inferInstanceAs (Decidable True)

instance decidableRunMeets : ∀ s es, Decidable (RunMeets env A s es)
  | _, [] => inferInstanceAs (Decidable True)
  | s, e :: es =>
      have : DecidablePred fun s => RunMeets env A s es := fun s => decidableRunMeets s es
      inferInstanceAs (Decidable (StepMeets env A s e ∧
        ∀ s' ∈ (s.step env e).toOption, RunMeets env A s' es))

end Decide

end Session

/-! ## The lists of the link -/

def flyingIds (xs : List InFlightBundle) : List Nat :=
  (xs.filter fun x => !x.transmitEventPosted).map fun x => x.xmit.bundleid

/-- The bundles in flight without an outcome, and those whose event the daemon has not handled. -/
def openIds (c : Connection) (handled : Nat) : List Nat :=
  flyingIds c.inflight ++ (c.posted.drop handled).filterMap Outcome.transmittedId

/-- All these are on the list of the link, each once. -/
structure Linked (c : Connection) (handled : Nat) : Prop where
  bound : handled ≤ c.posted.length
  link : c.link.Sound
  nodup : (openIds c handled).Nodup
  listed : ∀ id ∈ openIds c handled, id ∈ c.link.inflight

section Keep

variable {env : Env} {A : Input → Connection → Prop} {c c' : Connection} {k : Nat}

private theorem Linked.subperm (h : Linked c k) (hbound : k ≤ c'.posted.length)
    (hlink : c'.link = c.link) (hopen : (openIds c' k).Subperm (openIds c k)) : Linked c' k where
  bound := hbound
  link := hlink ▸ h.link
  nodup := by
    obtain ⟨ids, hperm, hsub⟩ := hopen
    exact hperm.nodup_iff.mp (h.nodup.sublist hsub)
  listed := by
    intro id hid
    rw [hlink]
    exact h.listed id (hopen.subset hid)

private theorem Linked.congr (h : Linked c k) (hposted : c'.posted = c.posted)
    (hlink : c'.link = c.link) (hinflight : c'.inflight = c.inflight) : Linked c' k := by
  apply h.subperm (hposted ▸ h.bound) hlink
  rw [openIds, openIds, hposted, hinflight]

theorem flyingIds_append (xs ys : List InFlightBundle) :
    flyingIds (xs ++ ys) = flyingIds xs ++ flyingIds ys := by
  rw [flyingIds, List.filter_append, List.map_append]
  rfl

theorem flyingIds_cons_waiting {x : InFlightBundle} (h : x.transmitEventPosted = false)
    (xs : List InFlightBundle) : flyingIds (x :: xs) = x.xmit.bundleid :: flyingIds xs := by
  simp [flyingIds, h]

theorem flyingIds_cons_posted {x : InFlightBundle} (h : x.transmitEventPosted = true)
    (xs : List InFlightBundle) : flyingIds (x :: xs) = flyingIds xs := by
  simp [flyingIds, h]

theorem flyingIds_cons_congr {x y : InFlightBundle}
    (hflag : y.transmitEventPosted = x.transmitEventPosted) (hxmit : y.xmit = x.xmit)
    (xs : List InFlightBundle) : flyingIds (y :: xs) = flyingIds (x :: xs) := by
  cases hx : x.transmitEventPosted with
  | true => rw [flyingIds_cons_posted hx, flyingIds_cons_posted (hflag.trans hx)]
  | false => rw [flyingIds_cons_waiting hx, flyingIds_cons_waiting (hflag.trans hx), hxmit]

private theorem Linked.settle (h : Linked c k) {o : Outcome} {id : Nat}
    (hposted : c'.posted = c.posted ++ [o]) (hlink : c'.link = c.link)
    (ho : o.transmittedId = some id ∨ o.transmittedId = none)
    (hflying : (flyingIds c.inflight).Perm (id :: flyingIds c'.inflight)) : Linked c' k := by
  have hbound := h.bound
  have hpending : (c'.posted.drop k).filterMap Outcome.transmittedId =
      (c.posted.drop k).filterMap Outcome.transmittedId ++ o.transmittedId.toList := by
    rw [hposted, List.drop_append_of_le_length hbound, List.filterMap_append]
    cases ho' : o.transmittedId <;> simp [ho']
  refine h.subperm (by rw [hposted, List.length_append]; omega) hlink ?_
  have hperm : (openIds c k).Perm (flyingIds c'.inflight ++
      ((c.posted.drop k).filterMap Outcome.transmittedId ++ [id])) := by
    rw [openIds]
    refine (hflying.append_right _).trans ?_
    rw [← List.append_assoc]
    exact (List.perm_append_singleton id _).symm
  refine List.Subperm.trans (List.Sublist.subperm ?_) hperm.symm.subperm
  rw [openIds, hpending]
  apply List.Sublist.append_left
  apply List.Sublist.append_left
  rcases ho with ho | ho
  · rw [ho]
    exact List.Sublist.refl _
  · rw [ho]
    exact List.nil_sublist _

/-- Moves keep the bundles without an outcome on the list of the link. -/
theorem linked_move (hinv : SendInv c) (hl : Ledger c) (hA : ∀ i, A i c → Clean i c)
    (h : Linked c k) (hm : Move env A c c') : Linked c' k := by
  cases hm with
  | bundleTaken fin x queue hshape hup hqueue htotal =>
      obtain ⟨hnew, hlink, hlist⟩ := h.link.take hqueue
      have hopen : (openIds { c with
          inflight := c.inflight ++ [InFlightBundle.new c.entries x]
          currentInflight := some c.entries
          entries := c.entries + 1
          link := { (c.link.addToInflight x.bundleid) with queue := queue } } k).Perm
          (x.bundleid :: openIds c k) := by
        show (flyingIds (c.inflight ++ [InFlightBundle.new c.entries x]) ++ _).Perm _
        rw [flyingIds_append, List.append_assoc]
        exact List.perm_middle
      refine ⟨h.bound, hlink, ?_, ?_⟩
      · rw [hopen.nodup_iff, List.nodup_cons]
        exact ⟨fun hmem => hnew (h.listed _ hmem), h.nodup⟩
      · intro id hid
        show id ∈ (c.link.addToInflight x.bundleid).inflight
        rw [hlist, List.mem_append, List.mem_singleton]
        rcases List.mem_cons.mp (hopen.subset hid) with hid | hid
        · exact Or.inr hid
        · exact Or.inl (h.listed id hid)
  | chunkPut fin x k' hfit hshape hpos hle =>
      refine h.subperm h.bound rfl ?_
      rw [openIds, openIds, hshape.inflight_some, flyingIds_append, flyingIds_append,
        flyingIds_cons_congr (x := x) (y := x.advance k') rfl rfl]
  | finishAcked x hshape htodo hsent hacks hle =>
      have hin := hshape.inflight_some
      have hx : x ∈ c.inflight := by
        rw [hin]
        simp
      have hposted := hl.acknowledged hacks x hx hshape.current_some hle
      refine h.subperm h.bound rfl ?_
      rw [openIds, openIds, hin, List.nil_append, flyingIds_cons_posted hposted]
  | finishPosted x hshape htodo hsent hacks =>
      have hin := hshape.inflight_some
      have hwait := hl.waiting_of_disabled hacks (x := x) (by rw [hin]; simp)
      refine h.settle rfl rfl (Or.inl rfl) ?_
      rw [hin, List.nil_append, flyingIds_cons_waiting hwait]
  | cancelled fin x hshape htodo hzero hcancel =>
      have hin := hshape.inflight_some
      have hx : x ∈ c.inflight := by
        rw [hin]
        simp
      have hwait := hA _ hcancel x hx rfl ((hinv.sound x hx).sent_eq_zero.mpr hzero)
      have hperm : (flyingIds c.inflight).Perm (x.xmit.bundleid :: flyingIds fin) := by
        rw [hin, flyingIds_append, flyingIds_cons_waiting hwait]
        exact List.perm_append_singleton _ _
      exact h.settle rfl rfl (Or.inr rfl) hperm
  | ackPart b n acked x rest hup hheader hin hlow hne htodo hack =>
      refine h.subperm h.bound rfl ?_
      rw [openIds, openIds, hin, flyingIds_cons_congr (x := x) (y := x.acknowledge acked) rfl rfl]
      exact List.Subperm.refl _
  | ackFinal b n x rest hup hheader hin hlow hcur htodo hack =>
      have hwait := ((hA _ hack (x, x.totalLength)
        (mem_ackOfCurrent hheader hin hlow hcur)).2 rfl).2
      refine h.settle rfl rfl (Or.inl rfl) ?_
      rw [hin, flyingIds_cons_waiting hwait, flyingIds_cons_posted rfl]
  | ackFinalDone b n x rest hup hheader hin hlow hcur htodo hack =>
      have hwait := hl.waiting_of_not_current (x := x) (by rw [hin]; simp) hcur
      refine h.settle rfl rfl (Or.inl rfl) ?_
      rw [hin, flyingIds_cons_waiting hwait]
  | _ => exact h.congr rfl rfl rfl

end Keep

/-! ## The clean-up -/

/-- The bundles `close_contact` has before it, and what it can rely on. -/
private structure Closing (c : Connection) (xs : List InFlightBundle) : Prop where
  sound : ∀ x ∈ xs, x.Sound
  acks : ∀ x ∈ xs, x.acked < 2 ^ 32
  distinct : (xs.map InFlightBundle.entry).Nodup
  link : c.link.Sound
  nodup : (flyingIds xs).Nodup
  listed : ∀ id ∈ flyingIds xs, id ∈ c.link.inflight
  waiting : ∀ x ∈ xs, x.transmitEventPosted = false → c.outcomes x.entry = []
  reported : ∀ x ∈ xs, x.transmitEventPosted = true →
    (∃ o, c.outcomes x.entry = [o]) ∧ x.totalLength ≤ x.acked ∧
      (x.xmit.bundleid ∈ c.link.inflight →
        c.params.reactiveFragEnabled = true ∧ x.sentData ≠ ∅)

/-- What the clean-up of one record leaves alone. -/
private structure Cleaned (c d : Connection) (x : InFlightBundle) : Prop where
  settled : ∃ o, d.outcomes x.entry = [o]
  others : ∀ e, e ≠ x.entry → d.outcomes e = c.outcomes e
  link : d.link.Sound
  inflight : ∀ id ∈ d.link.inflight, id ∈ c.link.inflight
  kept : ∀ id ∈ c.link.inflight, (x.transmitEventPosted = false ∧ id = x.xmit.bundleid) ∨
    id ∈ d.link.inflight
  params : d.params = c.params
  entries : d.entries = c.entries
  incoming : d.incoming = c.incoming

section Close

variable {c d : Connection} {x : InFlightBundle} {xs : List InFlightBundle}

private theorem cleaned_post {o : Outcome} (hlink : c.link.Sound) (hwait : c.outcomes x.entry = [])
    (ho : o.entry = x.entry) : Cleaned c (c.post o) x where
  settled := by
    refine ⟨o, ?_⟩
    rw [outcomes_append (c := c) rfl, if_pos ho, hwait, List.nil_append]
  others := by
    intro e he
    rw [outcomes_append (c := c) rfl, if_neg]
    rw [ho]
    exact fun h => he h.symm
  link := hlink
  inflight := fun _ hid => hid
  kept := fun _ hid => Or.inr hid
  params := rfl
  entries := rfl
  incoming := rfl

private theorem requeue_listed (hlink : c.link.Sound) (hflag : x.transmitEventPosted = false)
    (hwait : c.outcomes x.entry = []) (hpos : x.totalLength ≠ 0) (hlisted : x.xmit.bundleid ∈ c.link.inflight) :
    ∃ d, c.requeue x = .ok d ∧ Cleaned c d x := by
  obtain ⟨hqueue, hback⟩ := hlink.putBack hlisted
  have hrequeue : c.requeue x = .ok ({ c with link := { c.link with
      inflight := c.link.inflight.erase x.xmit.bundleid
      queue := c.link.queue ++ [x.xmit] } }.post (.requeued x.entry x.xmit.bundleid)) := by
    rw [requeue, LinkRef.delFromInflight, if_pos hlisted, assertThat_of hpos]
    simp only [Exec.ok_bind, pure_bind, if_true]
    rw [LinkRef.addToQueue, if_neg hqueue]
    rfl
  refine ⟨_, hrequeue, ?_⟩
  have hpost := cleaned_post (c := c) (o := .requeued x.entry x.xmit.bundleid) hlink hwait rfl
  refine ⟨hpost.settled, hpost.others, hback, fun _ hid => List.mem_of_mem_erase hid, ?_, rfl, rfl,
    rfl⟩
  intro id hid
  by_cases heq : id = x.xmit.bundleid
  · exact Or.inl ⟨hflag, heq⟩
  · exact Or.inr ((List.mem_erase_of_ne heq).mpr hid)

private theorem requeue_unlisted (hlisted : x.xmit.bundleid ∉ c.link.inflight) :
    c.requeue x = .ok c := by
  rw [requeue, LinkRef.delFromInflight, if_neg hlisted]
  rfl

private theorem closeInflight_spec (h : Closing c (x :: xs)) :
    ∃ d, c.closeInflight x = .ok d ∧ Cleaned c d x := by
  have hsound := h.sound x (by simp)
  rw [closeInflight, hsound.numContiguous_sent, hsound.numContiguous_acked, u32_of_lt hsound.sent_lt,
    u32_of_lt (h.acks x (by simp))]
  cases hflag : x.transmitEventPosted with
  | false =>
      have hwait := h.waiting x (by simp) hflag
      split
      · apply requeue_listed h.link hflag hwait hsound.pos
        apply h.listed
        rw [flyingIds_cons_waiting hflag]
        simp
      · rw [if_neg (by simp)]
        exact ⟨_, rfl, cleaned_post h.link hwait rfl⟩
  | true =>
      obtain ⟨hone, hle, hfrag⟩ := h.reported x (by simp) hflag
      have hsame : Cleaned c c x := ⟨hone, fun _ _ => rfl, h.link, fun _ hid => hid,
        fun _ hid => Or.inr hid, rfl, rfl, rfl⟩
      split
      · rename_i hback
        have hunlisted : x.xmit.bundleid ∉ c.link.inflight := by
          intro hlisted
          obtain ⟨hreactive, hsent⟩ := hfrag hlisted
          have hpos := hsound.pos
          rcases hback with hback | hback | ⟨-, hback⟩
          · rw [hreactive] at hback
            cases hback
          · exact hsent (hsound.sent_eq_zero.mpr hback)
          · omega
        exact ⟨c, requeue_unlisted hunlisted, hsame⟩
      · rw [if_pos rfl]
        exact ⟨c, rfl, hsame⟩

private theorem Closing.next (h : Closing c (x :: xs)) (hd : Cleaned c d x) : Closing d xs := by
  have hmem : ∀ {P : InFlightBundle → Prop}, (∀ y ∈ x :: xs, P y) → ∀ y ∈ xs, P y :=
    fun hP y hy => hP y (List.mem_cons_of_mem _ hy)
  have hdistinct := h.distinct
  rw [List.map_cons, List.nodup_cons] at hdistinct
  have hne : ∀ y ∈ xs, y.entry ≠ x.entry := by
    intro y hy heq
    exact hdistinct.1 (heq ▸ List.mem_map_of_mem hy)
  have hflying : (flyingIds xs).Nodup ∧ ∀ id ∈ flyingIds xs, id ∈ d.link.inflight := by
    have hnodup := h.nodup
    have hlisted := h.listed
    cases hflag : x.transmitEventPosted with
    | true =>
        rw [flyingIds_cons_posted hflag] at hnodup hlisted
        refine ⟨hnodup, ?_⟩
        intro id hid
        rcases hd.kept id (hlisted id hid) with ⟨hfalse, -⟩ | hkept
        · rw [hflag] at hfalse
          cases hfalse
        · exact hkept
    | false =>
        rw [flyingIds_cons_waiting hflag] at hnodup hlisted
        rw [List.nodup_cons] at hnodup
        refine ⟨hnodup.2, ?_⟩
        intro id hid
        rcases hd.kept id (hlisted id (List.mem_cons_of_mem _ hid)) with ⟨-, rfl⟩ | hkept
        · exact absurd hid hnodup.1
        · exact hkept
  refine ⟨hmem h.sound, hmem h.acks, hdistinct.2, hd.link, hflying.1, hflying.2, ?_, ?_⟩
  · intro y hy hfalse
    rw [hd.others y.entry (hne y hy)]
    exact h.waiting y (List.mem_cons_of_mem _ hy) hfalse
  · intro y hy htrue
    obtain ⟨hone, hle, hfrag⟩ := h.reported y (List.mem_cons_of_mem _ hy) htrue
    rw [hd.others y.entry (hne y hy), hd.params]
    exact ⟨hone, hle, fun hid => hfrag (hd.inflight _ hid)⟩

private theorem closeInflights_spec (h : Closing c xs) :
    ∃ d, closeInflights xs c = .ok d ∧ (∀ x ∈ xs, ∃ o, d.outcomes x.entry = [o]) ∧
      (∀ e, (∀ x ∈ xs, x.entry ≠ e) → d.outcomes e = c.outcomes e) ∧ d.entries = c.entries := by
  induction xs generalizing c with
  | nil => exact ⟨c, rfl, by simp, fun _ _ => rfl, rfl⟩
  | cons x xs ih =>
      obtain ⟨d, hclose, hd⟩ := closeInflight_spec h
      obtain ⟨d', hrest, hall, hother, hentries⟩ := ih (h.next hd)
      have hdistinct := h.distinct
      rw [List.map_cons, List.nodup_cons] at hdistinct
      have hfirst : ∀ y ∈ xs, y.entry ≠ x.entry := by
        intro y hy heq
        exact hdistinct.1 (heq ▸ List.mem_map_of_mem hy)
      refine ⟨d', ?_, ?_, ?_, hentries.trans hd.entries⟩
      · rw [closeInflights, hclose, Exec.ok_bind]
        exact hrest
      · intro y hy
        rcases List.mem_cons.mp hy with rfl | hy
        · rw [hother y.entry hfirst]
          exact hd.settled
        · exact hall y hy
      · intro e hout
        rw [hother e fun y hy => hout y (List.mem_cons_of_mem _ hy)]
        exact hd.others e fun heq => hout x (by simp) heq.symm

private theorem closeIncoming_posted (h : c.closeIncoming = .ok d) :
    d.posted = c.posted ∧ d.entries = c.entries := by
  rw [closeIncoming] at h
  split at h
  · cases h
    exact ⟨rfl, rfl⟩
  split at h
  · cases h
    exact ⟨rfl, rfl⟩
  obtain ⟨_, -, h⟩ := Exec.bind_eq_ok.mp h
  split at h
  · cases h
    exact ⟨rfl, rfl⟩
  · cases h
    exact ⟨rfl, rfl⟩

end Close

/-! ## One outcome for every bundle -/

/-- A bundle whose event is posted is not put back on the queue by the clean-up: it is off the list
of the link already, or part of it was sent and reactive fragmentation is enabled. -/
def CloseClean (c : Connection) : Prop :=
  ∀ x ∈ c.inflight, x.transmitEventPosted = true → x.xmit.bundleid ∈ c.link.inflight →
    c.params.reactiveFragEnabled = true ∧ x.sentData ≠ ∅

instance (c : Connection) : Decidable (CloseClean c) :=
  inferInstanceAs (Decidable (∀ x ∈ c.inflight, x.transmitEventPosted = true →
    x.xmit.bundleid ∈ c.link.inflight → c.params.reactiveFragEnabled = true ∧ x.sentData ≠ ∅))

section Session

variable {env : Env}

/-- What holds in every state of a session with clean inputs. -/
private structure Orderly (s : Session) : Prop where
  send : SendInv s.conn
  ledger : Ledger s.conn
  linked : Linked s.conn s.handled

private theorem orderly_conn {c c' : Connection} {k : Nat} {e : Event} (h : Orderly ⟨c, k⟩)
    (hA : c.contactBroken = none → Meets env Clean c e) (hstep : c.step env e = .ok c') :
    Orderly ⟨c', k⟩ := by
  have hkeep := step_keep (P := fun a => Ledger a ∧ Linked a k)
    (fun a b hinv hP hm => ⟨ledger_move hinv hP.1 (fun _ hi => hi) hm,
      linked_move hinv hP.1 (fun _ hi => hi) hP.2 hm⟩)
    (fun a x hinv hP => by
      refine ⟨hP.1.congr rfl rfl rfl rfl rfl rfl, hP.2.bound, hP.2.link.queueBundle x, hP.2.nodup,
        ?_⟩
      intro id hid
      show id ∈ (a.link.queueBundle x).inflight
      rw [LinkRef.queueBundle_inflight]
      exact hP.2.listed id hid)
    h.send hA ⟨h.ledger, h.linked⟩ hstep
  exact ⟨sendInv_step h.send hstep, hkeep.1, hkeep.2⟩

private theorem orderly_daemon {c : Connection} {k : Nat} {o : Outcome} (h : Orderly ⟨c, k⟩)
    (hnext : c.posted[k]? = some o) :
    Orderly ⟨{ c with link := c.link.handleOutcome o }, k + 1⟩ := by
  have hk : k < c.posted.length := (List.getElem?_eq_some_iff.mp hnext).1
  have hdrop : c.posted.drop k = o :: c.posted.drop (k + 1) := by
    rw [List.drop_eq_getElem_cons hk, (List.getElem?_eq_some_iff.mp hnext).2]
  have hlinked := h.linked
  have hnodup := hlinked.nodup
  have hlisted := hlinked.listed
  dsimp only at hnodup hlisted
  rw [openIds, hdrop] at hnodup hlisted
  have hopen : openIds { c with link := c.link.handleOutcome o } (k + 1) =
      flyingIds c.inflight ++ (c.posted.drop (k + 1)).filterMap Outcome.transmittedId := rfl
  refine ⟨h.send.congr rfl rfl rfl rfl rfl (fun hf => (h.send.down hf).2) rfl,
    h.ledger.congr rfl rfl rfl rfl rfl rfl, hk, hlinked.link.handleOutcome o, ?_, ?_⟩
  · rw [hopen]
    refine hnodup.sublist (List.Sublist.append_left ?_ _)
    exact (List.sublist_cons_self _ _).filterMap _
  · intro id hid
    rw [hopen] at hid
    have hold : id ∈ c.link.inflight := by
      apply hlisted
      rw [List.mem_append] at hid ⊢
      exact hid.imp_right fun hmem => ((List.sublist_cons_self _ _).filterMap _).subset hmem
    show id ∈ (c.link.handleOutcome o).inflight
    rw [LinkRef.handleOutcome]
    split
    · exact hold
    · rename_i sent ho
      -- the bundle the event is about is open only once
      rw [List.filterMap_cons_some ho] at hnodup
      refine (List.mem_erase_of_ne ?_).mpr hold
      rintro rfl
      exact (List.nodup_middle.mp hnodup).notMem hid

private theorem orderly_run {s s' : Session} {es : List SessionEvent} (h : Orderly s)
    (hA : s.RunMeets env Clean es) (hrun : s.run env es = .ok s') : Orderly s' := by
  induction es generalizing s with
  | nil =>
      cases hrun
      exact h
  | cons e es ih =>
      rw [Session.run] at hrun
      obtain ⟨d, hstep, hrest⟩ := Exec.bind_eq_ok.mp hrun
      refine ih ?_ (hA.2 d (Exec.mem_toOption.mpr hstep)) hrest
      cases e with
      | conn e =>
          obtain ⟨c, hc, hd⟩ := Exec.bind_eq_ok.mp hstep
          cases hd
          exact orderly_conn h hA.1 hc
      | daemon =>
          rw [Session.step] at hstep
          cases hnext : s.conn.posted[s.handled]? with
          | none =>
              rw [hnext] at hstep
              cases hstep
              exact h
          | some o =>
              rw [hnext] at hstep
              cases hstep
              exact orderly_daemon h hnext

/-- Every bundle that was started has one outcome when the contact is closed: the event of its
transmission, the event of its cancellation, or its return to the queue. -/
theorem closeContact_oneOutcome {params : StreamLinkParams} {sendbufLen recvbufLen : Nat}
    {link : LinkRef} {eid : Bytes} {c : Connection} {s : Session} {es : List SessionEvent}
    (hlink : link.Sound)
    (hstart : (Connection.new params sendbufLen recvbufLen link).initiateContact env eid = .ok c)
    (hclean : Session.RunMeets env Clean ⟨c, 0⟩ es) (hrun : Session.run env ⟨c, 0⟩ es = .ok s)
    (hclose : CloseClean s.conn) :
    ∃ d, closeInflights s.conn.inflight s.conn = .ok d ∧ d.entries = s.conn.entries ∧
      (∀ e < d.entries, ∃ o, d.outcomes e = [o]) ∧
      ∀ c', s.conn.closeContact = .ok c' → c'.posted = d.posted ∧ c'.entries = d.entries := by
  obtain ⟨hfresh, hlinkeq, -⟩ := initiateContact_spec hstart
  have hzero : Orderly ⟨c, 0⟩ := by
    refine ⟨hfresh.sendInv, ledger_of_idle hfresh.inflight hfresh.entries hfresh.posted, ?_⟩
    have hnil : openIds c 0 = [] := by
      rw [openIds, hfresh.inflight, hfresh.posted]
      rfl
    exact ⟨by simp, by rw [hlinkeq]; exact hlink, by rw [hnil]; exact List.nodup_nil,
      by rw [hnil]; simp⟩
  have hend := orderly_run hzero hclean hrun
  have hopen := hend.linked
  have hclosing : Closing s.conn s.conn.inflight := by
    refine ⟨hend.send.sound, hend.send.acks, hend.send.distinct, hopen.link,
      (List.nodup_append.mp hopen.nodup).1, ?_, hend.ledger.waiting, ?_⟩
    · intro id hid
      exact hopen.listed id (List.mem_append_left _ hid)
    · intro x hx htrue
      obtain ⟨hone, -, -, hle⟩ := hend.ledger.reported x hx htrue
      exact ⟨hone, hle, hclose x hx htrue⟩
  obtain ⟨d, hd, hall, hother, hentries⟩ := closeInflights_spec hclosing
  refine ⟨d, hd, hentries, ?_, ?_⟩
  · intro e he
    by_cases hin : ∃ x ∈ s.conn.inflight, x.entry = e
    · obtain ⟨x, hx, rfl⟩ := hin
      exact hall x hx
    · have hout : ∀ x ∈ s.conn.inflight, x.entry ≠ e := fun x hx heq => hin ⟨x, hx, heq⟩
      rw [hother e hout]
      exact hend.ledger.settled e (hentries ▸ he) hout
  · intro c' hc'
    rw [closeContact, hd, Exec.ok_bind] at hc'
    obtain ⟨f, hincoming, hf⟩ := Exec.bind_eq_ok.mp hc'
    have hsame := closeIncoming_posted hincoming
    cases hf
    exact hsame

/-- One bundle is sent and acknowledged, the daemon handles its event, and a second one is cut off
by the peer. -/
def sampleSession : List SessionEvent :=
  (sampleRun [0x20, 29]).map .conn ++
    [.daemon, .conn (.queueBundle (.sample 2)), .conn .sendPendingData,
      .conn (.breakContact .broken)]

theorem closeContact_oneOutcome_sample : ∃ c s d,
    (Connection.new .plain 100 100 ⟨true, [], []⟩).initiateContact .plain EndpointID.dtnNone =
      .ok c ∧ Session.run .plain ⟨c, 0⟩ sampleSession = .ok s ∧
    closeInflights s.conn.inflight s.conn = .ok d ∧ d.entries = 2 ∧
    ∀ e < d.entries, ∃ o, d.outcomes e = [o] := by
  have hrun : ∃ c ∈ ((Connection.new .plain 100 100 ⟨true, [], []⟩).initiateContact .plain
      EndpointID.dtnNone).toOption, Session.RunMeets .plain Clean ⟨c, 0⟩ sampleSession ∧
      ∃ s ∈ (Session.run .plain ⟨c, 0⟩ sampleSession).toOption,
        CloseClean s.conn ∧ s.conn.entries = 2 := by
    decide +kernel
  obtain ⟨c, hc, hclean, s, hs, hclose, htwo⟩ := hrun
  rw [Exec.mem_toOption] at hc hs
  have hlink : LinkRef.Sound ⟨true, [], []⟩ := ⟨List.nodup_nil, List.nodup_nil, by simp⟩
  obtain ⟨d, hd, hentries, hall, -⟩ := closeContact_oneOutcome hlink hc hclean hs hclose
  exact ⟨c, s, d, hc, hs, hd, hentries.trans htwo, hall⟩

/-- The last byte is acknowledged while the bundle is still the current one, reactive fragmentation
is off and the user closes the link: the bundle is reported as transmitted and is put back on the
queue. -/
theorem closeContact_twoOutcomes : ∃ c s d,
    (Connection.new { StreamLinkParams.plain with reactiveFragEnabled := false } 100 100
      ⟨true, [], []⟩).initiateContact .plain EndpointID.dtnNone = .ok c ∧
    Session.run .plain ⟨c, 0⟩ (((sampleRun [0x20, 29]).take 4 ++ [Event.breakContact .user]).map .conn) =
      .ok s ∧
    s.conn.closeContact = .ok d ∧ 0 < d.entries ∧
    d.outcomes 0 = [.transmitted 0 1 29 29, .requeued 0 1] := by
  have hrun : ∃ c ∈ ((Connection.new { StreamLinkParams.plain with reactiveFragEnabled := false }
      100 100 ⟨true, [], []⟩).initiateContact .plain EndpointID.dtnNone).toOption,
      ∃ s ∈ (Session.run .plain ⟨c, 0⟩
        (((sampleRun [0x20, 29]).take 4 ++ [Event.breakContact .user]).map .conn)).toOption,
      ∃ d ∈ s.conn.closeContact.toOption, 0 < d.entries ∧
        d.outcomes 0 = [.transmitted 0 1 29 29, .requeued 0 1] := by
    decide +kernel
  obtain ⟨c, hc, s, hs, d, hd, hrest⟩ := hrun
  rw [Exec.mem_toOption] at hc hs hd
  exact ⟨c, s, d, hc, hs, hd, hrest⟩

end Session

end StreamConvergenceLayer

end Dtn2
