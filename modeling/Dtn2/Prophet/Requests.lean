import Dtn2.Prophet.EncounterMoves

/-!
# What an encounter requests

A response is made from the offer that was received last, with the dictionary that was sent before
it. But the list of requests is never emptied: a request that was not served stays on it when the
next offer comes, and goes out again with a string id of an earlier dictionary.
-/

namespace Dtn2

namespace Prophet

def Message.bodies (m : Message) : List Body := m.list.map TLV.body

@[simp] theorem Encounter.message_bodies (e : Encounter) (hr : HeaderResult) (tid : UInt32)
    (bodies : List Body) : (e.message hr tid bodies).bodies = bodies := by
  rw [Message.bodies, message, ProphetTLV.withTlvs_list, ProphetTLV.new, List.nil_append,
    List.map_map]
  exact List.map_id bodies

def Event.SendsDictionary : Event → Prop
  | .sent m => ∃ d, .ribd d ∈ m.bodies
  | _ => False

def Event.BringsOffer : Event → Prop
  | .received _ (.offer _) => True
  | _ => False

def Sent (log : List Event) (d : Dictionary) : Prop :=
  ∃ before m after, log = before ++ .sent m :: after ∧ .ribd d ∈ m.bodies ∧
    ∀ ev ∈ after, ¬ ev.SendsDictionary

/-- The offer is the one that was received last. The dictionary was sent before it, and no other since
then. -/
def Offered (log : List Event) (d : Dictionary) (offers : BundleOfferList) : Prop :=
  ∃ before m after, log = before ++ .received m (.offer offers) :: after ∧ Sent before d ∧
    ∀ ev ∈ after, ¬ ev.SendsDictionary ∧ ¬ ev.BringsOffer

def Covered (list : BundleResponseList) (offers : BundleOfferList) : Prop :=
  ∀ r ∈ list.list, ∃ o ∈ offers.list, o.ack = false ∧ o.key = r.key

/-- Every response that was sent asks for what was offered last, in terms of the dictionary that was
sent before that. -/
def AsksOffered (log : List Event) : Prop :=
  ∀ before m after list, log = before ++ .sent m :: after → .response list ∈ m.bodies →
    ∃ d offers, Offered before d offers ∧ Covered list offers

/-! ## Logs -/

theorem Sent.append {log : List Event} {d : Dictionary} {ev : Event} (h : Sent log d)
    (hev : ¬ ev.SendsDictionary) : Sent (log ++ [ev]) d := by
  obtain ⟨before, m, after, rfl, hd, hafter⟩ := h
  refine ⟨before, m, after ++ [ev], by simp, hd, ?_⟩
  simpa [or_imp, forall_and] using ⟨hafter, hev⟩

theorem Offered.append {log : List Event} {d : Dictionary} {offers : BundleOfferList} {ev : Event}
    (h : Offered log d offers) (hdict : ¬ ev.SendsDictionary) (hoffer : ¬ ev.BringsOffer) :
    Offered (log ++ [ev]) d offers := by
  obtain ⟨before, m, after, rfl, hsent, hafter⟩ := h
  refine ⟨before, m, after ++ [ev], by simp, hsent, ?_⟩
  simp only [List.mem_append, List.mem_singleton, or_imp, forall_and, forall_eq] at hafter ⊢
  exact ⟨⟨hafter.1, hdict⟩, hafter.2, hoffer⟩

theorem Offered.of_last {log : List Event} {m : Message} {o offers : BundleOfferList} {d : Dictionary}
    (h : Offered (log ++ [.received m (.offer o)]) d offers) : offers = o := by
  obtain ⟨before, m', after, heq, -, hafter⟩ := h
  rcases List.eq_nil_or_concat after with rfl | ⟨after, last, rfl⟩
  · have hsplit : log ++ [.received m (.offer o)] = before ++ [.received m' (.offer offers)] := heq
    have hlast := List.singleton_inj.mp (List.append_inj' hsplit rfl).2
    cases hlast
    rfl
  · have hsplit : log ++ [.received m (.offer o)] =
        (before ++ .received m' (.offer offers) :: after) ++ [last] := by
      rw [heq, List.concat_eq_append]
      simp
    have hlast := List.singleton_inj.mp (List.append_inj' hsplit rfl).2
    have hin := hafter last (by simp)
    rw [← hlast] at hin
    exact absurd trivial hin.2

theorem AsksOffered.append {log : List Event} {ev : Event} (h : AsksOffered log)
    (hev : ∀ m list, ev = .sent m → .response list ∈ m.bodies →
      ∃ d offers, Offered log d offers ∧ Covered list offers) : AsksOffered (log ++ [ev]) := by
  intro before m after list heq hlist
  rcases List.eq_nil_or_concat after with rfl | ⟨after, last, rfl⟩
  · have hsplit : log ++ [ev] = before ++ [.sent m] := heq
    obtain ⟨hlog, hlast⟩ := List.append_inj' hsplit rfl
    rw [← hlog]
    exact hev m list (List.singleton_inj.mp hlast) hlist
  · have hsplit : log ++ [ev] = (before ++ .sent m :: after) ++ [last] := by
      rw [heq, List.concat_eq_append]
      simp
    obtain ⟨hlog, -⟩ := List.append_inj' hsplit rfl
    exact h before m after list hlog hlist

/-! ## The invariant -/

namespace Encounter

structure Requesting (e : Encounter) : Prop where
  phased : Phased e
  asks : AsksOffered e.log
  sent : e.state = .sendDr ∨ e.state = .request → Sent e.log e.localRibd
  offered : e.state = .request → Offered e.log e.localRibd e.remoteOffers
  covered : e.state = .request → Covered e.localResponse e.remoteOffers

theorem Requesting.append {e : Encounter} (h : Requesting e) {ev : Event} (synsent : Bool)
    (hdict : ¬ ev.SendsDictionary) (hoffer : e.state = .request → ¬ ev.BringsOffer)
    (hresponse : ∀ m list, ev = .sent m → .response list ∈ m.bodies → False) :
    Requesting { e with synsent := synsent, log := e.log ++ [ev] } where
  phased := h.phased
  asks := h.asks.append fun m list hm hlist => (hresponse m list hm hlist).elim
  sent hs := (h.sent hs).append hdict
  offered hs := (h.offered hs).append hdict (hoffer hs)
  covered := h.covered

theorem Requesting.hello {e : Encounter} (h : Requesting e) (synsent : Bool) (hr : HeaderResult)
    (tid : UInt32) (hf : HelloHf) (timer : UInt8) :
    Requesting { e with
      synsent := synsent
      log := e.log ++ [.sent (e.message hr tid [.hello hf timer e.peers.localEid])] } := by
  refine h.append synsent ?_ (fun _ => id) ?_
  · simp [Event.SendsDictionary]
  · rintro m list heq hlist
    cases heq
    simp at hlist

theorem Requesting.move {R : Message → Body → Prop} {e e' : Encounter} (hmove : Move R Covered e e')
    (h : Requesting e) : Requesting e' := by
  have hphased := h.phased.move hmove
  cases hmove with
  | quiet => exact ⟨hphased, h.asks, h.sent, h.offered, h.covered⟩
  | receive m body hr hs =>
      refine h.append e.synsent id ?_ (by simp)
      intro hrequest hoffer
      cases body with
      | offer list => exact (hs list rfl).2 hrequest
      | _ => exact hoffer
  | bundle b => exact h.append e.synsent id (fun _ => id) (by simp)
  | syn hr tid timer hs => exact h.hello true hr tid .syn timer
  | synack hr tid timer hs => exact h.hello true hr tid .synack timer
  | ack hr tid timer hs => exact h.hello e.synsent hr tid .ack timer
  | rstack hr tid timer hs => exact h.hello e.synsent hr tid .rstack timer
  | hearSyn m timer sender hm hs => exact ⟨hphased, h.asks, by simp, by simp, by simp⟩
  | hearSynack m timer sender hm hs hc => exact ⟨hphased, h.asks, by simp, by simp, by simp⟩
  | hearAck m timer sender hm hs hstate ha hc => exact ⟨hphased, h.asks, by simp, by simp, by simp⟩
  | phase s hs hphase =>
      rcases hphase with rfl | rfl | rfl | rfl <;>
        exact ⟨hphased, h.asks, by simp, by simp, by simp⟩
  | dictionary hr tid d nodes relay custody internet hs =>
      refine ⟨hphased, ?_, ?_, by simp, by simp⟩
      · refine h.asks.append ?_
        rintro m list heq hlist
        cases heq
        simp at hlist
      · exact fun _ => ⟨e.log, _, [], rfl, by simp, by simp⟩
  | offer hr tid list hs =>
      refine h.append e.synsent ?_ (fun _ => id) ?_
      · simp [Event.SendsDictionary]
      · rintro m list' heq hlist
        cases heq
        simp at hlist
  | takeOffer m list hr hs ha hest =>
      have hsent := h.sent hs
      refine ⟨hphased, h.asks.append (by simp), fun _ => hsent.append id, ?_, fun _ => ha⟩
      exact fun _ => ⟨e.log, m, [], rfl, hsent, by simp⟩
  | response hr tid list hs hlist =>
      have hcovered : Covered list e.remoteOffers := by
        intro r hr
        rcases hlist r hr with hold | hnew
        · obtain ⟨r', hr', hkey⟩ := List.mem_map.mp hold
          obtain ⟨o, ho, hack, hoffer⟩ := h.covered hs r' hr'
          exact ⟨o, ho, hack, hoffer.trans hkey⟩
        · exact hnew
      have hdict : ¬ Event.SendsDictionary (.sent (e.message hr tid [.response list])) := by
        simp [Event.SendsDictionary]
      refine ⟨hphased, ?_, fun h' => (h.sent h').append hdict,
        fun h' => (h.offered h').append hdict id, fun _ => hcovered⟩
      refine h.asks.append ?_
      rintro m list' heq hlist'
      cases heq
      obtain rfl : list' = list := by simpa using hlist'
      exact ⟨e.localRibd, e.remoteOffers, h.offered hs, hcovered⟩
  | arrival list hlist =>
      exact ⟨hphased, h.asks, h.sent, h.offered, fun hs r hr => h.covered hs r (hlist.subset hr)⟩

theorem Requesting.fresh (env : Env) (peers : Peers) (inst : UInt16) :
    Requesting (fresh env peers inst) := by
  refine ⟨by simp [Phased, Encounter.fresh], ?_, ?_, ?_, ?_⟩ <;>
    simp [Encounter.fresh, AsksOffered]

theorem Requesting.synsent (env : Env) (peers : Peers) (inst : UInt16) :
    Requesting ((Encounter.fresh env peers inst).setState .synsent) := by
  refine ⟨by simp [Phased, Encounter.fresh, setState], ?_, ?_, ?_, ?_⟩ <;>
    simp [Encounter.fresh, AsksOffered, setState]

/-- In every run in which the offers that are taken cover the requests that are still open, each
response asks for bundles of the last offer, and while requests are open the dictionary is the one
that was sent before it. -/
theorem reachable_asksOffered {e : Encounter} (h : Reachable (fun _ _ => True) Covered e) :
    AsksOffered e.log ∧
      (e.gone = false → e.state = .request → Offered e.log e.localRibd e.remoteOffers) := by
  obtain ⟨env, peers, inst, hrun⟩ := h
  have hfailed : ∀ e e', Failed e e' → Requesting e → AsksOffered e'.log := by
    intro e e' hfailed he
    rw [hfailed.log]
    exact he.asks
  have hmove : ∀ e e', Move (fun _ _ => True) Covered e e' → Requesting e → Requesting e' :=
    fun _ _ => Requesting.move
  have hstart := new_keep hmove (fun e he => he.asks)
    (Requesting.fresh env peers inst) fun _ => Requesting.synsent env peers inst
  have hend := Run.keep hmove hfailed (fun e he => he.phased)
    (fun e he => he.asks) (fun e l g he => he) hrun hstart
  exact ⟨hend.2, fun hgone hs => (hend.1 hgone).offered hs⟩

/-! ## A run with two offers -/

theorem admitsAll_true (m : Message) (env : Nat → Env) (bodies : List Body) (e : Encounter) :
    AdmitsAll (fun _ _ => True) m env bodies e := by
  induction bodies generalizing env e with
  | nil => trivial
  | cons body rest ih => exact ⟨fun _ _ _ _ => trivial, fun _ => ih _ _⟩

def sampleMessage (body : Body) : Message :=
  ProphetTLV.withTlvs (ProphetTLV.new [98] [97] .noSuccessAck 7 1 5) [body]

def sampleOffer (cts : UInt32) : BundleOfferList := BundleEntryList.empty.addOffer cts 1 0 false false

def sampleRun : List Body → Encounter
  | [] => new .plain ⟨[97], [98], [97], [98]⟩ 1
  | body :: earlier => ((sampleRun earlier).receiveTlv (fun _ => .plain) (sampleMessage body)).1

theorem sampleRun_reachable (A : BundleResponseList → BundleOfferList → Prop) (bodies : List Body)
    (ha : ∀ body earlier, body :: earlier <:+ bodies →
      AdmitsAll A (sampleMessage body) (fun _ => .plain) [body]
        { sampleRun earlier with dataRcvd := 0, tid := 5 }) :
    Reachable (fun _ _ => True) A (sampleRun bodies) := by
  refine ⟨.plain, ⟨[97], [98], [97], [98]⟩, 1, ?_⟩
  induction bodies with
  | nil => exact .refl
  | cons body earlier ih =>
      have hrun := ih fun b rest h => ha b rest (h.trans (List.suffix_cons body earlier))
      exact hrun.tail (.receive _ _ _ (fun _ _ => trivial) (ha body earlier List.suffix_rfl))

/-- With one offer, all requests are for what it has. -/
theorem reachable_asksOffered_sample :
    Reachable (fun _ _ => True) Covered (sampleRun [.offer (sampleOffer 100), .hello .synack 20 [98]]) ∧
      AsksOffered (sampleRun [.offer (sampleOffer 100), .hello .synack 20 [98]]).log := by
  have hreach : Reachable (fun _ _ => True) Covered (sampleRun [.offer (sampleOffer 100), .hello .synack 20 [98]]) := by
    refine sampleRun_reachable _ _ ?_
    intro body earlier h
    refine ⟨?_, fun _ => trivial⟩
    rintro list rfl - -
    have hempty : (sampleRun earlier).localResponse.list = [] := by
      rcases List.suffix_cons_iff.mp h with heq | h
      · cases heq
        decide +kernel
      · rcases List.suffix_cons_iff.mp h with heq | h
        · cases heq
        · cases List.suffix_nil.mp h
    intro r hr
    rw [hempty] at hr
    cases hr
  exact ⟨hreach, (reachable_asksOffered hreach).1⟩

/-- After a second offer, the request for the bundle of the first one goes out again. -/
theorem not_asksOffered : ∃ e, Reachable (fun _ _ => True) (fun _ _ => True) e ∧ ¬ AsksOffered e.log := by
  refine ⟨sampleRun [.offer (sampleOffer 200), .offer (sampleOffer 100), .hello .synack 20 [98]],
    sampleRun_reachable _ _ fun _ _ _ => admitsAll_true _ _ _ _, ?_⟩
  intro h
  obtain ⟨d, offers, hoffered, hcovered⟩ := h
    ((sampleRun [.offer (sampleOffer 100), .hello .synack 20 [98]]).log ++
      [.received (sampleMessage (.offer (sampleOffer 200))) (.offer (sampleOffer 200))])
    ((sampleRun [.hello .synack 20 [98]]).message .noSuccessAck 4 [.response ⟨[⟨100, 1, 0, false, true, false⟩,
      ⟨200, 1, 0, false, true, false⟩], by decide, by decide⟩]) []
    ⟨[⟨100, 1, 0, false, true, false⟩, ⟨200, 1, 0, false, true, false⟩], by decide, by decide⟩
    (by decide +kernel) (by simp)
  rw [hoffered.of_last] at hcovered
  exact absurd (hcovered ⟨100, 1, 0, false, true, false⟩ List.mem_cons_self) (by decide +kernel)

end Encounter

end Prophet

end Dtn2
