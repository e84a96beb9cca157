import Dtn2.ConvLayers.StreamSteps

/-!
# What becomes of the bundles in flight

Four places decide what becomes of a bundle that was started: the acknowledgement of its last
byte, the end of its transmission, the handler of cancel requests and the clean-up of a closed
contact. The layer takes the acknowledgements of the peer as they come, so a bundle has one outcome
only if the peer acknowledges the bundle that is being sent up to its end at most, and its end once.
-/

namespace Dtn2

open Framework

namespace Outcome

def entry : Outcome → Nat
  | transmitted entry _ _ _ => entry
  | sendCancelled entry _ => entry
  | requeued entry _ => entry

end Outcome

namespace StreamConvergenceLayer

open BundleProtocol InFlightBundle Connection

/-- What has become of a record, in the order it was decided. -/
def Connection.outcomes (c : Connection) (e : Nat) : List Outcome :=
  c.posted.filter fun o => o.entry = e

/-- The acknowledgement in front of the receive buffer, with the record it is for, if that is the
bundle being sent and the acknowledgement is not refused. -/
def ackOfCurrent (c : Connection) : Option (InFlightBundle × Nat) := do
  let x ← c.inflight.head?
  let (_, acked) ← SDNV.decode32 (c.recvbuf.full.drop 1)
  if c.currentInflight = some x.entry ∧ ackBegin x ≤ acked then some (x, acked) else none

/-- Where a bundle gets one outcome: the bundle that is being sent is not acknowledged beyond its
end, its end is acknowledged once and only with acknowledgements enabled, and it is not cancelled
after that. -/
def Clean : Input → Connection → Prop
  | .ack, c => ∀ p ∈ ackOfCurrent c,
      (c.params.segmentAckEnabled = true → p.2 ≤ p.1.totalLength) ∧
        (p.2 = p.1.totalLength →
          c.params.segmentAckEnabled = true ∧ p.1.transmitEventPosted = false)
  | .cancel id, c => ∀ x ∈ c.inflight, x.xmit.bundleid = id → x.sentData = ∅ →
      x.transmitEventPosted = false

instance (c : Connection) : (i : Input) → Decidable (Clean i c)
  | .ack => inferInstanceAs (Decidable (∀ p ∈ ackOfCurrent c,
      (c.params.segmentAckEnabled = true → p.2 ≤ p.1.totalLength) ∧
        (p.2 = p.1.totalLength →
          c.params.segmentAckEnabled = true ∧ p.1.transmitEventPosted = false)))
  | .cancel id => inferInstanceAs (Decidable (∀ x ∈ c.inflight, x.xmit.bundleid = id →
      x.sentData = ∅ → x.transmitEventPosted = false))

/-! ## The ledger -/

/-- Every record that has left the list has one outcome. A record on the list has none, or one if
all of it is acknowledged and it is still the current one. -/
structure Ledger (c : Connection) : Prop where
  unused : ∀ e, c.entries ≤ e → c.outcomes e = []
  settled : ∀ e < c.entries, (∀ x ∈ c.inflight, x.entry ≠ e) → ∃ o, c.outcomes e = [o]
  waiting : ∀ x ∈ c.inflight, x.transmitEventPosted = false → c.outcomes x.entry = []
  reported : ∀ x ∈ c.inflight, x.transmitEventPosted = true →
    (∃ o, c.outcomes x.entry = [o]) ∧ c.currentInflight = some x.entry ∧
      c.params.segmentAckEnabled = true ∧ x.totalLength ≤ x.acked
  acknowledged : c.params.segmentAckEnabled = true → ∀ x ∈ c.inflight,
    c.currentInflight = some x.entry → x.totalLength ≤ x.acked → x.transmitEventPosted = true
  down : c.contactUp = false → c.entries = 0

section Keep

variable {env : Env} {A : Input → Connection → Prop} {c c' : Connection}

theorem outcomes_congr (h : c'.posted = c.posted) (e : Nat) : c'.outcomes e = c.outcomes e := by
  rw [outcomes, outcomes, h]

theorem outcomes_append {o : Outcome} (h : c'.posted = c.posted ++ [o]) (e : Nat) :
    c'.outcomes e = if o.entry = e then c.outcomes e ++ [o] else c.outcomes e := by
  rw [outcomes, outcomes, h, List.filter_append]
  split
  · rename_i he
    simp [he]
  · rename_i he
    simp [he]

theorem Ledger.waiting_of_disabled (hl : Ledger c) (hacks : c.params.segmentAckEnabled = false)
    {x : InFlightBundle} (hx : x ∈ c.inflight) : x.transmitEventPosted = false := by
  cases hflag : x.transmitEventPosted with
  | false => rfl
  | true =>
      have htrue := (hl.reported x hx hflag).2.2.1
      rw [hacks] at htrue
      cases htrue

theorem Ledger.waiting_of_not_current (hl : Ledger c) {x : InFlightBundle} (hx : x ∈ c.inflight)
    (hcur : c.currentInflight ≠ some x.entry) : x.transmitEventPosted = false := by
  cases hflag : x.transmitEventPosted with
  | false => rfl
  | true => exact absurd (hl.reported x hx hflag).2.1 hcur

private theorem Ledger.change (hl : Ledger c) (hposted : c'.posted = c.posted)
    (hentries : c'.entries = c.entries) (hparams : c'.params = c.params)
    (hup : c'.contactUp = c.contactUp)
    (hold : ∀ x ∈ c.inflight, ∃ y ∈ c'.inflight, y.entry = x.entry)
    (hnew : ∀ y ∈ c'.inflight, ∃ x ∈ c.inflight, y.entry = x.entry ∧
      y.transmitEventPosted = x.transmitEventPosted ∧
      (x.transmitEventPosted = true → c.currentInflight = some x.entry → x.totalLength ≤ x.acked →
        c'.currentInflight = some y.entry ∧ y.totalLength ≤ y.acked) ∧
      (c.params.segmentAckEnabled = true → c'.currentInflight = some y.entry →
        y.totalLength ≤ y.acked → x.transmitEventPosted = true)) : Ledger c' where
  unused := by
    intro e he
    rw [hentries] at he
    rw [outcomes_congr hposted]
    exact hl.unused e he
  settled := by
    intro e he hout
    rw [hentries] at he
    rw [outcomes_congr hposted]
    apply hl.settled e he
    intro x hx
    obtain ⟨y, hy, hxy⟩ := hold x hx
    rw [← hxy]
    exact hout y hy
  waiting := by
    intro y hy hfalse
    obtain ⟨x, hx, hentry, hflag, -⟩ := hnew y hy
    rw [outcomes_congr hposted, hentry]
    exact hl.waiting x hx (hflag ▸ hfalse)
  reported := by
    intro y hy htrue
    obtain ⟨x, hx, hentry, hflag, hkeep, -⟩ := hnew y hy
    obtain ⟨hone, hcur, hacks, hle⟩ := hl.reported x hx (hflag ▸ htrue)
    obtain ⟨hcur', hle'⟩ := hkeep (hflag ▸ htrue) hcur hle
    rw [outcomes_congr hposted, hparams, hentry]
    exact ⟨hone, hentry ▸ hcur', hacks, hle'⟩
  acknowledged := by
    intro hacks y hy hcur hle
    obtain ⟨x, hx, -, hflag, -, hdone⟩ := hnew y hy
    rw [hparams] at hacks
    rw [hflag]
    exact hdone hacks hcur hle
  down := by
    rw [hentries, hup]
    exact hl.down

theorem Ledger.congr (hl : Ledger c) (hposted : c'.posted = c.posted)
    (hentries : c'.entries = c.entries) (hparams : c'.params = c.params)
    (hup : c'.contactUp = c.contactUp) (hinflight : c'.inflight = c.inflight)
    (hcurrent : c'.currentInflight = c.currentInflight) : Ledger c' := by
  apply hl.change hposted hentries hparams hup
  · intro x hx
    exact ⟨x, hinflight ▸ hx, rfl⟩
  · intro y hy
    rw [hinflight] at hy
    rw [hcurrent]
    exact ⟨y, hy, rfl, rfl, fun _ hcur hle => ⟨hcur, hle⟩,
      fun hacks hcur hle => hl.acknowledged hacks y hy hcur hle⟩

private theorem Ledger.settle (hl : Ledger c) {x : InFlightBundle} {o : Outcome} (hx : x ∈ c.inflight)
    (hwait : x.transmitEventPosted = false) (ho : o.entry = x.entry)
    (hposted : c'.posted = c.posted ++ [o]) (hentries : c'.entries = c.entries)
    (hparams : c'.params = c.params) (hup : c'.contactUp = c.contactUp)
    (hrest : ∀ y, y ∈ c'.inflight ↔ y ∈ c.inflight ∧ y.entry ≠ x.entry)
    (hcurrent : ∀ y ∈ c'.inflight, c'.currentInflight = some y.entry ↔
      c.currentInflight = some y.entry) (hfresh : x.entry < c.entries) : Ledger c' := by
  have hother : ∀ e, e ≠ x.entry → c'.outcomes e = c.outcomes e := by
    intro e he
    rw [outcomes_append hposted, if_neg (by rw [ho]; exact fun h => he h.symm)]
  refine ⟨?_, ?_, ?_, ?_, ?_, ?_⟩
  · intro e he
    rw [hentries] at he
    rw [hother e (by omega)]
    exact hl.unused e he
  · intro e he hout
    rw [hentries] at he
    by_cases hex : e = x.entry
    · subst hex
      refine ⟨o, ?_⟩
      rw [outcomes_append hposted, if_pos ho, hl.waiting x hx hwait, List.nil_append]
    · rw [hother e hex]
      apply hl.settled e he
      intro y hy hye
      exact hout y ((hrest y).mpr ⟨hy, by rw [hye]; exact hex⟩) hye
  · intro y hy hfalse
    obtain ⟨hmem, hne⟩ := (hrest y).mp hy
    rw [hother y.entry hne]
    exact hl.waiting y hmem hfalse
  · intro y hy htrue
    obtain ⟨hmem, hne⟩ := (hrest y).mp hy
    obtain ⟨hone, hcur, hacks, hle⟩ := hl.reported y hmem htrue
    rw [hother y.entry hne, hparams]
    exact ⟨hone, (hcurrent y hy).mpr hcur, hacks, hle⟩
  · intro hacks y hy hcur hle
    rw [hparams] at hacks
    exact hl.acknowledged hacks y ((hrest y).mp hy).1 ((hcurrent y hy).mp hcur) hle
  · rw [hentries, hup]
    exact hl.down

private theorem entry_ne_of_mem_rest (h : SendInv c) {x y : InFlightBundle}
    {rest : List InFlightBundle} (hin : c.inflight = x :: rest) (hy : y ∈ rest) :
    y.entry ≠ x.entry := by
  have hdistinct := h.distinct
  rw [hin, List.map_cons, List.nodup_cons] at hdistinct
  intro heq
  exact hdistinct.1 (heq ▸ List.mem_map_of_mem hy)

theorem mem_ackOfCurrent {b : UInt8} {n acked : Nat} {x : InFlightBundle}
    {rest : List InFlightBundle} (hheader : Header c ackSegment b n acked)
    (hin : c.inflight = x :: rest) (hlow : ackBegin x ≤ acked)
    (hcur : c.currentInflight = some x.entry) : (x, acked) ∈ ackOfCurrent c := by
  rw [ackOfCurrent, hin, hheader.length]
  exact if_pos ⟨hcur, hlow⟩

private theorem Ledger.report (hinv : SendInv c) (hl : Ledger c) {x y : InFlightBundle}
    {rest : List InFlightBundle} {o : Outcome} (hin : c.inflight = x :: rest)
    (hwait : x.transmitEventPosted = false) (ho : o.entry = x.entry)
    (hcur : c.currentInflight = some x.entry) (hacks : c.params.segmentAckEnabled = true)
    (hentry : y.entry = x.entry) (hflag : y.transmitEventPosted = true)
    (hle : y.totalLength ≤ y.acked) (hinflight : c'.inflight = y :: rest)
    (hposted : c'.posted = c.posted ++ [o]) (hentries : c'.entries = c.entries)
    (hparams : c'.params = c.params) (hup : c'.contactUp = c.contactUp)
    (hcurrent : c'.currentInflight = c.currentInflight) : Ledger c' := by
  have hx : x ∈ c.inflight := by
    rw [hin]
    simp
  have hother : ∀ e, e ≠ x.entry → c'.outcomes e = c.outcomes e := by
    intro e he
    rw [outcomes_append hposted, if_neg (by rw [ho]; exact fun h => he h.symm)]
  have hrest : ∀ z ∈ rest, z ∈ c.inflight ∧ z.entry ≠ x.entry := by
    intro z hz
    exact ⟨by rw [hin]; exact List.mem_cons_of_mem _ hz, entry_ne_of_mem_rest hinv hin hz⟩
  have hfresh := hinv.fresh x hx
  refine ⟨?_, ?_, ?_, ?_, ?_, ?_⟩
  · intro e he
    rw [hentries] at he
    rw [hother e (by omega)]
    exact hl.unused e he
  · intro e he hout
    rw [hentries] at he
    rw [hinflight] at hout
    have hne : e ≠ x.entry := by
      intro hex
      exact hout y (by simp) (hentry.trans hex.symm)
    rw [hother e hne]
    apply hl.settled e he
    intro z hz
    rw [hin] at hz
    rcases List.mem_cons.mp hz with rfl | hz
    · exact fun h => hne h.symm
    · exact hout z (List.mem_cons_of_mem _ hz)
  · intro z hz hfalse
    rw [hinflight] at hz
    rcases List.mem_cons.mp hz with rfl | hz
    · rw [hflag] at hfalse
      cases hfalse
    · rw [hother z.entry (hrest z hz).2]
      exact hl.waiting z (hrest z hz).1 hfalse
  · intro z hz htrue
    rw [hinflight] at hz
    rcases List.mem_cons.mp hz with rfl | hz
    · refine ⟨⟨o, ?_⟩, by rw [hcurrent, hentry]; exact hcur, by rw [hparams]; exact hacks, hle⟩
      rw [hentry, outcomes_append hposted, if_pos ho, hl.waiting x hx hwait, List.nil_append]
    · obtain ⟨hone, hcur', hacks', hle'⟩ := hl.reported z (hrest z hz).1 htrue
      rw [hother z.entry (hrest z hz).2, hcurrent, hparams]
      exact ⟨hone, hcur', hacks', hle'⟩
  · intro hacks' z hz hcur' hle'
    rw [hinflight] at hz
    rw [hcurrent] at hcur'
    rw [hparams] at hacks'
    rcases List.mem_cons.mp hz with rfl | hz
    · exact hflag
    · exact hl.acknowledged hacks' z (hrest z hz).1 hcur' hle'
  · rw [hentries, hup]
    exact hl.down

theorem ledger_move (hinv : SendInv c) (hl : Ledger c) (hA : ∀ i, A i c → Clean i c)
    (hm : Move env A c c') : Ledger c' := by
  cases hm with
  | bundleTaken fin x queue hshape hup hqueue htotal =>
      have hnone := hshape.current
      have hfresh := hinv.fresh
      refine ⟨?_, ?_, ?_, ?_, ?_, ?_⟩
      · intro e he
        exact hl.unused e (Nat.le_of_succ_le he)
      · intro e he hout
        apply hl.settled e
        · have := hout (InFlightBundle.new c.entries x) (by simp)
          have hlt : e < c.entries + 1 := he
          have hne : c.entries ≠ e := this
          omega
        · intro y hy
          exact hout y (List.mem_append_left _ hy)
      · intro y hy hfalse
        rcases List.mem_append.mp hy with hy | hy
        · exact hl.waiting y hy hfalse
        · rw [List.mem_singleton.mp hy]
          exact hl.unused c.entries (le_refl _)
      · intro y hy htrue
        rcases List.mem_append.mp hy with hy | hy
        · have hcur := (hl.reported y hy htrue).2.1
          rw [hnone] at hcur
          cases hcur
        · rw [List.mem_singleton.mp hy] at htrue
          cases htrue
      · intro _ y hy hcur hle
        rcases List.mem_append.mp hy with hy | hy
        · have hlt := hfresh y hy
          have heq : c.entries = y.entry := Option.some.inj hcur
          omega
        · rw [List.mem_singleton.mp hy] at hle
          exact absurd (Nat.le_zero.mp hle) htotal
      · intro hdown
        rw [show c.contactUp = false from hdown] at hup
        cases hup
  | chunkPut fin x k hfit hshape hpos hle =>
      have hin := hshape.inflight_some
      refine hl.change rfl rfl rfl rfl ?_ ?_
      · intro y hy
        rw [hin] at hy
        rcases List.mem_append.mp hy with hy | hy
        · exact ⟨y, List.mem_append_left _ hy, rfl⟩
        · exact ⟨x.advance k, by simp, by rw [List.mem_singleton.mp hy]; rfl⟩
      · intro y hy
        rcases List.mem_append.mp hy with hy | hy
        · have hmem : y ∈ c.inflight := by
            rw [hin]
            exact List.mem_append_left _ hy
          exact ⟨y, hmem, rfl, rfl, fun _ hcur hle => ⟨hcur, hle⟩,
            fun hacks hcur hle => hl.acknowledged hacks y hmem hcur hle⟩
        · have hmem : x ∈ c.inflight := by
            rw [hin]
            simp
          rw [List.mem_singleton.mp hy]
          exact ⟨x, hmem, rfl, rfl, fun _ hcur hle => ⟨hcur, hle⟩,
            fun hacks hcur hle => hl.acknowledged hacks x hmem hcur hle⟩
  | finishWaiting fin x hshape htodo hsent hacks hwait =>
      refine hl.change rfl rfl rfl rfl ?_ ?_
      · intro y hy
        exact ⟨y, hy, rfl⟩
      · intro y hy
        refine ⟨y, hy, rfl, rfl, ?_, fun _ hcur _ => by cases hcur⟩
        intro htrue hcur hle
        have hyx : y = x := by
          rw [hshape.inflight_some] at hy
          rcases List.mem_append.mp hy with hy | hy
          · rw [hshape.current_some] at hcur
            exact absurd (Option.some.inj hcur).symm (entry_ne_of_mem_fin hinv hshape y hy)
          · exact List.mem_singleton.mp hy
        rw [hyx] at hle
        omega
  | finishAcked x hshape htodo hsent hacks hle =>
      have hin := hshape.inflight_some
      have hx : x ∈ c.inflight := by
        rw [hin]
        simp
      have hposted := hl.acknowledged hacks x hx hshape.current_some hle
      refine ⟨hl.unused, ?_, by simp, by simp, by simp, hl.down⟩
      intro e he hout
      by_cases hex : e = x.entry
      · rw [hex]
        exact (hl.reported x hx hposted).1
      · apply hl.settled e he
        intro y hy
        rw [hin, List.nil_append, List.mem_singleton] at hy
        rw [hy]
        exact fun h => hex h.symm
  | finishPosted x hshape htodo hsent hacks =>
      have hin := hshape.inflight_some
      have hx : x ∈ c.inflight := by
        rw [hin]
        simp
      have hwait := hl.waiting_of_disabled hacks hx
      refine hl.settle hx hwait rfl rfl rfl rfl rfl ?_ ?_ (hinv.fresh x hx)
      · intro y
        rw [hin, List.nil_append, List.mem_singleton]
        refine ⟨by simp, ?_⟩
        rintro ⟨rfl, hne⟩
        exact absurd rfl hne
      · simp
  | cancelled fin x hshape htodo hzero hcancel =>
      have hin := hshape.inflight_some
      have hx : x ∈ c.inflight := by
        rw [hin]
        simp
      have hwait := hA _ hcancel x hx rfl ((hinv.sound x hx).sent_eq_zero.mpr hzero)
      refine hl.settle hx hwait rfl rfl rfl rfl rfl ?_ ?_ (hinv.fresh x hx)
      · intro y
        rw [hin, List.mem_append, List.mem_singleton]
        constructor
        · intro hy
          exact ⟨Or.inl hy, entry_ne_of_mem_fin hinv hshape y hy⟩
        · rintro ⟨hy | rfl, hne⟩
          · exact hy
          · exact absurd rfl hne
      · intro y hy
        rw [hshape.current_some]
        refine ⟨by simp, ?_⟩
        intro heq
        exact absurd (Option.some.inj heq).symm (entry_ne_of_mem_fin hinv hshape y hy)
  | ackPart b n acked x rest hup hheader hin hlow hne htodo hack =>
      have hx : x ∈ c.inflight := by
        rw [hin]
        simp
      have hsound := hinv.sound x hx
      have hmax := hsound.acked_acknowledge acked
      rw [hsound.ackBegin_eq (hinv.acks x hx)] at hlow
      have hrest : ∀ y ∈ rest, y ∈ c.inflight := by
        intro y hy
        rw [hin]
        exact List.mem_cons_of_mem _ hy
      refine hl.change rfl rfl rfl rfl ?_ ?_
      · intro y hy
        rw [hin] at hy
        rcases List.mem_cons.mp hy with rfl | hy
        · exact ⟨y.acknowledge acked, by simp, rfl⟩
        · exact ⟨y, List.mem_cons_of_mem _ hy, rfl⟩
      · intro y hy
        rcases List.mem_cons.mp hy with rfl | hy
        · refine ⟨x, hx, rfl, rfl, ?_, ?_⟩
          · intro _ hcur hle
            refine ⟨hcur, ?_⟩
            rw [hmax, acknowledge_totalLength]
            omega
          · intro hacks hcur hle
            have hclean := (hA _ hack (x, acked) (mem_ackOfCurrent hheader hin
              (by rw [hsound.ackBegin_eq (hinv.acks x hx)]; exact hlow) hcur)).1 hacks
            dsimp only at hclean
            rw [hmax, acknowledge_totalLength] at hle
            omega
        · exact ⟨y, hrest y hy, rfl, rfl, fun _ hcur hle => ⟨hcur, hle⟩,
            fun hacks hcur hle => hl.acknowledged hacks y (hrest y hy) hcur hle⟩
  | ackFinal b n x rest hup hheader hin hlow hcur htodo hack =>
      have hx : x ∈ c.inflight := by
        rw [hin]
        simp
      obtain ⟨hacks, hwait⟩ := (hA _ hack (x, x.totalLength)
        (mem_ackOfCurrent hheader hin hlow hcur)).2 rfl
      have hle : x.totalLength ≤ (x.acknowledge x.totalLength).acked := by
        rw [(hinv.sound x hx).acked_acknowledge]
        omega
      exact Ledger.report hinv hl (y := { x.acknowledge x.totalLength with
        transmitEventPosted := true }) hin hwait rfl hcur hacks rfl rfl hle rfl rfl rfl rfl rfl rfl
  | ackFinalDone b n x rest hup hheader hin hlow hcur htodo hack =>
      have hx : x ∈ c.inflight := by
        rw [hin]
        simp
      have hwait := hl.waiting_of_not_current hx hcur
      refine hl.settle hx hwait rfl rfl rfl rfl rfl ?_ (fun _ _ => Iff.rfl) (hinv.fresh x hx)
      intro y
      rw [hin, List.mem_cons]
      constructor
      · intro hy
        exact ⟨Or.inr hy, entry_ne_of_mem_rest hinv hin hy⟩
      · rintro ⟨rfl | hy, hne⟩
        · exact absurd rfl hne
        · exact hy
  | negotiated params recvbuf up hdown hseg =>
      have hzero := hl.down hdown
      have hnil := (hinv.down hdown).1
      refine ⟨hl.unused, ?_, ?_, ?_, ?_, fun _ => hzero⟩
      · intro e he
        have hlt : e < c.entries := he
        omega
      · intro x hx
        rw [show c.inflight = [] from hnil] at hx
        cases hx
      · intro x hx
        rw [show c.inflight = [] from hnil] at hx
        cases hx
      · intro _ x hx
        rw [show c.inflight = [] from hnil] at hx
        cases hx
  | _ => exact hl.congr rfl rfl rfl rfl rfl rfl

theorem ledger_of_idle (hin : c.inflight = []) (hentries : c.entries = 0) (hposted : c.posted = []) :
    Ledger c where
  unused := by simp [outcomes, hposted]
  settled := by simp [hentries]
  waiting := by simp [hin]
  reported := by simp [hin]
  acknowledged := by simp [hin]
  down := fun _ => hentries

theorem down_move (hinv : SendInv c) (hdown : c.contactUp = false) (hm : Move env A c c') :
    c'.inflight = [] ∧ c'.entries = c.entries ∧ c'.posted = c.posted := by
  have hnil := (hinv.down hdown).1
  have hnone : ∀ {x : InFlightBundle} {P : Prop}, x ∈ c.inflight → P := by
    intro x P hx
    rw [hnil] at hx
    cases hx
  cases hm with
  | bundleTaken fin x queue hshape hcontact hqueue htotal =>
      rw [hdown] at hcontact
      cases hcontact
  | chunkPut fin x k _ hshape _ _ => exact hnone (x := x) (by rw [hshape.inflight_some]; simp)
  | finishPosted x hshape _ _ _ => exact hnone (x := x) (by rw [hshape.inflight_some]; simp)
  | cancelled fin x hshape _ _ _ => exact hnone (x := x) (by rw [hshape.inflight_some]; simp)
  | ackPart b n acked x rest _ _ hin _ _ _ _ => exact hnone (x := x) (by rw [hin]; simp)
  | ackFinal b n x rest _ _ hin _ _ _ _ => exact hnone (x := x) (by rw [hin]; simp)
  | ackFinalDone b n x rest _ _ hin _ _ _ _ => exact hnone (x := x) (by rw [hin]; simp)
  | finishAcked => exact ⟨rfl, rfl, rfl⟩
  | _ => exact ⟨hnil, rfl, rfl⟩

end Keep

/-! ## Acknowledgements of what has been sent -/

/-- The peer acknowledges the bundle that is being sent up to its end at most, and its end once and
after all of it has been sent. -/
def AckFits : Input → Connection → Prop
  | .ack, c => ∀ p ∈ ackOfCurrent c, p.2 ≤ p.1.totalLength ∧
      (p.2 = p.1.totalLength →
        p.1.bytesSent = p.1.totalLength ∧ p.1.transmitEventPosted = false)
  | .cancel _, _ => True

instance (c : Connection) : (i : Input) → Decidable (AckFits i c)
  | .ack => inferInstanceAs (Decidable (∀ p ∈ ackOfCurrent c, p.2 ≤ p.1.totalLength ∧
      (p.2 = p.1.totalLength →
        p.1.bytesSent = p.1.totalLength ∧ p.1.transmitEventPosted = false)))
  | .cancel _ => inferInstanceAs (Decidable True)

/-- Every event posted is about a cancelled bundle, or reports no more acknowledged than sent. -/
structure Honest (c : Connection) : Prop where
  posted : ∀ o ∈ c.posted, (∃ e id, o = .sendCancelled e id) ∨
    ∃ e id sent acked, o = .transmitted e id sent acked ∧ acked ≤ sent
  whole : ∀ x ∈ c.inflight, x.transmitEventPosted = true → x.sent = x.totalLength

section Acks

variable {env : Env} {c c' : Connection}

private theorem posted_append {o : Outcome} {os : List Outcome}
    (h : ∀ o ∈ os, (∃ e id, o = .sendCancelled e id) ∨
      ∃ e id sent acked, o = .transmitted e id sent acked ∧ acked ≤ sent)
    (ho : (∃ e id, o = .sendCancelled e id) ∨
      ∃ e id sent acked, o = .transmitted e id sent acked ∧ acked ≤ sent) :
    ∀ o' ∈ os ++ [o], (∃ e id, o' = .sendCancelled e id) ∨
      ∃ e id sent acked, o' = .transmitted e id sent acked ∧ acked ≤ sent := by
  intro o' ho'
  rcases List.mem_append.mp ho' with ho' | ho'
  · exact h o' ho'
  · rw [List.mem_singleton.mp ho']
    exact ho

theorem honest_move (hinv : SendInv c) (hh : Honest c) (hm : Move env AckFits c c') :
    Honest c' := by
  have hall : ∀ {P : InFlightBundle → Prop} {x y : InFlightBundle} {rest : List InFlightBundle},
      (∀ z ∈ x :: rest, P z) → P y → ∀ z ∈ y :: rest, P z := by
    intro P x y rest hP hy z hz
    rcases List.mem_cons.mp hz with rfl | hz
    · exact hy
    · exact hP z (List.mem_cons_of_mem _ hz)
  cases hm with
  | bundleTaken fin x queue hshape hup hqueue htotal =>
      refine ⟨hh.posted, ?_⟩
      intro y hy htrue
      rcases List.mem_append.mp hy with hy | hy
      · exact hh.whole y hy htrue
      · rw [List.mem_singleton.mp hy] at htrue
        cases htrue
  | chunkPut fin x k hfit hshape hpos hle =>
      refine ⟨hh.posted, ?_⟩
      have hx : x ∈ c.inflight := by
        rw [hshape.inflight_some]
        simp
      intro y hy htrue
      rcases List.mem_append.mp hy with hy | hy
      · exact hh.whole y (by rw [hshape.inflight_some]; exact List.mem_append_left _ hy) htrue
      · rw [List.mem_singleton.mp hy] at htrue ⊢
        have hsent := hh.whole x hx htrue
        have htodo := hshape.todo_some (by omega)
        omega
  | finishAcked x hshape htodo hsent hacks hle => exact ⟨hh.posted, by simp⟩
  | finishPosted x hshape htodo hsent hacks =>
      exact ⟨posted_append hh.posted (Or.inr ⟨_, _, _, _, rfl, le_refl _⟩), by simp⟩
  | cancelled fin x hshape htodo hzero hcancel =>
      refine ⟨posted_append hh.posted (Or.inl ⟨_, _, rfl⟩), ?_⟩
      intro y hy
      exact hh.whole y (by rw [hshape.inflight_some]; exact List.mem_append_left _ hy)
  | ackPart b n acked x rest hup hheader hin hlow hne htodo hack =>
      have hwhole := hh.whole
      rw [hin] at hwhole
      exact ⟨hh.posted, hall hwhole (hwhole x (by simp))⟩
  | ackFinal b n x rest hup hheader hin hlow hcur htodo hack =>
      have hx : x ∈ c.inflight := by
        rw [hin]
        simp
      have hsound := hinv.sound x hx
      have hsent := ((hack (x, x.totalLength) (mem_ackOfCurrent hheader hin hlow hcur)).2 rfl).1
      dsimp only at hsent
      rw [hsound.bytesSent_eq] at hsent
      rw [hsound.ackBegin_eq (hinv.acks x hx)] at hlow
      have hwhole := hh.whole
      rw [hin] at hwhole
      refine ⟨posted_append hh.posted (Or.inr ⟨_, _, _, _, rfl, ?_⟩), hall hwhole fun _ => hsent⟩
      rw [hsound.acked_acknowledge]
      omega
  | ackFinalDone b n x rest hup hheader hin hlow hcur htodo hack =>
      have hx : x ∈ c.inflight := by
        rw [hin]
        simp
      have hsound := hinv.sound x hx
      rw [hsound.ackBegin_eq (hinv.acks x hx)] at hlow
      -- a bundle that is not the current one has been sent
      have hsent : x.sent = x.totalLength := by
        obtain ⟨fin, cur, hshape⟩ := hinv.shape
        rw [hshape.inflight, List.mem_append] at hx
        rcases hx with hfin | hcur'
        · exact hshape.finished x hfin
        · have hxcur : cur = some x := by simpa using hcur'
          rw [hxcur] at hshape
          exact absurd hshape.current_some hcur
      have hwhole := hh.whole
      rw [hin] at hwhole
      refine ⟨posted_append hh.posted (Or.inr ⟨_, _, _, _, rfl, ?_⟩), ?_⟩
      · rw [hsound.acked_acknowledge]
        omega
      · intro y hy
        exact hwhole y (List.mem_cons_of_mem _ hy)
  | _ => exact ⟨hh.posted, hh.whole⟩

theorem params_move {A : Input → Connection → Prop} (hm : Move env A c c') :
    c.contactUp = false ∨ (c'.params = c.params ∧ c'.contactUp = c.contactUp) := by
  cases hm with
  | negotiated params recvbuf up hdown hseg => exact Or.inl hdown
  | _ => exact Or.inr ⟨rfl, rfl⟩

private theorem clean_of_fits (hinv : SendInv c) (hh : Honest c)
    (hacks : c.params.segmentAckEnabled = true) (i : Input) (h : AckFits i c) : Clean i c := by
  cases i with
  | ack =>
      intro p hp
      obtain ⟨hle, hend⟩ := h p hp
      exact ⟨fun _ => hle, fun heq => ⟨hacks, (hend heq).2⟩⟩
  | cancel id =>
      intro x hx _ hempty
      have hsound := hinv.sound x hx
      cases hflag : x.transmitEventPosted with
      | false => rfl
      | true =>
          have hsent := hh.whole x hx hflag
          rw [hsound.sent_eq_zero.mp hempty] at hsent
          exact absurd hsent.symm hsound.pos

/-- What holds in every state of a run with fitting acknowledgements. -/
private structure Accounted (c : Connection) : Prop where
  idle : c.contactUp = false → c.entries = 0 ∧ c.posted = []
  enabled : c.params.segmentAckEnabled = true → Ledger c ∧ Honest c

private theorem accounted_of_idle (hin : c.inflight = []) (hentries : c.entries = 0)
    (hposted : c.posted = []) : Accounted c where
  idle := fun _ => ⟨hentries, hposted⟩
  enabled := fun _ => ⟨ledger_of_idle hin hentries hposted, by simp [hposted], by simp [hin]⟩

private theorem accounted_move (hinv : SendInv c) (h : Accounted c) (hm : Move env AckFits c c') :
    Accounted c' := by
  cases hdown : c.contactUp with
  | false =>
      obtain ⟨hin, hentries, hposted⟩ := down_move hinv hdown hm
      obtain ⟨hzero, hnil⟩ := h.idle hdown
      exact accounted_of_idle hin (hentries.trans hzero) (hposted.trans hnil)
  | true =>
      rcases params_move hm with hfalse | ⟨hparams, hup⟩
      · rw [hdown] at hfalse
        cases hfalse
      refine ⟨?_, ?_⟩
      · intro hfalse
        rw [hup, hdown] at hfalse
        cases hfalse
      · intro hacks
        rw [hparams] at hacks
        obtain ⟨hl, hh⟩ := h.enabled hacks
        exact ⟨ledger_move hinv hl (clean_of_fits hinv hh hacks) hm, honest_move hinv hh hm⟩

private theorem accounted_queue (x : XmitBundle) (h : Accounted c) :
    Accounted { c with link := c.link.queueBundle x } where
  idle := h.idle
  enabled := by
    intro hacks
    obtain ⟨hl, hh⟩ := h.enabled hacks
    exact ⟨hl.congr rfl rfl rfl rfl rfl rfl, hh.posted, hh.whole⟩

/-- With acknowledgements enabled, every bundle that has left the list of bundles in flight was
cancelled, or has one `BundleTransmittedEvent`, which reports no more acknowledged than sent. -/
theorem removed_accounted {params : StreamLinkParams} {sendbufLen recvbufLen : Nat} {link : LinkRef}
    {eid : Bytes} {es : List Event}
    (hstart : (Connection.new params sendbufLen recvbufLen link).initiateContact env eid = .ok c)
    (hfits : RunMeets env AckFits c es) (hrun : c.run env es = .ok c')
    (hacks : c'.params.segmentAckEnabled = true) :
    ∀ e < c'.entries, (∀ x ∈ c'.inflight, x.entry ≠ e) →
      (∃ id, c'.outcomes e = [.sendCancelled e id]) ∨
        ∃ id sent acked, c'.outcomes e = [.transmitted e id sent acked] ∧ acked ≤ sent := by
  have hfresh := (initiateContact_spec hstart).1
  have hkeep := run_keep (fun _ _ hinv hP hm => accounted_move hinv hP hm)
    (fun _ x _ hP => accounted_queue x hP) hfresh.sendInv hfits
    (accounted_of_idle hfresh.inflight hfresh.entries hfresh.posted) hrun
  obtain ⟨hl, hh⟩ := hkeep.2.enabled hacks
  intro e he hout
  obtain ⟨o, ho⟩ := hl.settled e he hout
  have hmem : o ∈ c'.outcomes e := by
    rw [ho]
    simp
  rw [outcomes, List.mem_filter, decide_eq_true_eq] at hmem
  rcases hh.posted o hmem.1 with ⟨e', id, rfl⟩ | ⟨e', id, sent, acked, rfl, hle⟩
  · obtain rfl : e' = e := hmem.2
    exact Or.inl ⟨id, ho⟩
  · obtain rfl : e' = e := hmem.2
    exact Or.inr ⟨id, sent, acked, ho, hle⟩

/-- One bundle is sent and acknowledged, in a run with these messages of the peer between its only
segment and the next call of `send_pending_data`. -/
def sampleRun (acks : Bytes) : List Event :=
  [.receive (contactHeader .plain .plain EndpointID.dtnNone), .queueBundle (.sample 1),
    .sendPendingData, .receive acks, .sendPendingData]

theorem removed_accounted_sample : ∃ c c',
    (Connection.new .plain 100 100 ⟨true, [], []⟩).initiateContact .plain EndpointID.dtnNone =
      .ok c ∧ RunMeets .plain AckFits c (sampleRun [0x20, 29]) ∧
    c.run .plain (sampleRun [0x20, 29]) = .ok c' ∧ c'.entries = 1 ∧ c'.inflight.length = 0 ∧
    ((∃ id, c'.outcomes 0 = [.sendCancelled 0 id]) ∨
      ∃ id sent acked, c'.outcomes 0 = [.transmitted 0 id sent acked] ∧ acked ≤ sent) := by
  have hrun : ∃ c ∈ ((Connection.new .plain 100 100 ⟨true, [], []⟩).initiateContact .plain
      EndpointID.dtnNone).toOption, RunMeets .plain AckFits c (sampleRun [0x20, 29]) ∧
      ∃ c' ∈ (c.run .plain (sampleRun [0x20, 29])).toOption,
        c'.params.segmentAckEnabled = true ∧ c'.entries = 1 ∧ c'.inflight.length = 0 := by
    decide +kernel
  obtain ⟨c, hc, hfits, c', hc', hacks, hentries, hnil⟩ := hrun
  rw [Exec.mem_toOption] at hc hc'
  refine ⟨c, c', hc, hfits, hc', hentries, hnil, ?_⟩
  apply removed_accounted hc hfits hc' hacks 0 (by omega)
  rw [List.length_eq_zero_iff.mp hnil]
  simp

/-- An acknowledgement of one byte more than the bundle has: the bundle leaves the list and nothing
is posted. -/
theorem removed_unaccounted : ∃ c c',
    (Connection.new .plain 100 100 ⟨true, [], []⟩).initiateContact .plain EndpointID.dtnNone =
      .ok c ∧ c.run .plain (sampleRun [0x20, 30]) = .ok c' ∧
    c'.params.segmentAckEnabled = true ∧ 0 < c'.entries ∧ (∀ x ∈ c'.inflight, x.entry ≠ 0) ∧
    c'.outcomes 0 = [] := by
  have hrun : ∃ c ∈ ((Connection.new .plain 100 100 ⟨true, [], []⟩).initiateContact .plain
      EndpointID.dtnNone).toOption, ∃ c' ∈ (c.run .plain (sampleRun [0x20, 30])).toOption,
      c'.params.segmentAckEnabled = true ∧ 0 < c'.entries ∧ (∀ x ∈ c'.inflight, x.entry ≠ 0) ∧
        c'.outcomes 0 = [] := by
    decide +kernel
  obtain ⟨c, hc, c', hc', hrest⟩ := hrun
  rw [Exec.mem_toOption] at hc hc'
  exact ⟨c, c', hc, hc', hrest⟩

end Acks

end StreamConvergenceLayer

end Dtn2
