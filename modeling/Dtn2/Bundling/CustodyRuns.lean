import Dtn2.Bundling.BundleDaemon

/-!
# The custody list in every run

A bundle is on the custody list exactly while its flag is set, provided that every bundle that is
reloaded with the flag gets as far as the list.
-/

namespace Dtn2.BundleDaemon.State

variable {B E L : Type} [DecidableEq B] [DecidableEq E]

omit [DecidableEq B] [DecidableEq E] in
theorem localCustody_of_bundle {s : State B E L} {b : B} {d : Bundle E L} (h : s.bundle b = some d) :
    s.localCustody b = d.localCustody := by
  simp only [localCustody, h]

omit [DecidableEq E] in
theorem setBundle_eq_some {s : State B E L} {b b2 : B} {d d2 : Bundle E L}
    (h : (s.setBundle b d).bundle b2 = some d2) : b2 = b ∧ d2 = d ∨ b2 ≠ b ∧ s.bundle b2 = some d2 := by
  have hbundle : (s.setBundle b d).bundle = Function.update s.bundle b (some d) := rfl
  rw [hbundle] at h
  by_cases hb : b2 = b
  · rw [hb, Function.update_self, Option.some.injEq] at h
    exact .inl ⟨hb, h.symm⟩
  · rw [Function.update_of_ne hb] at h
    exact .inr ⟨hb, h⟩

omit [DecidableEq E] in
theorem setBundle_localCustody (s : State B E L) (b : B) (d : Bundle E L) :
    (s.setBundle b d).localCustody = Function.update s.localCustody b d.localCustody := by
  funext b2
  by_cases hb : b2 = b
  · subst hb
    simp [localCustody, setBundle]
  · simp [localCustody, setBundle, hb]

/-- What the custody list, the pending list and the flags of the bundles say about each other. -/
structure Consistent (s : State B E L) : Prop where
  nodup : s.custody.Nodup
  known : ∀ b ∈ s.pending, s.bundle b ≠ none
  listed : ∀ b, b ∈ s.custody ↔ s.localCustody b = true
  held : ∀ b d, s.bundle b = some d → d.localCustody = true →
    d.custodian = s.localEid ∧ b ∈ s.pending
  timers : ∀ b d, s.bundle b = some d → d.localCustody = false → d.custodyTimers = []

/-! ## Generated bundles -/

structure Grows (s s' : State B E L) : Prop where
  params : s'.params = s.params
  localEid : s'.localEid = s.localEid
  nullEid : s'.nullEid = s.nullEid
  custody : s'.custody = s.custody
  pending : ∀ b ∈ s.pending, b ∈ s'.pending
  known : ∀ b ∈ s'.pending, b ∈ s.pending ∨ s'.bundle b ≠ none
  kept : ∀ b d, s.bundle b = some d → s'.bundle b = some d
  fresh : ∀ b d, s.bundle b = none → s'.bundle b = some d →
    d.localCustody = false ∧ d.custodyTimers = []

namespace Grows

omit [DecidableEq B] [DecidableEq E]

theorem refl (s : State B E L) : Grows s s where
  params := rfl
  localEid := rfl
  nullEid := rfl
  custody := rfl
  pending := fun _ hb => hb
  known := fun _ hb => Or.inl hb
  kept := fun _ _ hd => hd
  fresh := by
    intro b d hnone hd
    rw [hnone] at hd
    cases hd

theorem localCustody {s s' : State B E L} (h : Grows s s') (b : B) :
    s'.localCustody b = s.localCustody b := by
  cases hb : s.bundle b with
  | some d => rw [localCustody_of_bundle hb, localCustody_of_bundle (h.kept b d hb)]
  | none =>
      cases hb' : s'.bundle b with
      | none => simp only [State.localCustody, hb, hb']
      | some d =>
          rw [localCustody_of_bundle hb', (h.fresh b d hb hb').1]
          simp only [State.localCustody, hb]

theorem consistent {s s' : State B E L} (h : Grows s s') (hs : Consistent s) : Consistent s' where
  nodup := h.custody ▸ hs.nodup
  known := by
    intro b hb
    rcases h.known b hb with hb | hb
    · obtain ⟨d, hd⟩ := Option.ne_none_iff_exists'.mp (hs.known b hb)
      rw [h.kept b d hd]
      exact Option.some_ne_none d
    · exact hb
  listed := by
    intro b
    rw [h.custody, h.localCustody]
    exact hs.listed b
  held := by
    intro b d hd hlocal
    cases hb : s.bundle b with
    | none =>
        rw [(h.fresh b d hb hd).1] at hlocal
        cases hlocal
    | some d' =>
        have hsame := h.kept b d' hb
        rw [hd, Option.some.injEq] at hsame
        subst hsame
        obtain ⟨hcust, hpend⟩ := hs.held b d hb hlocal
        exact ⟨hcust.trans h.localEid.symm, h.pending b hpend⟩
  timers := by
    intro b d hd hlocal
    cases hb : s.bundle b with
    | none => exact (h.fresh b d hb hd).2
    | some d' =>
        have hsame := h.kept b d' hb
        rw [hd, Option.some.injEq] at hsame
        subst hsame
        exact hs.timers b d hb hlocal

end Grows

omit [DecidableEq E] in
theorem grows_setBundle {s : State B E L} {b : B} {d : Bundle E L} (hnone : s.bundle b = none)
    (hlocal : d.localCustody = false) (htimers : d.custodyTimers = []) {pending : List B}
    (hpending : pending = s.pending ∨ pending = s.pending ++ [b]) :
    Grows s { s.setBundle b d with pending := pending } where
  params := rfl
  localEid := rfl
  nullEid := rfl
  custody := rfl
  pending := by
    intro b2 hb2
    rcases hpending with rfl | rfl
    · exact hb2
    · exact List.mem_append_left _ hb2
  known := by
    intro b2 hb2
    rcases hpending with rfl | rfl
    · exact Or.inl hb2
    · rcases List.mem_append.mp hb2 with hb2 | hb2
      · exact Or.inl hb2
      · rw [List.mem_singleton.mp hb2]
        simp [setBundle]
  kept := by
    intro b2 d2 hd2
    have hne : b2 ≠ b := by
      rintro rfl
      rw [hnone] at hd2
      cases hd2
    simpa [setBundle, hne] using hd2
  fresh := by
    intro b2 d2 hnone2 hd2
    rcases setBundle_eq_some hd2 with ⟨rfl, rfl⟩ | ⟨-, hd2⟩
    · exact ⟨hlocal, htimers⟩
    · rw [hnone2] at hd2
      cases hd2

theorem generate_grows (s : State B E L) (g : Generated B E) : Grows s (s.generate g) := by
  rw [generate]
  split
  · exact Grows.refl s
  rename_i hknown
  have hnone : s.bundle g.object = none := not_not.mp hknown
  dsimp only
  split
  · exact grows_setBundle hnone rfl rfl (Or.inl rfl)
  split
  · exact grows_setBundle hnone rfl rfl (Or.inl rfl)
  · exact grows_setBundle hnone rfl rfl (Or.inr rfl)

theorem generateStatusReport_grows (s : State B E L) (report : Option (Generated B E)) :
    Grows s (s.generateStatusReport report) := by
  cases report with
  | none => exact Grows.refl s
  | some g => exact generate_grows s g

theorem generateCustodySignal_grows (s : State B E L) (b : B) (signal : Generated B E) :
    Grows s (s.generateCustodySignal b signal) := by
  rw [generateCustodySignal]
  split
  · exact Grows.refl s
  split
  · exact Grows.refl s
  split
  · exact Grows.refl s
  · exact generate_grows s signal

namespace Consistent

/-! ## Taking and releasing custody -/

omit [DecidableEq E] in
theorem take {s : State B E L} (hs : Consistent s) {b : B} {d : Bundle E L}
    (hfree : s.localCustody b = false) (hpending : b ∈ s.pending) (hlocal : d.localCustody = true)
    (hcust : d.custodian = s.localEid) :
    Consistent { s.setBundle b d with custody := s.custody ++ [b] } where
  nodup := by
    have hnot : b ∉ s.custody := by
      rw [hs.listed b, hfree]
      decide
    rw [List.nodup_append]
    refine ⟨hs.nodup, List.nodup_singleton b, ?_⟩
    intro x hx y hy hxy
    rw [List.mem_singleton.mp hy] at hxy
    exact hnot (hxy ▸ hx)
  known := by
    intro b2 hb2
    by_cases hb : b2 = b
    · subst hb
      simp [setBundle]
    · simpa [setBundle, hb] using hs.known b2 hb2
  listed := by
    intro b2
    change b2 ∈ s.custody ++ [b] ↔ (s.setBundle b d).localCustody b2 = true
    rw [setBundle_localCustody, List.mem_append, List.mem_singleton, hs.listed]
    by_cases hb : b2 = b
    · simp [hb, hlocal]
    · simp [hb]
  held := by
    intro b2 d2 hd2 hlocal2
    rcases setBundle_eq_some hd2 with ⟨rfl, rfl⟩ | ⟨-, hd2⟩
    · exact ⟨hcust, hpending⟩
    · exact hs.held b2 d2 hd2 hlocal2
  timers := by
    intro b2 d2 hd2 hlocal2
    rcases setBundle_eq_some hd2 with ⟨rfl, rfl⟩ | ⟨-, hd2⟩
    · rw [hlocal] at hlocal2
      cases hlocal2
    · exact hs.timers b2 d2 hd2 hlocal2

theorem acceptCustody {s : State B E L} (hs : Consistent s) {b : B} (hpending : b ∈ s.pending)
    (signal : Generated B E) (report : Option (Generated B E)) :
    Consistent (s.acceptCustody b signal report) := by
  rw [State.acceptCustody]
  split
  · exact hs
  rename_i d hd
  split
  · exact hs
  rename_i hlocal
  split
  · exact hs
  have hgrows := generateCustodySignal_grows s b signal
  apply (generateStatusReport_grows _ report).consistent
  apply (hgrows.consistent hs).take
  · rw [hgrows.localCustody, localCustody_of_bundle hd]
    exact Bool.eq_false_iff.mpr hlocal
  · exact hgrows.pending b hpending
  · rfl
  · rfl

omit [DecidableEq E] in
theorem releaseCustody {s : State B E L} (hs : Consistent s) (b : B) :
    Consistent (s.releaseCustody b) := by
  rw [State.releaseCustody]
  split
  · exact hs
  rename_i d hd
  split
  · exact hs
  constructor
  · exact hs.nodup.erase b
  · intro b2 hb2
    by_cases hb : b2 = b
    · subst hb
      simp [setBundle]
    · simpa [setBundle, hb] using hs.known b2 hb2
  · intro b2
    change b2 ∈ s.custody.erase b ↔ (s.setBundle b _).localCustody b2 = true
    rw [setBundle_localCustody, hs.nodup.mem_erase_iff, hs.listed]
    by_cases hb : b2 = b
    · simp [hb]
    · simp [hb]
  · intro b2 d2 hd2 hlocal2
    rcases setBundle_eq_some hd2 with ⟨rfl, rfl⟩ | ⟨-, hd2⟩
    · cases hlocal2
    · exact hs.held b2 d2 hd2 hlocal2
  · intro b2 d2 hd2 hlocal2
    rcases setBundle_eq_some hd2 with ⟨rfl, rfl⟩ | ⟨-, hd2⟩
    · rfl
    · exact hs.timers b2 d2 hd2 hlocal2

end Consistent

omit [DecidableEq E] in
theorem releaseCustody_free {s : State B E L} (b : B) : (s.releaseCustody b).localCustody b = false := by
  rw [releaseCustody]
  split
  · rename_i hb
    simp only [localCustody, hb]
  rename_i d hd
  split
  · rename_i hlocal
    rw [localCustody_of_bundle hd]
    simpa using hlocal
  · change (s.setBundle b _).localCustody b = false
    rw [setBundle_localCustody, Function.update_self]

namespace Consistent

omit [DecidableEq E] in
theorem erasePending {s : State B E L} (hs : Consistent s) {b : B} (hfree : s.localCustody b = false) :
    Consistent { s with pending := s.pending.erase b } where
  nodup := hs.nodup
  known := fun b2 hb2 => hs.known b2 (List.mem_of_mem_erase hb2)
  listed := hs.listed
  held := by
    intro b2 d2 hd2 hlocal2
    obtain ⟨hcust, hpending⟩ := hs.held b2 d2 hd2 hlocal2
    refine ⟨hcust, ?_⟩
    have hne : b2 ≠ b := by
      rintro rfl
      have htrue : s.localCustody b2 = true := (localCustody_of_bundle hd2).trans hlocal2
      rw [hfree] at htrue
      cases htrue
    exact (List.mem_erase_of_ne hne).mpr hpending
  timers := hs.timers

theorem deleteBundle {s : State B E L} (hs : Consistent s) (b : B) (report : Option (Generated B E)) :
    Consistent (s.deleteBundle b report) := by
  rw [State.deleteBundle]
  apply (generateStatusReport_grows _ report).consistent
  split
  · exact (hs.releaseCustody b).erasePending (releaseCustody_free b)
  · rename_i hlocal
    exact hs.erasePending (Bool.eq_false_iff.mpr hlocal)

theorem tryToDelete {s : State B E L} (hs : Consistent s) (b : B) (canDelete : Bool)
    (report : Option (Generated B E)) : Consistent (s.tryToDelete b canDelete report) := by
  rw [State.tryToDelete]
  split
  · exact hs
  split
  · exact hs
  split
  · exact hs
  · exact hs.deleteBundle b report

/-! ## Reception -/

theorem takeIn {s : State B E L} (hs : Consistent s) {r : Reception B E} {d : Bundle E L}
    (hd : s.bundle r.object = some d) (hnew : r.source ≠ .store true) (duplicate : Option B) :
    Consistent (s.takeIn r duplicate) := by
  have hpending : Consistent { s with pending := s.pending ++ [r.object] } := by
    constructor
    · exact hs.nodup
    · intro b hb
      rcases List.mem_append.mp hb with hb | hb
      · exact hs.known b hb
      · rw [List.mem_singleton.mp hb]
        exact hd ▸ Option.some_ne_none d
    · exact hs.listed
    · intro b d' hd' hlocal
      obtain ⟨hcust, hb⟩ := hs.held b d' hd' hlocal
      exact ⟨hcust, List.mem_append_left _ hb⟩
    · exact hs.timers
  rw [State.takeIn]
  dsimp only
  split
  · exact hpending
  split
  · split
    · rename_i flag hsource
      cases flag with
      | true => exact absurd hsource hnew
      | false => exact hpending
    · exact hpending.acceptCustody (List.mem_append_right _ (List.mem_singleton_self _)) _ _
  · exact hpending

theorem handleBundleReceived_new {s : State B E L} (hs : Consistent s) {r : Reception B E}
    (hnew : r.source ≠ .store true) : Consistent (s.handleBundleReceived r) := by
  rw [State.handleBundleReceived]
  split
  · exact hs
  rename_i hknown
  have hnone : s.bundle r.object = none := not_not.mp hknown
  have hlocal : (r.bundle : Bundle E L).localCustody = false := by
    cases hsource : r.source with
    | store flag =>
        cases flag with
        | true => exact absurd hsource hnew
        | false => simp only [Reception.bundle, hsource]
    | _ => simp only [Reception.bundle, hsource]
  have hset : Consistent (s.setBundle r.object r.bundle) :=
    (grows_setBundle hnone hlocal rfl (Or.inl rfl)).consistent hs
  have hgrows : Grows (s.setBundle r.object r.bundle)
      (if r.source = .peer then (s.setBundle r.object r.bundle).generateStatusReport r.receiveReport
        else s.setBundle r.object r.bundle) := by
    split
    · exact generateStatusReport_grows _ _
    · exact Grows.refl _
  have hd := hgrows.kept r.object r.bundle (by simp [setBundle])
  have hreport := hgrows.consistent hset
  dsimp only
  generalize (if r.source = .peer then
    (s.setBundle r.object r.bundle).generateStatusReport r.receiveReport
      else s.setBundle r.object r.bundle) = s1 at hd hreport ⊢
  split
  · exact hreport.deleteBundle _ _
  split
  · exact hreport.takeIn hd hnew none
  rename_i b2 _
  have hsignal : Grows s1 (if r.custodyRequested && s1.localCustody b2 then
      s1.generateCustodySignal r.object r.redundantSignal else s1) := by
    split
    · exact generateCustodySignal_grows _ _ _
    · exact Grows.refl _
  generalize (if r.custodyRequested && s1.localCustody b2 then
    s1.generateCustodySignal r.object r.redundantSignal else s1) = s2 at hsignal ⊢
  have hs2 := hsignal.consistent hreport
  split
  · exact hs2
  split
  · exact hs2
  · exact hs2.takeIn (hsignal.kept _ _ hd) hnew _

end Consistent

/-! ## Reloading from the store -/

omit [DecidableEq B] in
theorem findDuplicateFrom_congr {s s' : State B E L} (hparams : s'.params = s.params) (d : Bundle E L)
    (found : Option B) (l : List B) (hl : ∀ b ∈ l, s'.bundle b = s.bundle b) :
    s'.findDuplicateFrom d found l = s.findDuplicateFrom d found l := by
  induction l generalizing found with
  | nil => rfl
  | cons b l ih =>
      have hrest := fun found => ih found fun b2 hb2 => hl b2 (List.mem_cons_of_mem b hb2)
      simp only [findDuplicateFrom, hparams, hl b List.mem_cons_self, hrest]

omit [DecidableEq B] in
theorem findDuplicateFrom_mem {s : State B E L} {d : Bundle E L} {found : Option B} {l : List B} {b : B}
    (h : s.findDuplicateFrom d found l = some b) : found = some b ∨ b ∈ l := by
  induction l generalizing found with
  | nil => exact Or.inl h
  | cons b2 l ih =>
      rw [findDuplicateFrom] at h
      split at h
      · exact (ih h).imp_right (List.mem_cons_of_mem b2)
      split at h
      · split at h
        · rw [Option.some.injEq] at h
          exact Or.inr (h ▸ List.mem_cons_self)
        · rcases ih h with hb | hb
          · rw [Option.some.injEq] at hb
            exact Or.inr (hb ▸ List.mem_cons_self)
          · exact Or.inr (List.mem_cons_of_mem b2 hb)
      · exact (ih h).imp_right (List.mem_cons_of_mem b2)

omit [DecidableEq B] in
theorem findDuplicate_mem {s : State B E L} {d : Bundle E L} {b : B}
    (h : s.findDuplicate d = some b) : b ∈ s.pending := by
  rcases findDuplicateFrom_mem h with hb | hb
  · cases hb
  · exact hb

theorem findDuplicate_setBundle {s : State B E L} (hs : Consistent s) {b : B} (hnone : s.bundle b = none)
    (d d' : Bundle E L) : (s.setBundle b d').findDuplicate d = s.findDuplicate d := by
  have hparams : (s.setBundle b d').params = s.params := rfl
  apply findDuplicateFrom_congr hparams
  intro b2 hb2
  have hne : b2 ≠ b := by
    rintro rfl
    exact hs.known b2 hb2 hnone
  simp [setBundle, hne]

/-- What gets a bundle that is reloaded with the custody flag onto the custody list: it names the local
node as its custodian and requests custody, the daemon accepts custody, its lifetime is not over, and a
pending duplicate neither suppresses it nor is in custody itself. -/
def Reloads (s : State B E L) (r : Reception B E) : Prop :=
  r.custodian = s.localEid ∧ r.custodyRequested = true ∧ s.params.acceptCustody = true ∧
    r.expired = false ∧
    ∀ b2, s.findDuplicate r.bundle = some b2 →
      s.params.suppressDuplicates = false ∧ s.localCustody b2 = false

theorem takeIn_reloads {s : State B E L} {r : Reception B E} (hsource : r.source = .store true)
    (hrequested : r.custodyRequested = true) (haccept : s.params.acceptCustody = true)
    (hexpired : r.expired = false) {duplicate : Option B}
    (hduplicate : ∀ b2, duplicate = some b2 → s.localCustody b2 = false) :
    s.takeIn r duplicate =
      { s with pending := s.pending ++ [r.object], custody := s.custody ++ [r.object] } := by
  have hfree : (duplicate.elim true fun b2 =>
      !({ s with pending := s.pending ++ [r.object] } : State B E L).localCustody b2) = true := by
    cases duplicate with
    | none => rfl
    | some b2 =>
        have hb2 := hduplicate b2 rfl
        simpa [localCustody] using hb2
  rw [takeIn]
  dsimp only
  rw [hexpired, hrequested, haccept, hfree, hsource]
  rfl

theorem handleBundleReceived_reloads {s : State B E L} (hs : Consistent s) {r : Reception B E}
    (hnone : s.bundle r.object = none) (hsource : r.source = .store true) (hr : Reloads s r) :
    s.handleBundleReceived r =
      { s.setBundle r.object r.bundle with
        pending := s.pending ++ [r.object], custody := s.custody ++ [r.object] } := by
  obtain ⟨-, hrequested, haccept, hexpired, hduplicate⟩ := hr
  have hfind := findDuplicate_setBundle hs hnone r.bundle r.bundle
  have hlocal : ∀ b2, s.findDuplicate (r.bundle : Bundle E L) = some b2 →
      (s.setBundle r.object r.bundle).localCustody b2 = false := by
    intro b2 hb2
    have hne : b2 ≠ r.object := by
      rintro rfl
      exact hs.known _ (findDuplicate_mem hb2) hnone
    rw [setBundle_localCustody, Function.update_of_ne hne]
    exact (hduplicate b2 hb2).2
  have hpeer : r.source ≠ .peer := by
    rw [hsource]
    decide
  rw [handleBundleReceived, if_neg (not_not.mpr hnone)]
  dsimp only
  rw [if_neg hpeer, if_neg fun h => hpeer h.1, hfind]
  cases hdup : s.findDuplicate (r.bundle : Bundle E L) with
  | none =>
      apply takeIn_reloads (s := s.setBundle r.object r.bundle) hsource hrequested haccept hexpired
      intro b2 hb2
      cases hb2
  | some b2 =>
      have hsuppress : (s.setBundle r.object r.bundle).params.suppressDuplicates = false :=
        (hduplicate b2 hdup).1
      dsimp only
      rw [hlocal b2 hdup, Bool.and_false, if_neg Bool.false_ne_true, hsuppress,
        if_neg Bool.false_ne_true, if_neg Bool.false_ne_true]
      apply takeIn_reloads (s := s.setBundle r.object r.bundle) hsource hrequested haccept hexpired
      intro b3 hb3
      rw [Option.some.injEq] at hb3
      exact hb3 ▸ hlocal b2 hdup

theorem Consistent.handleBundleReceived {s : State B E L} (hs : Consistent s) {r : Reception B E}
    (hr : r.source = .store true → Reloads s r) : Consistent (s.handleBundleReceived r) := by
  by_cases hsource : r.source = .store true
  · cases hnone : s.bundle r.object with
    | some d =>
        have hknown : s.bundle r.object ≠ none := hnone ▸ Option.some_ne_none d
        rw [State.handleBundleReceived, if_pos hknown]
        exact hs
    | none =>
        rw [handleBundleReceived_reloads hs hnone hsource (hr hsource)]
        -- first the new object is put on the pending list without custody, then it is taken into custody
        have hgrows := (grows_setBundle hnone (d := { (r.bundle : Bundle E L) with localCustody := false })
          rfl rfl (Or.inr rfl)).consistent hs
        have htake := hgrows.take (b := r.object) (d := r.bundle) ?_
          (List.mem_append_right _ (List.mem_singleton_self _)) ?_ (hr hsource).1
        · simpa only [setBundle, Function.update_idem] using htake
        · change (s.setBundle r.object _).localCustody r.object = false
          rw [setBundle_localCustody, Function.update_self]
        · simp only [Reception.bundle, hsource]
  · exact hs.handleBundleReceived_new hsource

/-! ## The other events -/

namespace Consistent

omit [DecidableEq E] in
theorem setTimers {s : State B E L} (hs : Consistent s) {b : B} {d : Bundle E L} (hd : s.bundle b = some d)
    {timers : List L} (htimers : d.localCustody = false → timers = []) :
    Consistent (s.setBundle b { d with custodyTimers := timers }) where
  nodup := hs.nodup
  known := by
    intro b2 hb2
    by_cases hb : b2 = b
    · subst hb
      simp [setBundle]
    · simpa [setBundle, hb] using hs.known b2 hb2
  listed := by
    intro b2
    rw [setBundle_localCustody]
    by_cases hb : b2 = b
    · subst hb
      rw [Function.update_self, ← localCustody_of_bundle hd]
      exact hs.listed b2
    · rw [Function.update_of_ne hb]
      exact hs.listed b2
  held := by
    intro b2 d2 hd2 hlocal2
    rcases setBundle_eq_some hd2 with ⟨rfl, rfl⟩ | ⟨-, hd2⟩
    · exact hs.held b2 d hd hlocal2
    · exact hs.held b2 d2 hd2 hlocal2
  timers := by
    intro b2 d2 hd2 hlocal2
    rcases setBundle_eq_some hd2 with ⟨rfl, rfl⟩ | ⟨-, hd2⟩
    · exact htimers hlocal2
    · exact hs.timers b2 d2 hd2 hlocal2

theorem handleBundleTransmitted {s : State B E L} (hs : Consistent s) (b : B) (l : L)
    (report : Option (Generated B E)) : Consistent (s.handleBundleTransmitted b l report) := by
  have hreport := (generateStatusReport_grows s report).consistent hs
  rw [State.handleBundleTransmitted]
  split
  · exact hreport
  rename_i d hd
  split
  · rename_i hlocal
    apply hreport.setTimers hd
    intro hfree
    rw [hlocal] at hfree
    cases hfree
  · exact hreport

theorem handleBundleDelivered {s : State B E L} (hs : Consistent s) (b : B)
    (report : Option (Generated B E)) (signal : Generated B E) :
    Consistent (s.handleBundleDelivered b report signal) := by
  have hreport := (generateStatusReport_grows s report).consistent hs
  rw [State.handleBundleDelivered]
  split
  · exact hreport
  split
  · exact hreport
  split
  · exact hreport.releaseCustody b
  · exact (generateCustodySignal_grows _ b signal).consistent hreport

theorem handleCustodySignal {s : State B E L} (hs : Consistent s) (signal : Signal E) (canDelete : Bool)
    (report : Option (Generated B E)) : Consistent (s.handleCustodySignal signal canDelete report) := by
  rw [State.handleCustodySignal]
  split
  · exact hs
  split
  · exact (hs.releaseCustody _).tryToDelete _ canDelete report
  · exact hs

variable [DecidableEq L]

omit [DecidableEq E] in
theorem handleCustodyTimeout {s : State B E L} (hs : Consistent s) (b : B) (l : L) :
    Consistent (s.handleCustodyTimeout b l) := by
  rw [State.handleCustodyTimeout]
  split
  · exact hs
  rename_i d hd
  apply hs.setTimers hd
  intro hfree
  rw [hs.timers b d hd hfree]
  rfl

end Consistent

/-! ## Runs -/

def Initial (s : State B E L) : Prop :=
  (∀ b, s.bundle b = none) ∧ s.pending = [] ∧ s.custody = []

omit [DecidableEq B] [DecidableEq E] in
theorem Initial.consistent {s : State B E L} (h : Initial s) : Consistent s := by
  obtain ⟨hbundle, hpending, hcustody⟩ := h
  constructor
  · rw [hcustody]
    exact List.nodup_nil
  · intro b hb
    rw [hpending] at hb
    cases hb
  · intro b
    simp [hcustody, localCustody, hbundle]
  · intro b d hd
    rw [hbundle] at hd
    cases hd
  · intro b d hd
    rw [hbundle] at hd
    cases hd

/-- Only the reloading of a bundle that comes with the custody flag is under a condition. -/
def Meets (s : State B E L) : Event B E L → Prop
  | .received r => r.source = .store true → Reloads s r
  | _ => True

variable [DecidableEq L]

def RunMeets (s : State B E L) : List (Event B E L) → Prop
  | [] => True
  | event :: rest => s.Meets event ∧ (s.handleEvent event).RunMeets rest

theorem Consistent.handleEvent {s : State B E L} (hs : Consistent s) {event : Event B E L}
    (hmeets : s.Meets event) : Consistent (s.handleEvent event) := by
  cases event with
  | setParams params => exact ⟨hs.nodup, hs.known, hs.listed, hs.held, hs.timers⟩
  | received r => exact hs.handleBundleReceived hmeets
  | transmitted b l report => exact hs.handleBundleTransmitted b l report
  | delivered b report signal => exact hs.handleBundleDelivered b report signal
  | delete b report => exact hs.deleteBundle b report
  | completed b canDelete report => exact hs.tryToDelete b canDelete report
  | custodySignal signal canDelete report => exact hs.handleCustodySignal signal canDelete report
  | custodyTimeout b l => exact hs.handleCustodyTimeout b l

theorem Consistent.run {s : State B E L} (hs : Consistent s) {events : List (Event B E L)}
    (hmeets : s.RunMeets events) : Consistent (s.run events) := by
  induction events generalizing s with
  | nil => exact hs
  | cons event events ih => exact ih (hs.handleEvent hmeets.1) hmeets.2

/-- As long as every bundle that is reloaded with the custody flag gets onto the custody list, a bundle is
on that list exactly when the flag is set; a bundle in custody names the local node as its custodian and is
pending, and a bundle that is not in custody has no custody timer. -/
theorem run_custody (s : State B E L) (hinit : s.Initial) (events : List (Event B E L))
    (hmeets : s.RunMeets events) (b : B) (d : Bundle E L) (hd : (s.run events).bundle b = some d) :
    (b ∈ (s.run events).custody ↔ d.localCustody = true) ∧
    (d.localCustody = true → d.custodian = (s.run events).localEid ∧ b ∈ (s.run events).pending) ∧
    (d.localCustody = false → d.custodyTimers = []) := by
  have h := hinit.consistent.run hmeets
  refine ⟨?_, h.held b d hd, h.timers b d hd⟩
  rw [h.listed b, localCustody_of_bundle hd]

/-- A daemon with the local node 1 and the null node 0 that has just been started. -/
def sample (acceptCustody : Bool) : State (Fin 2) (Fin 3) (Fin 1) where
  params := ⟨true, true, acceptCustody⟩
  localEid := 1
  nullEid := 0
  bundle := fun _ => none
  pending := []
  custody := []

theorem sample_initial (acceptCustody : Bool) : (sample acceptCustody).Initial :=
  ⟨fun _ => rfl, rfl, rfl⟩

/-- A stored bundle of node 2 that the local node has custody of. -/
def sampleReload : Reception (Fin 2) (Fin 3) where
  object := 0
  source := .store true
  sourceEid := 2
  creationTs := (1000, 1)
  isFragment := false
  fragOffset := 0
  payloadLength := 10
  custodyRequested := true
  custodian := 1
  accepted := true
  expired := false
  receiveReport := none
  deleteReport := none
  redundantSignal := ⟨1, (2000, 1), 20, false⟩
  acceptSignal := ⟨1, (2000, 1), 20, false⟩
  custodyReport := none

theorem run_custody_sample :
    let s := (sample true).run [.received sampleReload, .transmitted 0 0 none]
    (sample true).RunMeets [.received sampleReload, .transmitted 0 0 none] ∧
      (∃ d, s.bundle 0 = some d ∧ d.custodyTimers = [0] ∧ d.custodian = 1) ∧ 0 ∈ s.custody := by
  have hmeets : (sample true).RunMeets [.received sampleReload, .transmitted 0 0 none] := by
    refine ⟨fun _ => ⟨rfl, rfl, rfl, rfl, ?_⟩, trivial, trivial⟩
    intro b2 hb2
    cases hb2
  have hbundle : ((sample true).run [.received sampleReload, .transmitted 0 0 none]).bundle 0 =
      some ⟨2, (1000, 1), false, 0, 10, true, 1, true, [0]⟩ := by
    decide +kernel
  have h := run_custody (sample true) (sample_initial true) _ hmeets 0 _ hbundle
  exact ⟨hmeets, ⟨_, hbundle, rfl, (h.2.1 rfl).1⟩, h.1.mpr rfl⟩

/-- A daemon that does not accept custody reloads a bundle that it has custody of: the flag is set, and the
bundle is not on the custody list. -/
theorem reloaded_unlisted :
    let s := (sample false).run [.received sampleReload]
    (∃ d, s.bundle 0 = some d ∧ d.localCustody = true) ∧ 0 ∉ s.custody := by
  refine ⟨⟨⟨2, (1000, 1), false, 0, 10, true, 1, true, []⟩, ?_, rfl⟩, ?_⟩
  · decide +kernel
  · decide +kernel

end Dtn2.BundleDaemon.State
