import Dtn2.Prophet.AckSet

/-!
# Which bundles an ack removes

The ack of a bundle never keeps another bundle from being offered or requested in the same exchange:
acks come behind all bundles in an offer, and while these are answered nothing changes in the store.
But every bundle that the route and the 32-bit numbers describe may be dropped for it.
-/

namespace Dtn2

namespace Prophet

variable {core : BundleCore} {ribd : Dictionary}

def ackEntry (core : BundleCore) (ribd : Dictionary) (x : Bundle) : BundleTLVEntry :=
  ⟨creationTs x, sequenceNum x, ribd.find (core.getRoute (core.getRoute (destinationId x))), false,
    false, true⟩

def Answer.start (bundles : List Bundle) (acks : List Ack) (list : BundleResponseList) : Answer :=
  ⟨bundles, acks, list, []⟩

/-- The node would request the bundle of an entry: it holds none that the entry describes, and knows
no ack for it. -/
def Wanted (core : BundleCore) (ribd : Dictionary) (bundles : List Bundle) (acks : List Ack)
    (key : UInt32 × UInt32 × UInt16) : Prop :=
  (∀ b ∈ bundles, ¬ Describes core (ribd.findId key.2.2) key.1 key.2.1 b) ∧
    AckList.isAckd acks (ribd.findId key.2.2) key.1 key.2.1 = false

/-- One node has acknowledged `x`, and offers its bundles and acks to another. Whatever that drops for
the ack of `x` is a copy of `x`; all bundles are offered as without acks; and a bundle is requested
exactly if it would have been before the acks came. -/
structure AckExact (core : BundleCore) (ribd : Dictionary) (offered : List Bundle) (acks : List Ack)
    (bundles : List Bundle) (known : List Ack) (list : BundleResponseList) (x : Bundle) : Prop where
  drops : ∀ s, Responds core ribd
      (getBundleOffer core ribd offered (AckList.insertBundle core acks x)).list
      (.start bundles known list) s →
    ∀ y, (ackEntry core ribd x, y) ∈ s.dropped → SameBundle y x
  offers : (getBundleOffer core ribd offered []).list <+:
    (getBundleOffer core ribd offered (AckList.insertBundle core acks x)).list
  requests : ∀ s, Responds core ribd
      (getBundleOffer core ribd offered (AckList.insertBundle core acks x)).list
      (.start bundles known list) s →
    ∀ e ∈ (getBundleOffer core ribd offered []).list,
      e.key ∈ s.list.list.map BundleTLVEntry.key ↔
        e.key ∈ list.list.map BundleTLVEntry.key ∨ Wanted core ribd bundles known e.key

/-! ## Offers -/

theorem addOffer_list (l : BundleOfferList) (cts seq : UInt32) (sid : UInt16) (custody ack : Bool) :
    (l.addOffer cts seq sid custody ack).list = l.list ∨
      (l.addOffer cts seq sid custody ack).list = l.list ++ [⟨cts, seq, sid, custody, false, ack⟩] := by
  unfold BundleEntryList.addOffer
  cases h : l.addEntry ⟨cts, seq, sid, custody, false, ack⟩ with
  | none => exact Or.inl rfl
  | some l' => exact Or.inr (BundleEntryList.addEntry_list h)

variable (core ribd) in
theorem offerBundle_list (l : BundleOfferList) (b : Bundle) :
    (offerBundle core ribd l b).list = l.list ∨
      ∃ e, e.ack = false ∧ (offerBundle core ribd l b).list = l.list ++ [e] := by
  unfold offerBundle
  dsimp only
  split
  · rcases addOffer_list l (creationTs b) (sequenceNum b)
      (ribd.find (core.getRoute (destinationId b))) b.custodyRequested false with h | h
    · exact Or.inl h
    · exact Or.inr ⟨_, rfl, h⟩
  · exact Or.inl rfl

variable (core ribd) in
theorem offerAck_list (l : BundleOfferList) (a : Ack) :
    (offerAck core ribd l a).list = l.list ∨
      ∃ e, e.ack = true ∧ (offerAck core ribd l a).list = l.list ++ [e] := by
  unfold offerAck
  dsimp only
  split
  · rcases addOffer_list l a.cts a.seq (ribd.find (core.getRoute a.destId)) false true with h | h
    · exact Or.inl h
    · exact Or.inr ⟨_, rfl, h⟩
  · exact Or.inl rfl

theorem offerBundles_noAck (bundles : List Bundle) (l : BundleOfferList)
    (hl : ∀ e ∈ l.list, e.ack = false) :
    ∀ e ∈ (bundles.foldl (offerBundle core ribd) l).list, e.ack = false := by
  induction bundles generalizing l with
  | nil => exact hl
  | cons b rest ih =>
      apply ih
      rcases offerBundle_list core ribd l b with h | ⟨e, he, h⟩
      · rw [h]
        exact hl
      · rw [h]
        intro e' he'
        rcases List.mem_append.mp he' with hmem | hmem
        · exact hl e' hmem
        · rw [List.mem_singleton.mp hmem]
          exact he

variable (core ribd) in
theorem offerAcks_list (acks : List Ack) (l : BundleOfferList) :
    ∃ tail, (acks.foldl (offerAck core ribd) l).list = l.list ++ tail ∧ ∀ e ∈ tail, e.ack = true := by
  induction acks generalizing l with
  | nil => exact ⟨[], by simp, by simp⟩
  | cons a rest ih =>
      obtain ⟨tail, htail, hacks⟩ := ih (offerAck core ribd l a)
      rcases offerAck_list core ribd l a with h | ⟨e, he, h⟩
      · exact ⟨tail, by rw [List.foldl_cons, htail, h], hacks⟩
      · refine ⟨e :: tail, by rw [List.foldl_cons, htail, h, List.append_assoc]; rfl, ?_⟩
        intro e' he'
        rcases List.mem_cons.mp he' with rfl | hmem
        · exact he
        · exact hacks e' hmem

variable (core ribd) in
theorem getBundleOffer_list (offered : List Bundle) (acks : List Ack) :
    ∃ tail, (getBundleOffer core ribd offered acks).list =
        (getBundleOffer core ribd offered []).list ++ tail ∧
      (∀ e ∈ tail, e.ack = true) ∧
      ∀ e ∈ (getBundleOffer core ribd offered []).list, e.ack = false := by
  obtain ⟨tail, htail, hacks⟩ := offerAcks_list core ribd acks
    (offered.foldl (offerBundle core ribd) .empty)
  exact ⟨tail, htail, hacks, offerBundles_noAck offered .empty (by simp [BundleEntryList.empty])⟩

/-! ## Requests -/

theorem findBundle_eq_none {bundles : List Bundle} {eid : Bytes} {cts seq : UInt32} :
    findBundle core bundles eid cts seq = none ↔ ∀ b ∈ bundles, ¬ Describes core eid cts seq b := by
  simp [findBundle]

theorem findBundle_eq_some {bundles : List Bundle} {eid : Bytes} {cts seq : UInt32} {b : Bundle}
    (h : findBundle core bundles eid cts seq = some b) :
    b ∈ bundles ∧ Describes core eid cts seq b := by
  refine ⟨List.mem_of_find?_eq_some h, ?_⟩
  have hb := List.find?_some h
  simpa using hb

theorem Responds.append {xs ys : List BundleTLVEntry} {s s' : Answer}
    (h : Responds core ribd (xs ++ ys) s s') :
    ∃ mid, Responds core ribd xs s mid ∧ Responds core ribd ys mid s' := by
  induction xs generalizing s with
  | nil => exact ⟨s, .nil s, h⟩
  | cons e rest ih =>
      cases h with
      | cons hperm hrest =>
          obtain ⟨mid, hleft, hright⟩ := ih hrest
          exact ⟨mid, .cons hperm hleft, hright⟩

theorem keys_addEntry (l : BundleResponseList) (cts seq : UInt32) (sid : UInt16) (custody : Bool)
    (key : UInt32 × UInt32 × UInt16) :
    key ∈ ((l.addEntry ⟨cts, seq, sid, custody, true, false⟩).getD l).list.map BundleTLVEntry.key ↔
      key ∈ l.list.map BundleTLVEntry.key ∨ key = (cts, seq, sid) := by
  have htype : BundleTLVEntry.type ⟨cts, seq, sid, custody, true, false⟩ = .response := by
    unfold BundleTLVEntry.type
    cases custody <;> rfl
  unfold BundleEntryList.addEntry
  rw [dif_pos htype]
  by_cases hk : BundleTLVEntry.key ⟨cts, seq, sid, custody, true, false⟩ ∈
      l.list.map BundleTLVEntry.key
  · rw [dif_pos hk]
    constructor
    · exact Or.inl
    · rintro (h | rfl)
      · exact h
      · exact hk
  · rw [dif_neg hk]
    simp [BundleTLVEntry.key]

variable (core ribd) in
theorem respondTo_bundle {e : BundleTLVEntry} (he : e.ack = false) (s : Answer) :
    (respondTo core ribd e s).bundles = s.bundles ∧ (respondTo core ribd e s).acks = s.acks ∧
      (respondTo core ribd e s).dropped = s.dropped ∧
      ∀ key, key ∈ (respondTo core ribd e s).list.list.map BundleTLVEntry.key ↔
        key ∈ s.list.list.map BundleTLVEntry.key ∨
          (key = e.key ∧ Wanted core ribd s.bundles s.acks e.key) := by
  unfold respondTo
  dsimp only
  cases hfind : findBundle core s.bundles (ribd.findId e.sid) e.creationTs e.seqno with
  | some b =>
      have hb := findBundle_eq_some hfind
      have hnot : ¬ Wanted core ribd s.bundles s.acks e.key := fun h => h.1 b hb.1 hb.2
      simp [he, hnot]
  | none =>
      have hnone := findBundle_eq_none.mp hfind
      by_cases hack : AckList.isAckd s.acks (ribd.findId e.sid) e.creationTs e.seqno = true
      · have hnot : ¬ Wanted core ribd s.bundles s.acks e.key := by
          intro h
          have := h.2
          simp only [BundleTLVEntry.key] at this
          rw [hack] at this
          cases this
        simp [he, hack, hnot]
      · have hwant : Wanted core ribd s.bundles s.acks e.key := ⟨hnone, Bool.eq_false_iff.mpr hack⟩
        simp only [he, hack, Bool.false_eq_true, if_false]
        refine ⟨trivial, trivial, trivial, ?_⟩
        intro key
        rw [keys_addEntry]
        constructor
        · rintro (h | h)
          · exact Or.inl h
          · exact Or.inr ⟨h, hwant⟩
        · rintro (h | h)
          · exact Or.inl h
          · exact Or.inr h.1

theorem Wanted.perm {bundles bundles' : List Bundle} (h : bundles'.Perm bundles) (acks : List Ack)
    (key : UInt32 × UInt32 × UInt16) :
    Wanted core ribd bundles' acks key ↔ Wanted core ribd bundles acks key := by
  unfold Wanted
  simp only [h.mem_iff]

theorem Responds.bundles {entries : List BundleTLVEntry} (hentries : ∀ e ∈ entries, e.ack = false)
    {s s' : Answer} (h : Responds core ribd entries s s') :
    s'.bundles.Perm s.bundles ∧ s'.acks = s.acks ∧ s'.dropped = s.dropped ∧
      ∀ key, key ∈ s'.list.list.map BundleTLVEntry.key ↔
        key ∈ s.list.list.map BundleTLVEntry.key ∨
          (key ∈ entries.map BundleTLVEntry.key ∧ Wanted core ribd s.bundles s.acks key) := by
  induction h with
  | nil s => exact ⟨List.Perm.refl _, rfl, rfl, by simp⟩
  | cons hperm hrest ih =>
      rename_i e rest s s' bundles
      obtain ⟨hb, ha, hd, hk⟩ := respondTo_bundle core ribd
        (hentries e List.mem_cons_self) { s with bundles := bundles }
      obtain ⟨hb', ha', hd', hk'⟩ := ih fun x hx => hentries x (List.mem_cons_of_mem _ hx)
      refine ⟨?_, ha'.trans ha, hd'.trans hd, ?_⟩
      · rw [hb] at hb'
        exact hb'.trans hperm
      · intro key
        have hwant : ∀ k, Wanted core ribd bundles s.acks k ↔ Wanted core ribd s.bundles s.acks k :=
          fun k => Wanted.perm hperm s.acks k
        rw [hk' key, hk key, hb, ha]
        simp only [List.map_cons, List.mem_cons]
        rw [hwant, hwant]
        constructor
        · rintro ((h | ⟨rfl, h⟩) | ⟨h, hw⟩)
          · exact Or.inl h
          · exact Or.inr ⟨Or.inl rfl, h⟩
          · exact Or.inr ⟨Or.inr h, hw⟩
        · rintro (h | ⟨rfl | h, hw⟩)
          · exact Or.inl (Or.inl h)
          · exact Or.inl (Or.inr ⟨rfl, hw⟩)
          · exact Or.inr ⟨h, hw⟩

theorem respondTo_ack_list {e : BundleTLVEntry} (he : e.ack = true) (s : Answer) :
    (respondTo core ribd e s).list = s.list := by
  unfold respondTo ackBundle
  dsimp only
  split
  · rw [if_pos he]
    split <;> rfl
  · rw [if_pos he]

theorem Responds.acks_list {entries : List BundleTLVEntry} (hentries : ∀ e ∈ entries, e.ack = true)
    {s s' : Answer} (h : Responds core ribd entries s s') : s'.list = s.list := by
  induction h with
  | nil s => rfl
  | cons hperm hrest ih =>
      rename_i e rest s s' bundles
      rw [ih fun x hx => hentries x (List.mem_cons_of_mem _ hx),
        respondTo_ack_list (hentries e List.mem_cons_self)]

/-! ## Drops -/

theorem Responds.trans {xs ys : List BundleTLVEntry} {s mid s' : Answer}
    (hx : Responds core ribd xs s mid) (hy : Responds core ribd ys mid s') :
    Responds core ribd (xs ++ ys) s s' := by
  induction hx with
  | nil s => exact hy
  | cons hperm hrest ih => exact .cons hperm (ih hy)

variable (core ribd) in
theorem Responds.total (entries : List BundleTLVEntry) (s : Answer) :
    ∃ s', Responds core ribd entries s s' := by
  induction entries generalizing s with
  | nil => exact ⟨s, .nil s⟩
  | cons e rest ih =>
      obtain ⟨s', h⟩ := ih (respondTo core ribd e { s with bundles := s.bundles })
      exact ⟨s', .cons (List.Perm.refl _) h⟩

variable (core ribd) in
theorem respondTo_dropped (e : BundleTLVEntry) (s : Answer) :
    ∃ new, (respondTo core ribd e s).dropped = s.dropped ++ new ∧
      ∀ p ∈ new, p.1 = e ∧ p.2 ∈ s.bundles ∧ isProphetControl p.2 = false ∧
        Describes core (ribd.findId e.sid) e.creationTs e.seqno p.2 := by
  unfold respondTo
  dsimp only
  split
  · rename_i b hfind
    split
    · unfold ackBundle
      split
      · exact ⟨[], by simp, by simp⟩
      · rename_i hcontrol
        refine ⟨_, rfl, ?_⟩
        intro p hp
        obtain ⟨c, hc, rfl⟩ := List.mem_map.mp hp
        have hc' : findRef s.bundles b = some c := Option.mem_toList.mp hc
        have hmem := List.mem_of_find?_eq_some hc'
        have hsame := List.find?_some hc'
        simp only [Bool.and_eq_true, decide_eq_true_eq] at hsame
        obtain ⟨-, hcts, hseq, hroute⟩ := findBundle_eq_some hfind
        refine ⟨rfl, hmem, ?_, ?_⟩
        · have heq : isProphetControl c = isProphetControl b := by
            unfold isProphetControl
            rw [hsame.2]
          rw [heq]
          exact Bool.eq_false_iff.mpr hcontrol
        · exact ⟨hsame.1.1.trans hcts, hsame.1.2.trans hseq, by rw [hsame.2]; exact hroute⟩
    · exact ⟨[], by simp, by simp⟩
  · split
    · exact ⟨[], by simp, by simp⟩
    · split
      · exact ⟨[], by simp, by simp⟩
      · exact ⟨[], by simp, by simp⟩

theorem Responds.dropped_mono {entries : List BundleTLVEntry} {s s' : Answer}
    (h : Responds core ribd entries s s') : ∀ p ∈ s.dropped, p ∈ s'.dropped := by
  induction h with
  | nil s => exact fun p hp => hp
  | cons hperm hrest ih =>
      rename_i e rest s s' bundles
      intro p hp
      obtain ⟨new, hnew, -⟩ := respondTo_dropped core ribd e
        { s with bundles := bundles }
      apply ih
      rw [hnew]
      exact List.mem_append_left _ hp

theorem Responds.dropped_cases {entries : List BundleTLVEntry} {s s' : Answer}
    (h : Responds core ribd entries s s') {e : BundleTLVEntry} {y : Bundle} (hy : (e, y) ∈ s'.dropped) :
    (e, y) ∈ s.dropped ∨ ∃ before after mid, entries = before ++ e :: after ∧
      Responds core ribd before s mid ∧ y ∈ mid.bundles ∧ isProphetControl y = false ∧
      Describes core (ribd.findId e.sid) e.creationTs e.seqno y := by
  induction h with
  | nil s => exact Or.inl hy
  | cons hperm hrest ih =>
      rename_i e' rest s s' bundles
      rcases ih hy with hold | ⟨before, after, mid, rfl, hrun, hmem⟩
      · obtain ⟨new, hnew, hall⟩ := respondTo_dropped core ribd e'
          { s with bundles := bundles }
        rw [hnew] at hold
        rcases List.mem_append.mp hold with hin | hin
        · exact Or.inl hin
        · obtain ⟨rfl, hmem, hcontrol, hdesc⟩ := hall _ hin
          exact Or.inr ⟨[], rest, s, rfl, .nil s, hperm.subset hmem, hcontrol, hdesc⟩
      · exact Or.inr ⟨e' :: before, after, mid, rfl, .cons hperm hrun, hmem⟩

theorem respondTo_drops {e : BundleTLVEntry} (he : e.ack = true) {s : Answer} {y : Bundle}
    (hcontrol : isProphetControl y = false)
    (hdesc : Describes core (ribd.findId e.sid) e.creationTs e.seqno y) (rest : List Bundle) :
    (e, y) ∈ (respondTo core ribd e { s with bundles := y :: rest }).dropped := by
  have hfind : findBundle core (y :: rest) (ribd.findId e.sid) e.creationTs e.seqno = some y := by
    rw [findBundle, List.find?_cons_of_pos (by simpa using hdesc)]
  have href : findRef (y :: rest) y = some y := by
    rw [findRef, List.find?_cons_of_pos (by simp)]
  unfold respondTo
  dsimp only
  rw [hfind]
  dsimp only
  rw [if_pos he]
  unfold ackBundle
  rw [if_neg (by simp [hcontrol])]
  dsimp only
  rw [href]
  simp

/-- An ack removes only the bundle it is for exactly if, whenever the neighbour comes to the ack, all
bundles that it then holds and that the ack describes are copies of that bundle. -/
theorem ackExact_iff (offered : List Bundle) (acks : List Ack) (bundles : List Bundle)
    (known : List Ack) (list : BundleResponseList) (x : Bundle) :
    AckExact core ribd offered acks bundles known list x ↔
      ∀ before after s,
        (getBundleOffer core ribd offered (AckList.insertBundle core acks x)).list =
          before ++ ackEntry core ribd x :: after →
        Responds core ribd before (.start bundles known list) s →
        ∀ y ∈ s.bundles, isProphetControl y = false →
          Describes core (ribd.findId (ackEntry core ribd x).sid) (creationTs x) (sequenceNum x) y →
          SameBundle y x := by
  obtain ⟨tail, hlist, htail, hhead⟩ := getBundleOffer_list core ribd offered
    (AckList.insertBundle core acks x)
  constructor
  · intro h before after s hsplit hrun y hy hcontrol hdesc
    -- the repository may hand out this bundle first
    have hperm : (y :: s.bundles.erase y).Perm s.bundles := (List.perm_cons_erase hy).symm
    have hdrop := respondTo_drops (e := ackEntry core ribd x) rfl (s := s) hcontrol hdesc
      (s.bundles.erase y)
    obtain ⟨s', hafter⟩ := Responds.total core ribd after
      (respondTo core ribd (ackEntry core ribd x) { s with bundles := y :: s.bundles.erase y })
    refine h.drops s' ?_ y (hafter.dropped_mono _ hdrop)
    rw [hsplit]
    exact hrun.trans (.cons hperm hafter)
  · intro h
    refine ⟨?_, ?_, ?_⟩
    · intro s hrun y hy
      rcases hrun.dropped_cases hy with hnil | ⟨before, after, mid, hsplit, hbefore, hmem, hcontrol, hdesc⟩
      · cases hnil
      · exact h before after mid hsplit hbefore y hmem hcontrol hdesc
    · rw [hlist]
      exact List.prefix_append _ _
    · intro s hrun e he
      rw [hlist] at hrun
      obtain ⟨mid, hfirst, hsecond⟩ := hrun.append
      obtain ⟨-, -, -, hkeys⟩ := hfirst.bundles hhead
      rw [hsecond.acks_list htail, hkeys e.key]
      have hmem : e.key ∈ (getBundleOffer core ribd offered []).list.map BundleTLVEntry.key :=
        List.mem_map_of_mem he
      constructor
      · rintro (h' | ⟨-, h'⟩)
        · exact Or.inl h'
        · exact Or.inr h'
      · rintro (h' | h')
        · exact Or.inl h'
        · exact Or.inr ⟨hmem, h'⟩

/-! ## Two senders -/

/-- A bundle to `dtn://d/in`, by its source, its first sequence number in second 100. -/
def sampleBundle (id : Nat) (source : Char) : Bundle :=
  { Bundle.new id 100 with
    source := ⟨ascii ['d', 't', 'n', ':', '/', '/', source, '/', 'o', 'u', 't'], true⟩
    dest := ⟨ascii ['d', 't', 'n', ':', '/', '/', 'd', '/', 'i', 'n'], true⟩
    creationTs := ⟨100, 1⟩ }

def sampleDictionary : Dictionary :=
  ((Dictionary.new (ascii ['d', 't', 'n', ':', '/', '/', 'p']) (ascii ['d', 't', 'n', ':', '/', '/', 'q'])
    ).assign (ascii ['d', 't', 'n', ':', '/', '/', 'd']) 2).getD .empty

/-- Two nodes have each sent a bundle to the same destination in the same second. The ack of the one
makes a neighbour drop the other. -/
theorem not_ackExact : ¬ AckExact .plain sampleDictionary [] [] [sampleBundle 7 'b'] [] .empty
    (sampleBundle 4 'a') := by
  intro h
  have hrun := Responds.cons (s := .start [sampleBundle 7 'b'] [] .empty) (List.Perm.refl _)
    (.nil (respondTo .plain sampleDictionary (ackEntry .plain sampleDictionary (sampleBundle 4 'a')) _))
  have hoffer : (getBundleOffer .plain sampleDictionary []
      (AckList.insertBundle .plain [] (sampleBundle 4 'a'))).list =
        [ackEntry .plain sampleDictionary (sampleBundle 4 'a')] := by decide +kernel
  rw [← hoffer] at hrun
  have hsame := h.drops _ hrun (sampleBundle 7 'b') (by decide +kernel)
  exact absurd hsame (by decide +kernel)

end Prophet

end Dtn2
