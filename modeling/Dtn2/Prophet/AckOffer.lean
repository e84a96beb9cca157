import Dtn2.Prophet.AckIdentity
import Mathlib.Data.List.Induction

/-!
# Which acks an offer carries

An ack that is offered to a neighbour is first noted in the list of the link, and what is noted there is
not offered again. The offer that is then made leaves out acks without a string id and acks that look
like a bundle of the offer.
-/

namespace Dtn2

namespace Prophet

/-- The forwarding strategy: the bundles that its decider lets pass and the order of its comparator. -/
structure Strategy where
  decides : Bundle → Bool
  comp : Bundle → Bundle → Bool

/-- `add_bundle` of `BundleOffer`. -/
def addBundle (strategy : Strategy) (list : List Bundle) (b : Bundle) : List Bundle :=
  if strategy.decides b then
    list.takeWhile (strategy.comp b) ++ b :: list.dropWhile (strategy.comp b)
  else list

/-- The bundles of a `BundleOffer`. -/
def bundleOffer (strategy : Strategy) (bundles : List Bundle) : List Bundle :=
  bundles.foldl (addBundle strategy) []

/-- One round of the loop over the acks in `TLVCreator::offer`: the list of the link, and the acks that
go to `get_bundle_offer`. -/
def noteAck (s : List Ack × List Ack) (a : Ack) : List Ack × List Ack :=
  if a.key ∈ s.1.map Ack.key then s else (AckList.insert s.1 a, AckList.insert s.2 a)

/-- `TLVCreator::offer`: the acks of the link afterwards, and the TLV. -/
def TLVCreator.offer (core : BundleCore) (strategy : Strategy) (bundles : List Bundle)
    (acks link : List Ack) (ribd : Dictionary) : List Ack × TLV :=
  let noted := acks.foldl noteAck (link, [])
  let list := getBundleOffer core ribd (bundleOffer strategy bundles) noted.2
  (noted.1, ⟨.offer list, 0, UInt16.ofNat (bundleEntrySize * list.list.length)⟩)

def Ack.entry (core : BundleCore) (ribd : Dictionary) (a : Ack) : BundleTLVEntry :=
  ⟨a.cts, a.seq, ribd.find (core.getRoute a.destId), false, false, true⟩

/-- The string id, timestamp and sequence number of a bundle in an offer. -/
def bundleKey (core : BundleCore) (ribd : Dictionary) (b : Bundle) : UInt32 × UInt32 × UInt16 :=
  (creationTs b, sequenceNum b, ribd.find (core.getRoute (destinationId b)))

def AcksKept (core : BundleCore) (strategy : Strategy) (bundles : List Bundle) (acks link : List Ack)
    (ribd : Dictionary) : Prop :=
  ∀ a ∈ (TLVCreator.offer core strategy bundles acks link ribd).1, a.key ∉ link.map Ack.key →
    ∃ list, (TLVCreator.offer core strategy bundles acks link ribd).2.body = .offer list ∧
      a.entry core ribd ∈ list.list

variable {core : BundleCore} {ribd : Dictionary}

/-! ## The bundles of an offer -/

theorem mem_addBundle {strategy : Strategy} {list : List Bundle} {b c : Bundle} :
    c ∈ addBundle strategy list b ↔ c ∈ list ∨ strategy.decides b = true ∧ c = b := by
  unfold addBundle
  by_cases hb : strategy.decides b = true
  · rw [if_pos hb, List.mem_append, List.mem_cons, or_left_comm, ← List.mem_append,
      List.takeWhile_append_dropWhile]
    simp only [hb, true_and, or_comm]
  · rw [if_neg hb]
    simp only [hb, false_and, or_false, Bool.false_eq_true]

theorem mem_bundleOffer {strategy : Strategy} {bundles : List Bundle} {c : Bundle} :
    c ∈ bundleOffer strategy bundles ↔ c ∈ bundles ∧ strategy.decides c = true := by
  have hall : ∀ list, c ∈ bundles.foldl (addBundle strategy) list ↔
      c ∈ list ∨ c ∈ bundles ∧ strategy.decides c = true := by
    induction bundles with
    | nil => simp
    | cons b rest ih =>
        intro list
        rw [List.foldl_cons, ih, mem_addBundle, List.mem_cons, or_assoc]
        apply or_congr_right
        constructor
        · intro h
          cases h with
          | inl hb => exact ⟨.inl hb.2, hb.2 ▸ hb.1⟩
          | inr hrest => exact ⟨.inr hrest.1, hrest.2⟩
        · rintro ⟨hb | hrest, hdecides⟩
          · exact .inl ⟨hb ▸ hdecides, hb⟩
          · exact .inr ⟨hrest, hdecides⟩
  rw [bundleOffer, hall]
  simp

/-! ## The acks of the link -/

theorem AckList.mem_key_insert {acks : List Ack} {a : Ack} {k : Bytes × UInt32 × UInt32} :
    k ∈ (AckList.insert acks a).map Ack.key ↔ k ∈ acks.map Ack.key ∨ k = a.key := by
  unfold AckList.insert
  by_cases h : a.key ∈ acks.map Ack.key
  · rw [if_pos h]
    constructor
    · exact .inl
    · rintro (hk | rfl)
      · exact hk
      · exact h
  · rw [if_neg h]
    simp

/-- What the loop over the acks has done: the link knows the acks on top of what it knew, and those that
were new to it are to be offered. -/
structure Noted (link acks : List Ack) (s : List Ack × List Ack) : Prop where
  known : ∀ k, k ∈ s.1.map Ack.key ↔ k ∈ link.map Ack.key ∨ k ∈ acks.map Ack.key
  offered : ∀ k, k ∈ s.2.map Ack.key ↔ k ∉ link.map Ack.key ∧ k ∈ acks.map Ack.key

theorem noteAcks_noted (link acks : List Ack) : Noted link acks (acks.foldl noteAck (link, [])) := by
  induction acks using List.reverseRecOn with
  | nil => exact ⟨by simp, by simp⟩
  | append_singleton acks a ih =>
      rw [List.foldl_append, List.foldl_cons, List.foldl_nil, noteAck]
      by_cases ha : a.key ∈ (acks.foldl noteAck (link, [])).1.map Ack.key
      · rw [if_pos ha]
        constructor
        · intro k
          rw [ih.known k, List.map_append, List.mem_append, ← or_assoc]
          refine (or_iff_left_of_imp fun hk => ?_).symm
          rw [List.map_singleton, List.mem_singleton] at hk
          rw [hk]
          exact (ih.known _).1 ha
        · intro k
          rw [ih.offered k, List.map_append, List.mem_append]
          refine and_congr_right fun hnew => (or_iff_left_of_imp fun hk => ?_).symm
          rw [List.map_singleton, List.mem_singleton] at hk
          exact ((ih.known _).1 (hk ▸ ha)).resolve_left hnew
      · rw [if_neg ha]
        have hold := mt (ih.known a.key).2 ha
        rw [not_or] at hold
        constructor
        · intro k
          rw [AckList.mem_key_insert, ih.known k, List.map_append, List.mem_append, or_assoc,
            List.map_singleton, List.mem_singleton]
        · intro k
          rw [AckList.mem_key_insert, ih.offered k, List.map_append, List.mem_append,
            List.map_singleton, List.mem_singleton]
          constructor
          · rintro (hk | rfl)
            · exact ⟨hk.1, .inl hk.2⟩
            · exact ⟨hold.1, .inr rfl⟩
          · rintro ⟨hnew, hk | rfl⟩
            · exact .inl ⟨hnew, hk⟩
            · exact .inr rfl

/-! ## The entries of an offer -/

section AddOffer

variable (l : BundleOfferList) {cts seq : UInt32} {sid : UInt16} {custody ack : Bool}

theorem addOffer_of_free (htype : BundleTLVEntry.type ⟨cts, seq, sid, custody, false, ack⟩ = .offer)
    (hfree : (cts, seq, sid) ∉ l.list.map BundleTLVEntry.key) :
    (l.addOffer cts seq sid custody ack).list = l.list ++ [⟨cts, seq, sid, custody, false, ack⟩] := by
  unfold BundleEntryList.addOffer BundleEntryList.addEntry
  rw [dif_pos htype]
  exact congrArg (fun x => BundleEntryList.list (Option.getD x l)) (dif_neg hfree)

theorem addOffer_of_taken (htype : BundleTLVEntry.type ⟨cts, seq, sid, custody, false, ack⟩ = .offer)
    (htaken : (cts, seq, sid) ∈ l.list.map BundleTLVEntry.key) :
    l.addOffer cts seq sid custody ack = l := by
  unfold BundleEntryList.addOffer BundleEntryList.addEntry
  rw [dif_pos htype]
  exact congrArg (fun x => Option.getD x l) (dif_pos htaken)

theorem addOffer_keys (htype : BundleTLVEntry.type ⟨cts, seq, sid, custody, false, ack⟩ = .offer)
    (k : UInt32 × UInt32 × UInt16) :
    k ∈ (l.addOffer cts seq sid custody ack).list.map BundleTLVEntry.key ↔
      k ∈ l.list.map BundleTLVEntry.key ∨ k = (cts, seq, sid) := by
  by_cases hk : (cts, seq, sid) ∈ l.list.map BundleTLVEntry.key
  · rw [addOffer_of_taken l htype hk]
    refine (or_iff_left_of_imp fun heq => ?_).symm
    rw [heq]
    exact hk
  · rw [addOffer_of_free l htype hk, List.map_append, List.mem_append, List.map_singleton,
      List.mem_singleton]
    rfl

end AddOffer

variable (core ribd) in
theorem offerBundles_keys (bundles : List Bundle) (l : BundleOfferList)
    (k : UInt32 × UInt32 × UInt16) :
    k ∈ (bundles.foldl (offerBundle core ribd) l).list.map BundleTLVEntry.key ↔
      k ∈ l.list.map BundleTLVEntry.key ∨
        k.2.2 ≠ Dictionary.invalidSid ∧ ∃ b ∈ bundles, k = bundleKey core ribd b := by
  induction bundles generalizing l with
  | nil => simp
  | cons b rest ih =>
      have hstep : k ∈ (offerBundle core ribd l b).list.map BundleTLVEntry.key ↔
          k ∈ l.list.map BundleTLVEntry.key ∨
            k.2.2 ≠ Dictionary.invalidSid ∧ k = bundleKey core ribd b := by
        unfold offerBundle
        by_cases hsid : ribd.find (core.getRoute (destinationId b)) ≠ Dictionary.invalidSid
        · have htype : BundleTLVEntry.type ⟨creationTs b, sequenceNum b,
              ribd.find (core.getRoute (destinationId b)), b.custodyRequested, false, false⟩ = .offer := by
            cases b.custodyRequested <;> rfl
          dsimp only
          rw [if_pos hsid, addOffer_keys l htype]
          refine or_congr_right ⟨fun hk => ⟨hk ▸ hsid, hk⟩, And.right⟩
        · rw [if_neg hsid]
          refine (or_iff_left_of_imp fun hk => absurd ?_ hk.1).symm
          rw [hk.2]
          exact not_not.1 hsid
      rw [List.foldl_cons, ih, hstep, or_assoc]
      apply or_congr_right
      rw [← and_or_left]
      refine and_congr_right fun _ => ?_
      rw [List.exists_mem_cons_iff]

variable (core ribd) in
/-- An ack is in an offer exactly if its destination has a string id and the entries before the acks
leave its numbers free. -/
theorem offerAcks_mem (acks : List Ack) (l : BundleOfferList) (e : BundleTLVEntry) :
    e ∈ (acks.foldl (offerAck core ribd) l).list ↔
      e ∈ l.list ∨ e.key ∉ l.list.map BundleTLVEntry.key ∧ e.sid ≠ Dictionary.invalidSid ∧
        ∃ a ∈ acks, e = a.entry core ribd := by
  induction acks generalizing l with
  | nil => simp
  | cons a rest ih =>
      rw [List.foldl_cons, ih]
      by_cases hadded : ribd.find (core.getRoute a.destId) ≠ Dictionary.invalidSid ∧
          (a.entry core ribd).key ∉ l.list.map BundleTLVEntry.key
      · have hlist : (offerAck core ribd l a).list = l.list ++ [a.entry core ribd] := by
          unfold offerAck
          dsimp only
          rw [if_pos hadded.1]
          exact addOffer_of_free l rfl hadded.2
        rw [hlist, List.map_append, List.mem_append, List.mem_append, List.map_singleton,
          List.mem_singleton, List.mem_singleton]
        constructor
        · rintro ((hl | rfl) | ⟨hfree, hsid, b, hb, rfl⟩)
          · exact .inl hl
          · exact .inr ⟨hadded.2, hadded.1, a, List.mem_cons_self, rfl⟩
          · exact .inr ⟨fun hx => hfree (.inl hx), hsid, b, List.mem_cons_of_mem a hb, rfl⟩
        · rintro (hl | ⟨hfree, hsid, b, hb, rfl⟩)
          · exact .inl (.inl hl)
          · by_cases heq : (b.entry core ribd).key = (a.entry core ribd).key
            · refine .inl (.inr ?_)
              simp only [BundleTLVEntry.key, Ack.entry, Prod.mk.injEq] at heq
              simp only [Ack.entry, heq]
            · cases List.mem_cons.1 hb with
              | inl hba => exact absurd (hba ▸ rfl) heq
              | inr hrest =>
                  exact .inr ⟨fun hx => hx.elim hfree heq, hsid, b, hrest, rfl⟩
      · have hlist : (offerAck core ribd l a).list = l.list := by
          unfold offerAck
          dsimp only
          by_cases hsid : ribd.find (core.getRoute a.destId) ≠ Dictionary.invalidSid
          · have hkey := not_not.1 fun hfree => hadded ⟨hsid, hfree⟩
            rw [if_pos hsid]
            exact congrArg BundleEntryList.list (addOffer_of_taken l rfl hkey)
          · rw [if_neg hsid]
        rw [hlist, List.exists_mem_cons_iff]
        refine or_congr_right (and_congr_right fun hfree => and_congr_right fun hsid => ?_)
        refine (or_iff_right fun heq => hadded ?_).symm
        rw [heq] at hfree hsid
        exact ⟨hsid, hfree⟩

/-- The acks that are noted for a link are in the offer exactly if each that is new to the link has a
string id in the dictionary, and no bundle that is offered has its string id and numbers. -/
theorem acksKept_iff (core : BundleCore) (strategy : Strategy) (bundles : List Bundle)
    (acks link : List Ack) (ribd : Dictionary) :
    AcksKept core strategy bundles acks link ribd ↔
      ∀ a ∈ acks, a.key ∉ link.map Ack.key →
        ribd.find (core.getRoute a.destId) ≠ Dictionary.invalidSid ∧
          ∀ b ∈ bundles, strategy.decides b = true →
            bundleKey core ribd b ≠ (a.entry core ribd).key := by
  have hnoted := noteAcks_noted link acks
  generalize hs : acks.foldl noteAck (link, []) = s at hnoted
  have hentry : ∀ a : Ack, a.key ∈ s.2.map Ack.key →
      (a.entry core ribd ∈ (getBundleOffer core ribd (bundleOffer strategy bundles) s.2).list ↔
        ribd.find (core.getRoute a.destId) ≠ Dictionary.invalidSid ∧
          ∀ b ∈ bundles, strategy.decides b = true →
            bundleKey core ribd b ≠ (a.entry core ribd).key) := by
    intro a ha
    have hack : ∀ e ∈ ((bundleOffer strategy bundles).foldl (offerBundle core ribd) .empty).list,
        e.ack = false := offerBundles_noAck _ .empty fun e he => absurd he List.not_mem_nil
    obtain ⟨a', ha', hkey⟩ := List.mem_map.1 ha
    simp only [Ack.key, Prod.mk.injEq] at hkey
    have hsame : a.entry core ribd = a'.entry core ribd := by
      simp only [Ack.entry, hkey]
    rw [getBundleOffer, offerAcks_mem, offerBundles_keys]
    constructor
    · rintro (hbundle | ⟨hfree, hsid, -⟩)
      · exact absurd (hack _ hbundle) (by simp [Ack.entry])
      · refine ⟨hsid, fun b hb hdecides heq => hfree (.inr ⟨hsid, b, ?_, heq.symm⟩)⟩
        exact mem_bundleOffer.2 ⟨hb, hdecides⟩
    · rintro ⟨hsid, hfree⟩
      refine .inr ⟨?_, hsid, a', ha', hsame⟩
      rintro (hnil | ⟨-, b, hb, heq⟩)
      · exact absurd hnil List.not_mem_nil
      · exact hfree b (mem_bundleOffer.1 hb).1 (mem_bundleOffer.1 hb).2 heq.symm
  unfold AcksKept TLVCreator.offer
  rw [hs]
  constructor
  · intro h a ha hnew
    have hkey : a.key ∈ s.2.map Ack.key := (hnoted.offered _).2 ⟨hnew, List.mem_map_of_mem ha⟩
    obtain ⟨a', ha', heq⟩ := List.mem_map.1 ((hnoted.known a.key).2 (.inr (List.mem_map_of_mem ha)))
    obtain ⟨list, hlist, hin⟩ := h a' ha' (heq ▸ hnew)
    cases hlist
    simp only [Ack.key, Prod.mk.injEq] at heq
    have hsame : a'.entry core ribd = a.entry core ribd := by
      simp only [Ack.entry, heq]
    rw [hsame] at hin
    exact (hentry a hkey).1 hin
  · intro h a ha hnew
    have hacks := ((hnoted.known a.key).1 (List.mem_map_of_mem ha)).resolve_left hnew
    obtain ⟨a', ha', heq⟩ := List.mem_map.1 hacks
    have hcond := h a' ha' (heq ▸ hnew)
    simp only [Ack.key, Prod.mk.injEq] at heq
    have hsame : a'.entry core ribd = a.entry core ribd := by
      simp only [Ack.entry, heq]
    refine ⟨_, rfl, (hentry a ((hnoted.offered _).2 ⟨hnew, hacks⟩)).2 ?_⟩
    rw [← heq.1, ← hsame]
    exact hcond

namespace Sample

/-- The ack of a bundle to `dtn://d`. -/
def ack : Ack := ⟨ascii ['d', 't', 'n', ':', '/', '/', 'd'], 100, 1, 86400⟩

def strategy : Strategy := ⟨fun _ => true, fun _ _ => false⟩

/-- The peer has no string id for the destination yet. The ack is noted and left out, and the next offer
leaves it out as well, though by then there is a string id. -/
theorem ack_is_lost :
    ¬AcksKept .plain strategy [] [ack] [] .empty ∧
      TLVCreator.offer .plain strategy [] [ack] [] .empty = ([ack], ⟨.offer .empty, 0, 0⟩) ∧
      TLVCreator.offer .plain strategy [] [ack] [ack] sampleDictionary =
        ([ack], ⟨.offer .empty, 0, 0⟩) := by
  have hoffer : TLVCreator.offer .plain strategy [] [ack] [] .empty = ([ack], ⟨.offer .empty, 0, 0⟩) := by
    decide +kernel
  refine ⟨fun h => ?_, hoffer, by decide +kernel⟩
  unfold AcksKept at h
  rw [hoffer] at h
  obtain ⟨list, hlist, hin⟩ := h ack List.mem_cons_self List.not_mem_nil
  cases hlist
  exact absurd hin List.not_mem_nil

end Sample

end Prophet

end Dtn2
