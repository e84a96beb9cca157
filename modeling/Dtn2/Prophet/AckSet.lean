import Dtn2.Bundling.Bundle
import Dtn2.Framework.OrderedSet
import Dtn2.Prophet.Tlv

/-!
# Prophet acks

A node that learns of the delivery of a bundle keeps an ack: the route to the destination and the
lower 32 bits of the timestamp. It goes to a neighbour in an offer, as a string id and the two
numbers, and the neighbour drops a bundle that these describe. Nothing in them names the source, and
all services of a node have one route.

`AckList` is a set of acks in the order of destination, creation timestamp and sequence number. Those for
one destination stand together, and a walk from the lower bound of the destination finds them. Where
`fetch` is to count them only, its iterator is not advanced.
-/

namespace Dtn2

namespace Prophet

/-- What the router asks the bundle core about endpoint ids: `get_route` cuts the service off, and
`is_route` matches a destination with the pattern of a route. -/
structure BundleCore where
  getRoute : Bytes → Bytes
  isRoute : Bytes → Bytes → Bool
  custodyAccepted : Bool

/-- The part of a `dtn` endpoint id up to the service: six bytes of scheme, and the host. -/
def withoutService (eid : Bytes) : Bytes := eid.take 6 ++ (eid.drop 6).takeWhile (· ≠ 0x2f)

/-- The routes of endpoint ids without patterns. -/
def BundleCore.plain : BundleCore where
  getRoute := withoutService
  isRoute dest route := decide (withoutService dest = withoutService route)
  custodyAccepted := false

/-! ## Bundles as the router sees them -/

def destinationId (b : Bundle) : Bytes := b.dest.uri

def creationTs (b : Bundle) : UInt32 := b.creationTs.seconds.toUInt32

def sequenceNum (b : Bundle) : UInt32 := b.creationTs.seqno.toUInt32

/-- Two copies of one bundle: the source, the timestamp and the destination are the same. -/
def SameBundle (a b : Bundle) : Prop :=
  a.source.uri = b.source.uri ∧ a.creationTs = b.creationTs ∧ a.dest.uri = b.dest.uri

instance (a b : Bundle) : Decidable (SameBundle a b) := inferInstanceAs (Decidable (_ ∧ _))

def prophetTag : Bytes := ascii ['/', 'p', 'r', 'o', 'p', 'h', 'e', 't']

/-- `is_prophet_control`. `rfind` returns `npos` if there is no tag, and for a string of 7 bytes that
is the number it is compared with. -/
def isProphetControl (b : Bundle) : Bool :=
  prophetTag.isSuffixOf (destinationId b) || decide ((destinationId b).length = 7)

/-! ## Acks -/

structure Ack where
  destId : Bytes
  cts : UInt32
  seq : UInt32
  ets : UInt32
deriving DecidableEq, Repr

instance Ack.keyLawfulBEq : LawfulBEq (Bytes × UInt32 × UInt32) := inferInstance

def Ack.key (a : Ack) : Bytes × UInt32 × UInt32 := (a.destId, a.cts, a.seq)

namespace AckList

/-- `insert`. The order of the set is left out: it only orders the acks in an offer. -/
def insert (acks : List Ack) (a : Ack) : List Ack :=
  if a.key ∈ acks.map Ack.key then acks else acks ++ [a]

/-- `insert` of an ack that has no expiration of its own: one day, if it is zero. -/
def insertKey (acks : List Ack) (destId : Bytes) (cts seq ets : UInt32) : List Ack :=
  insert acks ⟨destId, cts, seq, if ets = 0 then 86400 else ets⟩

/-- `insert` of the ack of a bundle. -/
def insertBundle (core : BundleCore) (acks : List Ack) (b : Bundle) : List Ack :=
  insertKey acks (core.getRoute (destinationId b)) (creationTs b) (sequenceNum b)
    b.expiration.toUInt32

def isAckd (acks : List Ack) (destId : Bytes) (cts seq : UInt32) : Bool :=
  decide ((destId, cts, seq) ∈ acks.map Ack.key)

end AckList

/-! ## Offers -/

/-- `add_offer`; an offer that is refused leaves the list as it is. -/
def BundleEntryList.addOffer (l : BundleOfferList) (cts seq : UInt32) (sid : UInt16)
    (custody ack : Bool) : BundleOfferList :=
  (l.addEntry ⟨cts, seq, sid, custody, false, ack⟩).getD l

/-- One round of the loop over the bundles of `get_bundle_offer`. -/
def offerBundle (core : BundleCore) (ribd : Dictionary) (l : BundleOfferList) (b : Bundle) :
    BundleOfferList :=
  let sid := ribd.find (core.getRoute (destinationId b))
  if sid ≠ Dictionary.invalidSid then
    l.addOffer (creationTs b) (sequenceNum b) sid b.custodyRequested false
  else l

/-- One round of the loop over the acks. -/
def offerAck (core : BundleCore) (ribd : Dictionary) (l : BundleOfferList) (a : Ack) :
    BundleOfferList :=
  let sid := ribd.find (core.getRoute a.destId)
  if sid ≠ Dictionary.invalidSid then l.addOffer a.cts a.seq sid false true else l

/-- `get_bundle_offer`: the bundles that are to be offered, and behind them the acks. -/
def getBundleOffer (core : BundleCore) (ribd : Dictionary) (bundles : List Bundle) (acks : List Ack) :
    BundleOfferList :=
  acks.foldl (offerAck core ribd) (bundles.foldl (offerBundle core ribd) .empty)

/-! ## Responses -/

def Describes (core : BundleCore) (eid : Bytes) (cts seq : UInt32) (b : Bundle) : Prop :=
  creationTs b = cts ∧ sequenceNum b = seq ∧ core.isRoute (destinationId b) eid = true

instance (core : BundleCore) (eid : Bytes) (cts seq : UInt32) (b : Bundle) :
    Decidable (Describes core eid cts seq b) := inferInstanceAs (Decidable (_ ∧ _))

/-- `find` of the bundle core. -/
def findBundle (core : BundleCore) (bundles : List Bundle) (eid : Bytes) (cts seq : UInt32) :
    Option Bundle :=
  bundles.find? fun b => decide (Describes core eid cts seq b)

/-- The bundle that `get_bundle` finds for a handle of the router. -/
def findRef (bundles : List Bundle) (b : Bundle) : Option Bundle :=
  bundles.find? fun c => decide (creationTs c = creationTs b) &&
    decide (sequenceNum c = sequenceNum b) && decide (destinationId c = destinationId b)

/-- The state of `TLVCreator::response`: the bundles and acks of the node, the list of requests, and
the bundles that were dropped, each with the offer that it was dropped for. -/
structure Answer where
  bundles : List Bundle
  acks : List Ack
  list : BundleResponseList
  dropped : List (BundleTLVEntry × Bundle)

/-- `Controller::ack` for a bundle that an offer has acknowledged. -/
def ackBundle (core : BundleCore) (e : BundleTLVEntry) (b : Bundle) (s : Answer) : Answer :=
  if isProphetControl b then s
  else
    { s with
      acks := AckList.insertBundle core s.acks b
      bundles := s.bundles.erase b
      dropped := s.dropped ++ ((findRef s.bundles b).toList.map fun c => (e, c)) }

/-- One round of the loop over the offers. -/
def respondTo (core : BundleCore) (ribd : Dictionary) (e : BundleTLVEntry) (s : Answer) : Answer :=
  let eid := ribd.findId e.sid
  match findBundle core s.bundles eid e.creationTs e.seqno with
  | some b => if e.ack then ackBundle core e b s else s
  | none =>
      if e.ack then { s with acks := AckList.insertKey s.acks eid e.creationTs e.seqno 0 }
      else if AckList.isAckd s.acks eid e.creationTs e.seqno then s
      else
        { s with
          list := (s.list.addEntry ⟨e.creationTs, e.seqno, e.sid, e.custody && core.custodyAccepted,
            true, false⟩).getD s.list }

/-- `TLVCreator::response`. The repository keeps its bundles in no guaranteed order, so each round may
find them in another one. -/
inductive Responds (core : BundleCore) (ribd : Dictionary) :
    List BundleTLVEntry → Answer → Answer → Prop
  | nil (s : Answer) : Responds core ribd [] s s
  | cons {e : BundleTLVEntry} {rest : List BundleTLVEntry} {s s' : Answer} {bundles : List Bundle}
      (hperm : bundles.Perm s.bundles)
      (hrest : Responds core ribd rest (respondTo core ribd e { s with bundles := bundles }) s') :
      Responds core ribd (e :: rest) s s'

/-! ## The ack list -/

open Framework

/-- `Ack::operator<`. -/
def Ack.less (a b : Ack) : Bool :=
  if a.destId = b.destId then
    if a.cts = b.cts then decide (a.seq < b.seq) else decide (a.cts < b.cts)
  else decide (a.destId < b.destId)

/-- `AckList`, a set in this order. -/
structure AckSet where
  acks : List Ack
  sorted : OrderedSet.Sorted Ack.less acks

/-! ## The order of acks -/

theorem bytes_lt_or_gt {x y : Bytes} (h : x ≠ y) : x < y ∨ y < x := by
  by_cases hlt : x < y
  · exact Or.inl hlt
  · exact Or.inr (Std.lt_of_le_of_ne (List.not_lt.mp hlt) (Ne.symm h))

theorem Ack.less_iff {a b : Ack} : a.less b = true ↔
    a.destId < b.destId ∨ a.destId = b.destId ∧
      (a.cts < b.cts ∨ a.cts = b.cts ∧ a.seq < b.seq) := by
  rw [Ack.less]
  by_cases hdest : a.destId = b.destId
  · have hirrefl : ¬a.destId < b.destId := by
      rw [hdest]
      exact List.lt_irrefl _
    rw [if_pos hdest]
    by_cases hcts : a.cts = b.cts
    · have hnot : ¬a.cts < b.cts := by
        rw [hcts]
        exact UInt32.lt_irrefl _
      rw [if_pos hcts, decide_eq_true_iff]
      tauto
    · rw [if_neg hcts, decide_eq_true_iff]
      tauto
  · rw [if_neg hdest, decide_eq_true_iff]
    tauto

theorem Ack.same_iff {a b : Ack} : OrderedSet.Same Ack.less a b ↔ a.key = b.key := by
  rw [OrderedSet.Same, Ack.less_iff, Ack.less_iff, Ack.key, Ack.key, Prod.mk.injEq, Prod.mk.injEq]
  constructor
  · intro ⟨hab, hba⟩
    have hdest : a.destId = b.destId := by
      by_contra hne
      rcases bytes_lt_or_gt hne with hlt | hlt
      · exact hab (Or.inl hlt)
      · exact hba (Or.inl hlt)
    have hcts : a.cts = b.cts := by
      by_contra hne
      rcases UInt32.lt_or_lt_of_ne hne with hlt | hlt
      · exact hab (Or.inr ⟨hdest, Or.inl hlt⟩)
      · exact hba (Or.inr ⟨hdest.symm, Or.inl hlt⟩)
    refine ⟨hdest, hcts, ?_⟩
    by_contra hne
    rcases UInt32.lt_or_lt_of_ne hne with hlt | hlt
    · exact hab (Or.inr ⟨hdest, Or.inr ⟨hcts, hlt⟩⟩)
    · exact hba (Or.inr ⟨hdest.symm, Or.inr ⟨hcts.symm, hlt⟩⟩)
  · intro ⟨hdest, hcts, hseq⟩
    rw [hdest, hcts, hseq]
    simp

instance Ack.strictWeak : IsStrictWeakOrder Ack fun a b => a.less b = true where
  irrefl a := by
    rw [Ack.less_iff]
    simp
  trans a b c hab hbc := by
    rw [Ack.less_iff] at hab hbc ⊢
    rcases hab with hab | ⟨hab, hab'⟩
    · rcases hbc with hbc | ⟨hbc, -⟩
      · exact Or.inl (List.lt_trans hab hbc)
      · exact Or.inl (hbc ▸ hab)
    · rcases hbc with hbc | ⟨hbc, hbc'⟩
      · exact Or.inl (hab ▸ hbc)
      · refine Or.inr ⟨hab.trans hbc, ?_⟩
        rcases hab' with hab' | ⟨hab', hseq⟩
        · rcases hbc' with hbc' | ⟨hbc', -⟩
          · exact Or.inl (UInt32.lt_trans hab' hbc')
          · exact Or.inl (hbc' ▸ hab')
        · rcases hbc' with hbc' | ⟨hbc', hseq'⟩
          · exact Or.inl (hab' ▸ hbc')
          · exact Or.inr ⟨hab'.trans hbc', UInt32.lt_trans hseq hseq'⟩
  incomp_trans a b c hab hbc :=
    Ack.same_iff.mpr ((Ack.same_iff.mp hab).trans (Ack.same_iff.mp hbc))

namespace AckSet

def empty : AckSet := ⟨[], List.Pairwise.nil⟩

/-! ## Changes -/

def insert (s : AckSet) (a : Ack) : Bool × AckSet :=
  ((OrderedSet.insert Ack.less a s.acks).1,
    ⟨(OrderedSet.insert Ack.less a s.acks).2, OrderedSet.sorted_insert s.sorted⟩)

/-- `insert` of an ack that has no expiration of its own. -/
def insertKey (s : AckSet) (destId : Bytes) (cts seq ets : UInt32) : Bool × AckSet :=
  s.insert ⟨destId, cts, seq, if ets = 0 then 86400 else ets⟩

/-- `insert` of the ack of a bundle. -/
def insertBundle (core : BundleCore) (s : AckSet) (b : Bundle) : Bool × AckSet :=
  s.insertKey (core.getRoute (destinationId b)) (creationTs b) (sequenceNum b)
    b.expiration.toUInt32

/-- `now - a->cts() > a->ets()`, in the 64 bits of a `time_t`. -/
def expired (now : Int) (a : Ack) : Bool := decide ((a.ets.toNat : Int) < now - a.cts.toNat)

/-- The loop of `expire`: how many acks are erased, and those that stay. -/
def expireLoop (now : Int) : List Ack → Nat × List Ack
  | [] => (0, [])
  | a :: rest =>
      if expired now a then ((expireLoop now rest).1 + 1, (expireLoop now rest).2)
      else ((expireLoop now rest).1, a :: (expireLoop now rest).2)

theorem expireLoop_eq (now : Int) (acks : List Ack) :
    expireLoop now acks = ((acks.filter (expired now)).length,
      acks.filter fun a => !expired now a) := by
  induction acks with
  | nil => rfl
  | cons a rest ih =>
      rw [expireLoop, ih]
      by_cases h : expired now a = true
      · simp [h]
      · simp [h]

def expire (s : AckSet) (now : Int) : Nat × AckSet :=
  ((expireLoop now s.acks).1, ⟨(expireLoop now s.acks).2, by
    rw [expireLoop_eq]
    exact s.sorted.sublist List.filter_sublist⟩)

/-! ## Queries -/

/-- The key that `fetch` and `is_ackd` look for. -/
def searchKey (destId : Bytes) : Ack := ⟨destId, 0, 0, 0⟩

def start (s : AckSet) (destId : Bytes) : List Ack :=
  OrderedSet.lowerBound Ack.less (searchKey destId) s.acks

/-- The variables of the loop of `fetch`: the acks from the iterator on, the count and the result list. -/
structure Walk where
  i : List Ack
  num : Nat
  list : Option (List Ack)
deriving DecidableEq, Repr

/-- The loop of `fetch`, for as many rounds as there is fuel. The iterator is advanced where an ack is
copied. -/
def fetchLoop (destId : Bytes) : Nat → Walk → Option Walk
  | 0, _ => none
  | fuel + 1, w =>
      match w.i with
      | [] => some w
      | a :: rest =>
          if a.destId = destId then
            match w.list with
            | some list => fetchLoop destId fuel ⟨rest, w.num + 1, some (list ++ [a])⟩
            | none => fetchLoop destId fuel ⟨w.i, w.num + 1, none⟩
          else some w

/-- `fetch` with a result list, which is cleared, or without one. -/
def fetch (s : AckSet) (destId : Bytes) (list : Option (List Ack)) (fuel : Nat) :
    Option (Nat × Option (List Ack)) :=
  (fetchLoop destId fuel ⟨s.start destId, 0, list.map fun _ => []⟩).map fun w => (w.num, w.list)

def isAckdLoop (destId : Bytes) (cts seq : UInt32) : List Ack → Bool
  | [] => false
  | a :: rest =>
      if a.destId ≠ destId then false
      else if a.cts = cts ∧ a.seq = seq then true
      else isAckdLoop destId cts seq rest

def isAckd (s : AckSet) (destId : Bytes) (cts seq : UInt32) : Bool :=
  isAckdLoop destId cts seq (s.start destId)

/-- `clone` into a list, which is cleared: the count and the list. -/
def clone (s : AckSet) (_list : List Ack) : Nat × List Ack :=
  s.acks.foldl (fun r a => (r.1 + 1, r.2 ++ [a])) (0, [])

/-! ## What the walks find -/

def isFor (destId : Bytes) (a : Ack) : Bool := decide (a.destId = destId)

theorem isFor_iff {destId : Bytes} {a : Ack} : isFor destId a = true ↔ a.destId = destId :=
  decide_eq_true_iff

def forDest (s : AckSet) (destId : Bytes) : List Ack := s.acks.filter (isFor destId)

theorem contiguous_dest (destId : Bytes) :
    OrderedSet.Contiguous Ack.less (searchKey destId) (isFor destId) := by
  constructor
  · intro a ha hless
    rw [Ack.less_iff, searchKey] at hless
    rw [isFor_iff] at ha
    rcases hless with hlt | ⟨-, hlt | ⟨-, hlt⟩⟩
    · exact List.lt_irrefl _ (ha ▸ hlt)
    · exact absurd hlt (UInt32.not_lt_zero)
    · exact absurd hlt (UInt32.not_lt_zero)
  · intro a b hbound hless hb
    rw [isFor_iff] at hb ⊢
    rw [Ack.less_iff, hb] at hless
    rw [Ack.less_iff, searchKey] at hbound
    rcases hless with hlt | heq
    · exact absurd (Or.inl hlt) hbound
    · exact heq.1

theorem takeWhile_start (s : AckSet) (destId : Bytes) :
    (s.start destId).takeWhile (isFor destId) = s.forDest destId :=
  OrderedSet.takeWhile_lowerBound (contiguous_dest destId) s.sorted

theorem fetchLoop_some (destId : Bytes) (acks list : List Ack) (num fuel : Nat)
    (hfuel : acks.length < fuel) :
    ∃ i, fetchLoop destId fuel ⟨acks, num, some list⟩ =
      some ⟨i, num + (acks.takeWhile (isFor destId)).length,
        some (list ++ acks.takeWhile (isFor destId))⟩ := by
  induction acks generalizing list num fuel with
  | nil =>
      obtain ⟨fuel, rfl⟩ := Nat.exists_eq_add_one_of_ne_zero (Nat.ne_of_gt hfuel)
      refine ⟨[], ?_⟩
      simp [fetchLoop]
  | cons a rest ih =>
      obtain ⟨fuel, rfl⟩ := Nat.exists_eq_add_one_of_ne_zero (Nat.ne_of_gt (Nat.zero_lt_of_lt hfuel))
      rw [List.length_cons] at hfuel
      rw [fetchLoop]
      dsimp only
      by_cases ha : a.destId = destId
      · rw [if_pos ha]
        obtain ⟨i, hi⟩ := ih (list ++ [a]) (num + 1) fuel (by omega)
        refine ⟨i, ?_⟩
        rw [hi, List.takeWhile_cons_of_pos (isFor_iff.mpr ha), List.length_cons,
          List.append_assoc, List.singleton_append, Nat.add_assoc, Nat.add_comm 1]
      · rw [if_neg ha]
        refine ⟨a :: rest, ?_⟩
        rw [List.takeWhile_cons_of_neg (mt isFor_iff.mp ha)]
        simp

/-- Without a result list the walk never leaves an ack for the destination. -/
theorem fetchLoop_none {destId : Bytes} {a : Ack} (ha : a.destId = destId) (rest : List Ack) (num : Nat)
    (fuel : Nat) : fetchLoop destId fuel ⟨a :: rest, num, none⟩ = none := by
  induction fuel generalizing num with
  | zero => rfl
  | succ fuel ih =>
      rw [fetchLoop]
      dsimp only
      rw [if_pos ha]
      exact ih (num + 1)

theorem fetch_supplied (s : AckSet) (destId : Bytes) (list : List Ack) :
    ∃ fuel, s.fetch destId (some list) fuel =
      some ((s.forDest destId).length, some (s.forDest destId)) := by
  refine ⟨(s.start destId).length + 1, ?_⟩
  obtain ⟨i, hi⟩ := fetchLoop_some destId (s.start destId) [] 0 _ (Nat.lt_succ_self _)
  rw [fetch, Option.map_some, hi, takeWhile_start, Nat.zero_add, List.nil_append]
  rfl

theorem fetch_count (s : AckSet) (destId : Bytes) :
    (∃ fuel, s.fetch destId none fuel = some ((s.forDest destId).length, none)) ↔
      s.forDest destId = [] := by
  have htake := takeWhile_start s destId
  cases hstart : s.start destId with
  | nil =>
      rw [hstart] at htake
      refine ⟨fun _ => htake.symm, fun _ => ⟨1, ?_⟩⟩
      rw [fetch, hstart, ← htake]
      rfl
  | cons a rest =>
      rw [hstart] at htake
      by_cases ha : a.destId = destId
      · rw [List.takeWhile_cons_of_pos (isFor_iff.mpr ha)] at htake
        rw [← htake]
        refine ⟨fun ⟨fuel, hr⟩ => ?_, fun hnil => absurd hnil (List.cons_ne_nil _ _)⟩
        rw [fetch, Option.map_none, hstart, fetchLoop_none ha] at hr
        cases hr
      · rw [List.takeWhile_cons_of_neg (mt isFor_iff.mp ha)] at htake
        refine ⟨fun _ => htake.symm, fun _ => ⟨1, ?_⟩⟩
        rw [fetch, hstart, Option.map_none, fetchLoop, ← htake]
        dsimp only
        rw [if_neg ha]
        rfl

theorem isAckdLoop_iff (destId : Bytes) (cts seq : UInt32) (acks : List Ack) :
    isAckdLoop destId cts seq acks = true ↔
      ∃ a ∈ acks.takeWhile (isFor destId), a.cts = cts ∧ a.seq = seq := by
  induction acks with
  | nil => simp [isAckdLoop]
  | cons a rest ih =>
      rw [isAckdLoop]
      by_cases ha : a.destId = destId
      · rw [if_neg (not_not.mpr ha), List.takeWhile_cons_of_pos (isFor_iff.mpr ha)]
        by_cases hkey : a.cts = cts ∧ a.seq = seq
        · rw [if_pos hkey]
          exact ⟨fun _ => ⟨a, List.mem_cons_self, hkey⟩, fun _ => rfl⟩
        · rw [if_neg hkey, ih]
          simp [hkey]
      · rw [if_pos ha, List.takeWhile_cons_of_neg (mt isFor_iff.mp ha)]
        simp

theorem isAckd_iff (s : AckSet) (destId : Bytes) (cts seq : UInt32) :
    s.isAckd destId cts seq = true ↔ ∃ a ∈ s.acks, a.key = (destId, cts, seq) := by
  rw [isAckd, isAckdLoop_iff, takeWhile_start, forDest]
  constructor
  · intro ⟨a, ha, hcts, hseq⟩
    rw [List.mem_filter, isFor_iff] at ha
    exact ⟨a, ha.1, by rw [Ack.key, ha.2, hcts, hseq]⟩
  · intro ⟨a, ha, hkey⟩
    rw [Ack.key, Prod.mk.injEq, Prod.mk.injEq] at hkey
    exact ⟨a, List.mem_filter.mpr ⟨ha, isFor_iff.mpr hkey.1⟩, hkey.2⟩

theorem insert_fst (s : AckSet) (a : Ack) :
    (s.insert a).1 = true ↔ ∀ b ∈ s.acks, b.key ≠ a.key := by
  rw [insert, OrderedSet.insert_fst s.sorted]
  refine forall₂_congr fun b _ => ?_
  rw [Ack.same_iff]
  exact ⟨fun hne heq => hne heq.symm, fun hne heq => hne heq.symm⟩

theorem clone_eq (s : AckSet) (list : List Ack) : s.clone list = (s.acks.length, s.acks) := by
  have hfold : ∀ (acks : List Ack) (r : Nat × List Ack),
      acks.foldl (fun r a => (r.1 + 1, r.2 ++ [a])) r = (r.1 + acks.length, r.2 ++ acks) := by
    intro acks
    induction acks with
    | nil => simp
    | cons a rest ih =>
        intro r
        rw [List.foldl_cons, ih, List.length_cons, List.append_assoc, List.singleton_append,
          Nat.add_assoc, Nat.add_comm 1]
  rw [clone, hfold, Nat.zero_add, List.nil_append]

/-! ## Sequences of calls -/

inductive Call where
  | insert (a : Ack)
  | insertKey (destId : Bytes) (cts seq ets : UInt32)
  | insertBundle (core : BundleCore) (b : Bundle)
  | fetch (destId : Bytes) (list : Option (List Ack))
  | isAckd (destId : Bytes) (cts seq : UInt32)
  | clone (list : List Ack)
  | expire (now : Int)

def step (s : AckSet) : Call → AckSet
  | .insert a => (s.insert a).2
  | .insertKey destId cts seq ets => (s.insertKey destId cts seq ets).2
  | .insertBundle core b => (s.insertBundle core b).2
  | .fetch _ _ | .isAckd _ _ _ | .clone _ => s
  | .expire now => (s.expire now).2

/-- An insertion says whether there was no ack with the key, and adds the ack in that case. -/
def Inserts (s : AckSet) (a : Ack) (r : Bool × AckSet) : Prop :=
  (r.1 = true ↔ ∀ b ∈ s.acks, b.key ≠ a.key) ∧
    r.2.acks.Perm (if r.1 then a :: s.acks else s.acks)

def Right (s : AckSet) : Call → Prop
  | .insert a => s.Inserts a (s.insert a)
  | .insertKey destId cts seq ets =>
      s.Inserts ⟨destId, cts, seq, if ets = 0 then 86400 else ets⟩ (s.insertKey destId cts seq ets)
  | .insertBundle core b => ∃ ets,
      s.Inserts ⟨core.getRoute (destinationId b), creationTs b, sequenceNum b, ets⟩
        (s.insertBundle core b)
  | .fetch destId list => ∃ fuel, s.fetch destId list fuel =
      some ((s.forDest destId).length, list.map fun _ => s.forDest destId)
  | .isAckd destId cts seq =>
      s.isAckd destId cts seq = true ↔ ∃ a ∈ s.acks, a.key = (destId, cts, seq)
  | .clone list => s.clone list = (s.acks.length, s.acks)
  | .expire now =>
      (∀ a, a ∈ (s.expire now).2.acks ↔ a ∈ s.acks ∧ ¬(a.ets.toNat : Int) < now - a.cts.toNat) ∧
        (s.expire now).1 + (s.expire now).2.acks.length = s.acks.length

/-- The condition of a call: `fetch` has a result list, or nothing to find. -/
def Meets (s : AckSet) : Call → Prop
  | .fetch destId none => ∀ a ∈ s.acks, a.destId ≠ destId
  | _ => True

def RunRight : List Call → AckSet → Prop
  | [], _ => True
  | c :: calls, s => s.Right c ∧ RunRight calls (s.step c)

def RunMeets : List Call → AckSet → Prop
  | [], _ => True
  | c :: calls, s => s.Meets c ∧ RunMeets calls (s.step c)

theorem insert_right (s : AckSet) (a : Ack) : s.Inserts a (s.insert a) := by
  refine ⟨s.insert_fst a, ?_⟩
  cases hfst : (s.insert a).1 with
  | true => exact OrderedSet.insert_perm hfst
  | false =>
      show (OrderedSet.insert Ack.less a s.acks).2.Perm s.acks
      rw [OrderedSet.insert_eq hfst]

theorem expire_right (s : AckSet) (now : Int) : s.Right (.expire now) := by
  refine ⟨fun a => ?_, ?_⟩
  · show a ∈ (expireLoop now s.acks).2 ↔ _
    rw [expireLoop_eq, List.mem_filter, expired, Bool.not_eq_true', decide_eq_false_iff_not]
  · show (expireLoop now s.acks).1 + (expireLoop now s.acks).2.length = _
    rw [expireLoop_eq]
    exact (List.length_eq_length_filter_add (expired now)).symm

theorem forDest_eq_nil (s : AckSet) (destId : Bytes) :
    s.forDest destId = [] ↔ ∀ a ∈ s.acks, a.destId ≠ destId := by
  rw [forDest, List.filter_eq_nil_iff]
  exact forall₂_congr fun a _ => not_congr isFor_iff

theorem call_right_iff (s : AckSet) (c : Call) : s.Right c ↔ s.Meets c := by
  cases c with
  | insert a => exact iff_of_true (s.insert_right a) trivial
  | insertKey destId cts seq ets => exact iff_of_true (s.insert_right _) trivial
  | insertBundle core b => exact iff_of_true ⟨_, s.insert_right _⟩ trivial
  | fetch destId list =>
      cases list with
      | some list => exact iff_of_true (s.fetch_supplied destId list) trivial
      | none =>
          rw [Meets, ← forDest_eq_nil, ← fetch_count]
          exact Iff.rfl
  | isAckd destId cts seq => exact iff_of_true (s.isAckd_iff destId cts seq) trivial
  | clone list => exact iff_of_true (s.clone_eq list) trivial
  | expire now => exact iff_of_true (s.expire_right now) trivial

/-- A sequence of calls on any list is right exactly if every `fetch` without a result list is for a
destination without acks: it does not come to an end where there is something to count. -/
theorem run_right_iff (s : AckSet) (calls : List Call) : RunRight calls s ↔ RunMeets calls s := by
  induction calls generalizing s with
  | nil => exact Iff.rfl
  | cons c calls ih => rw [RunRight, RunMeets, call_right_iff, ih]

/-- One ack that is to be counted. -/
theorem run_not_right :
    ¬RunRight [.insert ⟨[0x61], 1, 2, 3⟩, .fetch [0x61] none] empty := by
  intro ⟨_, ⟨fuel, hfuel⟩, _⟩
  have hstart : (empty.step (.insert ⟨[0x61], 1, 2, 3⟩)).start [0x61] = [⟨[0x61], 1, 2, 3⟩] := by
    decide
  have hdest : (⟨[0x61], 1, 2, 3⟩ : Ack).destId = [0x61] := rfl
  rw [fetch, Option.map_none, hstart, fetchLoop_none hdest] at hfuel
  cases hfuel

end AckSet

end Prophet

end Dtn2
