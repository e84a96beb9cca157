import Dtn2.Prophet.Encounter

/-!
# The controller

`Controller` gives bundles to the encounter of their link. Those that are addressed to a Prophet agent
are messages: they are parsed and dropped. They are told by the place of the last "/prophet" in the
destination, and where there is none this place is the number that the length of a destination of seven
bytes leads to.
-/

namespace Dtn2

namespace Prophet

/-! ## Control traffic -/

def npos : UInt64 := 0xffffffffffffffff

/-- The last place, up to a given one, where the tag stands. -/
def rfindFrom (tag str : Bytes) : Nat → Option Nat
  | 0 => if tag.isPrefixOf str then some 0 else none
  | i + 1 => if tag.isPrefixOf (str.drop (i + 1)) then some (i + 1) else rfindFrom tag str i

def rfind (str tag : Bytes) : UInt64 :=
  match rfindFrom tag str str.length with
  | some i => i.toUInt64
  | none => npos

theorem rfindFrom_eq_some {tag str : Bytes} {n i : Nat} (h : rfindFrom tag str n = some i) :
    tag <+: str.drop i ∧ ∀ j ≤ n, tag <+: str.drop j → j ≤ i := by
  induction n with
  | zero =>
      rw [rfindFrom] at h
      split at h
      next hfront =>
        cases h
        refine ⟨?_, fun j hj _ => hj⟩
        exact List.isPrefixOf_iff_prefix.mp hfront
      next => cases h
  | succ n ih =>
      rw [rfindFrom] at h
      split at h
      next hfront =>
        cases h
        refine ⟨?_, fun j hj _ => hj⟩
        exact List.isPrefixOf_iff_prefix.mp hfront
      next hfront =>
        have hrest := ih h
        refine ⟨hrest.1, fun j hj hjtag => ?_⟩
        by_cases hlast : j = n + 1
        · rw [hlast, ← List.isPrefixOf_iff_prefix] at hjtag
          exact absurd hjtag hfront
        · exact hrest.2 j (by omega) hjtag

theorem rfindFrom_eq_none {tag str : Bytes} {n : Nat} (h : rfindFrom tag str n = none) {j : Nat}
    (hj : j ≤ n) : ¬tag <+: str.drop j := by
  induction n with
  | zero =>
      rw [rfindFrom] at h
      split at h
      next => cases h
      next hfront =>
        rw [Nat.le_zero.mp hj, List.drop_zero, ← List.isPrefixOf_iff_prefix]
        exact hfront
  | succ n ih =>
      rw [rfindFrom] at h
      split at h
      next => cases h
      next hfront =>
        by_cases hlast : j = n + 1
        · rw [hlast, ← List.isPrefixOf_iff_prefix]
          exact hfront
        · exact ih h (by omega)

theorem begins_drop_iff_suffix {tag str : Bytes} (h : tag.length ≤ str.length) :
    tag <+: str.drop (str.length - tag.length) ↔ tag <:+ str := by
  constructor
  · intro hfront
    have hlen : (str.drop (str.length - tag.length)).length = tag.length := by
      rw [List.length_drop]
      omega
    rw [hfront.eq_of_length hlen.symm]
    exact List.drop_suffix _ _
  · intro hsuffix
    exact (List.suffix_iff_eq_drop.mp hsuffix) ▸ List.prefix_rfl

theorem isProphetControl_iff_rfind (b : Bundle) (h : (destinationId b).length < 2 ^ 64) :
    isProphetControl b = true ↔
      rfind (destinationId b) prophetTag = (destinationId b).length.toUInt64 - 8 := by
  have htag : prophetTag.length = 8 := rfl
  rw [isProphetControl, Bool.or_eq_true, decide_eq_true_iff, List.isSuffixOf_iff_suffix, rfind,
    ← UInt64.toNat_inj, UInt64.toNat_sub, Nat.toUInt64, UInt64.toNat_ofNat', Nat.mod_eq_of_lt h]
  generalize destinationId b = str at h ⊢
  have height : (8 : UInt64).toNat = 8 := rfl
  rw [height]
  cases hfind : rfindFrom prophetTag str str.length with
  | none =>
      have hnot : ¬prophetTag <:+ str := fun hsuffix =>
        rfindFrom_eq_none hfind (Nat.sub_le str.length prophetTag.length)
          ((begins_drop_iff_suffix hsuffix.length_le).mpr hsuffix)
      have hnpos : npos.toNat = 2 ^ 64 - 1 := rfl
      show prophetTag <:+ str ∨ _ ↔ npos.toNat = _
      rw [or_iff_right hnot, hnpos]
      omega
  | some i =>
      obtain ⟨hfront, hlast⟩ := rfindFrom_eq_some hfind
      have hle : 8 ≤ str.length - i := by
        rw [← htag, ← List.length_drop]
        exact hfront.length_le
      show prophetTag <:+ str ∨ _ ↔ i.toUInt64.toNat = _
      rw [Nat.toUInt64, UInt64.toNat_ofNat', Nat.mod_eq_of_lt (by omega : i < 2 ^ 64),
        ← begins_drop_iff_suffix (by omega)]
      constructor
      · intro hcase
        rcases hcase with hsuffix | hseven
        · have := hlast _ (Nat.sub_le _ _) hsuffix
          omega
        · omega
      · intro heq
        have hi : i = str.length - prophetTag.length := by omega
        rw [← hi]
        exact Or.inl hfront

/-! ## The controller -/

/-- An encounter with the link to its next hop. -/
structure Peering where
  nexthop : Nat
  encounter : Encounter

/-- What the controller and its encounters find in the host when they handle a bundle. -/
structure Host where
  core : BundleCore
  handling : Nat → Env
  readBundle : Bundle → Option Bytes
  fuel : Nat

inductive Call where
  | readBundle (b : Bundle)
  | deserialize (b : Bundle) (buf : Bytes)
  | receiveTlv (m : Message)
  | bundleReceived (b : Bundle)
  | updateStats (b : Bundle) (link : Nat)
  | changePriority (b : Bundle)
  | insertAck (b : Bundle)
  | dropStats (b : Bundle)
  | dropBundle (b : Bundle)
deriving DecidableEq

/-- `Controller`: the encounters, and the acks. -/
structure Controller where
  list : List Peering
  acks : AckSet

/-- The calls of a handler, and what it leaves. -/
structure Outcome where
  calls : List Call
  controller : Exec Controller

namespace Controller

/-- `find`: the first encounter of a link, with those in front of it and behind it. -/
def find (link : Nat) : List Peering → Option (List Peering × Peering × List Peering)
  | [] => none
  | p :: rest =>
      if p.nexthop = link then some ([], p, rest)
      else (find link rest).map fun r => (p :: r.1, r.2)

/-- A message for an encounter. It is dropped where it cannot be read or parsed, and when the encounter
has taken it. -/
def handleControl (host : Host) (b : Bundle) (before : List Peering) (p : Peering)
    (after : List Peering) (c : Controller) : Outcome :=
  match host.readBundle b with
  | none => ⟨[.readBundle b, .dropBundle b], .ok c⟩
  | some buf =>
      match ProphetTLV.deserialize host.fuel b.source.uri (destinationId b) buf with
      | .error stop => ⟨[.readBundle b, .deserialize b buf], .error stop⟩
      | .ok none => ⟨[.readBundle b, .deserialize b buf, .dropBundle b], .ok c⟩
      | .ok (some m) =>
          let e := (p.encounter.receiveTlv host.handling m).1
          ⟨[.readBundle b, .deserialize b buf, .receiveTlv m, .dropBundle b],
            .ok { c with
              list := if e.gone then before ++ after else before ++ ⟨p.nexthop, e⟩ :: after }⟩

def handleBundleReceived (host : Host) (b : Bundle) (link : Option Nat) (c : Controller) : Outcome :=
  match link with
  | none => ⟨[], .ok c⟩
  | some link =>
      match find link c.list with
      | none => ⟨[], .ok c⟩
      | some (before, p, after) =>
          if p.encounter.gone then ⟨[], .ok { c with list := before ++ after }⟩
          else if isProphetControl b then c.handleControl host b before p after
          else
            ⟨[.bundleReceived b], .ok { c with
              list := before ++
                ⟨p.nexthop, p.encounter.handleBundleReceived (host.handling 0) b⟩ :: after }⟩

/-- `handle_bundle_transmitted`: the statistics are updated with the value of the node at the other end
of the link. -/
def handleBundleTransmitted (b : Bundle) (link : Option Nat) : List Call :=
  match link with
  | none => []
  | some link =>
      if isProphetControl b then [.dropBundle b] else [.updateStats b link, .changePriority b]

def ack (host : Host) (b : Bundle) (c : Controller) : Outcome :=
  if isProphetControl b then ⟨[], .ok c⟩
  else
    ⟨[.insertAck b, .dropStats b, .dropBundle b],
      .ok { c with acks := (c.acks.insertBundle host.core b).2 }⟩

/-! ## Data that is taken for control traffic -/

inductive Notice where
  | received (b : Bundle) (link : Option Nat)
  | transmitted (b : Bundle) (link : Option Nat)
  | ack (b : Bundle)

def Notice.bundle : Notice → Bundle
  | .received b _ | .transmitted b _ | .ack b => b

/-- The bundle was dropped, or parsed as a message. -/
def Consumed (b : Bundle) (calls : List Call) : Prop :=
  .dropBundle b ∈ calls ∨ ∃ buf, .deserialize b buf ∈ calls

def Spared (host : Host) (c : Controller) : Notice → Prop
  | .received b link => ¬Consumed b (c.handleBundleReceived host b link).calls
  | .transmitted b link => ¬Consumed b (handleBundleTransmitted b link)
  | .ack b => .insertAck b ∈ (c.ack host b).calls ∧
      (c.ack host b).controller = .ok { c with acks := (c.acks.insertBundle host.core b).2 }

/-- A bundle is a data bundle if its destination does not end with the tag. -/
def Right (host : Host) (c : Controller) (n : Notice) : Prop :=
  ¬prophetTag <:+ destinationId n.bundle → c.Spared host n

def Meeting (c : Controller) (link : Option Nat) : Prop :=
  ∃ l, link = some l ∧ ∃ s, find l c.list = some s ∧ s.2.1.encounter.gone = false

/-- The destination has not seven bytes, or nothing is done for the bundle. -/
def Meets (c : Controller) : Notice → Prop
  | .received b link => (destinationId b).length = 7 → ¬c.Meeting link
  | .transmitted b link => (destinationId b).length = 7 → link = none
  | .ack b => (destinationId b).length ≠ 7

theorem isProphetControl_iff {b : Bundle} (h : ¬prophetTag <:+ destinationId b) :
    isProphetControl b = true ↔ (destinationId b).length = 7 := by
  rw [isProphetControl, Bool.or_eq_true, decide_eq_true_iff, List.isSuffixOf_iff_suffix,
    or_iff_right h]

theorem not_suffix_of_seven {b : Bundle} (h : (destinationId b).length = 7) :
    ¬prophetTag <:+ destinationId b := by
  intro hsuffix
  have hlen := hsuffix.length_le
  rw [h] at hlen
  exact absurd hlen (by decide)

theorem handleControl_consumes (host : Host) (b : Bundle) (before : List Peering) (p : Peering)
    (after : List Peering) (c : Controller) :
    Consumed b (c.handleControl host b before p after).calls := by
  rw [handleControl]
  cases host.readBundle b with
  | none => simp [Consumed]
  | some buf =>
      dsimp only
      cases ProphetTLV.deserialize host.fuel b.source.uri (destinationId b) buf with
      | error stop => simp [Consumed]
      | ok m =>
          cases m with
          | none => simp [Consumed]
          | some m => simp [Consumed]

theorem received_consumes (host : Host) (b : Bundle) (link : Option Nat) (c : Controller) :
    Consumed b (c.handleBundleReceived host b link).calls ↔
      c.Meeting link ∧ isProphetControl b = true := by
  cases link with
  | none => simp [handleBundleReceived, Consumed, Meeting]
  | some link =>
      have hmeeting : c.Meeting (some link) ↔
          ∃ s, find link c.list = some s ∧ s.2.1.encounter.gone = false := by
        simp [Meeting]
      rw [handleBundleReceived, hmeeting]
      cases hfind : find link c.list with
      | none => simp [Consumed]
      | some s =>
          have hsome : (∃ s', some s = some s' ∧ s'.2.1.encounter.gone = false) ↔
              s.2.1.encounter.gone = false := by
            simp
          rw [hsome]
          dsimp only
          by_cases hgone : s.2.1.encounter.gone = true
          · rw [if_pos hgone]
            simp [Consumed, hgone]
          · rw [if_neg hgone]
            by_cases hcontrol : isProphetControl b = true
            · rw [if_pos hcontrol]
              have hconsumed := c.handleControl_consumes host b s.1 s.2.1 s.2.2
              exact iff_of_true hconsumed ⟨Bool.eq_false_iff.mpr hgone, hcontrol⟩
            · rw [if_neg hcontrol]
              simp [Consumed, hcontrol]

theorem transmitted_consumes (b : Bundle) (link : Option Nat) :
    Consumed b (handleBundleTransmitted b link) ↔ link ≠ none ∧ isProphetControl b = true := by
  cases link with
  | none => simp [handleBundleTransmitted, Consumed]
  | some link =>
      rw [handleBundleTransmitted]
      by_cases hcontrol : isProphetControl b = true
      · rw [if_pos hcontrol]
        simp [Consumed, hcontrol]
      · rw [if_neg hcontrol]
        simp [Consumed, hcontrol]

theorem ack_spared (host : Host) (c : Controller) (b : Bundle) :
    c.Spared host (.ack b) ↔ ¬isProphetControl b = true := by
  rw [Spared, ack]
  by_cases hcontrol : isProphetControl b = true
  · rw [if_pos hcontrol]
    simp [hcontrol]
  · rw [if_neg hcontrol]
    simp [hcontrol]

/-- A data bundle is handled as one exactly if its destination has not seven bytes, save where the
controller does nothing for any bundle. -/
theorem right_iff (host : Host) (c : Controller) (n : Notice) : c.Right host n ↔ c.Meets n := by
  rw [Right]
  by_cases hsuffix : prophetTag <:+ destinationId n.bundle
  · have hseven : ¬(destinationId n.bundle).length = 7 := fun h => not_suffix_of_seven h hsuffix
    refine iff_of_true (fun hnot => absurd hsuffix hnot) ?_
    cases n with
    | received b link => exact fun h => absurd h hseven
    | transmitted b link => exact fun h => absurd h hseven
    | ack b => exact hseven
  · rw [forall_prop_of_true hsuffix]
    cases n with
    | received b link =>
        have hcontrol : isProphetControl b = true ↔ _ := isProphetControl_iff hsuffix
        rw [Spared, received_consumes, Meets, ← hcontrol, not_and']
    | transmitted b link =>
        have hcontrol : isProphetControl b = true ↔ _ := isProphetControl_iff hsuffix
        rw [Spared, transmitted_consumes, Meets, ← hcontrol, not_and', not_not]
    | ack b =>
        rw [ack_spared, Meets]
        exact not_congr (isProphetControl_iff hsuffix)

def Host.sample : Host := ⟨.plain, fun _ => .plain, fun _ => none, 0⟩

/-- A bundle for a short `ipn` endpoint. -/
def sampleData : Bundle :=
  { Bundle.new 1 100 with dest := ⟨ascii ['i', 'p', 'n', ':', '1', '.', '0'], true⟩ }

/-- It is dropped once it is transmitted. -/
theorem transmitted_not_right :
    ¬Controller.Right Host.sample ⟨[], .empty⟩ (.transmitted sampleData (some 0)) := by
  intro hright
  have htag : ¬prophetTag <:+ destinationId sampleData := by decide
  have hspared := hright htag
  rw [Spared, Consumed] at hspared
  exact hspared (Or.inl (by decide))

end Controller

end Prophet

end Dtn2
