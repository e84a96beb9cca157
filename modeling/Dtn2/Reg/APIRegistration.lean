import Dtn2.Bundling.BundleListLive

/-!
# API registrations

A registration keeps the bundles for an application on three lists: those to be delivered, those
that the application has yet to acknowledge, and those that are done with. Most operations write the
registration to the store at their end. The deletion of a bundle returns as soon as it has found the
bundle.
-/

namespace Dtn2

namespace APIRegistration

open BundleList (World)

/-- `failure_action_t`. -/
inductive FailureAction where
  | drop
  | defer
  | exec
deriving DecidableEq, Repr

/-- `replay_action_t`. -/
inductive ReplayAction where
  | new
  | none
  | all
deriving DecidableEq, Repr

/-- The settings of a registration, and `test_permuted_delivery_`. -/
structure Settings where
  failureAction : FailureAction
  replayAction : ReplayAction
  deliveryAcking : Bool
  testPermutedDelivery : Bool
deriving DecidableEq, Repr

variable {L B K : Type} [DecidableEq L] [DecidableEq B] [DecidableEq K]

/-- The lists of a registration among all lists, one of which is the list of all bundles. -/
structure Lists (L : Type) where
  bundleList : L
  unackedBundleList : L
  ackedBundleList : L
  allBundles : L
  distinct : [bundleList, unackedBundleList, ackedBundleList, allBundles].Nodup

def Lists.own (r : Lists L) : List L := [r.bundleList, r.unackedBundleList, r.ackedBundleList]

/-- A registration: whether the application is connected, the bundle lists of the node, the lists in
the store, and the bundles reported as delivered. -/
structure State (L B : Type) where
  active : Bool
  world : World L B
  stored : List (List B)
  delivered : List B

namespace State

def held (r : Lists L) (s : State L B) : List (List B) := r.own.map s.world.bundles

def update (r : Lists L) (s : State L B) : State L B := { s with stored := s.held r }

/-- The change of the lists, followed by `update`. -/
def updateWith (r : Lists L) (s : State L B) (w : World L B) : State L B :=
  { s with world := w }.update r

end State

variable (r : Lists L) (settings : Settings) (key : B → K)

/-- The list that `deliver_bundle` queues to. -/
def queue (s : State L B) : L :=
  if s.active ∨ settings.replayAction = .new then r.bundleList else r.ackedBundleList

/-- `deliver_bundle`, for the number that `random` gives. The script of a passive registration is
run, and the bundle is queued as well. -/
def deliverBundle (random : Nat) (s : State L B) (b : B) : Option (State L B) :=
  if s.active = false ∧ settings.failureAction = .drop then do
    let w ← s.world.takeRef r.allBundles b
    pure { s with world := w, delivered := s.delivered ++ [b] }
  else do
    let w ←
      if (s.active ∨ settings.replayAction = .new) ∧ settings.testPermutedDelivery then
        s.world.insertRandom r.allBundles random (queue r settings s) b
      else s.world.pushBack r.allBundles (queue r settings s) b
    pure (s.updateWith r w)

/-- `delete_bundle`: where the bundle is found, it is erased, and nothing is written. -/
def deleteBundle (s : State L B) (b : B) : Option (State L B) :=
  match r.own.find? fun l => s.world.isQueuedOn l b with
  | some l => do
      let w ← s.world.erase l b
      pure { s with world := w }
  | none => pure (s.update r)

/-- A list that is not empty goes to the end of `bundle_list_`. -/
def replay (l : L) (s : State L B) : Option (State L B) :=
  if s.world.nodes l = [] then pure s
  else do
    let w ← s.world.moveContents r.allBundles l r.bundleList
    pure (s.updateWith r w)

def setActiveCallback (a : Bool) (s : State L B) : Option (State L B) :=
  if a = false then pure s
  else do
    let s ← replay r r.unackedBundleList s
    match settings.replayAction with
    | .none | .new => pure s
    | .all => replay r r.ackedBundleList s

def setActive (a : Bool) (s : State L B) : Option (State L B) :=
  setActiveCallback r settings a { s with active := a }

/-- `deliver_front`. The caller gets the `BundleRef`. -/
def deliverFront (s : State L B) : Option (State L B) :=
  match (s.world.nodes r.bundleList).head? with
  | none => none
  | some n => do
      let w ← s.world.popFront r.allBundles r.bundleList
      let w ← w.pushBack r.allBundles
        (if settings.deliveryAcking then r.unackedBundleList else r.ackedBundleList) n.2
      pure (s.updateWith r w)

/-- `find` of a bundle with a source and a timestamp. -/
def find (w : World L B) (l : L) (k : K) : Option B :=
  (w.bundles l).find? fun b => decide (key b = k) && !w.freed b

def bundleAck (s : State L B) (k : K) : Option (State L B) :=
  match find key s.world r.unackedBundleList k with
  | none => pure s
  | some b => do
      let w ← s.world.takeRef r.allBundles b
      let w ← w.pushBack r.allBundles r.ackedBundleList b
      let w ← w.erase r.unackedBundleList b
      let s := s.updateWith r w
      let w ← s.world.dropRef b
      pure { s with world := w }

/-! ## Runs -/

/-- What the rest of the node does with bundles: it keeps their references in order and leaves the
lists of the registration alone. -/
structure Elsewhere (r : Lists L) (B : Type) [DecidableEq B] where
  run : World L B → World L B
  steady : ∀ w, w.Steady r.allBundles → (run w).Steady r.allBundles
  own : ∀ w, w.Steady r.allBundles → ∀ l ∈ r.own, (run w).bundles l = w.bundles l

inductive Op (r : Lists L) (B K : Type) [DecidableEq B] where
  | deliverBundle (random : Nat) (b : B)
  | deleteBundle (b : B)
  | setActive (a : Bool)
  | setActiveCallback (a : Bool)
  | deliverFront
  | bundleAck (k : K)
  | elsewhere (e : Elsewhere r B)

/-- One operation. No state follows where an assertion fails. -/
def step (s : State L B) : Op r B K → Option (State L B)
  | .deliverBundle random b => deliverBundle r settings random s b
  | .deleteBundle b => deleteBundle r s b
  | .setActive a => setActive r settings a s
  | .setActiveCallback a => setActiveCallback r settings a s
  | .deliverFront => deliverFront r settings s
  | .bundleAck k => bundleAck r key s k
  | .elsewhere e => some { s with world := e.run s.world }

/-- The bundles that the registration is to hold: those handed to it and neither reported as
delivered at once nor deleted since. -/
def expected (s : State L B) (bundles : Set B) : Op r B K → Set B
  | .deliverBundle _ b =>
      if s.active = false ∧ settings.failureAction = .drop then bundles else insert b bundles
  | .deleteBundle b => bundles \ {b}
  | _ => bundles

/-- Each of the bundles is on exactly one of the lists, no other bundle is on any of them, and the
lists in the store are those in memory. -/
structure Keeps (r : Lists L) (s : State L B) (bundles : Set B) : Prop where
  once : ∀ b ∈ bundles, ∃! l, l ∈ r.own ∧ b ∈ s.world.bundles l
  others : ∀ b, b ∉ bundles → ∀ l ∈ r.own, b ∉ s.world.bundles l
  stored : s.stored = s.held r

def KeepsAll : List (Op r B K) → State L B → Set B → Prop
  | [], _, _ => True
  | op :: ops, s, bundles =>
      ∃ s', step r settings key s op = some s' ∧ Keeps r s' (expected r settings s bundles op) ∧
        KeepsAll ops s' (expected r settings s bundles op)

/-! ## The condition -/

def Op.Sound (s : State L B) : Op r B K → Prop
  | .deliverBundle _ b =>
      s.world.freed b = false ∧ (¬(s.active = false ∧ settings.failureAction = .drop) →
        ∀ l ∈ r.own, b ∈ s.world.bundles l → l = queue r settings s)
  | .deleteBundle b => ∀ l ∈ r.own, b ∉ s.world.bundles l
  | .deliverFront => s.world.bundles r.bundleList ≠ []
  | _ => True

def SoundAll : List (Op r B K) → State L B → Prop
  | [], _ => True
  | op :: ops, s => op.Sound r settings s ∧
      ∀ s' ∈ step r settings key s op, SoundAll ops s'

end APIRegistration

end Dtn2
