import Mathlib.Data.List.Basic
import Mathlib.Data.List.Nodup
import Mathlib.Logic.Function.Basic

/-!
# Bundle lists

A bundle knows the lists that it is on, and its position on each of them, and a list holds a reference
to each of its bundles. The first reference to a bundle also puts it on the list of all bundles. When
one reference is left, the bundle is marked as freed and an event is posted to remove it.

Bundles and lists are only compared, so their types are left open. A function gives no result where an
assertion of the source fails.
-/

namespace Dtn2

namespace BundleList

variable {L B : Type} [DecidableEq L] [DecidableEq B]

/-- All lists and bundles. The nodes of a list have names, so that a position stays valid while other
nodes come and go; `handles` counts the references of `BundleRef`s, and `fresh` is the next name. -/
structure World (L B : Type) where
  nodes : L → List (Nat × B)
  mappings : B → List (L × Nat)
  refcount : B → Int
  freed : B → Bool
  handles : B → Nat
  fresh : Nat

namespace World

def empty : World L B := ⟨fun _ => [], fun _ => [], fun _ => 0, fun _ => false, fun _ => 0, 0⟩

def bundles (w : World L B) (l : L) : List B := (w.nodes l).map Prod.snd

def isQueuedOn (w : World L B) (l : L) (b : B) : Bool := decide (l ∈ (w.mappings b).map Prod.fst)

/-! ## References -/

def count (w : World L B) (b : B) (n : Int) : World L B :=
  { w with refcount := Function.update w.refcount b (w.refcount b + n) }

def link (w : World L B) (l : L) (b : B) (i : Nat) : World L B :=
  { w with
    nodes := Function.update w.nodes l ((w.nodes l).insertIdx i (w.fresh, b))
    mappings := Function.update w.mappings b (w.mappings b ++ [(l, w.fresh)])
    fresh := w.fresh + 1 }

/-- `add_bundle`, before the position with the given index. -/
def addBundle (addRef : World L B → B → Option (World L B)) (w : World L B) (l : L) (b : B) (i : Nat) :
    Option (World L B) :=
  if w.freed b then some w
  else if w.isQueuedOn l b then some w
  else addRef (w.link l b i) b

/-- `add_ref`, with the given depth of calls: the list of all bundles takes a second reference. -/
def addRefTo (all : L) : Nat → World L B → B → Option (World L B)
  | 0, _, _ => none
  | depth + 1, w, b =>
      if w.freed b then none
      else if (w.count b 1).refcount b = 1 then
        (w.count b 1).addBundle (addRefTo all depth) all b (w.nodes all).length
      else some (w.count b 1)

/-- `add_ref`. The second reference is not the first one, so that two calls are enough. -/
def addRef (all : L) (w : World L B) (b : B) : Option (World L B) := addRefTo all 2 w b

def delRef (w : World L B) (b : B) : Option (World L B) :=
  let w := w.count b (-1)
  if 1 < w.refcount b then if w.freed b then none else some w
  else if w.refcount b = 1 then
    if w.freed b then none else some { w with freed := Function.update w.freed b true }
  else if w.refcount b = 0 then if w.freed b then some w else none
  else some w

/-- A new `BundleRef` for the bundle. -/
def takeRef (all : L) (w : World L B) (b : B) : Option (World L B) :=
  (w.addRef all b).map fun w => { w with handles := Function.update w.handles b (w.handles b + 1) }

def dropRef (w : World L B) (b : B) : Option (World L B) :=
  if w.handles b = 0 then none
  else { w with handles := Function.update w.handles b (w.handles b - 1) }.delRef b

/-! ## Insertions -/

def pushFront (all : L) (w : World L B) (l : L) (b : B) : Option (World L B) :=
  w.addBundle (addRef all) l b 0

def pushBack (all : L) (w : World L B) (l : L) (b : B) : Option (World L B) :=
  w.addBundle (addRef all) l b (w.nodes l).length

/-- `sort_order_t`. -/
inductive SortOrder where
  | priority
  | fragOffset
deriving DecidableEq, Repr

/-- The index at which the loop of `insert_sorted` stops. The order by priority is not implemented: it
fails at the first bundle. -/
def sortedIndex (fragOffset : B → Nat) (order : SortOrder) (b : B) : List (Nat × B) → Option Nat
  | [] => some 0
  | n :: rest =>
      match order with
      | .fragOffset =>
          if fragOffset n.2 > fragOffset b then some 0
          else (sortedIndex fragOffset order b rest).map (· + 1)
      | .priority => none

def insertSorted (all : L) (fragOffset : B → Nat) (order : SortOrder) (w : World L B) (l : L) (b : B) :
    Option (World L B) :=
  (sortedIndex fragOffset order b (w.nodes l)).bind (w.addBundle (addRef all) l b)

/-- `insert_random`, for the number that `random` gives. -/
def insertRandom (all : L) (random : Nat) (w : World L B) (l : L) (b : B) : Option (World L B) :=
  w.addBundle (addRef all) l b (if (w.nodes l).length = 0 then 0 else random % (w.nodes l).length)

/-! ## Removals -/

def unlinkNode (w : World L B) (l : L) (p : Nat) : World L B :=
  { w with nodes := Function.update w.nodes l ((w.nodes l).eraseP fun n => decide (n.1 = p)) }

def unmap (w : World L B) (l : L) (b : B) : World L B :=
  { w with mappings := Function.update w.mappings b ((w.mappings b).eraseP fun m => decide (m.1 = l)) }

/-- `del_bundle` of the bundle at a position. The reference of the list passes to the caller. -/
def delBundle (w : World L B) (l : L) (n : Nat × B) : Option (World L B) :=
  match (w.mappings n.2).find? fun m => decide (m.1 = l) with
  | none => some (w.unlinkNode l n.1)
  | some m => if m.2 = n.1 then some ((w.unmap l n.2).unlinkNode l n.1) else none

/-- The bundle at a position is removed, and a `BundleRef` for it is returned. -/
def popAt (all : L) (w : World L B) (l : L) (n : Nat × B) : Option (World L B) := do
  let w ← w.delBundle l n
  let w ← w.takeRef all n.2
  w.delRef n.2

/-- `pop_front`; the `BundleRef` is empty if the list is. -/
def popFront (all : L) (w : World L B) (l : L) : Option (World L B) :=
  match (w.nodes l).head? with
  | none => some w
  | some n => w.popAt all l n

def popBack (all : L) (w : World L B) (l : L) : Option (World L B) :=
  match (w.nodes l).getLast? with
  | none => some w
  | some n => w.popAt all l n

/-- `erase` at a position. -/
def eraseAt (w : World L B) (l : L) (n : Nat × B) : Option (World L B) := do
  let w ← w.delBundle l n
  w.delRef n.2

def erase (w : World L B) (l : L) (b : B) : Option (World L B) :=
  match (w.mappings b).find? fun m => decide (m.1 = l) with
  | none => some w
  | some m =>
      if ((w.nodes l).find? fun n => decide (n.1 = m.2)).map Prod.snd = some b then
        w.eraseAt l (m.2, b)
      else none

/-- The assertion of `contains`: the mappings and the list agree. -/
def containsAssertion (w : World L B) (l : L) (b : B) : Bool :=
  w.isQueuedOn l b == decide (b ∈ w.bundles l)

/-! ## Whole lists -/

/-- The `BundleRef` of a loop is assigned anew or goes. -/
def dropHeld (w : World L B) : Option B → Option (World L B)
  | none => some w
  | some b => w.dropRef b

/-- The loop of `move_contents`, for at most the given number of rounds. -/
def moveLoop (all : L) (l other : L) : Nat → Option B → World L B → Option (World L B)
  | 0, _, _ => none
  | rounds + 1, held, w =>
      match (w.nodes l).head? with
      | none => w.dropHeld held
      | some n => do
          let w ← w.popAt all l n
          let w ← w.dropHeld held
          let w ← w.pushBack all other n.2
          moveLoop all l other rounds (some n.2) w

/-- `move_contents`: the list gets shorter in each round, unless it is moved to itself. -/
def moveContents (all : L) (w : World L B) (l other : L) : Option (World L B) :=
  moveLoop all l other ((w.nodes l).length + 1) none w

def clearLoop (all : L) (l : L) : Nat → World L B → Option (World L B)
  | 0, _ => none
  | rounds + 1, w =>
      match (w.nodes l).head? with
      | none => some w
      | some n => do
          let w ← w.popAt all l n
          let w ← w.dropRef n.2
          clearLoop all l rounds w

def clear (all : L) (w : World L B) (l : L) : Option (World L B) :=
  clearLoop all l ((w.nodes l).length + 1) w

end World

end BundleList

end Dtn2
