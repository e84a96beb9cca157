import Dtn2.Framework.BinaryHeap

/-!
# The bundle repository

`Repository` keeps its bundles in a vector that is a heap in the order of eviction. `QueueComp` says
which of two bundles is evicted later; the heap routines are called with `first` zero throughout.
Places from the size on hold nothing that counts.
-/

namespace Dtn2

namespace Prophet

open Framework BinaryHeap

variable {B : Type}

/-- A comparator and what it sees of the bundles at the moment: whether its policy is LEPR,
`min_fwd_`, `operator()`, which says that the first bundle is evicted after the second one, and how
often a bundle was forwarded. -/
structure QueueComp (B : Type) where
  lepr : Bool
  minFwd : Nat
  after : B → B → Bool
  numForward : B → Nat

structure Repository (B : Type) where
  comp : QueueComp B
  size : Nat
  list : Nat → B
  current : Nat

/-- What never changes about a bundle: its size and `operator==`. -/
structure Facade (B : Type) where
  size : B → Nat
  same : B → B → Bool
  same_self : ∀ b, same b b = true

namespace Repository

/-! ## The heap routines -/

section Heap

variable (after : B → B → Bool)

/-- The loop of `push_heap`, which does not end later than at place zero. -/
def pushHeapLoop (top : Nat) (b : B) : Nat → (Nat → B) → Nat → Nat → B
  | 0, list, hole => Function.update list hole b
  | fuel + 1, list, hole =>
      if top < hole ∧ after (list (parent hole)) b = true then
        pushHeapLoop top b fuel (Function.update list hole (list (parent hole))) (parent hole)
      else Function.update list hole b

def pushHeap (list : Nat → B) (hole top : Nat) (b : B) : Nat → B :=
  pushHeapLoop after top b hole list hole

/-- The loop of `adjust_heap`: the list and the hole. -/
def adjustHeapLoop (len : Nat) : Nat → (Nat → B) → Nat → (Nat → B) × Nat
  | 0, list, hole => (list, hole)
  | fuel + 1, list, hole =>
      if 2 * hole + 2 < len then
        let second :=
          if after (list (2 * hole + 2)) (list (2 * hole + 1)) then 2 * hole + 1 else 2 * hole + 2
        adjustHeapLoop len fuel (Function.update list hole (list second)) second
      else (list, hole)

/-- The left child without a sibling, behind the loop of `adjust_heap`. -/
def adjustHeapLast (len : Nat) (d : (Nat → B) × Nat) : (Nat → B) × Nat :=
  if 2 * d.2 + 2 = len then (Function.update d.1 d.2 (d.1 (len - 1)), len - 1) else d

/-- `adjust_heap` in a list of `size` bundles. -/
def adjustHeap (size : Nat) (list : Nat → B) (hole len : Nat) (b : B) : Nat → B :=
  if size < 2 then list
  else
    let d := adjustHeapLast len (adjustHeapLoop after len len list hole)
    pushHeap after d.1 d.2 hole b

/-- `pop_heap`, with the result in the last place. -/
def popHeap (size : Nat) (list : Nat → B) (last : Nat) (b : B) : Nat → B :=
  adjustHeap after size (Function.update list last (list 0)) 0 last b

def removeAndReheap (size : Nat) (list : Nat → B) (hole : Nat) : Nat → B :=
  let list := Function.update list hole (list (size - 1))
  adjustHeap after size list hole (size - 2) (list hole)

/-- The loop of `make_heap`, from the place `parent` up to the root. -/
def makeHeapLoop (size len : Nat) : Nat → (Nat → B) → Nat → B
  | 0, list => adjustHeap after size list 0 len (list 0)
  | parent + 1, list =>
      makeHeapLoop size len parent (adjustHeap after size list (parent + 1) len (list (parent + 1)))

def makeHeap (size : Nat) (list : Nat → B) (last : Nat) : Nat → B :=
  if last < 2 then list else makeHeapLoop after size last ((last - 2) / 2) list

end Heap

/-! ## The operations -/

section Operations

variable (facade : Facade B)

/-- The first place with a bundle of some kind. -/
def position (r : Repository B) (p : B → Bool) : Option Nat :=
  (List.range r.size).find? fun i => p (r.list i)

def minus (current size : Nat) : Nat := (current + 2 ^ 32 - size % 2 ^ 32) % 2 ^ 32

/-- The bundle at the top is evicted: the repository and the bundle. `none` if the list is empty,
when the code reads and writes outside it. -/
def evictTop (r : Repository B) : Option (Repository B × B) :=
  if r.size = 0 then none
  else
    let last := r.size - 1
    let list := popHeap r.comp.after r.size r.list last (r.list last)
    some ({ r with
      size := last
      list := list
      current := minus r.current (facade.size (list last)) }, list last)

/-- The bundle at a place is taken out. -/
def takeOut (r : Repository B) (pos : Nat) : Repository B :=
  { r with
    size := r.size - 1
    list := removeAndReheap r.comp.after r.size r.list pos
    current := minus r.current (facade.size (r.list pos)) }

/-- The bundle that the LEPR policy evicts. -/
def leprVictim (r : Repository B) : Option Nat :=
  r.position fun b => decide (r.comp.minFwd < r.comp.numForward b)

def evict (r : Repository B) : Option (Repository B × B) :=
  if r.comp.lepr = false then r.evictTop facade
  else match r.leprVictim with
    | some pos => some (r.takeOut facade pos, r.list pos)
    | none => r.evictTop facade

/-- The evictions of `add` and `handle_change_max`, with the repository in front of each. A list of
`fuel` bundles is empty after that many. -/
def evictWhile (max : Nat) : Nat → Repository B → Option (Repository B × List (Repository B × B))
  | 0, r => if max < r.current then none else some (r, [])
  | fuel + 1, r =>
      if max < r.current then
        (r.evict facade).bind fun e =>
          (evictWhile max fuel e.1).map fun f => (f.1, (r, e.2) :: f.2)
      else some (r, [])

/-- `handle_change_max` with the quota `max`. -/
def handleChangeMax (r : Repository B) (max : Nat) :
    Option (Repository B × List (Repository B × B)) :=
  if 0 < max then evictWhile facade max r.size r else some (r, [])

variable [DecidableEq B]

/-- The list of `add` with the new bundle. -/
def insert (r : Repository B) (b : B) : Repository B :=
  { r with
    size := r.size + 1
    list := pushHeap r.comp.after (Function.update r.list r.size b) r.size 0 b
    current := (r.current + facade.size b) % 2 ^ 32 }

/-- `add` under the quota `max`. -/
def add (r : Repository B) (max : Nat) (b : B) : Option (Repository B × List (Repository B × B)) :=
  match r.position fun x => decide (x = b) with
  | some _ => some (r, [])
  | none => (r.insert facade b).handleChangeMax facade max

def del (r : Repository B) (b : B) : Repository B :=
  match r.position fun x => decide (x = b) with
  | some pos => r.takeOut facade pos
  | none => r

def setComparator (r : Repository B) (qc : QueueComp B) : Repository B :=
  { r with
    comp := qc
    list := if r.size = 0 then r.list else makeHeap qc.after r.size r.list (r.size - 1) }

def changePriority (r : Repository B) (b : B) : Repository B :=
  match r.position fun x => facade.same x b with
  | some pos =>
      { r with
        list := pushHeap r.comp.after (removeAndReheap r.comp.after r.size r.list pos)
          (r.size - 1) 0 b }
  | none => r

/-- What is done with the repository. The key of a bundle changes right before its change of
priority: from then on the comparator sees the bundles as `qc` does. -/
inductive Event (B : Type) where
  | add (max : Nat) (b : B)
  | del (b : B)
  | changePriority (b : B) (qc : QueueComp B)
  | setComparator (qc : QueueComp B)
  | handleChangeMax (max : Nat)

def step (r : Repository B) : Event B → Option (Repository B × List (Repository B × B))
  | .add max b => r.add facade max b
  | .del b => some (r.del facade b, [])
  | .changePriority b qc => some ({ r with comp := qc }.changePriority facade b, [])
  | .setComparator qc => some (r.setComparator qc, [])
  | .handleChangeMax max => r.handleChangeMax facade max

def run (r : Repository B) : List (Event B) → Option (Repository B × List (Repository B × B))
  | [] => some (r, [])
  | e :: events =>
      (r.step facade e).bind fun s => (run s.1 events).map fun t => (t.1, s.2 ++ t.2)

end Operations

end Repository

end Prophet

end Dtn2
