import Dtn2.Bundling.Core

/-!
# The multigraph of the routers

Nodes and edges are heap objects that point at each other. A node pointer is the position at which
the node was added, an edge carries the number of its allocation. Nodes are never deleted by the
routers that use the graph.
-/

namespace Dtn2

structure Edge (E : Type) where
  ptr : Nat
  source : Nat
  dest : Nat
  info : E
deriving DecidableEq, Repr

/-- `MultiGraph::Node` without the state of a search. The edges live in the node they leave; the node
they enter holds pointers to them. -/
structure Node (N E : Type) where
  id : Bytes
  info : N
  outEdges : List (Edge E)
  inEdges : List Nat
deriving DecidableEq, Repr

/-- `MultiGraph`: the nodes below `count`, and the number of edges allocated so far. -/
structure MultiGraph (N E : Type) where
  node : Nat → Node N E
  count : Nat
  allocated : Nat

namespace MultiGraph

variable {N E : Type}

/-- The graph without nodes; what lies beyond `count` is never looked at. -/
def empty [Inhabited N] : MultiGraph N E := ⟨fun _ => ⟨[], default, [], []⟩, 0, 0⟩

/-- A node is changed through its pointer. -/
def modify (g : MultiGraph N E) (n : Nat) (f : Node N E → Node N E) : MultiGraph N E :=
  { g with node := Function.update g.node n (f (g.node n)) }

def addNode (g : MultiGraph N E) (id : Bytes) (info : N) : MultiGraph N E :=
  { g with node := Function.update g.node g.count ⟨id, info, [], []⟩, count := g.count + 1 }

def findNode (g : MultiGraph N E) (id : Bytes) : Option Nat :=
  (List.range g.count).find? fun n => decide ((g.node n).id = id)

/-- The edge that `add_edge` makes. -/
def newEdge (g : MultiGraph N E) (a b : Nat) (info : E) : Edge E := ⟨g.allocated, a, b, info⟩

def addEdge (g : MultiGraph N E) (a b : Nat) (info : E) : MultiGraph N E :=
  let g' := g.modify a fun n => { n with outEdges := n.outEdges ++ [g.newEdge a b info] }
  let g' := g'.modify b fun n => { n with inEdges := n.inEdges ++ [g.allocated] }
  { g' with allocated := g.allocated + 1 }

/-- `find_edge`, with the comparison of the edge information. -/
def findEdge (g : MultiGraph N E) (a b : Nat) (same : E → Bool) : Option (Edge E) :=
  (g.node a).outEdges.find? fun e => decide (e.dest = b) && same e.info

/-- `mutable_info` of an edge that leaves `a`. -/
def modifyEdge (g : MultiGraph N E) (a ptr : Nat) (f : E → E) : MultiGraph N E :=
  g.modify a fun n =>
    { n with outEdges := n.outEdges.map fun e =>
        if e.ptr = ptr then { e with info := f e.info } else e }

/-- The edge is taken off the two lists it is on. -/
def unlinkEdge (g : MultiGraph N E) (n : Nat) (e : Edge E) : MultiGraph N E :=
  let g := g.modify n fun node =>
    { node with outEdges := node.outEdges.eraseP fun e' => decide (e'.ptr = e.ptr) }
  g.modify e.dest fun node => { node with inEdges := node.inEdges.erase e.ptr }

def delEdge (g : MultiGraph N E) (n : Nat) (e : Edge E) : Exec (MultiGraph N E × Bool) :=
  if e.ptr ∈ (g.node n).outEdges.map Edge.ptr then do
    assertThat (e.ptr ∈ (g.node e.dest).inEdges)
    pure (g.unlinkEdge n e, true)
  else pure (g, false)

/-! ## The shortest path -/

inductive Color where
  | white
  | gray
  | black
deriving DecidableEq, Repr

/-- `0xffffffff`, the distance of a node that has not been reached and the weight of a dead edge. -/
def infinite : Nat := 0xffffffff

/-- `UpdatablePriorityQueue`: which of the waiting nodes `top` gives, by their distances. Nothing
depends on the order, only on the node being one that waits. -/
structure Queue where
  top : (Nat → Nat) → List Nat → Nat
  top_mem : ∀ distance waiting, waiting ≠ [] → top distance waiting ∈ waiting

def nearest (distance : Nat → Nat) : List Nat → Nat
  | [] => 0
  | [n] => n
  | n :: m :: rest =>
      let best := nearest distance (m :: rest)
      if distance n ≤ distance best then n else best

theorem nearest_mem (distance : Nat → Nat) (waiting : List Nat) (h : waiting ≠ []) :
    nearest distance waiting ∈ waiting := by
  induction waiting with
  | nil => exact absurd rfl h
  | cons n rest ih =>
      cases rest with
      | nil => exact List.mem_singleton_self n
      | cons m rest =>
          rw [nearest]
          split
          · exact List.mem_cons_self
          · exact List.mem_cons_of_mem n (ih (List.cons_ne_nil m rest))

/-- A queue that serves the nearest node. -/
def Queue.plain : Queue := ⟨nearest, nearest_mem⟩

/-- The state of a search: `distance_`, `color_` and `prev_` of the nodes, and the queue. -/
structure Search (E : Type) where
  distance : Nat → Nat
  color : Nat → Color
  prev : Nat → Option (Edge E)
  waiting : List Nat

def Search.start (a : Nat) : Search E where
  distance := Function.update (fun _ => infinite) a 0
  color := fun _ => .white
  prev := fun _ => none
  waiting := [a]

def Search.reach (s : Search E) (e : Edge E) (distance : Nat) : Search E :=
  { s with
    distance := Function.update s.distance e.dest distance
    prev := Function.update s.prev e.dest (some e) }

/-- One round of the inner loop of `shortest_path`. -/
def relax (weight : Edge E → Nat) (cur : Nat) (s : Search E) (e : Edge E) : Exec (Search E) := do
  assertThat (e.source = cur)
  assertThat (e.dest ≠ cur)
  let distance := (s.distance cur + weight e) % 2 ^ 32
  if weight e ≠ infinite ∧ distance < s.distance e.dest then
    match s.color e.dest with
    | .black => pure s
    | .white =>
        let s := s.reach e distance
        pure { s with
          color := Function.update s.color e.dest .gray, waiting := s.waiting ++ [e.dest] }
    | .gray => pure (s.reach e distance)
  else pure s

/-- The outer loop of `shortest_path`. -/
def searchLoop (queue : Queue) (weight : Edge E → Nat) (g : MultiGraph N E) (b : Nat) :
    Nat → Search E → Exec (Search E)
  | 0, _ => .error (.fault .diverges)
  | fuel + 1, s => do
      let cur := queue.top s.distance s.waiting
      let s := { s with waiting := s.waiting.erase cur }
      let s ← (g.node cur).outEdges.foldlM (relax weight cur) s
      let s := { s with color := Function.update s.color cur .black }
      if cur = b then pure s
      else if s.waiting = [] then pure s
      else searchLoop queue weight g b fuel s

/-- `get_reverse_path`, from the end of the path. -/
def getReversePath (s : Search E) (a : Nat) : Nat → Nat → Exec (List (Edge E))
  | 0, _ => .error (.fault .diverges)
  | fuel + 1, cur =>
      match s.prev cur with
      | none => .error (.fault .nullPointer)
      | some e => do
          assertThat (e.dest = cur)
          assertThat (e.source ≠ cur)
          if e.source = a then pure [e]
          else do
            let path ← getReversePath s a fuel e.source
            pure (e :: path)

/-- `shortest_path`, as a path from its end to its start. -/
def shortestPath (queue : Queue) (weight : Edge E → Nat) (g : MultiGraph N E) (a b : Nat) :
    Exec (List (Edge E)) := do
  assertThat (a ≠ b)
  let s ← searchLoop queue weight g b g.count (Search.start a)
  if s.distance b = infinite then pure []
  else getReversePath s a g.count b

def bestNextHop (queue : Queue) (weight : Edge E → Nat) (g : MultiGraph N E) (a b : Nat) :
    Exec (Option (Edge E)) := do
  let path ← shortestPath queue weight g a b
  match path.getLast? with
  | none => pure none
  | some e => do
      assertThat (e.source = a)
      pure (some e)

end MultiGraph

end Dtn2
