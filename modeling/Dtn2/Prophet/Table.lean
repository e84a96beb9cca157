import Dtn2.Prophet.NodeHeap
import Dtn2.Prophet.Tlv

/-!
# The route table

`Table` holds its nodes in a map, in the order of their endpoint ids, and in a heap with the smallest
delivery predictability at the top. Nodes are known by the number of their allocation, so a node that
was deleted is not mistaken for another one. What the updates make of a predictability comes with the
events. `assign` is a sequence of `update`.
-/

namespace Dtn2

namespace Prophet

variable {P : Type}

/-- `Node`, as far as the table reads it. -/
structure Node (P : Type) where
  destId : Bytes
  pValue : P

/-- `Table`: the nodes that were allocated, `table_`, `heap_` and `max_route_`. -/
structure Table (P : Type) where
  node : Nat → Node P
  next : Nat
  table : List (Bytes × Nat)
  heap : NodeHeap Nat
  maxRoute : Nat

namespace Table

/-- What an operation does beside its effect on the table, each with the table at that moment: calls of
`update_node` and `delete_node`, and evictions. -/
inductive Act (P : Type) where
  | updateNode (t : Table P) (n : Nat)
  | deleteNode (t : Table P) (n : Nat)
  | evict (t : Table P) (n : Nat)

/-- What the code cannot survive: an insertion through an iterator that was not set, the top of an empty
heap, an iterator past the end; or a loop without an end. -/
inductive Fault where
  | unsetIterator
  | emptyHeap
  | pastEnd
  | diverges
deriving DecidableEq, Repr

abbrev Result (P : Type) : Type := Except Fault (Table P × List (Act P))

theorem eq_ok_of_mem {x : Result P} {r : Table P × List (Act P)} (h : r ∈ x.toOption) :
    x = .ok r := by
  cases x with
  | error fault => exact absurd h (by simp [Except.toOption])
  | ok s =>
      rw [Except.toOption, Option.mem_some_iff] at h
      rw [h]

def minLength : Nat := 6

/-- `find` with an iterator, which is set unless the id is too short. -/
def find (t : Table P) (destId : Bytes) : Option (Bytes × Nat) :=
  if destId.length < minLength then none else t.table.find? fun e => decide (e.1 = destId)

/-- The map with a new entry, in the order of `less_string`. -/
def insertEntry (e : Bytes × Nat) : List (Bytes × Nat) → List (Bytes × Nat)
  | [] => [e]
  | x :: rest => if x.1 < e.1 then x :: insertEntry e rest else e :: x :: rest

def insert (t : Table P) (destId : Bytes) (n : Nat) : Table P :=
  { t with table := insertEntry (destId, n) t.table }

/-- `new Node`, with the predictability that it has when it is put into the table. -/
def newNode (t : Table P) (destId : Bytes) (p : P) : Table P :=
  { t with node := Function.update t.node t.next ⟨destId, p⟩, next := t.next + 1 }

def setPValue (t : Table P) (n : Nat) (p : P) : Table P :=
  { t with node := Function.update t.node n { t.node n with pValue := p } }

variable [LinearOrder P]

/-- `heap_compare`. -/
def comp (t : Table P) (a b : Nat) : Bool := decide ((t.node b).pValue < (t.node a).pValue)

def heapAdd (t : Table P) (n : Nat) : Table P := { t with heap := t.heap.add t.comp n }

def heapDel (t : Table P) (n : Nat) : Table P :=
  if t.heap.pos n < t.heap.size ∧ (t.node (t.heap.seq (t.heap.pos n))).destId = (t.node n).destId then
    { t with heap := t.heap.remove t.comp (t.heap.pos n) }
  else t

def remove (t : Table P) (e : Bytes × Nat) : Table P :=
  { t with table := t.table.erase e }.heapDel e.2

/-- The loop of `enforce_quota`. Every turn that changes anything takes a node out of the table or out of
the heap. -/
def enforceLoop : Nat → Table P → Result P
  | 0, t => if t.maxRoute < t.table.length ∧ 0 < t.heap.size then .error .diverges else .ok (t, [])
  | fuel + 1, t =>
      if t.maxRoute < t.table.length ∧ 0 < t.heap.size then
        let n := t.heap.seq 0
        match t.find (cString (t.node n).destId) with
        | some e =>
            (enforceLoop fuel (t.remove e)).map fun r => (r.1, [.evict t n, .deleteNode t e.2] ++ r.2)
        | none => enforceLoop fuel (t.heapDel n)
      else .ok (t, [])

def enforceQuota (t : Table P) : Result P :=
  if t.maxRoute = 0 then .ok (t, []) else enforceLoop (t.table.length + t.heap.size) t

/-- The common end of the updates. -/
def settle (t : Table P) (n : Nat) : Result P :=
  (t.heapAdd n).enforceQuota.map fun r => (r.1, r.2 ++ [.updateNode r.1 n])

/-- A node takes the place of an old one, which is deleted. -/
def replace (t : Table P) (e : Bytes × Nat) (n : Nat) : Table P :=
  { t with table := t.table.map fun x => if x = e then (e.1, n) else x }.heapDel e.2

def update (t : Table P) (n : Nat) : Result P :=
  let destId := cString (t.node n).destId
  if destId.length < minLength then .ok (t, [])
  else match t.find destId with
    | some e => (t.replace e n).settle n
    | none => (t.insert destId n).settle n

/-- The body of the other updates: a node that is there or made gets its new predictability. -/
def touch (t : Table P) (destId : Bytes) (p : P) : Result P :=
  match t.find destId with
  | some e => ((t.setPValue e.2 p).heapDel e.2).settle e.2
  | none =>
      if destId.length < minLength then .error .unsetIterator
      else ((t.newNode destId p).insert destId t.next).settle t.next

def updateRoute (t : Table P) (destId : Bytes) (p : P) : Result P :=
  if destId.length < minLength then .ok (t, []) else t.touch destId p

def updateTransitive (t : Table P) (destId peerId : Bytes) (p : P) : Result P :=
  if destId.length < minLength ∨ peerId.length < minLength then .ok (t, []) else t.touch destId p

/-- The loop of `update_transitive` over the nodes of a peer, each with its string id. -/
def importLoop (ribd : Dictionary) (t : Table P) : List (UInt16 × P) → Result P
  | [] => .ok (t, [])
  | (sid, p) :: rib =>
      if sid = Dictionary.invalidSid ∨ ribd.findId sid = [] then importLoop ribd t rib
      else (t.touch (ribd.findId sid) p).bind fun r =>
        (importLoop ribd r.1 rib).map fun s => (s.1, r.2 ++ s.2)

/-- `update_transitive` for the nodes of a peer. -/
def importRib (t : Table P) (peerId : Bytes) (rib : List (UInt16 × P)) (ribd : Dictionary) : Result P :=
  if peerId.length < minLength then .ok (t, []) else importLoop ribd t rib

/-- `age_nodes`, node after node. -/
def ageLoop (age : Nat → P) (t : Table P) : List (Bytes × Nat) → Table P × List (Act P)
  | [] => (t, [])
  | e :: rest =>
      let t := ((t.setPValue e.2 (age e.2)).heapDel e.2).heapAdd e.2
      let r := ageLoop age t rest
      (r.1, .updateNode t e.2 :: r.2)

def ageNodes (t : Table P) (age : Nat → P) : Table P × List (Act P) := ageLoop age t t.table

/-! ## Truncation -/

def free (t : Table P) : Table P := t.table.foldl (fun t e => t.heapDel e.2) t

def clearHeap : Nat → Table P → Table P
  | 0, t => t
  | pos + 1, t => clearHeap pos { t with heap := t.heap.remove t.comp pos }

/-- `truncate` with an epsilon that every node is said to be below. -/
def clear (t : Table P) : Table P :=
  let t := t.free
  clearHeap t.heap.size { t with table := [] }

/-- The iteration of `truncate` with an empty heap, which advances twice after each node it looks at. -/
def sweep (epsilon : P) (t : Table P) : List (Bytes × Nat) → Result P
  | [] => .ok (t, [])
  | e :: rest =>
      let r := if (t.node e.2).pValue < epsilon then (t.remove e, [.deleteNode t e.2]) else (t, [])
      match rest with
      | [] => .error .pastEnd
      | _ :: rest => (sweep epsilon r.1 rest).map fun s => (s.1, r.2 ++ s.2)

/-- The loop of `truncate`, which looks at the top of the heap before every turn. A map of `fuel` nodes
is empty after that many removals. -/
def truncateLoop (epsilon : P) : Nat → Table P → Result P
  | 0, t => if t.heap.size = 0 then .error .emptyHeap else .ok (t, [])
  | fuel + 1, t =>
      if t.heap.size = 0 then .error .emptyHeap
      else if (t.node (t.heap.seq 0)).pValue < epsilon then
        match t.find (t.node (t.heap.seq 0)).destId with
        | some e => (truncateLoop epsilon fuel (t.remove e)).map fun r => (r.1, .deleteNode t e.2 :: r.2)
        | none => .ok (t, [])
      else .ok (t, [])

/-- `truncate`, where `one` is the largest predictability. -/
def truncate (one : P) (t : Table P) (epsilon : P) : Result P :=
  if one ≤ epsilon then .ok (t.clear, [])
  else if t.heap.size = 0 then sweep epsilon t t.table
  else truncateLoop epsilon t.table.length t

/-! ## Runs -/

/-- What is done with the table. The node of `update` is one that the caller has just made, or one of the
table whose predictability has changed. -/
inductive Event (P : Type) where
  | updateNew (destId : Bytes) (p : P)
  | updateHeld (n : Nat) (p : P)
  | updateRoute (destId : Bytes) (p : P)
  | updateTransitive (destId peerId : Bytes) (p : P)
  | importRib (peerId : Bytes) (rib : List (UInt16 × P)) (ribd : Dictionary)
  | ageNodes (age : Nat → P)
  | truncate (epsilon : P)
  | setMaxRoute (max : Nat)

def step (one : P) (t : Table P) : Event P → Result P
  | .updateNew destId p => (t.newNode destId p).update t.next
  | .updateHeld n p => (t.setPValue n p).update n
  | .updateRoute destId p => t.updateRoute destId p
  | .updateTransitive destId peerId p => t.updateTransitive destId peerId p
  | .importRib peerId rib ribd => t.importRib peerId rib ribd
  | .ageNodes age => .ok (t.ageNodes age)
  | .truncate epsilon => t.truncate one epsilon
  | .setMaxRoute max => { t with maxRoute := max }.enforceQuota

def run (one : P) (t : Table P) : List (Event P) → Result P
  | [] => .ok (t, [])
  | e :: events =>
      (t.step one e).bind fun r => (run one r.1 events).map fun s => (s.1, r.2 ++ s.2)

/-- The names in the persistent store, which knows a node by its id as a C string. -/
def store (names : List Bytes) : Act P → List Bytes
  | .updateNode t n =>
      let name := cString (t.node n).destId
      if name ∈ names then names else names ++ [name]
  | .deleteNode t n => names.erase (cString (t.node n).destId)
  | .evict _ _ => names

/-- The tables that are reached by steps of some kind, each with the names in the persistent store. -/
inductive Reached (one : P) (meets : Table P → Event P → Prop) : Table P → List Bytes → Prop where
  | start {t : Table P} (htable : t.table = []) (hheap : t.heap.size = 0) (hmax : t.maxRoute = 0) :
      Reached one meets t []
  | step {t t' : Table P} {names : List Bytes} {e : Event P} {acts : List (Act P)}
      (h : Reached one meets t names) (hmeets : meets t e) (hstep : t.step one e = .ok (t', acts)) :
      Reached one meets t' (acts.foldl store names)

end Table

end Prophet

end Dtn2
