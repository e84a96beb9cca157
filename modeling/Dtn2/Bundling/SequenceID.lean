import Dtn2.Bundling.Bundle

/-!
# Sequence ids

A sequence id is a vector of counters and identifiers, each for an endpoint id. Two of them are compared
entry by entry, in both directions, with a table that combines the results.
-/

namespace Dtn2

namespace SequenceEntry

def eid : SequenceEntry → EndpointID
  | .counter eid _ | .identifier eid _ => eid

end SequenceEntry

structure SequenceID where
  vector : List SequenceEntry
deriving DecidableEq, Repr

namespace SequenceID

def isEmpty (v : SequenceID) : Bool := v.vector.isEmpty

/-- `get_entry`. Where the source returns a null entry, of type `EMPTY`, there is none. -/
def getEntry (v : SequenceID) (eid : EndpointID) : Option SequenceEntry :=
  v.vector.find? fun e => decide (e.eid.uri = eid.uri)

/-! ## Comparison -/

/-- `comp_t`. -/
inductive Comp where
  | lt
  | eq
  | gt
  | neq
  | ill
deriving DecidableEq, Repr

def Comp.index : Comp → Nat
  | .lt => 0
  | .eq => 1
  | .gt => 2
  | .neq => 3
  | .ill => 1000

/-- The table of `compare_one_way`, row after row as it lies in memory. -/
def states : List Comp :=
  [.lt, .lt, .neq,
    .lt, .eq, .gt,
    .neq, .gt, .gt,
    .neq, .neq, .neq]

/-- `next_state`. A row has three columns: the one of `NEQ` is the first one of the next row. -/
def nextState (cur comp : Comp) : Comp := states.getD (3 * cur.index + comp.index) .ill

def counter : Option SequenceEntry → UInt64
  | some (.counter _ value) => value
  | _ => 0

def compareEntries : Option SequenceEntry → Option SequenceEntry → Comp
  | some (.identifier _ left), some (.identifier _ right) => if left ≠ right then .neq else .eq
  | some (.identifier _ _), _ => .neq
  | _, some (.identifier _ _) => .neq
  | left, right =>
      if counter left = counter right then .eq
      else if counter left < counter right then .lt
      else .gt

/-- The loop of `compare_one_way`. -/
def compareLoop (lv rv : SequenceID) : List SequenceEntry → Comp → Comp
  | [], cur => cur
  | i :: rest, cur =>
      let next := nextState cur (compareEntries (lv.getEntry i.eid) (rv.getEntry i.eid))
      if next = .neq then .neq else compareLoop lv rv rest next

def compareOneWay (lv rv : SequenceID) (cur : Comp) : Comp := compareLoop lv rv lv.vector cur

/-- The state as the other vector sees it. -/
def invert : Comp → Comp
  | .lt => .gt
  | .gt => .lt
  | cur => cur

def compare (v other : SequenceID) : Comp :=
  if v.isEmpty = true ∧ other.isEmpty = true then .eq
  else
    let cur := compareOneWay other v .eq
    if cur ≠ .neq then compareOneWay v other (invert cur) else cur

/-- `operator==`. -/
def same (v other : SequenceID) : Bool := decide (compare v other = .eq)

/-- `operator>=`. -/
def covers (v other : SequenceID) : Bool :=
  decide (compare v other = .gt) || decide (compare v other = .eq)

/-! ## Updates -/

/-- One entry of the other vector: it is added, or counts if it is larger, or replaces an identifier. -/
def updateEntry (v : SequenceID) (e : SequenceEntry) : Exec SequenceID :=
  match v.vector.findIdx? fun own => decide (e.eid.uri = own.eid.uri) with
  | none => .ok ⟨v.vector ++ [e]⟩
  | some i =>
      match e, v.vector[i]? with
      | .counter _ value, some (.counter eid own) =>
          if own < value then .ok ⟨v.vector.set i (.counter eid value)⟩ else .ok v
      | .identifier _ value, some (.identifier eid own) =>
          if value ≠ own then .ok ⟨v.vector.set i (.identifier eid value)⟩ else .ok v
      | _, _ => .error (.fault .panic)

def update (v other : SequenceID) : Exec SequenceID := other.vector.foldlM updateEntry v

/-! ## Equality -/

theorem nextState_eq_eq {cur comp : Comp} :
    nextState cur comp = .eq ↔ cur = .eq ∧ comp = .eq := by
  cases cur <;> cases comp <;> decide

theorem nextState_ne_ill {cur comp : Comp} (hcur : cur ≠ .ill) (hneq : cur ≠ .neq)
    (hcomp : comp ≠ .ill) : nextState cur comp ≠ .ill := by
  cases cur <;> cases comp <;> first | decide | contradiction

theorem compareEntries_ne_ill (left right : Option SequenceEntry) :
    compareEntries left right ≠ .ill := by
  fun_cases compareEntries left right <;> exact nofun

theorem compareLoop_eq_eq {lv rv : SequenceID} {entries : List SequenceEntry} {cur : Comp} :
    compareLoop lv rv entries cur = .eq ↔ cur = .eq ∧
      ∀ i ∈ entries, compareEntries (lv.getEntry i.eid) (rv.getEntry i.eid) = .eq := by
  induction entries generalizing cur with
  | nil => simp [compareLoop]
  | cons i rest ih =>
      rw [compareLoop, List.forall_mem_cons, ← and_assoc, ← nextState_eq_eq]
      generalize nextState cur (compareEntries (lv.getEntry i.eid) (rv.getEntry i.eid)) = next
      by_cases hstop : next = .neq
      · rw [hstop]
        simp
      · rw [if_neg hstop]
        exact ih

def Within (lv rv : SequenceID) : Prop :=
  ∀ i ∈ lv.vector, compareEntries (lv.getEntry i.eid) (rv.getEntry i.eid) = .eq

theorem compareOneWay_eq_eq {lv rv : SequenceID} {cur : Comp} :
    compareOneWay lv rv cur = .eq ↔ cur = .eq ∧ Within lv rv :=
  compareLoop_eq_eq

theorem compareLoop_ne_ill {lv rv : SequenceID} {entries : List SequenceEntry} {cur : Comp}
    (hill : cur ≠ .ill) (hneq : cur ≠ .neq) : compareLoop lv rv entries cur ≠ .ill := by
  induction entries generalizing cur with
  | nil => exact hill
  | cons i rest ih =>
      rw [compareLoop]
      have hnext := nextState_ne_ill hill hneq (compareEntries_ne_ill (lv.getEntry i.eid)
        (rv.getEntry i.eid))
      by_cases hstop : nextState cur (compareEntries (lv.getEntry i.eid) (rv.getEntry i.eid)) = .neq
      · rw [if_pos hstop]
        exact nofun
      · rw [if_neg hstop]
        exact ih hnext hstop

theorem compareOneWay_ne_ill (lv rv : SequenceID) : compareOneWay lv rv .eq ≠ .ill :=
  compareLoop_ne_ill nofun nofun

/-- Two sequence ids are equal exactly if the entries are, in both directions. -/
theorem compare_eq_eq (u v : SequenceID) : compare u v = .eq ↔ Within u v ∧ Within v u := by
  rw [compare]
  by_cases hempty : u.isEmpty = true ∧ v.isEmpty = true
  · rw [if_pos hempty]
    rw [isEmpty, isEmpty, List.isEmpty_iff, List.isEmpty_iff] at hempty
    simp [Within, hempty]
  · rw [if_neg hempty]
    have hback : compareOneWay v u .eq = .eq ↔ Within v u := by
      rw [compareOneWay_eq_eq]
      simp
    by_cases hneq : compareOneWay v u .eq = .neq
    · have hnot : ¬Within v u := by
        rw [← hback, hneq]
        exact nofun
      rw [if_neg (not_not.mpr hneq), hneq]
      simp [hnot]
    · have hinvert : invert (compareOneWay v u .eq) = .eq ↔ compareOneWay v u .eq = .eq := by
        cases compareOneWay v u .eq <;> simp [invert]
      rw [if_pos hneq, compareOneWay_eq_eq, hinvert, hback, and_comm]

theorem same_comm (u v : SequenceID) : same u v = same v u := by
  rw [same, same, decide_eq_decide, compare_eq_eq, compare_eq_eq, and_comm]

end SequenceID

end Dtn2
