import Dtn2.Prophet.TableQuota

/-!
# The updates of the route table

Every update takes a known node out of the heap, or makes a new one, and puts it back with its new
predictability.
-/

namespace Dtn2

namespace Prophet

open Framework BinaryHeap

namespace Table

variable {P : Type} [LinearOrder P] {t : Table P}

/-- A node that is known under a name may be taken out of the heap. -/
def Free (t : Table P) (destId : Bytes) : Prop := ∀ e ∈ t.table, e.1 = destId → t.Settled e.2

/-- A node with a new name finds room, or is not smaller than the node at the top of the heap. -/
def Roomy (t : Table P) (destId : Bytes) (p : P) : Prop :=
  (∀ e ∈ t.table, e.1 ≠ destId) → 0 < t.maxRoute → t.table.length = t.maxRoute →
    ¬p < (t.node (t.heap.seq 0)).pValue

/-- There are not more nodes than the quota allows. -/
def Bounded (t : Table P) : Prop := 0 < t.maxRoute → t.table.length ≤ t.maxRoute

structure Updated (t : Table P) (destId : Bytes) (p : P) (t' : Table P) (acts : List (Act P)) :
    Prop where
  maxRoute : t'.maxRoute = t.maxRoute
  consistent : t'.Consistent
  bounded : t'.Bounded
  heaped : t.Heaped → t.Free destId → t'.Heaped ∧ Fair acts
  agrees : t.Bounded → t.Roomy destId p →
    Honest acts ∧ ∀ stored, t.Agrees stored [] → t'.Agrees (acts.foldl store stored) []

theorem settle_known {e : Bytes × Nat} {t₁ : Table P} (h : t₁.Linked [e.2]) (he : e ∈ t₁.table)
    (hnames : t₁.names = t.names) (hmax : t₁.maxRoute = t.maxRoute)
    (hheaped : t.Heaped → t.Free e.1 → t₁.Heaped) (p : P) :
    ∃ t' acts, t₁.settle e.2 = .ok (t', acts) ∧ Updated t e.1 p t' acts := by
  obtain ⟨t', acts, hsettle, hdone⟩ := settle_finished h he
  have hlen : t₁.table.length = t.table.length := by
    rw [← List.length_map Prod.fst, ← @List.length_map _ _ t.table Prod.fst]
    exact congrArg List.length hnames
  refine ⟨t', acts, hsettle, hdone.maxRoute.trans hmax, hdone.consistent, ?_, ?_, ?_⟩
  · rw [Bounded, hdone.maxRoute]
    exact hdone.quota
  · exact fun hheap hfree => hdone.heaped (hheaped hheap hfree)
  · intro hbounded _
    obtain ⟨hhonest, hagrees⟩ := hdone.spared fun hpos => .inl (by
      rw [hlen, hmax]
      exact hbounded (hmax ▸ hpos))
    refine ⟨hhonest, fun stored hstored => hagrees stored [] (.inl rfl) ⟨hstored.1, ?_⟩⟩
    rw [hnames]
    exact hstored.2

theorem settle_new (h : t.Consistent) {destId : Bytes} (hzero : 0 ∉ destId)
    (hlong : minLength ≤ destId.length) (hkey : ∀ e ∈ t.table, e.1 ≠ destId) (p : P) :
    ∃ t' acts, ((t.newNode destId p).insert destId t.next).settle t.next = .ok (t', acts) ∧
      Updated t destId p t' acts := by
  have hnew : ∀ e ∈ t.table, e.2 ≠ t.next := fun e he => Nat.ne_of_lt (h.fresh e he)
  have hself : (t.newNode destId p).node t.next = ⟨destId, p⟩ := Function.update_self ..
  obtain ⟨hlinked, hin⟩ := (h.newNode destId p).insert (n := t.next)
    ⟨congrArg Node.destId hself, hzero, hlong⟩ (Nat.lt_succ_self _) hkey hnew
  obtain ⟨t', acts, hsettle, hdone⟩ := settle_finished hlinked hin
  have hperm : ((t.newNode destId p).insert destId t.next).table.Perm ((destId, t.next) :: t.table) :=
    insertEntry_perm _ _
  refine ⟨t', acts, hsettle, hdone.maxRoute, hdone.consistent, ?_, ?_, ?_⟩
  · rw [Bounded, hdone.maxRoute]
    exact hdone.quota
  · exact fun hheap _ => hdone.heaped (newNode_heaped h hheap destId p)
  · intro hbounded hroomy
    obtain ⟨hhonest, hagrees⟩ := hdone.spared (by
      intro hpos
      have hlen := hperm.length_eq
      rw [List.length_cons] at hlen
      rw [hlen]
      have hpos' : 0 < t.maxRoute := hpos
      have hle := hbounded hpos'
      show t.table.length + 1 ≤ t.maxRoute ∨ t.table.length + 1 = t.maxRoute + 1 ∧ _
      by_cases hfull : t.table.length = t.maxRoute
      · obtain ⟨e, he⟩ := List.exists_mem_of_length_pos (show 0 < t.table.length by omega)
        have hsize := heap_nonempty h he
        obtain ⟨x, hx, htop, -, -⟩ := top_entry h hsize
        refine .inr ⟨by omega, hsize, ?_⟩
        have hold : (t.newNode destId p).node (t.heap.seq 0) = t.node (t.heap.seq 0) :=
          Function.update_of_ne (htop ▸ hnew x hx) _ _
        show ¬((t.newNode destId p).node t.next).pValue <
          ((t.newNode destId p).node (t.heap.seq 0)).pValue
        rw [hself, hold]
        exact hroomy hkey hpos' hfull
      · exact .inl (by omega))
    refine ⟨hhonest, fun stored hstored => hagrees stored [destId] (.inr rfl) ⟨hstored.1, ?_⟩⟩
    intro k
    rw [hstored.2, names, names, (hperm.map Prod.fst).mem_iff, List.map_cons, List.mem_cons,
      List.mem_singleton]
    constructor
    · intro hk
      refine ⟨.inr hk.1, fun heq => ?_⟩
      obtain ⟨e, he, hek⟩ := List.mem_map.1 hk.1
      exact hkey e he (hek.trans heq)
    · intro hk
      exact ⟨hk.1.resolve_left hk.2, List.not_mem_nil⟩

/-- What stands above a place and what stands last is not the node at the place, so only the other
nodes of the heap count. -/
theorem Settled.congr {t' : Table P} {n : Nat} (h : t.Consistent) (hmem : t.heap.Mem n)
    (hheap : t'.heap = t.heap)
    (hnode : ∀ i, i < t.heap.size → i ≠ t.heap.pos n →
      t'.node (t.heap.seq i) = t.node (t.heap.seq i))
    (hsettled : t.Settled n) : t'.Settled n := by
  have hpos := (seq_pos h.placed hmem).1
  rw [Settled, hheap]
  intro hlast hzero
  have hlt : parent (t.heap.pos n) < t.heap.pos n := parent_lt hzero
  have hup := hnode (parent (t.heap.pos n)) (by omega) (by omega)
  have hend := hnode (t.heap.size - 1) (by omega) (by omega)
  rw [comp, hup, hend]
  exact hsettled hlast hzero

theorem settled_setPValue (h : t.Consistent) {n : Nat} (hmem : t.heap.Mem n) (p : P)
    (hsettled : t.Settled n) : (t.setPValue n p).Settled n := by
  have hpos := seq_pos h.placed hmem
  refine hsettled.congr h hmem rfl fun i hi hne => Function.update_of_ne ?_ _ _
  exact fun heq => hne (h.placed.inj hi hpos.1 (heq.trans hpos.2.symm))

theorem settled_newNode (h : t.Consistent) {n : Nat} (hmem : t.heap.Mem n) (destId : Bytes) (p : P)
    (hsettled : t.Settled n) : (t.newNode destId p).Settled n := by
  refine hsettled.congr h hmem rfl fun i hi _ => Function.update_of_ne ?_ _ _
  intro heq
  obtain ⟨⟨e, he, hen⟩, -⟩ := (h.held _).1 ⟨i, hi, rfl⟩
  have hlt := h.fresh e he
  omega

theorem touch_updated (h : t.Consistent) {destId : Bytes} (hzero : 0 ∉ destId)
    (hlong : minLength ≤ destId.length) (p : P) :
    ∃ t' acts, t.touch destId p = .ok (t', acts) ∧ Updated t destId p t' acts := by
  rw [touch]
  cases hfind : t.find destId with
  | none =>
      dsimp only
      rw [if_neg (by omega)]
      exact settle_new h hzero hlong (find_none hfind hlong) p
  | some e =>
      obtain ⟨he, rfl⟩ := find_mem hfind
      have hmem : t.heap.Mem e.2 := (h.held _).2 ⟨⟨e, he, rfl⟩, List.not_mem_nil⟩
      have hset := h.setPValue e.2 p
      have hdel := heapDel_unheaped (t := t.setPValue e.2 p) h.placed hmem
      refine settle_known (t := t) (hset.heapDel hmem) ?_ ?_ hdel.maxRoute ?_ p
      · rw [hdel.table]
        exact he
      · rw [names, hdel.table]
        rfl
      · intro hheap hfree
        exact hdel.heaped (setPValue_hole h hheap hmem p)
          (settled_setPValue h hmem p (hfree e he rfl))

theorem updateNew_updated (h : t.Consistent) {destId : Bytes} (hzero : 0 ∉ destId)
    (hlong : minLength ≤ destId.length) (p : P) :
    ∃ t' acts, (t.newNode destId p).update t.next = .ok (t', acts) ∧
      Updated t destId p t' acts := by
  have hself : (t.newNode destId p).node t.next = ⟨destId, p⟩ := Function.update_self ..
  rw [update, hself]
  dsimp only
  rw [cString_eq_self hzero, if_neg (by omega)]
  cases hfind : (t.newNode destId p).find destId with
  | none => exact settle_new h hzero hlong (find_none hfind hlong) p
  | some e =>
      obtain ⟨he, rfl⟩ := find_mem hfind
      have he' : e ∈ t.table := he
      have hmem : t.heap.Mem e.2 := (h.held _).2 ⟨⟨e, he', rfl⟩, List.not_mem_nil⟩
      obtain ⟨hlinked, hin, -, hmax, hnames, hheaped⟩ :=
        replace_linked (h.newNode e.1 p) he (n := t.next) (.inr ⟨Nat.lt_succ_self _,
          congrArg Node.destId hself, fun x hx => Nat.ne_of_lt (h.fresh x hx)⟩)
      refine settle_known (t := t) (e := (e.1, t.next)) hlinked hin hnames hmax ?_ p
      intro hheap hfree
      have hweak := (t.newNode e.1 p).comp_weak
      have hpos := seq_pos h.placed hmem
      have hheap' := newNode_heaped h hheap e.1 p
      exact hheaped (hheap'.withHole _ hpos.1) (settled_newNode h hmem e.1 p (hfree e he' rfl))

theorem updateHeld_updated (h : t.Consistent) {e : Bytes × Nat} (he : e ∈ t.table) (p : P) :
    ∃ t' acts, (t.setPValue e.2 p).update e.2 = .ok (t', acts) ∧ Updated t e.1 p t' acts := by
  have hset := h.setPValue e.2 p
  have hmem : t.heap.Mem e.2 := (h.held _).2 ⟨⟨e, he, rfl⟩, List.not_mem_nil⟩
  have hname := hset.named e he
  rw [update, hname.1, cString_eq_self hname.2.1, if_neg (by omega), hset.find_key he]
  obtain ⟨hlinked, hin, -, hmax, hnames, hheaped⟩ := replace_linked hset he (.inl rfl)
  refine settle_known (t := t) hlinked hin hnames hmax ?_ p
  intro hheap hfree
  exact hheaped (setPValue_hole h hheap hmem p) (settled_setPValue h hmem p (hfree e he rfl))

end Table

end Prophet

end Dtn2
