import Dtn2.Framework.KeyedList
import Dtn2.Prophet.Table

/-!
# The nodes of the route table

Map and heap hold the same nodes, and every node is found under its endpoint id and at the place in the
heap that it was told. In between the steps of an operation some nodes of the map are out of the heap.
-/

namespace Dtn2

namespace Prophet

open Framework BinaryHeap

namespace Table

variable {P : Type} {t : Table P}

/-- The nodes of the map are in the heap, apart from some. -/
structure Linked (t : Table P) (out : List Nat) : Prop where
  keys : (t.table.map Prod.fst).Nodup
  named : ∀ e ∈ t.table, (t.node e.2).destId = e.1 ∧ 0 ∉ e.1 ∧ minLength ≤ e.1.length
  fresh : ∀ e ∈ t.table, e.2 < t.next
  placed : t.heap.Placed
  held : ∀ n, t.heap.Mem n ↔ (∃ e ∈ t.table, e.2 = n) ∧ n ∉ out

abbrev Consistent (t : Table P) : Prop := t.Linked []

/-! ## The map -/

theorem find_mem {destId : Bytes} {e : Bytes × Nat} (h : t.find destId = some e) :
    e ∈ t.table ∧ e.1 = destId := by
  rw [find] at h
  by_cases hshort : destId.length < minLength
  · rw [if_pos hshort] at h
    exact absurd h (by simp)
  · rw [if_neg hshort] at h
    have heq := List.find?_some h
    exact ⟨List.mem_of_find?_eq_some h, of_decide_eq_true heq⟩

theorem find_none {destId : Bytes} (h : t.find destId = none) (hlong : minLength ≤ destId.length) :
    ∀ e ∈ t.table, e.1 ≠ destId := by
  rw [find, if_neg (by omega), List.find?_eq_none] at h
  intro e he heq
  exact h e he (decide_eq_true heq)

variable {out : List Nat}

theorem Linked.find_key (h : t.Linked out) {e : Bytes × Nat} (he : e ∈ t.table) :
    t.find e.1 = some e := by
  have hlong := (h.named e he).2.2
  cases hfind : t.find e.1 with
  | none => exact absurd rfl (find_none hfind hlong e he)
  | some x =>
      have hx := find_mem hfind
      rw [KeyedList.eq_of_key_eq Prod.fst h.keys hx.1 he hx.2]

theorem Linked.inj (h : t.Linked out) {e e' : Bytes × Nat} (he : e ∈ t.table) (he' : e' ∈ t.table)
    (hsame : e.2 = e'.2) : e = e' := by
  refine KeyedList.eq_of_key_eq Prod.fst h.keys he he' ?_
  rw [← (h.named e he).1, hsame, (h.named e' he').1]

theorem Linked.nodup (h : t.Linked out) : t.table.Nodup := List.Nodup.of_map Prod.fst h.keys

theorem Linked.erase_mem (h : t.Linked out) {e : Bytes × Nat} (he : e ∈ t.table) (m : Nat) :
    (∃ x ∈ t.table.erase e, x.2 = m) ↔ (∃ x ∈ t.table, x.2 = m) ∧ m ≠ e.2 := by
  constructor
  · rintro ⟨x, hx, rfl⟩
    obtain ⟨hne, hmem⟩ := h.nodup.mem_erase_iff.1 hx
    exact ⟨⟨x, hmem, rfl⟩, fun heq => hne (h.inj hmem he heq)⟩
  · rintro ⟨⟨x, hx, rfl⟩, hne⟩
    exact ⟨x, h.nodup.mem_erase_iff.2 ⟨fun heq => hne (congrArg Prod.snd heq), hx⟩, rfl⟩

theorem insertEntry_perm (e : Bytes × Nat) (xs : List (Bytes × Nat)) :
    (insertEntry e xs).Perm (e :: xs) := by
  induction xs with
  | nil => exact .refl _
  | cons x xs ih =>
      rw [insertEntry]
      by_cases hlt : x.1 < e.1
      · rw [if_pos hlt]
        exact (ih.cons x).trans (.swap e x xs)
      · rw [if_neg hlt]

/-! ## The steps of the operations -/

theorem Linked.setPValue (h : t.Linked out) (n : Nat) (p : P) : (t.setPValue n p).Linked out := by
  refine ⟨h.keys, fun e he => ?_, h.fresh, h.placed, h.held⟩
  refine ⟨?_, (h.named e he).2⟩
  by_cases hen : e.2 = n
  · simp only [Table.setPValue]
    rw [← (h.named e he).1, hen, Function.update_self]
  · simp only [Table.setPValue]
    rw [Function.update_of_ne hen]
    exact (h.named e he).1

theorem Linked.newNode (h : t.Linked out) (destId : Bytes) (p : P) :
    (t.newNode destId p).Linked out := by
  have hnode : ∀ e ∈ t.table, (t.newNode destId p).node e.2 = t.node e.2 :=
    fun e he => Function.update_of_ne (Nat.ne_of_lt (h.fresh e he)) _ _
  refine ⟨h.keys, fun e he => ?_, fun e he => Nat.lt_succ_of_lt (h.fresh e he), h.placed, h.held⟩
  rw [hnode e he]
  exact h.named e he

theorem Linked.insert (h : t.Linked []) {destId : Bytes} {n : Nat}
    (hname : (t.node n).destId = destId ∧ 0 ∉ destId ∧ minLength ≤ destId.length) (hn : n < t.next)
    (hkey : ∀ e ∈ t.table, e.1 ≠ destId) (hnew : ∀ e ∈ t.table, e.2 ≠ n) :
    (t.insert destId n).Linked [n] ∧ (destId, n) ∈ (t.insert destId n).table := by
  have hperm : (t.insert destId n).table.Perm ((destId, n) :: t.table) :=
    insertEntry_perm (destId, n) t.table
  have hmem : ∀ e, e ∈ (t.insert destId n).table ↔ e = (destId, n) ∨ e ∈ t.table :=
    fun e => by rw [hperm.mem_iff, List.mem_cons]
  refine ⟨⟨?_, ?_, ?_, h.placed, ?_⟩, (hmem _).2 (.inl rfl)⟩
  · rw [(hperm.map Prod.fst).nodup_iff, List.map_cons, List.nodup_cons]
    refine ⟨fun hx => ?_, h.keys⟩
    obtain ⟨e, he, heq⟩ := List.mem_map.1 hx
    exact hkey e he heq
  · intro e he
    cases (hmem e).1 he with
    | inl heq =>
        rw [heq]
        exact hname
    | inr hold => exact h.named e hold
  · intro e he
    cases (hmem e).1 he with
    | inl heq =>
        rw [heq]
        exact hn
    | inr hold => exact h.fresh e hold
  · intro m
    show t.heap.Mem m ↔ _
    rw [h.held]
    constructor
    · rintro ⟨⟨e, he, rfl⟩, -⟩
      exact ⟨⟨e, (hmem e).2 (.inr he), rfl⟩, fun hx => hnew e he (List.mem_singleton.1 hx)⟩
    · rintro ⟨⟨e, he, rfl⟩, hout⟩
      refine ⟨?_, List.not_mem_nil⟩
      cases (hmem e).1 he with
      | inl heq =>
          rw [heq] at hout
          exact absurd (List.mem_singleton.2 rfl) hout
      | inr hold => exact ⟨e, hold, rfl⟩

theorem seq_pos (hplaced : t.heap.Placed) {n : Nat} (hmem : t.heap.Mem n) :
    t.heap.pos n < t.heap.size ∧ t.heap.seq (t.heap.pos n) = n :=
  (hplaced.mem_iff n).1 hmem

variable [LinearOrder P]

abbrev Heaped (t : Table P) : Prop := NodeHeap.Heaped t.comp t.heap

theorem comp_weak (t : Table P) : NodeHeap.Weak t.comp where
  irrefl a := by simp [comp]
  trans a b c := by
    simp only [comp, decide_eq_true_eq]
    exact fun hab hbc => hbc.trans hab
  incomp_trans a b c := by
    simp only [comp, decide_eq_true_eq, not_lt]
    exact fun hab hbc => ⟨hab.1.trans hbc.1, hbc.2.trans hab.2⟩

/-- The condition on the heap when a node is taken out of it. -/
def Settled (t : Table P) (n : Nat) : Prop := NodeHeap.Settled t.comp t.heap (t.heap.pos n)

theorem heapDel_eq (hplaced : t.heap.Placed) {n : Nat} (hmem : t.heap.Mem n) :
    t.heapDel n = { t with heap := t.heap.remove t.comp (t.heap.pos n) } := by
  have hpos := seq_pos hplaced hmem
  rw [heapDel, if_pos ⟨hpos.1, by rw [hpos.2]⟩]

/-- What `heap_del` does with a node that is in the heap. -/
structure Unheaped (t : Table P) (n : Nat) (t' : Table P) : Prop where
  node : t'.node = t.node
  next : t'.next = t.next
  table : t'.table = t.table
  maxRoute : t'.maxRoute = t.maxRoute
  removed : NodeHeap.Removed t.heap (t.heap.pos n) t'.heap
  heaped : HoleOrder (fun x y => t.comp x y = true) t.heap.seq 0 t.heap.size (t.heap.pos n) →
    t.Settled n → t'.Heaped

theorem heapDel_unheaped (hplaced : t.heap.Placed) {n : Nat} (hmem : t.heap.Mem n) :
    Unheaped t n (t.heapDel n) := by
  have hpos := seq_pos hplaced hmem
  rw [heapDel_eq hplaced hmem]
  exact ⟨rfl, rfl, rfl, rfl, NodeHeap.remove_removed t.comp_weak hplaced hpos.1,
    fun hhole hsettled => NodeHeap.remove_heaped t.comp_weak hhole hsettled⟩

theorem Unheaped.mem {n : Nat} {t' : Table P} (h : Unheaped t n t') (hplaced : t.heap.Placed)
    (hmem : t.heap.Mem n) (m : Nat) : t'.heap.Mem m ↔ t.heap.Mem m ∧ m ≠ n := by
  rw [h.removed.mem, (seq_pos hplaced hmem).2]

theorem Linked.heapDel (h : t.Linked out) {n : Nat} (hmem : t.heap.Mem n) :
    (t.heapDel n).Linked (n :: out) := by
  have hdel := heapDel_unheaped h.placed hmem
  generalize t.heapDel n = t' at hdel
  refine ⟨?_, ?_, ?_, hdel.removed.placed, ?_⟩
  · rw [hdel.table]
    exact h.keys
  · rw [hdel.table, hdel.node]
    exact h.named
  · rw [hdel.table, hdel.next]
    exact h.fresh
  · intro m
    rw [hdel.mem h.placed hmem, hdel.table, h.held, List.mem_cons, not_or]
    exact ⟨fun hm => ⟨hm.1.1, hm.2, hm.1.2⟩, fun hm => ⟨⟨hm.1, hm.2.2⟩, hm.2.1⟩⟩

theorem Linked.heapAdd {n : Nat} (h : t.Linked [n]) (hin : ∃ e ∈ t.table, e.2 = n) :
    (t.heapAdd n).Consistent := by
  have hnew : ¬t.heap.Mem n := fun hmem => ((h.held n).1 hmem).2 (List.mem_singleton.2 rfl)
  have hadded : NodeHeap.Added t.heap n (t.heap.add t.comp n) := NodeHeap.add_added h.placed hnew
  refine ⟨h.keys, h.named, h.fresh, hadded.placed, fun m => ?_⟩
  show (t.heap.add t.comp n).Mem m ↔ _
  rw [hadded.mem, h.held]
  constructor
  · intro hm
    refine ⟨?_, List.not_mem_nil⟩
    cases hm with
    | inl hold => exact hold.1
    | inr heq => rw [heq]; exact hin
  · intro hm
    by_cases hmn : m = n
    · exact .inr hmn
    · exact .inl ⟨hm.1, fun hx => hmn (List.mem_singleton.1 hx)⟩

theorem heapAdd_heaped (h : t.Heaped) (n : Nat) : (t.heapAdd n).Heaped :=
  NodeHeap.add_heaped t.comp_weak t.heap n h

theorem setPValue_hole (h : t.Linked out) (hheap : t.Heaped) {n : Nat} (hmem : t.heap.Mem n) (p : P) :
    HoleOrder (fun x y => (t.setPValue n p).comp x y = true) t.heap.seq 0 t.heap.size
      (t.heap.pos n) := by
  have hpos := seq_pos h.placed hmem
  have hweak := t.comp_weak
  have hold := hheap.withHole (t.heap.pos n) hpos.1
  have hne : ∀ i, i < t.heap.size → i ≠ t.heap.pos n → t.heap.seq i ≠ n := by
    intro i hi hne heq
    exact hne (h.placed.inj hi hpos.1 (heq.trans hpos.2.symm))
  have hcomp : ∀ a b, a ≠ n → b ≠ n → (t.setPValue n p).comp a b = t.comp a b := by
    intro a b ha hb
    simp only [comp, Table.setPValue, Function.update_of_ne ha, Function.update_of_ne hb]
  constructor
  · intro i hi hlt hle hin hparent
    have hlt' := parent_lt hi
    rw [hcomp _ _ (hne _ (by omega) hparent) (hne i hlt hin)]
    exact hold.off i hi hlt hle hin hparent
  · intro hhole hle i hi hlt hparent
    have hlt' := parent_lt hi
    have hlt'' := parent_lt hhole
    rw [hcomp _ _ (hne _ (by omega) (by omega)) (hne i hlt (by omega))]
    exact hold.across hhole hle i hi hlt hparent

theorem newNode_heaped (h : t.Linked out) (hheap : t.Heaped) (destId : Bytes) (p : P) :
    (t.newNode destId p).Heaped := by
  have hold : ∀ i, i < t.heap.size → t.heap.seq i ≠ t.next := by
    intro i hi heq
    obtain ⟨⟨e, he, hen⟩, -⟩ := (h.held _).1 ⟨i, hi, rfl⟩
    have hlt := h.fresh e he
    omega
  intro i hi hlt hle
  have hlt' := parent_lt hi
  have hcomp : (t.newNode destId p).comp (t.heap.seq (parent i)) (t.heap.seq i) =
      t.comp (t.heap.seq (parent i)) (t.heap.seq i) := by
    simp only [comp, Table.newNode, Function.update_of_ne (hold i hlt),
      Function.update_of_ne (hold (parent i) (Nat.lt_trans hlt' hlt))]
  show ¬(t.newNode destId p).comp (t.heap.seq (parent i)) (t.heap.seq i) = true
  rw [hcomp]
  exact hheap i hi hlt hle

/-- What `remove` does with an entry of the map. -/
structure Erased (t : Table P) (e : Bytes × Nat) (t' : Table P) : Prop where
  node : t'.node = t.node
  next : t'.next = t.next
  table : t'.table = t.table.erase e
  maxRoute : t'.maxRoute = t.maxRoute
  consistent : t'.Consistent
  size : t'.heap.size = t.heap.size - 1
  heaped : t.heap.seq 0 = e.2 → t.Heaped → t'.Heaped

theorem remove_erased (h : t.Consistent) {e : Bytes × Nat} (he : e ∈ t.table) :
    Erased t e (t.remove e) := by
  have hmem : t.heap.Mem e.2 := (h.held _).2 ⟨⟨e, he, rfl⟩, List.not_mem_nil⟩
  have hdel : Unheaped { t with table := t.table.erase e } e.2 (t.remove e) :=
    heapDel_unheaped (t := { t with table := t.table.erase e }) h.placed hmem
  generalize t.remove e = t' at hdel
  refine ⟨hdel.node, hdel.next, hdel.table, hdel.maxRoute, ⟨?_, ?_, ?_, hdel.removed.placed, ?_⟩,
    hdel.removed.size, ?_⟩
  · rw [hdel.table]
    exact (List.erase_sublist.map Prod.fst).nodup h.keys
  · rw [hdel.table, hdel.node]
    exact fun x hx => h.named x (List.mem_of_mem_erase hx)
  · rw [hdel.table, hdel.next]
    exact fun x hx => h.fresh x (List.mem_of_mem_erase hx)
  · intro m
    rw [hdel.mem h.placed hmem, hdel.table, h.erase_mem he]
    show t.heap.Mem m ∧ m ≠ e.2 ↔ _
    rw [h.held]
    exact ⟨fun hm => ⟨⟨hm.1.1, hm.2⟩, List.not_mem_nil⟩, fun hm => ⟨⟨hm.1.1, List.not_mem_nil⟩, hm.1.2⟩⟩
  · intro htop hheap
    have hpos := seq_pos h.placed hmem
    have hzero : t.heap.pos e.2 = 0 := by
      rw [← htop]
      exact h.placed 0 (by omega)
    have hweak := t.comp_weak
    refine hdel.heaped (hheap.withHole _ hpos.1) ?_
    intro _ hlt
    have hlt' : 0 < t.heap.pos e.2 := hlt
    omega

theorem replace_linked (h : t.Consistent) {e : Bytes × Nat} (he : e ∈ t.table) {n : Nat}
    (hn : n = e.2 ∨ (n < t.next ∧ (t.node n).destId = e.1 ∧ ∀ x ∈ t.table, x.2 ≠ n)) :
    (t.replace e n).Linked [n] ∧ (e.1, n) ∈ (t.replace e n).table ∧ (t.replace e n).node = t.node ∧
      (t.replace e n).maxRoute = t.maxRoute ∧
      (t.replace e n).table.map Prod.fst = t.table.map Prod.fst ∧
      (HoleOrder (fun x y => t.comp x y = true) t.heap.seq 0 t.heap.size (t.heap.pos e.2) →
        t.Settled e.2 → (t.replace e n).Heaped) := by
  have hmem : t.heap.Mem e.2 := (h.held _).2 ⟨⟨e, he, rfl⟩, List.not_mem_nil⟩
  have hdel : Unheaped
      { t with table := t.table.map fun x => if x = e then (e.1, n) else x } e.2 (t.replace e n) :=
    heapDel_unheaped (t := { t with table := t.table.map fun x => if x = e then (e.1, n) else x })
      h.placed hmem
  have hentry : ∀ x, x ∈ t.table.map (fun x => if x = e then (e.1, n) else x) ↔
      x = (e.1, n) ∨ x ∈ t.table ∧ x ≠ e := by
    intro x
    rw [List.mem_map]
    constructor
    · rintro ⟨y, hy, rfl⟩
      by_cases hye : y = e
      · exact .inl (if_pos hye)
      · rw [if_neg hye]
        exact .inr ⟨hy, hye⟩
    · intro hx
      cases hx with
      | inl heq => exact ⟨e, he, by rw [if_pos rfl, heq]⟩
      | inr hold => exact ⟨x, hold.1, if_neg hold.2⟩
  have hkeys : (t.table.map fun x => if x = e then (e.1, n) else x).map Prod.fst =
      t.table.map Prod.fst := by
    rw [List.map_map]
    refine List.map_congr_left fun x _ => ?_
    rw [Function.comp_apply]
    by_cases hxe : x = e
    · rw [if_pos hxe, hxe]
    · rw [if_neg hxe]
  have hnode : (t.node n).destId = e.1 ∧ n < t.next := by
    cases hn with
    | inl heq =>
        rw [heq]
        exact ⟨(h.named e he).1, h.fresh e he⟩
    | inr hnew => exact ⟨hnew.2.1, hnew.1⟩
  generalize t.replace e n = t' at hdel
  refine ⟨⟨?_, ?_, ?_, hdel.removed.placed, ?_⟩, ?_, hdel.node, hdel.maxRoute, ?_, hdel.heaped⟩
  · rw [hdel.table, hkeys]
    exact h.keys
  · rw [hdel.table, hdel.node]
    intro x hx
    cases (hentry x).1 hx with
    | inl heq =>
        rw [heq]
        exact ⟨hnode.1, (h.named e he).2⟩
    | inr hold => exact h.named x hold.1
  · rw [hdel.table, hdel.next]
    intro x hx
    cases (hentry x).1 hx with
    | inl heq =>
        rw [heq]
        exact hnode.2
    | inr hold => exact h.fresh x hold.1
  · intro m
    rw [hdel.mem h.placed hmem, hdel.table]
    show t.heap.Mem m ∧ m ≠ e.2 ↔ _
    rw [h.held]
    constructor
    · rintro ⟨⟨⟨x, hx, rfl⟩, -⟩, hne⟩
      have hxe : x ≠ e := fun heq => hne (congrArg Prod.snd heq)
      refine ⟨⟨x, (hentry x).2 (.inr ⟨hx, hxe⟩), rfl⟩, fun hxn => ?_⟩
      have hxn := List.mem_singleton.1 hxn
      cases hn with
      | inl heq => exact hne (hxn.trans heq)
      | inr hnew => exact hnew.2.2 x hx hxn
    · rintro ⟨⟨x, hx, rfl⟩, hout⟩
      cases (hentry x).1 hx with
      | inl heq =>
          rw [heq] at hout
          exact absurd (List.mem_singleton.2 rfl) hout
      | inr hold =>
          exact ⟨⟨⟨x, hold.1, rfl⟩, List.not_mem_nil⟩, fun heq => hold.2 (h.inj hold.1 he heq)⟩
  · rw [hdel.table]
    exact (hentry _).2 (.inl rfl)
  · rw [hdel.table]
    exact hkeys

end Table

end Prophet

end Dtn2
