import Dtn2.Prophet.TableInvariant

/-!
# The quota of the route table

An eviction takes a node out of the map, the heap and the store. An update adds a node, evicts what is
too much, and reports the node.
-/

namespace Dtn2

namespace Prophet

open Framework BinaryHeap

namespace Table

variable {P : Type} {t : Table P}

/-! ## What an operation reports -/

def names (t : Table P) : List Bytes := t.table.map Prod.fst

/-- The persistent store holds the nodes of the map, apart from some that it misses. -/
def Agrees (t : Table P) (stored miss : List Bytes) : Prop :=
  stored.Nodup ∧ ∀ k, k ∈ stored ↔ k ∈ t.names ∧ k ∉ miss

/-- The nodes that are reported are in the map at that moment. -/
def Honest (acts : List (Act P)) : Prop :=
  ∀ s n, (Act.updateNode s n ∈ acts ∨ Act.deleteNode s n ∈ acts) → ∃ e ∈ s.table, e.2 = n

theorem Honest.nil : Honest ([] : List (Act P)) := by
  intro s n hmem
  simp at hmem

theorem Honest.append {acts acts' : List (Act P)} (h : Honest acts) (h' : Honest acts') :
    Honest (acts ++ acts') := by
  intro s n hmem
  rw [List.mem_append, List.mem_append] at hmem
  rcases hmem with (hl | hr) | (hl | hr)
  · exact h s n (.inl hl)
  · exact h' s n (.inl hr)
  · exact h s n (.inr hl)
  · exact h' s n (.inr hr)

theorem Honest.update {e : Bytes × Nat} (he : e ∈ t.table) : Honest [Act.updateNode t e.2] := by
  intro s n hmem
  simp only [List.mem_singleton, Act.updateNode.injEq, reduceCtorEq, or_false] at hmem
  obtain ⟨rfl, rfl⟩ := hmem
  exact ⟨e, he, rfl⟩

theorem Agrees.update (h : t.Consistent) {e : Bytes × Nat} (he : e ∈ t.table) {stored miss : List Bytes}
    (hmiss : miss = [] ∨ miss = [e.1]) (hstored : t.Agrees stored miss) :
    t.Agrees (store stored (.updateNode t e.2)) [] := by
  have hname := h.named e he
  have hin : e.1 ∈ t.names := List.mem_map.2 ⟨e, he, rfl⟩
  simp only [store]
  rw [hname.1, cString_eq_self hname.2.1]
  by_cases hold : e.1 ∈ stored
  · rw [if_pos hold]
    have hnone : miss = [] := by
      refine hmiss.resolve_right fun hone => ?_
      exact ((hstored.2 _).1 hold).2 (hone ▸ List.mem_singleton.2 rfl)
    rwa [← hnone]
  · rw [if_neg hold]
    refine ⟨?_, fun k => ?_⟩
    · rw [List.nodup_append]
      refine ⟨hstored.1, List.nodup_singleton _, ?_⟩
      intro a ha b hb heq
      rw [List.mem_singleton.1 hb] at heq
      exact hold (heq ▸ ha)
    · rw [List.mem_append, List.mem_singleton, hstored.2]
      constructor
      · intro hk
        cases hk with
        | inl hk => exact ⟨hk.1, List.not_mem_nil⟩
        | inr heq => exact ⟨heq ▸ hin, List.not_mem_nil⟩
      · intro hk
        by_cases hke : k = e.1
        · exact .inr hke
        · refine .inl ⟨hk.1, fun hm => ?_⟩
          cases hmiss with
          | inl hnone =>
              rw [hnone] at hm
              exact absurd hm List.not_mem_nil
          | inr hone =>
              rw [hone] at hm
              exact hke (List.mem_singleton.1 hm)

variable [LinearOrder P]

/-- No node has a smaller predictability than the ones that were evicted. -/
def Fair (acts : List (Act P)) : Prop :=
  ∀ s n, Act.evict s n ∈ acts →
    (∃ e ∈ s.table, e.2 = n) ∧ ∀ e ∈ s.table, ¬(s.node e.2).pValue < (s.node n).pValue

theorem Fair.nil : Fair ([] : List (Act P)) := fun _ _ hmem => absurd hmem List.not_mem_nil

theorem Fair.append {acts acts' : List (Act P)} (h : Fair acts) (h' : Fair acts') :
    Fair (acts ++ acts') := by
  intro s n hmem
  cases List.mem_append.1 hmem with
  | inl hl => exact h s n hl
  | inr hr => exact h' s n hr

theorem Fair.report (s : Table P) (n : Nat) :
    Fair [Act.updateNode s n] ∧ Fair [Act.deleteNode s n] := by
  constructor <;> intro s' n' hmem <;> simp at hmem

theorem Erased.agrees {e : Bytes × Nat} {t' : Table P} (h : t.Consistent) (he : e ∈ t.table)
    (herased : Erased t e t') {stored miss : List Bytes} (hstored : t.Agrees stored miss) : t'.Agrees (store stored (.deleteNode t e.2)) miss := by
  have hname := h.named e he
  have hstore : store stored (.deleteNode t e.2) = stored.erase e.1 := by
    rw [store, hname.1, cString_eq_self hname.2.1]
  rw [hstore]
  refine ⟨hstored.1.erase _, fun k => ?_⟩
  rw [hstored.1.mem_erase_iff, hstored.2, names, names, herased.table, List.mem_map, List.mem_map]
  constructor
  · rintro ⟨hne, ⟨x, hx, rfl⟩, hout⟩
    exact ⟨⟨x, h.nodup.mem_erase_iff.2 ⟨fun heq => hne (congrArg Prod.fst heq), hx⟩, rfl⟩, hout⟩
  · rintro ⟨⟨x, hx, rfl⟩, hout⟩
    obtain ⟨hne, hmem⟩ := h.nodup.mem_erase_iff.1 hx
    exact ⟨fun heq => hne (KeyedList.eq_of_key_eq Prod.fst h.keys hmem he heq), ⟨x, hmem, rfl⟩,
      hout⟩

/-! ## Evictions -/

omit [LinearOrder P] in
theorem top_entry (h : t.Consistent) (hsize : 0 < t.heap.size) :
    ∃ e ∈ t.table, e.2 = t.heap.seq 0 ∧ t.find (t.node (t.heap.seq 0)).destId = some e ∧
      cString (t.node (t.heap.seq 0)).destId = (t.node (t.heap.seq 0)).destId := by
  obtain ⟨⟨e, he, htop⟩, -⟩ := (h.held _).1 ⟨0, hsize, rfl⟩
  have hname := h.named e he
  rw [← htop, hname.1]
  exact ⟨e, he, rfl, h.find_key he, cString_eq_self hname.2.1⟩

theorem top_least (h : t.Consistent) (hheap : t.Heaped) {e : Bytes × Nat} (he : e ∈ t.table) :
    ¬(t.node e.2).pValue < (t.node (t.heap.seq 0)).pValue := by
  obtain ⟨i, hi, hie⟩ := (h.held e.2).2 ⟨⟨e, he, rfl⟩, List.not_mem_nil⟩
  have hweak := t.comp_weak
  have hfirst := hheap.root_first hi
  rw [hie] at hfirst
  simpa [comp] using hfirst

omit [LinearOrder P] in
theorem heap_nonempty (h : t.Consistent) {e : Bytes × Nat} (he : e ∈ t.table) : 0 < t.heap.size := by
  obtain ⟨i, hi, -⟩ := (h.held e.2).2 ⟨⟨e, he, rfl⟩, List.not_mem_nil⟩
  exact Nat.zero_lt_of_lt hi

structure Enforced (t t' : Table P) (acts : List (Act P)) : Prop where
  maxRoute : t'.maxRoute = t.maxRoute
  consistent : t'.Consistent
  quota : 0 < t.maxRoute → t'.table.length ≤ t.maxRoute
  heaped : t.Heaped → t'.Heaped ∧ Fair acts
  honest : Honest acts
  agrees : ∀ stored miss, t.Agrees stored miss → t'.Agrees (acts.foldl store stored) miss

theorem enforceLoop_enforced {fuel : Nat} :
    ∀ {t : Table P}, t.Consistent → t.heap.size ≤ fuel →
      ∃ t' acts, enforceLoop fuel t = .ok (t', acts) ∧ Enforced t t' acts := by
  have hstop : ∀ {t : Table P}, t.Consistent → ¬(t.maxRoute < t.table.length ∧ 0 < t.heap.size) →
      Enforced t t [] := by
    intro t h hdone
    refine ⟨rfl, h, ?_, fun hheap => ⟨hheap, .nil⟩, .nil, fun _ _ hs => hs⟩
    intro _
    by_contra hover
    obtain ⟨e, he⟩ := List.exists_mem_of_length_pos (show 0 < t.table.length by omega)
    exact hdone ⟨by omega, heap_nonempty h he⟩
  induction fuel with
  | zero =>
      intro t h hfuel
      have hdone : ¬(t.maxRoute < t.table.length ∧ 0 < t.heap.size) := by omega
      rw [enforceLoop, if_neg hdone]
      exact ⟨t, [], rfl, hstop h hdone⟩
  | succ fuel ih =>
      intro t h hfuel
      rw [enforceLoop]
      by_cases hover : t.maxRoute < t.table.length ∧ 0 < t.heap.size
      · rw [if_pos hover]
        obtain ⟨e, he, htop, hfind, hname⟩ := top_entry h hover.2
        have herased := remove_erased h he
        obtain ⟨t', acts, hloop, hrest⟩ := ih herased.consistent (by rw [herased.size]; omega)
        dsimp only
        rw [hname, hfind]
        dsimp only
        rw [hloop]
        refine ⟨t', _, rfl, hrest.maxRoute.trans herased.maxRoute, hrest.consistent, ?_, ?_, ?_, ?_⟩
        · rw [← herased.maxRoute]
          exact hrest.quota
        · intro hheap
          obtain ⟨hheap', hfair⟩ := hrest.heaped (herased.heaped htop.symm hheap)
          refine ⟨hheap', Fair.append ?_ hfair⟩
          intro s n hmem
          simp only [List.mem_cons, List.not_mem_nil, or_false, Act.evict.injEq, reduceCtorEq]
            at hmem
          obtain ⟨rfl, rfl⟩ := hmem
          exact ⟨⟨e, he, htop⟩, fun x hx => top_least h hheap hx⟩
        · refine Honest.append ?_ hrest.honest
          intro s n hmem
          simp only [List.mem_cons, List.not_mem_nil, or_false, Act.deleteNode.injEq, reduceCtorEq,
            false_or] at hmem
          obtain ⟨rfl, rfl⟩ := hmem
          exact ⟨e, he, rfl⟩
        · intro stored miss hstored
          exact hrest.agrees _ _ (herased.agrees h he hstored)
      · rw [if_neg hover]
        exact ⟨t, [], rfl, hstop h hover⟩

theorem enforceQuota_enforced (h : t.Consistent) :
    ∃ t' acts, t.enforceQuota = .ok (t', acts) ∧ Enforced t t' acts := by
  rw [enforceQuota]
  by_cases hmax : t.maxRoute = 0
  · rw [if_pos hmax]
    exact ⟨t, [], rfl, rfl, h, fun hpos => by omega, fun hheap => ⟨hheap, .nil⟩,
      .nil, fun _ _ hs => hs⟩
  · rw [if_neg hmax]
    exact enforceLoop_enforced h (Nat.le_add_left _ _)

/-- At most one node is too much, and it is not the one at the top: an entry stays. -/
theorem enforceQuota_spares (h : t.Consistent) {e : Bytes × Nat} (he : e ∈ t.table)
    (hroom : 0 < t.maxRoute → t.table.length ≤ t.maxRoute ∨
      t.table.length = t.maxRoute + 1 ∧ t.heap.seq 0 ≠ e.2)
    {t' : Table P} {acts : List (Act P)} (hquota : t.enforceQuota = .ok (t', acts)) :
    e ∈ t'.table := by
  have hstop : ∀ {fuel : Nat} {s : Table P}, s.table.length ≤ s.maxRoute →
      enforceLoop fuel s = .ok (s, []) := by
    intro fuel s hle
    cases fuel with
    | zero => rw [enforceLoop, if_neg (by omega)]
    | succ fuel => rw [enforceLoop, if_neg (by omega)]
  rw [enforceQuota] at hquota
  by_cases hmax : t.maxRoute = 0
  · rw [if_pos hmax] at hquota
    cases hquota
    exact he
  rw [if_neg hmax] at hquota
  cases hroom (by omega) with
  | inl hle =>
      rw [hstop hle] at hquota
      cases hquota
      exact he
  | inr hover =>
      have hsize := heap_nonempty h he
      obtain ⟨x, hx, htop, hfind, hname⟩ := top_entry h hsize
      have herased := remove_erased h hx
      have hlen : (t.remove x).table.length ≤ (t.remove x).maxRoute := by
        rw [herased.table, herased.maxRoute, List.length_erase_of_mem hx]
        omega
      obtain ⟨fuel, hfuel⟩ : ∃ fuel, t.table.length + t.heap.size = fuel + 1 :=
        ⟨t.table.length + t.heap.size - 1, by omega⟩
      rw [hfuel, enforceLoop, if_pos ⟨by omega, hsize⟩] at hquota
      dsimp only at hquota
      rw [hname, hfind] at hquota
      dsimp only at hquota
      rw [hstop hlen] at hquota
      cases hquota
      rw [herased.table, h.nodup.mem_erase_iff]
      exact ⟨fun heq => hover.2 (by rw [← htop, heq]), he⟩

/-! ## The end of an update -/

/-- What an update does with a node that is out of the heap. -/
structure Finished (t : Table P) (e : Bytes × Nat) (t' : Table P) (acts : List (Act P)) : Prop where
  maxRoute : t'.maxRoute = t.maxRoute
  consistent : t'.Consistent
  quota : 0 < t.maxRoute → t'.table.length ≤ t.maxRoute
  heaped : t.Heaped → t'.Heaped ∧ Fair acts
  spared : (0 < t.maxRoute → t.table.length ≤ t.maxRoute ∨
      t.table.length = t.maxRoute + 1 ∧ 0 < t.heap.size ∧
        ¬(t.node e.2).pValue < (t.node (t.heap.seq 0)).pValue) →
    Honest acts ∧ ∀ stored miss, miss = [] ∨ miss = [e.1] → t.Agrees stored miss →
      t'.Agrees (acts.foldl store stored) []

theorem settle_finished {e : Bytes × Nat} (h : t.Linked [e.2]) (he : e ∈ t.table) :
    ∃ t' acts, t.settle e.2 = .ok (t', acts) ∧ Finished t e t' acts := by
  have hadd := h.heapAdd ⟨e, he, rfl⟩
  obtain ⟨t', acts, hquota, hdone⟩ := enforceQuota_enforced hadd
  rw [settle, hquota]
  refine ⟨t', _, rfl, hdone.maxRoute, hdone.consistent, hdone.quota, ?_, ?_⟩
  · intro hheap
    obtain ⟨hheap', hfair⟩ := hdone.heaped (heapAdd_heaped hheap e.2)
    exact ⟨hheap', hfair.append (Fair.report t' e.2).1⟩
  · intro hroom
    have hspared : e ∈ t'.table := by
      refine enforceQuota_spares hadd he ?_ hquota
      intro hmax
      cases hroom hmax with
      | inl hle => exact .inl hle
      | inr hover =>
          refine .inr ⟨hover.1, ?_⟩
          have htop : (t.heapAdd e.2).heap.seq 0 = t.heap.seq 0 :=
            NodeHeap.add_top hover.2.1 (by simpa [comp] using hover.2.2)
          have hnew : ¬t.heap.Mem e.2 := fun hmem => ((h.held _).1 hmem).2 (List.mem_singleton.2 rfl)
          rw [htop]
          exact fun heq => hnew ⟨0, hover.2.1, heq⟩
    refine ⟨hdone.honest.append (Honest.update hspared), ?_⟩
    intro stored miss hmiss hstored
    rw [List.foldl_append]
    exact Agrees.update hdone.consistent hspared hmiss (hdone.agrees stored miss hstored)

end Table

end Prophet

end Dtn2
