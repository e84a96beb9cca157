import Dtn2.Prophet.TableUpdates

/-!
# Aging and truncation of the route table
-/

namespace Dtn2

namespace Prophet

open Framework BinaryHeap

namespace Table

variable {P : Type} [LinearOrder P] {t : Table P}

/-! ## Aging -/

theorem aged (h : t.Consistent) {e : Bytes × Nat} (he : e ∈ t.table) (p : P) {t' : Table P}
    (heq : ((t.setPValue e.2 p).heapDel e.2).heapAdd e.2 = t') :
    t'.Consistent ∧ t'.table = t.table ∧ t'.maxRoute = t.maxRoute ∧
      (t.Heaped → t.Settled e.2 → t'.Heaped) := by
  have hmem : t.heap.Mem e.2 := (h.held _).2 ⟨⟨e, he, rfl⟩, List.not_mem_nil⟩
  have hdel := heapDel_unheaped (t := t.setPValue e.2 p) h.placed hmem
  have hlinked : ((t.setPValue e.2 p).heapDel e.2).Linked [e.2] := (h.setPValue e.2 p).heapDel hmem
  rw [← heq]
  refine ⟨hlinked.heapAdd ⟨e, by rw [hdel.table]; exact he, rfl⟩, hdel.table, hdel.maxRoute, ?_⟩
  intro hheap hsettled
  exact heapAdd_heaped (hdel.heaped (setPValue_hole h hheap hmem p)
    (settled_setPValue h hmem p hsettled)) e.2

/-- Every node may be taken out of the heap at its turn. -/
def AgeSettled (age : Nat → P) : List (Bytes × Nat) → Table P → Prop
  | [], _ => True
  | e :: rest, t =>
      t.Settled e.2 ∧ AgeSettled age rest (((t.setPValue e.2 (age e.2)).heapDel e.2).heapAdd e.2)

/-- What `age_nodes` does. -/
structure Aged (age : Nat → P) (entries : List (Bytes × Nat)) (t : Table P)
    (r : Table P × List (Act P)) : Prop where
  consistent : r.1.Consistent
  table : r.1.table = t.table
  maxRoute : r.1.maxRoute = t.maxRoute
  honest : Honest r.2
  agrees : ∀ stored, t.Agrees stored [] → r.1.Agrees (r.2.foldl store stored) []
  heaped : t.Heaped → AgeSettled age entries t → r.1.Heaped ∧ Fair r.2

theorem ageLoop_aged (age : Nat → P) (entries : List (Bytes × Nat)) :
    ∀ {t : Table P}, t.Consistent → (∀ e ∈ entries, e ∈ t.table) →
      Aged age entries t (ageLoop age t entries) := by
  induction entries with
  | nil =>
      intro t h _
      exact ⟨h, rfl, rfl, .nil, fun _ hs => hs, fun hheap _ => ⟨hheap, .nil⟩⟩
  | cons e rest ih =>
      intro t h hin
      have he := hin e List.mem_cons_self
      rw [ageLoop]
      generalize heq : ((t.setPValue e.2 (age e.2)).heapDel e.2).heapAdd e.2 = t₁
      obtain ⟨h₁, htable, hmax, hheaped⟩ := aged h he (age e.2) heq
      have hrest := ih h₁ fun x hx => by
        rw [htable]
        exact hin x (List.mem_cons_of_mem _ hx)
      have he₁ : e ∈ t₁.table := by rwa [htable]
      refine ⟨hrest.consistent, hrest.table.trans htable, hrest.maxRoute.trans hmax,
        (Honest.update he₁).append hrest.honest, ?_, ?_⟩
      · intro stored hstored
        refine hrest.agrees _ (Agrees.update h₁ he₁ (.inl rfl) ?_)
        rwa [Agrees, names, htable]
      · intro hheap hsettled
        rw [AgeSettled, heq] at hsettled
        obtain ⟨hheap', hfair⟩ := hrest.heaped (hheaped hheap hsettled.1) hsettled.2
        exact ⟨hheap', (Fair.report t₁ e.2).1.append hfair⟩

/-! ## Truncation -/

/-- What `truncate` does, with an epsilon that some node reaches. -/
structure Truncated (epsilon : P) (t t' : Table P) (acts : List (Act P)) : Prop where
  consistent : t'.Consistent
  maxRoute : t'.maxRoute = t.maxRoute
  node : t'.node = t.node
  length : t'.table.length ≤ t.table.length
  honest : Honest acts
  agrees : ∀ stored, t.Agrees stored [] → t'.Agrees (acts.foldl store stored) []
  heaped : t.Heaped → t'.Heaped ∧ Fair acts ∧
    t'.table = t.table.filter fun e => decide (epsilon ≤ (t.node e.2).pValue)

theorem truncateLoop_truncated {epsilon : P} {fuel : Nat} :
    ∀ {t : Table P}, t.Consistent → t.table.length ≤ fuel →
      (∃ e ∈ t.table, epsilon ≤ (t.node e.2).pValue) →
      ∃ t' acts, truncateLoop epsilon fuel t = .ok (t', acts) ∧ Truncated epsilon t t' acts := by
  induction fuel with
  | zero =>
      intro t h hfuel hsome
      obtain ⟨e, he, -⟩ := hsome
      have hlen := List.length_pos_of_mem he
      omega
  | succ fuel ih =>
      intro t h hfuel hsome
      obtain ⟨x, hx, hreach⟩ := hsome
      have hsize := heap_nonempty h hx
      rw [truncateLoop, if_neg (by omega)]
      obtain ⟨e, he, htop, hfind, -⟩ := top_entry h hsize
      by_cases hbelow : (t.node (t.heap.seq 0)).pValue < epsilon
      · rw [if_pos hbelow, hfind]
        dsimp only
        rw [← htop] at hbelow
        have herased := remove_erased h he
        have hne : x ≠ e := by
          intro heq
          rw [heq] at hreach
          exact absurd hbelow (not_lt.2 hreach)
        have hlen : (t.remove e).table.length = t.table.length - 1 := by
          rw [herased.table, List.length_erase_of_mem he]
        obtain ⟨t', acts, hloop, hrest⟩ := ih herased.consistent (by omega)
          ⟨x, by rw [herased.table, h.nodup.mem_erase_iff]; exact ⟨hne, hx⟩, by rwa [herased.node]⟩
        rw [hloop]
        refine ⟨t', _, rfl, hrest.consistent, hrest.maxRoute.trans herased.maxRoute,
          hrest.node.trans herased.node, hrest.length.trans (by omega), ?_, ?_, ?_⟩
        · refine @Honest.append _ [Act.deleteNode t e.2] _ ?_ hrest.honest
          intro s n hmem
          simp only [List.mem_singleton, Act.deleteNode.injEq, reduceCtorEq, false_or] at hmem
          obtain ⟨rfl, rfl⟩ := hmem
          exact ⟨e, he, rfl⟩
        · intro stored hstored
          exact hrest.agrees _ (herased.agrees h he hstored)
        · intro hheap
          obtain ⟨hheap', hfair, htable⟩ := hrest.heaped (herased.heaped htop.symm hheap)
          refine ⟨hheap', (Fair.report t e.2).2.append hfair, ?_⟩
          rw [htable, herased.table, herased.node, h.nodup.erase_eq_filter, List.filter_filter]
          refine List.filter_congr fun y _ => ?_
          by_cases hye : y = e
          · rw [hye]
            simp [hbelow]
          · simp [hye]
      · rw [if_neg hbelow]
        refine ⟨t, [], rfl, h, rfl, rfl, Nat.le_refl _, .nil, fun _ hs => hs, ?_⟩
        intro hheap
        refine ⟨hheap, .nil, (List.filter_eq_self.2 ?_).symm⟩
        intro y hy
        have hleast := top_least h hheap hy
        exact decide_eq_true ((not_lt.1 hbelow).trans (not_lt.1 hleast))

theorem free_linked (entries : List (Bytes × Nat)) :
    ∀ {t : Table P} {out : List Nat}, t.Linked out → (∀ e ∈ entries, e ∈ t.table ∧ e.2 ∉ out) →
      (entries.map Prod.snd).Nodup →
      ∃ out', (∀ n, n ∈ out' ↔ n ∈ entries.map Prod.snd ∨ n ∈ out) ∧
        (entries.foldl (fun t e => t.heapDel e.2) t).Linked out' ∧
        (entries.foldl (fun t e => t.heapDel e.2) t).table = t.table ∧
        (entries.foldl (fun t e => t.heapDel e.2) t).maxRoute = t.maxRoute := by
  induction entries with
  | nil =>
      intro t out h _ _
      exact ⟨out, fun n => by simp, h, rfl, rfl⟩
  | cons e rest ih =>
      intro t out h hin hnodup
      rw [List.map_cons, List.nodup_cons] at hnodup
      obtain ⟨he, hout⟩ := hin e List.mem_cons_self
      have hmem : t.heap.Mem e.2 := (h.held _).2 ⟨⟨e, he, rfl⟩, hout⟩
      have hdel := heapDel_unheaped h.placed hmem
      obtain ⟨out', hmem', hlinked, htable, hmax⟩ := ih (h.heapDel hmem) (by
        intro x hx
        obtain ⟨hxt, hxo⟩ := hin x (List.mem_cons_of_mem _ hx)
        rw [hdel.table, List.mem_cons, not_or]
        refine ⟨hxt, fun heq => hnodup.1 ?_, hxo⟩
        exact List.mem_map.2 ⟨x, hx, heq⟩) hnodup.2
      refine ⟨out', fun n => ?_, hlinked, htable.trans hdel.table, hmax.trans hdel.maxRoute⟩
      rw [hmem', List.mem_cons, List.map_cons, List.mem_cons]
      tauto

theorem empty_consistent (htable : t.table = []) (hheap : t.heap.size = 0) :
    t.Consistent ∧ t.Heaped := by
  refine ⟨⟨?_, ?_, ?_, ?_, ?_⟩, ?_⟩
  · rw [htable]
    exact List.nodup_nil
  · rw [htable]
    exact fun e he => absurd he List.not_mem_nil
  · rw [htable]
    exact fun e he => absurd he List.not_mem_nil
  · intro i hi
    omega
  · intro n
    rw [htable]
    constructor
    · rintro ⟨i, hi, -⟩
      omega
    · rintro ⟨⟨e, he, -⟩, -⟩
      exact absurd he List.not_mem_nil
  · intro i hi hlt
    omega

theorem clear_empty (h : t.Consistent) :
    t.clear.table = [] ∧ t.clear.heap.size = 0 ∧ t.clear.maxRoute = t.maxRoute := by
  have hrefs : (t.table.map Prod.snd).Nodup := by
    refine (List.nodup_map_iff_inj_on h.nodup).2 ?_
    exact fun x hx y hy heq => h.inj hx hy heq
  obtain ⟨out, hout, hlinked, htable, hmax⟩ :=
    free_linked t.table h (fun e he => ⟨he, List.not_mem_nil⟩) hrefs
  have hsize : t.free.heap.size = 0 := by
    by_contra hne
    have hmem : t.free.heap.Mem (t.free.heap.seq 0) := ⟨0, by omega, rfl⟩
    obtain ⟨⟨e, he, heq⟩, hnot⟩ := (hlinked.held _).1 hmem
    rw [htable] at he
    exact hnot ((hout _).2 (.inl (List.mem_map.2 ⟨e, he, heq⟩)))
  rw [clear]
  rw [hsize, clearHeap]
  exact ⟨rfl, hsize, hmax⟩

end Table

end Prophet

end Dtn2
