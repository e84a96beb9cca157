import Dtn2.Framework.KeyedList
import Dtn2.Routing.MultiGraph
import Mathlib.Data.List.Find

/-!
# Well-formed graphs

Every out-edge of a well-formed graph knows its ends, is listed by the node it enters and is not a
loop. Adding a node, adding an edge between two different nodes, changing what an edge carries and
deleting an edge keep a graph well-formed.
-/

namespace Dtn2

namespace MultiGraph

variable {N E : Type}

/-- What an edge on the out list of a node agrees with. -/
structure EdgeOk (g : MultiGraph N E) (n : Nat) (e : Edge E) : Prop where
  source : e.source = n
  dest : e.dest < g.count
  noLoop : e.dest ≠ n
  listed : e.ptr ∈ (g.node e.dest).inEdges
  known : e.ptr < g.allocated

/-- The edges are sound and no two share a pointer. -/
structure Wf (g : MultiGraph N E) : Prop where
  edges : ∀ n e, e ∈ (g.node n).outEdges → EdgeOk g n e
  nodup : ∀ n, ((g.node n).outEdges.map Edge.ptr).Nodup
  apart : ∀ n m e f, e ∈ (g.node n).outEdges → f ∈ (g.node m).outEdges → e.ptr = f.ptr → n = m

/-! ## What the operations do to a node -/

section Operations

variable (g : MultiGraph N E) (a b n : Nat)

@[simp] theorem modify_self (f : Node N E → Node N E) : (g.modify n f).node n = f (g.node n) :=
  Function.update_self n _ _

theorem modify_of_ne {m : Nat} (h : m ≠ n) (f : Node N E → Node N E) :
    (g.modify n f).node m = g.node m :=
  Function.update_of_ne h _ _

theorem modify_proj {β : Type} (π : Node N E → β) (f : Node N E → Node N E) (m : Nat)
    (h : π (f (g.node n)) = π (g.node n)) : π ((g.modify n f).node m) = π (g.node m) := by
  by_cases hm : m = n
  · subst hm
    rw [modify_self, h]
  · rw [modify_of_ne g n hm]

@[simp] theorem addNode_self (id : Bytes) (info : N) :
    (g.addNode id info).node g.count = ⟨id, info, [], []⟩ :=
  Function.update_self g.count _ _

theorem addNode_of_ne {m : Nat} (h : m ≠ g.count) (id : Bytes) (info : N) :
    (g.addNode id info).node m = g.node m :=
  Function.update_of_ne h _ _

@[simp] theorem addNode_count (id : Bytes) (info : N) : (g.addNode id info).count = g.count + 1 := rfl

theorem addEdge_outEdges (info : E) :
    ((g.addEdge a b info).node n).outEdges =
      if n = a then (g.node a).outEdges ++ [g.newEdge a b info] else (g.node n).outEdges := by
  rw [addEdge]
  dsimp only
  rw [modify_proj _ b Node.outEdges _ n rfl]
  by_cases hn : n = a
  · subst hn
    rw [modify_self, if_pos rfl]
  · rw [modify_of_ne g a hn, if_neg hn]

theorem addEdge_inEdges (info : E) :
    ((g.addEdge a b info).node n).inEdges =
      if n = b then (g.node b).inEdges ++ [g.allocated] else (g.node n).inEdges := by
  rw [addEdge]
  dsimp only
  by_cases hn : n = b
  · subst hn
    rw [modify_self, if_pos rfl, modify_proj g a Node.inEdges _ n rfl]
  · rw [modify_of_ne _ b hn, if_neg hn, modify_proj g a Node.inEdges _ n rfl]

@[simp] theorem addEdge_id (info : E) : ((g.addEdge a b info).node n).id = (g.node n).id := by
  rw [addEdge]
  dsimp only
  rw [modify_proj _ b Node.id _ n rfl, modify_proj g a Node.id _ n rfl]

@[simp] theorem addEdge_info (info : E) : ((g.addEdge a b info).node n).info = (g.node n).info := by
  rw [addEdge]
  dsimp only
  rw [modify_proj _ b Node.info _ n rfl, modify_proj g a Node.info _ n rfl]

theorem modifyEdge_outEdges (ptr : Nat) (f : E → E) :
    ((g.modifyEdge a ptr f).node n).outEdges =
      if n = a then (g.node a).outEdges.map fun e =>
        if e.ptr = ptr then { e with info := f e.info } else e
      else (g.node n).outEdges := by
  rw [modifyEdge]
  by_cases hn : n = a
  · subst hn
    rw [modify_self, if_pos rfl]
  · rw [modify_of_ne g a hn, if_neg hn]

@[simp] theorem modifyEdge_inEdges (ptr : Nat) (f : E → E) :
    ((g.modifyEdge a ptr f).node n).inEdges = (g.node n).inEdges :=
  modify_proj g a Node.inEdges _ n rfl

@[simp] theorem modifyEdge_id (ptr : Nat) (f : E → E) :
    ((g.modifyEdge a ptr f).node n).id = (g.node n).id :=
  modify_proj g a Node.id _ n rfl

@[simp] theorem modifyEdge_info (ptr : Nat) (f : E → E) :
    ((g.modifyEdge a ptr f).node n).info = (g.node n).info :=
  modify_proj g a Node.info _ n rfl

theorem unlinkEdge_outEdges (e : Edge E) :
    ((g.unlinkEdge a e).node n).outEdges =
      if n = a then (g.node a).outEdges.eraseP fun e' => decide (e'.ptr = e.ptr)
      else (g.node n).outEdges := by
  rw [unlinkEdge, modify_proj _ e.dest Node.outEdges _ n rfl]
  by_cases hn : n = a
  · subst hn
    rw [modify_self, if_pos rfl]
  · rw [modify_of_ne g a hn, if_neg hn]

theorem unlinkEdge_inEdges (e : Edge E) :
    ((g.unlinkEdge a e).node n).inEdges =
      if n = e.dest then (g.node e.dest).inEdges.erase e.ptr else (g.node n).inEdges := by
  rw [unlinkEdge]
  by_cases hn : n = e.dest
  · rw [hn, modify_self, if_pos rfl, modify_proj g a Node.inEdges _ e.dest rfl]
  · rw [modify_of_ne _ e.dest hn, if_neg hn, modify_proj g a Node.inEdges _ n rfl]

@[simp] theorem unlinkEdge_id (e : Edge E) : ((g.unlinkEdge a e).node n).id = (g.node n).id := by
  rw [unlinkEdge, modify_proj _ e.dest Node.id _ n rfl, modify_proj g a Node.id _ n rfl]

@[simp] theorem unlinkEdge_info (e : Edge E) : ((g.unlinkEdge a e).node n).info = (g.node n).info := by
  rw [unlinkEdge, modify_proj _ e.dest Node.info _ n rfl, modify_proj g a Node.info _ n rfl]

theorem mem_eraseP_ptr {edges : List (Edge E)} (h : (edges.map Edge.ptr).Nodup) {e f : Edge E}
    (hf : f ∈ edges.eraseP fun e' => decide (e'.ptr = e.ptr)) : f ∈ edges ∧ f.ptr ≠ e.ptr := by
  rw [Framework.KeyedList.eraseP_eq_filter_of_nodup Edge.ptr e.ptr edges h, List.mem_filter] at hf
  simpa using hf

end Operations

/-! ## Finding a node -/

section Find

variable {g : MultiGraph N E} {id : Bytes} {n : Nat}

theorem findNode_some (h : g.findNode id = some n) : n < g.count ∧ (g.node n).id = id := by
  have hmem := List.mem_of_find?_eq_some h
  have hid := List.find?_some h
  exact ⟨List.mem_range.mp hmem, by simpa using hid⟩

theorem findNode_congr {g' : MultiGraph N E} (hcount : g'.count = g.count)
    (hid : ∀ n, (g'.node n).id = (g.node n).id) (id : Bytes) : g'.findNode id = g.findNode id := by
  simp only [findNode, hcount, hid]

theorem findNode_addNode_eq (id' : Bytes) (info : N) :
    (g.addNode id' info).findNode id =
      (g.findNode id).or (if id' = id then some g.count else none) := by
  have hold : (List.range g.count).find? (fun m => decide (((g.addNode id' info).node m).id = id)) =
      g.findNode id := by
    apply List.find?_congr
    intro m hm
    rw [addNode_of_ne g (Nat.ne_of_lt (List.mem_range.mp hm))]
  rw [findNode, addNode_count, List.range_succ, List.find?_append, hold, List.find?_singleton,
    addNode_self]
  simp only [decide_eq_true_eq]

theorem findNode_addNode (h : g.findNode id = some n) (id' : Bytes) (info : N) :
    (g.addNode id' info).findNode id = some n := by
  rw [findNode_addNode_eq, h, Option.some_or]

theorem findNode_addNode_self (h : g.findNode id = none) (info : N) :
    (g.addNode id info).findNode id = some g.count := by
  rw [findNode_addNode_eq, h, Option.none_or, if_pos rfl]

end Find

/-! ## What keeps a graph well-formed -/

namespace Wf

variable {g : MultiGraph N E}

theorem empty [Inhabited N] : Wf (MultiGraph.empty : MultiGraph N E) := by
  constructor
  · intro n e he
    cases he
  · intro n
    exact List.nodup_nil
  · intro n m e f he
    cases he

theorem congr (h : g.Wf) {g' : MultiGraph N E}
    (hout : ∀ n, (g'.node n).outEdges.map (fun e => (e.ptr, e.source, e.dest)) =
      (g.node n).outEdges.map fun e => (e.ptr, e.source, e.dest))
    (hin : ∀ n, (g'.node n).inEdges = (g.node n).inEdges) (hcount : g'.count = g.count)
    (hallocated : g'.allocated = g.allocated) : g'.Wf := by
  have hold : ∀ n e, e ∈ (g'.node n).outEdges → ∃ f ∈ (g.node n).outEdges,
      f.ptr = e.ptr ∧ f.source = e.source ∧ f.dest = e.dest := by
    intro n e he
    have hmem := List.mem_map_of_mem (f := fun e : Edge E => (e.ptr, e.source, e.dest)) he
    rw [hout n] at hmem
    obtain ⟨f, hf, heq⟩ := List.mem_map.mp hmem
    simp only [Prod.mk.injEq] at heq
    exact ⟨f, hf, heq⟩
  constructor
  · intro n e he
    obtain ⟨f, hf, hptr, hsource, hdest⟩ := hold n e he
    have hok := h.edges n f hf
    constructor
    · exact hsource ▸ hok.source
    · rw [hcount]
      exact hdest ▸ hok.dest
    · exact hdest ▸ hok.noLoop
    · rw [hin, ← hdest, ← hptr]
      exact hok.listed
    · rw [hallocated, ← hptr]
      exact hok.known
  · intro n
    have hptr := congrArg (List.map Prod.fst) (hout n)
    rw [List.map_map, List.map_map] at hptr
    have hnodup := h.nodup n
    change ((g'.node n).outEdges.map (Prod.fst ∘ fun e : Edge E => (e.ptr, e.source, e.dest))).Nodup
    rw [hptr]
    exact hnodup
  · intro n m e f he hf hef
    obtain ⟨e', he', hptr, _⟩ := hold n e he
    obtain ⟨f', hf', hptr', _⟩ := hold m f hf
    exact h.apart n m e' f' he' hf' (by rw [hptr, hptr', hef])

theorem addNode (h : g.Wf) (id : Bytes) (info : N) : (g.addNode id info).Wf := by
  have hnode : ∀ n e, e ∈ ((g.addNode id info).node n).outEdges → e ∈ (g.node n).outEdges := by
    intro n e he
    by_cases hn : n = g.count
    · subst hn
      rw [addNode_self] at he
      cases he
    · rwa [addNode_of_ne g hn] at he
  constructor
  · intro n e he
    have hok := h.edges n e (hnode n e he)
    constructor
    · exact hok.source
    · exact Nat.lt_succ_of_lt hok.dest
    · exact hok.noLoop
    · rw [addNode_of_ne g (Nat.ne_of_lt hok.dest)]
      exact hok.listed
    · exact hok.known
  · intro n
    by_cases hn : n = g.count
    · subst hn
      rw [addNode_self]
      exact List.nodup_nil
    · rw [addNode_of_ne g hn]
      exact h.nodup n
  · intro n m e f he hf
    exact h.apart n m e f (hnode n e he) (hnode m f hf)

theorem addEdge (h : g.Wf) {a b : Nat} (hb : b < g.count) (hab : b ≠ a) (info : E) :
    (g.addEdge a b info).Wf := by
  have hmem : ∀ n e, e ∈ ((g.addEdge a b info).node n).outEdges →
      e ∈ (g.node n).outEdges ∨ (n = a ∧ e = g.newEdge a b info) := by
    intro n e he
    rw [addEdge_outEdges] at he
    by_cases hn : n = a
    · subst hn
      rw [if_pos rfl, List.mem_append, List.mem_singleton] at he
      exact he.imp_right fun heq => ⟨rfl, heq⟩
    · rw [if_neg hn] at he
      exact Or.inl he
  have hin : ∀ n p, p ∈ (g.node n).inEdges → p ∈ ((g.addEdge a b info).node n).inEdges := by
    intro n p hp
    rw [addEdge_inEdges]
    by_cases hn : n = b
    · subst hn
      rw [if_pos rfl]
      exact List.mem_append_left _ hp
    · rwa [if_neg hn]
  constructor
  · intro n e he
    rcases hmem n e he with he | ⟨rfl, rfl⟩
    · have hok := h.edges n e he
      exact ⟨hok.source, hok.dest, hok.noLoop, hin _ _ hok.listed, Nat.lt_succ_of_lt hok.known⟩
    · refine ⟨rfl, hb, hab, ?_, Nat.lt_succ_self _⟩
      change g.allocated ∈ ((g.addEdge n b info).node b).inEdges
      rw [addEdge_inEdges, if_pos rfl]
      exact List.mem_append_right _ (List.mem_singleton_self _)
  · intro n
    rw [addEdge_outEdges]
    by_cases hn : n = a
    · subst hn
      rw [if_pos rfl]
      apply Framework.KeyedList.nodup_append_singleton Edge.ptr (h.nodup n)
      intro e he
      exact Nat.ne_of_lt (h.edges n e he).known
    · rw [if_neg hn]
      exact h.nodup n
  · intro n m e f he hf hef
    rcases hmem n e he with hold | ⟨hn, hnew⟩
    · rcases hmem m f hf with hold' | ⟨hm, hnew'⟩
      · exact h.apart n m e f hold hold' hef
      · have hknown := (h.edges n e hold).known
        rw [hef, hnew'] at hknown
        exact absurd hknown (Nat.lt_irrefl g.allocated)
    · rcases hmem m f hf with hold' | ⟨hm, hnew'⟩
      · have hknown := (h.edges m f hold').known
        rw [← hef, hnew] at hknown
        exact absurd hknown (Nat.lt_irrefl g.allocated)
      · rw [hn, hm]

theorem modifyEdge (h : g.Wf) (a ptr : Nat) (f : E → E) : (g.modifyEdge a ptr f).Wf := by
  apply h.congr
  · intro n
    rw [modifyEdge_outEdges]
    by_cases hn : n = a
    · subst hn
      rw [if_pos rfl, List.map_map]
      apply List.map_congr_left
      intro e he
      simp only [Function.comp_apply]
      split <;> rfl
    · rw [if_neg hn]
  · intro n
    exact modifyEdge_inEdges g a n ptr f
  · rfl
  · rfl

theorem modifyInfo (h : g.Wf) (n : Nat) (f : N → N) :
    (g.modify n fun node => { node with info := f node.info }).Wf := by
  apply h.congr
  · intro m
    rw [modify_proj g n Node.outEdges _ m rfl]
  · intro m
    exact modify_proj g n Node.inEdges _ m rfl
  · rfl
  · rfl

theorem unlinkEdge (h : g.Wf) {n : Nat} {e : Edge E} (he : e ∈ (g.node n).outEdges) :
    (g.unlinkEdge n e).Wf := by
  have hmem : ∀ m f, f ∈ ((g.unlinkEdge n e).node m).outEdges →
      f ∈ (g.node m).outEdges ∧ f.ptr ≠ e.ptr := by
    intro m f hf
    rw [unlinkEdge_outEdges] at hf
    by_cases hm : m = n
    · subst hm
      rw [if_pos rfl] at hf
      exact mem_eraseP_ptr (h.nodup m) hf
    · rw [if_neg hm] at hf
      exact ⟨hf, fun hptr => hm (h.apart m n f e hf he hptr)⟩
  constructor
  · intro m f hf
    obtain ⟨hf, hptr⟩ := hmem m f hf
    have hok := h.edges m f hf
    refine ⟨hok.source, hok.dest, hok.noLoop, ?_, hok.known⟩
    rw [unlinkEdge_inEdges]
    split
    · rename_i hdest
      rw [← hdest]
      exact (List.mem_erase_of_ne hptr).mpr hok.listed
    · exact hok.listed
  · intro m
    rw [unlinkEdge_outEdges]
    split
    · exact (h.nodup n).sublist (List.eraseP_sublist.map Edge.ptr)
    · exact h.nodup m
  · intro m k f f' hf hf'
    exact h.apart m k f f' (hmem m f hf).1 (hmem k f' hf').1

theorem delEdge (h : g.Wf) {n : Nat} {e : Edge E} (he : e ∈ (g.node n).outEdges) :
    g.delEdge n e = .ok (g.unlinkEdge n e, true) := by
  rw [MultiGraph.delEdge, if_pos (List.mem_map_of_mem he), Exec.assert_bind (h.edges n e he).listed]
  rfl

end Wf

end MultiGraph

end Dtn2
