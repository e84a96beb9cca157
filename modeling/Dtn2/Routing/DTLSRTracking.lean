import Dtn2.Routing.DTLSRRuns

/-!
# What the router keeps of a node

Facts of the router that need no condition on the events: the edges of a node have pointers of their
own, those of a remote node have names of their own, and no source has two current announcements.
Whatever is not an announcement of a remote node leaves all that is kept of that node alone.
-/

namespace Dtn2

namespace DTLSRRouter

open DTLSR MultiGraph Framework

/-- The facts that hold in every state. -/
structure Base (cfg : Config) (s : State) : Prop where
  isLocal : (s.graph.node localNode).id = cfg.localEid
  count : localNode < s.graph.count
  ptrs : ∀ n, ((s.graph.node n).outEdges.map Edge.ptr).Nodup
  known : ∀ n, ∀ e ∈ (s.graph.node n).outEdges, e.ptr < s.graph.allocated
  names : ∀ n, n ≠ localNode → ((s.graph.node n).outEdges.map fun e => e.info.id).Nodup
  sources : (s.currentLsas.map LsaBundle.source).Nodup

/-- Nothing happens to the node `x`: its place, its numbers and edges and its current announcement
stay. A node that appears has nothing yet. Entries of forwarding logs stay. -/
structure Aside (x : Bytes) (s s' : State) : Prop where
  found : ∀ n, s.graph.findNode x = some n → s'.graph.findNode x = some n ∧
    (s'.graph.node n).info = (s.graph.node n).info ∧
    (s'.graph.node n).outEdges = (s.graph.node n).outEdges
  fresh : s.graph.findNode x = none → ∀ n, s'.graph.findNode x = some n →
    (s'.graph.node n).info = NodeInfo.new
  held : (s'.currentLsas.filter fun c => decide (c.source = x)) =
    s.currentLsas.filter fun c => decide (c.source = x)
  log : ∀ b, ∀ entry ∈ s.fwdlog b, entry ∈ s'.fwdlog b

section Basics

variable {cfg : Config} {x : Bytes} {s s' s'' : State}

theorem base_initial (cfg : Config) (fwdlog : Nat → List (ForwardingInfo Bytes)) :
    Base cfg (State.initial cfg fwdlog) := by
  have hnode : ∀ n, ((State.initial cfg fwdlog).graph.node n).outEdges = [] := by
    intro n
    change ((MultiGraph.empty.addNode cfg.localEid NodeInfo.new).node n).outEdges = []
    by_cases hn : n = (MultiGraph.empty : MultiGraph NodeInfo EdgeInfo).count
    · rw [hn, addNode_self]
    · rw [addNode_of_ne _ hn]
      rfl
  constructor
  · rfl
  · exact Nat.zero_lt_one
  · intro n
    rw [hnode]
    exact List.nodup_nil
  · intro n
    rw [hnode]
    intro e he
    cases he
  · intro n _
    rw [hnode]
    exact List.nodup_nil
  · exact List.nodup_nil

theorem Base.congr (h : Base cfg s) (hgraph : s'.graph = s.graph)
    (hcurrent : s'.currentLsas = s.currentLsas) : Base cfg s' := by
  obtain ⟨h1, h2, h3, h4, h5, h6⟩ := h
  constructor
  · rwa [hgraph]
  · rwa [hgraph]
  · rwa [hgraph]
  · rwa [hgraph]
  · rwa [hgraph]
  · rwa [hcurrent]

theorem Aside.congr (hgraph : s'.graph = s.graph) (hcurrent : s'.currentLsas = s.currentLsas)
    (hlog : ∀ b, ∀ entry ∈ s.fwdlog b, entry ∈ s'.fwdlog b) : Aside x s s' := by
  constructor
  · intro n hn
    rw [hgraph]
    exact ⟨hn, rfl, rfl⟩
  · intro hnone n hn
    rw [hgraph, hnone] at hn
    cases hn
  · rw [hcurrent]
  · exact hlog

theorem Aside.refl (x : Bytes) (s : State) : Aside x s s := Aside.congr rfl rfl fun _ _ h => h

theorem Aside.trans (h : Aside x s s') (h' : Aside x s' s'') : Aside x s s'' := by
  constructor
  · intro n hn
    obtain ⟨hfind, hinfo, hout⟩ := h.found n hn
    obtain ⟨hfind', hinfo', hout'⟩ := h'.found n hfind
    exact ⟨hfind', hinfo'.trans hinfo, hout'.trans hout⟩
  · intro hnone n hn
    cases hfind : s'.graph.findNode x with
    | none => exact h'.fresh hfind n hn
    | some m =>
        obtain ⟨hfind', hinfo, -⟩ := h'.found m hfind
        rw [hfind', Option.some.injEq] at hn
        subst hn
        rw [hinfo]
        exact h.fresh hnone m hfind
  · exact h'.held.trans h.held
  · intro b entry hentry
    exact h'.log b entry (h.log b entry hentry)

theorem Aside.setGraph {g : MultiGraph NodeInfo EdgeInfo} (hcount : g.count = s.graph.count)
    (hid : ∀ n, (g.node n).id = (s.graph.node n).id)
    (hnode : ∀ n, (s.graph.node n).id = x →
      (g.node n).info = (s.graph.node n).info ∧
      (g.node n).outEdges = (s.graph.node n).outEdges) : Aside x s (s.setGraph g) := by
  have hfind : g.findNode x = s.graph.findNode x := findNode_congr hcount hid x
  constructor
  · intro n hn
    obtain ⟨hinfo, hout⟩ := hnode n (findNode_some hn).2
    exact ⟨hfind.trans hn, hinfo, hout⟩
  · intro hnone n hn
    rw [setGraph_graph, hfind, hnone] at hn
    cases hn
  · rfl
  · exact fun _ _ h => h

theorem Aside.suppress (x : Bytes) (s : State) (bundleid : Nat) (eid : Bytes) :
    Aside x s (s.suppress bundleid eid) := by
  refine Aside.congr rfl rfl ?_
  intro b entry hentry
  change entry ∈ Function.update s.fwdlog bundleid _ b
  by_cases hb : b = bundleid
  · subst hb
    rw [Function.update_self]
    exact List.mem_append_left _ hentry
  · rwa [Function.update_of_ne hb]

theorem Base.suppress (h : Base cfg s) (bundleid : Nat) (eid : Bytes) :
    Base cfg (s.suppress bundleid eid) :=
  h.congr rfl rfl

end Basics

/-! ## The graph -/

section Graph

variable {cfg : Config} {x : Bytes} {s : State}

theorem Base.findOrAdd (h : Base cfg s) (id : Bytes) : Base cfg (s.findOrAdd id).1 := by
  rw [State.findOrAdd]
  cases s.graph.findNode id with
  | some n => exact h
  | none =>
      have hne : localNode ≠ s.graph.count := Nat.ne_of_lt h.count
      have hnode : ∀ n, (((s.graph.addNode id NodeInfo.new).node n).outEdges = [] ∨
          ((s.graph.addNode id NodeInfo.new).node n).outEdges = (s.graph.node n).outEdges) := by
        intro n
        by_cases hn : n = s.graph.count
        · rw [hn, addNode_self]
          exact Or.inl rfl
        · rw [addNode_of_ne _ hn]
          exact Or.inr rfl
      refine ⟨?_, Nat.lt_succ_of_lt h.count, ?_, ?_, ?_, h.sources⟩
      · rw [setGraph_graph, addNode_of_ne _ hne]
        exact h.isLocal
      · intro n
        rw [setGraph_graph]
        rcases hnode n with hout | hout <;> rw [hout]
        · exact List.nodup_nil
        · exact h.ptrs n
      · intro n
        rw [setGraph_graph]
        rcases hnode n with hout | hout <;> rw [hout]
        · intro e he
          cases he
        · exact h.known n
      · intro n hn
        rw [setGraph_graph]
        rcases hnode n with hout | hout <;> rw [hout]
        · exact List.nodup_nil
        · exact h.names n hn

theorem Aside.findOrAdd (x : Bytes) (s : State) (id : Bytes) : Aside x s (s.findOrAdd id).1 := by
  rw [State.findOrAdd]
  cases hid : s.graph.findNode id with
  | some n => exact Aside.refl x s
  | none =>
      constructor
      · intro n hn
        have hlt := (findNode_some hn).1
        rw [setGraph_graph, addNode_of_ne _ (Nat.ne_of_lt hlt)]
        exact ⟨findNode_addNode hn id _, rfl, rfl⟩
      · intro hnone n hn
        rw [setGraph_graph, findNode_addNode_eq, hnone, Option.none_or] at hn
        split at hn
        · cases hn
          rw [setGraph_graph, addNode_self]
        · cases hn
      · rfl
      · exact fun _ _ h => h

theorem findNode_findOrAdd (s : State) (id : Bytes) :
    (s.findOrAdd id).1.graph.findNode id = some (s.findOrAdd id).2 := by
  rw [State.findOrAdd]
  cases hid : s.graph.findNode id with
  | some n => exact hid
  | none => exact findNode_addNode_self hid _

theorem Base.setLastLsa (h : Base cfg s) (node seqno seconds : Nat) :
    Base cfg (s.setLastLsa node seqno seconds) := by
  constructor
  · rw [setLastLsa_id]
    exact h.isLocal
  · exact h.count
  · intro n
    rw [setLastLsa_outEdges]
    exact h.ptrs n
  · intro n
    rw [setLastLsa_outEdges]
    exact h.known n
  · intro n hn
    rw [setLastLsa_outEdges]
    exact h.names n hn
  · exact h.sources

theorem Aside.setLastLsa {node : Nat} (hne : (s.graph.node node).id ≠ x) (seqno seconds : Nat) :
    Aside x s (s.setLastLsa node seqno seconds) := by
  refine Aside.setGraph rfl ?_ ?_
  · intro n
    exact setLastLsa_id s node seqno seconds n
  · intro n hn
    have hnn : n ≠ node := fun heq => hne (heq ▸ hn)
    rw [modify_of_ne _ _ hnn]
    exact ⟨rfl, rfl⟩

theorem Base.addEdge (h : Base cfg s) (a b : Nat) (info : EdgeInfo)
    (hnew : a ≠ localNode → ∀ e ∈ (s.graph.node a).outEdges, e.info.id ≠ info.id) :
    Base cfg (s.setGraph (s.graph.addEdge a b info)) := by
  constructor
  · rw [setGraph_graph, addEdge_id]
    exact h.isLocal
  · exact h.count
  · intro n
    rw [setGraph_graph, addEdge_outEdges]
    split
    · apply KeyedList.nodup_append_singleton Edge.ptr (h.ptrs a)
      intro e he
      exact Nat.ne_of_lt (h.known a e he)
    · exact h.ptrs n
  · intro n e he
    rw [setGraph_graph, addEdge_outEdges] at he
    split at he
    · rcases List.mem_append.mp he with he | he
      · exact Nat.lt_succ_of_lt (h.known a e he)
      · rw [List.mem_singleton.mp he]
        exact Nat.lt_succ_self _
    · exact Nat.lt_succ_of_lt (h.known n e he)
  · intro n hn
    rw [setGraph_graph, addEdge_outEdges]
    split
    · rename_i hna
      subst hna
      exact KeyedList.nodup_append_singleton (fun e : Edge EdgeInfo => e.info.id) (h.names n hn)
        (hnew hn)
    · exact h.names n hn
  · exact h.sources

theorem Aside.addEdge {a : Nat} (hne : (s.graph.node a).id ≠ x) (b : Nat) (info : EdgeInfo) :
    Aside x s (s.setGraph (s.graph.addEdge a b info)) := by
  refine Aside.setGraph rfl ?_ ?_
  · intro n
    exact addEdge_id s.graph a b n info
  · intro n hn
    have hna : n ≠ a := fun heq => hne (heq ▸ hn)
    rw [addEdge_info, addEdge_outEdges, if_neg hna]
    exact ⟨rfl, rfl⟩

theorem Base.mapEdges (h : Base cfg s) (a : Nat) (f : Edge EdgeInfo → Edge EdgeInfo)
    (hptr : ∀ e, (f e).ptr = e.ptr) (hid : ∀ e, (f e).info.id = e.info.id) :
    Base cfg (s.setGraph (s.graph.modify a fun n => { n with outEdges := n.outEdges.map f })) := by
  have hout : ∀ n, ((s.graph.modify a fun n => { n with outEdges := n.outEdges.map f }).node
      n).outEdges = if n = a then (s.graph.node n).outEdges.map f else (s.graph.node n).outEdges := by
    intro n
    by_cases hn : n = a
    · subst hn
      rw [modify_self, if_pos rfl]
    · rw [modify_of_ne _ _ hn, if_neg hn]
  constructor
  · rw [setGraph_graph, modify_proj s.graph a Node.id]
    · exact h.isLocal
    · rfl
  · exact h.count
  · intro n
    rw [setGraph_graph, hout]
    split
    · rw [List.map_map, show Edge.ptr ∘ f = Edge.ptr from funext hptr]
      exact h.ptrs n
    · exact h.ptrs n
  · intro n e he
    rw [setGraph_graph, hout] at he
    split at he
    · obtain ⟨e', he', rfl⟩ := List.mem_map.mp he
      rw [hptr]
      exact h.known n e' he'
    · exact h.known n e he
  · intro n hn
    rw [setGraph_graph, hout]
    split
    · rw [List.map_map,
        show (fun e : Edge EdgeInfo => e.info.id) ∘ f = fun e => e.info.id from funext hid]
      exact h.names n hn
    · exact h.names n hn
  · exact h.sources

theorem Aside.modify {a : Nat} (hne : (s.graph.node a).id ≠ x)
    (f : Node NodeInfo EdgeInfo → Node NodeInfo EdgeInfo)
    (hid : (f (s.graph.node a)).id = (s.graph.node a).id) :
    Aside x s (s.setGraph (s.graph.modify a f)) := by
  refine Aside.setGraph rfl ?_ ?_
  · intro n
    exact modify_proj s.graph a Node.id f n hid
  · intro n hn
    have hna : n ≠ a := fun heq => hne (heq ▸ hn)
    rw [modify_of_ne _ _ hna]
    exact ⟨rfl, rfl⟩

theorem Base.modifyEdge (h : Base cfg s) (a ptr : Nat) (f : EdgeInfo → EdgeInfo)
    (hid : ∀ info, (f info).id = info.id) :
    Base cfg (s.setGraph (s.graph.modifyEdge a ptr f)) := by
  apply h.mapEdges a
  · intro e
    split <;> rfl
  · intro e
    split
    · exact hid e.info
    · rfl

theorem Aside.modifyEdge {a : Nat} (hne : (s.graph.node a).id ≠ x) (ptr : Nat)
    (f : EdgeInfo → EdgeInfo) : Aside x s (s.setGraph (s.graph.modifyEdge a ptr f)) :=
  Aside.modify hne _ rfl

theorem Base.unlinkEdge (h : Base cfg s) (a : Nat) (e : Edge EdgeInfo) :
    Base cfg (s.setGraph (s.graph.unlinkEdge a e)) := by
  constructor
  · rw [setGraph_graph, unlinkEdge_id]
    exact h.isLocal
  · exact h.count
  · intro n
    rw [setGraph_graph, unlinkEdge_outEdges]
    split
    · exact (h.ptrs a).sublist (List.eraseP_sublist.map Edge.ptr)
    · exact h.ptrs n
  · intro n f hf
    rw [setGraph_graph, unlinkEdge_outEdges] at hf
    split at hf
    · exact h.known a f (List.mem_of_mem_eraseP hf)
    · exact h.known n f hf
  · intro n hn
    rw [setGraph_graph, unlinkEdge_outEdges]
    split
    · rename_i hna
      subst hna
      exact (h.names n hn).sublist (List.eraseP_sublist.map _)
    · exact h.names n hn
  · exact h.sources

theorem Aside.unlinkEdge {a : Nat} (hne : (s.graph.node a).id ≠ x) (e : Edge EdgeInfo) :
    Aside x s (s.setGraph (s.graph.unlinkEdge a e)) := by
  refine Aside.setGraph rfl ?_ ?_
  · intro n
    exact unlinkEdge_id s.graph a n e
  · intro n hn
    have hna : n ≠ a := fun heq => hne (heq ▸ hn)
    rw [unlinkEdge_info, unlinkEdge_outEdges, if_neg hna]
    exact ⟨rfl, rfl⟩

end Graph

/-! ## The current announcements -/

/-- The entry that keeps a bundle from being forwarded. -/
def suppression : ForwardingInfo Bytes := ⟨.suppressed, .forward, none, ForwardingLog.wildcardEid⟩

theorem mem_suppress (s : State) (bundleid : Nat) :
    suppression ∈ (s.suppress bundleid ForwardingLog.wildcardEid).fwdlog bundleid := by
  change suppression ∈ Function.update s.fwdlog bundleid _ bundleid
  rw [Function.update_self]
  exact List.mem_append_right _ (List.mem_singleton_self _)

/-- The announcement of a node takes the place of its last one. -/
structure Replaces (node : Nat) (b : LsaBundle) (seqno : Nat) (s s' : State) : Prop where
  graph : s'.graph = (s.setLastLsa node seqno b.seconds).graph
  current : s'.currentLsas =
    (s.currentLsas.filter fun c => !decide (c.source = (s.graph.node node).id)) ++ [b]
  dropped : ∀ c ∈ s.currentLsas, c.source = (s.graph.node node).id →
    suppression ∈ s'.fwdlog c.bundleid
  log : ∀ c, ∀ entry ∈ s.fwdlog c, entry ∈ s'.fwdlog c

section CurrentLsas

variable {cfg : Config} {x : Bytes} {s s' : State} {node seqno : Nat} {b : LsaBundle}

theorem pushCurrent_of_not_mem (hb : b ∉ s.currentLsas) :
    s.pushCurrent b = { s with currentLsas := s.currentLsas ++ [b] } := by
  rw [State.pushCurrent, if_neg hb]

theorem filter_of_find?_none
    (h : s.currentLsas.find? (fun c => decide (c.source = (s.graph.node node).id)) = none) :
    (s.currentLsas.filter fun c => !decide (c.source = (s.graph.node node).id)) =
      s.currentLsas := by
  rw [List.filter_eq_self]
  intro c hc
  have hne := List.find?_eq_none.mp h c hc
  simpa using hne

theorem updateCurrentLsa_ok (h : Base cfg s) (hb : b.source = (s.graph.node node).id)
    {isNew : Bool} (hok : s.updateCurrentLsa node b seqno = .ok (s', isNew)) :
    (isNew = false ∧ s' = s.suppress b.bundleid ForwardingLog.wildcardEid ∧
      seqno ≤ (s.graph.node node).info.lastLsaSeqno ∧
      b.seconds < (s.graph.node node).info.lastLsaCreationTs) ∨
    (isNew = true ∧ Replaces node b seqno s s' ∧
      ¬(seqno ≤ (s.graph.node node).info.lastLsaSeqno ∧
        b.seconds < (s.graph.node node).info.lastLsaCreationTs)) := by
  by_cases hold : seqno ≤ (s.graph.node node).info.lastLsaSeqno ∧
      b.seconds < (s.graph.node node).info.lastLsaCreationTs
  · rw [updateCurrentLsa_stale hold.1 hold.2] at hok
    cases hok
    exact Or.inl ⟨rfl, rfl, hold⟩
  · refine Or.inr ?_
    have hgone : b ∉ s.currentLsas.filter fun c => !decide (c.source = (s.graph.node node).id) := by
      intro hmem
      have hne := (List.mem_filter.mp hmem).2
      simp [hb] at hne
    cases hfind : s.currentLsas.find? fun c => decide (c.source = (s.graph.node node).id) with
    | none =>
        have hfilter := filter_of_find?_none hfind
        have hnot : b ∉ (s.setLastLsa node seqno b.seconds).currentLsas := by
          rw [hfilter] at hgone
          exact hgone
        rw [updateCurrentLsa_first hold hfind, pushCurrent_of_not_mem hnot] at hok
        cases hok
        refine ⟨rfl, ⟨rfl, ?_, ?_, fun _ _ hc => hc⟩, hold⟩
        · rw [hfilter]
          rfl
        · intro c hc hsource
          have hne := List.find?_eq_none.mp hfind c hc
          simp [hsource] at hne
    | some c =>
        by_cases hzero : (s.graph.node node).info.lastLsaSeqno = 0
        · rw [updateCurrentLsa_notReached hold hfind hzero] at hok
          cases hok
        · have herase := KeyedList.eraseP_eq_filter_of_nodup LsaBundle.source
            (s.graph.node node).id s.currentLsas h.sources
          rw [updateCurrentLsa_replace hold hfind hzero, herase,
            pushCurrent_of_not_mem hgone] at hok
          cases hok
          refine ⟨rfl, ⟨rfl, rfl, ?_, ?_⟩, hold⟩
          · intro d hd hsource
            have hc := List.mem_of_find?_eq_some hfind
            have hcsource : c.source = (s.graph.node node).id := by
              simpa using List.find?_some hfind
            have hdc : d = c := KeyedList.eq_of_key_eq LsaBundle.source h.sources hd hc
              (hsource.trans hcsource.symm)
            rw [hdc]
            exact mem_suppress s c.bundleid
          · exact (Aside.suppress c.source s c.bundleid _).log

theorem Replaces.base (h : Base cfg s) (hb : b.source = (s.graph.node node).id)
    (hreplaces : Replaces node b seqno s s') : Base cfg s' := by
  have hlast := h.setLastLsa node seqno b.seconds
  refine ⟨?_, ?_, ?_, ?_, ?_, ?_⟩
  · rw [hreplaces.graph]
    exact hlast.isLocal
  · rw [hreplaces.graph]
    exact hlast.count
  · rw [hreplaces.graph]
    exact hlast.ptrs
  · rw [hreplaces.graph]
    exact hlast.known
  · rw [hreplaces.graph]
    exact hlast.names
  · rw [hreplaces.current]
    apply KeyedList.nodup_append_singleton LsaBundle.source
    · exact h.sources.sublist (List.filter_sublist.map _)
    · intro c hc
      have hne := (List.mem_filter.mp hc).2
      rw [hb]
      simpa using hne

theorem Replaces.aside (hne : (s.graph.node node).id ≠ x) (hb : b.source = (s.graph.node node).id)
    (hreplaces : Replaces node b seqno s s') : Aside x s s' := by
  have hlast := Aside.setLastLsa hne seqno b.seconds
  refine ⟨?_, ?_, ?_, hreplaces.log⟩
  · rw [hreplaces.graph]
    exact hlast.found
  · rw [hreplaces.graph]
    exact hlast.fresh
  · rw [hreplaces.current, List.filter_append, List.filter_filter, List.filter_singleton]
    have hbx : decide (b.source = x) = false := by simp [hb, hne]
    rw [hbx, cond_false, List.append_nil]
    apply List.filter_congr
    intro c hc
    by_cases hcx : c.source = x
    · simp [hcx, Ne.symm hne]
    · simp [hcx]

end CurrentLsas

/-! ## The handlers -/

/-- The computation keeps the facts, and nothing happens to the node `x`. -/
def Keeps (cfg : Config) (x : Bytes) (s : State) (r : Exec State) : Prop :=
  ∀ s', r = .ok s' → Base cfg s' ∧ Aside x s s'

section Handlers

variable {lib : Library} {cfg : Config} {x : Bytes} {s : State} {env : Env} {a : Nat}

theorem Keeps.ok {s' : State} (hbase : Base cfg s') (haside : Aside x s s') :
    Keeps cfg x s (.ok s') := by
  intro s'' hs''
  cases hs''
  exact ⟨hbase, haside⟩

theorem Keeps.bind {r : Exec State} {f : State → Exec State} (hr : Keeps cfg x s r)
    (hf : ∀ s', Base cfg s' → Keeps cfg x s' (f s')) : Keeps cfg x s (r >>= f) := by
  intro s'' hs''
  obtain ⟨s', hs', hfs'⟩ := Exec.bind_eq_ok.mp hs''
  obtain ⟨hbase, haside⟩ := hr s' hs'
  obtain ⟨hbase', haside'⟩ := hf s' hbase s'' hfs'
  exact ⟨hbase', haside.trans haside'⟩

theorem Keeps.after {s1 : State} {r : Exec State} (haside : Aside x s s1) (h : Keeps cfg x s1 r) :
    Keeps cfg x s r := by
  intro s' hs'
  obtain ⟨hbase, haside'⟩ := h s' hs'
  exact ⟨hbase, haside.trans haside'⟩

theorem Keeps.recomputeRoutes (h : Base cfg s) : Keeps cfg x s (s.recomputeRoutes lib cfg env) := by
  intro s' hs'
  obtain ⟨routes, rfl⟩ := recomputeRoutes_eq_ok hs'
  exact ⟨h.congr rfl rfl, Aside.congr rfl rfl fun _ _ hc => hc⟩

theorem Keeps.sendLsa (hx : x ≠ cfg.localEid) (h : Base cfg s) :
    Keeps cfg x s (s.sendLsa lib cfg env) := by
  intro s' hs'
  rw [State.sendLsa] at hs'
  obtain ⟨links, -, hs'⟩ := Exec.bind_eq_ok.mp hs'
  dsimp only at hs'
  obtain ⟨p, hp, hs'⟩ := Exec.bind_eq_ok.mp hs'
  have hlocal : (s.graph.node localNode).id ≠ x := by
    rw [h.isLocal]
    exact Ne.symm hx
  have htouch := h.mapEdges localNode
    (fun e => { e with info := { e.info with lastUpdate := env.now } }) (fun _ => rfl) fun _ => rfl
  have haside : Aside x s (s.setGraph (s.graph.modify localNode fun n =>
      { n with outEdges := n.outEdges.map fun e =>
          { e with info := { e.info with lastUpdate := env.now } } })) :=
    Aside.modify hlocal _ rfl
  generalize hs1 : (s.setGraph (s.graph.modify localNode fun n =>
      { n with outEdges := n.outEdges.map fun e =>
          { e with info := { e.info with lastUpdate := env.now } } })) = s1 at *
  obtain ⟨s2, isNew⟩ := p
  cases hs'
  have hne : (s1.graph.node localNode).id ≠ x := by
    rw [htouch.isLocal]
    exact Ne.symm hx
  rcases updateCurrentLsa_ok htouch htouch.isLocal.symm hp with ⟨-, rfl, -⟩ | ⟨-, hreplaces, -⟩
  · refine ⟨htouch.congr rfl rfl, haside.trans ?_⟩
    exact (Aside.suppress x s1 _ _).trans (Aside.congr rfl rfl fun _ _ hc => hc)
  · refine ⟨(hreplaces.base htouch htouch.isLocal.symm).congr rfl rfl, haside.trans ?_⟩
    exact (hreplaces.aside hne htouch.isLocal.symm).trans (Aside.congr rfl rfl fun _ _ hc => hc)

theorem Keeps.scheduleLsa (hx : x ≠ cfg.localEid) (h : Base cfg s) :
    Keeps cfg x s (s.scheduleLsa lib cfg env) := by
  rw [State.scheduleLsa]
  split
  · exact Keeps.ok h (Aside.refl x s)
  · split
    · exact Keeps.sendLsa hx h
    · exact Keeps.ok (h.congr rfl rfl) (Aside.congr rfl rfl fun _ _ hc => hc)

theorem Base.handleLinkState (h : Base cfg s) (env : Env) (a : Nat) (ls : DTLSR.LinkState) :
    Base cfg (s.handleLinkState env a ls) := by
  rw [State.handleLinkState]
  split
  · exact h
  · have hadd := h.findOrAdd ls.dest
    dsimp only
    split
    · rename_i hfind
      apply hadd.addEdge
      intro _ e he
      have hne := List.find?_eq_none.mp hfind e he
      simpa using hne
    · exact hadd.modifyEdge _ _ _ fun _ => rfl

theorem Aside.handleLinkState (hne : (s.graph.node a).id ≠ x) (hlt : a < s.graph.count) (env : Env)
    (ls : DTLSR.LinkState) : Aside x s (s.handleLinkState env a ls) := by
  rw [State.handleLinkState]
  split
  · exact Aside.refl x s
  · have hadd := Aside.findOrAdd x s ls.dest
    have hne' : ((s.findOrAdd ls.dest).1.graph.node a).id ≠ x := by
      rw [findOrAdd_node s ls.dest hlt]
      exact hne
    dsimp only
    split
    · exact hadd.trans (Aside.addEdge hne' _ _)
    · exact hadd.trans (Aside.modifyEdge hne' _ _)

theorem handleLinks_keep (h : Base cfg s) (hne : (s.graph.node a).id ≠ x) (hlt : a < s.graph.count)
    (env : Env) (links : List DTLSR.LinkState) :
    Base cfg (links.foldl (State.handleLinkState env a) s) ∧
      Aside x s (links.foldl (State.handleLinkState env a) s) := by
  induction links generalizing s with
  | nil => exact ⟨h, Aside.refl x s⟩
  | cons ls rest ih =>
      obtain ⟨hlt', hid, -⟩ := handleLinkState_frame env s a ls hlt
      rw [List.foldl_cons]
      obtain ⟨hbase, haside⟩ := ih (h.handleLinkState env a ls) (by rw [hid]; exact hne) hlt'
      exact ⟨hbase, (Aside.handleLinkState hne hlt env ls).trans haside⟩

theorem Aside.suppressBack (x : Bytes) (s : State) (bundleid : Nat) :
    Aside x s (s.suppressBack bundleid) := by
  rw [State.suppressBack]
  split
  · exact Aside.refl x s
  · exact Aside.suppress x s _ _

theorem Base.suppressBack (h : Base cfg s) (bundleid : Nat) : Base cfg (s.suppressBack bundleid) := by
  rw [State.suppressBack]
  split
  · exact h
  · exact h.suppress _ _

theorem Keeps.handleLsa (h : Base cfg s) {b : LsaBundle} (hb : b.source ≠ x) (lsa : LSA) :
    Keeps cfg x s (s.handleLsa lib cfg env b lsa) := by
  intro s' hs'
  rw [State.handleLsa] at hs'
  split at hs'
  · cases hs'
    exact ⟨h.suppress _ _, Aside.suppress x s _ _⟩
  · dsimp only at hs'
    have hadd := h.findOrAdd b.source
    have haside := Aside.findOrAdd x s b.source
    obtain ⟨hlt, hid⟩ := findNode_some (findNode_findOrAdd s b.source)
    generalize s.findOrAdd b.source = found at *
    obtain ⟨s1, a⟩ := found
    dsimp only at hadd haside hlt hid hs'
    obtain ⟨p, hp, hs'⟩ := Exec.bind_eq_ok.mp hs'
    obtain ⟨s2, isNew⟩ := p
    have hne : (s1.graph.node a).id ≠ x := by
      rw [hid]
      exact hb
    rcases updateCurrentLsa_ok hadd hid.symm hp with ⟨rfl, rfl, -⟩ | ⟨rfl, hreplaces, -⟩
    · cases hs'
      exact ⟨hadd.suppress _ _, haside.trans (Aside.suppress x s1 _ _)⟩
    · have hbase2 := hreplaces.base hadd hid.symm
      have haside2 := hreplaces.aside hne hid.symm
      have hgraph2 : (s2.graph.node a).id ≠ x ∧ a < s2.graph.count := by
        rw [hreplaces.graph, setLastLsa_id]
        exact ⟨hne, hlt⟩
      have hlinks := handleLinks_keep (hbase2.suppressBack b.bundleid)
        (by rw [suppressBack_graph]; exact hgraph2.1) (by rw [suppressBack_graph]; exact hgraph2.2)
        env lsa.links
      obtain ⟨hbase3, haside3⟩ := Keeps.recomputeRoutes hlinks.1 s' hs'
      refine ⟨hbase3, haside.trans (haside2.trans ?_)⟩
      exact (Aside.suppressBack x s2 _).trans (hlinks.2.trans haside3)

theorem Keeps.handleContactUp (hx : x ≠ cfg.localEid) (h : Base cfg s) (link : LinkInfo) :
    Keeps cfg x s (s.handleContactUp lib cfg env link) := by
  rw [State.handleContactUp]
  split
  · exact Keeps.ok h (Aside.refl x s)
  · have hadd := h.findOrAdd link.remoteEid
    have hlocal : ((s.findOrAdd link.remoteEid).1.graph.node localNode).id ≠ x := by
      rw [hadd.isLocal]
      exact Ne.symm hx
    apply Keeps.after (Aside.findOrAdd x s link.remoteEid)
    dsimp only
    split
    · apply Keeps.after (Aside.addEdge hlocal _ _)
      apply (Keeps.recomputeRoutes (hadd.addEdge _ _ _ fun hne => absurd rfl hne)).bind
      intro s1 hs1
      exact Keeps.scheduleLsa hx hs1
    · rename_i e hfind
      have hup := hadd.modifyEdge localNode e.ptr
        (fun info => { info with params := { info.params with state := linkUp } }) fun _ => rfl
      apply Keeps.after (Aside.modifyEdge hlocal _ _)
      apply (Keeps.recomputeRoutes hup).bind
      intro s1 hs1
      exact Keeps.scheduleLsa hx hs1

theorem Keeps.removeEdge (hx : x ≠ cfg.localEid) (h : Base cfg s) (e : Edge EdgeInfo) :
    Keeps cfg x s (s.removeEdge e) := by
  intro s' hs'
  rw [State.removeEdge] at hs'
  obtain ⟨p, hp, hs'⟩ := Exec.bind_eq_ok.mp hs'
  obtain ⟨graph, ok⟩ := p
  obtain ⟨u, hu, hs'⟩ := Exec.bind_eq_ok.mp hs'
  cases hs'
  rw [MultiGraph.delEdge] at hp
  split at hp
  · obtain ⟨u', -, hp⟩ := Exec.bind_eq_ok.mp hp
    cases hp
    have hlocal : (s.graph.node localNode).id ≠ x := by
      rw [h.isLocal]
      exact Ne.symm hx
    exact ⟨h.unlinkEdge _ _, Aside.unlinkEdge hlocal e⟩
  · cases hp
    exact ⟨h.congr rfl rfl, Aside.congr rfl rfl fun _ _ hc => hc⟩

theorem Keeps.handleContactDown (hx : x ≠ cfg.localEid) (h : Base cfg s) (link : LinkInfo) :
    Keeps cfg x s (s.handleContactDown lib cfg env link) := by
  rw [State.handleContactDown]
  split
  · exact Keeps.ok h (Aside.refl x s)
  · split
    · exact Keeps.ok h (Aside.refl x s)
    · have hlocal : (s.graph.node localNode).id ≠ x := by
        rw [h.isLocal]
        exact Ne.symm hx
      rename_i e hfind
      have hdown := h.modifyEdge localNode e.ptr
        (fun info => { info with params := { info.params with state := linkDown } }) fun _ => rfl
      apply Keeps.after (Aside.modifyEdge hlocal _ _)
      apply (Keeps.recomputeRoutes hdown).bind
      intro s1 hs1
      apply (Keeps.scheduleLsa hx hs1).bind
      intro s2 hs2
      split
      · exact Keeps.ok hs2 (Aside.refl x s2)
      · exact Keeps.removeEdge hx hs2 _

theorem Keeps.handleRegistrationAdded (hx : x ≠ cfg.localEid) (h : Base cfg s) (endpoint : Bytes)
    (flags : Nat) : Keeps cfg x s (s.handleRegistrationAdded lib cfg env endpoint flags) := by
  rw [State.handleRegistrationAdded]
  split
  · exact Keeps.ok h (Aside.refl x s)
  · rename_i eid heid
    have hadd := h.findOrAdd eid
    have hlocal : ((s.findOrAdd eid).1.graph.node localNode).id ≠ x := by
      rw [hadd.isLocal]
      exact Ne.symm hx
    apply Keeps.after (Aside.findOrAdd x s eid)
    dsimp only
    split
    · exact Keeps.ok hadd (Aside.refl x _)
    · apply Keeps.after (Aside.addEdge hlocal _ _)
      exact Keeps.scheduleLsa hx (hadd.addEdge _ _ _ fun hne => absurd rfl hne)

end Handlers

end DTLSRRouter

end Dtn2
