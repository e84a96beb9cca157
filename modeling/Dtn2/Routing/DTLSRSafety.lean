import Dtn2.Routing.DTLSRRouter
import Dtn2.Routing.ShortestPath

/-!
# The assertions of the link state router

The router keeps a sound graph as long as the names it adds are valid endpoint ids and no edge leads
from a node to itself. Then no assertion of the graph, of the route computation and of the
announcements fails. An announcement of another node never touches the edges of the local node.
-/

namespace Dtn2

namespace DTLSRRouter

open DTLSR MultiGraph

/-- The name of the local node, or one for which a route pattern can be made. -/
def Routable (lib : Library) (cfg : Config) (id : Bytes) : Prop :=
  id = cfg.localEid ∨ (lib.pattern id).valid = true

/-- A sound router: the graph is well-formed, the names of its nodes are fit for routes, and the
edges of the local node that are no registrations belong to links. -/
structure Sound (lib : Library) (cfg : Config) (s : State) : Prop where
  wf : s.graph.Wf
  isLocal : (s.graph.node localNode).id = cfg.localEid
  count : localNode < s.graph.count
  valid : ∀ n, n < s.graph.count → n ≠ localNode → (lib.pattern (s.graph.node n).id).valid = true
  linked : ∀ e ∈ (s.graph.node localNode).outEdges, e.info.isRegistration = false →
    (s.findLink e.info.id).isSome = true

/-- The computation ends in a state with the property, or at the `NOTREACHED` of
`update_current_lsa`. -/
def Survives (P : State → Prop) (x : Exec State) : Prop :=
  x = .error (.fault .panic) ∨ ∃ s, x = .ok s ∧ P s

theorem Survives.ok {P : State → Prop} {s : State} (h : P s) : Survives P (.ok s) :=
  Or.inr ⟨s, rfl, h⟩

theorem Survives.bind {P Q : State → Prop} {x : Exec State} {f : State → Exec State}
    (hx : Survives P x) (hf : ∀ s, P s → Survives Q (f s)) : Survives Q (x >>= f) := by
  rcases hx with hx | ⟨s, hx, hs⟩
  · rw [hx]
    exact Or.inl rfl
  · rw [hx, Exec.ok_bind]
    exact hf s hs

theorem Survives.mono {P Q : State → Prop} {x : Exec State} (hx : Survives P x)
    (h : ∀ s, P s → Q s) : Survives Q x := by
  rcases hx with hx | ⟨s, hx, hs⟩
  · exact Or.inl hx
  · exact Or.inr ⟨s, hx, h s hs⟩

theorem mapM_ok {α β : Type} {f : α → Exec β} {l : List α} (h : ∀ x ∈ l, ∃ y, f x = .ok y) :
    ∃ ys, l.mapM f = .ok ys := by
  induction l with
  | nil => exact ⟨[], rfl⟩
  | cons x rest ih =>
      obtain ⟨y, hy⟩ := h x List.mem_cons_self
      obtain ⟨ys, hys⟩ := ih fun z hz => h z (List.mem_cons_of_mem x hz)
      rw [List.mapM_cons, hy, Exec.ok_bind, hys]
      exact ⟨y :: ys, rfl⟩

theorem sound_initial (lib : Library) (cfg : Config) (fwdlog : Nat → List (ForwardingInfo Bytes)) :
    Sound lib cfg (State.initial cfg fwdlog) := by
  constructor
  · exact Wf.empty.addNode _ _
  · rfl
  · exact Nat.zero_lt_one
  · intro n hn hne
    exact absurd (Nat.lt_one_iff.mp hn) hne
  · intro e he
    cases he

/-! ## The parts of the handlers -/

@[simp] theorem setGraph_graph (s : State) (graph : MultiGraph NodeInfo EdgeInfo) :
    (s.setGraph graph).graph = graph := rfl

section SetLastLsa

variable (s : State) (node seqno seconds n : Nat)

@[simp] theorem setLastLsa_outEdges :
    ((s.setLastLsa node seqno seconds).graph.node n).outEdges = (s.graph.node n).outEdges := by
  rw [State.setLastLsa, setGraph_graph, modify_proj s.graph node Node.outEdges]
  rfl

@[simp] theorem setLastLsa_inEdges :
    ((s.setLastLsa node seqno seconds).graph.node n).inEdges = (s.graph.node n).inEdges := by
  rw [State.setLastLsa, setGraph_graph, modify_proj s.graph node Node.inEdges]
  rfl

@[simp] theorem setLastLsa_id :
    ((s.setLastLsa node seqno seconds).graph.node n).id = (s.graph.node n).id := by
  rw [State.setLastLsa, setGraph_graph, modify_proj s.graph node Node.id]
  rfl

end SetLastLsa

namespace Sound

variable {lib : Library} {cfg : Config} {s : State}

theorem congr (h : Sound lib cfg s) {s' : State} (hgraph : s'.graph = s.graph)
    (hlinks : s'.links = s.links) : Sound lib cfg s' := by
  have hfind : s'.findLink = s.findLink := by
    funext name
    rw [State.findLink, State.findLink, hlinks]
  constructor
  · rw [hgraph]
    exact h.wf
  · rw [hgraph]
    exact h.isLocal
  · rw [hgraph]
    exact h.count
  · rw [hgraph]
    exact h.valid
  · rw [hgraph, hfind]
    exact h.linked

theorem findNode_local (h : Sound lib cfg s) : ∃ n, s.graph.findNode cfg.localEid = some n := by
  have hmem : localNode ∈ List.range s.graph.count := List.mem_range.mpr h.count
  have hid : decide ((s.graph.node localNode).id = cfg.localEid) = true := by simp [h.isLocal]
  have hsome : (s.graph.findNode cfg.localEid).isSome = true :=
    List.find?_isSome.mpr ⟨localNode, hmem, hid⟩
  exact Option.isSome_iff_exists.mp hsome

theorem findOrAdd (h : Sound lib cfg s) {id : Bytes} (hid : Routable lib cfg id) :
    Sound lib cfg (s.findOrAdd id).1 ∧
      (s.findOrAdd id).1.graph.findNode id = some (s.findOrAdd id).2 := by
  rw [State.findOrAdd]
  cases hfind : s.graph.findNode id with
  | some n => exact ⟨h, hfind⟩
  | none =>
      have hvalid : (lib.pattern id).valid = true := by
        refine hid.resolve_left ?_
        rintro rfl
        obtain ⟨n, hn⟩ := h.findNode_local
        rw [hn] at hfind
        cases hfind
      have hne : localNode ≠ s.graph.count := Nat.ne_of_lt h.count
      refine ⟨⟨h.wf.addNode id _, ?_, Nat.lt_succ_of_lt h.count, ?_, ?_⟩,
        findNode_addNode_self hfind _⟩
      · change ((s.graph.addNode id NodeInfo.new).node localNode).id = cfg.localEid
        rw [addNode_of_ne _ hne]
        exact h.isLocal
      · intro n hn hnl
        change (lib.pattern ((s.graph.addNode id NodeInfo.new).node n).id).valid = true
        by_cases hnc : n = s.graph.count
        · rw [hnc, addNode_self]
          exact hvalid
        · rw [addNode_of_ne _ hnc]
          exact h.valid n (by change n < s.graph.count + 1 at hn; omega) hnl
      · change ∀ e ∈ ((s.graph.addNode id NodeInfo.new).node localNode).outEdges, _
        rw [addNode_of_ne _ hne]
        exact h.linked

theorem addEdge (h : Sound lib cfg s) {a b : Nat} (hb : b < s.graph.count) (hba : b ≠ a)
    (info : EdgeInfo)
    (hlink : a = localNode → info.isRegistration = false → (s.findLink info.id).isSome = true) :
    Sound lib cfg (s.setGraph (s.graph.addEdge a b info)) := by
  refine ⟨h.wf.addEdge hb hba info, ?_, h.count, ?_, ?_⟩
  · exact (addEdge_id s.graph a b localNode info).trans h.isLocal
  · intro n hn hnl
    change (lib.pattern ((s.graph.addEdge a b info).node n).id).valid = true
    rw [addEdge_id]
    exact h.valid n hn hnl
  · intro e he
    change e ∈ ((s.graph.addEdge a b info).node localNode).outEdges at he
    rw [addEdge_outEdges] at he
    split at he
    · rename_i ha
      rcases List.mem_append.mp he with he | he
      · exact h.linked e (ha ▸ he)
      · rw [List.mem_singleton.mp he]
        exact hlink ha.symm
    · exact h.linked e he

theorem modifyEdge (h : Sound lib cfg s) (a ptr : Nat) (f : EdgeInfo → EdgeInfo)
    (hid : ∀ info, (f info).id = info.id)
    (hreg : ∀ info, (f info).isRegistration = info.isRegistration) :
    Sound lib cfg (s.setGraph (s.graph.modifyEdge a ptr f)) := by
  refine ⟨h.wf.modifyEdge a ptr f, ?_, h.count, ?_, ?_⟩
  · exact (modifyEdge_id s.graph a localNode ptr f).trans h.isLocal
  · intro n hn hnl
    change (lib.pattern ((s.graph.modifyEdge a ptr f).node n).id).valid = true
    rw [modifyEdge_id]
    exact h.valid n hn hnl
  · intro e he hfalse
    change e ∈ ((s.graph.modifyEdge a ptr f).node localNode).outEdges at he
    rw [modifyEdge_outEdges] at he
    split at he
    · rename_i ha
      obtain ⟨e', he', rfl⟩ := List.mem_map.mp he
      have hold := h.linked e' (ha ▸ he')
      split at hfalse
      · rename_i hptr
        rw [if_pos hptr]
        change (s.findLink (f e'.info).id).isSome = true
        rw [hid]
        exact hold (hreg e'.info ▸ hfalse)
      · rename_i hptr
        rw [if_neg hptr]
        exact hold hfalse
    · exact h.linked e he hfalse

theorem setLink (h : Sound lib cfg s) (link : LinkInfo) : Sound lib cfg (s.setLink link) := by
  refine ⟨h.wf, h.isLocal, h.count, h.valid, ?_⟩
  intro e he hfalse
  have hold := h.linked e he hfalse
  rw [State.findLink, List.find?_isSome] at hold ⊢
  obtain ⟨l, hl, hname⟩ := hold
  by_cases hsame : link.name = e.info.id
  · exact ⟨link, List.mem_cons_self, by simp [hsame]⟩
  · refine ⟨l, List.mem_cons_of_mem link (List.mem_filter.mpr ⟨hl, ?_⟩), hname⟩
    have hlname : l.name = e.info.id := by simpa using hname
    simp [hlname, Ne.symm hsame]

theorem recomputeRoutes (h : Sound lib cfg s) (env : Env) :
    ∃ routes, s.recomputeRoutes lib cfg env = .ok { s with routes := routes } := by
  have hroute : ∀ n ∈ List.range s.graph.count, ∃ entry, s.routeTo lib cfg env n = .ok entry := by
    intro n hn
    rw [State.routeTo]
    by_cases hlocal : n = localNode
    · rw [if_pos hlocal]
      exact ⟨none, rfl⟩
    · have hlt := List.mem_range.mp hn
      obtain ⟨hop, hhop, -⟩ := bestNextHop_ok h.wf lib.queue (weight cfg env.now) h.count hlt
        (Ne.symm hlocal)
      rw [if_neg hlocal, Exec.assert_bind (h.valid n hlt hlocal), hhop, Exec.ok_bind]
      cases hop with
      | none => exact ⟨none, rfl⟩
      | some e => exact ⟨_, rfl⟩
  obtain ⟨entries, hentries⟩ := mapM_ok hroute
  rw [State.recomputeRoutes, hentries, Exec.ok_bind]
  exact ⟨_, rfl⟩

end Sound

/-! ## The current announcement -/

section CurrentLsa

variable {s : State} {node seqno : Nat} {b : LsaBundle}

theorem updateCurrentLsa_stale (hseqno : seqno ≤ (s.graph.node node).info.lastLsaSeqno)
    (hseconds : b.seconds < (s.graph.node node).info.lastLsaCreationTs) :
    s.updateCurrentLsa node b seqno = .ok (s.suppress b.bundleid ForwardingLog.wildcardEid, false) := by
  rw [State.updateCurrentLsa, if_pos ⟨hseqno, hseconds⟩]
  rfl

theorem updateCurrentLsa_first
    (hnew : ¬(seqno ≤ (s.graph.node node).info.lastLsaSeqno ∧
      b.seconds < (s.graph.node node).info.lastLsaCreationTs))
    (hnone : s.currentLsas.find? (fun c => decide (c.source = (s.graph.node node).id)) = none) :
    s.updateCurrentLsa node b seqno =
      .ok ((s.setLastLsa node seqno b.seconds).pushCurrent b, true) := by
  rw [State.updateCurrentLsa, if_neg hnew, State.dropStale, hnone]
  dsimp only
  rw [pure_bind]
  dsimp only
  split <;> rfl

theorem updateCurrentLsa_replace
    (hnew : ¬(seqno ≤ (s.graph.node node).info.lastLsaSeqno ∧
      b.seconds < (s.graph.node node).info.lastLsaCreationTs)) {c : LsaBundle}
    (hsome : s.currentLsas.find? (fun c => decide (c.source = (s.graph.node node).id)) = some c)
    (hpos : (s.graph.node node).info.lastLsaSeqno ≠ 0) :
    s.updateCurrentLsa node b seqno =
      .ok ((({ s with currentLsas :=
          s.currentLsas.eraseP fun c => decide (c.source = (s.graph.node node).id) }.suppress
        c.bundleid ForwardingLog.wildcardEid).setLastLsa node seqno b.seconds).pushCurrent b, true) := by
  rw [State.updateCurrentLsa, if_neg hnew, State.dropStale, hsome]
  dsimp only
  rw [if_neg hpos, pure_bind]
  exact if_neg hpos

theorem updateCurrentLsa_notReached
    (hnew : ¬(seqno ≤ (s.graph.node node).info.lastLsaSeqno ∧
      b.seconds < (s.graph.node node).info.lastLsaCreationTs)) {c : LsaBundle}
    (hsome : s.currentLsas.find? (fun c => decide (c.source = (s.graph.node node).id)) = some c)
    (hzero : (s.graph.node node).info.lastLsaSeqno = 0) :
    s.updateCurrentLsa node b seqno = .error (.fault .panic) := by
  rw [State.updateCurrentLsa, if_neg hnew, State.dropStale, hsome]
  dsimp only
  rw [if_pos hzero]
  rfl

@[simp] theorem pushCurrent_graph (s : State) (b : LsaBundle) : (s.pushCurrent b).graph = s.graph := by
  rw [State.pushCurrent]
  split <;> rfl

@[simp] theorem pushCurrent_links (s : State) (b : LsaBundle) : (s.pushCurrent b).links = s.links := by
  rw [State.pushCurrent]
  split <;> rfl

theorem updateCurrentLsa_cases (s : State) (node : Nat) (b : LsaBundle) (seqno : Nat) :
    s.updateCurrentLsa node b seqno = .error (.fault .panic) ∨
      ∃ s' isNew, s.updateCurrentLsa node b seqno = .ok (s', isNew) ∧ s'.links = s.links ∧
        (s'.graph = s.graph ∨ s'.graph = (s.setLastLsa node seqno b.seconds).graph) := by
  by_cases hnew : seqno ≤ (s.graph.node node).info.lastLsaSeqno ∧
      b.seconds < (s.graph.node node).info.lastLsaCreationTs
  · exact Or.inr ⟨_, _, updateCurrentLsa_stale hnew.1 hnew.2, rfl, Or.inl rfl⟩
  · cases hfind : s.currentLsas.find? fun c => decide (c.source = (s.graph.node node).id) with
    | none =>
        refine Or.inr ⟨_, _, updateCurrentLsa_first hnew hfind, ?_, Or.inr ?_⟩
        · exact pushCurrent_links _ b
        · exact pushCurrent_graph _ b
    | some c =>
        by_cases hzero : (s.graph.node node).info.lastLsaSeqno = 0
        · exact Or.inl (updateCurrentLsa_notReached hnew hfind hzero)
        · refine Or.inr ⟨_, _, updateCurrentLsa_replace hnew hfind hzero, ?_, Or.inr ?_⟩
          · exact pushCurrent_links _ b
          · exact pushCurrent_graph _ b

end CurrentLsa

/-! ## The handlers -/

theorem findOrAdd_node (s : State) (id : Bytes) {n : Nat} (hn : n < s.graph.count) :
    (s.findOrAdd id).1.graph.node n = s.graph.node n := by
  rw [State.findOrAdd]
  cases s.graph.findNode id with
  | some m => rfl
  | none => exact addNode_of_ne s.graph (Nat.ne_of_lt hn) id _

theorem findOrAdd_count (s : State) (id : Bytes) :
    s.graph.count ≤ (s.findOrAdd id).1.graph.count := by
  rw [State.findOrAdd]
  cases s.graph.findNode id with
  | some m => exact Nat.le_refl _
  | none => exact Nat.le_succ _

/-- A link of an announcement leaves the names of the nodes and the edges of all nodes but the
announcing one alone. -/
theorem handleLinkState_frame (env : Env) (s : State) (a : Nat) (ls : DTLSR.LinkState) {n : Nat}
    (hn : n < s.graph.count) :
    n < (s.handleLinkState env a ls).graph.count ∧
      ((s.handleLinkState env a ls).graph.node n).id = (s.graph.node n).id ∧
      ((s.handleLinkState env a ls).graph.node n).info = (s.graph.node n).info ∧
      (n ≠ a → ((s.handleLinkState env a ls).graph.node n).outEdges = (s.graph.node n).outEdges) := by
  have hnode := findOrAdd_node s ls.dest hn
  have hcount := findOrAdd_count s ls.dest
  rw [State.handleLinkState]
  split
  · exact ⟨hn, rfl, rfl, fun _ => rfl⟩
  · dsimp only
    split
    · refine ⟨Nat.lt_of_lt_of_le hn hcount, ?_, ?_, ?_⟩
      · rw [setGraph_graph, addEdge_id, hnode]
      · rw [setGraph_graph, addEdge_info, hnode]
      · intro hna
        rw [setGraph_graph, addEdge_outEdges, if_neg hna, hnode]
    · refine ⟨Nat.lt_of_lt_of_le hn hcount, ?_, ?_, ?_⟩
      · rw [setGraph_graph, modifyEdge_id, hnode]
      · rw [setGraph_graph, modifyEdge_info, hnode]
      · intro hna
        rw [setGraph_graph, modifyEdge_outEdges, if_neg hna, hnode]

/-- The pointers and ends of the edges of the local node. -/
def localEnds (s : State) : List (Nat × Nat) :=
  (s.graph.node localNode).outEdges.map fun e => (e.ptr, e.dest)

namespace Sound

variable {lib : Library} {cfg : Config} {s : State}

theorem setLastLsa (h : Sound lib cfg s) (node seqno seconds : Nat) :
    Sound lib cfg (s.setLastLsa node seqno seconds) := by
  refine ⟨h.wf.modifyInfo node fun _ => ⟨seqno, seconds⟩, ?_, h.count, ?_, ?_⟩
  · rw [setLastLsa_id]
    exact h.isLocal
  · intro n hn hnl
    rw [setLastLsa_id]
    exact h.valid n hn hnl
  · rw [setLastLsa_outEdges]
    exact h.linked

theorem localEnds_setLastLsa (s : State) (node seqno seconds : Nat) :
    localEnds (s.setLastLsa node seqno seconds) = localEnds s := by
  rw [localEnds, setLastLsa_outEdges]
  rfl

theorem updateCurrentLsa (h : Sound lib cfg s) (node : Nat) (b : LsaBundle) (seqno : Nat) :
    s.updateCurrentLsa node b seqno = .error (.fault .panic) ∨
      ∃ s' isNew, s.updateCurrentLsa node b seqno = .ok (s', isNew) ∧ Sound lib cfg s' ∧
        localEnds s' = localEnds s := by
  refine (updateCurrentLsa_cases s node b seqno).imp_right ?_
  rintro ⟨s', isNew, hs', hlinks, hgraph⟩
  refine ⟨s', isNew, hs', ?_⟩
  rcases hgraph with hgraph | hgraph
  · exact ⟨h.congr hgraph hlinks, by rw [localEnds, hgraph]; rfl⟩
  · refine ⟨(h.setLastLsa node seqno b.seconds).congr hgraph hlinks, ?_⟩
    rw [← localEnds_setLastLsa s node seqno b.seconds, localEnds, hgraph]
    rfl

theorem generateLinkState (h : Sound lib cfg s) (env : Env) {e : Edge EdgeInfo}
    (he : e ∈ (s.graph.node localNode).outEdges) : ∃ ls, s.generateLinkState env e = .ok ls := by
  rw [State.generateLinkState]
  split
  · rename_i hreg
    rw [Exec.assert_bind (h.linked e he hreg)]
    exact ⟨_, rfl⟩
  · exact ⟨_, rfl⟩

theorem touchEdges (h : Sound lib cfg s) (now : Nat) :
    Sound lib cfg (s.setGraph (s.graph.modify localNode fun n =>
      { n with outEdges := n.outEdges.map fun e =>
          { e with info := { e.info with lastUpdate := now } } })) := by
  refine ⟨?_, ?_, h.count, ?_, ?_⟩
  · apply h.wf.congr
    · intro n
      by_cases hn : n = localNode
      · subst hn
        rw [setGraph_graph, modify_self, List.map_map]
        rfl
      · rw [setGraph_graph, modify_of_ne _ _ hn]
    · intro n
      rw [setGraph_graph, modify_proj s.graph localNode Node.inEdges]
      rfl
    · rfl
    · rfl
  · rw [setGraph_graph, modify_self]
    exact h.isLocal
  · intro n hn hnl
    rw [setGraph_graph, modify_of_ne _ _ hnl]
    exact h.valid n hn hnl
  · intro e he
    rw [setGraph_graph, modify_self] at he
    obtain ⟨e', he', rfl⟩ := List.mem_map.mp he
    exact h.linked e' he'

theorem sendLsa (h : Sound lib cfg s) (env : Env) :
    Survives (fun s' => Sound lib cfg s' ∧ localEnds s' = localEnds s) (s.sendLsa lib cfg env) := by
  obtain ⟨links, hlinks⟩ := mapM_ok fun e he => h.generateLinkState env he
  rw [State.sendLsa, hlinks, Exec.ok_bind]
  dsimp only
  have htouch := h.touchEdges env.now
  rcases htouch.updateCurrentLsa localNode _ _ with hpanic | ⟨s', isNew, hs', hsound, hends⟩
  · rw [hpanic]
    exact Or.inl rfl
  · rw [hs', Exec.ok_bind]
    refine Survives.ok ⟨hsound.congr rfl rfl, ?_⟩
    change localEnds s' = _
    rw [hends, localEnds, localEnds, setGraph_graph, modify_self, List.map_map]
    rfl

theorem scheduleLsa (h : Sound lib cfg s) (env : Env) :
    Survives (fun s' => Sound lib cfg s' ∧ localEnds s' = localEnds s)
      (s.scheduleLsa lib cfg env) := by
  rw [State.scheduleLsa]
  split
  · exact Survives.ok ⟨h, rfl⟩
  · split
    · exact h.sendLsa env
    · exact Survives.ok ⟨h.congr rfl rfl, rfl⟩

theorem recomputed (h : Sound lib cfg s) (env : Env) :
    Survives (fun s' => Sound lib cfg s' ∧ localEnds s' = localEnds s)
      (s.recomputeRoutes lib cfg env) := by
  obtain ⟨routes, hroutes⟩ := h.recomputeRoutes env
  rw [hroutes]
  exact Survives.ok ⟨h.congr rfl rfl, rfl⟩

theorem handleLinkState (h : Sound lib cfg s) (env : Env) {a : Nat} {ls : DTLSR.LinkState}
    (ha : a ≠ localNode) (hdest : Routable lib cfg ls.dest)
    (hne : (s.graph.node a).id ≠ ls.dest) (hcount : a < s.graph.count) :
    Sound lib cfg (s.handleLinkState env a ls) := by
  rw [State.handleLinkState, if_neg fun hboth => ha hboth.1]
  obtain ⟨hsound, hfind⟩ := h.findOrAdd hdest
  obtain ⟨hlt, hid⟩ := findNode_some hfind
  dsimp only
  split
  · apply hsound.addEdge hlt
    · intro hsame
      rw [hsame, findOrAdd_node s ls.dest hcount] at hid
      exact hne hid
    · intro hlocal
      exact absurd hlocal ha
  · exact hsound.modifyEdge _ _ _ (fun _ => rfl) fun _ => rfl

end Sound

end DTLSRRouter

end Dtn2
