import Dtn2.Routing.DTLSRTracking

/-!
# The newest announcement of a node

The announcements of a node arrive over all paths, in any order and more than once. The router keeps
the newest one and its link parameters, as long as an announcement that has been overtaken was created
in an earlier second and the numbers start at 1.
-/

namespace Dtn2

namespace DTLSRRouter

open DTLSR MultiGraph Framework

/-! ## The links of an announcement -/

/-- The parameters that a list of links gives to a link id: those of the last one with the id. -/
def announcedParams (links : List DTLSR.LinkState) (id : Bytes) : Option LinkParams :=
  (links.reverse.find? fun ls => decide (ls.id = id)).map DTLSR.LinkState.params

def Shows (edges : List (Edge EdgeInfo)) (links : List DTLSR.LinkState) : Prop :=
  ∀ id params, announcedParams links id = some params →
    (∃ e ∈ edges, e.info.id = id) ∧ ∀ e ∈ edges, e.info.id = id → e.info.params = params

theorem announcedParams_append (links : List DTLSR.LinkState) (ls : DTLSR.LinkState) (id : Bytes) :
    announcedParams (links ++ [ls]) id =
      if ls.id = id then some ls.params else announcedParams links id := by
  rw [announcedParams, List.reverse_append, List.reverse_singleton, List.singleton_append,
    List.find?_cons]
  by_cases hid : ls.id = id
  · simp [hid]
  · simp [hid, announcedParams]

section Links

variable {cfg : Config} {s : State} {a : Nat}

theorem handleLinkState_edges (h : Base cfg s) (ha : a ≠ localNode) (hlt : a < s.graph.count)
    (env : Env) (ls : DTLSR.LinkState) :
    (∃ e ∈ ((s.handleLinkState env a ls).graph.node a).outEdges, e.info.id = ls.id) ∧
      (∀ e ∈ ((s.handleLinkState env a ls).graph.node a).outEdges, e.info.id = ls.id →
        e.info.params = ls.params) ∧
      ∀ e, e.info.id ≠ ls.id →
        (e ∈ ((s.handleLinkState env a ls).graph.node a).outEdges ↔ e ∈ (s.graph.node a).outEdges) := by
  have hadd := h.findOrAdd ls.dest
  have hout : ((s.findOrAdd ls.dest).1.graph.node a).outEdges = (s.graph.node a).outEdges := by
    rw [findOrAdd_node s ls.dest hlt]
  rw [State.handleLinkState, if_neg fun hboth => ha hboth.1]
  dsimp only
  split
  · rename_i hfind
    rw [setGraph_graph, addEdge_outEdges, if_pos rfl]
    refine ⟨?_, ?_, ?_⟩
    · exact ⟨_, List.mem_append_right _ (List.mem_singleton_self _), rfl⟩
    · intro e he hid
      rcases List.mem_append.mp he with he | he
      · have hne := List.find?_eq_none.mp hfind e he
        simp [hid] at hne
      · rw [List.mem_singleton.mp he]
        rfl
    · intro e hid
      rw [List.mem_append, List.mem_singleton, hout]
      refine ⟨fun he => he.resolve_right ?_, Or.inl⟩
      rintro rfl
      exact hid rfl
  · rename_i f hfind
    have hf := List.mem_of_find?_eq_some hfind
    have hfid : f.info.id = ls.id := by simpa using List.find?_some hfind
    -- only the edge that was found has its pointer, and only it has its name
    have hptr : ∀ e ∈ ((s.findOrAdd ls.dest).1.graph.node a).outEdges, e.ptr = f.ptr → e = f :=
      fun e he heq => KeyedList.eq_of_key_eq Edge.ptr (hadd.ptrs a) he hf heq
    have hname : ∀ e ∈ ((s.findOrAdd ls.dest).1.graph.node a).outEdges, e.info.id = ls.id → e = f :=
      fun e he heq => KeyedList.eq_of_key_eq (fun e : Edge EdgeInfo => e.info.id) (hadd.names a ha)
        he hf (heq.trans hfid.symm)
    rw [setGraph_graph, modifyEdge_outEdges, if_pos rfl]
    refine ⟨?_, ?_, ?_⟩
    · refine ⟨_, List.mem_map_of_mem hf, ?_⟩
      rw [if_pos rfl]
      exact hfid
    · intro e he hid
      obtain ⟨e', he', rfl⟩ := List.mem_map.mp he
      split at hid
      · rename_i heq
        rw [if_pos heq]
      · rename_i heq
        exact absurd (congrArg Edge.ptr (hname e' he' hid)) heq
    · intro e hid
      rw [← hout]
      constructor
      · intro he
        obtain ⟨e', he', rfl⟩ := List.mem_map.mp he
        split at hid
        · rename_i heq
          rw [hptr e' he' heq] at hid
          exact absurd hfid hid
        · rename_i heq
          rw [if_neg heq]
          exact he'
      · intro he
        refine List.mem_map.mpr ⟨e, he, if_neg ?_⟩
        intro heq
        rw [hptr e he heq] at hid
        exact hid hfid

theorem handleLinks_shows (h : Base cfg s) (ha : a ≠ localNode) (hlt : a < s.graph.count) (env : Env)
    (links : List DTLSR.LinkState) :
    Base cfg (links.foldl (State.handleLinkState env a) s) ∧
      Shows ((links.foldl (State.handleLinkState env a) s).graph.node a).outEdges links := by
  induction links using List.reverseRecOn with
  | nil =>
      refine ⟨h, ?_⟩
      intro id params hparams
      cases hparams
  | append_singleton links ls ih =>
      obtain ⟨hbase, hshows⟩ := ih
      have hcount := (handleLinks_frame env a links s hlt).1
      obtain ⟨hexists, hparams, hother⟩ := handleLinkState_edges hbase ha hcount env ls
      rw [List.foldl_append, List.foldl_cons, List.foldl_nil]
      refine ⟨hbase.handleLinkState env a ls, ?_⟩
      intro id params hannounced
      rw [announcedParams_append] at hannounced
      split at hannounced
      · rename_i hid
        subst hid
        cases hannounced
        exact ⟨hexists, hparams⟩
      · rename_i hid
        obtain ⟨⟨e, he, heid⟩, hall⟩ := hshows id params hannounced
        have hne : ∀ f : Edge EdgeInfo, f.info.id = id → f.info.id ≠ ls.id := by
          intro f hf heq
          exact hid (heq.symm.trans hf)
        refine ⟨⟨e, (hother e (hne e heid)).mpr he, heid⟩, ?_⟩
        intro f hf hfid
        exact hall f ((hother f (hne f hfid)).mp hf) hfid

end Links

/-! ## Announcements of one node -/

/-- The announcement of the node `x` that an event hands to the router. -/
def heardBy (lib : Library) (cfg : Config) (x : Bytes) : Env × Event → Option (LsaBundle × LSA)
  | (_, .deliver b) =>
      if b.source = x ∧ b.source ≠ cfg.localEid ∧ cfg.area = lib.area b.dest then
        (parseLsaBundle lib b.payload).map fun lsa => (b, lsa)
      else none
  | _ => none

/-- The announcements of the node `x` in a run, in the order of their arrival. -/
def heard (lib : Library) (cfg : Config) (x : Bytes) (events : List (Env × Event)) :
    List (LsaBundle × LSA) :=
  events.filterMap (heardBy lib cfg x)

/-- The announcements come from one node, which numbers them upwards and creates them one after the
other. -/
structure Numbered (l : List (LsaBundle × LSA)) : Prop where
  same : ∀ m ∈ l, ∀ n ∈ l, m.2.seqno = n.2.seqno → m.2 = n.2 ∧ m.1.seconds = n.1.seconds
  later : ∀ m ∈ l, ∀ n ∈ l, m.2.seqno < n.2.seqno → m.1.seconds ≤ n.1.seconds

/-- No number is 0, and an announcement that arrives after one with a higher number was created in
another second. -/
structure Timely (l : List (LsaBundle × LSA)) : Prop where
  positive : ∀ m ∈ l, m.2.seqno ≠ 0
  overtaken : l.Pairwise fun m n => n.2.seqno < m.2.seqno → n.1.seconds ≠ m.1.seconds

/-- The announcement `cur` is the newest of `l`; it is the current one of its node, the edges of the
node show it, and all the others have been suppressed. -/
structure Newest (x : Bytes) (l : List (LsaBundle × LSA)) (cur : LsaBundle × LSA) (s : State) :
    Prop where
  mem : cur ∈ l
  newest : ∀ m ∈ l, m.2.seqno ≤ cur.2.seqno
  held : (s.currentLsas.filter fun c => decide (c.source = x)) = [cur.1]
  shown : ∃ n, s.graph.findNode x = some n ∧ Shows (s.graph.node n).outEdges cur.2.links
  suppressed : ∀ m ∈ l, m.1.bundleid ≠ cur.1.bundleid → suppression ∈ s.fwdlog m.1.bundleid

/-- What the router keeps of the node `x` after it has heard `l`. -/
def Tracks (x : Bytes) (l : List (LsaBundle × LSA)) (s : State) : Prop :=
  (l = [] ∧ (s.currentLsas.filter fun c => decide (c.source = x)) = [] ∧
    ∀ n, s.graph.findNode x = some n → (s.graph.node n).info = NodeInfo.new) ∨
  ∃ cur, Newest x l cur s ∧
    ∀ n, s.graph.findNode x = some n → (s.graph.node n).info = ⟨cur.2.seqno, cur.1.seconds⟩

theorem Newest.aside {x : Bytes} {l : List (LsaBundle × LSA)} {cur : LsaBundle × LSA} {s s' : State}
    (h : Newest x l cur s) (haside : Aside x s s') : Newest x l cur s' := by
  refine ⟨h.mem, h.newest, haside.held.trans h.held, ?_, ?_⟩
  · obtain ⟨n, hn, hshows⟩ := h.shown
    obtain ⟨hn', -, hout⟩ := haside.found n hn
    exact ⟨n, hn', hout ▸ hshows⟩
  · intro m hm hne
    exact haside.log _ _ (h.suppressed m hm hne)

theorem Tracks.aside {x : Bytes} {l : List (LsaBundle × LSA)} {s s' : State} (h : Tracks x l s)
    (haside : Aside x s s') : Tracks x l s' := by
  rcases h with ⟨hl, hheld, hinfo⟩ | ⟨cur, hnewest, hinfo⟩
  · refine Or.inl ⟨hl, haside.held.trans hheld, ?_⟩
    intro n hn
    cases hfind : s.graph.findNode x with
    | none => exact haside.fresh hfind n hn
    | some m =>
        obtain ⟨hm, hsame, -⟩ := haside.found m hfind
        rw [hm, Option.some.injEq] at hn
        subst hn
        exact hsame.trans (hinfo m hfind)
  · refine Or.inr ⟨cur, hnewest.aside haside, ?_⟩
    obtain ⟨m, hm, -⟩ := hnewest.shown
    obtain ⟨hm', hsame, -⟩ := haside.found m hm
    intro n hn
    rw [hm', Option.some.injEq] at hn
    subst hn
    exact hsame.trans (hinfo m hm)

section Arrival

variable {cfg : Config} {x : Bytes} {l : List (LsaBundle × LSA)} {s : State} {a : Nat}
  {b : LsaBundle} {lsa : LSA}

theorem Tracks.update_ok (h : Tracks x l s) (ha : s.graph.findNode x = some a)
    (htimely : Timely (l ++ [(b, lsa)])) :
    ∃ p, s.updateCurrentLsa a b lsa.seqno = .ok p := by
  have hid := (findNode_some ha).2
  by_cases hold : lsa.seqno ≤ (s.graph.node a).info.lastLsaSeqno ∧
      b.seconds < (s.graph.node a).info.lastLsaCreationTs
  · exact ⟨_, updateCurrentLsa_stale hold.1 hold.2⟩
  · cases hfind : s.currentLsas.find? fun c => decide (c.source = (s.graph.node a).id) with
    | none => exact ⟨_, updateCurrentLsa_first hold hfind⟩
    | some c =>
        have hsource : c.source = x := by
          have hfound := List.find?_some hfind
          rw [hid] at hfound
          simpa using hfound
        have hmem : c ∈ s.currentLsas.filter fun c => decide (c.source = x) :=
          List.mem_filter.mpr ⟨List.mem_of_find?_eq_some hfind, decide_eq_true hsource⟩
        rcases h with ⟨-, hheld, -⟩ | ⟨cur, hnewest, hinfo⟩
        · rw [hheld] at hmem
          cases hmem
        · refine ⟨_, updateCurrentLsa_replace hold hfind ?_⟩
          rw [hinfo a ha]
          exact htimely.positive cur (List.mem_append_left _ hnewest.mem)

theorem Tracks.stale (h : Tracks x l s) (ha : s.graph.findNode x = some a)
    (hseqno : lsa.seqno ≤ (s.graph.node a).info.lastLsaSeqno)
    (hseconds : b.seconds < (s.graph.node a).info.lastLsaCreationTs) :
    Tracks x (l ++ [(b, lsa)]) (s.suppress b.bundleid ForwardingLog.wildcardEid) := by
  have hsuppress := h.aside (Aside.suppress x s b.bundleid ForwardingLog.wildcardEid)
  rcases h with ⟨-, -, hinfo⟩ | ⟨cur, -, hinfo⟩
  · rw [hinfo a ha] at hseconds
    exact absurd hseconds (Nat.not_lt_zero _)
  · rw [hinfo a ha] at hseqno
    rcases hsuppress with ⟨-, -, hinfo'⟩ | ⟨cur', hnewest', hinfo'⟩
    · have hsame := (hinfo a ha).symm.trans (hinfo' a ha)
      rw [hinfo a ha, show cur.1.seconds = 0 from congrArg NodeInfo.lastLsaCreationTs hsame] at hseconds
      exact absurd hseconds (Nat.not_lt_zero _)
    · have hsame := (hinfo a ha).symm.trans (hinfo' a ha)
      have hcur : cur.2.seqno = cur'.2.seqno := congrArg NodeInfo.lastLsaSeqno hsame
      refine Or.inr ⟨cur', ⟨List.mem_append_left _ hnewest'.mem, ?_, hnewest'.held,
        hnewest'.shown, ?_⟩, hinfo'⟩
      · intro m hm
        rcases List.mem_append.mp hm with hm | hm
        · exact hnewest'.newest m hm
        · rw [List.mem_singleton.mp hm, ← hcur]
          exact hseqno
      · intro m hm hne
        rcases List.mem_append.mp hm with hm | hm
        · exact hnewest'.suppressed m hm hne
        · rw [List.mem_singleton.mp hm]
          exact mem_suppress s b.bundleid

theorem Tracks.newer (h : Tracks x l s) (ha : s.graph.findNode x = some a)
    (hnumbered : Numbered (l ++ [(b, lsa)])) (htimely : Timely (l ++ [(b, lsa)]))
    (hnew : ¬(lsa.seqno ≤ (s.graph.node a).info.lastLsaSeqno ∧
      b.seconds < (s.graph.node a).info.lastLsaCreationTs)) :
    ∀ m ∈ l ++ [(b, lsa)], m.2.seqno ≤ lsa.seqno := by
  have hself : (b, lsa) ∈ l ++ [(b, lsa)] := List.mem_append_right _ (List.mem_singleton_self _)
  intro m hm
  rcases List.mem_append.mp hm with hm | hm
  · rcases h with ⟨rfl, -⟩ | ⟨cur, hnewest, hinfo⟩
    · cases hm
    · apply (hnewest.newest m hm).trans
      by_contra hlt
      have hlower : lsa.seqno < cur.2.seqno := Nat.lt_of_not_le hlt
      have hcur := List.mem_append_left [(b, lsa)] hnewest.mem
      have hle : b.seconds ≤ cur.1.seconds := hnumbered.later _ hself cur hcur hlower
      have hne : b.seconds ≠ cur.1.seconds :=
        (List.pairwise_append.mp htimely.overtaken).2.2 cur hnewest.mem (b, lsa)
          (List.mem_singleton_self _) hlower
      apply hnew
      rw [hinfo a ha]
      exact ⟨Nat.le_of_lt hlower, Nat.lt_of_le_of_ne hle hne⟩
  · rw [List.mem_singleton.mp hm]

theorem Tracks.replaced (h : Tracks x l s) (ha : s.graph.findNode x = some a) {s' : State}
    (hreplaces : Replaces a b lsa.seqno s s') :
    ∀ m ∈ l ++ [(b, lsa)], m.1.bundleid ≠ b.bundleid → suppression ∈ s'.fwdlog m.1.bundleid := by
  have hid := (findNode_some ha).2
  intro m hm hne
  rcases List.mem_append.mp hm with hm | hm
  · rcases h with ⟨rfl, -⟩ | ⟨cur, hnewest, -⟩
    · cases hm
    · by_cases hcur : m.1.bundleid = cur.1.bundleid
      · have hmem : cur.1 ∈ s.currentLsas.filter fun c => decide (c.source = x) := by
          rw [hnewest.held]
          exact List.mem_singleton_self _
        obtain ⟨hheld, hsource⟩ := List.mem_filter.mp hmem
        rw [hcur]
        apply hreplaces.dropped cur.1 hheld
        rw [hid]
        simpa using hsource
      · exact hreplaces.log _ _ (hnewest.suppressed m hm hcur)
  · rw [List.mem_singleton.mp hm] at hne
    exact absurd rfl hne

end Arrival

/-! ## The rest of the handler -/

theorem handleLinkState_rest (env : Env) (a : Nat) (s : State) (ls : DTLSR.LinkState) :
    (s.handleLinkState env a ls).currentLsas = s.currentLsas ∧
      (s.handleLinkState env a ls).fwdlog = s.fwdlog ∧
      ∀ x n, s.graph.findNode x = some n →
        (s.handleLinkState env a ls).graph.findNode x = some n := by
  rw [State.handleLinkState]
  split
  · exact ⟨rfl, rfl, fun _ _ h => h⟩
  · have hrest : (s.findOrAdd ls.dest).1.currentLsas = s.currentLsas ∧
        (s.findOrAdd ls.dest).1.fwdlog = s.fwdlog := by
      rw [State.findOrAdd]
      split <;> exact ⟨rfl, rfl⟩
    have hfind : ∀ x n, s.graph.findNode x = some n →
        (s.findOrAdd ls.dest).1.graph.findNode x = some n :=
      fun x n hn => ((Aside.findOrAdd x s ls.dest).found n hn).1
    dsimp only
    split
    · refine ⟨hrest.1, hrest.2, ?_⟩
      intro x n hn
      rw [← hfind x n hn]
      refine findNode_congr ?_ ?_ x
      · rfl
      · intro m
        exact addEdge_id _ _ _ m _
    · refine ⟨hrest.1, hrest.2, ?_⟩
      intro x n hn
      rw [← hfind x n hn]
      refine findNode_congr ?_ ?_ x
      · rfl
      · intro m
        rw [setGraph_graph, modifyEdge_id]

theorem handleLinks_rest (env : Env) (a : Nat) (links : List DTLSR.LinkState) (s : State) :
    (links.foldl (State.handleLinkState env a) s).currentLsas = s.currentLsas ∧
      (links.foldl (State.handleLinkState env a) s).fwdlog = s.fwdlog ∧
      ∀ x n, s.graph.findNode x = some n →
        (links.foldl (State.handleLinkState env a) s).graph.findNode x = some n := by
  induction links generalizing s with
  | nil => exact ⟨rfl, rfl, fun _ _ h => h⟩
  | cons ls rest ih =>
      obtain ⟨hcurrent, hlog, hfind⟩ := handleLinkState_rest env a s ls
      obtain ⟨hcurrent', hlog', hfind'⟩ := ih (s.handleLinkState env a ls)
      rw [List.foldl_cons]
      exact ⟨hcurrent'.trans hcurrent, hlog'.trans hlog, fun x n hn => hfind' x n (hfind x n hn)⟩

theorem Tracks.handleLsa {lib : Library} {cfg : Config} {env : Env} {x : Bytes}
    {l : List (LsaBundle × LSA)} {s s' : State} {b : LsaBundle} {lsa : LSA} (h : Tracks x l s)
    (hbase : Base cfg s) (hx : x ≠ cfg.localEid) (hb : b.source = x)
    (harea : cfg.area = lib.area b.dest) (hnumbered : Numbered (l ++ [(b, lsa)]))
    (htimely : Timely (l ++ [(b, lsa)])) (hs' : s.handleLsa lib cfg env b lsa = .ok s') :
    Base cfg s' ∧ Tracks x (l ++ [(b, lsa)]) s' := by
  rw [State.handleLsa, if_neg (not_not.mpr harea), hb] at hs'
  have hadd := hbase.findOrAdd x
  have htracks := h.aside (Aside.findOrAdd x s x)
  have hfind := findNode_findOrAdd s x
  dsimp only at hs'
  generalize s.findOrAdd x = found at hs' hadd htracks hfind
  obtain ⟨s1, a⟩ := found
  dsimp only at hs' hadd htracks hfind
  obtain ⟨hlt, hid⟩ := findNode_some hfind
  obtain ⟨p, hp, hs'⟩ := Exec.bind_eq_ok.mp hs'
  obtain ⟨s2, isNew⟩ := p
  have hsource : b.source = (s1.graph.node a).id := hb.trans hid.symm
  rcases updateCurrentLsa_ok hadd hsource hp with ⟨rfl, rfl, hseqno, hseconds⟩ | ⟨rfl, hreplaces, hnew⟩
  · cases hs'
    exact ⟨hadd.suppress _ _, htracks.stale hfind hseqno hseconds⟩
  · have ha : a ≠ localNode := by
      rintro rfl
      exact hx (hid.symm.trans hadd.isLocal)
    have hbase2 := (hreplaces.base hadd hsource).suppressBack b.bundleid
    have hgraph2 : (s2.suppressBack b.bundleid).graph = (s1.setLastLsa a lsa.seqno b.seconds).graph := by
      rw [suppressBack_graph, hreplaces.graph]
    have hlt2 : a < (s2.suppressBack b.bundleid).graph.count := by
      rw [hgraph2]
      exact hlt
    have hfind2 : (s2.suppressBack b.bundleid).graph.findNode x = some a := by
      rw [hgraph2, ← hfind]
      refine findNode_congr ?_ ?_ x
      · rfl
      · intro n
        exact setLastLsa_id s1 a lsa.seqno b.seconds n
    have hinfo2 : ((s2.suppressBack b.bundleid).graph.node a).info = ⟨lsa.seqno, b.seconds⟩ := by
      rw [hgraph2, State.setLastLsa, setGraph_graph, modify_self]
    have hback := Aside.suppressBack x s2 b.bundleid
    obtain ⟨hbase3, hshows⟩ := handleLinks_shows hbase2 ha hlt2 env lsa.links
    obtain ⟨hcurrent, hlog, hfind3⟩ :=
      handleLinks_rest env a lsa.links (s2.suppressBack b.bundleid)
    obtain ⟨-, -, hinfo3, -⟩ := handleLinks_frame env a lsa.links (s2.suppressBack b.bundleid) hlt2
    obtain ⟨routes, rfl⟩ := recomputeRoutes_eq_ok hs'
    refine ⟨hbase3.congr rfl rfl, Or.inr ⟨(b, lsa), ⟨?_, ?_, ?_, ?_, ?_⟩, ?_⟩⟩
    · exact List.mem_append_right _ (List.mem_singleton_self _)
    · exact htracks.newer hfind hnumbered htimely hnew
    · change ((lsa.links.foldl (State.handleLinkState env a)
        (s2.suppressBack b.bundleid)).currentLsas.filter fun c => decide (c.source = x)) = [b]
      rw [hcurrent, hback.held, hreplaces.current, List.filter_append, List.filter_filter, hid]
      have hnone : (s1.currentLsas.filter fun c =>
          decide (c.source = x) && !decide (c.source = x)) = [] := by
        rw [List.filter_eq_nil_iff]
        intro c _
        simp
      rw [hnone, List.nil_append, List.filter_cons_of_pos (by simp [hb]), List.filter_nil]
    · exact ⟨a, hfind3 x a hfind2, hshows⟩
    · intro m hm hne
      change suppression ∈ (lsa.links.foldl (State.handleLinkState env a)
        (s2.suppressBack b.bundleid)).fwdlog m.1.bundleid
      rw [hlog]
      exact hback.log _ _ (htracks.replaced hfind hreplaces m hm hne)
    · intro n hn
      have hna : n = a := Option.some.inj (hn.symm.trans (hfind3 x a hfind2))
      rw [hna]
      exact hinfo3.trans hinfo2

/-! ## Runs -/

section Runs

variable {lib : Library} {cfg : Config} {x : Bytes} {s s' : State} {l : List (LsaBundle × LSA)}

theorem Numbered.left {l l' : List (LsaBundle × LSA)} (h : Numbered (l ++ l')) : Numbered l :=
  ⟨fun m hm n hn => h.same m (List.mem_append_left _ hm) n (List.mem_append_left _ hn),
    fun m hm n hn => h.later m (List.mem_append_left _ hm) n (List.mem_append_left _ hn)⟩

theorem Timely.left {l l' : List (LsaBundle × LSA)} (h : Timely (l ++ l')) : Timely l :=
  ⟨fun m hm => h.positive m (List.mem_append_left _ hm), (List.pairwise_append.mp h.overtaken).1⟩

theorem Keeps.step (hx : x ≠ cfg.localEid) (h : Base cfg s) {e : Env × Event}
    (hnone : heardBy lib cfg x e = none) : Keeps cfg x s (s.step lib cfg e) := by
  obtain ⟨env, e⟩ := e
  have hlink : ∀ link, Base cfg (s.setLink link) ∧ Aside x s (s.setLink link) :=
    fun link => ⟨h.congr rfl rfl, Aside.congr rfl rfl fun _ _ hc => hc⟩
  cases e with
  | deliver b =>
      change Keeps cfg x s (s.deliverBundle lib cfg env b)
      rw [State.deliverBundle]
      split
      · exact Keeps.ok h (Aside.refl x s)
      · rename_i hsource
        intro s' hs'
        obtain ⟨u, -, hs'⟩ := Exec.bind_eq_ok.mp hs'
        cases hparse : parseLsaBundle lib b.payload with
        | none =>
            rw [hparse] at hs'
            cases hs'
            exact ⟨h, Aside.refl x s⟩
        | some lsa =>
            rw [hparse] at hs'
            by_cases hb : b.source = x
            · have harea : cfg.area ≠ lib.area b.dest := by
                intro harea
                rw [heardBy, if_pos ⟨hb, hsource, harea⟩, hparse] at hnone
                cases hnone
              dsimp only at hs'
              rw [State.handleLsa, if_pos harea] at hs'
              cases hs'
              exact ⟨h.suppress _ _, Aside.suppress x s _ _⟩
            · exact Keeps.handleLsa h hb lsa s' hs'
  | linkCreated link => exact Keeps.after (hlink link).2 (Keeps.recomputeRoutes (hlink link).1)
  | contactUp link => exact Keeps.after (hlink link).2 (Keeps.handleContactUp hx (hlink link).1 link)
  | contactDown link =>
      exact Keeps.after (hlink link).2 (Keeps.handleContactDown hx (hlink link).1 link)
  | registrationAdded endpoint flags => exact Keeps.handleRegistrationAdded hx h endpoint flags
  | transmitTimeout delayed =>
      cases delayed with
      | false => exact Keeps.sendLsa hx h
      | true =>
          have hclear : Base cfg { s with delayedPending := false } := h.congr rfl rfl
          have haside : Aside x s { s with delayedPending := false } :=
            Aside.congr rfl rfl fun _ _ hc => hc
          exact Keeps.after haside (Keeps.sendLsa hx hclear)

theorem Base.step (h : Base cfg s) {e : Env × Event} (hs' : s.step lib cfg e = .ok s') :
    Base cfg s' := by
  -- the facts do not depend on the node that is watched: any other name will do
  have hlong : ∀ eid : Bytes, 0 :: (cfg.localEid ++ eid) ≠ cfg.localEid ∧
      eid ≠ 0 :: (cfg.localEid ++ eid) := by
    intro eid
    constructor
    · intro heq
      have hlen := congrArg List.length heq
      rw [List.length_cons, List.length_append] at hlen
      omega
    · intro heq
      have hlen := congrArg List.length heq
      rw [List.length_cons, List.length_append] at hlen
      omega
  obtain ⟨env, e⟩ := e
  cases e with
  | deliver b =>
      obtain ⟨hx, hb⟩ := hlong b.source
      have hnone : heardBy lib cfg (0 :: (cfg.localEid ++ b.source)) (env, .deliver b) = none := by
        rw [heardBy, if_neg fun hboth => hb hboth.1]
      exact (Keeps.step hx h hnone s' hs').1
  | linkCreated link => exact (Keeps.step (hlong []).1 h rfl s' hs').1
  | contactUp link => exact (Keeps.step (hlong []).1 h rfl s' hs').1
  | contactDown link => exact (Keeps.step (hlong []).1 h rfl s' hs').1
  | registrationAdded endpoint flags => exact (Keeps.step (hlong []).1 h rfl s' hs').1
  | transmitTimeout delayed => exact (Keeps.step (hlong []).1 h rfl s' hs').1

theorem Base.run (h : Base cfg s) (events : List (Env × Event))
    (hs' : s.run lib cfg events = .ok s') : Base cfg s' := by
  induction events generalizing s with
  | nil =>
      cases hs'
      exact h
  | cons e rest ih =>
      rw [State.run, List.foldlM_cons] at hs'
      obtain ⟨s1, hs1, hs'⟩ := Exec.bind_eq_ok.mp hs'
      exact ih (h.step hs1) hs'

theorem Tracks.step (h : Tracks x l s) (hbase : Base cfg s) {e : Env × Event} {m : LsaBundle × LSA}
    (hsome : heardBy lib cfg x e = some m) (hnumbered : Numbered (l ++ [m]))
    (htimely : Timely (l ++ [m])) (hs' : s.step lib cfg e = .ok s') : Tracks x (l ++ [m]) s' := by
  obtain ⟨env, e⟩ := e
  cases e with
  | deliver b =>
      rw [heardBy] at hsome
      split at hsome
      · rename_i hcond
        obtain ⟨hb, hsource, harea⟩ := hcond
        obtain ⟨lsa, hparse, rfl⟩ := Option.map_eq_some_iff.mp hsome
        change s.deliverBundle lib cfg env b = .ok s' at hs'
        rw [State.deliverBundle, if_neg hsource] at hs'
        obtain ⟨u, -, hs'⟩ := Exec.bind_eq_ok.mp hs'
        rw [hparse] at hs'
        have hx : x ≠ cfg.localEid := hb ▸ hsource
        exact (h.handleLsa hbase hx hb harea hnumbered htimely hs').2
      · cases hsome
  | linkCreated link => cases hsome
  | contactUp link => cases hsome
  | contactDown link => cases hsome
  | registrationAdded endpoint flags => cases hsome
  | transmitTimeout delayed => cases hsome

theorem Tracks.run (hx : x ≠ cfg.localEid) (h : Tracks x l s) (hbase : Base cfg s)
    (events : List (Env × Event)) (hnumbered : Numbered (l ++ heard lib cfg x events))
    (htimely : Timely (l ++ heard lib cfg x events)) (hs' : s.run lib cfg events = .ok s') :
    Tracks x (l ++ heard lib cfg x events) s' := by
  induction events generalizing s l with
  | nil =>
      cases hs'
      rw [heard, List.filterMap_nil, List.append_nil]
      exact h
  | cons e rest ih =>
      rw [State.run, List.foldlM_cons] at hs'
      obtain ⟨s1, hs1, hs'⟩ := Exec.bind_eq_ok.mp hs'
      cases he : heardBy lib cfg x e with
      | none =>
          have hsame : heard lib cfg x (e :: rest) = heard lib cfg x rest :=
            List.filterMap_cons_none he
          rw [hsame] at hnumbered htimely ⊢
          obtain ⟨hbase1, haside⟩ := Keeps.step hx hbase he s1 hs1
          exact ih (h.aside haside) hbase1 hnumbered htimely hs'
      | some m =>
          have hmore : l ++ heard lib cfg x (e :: rest) = (l ++ [m]) ++ heard lib cfg x rest := by
            rw [List.append_assoc, List.singleton_append, heard, List.filterMap_cons_some he]
            rfl
          rw [hmore] at hnumbered htimely ⊢
          have hstep := h.step hbase he hnumbered.left htimely.left hs1
          exact ih hstep (hbase.step hs1) hnumbered htimely hs'

theorem tracks_initial (cfg : Config) (fwdlog : Nat → List (ForwardingInfo Bytes)) (x : Bytes) :
    Tracks x [] (State.initial cfg fwdlog) := by
  refine Or.inl ⟨rfl, rfl, ?_⟩
  intro n hn
  obtain ⟨hlt, -⟩ := findNode_some hn
  have hzero : n = (MultiGraph.empty : MultiGraph NodeInfo EdgeInfo).count := Nat.lt_one_iff.mp hlt
  change ((MultiGraph.empty.addNode cfg.localEid NodeInfo.new).node n).info = NodeInfo.new
  rw [hzero, addNode_self]

end Runs

/-- In every run in which the announcements of a node arrive timely, the current announcement and the
edges of the node are those of the newest one heard, all others have been suppressed, and no source
has two current announcements. The `NOTREACHED` and the assertion of `update_current_lsa` are not
reached by the next announcement either. -/
theorem run_keeps_newest (lib : Library) (cfg : Config) (fwdlog : Nat → List (ForwardingInfo Bytes))
    (events : List (Env × Event)) (x : Bytes) (s : State)
    (hnumbered : Numbered (heard lib cfg x events)) (htimely : Timely (heard lib cfg x events))
    (hrun : (State.initial cfg fwdlog).run lib cfg events = .ok s) :
    (s.currentLsas.map LsaBundle.source).Nodup ∧
      (heard lib cfg x events ≠ [] → ∃ cur, Newest x (heard lib cfg x events) cur s) ∧
      ∀ b lsa, x ≠ cfg.localEid → Timely (heard lib cfg x events ++ [(b, lsa)]) →
        ∃ p, (s.findOrAdd x).1.updateCurrentLsa (s.findOrAdd x).2 b lsa.seqno = .ok p := by
  have hbase := (base_initial cfg fwdlog).run events hrun
  have htracks : x ≠ cfg.localEid → Tracks x (heard lib cfg x events) s := by
    intro hx
    exact (tracks_initial cfg fwdlog x).run hx (base_initial cfg fwdlog) events hnumbered htimely hrun
  refine ⟨hbase.sources, ?_, ?_⟩
  · intro hne
    have hx : x ≠ cfg.localEid := by
      obtain ⟨m, hm⟩ := List.exists_mem_of_ne_nil _ hne
      obtain ⟨e, -, he⟩ := List.mem_filterMap.mp hm
      obtain ⟨env, e⟩ := e
      cases e with
      | deliver b =>
          rw [heardBy] at he
          split at he
          · rename_i hcond
            exact hcond.1 ▸ hcond.2.1
          · cases he
      | linkCreated link => cases he
      | contactUp link => cases he
      | contactDown link => cases he
      | registrationAdded endpoint flags => cases he
      | transmitTimeout delayed => cases he
    rcases htracks hx with ⟨hnil, -⟩ | ⟨cur, hnewest, -⟩
    · exact absurd hnil hne
    · exact ⟨cur, hnewest⟩
  · intro b lsa hx hnext
    exact ((htracks hx).aside (Aside.findOrAdd x s x)).update_ok (findNode_findOrAdd s x) hnext

/-- The announcement of `dtn://b` with the given number. -/
def numberedLsa (seqno : Nat) : LSA :=
  ⟨seqno, [⟨ascii "dtn://c".toList, ascii "l2".toList, 0, { LinkParams.new with cost := seqno }⟩]⟩

def numberedBundle (seqno seconds : Nat) : LsaBundle :=
  ⟨seqno, ascii "dtn://b".toList, ascii "dtn://*/dtlsr".toList, seconds,
    msgLsa :: (Library.plain []).marshal (numberedLsa seqno)⟩

def overtakingRun (first second : Nat) : List (Env × Event) :=
  [(Env.sample, .deliver (numberedBundle 2 second)), (Env.sample, .deliver (numberedBundle 1 first))]

theorem heard_overtakingRun (first second : Nat) :
    heard (Library.plain [numberedLsa 1, numberedLsa 2]) Config.sample (ascii "dtn://b".toList)
      (overtakingRun first second) =
      [(numberedBundle 2 second, numberedLsa 2), (numberedBundle 1 first, numberedLsa 1)] := by
  have h2 : parseLsaBundle (Library.plain [numberedLsa 1, numberedLsa 2])
      (numberedBundle 2 second).payload = some (numberedLsa 2) := by
    change parseLsaBundle _ (numberedBundle 2 0).payload = _
    decide +kernel
  have h1 : parseLsaBundle (Library.plain [numberedLsa 1, numberedLsa 2])
      (numberedBundle 1 first).payload = some (numberedLsa 1) := by
    change parseLsaBundle _ (numberedBundle 1 0).payload = _
    decide +kernel
  have hsource : ∀ n seconds, (numberedBundle n seconds).source = ascii "dtn://b".toList ∧
      (numberedBundle n seconds).source ≠ Config.sample.localEid ∧
      Config.sample.area = (Library.plain [numberedLsa 1, numberedLsa 2]).area
        (numberedBundle n seconds).dest := by
    intro n seconds
    exact ⟨rfl, by change ascii "dtn://b".toList ≠ ascii "dtn://a".toList; decide, rfl⟩
  simp only [heard, overtakingRun, List.filterMap_cons, List.filterMap_nil, heardBy, h1, h2,
    if_pos (hsource 2 second), if_pos (hsource 1 first), Option.map_some]

theorem numbered_overtakingRun {first second : Nat} (h : first ≤ second) :
    Numbered [(numberedBundle 2 second, numberedLsa 2), (numberedBundle 1 first, numberedLsa 1)] := by
  constructor
  · simp [numberedLsa]
  · simp [numberedLsa, numberedBundle, h]

theorem run_keeps_newest_sample :
    ∃ s, (State.initial Config.sample fun _ => []).run
        (Library.plain [numberedLsa 1, numberedLsa 2]) Config.sample (overtakingRun 4 5) = .ok s ∧
      ∃ cur, Newest (ascii "dtn://b".toList)
        [(numberedBundle 2 5, numberedLsa 2), (numberedBundle 1 4, numberedLsa 1)] cur s := by
  have hok : ((State.initial Config.sample fun _ => []).run
      (Library.plain [numberedLsa 1, numberedLsa 2]) Config.sample
      (overtakingRun 4 5)).toOption.isSome = true := by decide +kernel
  obtain ⟨s, hs⟩ := Option.isSome_iff_exists.mp hok
  have hrun := Exec.mem_toOption.mp (Option.mem_def.mpr hs)
  have hheard := heard_overtakingRun 4 5
  refine ⟨s, hrun, ?_⟩
  rw [← hheard]
  apply (run_keeps_newest _ _ _ _ _ s _ _ hrun).2.1
  · rw [hheard]
    simp
  · rw [hheard]
    exact numbered_overtakingRun (by decide)
  · rw [hheard]
    constructor
    · simp [numberedLsa]
    · simp [numberedLsa, numberedBundle]

/-- Two announcements of one second: the older one replaces the newer one. -/
theorem overtaken_announcement :
    ∃ s, (State.initial Config.sample fun _ => []).run
        (Library.plain [numberedLsa 1, numberedLsa 2]) Config.sample (overtakingRun 5 5) = .ok s ∧
      Numbered (heard (Library.plain [numberedLsa 1, numberedLsa 2]) Config.sample
        (ascii "dtn://b".toList) (overtakingRun 5 5)) ∧
      ¬∃ cur, Newest (ascii "dtn://b".toList)
        (heard (Library.plain [numberedLsa 1, numberedLsa 2]) Config.sample
          (ascii "dtn://b".toList) (overtakingRun 5 5)) cur s := by
  have hcurrent : ((State.initial Config.sample fun _ => []).run
      (Library.plain [numberedLsa 1, numberedLsa 2]) Config.sample
      (overtakingRun 5 5)).toOption.map State.currentLsas = some [numberedBundle 1 5] := by
    decide +kernel
  obtain ⟨s, hs, hlist⟩ := Option.map_eq_some_iff.mp hcurrent
  refine ⟨s, Exec.mem_toOption.mp (Option.mem_def.mpr hs), ?_⟩
  rw [heard_overtakingRun]
  refine ⟨numbered_overtakingRun (Nat.le_refl 5), ?_⟩
  rintro ⟨cur, hnewest⟩
  have hheld := hnewest.held
  rw [hlist] at hheld
  have hcur : [numberedBundle 1 5] = [cur.1] := hheld
  have hle := hnewest.newest _ List.mem_cons_self
  rcases List.mem_cons.mp hnewest.mem with rfl | hmem
  · exact absurd (congrArg (List.map LsaBundle.bundleid) hcur) (by decide)
  · rw [List.mem_singleton.mp hmem] at hle
    exact absurd hle (by decide)

end DTLSRRouter

end Dtn2
