import Dtn2.Routing.DTLSRSafety

/-!
# Runs of the link state router

No assertion fails in a run whose announcements name valid endpoints and have no link from the
announcing node to itself, and whose contacts are with other nodes.
-/

namespace Dtn2

namespace DTLSRRouter

open DTLSR MultiGraph

/-! ## Announcements -/

@[simp] theorem suppressBack_graph (s : State) (bundleid : Nat) :
    (s.suppressBack bundleid).graph = s.graph := by
  rw [State.suppressBack]
  split <;> rfl

@[simp] theorem suppressBack_links (s : State) (bundleid : Nat) :
    (s.suppressBack bundleid).links = s.links := by
  rw [State.suppressBack]
  split <;> rfl

/-- The links of an announcement leave the names of the nodes and the edges of all nodes but the
announcing one alone. -/
theorem handleLinks_frame (env : Env) (a : Nat) (links : List DTLSR.LinkState) (s : State) {n : Nat}
    (hn : n < s.graph.count) :
    n < (links.foldl (State.handleLinkState env a) s).graph.count ∧
      ((links.foldl (State.handleLinkState env a) s).graph.node n).id = (s.graph.node n).id ∧
      ((links.foldl (State.handleLinkState env a) s).graph.node n).info = (s.graph.node n).info ∧
      (n ≠ a → ((links.foldl (State.handleLinkState env a) s).graph.node n).outEdges =
        (s.graph.node n).outEdges) := by
  induction links generalizing s with
  | nil => exact ⟨hn, rfl, rfl, fun _ => rfl⟩
  | cons ls rest ih =>
      obtain ⟨hlt, hid, hinfo, hout⟩ := handleLinkState_frame env s a ls hn
      obtain ⟨hlt', hid', hinfo', hout'⟩ := ih (s.handleLinkState env a ls) hlt
      rw [List.foldl_cons]
      exact ⟨hlt', hid'.trans hid, hinfo'.trans hinfo, fun hna => (hout' hna).trans (hout hna)⟩

theorem recomputeRoutes_eq_ok {lib : Library} {cfg : Config} {env : Env} {s s' : State}
    (h : s.recomputeRoutes lib cfg env = .ok s') : ∃ routes, s' = { s with routes := routes } := by
  rw [State.recomputeRoutes] at h
  obtain ⟨entries, -, hs'⟩ := Exec.bind_eq_ok.mp h
  cases hs'
  exact ⟨_, rfl⟩

theorem handleLsa_outEdges {lib : Library} {cfg : Config} {env : Env} {s s' : State} {b : LsaBundle}
    {lsa : LSA} (h : s.handleLsa lib cfg env b lsa = .ok s') {n : Nat} (hn : n < s.graph.count)
    (hsource : (s.graph.node n).id ≠ b.source) :
    (s'.graph.node n).outEdges = (s.graph.node n).outEdges := by
  rw [State.handleLsa] at h
  split at h
  · cases h
    rfl
  · dsimp only at h
    have hnode := findOrAdd_node s b.source hn
    have hlt := Nat.lt_of_lt_of_le hn (findOrAdd_count s b.source)
    have hna : n ≠ (s.findOrAdd b.source).2 := by
      intro heq
      rw [State.findOrAdd] at heq
      cases hfind : s.graph.findNode b.source with
      | some m =>
          rw [hfind] at heq
          exact hsource (heq ▸ (findNode_some hfind).2)
      | none =>
          rw [hfind] at heq
          exact Nat.ne_of_lt hn heq
    obtain ⟨p, hp, h⟩ := Exec.bind_eq_ok.mp h
    rcases updateCurrentLsa_cases (s.findOrAdd b.source).1 (s.findOrAdd b.source).2 b lsa.seqno with
      hpanic | ⟨s1, isNew, hs1, -, hgraph⟩
    · rw [hpanic] at hp
      cases hp
    · rw [hs1] at hp
      cases hp
      have hcount : n < s1.graph.count := by
        rcases hgraph with hgraph | hgraph <;> rw [hgraph] <;> exact hlt
      have hout : (s1.graph.node n).outEdges = (s.graph.node n).outEdges := by
        rcases hgraph with hgraph | hgraph
        · rw [hgraph, hnode]
        · rw [hgraph, setLastLsa_outEdges, hnode]
      dsimp only at h
      split at h
      · obtain ⟨routes, rfl⟩ := recomputeRoutes_eq_ok h
        have hframe := handleLinks_frame env (s.findOrAdd b.source).2 lsa.links
          (s1.suppressBack b.bundleid) (by rw [suppressBack_graph]; exact hcount)
        exact (hframe.2.2.2 hna).trans (by rw [suppressBack_graph]; exact hout)
      · cases h
        exact hout

/-! ## What each event needs -/

def Meets (lib : Library) (cfg : Config) : Event → Prop
  | .deliver b =>
      b.source = cfg.localEid ∨ b.payload ≠ [] ∧ (cfg.area ≠ lib.area b.dest ∨
        ∀ lsa, parseLsaBundle lib b.payload = some lsa →
          (lib.pattern b.source).valid = true ∧
          ∀ ls ∈ lsa.links, Routable lib cfg ls.dest ∧ ls.dest ≠ b.source)
  | .contactUp link =>
      link.remoteEid = EndpointID.dtnNone ∨
        link.remoteEid ≠ cfg.localEid ∧ (lib.pattern link.remoteEid).valid = true
  | .registrationAdded endpoint flags =>
      ∀ eid, State.announcedEid lib cfg endpoint flags = some eid → (lib.pattern eid).valid = true
  | _ => True

namespace Sound

variable {lib : Library} {cfg : Config} {s : State}

theorem handleLinks (h : Sound lib cfg s) (env : Env) {a : Nat} (ha : a ≠ localNode)
    (hcount : a < s.graph.count) (links : List DTLSR.LinkState)
    (hlinks : ∀ ls ∈ links, Routable lib cfg ls.dest ∧ ls.dest ≠ (s.graph.node a).id) :
    Sound lib cfg (links.foldl (State.handleLinkState env a) s) := by
  induction links generalizing s with
  | nil => exact h
  | cons ls rest ih =>
      obtain ⟨hdest, hne⟩ := hlinks ls List.mem_cons_self
      obtain ⟨hlt, hid, -⟩ := handleLinkState_frame env s a ls hcount
      rw [List.foldl_cons]
      apply ih (h.handleLinkState env ha hdest (Ne.symm hne) hcount) hlt
      intro ls' hls'
      rw [hid]
      exact hlinks ls' (List.mem_cons_of_mem ls hls')

theorem handleLsa (h : Sound lib cfg s) (env : Env) {b : LsaBundle} {lsa : LSA}
    (hsource : b.source ≠ cfg.localEid)
    (hmeets : cfg.area ≠ lib.area b.dest ∨ (lib.pattern b.source).valid = true ∧
      ∀ ls ∈ lsa.links, Routable lib cfg ls.dest ∧ ls.dest ≠ b.source) :
    Survives (Sound lib cfg) (s.handleLsa lib cfg env b lsa) := by
  rw [State.handleLsa]
  split
  · exact Survives.ok (h.congr rfl rfl)
  · rename_i harea
    obtain ⟨hvalid, hlinks⟩ := hmeets.resolve_left harea
    obtain ⟨hsound, hfind⟩ := h.findOrAdd (Or.inr hvalid)
    dsimp only
    generalize s.findOrAdd b.source = found at hsound hfind ⊢
    obtain ⟨s1, a⟩ := found
    obtain ⟨hlt, hid⟩ := findNode_some hfind
    have ha : a ≠ localNode := by
      rintro rfl
      exact hsource (hid.symm.trans hsound.isLocal)
    dsimp only at hlt hid hsound ⊢
    rcases hsound.updateCurrentLsa a b lsa.seqno with hpanic | ⟨s2, isNew, hs2, hsound2, -⟩
    · rw [hpanic]
      exact Or.inl rfl
    · rw [hs2, Exec.ok_bind]
      dsimp only
      split
      · have hgraph : s2.graph.count = s1.graph.count ∧
            (s2.graph.node a).id = (s1.graph.node a).id := by
          rcases updateCurrentLsa_cases s1 a b lsa.seqno with hpanic | ⟨s3, isNew', hs3, -, hgraph⟩
          · rw [hpanic] at hs2
            cases hs2
          · rw [hs3] at hs2
            cases hs2
            rcases hgraph with hgraph | hgraph
            · rw [hgraph]
              exact ⟨rfl, rfl⟩
            · rw [hgraph, setLastLsa_id]
              exact ⟨rfl, rfl⟩
        have hback : Sound lib cfg (s2.suppressBack b.bundleid) :=
          hsound2.congr (suppressBack_graph s2 _) (suppressBack_links s2 _)
        have hall : Sound lib cfg
            (lsa.links.foldl (State.handleLinkState env a) (s2.suppressBack b.bundleid)) := by
          apply hback.handleLinks env ha
          · rw [suppressBack_graph, hgraph.1]
            exact hlt
          · intro ls hls
            rw [suppressBack_graph, hgraph.2, hid]
            exact hlinks ls hls
        exact (hall.recomputed env).mono fun s' hs' => hs'.1
      · exact Survives.ok hsound2

theorem deliverBundle (h : Sound lib cfg s) (env : Env) {b : LsaBundle}
    (hmeets : Meets lib cfg (.deliver b)) :
    Survives (Sound lib cfg) (s.deliverBundle lib cfg env b) := by
  rw [State.deliverBundle]
  split
  · exact Survives.ok h
  · rename_i hsource
    obtain ⟨hpayload, hlinks⟩ := hmeets.resolve_left hsource
    rw [Exec.assert_bind hpayload]
    cases hparse : parseLsaBundle lib b.payload with
    | none => exact Survives.ok h
    | some lsa =>
        apply h.handleLsa env hsource
        exact hlinks.imp_right fun hall => hall lsa hparse

/-! ## Contacts and registrations -/

theorem handleContactUp (h : Sound lib cfg s) (env : Env) {link : LinkInfo}
    (hmeets : Meets lib cfg (.contactUp link)) (hlink : (s.findLink link.name).isSome = true) :
    Survives (Sound lib cfg) (s.handleContactUp lib cfg env link) := by
  rw [State.handleContactUp]
  split
  · exact Survives.ok h
  · rename_i hnone
    obtain ⟨hother, hvalid⟩ := hmeets.resolve_left hnone
    obtain ⟨hsound, hfind⟩ := h.findOrAdd (Or.inr hvalid)
    have hlinks : (s.findOrAdd link.remoteEid).1.findLink = s.findLink := by
      rw [State.findOrAdd]
      split <;> rfl
    obtain ⟨hlt, hid⟩ := findNode_some hfind
    have hne : (s.findOrAdd link.remoteEid).2 ≠ localNode := by
      intro heq
      rw [heq, hsound.isLocal] at hid
      exact hother hid.symm
    dsimp only
    have hnext : ∀ s1, Sound lib cfg s1 → Survives (Sound lib cfg)
        (s1.recomputeRoutes lib cfg env >>= State.scheduleLsa lib cfg env) := by
      intro s1 hs1
      apply (hs1.recomputed env).bind
      intro s2 hs2
      exact (hs2.1.scheduleLsa env).mono fun s' hs' => hs'.1
    split
    · apply hnext
      apply hsound.addEdge hlt hne
      intro _ _
      rw [hlinks]
      exact hlink
    · apply hnext
      exact hsound.modifyEdge _ _ _ (fun _ => rfl) fun _ => rfl

theorem removeEdge (h : Sound lib cfg s) {e : Edge EdgeInfo}
    (he : (e.ptr, e.dest) ∈ localEnds s) : Survives (Sound lib cfg) (s.removeEdge e) := by
  obtain ⟨e', he', hends⟩ := List.mem_map.mp he
  simp only [Prod.mk.injEq] at hends
  have hsame : s.graph.delEdge localNode e = s.graph.delEdge localNode e' := by
    simp only [MultiGraph.delEdge, unlinkEdge, hends.1, hends.2]
  rw [State.removeEdge, hsame, h.wf.delEdge he', Exec.ok_bind]
  refine Survives.ok ⟨h.wf.unlinkEdge he', ?_, h.count, ?_, ?_⟩
  · rw [setGraph_graph, unlinkEdge_id]
    exact h.isLocal
  · intro n hn hnl
    rw [setGraph_graph, unlinkEdge_id]
    exact h.valid n hn hnl
  · intro f hf
    rw [setGraph_graph, unlinkEdge_outEdges, if_pos rfl] at hf
    exact h.linked f (List.mem_of_mem_eraseP hf)

theorem handleContactDown (h : Sound lib cfg s) (env : Env) (link : LinkInfo) :
    Survives (Sound lib cfg) (s.handleContactDown lib cfg env link) := by
  rw [State.handleContactDown]
  split
  · exact Survives.ok h
  · split
    · exact Survives.ok h
    · rename_i e hfind
      have he := List.mem_of_find?_eq_some hfind
      have hdown := h.modifyEdge localNode e.ptr
        (fun info => { info with params := { info.params with state := linkDown } })
        (fun _ => rfl) fun _ => rfl
      apply (hdown.recomputed env).bind
      intro s1 hs1
      apply (hs1.1.scheduleLsa env).bind
      intro s2 hs2
      split
      · exact Survives.ok hs2.1
      · apply hs2.1.removeEdge
        rw [hs2.2, hs1.2, localEnds, setGraph_graph, modifyEdge_outEdges, if_pos rfl, List.map_map]
        refine List.mem_map.mpr ⟨e, he, ?_⟩
        rw [Function.comp_apply, if_pos rfl]

theorem announcedEid_ne {endpoint eid : Bytes} {flags : Nat}
    (h : State.announcedEid lib cfg endpoint flags = some eid) : eid ≠ cfg.localEid := by
  rw [State.announcedEid] at h
  split at h
  · cases h
  · rename_i hsubsume
    split at h
    · cases h
      rintro rfl
      exact hsubsume (lib.subsume_self _)
    · split at h
      · cases h
        intro heq
        have hdtn := cfg.isDtn
        rw [← heq] at hdtn
        exact absurd hdtn (by simp [EndpointID.schemeStr, ascii, EndpointID.colon])
      · cases h

theorem handleRegistrationAdded (h : Sound lib cfg s) (env : Env) {endpoint : Bytes} {flags : Nat}
    (hmeets : Meets lib cfg (.registrationAdded endpoint flags)) :
    Survives (Sound lib cfg) (s.handleRegistrationAdded lib cfg env endpoint flags) := by
  rw [State.handleRegistrationAdded]
  split
  · exact Survives.ok h
  · rename_i eid heid
    obtain ⟨hsound, hfind⟩ := h.findOrAdd (Or.inr (hmeets eid heid))
    obtain ⟨hlt, hid⟩ := findNode_some hfind
    have hne : (s.findOrAdd eid).2 ≠ localNode := by
      intro heq
      rw [heq, hsound.isLocal] at hid
      exact announcedEid_ne heid hid.symm
    dsimp only
    split
    · exact Survives.ok hsound
    · have hadd := hsound.addEdge hlt hne
        ⟨ascii "reg-".toList ++ eid, { LinkParams.new with bw := 0xffffffff }, 0, true⟩ (by simp)
      exact (hadd.scheduleLsa env).mono fun s' hs' => hs'.1

theorem step (h : Sound lib cfg s) {e : Env × Event} (hmeets : Meets lib cfg e.2) :
    Survives (Sound lib cfg) (s.step lib cfg e) := by
  obtain ⟨env, e⟩ := e
  cases e with
  | deliver b => exact h.deliverBundle env hmeets
  | linkCreated link => exact ((h.setLink link).recomputed env).mono fun s' hs' => hs'.1
  | contactUp link =>
      apply (h.setLink link).handleContactUp env hmeets
      simp [State.findLink, State.setLink]
  | contactDown link => exact (h.setLink link).handleContactDown env link
  | registrationAdded endpoint flags => exact h.handleRegistrationAdded env hmeets
  | transmitTimeout delayed =>
      cases delayed with
      | false => exact (h.sendLsa env).mono fun s' hs' => hs'.1
      | true =>
          have hclear : Sound lib cfg { s with delayedPending := false } := h.congr rfl rfl
          exact (hclear.sendLsa env).mono fun s' hs' => hs'.1

theorem run (h : Sound lib cfg s) (events : List (Env × Event))
    (hmeets : ∀ e ∈ events, Meets lib cfg e.2) :
    Survives (Sound lib cfg) (s.run lib cfg events) := by
  induction events generalizing s with
  | nil => exact Survives.ok h
  | cons e rest ih =>
      rw [State.run, List.foldlM_cons]
      apply (h.step (hmeets e List.mem_cons_self)).bind
      intro s' hs'
      exact ih hs' fun e' he' => hmeets e' (List.mem_cons_of_mem e he')

end Sound

/-- In a run whose events meet the condition no assertion fails: the run ends in a state, or at the
`NOTREACHED` of `update_current_lsa`. In every state that is reached, no bundle that is delivered
changes the edges of the local node. -/
theorem run_survives (lib : Library) (cfg : Config) (fwdlog : Nat → List (ForwardingInfo Bytes))
    (events : List (Env × Event)) (hmeets : ∀ e ∈ events, Meets lib cfg e.2) :
    (∀ stop, (State.initial cfg fwdlog).run lib cfg events = .error stop → stop = .fault .panic) ∧
      ∀ s, (State.initial cfg fwdlog).run lib cfg events = .ok s →
        ∀ env b s', s.deliverBundle lib cfg env b = .ok s' →
          (s'.graph.node localNode).outEdges = (s.graph.node localNode).outEdges := by
  have hrun := (sound_initial lib cfg fwdlog).run events hmeets
  constructor
  · intro stop hstop
    rcases hrun with hpanic | ⟨s, hs, -⟩
    · rw [hpanic] at hstop
      cases hstop
      rfl
    · rw [hs] at hstop
      cases hstop
  · intro s hs env b s' hdeliver
    rcases hrun with hpanic | ⟨s1, hs1, hsound⟩
    · rw [hpanic] at hs
      cases hs
    · rw [hs1] at hs
      cases hs
      rw [State.deliverBundle] at hdeliver
      split at hdeliver
      · cases hdeliver
        rfl
      · rename_i hsource
        obtain ⟨u, -, hdeliver⟩ := Exec.bind_eq_ok.mp hdeliver
        cases hparse : parseLsaBundle lib b.payload with
        | none =>
            rw [hparse] at hdeliver
            cases hdeliver
            rfl
        | some lsa =>
            rw [hparse] at hdeliver
            apply handleLsa_outEdges hdeliver hsound.count
            rw [hsound.isLocal]
            exact Ne.symm hsource

/-- The neighbour `dtn://b` announces a link to the given node. -/
def sampleLsa (dest : Bytes) : LSA := ⟨1, [⟨dest, ascii "l2".toList, 0, LinkParams.new⟩]⟩

/-- A contact with `dtn://b` comes up, and its announcement arrives. -/
def sampleRun (dest : Bytes) : List (Env × Event) :=
  [(Env.sample, .contactUp ⟨ascii "l1".toList, ascii "dtn://b".toList, 1⟩),
    (Env.sample, .deliver ⟨1, ascii "dtn://b".toList, ascii "dtn://*/dtlsr?lsa_seqno=1".toList, 1,
      msgLsa :: (Library.plain []).marshal (sampleLsa dest)⟩)]

theorem run_survives_sample :
    (∀ e ∈ sampleRun (ascii "dtn://c".toList),
      Meets (Library.plain [sampleLsa (ascii "dtn://c".toList)]) Config.sample e.2) ∧
    ∀ stop, (State.initial Config.sample fun _ => []).run
        (Library.plain [sampleLsa (ascii "dtn://c".toList)]) Config.sample
        (sampleRun (ascii "dtn://c".toList)) = .error stop → stop = .fault .panic := by
  have hmeets : ∀ e ∈ sampleRun (ascii "dtn://c".toList),
      Meets (Library.plain [sampleLsa (ascii "dtn://c".toList)]) Config.sample e.2 := by
    intro e he
    rcases List.mem_cons.mp he with rfl | he
    · exact Or.inr ⟨by decide, by decide⟩
    · rw [List.mem_singleton.mp he]
      refine Or.inr ⟨by decide, Or.inr ?_⟩
      intro lsa hlsa
      have hknown : some (sampleLsa (ascii "dtn://c".toList)) = some lsa := by
        rw [← hlsa]
        decide +kernel
      cases hknown
      refine ⟨by decide, ?_⟩
      intro ls hls
      rw [List.mem_singleton.mp hls]
      exact ⟨Or.inr (by decide), by decide⟩
  exact ⟨hmeets, (run_survives _ _ _ _ hmeets).1⟩

/-- A neighbour that announces a link to itself stops the router. -/
theorem announced_loop :
    (State.initial Config.sample fun _ => []).run
      (Library.plain [sampleLsa (ascii "dtn://b".toList)]) Config.sample
      (sampleRun (ascii "dtn://b".toList)) = .error (.fault .assertion) := by
  have hstop : (match (State.initial Config.sample fun _ => []).run
      (Library.plain [sampleLsa (ascii "dtn://b".toList)]) Config.sample
      (sampleRun (ascii "dtn://b".toList)) with
    | .error stop => some stop
    | .ok _ => none) = some (.fault .assertion) := by decide +kernel
  split at hstop
  · rename_i stop hrun
    rw [hrun, Option.some.inj hstop]
  · cases hstop

end DTLSRRouter

end Dtn2
