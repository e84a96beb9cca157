import Dtn2.Routing.DijkstraSearch

/-!
# The shortest route

The search finds a shortest path for every queue that gives the nearest nodes exactly if the sums that
matter stay below `2 ^ 32`, and the target, if it can be reached, below the distance that means
unreachable.
-/

namespace Dtn2

namespace MultiGraph

open Framework WeightedGraph

variable {N E : Type} {g : MultiGraph N E} {weight : Edge E → Nat} {a b : Nat}

/-! ## Distances and walks -/

section Exact

variable {done : List Nat} {s : Search E}

theorem Linked.start_mem {prev : Nat → Option (Edge E)} {list : List Nat} (h : Linked g a prev list)
    (hne : list ≠ []) : a ∈ list := by
  induction list with
  | nil => exact absurd rfl hne
  | cons n rest ih =>
      cases h.1 with
      | inl heq =>
          rw [heq]
          exact List.mem_cons_self
      | inr hprev =>
          obtain ⟨e, -, -, hsource, -⟩ := hprev
          exact List.mem_cons_of_mem n (ih h.2 (List.ne_nil_of_mem hsource))

theorem Search.Exact.walk (h : Search.Exact g weight a done none [] s) {n : Nat}
    (hn : s.distance n ≠ infinite) :
    ∃ path, (g.routes weight).Walk a path n ∧ (g.routes weight).total path = s.distance n ∧
      ∀ e ∈ path, e.source ∈ done := by
  have hstart : ∃ path, (g.routes weight).Walk a path a ∧
      (g.routes weight).total path = s.distance a ∧ ∀ e ∈ path, e.source ∈ done :=
    ⟨[], .start, h.inv.start.symm, fun e he => absurd he List.not_mem_nil⟩
  have hstep : ∀ n e, s.prev n = some e →
      (∃ path, (g.routes weight).Walk a path e.source ∧
        (g.routes weight).total path = s.distance e.source ∧ ∀ f ∈ path, f.source ∈ done) →
      ∃ path, (g.routes weight).Walk a path n ∧ (g.routes weight).total path = s.distance n ∧
        ∀ f ∈ path, f.source ∈ done := by
    rintro n e hprev ⟨path, hwalk, htotal, hsources⟩
    obtain ⟨rfl, hsource, hedge⟩ := h.inv.prev n e hprev
    obtain ⟨hdistance, hweight⟩ := h.prev _ e hprev
    refine ⟨e :: path, .step hwalk ⟨hedge, hweight⟩, ?_, ?_⟩
    · rw [total_cons, htotal, hdistance, Nat.add_comm]
      rfl
    · intro f hf
      cases List.mem_cons.1 hf with
      | inl heq => rw [heq]; exact hsource
      | inr hold => exact hsources f hold
  have hdone : ∀ list, Linked g a s.prev list → ∀ n ∈ list,
      ∃ path, (g.routes weight).Walk a path n ∧ (g.routes weight).total path = s.distance n ∧
        ∀ f ∈ path, f.source ∈ done := by
    intro list
    induction list with
    | nil => exact fun _ n hn => absurd hn List.not_mem_nil
    | cons m rest ih =>
        intro hlinked n hn
        cases List.mem_cons.1 hn with
        | inr hold => exact ih hlinked.2 n hold
        | inl heq =>
            rw [heq]
            cases hlinked.1 with
            | inl hstart' => rw [hstart']; exact hstart
            | inr hprev =>
                obtain ⟨e, he, -, hsource, -⟩ := hprev
                exact hstep m e he (ih hlinked.2 e.source hsource)
  cases h.inv.reached n hn with
  | inl heq => rw [heq]; exact hstart
  | inr hprev =>
      obtain ⟨e, he⟩ := hprev
      exact hstep n e he (hdone done h.inv.linked e.source (h.inv.prev n e he).2.1)

theorem Search.Exact.min_le (h : Search.Exact g weight a done none [] s) {m n : Nat}
    (hrest : ∀ n, n ∉ done → m ≤ s.distance n) {path : List (Edge E)}
    (hwalk : (g.routes weight).Walk a path n) :
    min (s.distance n) m ≤ (g.routes weight).total path := by
  refine @min_le_total _ _ _ _ _ _ _ (fun u => u ∈ done) _ h.inv.start ?_ hrest hwalk
  intro e he hsource
  exact (h.relaxed e.source hsource e he.1 he.2 fun hx => absurd hx (by simp)).1

theorem Search.Exact.distance_eq (h : Search.Exact g weight a done none [] s) {n : Nat}
    (hn : n ∈ done) {path : List (Edge E)} (hshort : (g.routes weight).Shortest a path n) :
    s.distance n = (g.routes weight).total path := by
  have hle := h.min_le (fun m hm => h.order n hn m hm) hshort.1
  obtain ⟨other, hwalk, htotal, -⟩ := h.walk (h.known n (.inr hn))
  have hge := hshort.2 other hwalk
  omega

end Exact

/-! ## The condition -/

/-- The sums that matter stay below `2 ^ 32`: those at the end of a shortest path that does not pass the
target and is not longer than the way to it. If the target can be reached, then at less than the distance
that means unreachable. -/
def Roomy (g : MultiGraph N E) (weight : Edge E → Nat) (a b : Nat) : Prop :=
  (∀ n path, (g.routes weight).Shortest a path n → (∀ e ∈ path, e.source ≠ b) →
      (g.routes weight).total path < infinite →
      (∀ other, (g.routes weight).Walk a other b →
        (g.routes weight).total path ≤ (g.routes weight).total other) →
      ∀ e ∈ (g.node n).outEdges, weight e ≠ infinite →
        (g.routes weight).total path + weight e < 2 ^ 32) ∧
    ((∃ path, (g.routes weight).Walk a path b) →
      ∃ path, (g.routes weight).Walk a path b ∧ (g.routes weight).total path < infinite)

section Search

variable {done : List Nat} {s : Search E}

theorem cleanEdges_of_small {cur : Nat} (hg : g.Wf) (edges : List (Edge E))
    (hedges : ∀ e ∈ edges, e ∈ (g.node cur).outEdges) :
    ∀ {looked : List (Edge E)} {s : Search E}, Search.Exact g weight a done (some cur) looked s →
      (∀ e ∈ edges, weight e ≠ infinite → s.distance cur + weight e < 2 ^ 32) →
      CleanEdges weight cur edges s := by
  induction edges with
  | nil => exact fun _ _ => trivial
  | cons e rest ih =>
      intro looked s h hsmall
      obtain ⟨hcur, hlatest⟩ := h.latest cur rfl
      have he := hedges e List.mem_cons_self
      have hclean : Clean weight cur s e := by
        intro hweight
        refine ⟨hsmall e List.mem_cons_self hweight, fun hx => ?_⟩
        have hle := hlatest e.dest (h.black e.dest hx.2)
        omega
      refine ⟨hclean, fun s' hs' => ?_⟩
      obtain ⟨s₁, hs₁, h₁, hsame⟩ := h.relax he (hg.edges cur e he) hclean
      rw [hs₁] at hs'
      cases hs'
      refine ih (fun f hf => hedges f (List.mem_cons_of_mem e hf)) h₁ fun f hf hweight => ?_
      rw [hsame cur hcur]
      exact hsmall f (List.mem_cons_of_mem e hf) hweight

theorem Search.Exact.round (hg : g.Wf) (h : Search.Exact g weight a done none [] s) {queue : Queue}
    (hleast : queue.Least) (hwaiting : s.waiting ≠ []) {cur : Nat}
    (hcur : queue.top s.distance s.waiting = cur)
    (hclean : CleanEdges weight cur (g.node cur).outEdges
      { s with waiting := s.waiting.erase cur }) :
    ∃ s', (g.node cur).outEdges.foldlM (MultiGraph.relax weight cur)
        { s with waiting := s.waiting.erase cur } = .ok s' ∧
      Search.Exact g weight a (cur :: done) none []
        { s' with color := Function.update s'.color cur .black } ∧
      ∀ u ∈ cur :: done, s'.distance u = s.distance u := by
  have hpop := h.pop hleast hwaiting hcur
  obtain ⟨s', hs', hexact, hsame⟩ := Search.Exact.relaxAll hg _ (fun e he => he) hpop hclean
  refine ⟨s', hs', hexact.blacken fun e he => ?_, hsame⟩
  rw [List.append_nil, List.mem_reverse]
  exact he

theorem searchLoop_clean (hg : g.Wf) (hroomy : g.Roomy weight a b) {queue : Queue}
    (hleast : queue.Least) {fuel : Nat} :
    ∀ {done : List Nat} {s : Search E}, Search.Exact g weight a done none [] s → b ∉ done →
      s.waiting ≠ [] → CleanSearch queue weight g b fuel s := by
  induction fuel with
  | zero => exact fun _ _ _ => trivial
  | succ fuel ih =>
      intro done s h hb hwaiting
      rw [CleanSearch]
      generalize hcur : queue.top s.distance s.waiting = cur
      have hmem : cur ∈ s.waiting := hcur ▸ queue.top_mem s.distance s.waiting hwaiting
      have hpop := h.pop hleast hwaiting hcur
      have hnear : ∀ n, n ∉ done → s.distance cur ≤ s.distance n := by
        intro n hn
        by_cases hnc : n = cur
        · rw [hnc]
        · exact hpop.order cur List.mem_cons_self n (by
            rw [List.mem_cons, not_or]
            exact ⟨hnc, hn⟩)
      obtain ⟨path, hwalk, htotal, hsources⟩ := h.walk (h.known cur (.inl hmem))
      have hshort : (g.routes weight).Shortest a path cur := by
        refine ⟨hwalk, fun other hother => ?_⟩
        have hle := h.min_le hnear hother
        omega
      have hsums : ∀ e ∈ (g.node cur).outEdges, weight e ≠ infinite →
          s.distance cur + weight e < 2 ^ 32 := by
        rw [← htotal]
        refine hroomy.1 cur path hshort (fun e he heq => hb (heq ▸ hsources e he)) ?_ ?_
        · have hle := h.le cur
          have hne := h.known cur (.inl hmem)
          omega
        · intro other hother
          have hle := h.min_le hnear hother
          have hfar := hnear b hb
          omega
      have hclean := cleanEdges_of_small hg _ (fun e he => he) hpop hsums
      refine ⟨hclean, fun s' hs' hne hmore => ?_⟩
      obtain ⟨s₁, hs₁, hexact, -⟩ := h.round hg hleast hwaiting hcur hclean
      rw [hs₁] at hs'
      cases hs'
      refine ih hexact ?_ hmore
      rw [List.mem_cons, not_or]
      exact ⟨fun heq => hne heq.symm, hb⟩

/-- A queue that gives a node last when another one is as near. -/
def Queue.Late (queue : Queue) (b : Nat) : Prop :=
  ∀ (distance : Nat → Nat) (waiting : List Nat), queue.top distance waiting = b →
    ∀ n ∈ waiting, n ≠ b → distance b < distance n

/-- The end of a search: either the target is finished or nothing waits. With a late queue, what is not
finished is further away than the target. -/
structure Search.Ended (g : MultiGraph N E) (weight : Edge E → Nat) (a b : Nat) (queue : Queue)
    (done : List Nat) (s : Search E) : Prop where
  exact : Search.Exact g weight a done none [] s
  ended : b ∈ done ∨ s.waiting = []
  late : queue.Late b → b ∈ done → ∀ u ∈ done, u ≠ b → ∀ e ∈ (g.node u).outEdges,
    weight e ≠ infinite → e.dest ∈ done ∨ s.distance b < s.distance u + weight e

theorem searchLoop_ended (hg : g.Wf) {queue : Queue} (hleast : queue.Least) {fuel : Nat} :
    ∀ {done : List Nat} {s : Search E}, Search.Exact g weight a done none [] s → b ∉ done →
      s.waiting ≠ [] → g.count ≤ fuel + done.length → CleanSearch queue weight g b fuel s →
      ∃ s' done', searchLoop queue weight g b fuel s = .ok s' ∧
        Search.Ended g weight a b queue done' s' := by
  induction fuel with
  | zero =>
      intro done s h _ hwaiting hfuel _
      have hpop := h.inv.pop (queue.top_mem s.distance s.waiting hwaiting)
      have hle := length_le_of_bound hpop.nodup hpop.bound
      rw [List.length_cons] at hle
      omega
  | succ fuel ih =>
      intro done s h hb hwaiting hfuel hclean
      rw [CleanSearch] at hclean
      rw [searchLoop]
      generalize hcur : queue.top s.distance s.waiting = cur at hclean ⊢
      obtain ⟨s', hs', hexact, hsame⟩ := h.round hg hleast hwaiting hcur hclean.1
      dsimp only
      rw [hs', Exec.ok_bind]
      by_cases hcb : cur = b
      · rw [if_pos hcb]
        refine ⟨_, cur :: done, rfl, hexact, .inl (hcb ▸ List.mem_cons_self), ?_⟩
        intro hlate _ u hu hub e he hweight
        have hold : u ∈ done := (List.mem_cons.1 hu).resolve_left fun heq => hub (heq.trans hcb)
        by_cases hdest : e.dest ∈ cur :: done
        · exact .inl hdest
        · refine .inr ?_
          show s'.distance b < s'.distance u + weight e
          rw [hsame u hu, hsame b (hcb ▸ List.mem_cons_self)]
          rw [List.mem_cons, not_or] at hdest
          have hrelaxed := (h.relaxed u hold e he hweight fun hx => absurd hx (by simp)).1
          have hbfar := h.known b (.inl (hcb ▸ hcur ▸ queue.top_mem _ _ hwaiting))
          have hble := h.le b
          by_cases hfar : s.distance e.dest = infinite
          · omega
          · have hlt := hlate s.distance s.waiting (hcur.trans hcb) e.dest
              (h.waits e.dest hdest.2 hfar) fun heq => hdest.1 (heq.trans hcb.symm)
            omega
      · rw [if_neg hcb]
        have hb' : b ∉ cur :: done := by
          rw [List.mem_cons, not_or]
          exact ⟨fun heq => hcb heq.symm, hb⟩
        by_cases hempty : s'.waiting = []
        · rw [if_pos hempty]
          exact ⟨_, cur :: done, rfl, hexact, .inr hempty, fun _ hin => absurd hin hb'⟩
        · rw [if_neg hempty]
          exact ih hexact hb' hempty (by rw [List.length_cons]; omega)
            (hclean.2 s' hs' hcb hempty)

end Search

/-! ## The path -/

theorem getReversePath_walk {done : List Nat} {s : Search E}
    (h : Search.Exact g weight a done none [] s) (list : List Nat) :
    Linked g a s.prev list → list.Nodup → ∀ fuel, list.length ≤ fuel → ∀ n ∈ list, n ≠ a →
      ∃ path, getReversePath s a fuel n = .ok path ∧ path ≠ [] ∧
        (g.routes weight).Walk a path n ∧ (g.routes weight).total path = s.distance n ∧
        (path.map Edge.dest).Nodup ∧ (∀ m ∈ path.map Edge.dest, m ∈ list ∧ m ≠ a) ∧
        ∀ e, path.getLast? = some e → e.source = a := by
  induction list with
  | nil => exact fun _ _ _ _ n hn => absurd hn List.not_mem_nil
  | cons m rest ih =>
      intro hlinked hnodup fuel hfuel n hn hna
      rw [List.nodup_cons] at hnodup
      rw [List.length_cons] at hfuel
      cases List.mem_cons.1 hn with
      | inr hold =>
          obtain ⟨path, hpath, hne, hwalk, htotal, hsimple, hin, hlast⟩ :=
            ih hlinked.2 hnodup.2 fuel (by omega) n hold hna
          exact ⟨path, hpath, hne, hwalk, htotal, hsimple,
            fun k hk => ⟨List.mem_cons_of_mem m (hin k hk).1, (hin k hk).2⟩, hlast⟩
      | inl heq =>
          subst heq
          obtain ⟨e, hprev, rfl, hsource, hedge⟩ := hlinked.1.resolve_left hna
          obtain ⟨hdistance, hweight⟩ := h.prev _ e hprev
          have hne : e.source ≠ e.dest := fun heq => hnodup.1 (heq ▸ hsource)
          obtain ⟨fuel, rfl⟩ : ∃ k, fuel = k + 1 := ⟨fuel - 1, by omega⟩
          rw [getReversePath, hprev]
          dsimp only
          rw [Exec.assert_bind rfl, Exec.assert_bind hne]
          have husable : (g.routes weight).usable e := ⟨hedge, hweight⟩
          by_cases hstart : e.source = a
          · rw [if_pos hstart]
            have hwalk : (g.routes weight).Walk a [] ((g.routes weight).source e) := by
              show (g.routes weight).Walk a [] e.source
              rw [hstart]
              exact .start
            refine ⟨[e], rfl, List.cons_ne_nil _ _, .step hwalk husable, ?_, List.nodup_singleton _,
              ?_, ?_⟩
            · rw [hdistance, hstart, h.inv.start, total_cons]
              exact Nat.add_comm _ _
            · intro k hk
              rw [List.map_singleton, List.mem_singleton] at hk
              rw [hk]
              exact ⟨List.mem_cons_self, hna⟩
            · intro f hf
              cases hf
              exact hstart
          · obtain ⟨path, hpath, hpne, hwalk, htotal, hsimple, hin, hlast⟩ :=
              ih hlinked.2 hnodup.2 fuel (by omega) e.source hsource hstart
            rw [if_neg hstart, hpath, Exec.ok_bind]
            refine ⟨e :: path, rfl, List.cons_ne_nil _ _, .step hwalk husable, ?_, ?_, ?_, ?_⟩
            · rw [total_cons, htotal, hdistance, Nat.add_comm]
              rfl
            · rw [List.map_cons, List.nodup_cons]
              exact ⟨fun hx => hnodup.1 (hin _ hx).1, hsimple⟩
            · intro k hk
              rw [List.map_cons] at hk
              cases List.mem_cons.1 hk with
              | inl heq =>
                  rw [heq]
                  exact ⟨List.mem_cons_self, hna⟩
              | inr hold => exact ⟨List.mem_cons_of_mem _ (hin k hold).1, (hin k hold).2⟩
            · intro f hf
              rw [List.getLast?_cons_of_ne_nil hpne] at hf
              exact hlast f hf

/-! ## The shortest path -/

/-- What the shortest path is to be: the search is clean; the path is empty only if there is no way, and
otherwise simple and of the least weight; and the best next hop is its first edge. -/
def Finds (queue : Queue) (weight : Edge E → Nat) (g : MultiGraph N E) (a b : Nat) : Prop :=
  CleanSearch queue weight g b g.count (Search.start a) ∧
    ∃ path, shortestPath queue weight g a b = .ok path ∧
      (path = [] ↔ ¬∃ way, (g.routes weight).Walk a way b) ∧
      (path ≠ [] → (g.routes weight).Shortest a path b ∧ (a :: path.map Edge.dest).Nodup) ∧
      bestNextHop queue weight g a b = .ok path.getLast? ∧
      ∀ e, path.getLast? = some e → e.source = a

theorem bestNextHop_eq {queue : Queue} {path : List (Edge E)}
    (hpath : shortestPath queue weight g a b = .ok path)
    (hlast : ∀ e, path.getLast? = some e → e.source = a) :
    bestNextHop queue weight g a b = .ok path.getLast? := by
  rw [bestNextHop, hpath, Exec.ok_bind]
  cases he : path.getLast? with
  | none => rfl
  | some e =>
      dsimp only
      rw [Exec.assert_bind (hlast e he)]
      rfl

theorem finds_of_clean (hg : g.Wf) (ha : a < g.count) (hab : a ≠ b) (hroomy : g.Roomy weight a b)
    {queue : Queue} (hleast : queue.Least) : Finds queue weight g a b := by
  have hbegin := Search.Exact.begin weight ha
  have hclean : CleanSearch queue weight g b g.count (Search.start a) :=
    searchLoop_clean hg hroomy hleast hbegin List.not_mem_nil (List.cons_ne_nil a [])
  obtain ⟨s, done, hs, hended⟩ := searchLoop_ended hg hleast hbegin List.not_mem_nil
    (List.cons_ne_nil a []) (Nat.le_add_right _ _) hclean
  have h := hended.exact
  refine ⟨hclean, ?_⟩
  rw [shortestPath, Exec.assert_bind hab, hs, Exec.ok_bind]
  by_cases hfar : s.distance b = infinite
  · rw [if_pos hfar]
    have hout : b ∉ done := fun hin => h.known b (.inr hin) hfar
    have hempty := hended.ended.resolve_left hout
    refine ⟨[], rfl, iff_of_true rfl ?_, fun hne => absurd rfl hne, ?_, ?_⟩
    · intro hway
      obtain ⟨way, hwalk, hnear⟩ := hroomy.2 hway
      have hle := h.min_le (m := infinite) (fun n hn => by
        by_contra hlt
        have hwaits := h.waits n hn fun heq => hlt (heq ▸ Nat.le_refl _)
        rw [hempty] at hwaits
        exact absurd hwaits List.not_mem_nil) hwalk
      omega
    · refine @bestNextHop_eq _ _ _ _ _ _ _ [] ?_ (by simp)
      rw [shortestPath, Exec.assert_bind hab, hs, Exec.ok_bind, if_pos hfar]
      rfl
    · simp
  · have hin : b ∈ done := by
      by_contra hout
      have hwaits := h.waits b hout hfar
      rw [hended.ended.resolve_left hout] at hwaits
      exact absurd hwaits List.not_mem_nil
    obtain ⟨path, hpath, hne, hwalk, htotal, hsimple, hdests, hlast⟩ :=
      getReversePath_walk h done h.inv.linked h.inv.nodup g.count
        (length_le_of_bound h.inv.nodup h.inv.bound) b hin (Ne.symm hab)
    rw [if_neg hfar]
    refine ⟨path, hpath, iff_of_false hne fun hx => hx ⟨path, hwalk⟩, fun _ => ⟨⟨hwalk, ?_⟩, ?_⟩, ?_,
      hlast⟩
    · intro other hother
      have hle := h.min_le (fun n hn => h.order b hin n hn) hother
      omega
    · rw [List.nodup_cons]
      exact ⟨fun hx => (hdests a hx).2 rfl, hsimple⟩
    · refine bestNextHop_eq ?_ hlast
      rw [shortestPath, Exec.assert_bind hab, hs, Exec.ok_bind, if_neg hfar]
      exact hpath

theorem nearest_le (distance : Nat → Nat) (waiting : List Nat) :
    ∀ n ∈ waiting, distance (nearest distance waiting) ≤ distance n := by
  induction waiting with
  | nil => exact fun n hn => absurd hn List.not_mem_nil
  | cons m rest ih =>
      intro n hn
      cases rest with
      | nil =>
          rw [nearest, List.mem_singleton.1 hn]
      | cons k rest =>
          rw [nearest]
          by_cases hle : distance m ≤ distance (nearest distance (k :: rest))
          · rw [if_pos hle]
            cases List.mem_cons.1 hn with
            | inl heq => rw [heq]
            | inr hold => exact hle.trans (ih n hold)
          · rw [if_neg hle]
            cases List.mem_cons.1 hn with
            | inl heq =>
                rw [heq]
                omega
            | inr hold => exact ih n hold

def others (b : Nat) (waiting : List Nat) : List Nat := waiting.filter fun n => decide (n ≠ b)

theorem mem_others {waiting : List Nat} {n : Nat} : n ∈ others b waiting ↔ n ∈ waiting ∧ n ≠ b := by
  rw [others, List.mem_filter, decide_eq_true_eq]

/-- Nothing else waits that is as near as `b`. -/
def Last (b : Nat) (distance : Nat → Nat) (waiting : List Nat) : Prop :=
  b ∈ waiting ∧ (others b waiting = [] ∨ distance b < distance (nearest distance (others b waiting)))

instance (b : Nat) (distance : Nat → Nat) (waiting : List Nat) :
    Decidable (Last b distance waiting) := inferInstanceAs (Decidable (_ ∧ (_ ∨ _)))

/-- A queue that gives `b` last among the nearest nodes. -/
def Queue.lateFor (b : Nat) : Queue where
  top distance waiting :=
    if Last b distance waiting then b else nearest distance (others b waiting)
  top_mem distance waiting hne := by
    by_cases hlast : Last b distance waiting
    · rw [if_pos hlast]
      exact hlast.1
    · rw [if_neg hlast]
      refine (mem_others.1 (nearest_mem distance _ fun hempty => hlast ⟨?_, .inl hempty⟩)).1
      obtain ⟨n, hn⟩ := List.exists_mem_of_ne_nil waiting hne
      have hnb : n = b := by
        by_contra hnb
        have hmem := mem_others.2 ⟨hn, hnb⟩
        rw [hempty] at hmem
        exact absurd hmem List.not_mem_nil
      exact hnb ▸ hn

theorem Queue.lateFor_least (b : Nat) : (Queue.lateFor b).Least := by
  intro distance waiting n hn
  have hbest := nearest_le distance (others b waiting)
  simp only [Queue.lateFor]
  by_cases hlast : Last b distance waiting
  · rw [if_pos hlast]
    by_cases hnb : n = b
    · rw [hnb]
    · have hmem := mem_others.2 ⟨hn, hnb⟩
      cases hlast.2 with
      | inl hempty =>
          rw [hempty] at hmem
          exact absurd hmem List.not_mem_nil
      | inr hlt => exact (Nat.le_of_lt hlt).trans (hbest n hmem)
  · rw [if_neg hlast]
    by_cases hnb : n = b
    · rw [hnb] at hn ⊢
      by_contra hlt
      exact hlast ⟨hn, .inr (by omega)⟩
    · exact hbest n (mem_others.2 ⟨hn, hnb⟩)

theorem Queue.lateFor_late (b : Nat) : (Queue.lateFor b).Late b := by
  intro distance waiting htop n hn hnb
  have hmem := mem_others.2 ⟨hn, hnb⟩
  have hbest := nearest_le distance (others b waiting) n hmem
  simp only [Queue.lateFor] at htop
  by_cases hlast : Last b distance waiting
  · cases hlast.2 with
    | inl hempty =>
        rw [hempty] at hmem
        exact absurd hmem List.not_mem_nil
    | inr hlt => omega
  · rw [if_neg hlast] at htop
    have hin := nearest_mem distance _ (List.ne_nil_of_mem hmem)
    rw [htop] at hin
    exact absurd rfl (mem_others.1 hin).2

theorem Search.Ended.finished {queue : Queue} (hlate : queue.Late b) {done : List Nat} {s : Search E}
    (hended : Search.Ended g weight a b queue done s) :
    ∀ path {n : Nat}, (g.routes weight).Shortest a path n → (∀ e ∈ path, e.source ≠ b) →
      (g.routes weight).total path < infinite →
      (∀ other, (g.routes weight).Walk a other b →
        (g.routes weight).total path ≤ (g.routes weight).total other) → n ∈ done := by
  have h := hended.exact
  intro path
  induction path with
  | nil =>
      intro n hshort _ _ _
      cases hshort.1
      refine h.inv.linked.start_mem fun hnil => ?_
      have hwaits := h.waits a (by rw [hnil]; exact List.not_mem_nil)
        (by rw [h.inv.start]; decide)
      cases hended.ended with
      | inl hb =>
          rw [hnil] at hb
          exact absurd hb List.not_mem_nil
      | inr hempty =>
          rw [hempty] at hwaits
          exact absurd hwaits List.not_mem_nil
  | cons e rest ih =>
      intro n hshort hsources hnear hfirst
      obtain ⟨hrest, husable, hdest⟩ := hshort.tail
      have htotal : (g.routes weight).total (e :: rest) =
          weight e + (g.routes weight).total rest := total_cons e rest
      have hsource : e.source ∈ done := by
        refine ih hrest (fun f hf => hsources f (List.mem_cons_of_mem e hf)) (by omega) ?_
        intro other hother
        have hle := hfirst other hother
        omega
      have hdistance := h.distance_eq hsource hrest
      have hrelaxed := (h.relaxed e.source hsource e husable.1 husable.2
        fun hx => absurd hx (by simp)).1
      have hdest' : e.dest = n := hdest
      rw [← hdest']
      cases hended.ended with
      | inl hb =>
          refine (hended.late hlate hb e.source hsource (hsources e List.mem_cons_self) e husable.1
            husable.2).resolve_right fun hlt => ?_
          obtain ⟨way, hway, hweight, -⟩ := h.walk (h.known b (.inr hb))
          have hle := hfirst way hway
          omega
      | inr hempty =>
          by_contra hout
          have hwaits := h.waits e.dest hout (by omega)
          rw [hempty] at hwaits
          exact absurd hwaits List.not_mem_nil

/-- On a well-formed graph the search finds a shortest path with every queue that gives the nearest
nodes, exactly if the sums that matter stay small. -/
theorem finds_iff (hg : g.Wf) (ha : a < g.count) (hab : a ≠ b) :
    (∀ queue : Queue, queue.Least → Finds queue weight g a b) ↔ g.Roomy weight a b := by
  constructor
  · intro hfinds
    obtain ⟨hclean, path, hpath, hway, hshort, -⟩ := hfinds _ (Queue.lateFor_least b)
    obtain ⟨s, done, hs, hended⟩ := searchLoop_ended hg (Queue.lateFor_least b)
      (Search.Exact.begin weight ha) List.not_mem_nil (List.cons_ne_nil a [])
      (Nat.le_add_right _ _) hclean
    have h := hended.exact
    constructor
    · intro n way hway' hsources hnear hfirst e he hweight
      have hin := hended.finished (Queue.lateFor_late b) way hway' hsources hnear hfirst
      rw [← h.distance_eq hin hway']
      exact (h.relaxed n hin e he hweight fun hx => absurd hx (by simp)).2
    · intro hreach
      have hne : path ≠ [] := fun hnil => (hway.1 hnil) hreach
      rw [shortestPath, Exec.assert_bind hab, hs, Exec.ok_bind] at hpath
      have hfar : s.distance b ≠ infinite := by
        intro hfar
        rw [if_pos hfar] at hpath
        cases hpath
        exact hne rfl
      obtain ⟨way, hwalk, htotal, -⟩ := h.walk hfar
      have hle := h.le b
      exact ⟨way, hwalk, by omega⟩
  · intro hroomy queue hleast
    exact finds_of_clean hg ha hab hroomy hleast

namespace Sample

/-- Three nodes. The way over the node in the middle is longer than the direct one. -/
def triangle : MultiGraph Unit Nat :=
  let g := ((empty.addNode [] ()).addNode [] ()).addNode [] ()
  ((g.addEdge 0 1 10).addEdge 1 2 (2 ^ 32 - 2)).addEdge 0 2 20

theorem triangle_wf : triangle.Wf :=
  ((((((Wf.empty.addNode [] ()).addNode [] ()).addNode [] ()).addEdge (by decide) (by decide) 10).addEdge
    (by decide) (by decide) _).addEdge (by decide) (by decide) 20)

theorem finds_iff_triangle : (∀ queue : Queue, queue.Least → Finds queue Edge.info triangle 0 2) ↔
    triangle.Roomy Edge.info 0 2 :=
  finds_iff triangle_wf (by decide) (by decide)

/-- The sum over the middle wraps to 8, and the search returns that way although the direct one is
shorter. -/
theorem triangle_takes_detour : Queue.plain.Least ∧
    shortestPath Queue.plain Edge.info triangle 0 2 = .ok [⟨1, 1, 2, 2 ^ 32 - 2⟩, ⟨0, 0, 1, 10⟩] ∧
    ¬Finds Queue.plain Edge.info triangle 0 2 := by
  have hpath : shortestPath Queue.plain Edge.info triangle 0 2 =
      .ok [⟨1, 1, 2, 2 ^ 32 - 2⟩, ⟨0, 0, 1, 10⟩] := rfl
  refine ⟨nearest_le, hpath, ?_⟩
  rintro ⟨-, path, heq, -, hshort, -⟩
  rw [hpath] at heq
  cases heq
  have hdirect : (triangle.routes Edge.info).Walk 0 [⟨2, 0, 2, 20⟩] 2 :=
    .step .start ⟨by decide, by decide⟩
  have hle := (hshort (List.cons_ne_nil _ _)).1.2 _ hdirect
  exact absurd hle (by decide)

end Sample

end MultiGraph

end Dtn2
