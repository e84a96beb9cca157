import Dtn2.Routing.GraphInvariant
import Mathlib.Data.List.NodupEquivFin

/-!
# The shortest path on a well-formed graph

On a well-formed graph the search ends and none of its assertions fails, whatever the weights are and
in whichever order the queue serves the nodes.
-/

namespace Dtn2

namespace MultiGraph

variable {N E : Type}

/-! ## The search -/

/-- Each node of the list is the start or was reached from a node further down the list. -/
def Linked (g : MultiGraph N E) (a : Nat) (prev : Nat → Option (Edge E)) : List Nat → Prop
  | [] => True
  | n :: rest =>
      (n = a ∨ ∃ e, prev n = some e ∧ e.dest = n ∧ e.source ∈ rest ∧
        e ∈ (g.node e.source).outEdges) ∧ Linked g a prev rest

/-- What holds of a search. The nodes that have been taken off the queue are `done`, newest first; the
color of the node whose edges are being looked at has not been set. -/
structure Search.Inv (g : MultiGraph N E) (a : Nat) (done : List Nat) (current : Option Nat)
    (s : Search E) : Prop where
  start : s.distance a = 0
  reached : ∀ n, s.distance n ≠ infinite → n = a ∨ ∃ e, s.prev n = some e
  prev : ∀ n e, s.prev n = some e →
    e.dest = n ∧ e.source ∈ done ∧ e ∈ (g.node e.source).outEdges
  gray : ∀ n, s.color n = .gray → ∃ e, s.prev n = some e
  black : ∀ n ∈ done, current = some n ∨ s.color n = .black
  fresh : ∀ n ∈ s.waiting, n ∉ done ∧ n < g.count ∧ (n = a ∨ s.color n = .gray)
  waiting : s.waiting.Nodup
  nodup : done.Nodup
  bound : ∀ n ∈ done, n < g.count
  linked : Linked g a s.prev done

theorem Linked.update {g : MultiGraph N E} {a : Nat} {prev : Nat → Option (Edge E)} {done : List Nat}
    (h : Linked g a prev done) {n : Nat} (hn : n ∉ done) (e : Option (Edge E)) :
    Linked g a (Function.update prev n e) done := by
  induction done with
  | nil => trivial
  | cons m rest ih =>
      rw [List.mem_cons, not_or] at hn
      refine ⟨?_, ih h.2 hn.2⟩
      rw [Function.update_of_ne (Ne.symm hn.1)]
      exact h.1

theorem Search.Inv.begin {g : MultiGraph N E} {a : Nat} (ha : a < g.count) :
    Search.Inv g a [] none (Search.start a) := by
  constructor
  · change Function.update (fun _ => infinite) a 0 a = 0
    rw [Function.update_self]
  · intro n hn
    by_cases hna : n = a
    · exact Or.inl hna
    · change Function.update (fun _ => infinite) a 0 n ≠ infinite at hn
      rw [Function.update_of_ne hna] at hn
      exact absurd rfl hn
  · intro n e h
    cases h
  · intro n h
    cases h
  · intro n h
    cases h
  · intro n h
    have hna : n = a := List.mem_singleton.mp h
    exact ⟨List.not_mem_nil, hna ▸ ha, Or.inl hna⟩
  · exact List.nodup_singleton a
  · exact List.nodup_nil
  · intro n h
    cases h
  · trivial

section Relax

variable {g : MultiGraph N E} {a cur : Nat} {done : List Nat} {s : Search E} {e : Edge E}

theorem Search.Inv.reach (h : Search.Inv g a done (some cur) s) (hcur : cur ∈ done)
    (he : e ∈ (g.node cur).outEdges) (hok : EdgeOk g cur e) (hdest : e.dest ∉ done)
    {distance : Nat} (hlt : distance < s.distance e.dest) :
    Search.Inv g a done (some cur) (s.reach e distance) := by
  have hprev : (s.reach e distance).prev e.dest = some e := Function.update_self e.dest _ _
  have hother : ∀ n, n ≠ e.dest → (s.reach e distance).prev n = s.prev n :=
    fun n hn => Function.update_of_ne hn _ _
  have ha : a ≠ e.dest := by
    rintro rfl
    rw [h.start] at hlt
    exact Nat.not_lt_zero _ hlt
  constructor
  · exact (Function.update_of_ne ha _ _).trans h.start
  · intro n hn
    by_cases hne : n = e.dest
    · exact Or.inr ⟨e, hne ▸ hprev⟩
    · rw [hother n hne]
      apply h.reached n
      rwa [← show (s.reach e distance).distance n = s.distance n from Function.update_of_ne hne _ _]
  · intro n e' hn
    by_cases hne : n = e.dest
    · subst hne
      rw [hprev, Option.some.injEq] at hn
      subst hn
      rw [hok.source]
      exact ⟨rfl, hcur, he⟩
    · rw [hother n hne] at hn
      exact h.prev n e' hn
  · intro n hn
    by_cases hne : n = e.dest
    · exact ⟨e, hne ▸ hprev⟩
    · rw [hother n hne]
      exact h.gray n hn
  · exact h.black
  · exact h.fresh
  · exact h.waiting
  · exact h.nodup
  · exact h.bound
  · exact h.linked.update hdest _

theorem Search.Inv.push (h : Search.Inv g a done (some cur) s) {n : Nat} (hn : n ∉ done)
    (hnew : n ∉ s.waiting) (hlt : n < g.count) (hprev : ∃ e, s.prev n = some e) :
    Search.Inv g a done (some cur)
      { s with color := Function.update s.color n .gray, waiting := s.waiting ++ [n] } := by
  have hother : ∀ m, m ≠ n → Function.update s.color n Color.gray m = s.color m :=
    fun m hm => Function.update_of_ne hm _ _
  constructor
  · exact h.start
  · exact h.reached
  · exact h.prev
  · intro m hm
    by_cases hmn : m = n
    · exact hmn ▸ hprev
    · exact h.gray m ((hother m hmn).symm.trans hm)
  · intro m hm
    have hmn : m ≠ n := fun hmn => hn (hmn ▸ hm)
    exact (h.black m hm).imp_right (hother m hmn).trans
  · intro m hm
    rcases List.mem_append.mp hm with hm | hm
    · have hmn : m ≠ n := fun hmn => hnew (hmn ▸ hm)
      obtain ⟨hfresh, hbound, hcolor⟩ := h.fresh m hm
      exact ⟨hfresh, hbound, hcolor.imp_right (hother m hmn).trans⟩
    · rw [List.mem_singleton.mp hm]
      exact ⟨hn, hlt, Or.inr (Function.update_self n _ _)⟩
  · exact List.nodup_append.mpr ⟨h.waiting, List.nodup_singleton n, by
      intro m hm k hk hmk
      rw [List.mem_singleton.mp hk] at hmk
      exact hnew (hmk ▸ hm)⟩
  · exact h.nodup
  · exact h.bound
  · exact h.linked

theorem Search.Inv.relax (h : Search.Inv g a done (some cur) s) (hcur : cur ∈ done)
    (he : e ∈ (g.node cur).outEdges) (hok : EdgeOk g cur e) (weight : Edge E → Nat) :
    ∃ s', MultiGraph.relax weight cur s e = .ok s' ∧ Search.Inv g a done (some cur) s' := by
  rw [MultiGraph.relax, Exec.assert_bind hok.source, Exec.assert_bind hok.noLoop]
  dsimp only
  split
  case isFalse => exact ⟨s, rfl, h⟩
  case isTrue hcond =>
      have hlive : s.color e.dest ≠ .black → e.dest ∉ done := by
        intro hcolor hdone
        rcases h.black e.dest hdone with heq | heq
        · exact hok.noLoop (Option.some.inj heq).symm
        · exact hcolor heq
      split
      case h_1 => exact ⟨s, rfl, h⟩
      case h_2 hwhite =>
          have hdone : e.dest ∉ done := hlive (by rw [hwhite]; decide)
          have hreach := h.reach hcur he hok hdone hcond.2
          refine ⟨_, rfl, hreach.push hdone ?_ hok.dest ⟨e, Function.update_self e.dest _ _⟩⟩
          intro hmem
          rcases (h.fresh e.dest hmem).2.2 with heq | hgray
          · rw [heq, h.start] at hcond
            exact Nat.not_lt_zero _ hcond.2
          · rw [hwhite] at hgray
            cases hgray
      case h_3 hgray =>
          have hdone : e.dest ∉ done := hlive (by rw [hgray]; decide)
          exact ⟨_, rfl, h.reach hcur he hok hdone hcond.2⟩

theorem Search.Inv.relaxAll (hg : g.Wf) (hcur : cur ∈ done) (weight : Edge E → Nat)
    (edges : List (Edge E)) (hedges : ∀ e ∈ edges, e ∈ (g.node cur).outEdges) {s : Search E}
    (h : Search.Inv g a done (some cur) s) :
    ∃ s', edges.foldlM (MultiGraph.relax weight cur) s = .ok s' ∧
      Search.Inv g a done (some cur) s' := by
  induction edges generalizing s with
  | nil => exact ⟨s, rfl, h⟩
  | cons e rest ih =>
      have he := hedges e List.mem_cons_self
      obtain ⟨s', hs', hinv⟩ := h.relax hcur he (hg.edges cur e he) weight
      rw [List.foldlM_cons, hs', Exec.ok_bind]
      exact ih (fun f hf => hedges f (List.mem_cons_of_mem e hf)) hinv

end Relax

section Loop

variable {g : MultiGraph N E} {a : Nat} {done : List Nat} {s : Search E}

theorem Search.Inv.pop (h : Search.Inv g a done none s) {cur : Nat} (hcur : cur ∈ s.waiting) :
    Search.Inv g a (cur :: done) (some cur) { s with waiting := s.waiting.erase cur } := by
  obtain ⟨hfresh, hlt, hcolor⟩ := h.fresh cur hcur
  constructor
  · exact h.start
  · exact h.reached
  · intro n e hn
    obtain ⟨hdest, hsource, hmem⟩ := h.prev n e hn
    exact ⟨hdest, List.mem_cons_of_mem cur hsource, hmem⟩
  · exact h.gray
  · intro n hn
    rcases List.mem_cons.mp hn with rfl | hn
    · exact Or.inl rfl
    · exact Or.inr ((h.black n hn).resolve_left (by simp))
  · intro n hn
    obtain ⟨hne, hmem⟩ := (h.waiting.mem_erase_iff).mp hn
    obtain ⟨hn', hbound, hgray⟩ := h.fresh n hmem
    refine ⟨?_, hbound, hgray⟩
    rw [List.mem_cons, not_or]
    exact ⟨hne, hn'⟩
  · exact h.waiting.erase cur
  · exact List.nodup_cons.mpr ⟨hfresh, h.nodup⟩
  · intro n hn
    rcases List.mem_cons.mp hn with rfl | hn
    · exact hlt
    · exact h.bound n hn
  · refine ⟨?_, h.linked⟩
    refine hcolor.imp_right ?_
    intro hgray
    obtain ⟨e, he⟩ := h.gray cur hgray
    exact ⟨e, he, h.prev cur e he⟩

theorem Search.Inv.blacken {cur : Nat} (h : Search.Inv g a done (some cur) s) (hcur : cur ∈ done) :
    Search.Inv g a done none { s with color := Function.update s.color cur .black } := by
  have hother : ∀ m, m ≠ cur → Function.update s.color cur Color.black m = s.color m :=
    fun m hm => Function.update_of_ne hm _ _
  constructor
  · exact h.start
  · exact h.reached
  · exact h.prev
  · intro n hn
    have hne : n ≠ cur := by
      rintro rfl
      exact absurd (hn.symm.trans (Function.update_self n _ _)) (by decide)
    exact h.gray n ((hother n hne).symm.trans hn)
  · intro n hn
    refine Or.inr ?_
    by_cases hne : n = cur
    · subst hne
      exact Function.update_self n _ _
    · have hblack := (h.black n hn).resolve_left fun heq => hne (Option.some.inj heq).symm
      exact (hother n hne).trans hblack
  · intro n hn
    obtain ⟨hfresh, hbound, hgray⟩ := h.fresh n hn
    have hne : n ≠ cur := fun hne => hfresh (hne ▸ hcur)
    exact ⟨hfresh, hbound, hgray.imp_right (hother n hne).trans⟩
  · exact h.waiting
  · exact h.nodup
  · exact h.bound
  · exact h.linked

theorem length_le_of_bound {done : List Nat} {count : Nat} (hnodup : done.Nodup)
    (hbound : ∀ n ∈ done, n < count) : done.length ≤ count := by
  have hsub : done ⊆ List.range count := fun n hn => List.mem_range.mpr (hbound n hn)
  have hle := (List.subperm_of_subset hnodup hsub).length_le
  rwa [List.length_range] at hle

theorem searchLoop_ok (hg : g.Wf) (queue : Queue) (weight : Edge E → Nat) (b fuel : Nat)
    {done : List Nat} {s : Search E} (h : Search.Inv g a done none s) (hwaiting : s.waiting ≠ [])
    (hfuel : g.count ≤ fuel + done.length) :
    ∃ s' done', searchLoop queue weight g b fuel s = .ok s' ∧ Search.Inv g a done' none s' := by
  induction fuel generalizing done s with
  | zero =>
      have hpop := h.pop (queue.top_mem s.distance s.waiting hwaiting)
      have hle := length_le_of_bound hpop.nodup hpop.bound
      rw [List.length_cons] at hle
      omega
  | succ fuel ih =>
      have hpop := h.pop (queue.top_mem s.distance s.waiting hwaiting)
      obtain ⟨s', hs', hinv⟩ := Search.Inv.relaxAll hg List.mem_cons_self weight
        (g.node (queue.top s.distance s.waiting)).outEdges (fun e he => he) hpop
      have hdone := hinv.blacken List.mem_cons_self
      rw [searchLoop]
      dsimp only
      rw [hs', Exec.ok_bind]
      split
      · exact ⟨_, _, rfl, hdone⟩
      · split
        · exact ⟨_, _, rfl, hdone⟩
        · rename_i hrest
          exact ih hdone hrest (by rw [List.length_cons]; omega)

end Loop

/-! ## The path -/

/-- The way back from a node that was reached ends at the start, within as many steps as there are
nodes on the list. -/
theorem getReversePath_ok {g : MultiGraph N E} {s : Search E} {a : Nat} (list : List Nat)
    (hlinked : Linked g a s.prev list) (fuel n : Nat) (hn : n ∈ list) (hna : n ≠ a)
    (hfuel : list.length ≤ fuel) :
    ∃ path e, getReversePath s a fuel n = .ok path ∧ path.getLast? = some e ∧ e.source = a ∧
      e ∈ (g.node a).outEdges := by
  induction list generalizing fuel n with
  | nil => cases hn
  | cons m rest ih =>
      rw [List.length_cons] at hfuel
      by_cases hnm : n ∈ rest
      · exact ih hlinked.2 fuel n hnm hna (by omega)
      · have hmn : n = m := (List.mem_cons.mp hn).resolve_right hnm
        subst hmn
        obtain ⟨e, hprev, hdest, hsource, hmem⟩ := hlinked.1.resolve_left hna
        have hne : e.source ≠ n := fun h => hnm (h ▸ hsource)
        obtain ⟨fuel, rfl⟩ : ∃ k, fuel = k + 1 := ⟨fuel - 1, by omega⟩
        rw [getReversePath, hprev]
        dsimp only
        rw [Exec.assert_bind hdest, Exec.assert_bind hne]
        by_cases hstart : e.source = a
        · rw [if_pos hstart]
          exact ⟨[e], e, rfl, rfl, hstart, hstart ▸ hmem⟩
        · obtain ⟨path, last, hpath, hlast, hlasta, hlastmem⟩ :=
            ih hlinked.2 fuel e.source hsource hstart (by omega)
          rw [if_neg hstart, hpath, Exec.ok_bind]
          refine ⟨e :: path, last, rfl, ?_, hlasta, hlastmem⟩
          rw [List.getLast?_cons, hlast]
          rfl

/-- On a well-formed graph the best next hop is found without a failing assertion, and it is an edge
that leaves the start. -/
theorem bestNextHop_ok {g : MultiGraph N E} (hg : g.Wf) (queue : Queue) (weight : Edge E → Nat)
    {a b : Nat} (ha : a < g.count) (hb : b < g.count) (hab : a ≠ b) :
    ∃ hop, bestNextHop queue weight g a b = .ok hop ∧
      ∀ e, hop = some e → e ∈ (g.node a).outEdges := by
  obtain ⟨s, done, hs, hinv⟩ := searchLoop_ok hg queue weight b g.count (Search.Inv.begin ha)
    (List.cons_ne_nil a []) (Nat.le_add_right _ _)
  rw [bestNextHop, shortestPath, Exec.assert_bind hab, hs, Exec.ok_bind]
  by_cases hfar : s.distance b = infinite
  · rw [if_pos hfar]
    exact ⟨none, rfl, by simp⟩
  · obtain ⟨e, he⟩ := (hinv.reached b hfar).resolve_left (Ne.symm hab)
    -- the target may still wait when the loop ends; it then extends the list of finished nodes
    have hlist : ∃ list, Linked g a s.prev list ∧ b ∈ list ∧ list.length ≤ g.count := by
      by_cases hdone : b ∈ done
      · exact ⟨done, hinv.linked, hdone, length_le_of_bound hinv.nodup hinv.bound⟩
      · refine ⟨b :: done, ⟨Or.inr ⟨e, he, hinv.prev b e he⟩, hinv.linked⟩, List.mem_cons_self, ?_⟩
        apply length_le_of_bound (List.nodup_cons.mpr ⟨hdone, hinv.nodup⟩)
        intro n hn
        rcases List.mem_cons.mp hn with rfl | hn
        · exact hb
        · exact hinv.bound n hn
    obtain ⟨list, hlinked, hmem, hlen⟩ := hlist
    obtain ⟨path, last, hpath, hlast, hsource, hout⟩ :=
      getReversePath_ok list hlinked g.count b hmem (Ne.symm hab) hlen
    rw [if_neg hfar, hpath, Exec.ok_bind, hlast]
    dsimp only
    rw [Exec.assert_bind hsource]
    refine ⟨some last, rfl, ?_⟩
    intro e' he'
    cases he'
    exact hout

end MultiGraph

end Dtn2
