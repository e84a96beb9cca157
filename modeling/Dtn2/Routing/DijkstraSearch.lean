import Dtn2.Framework.Walks
import Dtn2.Routing.ShortestPath

/-!
# The distances of the search

As long as no sum of a distance and a weight wraps, the finished nodes are the nearest ones, and no edge
that leaves them can improve a distance.
-/

namespace Dtn2

namespace MultiGraph

open Framework

variable {N E : Type}

/-- The walks that the search may find. -/
def routes (g : MultiGraph N E) (weight : Edge E → Nat) : WeightedGraph Nat (Edge E) where
  source := Edge.source
  dest := Edge.dest
  usable e := e ∈ (g.node e.source).outEdges ∧ weight e ≠ infinite
  weight := weight

def Queue.Least (queue : Queue) : Prop :=
  ∀ (distance : Nat → Nat) (waiting : List Nat), ∀ n ∈ waiting,
    distance (queue.top distance waiting) ≤ distance n

/-- The edge is looked at without a sum that wraps, and it does not improve a finished node. -/
def Clean (weight : Edge E → Nat) (cur : Nat) (s : Search E) (e : Edge E) : Prop :=
  weight e ≠ infinite → s.distance cur + weight e < 2 ^ 32 ∧
    ¬(s.distance cur + weight e < s.distance e.dest ∧ s.color e.dest = .black)

def CleanEdges (weight : Edge E → Nat) (cur : Nat) : List (Edge E) → Search E → Prop
  | [], _ => True
  | e :: rest, s =>
      Clean weight cur s e ∧ ∀ s', relax weight cur s e = .ok s' → CleanEdges weight cur rest s'

def CleanSearch (queue : Queue) (weight : Edge E → Nat) (g : MultiGraph N E) (b : Nat) :
    Nat → Search E → Prop
  | 0, _ => True
  | fuel + 1, s =>
      let cur := queue.top s.distance s.waiting
      let s := { s with waiting := s.waiting.erase cur }
      CleanEdges weight cur (g.node cur).outEdges s ∧
        ∀ s', (g.node cur).outEdges.foldlM (relax weight cur) s = .ok s' → cur ≠ b →
          s'.waiting ≠ [] →
          CleanSearch queue weight g b fuel { s' with color := Function.update s'.color cur .black }

/-- What holds of the distances of a search. The edges of the current node that have been looked at are
`looked`. -/
structure Search.Exact (g : MultiGraph N E) (weight : Edge E → Nat) (a : Nat) (done : List Nat)
    (current : Option Nat) (looked : List (Edge E)) (s : Search E) : Prop where
  inv : Search.Inv g a done current s
  le : ∀ n, s.distance n ≤ infinite
  prev : ∀ n e, s.prev n = some e →
    s.distance n = s.distance e.source + weight e ∧ weight e ≠ infinite
  order : ∀ u ∈ done, ∀ n, n ∉ done → s.distance u ≤ s.distance n
  latest : ∀ c, current = some c → c ∈ done ∧ ∀ u ∈ done, s.distance u ≤ s.distance c
  waits : ∀ n, n ∉ done → s.distance n ≠ infinite → n ∈ s.waiting
  gray : ∀ n, s.color n = .gray → n ∉ done → n ∈ s.waiting
  black : ∀ n, s.color n = .black → n ∈ done
  known : ∀ n, n ∈ s.waiting ∨ n ∈ done → s.distance n ≠ infinite
  relaxed : ∀ u ∈ done, ∀ e ∈ (g.node u).outEdges, weight e ≠ infinite →
    (current = some u → e ∈ looked) →
    s.distance e.dest ≤ s.distance u + weight e ∧ s.distance u + weight e < 2 ^ 32

theorem Search.Exact.begin {g : MultiGraph N E} (weight : Edge E → Nat) {a : Nat}
    (ha : a < g.count) : Search.Exact g weight a [] none [] (Search.start a) := by
  have hself : (Search.start a : Search E).distance a = 0 := by
    change Function.update (fun _ => infinite) a 0 a = 0
    rw [Function.update_self]
  have hother : ∀ n, n ≠ a → (Search.start a : Search E).distance n = infinite := by
    intro n hn
    change Function.update (fun _ => infinite) a 0 n = infinite
    rw [Function.update_of_ne hn]
  constructor
  · exact .begin ha
  · intro n
    by_cases hna : n = a
    · rw [hna, hself]
      exact Nat.zero_le _
    · rw [hother n hna]
  · intro n e h
    cases h
  · intro u hu
    cases hu
  · intro c hc
    cases hc
  · intro n _ hn
    by_cases hna : n = a
    · exact List.mem_singleton.2 hna
    · exact absurd (hother n hna) hn
  · intro n hn
    cases hn
  · intro n hn
    cases hn
  · intro n hn
    have hna : n = a := List.mem_singleton.1 (hn.resolve_right List.not_mem_nil)
    rw [hna, hself]
    decide
  · intro u hu
    cases hu

section Round

variable {g : MultiGraph N E} {weight : Edge E → Nat} {a cur : Nat} {done : List Nat}
  {looked : List (Edge E)} {s : Search E} {e : Edge E}

inductive Relaxed (weight : Edge E → Nat) (cur : Nat) (s : Search E) (e : Edge E) (s' : Search E) :
    Prop where
  | kept (h : weight e ≠ infinite → s.distance e.dest ≤ s.distance cur + weight e) (heq : s' = s)
  | improved (hweight : weight e ≠ infinite) (hlt : s.distance cur + weight e < s.distance e.dest)
      (hcolor : s.color e.dest ≠ .black)
      (hdistance : s'.distance = Function.update s.distance e.dest (s.distance cur + weight e))
      (hprev : s'.prev = Function.update s.prev e.dest (some e))
      (hwaiting : (s.color e.dest = .gray ∧ s'.waiting = s.waiting ∧ s'.color = s.color) ∨
        (s.color e.dest = .white ∧ s'.waiting = s.waiting ++ [e.dest] ∧
          s'.color = Function.update s.color e.dest .gray))

theorem relax_relaxed (hclean : Clean weight cur s e) {s' : Search E}
    (h : relax weight cur s e = .ok s') : Relaxed weight cur s e s' := by
  rw [relax, Exec.bind_eq_ok] at h
  obtain ⟨_, _, h⟩ := h
  rw [Exec.bind_eq_ok] at h
  obtain ⟨_, _, h⟩ := h
  dsimp only at h
  by_cases hweight : weight e ≠ infinite
  · obtain ⟨hsum, hblack⟩ := hclean hweight
    rw [Nat.mod_eq_of_lt hsum] at h
    by_cases hlt : s.distance cur + weight e < s.distance e.dest
    · rw [if_pos ⟨hweight, hlt⟩] at h
      cases hcolor : s.color e.dest with
      | black => exact absurd ⟨hlt, hcolor⟩ hblack
      | white =>
          rw [hcolor] at h
          cases h
          exact .improved hweight hlt (by rw [hcolor]; decide) rfl rfl (.inr ⟨hcolor, rfl, rfl⟩)
      | gray =>
          rw [hcolor] at h
          cases h
          exact .improved hweight hlt (by rw [hcolor]; decide) rfl rfl (.inl ⟨hcolor, rfl, rfl⟩)
    · rw [if_neg fun hx => hlt hx.2] at h
      cases h
      exact .kept (fun _ => Nat.le_of_not_lt hlt) rfl
  · rw [if_neg fun hx => hweight hx.1] at h
    cases h
    exact .kept (fun hx => absurd hx hweight) rfl

theorem Search.Exact.relax (h : Search.Exact g weight a done (some cur) looked s)
    (he : e ∈ (g.node cur).outEdges) (hok : EdgeOk g cur e) (hclean : Clean weight cur s e) :
    ∃ s', MultiGraph.relax weight cur s e = .ok s' ∧
      Search.Exact g weight a done (some cur) (e :: looked) s' ∧
      ∀ u ∈ done, s'.distance u = s.distance u := by
  obtain ⟨hcur, hlatest⟩ := h.latest cur rfl
  obtain ⟨s', hrelax, hinv⟩ := h.inv.relax hcur he hok weight
  refine ⟨s', hrelax, ?_⟩
  cases relax_relaxed hclean hrelax with
  | kept hle heq =>
      subst heq
      refine ⟨⟨h.inv, h.le, h.prev, h.order, h.latest, h.waits, h.gray, h.black, h.known, ?_⟩,
        fun _ _ => rfl⟩
      intro u hu f hf hweight hlooked
      by_cases hfe : u = cur ∧ f = e
      · obtain ⟨rfl, rfl⟩ := hfe
        exact ⟨hle hweight, (hclean hweight).1⟩
      · refine h.relaxed u hu f hf hweight fun hcurrent => ?_
        have hmem := List.mem_cons.1 (hlooked hcurrent)
        exact hmem.resolve_left fun hx => hfe ⟨(Option.some.inj hcurrent).symm, hx⟩
  | improved hweight hlt hcolor hdistance hprev hwaiting =>
      have hdone : e.dest ∉ done := by
        intro hin
        cases h.inv.black e.dest hin with
        | inl heq => exact hok.noLoop (Option.some.inj heq).symm
        | inr hblack => exact hcolor hblack
      have hself : s'.distance e.dest = s.distance cur + weight e := by
        rw [hdistance, Function.update_self]
      have hother : ∀ n, n ≠ e.dest → s'.distance n = s.distance n := by
        intro n hn
        rw [hdistance, Function.update_of_ne hn]
      have hsame : ∀ u ∈ done, s'.distance u = s.distance u :=
        fun u hu => hother u fun heq => hdone (heq ▸ hu)
      have hsmaller : ∀ n, s'.distance n ≤ s.distance n := by
        intro n
        by_cases hn : n = e.dest
        · rw [hn, hself]
          exact Nat.le_of_lt hlt
        · rw [hother n hn]
      have hwaits : e.dest ∈ s'.waiting ∧ (∀ n ∈ s.waiting, n ∈ s'.waiting) ∧
          ∀ n ∈ s'.waiting, n = e.dest ∨ n ∈ s.waiting := by
        cases hwaiting with
        | inl hgray =>
            rw [hgray.2.1]
            exact ⟨h.gray _ hgray.1 hdone, fun _ hn => hn, fun _ hn => .inr hn⟩
        | inr hwhite =>
            rw [hwhite.2.1]
            refine ⟨by simp, fun n hn => List.mem_append_left _ hn, fun n hn => ?_⟩
            cases List.mem_append.1 hn with
            | inl hold => exact .inr hold
            | inr hnew => exact .inl (List.mem_singleton.1 hnew)
      have hcolors : ∀ n, n ≠ e.dest → s'.color n = s.color n := by
        intro n hn
        cases hwaiting with
        | inl hgray => rw [hgray.2.2]
        | inr hwhite => rw [hwhite.2.2, Function.update_of_ne hn]
      have hgrayDest : s'.color e.dest = .gray := by
        cases hwaiting with
        | inl hgray => rw [hgray.2.2, hgray.1]
        | inr hwhite => rw [hwhite.2.2, Function.update_self]
      refine ⟨⟨hinv, ?_, ?_, ?_, ?_, ?_, ?_, ?_, ?_, ?_⟩, hsame⟩
      · exact fun n => (hsmaller n).trans (h.le n)
      · intro n f hn
        by_cases hne : n = e.dest
        · subst hne
          rw [hprev, Function.update_self, Option.some.injEq] at hn
          subst hn
          rw [hself, hok.source, hsame cur hcur]
          exact ⟨rfl, hweight⟩
        · rw [hprev, Function.update_of_ne hne] at hn
          have hsource := (h.inv.prev n f hn).2.1
          rw [hother n hne, hsame _ hsource]
          exact h.prev n f hn
      · intro u hu n hn
        rw [hsame u hu]
        by_cases hne : n = e.dest
        · rw [hne, hself]
          exact (hlatest u hu).trans (Nat.le_add_right _ _)
        · rw [hother n hne]
          exact h.order u hu n hn
      · intro c hc
        have hcc : cur = c := Option.some.inj hc
        subst hcc
        refine ⟨hcur, fun u hu => ?_⟩
        rw [hsame u hu, hsame cur hcur]
        exact hlatest u hu
      · intro n hn hfar
        by_cases hne : n = e.dest
        · rw [hne]
          exact hwaits.1
        · rw [hother n hne] at hfar
          exact hwaits.2.1 n (h.waits n hn hfar)
      · intro n hn hout
        by_cases hne : n = e.dest
        · rw [hne]
          exact hwaits.1
        · rw [hcolors n hne] at hn
          exact hwaits.2.1 n (h.gray n hn hout)
      · intro n hn
        have hne : n ≠ e.dest := by
          rintro rfl
          rw [hgrayDest] at hn
          cases hn
        rw [hcolors n hne] at hn
        exact h.black n hn
      · intro n hn
        by_cases hne : n = e.dest
        · have hle := h.le e.dest
          rw [hne, hself]
          omega
        · rw [hother n hne]
          refine h.known n (hn.imp_left fun hw => ?_)
          exact (hwaits.2.2 n hw).resolve_left hne
      · intro u hu f hf hfweight hlooked
        rw [hsame u hu]
        by_cases hfe : u = cur ∧ f = e
        · obtain ⟨rfl, rfl⟩ := hfe
          exact ⟨Nat.le_of_eq hself, (hclean hweight).1⟩
        · have hold := h.relaxed u hu f hf hfweight fun hcurrent => by
            have hmem := List.mem_cons.1 (hlooked hcurrent)
            exact hmem.resolve_left fun hx => hfe ⟨(Option.some.inj hcurrent).symm, hx⟩
          exact ⟨(hsmaller _).trans hold.1, hold.2⟩

theorem Search.Exact.relaxAll (hg : g.Wf) (edges : List (Edge E))
    (hedges : ∀ e ∈ edges, e ∈ (g.node cur).outEdges) :
    ∀ {looked : List (Edge E)} {s : Search E}, Search.Exact g weight a done (some cur) looked s →
      CleanEdges weight cur edges s →
      ∃ s', edges.foldlM (MultiGraph.relax weight cur) s = .ok s' ∧
        Search.Exact g weight a done (some cur) (edges.reverse ++ looked) s' ∧
        ∀ u ∈ done, s'.distance u = s.distance u := by
  induction edges with
  | nil =>
      intro looked s h _
      exact ⟨s, rfl, h, fun _ _ => rfl⟩
  | cons e rest ih =>
      intro looked s h hclean
      have he := hedges e List.mem_cons_self
      obtain ⟨s₁, hs₁, h₁, hsame₁⟩ := h.relax he (hg.edges cur e he) hclean.1
      obtain ⟨s₂, hs₂, h₂, hsame₂⟩ :=
        ih (fun f hf => hedges f (List.mem_cons_of_mem e hf)) h₁ (hclean.2 s₁ hs₁)
      rw [List.foldlM_cons, hs₁, Exec.ok_bind]
      refine ⟨s₂, hs₂, ?_, fun u hu => (hsame₂ u hu).trans (hsame₁ u hu)⟩
      rwa [List.reverse_cons, List.append_assoc, List.singleton_append]

theorem Search.Exact.pop (h : Search.Exact g weight a done none [] s) {queue : Queue}
    (hleast : queue.Least) (hwaiting : s.waiting ≠ [])
    (hcur : queue.top s.distance s.waiting = cur) :
    Search.Exact g weight a (cur :: done) (some cur) []
      { s with waiting := s.waiting.erase cur } := by
  have hmem : cur ∈ s.waiting := hcur ▸ queue.top_mem s.distance s.waiting hwaiting
  have hout : cur ∉ done := (h.inv.fresh cur hmem).1
  have hnear : ∀ n, n ∉ done → s.distance cur ≤ s.distance n := by
    intro n hn
    by_cases hfar : s.distance n = infinite
    · rw [hfar]
      exact h.le cur
    · rw [← hcur]
      exact hleast _ _ n (h.waits n hn hfar)
  refine ⟨h.inv.pop hmem, h.le, h.prev, ?_, ?_, ?_, ?_, ?_, ?_, ?_⟩
  · intro u hu n hn
    rw [List.mem_cons, not_or] at hn
    cases List.mem_cons.1 hu with
    | inl heq =>
        rw [heq]
        exact hnear n hn.2
    | inr hold => exact h.order u hold n hn.2
  · intro c hc
    have hcc : cur = c := Option.some.inj hc
    subst hcc
    refine ⟨List.mem_cons_self, fun u hu => ?_⟩
    cases List.mem_cons.1 hu with
    | inl heq => rw [heq]
    | inr hold => exact h.order u hold cur hout
  · intro n hn hfar
    rw [List.mem_cons, not_or] at hn
    exact (h.inv.waiting.mem_erase_iff).2 ⟨hn.1, h.waits n hn.2 hfar⟩
  · intro n hgray hn
    rw [List.mem_cons, not_or] at hn
    exact (h.inv.waiting.mem_erase_iff).2 ⟨hn.1, h.gray n hgray hn.2⟩
  · exact fun n hn => List.mem_cons_of_mem cur (h.black n hn)
  · intro n hn
    refine h.known n ?_
    cases hn with
    | inl hw => exact .inl (List.mem_of_mem_erase hw)
    | inr hd =>
        cases List.mem_cons.1 hd with
        | inl heq => exact .inl (heq ▸ hmem)
        | inr hold => exact .inr hold
  · intro u hu e he hweight hlooked
    cases List.mem_cons.1 hu with
    | inl heq => exact absurd (hlooked (congrArg some heq.symm)) List.not_mem_nil
    | inr hold => exact h.relaxed u hold e he hweight fun hx => by cases hx

theorem Search.Exact.blacken (h : Search.Exact g weight a done (some cur) looked s)
    (hlooked : ∀ e ∈ (g.node cur).outEdges, e ∈ looked) :
    Search.Exact g weight a done none [] { s with color := Function.update s.color cur .black } := by
  have hcur := (h.latest cur rfl).1
  refine ⟨h.inv.blacken hcur, h.le, h.prev, h.order, (fun _ hc => absurd hc (by simp)), h.waits, ?_, ?_,
    h.known, ?_⟩
  · intro n hn hout
    have hne : n ≠ cur := fun heq => hout (heq ▸ hcur)
    have hn' : Function.update s.color cur Color.black n = .gray := hn
    rw [Function.update_of_ne hne] at hn'
    exact h.gray n hn' hout
  · intro n hn
    by_cases hne : n = cur
    · rw [hne]
      exact hcur
    · have hn' : Function.update s.color cur Color.black n = .black := hn
      rw [Function.update_of_ne hne] at hn'
      exact h.black n hn'
  · intro u hu e he hweight _
    refine h.relaxed u hu e he hweight fun hx => ?_
    rw [← Option.some.inj hx] at he
    exact hlooked e he

end Round

end MultiGraph

end Dtn2
