import Mathlib.Data.List.Nodup
import Dtn2.Bundling.Core

/-!
# The route table

A route leads to a link, or to another endpoint id for which the table is asked in turn. `get_matching`
collects the routes to links that are found in this way, in a vector that all levels of the recursion
share. Only the number of levels is bounded.
-/

namespace Dtn2

namespace RouteTable

/-! ## Patterns -/

/-- The registered schemes with their `match`, and what is done about unknown ones. -/
structure Naming where
  scheme : Bytes → Option (EndpointID → EndpointID → Bool)
  fixedGlob : Bytes → Bytes → Bool
  globUnknownSchemes : Bool

def Naming.matches (naming : Naming) (pattern eid : EndpointID) : Bool :=
  if pattern.valid = false then false
  else if eid.valid = false then false
  else
    match naming.scheme pattern.schemeStr with
    | some schemeMatch => schemeMatch pattern eid
    | none =>
        if naming.globUnknownSchemes then naming.fixedGlob pattern.uri eid.uri
        else decide (pattern.uri = eid.uri)

/-! ## The table -/

/-- `RouteEntry`, as far as lookups read it. Both constructors see to it that an entry without a link has
somewhere to route to. -/
structure Entry (L : Type) where
  destPattern : EndpointID
  link : Option L
  routeTo : EndpointID
  routed : link = none → routeTo.uri ≠ []

end RouteTable

/-- `RouteTable`: the vector of pointers, and the entries these point to. -/
structure RouteTable (L : Type) where
  naming : RouteTable.Naming
  entry : Nat → RouteTable.Entry L
  routeTable : List Nat

namespace RouteTable

variable {L : Type} [DecidableEq L]

/-- The result vector, and the mark that the bound was reached. -/
structure Matching where
  entryVec : List Nat
  loop : Bool
deriving DecidableEq, Repr

/-- The loop of `get_matching_helper`, with the lookup of the next level. -/
def checkEntries (t : RouteTable L) (max : Int) (nextHop : Option L) (eid : EndpointID) (level : Int)
    (lookup : EndpointID → Matching → Exec (Nat × Matching)) :
    List Nat → Nat → Matching → Exec (Nat × Matching)
  | [], count, m => .ok (count, m)
  | p :: rest, count, m =>
      if t.naming.matches (t.entry p).destPattern eid = false then
        checkEntries t max nextHop eid level lookup rest count m
      else
        match (t.entry p).link with
        | none => do
            assertThat ((t.entry p).routeTo.uri ≠ [])
            if max ≤ level then
              checkEntries t max nextHop eid level lookup rest count { m with loop := true }
            else do
              let r ← lookup (t.entry p).routeTo m
              checkEntries t max nextHop eid level lookup rest (count + r.1) r.2
        | some link =>
            if nextHop = none ∨ nextHop = some link then
              if p ∈ m.entryVec then checkEntries t max nextHop eid level lookup rest count m
              else
                checkEntries t max nextHop eid level lookup rest (count + 1)
                  { m with entryVec := m.entryVec ++ [p] }
            else checkEntries t max nextHop eid level lookup rest count m

/-- `get_matching_helper`, for as many levels as there is fuel. -/
def getMatchingHelper (t : RouteTable L) (max : Int) (nextHop : Option L) :
    Nat → EndpointID → Int → Matching → Exec (Nat × Matching)
  | 0, _, _, _ => .error (.fault .diverges)
  | fuel + 1, eid, level, m =>
      t.checkEntries max nextHop eid level
        (fun eid m => t.getMatchingHelper max nextHop fuel eid (level + 1) m) t.routeTable 0 m

/-- `get_matching`. A warning is logged if the mark is set in the result. -/
def getMatching (t : RouteTable L) (max : Int) (eid : EndpointID) (nextHop : Option L)
    (entryVec : List Nat) (fuel : Nat) : Exec (Nat × Matching) :=
  t.getMatchingHelper max nextHop fuel eid 0 ⟨entryVec, false⟩

/-! ## Chains of routes -/

def RoutesOn (t : RouteTable L) (eid : EndpointID) (p : Nat) : Prop :=
  p ∈ t.routeTable ∧ (t.entry p).link = none ∧ t.naming.matches (t.entry p).destPattern eid = true

/-- The entry has a link that is asked for. -/
def Links (t : RouteTable L) (nextHop : Option L) (eid : EndpointID) (p : Nat) : Prop :=
  p ∈ t.routeTable ∧ (∃ link, (t.entry p).link = some link ∧ (nextHop = none ∨ nextHop = some link)) ∧
    t.naming.matches (t.entry p).destPattern eid = true

/-- Entries of which each matches where the one before it routes to, from one endpoint id to another. -/
inductive Chain (t : RouteTable L) : EndpointID → List Nat → EndpointID → Prop where
  | nil (eid : EndpointID) : Chain t eid [] eid
  | cons {eid last : EndpointID} {p : Nat} {chain : List Nat} (hp : t.RoutesOn eid p)
      (hchain : Chain t (t.entry p).routeTo chain last) : Chain t eid (p :: chain) last

/-- A link entry at the end of a chain of at most `n` entries. -/
def Reaches (t : RouteTable L) (nextHop : Option L) (n : Nat) (eid : EndpointID) (p : Nat) : Prop :=
  ∃ chain last, t.Chain eid chain last ∧ chain.length ≤ n ∧ t.Links nextHop last p

/-- A chain of `n` entries which a further one would continue. -/
def Overruns (t : RouteTable L) (n : Nat) (eid : EndpointID) : Prop :=
  ∃ chain last, t.Chain eid chain last ∧ chain.length = n ∧ ∃ p, t.RoutesOn last p

omit [DecidableEq L] in
theorem reaches_eid_iff {t : RouteTable L} {nextHop : Option L} {n : Nat} {eid : EndpointID} {p : Nat} :
    t.Reaches nextHop n eid p ↔ t.Links nextHop eid p ∨
      0 < n ∧ ∃ q, t.RoutesOn eid q ∧ t.Reaches nextHop (n - 1) (t.entry q).routeTo p := by
  constructor
  · intro ⟨chain, last, hchain, hlen, hlinks⟩
    cases hchain with
    | nil => exact Or.inl hlinks
    | cons hq hrest =>
        rw [List.length_cons] at hlen
        exact Or.inr ⟨by omega, _, hq, _, last, hrest, by omega, hlinks⟩
  · intro h
    rcases h with hlinks | ⟨hn, q, hq, chain, last, hchain, hlen, hlinks⟩
    · exact ⟨[], eid, .nil eid, Nat.zero_le n, hlinks⟩
    · refine ⟨q :: chain, last, .cons hq hchain, ?_, hlinks⟩
      rw [List.length_cons]
      omega

omit [DecidableEq L] in
theorem overruns_zero {t : RouteTable L} {eid : EndpointID} :
    t.Overruns 0 eid ↔ ∃ p, t.RoutesOn eid p := by
  constructor
  · intro ⟨chain, last, hchain, hlen, hp⟩
    cases hchain with
    | nil => exact hp
    | cons => exact absurd hlen (Nat.succ_ne_zero _)
  · intro hp
    exact ⟨[], eid, .nil eid, rfl, hp⟩

omit [DecidableEq L] in
theorem overruns_succ {t : RouteTable L} {n : Nat} {eid : EndpointID} :
    t.Overruns (n + 1) eid ↔ ∃ q, t.RoutesOn eid q ∧ t.Overruns n (t.entry q).routeTo := by
  constructor
  · intro ⟨chain, last, hchain, hlen, hp⟩
    cases hchain with
    | nil => exact absurd hlen (Nat.succ_ne_zero n).symm
    | cons hq hrest => exact ⟨_, hq, _, last, hrest, Nat.succ.inj hlen, hp⟩
  · intro ⟨q, hq, chain, last, hchain, hlen, hp⟩
    exact ⟨q :: chain, last, .cons hq hchain, by rw [List.length_cons, hlen], hp⟩

/-! ## What a lookup adds -/

/-- The vector has grown by the entries of a kind that it had not, each once, and they were counted. The
mark is set if it was, or if the bound was reached. -/
structure Found (reached : Nat → Prop) (bound : Prop) (m : Matching) (count : Nat) (m' : Matching) :
    Prop where
  grown : ∃ new, m'.entryVec = m.entryVec ++ new ∧ new.Nodup ∧ (∀ p ∈ new, p ∉ m.entryVec) ∧
    count = new.length
  mem : ∀ p, p ∈ m'.entryVec ↔ p ∈ m.entryVec ∨ reached p
  loop : m'.loop = true ↔ m.loop = true ∨ bound

theorem Found.nothing {reached : Nat → Prop} {bound : Prop} (m : Matching)
    (hreached : ∀ p, reached p → p ∈ m.entryVec) (hbound : ¬bound) : Found reached bound m 0 m where
  grown := ⟨[], (List.append_nil _).symm, List.nodup_nil, by simp, rfl⟩
  mem p := (or_iff_left_of_imp (hreached p)).symm
  loop := by rw [or_iff_left hbound]

theorem Found.trans {reached reached' : Nat → Prop} {bound bound' : Prop} {m m' m'' : Matching}
    {count count' : Nat} (h : Found reached bound m count m')
    (h' : Found reached' bound' m' count' m'') :
    Found (fun p => reached p ∨ reached' p) (bound ∨ bound') m (count + count') m'' where
  grown := by
    obtain ⟨new, heq, hnodup, hnew, hcount⟩ := h.grown
    obtain ⟨new', heq', hnodup', hnew', hcount'⟩ := h'.grown
    rw [heq] at heq' hnew'
    refine ⟨new ++ new', ?_, ?_, ?_, ?_⟩
    · rw [heq', List.append_assoc]
    · refine List.nodup_append.mpr ⟨hnodup, hnodup', ?_⟩
      intro p hp q hq hpq
      exact hnew' q hq (List.mem_append_right _ (hpq ▸ hp))
    · intro p hp
      rcases List.mem_append.mp hp with hp | hp
      · exact hnew p hp
      · exact fun hm => hnew' p hp (List.mem_append_left _ hm)
    · rw [hcount, hcount', List.length_append]
  mem p := by rw [h'.mem, h.mem, or_assoc]
  loop := by rw [h'.loop, h.loop, or_assoc]

theorem Found.congr {reached reached' : Nat → Prop} {bound bound' : Prop} {m m' : Matching}
    {count : Nat} (h : Found reached bound m count m') (hreached : ∀ p, reached p ↔ reached' p)
    (hbound : bound ↔ bound') : Found reached' bound' m count m' where
  grown := h.grown
  mem p := by rw [h.mem, hreached]
  loop := by rw [h.loop, hbound]

/-- What one entry leads to: itself, or what the lookup of its target finds. -/
def Leads (t : RouteTable L) (max : Int) (nextHop : Option L) (eid : EndpointID) (level : Int)
    (reached : EndpointID → Nat → Prop) (q p : Nat) : Prop :=
  t.naming.matches (t.entry q).destPattern eid = true ∧
    (((t.entry q).link = none ∧ level < max ∧ reached (t.entry q).routeTo p) ∨
      (∃ link, (t.entry q).link = some link ∧ (nextHop = none ∨ nextHop = some link)) ∧ p = q)

def Exceeds (t : RouteTable L) (max : Int) (eid : EndpointID) (level : Int)
    (bound : EndpointID → Prop) (q : Nat) : Prop :=
  t.naming.matches (t.entry q).destPattern eid = true ∧ (t.entry q).link = none ∧
    (max ≤ level ∨ level < max ∧ bound (t.entry q).routeTo)

section

variable (t : RouteTable L) (nextHop : Option L) (eid : EndpointID) {max : Int} {level : Int}
  {lookup : EndpointID → Matching → Exec (Nat × Matching)} {reached : EndpointID → Nat → Prop}
  {bound : EndpointID → Prop}

theorem checkEntries_cons (hlookup : level < max → ∀ eid m, ∃ count m',
      lookup eid m = .ok (count, m') ∧ Found (reached eid) (bound eid) m count m')
    (q : Nat) (rest : List Nat) (count : Nat) (m : Matching) :
    ∃ added m', t.checkEntries max nextHop eid level lookup (q :: rest) count m =
        t.checkEntries max nextHop eid level lookup rest (count + added) m' ∧
      Found (t.Leads max nextHop eid level reached q) (t.Exceeds max eid level bound q) m added m' := by
  rw [checkEntries]
  by_cases hmatch : t.naming.matches (t.entry q).destPattern eid = false
  · rw [if_pos hmatch]
    refine ⟨0, m, rfl, .nothing m ?_ ?_⟩
    · intro p hp
      exact absurd hp.1 (by rw [hmatch]; exact Bool.false_ne_true)
    · intro hp
      exact absurd hp.1 (by rw [hmatch]; exact Bool.false_ne_true)
  · rw [if_neg hmatch]
    rw [Bool.not_eq_false] at hmatch
    cases hlink : (t.entry q).link with
    | none =>
        dsimp only
        rw [Exec.assert_bind ((t.entry q).routed hlink)]
        by_cases hlevel : max ≤ level
        · rw [if_pos hlevel]
          refine ⟨0, { m with loop := true }, rfl, ⟨[], by simp, List.nodup_nil, by simp, rfl⟩, ?_, ?_⟩
          · intro p
            have hnot : ¬t.Leads max nextHop eid level reached q p := by
              intro hp
              rw [Leads, hlink] at hp
              rcases hp.2 with ⟨-, hlt, -⟩ | ⟨⟨link, hsome, -⟩, -⟩
              · omega
              · cases hsome
            rw [or_iff_left hnot]
          · exact iff_of_true rfl (Or.inr ⟨hmatch, hlink, Or.inl hlevel⟩)
        · rw [if_neg hlevel]
          obtain ⟨added, m', heq, hfound⟩ := hlookup (by omega) (t.entry q).routeTo m
          rw [heq, Exec.ok_bind]
          refine ⟨added, m', rfl, hfound.congr ?_ ?_⟩
          · intro p
            simp only [Leads, hmatch, hlink]
            simp [show level < max by omega]
          · simp only [Exceeds, hmatch, hlink]
            simp [hlevel, show level < max by omega]
    | some link =>
        have hexceeds : ¬t.Exceeds max eid level bound q := by
          intro hp
          rw [Exceeds, hlink] at hp
          cases hp.2.1
        dsimp only
        by_cases hhop : nextHop = none ∨ nextHop = some link
        · have hleads : ∀ p, t.Leads max nextHop eid level reached q p ↔ p = q := by
            intro p
            simp only [Leads, hmatch, hlink]
            simp [hhop]
          rw [if_pos hhop]
          by_cases hmem : q ∈ m.entryVec
          · rw [if_pos hmem]
            exact ⟨0, m, rfl, .nothing m (fun p hp => (hleads p).mp hp ▸ hmem) hexceeds⟩
          · rw [if_neg hmem]
            refine ⟨1, _, rfl, ⟨[q], rfl, List.nodup_singleton q, ?_, rfl⟩, ?_, ?_⟩
            · intro p hp
              rw [List.mem_singleton.mp hp]
              exact hmem
            · intro p
              rw [hleads, List.mem_append, List.mem_singleton]
            · rw [or_iff_left hexceeds]
        · rw [if_neg hhop]
          refine ⟨0, m, rfl, .nothing m (fun p hp => ?_) hexceeds⟩
          rw [Leads, hlink] at hp
          rcases hp.2 with ⟨hnone, -⟩ | ⟨⟨l, hsome, hnext⟩, -⟩
          · cases hnone
          · cases hsome
            exact absurd hnext hhop

theorem checkEntries_found (hlookup : level < max → ∀ eid m, ∃ count m',
      lookup eid m = .ok (count, m') ∧ Found (reached eid) (bound eid) m count m')
    (entries : List Nat) (count : Nat) (m : Matching) :
    ∃ added m', t.checkEntries max nextHop eid level lookup entries count m = .ok (count + added, m') ∧
      Found (fun p => ∃ q ∈ entries, t.Leads max nextHop eid level reached q p)
        (∃ q ∈ entries, t.Exceeds max eid level bound q) m added m' := by
  induction entries generalizing count m with
  | nil => exact ⟨0, m, rfl, .nothing m (by simp) (by simp)⟩
  | cons q rest ih =>
      obtain ⟨first, m₁, heq, hfirst⟩ := checkEntries_cons t nextHop eid hlookup q rest count m
      obtain ⟨added, m₂, hrest, hfound⟩ := ih (count + first) m₁
      refine ⟨first + added, m₂, ?_, (hfirst.trans hfound).congr ?_ ?_⟩
      · rw [heq, hrest, Nat.add_assoc]
      · intro p
        rw [List.exists_mem_cons_iff]
      · rw [List.exists_mem_cons_iff]

end

/-- With fuel for the levels below the bound a lookup comes to an end, and it finds the entries at the
end of chains of that many routes. -/
theorem getMatchingHelper_found (t : RouteTable L) (max : Int) (nextHop : Option L) (fuel : Nat)
    (eid : EndpointID) (level : Int) (m : Matching) (hfuel : (max - level).toNat < fuel) :
    ∃ count m', t.getMatchingHelper max nextHop fuel eid level m = .ok (count, m') ∧
      Found (t.Reaches nextHop (max - level).toNat eid) (t.Overruns (max - level).toNat eid)
        m count m' := by
  induction fuel generalizing eid level m with
  | zero => exact absurd hfuel (Nat.not_lt_zero _)
  | succ fuel ih =>
      have hlookup : level < max → ∀ eid m, ∃ count m',
          t.getMatchingHelper max nextHop fuel eid (level + 1) m = .ok (count, m') ∧
            Found (t.Reaches nextHop (max - (level + 1)).toNat eid)
              (t.Overruns (max - (level + 1)).toNat eid) m count m' :=
        fun hlevel eid m => ih eid (level + 1) m (by omega)
      obtain ⟨count, m', heq, hfound⟩ := checkEntries_found t nextHop eid hlookup t.routeTable 0 m
      rw [Nat.zero_add] at heq
      rw [getMatchingHelper]
      refine ⟨count, m', heq, hfound.congr ?_ ?_⟩
      · intro p
        have hpred : (max - (level + 1)).toNat = (max - level).toNat - 1 := by omega
        have hpos : 0 < (max - level).toNat ↔ level < max := by omega
        rw [reaches_eid_iff, hpred, hpos]
        constructor
        · intro ⟨q, hq, hmatch, hcase⟩
          rcases hcase with ⟨hlink, hlevel, hreaches⟩ | ⟨hlink, rfl⟩
          · exact Or.inr ⟨hlevel, q, ⟨hq, hlink, hmatch⟩, hreaches⟩
          · exact Or.inl ⟨hq, hlink, hmatch⟩
        · intro h
          rcases h with ⟨hp, hlink, hmatch⟩ | ⟨hlevel, q, ⟨hq, hlink, hmatch⟩, hreaches⟩
          · exact ⟨p, hp, hmatch, Or.inr ⟨hlink, rfl⟩⟩
          · exact ⟨q, hq, hmatch, Or.inl ⟨hlink, hlevel, hreaches⟩⟩
      · by_cases hlevel : max ≤ level
        · have hzero : (max - level).toNat = 0 := by omega
          rw [hzero, overruns_zero]
          constructor
          · intro ⟨q, hq, hmatch, hlink, _⟩
            exact ⟨q, hq, hlink, hmatch⟩
          · intro ⟨q, hq, hlink, hmatch⟩
            exact ⟨q, hq, hmatch, hlink, Or.inl hlevel⟩
        · have hsucc : (max - level).toNat = (max - (level + 1)).toNat + 1 := by omega
          rw [hsucc, overruns_succ]
          constructor
          · intro ⟨q, hq, hmatch, hlink, hcase⟩
            rcases hcase with hle | ⟨-, hbound⟩
            · exact absurd hle hlevel
            · exact ⟨q, ⟨hq, hlink, hmatch⟩, hbound⟩
          · intro ⟨q, ⟨hq, hlink, hmatch⟩, hbound⟩
            exact ⟨q, hq, hmatch, hlink, Or.inr ⟨by omega, hbound⟩⟩

/-! ## Lookups -/

/-- The entries that are found over chains up to a limit, and the mark that chains go beyond it. -/
structure Follows (t : RouteTable L) (limit : Int) (eid : EndpointID) (nextHop : Option L)
    (entryVec : List Nat) (count : Nat) (m : Matching) : Prop where
  appended : ∃ new, m.entryVec = entryVec ++ new ∧ new.Nodup ∧ count = new.length ∧
    ∀ p, p ∈ new ↔ p ∉ entryVec ∧ ∃ chain last, t.Chain eid chain last ∧
      (chain.length : Int) ≤ limit ∧ t.Links nextHop last p
  loop : m.loop = true ↔ ∃ chain last, t.Chain eid chain last ∧ (chain.length : Int) = limit ∧
    ∃ p, t.RoutesOn last p

/-- A lookup returns, and follows the chains up to the bound, or none if this is negative. -/
theorem getMatching_follows (t : RouteTable L) (max : Int) (eid : EndpointID) (nextHop : Option L)
    (entryVec : List Nat) :
    ∃ fuel count m, t.getMatching max eid nextHop entryVec fuel = .ok (count, m) ∧
      t.Follows (Max.max max 0) eid nextHop entryVec count m := by
  obtain ⟨count, m, heq, hfound⟩ := t.getMatchingHelper_found max nextHop ((max - 0).toNat + 1) eid 0
    ⟨entryVec, false⟩ (Nat.lt_succ_self _)
  rw [Int.sub_zero] at heq hfound
  have hlimit : ((max.toNat : Nat) : Int) = Max.max max 0 := Int.toNat_eq_max max
  refine ⟨max.toNat + 1, count, m, heq, ?_, ?_⟩
  · obtain ⟨new, hvec, hnodup, hnew, hcount⟩ := hfound.grown
    refine ⟨new, hvec, hnodup, hcount, fun p => ?_⟩
    have hmem := hfound.mem p
    rw [hvec, List.mem_append] at hmem
    simp only [← hlimit, Int.ofNat_le]
    constructor
    · intro hp
      exact ⟨hnew p hp, (hmem.mp (Or.inr hp)).resolve_left (hnew p hp)⟩
    · intro ⟨hnot, hreached⟩
      exact (hmem.mpr (Or.inr hreached)).resolve_left hnot
  · rw [hfound.loop]
    simp only [← hlimit, Int.natCast_inj]
    simp [Overruns]

def sample : RouteTable Nat where
  naming := ⟨fun _ => none, fun _ _ => false, false⟩
  entry _ := ⟨⟨[0x61], true⟩, some 0, .default, fun h => nomatch h⟩
  routeTable := [0]

/-- With a bound of -1 no chain is short enough, but the route to a link is still found. -/
theorem sample_not_follows : ¬∃ fuel count m,
    sample.getMatching (-1) ⟨[0x61], true⟩ none [] fuel = .ok (count, m) ∧
      sample.Follows (-1) ⟨[0x61], true⟩ none [] count m := by
  intro ⟨fuel, count, m, heq, hfollows⟩
  obtain ⟨new, hvec, -, -, hnew⟩ := hfollows.appended
  cases fuel with
  | zero => cases heq
  | succ fuel =>
      have hrun : sample.getMatching (-1) ⟨[0x61], true⟩ none [] (fuel + 1) = .ok (1, ⟨[0], false⟩) := rfl
      rw [hrun] at heq
      cases heq
      rw [List.nil_append] at hvec
      obtain ⟨-, chain, -, -, hlen, -⟩ := (hnew 0).mp (hvec ▸ List.mem_singleton_self 0)
      omega

end RouteTable

end Dtn2
