import Dtn2.Bpq.Deliver

/-!
# Answers that come in fragments

Bundles get into an entry by its key alone. A run in which each fragment agrees with its entry, and
none completes an answer that a registration is waiting for, comes through; no other run does.
-/

namespace Dtn2

open Framework

namespace BPQCacheEntry

/-- The fragments of the entry cover an answer of its length, and none of them reaches beyond it. -/
def Spans (entry : BPQCacheEntry) : Prop :=
  CoversAll entry.fragments entry.totalLen ∧
    ∀ c ∈ entry.fragments, c.fragOffset.toNat + c.payload.length ≤ entry.totalLen

/-- The answer is there, whole or in fragments. -/
def Holds (entry : BPQCacheEntry) : Prop :=
  (∃ c ∈ entry.fragments, c.isFragment = false) ∨ entry.Spans

/-- The fragments that the scan gets to have the length of the answer. -/
def Agrees (entry : BPQCacheEntry) : Prop :=
  ∀ c ∈ scanned entry.fragments 0, c.origLength.toNat = entry.totalLen

inductive Kept (entry : BPQCacheEntry) : Prop
  | whole (c : Bundle) (list : entry.fragments = [c]) (notFragment : c.isFragment = false)
  | parts (wellformed : BundleList.Wellformed entry.fragments)
      (pieces : ∀ c ∈ entry.fragments, c.isFragment = true) (agrees : entry.Agrees)

variable {entry : BPQCacheEntry} {b : Bundle}

theorem isComplete_of_agrees (hwf : BundleList.Wellformed entry.fragments)
    (hpieces : ∀ c ∈ entry.fragments, c.isFragment = true) (h : entry.Agrees) :
    ∃ complete, entry.isComplete = .ok complete ∧ (complete = true ↔ entry.Spans) := by
  refine ⟨_, (isCompleteLoop_eq_checkLoop _ hpieces 0).trans
    (FragmentState.checkLoop_of_scanned hpieces h), ?_⟩
  rw [decide_eq_true_eq]
  constructor
  · intro hreached
    have hbound := Coverage.le_of_highWater hreached
    exact ⟨(Coverage.highWater_eq_iff hwf.sorted hbound).mp hreached, hbound⟩
  · intro hspans
    exact (Coverage.highWater_eq_iff hwf.sorted hspans.2).mpr hspans.1

theorem isComplete_of_not_agrees (hpieces : ∀ c ∈ entry.fragments, c.isFragment = true)
    (h : ¬entry.Agrees) : entry.isComplete = .error (.fault .panic) := by
  cases hcomplete : entry.isComplete with
  | error s => rw [isCompleteLoop_stops hcomplete]
  | ok complete =>
      have hscan : FragmentState.checkLoop entry.totalLen entry.fragments 0 = .ok complete :=
        (isCompleteLoop_eq_checkLoop _ hpieces 0).symm.trans hcomplete
      exact absurd ((FragmentState.checkLoop_ok_iff hpieces 0).mp ⟨complete, hscan⟩) h

theorem Kept.isComplete (h : entry.Kept) :
    ∃ complete, entry.isComplete = .ok complete ∧ (complete = true ↔ entry.Holds) := by
  cases h with
  | whole c hlist hc =>
      have hmem : c ∈ entry.fragments := by
        rw [hlist]
        exact List.mem_singleton_self c
      refine ⟨true, ?_, iff_of_true rfl (.inl ⟨c, hmem, hc⟩)⟩
      rw [BPQCacheEntry.isComplete, hlist, isCompleteLoop, if_pos hc]
      rfl
  | parts hwf hpieces hagrees =>
      obtain ⟨complete, hok, hspans⟩ := isComplete_of_agrees hwf hpieces hagrees
      refine ⟨complete, hok, hspans.trans ⟨.inr, ?_⟩⟩
      intro hholds
      apply hholds.resolve_left
      intro hwhole
      obtain ⟨c, hc, hfalse⟩ := hwhole
      rw [hpieces c hc] at hfalse
      cases hfalse

theorem Kept.parts_of_not_holds (h : entry.Kept) (hholds : ¬entry.Holds) :
    BundleList.Wellformed entry.fragments ∧ ∀ c ∈ entry.fragments, c.isFragment = true := by
  cases h with
  | whole c hlist hc =>
      refine absurd (.inl ⟨c, ?_, hc⟩) hholds
      rw [hlist]
      exact List.mem_singleton_self c
  | parts hwf hpieces hagrees => exact ⟨hwf, hpieces⟩

theorem withResponse_pieces (hpieces : ∀ c ∈ entry.fragments, c.isFragment = true)
    (hb : b.isFragment = true) : ∀ c ∈ (entry.withResponse b).fragments, c.isFragment = true := by
  intro c hc
  rcases BundleList.mem_insertSorted hc with rfl | hc
  · exact hb
  · exact hpieces c hc

theorem Kept.added (h : entry.Kept) (hholds : ¬entry.Holds) (hb : b.isFragment = true) :
    BundleList.Wellformed (entry.withResponse b).fragments ∧
      ∀ c ∈ (entry.withResponse b).fragments, c.isFragment = true := by
  obtain ⟨hwf, hpieces⟩ := h.parts_of_not_holds hholds
  exact ⟨hwf.insertSorted b, withResponse_pieces hpieces hb⟩

theorem Kept.not_holds (h : entry.Kept) (hcomplete : entry.isComplete = .ok false) :
    ¬entry.Holds := by
  intro hholds
  obtain ⟨complete, hok, hiff⟩ := h.isComplete
  rw [hcomplete] at hok
  obtain rfl := Except.ok.inj hok
  cases hiff.mpr hholds

theorem Kept.first (b : Bundle) (ts : BundleTimestamp) (source : EndpointID) :
    (withResponse ⟨b.origLength.toNat, ts, source, []⟩ b).Kept := by
  have hnil : BundleList.Wellformed [] := ⟨List.Pairwise.nil, List.nodup_nil⟩
  have hlist : (withResponse ⟨b.origLength.toNat, ts, source, []⟩ b).fragments =
      if b.freed then [] else [b] := by
    simp [withResponse, BundleList.insertSorted, Coverage.insertSorted]
  cases hb : b.isFragment with
  | true =>
      refine .parts (hnil.insertSorted b) (withResponse_pieces ?_ hb) ?_
      · exact fun c hc => absurd hc List.not_mem_nil
      · intro c hc
        obtain rfl | hnone := BundleList.mem_insertSorted (scanned_subset hc)
        · rfl
        · cases hnone
  | false =>
      cases hfreed : b.freed with
      | true =>
          rw [hfreed, if_pos rfl] at hlist
          apply Kept.parts
          · rw [hlist]
            exact hnil
          · rw [hlist]
            exact fun c hc => absurd hc List.not_mem_nil
          · rw [Agrees, hlist]
            exact fun c hc => absurd hc List.not_mem_nil
      | false =>
          rw [hfreed, if_neg Bool.false_ne_true] at hlist
          exact .whole b hlist hb

theorem filled_of_spans (hholds : ¬entry.Holds) (hspans : (entry.withResponse b).Spans) :
    ∃ c ∈ (entry.withResponse b).fragments, 0 < c.fragOffset.toNat + c.payload.length := by
  by_cases hzero : entry.totalLen = 0
  · exfalso
    apply hholds
    refine .inr ⟨?_, fun c hc => hspans.2 c (mem_withResponse hc)⟩
    intro x hx
    omega
  · obtain ⟨c, hc, hin⟩ := hspans.1 0 (Nat.pos_of_ne_zero hzero)
    simp only [Coverage.extent, Set.mem_Ico] at hin
    exact ⟨c, hc, by omega⟩

end BPQCacheEntry

namespace BPQCache

open BPQCacheEntry

variable {c : BPQCache} {b : Bundle} {response : Response} {key : Bytes}

def KeptAll (c : BPQCache) : Prop := ∀ p ∈ c.table, p.2.Kept

/-- Every entry is kept, or the process ended on an empty key list. -/
def Sound {α : Type} (cache : α → BPQCache) : Exec α → Prop
  | .ok a => KeptAll (cache a)
  | .error s => s = .fault .outOfBounds

theorem Sound.bind {α β : Type} {cache : α → BPQCache} {cache' : β → BPQCache} {x : Exec α}
    {f : α → Exec β} (hx : Sound cache x) (hf : ∀ a, KeptAll (cache a) → Sound cache' (f a)) :
    Sound cache' (x >>= f) := by
  cases x with
  | ok a => exact hf a hx
  | error s => exact hx

theorem KeptAll.removeCacheEntry (h : c.KeptAll) (entry : BPQCacheEntry) (key : Bytes) :
    (c.removeCacheEntry entry key).KeptAll :=
  fun p hp => h p (List.mem_of_mem_filter hp)

theorem KeptAll.setEntry (h : c.KeptAll) {entry : BPQCacheEntry} (hentry : entry.Kept)
    (key : Bytes) : (c.setEntry key entry).KeptAll := by
  intro p hp
  rcases List.mem_cons.mp hp with rfl | hp
  · exact hentry
  · exact h p (List.mem_of_mem_filter hp)

theorem KeptAll.updateEntry (h : c.KeptAll) {entry : BPQCacheEntry} (hentry : entry.Kept)
    (key : Bytes) : (c.updateEntry key entry).KeptAll := by
  intro p hp
  obtain ⟨q, hq, rfl⟩ := List.mem_map.mp hp
  split
  · exact hentry
  · exact h q hq

theorem KeptAll.evictLoop (h : c.KeptAll) (key : Bytes) (fuel : Nat) :
    Sound id (evictLoop key fuel c) := by
  induction fuel generalizing c with
  | zero => exact h
  | succ fuel ih =>
      rw [BPQCache.evictLoop]
      split
      · exact h
      · split
        · rfl
        · rename_i lru _
          split
          · exact h
          · have hpop : ∀ c' : BPQCache, c'.KeptAll →
                Sound id (if c'.lruKeys = [] then .error (.fault .outOfBounds)
                  else BPQCache.evictLoop key fuel { c' with lruKeys := c'.lruKeys.dropLast }) := by
              intro c' hc'
              split
              · rfl
              · exact ih hc'
            cases hfind : c.find lru with
            | none => exact hpop c h
            | some entry => exact hpop _ (h.removeCacheEntry entry lru)

theorem KeptAll.updateLruKeys (h : c.KeptAll) (key : Bytes) : Sound id (c.updateLruKeys key) := by
  have hused : KeptAll { c with lruKeys := key :: c.lruKeys.filter fun k => decide (k ≠ key) } := h
  exact hused.evictLoop key _

theorem KeptAll.use (h : c.KeptAll) {entry : BPQCacheEntry} (hentry : entry.Kept) (key : Bytes)
    (n : Nat) : Sound id ({ c.setEntry key entry with cacheSize := n }.updateLruKeys key) := by
  have hset : KeptAll { c.setEntry key entry with cacheSize := n } := h.setEntry hentry key
  exact hset.updateLruKeys key

theorem KeptAll.createCacheEntry (h : c.KeptAll) (b : Bundle) (response : Response) :
    Sound Prod.fst (c.createCacheEntry b response) := by
  rw [BPQCache.createCacheEntry]
  split
  · exact h
  · have hentry := Kept.first b response.creationTs response.source
    obtain ⟨complete, hok, -⟩ := hentry.isComplete
    rw [addResponse_eq, hok, Except.map, Exec.ok_bind]
    exact (h.use hentry response.key _).bind fun c hc => hc

theorem KeptAll.replaceCacheEntry (h : c.KeptAll) (entry : BPQCacheEntry) (hb : b.isFragment = false)
    (response : Response) : Sound Prod.fst (c.replaceCacheEntry entry b response) := by
  rw [BPQCache.replaceCacheEntry, Exec.assert_bind hb]
  exact (h.removeCacheEntry entry response.key).createCacheEntry b response

/-! ## Calls -/

/-- A call of `add_response_bundle`. -/
structure Arrival where
  daemon : Daemon
  bundle : Bundle
  response : Response

def Arrival.run (x : Arrival) (c : BPQCache) : Exec (BPQCache × Bool × List Bundle) :=
  c.addAndDeliver x.daemon x.bundle x.response

def Completes (c : BPQCache) (x : Arrival) (entry : BPQCacheEntry) : Prop :=
  ∃ old, c.find x.response.key = some old ∧ old.isComplete = .ok false ∧
    x.bundle.isFragment = true ∧ x.bundle.payload.length ≤ c.maxCacheSize ∧
    old.addResponse x.bundle = .ok (entry, true)

def PartsOf (payload : Bytes) (entry : BPQCacheEntry) : Prop :=
  payload.length = entry.totalLen ∧ ∀ d ∈ entry.fragments,
    d.payload.data = (payload.drop d.fragOffset.toNat).take d.payload.length

structure Intact (entry : BPQCacheEntry) (fragment posted : Bundle) : Prop where
  notFragment : posted.isFragment = false
  metadata : posted = { fragment.copyMetadata posted with isFragment := false }
  payload : ∀ payload, PartsOf payload entry → posted.payload.data = payload

/-- What a call should do: it stops neither at the `PANIC` of `is_complete` nor at an assertion, and
an answer that it completes is posted for each bundle that a registration matches. -/
structure Delivers (c : BPQCache) (x : Arrival) : Prop where
  noAbort : x.run c ≠ .error (.fault .panic) ∧ x.run c ≠ .error (.fault .assertion)
  posts : ∀ entry, Completes c x entry → (∃ d ∈ entry.fragments, x.daemon.getMatching d.dest ≠ []) →
    ∃ c' posted, x.run c = .ok (c', true, posted) ∧
      List.Forall₂ (Intact entry)
        (entry.fragments.filter fun d => decide (x.daemon.getMatching d.dest ≠ [])) posted

/-- A fragment that is added to an entry agrees with it, and does not complete an answer that a
registration is waiting for. -/
def Harmless (c : BPQCache) (x : Arrival) : Prop :=
  ∀ entry, c.find x.response.key = some entry → ¬entry.Holds → x.bundle.isFragment = true →
    x.bundle.payload.length ≤ c.maxCacheSize →
    (entry.withResponse x.bundle).Agrees ∧
      ((entry.withResponse x.bundle).Spans →
        ∀ d ∈ (entry.withResponse x.bundle).fragments, x.daemon.getMatching d.dest = [])

theorem addAndDeliver_append {daemon : Daemon} {entry : BPQCacheEntry}
    (hfind : c.find response.key = some entry) (hcomplete : entry.isComplete = .ok false)
    (hb : b.isFragment = true) (hfits : b.payload.length ≤ c.maxCacheSize) :
    c.addAndDeliver daemon b response = (do
      let complete ← (entry.withResponse b).isComplete
      let c ← updateLruKeys { c.setEntry response.key (entry.withResponse b) with
        cacheSize := (c.cacheSize + b.payload.length) % sizeMod } response.key
      if complete then do
        let (posted, entry) ← tryToDeliver daemon (entry.withResponse b)
        pure (c.updateEntry response.key entry, true, posted)
      else pure (c, true, [])) := by
  rw [addAndDeliver, hfind]
  dsimp only
  rw [hcomplete, Exec.ok_bind, hb, appendCacheEntry, Exec.assert_bind hb,
    if_neg (Nat.not_lt.mpr hfits), addResponse_eq]
  cases (entry.withResponse b).isComplete with
  | error s => rfl
  | ok complete =>
      simp only [Except.map, Exec.ok_bind]
      generalize updateLruKeys _ response.key = used
      cases used with
      | error s => rfl
      | ok c' => rfl

theorem KeptAll.run (h : c.KeptAll) {x : Arrival} (hx : Harmless c x) : Sound Prod.fst (x.run c) := by
  rw [Arrival.run]
  cases hfind : c.find x.response.key with
  | none =>
      rw [addAndDeliver, hfind]
      exact (h.createCacheEntry x.bundle x.response).bind fun p hp => hp
  | some entry =>
      have hentry : entry.Kept := h _ (mem_of_find hfind)
      obtain ⟨complete, hcomplete, -⟩ := hentry.isComplete
      cases complete with
      | true =>
          rw [addAndDeliver, hfind]
          dsimp only
          rw [hcomplete, Exec.ok_bind]
          cases hb : x.bundle.isFragment with
          | true => exact h
          | false =>
              simp only [Bool.not_false, Bool.and_true, if_true]
              split
              · exact (h.replaceCacheEntry entry hb x.response).bind fun p hp => hp
              · exact h
      | false =>
          have hmissing := hentry.not_holds hcomplete
          cases hb : x.bundle.isFragment with
          | false =>
              rw [addAndDeliver, hfind]
              dsimp only
              rw [hcomplete, Exec.ok_bind, hb]
              exact (h.replaceCacheEntry entry hb x.response).bind fun p hp => hp
          | true =>
              by_cases hfits : x.bundle.payload.length ≤ c.maxCacheSize
              · obtain ⟨hagrees, hsilent⟩ := hx entry hfind hmissing hb hfits
                obtain ⟨hwf, hpieces⟩ := hentry.added hmissing hb
                obtain ⟨complete, hok, hspans⟩ := isComplete_of_agrees hwf hpieces hagrees
                have hkept : (entry.withResponse x.bundle).Kept := .parts hwf hpieces hagrees
                rw [addAndDeliver_append hfind hcomplete hb hfits, hok, Exec.ok_bind]
                refine (h.use hkept x.response.key _).bind ?_
                intro c' hc'
                cases complete with
                | false => exact hc'
                | true =>
                    rw [if_pos rfl, tryToDeliver, hok, Exec.ok_bind, if_pos rfl,
                      deliverLoop_unmatched (hsilent (hspans.mp rfl)), Exec.ok_bind]
                    exact hc'.updateEntry hkept x.response.key
              · rw [addAndDeliver, hfind]
                dsimp only
                rw [hcomplete, Exec.ok_bind, hb, appendCacheEntry, Exec.assert_bind hb,
                  if_pos (Nat.lt_of_not_le hfits)]
                exact h

theorem Completes.withResponse {x : Arrival} {entry : BPQCacheEntry} (h : Completes c x entry) :
    ∃ old, c.find x.response.key = some old ∧ old.isComplete = .ok false ∧
      x.bundle.isFragment = true ∧ x.bundle.payload.length ≤ c.maxCacheSize ∧
      entry = old.withResponse x.bundle ∧ entry.isComplete = .ok true := by
  obtain ⟨old, hfind, hmissing, hb, hfits, hadd⟩ := h
  rw [addResponse_eq] at hadd
  cases hcomplete : (old.withResponse x.bundle).isComplete with
  | error s =>
      rw [hcomplete] at hadd
      cases hadd
  | ok complete =>
      rw [hcomplete] at hadd
      have hpair := Prod.mk.inj (Except.ok.inj hadd)
      refine ⟨old, hfind, hmissing, hb, hfits, hpair.1.symm, ?_⟩
      rw [← hpair.1, hcomplete, hpair.2]

theorem delivers_iff (h : c.KeptAll) (x : Arrival) : Delivers c x ↔ Harmless c x := by
  constructor
  · intro hdelivers entry hfind hmissing hb hfits
    have hentry : entry.Kept := h _ (mem_of_find hfind)
    obtain ⟨complete, hcomplete, hholds⟩ := hentry.isComplete
    have hfalse : complete = false := Bool.eq_false_iff.mpr fun htrue => hmissing (hholds.mp htrue)
    rw [hfalse] at hcomplete
    obtain ⟨hwf, hpieces⟩ := hentry.added hmissing hb
    have hrun : x.run c = _ := addAndDeliver_append hfind hcomplete hb hfits
    have hagrees : (entry.withResponse x.bundle).Agrees := by
      by_contra hnot
      apply hdelivers.noAbort.1
      rw [hrun, isComplete_of_not_agrees hpieces hnot]
      rfl
    refine ⟨hagrees, ?_⟩
    intro hspans d hd
    obtain ⟨complete, hok, hcovers⟩ := isComplete_of_agrees hwf hpieces hagrees
    obtain rfl := hcovers.mpr hspans
    by_contra hmatch
    have hcompletes : Completes c x (entry.withResponse x.bundle) := by
      refine ⟨entry, hfind, hcomplete, hb, hfits, ?_⟩
      rw [addResponse_eq, hok]
      rfl
    obtain ⟨c', posted, hposted, -⟩ := hdelivers.posts _ hcompletes ⟨d, hd, hmatch⟩
    rw [hrun, hok, Exec.ok_bind] at hposted
    obtain ⟨used, -, hdeliver⟩ := Exec.bind_eq_ok.mp hposted
    rw [if_pos rfl] at hdeliver
    obtain ⟨delivered, htry, -⟩ := Exec.bind_eq_ok.mp hdeliver
    rw [tryToDeliver, hok, Exec.ok_bind, if_pos rfl] at htry
    exact deliverLoop_matched hwf.nodup (fun c hc => hc) (filled_of_spans hmissing hspans)
      ⟨d, hd, hmatch⟩ _ htry
  · intro hharmless
    have hsound := h.run hharmless
    constructor
    · constructor
      · intro hstop
        rw [hstop] at hsound
        cases hsound
      · intro hstop
        rw [hstop] at hsound
        cases hsound
    · intro entry hcompletes hmatched
      obtain ⟨old, hfind, hmissing, hb, hfits, rfl, hcomplete⟩ := hcompletes.withResponse
      have hold : old.Kept := h _ (mem_of_find hfind)
      have hholds := hold.not_holds hmissing
      obtain ⟨hagrees, hsilent⟩ := hharmless old hfind hholds hb hfits
      obtain ⟨hwf, hpieces⟩ := hold.added hholds hb
      obtain ⟨complete, hok, hspans⟩ := isComplete_of_agrees hwf hpieces hagrees
      rw [hcomplete] at hok
      obtain ⟨d, hd, hmatch⟩ := hmatched
      exact absurd (hsilent (hspans.mp (Except.ok.inj hok).symm) d hd) hmatch

/-! ## Runs -/

def DeliversAll (c : BPQCache) : List Arrival → Prop
  | [] => True
  | x :: arrivals => Delivers c x ∧ ∀ p, x.run c = .ok p → p.1.DeliversAll arrivals

def HarmlessAll (c : BPQCache) : List Arrival → Prop
  | [] => True
  | x :: arrivals => Harmless c x ∧ ∀ p, x.run c = .ok p → p.1.HarmlessAll arrivals

theorem KeptAll.deliversAll_iff (h : c.KeptAll) (arrivals : List Arrival) :
    c.DeliversAll arrivals ↔ c.HarmlessAll arrivals := by
  induction arrivals generalizing c with
  | nil => exact Iff.rfl
  | cons x arrivals ih =>
      rw [DeliversAll, HarmlessAll, delivers_iff h x]
      apply and_congr_right
      intro hharmless
      have hsound := h.run hharmless
      apply forall_congr'
      intro p
      apply imp_congr_right
      intro hp
      rw [hp] at hsound
      exact ih hsound

theorem empty_keptAll (maxCacheSize : Nat) : (empty maxCacheSize).KeptAll :=
  fun _ hp => absurd hp List.not_mem_nil

/-- The cache comes through a run, and every answer that is completed for a registration is
delivered as it was sent, exactly if every fragment agrees with its entry when it is added, and none
of them completes an answer that a registration is waiting for. -/
theorem deliversAll_iff_harmless (maxCacheSize : Nat) (arrivals : List Arrival) :
    (empty maxCacheSize).DeliversAll arrivals ↔ (empty maxCacheSize).HarmlessAll arrivals :=
  (empty_keptAll maxCacheSize).deliversAll_iff arrivals

def sampleDaemon (reglist : List EndpointID) : Daemon where
  naming := ⟨fun _ => some fun pattern eid => decide (pattern.uri = eid.uri), fun _ _ => false, false⟩
  reglist := reglist
  nextId := 10
  now := 0

def sampleArrival (reglist : List EndpointID) (id : Nat) (offset origLength : UInt32) (data : Bytes) :
    Arrival where
  daemon := sampleDaemon reglist
  bundle := { samplePart id false offset data with
    dest := ⟨ascii ['d', 't', 'n', ':', 'a'], true⟩
    origLength := origLength }
  response := ⟨[0], ⟨0, 0⟩, .default⟩

/-- Two fragments of answers of different lengths stop the process, and so do two that complete an
answer for a registration. -/
theorem not_deliversAll :
    ¬(empty 1024).DeliversAll [sampleArrival [] 1 0 3 [1], sampleArrival [] 2 1 4 [2]] ∧
    ¬(empty 1024).DeliversAll
      [sampleArrival [⟨ascii ['d', 't', 'n', ':', 'a'], true⟩] 1 0 3 [1, 2],
        sampleArrival [⟨ascii ['d', 't', 'n', ':', 'a'], true⟩] 2 2 3 [3]] := by
  constructor
  · intro h
    have hfirst : (sampleArrival [] 1 0 3 [1]).run (empty 1024) = .ok
        (⟨[([0], sampleEntry 3 [(sampleArrival [] 1 0 3 [1]).bundle])], [[0]], 1, 1024⟩, true, []) := by
      decide +kernel
    apply (h.2 _ hfirst).1.noAbort.1
    decide +kernel
  · intro h
    have hfirst : (sampleArrival [⟨ascii ['d', 't', 'n', ':', 'a'], true⟩] 1 0 3 [1, 2]).run
        (empty 1024) = .ok (⟨[([0], sampleEntry 3
          [(sampleArrival [] 1 0 3 [1, 2]).bundle])], [[0]], 2, 1024⟩, true, []) := by
      decide +kernel
    apply (h.2 _ hfirst).1.noAbort.2
    decide +kernel

end BPQCache

end Dtn2
