import Dtn2.Bpq.FragmentCoverage
import Dtn2.Fragmentation.FragmentState

/-!
# Cached answers

An entry of the BPQ cache has the bundles of one answer, either fragments of it or the whole answer. A
query is answered from the entry with those bundles that its own fragment list does not have.
-/

namespace Dtn2

open Framework

structure BPQCacheEntry where
  totalLen : Nat
  creationTs : BundleTimestamp
  source : EndpointID
  fragments : List Bundle
deriving DecidableEq, Repr

namespace BPQCacheEntry

/-- The scan of `is_complete`, with the running total. -/
def isCompleteLoop (totalLen : Nat) : List Bundle → Nat → Exec Bool
  | [], doneUpTo => pure (decide (doneUpTo = totalLen))
  | fragment :: fragments, doneUpTo =>
      let len := fragment.payload.length
      let offset := fragment.fragOffset.toNat
      if fragment.isFragment = false then pure true
      else if fragment.origLength.toNat ≠ totalLen then .error (.fault .panic)
      else if doneUpTo = offset then isCompleteLoop totalLen fragments (doneUpTo + len)
      else if doneUpTo < offset then pure false
      else if offset + len < doneUpTo then isCompleteLoop totalLen fragments doneUpTo
      else isCompleteLoop totalLen fragments (doneUpTo + (len - (doneUpTo - offset)))

def isComplete (entry : BPQCacheEntry) : Exec Bool := isCompleteLoop entry.totalLen entry.fragments 0

/-- `BPQCacheEntry::add_response`: the entry with the bundle, and whether it is complete. -/
def addResponse (entry : BPQCacheEntry) (b : Bundle) : Exec (BPQCacheEntry × Bool) := do
  let entry := { entry with fragments := BundleList.insertSorted b entry.fragments }
  let complete ← entry.isComplete
  pure (entry, complete)

/-- `BPQCacheEntry::remove_bundle`: the object that was on the list, and the entry without it. -/
def removeBundle (entry : BPQCacheEntry) (b : Bundle) : Option Bundle × BPQCacheEntry :=
  (entry.fragments.find? fun d => decide (d.bundleid = b.bundleid),
    { entry with fragments := (BundleList.erase b entry.fragments).2 })

def entrySize (entry : BPQCacheEntry) : Nat :=
  (entry.fragments.map fun b => b.payload.length).sum % sizeMod

/-- The loop of `answer_query` over the bundles of the entry: whether the query is answered in full, the
bundles that responses are posted for, and the fragment list of the query. -/
def answerLoop (totalLen : Nat) : List Bundle → List BPQFragment → Bool × List Bundle × List BPQFragment
  | [], query => (false, [], query)
  | b :: rest, query =>
      if b.isFragment = false then (true, [b], query)
      else
        let f : BPQFragment := ⟨b.fragOffset.toNat, b.payload.length⟩
        if BPQFragmentList.requiresFragment totalLen f.offset f.stop query then
          let query := BPQFragmentList.insertSorted f query
          if BPQFragmentList.isComplete totalLen query then (true, [b], query)
          else
            let (complete, posted, query) := answerLoop totalLen rest query
            (complete, b :: posted, query)
        else answerLoop totalLen rest query

/-- `BPQCache::answer_query`, with the entry for the key of the query. -/
def answerQuery (entry : BPQCacheEntry) (query : List BPQFragment) :
    Bool × List Bundle × List BPQFragment :=
  answerLoop entry.totalLen entry.fragments query

/-! ## Only a whole bundle answers a query -/

theorem answerLoop_complete (totalLen : Nat) (l : List Bundle) (query : List BPQFragment) :
    (answerLoop totalLen l query).1 = true ↔ ∃ b ∈ l, b.isFragment = false := by
  induction l generalizing query with
  | nil => simp [answerLoop]
  | cons b l ih =>
      rw [answerLoop]
      split
      · rename_i hb
        simp [hb]
      · rename_i hb
        have hrest : (∃ c ∈ b :: l, c.isFragment = false) ↔ ∃ c ∈ l, c.isFragment = false := by
          simp [hb]
        rw [hrest]
        dsimp only
        split
        · rename_i hrequires
          rw [BPQFragmentList.isComplete_insertSorted hrequires, if_neg Bool.false_ne_true]
          exact ih _
        · exact ih _

theorem answerLoop_posted {totalLen : Nat} {l : List Bundle} {query : List BPQFragment}
    (h : (answerLoop totalLen l query).1 = true) :
    ∃ b ∈ (answerLoop totalLen l query).2.1, b ∈ l ∧ b.isFragment = false := by
  induction l generalizing query with
  | nil => cases h
  | cons b l ih =>
      rw [answerLoop] at h ⊢
      split
      · rename_i hb
        exact ⟨b, List.mem_singleton_self b, List.mem_cons_self, hb⟩
      · rename_i hb
        rw [if_neg hb] at h
        dsimp only at h ⊢
        split
        · rename_i hrequires
          rw [if_pos hrequires, BPQFragmentList.isComplete_insertSorted hrequires,
            if_neg Bool.false_ne_true] at h
          rw [BPQFragmentList.isComplete_insertSorted hrequires, if_neg Bool.false_ne_true]
          obtain ⟨c, hc, hcl, hwhole⟩ := ih h
          exact ⟨c, List.mem_cons_of_mem b hc, List.mem_cons_of_mem b hcl, hwhole⟩
        · rename_i hrequires
          rw [if_neg hrequires] at h
          obtain ⟨c, hc, hcl, hwhole⟩ := ih h
          exact ⟨c, hc, List.mem_cons_of_mem b hcl, hwhole⟩

/-! ## Coverage of the payload -/

/-- The bundles of an entry for a payload of `n` bytes: fragments of it, or the whole. -/
def Answers (entry : BPQCacheEntry) (n : Nat) : Prop :=
  ∀ b ∈ entry.fragments,
    (b.isFragment = true ∧ b.origLength.toNat = n ∧ entry.totalLen = n ∧
      b.fragOffset.toNat + b.payload.length ≤ n) ∨
    (b.isFragment = false ∧ b.fragOffset.toNat = 0 ∧ b.payload.length = n)

/-- Every byte below `n` is in a bundle that has been posted, or in an interval of the list. -/
def Covered (posted : List Bundle) (query : List BPQFragment) (n : Nat) : Prop :=
  ∀ x < n, (∃ b ∈ posted, b.fragOffset.toNat ≤ x ∧ x < b.fragOffset.toNat + b.payload.length) ∨
    ∃ f ∈ query, f.offset ≤ x ∧ x < f.offset + f.length

/-- What a query should get of an entry: a full answer if the entry has the whole payload, and no claim
to a full answer that is not one. -/
def Served (entry : BPQCacheEntry) (query : List BPQFragment) (n : Nat) : Prop :=
  (CoversAll entry.fragments n →
    (entry.answerQuery query).1 = true ∧ Covered (entry.answerQuery query).2.1 query n) ∧
  (¬ CoversAll entry.fragments n →
    (entry.answerQuery query).1 = true → Covered (entry.answerQuery query).2.1 query n)

theorem covered_of_complete {entry : BPQCacheEntry} {n : Nat} (hentry : entry.Answers n)
    {query : List BPQFragment} (h : (entry.answerQuery query).1 = true) :
    Covered (entry.answerQuery query).2.1 query n := by
  obtain ⟨b, hb, hbl, hwhole⟩ := answerLoop_posted h
  intro x hx
  left
  refine ⟨b, hb, ?_⟩
  rcases hentry b hbl with ⟨hfrag, -⟩ | ⟨-, hoffset, hlen⟩
  · rw [hwhole] at hfrag
    cases hfrag
  · omega

/-- A query gets what it should exactly if the entry does not have the whole payload or has it in one
bundle that is not a fragment. -/
theorem served_iff_whole (entry : BPQCacheEntry) (n : Nat) (hentry : entry.Answers n)
    (query : List BPQFragment) :
    entry.Served query n ↔
      (CoversAll entry.fragments n → ∃ b ∈ entry.fragments, b.isFragment = false) := by
  constructor
  · intro h hcovers
    exact (answerLoop_complete _ _ _).mp (h.1 hcovers).1
  · intro h
    refine ⟨?_, fun _ => covered_of_complete hentry⟩
    intro hcovers
    have hcomplete : (entry.answerQuery query).1 = true := (answerLoop_complete _ _ _).mpr (h hcovers)
    exact ⟨hcomplete, covered_of_complete hentry hcomplete⟩

/-- The cached part of a payload of three bytes from `offset` on. -/
def samplePart (id : Nat) (whole : Bool) (offset : UInt32) (data : Bytes) : Bundle :=
  { Bundle.new id 0 with
    isFragment := !whole
    fragOffset := offset
    origLength := if whole then 0 else 3
    payload := ⟨.disk, data⟩ }

def sampleEntry (totalLen : Nat) (fragments : List Bundle) : BPQCacheEntry :=
  ⟨totalLen, ⟨0, 0⟩, .default, fragments⟩

theorem served_iff_whole_sample :
    (sampleEntry 0 [samplePart 1 true 0 [1, 2, 3]]).Served [⟨1, 1⟩] 3 := by
  apply (served_iff_whole _ 3 ?_ [⟨1, 1⟩]).mpr
  · intro _
    exact ⟨samplePart 1 true 0 [1, 2, 3], List.mem_singleton_self _, rfl⟩
  · intro b hb
    obtain rfl := List.mem_singleton.mp hb
    exact Or.inr ⟨rfl, rfl, rfl⟩

/-- The entry has the payload in two fragments, and neither is sent: each of them starts or ends where the
payload does, and the other end is on the border of the gap. -/
theorem unserved_fragments :
    ¬ (sampleEntry 3 [samplePart 1 false 0 [1, 2], samplePart 2 false 2 [3]]).Served [⟨0, 2⟩] 3 := by
  intro h
  have hcovers : CoversAll
      (sampleEntry 3 [samplePart 1 false 0 [1, 2], samplePart 2 false 2 [3]]).fragments 3 := by
    intro x hx
    by_cases hlt : x < 2
    · refine ⟨samplePart 1 false 0 [1, 2], List.mem_cons_self, ?_⟩
      change 0 ≤ x ∧ x < 0 + 2
      omega
    · refine ⟨samplePart 2 false 2 [3], List.mem_cons_of_mem _ List.mem_cons_self, ?_⟩
      change 2 ≤ x ∧ x < 2 + 1
      omega
  have hanswer := (h.1 hcovers).1
  revert hanswer
  decide +kernel

end BPQCacheEntry

/-! ## The BPQ cache

The cache has a table of entries by their keys, the keys in the order of their last use, and the number of
payload bytes in all entries. When that number passes the maximum, entries are evicted from the end of the
key list. -/

/-- `bpq_table_`, `lru_keys_` and `cache_size_`, with the configured `max_cache_size_`. -/
structure BPQCache where
  table : List (Bytes × BPQCacheEntry)
  lruKeys : List Bytes
  cacheSize : Nat
  maxCacheSize : Nat
deriving DecidableEq, Repr

namespace BPQCache

def empty (maxCacheSize : Nat) : BPQCache := ⟨[], [], 0, maxCacheSize⟩

/-- `bpq_table_.find(key)`. -/
def find (c : BPQCache) (key : Bytes) : Option BPQCacheEntry :=
  (c.table.find? fun p => decide (p.1 = key)).map Prod.snd

def eraseKey (table : List (Bytes × BPQCacheEntry)) (key : Bytes) : List (Bytes × BPQCacheEntry) :=
  table.filter fun p => decide (p.1 ≠ key)

/-- `bpq_table_[key] = entry`. -/
def setEntry (c : BPQCache) (key : Bytes) (entry : BPQCacheEntry) : BPQCache :=
  { c with table := (key, entry) :: eraseKey c.table key }

def removeCacheEntry (c : BPQCache) (entry : BPQCacheEntry) (key : Bytes) : BPQCache :=
  { c with
    cacheSize := sizeSub c.cacheSize entry.entrySize
    table := eraseKey c.table key
    lruKeys := c.lruKeys.filter fun k => decide (k ≠ key) }

/-- The eviction loop of `update_lru_keys`. Each round takes a key off the list, twice if it is in the
table: `remove_cache_entry` has it removed already. -/
def evictLoop (key : Bytes) : Nat → BPQCache → Exec BPQCache
  | 0, c => .ok c
  | fuel + 1, c =>
      if c.cacheSize ≤ c.maxCacheSize then .ok c
      else
        match c.lruKeys.getLast? with
        | none => .error (.fault .outOfBounds)
        | some lru =>
            if lru = key then .ok c
            else
              let c :=
                match c.find lru with
                | some entry => c.removeCacheEntry entry lru
                | none => c
              if c.lruKeys = [] then .error (.fault .outOfBounds)
              else evictLoop key fuel { c with lruKeys := c.lruKeys.dropLast }

def updateLruKeys (c : BPQCache) (key : Bytes) : Exec BPQCache :=
  let c := { c with lruKeys := key :: c.lruKeys.filter fun k => decide (k ≠ key) }
  evictLoop key (c.lruKeys.length + 1) c

/-- What `add_response_bundle` uses of a `BPQBlock`, with its hash key. -/
structure Response where
  key : Bytes
  creationTs : BundleTimestamp
  source : EndpointID
deriving DecidableEq, Repr

def createCacheEntry (c : BPQCache) (b : Bundle) (response : Response) : Exec (BPQCache × Bool) :=
  if c.maxCacheSize < b.payload.length then .ok (c, false)
  else do
    let (entry, _) ← BPQCacheEntry.addResponse
      ⟨b.origLength.toNat, response.creationTs, response.source, []⟩ b
    let c := c.setEntry response.key entry
    let c ← { c with cacheSize := (c.cacheSize + entry.entrySize) % sizeMod }.updateLruKeys response.key
    pure (c, true)

def replaceCacheEntry (c : BPQCache) (entry : BPQCacheEntry) (b : Bundle) (response : Response) :
    Exec (BPQCache × Bool) := do
  assertThat (b.isFragment = false)
  (c.removeCacheEntry entry response.key).createCacheEntry b response

def appendCacheEntry (c : BPQCache) (entry : BPQCacheEntry) (b : Bundle) (key : Bytes) :
    Exec (BPQCache × Bool) := do
  assertThat (b.isFragment = true)
  if c.maxCacheSize < b.payload.length then pure (c, false)
  else do
    let (entry, complete) ← entry.addResponse b
    let c := { c.setEntry key entry with cacheSize := (c.cacheSize + b.payload.length) % sizeMod }
    let c ← c.updateLruKeys key
    pure (c, complete)

/-- `BundleTimestamp::operator<`. -/
def timestampLt (a b : BundleTimestamp) : Bool :=
  decide (a.seconds < b.seconds ∨ a.seconds = b.seconds ∧ a.seqno < b.seqno)

def addResponseBundle (c : BPQCache) (b : Bundle) (response : Response) : Exec (BPQCache × Bool) :=
  match c.find response.key with
  | none => c.createCacheEntry b response
  | some entry => do
      let complete ← entry.isComplete
      if complete && !b.isFragment then
        if timestampLt entry.creationTs b.creationTs then c.replaceCacheEntry entry b response
        else pure (c, false)
      else if complete && b.isFragment then pure (c, false)
      else if !b.isFragment then do
        let (c, _) ← c.replaceCacheEntry entry b response
        pure (c, true)
      else do
        let (c, _) ← c.appendCacheEntry entry b response.key
        pure (c, true)

/-- `BPQCache::answer_query`; it leaves the cache as it is. -/
def answerQuery (c : BPQCache) (key : Bytes) (query : List BPQFragment) :
    Bool × List Bundle × List BPQFragment :=
  match c.find key with
  | none => (false, [], query)
  | some entry => entry.answerQuery query

/-- `BPQCache::check_and_remove`, for a bundle with a BPQ block of the given key. -/
def checkAndRemove (c : BPQCache) (b : Bundle) (key : Bytes) : BPQCache :=
  match c.find key with
  | none => c
  | some entry =>
      match entry.removeBundle b with
      | (none, _) => c
      | (some d, entry) =>
          let c := { c.setEntry key entry with cacheSize := sizeSub c.cacheSize d.payload.length }
          if entry.fragments = [] then
            { c with
              table := eraseKey c.table key
              lruKeys := c.lruKeys.filter fun k => decide (k ≠ key) }
          else c

/-- The calls that the daemon makes. -/
inductive Call where
  | addResponse (b : Bundle) (response : Response)
  | answerQuery (key : Bytes) (query : List BPQFragment)
  | checkAndRemove (b : Bundle) (key : Bytes)
deriving DecidableEq, Repr

def call (c : BPQCache) : Call → Exec BPQCache
  | .addResponse b response => do
      let (c, _) ← c.addResponseBundle b response
      pure c
  | .answerQuery _ _ => .ok c
  | .checkAndRemove b key => .ok (c.checkAndRemove b key)

def run (c : BPQCache) : List Call → Exec BPQCache
  | [] => .ok c
  | x :: calls => do
      let c ← c.call x
      c.run calls

end BPQCache

end Dtn2
