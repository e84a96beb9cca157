import Dtn2.Bpq.CacheRuns
import Dtn2.Fragmentation.Reassembly
import Dtn2.Routing.RouteTable

/-!
# Cached answers for local registrations

When a fragment completes an entry, the answer is put together for each bundle of the entry whose
destination a registration matches. The payload of the new bundle is empty when the fragments are
written to it.
-/

namespace Dtn2

open Framework

namespace BPQCacheEntry

/-- The loop of `reassemble_fragments` over the payloads. -/
def writeFragments : List Bundle → BundlePayload → Exec BundlePayload
  | [], payload => pure payload
  | fragment :: fragments, payload => do
      let payload ← payload.writeFrom fragment.payload 0 fragment.payload.length
        fragment.fragOffset.toNat
      writeFragments fragments payload

/-- The loop of `reassemble_fragments` over the blocks; `has_block` takes the type as a byte. -/
def copyBlocks : List BlockInfo → List BlockInfo → Exec (List BlockInfo)
  | [], recvBlocks => pure recvBlocks
  | block :: blocks, recvBlocks => do
      let type ← block.type
      let found ← FragmentManager.findBlock (type % 2 ^ 8) recvBlocks
      if found = none ∧ type ≠ Processor.primary.blockType ∧ type ≠ Processor.payload.blockType then
        copyBlocks blocks (recvBlocks ++ [block])
      else copyBlocks blocks recvBlocks

/-- `BPQCacheEntry::reassemble_fragments`: the new bundle, and the entry. `copy_metadata` copies to
its argument, so it is the cached bundle that gets the metadata of the new one. -/
def reassembleFragments (entry : BPQCacheEntry) (newBundle metaBundle : Bundle) :
    Exec (Bundle × BPQCacheEntry) := do
  let metaBundle := newBundle.copyMetadata metaBundle
  let entry := { entry with fragments := entry.fragments.map fun b =>
    if b.bundleid = metaBundle.bundleid then metaBundle else b }
  let payload ← writeFragments entry.fragments newBundle.payload
  let blocks ← copyBlocks metaBundle.recvBlocks.blocks newBundle.recvBlocks.blocks
  pure ({ newBundle with
    origLength := metaBundle.origLength
    fragOffset := 0
    payload := payload
    recvBlocks := { newBundle.recvBlocks with blocks := blocks } }, entry)

/-- The entry with a bundle more, as `add_response` leaves it. -/
def withResponse (entry : BPQCacheEntry) (b : Bundle) : BPQCacheEntry :=
  { entry with fragments := BundleList.insertSorted b entry.fragments }

end BPQCacheEntry

namespace BPQCache

/-- What `try_to_deliver` gets from the daemon: the endpoint patterns of the registrations, the id
of the next bundle and the time. -/
structure Daemon where
  naming : RouteTable.Naming
  reglist : List EndpointID
  nextId : Nat
  now : UInt64

def Daemon.getMatching (daemon : Daemon) (demux : EndpointID) : List EndpointID :=
  daemon.reglist.filter fun endpoint => daemon.naming.matches endpoint demux

/-- The loop of `try_to_deliver`: the bundles it posts, and the entry. A bundle is on the list once,
so the metadata that is copied to it is not looked at again. -/
def deliverLoop (daemon : Daemon) :
    List Bundle → Nat → BPQCacheEntry → Exec (List Bundle × BPQCacheEntry)
  | [], _, entry => pure ([], entry)
  | fragment :: fragments, id, entry =>
      if daemon.getMatching fragment.dest = [] then deliverLoop daemon fragments id entry
      else do
        let (newBundle, entry) ← entry.reassembleFragments (Bundle.new id daemon.now) fragment
        let (posted, entry) ← deliverLoop daemon fragments (id + 1) entry
        pure (newBundle :: posted, entry)

def tryToDeliver (daemon : Daemon) (entry : BPQCacheEntry) : Exec (List Bundle × BPQCacheEntry) := do
  let complete ← entry.isComplete
  if complete then deliverLoop daemon entry.fragments daemon.nextId entry else pure ([], entry)

def updateEntry (c : BPQCache) (key : Bytes) (entry : BPQCacheEntry) : BPQCache :=
  { c with table := c.table.map fun p => if p.1 = key then (p.1, entry) else p }

/-- `BPQCache::add_response_bundle` with the delivery at its end: the cache, whether the bundle was
taken, and the bundles that are posted. -/
def addAndDeliver (c : BPQCache) (daemon : Daemon) (b : Bundle) (response : Response) :
    Exec (BPQCache × Bool × List Bundle) :=
  match c.find response.key with
  | none => do
      let (c, taken) ← c.createCacheEntry b response
      pure (c, taken, [])
  | some entry => do
      let complete ← entry.isComplete
      if complete && !b.isFragment then
        if timestampLt entry.creationTs b.creationTs then do
          let (c, taken) ← c.replaceCacheEntry entry b response
          pure (c, taken, [])
        else pure (c, false, [])
      else if complete && b.isFragment then pure (c, false, [])
      else if !b.isFragment then do
        let (c, _) ← c.replaceCacheEntry entry b response
        pure (c, true, [])
      else do
        let (c, complete) ← c.appendCacheEntry entry b response.key
        if complete then do
          let (posted, entry) ← tryToDeliver daemon (entry.withResponse b)
          pure (c.updateEntry response.key entry, true, posted)
        else pure (c, true, [])

end BPQCache

/-! ## The scan of an entry -/

namespace BPQCacheEntry

theorem isCompleteLoop_eq_checkLoop (totalLen : Nat) {l : List Bundle}
    (hl : ∀ c ∈ l, c.isFragment = true) (done : Nat) :
    isCompleteLoop totalLen l done = FragmentState.checkLoop totalLen l done := by
  induction l generalizing done with
  | nil => rfl
  | cons c l ih =>
      have hc := hl c List.mem_cons_self
      have hrest := ih fun d hd => hl d (List.mem_cons_of_mem c hd)
      rw [isCompleteLoop, FragmentState.checkLoop, Exec.assert_bind hc, if_neg (by simp [hc])]
      simp only [hrest]

theorem mem_withResponse {entry : BPQCacheEntry} {b c : Bundle} (h : c ∈ entry.fragments) :
    c ∈ (entry.withResponse b).fragments := by
  rw [withResponse]
  dsimp only
  rw [BundleList.insertSorted]
  split
  · exact h
  · exact (Coverage.mem_insertSorted _ _ _ _).mpr (.inr h)

theorem addResponse_eq (entry : BPQCacheEntry) (b : Bundle) :
    entry.addResponse b = (entry.withResponse b).isComplete.map fun complete =>
      (entry.withResponse b, complete) := by
  change ((entry.withResponse b).isComplete >>= fun complete => _) = _
  cases (entry.withResponse b).isComplete with
  | ok complete => rfl
  | error s => rfl

/-! ## Reassembly into an empty payload -/

theorem writeFragments_inside {l : List Bundle} {payload payload' : BundlePayload}
    (h : writeFragments l payload = .ok payload') :
    ∀ c ∈ l, c.fragOffset.toNat + c.payload.length ≤ payload.length := by
  induction l generalizing payload with
  | nil => exact fun c hc => absurd hc List.not_mem_nil
  | cons d l ih =>
      rw [writeFragments] at h
      obtain ⟨written, hwrite, hrest⟩ := Exec.bind_eq_ok.mp h
      have hinside := BundlePayload.writeFrom_inside hwrite
      have hlength : written.length = payload.length := by
        rw [hinside.2.2]
        apply BundlePayload.length_overwrite
        rw [List.drop_zero, List.length_take]
        omega
      intro c hc
      rcases List.mem_cons.mp hc with rfl | hc
      · exact hinside.2.1
      · rw [← hlength]
        exact ih hrest c hc

theorem reassembleFragments_empty {entry entry' : BPQCacheEntry} {metaBundle made : Bundle} {id : Nat}
    {now : UInt64} (hnodup : (entry.fragments.map Bundle.bundleid).Nodup)
    (hmeta : metaBundle ∈ entry.fragments)
    (h : entry.reassembleFragments (Bundle.new id now) metaBundle = .ok (made, entry')) :
    ∀ c ∈ entry.fragments, c.fragOffset.toNat + c.payload.length = 0 := by
  rw [reassembleFragments] at h
  obtain ⟨payload, hwrite, -⟩ := Exec.bind_eq_ok.mp h
  have hinside := writeFragments_inside hwrite
  intro c hc
  apply Nat.le_zero.mp
  by_cases hid : c.bundleid = metaBundle.bundleid
  · have hsame : c = metaBundle := List.inj_on_of_nodup_map hnodup hc hmeta hid
    rw [hsame]
    exact hinside ((Bundle.new id now).copyMetadata metaBundle)
      (List.mem_map.mpr ⟨metaBundle, hmeta, if_pos rfl⟩)
  · exact hinside c (List.mem_map.mpr ⟨c, hc, if_neg hid⟩)

end BPQCacheEntry

namespace BPQCache

theorem deliverLoop_unmatched {daemon : Daemon} {l : List Bundle} {id : Nat} {entry : BPQCacheEntry}
    (h : ∀ c ∈ l, daemon.getMatching c.dest = []) :
    deliverLoop daemon l id entry = .ok ([], entry) := by
  induction l with
  | nil => rfl
  | cons c l ih =>
      rw [deliverLoop, if_pos (h c List.mem_cons_self)]
      exact ih fun d hd => h d (List.mem_cons_of_mem c hd)

theorem deliverLoop_matched {daemon : Daemon} {l : List Bundle} {id : Nat} {entry : BPQCacheEntry}
    (hnodup : (entry.fragments.map Bundle.bundleid).Nodup) (hl : ∀ c ∈ l, c ∈ entry.fragments)
    (hfilled : ∃ c ∈ entry.fragments, 0 < c.fragOffset.toNat + c.payload.length)
    (hmatched : ∃ c ∈ l, daemon.getMatching c.dest ≠ [])
    (posted : List Bundle × BPQCacheEntry) : deliverLoop daemon l id entry ≠ .ok posted := by
  induction l with
  | nil =>
      obtain ⟨c, hc, -⟩ := hmatched
      cases hc
  | cons d l ih =>
      rw [deliverLoop]
      by_cases hd : daemon.getMatching d.dest = []
      · rw [if_pos hd]
        apply ih fun c hc => hl c (List.mem_cons_of_mem d hc)
        obtain ⟨c, hc, hmatch⟩ := hmatched
        rcases List.mem_cons.mp hc with rfl | hc
        · exact absurd hd hmatch
        · exact ⟨c, hc, hmatch⟩
      · rw [if_neg hd]
        intro hok
        obtain ⟨made, hmade, -⟩ := Exec.bind_eq_ok.mp hok
        have hempty := BPQCacheEntry.reassembleFragments_empty hnodup (hl d List.mem_cons_self) hmade
        obtain ⟨c, hc, hpos⟩ := hfilled
        have hzero := hempty c hc
        omega

end BPQCache

end Dtn2
