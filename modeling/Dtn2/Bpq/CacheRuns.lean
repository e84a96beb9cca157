import Dtn2.Bpq.Cache
import Mathlib.Data.List.Perm.Basic

/-!
# The cache in every run

As long as nothing has to be evicted, the key list has the keys of the table, no entry is empty and the
counter is the number of payload bytes in the cache.
-/

namespace Dtn2

namespace BPQCacheEntry

def size (entry : BPQCacheEntry) : Nat := (entry.fragments.map fun b => b.payload.length).sum

theorem entrySize_eq {entry : BPQCacheEntry} (h : entry.size < sizeMod) :
    entry.entrySize = entry.size :=
  Nat.mod_eq_of_lt h

theorem size_removeBundle {entry entry' : BPQCacheEntry} {b d : Bundle}
    (h : entry.removeBundle b = (some d, entry')) : entry.size = d.payload.length + entry'.size := by
  rw [removeBundle, Prod.mk.injEq] at h
  obtain ⟨hfind, rfl⟩ := h
  rw [size, size, BundleList.erase]
  generalize entry.fragments = l at hfind ⊢
  induction l with
  | nil => cases hfind
  | cons c l ih =>
      by_cases hid : c.bundleid = b.bundleid
      · rw [List.find?_cons_of_pos (by simpa using hid), Option.some.injEq] at hfind
        subst hfind
        simp [hid]
      · rw [List.find?_cons_of_neg (by simpa using hid)] at hfind
        have hrest := ih hfind
        dsimp only at hrest ⊢
        rw [List.eraseP_cons_of_neg (by simpa using hid), List.map_cons, List.sum_cons, List.map_cons,
          List.sum_cons, hrest]
        omega

theorem isCompleteLoop_stops {totalLen : Nat} {l : List Bundle} {done : Nat} {s : Stop}
    (h : isCompleteLoop totalLen l done = .error s) : s = .fault .panic := by
  induction l generalizing done with
  | nil => cases h
  | cons b l ih =>
      rw [isCompleteLoop] at h
      split at h
      · cases h
      split at h
      · exact (Except.error.inj h).symm
      split at h
      · exact ih h
      split at h
      · cases h
      split at h
      · exact ih h
      · exact ih h

theorem addResponse_stops {entry : BPQCacheEntry} {b : Bundle} {s : Stop}
    (h : entry.addResponse b = .error s) : s = .fault .panic := by
  rw [addResponse] at h
  cases hcomplete : isComplete { entry with fragments := BundleList.insertSorted b entry.fragments } with
  | ok complete =>
      rw [hcomplete] at h
      cases h
  | error s' =>
      rw [hcomplete] at h
      obtain rfl := Except.error.inj h
      exact isCompleteLoop_stops hcomplete

theorem addResponse_fresh {entry entry' : BPQCacheEntry} {b : Bundle} {complete : Bool}
    (hfreed : b.freed = false) (hnew : ∀ d ∈ entry.fragments, d.bundleid ≠ b.bundleid)
    (h : entry.addResponse b = .ok (entry', complete)) :
    entry'.fragments ≠ [] ∧ entry'.size = entry.size + b.payload.length := by
  rw [addResponse] at h
  obtain ⟨complete', -, h⟩ := Exec.bind_eq_ok.mp h
  have hentry : { entry with fragments := BundleList.insertSorted b entry.fragments } = entry' :=
    congrArg Prod.fst (Except.ok.inj h)
  have hlist : entry'.fragments =
      Framework.Coverage.insertSorted (fun c => c.fragOffset.toNat) b entry.fragments := by
    rw [← hentry]
    dsimp only
    rw [BundleList.insertSorted, if_neg]
    rintro (hf | ⟨d, hd, hid⟩)
    · rw [hfreed] at hf
      cases hf
    · exact hnew d hd hid
  have hperm := Framework.Coverage.insertSorted_perm (fun c => c.fragOffset.toNat) b entry.fragments
  rw [← hlist] at hperm
  refine ⟨?_, ?_⟩
  · intro hnil
    rw [hnil] at hperm
    exact absurd hperm.length_eq (by simp)
  · rw [size, (hperm.map fun b => b.payload.length).sum_nat, List.map_cons, List.sum_cons, Nat.add_comm]
    rfl

end BPQCacheEntry

namespace BPQCache

def total (table : List (Bytes × BPQCacheEntry)) : Nat := (table.map fun p => p.2.size).sum

/-- What the table, the key list and the counter say about each other. -/
structure Inv (c : BPQCache) : Prop where
  keys : (c.table.map Prod.fst).Nodup
  lru : c.lruKeys.Perm (c.table.map Prod.fst)
  filled : ∀ p ∈ c.table, p.2.fragments ≠ []
  size : c.cacheSize = total c.table
  fits : total c.table < sizeMod
  bounded : c.cacheSize ≤ c.maxCacheSize ∨ ∃ key, c.lruKeys = [key]

/-! ## The table -/

theorem mem_of_find {c : BPQCache} {key : Bytes} {entry : BPQCacheEntry} (h : c.find key = some entry) :
    (key, entry) ∈ c.table := by
  rw [find, Option.map_eq_some_iff] at h
  obtain ⟨p, hp, rfl⟩ := h
  have hkey := List.find?_some hp
  rw [decide_eq_true_eq] at hkey
  rw [← hkey]
  exact List.mem_of_find?_eq_some hp

theorem eraseKey_keys (table : List (Bytes × BPQCacheEntry)) (key : Bytes) :
    (eraseKey table key).map Prod.fst = (table.map Prod.fst).filter fun k => decide (k ≠ key) := by
  rw [eraseKey, List.filter_map]
  rfl

theorem total_eraseKey {table : List (Bytes × BPQCacheEntry)} {key : Bytes} {entry : BPQCacheEntry}
    (hkeys : (table.map Prod.fst).Nodup) (h : (key, entry) ∈ table) :
    total table = entry.size + total (eraseKey table key) := by
  induction table with
  | nil => cases h
  | cons p table ih =>
      rw [List.map_cons, List.nodup_cons] at hkeys
      rcases List.mem_cons.mp h with rfl | hmem
      · have hrest : eraseKey ((key, entry) :: table) key = table := by
          rw [eraseKey, List.filter_cons_of_neg (by simp), List.filter_eq_self]
          intro q hq
          rw [decide_eq_true_eq]
          rintro rfl
          exact hkeys.1 (List.mem_map.mpr ⟨q, hq, rfl⟩)
        rw [hrest]
        rfl
      · have hne : p.1 ≠ key := by
          rintro rfl
          exact hkeys.1 (List.mem_map.mpr ⟨_, hmem, rfl⟩)
        have hrest : eraseKey (p :: table) key = p :: eraseKey table key := by
          rw [eraseKey, List.filter_cons_of_pos (by simpa using hne)]
          rfl
        rw [hrest]
        simp only [total, List.map_cons, List.sum_cons] at ih ⊢
        rw [ih hkeys.2 hmem]
        omega

theorem eraseKey_of_find_none {c : BPQCache} {key : Bytes} (h : c.find key = none) :
    eraseKey c.table key = c.table := by
  rw [find, Option.map_eq_none_iff, List.find?_eq_none] at h
  rw [eraseKey, List.filter_eq_self]
  intro p hp
  simpa using h p hp

theorem eraseKey_idem (table : List (Bytes × BPQCacheEntry)) (key : Bytes) :
    eraseKey (eraseKey table key) key = eraseKey table key := by
  rw [eraseKey, List.filter_eq_self]
  intro p hp
  exact (List.mem_filter.mp hp).2

/-! ## Putting an entry into the table and taking it out -/

namespace Inv

variable {c : BPQCache}

theorem lru_filter (h : Inv c) (key : Bytes) :
    (c.lruKeys.filter fun k => decide (k ≠ key)).Perm ((eraseKey c.table key).map Prod.fst) := by
  rw [eraseKey_keys]
  exact h.lru.filter _

theorem put (h : Inv c) {key : Bytes} {entry : BPQCacheEntry} (hentry : entry.fragments ≠ [])
    (hfits : entry.size + total (eraseKey c.table key) < sizeMod)
    (hroom : entry.size + total (eraseKey c.table key) ≤ c.maxCacheSize ∨ eraseKey c.table key = []) :
    Inv { c with
      table := (key, entry) :: eraseKey c.table key
      lruKeys := key :: c.lruKeys.filter fun k => decide (k ≠ key)
      cacheSize := entry.size + total (eraseKey c.table key) } where
  keys := by
    rw [List.map_cons, List.nodup_cons, eraseKey_keys]
    refine ⟨?_, h.keys.filter _⟩
    intro hmem
    have hne := (List.mem_filter.mp hmem).2
    simp at hne
  lru := (h.lru_filter key).cons key
  filled := by
    intro p hp
    rcases List.mem_cons.mp hp with rfl | hp
    · exact hentry
    · exact h.filled p (List.mem_of_mem_filter hp)
  size := rfl
  fits := hfits
  bounded := by
    rcases hroom with hle | hnil
    · exact Or.inl hle
    · right
      have hperm := h.lru_filter key
      rw [hnil] at hperm
      exact ⟨key, congrArg (List.cons key) hperm.eq_nil⟩

theorem drop (h : Inv c) {key : Bytes} {entry : BPQCacheEntry} (hmem : (key, entry) ∈ c.table) :
    Inv { c with
      table := eraseKey c.table key
      lruKeys := c.lruKeys.filter fun k => decide (k ≠ key)
      cacheSize := total (eraseKey c.table key) } where
  keys := by
    rw [eraseKey_keys]
    exact h.keys.filter _
  lru := h.lru_filter key
  filled := fun p hp => h.filled p (List.mem_of_mem_filter hp)
  size := rfl
  fits := by
    have htotal := total_eraseKey h.keys hmem
    have hlt := h.fits
    dsimp only
    omega
  bounded := by
    left
    have htotal := total_eraseKey h.keys hmem
    have hsize := h.size
    rcases h.bounded with hle | ⟨only, honly⟩
    · dsimp only
      omega
    · -- the only entry is the one that goes
      have hone : c.table.map Prod.fst = [only] := List.perm_singleton.mp (honly ▸ h.lru.symm)
      have hkey : key = only := by
        have hin : key ∈ c.table.map Prod.fst := List.mem_map_of_mem (f := Prod.fst) hmem
        rw [hone] at hin
        exact List.mem_singleton.mp hin
      have hnil : eraseKey c.table key = [] := by
        rw [← List.map_eq_nil_iff (f := Prod.fst), eraseKey_keys, hone, hkey]
        simp
      rw [hnil]
      exact Nat.zero_le _

theorem shrink (h : Inv c) {key : Bytes} {entry entry' : BPQCacheEntry}
    (hmem : (key, entry) ∈ c.table) (hentry : entry'.fragments ≠ []) (hsize : entry'.size ≤ entry.size) :
    Inv { c with
      table := (key, entry') :: eraseKey c.table key
      cacheSize := entry'.size + total (eraseKey c.table key) } := by
  have hkey : key ∈ c.table.map Prod.fst := List.mem_map.mpr ⟨_, hmem, rfl⟩
  have hperm : (c.table.map Prod.fst).Perm (key :: (eraseKey c.table key).map Prod.fst) := by
    have herase := h.keys.erase_eq_filter key
    rw [eraseKey_keys]
    refine (List.perm_cons_erase hkey).trans (List.Perm.cons key ?_)
    rw [herase]
    apply List.Perm.of_eq
    apply List.filter_congr
    intro k _
    rw [Bool.eq_iff_iff, bne_iff_ne, decide_eq_true_eq]
  have htotal := total_eraseKey h.keys hmem
  have hcount := h.size
  have hfits := h.fits
  refine ⟨?_, h.lru.trans hperm, ?_, rfl, ?_, ?_⟩
  · rw [List.map_cons]
    exact hperm.nodup_iff.mp h.keys
  · intro p hp
    rcases List.mem_cons.mp hp with rfl | hp
    · exact hentry
    · exact h.filled p (List.mem_of_mem_filter hp)
  · change entry'.size + total (eraseKey c.table key) < sizeMod
    omega
  · refine h.bounded.imp_left ?_
    intro hle
    dsimp only
    omega

end Inv

theorem updateLruKeys_fits {c : BPQCache} {key : Bytes}
    (h : c.cacheSize ≤ c.maxCacheSize ∨ (c.lruKeys.filter fun k => decide (k ≠ key)) = []) :
    c.updateLruKeys key =
      .ok { c with lruKeys := key :: c.lruKeys.filter fun k => decide (k ≠ key) } := by
  rw [updateLruKeys]
  dsimp only
  rw [evictLoop]
  split
  · rfl
  · rename_i hover
    have hnil := h.resolve_left hover
    rw [hnil]
    simp

/-! ## The calls -/

/-- The entry of the key can take the bundle on top of what it keeps without an eviction. -/
def Room (c : BPQCache) (b : Bundle) (key : Bytes) (kept : Nat) : Prop :=
  c.maxCacheSize < b.payload.length ∨
    b.freed = false ∧ b.payload.length + kept + total (eraseKey c.table key) < sizeMod ∧
    (b.payload.length + kept + total (eraseKey c.table key) ≤ c.maxCacheSize ∨
      eraseKey c.table key = [])

/-- Where a bundle gets into the cache, it is not freed and not in its entry already, and afterwards the
cache is not over its maximum or has no other entry. -/
def Meets (c : BPQCache) : Call → Prop
  | .addResponse b response =>
      match c.find response.key with
      | none => Room c b response.key 0
      | some entry =>
          match entry.isComplete with
          | .error _ => True
          | .ok complete =>
              if b.isFragment then
                complete = true ∨
                  (∀ d ∈ entry.fragments, d.bundleid ≠ b.bundleid) ∧ Room c b response.key entry.size
              else complete = true ∧ timestampLt entry.creationTs b.creationTs = false ∨
                Room c b response.key 0
  | _ => True

/-- The bookkeeping is right, or the process ended in the `PANIC` of `is_complete`. -/
def Settled {α : Type} (cache : α → BPQCache) : Exec α → Prop
  | .ok a => Inv (cache a)
  | .error s => s = .fault .panic

theorem Settled.bind {α β : Type} {cache : α → BPQCache} {cache' : β → BPQCache} {x : Exec α}
    {f : α → Exec β} (hx : Settled cache x) (hf : ∀ a, Inv (cache a) → Settled cache' (f a)) :
    Settled cache' (x >>= f) := by
  cases x with
  | ok a => exact hf a hx
  | error s => exact hx

theorem Inv.updated {c : BPQCache} (h : Inv c) {key : Bytes} {entry : BPQCacheEntry} {n : Nat}
    (hentry : entry.fragments ≠ []) (hn : n % sizeMod = n)
    (hsize : n = entry.size + total (eraseKey c.table key))
    (hroom : n ≤ c.maxCacheSize ∨ eraseKey c.table key = []) (complete : Bool) :
    Settled Prod.fst (do
      let c ← updateLruKeys { c.setEntry key entry with cacheSize := n % sizeMod } key
      pure (c, complete) : Exec (BPQCache × Bool)) := by
  have hlt : n < sizeMod := by
    rw [← hn]
    exact Nat.mod_lt n (by decide)
  have hput : Inv _ := h.put hentry (hsize ▸ hlt) (hsize ▸ hroom)
  have hfits : n ≤ c.maxCacheSize ∨ (c.lruKeys.filter fun k => decide (k ≠ key)) = [] := by
    refine hroom.imp_right ?_
    intro hnil
    have hperm := h.lru_filter key
    rw [hnil] at hperm
    exact hperm.eq_nil
  rw [hn, updateLruKeys_fits hfits, Exec.ok_bind]
  rw [← hsize] at hput
  exact hput

theorem Inv.createCacheEntry {c : BPQCache} (h : Inv c) {b : Bundle} {response : Response}
    (hnone : eraseKey c.table response.key = c.table) (hroom : Room c b response.key 0) :
    Settled Prod.fst (c.createCacheEntry b response) := by
  rw [BPQCache.createCacheEntry]
  split
  · exact h
  rename_i hsmall
  obtain ⟨hfreed, hfits, hroom⟩ := hroom.resolve_left hsmall
  cases hadd : BPQCacheEntry.addResponse
      ⟨b.origLength.toNat, response.creationTs, response.source, []⟩ b with
  | error s => exact BPQCacheEntry.addResponse_stops hadd
  | ok p =>
      obtain ⟨entry, complete⟩ := p
      obtain ⟨hentry, hsize⟩ := BPQCacheEntry.addResponse_fresh hfreed (by simp) hadd
      have hempty : BPQCacheEntry.size
          ⟨b.origLength.toNat, response.creationTs, response.source, []⟩ = 0 := rfl
      rw [hempty, Nat.zero_add] at hsize
      have hentrySize : entry.entrySize = entry.size := BPQCacheEntry.entrySize_eq (by omega)
      have htotal := h.size
      rw [← hnone] at htotal
      rw [Exec.ok_bind]
      dsimp only
      rw [hentrySize]
      apply h.updated hentry
      · exact Nat.mod_eq_of_lt (by change c.cacheSize + entry.size < sizeMod; omega)
      · change c.cacheSize + entry.size = _
        omega
      · refine hroom.imp_left ?_
        intro hle
        change c.cacheSize + entry.size ≤ _
        omega

theorem eraseKey_removeCacheEntry (c : BPQCache) (entry : BPQCacheEntry) (key : Bytes) :
    eraseKey (c.removeCacheEntry entry key).table key = (c.removeCacheEntry entry key).table :=
  eraseKey_idem c.table key

theorem Inv.removeCacheEntry {c : BPQCache} (h : Inv c) {key : Bytes} {entry : BPQCacheEntry}
    (hfind : c.find key = some entry) : Inv (c.removeCacheEntry entry key) := by
  have hmem := mem_of_find hfind
  have htotal := total_eraseKey h.keys hmem
  have hsize := h.size
  have hfits := h.fits
  have hentrySize : entry.entrySize = entry.size := BPQCacheEntry.entrySize_eq (by omega)
  have hsub : sizeSub c.cacheSize entry.entrySize = total (eraseKey c.table key) := by
    rw [hentrySize, sizeSub_of_le (by omega) (by rw [hsize]; exact hfits)]
    omega
  rw [BPQCache.removeCacheEntry, hsub]
  exact h.drop hmem

theorem Inv.replaceCacheEntry {c : BPQCache} (h : Inv c) {b : Bundle} {response : Response}
    {entry : BPQCacheEntry} (hfind : c.find response.key = some entry) (hwhole : b.isFragment = false)
    (hroom : Room c b response.key 0) : Settled Prod.fst (c.replaceCacheEntry entry b response) := by
  rw [BPQCache.replaceCacheEntry, Exec.assert_bind hwhole]
  apply (h.removeCacheEntry hfind).createCacheEntry (eraseKey_removeCacheEntry c entry response.key)
  rw [Room, eraseKey_removeCacheEntry]
  exact hroom

theorem Inv.appendCacheEntry {c : BPQCache} (h : Inv c) {b : Bundle} {key : Bytes}
    {entry : BPQCacheEntry} (hfind : c.find key = some entry) (hfrag : b.isFragment = true)
    (hnew : ∀ d ∈ entry.fragments, d.bundleid ≠ b.bundleid) (hroom : Room c b key entry.size) :
    Settled Prod.fst (c.appendCacheEntry entry b key) := by
  rw [BPQCache.appendCacheEntry, Exec.assert_bind hfrag]
  split
  · exact h
  rename_i hsmall
  obtain ⟨hfreed, hfits, hroom⟩ := hroom.resolve_left hsmall
  cases hadd : entry.addResponse b with
  | error s => exact BPQCacheEntry.addResponse_stops hadd
  | ok p =>
      obtain ⟨entry', complete⟩ := p
      obtain ⟨hentry, hsize⟩ := BPQCacheEntry.addResponse_fresh hfreed hnew hadd
      have htotal := total_eraseKey h.keys (mem_of_find hfind)
      have hcount := h.size
      rw [Exec.ok_bind]
      dsimp only
      apply h.updated hentry
      · exact Nat.mod_eq_of_lt (by omega)
      · omega
      · refine hroom.imp_left ?_
        intro hle
        omega

theorem Inv.addResponseBundle {c : BPQCache} (h : Inv c) {b : Bundle} {response : Response}
    (hmeets : c.Meets (.addResponse b response)) :
    Settled Prod.fst (c.addResponseBundle b response) := by
  rw [BPQCache.addResponseBundle]
  rw [Meets] at hmeets
  cases hfind : c.find response.key with
  | none =>
      rw [hfind] at hmeets
      exact h.createCacheEntry (eraseKey_of_find_none hfind) hmeets
  | some entry =>
      rw [hfind] at hmeets
      dsimp only at hmeets ⊢
      cases hcomplete : entry.isComplete with
      | error s => exact BPQCacheEntry.isCompleteLoop_stops hcomplete
      | ok complete =>
          rw [hcomplete] at hmeets
          dsimp only at hmeets
          rw [Exec.ok_bind]
          cases hfrag : b.isFragment with
          | true =>
              rw [hfrag, if_pos rfl] at hmeets
              cases complete with
              | true => exact h
              | false =>
                  obtain ⟨hnew, hroom⟩ := hmeets.resolve_left Bool.false_ne_true
                  exact (h.appendCacheEntry hfind hfrag hnew hroom).bind fun p hp => hp
          | false =>
              rw [hfrag, if_neg Bool.false_ne_true] at hmeets
              cases complete with
              | true =>
                  simp only [Bool.not_false, Bool.and_true, if_true]
                  split
                  · rename_i hnewer
                    have hroom : Room c b response.key 0 := by
                      refine hmeets.resolve_left ?_
                      rintro ⟨-, holder⟩
                      rw [hnewer] at holder
                      cases holder
                    exact h.replaceCacheEntry hfind hfrag hroom
                  · exact h
              | false =>
                  have hroom : Room c b response.key 0 := by
                    refine hmeets.resolve_left ?_
                    rintro ⟨hfalse, -⟩
                    cases hfalse
                  exact (h.replaceCacheEntry hfind hfrag hroom).bind fun p hp => hp

theorem Inv.checkAndRemove {c : BPQCache} (h : Inv c) (b : Bundle) (key : Bytes) :
    Inv (c.checkAndRemove b key) := by
  rw [BPQCache.checkAndRemove]
  split
  · exact h
  rename_i entry hfind
  split
  · exact h
  rename_i d entry' hremove
  have hmem := mem_of_find hfind
  have htotal := total_eraseKey h.keys hmem
  have hsize := BPQCacheEntry.size_removeBundle hremove
  have hcount := h.size
  have hfits := h.fits
  have hsub : sizeSub c.cacheSize d.payload.length = entry'.size + total (eraseKey c.table key) := by
    rw [sizeSub_of_le (by omega) (by rw [hcount]; exact hfits)]
    omega
  dsimp only
  rw [hsub]
  split
  · rename_i hnil
    have hzero : entry'.size = 0 := by rw [BPQCacheEntry.size, hnil]; rfl
    have hdrop := h.drop hmem
    have htable : eraseKey (c.setEntry key entry').table key = eraseKey c.table key := by
      rw [setEntry, eraseKey, List.filter_cons_of_neg (by simp)]
      exact eraseKey_idem c.table key
    rw [htable, hzero, Nat.zero_add]
    exact hdrop
  · rename_i hfilled
    exact h.shrink hmem hfilled (by omega)

/-! ## Runs -/

theorem inv_empty (maxCacheSize : Nat) : Inv (empty maxCacheSize) where
  keys := List.nodup_nil
  lru := List.Perm.refl _
  filled := by
    intro p hp
    cases hp
  size := rfl
  fits := Nat.two_pow_pos 64
  bounded := Or.inl (Nat.zero_le _)

def RunMeets (c : BPQCache) : List Call → Prop
  | [] => True
  | x :: calls => c.Meets x ∧ ∀ c', c.call x = .ok c' → c'.RunMeets calls

theorem Inv.call {c : BPQCache} (h : Inv c) {x : Call} (hmeets : c.Meets x) :
    Settled id (c.call x) := by
  cases x with
  | addResponse b response => exact (h.addResponseBundle hmeets).bind fun p hp => hp
  | answerQuery key query => exact h
  | checkAndRemove b key => exact h.checkAndRemove b key

theorem Inv.run {c : BPQCache} (h : Inv c) {calls : List Call} (hmeets : c.RunMeets calls) :
    Settled id (c.run calls) := by
  induction calls generalizing c with
  | nil => exact h
  | cons x calls ih =>
      have hstep := h.call hmeets.1
      rw [BPQCache.run]
      cases hcall : c.call x with
      | error s =>
          rw [hcall] at hstep
          exact hstep
      | ok c' =>
          rw [hcall] at hstep
          exact ih hstep (hmeets.2 c' hcall)

/-- As long as nothing has to be evicted, and no bundle is put into the cache that is freed or in its entry
already: the key list has every key of the table once and no other, no entry is empty, the counter is the
number of payload bytes in the table, it is not over the maximum unless there is one entry only, and no key
is taken off an empty list. -/
theorem run_bookkeeping (maxCacheSize : Nat) (calls : List Call)
    (hmeets : (empty maxCacheSize).RunMeets calls) :
    (∀ s, (empty maxCacheSize).run calls = .error s → s ≠ .fault .outOfBounds) ∧
    ∀ c, (empty maxCacheSize).run calls = .ok c →
      c.lruKeys.Nodup ∧ (∀ key, key ∈ c.lruKeys ↔ ∃ entry, (key, entry) ∈ c.table) ∧
      (∀ p ∈ c.table, p.2.fragments ≠ []) ∧
      c.cacheSize = total c.table ∧ total c.table < sizeMod ∧
      (c.cacheSize ≤ c.maxCacheSize ∨ ∃ key, c.lruKeys = [key]) := by
  have hrun := (inv_empty maxCacheSize).run hmeets
  refine ⟨?_, ?_⟩
  · intro s hs
    rw [hs] at hrun
    rw [show s = .fault .panic from hrun]
    decide
  · intro c hc
    rw [hc] at hrun
    have h : Inv c := hrun
    refine ⟨h.lru.nodup_iff.mpr h.keys, ?_, h.filled, h.size, h.fits, h.bounded⟩
    intro key
    rw [h.lru.mem_iff, List.mem_map]
    constructor
    · rintro ⟨p, hp, rfl⟩
      exact ⟨p.2, hp⟩
    · rintro ⟨entry, hp⟩
      exact ⟨_, hp, rfl⟩

/-- A whole answer of one byte, under a key of its own. -/
def sampleCall (id : Nat) : Call :=
  .addResponse { Bundle.new id 0 with payload := ⟨.disk, [0]⟩ } ⟨[UInt8.ofNat id], ⟨0, 0⟩, .default⟩

theorem run_bookkeeping_sample :
    (empty 2).RunMeets [sampleCall 1, sampleCall 2] ∧
    ∃ c, (empty 2).run [sampleCall 1, sampleCall 2] = .ok c ∧ c.lruKeys = [[2], [1]] ∧
      c.cacheSize = total c.table := by
  have hfirst : ∀ c', (empty 2).call (sampleCall 1) = .ok c' →
      c'.Meets (sampleCall 2) ∧ ∀ c'', c'.call (sampleCall 2) = .ok c'' → True := by
    intro c' hc'
    have hc : (empty 2).call (sampleCall 1) = .ok
        ⟨[([1], ⟨0, ⟨0, 0⟩, .default, [{ Bundle.new 1 0 with payload := ⟨.disk, [0]⟩ }]⟩)], [[1]], 1, 2⟩ := by
      decide +kernel
    rw [hc] at hc'
    obtain rfl := Except.ok.inj hc'
    refine ⟨Or.inr ⟨rfl, ?_, Or.inl ?_⟩, fun _ _ => trivial⟩
    · decide +kernel
    · decide +kernel
  have hmeets : (empty 2).RunMeets [sampleCall 1, sampleCall 2] := by
    refine ⟨Or.inr ⟨rfl, ?_, Or.inl ?_⟩, hfirst⟩
    · decide +kernel
    · decide +kernel
  have hrun : (empty 2).run [sampleCall 1, sampleCall 2] = .ok
      ⟨[([2], ⟨0, ⟨0, 0⟩, .default, [{ Bundle.new 2 0 with payload := ⟨.disk, [0]⟩ }]⟩),
        ([1], ⟨0, ⟨0, 0⟩, .default, [{ Bundle.new 1 0 with payload := ⟨.disk, [0]⟩ }]⟩)],
        [[2], [1]], 2, 2⟩ := by
    decide +kernel
  have h := (run_bookkeeping 2 [sampleCall 1, sampleCall 2] hmeets).2 _ hrun
  exact ⟨hmeets, _, hrun, rfl, h.2.2.2.1⟩

/-- The third answer makes the cache evict the first one: `remove_cache_entry` takes its key off the list,
and `pop_back` takes off the key of the second one, which stays in the table. -/
theorem evicted_key :
    ∃ c, (empty 2).run [sampleCall 1, sampleCall 2, sampleCall 3] = .ok c ∧ c.lruKeys = [[3]] ∧
      c.table.map Prod.fst = [[3], [2]] := by
  refine ⟨⟨[([3], ⟨0, ⟨0, 0⟩, .default, [{ Bundle.new 3 0 with payload := ⟨.disk, [0]⟩ }]⟩),
    ([2], ⟨0, ⟨0, 0⟩, .default, [{ Bundle.new 2 0 with payload := ⟨.disk, [0]⟩ }]⟩)], [[3]], 2, 2⟩, ?_⟩
  decide +kernel

end BPQCache

end Dtn2
