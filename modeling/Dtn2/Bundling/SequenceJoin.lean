import Dtn2.Bundling.SequenceOrder
import Mathlib.Order.Bounds.Basic

/-!
# Updates of sequence ids

`update` changes a vector of counters into the least one that covers both. A session keeps what it has
seen in this way, and in whatever order the bundles come, it gets the same.
-/

namespace Dtn2

namespace SequenceID

/-! ## What covers a vector of counters -/

/-- The state is greater or equal. -/
def Up (c : Comp) : Prop := c = .gt ∨ c = .eq

theorem up_of_nextState {cur comp : Comp} (h : Up (nextState cur comp)) : Up cur ∧ Up comp := by
  unfold Up at *
  revert h
  cases cur <;> cases comp <;> decide

theorem up_of_compareLoop {lv rv : SequenceID} {entries : List SequenceEntry} {cur : Comp}
    (h : Up (compareLoop lv rv entries cur)) :
    Up cur ∧ ∀ i ∈ entries, Up (compareEntries (lv.getEntry i.eid) (rv.getEntry i.eid)) := by
  induction entries generalizing cur with
  | nil => exact ⟨h, fun i hi => absurd hi List.not_mem_nil⟩
  | cons i rest ih =>
      rw [compareLoop] at h
      by_cases hstop : nextState cur (compareEntries (lv.getEntry i.eid) (rv.getEntry i.eid)) = .neq
      · rw [if_pos hstop] at h
        exact absurd h (by unfold Up; decide)
      · rw [if_neg hstop] at h
        have hrest := ih h
        have hhead := up_of_nextState hrest.1
        exact ⟨hhead.1, List.forall_mem_cons.mpr ⟨hhead.2, hrest.2⟩⟩

theorem covers_iff_up (v other : SequenceID) : covers v other = true ↔ Up (compare v other) := by
  simp [covers, Up]

theorem metInTime_of_le {u v : SequenceID} (h : ∀ x, v.value x ≤ u.value x) : MetInTime u v :=
  fun _ x _ _ hx => absurd (h x) hx.2

theorem le_of_covers {x v : SequenceID} (hv : v.Counters) (h : covers x v = true) :
    v.value ≤ x.value := by
  rw [covers_iff_up] at h
  have hkeys : ∀ k ∈ x.keys, v.value k ≤ x.value k := by
    intro k hk
    obtain ⟨i, hi, rfl⟩ := List.mem_map.mp hk
    have htells := compareEntries_tells (x.getEntry i.eid) (v.getEntry i.eid)
    have hup : Up (compareEntries (x.getEntry i.eid) (v.getEntry i.eid)) := by
      unfold compare at h
      by_cases hempty : x.isEmpty = true ∧ v.isEmpty = true
      · have hnil := keys_of_isEmpty hempty.1
        rw [hnil] at hk
        exact absurd hk List.not_mem_nil
      · rw [if_neg hempty] at h
        dsimp only at h
        by_cases hneq : compareOneWay v x .eq ≠ .neq
        · rw [if_pos hneq] at h
          exact (up_of_compareLoop h).2 i hi
        · rw [if_neg hneq, not_not.mp hneq] at h
          exact absurd h (by unfold Up; decide)
    exact htells.le_iff.2.mpr hup
  have hmet : MetInTime x v := by
    intro before k behind _ hk
    by_cases hin : k ∈ x.keys
    · exact absurd (hkeys k hin) hk.2
    · obtain ⟨n, hn⟩ := hv.value_eq k
      rw [value_of_not_mem hin, hn] at hk
      unfold Incomparable at hk
      rw [Value.counter_le_counter, Value.counter_le_counter, UInt64.le_iff_toNat_le,
        UInt64.le_iff_toNat_le] at hk
      omega
  exact ((compare_spec x v).2 hmet).le_iff.2.mpr h

theorem covers_iff_le {x v : SequenceID} (hv : v.Counters) :
    covers x v = true ↔ v.value ≤ x.value := by
  constructor
  · exact le_of_covers hv
  · intro h
    rw [covers_iff_up]
    exact ((compare_spec x v).2 (metInTime_of_le h)).le_iff.2.mp h

/-! ## One entry -/

/-- The vector `v'` is `v` with a counter `n` for `key` that was joined to it. -/
structure Joined (v : SequenceID) (key : Bytes) (n : UInt64) (v' : SequenceID) : Prop where
  distinct : v'.Distinct
  counters : v'.Counters
  keys : ∀ x, x ∈ v'.keys ↔ x ∈ v.keys ∨ x = key
  others : ∀ x, x ≠ key → v'.value x = v.value x
  atKey : v'.value key = v.value key ∨ v'.value key = .counter n
  covers : v.value key ≤ v'.value key ∧ .counter n ≤ v'.value key

theorem Value.counter_zero_le (n : UInt64) : Value.counter 0 ≤ .counter n := by
  rw [Value.counter_le_counter, UInt64.le_iff_toNat_le]
  exact Nat.zero_le _

theorem joined_append {v : SequenceID} (hdistinct : v.Distinct) (hcounters : v.Counters)
    {eid : EndpointID} (n : UInt64) (hnew : eid.uri ∉ v.keys) :
    Joined v eid.uri n ⟨v.vector ++ [.counter eid n]⟩ := by
  have hkeys : keys ⟨v.vector ++ [.counter eid n]⟩ = v.keys ++ [eid.uri] := by
    simp [keys, SequenceEntry.eid]
  have hdistinct' : Distinct ⟨v.vector ++ [.counter eid n]⟩ := by
    unfold Distinct
    rw [hkeys, List.nodup_append]
    refine ⟨hdistinct, by simp, ?_⟩
    intro a ha b hb hab
    exact hnew (List.mem_singleton.mp hb ▸ hab ▸ ha)
  have hat : value ⟨v.vector ++ [.counter eid n]⟩ eid.uri = .counter n :=
    value_of_mem hdistinct' (e := .counter eid n) (by simp)
  constructor
  · exact hdistinct'
  · intro e he
    cases List.mem_append.mp he with
    | inl he => exact hcounters e he
    | inr he => exact ⟨eid, n, List.mem_singleton.mp he⟩
  · intro x
    rw [hkeys, List.mem_append, List.mem_singleton]
  · intro x hx
    unfold value
    rw [List.find?_append, List.find?_cons_of_neg, List.find?_nil, Option.or_none]
    rw [decide_eq_true_eq]
    exact fun h => hx h.symm
  · exact Or.inr hat
  · rw [hat, value_of_not_mem hnew]
    exact ⟨Value.counter_zero_le n, le_refl _⟩

theorem joined_set {v : SequenceID} (hdistinct : v.Distinct) (hcounters : v.Counters) {i : Nat}
    {eid : EndpointID} {own n : UInt64} (hi : v.vector[i]? = some (.counter eid own))
    (hlt : own < n) : Joined v eid.uri n ⟨v.vector.set i (.counter eid n)⟩ := by
  obtain ⟨hin, hget⟩ := List.getElem?_eq_some_iff.mp hi
  have hkeys : keys ⟨v.vector.set i (.counter eid n)⟩ = v.keys := by
    have hbound : i < v.keys.length := by
      rw [keys, List.length_map]
      exact hin
    have hsame : v.keys[i] = eid.uri := by
      simp only [keys, List.getElem_map, hget, SequenceEntry.eid]
    change (v.vector.set i (.counter eid n)).map (fun e => e.eid.uri) = v.keys
    rw [List.map_set]
    change v.keys.set i eid.uri = v.keys
    rw [← hsame, List.set_getElem_self]
  have hdistinct' : Distinct ⟨v.vector.set i (.counter eid n)⟩ := by
    unfold Distinct
    rw [hkeys]
    exact hdistinct
  have hmem : SequenceEntry.counter eid own ∈ v.vector := hget ▸ List.getElem_mem hin
  have hold : v.value eid.uri = .counter own := value_of_mem hdistinct hmem
  have hat : value ⟨v.vector.set i (.counter eid n)⟩ eid.uri = .counter n :=
    value_of_mem hdistinct' (e := .counter eid n) (List.mem_set hin _)
  constructor
  · exact hdistinct'
  · intro e he
    cases List.mem_or_eq_of_mem_set he with
    | inl he => exact hcounters e he
    | inr he => exact ⟨eid, n, he⟩
  · intro x
    rw [hkeys]
    constructor
    · exact Or.inl
    · intro h
      cases h with
      | inl h => exact h
      | inr h => exact h ▸ List.mem_map_of_mem (f := fun e => e.eid.uri) hmem
  · intro x hx
    by_cases hkey : x ∈ v.keys
    · rw [← hkeys] at hkey
      obtain ⟨e, he, rfl⟩ := List.mem_map.mp hkey
      cases List.mem_or_eq_of_mem_set he with
      | inl hmem => rw [value_of_mem hdistinct' he, value_of_mem hdistinct hmem]
      | inr hnew =>
          rw [hnew] at hx
          exact absurd rfl hx
    · rw [value_of_not_mem hkey, value_of_not_mem (by rw [hkeys]; exact hkey)]
  · exact Or.inr hat
  · rw [hat, hold, Value.counter_le_counter, UInt64.le_iff_toNat_le]
    exact ⟨Nat.le_of_lt (UInt64.lt_iff_toNat_lt.mp hlt), le_refl _⟩

theorem joined_self {v : SequenceID} (hdistinct : v.Distinct) (hcounters : v.Counters)
    {eid : EndpointID} {own n : UInt64} (hmem : .counter eid own ∈ v.vector) (hle : n ≤ own) :
    Joined v eid.uri n v := by
  have hat : v.value eid.uri = .counter own := value_of_mem hdistinct hmem
  refine ⟨hdistinct, hcounters, ?_, fun x _ => rfl, Or.inl rfl, le_refl _, ?_⟩
  · intro x
    constructor
    · exact Or.inl
    · intro h
      cases h with
      | inl h => exact h
      | inr h => exact h ▸ List.mem_map_of_mem (f := fun e => e.eid.uri) hmem
  · rw [hat]
    exact hle

theorem updateEntry_counter {v : SequenceID} (hcounters : v.Counters) (eid : EndpointID)
    (n : UInt64) :
    (eid.uri ∉ v.keys ∧
      updateEntry v (.counter eid n) = .ok ⟨v.vector ++ [.counter eid n]⟩) ∨
    ∃ i own m, v.vector[i]? = some (.counter own m) ∧ own.uri = eid.uri ∧
      updateEntry v (.counter eid n) =
        if m < n then .ok ⟨v.vector.set i (.counter own n)⟩ else .ok v := by
  unfold updateEntry
  cases hfind : v.vector.findIdx? (fun own => decide ((SequenceEntry.counter eid n).eid.uri =
      own.eid.uri)) with
  | none =>
      refine Or.inl ⟨?_, rfl⟩
      intro hin
      obtain ⟨e, he, heid⟩ := List.mem_map.mp hin
      have hno := List.findIdx?_eq_none_iff.mp hfind e he
      rw [decide_eq_false_iff_not] at hno
      exact hno heid.symm
  | some i =>
      obtain ⟨hin, hsame, -⟩ := List.findIdx?_eq_some_iff_getElem.mp hfind
      rw [decide_eq_true_eq] at hsame
      obtain ⟨own, m, hown⟩ := hcounters v.vector[i] (List.getElem_mem hin)
      have hi : v.vector[i]? = some (.counter own m) := by
        rw [List.getElem?_eq_getElem hin, hown]
      rw [hown] at hsame
      refine Or.inr ⟨i, own, m, hi, hsame.symm, ?_⟩
      simp only [hi]

theorem updateEntry_joined {v : SequenceID} (hdistinct : v.Distinct) (hcounters : v.Counters)
    (eid : EndpointID) (n : UInt64) :
    ∃ v', updateEntry v (.counter eid n) = .ok v' ∧ Joined v eid.uri n v' := by
  cases updateEntry_counter hcounters eid n with
  | inl hnew => exact ⟨_, hnew.2, joined_append hdistinct hcounters n hnew.1⟩
  | inr hfound =>
      obtain ⟨i, own, m, hi, huri, hupdate⟩ := hfound
      rw [hupdate, ← huri]
      by_cases hlt : m < n
      · exact ⟨_, if_pos hlt, joined_set hdistinct hcounters hi hlt⟩
      · refine ⟨_, if_neg hlt, joined_self hdistinct hcounters (List.mem_of_getElem? hi) ?_⟩
        rw [UInt64.lt_iff_toNat_lt] at hlt
        rw [UInt64.le_iff_toNat_le]
        omega

theorem updateEntry_self {v : SequenceID} (hdistinct : v.Distinct) (hcounters : v.Counters)
    {eid : EndpointID} {n : UInt64} (hkey : eid.uri ∈ v.keys)
    (hle : Value.counter n ≤ v.value eid.uri) : updateEntry v (.counter eid n) = .ok v := by
  cases updateEntry_counter hcounters eid n with
  | inl hnew => exact absurd hkey hnew.1
  | inr hfound =>
      obtain ⟨i, own, m, hi, huri, hupdate⟩ := hfound
      have hown : v.value own.uri = .counter m :=
        value_of_mem hdistinct (List.mem_of_getElem? hi)
      rw [← huri, hown, Value.counter_le_counter, UInt64.le_iff_toNat_le] at hle
      rw [hupdate, if_neg]
      rw [UInt64.lt_iff_toNat_lt]
      omega

/-! ## All entries -/

structure Updated (u : SequenceID) (entries : List SequenceEntry) (u' : SequenceID) : Prop where
  distinct : u'.Distinct
  counters : u'.Counters
  keys : ∀ x, x ∈ u.keys → x ∈ u'.keys
  present : ∀ e ∈ entries, e.eid.uri ∈ u'.keys
  above : u.value ≤ u'.value
  covers : ∀ e ∈ entries, valueOf (some e) ≤ u'.value e.eid.uri
  least : ∀ g, u.value ≤ g → (∀ e ∈ entries, valueOf (some e) ≤ g e.eid.uri) → u'.value ≤ g

theorem Joined.le {v v' : SequenceID} {key : Bytes} {n : UInt64} (h : Joined v key n v') :
    v.value ≤ v'.value := by
  intro x
  by_cases hx : x = key
  · rw [hx]
    exact h.covers.1
  · exact le_of_eq (h.others x hx).symm

theorem Joined.least {v v' : SequenceID} {key : Bytes} {n : UInt64} (h : Joined v key n v')
    {g : Bytes → Value} (hg : v.value ≤ g) (hn : .counter n ≤ g key) : v'.value ≤ g := by
  intro x
  by_cases hx : x = key
  · rw [hx]
    cases h.atKey with
    | inl hat => exact hat ▸ hg key
    | inr hat => exact hat ▸ hn
  · exact h.others x hx ▸ hg x

theorem foldlM_updated {entries : List SequenceEntry} {u : SequenceID} (hdistinct : u.Distinct)
    (hcounters : u.Counters) (hentries : ∀ e ∈ entries, ∃ eid n, e = .counter eid n) :
    ∃ u', entries.foldlM updateEntry u = .ok u' ∧ Updated u entries u' := by
  induction entries generalizing u with
  | nil =>
      refine ⟨u, rfl, hdistinct, hcounters, fun _ h => h, ?_, le_refl _, ?_, fun g hg _ => hg⟩
      · exact fun e he => absurd he List.not_mem_nil
      · exact fun e he => absurd he List.not_mem_nil
  | cons e rest ih =>
      obtain ⟨eid, n, rfl⟩ := hentries e List.mem_cons_self
      obtain ⟨v, hv, hjoined⟩ := updateEntry_joined hdistinct hcounters eid n
      obtain ⟨u', hu', hrest⟩ := ih hjoined.distinct hjoined.counters
        (fun e he => hentries e (List.mem_cons_of_mem _ he))
      refine ⟨u', ?_, hrest.distinct, hrest.counters, ?_, ?_, ?_, ?_, ?_⟩
      · rw [List.foldlM_cons, hv]
        exact hu'
      · intro x hx
        exact hrest.keys x ((hjoined.keys x).mpr (Or.inl hx))
      · rw [List.forall_mem_cons]
        exact ⟨hrest.keys _ ((hjoined.keys _).mpr (Or.inr rfl)), hrest.present⟩
      · exact le_trans hjoined.le hrest.above
      · rw [List.forall_mem_cons]
        exact ⟨le_trans hjoined.covers.2 (hrest.above _), hrest.covers⟩
      · intro g hg hle
        rw [List.forall_mem_cons] at hle
        exact hrest.least g (hjoined.least hg hle.1) hle.2

theorem foldlM_self {entries : List SequenceEntry} {u : SequenceID} (hdistinct : u.Distinct)
    (hcounters : u.Counters) (hentries : ∀ e ∈ entries, ∃ eid n, e = .counter eid n)
    (hold : ∀ e ∈ entries, e.eid.uri ∈ u.keys ∧ valueOf (some e) ≤ u.value e.eid.uri) :
    entries.foldlM updateEntry u = .ok u := by
  induction entries with
  | nil => rfl
  | cons e rest ih =>
      obtain ⟨eid, n, rfl⟩ := hentries e List.mem_cons_self
      have hhead : eid.uri ∈ u.keys ∧ Value.counter n ≤ u.value eid.uri :=
        hold _ List.mem_cons_self
      rw [List.foldlM_cons, updateEntry_self hdistinct hcounters hhead.1 hhead.2]
      exact ih (fun e he => hentries e (List.mem_cons_of_mem _ he))
        (fun e he => hold e (List.mem_cons_of_mem _ he))

theorem value_le_iff {v : SequenceID} (hdistinct : v.Distinct) {g : Bytes → Value}
    (hg : ∀ x, Value.counter 0 ≤ g x) :
    v.value ≤ g ↔ ∀ e ∈ v.vector, valueOf (some e) ≤ g e.eid.uri := by
  constructor
  · intro h e he
    rw [← value_of_mem hdistinct he]
    exact h _
  · intro h x
    by_cases hx : x ∈ v.keys
    · obtain ⟨e, he, rfl⟩ := List.mem_map.mp hx
      rw [value_of_mem hdistinct he]
      exact h e he
    · rw [value_of_not_mem hx]
      exact hg x

theorem Counters.zero_le {u : SequenceID} (h : u.Counters) (x : Bytes) :
    Value.counter 0 ≤ u.value x := by
  obtain ⟨n, hn⟩ := h.value_eq x
  rw [hn]
  exact Value.counter_zero_le n

theorem update_isLUB {u v : SequenceID} (hu : u.Distinct) (hcu : u.Counters) (hv : v.Distinct)
    (hcv : v.Counters) :
    ∃ u', update u v = .ok u' ∧ Updated u v.vector u' ∧ IsLUB {u.value, v.value} u'.value := by
  obtain ⟨u', hu', hupdated⟩ := foldlM_updated hu hcu hcv
  refine ⟨u', hu', hupdated, ?_, ?_⟩
  · intro f hf
    cases hf with
    | inl hf => exact hf ▸ hupdated.above
    | inr hf =>
        rw [Set.mem_singleton_iff.mp hf, value_le_iff hv hupdated.counters.zero_le]
        exact hupdated.covers
  · intro g hg
    have hgu : u.value ≤ g := hg (Set.mem_insert _ _)
    have hgv : v.value ≤ g := hg (Set.mem_insert_of_mem _ rfl)
    refine hupdated.least g hgu ?_
    rwa [← value_le_iff hv fun x => le_trans (hcu.zero_le x) (hgu x)]

theorem compare_of_value_eq {u v : SequenceID} (h : u.value = v.value) : compare u v = .eq := by
  have hmet : MetInTime u v := metInTime_of_le fun x => le_of_eq (congrFun h.symm x)
  have heq : Tells .eq u.value v.value := h
  exact ((compare_spec u v).2 hmet).unique heq

theorem update_twice {u v w : SequenceID} (hu : u.Distinct) (hcu : u.Counters) (hv : v.Distinct)
    (hcv : v.Counters) (hw : w.Distinct) (hcw : w.Counters) :
    ∃ u' u'', update u v = .ok u' ∧ update u' w = .ok u'' ∧
      ∀ g, u''.value ≤ g ↔ u.value ≤ g ∧ v.value ≤ g ∧ w.value ≤ g := by
  obtain ⟨u', hu', hupdated, hlub⟩ := update_isLUB hu hcu hv hcv
  obtain ⟨u'', hu'', -, hlub'⟩ := update_isLUB hupdated.distinct hupdated.counters hw hcw
  refine ⟨u', u'', hu', hu'', ?_⟩
  intro g
  rw [isLUB_le_iff hlub', upperBounds_insert, upperBounds_singleton, Set.mem_inter_iff,
    Set.mem_Ici, Set.mem_Ici, isLUB_le_iff hlub, upperBounds_insert, upperBounds_singleton,
    Set.mem_inter_iff, Set.mem_Ici, Set.mem_Ici, and_assoc]

/-- For vectors of counters `update` is a join: the result covers both, is covered by all that do, and
has no endpoint id twice. To update again changes nothing, and the order of two updates does not
matter. -/
theorem update_join {u v w : SequenceID} (hu : u.Distinct) (hcu : u.Counters) (hv : v.Distinct)
    (hcv : v.Counters) (hw : w.Distinct) (hcw : w.Counters) :
    (∃ u', update u v = .ok u' ∧ covers u' u = true ∧ covers u' v = true ∧
      (∀ x, covers x u = true → covers x v = true → covers x u' = true) ∧
      u'.Distinct ∧ update u' v = .ok u') ∧
    update u u = .ok u ∧
    ∃ uv uvw uw uwv, update u v = .ok uv ∧ update uv w = .ok uvw ∧ update u w = .ok uw ∧
      update uw v = .ok uwv ∧ compare uvw uwv = .eq := by
  refine ⟨?_, ?_, ?_⟩
  · obtain ⟨u', hu', hupdated, hlub⟩ := update_isLUB hu hcu hv hcv
    refine ⟨u', hu', ?_, ?_, ?_, hupdated.distinct, ?_⟩
    · rw [covers_iff_le hcu]
      exact hupdated.above
    · rw [covers_iff_le hcv]
      exact hlub.1 (Set.mem_insert_of_mem _ rfl)
    · intro x hx hx'
      rw [covers_iff_le hcu] at hx
      rw [covers_iff_le hcv] at hx'
      rw [covers_iff_le hupdated.counters, isLUB_le_iff hlub, upperBounds_insert,
        upperBounds_singleton]
      exact ⟨hx, hx'⟩
    · exact foldlM_self hupdated.distinct hupdated.counters hcv
        fun e he => ⟨hupdated.present e he, hupdated.covers e he⟩
  · refine foldlM_self hu hcu hcu fun e he => ⟨List.mem_map_of_mem he, ?_⟩
    rw [value_of_mem hu he]
  · obtain ⟨uv, uvw, huv, huvw, hle⟩ := update_twice hu hcu hv hcv hw hcw
    obtain ⟨uw, uwv, huw, huwv, hle'⟩ := update_twice hu hcu hw hcw hv hcv
    refine ⟨uv, uvw, uw, uwv, huv, huvw, huw, huwv, compare_of_value_eq ?_⟩
    apply eq_of_forall_ge_iff
    intro g
    rw [hle, hle']
    exact and_congr_right fun _ => and_comm

theorem update_join_sample :
    (∃ u', update ⟨[.counter sampleA 1]⟩ ⟨[.counter sampleB 2]⟩ = .ok u' ∧
      covers u' ⟨[.counter sampleA 1]⟩ = true ∧ covers u' ⟨[.counter sampleB 2]⟩ = true ∧
      (∀ x, covers x ⟨[.counter sampleA 1]⟩ = true → covers x ⟨[.counter sampleB 2]⟩ = true →
        covers x u' = true) ∧
      u'.Distinct ∧ update u' ⟨[.counter sampleB 2]⟩ = .ok u') ∧
    update ⟨[.counter sampleA 1]⟩ ⟨[.counter sampleA 1]⟩ = .ok ⟨[.counter sampleA 1]⟩ ∧
    ∃ uv uvw uw uwv, update ⟨[.counter sampleA 1]⟩ ⟨[.counter sampleB 2]⟩ = .ok uv ∧
      update uv ⟨[.counter sampleA 3]⟩ = .ok uvw ∧
      update ⟨[.counter sampleA 1]⟩ ⟨[.counter sampleA 3]⟩ = .ok uw ∧
      update uw ⟨[.counter sampleB 2]⟩ = .ok uwv ∧ compare uvw uwv = .eq :=
  update_join (by decide) (counters_singleton _ _) (by decide) (counters_singleton _ _) (by decide)
    (counters_singleton _ _)

end SequenceID

end Dtn2
