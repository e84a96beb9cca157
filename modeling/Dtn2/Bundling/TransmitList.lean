import Dtn2.Bundling.PrepareBlocks

/-!
# What the transmit list contains

Every call of `prepare` adds blocks behind the primary block, those of received blocks at the end. As long
as no insertion finds room to spare in the vector, the list holds every block once. The first insertion
that does loses its block.
-/

namespace Dtn2

namespace PrepareBlocks

open Framework Framework.GrowVector

variable {config : Config} {bundle : Outgoing}

def XmitBlock.received (b : XmitBlock) : Option Nat :=
  match b.source with
  | some (.received index) => some index
  | _ => none

def Source.isReceived : Source → Bool
  | .received _ => true
  | _ => false

theorem blockType_eq_one {owner : Owner} (h : owner.blockType = 1) : owner = .payload := by
  cases owner with
  | base processor => cases processor <;> first | rfl | cases h
  | query => cases h
  | authentication => cases h
  | integrity => cases h
  | confidentiality => cases h
  | extensionSecurity => cases h

section Lists

variable {g : Growth} {v v' : XmitBlocks g}

@[simp] theorem insert_calls (position : Nat) (owner : Owner) (source : Option Source)
    (eidList : List Bytes) (locals : Option XmitLocals) :
    (v.insert position owner source eidList locals).calls =
      v.calls ++ [⟨position, v.block owner source eidList locals⟩] := rfl

theorem length_blocks (v : XmitBlocks g) : v.blocks.length = v.calls.length := v.traced.length_data

@[simp] theorem pushBack_calls (owner : Owner) (source : Option Source) (eidList : List Bytes)
    (locals : Option XmitLocals) :
    (v.pushBack owner source eidList locals).calls =
      v.calls ++ [⟨v.calls.length, v.block owner source eidList locals⟩] := by
  rw [XmitBlocks.pushBack, insert_calls, length_blocks]

theorem calls_nodup (v : XmitBlocks g) : (v.calls.map Call.value).Nodup := by
  rw [List.nodup_iff_pairwise_ne, List.pairwise_iff_getElem]
  intro i j hi hj hij heq
  rw [List.length_map] at hi hj
  rw [List.getElem_map, List.getElem_map] at heq
  have hnum : ∀ k, ∀ hk : k < v.calls.length, v.calls[k].value.call = k := by
    intro k hk
    exact v.numbered (v.calls[k], k) (List.mk_mem_zipIdx_iff_getElem?.mpr (List.getElem?_eq_getElem hk))
  have hsame := congrArg XmitBlock.call heq
  rw [hnum i hi, hnum j hj] at hsame
  omega

/-- The blocks that a call of `prepare` adds behind the primary block, unless it is for a received
block. -/
structure Behind (v : XmitBlocks g) (new : List (Call XmitBlock)) : Prop where
  primary : ∀ c ∈ new, c.value.owner ≠ .primary
  position : v.startsWithPrimary = true → ∀ c ∈ new, 1 ≤ c.position
  received : ∀ c ∈ new, c.value.received = none

theorem behind_nil (v : XmitBlocks g) : Behind v [] := by
  constructor <;> simp

theorem received_block {ref : Option Source} (h : ∀ r ∈ ref, r.isReceived = false) (owner : Owner)
    (eidList : List Bytes) (locals : Option XmitLocals) :
    (v.block owner ref eidList locals).received = none := by
  rw [XmitBlocks.block, XmitBlock.received]
  split
  · rename_i index hindex
    have hno := h (.received index) hindex
    cases hno
  · rfl

theorem startsWithPrimary_length (h : v.startsWithPrimary = true) : 1 ≤ v.calls.length := by
  rw [XmitBlocks.startsWithPrimary] at h
  rw [← length_blocks]
  split at h
  · cases h
  · rename_i hblocks
    rw [hblocks, List.length_cons]
    omega

theorem behind_insert {position : Nat} {owner : Owner} {ref : Option Source} {eidList : List Bytes}
    {locals : Option XmitLocals} (howner : owner ≠ .primary)
    (hposition : v.startsWithPrimary = true → 1 ≤ position)
    (href : ∀ r ∈ ref, r.isReceived = false) :
    Behind v [⟨position, v.block owner ref eidList locals⟩] := by
  constructor
  · intro c hc
    rw [List.mem_singleton.mp hc]
    exact howner
  · intro hstarts c hc
    rw [List.mem_singleton.mp hc]
    exact hposition hstarts
  · intro c hc
    rw [List.mem_singleton.mp hc]
    exact received_block href owner eidList locals

end Lists

/-! ## What a call of `prepare` adds -/

/-- What `prepare` of any processor but that of the primary block does to the list. -/
inductive Added {g : Growth} (v : XmitBlocks g) (owner : Owner) (ref : Option Source)
    (list : ListOwner) : XmitBlocks g → Prop where
  | nothing : owner ≠ .payload → Added v owner ref list v
  | appended (eidList : List Bytes) (locals : Option XmitLocals) : list = .received →
      Added v owner ref list (v.pushBack owner ref eidList locals)
  | inserted (position : Nat) (other : Owner) (eidList : List Bytes) (locals : Option XmitLocals) :
      list ≠ .received → other ≠ .primary → (other = .payload ↔ owner = .payload) →
      (v.startsWithPrimary = true → 1 ≤ position) →
      Added v owner ref list (v.insert position other ref eidList locals)
  | around (position : Nat) (eidList : List Bytes) (front back : Option XmitLocals) :
      list ≠ .received → owner ≠ .payload → (v.startsWithPrimary = true → 1 ≤ position) →
      Added v owner ref list
        ((v.insert position .authentication ref eidList front).pushBack .authentication ref eidList
          back)

section Prepare

variable {v v' : XmitBlocks config.growth} {owner : Owner} {list : ListOwner} {success : Bool}

theorem blockProcessor_prepare {ref : Option Source} (howner : owner ≠ .primary)
    (h : BlockProcessor.prepare config v owner ref list = .ok (success, v')) :
    Added v owner ref list v' := by
  rw [BlockProcessor.prepare] at h
  split at h
  · rename_i hlist
    cases h
    exact .appended [] none hlist
  · rename_i hlist
    obtain ⟨_, -, h⟩ := Exec.bind_eq_ok.mp h
    cases h
    exact .inserted 1 owner [] none hlist howner Iff.rfl fun _ => Nat.le_refl 1

theorem insertSecurityBlock_added {skipped : List Nat} {other : Owner} {ref : Source}
    {made : List Bytes × SecurityLocals} (hlist : list ≠ .received) (howner : owner ≠ .payload)
    (hother : other ≠ .primary) (hpayload : other ≠ .payload) (hskipped : 0 ∈ skipped) :
    Added v owner (some ref) list (insertSecurityBlock config v skipped other ref made) := by
  have hiff : other = .payload ↔ owner = .payload :=
    ⟨fun h => absurd h hpayload, fun h => absurd h howner⟩
  rw [insertSecurityBlock]
  split
  · rename_i hzero
    refine .inserted _ other _ _ hlist hother hiff fun hstarts => ?_
    have hlen := startsWithPrimary_length hstarts
    rw [length_blocks] at hzero
    omega
  · split
    · rename_i position hposition
      refine .inserted position other _ _ hlist hother hiff fun hstarts => ?_
      -- the primary block is skipped
      rw [XmitBlocks.startsWithPrimary] at hstarts
      split at hstarts
      · cases hstarts
      · rename_i b rest hblocks
        rw [hblocks, List.findIdx?_cons, if_neg (by simpa [of_decide_eq_true hstarts] using hskipped)]
          at hposition
        obtain ⟨k, -, rfl⟩ := Option.map_eq_some_iff.mp hposition
        omega
    · exact .nothing howner

theorem ciphersuite_prepare {suite : Suite} {csNum : Nat} {ref : Source} {source : SecurityLocals}
    (hlist : list ≠ .received) (howner : owner ≠ .payload) :
    Added v owner (some ref) list
      (Ciphersuite.prepare config bundle v suite csNum ref source list).2 := by
  unfold Ciphersuite.prepare
  dsimp only
  cases suite with
  | ba =>
      refine .around _ _ _ _ hlist howner fun hstarts => ?_
      rw [if_pos hstarts]
  | pi =>
      dsimp only
      split
      · exact .nothing howner
      · exact insertSecurityBlock_added hlist howner (by decide) (by decide) (by decide)
  | pc =>
      dsimp only
      split
      · exact .nothing howner
      · exact insertSecurityBlock_added hlist howner (by decide) (by decide) (by decide)
  | es =>
      dsimp only
      split
      · exact .nothing howner
      · exact insertSecurityBlock_added hlist howner (by decide) (by decide) (by decide)

theorem then_success {ref : Option Source} (howner : owner ≠ .primary)
    (h : (BlockProcessor.prepare config v owner ref list >>= fun r => pure (true, r.2)) =
      .ok (success, v')) : Added v owner ref list v' := by
  obtain ⟨⟨_, v₁⟩, hprepare, h⟩ := Exec.bind_eq_ok.mp h
  cases h
  exact blockProcessor_prepare howner hprepare

theorem metadata_prepare {source : Option (Source × SourceBlock)}
    (h : MetadataBlockProcessor.prepare config v source list = .ok (success, v')) :
    Added v (.base .metadata) (source.map Prod.fst) list v' := by
  unfold MetadataBlockProcessor.prepare at h
  split at h
  · cases h
    exact .nothing (by decide)
  · obtain ⟨_, -, h⟩ := Exec.bind_eq_ok.mp h
    obtain ⟨_, -, h⟩ := Exec.bind_eq_ok.mp h
    split at h
    · split at h
      · cases h
        exact .nothing (by decide)
      split at h
      · cases h
        exact .nothing (by decide)
      · exact then_success (by decide) h
    · cases h
      exact .nothing (by decide)

theorem ba_prepare {source : Option (Source × SourceBlock)}
    (h : BABlockProcessor.prepare config bundle v source list = (success, v')) :
    Added v .authentication (source.map Prod.fst) list v' := by
  unfold BABlockProcessor.prepare at h
  split at h
  · cases h
    exact .nothing (by decide)
  split at h
  · cases h
    exact .nothing (by decide)
  split at h
  · split at h
    · rename_i hlist
      have hreceived : list ≠ .received := by
        rintro rfl
        simp at hlist
      split at h
      · cases h
        exact .nothing (by decide)
      · obtain rfl : _ = v' := congrArg Prod.snd h
        exact ciphersuite_prepare hreceived (by decide)
    · cases h
      exact .nothing (by decide)
  · cases h
    exact .nothing (by decide)

theorem as_prepare {source : Option (Source × SourceBlock)} (howner : owner ≠ .payload)
    (h : ASBlockProcessor.prepare config bundle v owner source list = .ok (success, v')) :
    Added v owner (source.map Prod.fst) list v' := by
  unfold ASBlockProcessor.prepare at h
  split at h
  · split at h
    · cases h
    · cases h
      exact .nothing howner
  split at h
  · rename_i hlist
    split at h
    · cases h
      exact .nothing howner
    split at h
    · cases h
      exact .appended _ _ hlist
    · cases h
    · cases h
      exact .appended _ _ hlist
  · rename_i hlist
    split at h
    · split at h
      · cases h
        exact .nothing howner
      · obtain rfl : _ = v' := congrArg Prod.snd (Except.ok.inj h)
        exact ciphersuite_prepare hlist howner
    · cases h
      exact .nothing howner

theorem prepare_added {source : Option (Source × SourceBlock)} (howner : owner ≠ .primary)
    (h : prepare config bundle v owner source list = .ok (success, v')) :
    Added v owner (source.map Prod.fst) list v' := by
  unfold prepare at h
  dsimp only at h
  split at h
  · exact absurd rfl howner
  · exact blockProcessor_prepare (by decide) h
  · split at h
    · cases h
      exact .nothing (by decide)
    · exact blockProcessor_prepare (by decide) h
  · exact metadata_prepare h
  · rw [SessionBlockProcessor.prepare] at h
    split at h
    · cases h
      exact .nothing (by decide)
    · obtain ⟨_, -, h⟩ := Exec.bind_eq_ok.mp h
      exact then_success (by decide) h
  · rw [SequenceIDBlockProcessor.prepare] at h
    split at h
    · cases h
      exact .nothing (by decide)
    · exact then_success (by decide) h
  · rw [SequenceIDBlockProcessor.prepare] at h
    split at h
    · cases h
      exact .nothing (by decide)
    · exact then_success (by decide) h
  · rw [AgeBlockProcessor.prepare] at h
    split at h
    · cases h
      exact .nothing (by decide)
    split at h
    · cases h
      exact .nothing (by decide)
    · exact blockProcessor_prepare (by decide) h
  · unfold UnknownBlockProcessor.prepare at h
    split at h
    · cases h
    · obtain ⟨_, -, h⟩ := Exec.bind_eq_ok.mp h
      split at h
      · cases h
        exact .nothing (by decide)
      · exact blockProcessor_prepare (by decide) h
  · exact blockProcessor_prepare (by decide) h
  · unfold BPQBlockProcessor.prepare at h
    split at h
    · obtain ⟨_, -, h⟩ := Exec.bind_eq_ok.mp h
      obtain ⟨_, -, h⟩ := Exec.bind_eq_ok.mp h
      cases h
      exact .inserted 1 .query [] none (by decide) (by decide) (by decide) fun _ => Nat.le_refl 1
    · obtain ⟨_, -, h⟩ := Exec.bind_eq_ok.mp h
      cases h
      exact .appended [] none rfl
    · cases h
      exact .nothing (by decide)
  · exact ba_prepare (Except.ok.inj h)
  · exact as_prepare (by decide) h
  · exact as_prepare (by decide) h
  · exact as_prepare (by decide) h

end Prepare

/-! ## The calls of a whole preparation -/

def isPayload (c : Call XmitBlock) : Bool := decide (c.value.owner = .payload)

section Calls

variable {g : Growth} {v v' : XmitBlocks g} {owner : Owner} {ref : Option Source} {list : ListOwner}

theorem Added.of_received (h : Added v owner ref .received v') :
    (v' = v ∧ owner ≠ .payload) ∨ ∃ eidList locals, v' = v.pushBack owner ref eidList locals := by
  cases h with
  | nothing howner => exact Or.inl ⟨rfl, howner⟩
  | appended eidList locals => exact Or.inr ⟨eidList, locals, rfl⟩
  | inserted position other eidList locals hlist => exact absurd rfl hlist
  | around position eidList front back hlist => exact absurd rfl hlist

theorem Added.of_other (h : Added v owner ref list v') (hlist : list ≠ .received)
    (href : ∀ r ∈ ref, r.isReceived = false) :
    ∃ new, v'.calls = v.calls ++ new ∧ Behind v new ∧
      new.countP isPayload = if owner = .payload then 1 else 0 := by
  cases h with
  | nothing howner => exact ⟨[], (List.append_nil _).symm, behind_nil v, by rw [if_neg howner]; rfl⟩
  | appended eidList locals hreceived => exact absurd hreceived hlist
  | inserted position other eidList locals _ hother hpayload hposition =>
      refine ⟨_, insert_calls _ _ _ _ _, behind_insert hother hposition href, ?_⟩
      simp only [List.countP_singleton, isPayload, XmitBlocks.block, hpayload, decide_eq_true_eq]
  | around position eidList front back _ howner hposition =>
      refine ⟨[⟨position, v.block .authentication ref eidList front⟩,
        ⟨v.calls.length + 1, (v.insert position .authentication ref eidList front).block
          .authentication ref eidList back⟩], ?_, ?_, ?_⟩
      · rw [pushBack_calls, insert_calls, List.append_assoc, List.length_append]
        rfl
      · have hfront : Behind v [⟨position, v.block .authentication ref eidList front⟩] :=
          behind_insert (by decide) hposition href
        constructor
        · intro c hc
          rcases List.mem_cons.mp hc with rfl | hc
          · exact hfront.primary _ (List.mem_singleton.mpr rfl)
          · rw [List.mem_singleton.mp hc]
            exact (by decide : Owner.authentication ≠ Owner.primary)
        · intro hstarts c hc
          rcases List.mem_cons.mp hc with rfl | hc
          · exact hposition hstarts
          · rw [List.mem_singleton.mp hc]
            exact Nat.le_add_left 1 _
        · intro c hc
          rcases List.mem_cons.mp hc with rfl | hc
          · exact hfront.received _ (List.mem_singleton.mpr rfl)
          · rw [List.mem_singleton.mp hc]
            exact received_block href _ _ _
      · rw [if_neg howner]
        rfl

/-- What the calls of a preparation are like, after the received blocks in front of the one at
`next`. -/
structure Shape (v : XmitBlocks g) (next : Nat) : Prop where
  first : ∃ c rest, v.calls = c :: rest ∧ c.value.owner = .primary ∧
    ∀ d ∈ rest, d.value.owner ≠ .primary ∧ 1 ≤ d.position
  atEnd : ∀ p ∈ v.calls.zipIdx, p.1.value.received ≠ none → p.1.position = p.2
  ordered : ((v.calls.map Call.value).filterMap XmitBlock.received).Pairwise (· < ·)
  below : ∀ i ∈ (v.calls.map Call.value).filterMap XmitBlock.received, i < next

theorem Shape.startsWithPrimary {next : Nat} (h : Shape v next) : v.startsWithPrimary = true := by
  obtain ⟨c, rest, hcalls, hprimary, hrest⟩ := h.first
  have hhead := v.traced.head_data (by
    rw [hcalls, List.tail_cons]
    exact fun d hd => (hrest d hd).2)
  rw [hcalls, List.head?_cons, Option.map_some, List.head?_eq_some_iff] at hhead
  obtain ⟨tail, htail⟩ := hhead
  rw [XmitBlocks.startsWithPrimary, XmitBlocks.blocks, htail]
  dsimp only
  rw [hprimary]
  rfl

theorem Shape.behind {next : Nat} (h : Shape v next) {new : List (Call XmitBlock)}
    (hcalls' : v'.calls = v.calls ++ new) (hnew : Behind v new) : Shape v' next := by
  obtain ⟨c, rest, hcalls, hprimary, hrest⟩ := h.first
  have hnone : (new.map Call.value).filterMap XmitBlock.received = [] := by
    rw [List.filterMap_eq_nil_iff]
    intro b hb
    obtain ⟨d, hd, rfl⟩ := List.mem_map.mp hb
    exact hnew.received d hd
  have hsame : (v'.calls.map Call.value).filterMap XmitBlock.received =
      (v.calls.map Call.value).filterMap XmitBlock.received := by
    rw [hcalls', List.map_append, List.filterMap_append, hnone, List.append_nil]
  refine ⟨⟨c, rest ++ new, ?_, hprimary, ?_⟩, ?_, ?_, ?_⟩
  · rw [hcalls', hcalls, List.cons_append]
  · intro d hd
    rcases List.mem_append.mp hd with hd | hd
    · exact hrest d hd
    · exact ⟨hnew.primary d hd, hnew.position h.startsWithPrimary d hd⟩
  · intro p hp hreceived
    rw [hcalls', List.zipIdx_append] at hp
    rcases List.mem_append.mp hp with hp | hp
    · exact h.atEnd p hp hreceived
    · exact absurd (hnew.received p.1 (List.fst_mem_of_mem_zipIdx hp)) hreceived
  · rw [hsame]
    exact h.ordered
  · rw [hsame]
    exact h.below

theorem Shape.received {next : Nat} (h : Shape v next) (howner : owner ≠ .primary)
    (eidList : List Bytes) (locals : Option XmitLocals) :
    Shape (v.pushBack owner (some (.received next)) eidList locals) (next + 1) := by
  obtain ⟨c, rest, hcalls, hprimary, hrest⟩ := h.first
  have hadded : ((v.pushBack owner (some (.received next)) eidList locals).calls.map
      Call.value).filterMap XmitBlock.received =
        (v.calls.map Call.value).filterMap XmitBlock.received ++ [next] := by
    rw [pushBack_calls, List.map_append, List.filterMap_append]
    rfl
  refine ⟨⟨c, rest ++ [⟨v.calls.length, v.block owner (some (.received next)) eidList locals⟩], ?_,
    hprimary, ?_⟩, ?_, ?_, ?_⟩
  · rw [pushBack_calls, hcalls, List.cons_append]
  · intro d hd
    rcases List.mem_append.mp hd with hd | hd
    · exact hrest d hd
    · rw [List.mem_singleton.mp hd]
      refine ⟨howner, ?_⟩
      dsimp only
      rw [hcalls, List.length_cons]
      omega
  · intro p hp hreceived
    rw [pushBack_calls, List.zipIdx_append] at hp
    rcases List.mem_append.mp hp with hp | hp
    · exact h.atEnd p hp hreceived
    · rw [List.zipIdx_singleton, List.mem_singleton, Nat.zero_add] at hp
      rw [hp]
  · rw [hadded, List.pairwise_append]
    refine ⟨h.ordered, List.pairwise_singleton _ _, ?_⟩
    intro i hi j hj
    rw [List.mem_singleton.mp hj]
    exact h.below i hi
  · rw [hadded]
    intro i hi
    rcases List.mem_append.mp hi with hi | hi
    · exact Nat.lt_succ_of_lt (h.below i hi)
    · rw [List.mem_singleton.mp hi]
      exact Nat.lt_succ_self next

theorem Shape.mono {next next' : Nat} (h : Shape v next) (hle : next ≤ next') : Shape v next' :=
  ⟨h.first, h.atEnd, h.ordered, fun i hi => Nat.lt_of_lt_of_le (h.below i hi) hle⟩

end Calls

end PrepareBlocks

end Dtn2
