import Dtn2.Bundling.TransmitList

/-!
# Each block once

The received blocks, the blocks of the API, the processors without a block, the generated metadata and the
security blocks are prepared one after the other. The transmit list that results has the primary block
first and each block once exactly if no insertion found room to spare, and one payload block exactly if
no second one was asked for.
-/

namespace Dtn2

namespace PrepareBlocks

open Framework Framework.GrowVector

def SourceBlock.isPayload (b : SourceBlock) : Bool := decide (b.owner = .payload)

/-- What `validate` leaves of the received blocks: one primary block, which is the first, and at most one
payload block. -/
structure Validated (recv : List SourceBlock) : Prop where
  primary : ∃ front rest, recv = front :: rest ∧ front.owner = .primary ∧
    ∀ b ∈ rest, b.owner ≠ .primary
  payload : recv.countP SourceBlock.isPayload ≤ 1

/-- The transmit list has the primary block first and no other one, one payload block, the received blocks
in order of arrival, and each block that was made once. -/
structure EachOnce {g : Growth} (v : XmitBlocks g) : Prop where
  primary : ∃ front rest, v.blocks = front :: rest ∧ front.owner = .primary ∧
    ∀ b ∈ rest, b.owner ≠ .primary
  payload : v.blocks.countP (fun b => decide (b.owner = .payload)) = 1
  received : v.blocks.filterMap XmitBlock.received =
    (v.calls.map Call.value).filterMap XmitBlock.received
  ordered : (v.blocks.filterMap XmitBlock.received).Pairwise (· < ·)
  once : ∀ c ∈ v.calls, v.blocks.count c.value = 1

/-- How many payload blocks the received blocks and those of the API ask for. A bundle that was not
received has one of its own. -/
def payloadsAsked (bundle : Outgoing) : Nat :=
  (if bundle.recvBlocks = [] then 1 else bundle.recvBlocks.countP SourceBlock.isPayload) +
    bundle.apiBlocks.countP SourceBlock.isPayload

section Lists

variable {g : Growth} {v : XmitBlocks g}

theorem assign_keeps (a b : XmitBlock) : XmitBlock.assign a b = a := rfl

theorem hasBlock_payload (h : v.hasBlock Owner.payload.blockType = true) :
    1 ≤ v.calls.countP isPayload := by
  rw [XmitBlocks.hasBlock, List.any_eq_true] at h
  obtain ⟨b, hb, htype⟩ := h
  obtain ⟨c, hc, rfl⟩ := List.mem_map.mp (v.traced.mem_data assign_keeps b hb)
  have hpayload : isPayload c = true := decide_eq_true (blockType_eq_one (of_decide_eq_true htype))
  exact List.countP_pos_iff.mpr ⟨c, hc, hpayload⟩

theorem not_hasBlock_payload (hspoiled : ¬Spoiled g v.calls)
    (h : v.hasBlock Owner.payload.blockType = false) : v.calls.countP isPayload = 0 := by
  rw [List.countP_eq_zero]
  intro c hc hpayload
  rw [XmitBlocks.hasBlock, List.any_eq_false] at h
  have hmem : c.value ∈ v.blocks := by
    rw [XmitBlocks.blocks, v.traced.data_eq hspoiled, (placed_perm v.calls).mem_iff]
    exact List.mem_map_of_mem hc
  refine h c.value hmem ?_
  rw [of_decide_eq_true hpayload]
  rfl

end Lists

section Phases

variable {config : Config} {bundle : Outgoing} {v v' : XmitBlocks config.growth}

theorem prepare_primary {source : Option (Source × SourceBlock)} {list : ListOwner}
    {r : Bool × XmitBlocks config.growth}
    (h : prepare config bundle v .primary source list = .ok r) :
    v.calls = [] ∧ r.2.calls = [⟨0, v.block .primary (source.map Prod.fst) [] none⟩] := by
  change PrimaryBlockProcessor.prepare config v (source.map Prod.fst) = .ok r at h
  rw [PrimaryBlockProcessor.prepare] at h
  obtain ⟨_, hassert, h⟩ := Exec.bind_eq_ok.mp h
  have hnil : v.calls = [] := by
    by_cases hzero : v.blocks.length = 0
    · rw [length_blocks] at hzero
      exact List.eq_nil_of_length_eq_zero hzero
    · rw [assertThat, if_neg hzero] at hassert
      cases hassert
  cases h
  refine ⟨hnil, ?_⟩
  rw [insert_calls, hnil]
  rfl

theorem prepare_other {next : Nat} (hshape : Shape v next) {owner : Owner}
    {source : Option (Source × SourceBlock)} {list : ListOwner} {success : Bool}
    (hlist : list ≠ .received) (hsource : ∀ s ∈ source, s.1.isReceived = false)
    (h : prepare config bundle v owner source list = .ok (success, v')) :
    Shape v' next ∧ ∃ new, v'.calls = v.calls ++ new ∧
      new.countP isPayload = if owner = .payload then 1 else 0 := by
  have howner : owner ≠ .primary := by
    rintro rfl
    obtain ⟨c, rest, hcalls, -⟩ := hshape.first
    rw [(prepare_primary h).1] at hcalls
    cases hcalls
  obtain ⟨new, hcalls, hbehind, hcount⟩ := (prepare_added howner h).of_other hlist (by
    intro r hr
    obtain ⟨s, hs, rfl⟩ := Option.mem_map.mp hr
    exact hsource s hs)
  exact ⟨hshape.behind hcalls hbehind, new, hcalls, hcount⟩

theorem prepareReceived_shape {blocks : List SourceBlock} {index : Nat}
    (hprimary : ∀ b ∈ blocks, b.owner ≠ .primary)
    (hpayload : v.calls.countP isPayload + blocks.countP SourceBlock.isPayload ≤ 1)
    (hshape : Shape v index)
    (h : prepareReceived config bundle blocks index v = .ok (some v')) :
    (∃ next, Shape v' next) ∧ v'.calls.countP isPayload =
      v.calls.countP isPayload + blocks.countP SourceBlock.isPayload := by
  induction blocks generalizing index v with
  | nil =>
      cases h
      exact ⟨⟨index, hshape⟩, rfl⟩
  | cons block rest ih =>
      have hrest : ∀ b ∈ rest, b.owner ≠ .primary := fun b hb => hprimary b (List.mem_cons_of_mem _ hb)
      have howner : block.owner ≠ .primary := hprimary block List.mem_cons_self
      rw [List.countP_cons] at hpayload ⊢
      rw [prepareReceived] at h
      split at h
      · rename_i hskip
        have hhas := hasBlock_payload hskip.2
        obtain ⟨hnext, hcount⟩ := ih hrest (by omega) (hshape.mono (Nat.le_succ index)) h
        exact ⟨hnext, by omega⟩
      · obtain ⟨⟨success, v₁⟩, hprepare, hloop⟩ := Exec.bind_eq_ok.mp h
        dsimp only at hloop
        split at hloop
        · rcases (prepare_added howner hprepare).of_received with ⟨hsame, hno⟩ | ⟨eidList, locals, hadd⟩
          · rw [hsame] at hloop
            have hzero : SourceBlock.isPayload block = false := decide_eq_false hno
            rw [hzero] at hpayload ⊢
            obtain ⟨hnext, hcount⟩ := ih hrest (by simpa using hpayload)
              (hshape.mono (Nat.le_succ index)) hloop
            exact ⟨hnext, by simpa using hcount⟩
          · rw [hadd] at hloop
            have hone : (v.pushBack block.owner (some (.received index)) eidList locals).calls.countP
                isPayload = v.calls.countP isPayload +
                  if block.isPayload = true then 1 else 0 := by
              rw [pushBack_calls, List.countP_append, List.countP_singleton]
              rfl
            obtain ⟨hnext, hcount⟩ := ih hrest (by
              rw [hone]
              omega) (hshape.received howner eidList locals) hloop
            refine ⟨hnext, ?_⟩
            rw [hcount, hone]
            omega
        · cases hloop

theorem prepareApi_shape {blocks : List SourceBlock} {index next : Nat} (hshape : Shape v next)
    (h : prepareApi config bundle blocks index v = .ok (some v')) :
    Shape v' next ∧ v'.calls.countP isPayload =
      v.calls.countP isPayload + blocks.countP SourceBlock.isPayload := by
  induction blocks generalizing index v with
  | nil =>
      cases h
      exact ⟨hshape, rfl⟩
  | cons block rest ih =>
      rw [prepareApi] at h
      obtain ⟨⟨success, v₁⟩, hprepare, h⟩ := Exec.bind_eq_ok.mp h
      dsimp only at h
      obtain ⟨hshape₁, new, hcalls, hcount⟩ := prepare_other hshape (by decide) (by
        intro s hs
        rw [← Option.mem_some.mp hs]
        rfl) hprepare
      split at h
      · obtain ⟨hend, htotal⟩ := ih hshape₁ h
        refine ⟨hend, ?_⟩
        rw [htotal, hcalls, List.countP_append, hcount, List.countP_cons]
        simp only [SourceBlock.isPayload, decide_eq_true_eq]
        omega
      · cases h

theorem findProcessor_payload {type : Nat} (h : findProcessor config type = .payload) : type = 1 := by
  unfold findProcessor at h
  split at h
  all_goals first
    | rfl
    | cases h
    | (split at h <;> cases h)

theorem prepareMissing_cons {type : Nat} {types : List Nat} {next : Nat} (hshape : Shape v next)
    (h : prepareMissing config bundle (type :: types) v = .ok v') :
    ∃ v₁, prepareMissing config bundle types v₁ = .ok v' ∧ Shape v₁ next ∧
      ∃ new, v₁.calls = v.calls ++ new ∧
        ((type ≠ 1 ∨ v.hasBlock 1 = true) → new.countP isPayload = 0) ∧
        (type = 1 → v.hasBlock 1 = false → new.countP isPayload = 1) := by
  rw [prepareMissing, List.foldlM_cons] at h
  obtain ⟨v₁, hstep, hrest⟩ := Exec.bind_eq_ok.mp h
  refine ⟨v₁, hrest, ?_⟩
  dsimp only at hstep
  split at hstep
  · rename_i hskip
    cases hstep
    refine ⟨hshape, [], (List.append_nil _).symm, fun _ => rfl, ?_⟩
    rintro rfl hno
    rcases hskip with hunknown | hhas
    · cases hunknown
    · rw [hno] at hhas
      cases hhas
  · rename_i hgo
    rw [not_or] at hgo
    obtain ⟨⟨success, v₂⟩, hprepare, hend⟩ := Exec.bind_eq_ok.mp hstep
    cases hend
    obtain ⟨hshape₁, new, hcalls, hcount⟩ :=
      prepare_other hshape (by decide) (fun _ hs => absurd hs (by simp)) hprepare
    refine ⟨hshape₁, new, hcalls, ?_, ?_⟩
    · intro hcase
      rw [hcount, if_neg]
      intro hpayload
      have hone := findProcessor_payload hpayload
      rcases hcase with hne | hhas
      · exact hne hone
      · rw [hone] at hgo
        exact hgo.2 hhas
    · rintro rfl -
      rw [hcount]
      exact if_pos rfl

theorem prepareMissing_others {types : List Nat} {next : Nat} (hshape : Shape v next)
    (htypes : 1 ∉ types) (h : prepareMissing config bundle types v = .ok v') :
    Shape v' next ∧ ∃ new, v'.calls = v.calls ++ new ∧ new.countP isPayload = 0 := by
  induction types generalizing v with
  | nil =>
      cases h
      exact ⟨hshape, [], (List.append_nil _).symm, rfl⟩
  | cons type types ih =>
      rw [List.mem_cons, not_or] at htypes
      obtain ⟨v₁, hrest, hshape₁, new, hcalls, hzero, -⟩ := prepareMissing_cons hshape h
      obtain ⟨hend, more, hmore, hcount⟩ := ih hshape₁ htypes.2 hrest
      refine ⟨hend, new ++ more, by rw [hmore, hcalls, List.append_assoc], ?_⟩
      rw [List.countP_append, hzero (Or.inl (Ne.symm htypes.1)), hcount]

theorem prepareMissing_shape {next : Nat} (hshape : Shape v next)
    (h : prepareMissing config bundle (List.range 256) v = .ok v') :
    Shape v' next ∧ ∃ new, v'.calls = v.calls ++ new ∧
      (¬Spoiled config.growth v'.calls →
        v'.calls.countP isPayload = max 1 (v.calls.countP isPayload)) := by
  have hrange : List.range 256 = 0 :: 1 :: List.range' 2 254 := by decide +kernel
  rw [hrange] at h
  obtain ⟨v₀, h₀, hshape₀, new₀, hcalls₀, hzero₀, -⟩ := prepareMissing_cons hshape h
  obtain ⟨v₁, h₁, hshape₁, new₁, hcalls₁, hzero₁, hone₁⟩ := prepareMissing_cons hshape₀ h₀
  obtain ⟨hend, new₂, hcalls₂, hcount₂⟩ := prepareMissing_others hshape₁ (by simp) h₁
  have hall : v'.calls = v.calls ++ (new₀ ++ (new₁ ++ new₂)) := by
    rw [hcalls₂, hcalls₁, hcalls₀, List.append_assoc, List.append_assoc]
  refine ⟨hend, _, hall, ?_⟩
  intro hspoiled
  have hnow : ¬Spoiled config.growth v₀.calls := by
    intro hearly
    apply hspoiled
    rw [hcalls₂, hcalls₁, List.append_assoc]
    exact spoiled_of_append hearly
  have hcount₀ : v₀.calls.countP isPayload = v.calls.countP isPayload := by
    rw [hcalls₀, List.countP_append, hzero₀ (Or.inl (by decide)), Nat.add_zero]
  have htotal : v'.calls.countP isPayload = v₀.calls.countP isPayload + new₁.countP isPayload := by
    rw [hcalls₂, hcalls₁, List.countP_append, List.countP_append, hcount₂, Nat.add_zero]
  cases hhas : v₀.hasBlock 1 with
  | true =>
      have hthere := hasBlock_payload hhas
      rw [htotal, hzero₁ (Or.inr hhas)]
      omega
  | false =>
      have hnone := not_hasBlock_payload hnow hhas
      rw [htotal, hone₁ rfl hhas]
      omega

theorem prepareGeneratedMetadata_shape {next : Nat} (hshape : Shape v next) :
    Shape (prepareGeneratedMetadata config bundle v) next ∧
      ∃ new, (prepareGeneratedMetadata config bundle v).calls = v.calls ++ new ∧
        new.countP isPayload = 0 := by
  rw [prepareGeneratedMetadata]
  generalize (bundle.linkMetadata.getD []).filter _ ++ _ = metadata
  induction metadata generalizing v with
  | nil => exact ⟨hshape, [], (List.append_nil _).symm, rfl⟩
  | cons m metadata ih =>
      rw [List.foldl_cons]
      have hbehind : Behind v [⟨v.calls.length,
          v.block (.base .metadata) none [] (some (.metadata m.id))⟩] :=
        behind_insert (by decide) startsWithPrimary_length (by simp)
      obtain ⟨hend, more, hmore, hcount⟩ :=
        ih (hshape.behind (pushBack_calls _ _ _ _) hbehind)
      refine ⟨hend, ⟨v.calls.length, v.block (.base .metadata) none [] (some (.metadata m.id))⟩ :: more,
        ?_, ?_⟩
      · rw [hmore, pushBack_calls, List.append_assoc]
        rfl
      · rw [List.countP_cons, hcount]
        rfl

theorem prepareRules_shape {rules : List (Nat × Bytes)} {index next : Nat} (hshape : Shape v next)
    (h : prepareRules config bundle rules index v = some v') :
    Shape v' next ∧ ∃ new, v'.calls = v.calls ++ new ∧ new.countP isPayload = 0 := by
  induction rules generalizing index v with
  | nil =>
      cases h
      exact ⟨hshape, [], (List.append_nil _).symm, rfl⟩
  | cons rule rules ih =>
      unfold prepareRules at h
      split at h
      · cases h
      · rename_i suite hsuite
        dsimp only at h
        split at h
        · have hadded : Added v .confidentiality (some (.rule index)) .none
              (Ciphersuite.prepare config bundle v suite rule.1 (.rule index)
                { SecurityLocals.new with securityDest := rule.2 } .none).2 :=
            ciphersuite_prepare (by decide) (by decide)
          obtain ⟨new, hcalls, hbehind, hcount⟩ := hadded.of_other (by decide) (by
            intro r hr
            rw [← Option.mem_some.mp hr]
            rfl)
          obtain ⟨hend, more, hmore, hzero⟩ := ih (hshape.behind hcalls hbehind) h
          refine ⟨hend, new ++ more, by rw [hmore, hcalls, List.append_assoc], ?_⟩
          rw [List.countP_append, hcount, hzero]
          rfl
        · cases h

theorem prepareRest_shape {next : Nat} (hshape : Shape v next)
    (h : prepareRest config bundle v = .ok (some v')) :
    Shape v' next ∧ (¬Spoiled config.growth v'.calls → v'.calls.countP isPayload =
      max 1 (v.calls.countP isPayload + bundle.apiBlocks.countP SourceBlock.isPayload)) := by
  rw [prepareRest] at h
  obtain ⟨api, hapi, h⟩ := Exec.bind_eq_ok.mp h
  cases api with
  | none => cases h
  | some v₁ =>
      obtain ⟨v₂, hmissing, h⟩ := Exec.bind_eq_ok.mp h
      obtain ⟨hshape₁, hcount₁⟩ := prepareApi_shape hshape hapi
      obtain ⟨hshape₂, new₂, hcalls₂, hcount₂⟩ := prepareMissing_shape hshape₁ hmissing
      have hgenerated : Shape (prepareGeneratedMetadata config bundle v₂) next ∧
          ∃ new, (prepareGeneratedMetadata config bundle v₂).calls = v₂.calls ++ new ∧
            new.countP isPayload = 0 := prepareGeneratedMetadata_shape hshape₂
      obtain ⟨hshape₃, new₃, hcalls₃, hcount₃⟩ := hgenerated
      have hlast : Shape v' next ∧ ∃ new, v'.calls =
          (prepareGeneratedMetadata config bundle v₂).calls ++ new ∧ new.countP isPayload = 0 := by
        dsimp only at h
        split at h
        · split at h
          · cases h
          · exact prepareRules_shape hshape₃ (Except.ok.inj h)
        · cases h
          exact ⟨hshape₃, [], (List.append_nil _).symm, rfl⟩
      obtain ⟨hshape₄, new₄, hcalls₄, hcount₄⟩ := hlast
      refine ⟨hshape₄, ?_⟩
      intro hspoiled
      rw [hcalls₄, hcalls₃, List.append_assoc] at hspoiled
      rw [hcalls₄, hcalls₃, List.countP_append, List.countP_append, hcount₃, hcount₄, ← hcount₁]
      exact hcount₂ fun hearly => hspoiled (spoiled_of_append hearly)

theorem shape_primary {source : Option (Source × SourceBlock)} {list : ListOwner} {success : Bool}
    (hsource : ∀ s ∈ source, s.1 = .received 0)
    (h : prepare config bundle (.empty _) .primary source list = .ok (success, v)) :
    Shape v 1 ∧ v.calls.countP isPayload = 0 := by
  obtain ⟨-, hcalls⟩ := prepare_primary h
  dsimp only at hcalls
  have hreceived : ∀ i ∈ (v.calls.map Call.value).filterMap XmitBlock.received, i = 0 := by
    intro i hi
    rw [hcalls, List.map_singleton] at hi
    obtain ⟨b, hb, hindex⟩ := List.mem_filterMap.mp hi
    rw [List.mem_singleton.mp hb] at hindex
    cases source with
    | none => cases hindex
    | some s =>
        rw [XmitBlocks.block, Option.map_some, hsource s rfl] at hindex
        exact (Option.some.inj hindex).symm
  refine ⟨⟨⟨_, [], hcalls, rfl, fun d hd => absurd hd List.not_mem_nil⟩, ?_, ?_, ?_⟩, ?_⟩
  · intro p hp _
    rw [hcalls, List.zipIdx_singleton, List.mem_singleton] at hp
    rw [hp]
  · rw [hcalls, List.map_singleton, List.filterMap_cons]
    split
    · exact List.Pairwise.nil
    · exact List.pairwise_singleton _ _
  · intro i hi
    rw [hreceived i hi]
    exact Nat.zero_lt_one
  · rw [hcalls]
    rfl

theorem prepareLocal_shape (h : prepareLocal config bundle (.empty _) = .ok (some v')) :
    Shape v' 1 ∧ v'.calls.countP isPayload = 1 := by
  rw [prepareLocal] at h
  obtain ⟨⟨success, v₁⟩, hprimary, h⟩ := Exec.bind_eq_ok.mp h
  obtain ⟨hshape₁, hcount₁⟩ := shape_primary (fun _ hs => absurd hs (by simp)) hprimary
  dsimp only at h
  split at h
  · obtain ⟨⟨success₂, v₂⟩, hpayload, h⟩ := Exec.bind_eq_ok.mp h
    obtain ⟨hshape₂, new, hcalls, hcount⟩ :=
      prepare_other hshape₁ (by decide) (fun _ hs => absurd hs (by simp)) hpayload
    dsimp only at h
    split at h
    · cases h
      refine ⟨hshape₂, ?_⟩
      rw [hcalls, List.countP_append, hcount₁, hcount, if_pos rfl]
    · cases h
  · cases h

theorem prepareReceived_start {recv : List SourceBlock} (hvalid : Validated recv)
    (h : prepareReceived config bundle recv 0 (.empty _) = .ok (some v')) :
    (∃ next, Shape v' next) ∧ v'.calls.countP isPayload = recv.countP SourceBlock.isPayload := by
  obtain ⟨front, rest, rfl, hfront, hrest⟩ := hvalid.primary
  have hpayload := hvalid.payload
  have hno : SourceBlock.isPayload front = false := by
    rw [SourceBlock.isPayload, hfront]
    rfl
  rw [List.countP_cons, hno] at hpayload ⊢
  rw [prepareReceived, if_neg (fun hboth => Bool.false_ne_true hboth.2), hfront] at h
  obtain ⟨⟨success, v₁⟩, hprimary, h⟩ := Exec.bind_eq_ok.mp h
  obtain ⟨hshape₁, hcount₁⟩ := shape_primary (by
    intro s hs
    rw [← Option.mem_some.mp hs]) hprimary
  dsimp only at h
  split at h
  · obtain ⟨hnext, hcount⟩ := prepareReceived_shape hrest (by
      rw [hcount₁]
      simpa using hpayload) hshape₁ h
    exact ⟨hnext, by simpa [hcount₁] using hcount⟩
  · cases h

theorem prepareBlocks_shape (hvalid : bundle.recvBlocks ≠ [] → Validated bundle.recvBlocks)
    (h : prepareBlocks config bundle = .ok (some v')) :
    (∃ next, Shape v' next) ∧ (¬Spoiled config.growth v'.calls →
      v'.calls.countP isPayload = max 1 (payloadsAsked bundle)) := by
  rw [payloadsAsked]
  unfold prepareBlocks at h
  split at h
  · rename_i hrecv
    rw [if_pos hrecv]
    obtain ⟨start, hlocal, h⟩ := Exec.bind_eq_ok.mp h
    cases start with
    | none => cases h
    | some v =>
        obtain ⟨hshape, hcount⟩ := prepareLocal_shape hlocal
        obtain ⟨hend, htotal⟩ := prepareRest_shape hshape h
        rw [hcount] at htotal
        exact ⟨⟨1, hend⟩, htotal⟩
  · rename_i front rest hrecv
    rw [if_neg (by rw [hrecv]; simp)]
    obtain ⟨_, -, h⟩ := Exec.bind_eq_ok.mp h
    obtain ⟨start, hreceived, h⟩ := Exec.bind_eq_ok.mp h
    cases start with
    | none => cases h
    | some v =>
        rw [← hrecv] at hreceived
        obtain ⟨⟨next, hshape⟩, hcount⟩ :=
          prepareReceived_start (hvalid (by rw [hrecv]; simp)) hreceived
        obtain ⟨hend, htotal⟩ := prepareRest_shape hshape h
        rw [hcount] at htotal
        exact ⟨⟨next, hend⟩, htotal⟩

end Phases

/-! ## The list -/

theorem countP_calls {g : Growth} (v : XmitBlocks g) (hspoiled : ¬Spoiled g v.calls) :
    v.blocks.countP (fun b => decide (b.owner = .payload)) = v.calls.countP isPayload := by
  rw [XmitBlocks.blocks, v.traced.data_eq hspoiled, (placed_perm v.calls).countP_eq,
    List.countP_map]
  rfl

/-- The transmit list contains each block once exactly if no insertion behind the primary block found
room to spare in the vector, and the received blocks and those of the API have at most one payload
block. -/
theorem prepareBlocks_eachOnce (config : Config) (bundle : Outgoing)
    (hvalid : bundle.recvBlocks ≠ [] → Validated bundle.recvBlocks) (v : XmitBlocks config.growth)
    (h : prepareBlocks config bundle = .ok (some v)) :
    EachOnce v ↔ ¬Spoiled config.growth v.calls ∧ payloadsAsked bundle ≤ 1 := by
  obtain ⟨⟨next, hshape⟩, hpayloads⟩ := prepareBlocks_shape hvalid h
  constructor
  · intro honce
    have hsound : ¬Spoiled config.growth v.calls := by
      intro hspoiled
      obtain ⟨c, hc, hlost⟩ := v.traced.lost assign_keeps (calls_nodup v) hspoiled
      have hone : v.vec.data.count c.value = 1 := honce.once c hc
      rw [List.count_eq_zero_of_not_mem hlost] at hone
      cases hone
    refine ⟨hsound, ?_⟩
    have hcount := hpayloads hsound
    rw [← countP_calls v hsound, honce.payload] at hcount
    omega
  · rintro ⟨hsound, hasked⟩
    have hdata : v.blocks = placed v.calls := v.traced.data_eq hsound
    have hperm : v.blocks.Perm (v.calls.map Call.value) := by
      rw [hdata]
      exact placed_perm v.calls
    have hreceived : v.blocks.filterMap XmitBlock.received =
        (v.calls.map Call.value).filterMap XmitBlock.received := by
      rw [hdata]
      exact placed_filterMap XmitBlock.received v.calls hshape.atEnd
    refine ⟨?_, ?_, hreceived, ?_, ?_⟩
    · obtain ⟨c, rest, hcalls, hprimary, hrest⟩ := hshape.first
      have hhead : v.blocks.head? = v.calls.head?.map Call.value := v.traced.head_data (by
        rw [hcalls, List.tail_cons]
        exact fun d hd => (hrest d hd).2)
      rw [hcalls, List.head?_cons, Option.map_some, List.head?_eq_some_iff] at hhead
      obtain ⟨tail, htail⟩ := hhead
      refine ⟨c.value, tail, htail, hprimary, ?_⟩
      intro b hb
      rw [htail, hcalls, List.map_cons] at hperm
      obtain ⟨d, hd, rfl⟩ := List.mem_map.mp (hperm.cons_inv.mem_iff.mp hb)
      exact (hrest d hd).1
    · rw [countP_calls v hsound, hpayloads hsound]
      omega
    · rw [hreceived]
      exact hshape.ordered
    · intro c hc
      rw [hperm.count_eq]
      exact List.count_eq_one_of_mem (calls_nodup v) (List.mem_map_of_mem hc)

/-- A build without the optional processors, on a library that doubles the capacity. -/
def Config.plain : Config where
  growth := .doubling
  bpqEnabled := false
  bspEnabled := false
  ageOutboundEnabled := false
  ageInboundProcessing := true
  localEid := []

/-- A bundle that was made here, with one block of the API and with or without a previous hop block. -/
def sampleOutgoing (prevhopHdr : Bool) : Outgoing where
  recvBlocks := []
  apiBlocks := [⟨.base .api, 0xc8, false, [], none⟩]
  fragmentedIncoming := false
  source := []
  destNode := []
  fragOffset := none
  sessionEid := []
  hasSequenceId := false
  hasObsoletesId := false
  prevhopHdr := prevhopHdr
  linkMetadata := none
  nullMetadata := none
  outgoingRules := none

theorem prepareBlocks_eachOnce_sample :
    ∃ v, prepareBlocks .plain (sampleOutgoing false) = .ok (some v) ∧ v.blocks.length = 3 ∧
      EachOnce v := by
  have hrun : ∃ r ∈ (prepareBlocks .plain (sampleOutgoing false)).toOption, ∃ v ∈ r,
      v.blocks.length = 3 ∧ ¬Spoiled Config.plain.growth v.calls ∧
        payloadsAsked (sampleOutgoing false) ≤ 1 := by
    decide +kernel
  obtain ⟨r, hr, v, hv, hlen, hcondition⟩ := hrun
  rw [Exec.mem_toOption] at hr
  rw [Option.mem_def.mp hv] at hr
  refine ⟨v, hr, hlen, ?_⟩
  exact (prepareBlocks_eachOnce .plain (sampleOutgoing false) (fun h => absurd rfl h) v hr).mpr
    hcondition

/-- The previous hop block is the second block to be inserted. It finds three blocks in a vector with room
for four: it is lost, and the payload block is in the list twice. -/
theorem second_insertion_lost :
    ∃ v, prepareBlocks .plain (sampleOutgoing true) = .ok (some v) ∧
      v.calls.map (fun c => c.value.owner) =
        [.primary, .payload, .base .api, .base .previousHop] ∧
      v.blocks.map XmitBlock.owner = [.primary, .base .api, .payload, .payload] ∧ ¬EachOnce v := by
  have hrun : ∃ r ∈ (prepareBlocks .plain (sampleOutgoing true)).toOption, ∃ v ∈ r,
      v.calls.map (fun c => c.value.owner) =
        [.primary, .payload, .base .api, .base .previousHop] ∧
      v.blocks.map XmitBlock.owner = [.primary, .base .api, .payload, .payload] ∧
      v.blocks.countP (fun b => decide (b.owner = .payload)) = 2 := by
    decide +kernel
  obtain ⟨r, hr, v, hv, hcalls, hblocks, hpayloads⟩ := hrun
  rw [Exec.mem_toOption] at hr
  rw [Option.mem_def.mp hv] at hr
  refine ⟨v, hr, hcalls, hblocks, ?_⟩
  intro honce
  rw [honce.payload] at hpayloads
  cases hpayloads

end PrepareBlocks

end Dtn2
