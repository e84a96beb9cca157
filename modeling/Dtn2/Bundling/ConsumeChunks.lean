import Dtn2.Bundling.ConsumeRun

/-!
# Runs over chunks

A call of `BundleProtocol::consume` is a run of rounds, and a transfer is a run of calls. Along a
run whose rounds all meet `RoundReads` and none of which ends the process, the parser follows
`parse` on the concatenation of the chunks, so how the bytes were cut does not show.
-/

namespace Dtn2

open Framework

namespace BundleProtocol

/-- The condition `R` holds at every round of the loop of `consume`. -/
def LoopMeets (R : Bundle → Bytes → Prop) (params : Params) (os : Oasys) :
    Nat → Bundle → Bytes → Prop
  | _, _, [] => True
  | 0, _, _ :: _ => True
  | fuel + 1, bundle, b :: bs =>
      R bundle (b :: bs) ∧
        match consumeRound params os bundle (b :: bs) with
        | .ok (bundle', rest, false) => LoopMeets R params os fuel bundle' rest
        | _ => True

/-- The condition `R` holds at every round of every call of a transfer. -/
def FeedMeets (R : Bundle → Bytes → Prop) (params : Params) (os : Oasys) :
    Bundle → List Bytes → Prop
  | _, [] => True
  | bundle, chunk :: chunks =>
      LoopMeets R params os chunk.length (openPrimary os bundle) chunk ∧
        match consume params os bundle chunk with
        | .ok (bundle', _, false) => FeedMeets R params os bundle' chunks
        | _ => True

instance decidableLoopMeets (R : Bundle → Bytes → Prop) [∀ b bs, Decidable (R b bs)]
    (params : Params) (os : Oasys) :
    (fuel : Nat) → (bundle : Bundle) → (data : Bytes) →
      Decidable (LoopMeets R params os fuel bundle data)
  | 0, _, [] => isTrue trivial
  | _ + 1, _, [] => isTrue trivial
  | 0, _, _ :: _ => isTrue trivial
  | fuel + 1, bundle, b :: bs =>
      match h : consumeRound params os bundle (b :: bs) with
      | .ok (bundle', rest, false) =>
          have := decidableLoopMeets R params os fuel bundle' rest
          decidable_of_iff (R bundle (b :: bs) ∧ LoopMeets R params os fuel bundle' rest)
            (by simp only [LoopMeets, h])
      | .ok (_, _, true) => decidable_of_iff (R bundle (b :: bs)) (by simp [LoopMeets, h])
      | .error _ => decidable_of_iff (R bundle (b :: bs)) (by simp [LoopMeets, h])

instance decidableFeedMeets (R : Bundle → Bytes → Prop) [∀ b bs, Decidable (R b bs)]
    (params : Params) (os : Oasys) :
    (bundle : Bundle) → (chunks : List Bytes) → Decidable (FeedMeets R params os bundle chunks)
  | _, [] => isTrue trivial
  | bundle, chunk :: chunks =>
      match h : consume params os bundle chunk with
      | .ok (bundle', _, false) =>
          have := decidableFeedMeets R params os bundle' chunks
          decidable_of_iff (LoopMeets R params os chunk.length (openPrimary os bundle) chunk ∧
            FeedMeets R params os bundle' chunks) (by simp only [FeedMeets, h])
      | .ok (_, _, true) => decidable_of_iff
          (LoopMeets R params os chunk.length (openPrimary os bundle) chunk)
          (by simp [FeedMeets, h])
      | .error _ => decidable_of_iff
          (LoopMeets R params os chunk.length (openPrimary os bundle) chunk)
          (by simp [FeedMeets, h])

theorem LoopMeets.mono {params : Params} {os : Oasys} {R R' : Bundle → Bytes → Prop}
    (hR : ∀ b d, R b d → R' b d) {fuel : Nat} {bundle : Bundle} {data : Bytes}
    (h : LoopMeets R params os fuel bundle data) : LoopMeets R' params os fuel bundle data := by
  induction fuel generalizing bundle data with
  | zero => cases data <;> trivial
  | succ fuel ih =>
      cases data with
      | nil => trivial
      | cons b bs =>
          obtain ⟨hround, htail⟩ := h
          refine ⟨hR _ _ hround, ?_⟩
          cases hr : consumeRound params os bundle (b :: bs) with
          | error s => trivial
          | ok r =>
              obtain ⟨bundle', rest, last⟩ := r
              rw [hr] at htail
              cases last with
              | true => trivial
              | false => exact ih htail

/-! ## The state a run has reached -/

/-- The bundle that the parser holds, up to the memory behind the contents of its blocks. -/
def Progress.bundle (os : Oasys) : Progress → Option Bundle
  | .error => none
  | .within base owner acc =>
      some ((setPayload base (base.payload.data ++
        partialData os base.recvBlocks.dict owner acc)).withBlocks
          (base.recvBlocks.blocks ++ [partialBlock os base.recvBlocks.dict owner acc]))
  | .between base => some base
  | .done bundle _ => some bundle

section Reached

variable {params : Params} {os : Oasys} {bundle : Bundle} {σ : Progress}

theorem Tracks.bundle_eq (h : Tracks params os bundle σ) : σ.bundle os = some bundle.erase := by
  cases σ with
  | error => exact absurd h id
  | within base owner acc =>
      obtain ⟨⟨done, info, hw⟩, -⟩ := h
      have hself : setPayload bundle (base.payload.data ++
          partialData os base.recvBlocks.dict owner acc) = bundle := by
        rw [← hw.dict, ← hw.holds.payload_data]
        rfl
      have heq := hw.setPayload_eq (base.payload.data ++
        partialData os base.recvBlocks.dict owner acc)
      rw [hself] at heq
      have hblocks : bundle.recvBlocks.blocks.map BlockInfo.erase =
          base.recvBlocks.blocks ++ [partialBlock os base.recvBlocks.dict owner acc] := by
        rw [hw.blocks, List.map_append, hw.done_eq, List.map_singleton, hw.info_rep.erased, hw.dict]
      have herase : bundle.erase = bundle.withBlocks
          (base.recvBlocks.blocks ++ [partialBlock os base.recvBlocks.dict owner acc]) := by
        rw [Bundle.erase, hblocks]
      rw [herase, heq]
      rfl
  | between base => exact congrArg some h.1.symm
  | done b rest => exact congrArg some (Eq.symm h)

theorem Tracks.continue_nil (h : Tracks params os bundle σ) (hdone : ∀ b rest, σ ≠ .done b rest) :
    σ.continue params os [] = σ := by
  cases σ with
  | error => rfl
  | within base owner acc =>
      obtain ⟨⟨done, info, hw⟩, -⟩ := h
      have hp := hw.info_rep.pending
      rw [hw.dict] at hp
      change parse params os base owner (acc ++ []) = _
      rw [List.append_nil, parse_incomplete hp]
  | between base => rfl
  | done b rest => exact absurd rfl (hdone b rest)

theorem Tracks.openPrimary_eq (h : Tracks params os bundle σ)
    (hdone : ∀ b rest, σ ≠ .done b rest) : openPrimary os bundle = bundle := by
  have hne : bundle.recvBlocks.blocks ≠ [] := by
    cases σ with
    | error => exact absurd h id
    | within base owner acc =>
        obtain ⟨⟨done, info, hw⟩, -⟩ := h
        rw [hw.blocks]
        simp
    | between base =>
        obtain ⟨-, -, info, hlast, -⟩ := h
        intro hnil
        rw [hnil] at hlast
        cases hlast
    | done b rest => exact absurd rfl (hdone b rest)
  unfold openPrimary
  rw [if_neg hne]

theorem tracks_new (params : Params) (os : Oasys) (id : Nat) (now : UInt64) :
    Tracks params os (openPrimary os (Bundle.new id now))
      (.within (Bundle.new id now) .primary []) := by
  refine ⟨⟨[], BlockInfo.new os .primary, ?_⟩, Or.inl ⟨rfl, rfl⟩⟩
  refine ⟨rfl, rfl, represents_new os _ _, rfl, ⟨rfl, ?_, ?_⟩, rfl, ?_⟩
  · intro h
    cases h
  · intro h
    cases h
  · intro h
    cases h

end Reached

/-! ## A call and a transfer -/

section Run

variable {params : Params} {os : Oasys}

/-- What a call and `parse` have in common after it. -/
def LoopAgrees (params : Params) (os : Oasys) (σ : Progress) (data : Bytes) :
    Exec (Bundle × Bytes × Bool) → Prop
  | .error s => s = .protocolError ∧ σ.continue params os data = .error
  | .ok (bundle, rest, true) =>
      rest.length ≤ data.length ∧ σ.continue params os data = .done bundle.erase rest
  | .ok (bundle, rest, false) =>
      rest = [] ∧ Tracks params os bundle (σ.continue params os data) ∧
        ∀ b r, σ.continue params os data ≠ .done b r

theorem consumeLoop_refines (fuel : Nat) (bundle : Bundle) (σ : Progress) (data : Bytes)
    (hfuel : data.length ≤ fuel) (h : Tracks params os bundle σ)
    (hdone : ∀ b rest, σ ≠ .done b rest)
    (hmeets : LoopMeets (RoundReads params os) params os fuel bundle data)
    (hnf : ¬ (consumeLoop params os fuel bundle data).Faults) :
    LoopAgrees params os σ data (consumeLoop params os fuel bundle data) := by
  induction fuel generalizing bundle σ data with
  | zero =>
      have hnil : data = [] := List.length_eq_zero_iff.mp (by omega)
      subst hnil
      have hcont := h.continue_nil hdone
      refine ⟨rfl, ?_, ?_⟩ <;> rw [hcont]
      · exact h
      · exact hdone
  | succ fuel ih =>
      cases data with
      | nil =>
          have hcont := h.continue_nil hdone
          refine ⟨rfl, ?_, ?_⟩ <;> rw [hcont]
          · exact h
          · exact hdone
      | cons b bs =>
          obtain ⟨hround, htail⟩ := hmeets
          have hrnf : ¬ (consumeRound params os bundle (b :: bs)).Faults := by
            rintro ⟨f, hf⟩
            apply hnf
            refine ⟨f, ?_⟩
            rw [consumeLoop, hf]
            rfl
          have hag := consumeRound_refines h (by simp) hdone hround hrnf
          rw [consumeLoop] at hnf ⊢
          cases hr : consumeRound params os bundle (b :: bs) with
          | error s =>
              rw [hr] at hag
              exact hag
          | ok r =>
              obtain ⟨bundle', rest, last⟩ := r
              rw [hr] at hag hnf htail
              cases last with
              | true =>
                  obtain ⟨used, -, hsplit, hcont⟩ := hag
                  refine ⟨by rw [hsplit, List.length_append]; omega, ?_⟩
                  rw [hsplit, ← Progress.continue_append, hcont]
                  rfl
              | false =>
                  obtain ⟨used, hused, hsplit, htracks, hdone'⟩ := hag
                  have hlt := List.length_pos_of_ne_nil hused
                  have hlen := congrArg List.length hsplit
                  rw [List.length_append] at hlen
                  have hrec := ih bundle' _ rest (by omega) htracks hdone' htail hnf
                  have hcont : σ.continue params os (b :: bs) =
                      (σ.continue params os used).continue params os rest := by
                    rw [hsplit, Progress.continue_append]
                  change LoopAgrees params os σ (b :: bs) (consumeLoop params os fuel bundle' rest)
                  cases hl : consumeLoop params os fuel bundle' rest with
                  | error s =>
                      rw [hl] at hrec
                      exact ⟨hrec.1, hcont.trans hrec.2⟩
                  | ok r =>
                      obtain ⟨bundle'', rest', last'⟩ := r
                      rw [hl] at hrec
                      cases last' with
                      | true => exact ⟨by have := hrec.1; omega, hcont.trans hrec.2⟩
                      | false =>
                          rw [LoopAgrees, hcont]
                          exact hrec

/-- What is observed of a transfer: the bundle, the bytes consumed by all calls and `*last`. The
memory behind the contents of the received blocks is left out. -/
def outcome (x : Exec (Bundle × List Report)) : Exec (Bundle × Int × Bool) :=
  x.map fun r => (r.1.erase, (r.2.map Report.consumed).sum, r.2.any Report.last)

/-- What is observed after the progress made on `total` bytes. -/
def Progress.outcome (os : Oasys) (total : Int) : Progress → Exec (Bundle × Int × Bool)
  | .error => .error .protocolError
  | .done bundle rest => .ok (bundle, total - rest.length, true)
  | σ => match σ.bundle os with
    | none => .error .protocolError
    | some bundle => .ok (bundle, total, false)

theorem Progress.outcome_add (os : Oasys) (m n : Int) (σ : Progress) :
    σ.outcome os (m + n) = (σ.outcome os n).map fun r => (r.1, m + r.2.1, r.2.2) := by
  cases σ with
  | error => rfl
  | within base owner acc => rfl
  | between base => rfl
  | done b rest =>
      have hsub : m + n - (rest.length : Int) = m + (n - rest.length) := by omega
      simp only [Progress.outcome, Except.map, hsub]

theorem Tracks.outcome_eq {bundle : Bundle} {σ : Progress} (h : Tracks params os bundle σ)
    (hdone : ∀ b rest, σ ≠ .done b rest) (n : Int) :
    σ.outcome os n = .ok (bundle.erase, n, false) := by
  have hb := h.bundle_eq
  cases σ with
  | error => exact absurd h id
  | within base owner acc => simp only [Progress.outcome, hb]
  | between base => simp only [Progress.outcome, hb]
  | done b rest => exact absurd rfl (hdone b rest)

theorem chunk_lt_of_meets {bundle : Bundle} {σ : Progress} {chunk : Bytes}
    (h : Tracks params os bundle σ) (hdone : ∀ b rest, σ ≠ .done b rest)
    (hmeets : LoopMeets (RoundReads params os) params os chunk.length bundle chunk) :
    chunk.length < 2 ^ 31 := by
  cases chunk with
  | nil => simp
  | cons b bs =>
      obtain ⟨base, owner, acc, done, info, hw, -, -⟩ :=
        h.open (List.cons_ne_nil b bs) hdone
      exact (hmeets.1.chunk hw.getLast).chunk_lt

theorem consume_refines {bundle : Bundle} {σ : Progress} {chunk : Bytes}
    (h : Tracks params os bundle σ) (hdone : ∀ b rest, σ ≠ .done b rest)
    (hmeets : LoopMeets (RoundReads params os) params os chunk.length (openPrimary os bundle) chunk)
    (hnf : ¬ (consume params os bundle chunk).Faults) :
    (consume params os bundle chunk = .error .protocolError ∧
      σ.continue params os chunk = .error) ∨
    (∃ bundle' rest, rest.length ≤ chunk.length ∧
      consume params os bundle chunk = .ok (bundle', ((chunk.length - rest.length : Nat) : Int), true) ∧
      σ.continue params os chunk = .done bundle'.erase rest) ∨
    ∃ bundle', consume params os bundle chunk = .ok (bundle', (chunk.length : Int), false) ∧
      Tracks params os bundle' (σ.continue params os chunk) ∧
      ∀ b r, σ.continue params os chunk ≠ .done b r := by
  rw [h.openPrimary_eq hdone] at hmeets
  have hlt := chunk_lt_of_meets h hdone hmeets
  rw [consume, h.openPrimary_eq hdone] at hnf ⊢
  have hlnf : ¬ (consumeLoop params os chunk.length bundle chunk).Faults := by
    rintro ⟨f, hf⟩
    apply hnf
    refine ⟨f, ?_⟩
    rw [hf]
    rfl
  have hag := consumeLoop_refines chunk.length bundle σ chunk (le_refl _) h hdone hmeets hlnf
  cases hl : consumeLoop params os chunk.length bundle chunk with
  | error s =>
      rw [hl] at hag
      obtain ⟨rfl, hcont⟩ := hag
      exact Or.inl ⟨rfl, hcont⟩
  | ok r =>
      obtain ⟨bundle', rest, last⟩ := r
      rw [hl] at hag
      have hint : toInt (chunk.length - rest.length) = ((chunk.length - rest.length : Nat) : Int) :=
        toInt_of_lt (by omega)
      cases last with
      | true =>
          refine Or.inr (Or.inl ⟨bundle', rest, hag.1, ?_, hag.2⟩)
          rw [Exec.ok_bind]
          simp only [hint]
          rfl
      | false =>
          obtain ⟨rfl, htracks, hdone'⟩ := hag
          refine Or.inr (Or.inr ⟨bundle', ?_, htracks, hdone'⟩)
          rw [Exec.ok_bind]
          simp only [hint]
          rfl

theorem feed_refines (chunks : List Bytes) (bundle : Bundle) (σ : Progress)
    (h : Tracks params os bundle σ) (hdone : ∀ b rest, σ ≠ .done b rest)
    (hmeets : FeedMeets (RoundReads params os) params os bundle chunks)
    (hnf : ¬ (feed params os bundle chunks).Faults) :
    outcome (feed params os bundle chunks) =
      (σ.continue params os chunks.flatten).outcome os chunks.flatten.length := by
  induction chunks generalizing bundle σ with
  | nil =>
      rw [List.flatten_nil, h.continue_nil hdone, h.outcome_eq hdone]
      rfl
  | cons chunk chunks ih =>
      obtain ⟨hloop, htail⟩ := hmeets
      have hcnf : ¬ (consume params os bundle chunk).Faults := by
        rintro ⟨f, hf⟩
        apply hnf
        refine ⟨f, ?_⟩
        rw [feed, hf]
        rfl
      rw [List.flatten_cons, ← Progress.continue_append, List.length_append]
      rw [feed] at hnf ⊢
      rcases consume_refines h hdone hloop hcnf with ⟨hc, hcont⟩ |
        ⟨bundle', rest, hle, hc, hcont⟩ | ⟨bundle', hc, htracks, hdone'⟩
      · rw [hc, hcont]
        rfl
      · rw [hc, hcont, Exec.ok_bind]
        have hsub : ((chunk.length - rest.length : Nat) : Int) =
            ((chunk.length + chunks.flatten.length : Nat) : Int) -
              ((rest ++ chunks.flatten).length : Nat) := by
          rw [List.length_append]
          omega
        simp only [Progress.continue, Progress.outcome, ← hsub, outcome]
        simp [Except.map, pure, Except.pure]
      · rw [hc] at htail hnf ⊢
        rw [Exec.ok_bind] at hnf ⊢
        simp only [Bool.false_eq_true, if_false] at hnf ⊢
        have hfnf : ¬ (feed params os bundle' chunks).Faults := by
          rintro ⟨f, hf⟩
          apply hnf
          refine ⟨f, ?_⟩
          rw [hf]
          rfl
        have hrec := ih bundle' _ htracks hdone' htail hfnf
        rw [Nat.cast_add, Progress.outcome_add, ← hrec]
        cases feed params os bundle' chunks with
        | error s => rfl
        | ok r => rfl

theorem openPrimary_openPrimary (os : Oasys) (bundle : Bundle) :
    openPrimary os (openPrimary os bundle) = openPrimary os bundle := by
  unfold openPrimary
  by_cases hb : bundle.recvBlocks.blocks = []
  · rw [if_pos hb, if_neg (by simp [appendBlock])]
  · rw [if_neg hb, if_neg hb]

theorem feed_openPrimary (os : Oasys) (bundle : Bundle) (chunk : Bytes) (chunks : List Bytes) :
    feed params os (openPrimary os bundle) (chunk :: chunks) =
      feed params os bundle (chunk :: chunks) := by
  rw [feed, feed, consume, consume, openPrimary_openPrimary]

theorem feedMeets_openPrimary (R : Bundle → Bytes → Prop) (os : Oasys) (bundle : Bundle)
    (chunk : Bytes) (chunks : List Bytes) :
    FeedMeets R params os (openPrimary os bundle) (chunk :: chunks) ↔
      FeedMeets R params os bundle (chunk :: chunks) := by
  rw [FeedMeets, FeedMeets, consume, consume, openPrimary_openPrimary]

theorem feed_new_refines (id : Nat) (now : UInt64) (chunk : Bytes) (chunks : List Bytes)
    (hmeets : FeedMeets (RoundReads params os) params os (Bundle.new id now) (chunk :: chunks))
    (hnf : ¬ (feed params os (Bundle.new id now) (chunk :: chunks)).Faults) :
    outcome (feed params os (Bundle.new id now) (chunk :: chunks)) =
      (parse params os (Bundle.new id now) .primary (chunk :: chunks).flatten).outcome os
        (chunk :: chunks).flatten.length := by
  rw [← feedMeets_openPrimary] at hmeets
  rw [← feed_openPrimary] at hnf ⊢
  have hdone : ∀ b rest, Progress.within (Bundle.new id now) .primary [] ≠ .done b rest := by
    intro b rest h
    cases h
  have hrun := feed_refines (chunk :: chunks) _ _ (tracks_new params os id now) hdone hmeets hnf
  exact hrun

end Run

/-- Two transfers of the same bytes in non-empty chunks to a new bundle, neither of which ends
the process, have the same outcome, if the rounds of both depend on the bytes received alone. -/
theorem feed_chunk_invariant (params : Params) (os : Oasys) (id : Nat) (now : UInt64)
    (chunks chunks' : List Bytes) (hne : ∀ chunk ∈ chunks, chunk ≠ [])
    (hne' : ∀ chunk ∈ chunks', chunk ≠ []) (hsame : chunks.flatten = chunks'.flatten)
    (hnf : ¬ (feed params os (Bundle.new id now) chunks).Faults)
    (hnf' : ¬ (feed params os (Bundle.new id now) chunks').Faults)
    (hmeets : FeedMeets (RoundReads params os) params os (Bundle.new id now) chunks)
    (hmeets' : FeedMeets (RoundReads params os) params os (Bundle.new id now) chunks') :
    outcome (feed params os (Bundle.new id now) chunks) =
      outcome (feed params os (Bundle.new id now) chunks') := by
  have hempty : ∀ cs : List Bytes, (∀ c ∈ cs, c ≠ []) → cs.flatten = [] → cs = [] := by
    intro cs hcs hflat
    cases cs with
    | nil => rfl
    | cons c cs =>
        rw [List.flatten_cons, List.append_eq_nil_iff] at hflat
        exact absurd hflat.1 (hcs c (by simp))
  cases chunks with
  | nil =>
      rw [List.flatten_nil] at hsame
      rw [hempty chunks' hne' hsame.symm]
  | cons chunk rest =>
      cases chunks' with
      | nil =>
          rw [List.flatten_nil] at hsame
          cases hempty _ hne hsame
      | cons chunk' rest' =>
          rw [feed_new_refines id now chunk rest hmeets hnf,
            feed_new_refines id now chunk' rest' hmeets' hnf', hsame]

/-- A primary block without a dictionary. -/
def samplePrimary : Bytes := [6, 0x10, 12, 0, 0, 0, 0, 0, 0, 0, 0, 0, 0, 0, 0]

theorem feed_chunk_invariant_sample :
    outcome (feed .default .plain (Bundle.new 0 0)
      [samplePrimary ++ [0x0c, 0x40, 1, 0, 0, 1, 7], [1, 8, 2, 0xaa, 0xbb]]) =
    outcome (feed .default .plain (Bundle.new 0 0)
      ((samplePrimary ++ [0x0c, 0x40, 1, 0, 0, 1, 7, 1, 8, 2, 0xaa, 0xbb]).map fun b => [b])) :=
  feed_chunk_invariant .default .plain 0 0 _ _ (by decide) (by decide) (by decide)
    (by decide +kernel) (by decide +kernel) (by decide +kernel) (by decide +kernel)

/-- A session block that says it has no data and is the last block, and one more byte. -/
def emptySession : Bytes := [0x0c, 0x48, 1, 0, 0, 0, 0x55]

/-- The flags of a session block without data are taken from memory behind the block, where the
next byte of the chunk has been if there was one. -/
theorem feed_not_chunk_invariant :
    (∀ chunk ∈ [samplePrimary ++ emptySession], chunk ≠ []) ∧
    (∀ chunk ∈ [samplePrimary ++ emptySession.take 6, emptySession.drop 6], chunk ≠ []) ∧
    [samplePrimary ++ emptySession].flatten =
      [samplePrimary ++ emptySession.take 6, emptySession.drop 6].flatten ∧
    ¬ (feed .default .plain (Bundle.new 0 0) [samplePrimary ++ emptySession]).Faults ∧
    ¬ (feed .default .plain (Bundle.new 0 0)
      [samplePrimary ++ emptySession.take 6, emptySession.drop 6]).Faults ∧
    outcome (feed .default .plain (Bundle.new 0 0) [samplePrimary ++ emptySession]) ≠
      outcome (feed .default .plain (Bundle.new 0 0)
        [samplePrimary ++ emptySession.take 6, emptySession.drop 6]) := by
  decide +kernel

end BundleProtocol

end Dtn2
