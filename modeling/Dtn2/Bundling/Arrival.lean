import Dtn2.Bundling.ConsumeSafety

/-!
# The arrival of a well-formed bundle

`Parses` says that a byte string is one block after the other up to a last block, each within the
bounds of the parser, and what bundle it is. However such a string is cut into chunks, every
round of the transfer meets its conditions, every call takes its whole chunk, and the last block
is reported with the last chunk.
-/

namespace Dtn2

open Framework

namespace BundleProtocol

/-- A block at the front of the bytes within the bounds of the parser. -/
structure BlockFits (os : Oasys) (base : Bundle) (owner : Processor) (bytes : Bytes)
    (blk : BlockInfo) (d : Bytes) : Prop where
  preamble : ∀ p tail, scanPreamble os base.recvBlocks.dict bytes = some (p, tail) →
    bytes.length - tail.length ≤ 64
  no_wrap : owner ≠ .payload →
    ∀ p tail, scanPreamble os base.recvBlocks.dict bytes = some (p, tail) →
      bytes.length - tail.length + p.blockLen.toNat < 2 ^ 32
  no_payload : owner = .payload → base.payload.data = []
  reads : ReadsData blk d
  fits : FitsData blk d

/-- The bytes, which start in front of a block of the given owner, are blocks up to a last one,
and the bundle behind them. -/
inductive Parses (params : Params) (os : Oasys) : Bundle → Processor → Bytes → Bundle → Prop where
  | last {base result : Bundle} {owner : Processor} {bytes d : Bytes} {blk : BlockInfo} :
      parseBlock os base.recvBlocks.dict owner bytes = .complete blk d [] →
      BlockFits os base owner bytes blk d →
      completeBlock params os base blk d = .ok (result, true) →
      Parses params os base owner bytes result
  | next {base mid result : Bundle} {owner : Processor} {bytes d : Bytes} {blk : BlockInfo}
      {first : UInt8} {tail : Bytes} :
      parseBlock os base.recvBlocks.dict owner bytes = .complete blk d (first :: tail) →
      BlockFits os base owner bytes blk d →
      completeBlock params os base blk d = .ok (mid, false) →
      Parses params os mid (findProcessor params first) (first :: tail) result →
      Parses params os base owner bytes result

section Leads

variable {params : Params} {os : Oasys} {base result : Bundle} {owner : Processor}
  {bytes : Bytes}

theorem Parses.first_block (h : Parses params os base owner bytes result) :
    ∃ blk d rest, parseBlock os base.recvBlocks.dict owner bytes = .complete blk d rest ∧
      BlockFits os base owner bytes blk d := by
  cases h with
  | last hp hfits _ => exact ⟨_, _, _, hp, hfits⟩
  | next hp hfits _ _ => exact ⟨_, _, _, hp, hfits⟩

theorem parse_of_parses (h : Parses params os base owner bytes result) :
    parse params os base owner bytes = .done result [] := by
  induction h with
  | last hp _ hc =>
      rw [parse_complete hp, hc]
      rfl
  | next hp _ hc _ ih =>
      rw [parse_complete hp, hc]
      exact ih

def Leads (params : Params) (os : Oasys) (σ : Progress) (more : Bytes) (result : Bundle) : Prop :=
  match σ with
  | .error => False
  | .within base owner acc => Parses params os base owner (acc ++ more) result
  | .between base => ∃ first tail, more = first :: tail ∧
      Parses params os base (findProcessor params first) more result
  | .done bundle rest => bundle = result ∧ rest ++ more = []

theorem leads_parse {acc more : Bytes} (h : Parses params os base owner (acc ++ more) result) :
    Leads params os (parse params os base owner acc) more result := by
  induction hn : acc.length using Nat.strong_induction_on generalizing base owner acc with
  | _ n ih =>
      cases hp : parseBlock os base.recvBlocks.dict owner acc with
      | incomplete =>
          rw [parse_incomplete hp]
          exact h
      | malformed =>
          obtain ⟨blk, d, rest, hp', -⟩ := h.first_block
          rw [parseBlock_append_malformed hp more] at hp'
          cases hp'
      | complete blk d rest =>
          have hlt := parseBlock_length hp
          have hp' := parseBlock_append_complete hp more
          rw [parse_complete hp]
          cases h with
          | last hq _ hc =>
              rw [hp'] at hq
              injection hq with hb hd hr
              subst hb hd
              rw [hc]
              exact ⟨rfl, hr⟩
          | next hq _ hc htail =>
              rw [hp'] at hq
              injection hq with hb hd hr
              subst hb hd
              rw [hc]
              rw [← hr] at htail
              cases rest with
              | nil => exact ⟨_, _, hr, htail⟩
              | cons b bs =>
                  obtain ⟨rfl, -⟩ := List.cons.inj hr
                  exact ih (b :: bs).length (by omega) htail rfl

theorem leads_continue {σ : Progress} {data more : Bytes}
    (h : Leads params os σ (data ++ more) result) :
    Leads params os (σ.continue params os data) more result := by
  cases σ with
  | error => exact h
  | within base owner acc =>
      have hparses : Parses params os base owner (acc ++ data ++ more) result := by
        rw [List.append_assoc]
        exact h
      exact leads_parse hparses
  | between base =>
      cases data with
      | nil => exact h
      | cons b bs =>
          obtain ⟨first, tail, hsplit, hparses⟩ := h
          obtain ⟨rfl, -⟩ := List.cons.inj hsplit
          exact leads_parse hparses
  | done bundle rest =>
      refine ⟨h.1, ?_⟩
      rw [List.append_assoc]
      exact h.2

theorem continue_of_leads {σ : Progress} {data : Bytes} (h : Leads params os σ data result)
    (hdone : ∀ b rest, σ ≠ .done b rest) : σ.continue params os data = .done result [] := by
  cases σ with
  | error => exact absurd h id
  | within base owner acc => exact parse_of_parses h
  | between base =>
      obtain ⟨first, tail, rfl, hparses⟩ := h
      exact parse_of_parses hparses
  | done bundle rest => exact absurd rfl (hdone bundle rest)

end Leads

/-! ## The rounds of such a transfer -/

section Rounds

variable {params : Params} {os : Oasys} {base bundle result : Bundle} {owner : Processor}
  {acc data more : Bytes} {done : List BlockInfo} {info : BlockInfo} {σ : Progress}

private theorem acc_lt_preamble {dict : Dictionary} {p : Preamble} {tail : Bytes}
    (hacc : scanPreamble os dict acc = none)
    (hs : scanPreamble os dict (acc ++ more) = some (p, tail)) :
    acc.length < (acc ++ more).length - tail.length := by
  have hused := scanPreamble_used hacc hs
  omega

private theorem chunkFits_of_parses
    (hw : Within os base owner acc (openBlock params os bundle data) done info)
    (hparses : Parses params os base owner (acc ++ (data ++ more)) result)
    (hlt : data.length < 2 ^ 31) : ChunkFits info data := by
  refine ⟨hlt, ?_⟩
  intro ho
  have hnone := hw.info_rep.dataOffset_eq_zero.mp ho
  have hfilled := (hw.info_rep.early hnone).2.2
  rw [hw.dict] at hnone
  obtain ⟨blk, d, rest, hp, hfits⟩ := hparses.first_block
  obtain ⟨p, tail, hs, -⟩ := parseBlock_eq_complete hp
  have hsmall := hfits.preamble p tail hs
  have hpre := acc_lt_preamble hnone hs
  rw [ScratchBuffer.len, hfilled]
  omega

private theorem BlockFits.preambleFits {blk : BlockInfo} {d rest : Bytes}
    (hrep : Represents os base.recvBlocks.dict owner acc info)
    (hp : parseBlock os base.recvBlocks.dict owner (acc ++ (data ++ more)) = .complete blk d rest)
    (hfits : BlockFits os base owner (acc ++ (data ++ more)) blk d) (ho : info.dataOffset = 0) :
    BlockProcessor.PreambleFits os base.recvBlocks.dict info data := by
  have hnone := hrep.dataOffset_eq_zero.mp ho
  have hfilled := (hrep.early hnone).2.2
  have hroom := BlockProcessor.room_eq os info
  have hgrow := BlockProcessor.bufLen_openContents os info
  have hcap := hrep.capacity
  obtain ⟨p, tail, hs, -⟩ := parseBlock_eq_complete hp
  have hsmall := hfits.preamble p tail hs
  by_cases hle : data.length ≤ BlockProcessor.room os info
  · exact Or.inl hle
  · refine Or.inr ?_
    rw [hfilled] at hroom ⊢
    have hvisible : acc ++ data.take (BlockProcessor.room os info) =
        (acc ++ (data ++ more)).take (acc.length + BlockProcessor.room os info) := by
      rw [List.take_length_add_append, List.take_append_of_le_length (by omega)]
    rw [hvisible, scanPreamble_take hs (by omega)]
    rfl

theorem BlockFits.callFits {blk : BlockInfo} {d rest : Bytes}
    (hrep : Represents os base.recvBlocks.dict owner acc info)
    (hp : parseBlock os base.recvBlocks.dict owner (acc ++ (data ++ more)) = .complete blk d rest)
    (hfits : BlockFits os base owner (acc ++ (data ++ more)) blk d)
    (hdict : bundle.recvBlocks.dict = base.recvBlocks.dict)
    (hpay : owner = .payload → info.dataOffset = 0 → bundle.payload.length = 0) :
    CallFits os bundle info data := by
  have howner := hrep.fields.1
  constructor
  · intro ho
    rw [hdict]
    exact hfits.preambleFits hrep hp ho
  · intro hne p tail hs hsmall
    rw [howner] at hne
    rw [hrep.filled hne, hdict] at hs
    rw [hrep.filled hne]
    have hs' := scanPreamble_append hs more
    rw [List.append_assoc] at hs'
    have hwrap := hfits.no_wrap hne p _ hs'
    left
    simp only [List.length_append] at hwrap ⊢
    omega
  · intro ho
    rw [howner] at ho
    exact hpay ho

private theorem callFits_of_parses
    (hw : Within os base owner acc (openBlock params os bundle data) done info)
    (hparses : Parses params os base owner (acc ++ (data ++ more)) result) :
    CallFits os (openBlock params os bundle data) info data := by
  obtain ⟨blk, d, rest, hp, hfits⟩ := hparses.first_block
  have hrep := hw.info_rep
  rw [hw.dict] at hrep
  apply hfits.callFits hrep hp hw.dict
  intro ho hoff
  have hnone := hw.info_rep.dataOffset_eq_zero.mp hoff
  rw [BundlePayload.length, hw.holds.payload_data, hfits.no_payload ho, partialData, hnone]
  rfl

private theorem completed_of_parses {P : BlockInfo → Bytes → Prop}
    (hw : Within os base owner acc (openBlock params os bundle data) done info)
    (hparses : Parses params os base owner (acc ++ (data ++ more)) result)
    (hP : ∀ blk d, BlockFits os base owner (acc ++ (data ++ more)) blk d → P blk d)
    (hpay : ∀ blk d, blk.owner = .payload → P blk d) :
    Completed os bundle.recvBlocks.dict info data P := by
  have hdict : bundle.recvBlocks.dict = base.recvBlocks.dict := by
    rw [← hw.dict, openBlock_dict]
  obtain ⟨blk, d, rest, hp, hfits⟩ := hparses.first_block
  rw [Completed, hdict, hw.info_rep.fields.1]
  by_cases hne : owner = .payload
  · split
    · rename_i blk' d' rest' hp'
      obtain ⟨p, tail, -, -, -, hblk, -, -⟩ := parseBlock_eq_complete hp'
      apply hpay
      rw [hblk]
      exact hne
    · trivial
  · rw [hw.info_rep.filled hne]
    split
    · rename_i blk' d' rest' hp'
      have hmore := parseBlock_append_complete hp' more
      rw [List.append_assoc, hp] at hmore
      injection hmore with hb hd _
      rw [← hb, ← hd]
      exact hP blk d hfits
    · trivial

def RoundClean (params : Params) (os : Oasys) (bundle : Bundle) (data : Bytes) : Prop :=
  RoundReads params os bundle data ∧ RoundFits params os bundle data

theorem roundClean_of_leads (h : Tracks params os bundle σ) (hne : data ≠ [])
    (hdone : ∀ b rest, σ ≠ .done b rest) (hleads : Leads params os σ (data ++ more) result)
    (hlt : data.length < 2 ^ 31) : RoundClean params os bundle data := by
  have hwithin : ∃ base owner acc done info,
      Within os base owner acc (openBlock params os bundle data) done info ∧
      Parses params os base owner (acc ++ (data ++ more)) result := by
    cases σ with
    | error => exact absurd h id
    | within base owner acc =>
        obtain ⟨⟨done, info, hw⟩, -⟩ := h
        refine ⟨base, owner, acc, done, info, ?_, hleads⟩
        rw [hw.openBlock]
        exact hw
    | between base =>
        obtain ⟨first, tail, hsplit, hparses⟩ := hleads
        cases data with
        | nil => exact absurd rfl hne
        | cons b bs =>
            obtain ⟨rfl, -⟩ := List.cons.inj hsplit
            obtain ⟨done, info, hw⟩ := within_of_between h b bs
            exact ⟨base, _, [], done, info, hw, hparses⟩
    | done b rest => exact absurd rfl (hdone b rest)
  obtain ⟨base, owner, acc, done, info, hw, hparses⟩ := hwithin
  have hback : backBlock params os bundle data = some info := hw.getLast
  have hsize := chunkFits_of_parses hw hparses hlt
  have hpay : ∀ blk : BlockInfo, blk.owner = .payload →
      blk.owner ≠ .primary ∧ blk.owner ≠ .session ∧
        ¬ (blk.owner = .sequenceID ∨ blk.owner = .obsoletesID) := by
    intro blk ho
    rw [ho]
    decide
  constructor
  · rw [RoundReads, hback]
    refine ⟨hsize, completed_of_parses hw hparses (fun _ _ hf => hf.reads) ?_⟩
    intro blk d ho
    obtain ⟨-, hsession, hseq⟩ := hpay blk ho
    exact ⟨fun hs => absurd hs hsession, fun hs => absurd hs hseq⟩
  · rw [RoundFits, hback]
    refine ⟨hsize, callFits_of_parses hw hparses,
      completed_of_parses hw hparses (fun _ _ hf => hf.fits) ?_⟩
    intro blk d ho
    obtain ⟨hprimary, -, hseq⟩ := hpay blk ho
    exact ⟨fun hs => absurd hs hprimary, fun hs => absurd hs hseq⟩

end Rounds

/-! ## The transfer -/

section Transfer

variable {params : Params} {os : Oasys} {result : Bundle}

theorem loopMeets_of_leads (fuel : Nat) (bundle : Bundle) (σ : Progress) (data more : Bytes)
    (h : Tracks params os bundle σ) (hdone : ∀ b rest, σ ≠ .done b rest)
    (hleads : Leads params os σ (data ++ more) result) (hlt : data.length < 2 ^ 31) :
    LoopMeets (RoundClean params os) params os fuel bundle data := by
  induction fuel generalizing bundle σ data with
  | zero => cases data <;> trivial
  | succ fuel ih =>
      cases data with
      | nil => trivial
      | cons b bs =>
          have hne := List.cons_ne_nil b bs
          have hclean := roundClean_of_leads h hne hdone hleads hlt
          refine ⟨hclean, ?_⟩
          have hsafe := consumeRound_safe h hne hdone hclean.2
          have hnf : ¬ (consumeRound params os bundle (b :: bs)).Faults := by
            rintro ⟨f, hf⟩
            rw [hf] at hsafe
            cases hsafe
          have hag := consumeRound_refines h hne hdone hclean.1 hnf
          cases hr : consumeRound params os bundle (b :: bs) with
          | error s => trivial
          | ok r =>
              obtain ⟨bundle', rest, last⟩ := r
              rw [hr] at hag
              cases last with
              | true => trivial
              | false =>
                  obtain ⟨used, -, hsplit, htracks, hdone'⟩ := hag
                  rw [hsplit, List.append_assoc] at hleads
                  have hrest : rest.length < 2 ^ 31 := by
                    have hlen := congrArg List.length hsplit
                    rw [List.length_append] at hlen
                    omega
                  exact ih bundle' _ rest htracks hdone' (leads_continue hleads) hrest

/-- A call takes its whole chunk and reports the last block with the last byte. -/
theorem consume_of_leads {bundle : Bundle} {σ : Progress} {chunk more : Bytes}
    (h : Tracks params os bundle σ) (hdone : ∀ b rest, σ ≠ .done b rest)
    (hleads : Leads params os σ (chunk ++ more) result) (hlt : chunk.length < 2 ^ 31) :
    (more = [] ∧ ∃ bundle', consume params os bundle chunk =
      .ok (bundle', (chunk.length : Int), true) ∧ bundle'.erase = result) ∨
    ∃ bundle', consume params os bundle chunk = .ok (bundle', (chunk.length : Int), false) ∧
      Tracks params os bundle' (σ.continue params os chunk) ∧
      (∀ b r, σ.continue params os chunk ≠ .done b r) ∧
      Leads params os (σ.continue params os chunk) more result := by
  have hmeets := loopMeets_of_leads chunk.length bundle σ chunk more h hdone hleads hlt
  rw [← h.openPrimary_eq hdone] at hmeets
  have hopen : Tracks params os (openPrimary os bundle) σ := by
    rw [h.openPrimary_eq hdone]
    exact h
  have hnf : ¬ (consume params os bundle chunk).Faults := by
    rintro ⟨f, hf⟩
    rcases consume_safe hopen hdone (hmeets.mono fun _ _ hc => hc.2) with
      hc | ⟨b, n, -, hc⟩ | ⟨b, σ', hc, -⟩ <;> rw [hf] at hc <;> cases hc
  have hnext := leads_continue hleads
  rcases consume_refines h hdone (hmeets.mono fun _ _ hc => hc.1) hnf with ⟨-, hcont⟩ |
    ⟨bundle', rest, -, hc, hcont⟩ | ⟨bundle', hc, htracks, hdone'⟩
  · rw [hcont] at hnext
    exact absurd hnext id
  · rw [hcont] at hnext
    obtain ⟨hresult, hnil⟩ := hnext
    obtain ⟨rfl, rfl⟩ := List.append_eq_nil_iff.mp hnil
    exact Or.inl ⟨rfl, bundle', hc, hresult⟩
  · exact Or.inr ⟨bundle', hc, htracks, hdone', hnext⟩

/-- What the calls report when every chunk is taken and the last one ends the bundle. -/
def taken : List Bytes → List Report
  | [] => []
  | [chunk] => [⟨chunk.length, true⟩]
  | chunk :: chunks => ⟨chunk.length, false⟩ :: taken chunks

theorem feed_of_leads (chunks : List Bytes) (bundle : Bundle) (σ : Progress)
    (h : Tracks params os bundle σ) (hdone : ∀ b rest, σ ≠ .done b rest)
    (hleads : Leads params os σ chunks.flatten result) (hchunks : chunks ≠ [])
    (hne : ∀ chunk ∈ chunks, chunk ≠ []) (hlt : ∀ chunk ∈ chunks, chunk.length < 2 ^ 31) :
    ∃ bundle', feed params os bundle chunks = .ok (bundle', taken chunks) ∧
      bundle'.erase = result := by
  induction chunks generalizing bundle σ with
  | nil => exact absurd rfl hchunks
  | cons chunk chunks ih =>
      rw [List.flatten_cons] at hleads
      have hthis := hlt chunk (by simp)
      rw [feed]
      rcases consume_of_leads h hdone hleads hthis with ⟨hnil, bundle', hc, hresult⟩ |
        ⟨bundle', hc, htracks, hdone', hnext⟩
      · cases chunks with
        | nil =>
            rw [hc]
            exact ⟨bundle', rfl, hresult⟩
        | cons next chunks =>
            rw [List.flatten_cons, List.append_eq_nil_iff] at hnil
            exact absurd hnil.1 (hne next (by simp))
      · cases chunks with
        | nil =>
            have hlast := continue_of_leads hnext hdone'
            rw [List.flatten_nil, htracks.continue_nil hdone'] at hlast
            exact absurd hlast (hdone' result [])
        | cons next chunks =>
            obtain ⟨b, hf, hresult⟩ := ih bundle' _ htracks hdone' hnext (by simp)
              (fun c hmem => hne c (List.mem_cons_of_mem _ hmem))
              (fun c hmem => hlt c (List.mem_cons_of_mem _ hmem))
            refine ⟨b, ?_, hresult⟩
            rw [hc, Exec.ok_bind]
            simp only [Bool.false_eq_true, if_false]
            rw [hf]
            rfl

/-- However a well-formed byte string is cut into non-empty chunks, a new bundle receives it. -/
theorem feed_of_parses {id : Nat} {now : UInt64} {bytes : Bytes}
    (h : Parses params os (Bundle.new id now) .primary bytes result) (chunks : List Bytes)
    (hflat : chunks.flatten = bytes) (hne : ∀ chunk ∈ chunks, chunk ≠ [])
    (hlt : ∀ chunk ∈ chunks, chunk.length < 2 ^ 31) :
    ∃ bundle, feed params os (Bundle.new id now) chunks = .ok (bundle, taken chunks) ∧
      bundle.erase = result := by
  have hdone : ∀ b rest, Progress.within (Bundle.new id now) .primary [] ≠ .done b rest := by
    intro b rest h
    cases h
  cases chunks with
  | nil =>
      rw [List.flatten_nil] at hflat
      subst hflat
      obtain ⟨blk, d, rest, hp, -⟩ := h.first_block
      have hlen := parseBlock_length hp
      simp at hlen
  | cons chunk chunks =>
      rw [← feed_openPrimary]
      apply feed_of_leads _ _ _ (tracks_new params os id now) hdone ?_ (by simp) hne hlt
      rw [hflat]
      exact h

end Transfer

end BundleProtocol

end Dtn2
