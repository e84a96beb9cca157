import Dtn2.Bundling.ConsumeSafety

/-!
# Chunks that the parser takes as a whole

The parser stops behind the block with `LAST_BLOCK`, and leaves what follows it in the chunk. If no
chunk goes beyond the end of that block, every call takes its chunk as a whole or fails.
-/

namespace Dtn2

open Framework

namespace BundleProtocol

/-! ## Conditions -/

/-- The bytes of a block received so far. The data of a payload block is in the payload. -/
def bytesSoFar (bundle : Bundle) (info : BlockInfo) : Bytes :=
  if info.owner = .payload ∧ info.dataOffset ≠ 0 then info.contents.filled ++ bundle.payload.data
  else info.contents.filled

/-- A block that ends in front of the end of the bytes does not have `LAST_BLOCK`. -/
def RoundEnds (params : Params) (os : Oasys) (bundle : Bundle) (data : Bytes) : Prop :=
  match backBlock params os bundle data with
  | none => True
  | some info =>
      match parseBlock os bundle.recvBlocks.dict info.owner
        (bytesSoFar (openBlock params os bundle data) info ++ data) with
      | .complete block _ (_ :: _) =>
          ∀ flags ∈ block.flags.toOption, flags &&& blockFlagLastBlock = 0
      | _ => True

/-- The conditions on a round under which it does not end the process and leaves nothing behind the
last block. -/
def RoundWhole (params : Params) (os : Oasys) (bundle : Bundle) (data : Bytes) : Prop :=
  RoundFits params os bundle data ∧ RoundEnds params os bundle data

section Decide

variable {params : Params} {os : Oasys} {bundle : Bundle} {data : Bytes}

theorem roundEnds_of_none (h : backBlock params os bundle data = none) :
    RoundEnds params os bundle data := by
  simp only [RoundEnds, h]

/-- What `RoundEnds` asks of a parsed block. -/
def BlockEnds : BlockParse → Prop
  | .complete block _ (_ :: _) => ∀ flags ∈ block.flags.toOption, flags &&& blockFlagLastBlock = 0
  | .complete _ _ [] => True
  | .incomplete => True
  | .malformed => True

theorem roundEnds_iff {info : BlockInfo} (h : backBlock params os bundle data = some info) :
    RoundEnds params os bundle data ↔ BlockEnds (parseBlock os bundle.recvBlocks.dict info.owner
      (bytesSoFar (openBlock params os bundle data) info ++ data)) := by
  rw [RoundEnds, h]
  dsimp only
  generalize parseBlock os bundle.recvBlocks.dict info.owner
    (bytesSoFar (openBlock params os bundle data) info ++ data) = parsed
  cases parsed with
  | complete block d rest => cases rest <;> exact Iff.rfl
  | incomplete => exact Iff.rfl
  | malformed => exact Iff.rfl

instance decidableBlockEnds : (parsed : BlockParse) → Decidable (BlockEnds parsed)
  | .complete block _ (_ :: _) => inferInstanceAs (Decidable
      (∀ flags ∈ block.flags.toOption, flags &&& blockFlagLastBlock = 0))
  | .complete _ _ [] => isTrue trivial
  | .incomplete => isTrue trivial
  | .malformed => isTrue trivial

instance : Decidable (RoundEnds params os bundle data) :=
  match h : backBlock params os bundle data with
  | none => isTrue (roundEnds_of_none h)
  | some _ => decidable_of_iff' _ (roundEnds_iff h)

instance : Decidable (RoundWhole params os bundle data) := inferInstanceAs (Decidable (_ ∧ _))

end Decide

/-! ## One round -/

section Round

variable {params : Params} {os : Oasys} {bundle : Bundle} {σ : Progress} {data : Bytes}

theorem Within.bytesSoFar_eq {base : Bundle} {owner : Processor} {acc : Bytes}
    {done : List BlockInfo} {info : BlockInfo} (h : Within os base owner acc bundle done info) :
    bytesSoFar bundle info = acc := by
  have howner := h.info_rep.fields.1
  by_cases hpayload : owner = .payload
  · cases hs : scanPreamble os bundle.recvBlocks.dict acc with
    | none =>
        obtain ⟨hoffset, -, hfilled⟩ := h.info_rep.early hs
        rw [bytesSoFar, if_neg (by simp [hoffset]), hfilled]
    | some r =>
        obtain ⟨p, rest⟩ := r
        have hoffset : info.dataOffset ≠ 0 := by
          rw [ne_eq, h.info_rep.dataOffset_eq_zero, hs]
          simp
        have hacc : acc ≠ [] := by
          intro hnil
          rw [hnil] at hs
          cases hs
        have hdata := h.holds.payload_data
        rw [h.holds.pre_nil hpayload hacc, partialData, hs] at hdata
        simp only [hpayload, moved, if_true, List.nil_append] at hdata
        rw [bytesSoFar, if_pos ⟨howner.trans hpayload, hoffset⟩, hdata, (h.info_rep.late hs).2.2.2.1,
          hpayload, kept_payload]
        calc acc.take (acc.length - rest.length) ++ rest
            = acc.take (acc.length - rest.length) ++ acc.drop (acc.length - rest.length) :=
              congrArg _ (scanPreamble_rest hs)
          _ = acc := List.take_append_drop _ _
  · rw [bytesSoFar, if_neg (by rw [howner]; exact fun hp => hpayload hp.1)]
    exact h.info_rep.filled hpayload

/-- The parser stands between two blocks, or waits for more of a block. -/
def Open (params : Params) (os : Oasys) (bundle : Bundle) : Prop :=
  ∃ σ, Tracks params os bundle σ ∧ ∀ b rest, σ ≠ .done b rest

/-- At the end of the last block all bytes are used, and another block could follow. -/
def AtEnd (params : Params) (os : Oasys) : Exec (Bundle × Bytes × Bool) → Prop
  | .ok (bundle, rest, true) => rest = [] ∧ Open params os bundle
  | _ => True

theorem consumeRound_atEnd (h : Tracks params os bundle σ) (hne : data ≠ [])
    (hdone : ∀ b rest, σ ≠ .done b rest) (hwhole : RoundWhole params os bundle data) :
    AtEnd params os (consumeRound params os bundle data) := by
  obtain ⟨base, owner, acc, done, info, hw, -, -⟩ := h.open hne hdone
  have hback : backBlock params os bundle data = some info := hw.getLast
  obtain ⟨hfits, hends⟩ := hwhole
  rw [RoundFits, hback] at hfits
  obtain ⟨hsize, hcall, -⟩ := hfits
  rw [consumeRound]
  cases hp : parseBlock os (openBlock params os bundle data).recvBlocks.dict owner
      (acc ++ data) with
  | malformed =>
      rw [consumeBack_malformed hw hsize hcall hp]
      trivial
  | incomplete =>
      obtain ⟨bundle', info', hr, -⟩ := consumeBack_incomplete params hw hsize hcall hp
      rw [hr]
      trivial
  | complete blk d rest =>
      obtain ⟨info', herase, -, hround⟩ := consumeBack_complete params hw hsize hcall hp
      have hcomplete : blk.complete = true := by
        obtain ⟨p, tail, -, -, -, hblk, -, -⟩ := parseBlock_eq_complete hp
        rw [hblk]
        rfl
      rw [hround]
      cases hf : finishBlock params os (setPayload base (base.payload.data ++ moved owner d))
          info' with
      | error s => trivial
      | ok r =>
          obtain ⟨b, block⟩ := r
          obtain ⟨-, hpay⟩ := finishBlock_frame hf
          obtain ⟨l, hl⟩ := finishBlock_block hf
          have hflags : block.flags = blk.flags := by
            rw [hl, ← herase]
            rfl
          have hfull : block.complete = true := by
            rw [hl]
            rw [← herase] at hcomplete
            exact hcomplete
          have hloc : b.payload.location ≠ .nodata := by
            rw [hpay]
            change base.payload.location ≠ .nodata
            rw [← hw.location]
            exact hw.holds.location
          rw [Exec.ok_bind]
          dsimp only
          cases hval : block.flags with
          | error s => trivial
          | ok flags =>
              rw [Exec.ok_bind]
              by_cases hlast : flags &&& blockFlagLastBlock ≠ 0
              · rw [decide_eq_true hlast]
                refine ⟨?_, _, tracks_between hloc hfull, ?_⟩
                · have hmem : flags ∈ block.flags.toOption := by
                    rw [hval]
                    rfl
                  rw [RoundEnds, hback] at hends
                  rw [openBlock_dict] at hp
                  simp only [hw.bytesSoFar_eq, hw.info_rep.fields.1, hp] at hends
                  cases rest with
                  | nil => rfl
                  | cons c rest =>
                      rw [hflags] at hmem
                      exact absurd (hends flags hmem) hlast
                · intro b' r' h'
                  cases h'
              · rw [decide_eq_false hlast]
                trivial

end Round

/-! ## Calls -/

section Run

variable {params : Params} {os : Oasys}

theorem consumeLoop_atEnd (fuel : Nat) (bundle : Bundle) (σ : Progress) (data : Bytes)
    (h : Tracks params os bundle σ) (hdone : ∀ b rest, σ ≠ .done b rest)
    (hmeets : LoopMeets (RoundWhole params os) params os fuel bundle data) :
    AtEnd params os (consumeLoop params os fuel bundle data) := by
  induction fuel generalizing bundle σ data with
  | zero =>
      cases data with
      | nil => trivial
      | cons b bs => trivial
  | succ fuel ih =>
      cases data with
      | nil => trivial
      | cons b bs =>
          obtain ⟨hround, htail⟩ := hmeets
          have hsafe := consumeRound_safe h (List.cons_ne_nil b bs) hdone hround.1
          have hend := consumeRound_atEnd h (List.cons_ne_nil b bs) hdone hround
          rw [consumeLoop]
          cases hr : consumeRound params os bundle (b :: bs) with
          | error s => trivial
          | ok r =>
              obtain ⟨bundle', rest, last⟩ := r
              rw [hr] at hsafe hend htail
              cases last with
              | true => exact hend
              | false =>
                  obtain ⟨-, σ', htracks, hdone'⟩ := hsafe
                  exact ih bundle' σ' rest htracks hdone' htail

theorem open_new (params : Params) (os : Oasys) (id : Nat) (now : UInt64) :
    Open params os (openPrimary os (Bundle.new id now)) := by
  refine ⟨_, tracks_new params os id now, ?_⟩
  intro b rest h
  cases h

theorem Open.opened {bundle : Bundle} (h : Open params os bundle) :
    Open params os (openPrimary os bundle) := by
  obtain ⟨σ, htracks, hdone⟩ := h
  rw [htracks.openPrimary_eq hdone]
  exact ⟨σ, htracks, hdone⟩

theorem consume_atEnd {bundle : Bundle} {chunk : Bytes}
    (h : Open params os (openPrimary os bundle))
    (hmeets : LoopMeets (RoundWhole params os) params os chunk.length (openPrimary os bundle) chunk) :
    consume params os bundle chunk = .error .protocolError ∨
      ∃ bundle' last, consume params os bundle chunk = .ok (bundle', toInt chunk.length, last) ∧
        toInt chunk.length = chunk.length ∧ Open params os (openPrimary os bundle') := by
  obtain ⟨σ, htracks, hdone⟩ := h
  have hfits : LoopMeets (RoundFits params os) params os chunk.length (openPrimary os bundle) chunk :=
    hmeets.mono fun _ _ hwhole => hwhole.1
  have hend := consumeLoop_atEnd _ _ σ _ htracks hdone hmeets
  have hint := toInt_of_lt (chunk_lt_of_fits htracks hdone hfits)
  rcases consume_safe htracks hdone hfits with hc | ⟨bundle', n, hle, hc⟩ | ⟨bundle', σ', hc, ht, hd⟩
  · exact Or.inl hc
  · refine Or.inr ⟨bundle', true, ?_⟩
    rw [consume] at hc ⊢
    obtain ⟨⟨b, rest, last⟩, hloop, hres⟩ := Exec.bind_eq_ok.mp hc
    rw [hloop] at hend
    obtain ⟨rfl, hn, rfl⟩ : b = bundle' ∧ toInt (chunk.length - rest.length) = (n : Int) ∧
        last = true := by
      simp only [pure, Except.pure, Except.ok.injEq, Prod.mk.injEq] at hres
      exact hres
    obtain ⟨rfl, hopen⟩ := hend
    rw [hloop, Exec.ok_bind]
    exact ⟨rfl, hint, hopen.opened⟩
  · rw [← hint] at hc
    have hopen : Open params os bundle' := ⟨σ', ht, hd⟩
    exact Or.inr ⟨bundle', false, hc, hint, hopen.opened⟩

end Run

end BundleProtocol

end Dtn2
