import Dtn2.Bundling.ConsumeChunks

/-!
# What keeps the parser from aborting

Received bytes can make the parser fail an assertion or leave a buffer. `RoundFits` collects what
a round must meet for that not to happen, in terms of the parser state before the round and the
bytes it gets; a transfer whose rounds all meet it ends with the error code or with the numbers of
bytes consumed.
-/

namespace Dtn2

open Framework

namespace BundleProtocol

/-- The processing flags of a primary block of the current version do not have the bit that means
endpoint id references in the preamble of other blocks. -/
def PlainFlags (contents : Bytes) : Prop :=
  contents.head? = some PrimaryBlockProcessor.currentVersion →
    ∀ r ∈ SDNV.read (contents.drop 1), r.1 &&& blockFlagEidRefs = 0

/-- A complete block that its processor looks through without a fault: the flags of a primary
block are plain, and the entries of a sequence id block end inside its data. -/
def FitsData (block : BlockInfo) (d : Bytes) : Prop :=
  (block.owner = .primary → PlainFlags block.contents.filled) ∧
    (block.owner = .sequenceID ∨ block.owner = .obsoletesID → EntriesFit block.eidList.length d)

/-- The conditions on a round under which it does not end the process. -/
def RoundFits (params : Params) (os : Oasys) (bundle : Bundle) (data : Bytes) : Prop :=
  match backBlock params os bundle data with
  | none => True
  | some info => ChunkFits info data ∧ CallFits os (openBlock params os bundle data) info data ∧
      Completed os bundle.recvBlocks.dict info data FitsData

section Decide

variable {params : Params} {os : Oasys} {dict : Dictionary} {bundle : Bundle} {info : BlockInfo}
  {data : Bytes}

instance : Decidable (PlainFlags data) := inferInstanceAs (Decidable (_ → _))

instance (block : BlockInfo) (d : Bytes) : Decidable (FitsData block d) :=
  inferInstanceAs (Decidable (_ ∧ _))

instance : Decidable (NoWrap os dict data) :=
  match h : scanPreamble os dict data with
  | none => isTrue (by
      intro p rest hs
      rw [h] at hs
      cases hs)
  | some (p, rest) => decidable_of_iff (p.blockLen.toNat ≤ 0xffffffff →
      data.length - rest.length + p.blockLen.toNat < 2 ^ 32 ∨ rest = []) (by simp [NoWrap, h])

instance : Decidable (CallFits os bundle info data) :=
  decidable_of_iff
    ((info.dataOffset = 0 → BlockProcessor.PreambleFits os bundle.recvBlocks.dict info data) ∧
      (info.owner ≠ .payload → NoWrap os bundle.recvBlocks.dict (info.contents.filled ++ data)) ∧
      (info.owner = .payload → info.dataOffset = 0 → bundle.payload.length = 0))
    ⟨fun h => ⟨h.1, h.2.1, h.2.2⟩, fun h => ⟨h.1, h.2, h.3⟩⟩

instance : Decidable (RoundFits params os bundle data) :=
  match h : backBlock params os bundle data with
  | none => isTrue (by simp only [RoundFits, h])
  | some info => decidable_of_iff
      (ChunkFits info data ∧ CallFits os (openBlock params os bundle data) info data ∧
        Completed os bundle.recvBlocks.dict info data FitsData) (by simp only [RoundFits, h])

end Decide

/-! ## One round -/

/-- The result of a step that has not ended the process and leaves the parser in a good state. -/
def RoundSafe (params : Params) (os : Oasys) (data : Bytes) :
    Exec (Bundle × Bytes × Bool) → Prop
  | .error s => s = .protocolError
  | .ok (_, rest, true) => rest.length ≤ data.length
  | .ok (bundle, rest, false) => rest.length < data.length ∧
      ∃ σ, Tracks params os bundle σ ∧ ∀ b r, σ ≠ .done b r

section Round

variable {params : Params} {os : Oasys} {bundle : Bundle} {σ : Progress} {data : Bytes}

theorem findProcessor_first (params : Params) (type : UInt8) :
    (findProcessor params type = .payload → type = 1) ∧
      (findProcessor params type = .metadata → type = 8) ∧
      (findProcessor params type = .primary → type ≠ PrimaryBlockProcessor.currentVersion) := by
  have hinj : ∀ n, type.toNat = n → type = UInt8.ofNat n := by
    intro n hn
    rw [← hn, UInt8.ofNat_toNat]
  unfold findProcessor
  split
  all_goals try split
  all_goals simp only [reduceCtorEq, false_implies, true_implies, true_and, and_true]
  · rename_i hn
    rw [hinj _ hn]
    decide
  · rename_i hn
    exact hinj _ hn
  · rename_i hn
    exact hinj _ hn

private theorem finishFits_of_round {base : Bundle} {owner : Processor} {all : Bytes}
    {info' blk : BlockInfo} {d : Bytes} {p : Preamble}
    (hopened : Opened params base owner all)
    (hfits : owner ≠ .payload → FitsData blk d) (herase : info'.erase = blk)
    (hparsed : Parsed os base.recvBlocks.dict p info') (howner : info'.owner = owner)
    (hhead : info'.contents.filled.head? = all.head?)
    (hdata : owner ≠ .payload → info'.data = d) :
    FinishFits base.recvBlocks.dict p info' := by
  have hblk : blk.owner = owner := by rw [← herase]; exact howner
  have hfilled : blk.contents.filled = info'.contents.filled := by rw [← herase]; rfl
  have heids : blk.eidList = info'.eidList := by rw [← herase]; rfl
  constructor
  · intro ho hversion
    rw [howner] at ho
    have hplain := (hfits (by rw [ho]; decide)).1 (hblk.trans ho)
    obtain ⟨rest, hscan, -⟩ := hparsed.preamble
    obtain ⟨mid, -, hflags, -⟩ := readPreamble_eq_some hscan
    refine ⟨?_, ?_⟩
    · rw [PlainFlags, hfilled] at hplain
      exact hplain hversion (p.flags, mid) hflags
    · rcases hopened with ⟨-, hdict⟩ | hfirst
      · exact hdict
      · rw [← hhead, hversion] at hfirst
        have htype : findProcessor params PrimaryBlockProcessor.currentVersion = .primary := by
          rw [← ho]
          simpa using hfirst
        exact absurd rfl ((findProcessor_first params _).2.2 htype)
  · intro hseq
    rw [howner] at hseq
    have hne : owner ≠ .payload := by rcases hseq with ho | ho <;> rw [ho] <;> decide
    rw [hdata hne, ← heids]
    exact (hfits hne).2 (by rw [hblk]; exact hseq)
  · intro ho
    rw [howner] at ho
    rw [hhead]
    rcases hopened with ⟨hp, -⟩ | hfirst
    · rw [ho] at hp
      cases hp
    · obtain ⟨first, hall, hfind⟩ := Option.map_eq_some_iff.mp hfirst
      rw [hall, (findProcessor_first params first).2.1 (hfind.trans ho)]

private theorem payload_first {base : Bundle} {owner : Processor} {all : Bytes}
    (hopened : Opened params base owner all) (ho : owner = .payload) : all.head? = some 1 := by
  rcases hopened with ⟨hp, -⟩ | hfirst
  · rw [ho] at hp
    cases hp
  · obtain ⟨first, hall, hfind⟩ := Option.map_eq_some_iff.mp hfirst
    rw [hall, (findProcessor_first params first).1 (hfind.trans ho)]

private theorem consumeRound_complete_safe {base : Bundle} {owner : Processor} {acc : Bytes}
    {done : List BlockInfo} {info blk : BlockInfo} {d rest : Bytes}
    (hw : Within os base owner acc (openBlock params os bundle data) done info)
    (hopened : Opened params base owner (acc ++ data)) (hsize : ChunkFits info data)
    (hcall : CallFits os (openBlock params os bundle data) info data)
    (hdone : Completed os bundle.recvBlocks.dict info data FitsData)
    (hp : parseBlock os (openBlock params os bundle data).recvBlocks.dict owner (acc ++ data) =
      .complete blk d rest) :
    RoundSafe params os data (consumeRound params os bundle data) := by
  obtain ⟨info', herase, hcap, hround⟩ := consumeBack_complete params hw hsize hcall hp
  obtain ⟨p, tail, -, hparsed, howner, -, -, hhead, hdata⟩ :=
    parsed_of_complete hw hsize hcall hp herase hcap
  have hrest := (parseBlock_rest hw.info_rep.pending hp).1
  have hfits : owner ≠ .payload → FitsData blk d := by
    intro hne
    rw [openBlock_dict] at hp
    exact hdone.of_within hw hne hp
  rw [hw.dict] at hparsed
  have hfinish := finishFits_of_round hopened hfits herase hparsed howner hhead hdata
  have hnf := finishBlock_not_faults params
    (setPayload base (base.payload.data ++ moved owner d)) hparsed hfinish
  have hfl := Parsed.flags_not_faults base hparsed fun ho => by
    rw [hhead]
    exact payload_first hopened (howner.symm.trans ho)
  rw [consumeRound, hround]
  cases hf : finishBlock params os (setPayload base (base.payload.data ++ moved owner d)) info' with
  | error s =>
      cases s with
      | protocolError => exact rfl
      | fault f => exact absurd ⟨f, hf⟩ hnf
  | ok r =>
      obtain ⟨b, block⟩ := r
      obtain ⟨-, hpay⟩ := finishBlock_frame hf
      obtain ⟨l, hl⟩ := finishBlock_block hf
      have hc : block.complete = true := by
        obtain ⟨p, tail, -, -, -, hblk, -, -⟩ := parseBlock_eq_complete hp
        rw [hblk] at herase
        rw [hl]
        exact congrArg BlockInfo.complete herase
      have hloc : b.payload.location ≠ .nodata := by
        rw [hpay]
        change base.payload.location ≠ .nodata
        rw [← hw.location]
        exact hw.holds.location
      have hflags : block.flags = info'.flags := by
        rw [hl]
        rfl
      rw [Exec.ok_bind]
      simp only
      rw [hflags]
      cases hff : info'.flags with
      | error s =>
          cases s with
          | protocolError => exact rfl
          | fault f => exact absurd ⟨f, hff⟩ hfl
      | ok flags =>
          rw [Exec.ok_bind]
          by_cases hlast : flags &&& blockFlagLastBlock ≠ 0
          · rw [decide_eq_true hlast]
            exact le_of_lt hrest
          · rw [decide_eq_false hlast]
            refine ⟨hrest, _, tracks_between hloc hc, ?_⟩
            intro b' r' h'
            cases h'

theorem consumeRound_safe (h : Tracks params os bundle σ) (hne : data ≠ [])
    (hdone : ∀ b rest, σ ≠ .done b rest) (hfits : RoundFits params os bundle data) :
    RoundSafe params os data (consumeRound params os bundle data) := by
  obtain ⟨base, owner, acc, done, info, hw, -, hopened⟩ := h.open hne hdone
  have hback : backBlock params os bundle data = some info := hw.getLast
  rw [RoundFits, hback] at hfits
  obtain ⟨hsize, hcall, hcomplete⟩ := hfits
  cases hp : parseBlock os (openBlock params os bundle data).recvBlocks.dict owner
      (acc ++ data) with
  | malformed =>
      rw [consumeRound, consumeBack_malformed hw hsize hcall hp]
      exact rfl
  | incomplete =>
      obtain ⟨bundle', info', hr, hw'⟩ := consumeBack_incomplete params hw hsize
        hcall hp
      rw [consumeRound, hr]
      refine ⟨List.length_pos_of_ne_nil hne, .within base owner (acc ++ data),
        ⟨⟨done, info', hw'⟩, hopened⟩, ?_⟩
      intro b r h'
      cases h'
  | complete blk d rest => exact consumeRound_complete_safe hw hopened hsize hcall hcomplete hp

end Round

/-! ## Runs -/

section Run

variable {params : Params} {os : Oasys}

theorem consumeLoop_safe (fuel : Nat) (bundle : Bundle) (σ : Progress) (data : Bytes)
    (hfuel : data.length ≤ fuel) (h : Tracks params os bundle σ)
    (hdone : ∀ b rest, σ ≠ .done b rest)
    (hmeets : LoopMeets (RoundFits params os) params os fuel bundle data) :
    match consumeLoop params os fuel bundle data with
    | .error s => s = .protocolError
    | .ok (_, rest, true) => rest.length ≤ data.length
    | .ok (bundle', rest, false) => rest = [] ∧
        ∃ σ', Tracks params os bundle' σ' ∧ ∀ b r, σ' ≠ .done b r := by
  induction fuel generalizing bundle σ data with
  | zero =>
      have hnil : data = [] := List.length_eq_zero_iff.mp (by omega)
      subst hnil
      exact ⟨rfl, σ, h, hdone⟩
  | succ fuel ih =>
      cases data with
      | nil => exact ⟨rfl, σ, h, hdone⟩
      | cons b bs =>
          obtain ⟨hround, htail⟩ := hmeets
          have hsafe := consumeRound_safe h (List.cons_ne_nil b bs) hdone hround
          rw [consumeLoop]
          cases hr : consumeRound params os bundle (b :: bs) with
          | error s =>
              rw [hr] at hsafe
              exact hsafe
          | ok r =>
              obtain ⟨bundle', rest, last⟩ := r
              rw [hr] at hsafe htail
              cases last with
              | true => exact hsafe
              | false =>
                  obtain ⟨hlt, σ', htracks, hdone'⟩ := hsafe
                  have hle : rest.length ≤ fuel := by
                    simp only [List.length_cons] at hlt hfuel
                    omega
                  have hrec := ih bundle' σ' rest hle htracks hdone' htail
                  rw [Exec.ok_bind]
                  simp only [Bool.false_eq_true, if_false]
                  cases hl : consumeLoop params os fuel bundle' rest with
                  | error s =>
                      rw [hl] at hrec
                      exact hrec
                  | ok r =>
                      obtain ⟨bundle'', rest', last'⟩ := r
                      rw [hl] at hrec
                      cases last' with
                      | true => exact le_trans hrec (le_of_lt hlt)
                      | false => exact hrec

/-- The calls report bytes of their chunks: all of a chunk, or those up to the end of the last
block. -/
def Reported : List Bytes → List Report → Prop
  | [], [] => True
  | chunk :: chunks, r :: rs =>
      if r.last then 0 ≤ r.consumed ∧ r.consumed ≤ chunk.length ∧ rs = []
      else r.consumed = chunk.length ∧ Reported chunks rs
  | _, _ => False

theorem chunk_lt_of_fits {bundle : Bundle} {σ : Progress} {chunk : Bytes}
    (h : Tracks params os (openPrimary os bundle) σ) (hdone : ∀ b rest, σ ≠ .done b rest)
    (hmeets : LoopMeets (RoundFits params os) params os chunk.length (openPrimary os bundle)
      chunk) : chunk.length < 2 ^ 31 := by
  cases chunk with
  | nil => simp
  | cons b bs =>
      obtain ⟨base, owner, acc, done, info, hw, -, -⟩ := h.open (List.cons_ne_nil b bs) hdone
      have hfits := hmeets.1
      have hback : backBlock params os (openPrimary os bundle) (b :: bs) = some info := hw.getLast
      rw [RoundFits, hback] at hfits
      exact hfits.1.chunk_lt

theorem consume_safe {bundle : Bundle} {σ : Progress} {chunk : Bytes}
    (h : Tracks params os (openPrimary os bundle) σ) (hdone : ∀ b rest, σ ≠ .done b rest)
    (hmeets : LoopMeets (RoundFits params os) params os chunk.length (openPrimary os bundle)
      chunk) :
    consume params os bundle chunk = .error .protocolError ∨
    (∃ bundle' n, n ≤ chunk.length ∧ consume params os bundle chunk = .ok (bundle', (n : Int), true)) ∨
    ∃ bundle' σ', consume params os bundle chunk = .ok (bundle', (chunk.length : Int), false) ∧
      Tracks params os bundle' σ' ∧ ∀ b r, σ' ≠ .done b r := by
  have hlt := chunk_lt_of_fits h hdone hmeets
  have hsafe := consumeLoop_safe chunk.length (openPrimary os bundle) σ chunk (le_refl _) h hdone
    hmeets
  rw [consume]
  cases hl : consumeLoop params os chunk.length (openPrimary os bundle) chunk with
  | error s =>
      rw [hl] at hsafe
      exact Or.inl (congrArg Except.error hsafe)
  | ok r =>
      obtain ⟨bundle', rest, last⟩ := r
      rw [hl] at hsafe
      have hint : toInt (chunk.length - rest.length) = ((chunk.length - rest.length : Nat) : Int) :=
        toInt_of_lt (by omega)
      rw [Exec.ok_bind]
      simp only [hint]
      cases last with
      | true => exact Or.inr (Or.inl ⟨bundle', chunk.length - rest.length, by omega, rfl⟩)
      | false =>
          obtain ⟨rfl, σ', htracks, hdone'⟩ := hsafe
          exact Or.inr (Or.inr ⟨bundle', σ', rfl, htracks, hdone'⟩)

theorem feed_safe_of_tracks (chunks : List Bytes) (bundle : Bundle) (σ : Progress)
    (h : Tracks params os (openPrimary os bundle) σ) (hdone : ∀ b rest, σ ≠ .done b rest)
    (hmeets : FeedMeets (RoundFits params os) params os bundle chunks) :
    feed params os bundle chunks = .error .protocolError ∨
      ∃ bundle' reports, feed params os bundle chunks = .ok (bundle', reports) ∧
        Reported chunks reports := by
  induction chunks generalizing bundle σ with
  | nil => exact Or.inr ⟨bundle, [], rfl, trivial⟩
  | cons chunk chunks ih =>
      obtain ⟨hloop, htail⟩ := hmeets
      rw [feed]
      rcases consume_safe h hdone hloop with hc | ⟨bundle', n, hle, hc⟩ | ⟨bundle', σ', hc, ht, hd⟩
      · rw [hc]
        exact Or.inl rfl
      · rw [hc]
        refine Or.inr ⟨bundle', [⟨n, true⟩], rfl, ?_⟩
        exact ⟨Int.natCast_nonneg n, Int.ofNat_le.mpr hle, rfl⟩
      · rw [hc] at htail ⊢
        have hopen := ht.openPrimary_eq hd
        rcases ih bundle' σ' (by rw [hopen]; exact ht) hd htail with hf | ⟨b, reports, hf, hrep⟩
        · refine Or.inl ?_
          rw [Exec.ok_bind]
          simp only [Bool.false_eq_true, if_false]
          rw [hf]
          rfl
        · refine Or.inr ⟨b, ⟨chunk.length, false⟩ :: reports, ?_, rfl, hrep⟩
          rw [Exec.ok_bind]
          simp only [Bool.false_eq_true, if_false]
          rw [hf]
          rfl

end Run

/-- A transfer of any bytes in any chunks to a new bundle does not end the process if all its
rounds meet `RoundFits`: it ends with the error code, or each call reports the number of bytes it
consumed. -/
theorem feed_safe (params : Params) (os : Oasys) (id : Nat) (now : UInt64) (chunks : List Bytes)
    (hmeets : FeedMeets (RoundFits params os) params os (Bundle.new id now) chunks) :
    feed params os (Bundle.new id now) chunks = .error .protocolError ∨
      ∃ bundle reports, feed params os (Bundle.new id now) chunks = .ok (bundle, reports) ∧
        Reported chunks reports := by
  have hdone : ∀ b rest, Progress.within (Bundle.new id now) .primary [] ≠ .done b rest := by
    intro b rest h
    cases h
  exact feed_safe_of_tracks chunks _ _ (tracks_new params os id now) hdone hmeets

theorem feed_safe_sample :
    feed .default .plain (Bundle.new 0 0) [samplePrimary ++ [1, 8], [2, 0xaa], [0xbb]] =
      .error .protocolError ∨
    ∃ bundle reports, feed .default .plain (Bundle.new 0 0)
        [samplePrimary ++ [1, 8], [2, 0xaa], [0xbb]] = .ok (bundle, reports) ∧
      Reported [samplePrimary ++ [1, 8], [2, 0xaa], [0xbb]] reports :=
  feed_safe .default .plain 0 0 _ (by decide +kernel)

/-- A chunk that does not fit into the preamble buffer and has no end of a preamble in it, as
every byte has its high bit set. -/
theorem feed_aborts :
    (feed .default .plain (Bundle.new 0 0) [List.replicate 70 0xff]).Faults := by
  decide +kernel

end BundleProtocol

end Dtn2
