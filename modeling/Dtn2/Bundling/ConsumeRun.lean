import Dtn2.Bundling.FinishBlock

/-!
# Runs of the incremental parser

The state of the parser between two chunks is tied to the progress of `parse` on the bytes
received so far. A round of `BundleProtocol::consume` is a step of `parse`, so a call, and a run
over any sequence of chunks, leads where `parse` leads on their concatenation.
-/

namespace Dtn2

open Framework

namespace BundleProtocol

theorem finishBlock_frame {params : Params} {os : Oasys} {bundle bundle' : Bundle}
    {block block' : BlockInfo} (h : finishBlock params os bundle block = .ok (bundle', block')) :
    bundle'.recvBlocks.blocks = bundle.recvBlocks.blocks ∧ bundle'.payload = bundle.payload := by
  have hself : bundle.reframe bundle.recvBlocks.blocks bundle.payload = bundle := rfl
  have hframe := finishBlock_reframe params os bundle bundle.recvBlocks.blocks bundle.payload block
  rw [hself, h] at hframe
  have heq : bundle' = bundle'.reframe bundle.recvBlocks.blocks bundle.payload := by
    simpa [putFrame, Except.map] using hframe
  rw [heq]
  exact ⟨rfl, rfl⟩

theorem finishBlock_block {params : Params} {os : Oasys} {bundle bundle' : Bundle}
    {block block' : BlockInfo} (h : finishBlock params os bundle block = .ok (bundle', block')) :
    ∃ l, block' = { block with locals := l } := by
  have hsame : ∀ b : Bundle, (Except.ok (b, block) : Exec (Bundle × BlockInfo)) =
      .ok (bundle', block') → ∃ l, block' = { block with locals := l } := by
    intro b hb
    simp only [Except.ok.injEq, Prod.mk.injEq] at hb
    exact ⟨block.locals, hb.2.symm⟩
  unfold finishBlock at h
  split at h
  · obtain ⟨b, -, hb⟩ := Exec.bind_eq_ok.mp h
    exact hsame b hb
  · unfold PreviousHopBlockProcessor.finish at h
    simp only at h
    split at h
    · exact hsame _ h
    · cases h
  · unfold SessionBlockProcessor.finish at h
    split at h
    · split at h
      · cases h
      · exact hsame _ h
    · cases h
  · obtain ⟨b, -, hb⟩ := Exec.bind_eq_ok.mp h
    exact hsame _ hb
  · obtain ⟨b, -, hb⟩ := Exec.bind_eq_ok.mp h
    exact hsame _ hb
  · exact hsame _ h
  · unfold MetadataBlockProcessor.finish at h
    obtain ⟨t, -, h⟩ := Exec.bind_eq_ok.mp h
    obtain ⟨-, -, h⟩ := Exec.bind_eq_ok.mp h
    obtain ⟨-, -, h⟩ := Exec.bind_eq_ok.mp h
    obtain ⟨-, -, h⟩ := Exec.bind_eq_ok.mp h
    simp only [pure, Except.pure, Except.ok.injEq, Prod.mk.injEq] at h
    exact ⟨_, h.2.symm⟩
  · exact hsame _ h
  · exact hsame _ h
  · exact hsame _ h

/-! ## The state of the parser -/

/-- A bundle whose last block has received the bytes `acc`; `base` is the bundle before it. -/
structure Within (os : Oasys) (base : Bundle) (owner : Processor) (acc : Bytes)
    (bundle : Bundle) (done : List BlockInfo) (info : BlockInfo) : Prop where
  blocks : bundle.recvBlocks.blocks = done ++ [info]
  done_eq : done.map BlockInfo.erase = base.recvBlocks.blocks
  info_rep : Represents os bundle.recvBlocks.dict owner acc info
  fields : bundle.reframe [] base.payload = base.reframe [] base.payload
  holds : Holds os owner acc base.payload.data bundle
  location : bundle.payload.location = base.payload.location
  owner_ne : owner ≠ .api

/-- How the block was opened: as the first primary block, or by its type byte. -/
def Opened (params : Params) (base : Bundle) (owner : Processor) (bytes : Bytes) : Prop :=
  (owner = .primary ∧ base.recvBlocks.dict.dictLength = 0) ∨
    bytes.head?.map (findProcessor params) = some owner

/-- The parser state for the progress made on the bytes received. -/
def Tracks (params : Params) (os : Oasys) (bundle : Bundle) : Progress → Prop
  | .error => False
  | .within base owner acc =>
      (∃ done info, Within os base owner acc bundle done info) ∧ Opened params base owner acc
  | .between base =>
      bundle.erase = base ∧ bundle.payload.location ≠ .nodata ∧
        ∃ info, bundle.recvBlocks.blocks.getLast? = some info ∧ info.complete = true
  | .done base _ => bundle.erase = base

section State

variable {params : Params} {os : Oasys} {base bundle : Bundle} {owner : Processor}
  {acc data : Bytes} {done : List BlockInfo} {info : BlockInfo}

theorem Within.dict (h : Within os base owner acc bundle done info) :
    bundle.recvBlocks.dict = base.recvBlocks.dict := congrArg (fun b => b.recvBlocks.dict) h.fields

theorem Within.setPayload_eq (h : Within os base owner acc bundle done info) (d : Bytes) :
    setPayload bundle d = (setPayload base d).withBlocks bundle.recvBlocks.blocks := by
  have hb : bundle = (bundle.reframe [] base.payload).reframe bundle.recvBlocks.blocks
    bundle.payload := rfl
  have hloc : (⟨bundle.payload.location, d⟩ : BundlePayload) = ⟨base.payload.location, d⟩ := by
    rw [h.location]
  calc setPayload bundle d
      = (bundle.reframe [] base.payload).reframe bundle.recvBlocks.blocks
          ⟨bundle.payload.location, d⟩ := rfl
    _ = (base.reframe [] base.payload).reframe bundle.recvBlocks.blocks
          ⟨base.payload.location, d⟩ := by rw [h.fields, hloc]
    _ = (setPayload base d).withBlocks bundle.recvBlocks.blocks := rfl

theorem Within.getLast (h : Within os base owner acc bundle done info) :
    bundle.recvBlocks.blocks.getLast? = some info := by
  rw [h.blocks, List.getLast?_concat]

theorem Within.openBlock (h : Within os base owner acc bundle done info) (data : Bytes) :
    openBlock params os bundle data = bundle := by
  unfold BundleProtocol.openBlock
  rw [h.getLast]
  cases data with
  | nil => rfl
  | cons first tail => simp [h.info_rep.fields.2.1]

theorem within_of_between (h : Tracks params os bundle (.between base)) (first : UInt8)
    (tail : Bytes) :
    ∃ done info, Within os base (findProcessor params first) []
      (openBlock params os bundle (first :: tail)) done info := by
  obtain ⟨herase, hloc, last, hlast, hcomplete⟩ := h
  have hopen : openBlock params os bundle (first :: tail) =
      appendBlock os bundle (findProcessor params first) := by
    unfold openBlock
    rw [hlast]
    simp [hcomplete]
  refine ⟨bundle.recvBlocks.blocks, BlockInfo.new os (findProcessor params first), ?_⟩
  rw [hopen, ← herase]
  refine ⟨rfl, rfl, represents_new os _ _, rfl, ⟨?_, ?_, hloc⟩, rfl, findProcessor_ne_api _ _⟩
  · exact (List.append_nil _).symm
  · intro _ hne
    exact absurd rfl hne

end State

/-! ## One round -/

section Round

theorem endRound_incomplete {data : Bytes} {bundle : Bundle} {info : BlockInfo}
    (hlt : data.length < 2 ^ 31) (hc : info.complete = false) :
    endRound data bundle info data.length = .ok (setBack bundle info, [], false) := by
  have hneg : ¬ ((data.length : Int) < 0) := by omega
  have hc' : ¬ info.complete = true := by simp [hc]
  rw [endRound, toInt_of_lt hlt, if_neg hneg, Int.toNat_natCast, if_neg hc']
  simp only [List.drop_length, List.length_nil]
  rfl

theorem endRound_complete (data : Bytes) (bundle : Bundle) {info : BlockInfo} {n : Nat}
    (hlt : n < 2 ^ 31) (hc : info.complete = true) :
    endRound data bundle info n = (do
      let flags ← info.flags
      pure (setBack bundle info, data.drop n, decide (flags &&& blockFlagLastBlock ≠ 0))) := by
  have hneg : ¬ ((n : Int) < 0) := by omega
  rw [endRound, toInt_of_lt hlt, if_neg hneg, Int.toNat_natCast, if_pos hc]

variable {params : Params} {os : Oasys} {base bundle : Bundle} {owner : Processor}
  {acc data : Bytes} {done : List BlockInfo} {info : BlockInfo}
  (h : Within os base owner acc bundle done info) (hsize : ChunkFits info data)
  (hcall : CallFits os bundle info data)

include h hsize hcall

variable (params) in
theorem consumeBack_incomplete
    (hp : parseBlock os bundle.recvBlocks.dict owner (acc ++ data) = .incomplete) :
    ∃ bundle' info', consumeBack params os bundle data = .ok (bundle', [], false) ∧
      Within os base owner (acc ++ data) bundle' done info' := by
  obtain ⟨info', hr, hrep⟩ := consumeBlock_incomplete params h.info_rep h.holds hsize
    hcall h.owner_ne hp
  refine ⟨setBack (setPayload bundle (base.payload.data ++
    partialData os bundle.recvBlocks.dict owner (acc ++ data))) info', info', ?_, ?_⟩
  · rw [consumeBack, h.getLast]
    simp only
    rw [hr, Exec.ok_bind]
    simp only
    rw [endRound_incomplete hsize.chunk_lt hrep.fields.2.1]
  · refine ⟨?_, h.done_eq, hrep, h.fields, ⟨rfl, ?_, h.holds.location⟩, h.location, h.owner_ne⟩
    · change bundle.recvBlocks.blocks.dropLast ++ [info'] = done ++ [info']
      rw [h.blocks, List.dropLast_concat]
    · intro howner _
      exact (payload_so_far h.info_rep h.holds hcall howner).2

theorem consumeBack_malformed
    (hp : parseBlock os bundle.recvBlocks.dict owner (acc ++ data) = .malformed) :
    consumeBack params os bundle data = .error .protocolError := by
  rw [consumeBack, h.getLast]
  simp only
  rw [consumeBlock_malformed h.info_rep hsize hcall hp]
  rfl

variable (params) in
theorem consumeBack_complete {blk : BlockInfo} {d rest : Bytes}
    (hp : parseBlock os bundle.recvBlocks.dict owner (acc ++ data) = .complete blk d rest) :
    ∃ info', info'.erase = blk ∧ 64 ≤ info'.contents.bufLen ∧
      consumeBack params os bundle data =
        (finishBlock params os (setPayload base (base.payload.data ++ moved owner d)) info' >>=
          fun r => r.2.flags >>= fun flags => pure (r.1.withBlocks (done ++ [r.2]), rest,
            decide (flags &&& blockFlagLastBlock ≠ 0))) := by
  obtain ⟨info', herase, hcap, hr⟩ := consumeBlock_complete params h.info_rep h.holds
    hsize hcall h.owner_ne hp
  obtain ⟨hlt, hdrop⟩ := parseBlock_rest h.info_rep.pending hp
  have hsmall := hsize.chunk_lt
  have hcomplete : info'.complete = true := by
    obtain ⟨p, tail, -, -, -, hblk, -, -⟩ := parseBlock_eq_complete hp
    rw [hblk] at herase
    exact congrArg BlockInfo.complete herase
  have hframe := finishBlock_reframe params os
    (setPayload base (base.payload.data ++ moved owner d)) bundle.recvBlocks.blocks
    (setPayload base (base.payload.data ++ moved owner d)).payload info'
  have hself : (setPayload base (base.payload.data ++ moved owner d)).reframe
      bundle.recvBlocks.blocks (setPayload base (base.payload.data ++ moved owner d)).payload =
      (setPayload base (base.payload.data ++ moved owner d)).withBlocks bundle.recvBlocks.blocks :=
    rfl
  rw [hself] at hframe
  refine ⟨info', herase, hcap, ?_⟩
  rw [consumeBack, h.getLast]
  simp only
  rw [hr, h.setPayload_eq, hframe]
  cases hf : finishBlock params os (setPayload base (base.payload.data ++ moved owner d)) info' with
  | error s => rfl
  | ok r =>
      obtain ⟨b, block⟩ := r
      obtain ⟨-, hpay⟩ := finishBlock_frame hf
      obtain ⟨l, hl⟩ := finishBlock_block hf
      have hc : block.complete = true := by
        rw [hl]
        exact hcomplete
      have hdl : bundle.recvBlocks.blocks.dropLast = done := by
        rw [h.blocks, List.dropLast_concat]
      have hback : setBack (b.reframe bundle.recvBlocks.blocks
          (setPayload base (base.payload.data ++ moved owner d)).payload) block =
          b.withBlocks (done ++ [block]) := by
        rw [← hpay, ← hdl]
        rfl
      have hend := endRound_complete data (b.reframe bundle.recvBlocks.blocks
        (setPayload base (base.payload.data ++ moved owner d)).payload)
        (show data.length - rest.length < 2 ^ 31 by omega) hc
      rw [hdrop, hback] at hend
      rw [putFrame_ok, Exec.ok_bind, pure_bind, hend, Exec.ok_bind]

end Round

/-! ## The conditions on a round -/

def backBlock (params : Params) (os : Oasys) (bundle : Bundle) (data : Bytes) :
    Option BlockInfo :=
  (openBlock params os bundle data).recvBlocks.blocks.getLast?

/-- If the bytes complete the block `info`, it and its data satisfy `P`. -/
def Completed (os : Oasys) (dict : Dictionary) (info : BlockInfo) (data : Bytes)
    (P : BlockInfo → Bytes → Prop) : Prop :=
  match parseBlock os dict info.owner (info.contents.filled ++ data) with
  | .complete block d _ => P block d
  | _ => True

/-- The processor of a complete block looks at nothing but its data: a session block with its
endpoint id has some, and the entries of a sequence id block end inside it. -/
def ReadsData (block : BlockInfo) (d : Bytes) : Prop :=
  (block.owner = .session → block.eidList.length = 1 → d ≠ []) ∧
    (block.owner = .sequenceID ∨ block.owner = .obsoletesID → EntriesFit block.eidList.length d)

/-- The conditions on a round under which what it does depends on the bytes received alone: its
integers do not overflow, and a block that it completes is read inside its data. -/
def RoundReads (params : Params) (os : Oasys) (bundle : Bundle) (data : Bytes) : Prop :=
  match backBlock params os bundle data with
  | none => True
  | some info => ChunkFits info data ∧ Completed os bundle.recvBlocks.dict info data ReadsData

section Decide

variable {params : Params} {os : Oasys} {dict : Dictionary} {bundle : Bundle} {info : BlockInfo}
  {data : Bytes}

instance {P : BlockInfo → Bytes → Prop} [∀ block d, Decidable (P block d)] :
    Decidable (Completed os dict info data P) :=
  match h : parseBlock os dict info.owner (info.contents.filled ++ data) with
  | .complete block d _ => decidable_of_iff (P block d) (by simp only [Completed, h])
  | .incomplete => isTrue (by simp only [Completed, h])
  | .malformed => isTrue (by simp only [Completed, h])

instance (block : BlockInfo) (d : Bytes) : Decidable (ReadsData block d) :=
  inferInstanceAs (Decidable (_ ∧ _))

instance : Decidable (ChunkFits info data) :=
  decidable_of_iff (data.length < 2 ^ 31 ∧
    (info.dataOffset = 0 → info.contents.len + data.length < 2 ^ 32))
    ⟨fun h => ⟨h.1, h.2⟩, fun h => ⟨h.1, h.2⟩⟩

instance : Decidable (RoundReads params os bundle data) :=
  match h : backBlock params os bundle data with
  | none => isTrue (by simp only [RoundReads, h])
  | some info => decidable_of_iff
      (ChunkFits info data ∧ Completed os bundle.recvBlocks.dict info data ReadsData)
      (by simp only [RoundReads, h])

end Decide

section Step

variable {params : Params} {os : Oasys} {bundle : Bundle} {σ : Progress} {data : Bytes}

theorem openBlock_dict (params : Params) (os : Oasys) (bundle : Bundle) (data : Bytes) :
    (openBlock params os bundle data).recvBlocks.dict = bundle.recvBlocks.dict := by
  unfold openBlock
  split
  · split <;> rfl
  · rfl

theorem Tracks.open (h : Tracks params os bundle σ) (hne : data ≠ [])
    (hdone : ∀ b rest, σ ≠ .done b rest) :
    ∃ base owner acc done info,
      Within os base owner acc (openBlock params os bundle data) done info ∧
      (∀ used rest, used ≠ [] → data = used ++ rest →
        σ.continue params os used = parse params os base owner (acc ++ used)) ∧
      Opened params base owner (acc ++ data) := by
  cases σ with
  | error => exact absurd h id
  | within base owner acc =>
      obtain ⟨⟨done, info, hw⟩, hopened⟩ := h
      refine ⟨base, owner, acc, done, info, ?_, fun _ _ _ _ => rfl, ?_⟩
      · rw [hw.openBlock]
        exact hw
      · rcases hopened with hp | hhead
        · exact Or.inl hp
        · refine Or.inr ?_
          cases acc with
          | nil => cases hhead
          | cons b bs => exact hhead
  | between base =>
      cases data with
      | nil => exact absurd rfl hne
      | cons first tail =>
          obtain ⟨done, info, hw⟩ := within_of_between h first tail
          refine ⟨base, _, [], done, info, hw, ?_, Or.inr rfl⟩
          intro used rest hused hsplit
          cases used with
          | nil => exact absurd rfl hused
          | cons b bs =>
              obtain ⟨rfl, -⟩ := List.cons.inj hsplit
              rfl
  | done b rest => exact absurd rfl (hdone b rest)

theorem parsed_of_complete {base : Bundle} {owner : Processor} {acc : Bytes}
    {done : List BlockInfo} {info info' blk : BlockInfo} {d rest : Bytes}
    (hw : Within os base owner acc bundle done info) (hsize : ChunkFits info data)
    (hcall : CallFits os bundle info data)
    (hp : parseBlock os bundle.recvBlocks.dict owner (acc ++ data) = .complete blk d rest)
    (herase : info'.erase = blk) (hcap : 64 ≤ info'.contents.bufLen) :
    ∃ p tail, scanPreamble os bundle.recvBlocks.dict (acc ++ data) = some (p, tail) ∧
      Parsed os bundle.recvBlocks.dict p info' ∧ info'.owner = owner ∧
      info'.eidList = blk.eidList ∧ info'.dataLength.toNat = d.length ∧
      info'.contents.filled.head? = (acc ++ data).head? ∧
      (owner ≠ .payload → info'.data = d) := by
  obtain ⟨p, tail, hs, hsmall, henough, hblk, rfl, rfl⟩ := parseBlock_eq_complete hp
  have hlen := scanPreamble_length hs
  have htail := scanPreamble_rest hs
  have hoff := offset_lt_append hw.info_rep hsize p tail hs
  have hwrap : owner ≠ .payload →
      (acc ++ data).length - tail.length + p.blockLen.toNat < 2 ^ 32 := by
    intro hne
    rcases noWrap_of_callFits hw.info_rep hcall hne p tail hs (by omega) with hlt | hnil
    · exact hlt
    · rw [hnil, List.length_nil] at henough
      omega
  rw [hblk] at herase
  have hparsed := Parsed.of_erase hs hsmall henough herase hcap hoff hwrap
  have howner : info'.owner = owner := congrArg BlockInfo.owner herase
  have hfilled : info'.contents.filled =
      kept owner ((acc ++ data).take ((acc ++ data).length - tail.length + p.blockLen.toNat))
        ((acc ++ data).length - tail.length) := congrArg (fun b => b.contents.filled) herase
  have hdl : info'.dataLength = p.blockLen.toUInt32 := congrArg BlockInfo.dataLength herase
  have hdo : info'.dataOffset = UInt32.ofNat ((acc ++ data).length - tail.length) :=
    congrArg BlockInfo.dataOffset herase
  refine ⟨p, tail, hs, hparsed, howner, ?_, ?_, ?_, ?_⟩
  · have heids : info'.eidList = p.eidList := congrArg BlockInfo.eidList herase
    rw [hblk]
    exact heids
  · rw [hdl, UInt64.toNat_toUInt32, Nat.mod_eq_of_lt (by omega), List.length_take]
    omega
  · rw [hfilled]
    unfold kept
    split
    · rw [List.head?_take, List.head?_take, if_neg (by omega), if_neg (by omega)]
    · rw [List.head?_take, if_neg (by omega)]
  · intro hne
    rw [(hparsed.whole (by rw [howner]; exact hne)).data, hfilled, kept_of_ne hne, hdo,
      UInt32.toNat_ofNat', Nat.mod_eq_of_lt hoff, List.drop_take, ← htail]
    congr 1
    omega

variable (params os) in
theorem completeBlock_eq (base : Bundle) (d : Bytes) {info' blk : BlockInfo}
    (hw : info'.owner ≠ .payload → Whole info') (hread : ReadsContents info')
    (herase : info'.erase = blk) :
    completeBlock params os base blk d =
      (finishBlock params os (setPayload base (base.payload.data ++ moved info'.owner d)) info' >>=
        fun r => r.2.flags >>= fun flags =>
          pure (r.1.withBlocks (base.recvBlocks.blocks ++ [r.2.erase]),
            decide (flags &&& blockFlagLastBlock ≠ 0))) := by
  subst herase
  have hown : info'.erase.owner = info'.owner := rfl
  rw [completeBlock, hown, finishBlock_erase params os _ hw hread]
  cases hf : finishBlock params os (setPayload base (base.payload.data ++ moved info'.owner d))
    info' with
  | error s => rfl
  | ok r =>
      obtain ⟨b, block⟩ := r
      have hblocks := (finishBlock_frame hf).1
      have hpush : pushBlock b block.erase =
          b.withBlocks (base.recvBlocks.blocks ++ [block.erase]) := by
        rw [pushBlock, hblocks]
        rfl
      have hflags : block.erase.flags = block.flags := rfl
      simp only [Except.map, Exec.ok_bind, hpush, hflags]

theorem RoundReads.chunk {info : BlockInfo} (h : RoundReads params os bundle data)
    (hback : backBlock params os bundle data = some info) : ChunkFits info data := by
  rw [RoundReads, hback] at h
  exact h.1

theorem Completed.of_within {base : Bundle} {owner : Processor} {acc : Bytes}
    {done : List BlockInfo} {info blk : BlockInfo} {d rest : Bytes}
    {P : BlockInfo → Bytes → Prop}
    (h : Completed os bundle.recvBlocks.dict info data P)
    (hw : Within os base owner acc (openBlock params os bundle data) done info)
    (hne : owner ≠ .payload)
    (hp : parseBlock os bundle.recvBlocks.dict owner (acc ++ data) = .complete blk d rest) :
    P blk d := by
  rw [Completed, hw.info_rep.filled hne, hw.info_rep.fields.1, hp] at h
  exact h

private theorem readsContents_of_round {base : Bundle} {owner : Processor} {acc : Bytes}
    {done : List BlockInfo} {info info' blk : BlockInfo} {d rest : Bytes}
    (hreads : RoundReads params os bundle data)
    (hw : Within os base owner acc (openBlock params os bundle data) done info)
    (hp : parseBlock os bundle.recvBlocks.dict owner (acc ++ data) = .complete blk d rest)
    (howner : info'.owner = owner) (heids : info'.eidList = blk.eidList)
    (hlen : info'.dataLength.toNat = d.length) (hdata : owner ≠ .payload → info'.data = d) :
    ReadsContents info' := by
  have hback : backBlock params os bundle data = some info := hw.getLast
  have hblk : blk.owner = owner := by
    obtain ⟨p, tail, -, -, -, hblk, -, -⟩ := parseBlock_eq_complete hp
    rw [hblk]
    rfl
  have hdone : owner ≠ .payload → ReadsData blk d := by
    intro hne
    rw [RoundReads, hback] at hreads
    exact hreads.2.of_within hw hne hp
  rw [ReadsData, hblk] at hdone
  constructor
  · intro hs heid
    have hsession : owner = .session := howner ▸ hs
    have hne := (hdone (by rw [hsession]; decide)).1 hsession (heids ▸ heid)
    rw [hlen]
    exact List.length_pos_of_ne_nil hne
  · intro hseq
    rw [howner] at hseq
    have hne : owner ≠ .payload := by rcases hseq with ho | ho <;> rw [ho] <;> decide
    rw [heids, hdata hne]
    exact (hdone hne).2 hseq

theorem tracks_between {b : Bundle} {done : List BlockInfo} {block : BlockInfo}
    (hloc : b.payload.location ≠ .nodata) (hc : block.complete = true) :
    Tracks params os (b.withBlocks (done ++ [block]))
      (.between (b.withBlocks (done ++ [block])).erase) := by
  refine ⟨rfl, hloc, block, ?_, hc⟩
  exact List.getLast?_concat

/-- What a round and `parse` have in common after it: the round fails and so does `parse`, or
the round has used some bytes and stands where `parse` stands behind them. -/
def RoundAgrees (params : Params) (os : Oasys) (σ : Progress) (data : Bytes) :
    Exec (Bundle × Bytes × Bool) → Prop
  | .error s => s = .protocolError ∧ σ.continue params os data = .error
  | .ok (bundle, rest, true) =>
      ∃ used, used ≠ [] ∧ data = used ++ rest ∧ σ.continue params os used = .done bundle.erase []
  | .ok (bundle, rest, false) =>
      ∃ used, used ≠ [] ∧ data = used ++ rest ∧ Tracks params os bundle (σ.continue params os used) ∧
        ∀ b r, σ.continue params os used ≠ .done b r

private theorem consumeRound_complete {base : Bundle} {owner : Processor} {acc : Bytes}
    {done : List BlockInfo} {info blk : BlockInfo} {d rest : Bytes}
    (hreads : RoundReads params os bundle data)
    (hw : Within os base owner acc (openBlock params os bundle data) done info)
    (hcont : ∀ used rest, used ≠ [] → data = used ++ rest →
      σ.continue params os used = parse params os base owner (acc ++ used))
    (hcall : CallFits os (openBlock params os bundle data) info data)
    (hp : parseBlock os (openBlock params os bundle data).recvBlocks.dict owner (acc ++ data) =
      .complete blk d rest)
    (hnf : ¬ (consumeRound params os bundle data).Faults) :
    RoundAgrees params os σ data (consumeRound params os bundle data) := by
  have hback : backBlock params os bundle data = some info := hw.getLast
  have hsize := hreads.chunk hback
  obtain ⟨info', herase, hcap, hround⟩ := consumeBack_complete params hw hsize hcall hp
  obtain ⟨p, tail, -, hparsed, howner, heids, hlen, -, hdata⟩ :=
    parsed_of_complete hw hsize hcall hp herase hcap
  obtain ⟨used, hused, hsplit, hpused⟩ := parseBlock_used hw.info_rep.pending hp
  have hne : data ≠ [] := by
    rw [hsplit]
    simp [hused]
  rw [openBlock_dict] at hp hpused
  have hcontents := readsContents_of_round hreads hw hp howner heids hlen hdata
  have hdict : base.recvBlocks.dict = bundle.recvBlocks.dict := by rw [← hw.dict, openBlock_dict]
  have hcomplete := completeBlock_eq params os base d
    hparsed.whole hcontents herase
  rw [howner] at hcomplete
  have hall := (hcont data [] hne (List.append_nil _).symm).trans
    (parse_complete (by rw [hdict]; exact hp))
  have hthere := (hcont used rest hused hsplit).trans
    (parse_complete (by rw [hdict]; exact hpused))
  rw [hcomplete] at hall hthere
  rw [consumeRound, hround] at hnf ⊢
  cases hf : finishBlock params os (setPayload base (base.payload.data ++ moved owner d)) info' with
  | error s =>
      rw [hf] at hnf hall
      cases s with
      | protocolError => exact ⟨rfl, hall⟩
      | fault f => exact absurd ⟨f, rfl⟩ hnf
  | ok r =>
      obtain ⟨b, block⟩ := r
      rw [hf, Exec.ok_bind] at hnf hall hthere
      rw [Exec.ok_bind]
      simp only at hnf hall hthere ⊢
      obtain ⟨-, hpay⟩ := finishBlock_frame hf
      obtain ⟨l, hl⟩ := finishBlock_block hf
      have hc : block.complete = true := by
        rw [hl]
        obtain ⟨p, tail, -, -, -, hblk, -, -⟩ := parseBlock_eq_complete hp
        rw [hblk] at herase
        exact congrArg BlockInfo.complete herase
      have hloc : b.payload.location ≠ .nodata := by
        rw [hpay]
        change base.payload.location ≠ .nodata
        rw [← hw.location]
        exact hw.holds.location
      have heq : (b.withBlocks (done ++ [block])).erase =
          b.withBlocks (base.recvBlocks.blocks ++ [block.erase]) := by
        rw [← hw.done_eq, Bundle.erase]
        change b.withBlocks ((done ++ [block]).map BlockInfo.erase) = _
        rw [List.map_append]
        rfl
      cases hfl : block.flags with
      | error s =>
          rw [hfl] at hnf hall
          cases s with
          | protocolError => exact ⟨rfl, hall⟩
          | fault f => exact absurd ⟨f, rfl⟩ hnf
      | ok flags =>
          rw [hfl, Exec.ok_bind, ← heq] at hthere
          rw [Exec.ok_bind]
          by_cases hlast : flags &&& blockFlagLastBlock ≠ 0
          · rw [decide_eq_true hlast] at hthere ⊢
            exact ⟨used, hused, hsplit, hthere⟩
          · rw [decide_eq_false hlast] at hthere ⊢
            have hbetween : σ.continue params os used =
                .between (b.withBlocks (done ++ [block])).erase := hthere
            refine ⟨used, hused, hsplit, ?_⟩
            rw [hbetween]
            refine ⟨tracks_between hloc hc, ?_⟩
            intro b' r' h'
            cases h'

theorem consumeRound_refines (h : Tracks params os bundle σ) (hne : data ≠ [])
    (hdone : ∀ b rest, σ ≠ .done b rest) (hreads : RoundReads params os bundle data)
    (hnf : ¬ (consumeRound params os bundle data).Faults) :
    RoundAgrees params os σ data (consumeRound params os bundle data) := by
  obtain ⟨base, owner, acc, done, info, hw, hcont, hopened⟩ := h.open hne hdone
  have hback : backBlock params os bundle data = some info := hw.getLast
  have hsize := hreads.chunk hback
  have hdict : (openBlock params os bundle data).recvBlocks.dict = base.recvBlocks.dict := hw.dict
  have hall := hcont data [] hne (List.append_nil _).symm
  by_cases hcall : CallFits os (openBlock params os bundle data) info data
  · cases hp : parseBlock os (openBlock params os bundle data).recvBlocks.dict owner
        (acc ++ data) with
    | malformed =>
        rw [consumeRound, consumeBack_malformed hw hsize hcall hp]
        rw [hdict] at hp
        exact ⟨rfl, hall.trans (parse_malformed hp)⟩
    | incomplete =>
        obtain ⟨bundle', info', hr, hw'⟩ := consumeBack_incomplete params hw hsize
          hcall hp
        rw [consumeRound, hr]
        rw [hdict] at hp
        refine ⟨data, hne, (List.append_nil _).symm, ?_⟩
        rw [hall, parse_incomplete hp]
        refine ⟨⟨⟨done, info', hw'⟩, hopened⟩, ?_⟩
        intro b r h'
        cases h'
    | complete blk d rest => exact consumeRound_complete hreads hw hcont hcall hp hnf
  · rcases consumeBlock_faults params hw.info_rep hsize hw.owner_ne hne hcall with
      ⟨f, hf⟩ | ⟨hp, hr⟩
    · refine absurd ⟨f, ?_⟩ hnf
      rw [consumeRound, consumeBack, hw.getLast]
      simp only
      rw [hf]
      rfl
    · rw [hdict] at hp
      rw [consumeRound, consumeBack, hw.getLast]
      simp only
      rw [hr]
      exact ⟨rfl, hall.trans (parse_malformed hp)⟩

end Step

end BundleProtocol

end Dtn2
