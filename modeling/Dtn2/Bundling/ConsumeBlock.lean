import Dtn2.Bundling.BlockProcessorSpec

/-!
# One call of a block's `consume`

The generic `consume` and the one of the payload processor: under the conditions that keep their
assertions, the outcome of a call is that of `parseBlock` on the bytes received before and the
chunk together. The conditions are exact, that is, where they fail the call ends in a failed
assertion.
-/

namespace Dtn2

open Framework

namespace BundleProtocol

variable {os : Oasys} {dict : Dictionary} {owner : Processor} {acc buf : Bytes}
  {block : BlockInfo}

/-! ## Blocks on the way -/

/-- A block that has received the bytes `acc` and waits for more. -/
structure Represents (os : Oasys) (dict : Dictionary) (owner : Processor) (acc : Bytes)
    (block : BlockInfo) : Prop where
  erased : block.erase = partialBlock os dict owner acc
  capacity : 64 ≤ block.contents.bufLen
  pending : parseBlock os dict owner acc = .incomplete
  offset_lt : ∀ p rest, scanPreamble os dict acc = some (p, rest) →
    acc.length - rest.length < 2 ^ 32

/-- The length of the block does not wrap around in 32 bits, or there is no data yet. -/
def NoWrap (os : Oasys) (dict : Dictionary) (bytes : Bytes) : Prop :=
  ∀ p rest, scanPreamble os dict bytes = some (p, rest) → p.blockLen.toNat ≤ 0xffffffff →
    bytes.length - rest.length + p.blockLen.toNat < 2 ^ 32 ∨ rest = []

theorem represents_new (os : Oasys) (dict : Dictionary) (owner : Processor) :
    Represents os dict owner [] (BlockInfo.new os owner) where
  erased := rfl
  capacity := by simp [BlockInfo.new, ScratchBuffer.bufLen, ScratchBuffer.fresh]
  pending := rfl
  offset_lt := fun p rest h => by cases h

theorem Represents.fields (h : Represents os dict owner acc block) :
    block.owner = owner ∧ block.complete = false ∧ block.locals = none := by
  have he := h.erased
  unfold partialBlock at he
  split at he
  · exact ⟨congrArg BlockInfo.owner he, congrArg BlockInfo.complete he, congrArg BlockInfo.locals he⟩
  · exact ⟨congrArg BlockInfo.owner he, congrArg BlockInfo.complete he, congrArg BlockInfo.locals he⟩

theorem Represents.early (h : Represents os dict owner acc block)
    (hs : scanPreamble os dict acc = none) :
    block.dataOffset = 0 ∧ block.eidList = [] ∧ block.contents.filled = acc := by
  have he := h.erased
  simp only [partialBlock, hs] at he
  exact ⟨congrArg BlockInfo.dataOffset he, congrArg BlockInfo.eidList he,
    congrArg (fun b => b.contents.filled) he⟩

theorem Represents.late (h : Represents os dict owner acc block) {p : Preamble} {rest : Bytes}
    (hs : scanPreamble os dict acc = some (p, rest)) :
    block.dataOffset = UInt32.ofNat (acc.length - rest.length) ∧
      block.dataLength = p.blockLen.toUInt32 ∧ block.eidList = p.eidList ∧
      block.contents.filled = kept owner acc (acc.length - rest.length) ∧
      p.blockLen.toNat ≤ 0xffffffff ∧ rest.length < p.blockLen.toNat := by
  have he := h.erased
  have hp := h.pending
  simp only [partialBlock, hs] at he
  simp only [parseBlock, hs] at hp
  refine ⟨congrArg BlockInfo.dataOffset he, congrArg BlockInfo.dataLength he,
    congrArg BlockInfo.eidList he, congrArg (fun b => b.contents.filled) he, ?_⟩
  split at hp
  · cases hp
  · split at hp
    · omega
    · cases hp

theorem scanPreamble_none_of_append {more : Bytes}
    (h : scanPreamble os dict (acc ++ more) = none) : scanPreamble os dict acc = none := by
  by_contra hne
  obtain ⟨⟨p, rest⟩, hr⟩ := Option.ne_none_iff_exists'.mp hne
  rw [scanPreamble_append hr more] at h
  cases h

theorem Represents.dataOffset_eq_zero (h : Represents os dict owner acc block) :
    block.dataOffset = 0 ↔ scanPreamble os dict acc = none := by
  cases hs : scanPreamble os dict acc with
  | none => simp [(h.early hs).1]
  | some r =>
      obtain ⟨p, rest⟩ := r
      have hlen := scanPreamble_length hs
      have hlt := h.offset_lt p rest hs
      rw [(h.late hs).1, ← UInt32.toNat_inj, UInt32.toNat_ofNat', Nat.mod_eq_of_lt hlt]
      change acc.length - rest.length = 0 ↔ _
      simp
      omega

theorem Represents.filled (h : Represents os dict owner acc block) (howner : owner ≠ .payload) :
    block.contents.filled = acc := by
  cases hacc : scanPreamble os dict acc with
  | none => exact (h.early hacc).2.2
  | some r => rw [(h.late hacc).2.2.2.1, kept_of_ne howner]

/-- The part of a block that `consume_preamble` leaves, with its preamble complete: `taken` is
what is left of the chunk, `stored` the data received before. -/
structure HeadDone (owner : Processor) (all : Bytes) (p : Preamble) (rest : Bytes)
    (block : BlockInfo) (stored taken : Bytes) : Prop where
  split : rest = stored ++ taken
  some_left : stored = [] ∨ stored.length < p.blockLen.toNat
  erased : block.erase = ⟨owner, p.eidList,
    ⟨kept owner (all.take (all.length - taken.length)) (all.length - rest.length), []⟩,
    p.blockLen.toUInt32, UInt32.ofNat (all.length - rest.length), false, none⟩
  capacity : 64 ≤ block.contents.bufLen
  offset_lt : all.length - rest.length < 2 ^ 32

/-- The bounds on a chunk that the integer types of a call to `consume` need. -/
structure ChunkFits (block : BlockInfo) (buf : Bytes) : Prop where
  chunk_lt : buf.length < 2 ^ 31
  preamble_lt : block.dataOffset = 0 → block.contents.len + buf.length < 2 ^ 32

section Head

variable (h : Represents os dict owner acc block) (hsize : ChunkFits block buf)

include h hsize

theorem consumeHead_partial (hfits : BlockProcessor.PreambleFits os dict block buf)
    (hs : scanPreamble os dict (acc ++ buf) = none) :
    ∃ block', BlockProcessor.consumeHead os dict block buf = .ok (block', []) ∧
      Represents os dict owner (acc ++ buf) block' := by
  have hearly := scanPreamble_none_of_append hs
  obtain ⟨howner, hc, hl⟩ := h.fields
  obtain ⟨ho, he, hf⟩ := h.early hearly
  obtain ⟨c, hcf, hcap, hcall⟩ :=
    BlockProcessor.consumePreamble_partial hc ho he hfits (by rw [hf]; exact hs)
  have hdrop : buf.drop buf.length = [] := by simp
  refine ⟨{ block with contents := c }, ?_, ?_, ?_, ?_, ?_⟩
  · rw [BlockProcessor.consumeHead, if_pos ho, hcall, Exec.ok_bind]
    change (BlockProcessor.advance buf.length buf >>= fun rest => _) = _
    rw [BlockProcessor.advance_of_le (le_refl _) hsize.chunk_lt, hdrop]
    rfl
  · have hcap' := h.erased
    simp only [partialBlock, hearly] at hcap'
    simp only [partialBlock, hs]
    have hlen : block.dataLength = 0 := congrArg BlockInfo.dataLength hcap'
    simp only [BlockInfo.erase, hcf, hf, howner, he, ho, hc, hl, hlen]
  · exact le_trans h.capacity hcap
  · simp only [parseBlock, hs]
  · intro p rest hr
    rw [hs] at hr
    cases hr

theorem consumeHead_malformed (hfits : block.dataOffset = 0 →
      BlockProcessor.PreambleFits os dict block buf) {p : Preamble} {rest : Bytes}
    (hs : scanPreamble os dict (acc ++ buf) = some (p, rest))
    (hbig : 0xffffffff < p.blockLen.toNat) :
    BlockProcessor.consumeHead os dict block buf = .error .protocolError := by
  obtain ⟨-, hc, -⟩ := h.fields
  cases hacc : scanPreamble os dict acc with
  | some r =>
      obtain ⟨q, stored⟩ := r
      have hsmall := (h.late hacc).2.2.2.2.1
      rw [scanPreamble_append hacc buf] at hs
      simp only [Option.some.injEq, Prod.mk.injEq] at hs
      rw [hs.1] at hsmall
      omega
  | none =>
      obtain ⟨ho, he, hf⟩ := h.early hacc
      have hcall := BlockProcessor.consumePreamble_whole hc ho he (hfits ho) (by rw [hf]; exact hacc)
        (hsize.preamble_lt ho) (by rw [hf]; exact hs)
      rw [if_pos hbig] at hcall
      rw [BlockProcessor.consumeHead, if_pos ho, hcall]
      rfl

theorem consumeHead_whole (hfits : block.dataOffset = 0 →
      BlockProcessor.PreambleFits os dict block buf) {p : Preamble} {rest : Bytes}
    (hs : scanPreamble os dict (acc ++ buf) = some (p, rest))
    (hsmall : ¬ 0xffffffff < p.blockLen.toNat) :
    ∃ block' taken, BlockProcessor.consumeHead os dict block buf = .ok (block', taken) ∧
      taken.length ≤ buf.length ∧ HeadDone owner (acc ++ buf) p rest block'
        (partialData os dict .payload acc) taken := by
  obtain ⟨howner, hc, hl⟩ := h.fields
  cases hacc : scanPreamble os dict acc with
  | some r =>
      obtain ⟨q, stored⟩ := r
      have hlate := h.late hacc
      have hlt := h.offset_lt q stored hacc
      have hne : ¬ block.dataOffset = 0 := by
        rw [h.dataOffset_eq_zero, hacc]
        simp
      rw [scanPreamble_append hacc buf] at hs
      simp only [Option.some.injEq, Prod.mk.injEq] at hs
      obtain ⟨rfl, rfl⟩ := hs
      have hoff : (acc ++ buf).length - (stored ++ buf).length = acc.length - stored.length := by
        rw [List.length_append, List.length_append]
        omega
      have htake : (acc ++ buf).take ((acc ++ buf).length - buf.length) = acc := by
        rw [List.length_append, Nat.add_sub_cancel, List.take_left]
      have hdata : partialData os dict .payload acc = stored := by
        rw [partialData, hacc]
        rfl
      rw [hdata]
      refine ⟨block, buf, ?_, le_refl _, rfl, Or.inr hlate.2.2.2.2.2, ?_, h.capacity, ?_⟩
      · rw [BlockProcessor.consumeHead, if_neg hne]
        rfl
      · rw [hoff, htake, h.erased, partialBlock, hacc]
      · rw [hoff]
        exact hlt
  | none =>
      obtain ⟨ho, he, hf⟩ := h.early hacc
      have hlt := hsize.preamble_lt ho
      rw [ScratchBuffer.len, hf] at hlt
      have hused := scanPreamble_used hacc hs
      have hcall := BlockProcessor.consumePreamble_whole hc ho he (hfits ho) (by rw [hf]; exact hacc)
        (hsize.preamble_lt ho) (by rw [hf]; exact hs)
      rw [if_neg hsmall, hf] at hcall
      obtain ⟨c, hcf, hcap, hcall⟩ := hcall
      have hle : rest.length ≤ buf.length := by
        rw [List.length_append] at hused
        omega
      have hdrop : buf.drop (buf.length - rest.length) = rest := by
        have hrest := scanPreamble_rest hs
        rw [List.length_append] at hused hrest
        rw [List.drop_append, List.drop_of_length_le (by omega), List.nil_append] at hrest
        have hpos : acc.length + buf.length - rest.length - acc.length =
            buf.length - rest.length := by omega
        rw [hpos] at hrest
        exact hrest.symm
      have hdata : partialData os dict .payload acc = [] := by
        rw [partialData, hacc]
      rw [hdata]
      refine ⟨{ block with
        contents := c
        dataLength := p.blockLen.toUInt32
        dataOffset := UInt32.ofNat ((acc ++ buf).length - rest.length)
        eidList := p.eidList }, rest, ?_, hle, rfl, Or.inl rfl, ?_, le_trans h.capacity hcap, ?_⟩
      · rw [BlockProcessor.consumeHead, if_pos ho, hcall, Exec.ok_bind]
        change (BlockProcessor.advance (buf.length - rest.length) buf >>= fun rest => _) = _
        rw [BlockProcessor.advance_of_le (by omega) hsize.chunk_lt, hdrop]
        rfl
      · simp only [BlockInfo.erase, hcf, howner, hc, hl]
        have hkept : ∀ n, kept owner ((acc ++ buf).take n) n = (acc ++ buf).take n := by
          intro n
          unfold kept
          split
          · rw [List.take_take, min_self]
          · rfl
        rw [hkept]
      · rw [List.length_append]
        omega

end Head

section HeadDone

variable {p : Preamble} {all rest stored taken : Bytes}

theorem HeadDone.fields (hd : HeadDone owner all p rest block stored taken)
    (hsmall : ¬ 0xffffffff < p.blockLen.toNat) :
    block.complete = false ∧ block.dataOffset.toNat = all.length - rest.length ∧
      block.dataLength.toNat = p.blockLen.toNat ∧ block.contents.filled =
        kept owner (all.take (all.length - taken.length)) (all.length - rest.length) := by
  have he := hd.erased
  refine ⟨congrArg BlockInfo.complete he, ?_, ?_, congrArg (fun b => b.contents.filled) he⟩
  · have ho : block.dataOffset = UInt32.ofNat (all.length - rest.length) :=
      congrArg BlockInfo.dataOffset he
    rw [ho, UInt32.toNat_ofNat', Nat.mod_eq_of_lt hd.offset_lt]
  · have hl : block.dataLength = p.blockLen.toUInt32 := congrArg BlockInfo.dataLength he
    rw [hl, UInt64.toNat_toUInt32, Nat.mod_eq_of_lt (by omega)]

theorem HeadDone.dataOffset_ne (hd : HeadDone owner all p rest block stored taken)
    (hsmall : ¬ 0xffffffff < p.blockLen.toNat) (hlen : rest.length + 2 ≤ all.length) :
    ¬ block.dataOffset = 0 := by
  intro h0
  have ho := (hd.fields hsmall).2.1
  rw [h0] at ho
  change 0 = _ at ho
  omega

theorem HeadDone.rest_length (hd : HeadDone owner all p rest block stored taken) :
    rest.length = stored.length + taken.length := by
  rw [hd.split, List.length_append]

theorem HeadDone.stored_le (hd : HeadDone owner all p rest block stored taken) :
    stored.length = 0 ∨ stored.length < p.blockLen.toNat :=
  hd.some_left.imp_left fun h0 => by rw [h0]; rfl

theorem HeadDone.join (hd : HeadDone owner all p rest block stored taken)
    (hs : scanPreamble os dict all = some (p, rest)) :
    all.take (all.length - taken.length) ++ taken = all := by
  have hlen := scanPreamble_length hs
  have hrest := hd.rest_length
  have hdrop := congrArg (List.drop stored.length) (hd.split.symm.trans (scanPreamble_rest hs))
  rw [List.drop_left, List.drop_drop] at hdrop
  have hpos : all.length - rest.length + stored.length = all.length - taken.length := by omega
  rw [hpos] at hdrop
  have hjoin := List.take_append_drop (all.length - taken.length) all
  rwa [← hdrop] at hjoin

end HeadDone

section Generic

variable (h : Represents os dict owner acc block) (hsize : ChunkFits block buf)
  (hfits : block.dataOffset = 0 → BlockProcessor.PreambleFits os dict block buf)

include h hsize hfits

private theorem consume_partial (hs : scanPreamble os dict (acc ++ buf) = none) :
    ∃ block', BlockProcessor.consume os dict block buf = .ok (block', buf.length) ∧
      Represents os dict owner (acc ++ buf) block' := by
  obtain ⟨-, hc, -⟩ := h.fields
  have hacc := scanPreamble_none_of_append hs
  obtain ⟨block', hhead, hrep⟩ :=
    consumeHead_partial h hsize (hfits (h.dataOffset_eq_zero.mpr hacc)) hs
  have ho := hrep.dataOffset_eq_zero.mpr hs
  have hmark : BlockProcessor.markEmpty block' = block' := by
    rw [BlockProcessor.markEmpty, decide_eq_false (by simp [ho]), Bool.or_false]
  refine ⟨block', ?_, hrep⟩
  rw [BlockProcessor.consume, Exec.assert_bind hc, hhead, Exec.ok_bind]
  simp only [if_pos ho]
  rw [Exec.assert_bind (by rfl)]
  change (Except.ok (BlockProcessor.markEmpty block', 0) >>= fun r => _) = _
  rw [hmark]
  simp

private theorem consume_whole (howner : owner ≠ .payload) (hwrap : NoWrap os dict (acc ++ buf)) {p : Preamble} {rest : Bytes}
    (hs : scanPreamble os dict (acc ++ buf) = some (p, rest))
    (hsmall : ¬ 0xffffffff < p.blockLen.toNat) :
    if rest.length < p.blockLen.toNat then
      ∃ block', BlockProcessor.consume os dict block buf = .ok (block', buf.length) ∧
        block'.erase = partialBlock os dict owner (acc ++ buf) ∧ 64 ≤ block'.contents.bufLen
    else
      ∃ block', BlockProcessor.consume os dict block buf =
          .ok (block', buf.length - (rest.length - p.blockLen.toNat)) ∧
        block'.erase = ⟨owner, p.eidList,
          ⟨(acc ++ buf).take ((acc ++ buf).length - rest.length + p.blockLen.toNat), []⟩,
          p.blockLen.toUInt32, UInt32.ofNat ((acc ++ buf).length - rest.length), true, none⟩ ∧
        64 ≤ block'.contents.bufLen := by
  obtain ⟨-, hc, -⟩ := h.fields
  obtain ⟨block', taken, hhead, hle, hd⟩ := consumeHead_whole h hsize hfits hs hsmall
  obtain ⟨hc', hoff, hlen, hfilled⟩ := hd.fields hsmall
  rw [kept_of_ne howner] at hfilled
  have hslen := scanPreamble_length hs
  have hne := hd.dataOffset_ne hsmall hslen
  have hrest := hd.rest_length
  have hstored := hd.stored_le
  have hflen : block'.contents.filled.length = (acc ++ buf).length - taken.length := by
    rw [hfilled, List.length_take]
    omega
  have hall : block'.contents.filled ++ taken = acc ++ buf := by
    rw [hfilled]
    exact hd.join hs
  have hdata := BlockProcessor.consumeData_spec os taken hc' hoff hlen
    (by omega) (by omega) (by omega)
    ((hwrap p rest hs (by omega)).imp_right fun h0 => by
      rw [h0] at hrest
      exact List.eq_nil_of_length_eq_zero (by simp at hrest; omega))
  have hcall : ∀ r, BlockProcessor.consumeData os block' taken = .ok r →
      BlockProcessor.consume os dict block buf =
        .ok (r.1, buf.length - taken.length + r.2) := by
    intro r hr
    rw [BlockProcessor.consume, Exec.assert_bind hc, hhead, Exec.ok_bind]
    simp only [if_neg hne, hr]
    rfl
  rw [hflen] at hdata
  split at hdata
  · rename_i hlt
    obtain ⟨c, hcf, hcap, hr⟩ := hdata
    rw [if_pos (by omega)]
    refine ⟨{ block' with contents := c }, ?_, ?_, le_trans hd.capacity hcap⟩
    · rw [hcall _ hr]
      congr 2
      omega
    · rw [BlockInfo.erase_setContents, hd.erased, hcf, hall]
      simp only [partialBlock, hs, kept_of_ne howner]
  · rename_i hge
    obtain ⟨c, hcf, hcap, hr⟩ := hdata
    rw [if_neg (by omega)]
    refine ⟨{ block' with contents := c, complete := true }, ?_, ?_, le_trans hd.capacity hcap⟩
    · rw [hcall _ hr]
      congr 2
      omega
    · rw [BlockInfo.erase_setComplete, hd.erased, hcf, hall]

end Generic

/-! ## The payload -/

theorem BundlePayload.append_data (os : Oasys) (p : BundlePayload) (bs : Bytes)
    (hloc : p.location ≠ .nodata) :
    (p.setLength os (p.length + bs.length)).writeData bs p.length =
      .ok { p with data := p.data ++ bs } := by
  have hlen : (p.setLength os (p.length + bs.length)).length = p.length + bs.length := by
    simp [BundlePayload.setLength, BundlePayload.length]
  have hset : (p.setLength os (p.length + bs.length)).data.take p.length = p.data := by
    simp [BundlePayload.setLength, BundlePayload.length]
  have hrest : (p.setLength os (p.length + bs.length)).data.drop (p.length + bs.length) = [] :=
    List.drop_of_length_le (le_of_eq hlen)
  have hloc' : (p.setLength os (p.length + bs.length)).location ≠ .nodata := hloc
  rw [BundlePayload.writeData, Exec.assert_bind (by rw [hlen]; omega), Exec.assert_bind hloc',
    BundlePayload.overwrite, hset, hrest, List.append_nil]
  rfl

section Payload

variable {bundle : Bundle} {rest : Bytes} {off len : Nat}

variable (os rest) in
theorem payload_consumeData_spec (hloc : bundle.payload.location ≠ .nodata)
    (hoff : block.dataOffset.toNat = off) (hpos : 0 < off)
    (hlen : block.dataLength.toNat = len) (hcontents : block.contents.len = off)
    (hhi : bundle.payload.data.length = 0 ∨ bundle.payload.data.length < len) :
    if bundle.payload.data.length + rest.length < len then
      PayloadBlockProcessor.consumeData os bundle block rest =
        .ok (setPayload bundle (bundle.payload.data ++ rest), block, rest.length)
    else
      PayloadBlockProcessor.consumeData os bundle block rest =
        .ok (setPayload bundle ((bundle.payload.data ++ rest).take len),
          { block with complete := true }, len - bundle.payload.data.length) := by
  have hne : ¬ block.dataOffset = 0 := by
    intro h0
    rw [h0] at hoff
    change 0 = off at hoff
    omega
  have hzero : block.dataLength = 0 ↔ len = 0 := by
    rw [← hlen, ← UInt32.toNat_inj]
    rfl
  have hself : setPayload bundle bundle.payload.data = bundle := rfl
  unfold PayloadBlockProcessor.consumeData
  rw [if_neg hne, if_neg hloc]
  by_cases hl : len = 0
  · have hd : bundle.payload.data = [] := List.eq_nil_of_length_eq_zero (by omega)
    rw [if_pos (hzero.mpr hl), if_neg (by omega), hl, List.take_zero, Nat.zero_sub]
    rw [← hd, hself]
    rfl
  · rw [if_neg (mt hzero.mp hl)]
    by_cases hrest : rest = []
    · subst hrest
      have hlt : bundle.payload.data.length < len := by omega
      rw [if_pos rfl, List.length_nil, if_pos (by omega), List.append_nil, hself]
      rfl
    · have hlt : bundle.payload.length < block.dataLength.toNat := by
        rw [hlen]
        change bundle.payload.data.length < len
        omega
      rw [if_neg hrest, Exec.assert_bind (by rw [hcontents, hoff]), Exec.assert_bind hlt, hlen]
      change if bundle.payload.length + rest.length < len then _ else _
      split
      · rename_i hfew
        have hnot : ¬ len - bundle.payload.length ≤ rest.length := by omega
        simp only [if_neg hnot, List.take_length, decide_eq_false hnot, Bool.or_false]
        rw [BundlePayload.append_data os _ _ hloc]
        rfl
      · rename_i hmany
        have hyes : len - bundle.payload.length ≤ rest.length := by omega
        have htake : (rest.take (len - bundle.payload.length)).length =
            len - bundle.payload.length := by
          rw [List.length_take]
          omega
        have happ := BundlePayload.append_data os bundle.payload
          (rest.take (len - bundle.payload.length)) hloc
        rw [htake] at happ
        simp only [if_pos hyes, decide_eq_true hyes, Bool.or_true]
        rw [happ, Exec.ok_bind]
        have hall : (bundle.payload.data ++ rest).take len =
            bundle.payload.data ++ rest.take (len - bundle.payload.length) := by
          rw [List.take_append, List.take_of_length_le (by omega)]
          rfl
        rw [hall]
        rfl

end Payload

/-! ## The call as a whole -/

/-- The conditions under which a call of the `consume` of a block's owner keeps its assertions:
the chunk fits into the preamble buffer, the length of the block does not wrap around, and a
payload block finds no payload. -/
structure CallFits (os : Oasys) (bundle : Bundle) (block : BlockInfo) (buf : Bytes) : Prop where
  preamble : block.dataOffset = 0 →
    BlockProcessor.PreambleFits os bundle.recvBlocks.dict block buf
  no_wrap : block.owner ≠ .payload →
    NoWrap os bundle.recvBlocks.dict (block.contents.filled ++ buf)
  no_payload : block.owner = .payload → block.dataOffset = 0 → bundle.payload.length = 0

/-- A bundle in the middle of a block: `pre` is the payload it had before. -/
structure Holds (os : Oasys) (owner : Processor) (acc pre : Bytes) (bundle : Bundle) : Prop where
  payload_data : bundle.payload.data = pre ++ partialData os bundle.recvBlocks.dict owner acc
  pre_nil : owner = .payload → acc ≠ [] → pre = []
  location : bundle.payload.location ≠ .nodata

theorem findProcessor_ne_api (params : Params) (type : UInt8) :
    findProcessor params type ≠ .api := by
  unfold findProcessor
  repeat' split
  all_goals simp

private theorem consumeBlock_of_incomplete {params : Params} {bundle : Bundle} {block' : BlockInfo}
    (hpay : block.owner ≠ .payload) (hapi : block.owner ≠ .api) (hlt : buf.length < 2 ^ 31)
    (hr : BlockProcessor.consume os bundle.recvBlocks.dict block buf = .ok (block', buf.length))
    (hc : block'.complete = false) :
    consumeBlock params os bundle block buf = .ok (bundle, block', buf.length) := by
  have hint : ¬ toInt buf.length = -1 := by
    rw [toInt_of_lt hlt]
    omega
  have hgen : consumeGeneric params os bundle block buf = .ok (bundle, block', buf.length) := by
    rw [consumeGeneric, hr, Exec.ok_bind]
    simp only [if_neg hint, if_pos hc]
    rw [Exec.assert_bind trivial]
    rfl
  unfold consumeBlock
  split
  · contradiction
  · contradiction
  · rw [hr]
    rfl
  · exact hgen

private theorem consumeBlock_of_complete {params : Params} {bundle : Bundle} {block' : BlockInfo}
    {n : Nat} (hpay : block.owner ≠ .payload) (hapi : block.owner ≠ .api) (hlt : n < 2 ^ 31)
    (hr : BlockProcessor.consume os bundle.recvBlocks.dict block buf = .ok (block', n))
    (hown : block'.owner = block.owner) (hc : block'.complete = true) :
    consumeBlock params os bundle block buf = (do
      let (bundle, block) ← finishBlock params os bundle block'
      pure (bundle, block, n)) := by
  have hint : ¬ toInt n = -1 := by
    rw [toInt_of_lt hlt]
    omega
  have hnot : ¬ block'.complete = false := by
    rw [hc]
    simp
  have hgen : consumeGeneric params os bundle block buf = (do
      let (bundle, block) ← finishBlock params os bundle block'
      pure (bundle, block, n)) := by
    rw [consumeGeneric, hr, Exec.ok_bind]
    simp only [if_neg hint, if_neg hnot]
  unfold consumeBlock
  split
  · contradiction
  · contradiction
  · rename_i hunk
    rw [hr, Exec.ok_bind]
    simp only [finishBlock, hown, hunk]
    rfl
  · exact hgen

private theorem consumeBlock_payload {params : Params} {bundle : Bundle}
    (hpay : block.owner = .payload) : consumeBlock params os bundle block buf =
      PayloadBlockProcessor.consume os bundle block buf := by
  simp only [consumeBlock, hpay]

theorem partialData_of_ne (howner : owner ≠ .payload) (bytes : Bytes) :
    partialData os dict owner bytes = [] := by
  unfold partialData
  split
  · rfl
  · exact if_neg howner

private theorem setPayload_of_ne {bundle : Bundle} {pre : Bytes}
    (hb : Holds os owner acc pre bundle) (howner : owner ≠ .payload) :
    setPayload bundle (pre ++ []) = bundle := by
  have hdata := hb.payload_data
  rw [partialData_of_ne howner] at hdata
  rw [← hdata]
  rfl

section Call

variable {params : Params} {bundle : Bundle} {pre : Bytes}
  (h : Represents os bundle.recvBlocks.dict owner acc block) (hb : Holds os owner acc pre bundle)
  (hsize : ChunkFits block buf) (hcall : CallFits os bundle block buf)

include h hsize

theorem offset_lt_append (p : Preamble) (rest : Bytes)
    (hs : scanPreamble os bundle.recvBlocks.dict (acc ++ buf) = some (p, rest)) :
    (acc ++ buf).length - rest.length < 2 ^ 32 := by
  cases hacc : scanPreamble os bundle.recvBlocks.dict acc with
  | none =>
      obtain ⟨ho, -, hf⟩ := h.early hacc
      have hlt := hsize.preamble_lt ho
      rw [ScratchBuffer.len, hf] at hlt
      rw [List.length_append]
      omega
  | some r =>
      obtain ⟨q, stored⟩ := r
      have hlt := h.offset_lt q stored hacc
      rw [scanPreamble_append hacc buf] at hs
      simp only [Option.some.injEq, Prod.mk.injEq] at hs
      rw [← hs.2, List.length_append, List.length_append]
      omega

omit hsize in
theorem noWrap_of_callFits (hcall : CallFits os bundle block buf)
    (howner : owner ≠ .payload) : NoWrap os bundle.recvBlocks.dict (acc ++ buf) := by
  have hw := hcall.no_wrap (by rw [h.fields.1]; exact howner)
  rwa [h.filled howner] at hw

include hcall

private theorem payload_partial (howner : owner = .payload)
    (hs : scanPreamble os bundle.recvBlocks.dict (acc ++ buf) = none) :
    ∃ block', PayloadBlockProcessor.consume os bundle block buf =
        .ok (bundle, block', buf.length) ∧
      Represents os bundle.recvBlocks.dict owner (acc ++ buf) block' := by
  have hacc := scanPreamble_none_of_append hs
  have ho := h.dataOffset_eq_zero.mpr hacc
  have hpay := hcall.no_payload (h.fields.1.trans howner) ho
  obtain ⟨block', hhead, hrep⟩ := consumeHead_partial h hsize (hcall.preamble ho) hs
  have ho' := hrep.dataOffset_eq_zero.mpr hs
  refine ⟨block', ?_, hrep⟩
  have hhead' : PayloadBlockProcessor.consumeHead os bundle block buf = .ok (block', []) := by
    rw [PayloadBlockProcessor.consumeHead, hhead, Exec.ok_bind]
    simp only [if_pos ho]
    rw [Exec.assert_bind hpay]
    rfl
  have hdata : PayloadBlockProcessor.consumeData os bundle block' [] = .ok (bundle, block', 0) := by
    rw [PayloadBlockProcessor.consumeData, if_pos ho']
    rfl
  rw [PayloadBlockProcessor.consume, hhead', Exec.ok_bind]
  simp only [hdata]
  rfl

include hb

omit hsize in
theorem payload_so_far (howner : owner = .payload) :
    bundle.payload.data = partialData os bundle.recvBlocks.dict .payload acc ∧ pre = [] := by
  have hdata := hb.payload_data
  subst howner
  cases hacc : scanPreamble os bundle.recvBlocks.dict acc with
  | none =>
      have hlen := hcall.no_payload h.fields.1 (h.dataOffset_eq_zero.mpr hacc)
      have hnil : bundle.payload.data = [] := List.eq_nil_of_length_eq_zero hlen
      rw [hnil] at hdata ⊢
      exact ⟨by rw [partialData, hacc], (List.append_eq_nil_iff.mp hdata.symm).1⟩
  | some r =>
      have hne : acc ≠ [] := by
        rintro rfl
        cases hacc
      have hpre := hb.pre_nil rfl hne
      exact ⟨by rw [hdata, hpre, List.nil_append], hpre⟩

private theorem payload_whole (howner : owner = .payload) {p : Preamble} {rest : Bytes}
    (hs : scanPreamble os bundle.recvBlocks.dict (acc ++ buf) = some (p, rest))
    (hsmall : ¬ 0xffffffff < p.blockLen.toNat) :
    ∃ block', if rest.length < p.blockLen.toNat then
      PayloadBlockProcessor.consume os bundle block buf =
          .ok (setPayload bundle rest, block', buf.length) ∧
        block'.erase = partialBlock os bundle.recvBlocks.dict owner (acc ++ buf) ∧
        64 ≤ block'.contents.bufLen
    else
      PayloadBlockProcessor.consume os bundle block buf =
          .ok (setPayload bundle (rest.take p.blockLen.toNat), block',
            buf.length - (rest.length - p.blockLen.toNat)) ∧
        block'.erase = ⟨owner, p.eidList,
          ⟨(acc ++ buf).take ((acc ++ buf).length - rest.length), []⟩,
          p.blockLen.toUInt32, UInt32.ofNat ((acc ++ buf).length - rest.length), true, none⟩ ∧
        64 ≤ block'.contents.bufLen := by
  have hpay := (payload_so_far h hb hcall howner).1
  obtain ⟨block', taken, hhead, hle, hd⟩ := consumeHead_whole h hsize hcall.preamble hs hsmall
  rw [← hpay] at hd
  subst howner
  obtain ⟨hc', hoff, hlen, hfilled⟩ := hd.fields hsmall
  have hslen := scanPreamble_length hs
  have hrest := hd.rest_length
  have hstored := hd.stored_le
  have hfill : block'.contents.filled =
      (acc ++ buf).take ((acc ++ buf).length - rest.length) := by
    rw [hfilled, kept_payload, List.take_take, min_eq_left (by omega)]
  have hcontents : block'.contents.len = (acc ++ buf).length - rest.length := by
    rw [ScratchBuffer.len, hfill, List.length_take]
    omega
  have hhead' : PayloadBlockProcessor.consumeHead os bundle block buf = .ok (block', taken) := by
    rw [PayloadBlockProcessor.consumeHead, hhead, Exec.ok_bind]
    by_cases ho : block.dataOffset = 0
    · simp only [if_pos ho]
      rw [Exec.assert_bind (hcall.no_payload h.fields.1 ho)]
      rfl
    · simp only [if_neg ho]
      rfl
  have hdata := payload_consumeData_spec os taken hb.location hoff (by omega)
    hlen hcontents hstored
  have hresult : ∀ bundle' b n, PayloadBlockProcessor.consumeData os bundle block' taken =
      .ok (bundle', b, n) → PayloadBlockProcessor.consume os bundle block buf =
        .ok (bundle', b, buf.length - taken.length + n) := by
    intro bundle' b n hr
    rw [PayloadBlockProcessor.consume, hhead', Exec.ok_bind]
    simp only [hr]
    rfl
  have hkept : block'.erase = ⟨.payload, p.eidList,
      ⟨(acc ++ buf).take ((acc ++ buf).length - rest.length), []⟩,
      p.blockLen.toUInt32, UInt32.ofNat ((acc ++ buf).length - rest.length), false, none⟩ := by
    rw [hd.erased, kept_payload, List.take_take, min_eq_left (by omega)]
  split at hdata
  · rename_i hlt
    have hn : buf.length - taken.length + taken.length = buf.length := by omega
    refine ⟨block', ?_⟩
    rw [if_pos (by omega)]
    refine ⟨?_, ?_, hd.capacity⟩
    · rw [hresult _ _ _ hdata, ← hd.split, hn]
    · rw [hkept]
      simp only [partialBlock, hs, kept_payload]
  · rename_i hge
    have hn : buf.length - taken.length + (p.blockLen.toNat - bundle.payload.data.length) =
        buf.length - (rest.length - p.blockLen.toNat) := by omega
    refine ⟨{ block' with complete := true }, ?_⟩
    rw [if_neg (by omega)]
    refine ⟨?_, ?_, hd.capacity⟩
    · rw [hresult _ _ _ hdata, ← hd.split, hn]
    · change { block'.erase with complete := true } = _
      rw [hkept]

variable (params) in
theorem consumeBlock_incomplete (hapi : owner ≠ .api)
    (hp : parseBlock os bundle.recvBlocks.dict owner (acc ++ buf) = .incomplete) :
    ∃ block', consumeBlock params os bundle block buf =
        .ok (setPayload bundle (pre ++ partialData os bundle.recvBlocks.dict owner (acc ++ buf)),
          block', buf.length) ∧
      Represents os bundle.recvBlocks.dict owner (acc ++ buf) block' := by
  have hoff := offset_lt_append h hsize
  have hfield := h.fields.1
  by_cases howner : owner = .payload
  · obtain ⟨hpay, hpre⟩ := payload_so_far h hb hcall howner
    rw [consumeBlock_payload (hfield.trans howner), hpre, List.nil_append]
    rcases parseBlock_eq_incomplete hp with hs | ⟨p, rest, hs, hsmall, hfew⟩
    · obtain ⟨block', hr, hrep⟩ := payload_partial h hsize hcall howner hs
      have hdata : partialData os bundle.recvBlocks.dict owner (acc ++ buf) =
          bundle.payload.data := by
        rw [hpay, partialData, partialData, hs, scanPreamble_none_of_append hs]
      refine ⟨block', ?_, hrep⟩
      rw [hr, hdata]
      rfl
    · obtain ⟨block', hr⟩ := payload_whole h hb hsize hcall howner hs hsmall
      rw [if_pos hfew] at hr
      refine ⟨block', ?_, hr.2.1, hr.2.2, hp, hoff⟩
      rw [hr.1, partialData, hs, howner]
      rfl
  · rw [partialData_of_ne howner, setPayload_of_ne hb howner]
    suffices hsuff : ∃ block', BlockProcessor.consume os bundle.recvBlocks.dict block buf =
        .ok (block', buf.length) ∧ Represents os bundle.recvBlocks.dict owner (acc ++ buf) block' by
      obtain ⟨block', hr, hrep⟩ := hsuff
      exact ⟨block', consumeBlock_of_incomplete (by rwa [hfield]) (by rwa [hfield])
        hsize.chunk_lt hr hrep.fields.2.1, hrep⟩
    rcases parseBlock_eq_incomplete hp with hs | ⟨p, rest, hs, hsmall, hfew⟩
    · exact consume_partial h hsize hcall.preamble hs
    · have hr := consume_whole h hsize hcall.preamble howner (noWrap_of_callFits h hcall howner)
        hs hsmall
      rw [if_pos hfew] at hr
      obtain ⟨block', hr, he, hcap⟩ := hr
      exact ⟨block', hr, he, hcap, hp, hoff⟩

omit hb in
theorem consumeBlock_malformed
    (hp : parseBlock os bundle.recvBlocks.dict owner (acc ++ buf) = .malformed) :
    consumeBlock params os bundle block buf = .error .protocolError := by
  obtain ⟨p, rest, hs, hbig⟩ := parseBlock_eq_malformed hp
  have hhead := consumeHead_malformed h hsize hcall.preamble hs hbig
  have hcons : BlockProcessor.consume os bundle.recvBlocks.dict block buf =
      .error .protocolError := by
    rw [BlockProcessor.consume, Exec.assert_bind h.fields.2.1, hhead]
    rfl
  unfold consumeBlock
  split
  · rw [PayloadBlockProcessor.consume, PayloadBlockProcessor.consumeHead, hhead]
    rfl
  · rfl
  · rw [hcons]
    rfl
  · rw [consumeGeneric, hcons]
    rfl

variable (params) in
theorem consumeBlock_complete (hapi : owner ≠ .api) {blk : BlockInfo} {data rest : Bytes}
    (hp : parseBlock os bundle.recvBlocks.dict owner (acc ++ buf) = .complete blk data rest) :
    ∃ block', block'.erase = blk ∧ 64 ≤ block'.contents.bufLen ∧
      consumeBlock params os bundle block buf = (do
        let (bundle, block) ←
          finishBlock params os (setPayload bundle (pre ++ moved owner data)) block'
        pure (bundle, block, buf.length - rest.length)) := by
  have hfield := h.fields.1
  obtain ⟨p, tail, hs, hsmall, henough, rfl, rfl, rfl⟩ := parseBlock_eq_complete hp
  rw [List.length_drop]
  by_cases howner : owner = .payload
  · obtain ⟨hpay, hpre⟩ := payload_so_far h hb hcall howner
    obtain ⟨block', hr⟩ := payload_whole h hb hsize hcall howner hs hsmall
    rw [if_neg henough] at hr
    obtain ⟨hr, he, hcap⟩ := hr
    have hown : block'.owner = .payload := (congrArg BlockInfo.owner he).trans howner
    refine ⟨block', ?_, hcap, ?_⟩
    · rw [he, wholeBlock, howner, kept_payload, List.take_take, min_eq_left (by omega)]
    · rw [consumeBlock_payload (hfield.trans howner), hr, hpre, howner]
      simp only [finishBlock, hown, moved, if_pos, List.nil_append]
      rfl
  · have hmoved : ∀ data, moved owner data = [] := fun data => if_neg howner
    rw [hmoved, setPayload_of_ne hb howner]
    have hr := consume_whole h hsize hcall.preamble howner (noWrap_of_callFits h hcall howner)
      hs hsmall
    rw [if_neg henough] at hr
    obtain ⟨block', hr, he, hcap⟩ := hr
    have hlt := hsize.chunk_lt
    refine ⟨block', ?_, hcap, ?_⟩
    · rw [he, wholeBlock, kept_of_ne howner]
    · exact consumeBlock_of_complete (by rwa [hfield]) (by rwa [hfield]) (by omega) hr
        ((congrArg BlockInfo.owner he).trans hfield.symm) (congrArg BlockInfo.complete he)

end Call

/-! ## Where the conditions fail -/

private theorem payload_faults {bundle : Bundle} {r : BlockInfo × Bytes}
    (ho : block.dataOffset = 0) (hpay : bundle.payload.length ≠ 0)
    (hhead : BlockProcessor.consumeHead os bundle.recvBlocks.dict block buf = .ok r) :
    PayloadBlockProcessor.consume os bundle block buf = .error (.fault .assertion) := by
  rw [PayloadBlockProcessor.consume, PayloadBlockProcessor.consumeHead, hhead, Exec.ok_bind]
  simp only [if_pos ho]
  rw [Exec.assert_bind_not hpay]
  rfl

section Faults

variable {params : Params} {bundle : Bundle} {pre : Bytes}
  (h : Represents os bundle.recvBlocks.dict owner acc block) (hsize : ChunkFits block buf)

include h

private theorem consumeBlock_faults_of_head (howner : owner ≠ .api) {f : Fault}
    (hhead : BlockProcessor.consumeHead os bundle.recvBlocks.dict block buf = .error (.fault f)) :
    consumeBlock params os bundle block buf = .error (.fault f) := by
  have hcons : BlockProcessor.consume os bundle.recvBlocks.dict block buf = .error (.fault f) := by
    rw [BlockProcessor.consume, Exec.assert_bind h.fields.2.1, hhead]
    rfl
  unfold consumeBlock
  split
  · rw [PayloadBlockProcessor.consume, PayloadBlockProcessor.consumeHead, hhead]
    rfl
  · rename_i hown
    rw [h.fields.1] at hown
    exact absurd hown howner
  · rw [hcons]
    rfl
  · rw [consumeGeneric, hcons]
    rfl

private theorem consumeBlock_faults_of_preamble (hapi : owner ≠ .api) (ho : block.dataOffset = 0)
    (hfits : ¬ BlockProcessor.PreambleFits os bundle.recvBlocks.dict block buf) :
    consumeBlock params os bundle block buf = .error (.fault .assertion) := by
  apply consumeBlock_faults_of_head h hapi
  have hs := h.dataOffset_eq_zero.mp ho
  obtain ⟨-, he, -⟩ := h.early hs
  rw [BlockProcessor.consumeHead, if_pos ho,
    BlockProcessor.consumePreamble_faults h.fields.2.1 ho he hfits]
  rfl

include hsize

private theorem consumeBlock_faults_of_wrap (hapi : owner ≠ .api) (howner : owner ≠ .payload)
    (hbuf : buf ≠ []) (hfits : block.dataOffset = 0 →
      BlockProcessor.PreambleFits os bundle.recvBlocks.dict block buf)
    (hwrap : ¬ NoWrap os bundle.recvBlocks.dict (acc ++ buf)) :
    consumeBlock params os bundle block buf = .error (.fault .assertion) := by
  simp only [NoWrap, not_forall, not_or] at hwrap
  obtain ⟨p, rest, hs, hsmall, hwide, hrest⟩ := hwrap
  have hslen := scanPreamble_length hs
  obtain ⟨block', taken, hhead, hle, hd⟩ := consumeHead_whole h hsize hfits hs (by omega)
  obtain ⟨-, hoff, hlen, hfilled⟩ := hd.fields (by omega)
  have hne := hd.dataOffset_ne (by omega) hslen
  have hlens := hd.rest_length
  -- either the chunk starts the data, or it is handed on whole
  have htaken : taken ≠ [] := by
    by_cases ho : block.dataOffset = 0
    · have hnone := h.dataOffset_eq_zero.mp ho
      have hsplit := hd.split
      rw [partialData, hnone, List.nil_append] at hsplit
      rwa [← hsplit]
    · rw [BlockProcessor.consumeHead, if_neg ho] at hhead
      have hinj : (Except.ok (block, buf) : Exec (BlockInfo × Bytes)) = .ok (block', taken) := hhead
      simp only [Except.ok.injEq, Prod.mk.injEq] at hinj
      rw [← hinj.2]
      exact hbuf
  have hflen : (acc ++ buf).length - rest.length ≤ block'.contents.filled.length := by
    rw [hfilled, kept_of_ne howner, List.length_take]
    omega
  have hdata := BlockProcessor.consumeData_faults os hoff hlen hflen (by omega) htaken
  have hcons : BlockProcessor.consume os bundle.recvBlocks.dict block buf =
      .error (.fault .assertion) := by
    rw [BlockProcessor.consume, Exec.assert_bind h.fields.2.1, hhead, Exec.ok_bind]
    simp only [if_neg hne, hdata]
    rfl
  have hown := h.fields.1
  unfold consumeBlock
  split
  · rename_i hp
    exact absurd (hown.symm.trans hp) howner
  · rename_i hp
    exact absurd (hown.symm.trans hp) hapi
  · rw [hcons]
    rfl
  · rw [consumeGeneric, hcons]
    rfl

variable (params) in
theorem consumeBlock_faults (hapi : owner ≠ .api) (hbuf : buf ≠ [])
    (hcall : ¬ CallFits os bundle block buf) :
    (consumeBlock params os bundle block buf).Faults ∨
      (parseBlock os bundle.recvBlocks.dict owner (acc ++ buf) = .malformed ∧
        consumeBlock params os bundle block buf = .error .protocolError) := by
  by_cases hfits : block.dataOffset = 0 →
      BlockProcessor.PreambleFits os bundle.recvBlocks.dict block buf
  · by_cases howner : owner = .payload
    · -- only the check for an empty payload is left
      have hpay : block.dataOffset = 0 ∧ bundle.payload.length ≠ 0 := by
        by_contra hno
        apply hcall
        refine ⟨hfits, fun hne => absurd (h.fields.1.trans howner) hne, ?_⟩
        intro _ ho
        by_contra hlen
        exact hno ⟨ho, hlen⟩
      rw [consumeBlock_payload (h.fields.1.trans howner)]
      cases hp : parseBlock os bundle.recvBlocks.dict owner (acc ++ buf) with
      | malformed =>
          obtain ⟨p, rest, hs, hbig⟩ := parseBlock_eq_malformed hp
          refine Or.inr ⟨rfl, ?_⟩
          rw [PayloadBlockProcessor.consume, PayloadBlockProcessor.consumeHead,
            consumeHead_malformed h hsize hfits hs hbig]
          rfl
      | incomplete =>
          refine Or.inl ⟨.assertion, ?_⟩
          rcases parseBlock_eq_incomplete hp with hs | ⟨p, rest, hs, hsmall, -⟩
          · obtain ⟨block', hhead, -⟩ := consumeHead_partial h hsize (hfits hpay.1) hs
            exact payload_faults hpay.1 hpay.2 hhead
          · obtain ⟨block', taken, hhead, -⟩ := consumeHead_whole h hsize hfits hs hsmall
            exact payload_faults hpay.1 hpay.2 hhead
      | complete blk data rest =>
          obtain ⟨p, tail, hs, hsmall, -⟩ := parseBlock_eq_complete hp
          obtain ⟨block', taken, hhead, -⟩ := consumeHead_whole h hsize hfits hs hsmall
          exact Or.inl ⟨.assertion, payload_faults hpay.1 hpay.2 hhead⟩
    · have hwrap : ¬ NoWrap os bundle.recvBlocks.dict (acc ++ buf) := by
        intro hw
        apply hcall
        refine ⟨hfits, fun _ => ?_, fun hp => absurd (h.fields.1.symm.trans hp) howner⟩
        rwa [h.filled howner]
      exact Or.inl ⟨_, consumeBlock_faults_of_wrap h hsize hapi howner hbuf hfits hwrap⟩
  · simp only [Classical.not_imp] at hfits
    exact Or.inl ⟨_, consumeBlock_faults_of_preamble h hapi hfits.1 hfits.2⟩

end Faults

end BundleProtocol

end Dtn2
