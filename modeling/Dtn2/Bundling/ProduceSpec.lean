import Dtn2.Bundling.GenerateSpec

/-!
# Producing the bytes of a bundle

`BundleProtocol::produce` fills the caller's buffer with a part of the concatenation of the
blocks, from any offset, and reports the last block when it has reached the end of it.
-/

namespace Dtn2

open BundleProtocol

def wire (bundle : Bundle) (x : BlockInfo) : Bytes :=
  x.contents.filled ++ if x.owner = .payload then bundle.payload.data else []

def wires (bundle : Bundle) (xs : List XmitBlock) : Bytes :=
  xs.flatMap fun x => wire bundle x.toBlockInfo

@[simp] theorem wires_cons (bundle : Bundle) (x : XmitBlock) (xs : List XmitBlock) :
    wires bundle (x :: xs) = wire bundle x.toBlockInfo ++ wires bundle xs := rfl

/-- The lengths of a block are those of its bytes. -/
structure Placed (bundle : Bundle) (x : BlockInfo) : Prop where
  full : x.fullLength.toNat = (wire bundle x).length
  pos : 0 < (wire bundle x).length
  payload : x.owner = .payload → x.dataOffset.toNat = x.contents.filled.length ∧
    bundle.payload.location ≠ .nodata ∧ bundle.payload.length < 2 ^ 64

variable {os : Oasys} {bundle : Bundle}

private theorem payload_head (x : BlockInfo) (hoff : x.dataOffset.toNat = x.contents.filled.length)
    (offset len : Nat) :
    (if offset < x.dataOffset.toNat then
      (x.contents.memory.drop offset).take (min len (x.dataOffset.toNat - offset)) else []) =
      (x.contents.filled.drop offset).take len := by
  rw [hoff]
  split
  · rename_i hlt
    rw [ScratchBuffer.memory, List.drop_append_of_le_length (by omega),
      List.take_append_of_le_length (by rw [List.length_drop]; omega), ← List.length_drop]
    exact List.take_eq_take_iff.mpr (by omega)
  · rw [List.drop_of_length_le (by omega), List.take_nil]

private theorem payload_produce {x : BlockInfo} (h : Placed bundle x) (howner : x.owner = .payload)
    {offset len : Nat} (hlen : offset + len ≤ (wire bundle x).length) :
    PayloadBlockProcessor.produce os bundle x offset len =
      .ok (((wire bundle x).drop offset).take len) := by
  obtain ⟨hoff, hloc, hsize⟩ := h.payload howner
  have hwire : wire bundle x = x.contents.filled ++ bundle.payload.data := by
    rw [wire, if_pos howner]
  rw [hwire, List.length_append] at hlen
  have hhead : ((x.contents.filled.drop offset).take len).length =
      min len (x.contents.filled.length - offset) := by
    rw [List.length_take, List.length_drop]
  have hout : (x.contents.filled.drop offset).take len ++
      (bundle.payload.data.drop (offset - x.contents.filled.length)).take
        (len - (x.contents.filled.length - offset)) =
      ((x.contents.filled ++ bundle.payload.data).drop offset).take len := by
    rw [List.drop_append, List.take_append, List.length_drop]
  rw [PayloadBlockProcessor.produce]
  simp only [payload_head x hoff offset len, hhead]
  rw [hwire, ← hout]
  by_cases hall : len - min len (x.contents.filled.length - offset) = 0
  · rw [if_pos hall]
    have hnone : len - (x.contents.filled.length - offset) = 0 := by omega
    rw [hnone, List.take_zero, List.append_nil]
    rfl
  · rw [if_neg hall, hoff]
    have hstart : offset + min len (x.contents.filled.length - offset) -
        x.contents.filled.length = offset - x.contents.filled.length := by omega
    have hrest : len - min len (x.contents.filled.length - offset) =
        len - (x.contents.filled.length - offset) := by omega
    have hlength : bundle.payload.length = bundle.payload.data.length := rfl
    have hsub : sizeSub bundle.payload.length (offset - x.contents.filled.length) =
        bundle.payload.length - (offset - x.contents.filled.length) :=
      sizeSub_of_le (by omega) hsize
    have hmin : min (len - (x.contents.filled.length - offset))
        (bundle.payload.length - (offset - x.contents.filled.length)) =
        len - (x.contents.filled.length - offset) := by omega
    rw [hstart, hrest, hsub, hmin, BundlePayload.readData, Exec.assert_bind (by omega),
      Exec.assert_bind hloc, pure_bind]
    have hfull : len - ((x.contents.filled.drop offset).take len ++
        (bundle.payload.data.drop (offset - x.contents.filled.length)).take
          (len - (x.contents.filled.length - offset))).length = 0 := by
      rw [List.length_append, hhead, List.length_take, List.length_drop]
      omega
    rw [hfull, List.range'_zero, List.map_nil, List.append_nil]
    rfl

theorem produceBlock_spec {x : BlockInfo} (h : Placed bundle x) {offset len : Nat}
    (hoff : offset < (wire bundle x).length) (hlen : offset + len ≤ (wire bundle x).length) :
    produceBlock os bundle x offset len = .ok (((wire bundle x).drop offset).take len) := by
  unfold produceBlock
  by_cases howner : x.owner = .payload
  · rw [if_pos howner]
    exact payload_produce h howner hlen
  · have hwire : wire bundle x = x.contents.filled := by
      rw [wire, if_neg howner, List.append_nil]
    rw [if_neg howner, BlockProcessor.produce]
    rw [hwire] at hoff hlen ⊢
    rw [ScratchBuffer.len, Exec.assert_bind hoff, Exec.assert_bind hlen]
    rfl

theorem produceLoop_spec {x : XmitBlock} {xs : List XmitBlock}
    (hplaced : ∀ y ∈ x :: xs, Placed bundle y.toBlockInfo) (hmarked : LastMarked (x :: xs))
    {offset len : Nat} (hoff : offset < (wire bundle x.toBlockInfo).length) (hlen : 0 < len) :
    produceLoop os bundle (x :: xs) offset len =
      .ok (((wires bundle (x :: xs)).drop offset).take len,
        decide ((wires bundle (x :: xs)).length ≤ offset + len)) := by
  induction xs generalizing x offset len with
  | nil =>
      have hp := hplaced x (by simp)
      obtain ⟨⟨f, hf, hlast⟩, -⟩ := hmarked
      have hwires : wires bundle [x] = wire bundle x.toBlockInfo := List.append_nil _
      have hset : f &&& blockFlagLastBlock ≠ 0 := by simpa using hlast
      rw [produceLoop, hp.full, produceBlock_spec hp hoff (by omega), Exec.ok_bind, hwires]
      by_cases hend : (wire bundle x.toBlockInfo).length ≤ offset + len
      · have hcopy : min len ((wire bundle x.toBlockInfo).length - offset) =
            (wire bundle x.toBlockInfo).length - offset := by omega
        rw [hcopy, if_neg (by simp), hf, Exec.ok_bind, if_pos hset, Exec.assert_bind rfl,
          List.take_of_length_le (by rw [List.length_drop]),
          List.take_of_length_le (by rw [List.length_drop]; omega), decide_eq_true hend]
        rfl
      · have hcopy : min len ((wire bundle x.toBlockInfo).length - offset) = len := by omega
        rw [hcopy, if_pos (by omega), decide_eq_false hend]
        rfl
  | cons y ys ih =>
      have hp := hplaced x (by simp)
      obtain ⟨⟨f, hf, hlast⟩, hmarked'⟩ := hmarked
      have hclear : ¬ f &&& blockFlagLastBlock ≠ 0 := by simpa using hlast
      have hy := (hplaced y (by simp)).pos
      have hmore : (wire bundle y.toBlockInfo).length ≤ (wires bundle (y :: ys)).length := by
        rw [wires_cons, List.length_append]
        omega
      rw [produceLoop, hp.full, produceBlock_spec hp hoff (by omega), Exec.ok_bind,
        wires_cons bundle x, List.length_append]
      by_cases hend : (wire bundle x.toBlockInfo).length ≤ offset + len
      · have hcopy : min len ((wire bundle x.toBlockInfo).length - offset) =
            (wire bundle x.toBlockInfo).length - offset := by omega
        rw [hcopy, if_neg (by simp), hf, Exec.ok_bind, if_neg hclear,
          List.take_of_length_le (by rw [List.length_drop]), List.drop_append_of_le_length
            (by omega), List.take_append, List.length_drop]
        by_cases hzero : len - ((wire bundle x.toBlockInfo).length - offset) = 0
        · rw [if_pos hzero, hzero, List.take_zero, List.append_nil,
            List.take_of_length_le (by rw [List.length_drop]; omega),
            decide_eq_false (by omega)]
          rfl
        · have hhead : ((wire bundle x.toBlockInfo).drop offset).take len =
              (wire bundle x.toBlockInfo).drop offset :=
            List.take_of_length_le (by rw [List.length_drop]; omega)
          rw [if_neg hzero, ih (fun z hz => hplaced z (List.mem_cons_of_mem _ hz)) hmarked' hy
            (by omega), Exec.ok_bind, hhead, List.drop_zero]
          have hlen' : decide ((wires bundle (y :: ys)).length ≤
              0 + (len - ((wire bundle x.toBlockInfo).length - offset))) =
              decide ((wire bundle x.toBlockInfo).length + (wires bundle (y :: ys)).length ≤
                offset + len) := by
            rw [decide_eq_decide]
            omega
          rw [hlen']
          rfl
      · have hcopy : min len ((wire bundle x.toBlockInfo).length - offset) = len := by omega
        rw [hcopy, if_pos (by omega), decide_eq_false (by omega), List.drop_append_of_le_length
          (by omega), List.take_append_of_le_length (by rw [List.length_drop]; omega)]
        rfl

private theorem skip_produce {xs : List XmitBlock}
    (hplaced : ∀ y ∈ xs, Placed bundle y.toBlockInfo) (hmarked : LastMarked xs)
    {offset len : Nat} (hoff : offset < (wires bundle xs).length) (hlen : 0 < len) :
    (skipBlocks xs offset >>= fun r => produceLoop os bundle r.1 r.2 len) =
      .ok (((wires bundle xs).drop offset).take len,
        decide ((wires bundle xs).length ≤ offset + len)) := by
  induction xs generalizing offset with
  | nil => simp [wires] at hoff
  | cons x xs ih =>
      have hp := hplaced x (by simp)
      rw [skipBlocks, hp.full]
      by_cases hskip : (wire bundle x.toBlockInfo).length ≤ offset
      · rw [wires_cons, List.length_append] at hoff
        rw [if_pos hskip, ih (fun z hz => hplaced z (List.mem_cons_of_mem _ hz)) hmarked.2
          (by omega), wires_cons, List.length_append, List.drop_append,
          List.drop_of_length_le hskip, List.nil_append]
        congr 2
        rw [decide_eq_decide]
        omega
      · rw [if_neg hskip, pure_bind]
        exact produceLoop_spec hplaced hmarked (by omega) hlen

theorem produce_spec {xs : List XmitBlock} (hplaced : ∀ y ∈ xs, Placed bundle y.toBlockInfo)
    (hmarked : LastMarked xs) {offset len : Nat} (hoff : offset < (wires bundle xs).length)
    (hlen : 0 < len) :
    produce os bundle xs offset len =
      .ok (((wires bundle xs).drop offset).take len,
        decide ((wires bundle xs).length ≤ offset + len)) := by
  rw [produce, if_neg (by omega)]
  exact skip_produce hplaced hmarked hoff hlen

theorem totalLength_eq {xs : List XmitBlock} (hplaced : ∀ y ∈ xs, Placed bundle y.toBlockInfo) :
    totalLength xs = (wires bundle xs).length := by
  induction xs with
  | nil => rfl
  | cons x xs ih =>
      have hrec := ih fun y hy => hplaced y (List.mem_cons_of_mem _ hy)
      rw [totalLength] at hrec ⊢
      rw [List.map_cons, List.sum_cons, hrec, wires_cons, List.length_append,
        (hplaced x (by simp)).full]

end Dtn2
