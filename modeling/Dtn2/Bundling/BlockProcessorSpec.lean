import Dtn2.Bundling.Parse

/-!
# The generic block processor, described by the bytes received

`consume_preamble` and the storing of data, described by the bytes that the block has received
before together with the chunk. `consume_preamble` sees only what fits into the contents buffer;
if the preamble ends there, or the whole chunk fits, it does what `scanPreamble` says about all
the bytes, and otherwise it fails an assertion.
-/

namespace Dtn2

open Framework BundleProtocol

namespace BlockProcessor

variable {os : Oasys} {dict : Dictionary} {block : BlockInfo} {buf : Bytes}

/-- How many bytes of a chunk `consume_preamble` looks at. -/
def room (os : Oasys) (block : BlockInfo) : Nat := (openContents os block).nfree

/-- The chunk fits into the buffer, or the preamble ends inside the buffer. -/
def PreambleFits (os : Oasys) (dict : Dictionary) (block : BlockInfo) (buf : Bytes) : Prop :=
  buf.length ≤ room os block ∨
    (scanPreamble os dict (block.contents.filled ++ buf.take (room os block))).isSome = true

instance : Decidable (PreambleFits os dict block buf) := inferInstanceAs (Decidable (_ ∨ _))

@[simp] theorem openContents_filled : (openContents os block).filled = block.contents.filled := by
  unfold openContents
  split <;> simp

variable (os block) in
theorem bufLen_openContents : block.contents.bufLen ≤ (openContents os block).bufLen := by
  unfold openContents
  split
  · exact ScratchBuffer.bufLen_le_reserve os _ _
  · exact le_refl _

variable (os block) in
theorem room_pos : 0 < room os block := by
  unfold room openContents
  split
  · have h := ScratchBuffer.nfree_le_reserve os block.contents (block.contents.len + 64)
    omega
  · omega

variable (os block) in
theorem room_eq : (openContents os block).bufLen = block.contents.filled.length + room os block := by
  simp [room, ScratchBuffer.bufLen, ScratchBuffer.nfree]

/-- The buffer once the visible part of the chunk has been copied into it. -/
def copied (os : Oasys) (block : BlockInfo) (buf : Bytes) : ScratchBuffer :=
  ⟨block.contents.filled ++ buf.take (room os block),
    (openContents os block).spare.drop (min buf.length (room os block))⟩

theorem bufLen_copied : (openContents os block).bufLen = (copied os block buf).bufLen := by
  have hroom : (openContents os block).spare.length = room os block := rfl
  simp only [copied, ScratchBuffer.bufLen, List.length_append, List.length_take, List.length_drop,
    openContents_filled, hroom]
  omega

private theorem readPreamble_none {bytes : Bytes} (h : SDNV.read bytes = none) :
    readPreamble os dict bytes = none := by
  cases hr : readPreamble os dict bytes with
  | none => rfl
  | some r =>
      obtain ⟨flags, mid, hf, -⟩ := (Reader.bind_eq_some _ _ _ _ _).mp hr
      rw [h] at hf
      cases hf

theorem consumePreamble_eq (hc : block.complete = false) (ho : block.dataOffset = 0)
    (he : block.eidList = []) :
    consumePreamble os dict block buf =
      match scanPreamble os dict (copied os block buf).filled with
      | none => partialPreamble block (copied os block buf) (min buf.length (room os block))
          buf.length
      | some (p, rest) =>
          if 0xffffffff < p.blockLen.toNat then .error .protocolError
          else
            let bufOffset := (copied os block buf).len - rest.length
            pure ({ block with
              contents := (copied os block buf).shrink bufOffset
              dataLength := p.blockLen.toUInt32
              dataOffset := UInt32.ofNat bufOffset
              eidList := p.eidList }, sizeSub bufOffset block.contents.filled.length) := by
  have hroom : (openContents os block).bufLen - (openContents os block).len = room os block := by
    rw [room_eq, ScratchBuffer.len, openContents_filled]
    omega
  have hpos := room_pos os block
  have htake : buf.take (min buf.length (room os block)) = buf.take (room os block) := by
    rcases Nat.le_total buf.length (room os block) with h | h
    · rw [min_eq_left h, List.take_of_length_le (le_refl _), List.take_of_length_le h]
    · rw [min_eq_right h]
  have happ : (openContents os block).append (buf.take (min buf.length (room os block))) =
      .ok (copied os block buf) := by
    have hlen : (buf.take (min buf.length (room os block))).length =
        min buf.length (room os block) := by
      rw [List.length_take]
      omega
    have hle : (buf.take (min buf.length (room os block))).length ≤
        (openContents os block).nfree := by
      rw [hlen]
      exact min_le_right _ _
    rw [ScratchBuffer.append_of_le hle, hlen, htake, openContents_filled]
    rfl
  have hfull : (openContents os block).len < (openContents os block).bufLen := by
    rw [room_eq, ScratchBuffer.len, openContents_filled]
    omega
  have hfree : min buf.length (room os block) ≤ (openContents os block).nfree := min_le_right _ _
  rw [consumePreamble, Exec.assert_bind hc, Exec.assert_bind ho]
  simp only [hroom]
  rw [Exec.assert_bind hfull, Exec.assert_bind hfree, happ, Exec.ok_bind]
  simp only [ScratchBuffer.len, openContents_filled]
  cases hr : SDNV.read ((copied os block buf).filled.drop 1) with
  | none =>
      have hnone : scanPreamble os dict (copied os block buf).filled = none := readPreamble_none hr
      simp only [hnone]
  | some r =>
      simp only
      rw [Exec.assert_bind he]
      rfl

variable (os block buf) in
private theorem copied_filled_append :
    (copied os block buf).filled ++ buf.drop (room os block) = block.contents.filled ++ buf := by
  rw [copied, List.append_assoc, List.take_append_drop]

private theorem scan_copied_none (hfits : PreambleFits os dict block buf)
    (h : scanPreamble os dict (block.contents.filled ++ buf) = none) :
    buf.length ≤ room os block ∧ (copied os block buf).filled = block.contents.filled ++ buf := by
  have hle : buf.length ≤ room os block := by
    rcases hfits with hle | hsome
    · exact hle
    · obtain ⟨⟨p, rest⟩, hr⟩ := Option.isSome_iff_exists.mp hsome
      have hall := scanPreamble_append hr (buf.drop (room os block))
      rw [List.append_assoc, List.take_append_drop, h] at hall
      cases hall
  exact ⟨hle, by rw [copied, List.take_of_length_le hle]⟩

private theorem scan_copied_some (hfits : PreambleFits os dict block buf) {p : Preamble}
    {rest : Bytes} (h : scanPreamble os dict (block.contents.filled ++ buf) = some (p, rest)) :
    ∃ seen, scanPreamble os dict (copied os block buf).filled = some (p, seen) ∧
      rest = seen ++ buf.drop (room os block) := by
  rcases hfits with hle | hsome
  · refine ⟨rest, ?_, ?_⟩
    · rw [copied, List.take_of_length_le hle, h]
    · rw [List.drop_of_length_le hle, List.append_nil]
  · obtain ⟨⟨q, seen⟩, hr⟩ := Option.isSome_iff_exists.mp hsome
    have hall := scanPreamble_append hr (buf.drop (room os block))
    rw [List.append_assoc, List.take_append_drop, h] at hall
    simp only [Option.some.injEq, Prod.mk.injEq] at hall
    obtain ⟨rfl, rfl⟩ := hall
    exact ⟨seen, hr, rfl⟩

theorem consumePreamble_faults (hc : block.complete = false) (ho : block.dataOffset = 0)
    (he : block.eidList = []) (hfits : ¬ PreambleFits os dict block buf) :
    consumePreamble os dict block buf = .error (.fault .assertion) := by
  simp only [PreambleFits, not_or, Bool.not_eq_true, Option.isSome_eq_false_iff,
    Option.isNone_iff_eq_none] at hfits
  have hnone : scanPreamble os dict (copied os block buf).filled = none := hfits.2
  have hmin : ¬ min buf.length (room os block) = buf.length := by omega
  rw [consumePreamble_eq hc ho he, hnone]
  exact Exec.assert_bind_not hmin _

theorem consumePreamble_partial (hc : block.complete = false) (ho : block.dataOffset = 0)
    (he : block.eidList = []) (hfits : PreambleFits os dict block buf)
    (h : scanPreamble os dict (block.contents.filled ++ buf) = none) :
    ∃ c, c.filled = block.contents.filled ++ buf ∧ block.contents.bufLen ≤ c.bufLen ∧
      consumePreamble os dict block buf = .ok ({ block with contents := c }, buf.length) := by
  obtain ⟨hle, hfilled⟩ := scan_copied_none hfits h
  have hmin : min buf.length (room os block) = buf.length := min_eq_left hle
  refine ⟨copied os block buf, hfilled, ?_, ?_⟩
  · rw [← bufLen_copied]
    exact bufLen_openContents os block
  · rw [consumePreamble_eq hc ho he, hfilled, h]
    exact Exec.assert_bind hmin _

theorem consumePreamble_whole (hc : block.complete = false) (ho : block.dataOffset = 0)
    (he : block.eidList = []) (hfits : PreambleFits os dict block buf)
    (hnone : scanPreamble os dict block.contents.filled = none)
    (hsize : block.contents.filled.length + buf.length < 2 ^ 32) {p : Preamble} {rest : Bytes}
    (h : scanPreamble os dict (block.contents.filled ++ buf) = some (p, rest)) :
    if 0xffffffff < p.blockLen.toNat then
      consumePreamble os dict block buf = .error .protocolError
    else
      ∃ c, c.filled = (block.contents.filled ++ buf).take
          ((block.contents.filled ++ buf).length - rest.length) ∧
        block.contents.bufLen ≤ c.bufLen ∧
        consumePreamble os dict block buf = .ok ({ block with
          contents := c
          dataLength := p.blockLen.toUInt32
          dataOffset := UInt32.ofNat ((block.contents.filled ++ buf).length - rest.length)
          eidList := p.eidList }, buf.length - rest.length) := by
  obtain ⟨seen, hseen, hrest⟩ := scan_copied_some hfits h
  have hused := scanPreamble_used hnone h
  have hcopied := copied_filled_append os block buf
  have hlens := congrArg List.length hcopied
  have hoff : (copied os block buf).len - seen.length =
      (block.contents.filled ++ buf).length - rest.length := by
    rw [ScratchBuffer.len, hrest, ← hcopied, List.length_append, List.length_append]
    omega
  rw [consumePreamble_eq hc ho he, hseen]
  split
  · rename_i hbig
    simp only [if_pos hbig]
  · rename_i hsmall
    refine ⟨(copied os block buf).shrink ((copied os block buf).len - seen.length), ?_, ?_, ?_⟩
    · have hle : (copied os block buf).len - seen.length ≤ (copied os block buf).filled.length := by
        rw [ScratchBuffer.len]
        omega
      rw [ScratchBuffer.shrink_filled, ← hoff, ← hcopied, List.take_append_of_le_length hle]
    · have hlen : ((copied os block buf).shrink ((copied os block buf).len - seen.length)).bufLen =
          (copied os block buf).bufLen := by
        simp only [ScratchBuffer.bufLen, ScratchBuffer.shrink, List.length_append,
          List.length_take, List.length_drop]
        omega
      rw [hlen, ← bufLen_copied]
      exact bufLen_openContents os block
    · simp only [if_neg hsmall, hoff]
      rw [List.length_append] at hused ⊢
      rw [sizeSub_of_le (by omega) (by omega)]
      congr 2
      omega

/-! ## The data of a block -/

theorem advance_of_le {n : Nat} (hn : n ≤ buf.length) (hsize : buf.length < 2 ^ 31) :
    advance n buf = .ok (buf.drop n) := by
  have hint : toInt n = n := toInt_of_lt (by omega)
  have hneg : ¬ toInt n = -1 := by omega
  have hin : ¬ (toInt n < 0 ∨ buf.length < (toInt n).toNat) := by omega
  unfold advance
  rw [if_neg hneg, if_neg hin, hint]
  rfl

section Data

variable {off len : Nat} {rest : Bytes}

private theorem fullLength_toNat (hoff : block.dataOffset.toNat = off)
    (hlen : block.dataLength.toNat = len) : block.fullLength.toNat = (off + len) % 2 ^ 32 := by
  rw [BlockInfo.fullLength, UInt32.toNat_add, hoff, hlen]

private theorem dataLength_eq_zero (hlen : block.dataLength.toNat = len) :
    block.dataLength = 0 ↔ len = 0 := by
  rw [← hlen, ← UInt32.toNat_inj]
  rfl

private theorem dataOffset_ne_zero (hoff : block.dataOffset.toNat = off) (hpos : 0 < off) :
    ¬ block.dataOffset = 0 := by
  intro h
  rw [h] at hoff
  change 0 = off at hoff
  omega

private theorem markEmpty_eq (hc : block.complete = false) (hoff : block.dataOffset.toNat = off)
    (hlen : block.dataLength.toNat = len) (hpos : 0 < off) :
    markEmpty block = { block with complete := decide (len = 0) } := by
  have hne := dataOffset_ne_zero hoff hpos
  unfold markEmpty
  simp only [hc, Bool.false_or, hne, ne_eq, not_false_eq_true, true_and, dataLength_eq_zero hlen]

variable (os rest) in
/-- Storing data in a block whose length does not wrap around in 32 bits: the block takes what it
still lacks, or all there is. -/
theorem consumeData_spec (hc : block.complete = false) (hoff : block.dataOffset.toNat = off)
    (hlen : block.dataLength.toNat = len) (hpos : 0 < off)
    (hlo : off ≤ block.contents.filled.length)
    (hhi : block.contents.filled.length < off + len ∨ block.contents.filled.length = off)
    (hwrap : off + len < 2 ^ 32 ∨ rest = []) :
    if block.contents.filled.length + rest.length < off + len then
      ∃ c, c.filled = block.contents.filled ++ rest ∧ block.contents.bufLen ≤ c.bufLen ∧
        consumeData os block rest = .ok ({ block with contents := c }, rest.length)
    else
      ∃ c, c.filled = (block.contents.filled ++ rest).take (off + len) ∧
        block.contents.bufLen ≤ c.bufLen ∧
        consumeData os block rest = .ok ({ block with contents := c, complete := true },
          off + len - block.contents.filled.length) := by
  have hmark := markEmpty_eq hc hoff hlen hpos
  by_cases hrest : rest = []
  · subst hrest
    simp only [List.length_nil, Nat.add_zero, List.append_nil]
    have hdata : consumeData os block [] = .ok (markEmpty block, 0) := rfl
    rw [hdata, hmark]
    split
    · have hl : ¬ len = 0 := by omega
      exact ⟨block.contents, rfl, le_refl _, by rw [decide_eq_false hl, ← hc]⟩
    · have hl : len = 0 := by omega
      have hfl : block.contents.filled.length = off := by omega
      refine ⟨block.contents, ?_, le_refl _, ?_⟩
      · rw [List.take_of_length_le (by omega)]
      · rw [decide_eq_true hl, hl, hfl, Nat.add_zero, Nat.sub_self]
  · have hlim : off + len < 2 ^ 32 := hwrap.resolve_right hrest
    have hfull : (markEmpty block).fullLength.toNat = off + len := by
      change block.fullLength.toNat = off + len
      rw [fullLength_toNat hoff hlen, Nat.mod_eq_of_lt hlim]
    have hle : block.contents.filled.length ≤ off + len := by omega
    have hassert : (markEmpty block).dataLength = 0 ∨
        (markEmpty block).contents.len < (markEmpty block).fullLength.toNat := by
      rw [hfull]
      change block.dataLength = 0 ∨ block.contents.filled.length < off + len
      rw [dataLength_eq_zero hlen]
      omega
    have hnfree := ScratchBuffer.nfree_le_reserve os block.contents (off + len)
    have hcap := ScratchBuffer.bufLen_le_reserve os block.contents (off + len)
    have hsub : sizeSub (off + len) (block.contents.reserve os (off + len)).len =
        off + len - block.contents.filled.length := by
      rw [ScratchBuffer.len, ScratchBuffer.reserve_filled]
      exact sizeSub_of_le hle (by omega)
    have hcontents : (markEmpty block).contents = block.contents := rfl
    have hstore : ∀ n, n ≤ off + len - block.contents.filled.length → ∃ c,
        c.filled = block.contents.filled ++ rest.take n ∧ block.contents.bufLen ≤ c.bufLen ∧
        (block.contents.reserve os (off + len)).append (rest.take n) = .ok c := by
      intro n hn
      have hfit : (rest.take n).length ≤ (block.contents.reserve os (off + len)).nfree := by
        rw [List.length_take]
        rw [ScratchBuffer.len] at hnfree
        omega
      have happ := ScratchBuffer.append_of_le hfit
      refine ⟨_, ?_, ?_, happ⟩
      · rw [ScratchBuffer.reserve_filled]
      · rw [ScratchBuffer.bufLen_append happ]
        exact hcap
    rw [consumeData, if_neg hrest, Exec.assert_bind hassert]
    simp only [hfull, hcontents, hsub]
    split
    · rename_i hlt
      have hnot : ¬ off + len - block.contents.filled.length ≤ rest.length := by omega
      obtain ⟨c, hfilled, hbuf, happ⟩ := hstore rest.length (by omega)
      refine ⟨c, ?_, hbuf, ?_⟩
      · rw [hfilled, List.take_length]
      · simp only [if_neg hnot, happ, Exec.ok_bind, hmark, decide_eq_false hnot, Bool.or_false]
        have hl : ¬ len = 0 := by omega
        rw [decide_eq_false hl, ← hc]
        rfl
    · rename_i hge
      have hyes : off + len - block.contents.filled.length ≤ rest.length := by omega
      obtain ⟨c, hfilled, hbuf, happ⟩ := hstore _ (le_refl _)
      refine ⟨c, ?_, hbuf, ?_⟩
      · rw [hfilled, List.take_append, List.take_of_length_le hle]
      · simp only [if_pos hyes, happ, Exec.ok_bind, hmark, decide_eq_true hyes, Bool.or_true]
        rfl

variable (os) in
/-- A length that wraps around in 32 bits fails an assertion as soon as data arrives. -/
theorem consumeData_faults (hoff : block.dataOffset.toNat = off)
    (hlen : block.dataLength.toNat = len) (hlo : off ≤ block.contents.filled.length)
    (hwrap : 2 ^ 32 ≤ off + len) (hrest : ¬ rest = []) :
    consumeData os block rest = .error (.fault .assertion) := by
  have hofflt := block.dataOffset.toNat_lt
  have hlenlt := block.dataLength.toNat_lt
  have hfull : (markEmpty block).fullLength.toNat = (off + len) % 2 ^ 32 :=
    fullLength_toNat hoff hlen
  have hassert : ¬ ((markEmpty block).dataLength = 0 ∨
      (markEmpty block).contents.len < (markEmpty block).fullLength.toNat) := by
    rw [hfull]
    change ¬ (block.dataLength = 0 ∨ block.contents.filled.length < _)
    rw [dataLength_eq_zero hlen]
    omega
  rw [consumeData, if_neg hrest, Exec.assert_bind_not hassert]

end Data

end BlockProcessor

end Dtn2
