import Dtn2.Bundling.Transfer

/-!
# Slices of a bundle

A convergence layer asks for the formatted bundle piece by piece. `produce` hands out exactly the bytes
asked for, as long as the length of every block fits the 32 bits of `full_length`.
-/

namespace Dtn2

open BundleProtocol

/-- A block as it is generated. Its preamble and its data are in its contents, or the data is the
payload of the bundle. -/
structure Formatted (bundle : Bundle) (x : BlockInfo) : Prop where
  nonempty : x.contents.filled ≠ []
  contents : x.owner ≠ .payload → x.dataOffset.toNat + x.dataLength.toNat = x.contents.len
  payload : x.owner = .payload → x.dataOffset.toNat = x.contents.len ∧
    x.dataLength.toNat = bundle.payload.length ∧ bundle.payload.location ≠ .nodata

/-- The sum of the two lengths fits the 32 bits of `full_length`. -/
def LengthFits (x : BlockInfo) : Prop := x.dataOffset.toNat + x.dataLength.toNat < 2 ^ 32

variable {os : Oasys} {bundle : Bundle}

theorem Formatted.wire_length {x : BlockInfo} (h : Formatted bundle x) :
    (wire bundle x).length = x.dataOffset.toNat + x.dataLength.toNat := by
  rw [wire, List.length_append]
  by_cases howner : x.owner = .payload
  · have hpayload := h.payload howner
    rw [if_pos howner, hpayload.1, hpayload.2.1]
    rfl
  · rw [if_neg howner, h.contents howner]
    rfl

theorem Formatted.wire_pos {x : BlockInfo} (h : Formatted bundle x) :
    0 < (wire bundle x).length := by
  have hpos := List.length_pos_of_ne_nil h.nonempty
  rw [wire, List.length_append]
  omega

theorem fullLength_le (x : BlockInfo) :
    x.fullLength.toNat ≤ x.dataOffset.toNat + x.dataLength.toNat := by
  rw [BlockInfo.fullLength, UInt32.toNat_add]
  exact Nat.mod_le _ _

theorem fullLength_of_not_fits {x : BlockInfo} (h : ¬ LengthFits x) :
    x.fullLength.toNat + 2 ^ 32 = x.dataOffset.toNat + x.dataLength.toNat := by
  have hoffset := x.dataOffset.toNat_lt
  have hlength := x.dataLength.toNat_lt
  unfold LengthFits at h
  rw [BlockInfo.fullLength, UInt32.toNat_add]
  omega

theorem Formatted.placed {x : BlockInfo} (h : Formatted bundle x) (hfits : LengthFits x) :
    Placed bundle x := by
  refine ⟨?_, h.wire_pos, ?_⟩
  · rw [h.wire_length, BlockInfo.fullLength, UInt32.toNat_add, Nat.mod_eq_of_lt hfits]
  · intro howner
    obtain ⟨hoffset, hlength, hlocation⟩ := h.payload howner
    have hlt := x.dataLength.toNat_lt
    exact ⟨hoffset, hlocation, by omega⟩

/-! ## Calls at consecutive offsets -/

/-- Calls of `produce`, each from where the last one ended, up to the one that sets `*last`. -/
def produceAll (os : Oasys) (bundle : Bundle) (blocks : List XmitBlock) :
    List Nat → Nat → Exec Bytes
  | [], _ => pure []
  | len :: lens, offset => do
      let r ← produce os bundle blocks offset len
      if r.2 = true then pure r.1
      else do
        let more ← produceAll os bundle blocks lens (offset + r.1.length)
        pure (r.1 ++ more)

/-- Every request inside of the bundle gets its slice, with `*last` at the end, and requests one after
the other get the bundle. -/
def ProducesSlices (os : Oasys) (bundle : Bundle) (xs : List XmitBlock) : Prop :=
  (∀ offset len, offset < (wires bundle xs).length → 0 < len →
    produce os bundle xs offset len = .ok (((wires bundle xs).drop offset).take len,
      decide ((wires bundle xs).length ≤ offset + len))) ∧
  ∀ lens : List Nat, (∀ len ∈ lens, 0 < len) →
    produceAll os bundle xs lens 0 = .ok ((wires bundle xs).take lens.sum)

theorem produceAll_spec {xs : List XmitBlock} (hplaced : ∀ y ∈ xs, Placed bundle y.toBlockInfo)
    (hmarked : LastMarked xs) {lens : List Nat} (hlens : ∀ len ∈ lens, 0 < len) {offset : Nat}
    (hoffset : offset < (wires bundle xs).length) :
    produceAll os bundle xs lens offset = .ok (((wires bundle xs).drop offset).take lens.sum) := by
  induction lens generalizing offset with
  | nil =>
      rw [List.sum_nil, List.take_zero]
      rfl
  | cons len lens ih =>
      rw [List.forall_mem_cons] at hlens
      have hproduce : produce os bundle xs offset len = _ :=
        produce_spec hplaced hmarked hoffset hlens.1
      rw [produceAll, hproduce, Exec.ok_bind, List.sum_cons]
      dsimp only
      by_cases hend : (wires bundle xs).length ≤ offset + len
      · rw [if_pos (decide_eq_true hend), List.take_of_length_le, List.take_of_length_le]
        · rfl
        · rw [List.length_drop]
          omega
        · rw [List.length_drop]
          omega
      · have hcount : (((wires bundle xs).drop offset).take len).length = len := by
          rw [List.length_take, List.length_drop]
          omega
        rw [if_neg (by rw [decide_eq_true_eq]; exact hend), hcount, ih hlens.2 (by omega),
          Exec.ok_bind, List.take_add, List.drop_drop]
        rfl

theorem producesSlices_of_placed {xs : List XmitBlock} (hxs : xs ≠ [])
    (hplaced : ∀ y ∈ xs, Placed bundle y.toBlockInfo) (hmarked : LastMarked xs) :
    ProducesSlices os bundle xs := by
  have hpos : 0 < (wires bundle xs).length := by
    cases xs with
    | nil => exact absurd rfl hxs
    | cons x xs =>
        have hx := (hplaced x List.mem_cons_self).pos
        rw [wires_cons, List.length_append]
        omega
  constructor
  · intro offset len hoffset hlen
    exact produce_spec hplaced hmarked hoffset hlen
  · intro lens hlens
    rw [produceAll_spec hplaced hmarked hlens hpos, List.drop_zero]

/-! ## Lengths that do not fit -/

theorem skipBlocks_behind {xs : List XmitBlock} {offset : Nat} (h : totalLength xs ≤ offset) :
    skipBlocks xs offset = .error (.fault .assertion) := by
  induction xs generalizing offset with
  | nil => rfl
  | cons x xs ih =>
      rw [totalLength, List.map_cons, List.sum_cons] at h
      rw [skipBlocks, if_pos (by omega)]
      apply ih
      rw [totalLength]
      omega

theorem totalLength_le {xs : List XmitBlock} (hformatted : ∀ y ∈ xs, Formatted bundle y.toBlockInfo) :
    totalLength xs ≤ (wires bundle xs).length := by
  induction xs with
  | nil => exact Nat.le_refl _
  | cons x xs ih =>
      rw [List.forall_mem_cons] at hformatted
      have hrest := ih hformatted.2
      have hx := fullLength_le x.toBlockInfo
      rw [totalLength] at *
      rw [List.map_cons, List.sum_cons, wires_cons, List.length_append, hformatted.1.wire_length]
      omega

theorem totalLength_of_not_fits {xs : List XmitBlock}
    (hformatted : ∀ y ∈ xs, Formatted bundle y.toBlockInfo) {y : XmitBlock} (hy : y ∈ xs)
    (hnot : ¬ LengthFits y.toBlockInfo) : totalLength xs + 2 ^ 32 ≤ (wires bundle xs).length := by
  induction xs with
  | nil => exact absurd hy List.not_mem_nil
  | cons x xs ih =>
      rw [List.forall_mem_cons] at hformatted
      rw [totalLength, List.map_cons, List.sum_cons, wires_cons, List.length_append,
        hformatted.1.wire_length]
      cases List.mem_cons.mp hy with
      | inl hx =>
          have hrest := totalLength_le hformatted.2
          have hfull := fullLength_of_not_fits (hx ▸ hnot)
          rw [totalLength] at hrest
          omega
      | inr hy =>
          have hrest := ih hformatted.2 hy
          have hx := fullLength_le x.toBlockInfo
          rw [totalLength] at hrest
          omega

theorem produce_of_not_fits {xs : List XmitBlock}
    (hformatted : ∀ y ∈ xs, Formatted bundle y.toBlockInfo) {y : XmitBlock} (hy : y ∈ xs)
    (hnot : ¬ LengthFits y.toBlockInfo) :
    produce os bundle xs ((wires bundle xs).length - 1) 1 = .error (.fault .assertion) := by
  have hlost := totalLength_of_not_fits hformatted hy hnot
  rw [produce, if_neg (by decide), skipBlocks_behind (by omega)]
  rfl

theorem not_producesSlices {xs : List XmitBlock}
    (hformatted : ∀ y ∈ xs, Formatted bundle y.toBlockInfo) {y : XmitBlock} (hy : y ∈ xs)
    (hnot : ¬ LengthFits y.toBlockInfo) : ¬ ProducesSlices os bundle xs := by
  intro h
  have hlost := totalLength_of_not_fits hformatted hy hnot
  have hlast := h.1 ((wires bundle xs).length - 1) 1 (by omega) (by decide)
  rw [produce_of_not_fits hformatted hy hnot] at hlast
  cases hlast

/-- The blocks of `generate_blocks` are handed out in exact slices. -/
theorem generateBlocks_producesSlices {params : Params} {entries : List Prepared}
    {dict : Dictionary} {xmit : BlockInfoVec XmitBlock} (h : Sendable params os bundle entries)
    (hsmall : bundle.payload.length + 7 < 2 ^ 32)
    (hprep : PrimaryBlockProcessor.prepare bundle = .ok dict)
    (hgen : generateBlocks os bundle entries dict = .ok xmit) :
    ProducesSlices os bundle xmit.blocks := by
  obtain ⟨x, xs, hblocks, hd, hr, hprimary, hwired, hmarked, hcount⟩ :=
    generateBlocks_spec h hsmall hprep hgen
  have hxs : xs ≠ [] := by
    intro hnil
    rw [hnil] at hcount
    simp at hcount
  obtain ⟨hplaced, howner, -⟩ := PrimaryBlockProcessor.primary_arrives params 0 0 hd hr hprimary
  rw [hblocks]
  exact producesSlices_of_placed (List.cons_ne_nil _ _)
    (row_placed hplaced hwired hsmall h.location) (row_marked howner hxs hmarked)

theorem generateBlocks_producesSlices_sample : ∃ dict xmit,
    PrimaryBlockProcessor.prepare sampleBundle = .ok dict ∧
      generateBlocks .plain sampleBundle sampleEntries dict = .ok xmit ∧
      ProducesSlices .plain sampleBundle xmit.blocks := by
  have hrun : (PrimaryBlockProcessor.prepare sampleBundle >>=
      generateBlocks .plain sampleBundle sampleEntries).isOk = true := by decide +kernel
  cases hall : PrimaryBlockProcessor.prepare sampleBundle >>=
      generateBlocks .plain sampleBundle sampleEntries with
  | error e =>
      rw [hall] at hrun
      cases hrun
  | ok xmit =>
      obtain ⟨dict, hprep, hgen⟩ := Exec.bind_eq_ok.mp hall
      exact ⟨dict, xmit, hprep, hgen,
        generateBlocks_producesSlices (sample_sendable sampleBundle.payload.data) (by decide) hprep hgen⟩

/-- `produce` hands out exact slices if and only if the length of every block fits 32 bits. -/
theorem producesSlices_iff {xs : List XmitBlock} (hxs : xs ≠ [])
    (hformatted : ∀ y ∈ xs, Formatted bundle y.toBlockInfo) (hmarked : LastMarked xs) :
    ProducesSlices os bundle xs ↔ ∀ y ∈ xs, LengthFits y.toBlockInfo := by
  constructor
  · intro h y hy
    by_contra hnot
    exact not_producesSlices hformatted hy hnot h
  · intro h
    exact producesSlices_of_placed hxs (fun y hy => (hformatted y hy).placed (h y hy)) hmarked

/-- A bundle with `n` bytes of payload. -/
def filledBundle (n : Nat) : Bundle :=
  { Bundle.new 1 0 with payload := ⟨.memory, List.replicate n 0xaa⟩ }

/-- A primary block and a payload block of `n` bytes whose preamble is `preamble`. -/
def filledBlocks (n : Nat) (preamble : Bytes) : List XmitBlock :=
  [⟨⟨.primary, [], ⟨[6, 0x81, 0x10, 21, 0, 4, 0, 4, 0, 4, 0, 4, 0, 1, 0, 9, 100, 116, 110, 0,
      110, 111, 110, 101, 0], []⟩, 25, 0, false, none⟩, none⟩,
    ⟨⟨.payload, [], ⟨preamble, []⟩, UInt32.ofNat n, UInt32.ofNat preamble.length, false, none⟩,
      none⟩]

theorem filledBlocks_formatted (n : Nat) (preamble : Bytes) (hn : n < 2 ^ 32)
    (hpreamble : preamble ≠ []) (hshort : preamble.length < 2 ^ 32) :
    ∀ y ∈ filledBlocks n preamble, Formatted (filledBundle n) y.toBlockInfo := by
  intro y hy
  cases List.mem_cons.mp hy with
  | inl hprimary =>
      rw [hprimary]
      exact ⟨by decide, fun _ => rfl, fun h => absurd h (by decide)⟩
  | inr hy =>
      rw [List.mem_singleton.mp hy]
      refine ⟨hpreamble, fun h => absurd rfl h, fun _ => ⟨?_, ?_, ?_⟩⟩
      · exact UInt32.toNat_ofNat_of_lt' hshort
      · rw [UInt32.toNat_ofNat_of_lt' hn]
        simp [BundlePayload.length, filledBundle]
      · simp [filledBundle]

theorem filledBlocks_marked (n : Nat) (rest : Bytes) :
    LastMarked (filledBlocks n (1 :: 8 :: rest)) :=
  ⟨⟨0, by decide, rfl⟩, ⟨8, rfl, rfl⟩, trivial⟩

theorem producesSlices_iff_sample :
    ProducesSlices .plain (filledBundle 3) (filledBlocks 3 [1, 8, 3]) ↔
      ∀ y ∈ filledBlocks 3 [1, 8, 3], LengthFits y.toBlockInfo :=
  producesSlices_iff (List.cons_ne_nil _ _)
    (filledBlocks_formatted 3 [1, 8, 3] (by decide) (by decide) (by decide)) (filledBlocks_marked 3 [3])

def widePreamble : Bytes := [1, 8, 0x8f, 0xff, 0xff, 0xff, 0x7f]

/-- A payload of 2^32 - 1 bytes: the preamble makes the block longer than `full_length` can say. -/
theorem wide_not_producesSlices :
    ¬ ∀ (os : Oasys) (bundle : Bundle) (xs : List XmitBlock), xs ≠ [] →
      (∀ y ∈ xs, Formatted bundle y.toBlockInfo) → LastMarked xs → ProducesSlices os bundle xs := by
  intro h
  have hformatted := filledBlocks_formatted (2 ^ 32 - 1) widePreamble (by decide) (by decide)
    (by decide)
  have hmem : (⟨⟨.payload, [], ⟨widePreamble, []⟩, UInt32.ofNat (2 ^ 32 - 1),
      UInt32.ofNat widePreamble.length, false, none⟩, none⟩ : XmitBlock) ∈
        filledBlocks (2 ^ 32 - 1) widePreamble :=
    List.mem_cons_of_mem _ (List.mem_singleton.mpr rfl)
  exact not_producesSlices hformatted hmem (by unfold LengthFits; decide)
    (h .plain _ _ (List.cons_ne_nil _ _) hformatted (filledBlocks_marked _ _))

end Dtn2
