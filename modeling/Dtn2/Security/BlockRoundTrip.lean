import Dtn2.Security.BlockState
import Dtn2.Security.ParseFaults

/-!
# Security blocks read back

The parser follows what `serialize` writes: each number ends where the next one starts, and the
items of a field fill what its length says. Items with distinct types come back as they were, and a
missing result is one more item at the end of the last field.
-/

namespace Dtn2

namespace Security

open PrepareBlocks (csBlockHasSource csBlockHasDest csBlockHasCorrelator)

/-! ## Items by their types -/

def Ordered (items : List (UInt8 × Bytes)) : Prop :=
  items.Pairwise fun e f => e.1.toNat < f.1.toNat

theorem findItem_cons (t : UInt8) (e : UInt8 × Bytes) (items : List (UInt8 × Bytes)) :
    findItem t (e :: items) = if e.1 = t then some e.2 else findItem t items := by
  by_cases h : e.1 = t
  · simp [findItem, h]
  · simp [findItem, h]

theorem findItem_setItem (t itemType : UInt8) (value : Bytes) (items : List (UInt8 × Bytes)) :
    findItem t (setItem itemType value items) =
      Function.update (fun t => findItem t items) itemType (some value) t := by
  by_cases ht : t = itemType
  · rw [ht, Function.update_self]
    induction items with
    | nil => simp [setItem, findItem]
    | cons e items ih =>
        rw [setItem]
        by_cases heq : e.1 = itemType
        · rw [if_pos heq, findItem_cons, if_pos rfl]
        · rw [if_neg heq]
          by_cases hlt : itemType.toNat < e.1.toNat
          · rw [if_pos hlt, findItem_cons, if_pos rfl]
          · rw [if_neg hlt, findItem_cons, if_neg heq, ih]
  · rw [Function.update_of_ne ht]
    have hne : itemType ≠ t := fun h => ht h.symm
    induction items with
    | nil => simp [setItem, findItem, hne]
    | cons e items ih =>
        rw [setItem]
        by_cases heq : e.1 = itemType
        · rw [if_pos heq, findItem_cons, if_neg hne, findItem_cons, if_neg (by rwa [heq])]
        · rw [if_neg heq]
          by_cases hlt : itemType.toNat < e.1.toNat
          · rw [if_pos hlt, findItem_cons, if_neg hne]
          · rw [if_neg hlt, findItem_cons, findItem_cons, ih]

theorem setItem_type {itemType : UInt8} {value : Bytes} {items : List (UInt8 × Bytes)}
    {e : UInt8 × Bytes} (h : e ∈ setItem itemType value items) :
    e.1 = itemType ∨ e ∈ items := by
  induction items with
  | nil => exact .inl (by rw [List.mem_singleton.mp h])
  | cons f items ih =>
      rw [setItem] at h
      by_cases heq : f.1 = itemType
      · rw [if_pos heq] at h
        cases List.mem_cons.mp h with
        | inl h => exact .inl (by rw [h])
        | inr h => exact .inr (List.mem_cons_of_mem _ h)
      · rw [if_neg heq] at h
        by_cases hlt : itemType.toNat < f.1.toNat
        · rw [if_pos hlt] at h
          cases List.mem_cons.mp h with
          | inl h => exact .inl (by rw [h])
          | inr h => exact .inr h
        · rw [if_neg hlt] at h
          cases List.mem_cons.mp h with
          | inl h => exact .inr (by rw [h]; exact List.mem_cons_self)
          | inr h =>
              cases ih h with
              | inl h => exact .inl h
              | inr h => exact .inr (List.mem_cons_of_mem _ h)

theorem Ordered.setItem {items : List (UInt8 × Bytes)} (h : Ordered items) (itemType : UInt8)
    (value : Bytes) : Ordered (setItem itemType value items) := by
  induction items with
  | nil => exact List.pairwise_singleton _ _
  | cons e items ih =>
      have hcons := List.pairwise_cons.mp h
      rw [Security.setItem]
      by_cases heq : e.1 = itemType
      · rw [if_pos heq]
        refine List.pairwise_cons.mpr ⟨?_, hcons.2⟩
        intro f hf
        rw [← heq]
        exact hcons.1 f hf
      · rw [if_neg heq]
        by_cases hlt : itemType.toNat < e.1.toNat
        · rw [if_pos hlt]
          refine List.pairwise_cons.mpr ⟨?_, h⟩
          intro f hf
          cases List.mem_cons.mp hf with
          | inl hf => rwa [hf]
          | inr hf => exact hlt.trans (hcons.1 f hf)
        · rw [if_neg hlt]
          refine List.pairwise_cons.mpr ⟨?_, ih hcons.2⟩
          intro f hf
          cases setItem_type hf with
          | inl hf =>
              have hne : e.1.toNat ≠ itemType.toNat := fun h => heq (UInt8.toNat_inj.mp h)
              rw [hf]
              omega
          | inr hf => exact hcons.1 f hf

def setItems (target items : List (UInt8 × Bytes)) : List (UInt8 × Bytes) :=
  items.foldl (fun target e => setItem e.1 e.2 target) target

theorem findItem_of_lt {t : UInt8} {items : List (UInt8 × Bytes)}
    (h : ∀ e ∈ items, t.toNat < e.1.toNat) : findItem t items = none := by
  induction items with
  | nil => rfl
  | cons e items ih =>
      have he := h e List.mem_cons_self
      have hne : e.1 ≠ t := by
        intro heq
        rw [heq] at he
        exact lt_irrefl _ he
      rw [findItem_cons, if_neg hne]
      exact ih fun f hf => h f (List.mem_cons_of_mem _ hf)

theorem findItem_setItems {items : List (UInt8 × Bytes)} (h : Ordered items)
    (target : List (UInt8 × Bytes)) (t : UInt8) :
    findItem t (setItems target items) = (findItem t items).or (findItem t target) := by
  induction items generalizing target with
  | nil => rfl
  | cons e items ih =>
      have hcons := List.pairwise_cons.mp h
      have hstep : setItems target (e :: items) = setItems (setItem e.1 e.2 target) items := rfl
      rw [hstep, ih hcons.2, findItem_setItem, findItem_cons]
      by_cases ht : e.1 = t
      · have hnone : findItem t items = none := findItem_of_lt (by rw [← ht]; exact hcons.1)
        rw [hnone, if_pos ht, ← ht, Function.update_self]
        rfl
      · rw [if_neg ht, Function.update_of_ne (fun h => ht h.symm)]

/-! ## Items in bytes -/

theorem writeResultOrParams_cons (e : UInt8 × Bytes) (items : List (UInt8 × Bytes)) :
    writeResultOrParams (e :: items) = writeItem e.1 e.2 ++ writeResultOrParams items := rfl

theorem lengthOfResultOrParams_eq (items : List (UInt8 × Bytes)) :
    lengthOfResultOrParams items = (writeResultOrParams items).length := by
  induction items with
  | nil => rfl
  | cons e items ih =>
      rw [writeResultOrParams_cons, List.length_append, ← ih, writeItem, lengthOfResultOrParams,
        lengthOfResultOrParams, List.map_cons, List.sum_cons, SDNV.encodingLen_eq, List.cons_append,
        List.length_cons, List.length_append]
      omega

theorem parseItems_write {items : List (UInt8 × Bytes)} (hlen : ∀ e ∈ items, e.2.length < 2 ^ 64)
    (rest : Bytes) (target : List (UInt8 × Bytes)) :
    parseItems (writeResultOrParams items ++ rest) (writeResultOrParams items).length target =
      .ok (setItems target items) := by
  induction items generalizing target with
  | nil =>
      change parseItems rest 0 target = .ok target
      rw [parseItems]
  | cons e items ih =>
      have hvalue : (UInt64.ofNat e.2.length).toNat = e.2.length :=
        UInt64.toNat_ofNat_of_lt' (hlen e List.mem_cons_self)
      have ih := ih (fun f hf => hlen f (List.mem_cons_of_mem _ hf)) (setItem e.1 e.2 target)
      rw [writeResultOrParams_cons]
      generalize writeResultOrParams items = bytes at ih ⊢
      have hpos := SDNV.encodingLen_pos (UInt64.ofNat e.2.length)
      rw [SDNV.encodingLen_eq] at hpos
      -- what follows the type
      obtain ⟨buf, hbuf⟩ : ∃ buf, buf = SDNV.encoded (UInt64.ofNat e.2.length) ++ (e.2 ++ bytes) :=
        ⟨_, rfl⟩
      have hbytes : writeItem e.1 e.2 ++ bytes = e.1 :: buf := by
        rw [hbuf, writeItem, List.cons_append, List.cons_append, List.append_assoc]
      have hbuflen : buf.length =
          (SDNV.encoded (UInt64.ofNat e.2.length)).length + (e.2.length + bytes.length) := by
        rw [hbuf, List.length_append, List.length_append]
      have hinside : SdnvInside (buf ++ rest) buf.length := by
        rw [SdnvInside, List.length_append]
        exact .inl (by omega)
      rw [hbytes, List.cons_append, List.length_cons, parseItems, if_neg (by omega), if_pos hinside,
        List.take_left]
      conv_lhs =>
        rw [hbuf, SDNV.decode_encoded, ← hbuf]
      dsimp only
      rw [hvalue, if_pos (by rw [List.length_append]; omega), if_neg (by omega)]
      have hdrop : (buf ++ rest).drop ((SDNV.encoded (UInt64.ofNat e.2.length)).length + e.2.length) =
          bytes ++ rest := by
        rw [hbuf, ← List.drop_drop, List.append_assoc, List.drop_left, List.append_assoc,
          List.drop_left]
      have htake : ((buf ++ rest).drop (SDNV.encoded (UInt64.ofNat e.2.length)).length).take
          e.2.length = e.2 := by
        rw [hbuf, List.append_assoc, List.drop_left, List.append_assoc, List.take_left]
      have hleft : buf.length - ((SDNV.encoded (UInt64.ofNat e.2.length)).length + e.2.length) =
          bytes.length := by omega
      rw [hdrop, htake, hleft]
      exact ih

/-! ## A pointer on its way over the data -/

structure At (block : BlockInfo) (p : Pointer) (rest : Bytes) : Prop where
  used : ∃ used, block.data = used ++ rest ∧ p.pos = block.dataOffset.toNat + used.length
  len : p.len = rest.length

variable {block : BlockInfo} {p : Pointer}

theorem At.start {bytes : Bytes} (hdata : block.data = bytes)
    (hlen : bytes.length = block.dataLength.toNat) : At block (Security.start block) bytes := by
  constructor
  · exact ⟨[], hdata, (Int.add_zero _).symm⟩
  · exact hlen.symm

theorem At.length_lt {rest : Bytes} (h : At block p rest) : rest.length < 2 ^ 64 := by
  obtain ⟨used, hdata, -⟩ := h.used
  have hle : block.data.length ≤ block.dataLength.toNat := List.length_take_le _ _
  have hlt := block.dataLength.toNat_lt
  rw [hdata, List.length_append] at hle
  omega

theorem At.advance {front rest : Bytes} (h : At block p (front ++ rest)) :
    At block (p.advance front.length) rest := by
  have hlt := h.length_lt
  obtain ⟨used, hdata, hpos⟩ := h.used
  constructor
  · refine ⟨used ++ front, by rw [hdata, List.append_assoc], ?_⟩
    rw [Pointer.advance, List.length_append, Int.natCast_add, ← Int.add_assoc, ← hpos]
  · rw [Pointer.advance, h.len, sizeSub_of_le (by rw [List.length_append]; omega) hlt,
      List.length_append]
    exact Nat.add_sub_cancel_left _ _

theorem At.bytes {rest : Bytes} (h : At block p rest) :
    ∃ more, bytesAt block.contents.memory p.pos = rest ++ more := by
  obtain ⟨used, hdata, hpos⟩ := h.used
  have hmemory : block.contents.memory.drop block.dataOffset.toNat =
      used ++ (rest ++ block.dataMemory.drop block.dataLength.toNat) := by
    rw [← List.append_assoc, ← hdata]
    exact (List.take_append_drop _ _).symm
  refine ⟨block.dataMemory.drop block.dataLength.toNat, ?_⟩
  rw [hpos, bytesAt, if_pos (by omega), ← Int.natCast_add, Int.toNat_natCast, ← List.drop_drop,
    hmemory, List.drop_left]

theorem At.number {rest : Bytes} {val : UInt64} (h : At block p (SDNV.encoded val ++ rest)) :
    ∃ q, p.number block.contents.memory = .ok (val, q) ∧ At block q rest := by
  obtain ⟨more, hbytes⟩ := h.bytes
  refine ⟨p.advance (SDNV.encoded val).length, ?_, h.advance⟩
  rw [number_eq_ok]
  constructor
  · rw [Pointer.Inside, SdnvInside, hbytes, h.len]
    exact .inl (List.prefix_append _ _).length_le
  · rw [Pointer.decoded, hbytes, h.len, List.take_left, SDNV.decode_encoded]

def fieldBytes (items : List (UInt8 × Bytes)) : Bytes :=
  SDNV.encoded (UInt64.ofNat (writeResultOrParams items).length) ++ writeResultOrParams items

theorem length_le_write {items : List (UInt8 × Bytes)} {e : UInt8 × Bytes} (h : e ∈ items) :
    e.2.length ≤ (writeResultOrParams items).length := by
  induction items with
  | nil => exact absurd h List.not_mem_nil
  | cons f items ih =>
      rw [writeResultOrParams_cons, List.length_append]
      cases List.mem_cons.mp h with
      | inl h =>
          rw [h, writeItem, List.length_append]
          omega
      | inr h =>
          have := ih h
          omega

theorem At.field {items : List (UInt8 × Bytes)} {rest : Bytes}
    (h : At block p (fieldBytes items ++ rest)) :
    ∃ q, parseField block p = .ok (setItems [] items, q) ∧ At block q rest := by
  rw [fieldBytes, List.append_assoc] at h
  obtain ⟨q, hnumber, hq⟩ := h.number
  have hlt := hq.length_lt
  rw [List.length_append] at hlt
  have hlength : (UInt64.ofNat (writeResultOrParams items).length).toNat =
      (writeResultOrParams items).length :=
    UInt64.toNat_ofNat_of_lt' (by simp only [UInt64.size]; omega)
  refine ⟨q.advance (writeResultOrParams items).length, ?_, hq.advance⟩
  obtain ⟨used, hdata, hpos⟩ := hq.used
  have hbuf : dataAt block q.pos = some (writeResultOrParams items ++ rest) := by
    rw [dataAt, if_pos (by omega), hdata, hpos]
    have hused : ((block.dataOffset.toNat + used.length : Int) - block.dataOffset.toNat).toNat =
        used.length := by omega
    rw [hused, List.drop_left]
  have hlen : ∀ e ∈ items, e.2.length < 2 ^ 64 := by
    intro e he
    have hle := length_le_write he
    omega
  have hitems := parseItems_write hlen rest []
  rw [parseField, hnumber, Exec.ok_bind]
  dsimp only
  rw [parseParamsOrResult, hbuf, hlength]
  dsimp only
  rw [hitems]
  rfl

theorem At.optional {items : List (UInt8 × Bytes)} {present : Bool} {rest : Bytes}
    (h : At block p ((if present then fieldBytes items else []) ++ rest)) :
    ∃ q, parseOptional block present p = .ok (if present then setItems [] items else [], q) ∧
      At block q rest := by
  cases present with
  | true => exact h.field
  | false => exact ⟨p, rfl, h⟩

theorem At.correlator {correlator : UInt64} {present : Bool} {rest : Bytes}
    (h : At block p ((if present then SDNV.encoded correlator else []) ++ rest)) :
    ∃ q, parseCorrelator block.contents.memory present p =
      .ok (if present then correlator else 0, q) ∧ At block q rest := by
  cases present with
  | true => exact h.number
  | false => exact ⟨p, rfl, h⟩

/-! ## The block -/

/-- The data of a block with these numbers, parameters and results. -/
def written (csNum flags : UInt16) (correlator : UInt64) (params results : List (UInt8 × Bytes)) :
    Bytes :=
  SDNV.encoded csNum.toUInt64 ++ (SDNV.encoded flags.toUInt64 ++
    ((if hasFlag flags.toUInt64 csBlockHasCorrelator then SDNV.encoded correlator else []) ++
      ((if hasFlag flags.toUInt64 csBlockHasParams then fieldBytes params else []) ++
        (if hasFlag flags.toUInt64 csBlockHasResult then fieldBytes results else []))))

theorem parse_written {csNum flags : UInt16} {correlator : UInt64}
    {params results : List (UInt8 × Bytes)}
    (hdata : block.data = written csNum flags correlator params results)
    (hlen : block.data.length = block.dataLength.toNat) (hsuite : csNum.toNat < csMax)
    (hflags : flags.toNat < 65535)
    (heids : block.eidList.length = 1 → ¬(hasFlag flags.toUInt64 csBlockHasSource = true ∧
      hasFlag flags.toUInt64 csBlockHasDest = true)) :
    ∃ parsed, Ciphersuite.parse block = .ok parsed ∧ parsed.ownerCsNum = csNum ∧
      parsed.csFlags = flags ∧
      parsed.correlator =
        (if hasFlag flags.toUInt64 csBlockHasCorrelator then correlator else 0) ∧
      parsed.securityParams =
        (if hasFlag flags.toUInt64 csBlockHasParams then setItems [] params else []) ∧
      parsed.securityResult =
        (if hasFlag flags.toUInt64 csBlockHasResult then setItems [] results else []) := by
  have hstart := At.start hdata (by rw [← hdata, hlen])
  obtain ⟨p, hnum, hp⟩ := hstart.number
  obtain ⟨q, hfl, hq⟩ := hp.number
  obtain ⟨r, hcorrelator, hr⟩ := hq.correlator
  obtain ⟨s, hparams, hs⟩ := hr.optional
  rw [← List.append_nil (ite _ (fieldBytes results) [])] at hs
  obtain ⟨t, hresults, -⟩ := hs.optional
  obtain ⟨eids, hparsed⟩ := parseEids_ok.mpr heids
  have hsuite' : indexSuites csNum.toUInt64 = .ok () := by
    rw [indexSuites, UInt16.toNat_toUInt64, if_pos hsuite]
  have hlarge : csNum.toUInt64.toNat < 65535 := by
    rw [UInt16.toNat_toUInt64]
    exact hsuite.trans (by decide)
  have hflags' : flags.toUInt64.toNat < 65535 := by rwa [UInt16.toNat_toUInt64]
  refine ⟨⟨csNum.toUInt64.toUInt16, flags.toUInt64.toUInt16, _, _, eids.1, eids.2, _⟩, ?_,
    by simp, by simp, rfl, rfl, rfl⟩
  refine Exec.bind_eq_ok.mpr ⟨_, hnum, ?_⟩
  refine Exec.bind_eq_ok.mpr ⟨_, hfl, ?_⟩
  refine Exec.bind_eq_ok.mpr ⟨(), hsuite', ?_⟩
  refine Exec.bind_eq_ok.mpr ⟨(), (assertThat_eq_ok _ _).mpr hlarge, ?_⟩
  refine Exec.bind_eq_ok.mpr ⟨(), (assertThat_eq_ok _ _).mpr hflags', ?_⟩
  refine Exec.bind_eq_ok.mpr ⟨_, hcorrelator, ?_⟩
  refine Exec.bind_eq_ok.mpr ⟨_, hparams, ?_⟩
  refine Exec.bind_eq_ok.mpr ⟨_, hparsed, ?_⟩
  exact Exec.bind_eq_ok.mpr ⟨_, hresults, rfl⟩

end Security

end Dtn2
