import Dtn2.Security.ParseBlock

/-!
# What survives parsing

`Ciphersuite::parse` gets through a block exactly if the numbers it decodes end in the memory of the
block, the ciphersuite number and the flags are in range, the flags announce no more endpoint ids than
there are, and the items of both fields lie inside the data.
-/

namespace Dtn2

theorem Exec.guard_eq_ok {α : Type} {p : Prop} [Decidable p] {a b : α} {f : Fault} :
    (if p then (.ok a : Exec α) else .error (.fault f)) = .ok b ↔ p ∧ a = b := by
  by_cases hp : p
  · rw [if_pos hp, Except.ok.injEq, and_iff_right hp]
  · rw [if_neg hp]
    exact iff_of_false (fun h => by cases h) fun h => hp h.1

namespace Security

open PrepareBlocks (csBlockHasSource csBlockHasDest csBlockHasCorrelator)

/-! ## The condition -/

/-- The items of a field of some length lie inside the bytes. What follows an item that is cut short is
not looked at. -/
inductive ItemsInside : Bytes → Nat → Prop
  | none (buf : Bytes) : ItemsInside buf 0
  | bare (itemType : UInt8) (buf : Bytes) : ItemsInside (itemType :: buf) 1
  | malformed {itemType : UInt8} {buf : Bytes} {len : Nat} {value : UInt64} (hlen : 0 < len)
      (hinside : SdnvInside buf len) (hdecode : SDNV.decode (buf.take len) = (.none, value)) :
      ItemsInside (itemType :: buf) (len + 1)
  | last {itemType : UInt8} {buf : Bytes} {len n : Nat} {value : UInt64} (hlen : 0 < len)
      (hinside : SdnvInside buf len) (hdecode : SDNV.decode (buf.take len) = (some n, value))
      (hitem : n + value.toNat ≤ buf.length) (hshort : len < n + value.toNat) :
      ItemsInside (itemType :: buf) (len + 1)
  | item {itemType : UInt8} {buf : Bytes} {len n : Nat} {value : UInt64} (hlen : 0 < len)
      (hinside : SdnvInside buf len) (hdecode : SDNV.decode (buf.take len) = (some n, value))
      (hitem : n + value.toNat ≤ buf.length) (hle : n + value.toNat ≤ len)
      (hrest : ItemsInside (buf.drop (n + value.toNat)) (len - (n + value.toNat))) :
      ItemsInside (itemType :: buf) (len + 1)

variable (block : BlockInfo)

/-- The length of a field at a pointer can be decoded, and its items lie inside the data. -/
def FieldInside (p : Pointer) : Prop :=
  p.Inside block.contents.memory ∧
    let field := p.decoded block.contents.memory
    field.1 = 0 ∨ ∃ buf, dataAt block field.2.pos = some buf ∧ ItemsInside buf field.1.toNat

def start : Pointer := ⟨block.dataOffset.toNat, block.dataLength.toNat⟩

/-- The first number of the data and what follows it. -/
def suiteNumber : UInt64 × Pointer := (start block).decoded block.contents.memory

def suiteFlags : UInt64 × Pointer := (suiteNumber block).2.decoded block.contents.memory

def behindCorrelator : Pointer :=
  if hasFlag (suiteFlags block).1 csBlockHasCorrelator then
    ((suiteFlags block).2.decoded block.contents.memory).2
  else (suiteFlags block).2

def behindParams : Pointer :=
  if hasFlag (suiteFlags block).1 csBlockHasParams then
    let field := (behindCorrelator block).decoded block.contents.memory
    field.2.advance field.1.toNat
  else behindCorrelator block

structure Harmless : Prop where
  numbers : (start block).Inside block.contents.memory ∧
    (suiteNumber block).2.Inside block.contents.memory
  suite : (suiteNumber block).1.toNat < csMax
  flags : (suiteFlags block).1.toNat < 65535
  correlator : hasFlag (suiteFlags block).1 csBlockHasCorrelator = true →
    (suiteFlags block).2.Inside block.contents.memory
  params : hasFlag (suiteFlags block).1 csBlockHasParams = true →
    FieldInside block (behindCorrelator block)
  eids : block.eidList.length = 1 → ¬(hasFlag (suiteFlags block).1 csBlockHasSource = true ∧
    hasFlag (suiteFlags block).1 csBlockHasDest = true)
  result : hasFlag (suiteFlags block).1 csBlockHasResult = true →
    FieldInside block (behindParams block)

/-! ## Fields -/

variable {block}

theorem number_eq_ok {memory : Bytes} {p : Pointer} {r : UInt64 × Pointer} :
    p.number memory = .ok r ↔ p.Inside memory ∧ p.decoded memory = r := Exec.guard_eq_ok

theorem ItemsInside.of_ok {buf : Bytes} {len : Nat} {target items : List (UInt8 × Bytes)}
    (h : parseItems buf len target = .ok items) : ItemsInside buf len := by
  fun_induction parseItems buf len target with
  | case1 buf target => exact .none buf
  | case2 len target => cases h
  | case3 target len itemType buf hlen =>
      obtain rfl : len = 0 := by omega
      exact .bare itemType buf
  | case4 target len itemType buf hlen hinside value hdecode =>
      exact .malformed (by omega) hinside hdecode
  | case5 target len itemType buf hlen hinside n value hdecode hitem target' hshort =>
      exact .last (by omega) hinside hdecode hitem hshort
  | case6 target len itemType buf hlen hinside n value hdecode hitem target' hshort ih =>
      exact .item (by omega) hinside hdecode hitem (by omega) (ih h)
  | case7 target len itemType buf hlen hinside n value hdecode hitem => cases h
  | case8 target len itemType buf hlen hinside => cases h

theorem ItemsInside.ok {buf : Bytes} {len : Nat} (h : ItemsInside buf len) :
    ∀ target, ∃ items, parseItems buf len target = .ok items := by
  induction h with
  | none buf =>
      intro target
      rw [parseItems]
      exact ⟨target, rfl⟩
  | bare itemType buf =>
      intro target
      rw [parseItems, if_pos Nat.zero_lt_one]
      exact ⟨target, rfl⟩
  | malformed hlen hinside hdecode =>
      intro target
      rw [parseItems, if_neg (by omega), if_pos hinside, hdecode]
      exact ⟨target, rfl⟩
  | last hlen hinside hdecode hitem hshort =>
      intro target
      rw [parseItems, if_neg (by omega), if_pos hinside, hdecode]
      dsimp only
      rw [if_pos hitem, if_pos hshort]
      exact ⟨_, rfl⟩
  | item hlen hinside hdecode hitem hle hrest ih =>
      intro target
      rw [parseItems, if_neg (by omega), if_pos hinside, hdecode]
      dsimp only
      rw [if_pos hitem, if_neg (by omega)]
      exact ih _

theorem parseParamsOrResult_ok {pos : Int} {len : Nat} :
    (∃ items, parseParamsOrResult block pos len = .ok items) ↔
      len = 0 ∨ ∃ buf, dataAt block pos = some buf ∧ ItemsInside buf len := by
  rw [parseParamsOrResult]
  cases hbuf : dataAt block pos with
  | some buf =>
      constructor
      · rintro ⟨items, h⟩
        exact .inr ⟨buf, rfl, .of_ok h⟩
      · rintro (rfl | ⟨_, heq, h⟩)
        · exact (ItemsInside.none buf).ok []
        · cases heq
          exact h.ok []
  | none =>
      constructor
      · rintro ⟨items, h⟩
        exact .inl (Exec.guard_eq_ok.1 h).1
      · rintro (hlen | ⟨_, heq, -⟩)
        · exact ⟨[], Exec.guard_eq_ok.2 ⟨hlen, rfl⟩⟩
        · cases heq

theorem parseField_ok {p q : Pointer} : (∃ items, parseField block p = .ok (items, q)) ↔
    FieldInside block p ∧ q = (p.decoded block.contents.memory).2.advance
      (p.decoded block.contents.memory).1.toNat := by
  simp only [FieldInside]
  rw [← UInt64.toNat_inj, and_assoc]
  constructor
  · rintro ⟨items, h⟩
    rw [parseField] at h
    obtain ⟨field, hfield, h⟩ := Exec.bind_eq_ok.1 h
    obtain ⟨hinside, rfl⟩ := number_eq_ok.1 hfield
    obtain ⟨items, hitems, h⟩ := Exec.bind_eq_ok.1 h
    cases h
    exact ⟨hinside, parseParamsOrResult_ok.1 ⟨items, hitems⟩, rfl⟩
  · rintro ⟨hinside, hitems, rfl⟩
    obtain ⟨items, hitems⟩ := parseParamsOrResult_ok.2 hitems
    refine ⟨items, ?_⟩
    rw [parseField, number_eq_ok.2 ⟨hinside, rfl⟩, Exec.ok_bind, hitems]
    rfl

theorem parseCorrelator_ok {memory : Bytes} {present : Bool} {p q : Pointer} :
    (∃ value, parseCorrelator memory present p = .ok (value, q)) ↔
      (present = true → p.Inside memory) ∧ q = if present then (p.decoded memory).2 else p := by
  cases present with
  | true =>
      rw [parseCorrelator, if_pos rfl, if_pos rfl]
      constructor
      · rintro ⟨value, h⟩
        obtain ⟨hinside, h⟩ := number_eq_ok.1 h
        exact ⟨fun _ => hinside, by rw [h]⟩
      · rintro ⟨hinside, rfl⟩
        exact ⟨_, number_eq_ok.2 ⟨hinside rfl, rfl⟩⟩
  | false =>
      rw [parseCorrelator, if_neg Bool.false_ne_true, if_neg Bool.false_ne_true]
      constructor
      · rintro ⟨value, h⟩
        cases h
        exact ⟨fun h => absurd h Bool.false_ne_true, rfl⟩
      · rintro ⟨-, rfl⟩
        exact ⟨0, rfl⟩

theorem parseOptional_ok {present : Bool} {p q : Pointer} :
    (∃ items, parseOptional block present p = .ok (items, q)) ↔
      (present = true → FieldInside block p) ∧
        q = if present then (p.decoded block.contents.memory).2.advance
          (p.decoded block.contents.memory).1.toNat else p := by
  cases present with
  | true =>
      rw [parseOptional, if_pos rfl, if_pos rfl, parseField_ok]
      exact and_congr_left fun _ => ⟨fun h _ => h, fun h => h rfl⟩
  | false =>
      rw [parseOptional, if_neg Bool.false_ne_true, if_neg Bool.false_ne_true]
      constructor
      · rintro ⟨items, h⟩
        cases h
        exact ⟨fun h => absurd h Bool.false_ne_true, rfl⟩
      · rintro ⟨-, rfl⟩
        exact ⟨[], rfl⟩

theorem parseEids_ok {flags : UInt64} {eids : List EndpointID} :
    (∃ r, parseEids flags eids = .ok r) ↔ (eids.length = 1 →
      ¬(hasFlag flags csBlockHasSource = true ∧ hasFlag flags csBlockHasDest = true)) := by
  cases eids with
  | nil => exact iff_of_true ⟨_, rfl⟩ fun h => absurd h (by simp)
  | cons first rest =>
      rw [parseEids]
      cases hsource : hasFlag flags csBlockHasSource with
      | false =>
          refine iff_of_true ?_ fun _ h => Bool.false_ne_true h.1
          cases hasFlag flags csBlockHasDest with
          | false => exact ⟨_, rfl⟩
          | true => exact ⟨_, rfl⟩
      | true =>
          cases hasFlag flags csBlockHasDest with
          | false => exact iff_of_true ⟨_, rfl⟩ fun _ h => Bool.false_ne_true h.2
          | true =>
              cases rest with
              | nil =>
                  refine iff_of_false ?_ fun h => h rfl ⟨rfl, rfl⟩
                  rintro ⟨r, h⟩
                  cases h
              | cons second rest => exact iff_of_true ⟨_, rfl⟩ fun h => absurd h (by simp)

/-- A security block is parsed without a fault exactly if it does no harm. -/
theorem parse_ok_iff (block : BlockInfo) :
    (∃ locals, Ciphersuite.parse block = .ok locals) ↔ Harmless block := by
  constructor
  · rintro ⟨locals, h⟩
    rw [Ciphersuite.parse] at h
    obtain ⟨suite, hsuite, h⟩ := Exec.bind_eq_ok.1 h
    obtain ⟨hstart, rfl⟩ := number_eq_ok.1 hsuite
    obtain ⟨flags, hflags, h⟩ := Exec.bind_eq_ok.1 h
    obtain ⟨hnext, rfl⟩ := number_eq_ok.1 hflags
    obtain ⟨_, hindex, h⟩ := Exec.bind_eq_ok.1 h
    obtain ⟨_, -, h⟩ := Exec.bind_eq_ok.1 h
    obtain ⟨_, hsmall, h⟩ := Exec.bind_eq_ok.1 h
    obtain ⟨⟨correlator, p⟩, hread, h⟩ := Exec.bind_eq_ok.1 h
    obtain ⟨hcorrelator, rfl⟩ := parseCorrelator_ok.1 ⟨correlator, hread⟩
    obtain ⟨⟨params, p⟩, hfield, h⟩ := Exec.bind_eq_ok.1 h
    obtain ⟨hparams, rfl⟩ := parseOptional_ok.1 ⟨params, hfield⟩
    obtain ⟨eids, heids, h⟩ := Exec.bind_eq_ok.1 h
    obtain ⟨⟨result, p⟩, hresult, -⟩ := Exec.bind_eq_ok.1 h
    exact
      { numbers := ⟨hstart, hnext⟩
        suite := (Exec.guard_eq_ok.1 hindex).1
        flags := (assertThat_eq_ok _ _).1 hsmall
        correlator := hcorrelator
        params := hparams
        eids := parseEids_ok.1 ⟨eids, heids⟩
        result := (parseOptional_ok.1 ⟨result, hresult⟩).1 }
  · intro h
    obtain ⟨correlator, hcorrelator⟩ := parseCorrelator_ok.2 ⟨h.correlator, rfl⟩
    obtain ⟨params, hparams⟩ := parseOptional_ok.2 ⟨h.params, rfl⟩
    obtain ⟨eids, heids⟩ := parseEids_ok.2 h.eids
    obtain ⟨result, hresult⟩ := parseOptional_ok.2 ⟨h.result, rfl⟩
    have hsmall : (suiteNumber block).1.toNat < 65535 := h.suite.trans (by decide)
    refine ⟨_, Exec.bind_eq_ok.2 ⟨_, number_eq_ok.2 ⟨h.numbers.1, rfl⟩,
      Exec.bind_eq_ok.2 ⟨_, number_eq_ok.2 ⟨h.numbers.2, rfl⟩,
      Exec.bind_eq_ok.2 ⟨(), Exec.guard_eq_ok.2 ⟨h.suite, rfl⟩,
      Exec.bind_eq_ok.2 ⟨(), (assertThat_eq_ok _ _).2 hsmall,
      Exec.bind_eq_ok.2 ⟨(), (assertThat_eq_ok _ _).2 h.flags,
      Exec.bind_eq_ok.2 ⟨_, hcorrelator,
      Exec.bind_eq_ok.2 ⟨_, hparams,
      Exec.bind_eq_ok.2 ⟨_, heids,
      Exec.bind_eq_ok.2 ⟨_, hresult, rfl⟩⟩⟩⟩⟩⟩⟩⟩⟩⟩

namespace Sample

/-- What a peer sends: a block of type 3 with the ciphersuite number 2000 and no flags. -/
def hugeSuite : Bytes := [0x03, 0x00, 0x03, 0x8f, 0x50, 0x00]

/-- The generic parser accepts the block, and looking up the ciphersuite reads behind the table. -/
theorem hugeSuite_faults :
    (∃ r ∈ (BlockProcessor.consume .plain .empty (.new .plain .unknown) hugeSuite).toOption,
        r.1.complete = true ∧ r.1.data = [0x8f, 0x50, 0x00] ∧
          (Ciphersuite.parse r.1).Faults) ∧
      (ASBlockProcessor.consume .plain .empty (.new .plain .unknown) hugeSuite).Faults := by
  decide +kernel

end Sample

end Security

end Dtn2
