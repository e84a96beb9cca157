import Dtn2.Security.Encapsulate

/-!
# Correlators of new security blocks

A new instance gets a number one above the largest low half of a correlator in the list, its
ciphersuite number in the next bits and the fragment offset above them. The sum may leave the low
half, and the offset is shifted in 32 bits.
-/

namespace Dtn2

namespace Security

open CiphersuiteES

def correlatedSuites : List UInt16 := [1, 5, 9, 3, 7, 11, 4, 8, 12]

/-- The correlator of a new instance in `prepare` of BA, `generate` of PC and `finalize` of ES. -/
def assignCorrelator (csNum : UInt16) (bundle : Bundle) (blocks : List CSBlock) : UInt64 :=
  createCorrelator bundle blocks ||| (csNum.toUInt64 <<< 16)

def correlators (blocks : List CSBlock) : List UInt64 :=
  blocks.filterMap fun b => b.locals.map fun l => l.correlator

def lowHalf (correlator : UInt64) : Nat := correlator.toNat % 2 ^ 16

def fragmentPart (bundle : Bundle) : UInt64 :=
  if bundle.isFragment then (bundle.fragOffset <<< 24).toUInt64 else 0

/-- The largest low half is taken, so the next number does not fit, and the correlator without it is
taken as well. -/
def Exhausted (csNum : UInt16) (bundle : Bundle) (blocks : List CSBlock) : Prop :=
  (∃ correlator ∈ correlators blocks, lowHalf correlator = 65535) ∧
    fragmentPart bundle ||| ((csNum ||| 1).toUInt64 <<< 16) ∈ correlators blocks

/-! ## The largest low half -/

/-- The loop of `create_correlator` on the correlators alone. -/
def highest (correlators : List UInt64) : Nat :=
  correlators.foldl (fun high correlator => max high (lowHalf correlator)) 0

theorem createCorrelator_eq (bundle : Bundle) (blocks : List CSBlock) :
    createCorrelator bundle blocks =
      fragmentPart bundle ||| UInt64.ofNat (highest (correlators blocks) + 1) := by
  rw [createCorrelator, highest]
  apply congrArg fun high => fragmentPart bundle ||| UInt64.ofNat (high + 1)
  generalize 0 = high
  induction blocks generalizing high with
  | nil => rfl
  | cons b blocks ih =>
      rw [correlators, List.filterMap_cons, List.foldl_cons]
      cases b.locals with
      | none => exact ih high
      | some l => exact ih (max high (lowHalf l.correlator))

theorem foldl_highest (cs : List UInt64) (high : Nat) :
    high ≤ cs.foldl (fun high c => max high (lowHalf c)) high ∧
      (∀ c ∈ cs, lowHalf c ≤ cs.foldl (fun high c => max high (lowHalf c)) high) ∧
      (cs.foldl (fun high c => max high (lowHalf c)) high = high ∨
        ∃ c ∈ cs, cs.foldl (fun high c => max high (lowHalf c)) high = lowHalf c) := by
  induction cs generalizing high with
  | nil => exact ⟨le_refl high, fun c hc => absurd hc List.not_mem_nil, Or.inl rfl⟩
  | cons c cs ih =>
      have htail := ih (max high (lowHalf c))
      rw [List.foldl_cons]
      generalize cs.foldl (fun high c => max high (lowHalf c)) (max high (lowHalf c)) = r at htail ⊢
      obtain ⟨hle, hall, hsome⟩ := htail
      refine ⟨by omega, ?_, ?_⟩
      · intro d hd
        cases List.mem_cons.mp hd with
        | inl heq =>
            rw [heq]
            omega
        | inr hd => exact hall d hd
      · cases hsome with
        | inl heq =>
            by_cases hbig : lowHalf c ≤ high
            · left
              omega
            · right
              exact ⟨c, List.mem_cons_self, by omega⟩
        | inr hsome =>
            obtain ⟨d, hd, heq⟩ := hsome
            exact Or.inr ⟨d, List.mem_cons_of_mem c hd, heq⟩

theorem lowHalf_lt (c : UInt64) : lowHalf c < 65536 := Nat.mod_lt _ (by decide)

theorem lowHalf_le_highest {cs : List UInt64} {c : UInt64} (h : c ∈ cs) : lowHalf c ≤ highest cs :=
  (foldl_highest cs 0).2.1 c h

theorem highest_lt (cs : List UInt64) : highest cs < 65536 := by
  cases (foldl_highest cs 0).2.2 with
  | inl hzero =>
      rw [highest, hzero]
      decide
  | inr hsome =>
      obtain ⟨c, -, heq⟩ := hsome
      rw [highest, heq]
      exact lowHalf_lt c

theorem highest_eq_max (cs : List UInt64) :
    highest cs = 65535 ↔ ∃ c ∈ cs, lowHalf c = 65535 := by
  constructor
  · intro h
    cases (foldl_highest cs 0).2.2 with
    | inl hzero =>
        rw [highest, hzero] at h
        cases h
    | inr hsome =>
        obtain ⟨c, hc, heq⟩ := hsome
        exact ⟨c, hc, heq.symm.trans h⟩
  · rintro ⟨c, hc, heq⟩
    have hle := lowHalf_le_highest hc
    have hlt := highest_lt cs
    omega

/-! ## The fields of a correlator -/

theorem fragmentPart_toNat (bundle : Bundle) : ∃ k < 256, (fragmentPart bundle).toNat = 2 ^ 24 * k ∧
    (bundle.isFragment = true → k = bundle.fragOffset.toNat % 256) := by
  rw [fragmentPart]
  by_cases hfragment : bundle.isFragment = true
  · refine ⟨bundle.fragOffset.toNat % 256, Nat.mod_lt _ (by decide), ?_, fun _ => rfl⟩
    rw [if_pos hfragment, UInt32.toNat_toUInt64, UInt32.toNat_shiftLeft, Nat.shiftLeft_eq]
    have h24 : (24 : UInt32).toNat % 32 = 24 := rfl
    rw [h24]
    omega
  · exact ⟨0, by decide, by rw [if_neg hfragment]; rfl, fun h => absurd h hfragment⟩

theorem suiteBits {csNum : UInt16} (h : csNum ∈ correlatedSuites) :
    (csNum.toUInt64 <<< 16).toNat = csNum.toNat * 2 ^ 16 ∧ csNum.toNat < 16 := by
  have hall : correlatedSuites.all (fun cs => decide ((cs.toUInt64 <<< 16).toNat =
      cs.toNat * 2 ^ 16 ∧ cs.toNat < 16)) = true := by
    decide
  exact of_decide_eq_true (List.all_eq_true.mp hall csNum h)

theorem toNat_assign (csNum : UInt16) (bundle : Bundle) (blocks : List CSBlock) :
    (assignCorrelator csNum bundle blocks).toNat = ((fragmentPart bundle).toNat |||
      (highest (correlators blocks) + 1)) ||| (csNum.toUInt64 <<< 16).toNat := by
  have hlt := highest_lt (correlators blocks)
  rw [assignCorrelator, createCorrelator_eq, UInt64.toNat_or, UInt64.toNat_or,
    UInt64.toNat_ofNat_of_lt' (by simp only [UInt64.size]; omega)]

theorem lowHalf_assign {csNum : UInt16} (h : csNum ∈ correlatedSuites) (bundle : Bundle)
    (blocks : List CSBlock) : lowHalf (assignCorrelator csNum bundle blocks) =
      (highest (correlators blocks) + 1) % 2 ^ 16 := by
  obtain ⟨k, -, hfragment, -⟩ := fragmentPart_toNat bundle
  have hlow : (fragmentPart bundle).toNat % 2 ^ 16 = 0 := by omega
  have hsuite : (csNum.toUInt64 <<< 16).toNat % 2 ^ 16 = 0 := by
    rw [(suiteBits h).1]
    omega
  rw [lowHalf, toNat_assign, Nat.or_mod_two_pow, Nat.or_mod_two_pow, hlow, hsuite, Nat.zero_or,
    Nat.or_zero]

/-- When the numbers have run out the next one goes into the lowest bit of the ciphersuite number.
-/
theorem assign_of_exhausted {csNum : UInt16} (h : csNum ∈ correlatedSuites) (bundle : Bundle)
    (blocks : List CSBlock) (hmax : highest (correlators blocks) = 65535) :
    assignCorrelator csNum bundle blocks =
      fragmentPart bundle ||| ((csNum ||| 1).toUInt64 <<< 16) := by
  have hall : correlatedSuites.all (fun cs => decide (UInt64.ofNat (65535 + 1) |||
      (cs.toUInt64 <<< 16) = (cs ||| 1).toUInt64 <<< 16)) = true := by
    decide
  rw [assignCorrelator, createCorrelator_eq, hmax, UInt64.or_assoc,
    of_decide_eq_true (List.all_eq_true.mp hall csNum h)]

/-! ## Uniqueness -/

/-- The correlator of a new instance is in the list already only if the numbers have run out. -/
theorem assign_fresh {csNum : UInt16} (h : csNum ∈ correlatedSuites) (bundle : Bundle)
    (blocks : List CSBlock) :
    assignCorrelator csNum bundle blocks ∉ correlators blocks ↔ ¬ Exhausted csNum bundle blocks := by
  rw [Exhausted, ← highest_eq_max]
  by_cases hmax : highest (correlators blocks) = 65535
  · rw [assign_of_exhausted h bundle blocks hmax]
    simp only [hmax, true_and]
  · have hfresh : assignCorrelator csNum bundle blocks ∉ correlators blocks := by
      intro hmem
      have hle := lowHalf_le_highest hmem
      have hlt := highest_lt (correlators blocks)
      rw [lowHalf_assign h] at hle
      omega
    exact ⟨fun _ hboth => hmax hboth.1, fun _ => hfresh⟩

theorem assign_fragments {csNum : UInt16} (h : csNum ∈ correlatedSuites) {b₁ b₂ : Bundle}
    (h₁ : b₁.isFragment = true) (h₂ : b₂.isFragment = true) (blocks : List CSBlock) :
    assignCorrelator csNum b₁ blocks ≠ assignCorrelator csNum b₂ blocks ↔
      b₁.fragOffset.toNat % 256 ≠ b₂.fragOffset.toNat % 256 := by
  obtain ⟨k₁, -, hpart₁, hk₁⟩ := fragmentPart_toNat b₁
  obtain ⟨k₂, -, hpart₂, hk₂⟩ := fragmentPart_toNat b₂
  rw [← hk₁ h₁, ← hk₂ h₂, ne_eq, ← UInt64.toNat_inj, toNat_assign, toNat_assign, hpart₁, hpart₂,
    Nat.or_assoc, Nat.or_assoc]
  have hsmall : (highest (correlators blocks) + 1) ||| (csNum.toUInt64 <<< 16).toNat < 2 ^ 24 := by
    have hlt := highest_lt (correlators blocks)
    have hsuite := suiteBits h
    apply Nat.or_lt_two_pow
    · omega
    · omega
  rw [← Nat.two_pow_add_eq_or_of_lt hsmall, ← Nat.two_pow_add_eq_or_of_lt hsmall]
  omega

/-- A new correlator is not in the list, and two fragments get different ones, exactly if the
numbers have not run out and the offsets differ in their low bytes. -/
theorem correlators_unique {csNum : UInt16} (h : csNum ∈ correlatedSuites) :
    (∀ bundle blocks, assignCorrelator csNum bundle blocks ∉ correlators blocks ↔
      ¬ Exhausted csNum bundle blocks) ∧
    ∀ b₁ b₂ : Bundle, b₁.isFragment = true → b₂.isFragment = true → ∀ blocks,
      (assignCorrelator csNum b₁ blocks ≠ assignCorrelator csNum b₂ blocks ↔
        b₁.fragOffset.toNat % 256 ≠ b₂.fragOffset.toNat % 256) :=
  ⟨assign_fresh h, fun _ _ h₁ h₂ blocks => assign_fragments h h₁ h₂ blocks⟩

theorem correlators_unique_sample :
    (∀ bundle blocks, assignCorrelator 3 bundle blocks ∉ correlators blocks ↔
      ¬ Exhausted 3 bundle blocks) ∧
    ∀ b₁ b₂ : Bundle, b₁.isFragment = true → b₂.isFragment = true → ∀ blocks,
      (assignCorrelator 3 b₁ blocks ≠ assignCorrelator 3 b₂ blocks ↔
        b₁.fragOffset.toNat % 256 ≠ b₂.fragOffset.toNat % 256) :=
  correlators_unique (by decide)

def fragmentAt (offset : UInt32) : Bundle :=
  { Bundle.new 0 0 with isFragment := true, fragOffset := offset }

def correlatedBlock (correlator : UInt64) : CSBlock :=
  ⟨.confidentiality, BlockInfo.new .plain .unknown, some { Locals.new with correlator := correlator }, []⟩

/-- Fragments at 0 and 256 get the same correlator, and so does a new instance as a received block.
-/
theorem correlators_not_unique :
    assignCorrelator 3 (fragmentAt 0) [] = assignCorrelator 3 (fragmentAt 256) [] ∧
      assignCorrelator 3 (Bundle.new 0 0) [correlatedBlock 0xffff, correlatedBlock 0x30000] ∈
        correlators [correlatedBlock 0xffff, correlatedBlock 0x30000] := by
  decide

end Security

end Dtn2
