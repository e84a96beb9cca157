import Dtn2.Bpq.BlockCodec
import Dtn2.Bundling.StatusReport

/-!
# The validator of a BPQ block

`validate` walks over a block with a pointer and a count of the bytes that were used. The count is
never set, and every number has to fail to be decoded for the walk to go on. So the walk ends at a
number, at the latest behind one step back.
-/

namespace Dtn2

open Framework

namespace BPQBlock

/-! ## The walk -/

/-- The local variables `used_len` and `buf` of `validate`, the latter as a distance from the start.
-/
structure Walk where
  used : UInt64
  pos : Int
deriving DecidableEq, Repr

/-- The values of `kind_t`. -/
def DefinedKind (kind : UInt8) : Prop := kind = 0 ∨ kind = 1 ∨ kind = 2 ∨ kind = 3

instance (kind : UInt8) : Decidable (DefinedKind kind) := inferInstanceAs (Decidable (_ ∨ _))

/-- What lies at the pointer, up to the end of the string. -/
def memoryAt (buf : Bytes) (pos : Int) : Bytes := if pos < 0 then [] else buf.drop pos.toNat

def byteAt (buf : Bytes) (pos : Int) : Exec UInt8 :=
  match memoryAt buf pos with
  | [] => .error (.fault .outOfBounds)
  | b :: _ => .ok b

/-- The macro `TEST_ITEM`; the error is the return value `false`. -/
def testItem (len : Nat) (fn : Bool) (itemLen : Int) (w : Walk) : Exec Walk :=
  if fn = false then .error .protocolError
  else if len < (w.used + UInt64.ofInt itemLen).toNat then .error .protocolError
  else .ok ⟨w.used + UInt64.ofInt itemLen, w.pos + itemLen⟩

/-- A number: the decoding and the item that tests it. -/
def testSdnv (buf : Bytes) (w : Walk) : Exec (UInt64 × Walk) := do
  let r ← SDNV.decodeAt (memoryAt buf w.pos) (UInt64.ofNat buf.length - w.used).toNat
  let sdnvLen : Int := match r.1 with
    | some n => n
    | none => -1
  let w ← testItem buf.length (decide (sdnvLen < 0)) sdnvLen w
  pure (r.2, w)

def testBytes (buf : Bytes) (val : UInt64) (w : Walk) : Exec Walk :=
  testItem buf.length (decide (buf.length < (w.used + val).toNat)) (toInt val.toNat) w

def testFragments (buf : Bytes) : Nat → Walk → Exec Walk
  | 0, w => pure w
  | count + 1, w => do
      let offset ← testSdnv buf w
      let length ← testSdnv buf offset.2
      testFragments buf count length.2

/-- The items of `validate` behind the matching rule. -/
def testNumbers (buf : Bytes) (w : Walk) : Exec Walk := do
  let seconds ← testSdnv buf w
  let seqno ← testSdnv buf seconds.2
  let sourceLen ← testSdnv buf seqno.2
  let w ← testBytes buf sourceLen.1 sourceLen.2
  let queryLen ← testSdnv buf w
  let w ← testBytes buf queryLen.1 queryLen.2
  let fragCount ← testSdnv buf w
  testFragments buf fragCount.1.toNat fragCount.2

/-- The items of `validate`, with what `used_len` happens to hold at the start. -/
def testItems (buf : Bytes) (used : UInt64) : Exec Walk := do
  let kind ← byteAt buf 0
  let w ← testItem buf.length (decide (DefinedKind kind)) 1 ⟨used, 0⟩
  let rule ← byteAt buf w.pos
  let w ← testItem buf.length (decide (rule = 0)) 1 w
  testNumbers buf w

def validate (used : UInt64) (buf : Bytes) : Exec Bool :=
  match testItems buf used with
  | .ok w => .ok (decide (w.used.toNat = buf.length))
  | .error .protocolError => .ok false
  | .error (.fault f) => .error (.fault f)

/-! ## Single items -/

theorem byteAt_zero (b : UInt8) (rest : Bytes) : byteAt (b :: rest) 0 = .ok b := rfl

theorem testItem_false (len : Nat) (itemLen : Int) (w : Walk) :
    testItem len false itemLen w = .error .protocolError := if_pos rfl

theorem testItem_true (len : Nat) (itemLen : Int) (w : Walk) :
    testItem len true itemLen w =
      if len < (w.used + UInt64.ofInt itemLen).toNat then .error .protocolError
      else .ok ⟨w.used + UInt64.ofInt itemLen, w.pos + itemLen⟩ :=
  if_neg Bool.true_eq_false_eq_False

theorem testSdnv_decoded {buf : Bytes} {w : Walk} {n : Nat} {val : UInt64}
    (h : SDNV.decodeAt (memoryAt buf w.pos) (UInt64.ofNat buf.length - w.used).toNat =
      .ok (some n, val)) : testSdnv buf w = .error .protocolError := by
  have hlen : decide ((n : Int) < 0) = false := decide_eq_false (by omega)
  rw [testSdnv, h, Exec.ok_bind]
  dsimp only
  rw [hlen, testItem_false]
  rfl

theorem testSdnv_refused {buf : Bytes} {w : Walk} {val : UInt64}
    (h : SDNV.decodeAt (memoryAt buf w.pos) (UInt64.ofNat buf.length - w.used).toNat =
      .ok (none, val)) :
    testSdnv buf w = if buf.length < (w.used - 1).toNat then .error .protocolError
      else .ok (val, ⟨w.used - 1, w.pos - 1⟩) := by
  have hone : w.used + UInt64.ofInt (-1) = w.used - 1 := by
    rw [UInt64.sub_eq_add_neg]
    rfl
  rw [testSdnv, h, Exec.ok_bind]
  dsimp only
  rw [decide_eq_true (by decide), testItem_true, hone]
  by_cases hshort : buf.length < (w.used - 1).toNat
  · rw [if_pos hshort, if_pos hshort]
    rfl
  · rw [if_neg hshort, if_neg hshort]
    rfl

/-! ## Reading behind the string -/

theorem loopAt_low {bp : Bytes} (h : ∃ b ∈ bp, b &&& 0x80 = 0) (len : Nat) (val : UInt64)
    (n : Nat) : ∃ r, SDNV.loopAt bp len val n = .ok r := by
  induction bp generalizing len val n with
  | nil =>
      obtain ⟨b, hb, -⟩ := h
      cases hb
  | cons c bp ih =>
      cases len with
      | zero => exact ⟨_, rfl⟩
      | succ len =>
          rw [SDNV.loopAt]
          by_cases hc : c &&& 0x80 = 0
          · rw [if_pos hc]
            exact ⟨_, rfl⟩
          · rw [if_neg hc]
            apply ih
            obtain ⟨b, hb, hlow⟩ := h
            cases List.mem_cons.mp hb with
            | inl heq => exact absurd (heq ▸ hlow) hc
            | inr hmem => exact ⟨b, hmem, hlow⟩

theorem loopAt_high {bp : Bytes} (h : ∀ b ∈ bp, b &&& 0x80 ≠ 0) {len : Nat} (hlen : bp.length < len)
    (val : UInt64) (n : Nat) : SDNV.loopAt bp len val n = .error (.fault .outOfBounds) := by
  induction bp generalizing len val n with
  | nil =>
      cases len with
      | zero => exact absurd hlen (Nat.lt_irrefl _)
      | succ len => rfl
  | cons c bp ih =>
      cases len with
      | zero => exact absurd hlen (Nat.not_lt_zero _)
      | succ len =>
          rw [List.forall_mem_cons] at h
          rw [SDNV.loopAt, if_neg h.1]
          exact ih h.2 (Nat.lt_of_succ_lt_succ hlen) _ _

theorem decodeAt_low {bp : Bytes} (h : ∃ b ∈ bp, b &&& 0x80 = 0) (len : Nat) :
    ∃ r, SDNV.decodeAt bp len = .ok r := by
  obtain ⟨r, hr⟩ := loopAt_low h len 0 0
  rw [SDNV.decodeAt, hr, Exec.ok_bind]
  cases r with
  | mk ret val =>
      cases ret with
      | none => exact ⟨_, rfl⟩
      | some n => exact ⟨_, rfl⟩

theorem decodeAt_high {bp : Bytes} (h : ∀ b ∈ bp, b &&& 0x80 ≠ 0) {len : Nat}
    (hlen : bp.length < len) : SDNV.decodeAt bp len = .error (.fault .outOfBounds) := by
  rw [SDNV.decodeAt, loopAt_high h hlen]
  rfl

theorem decodeAt_zero (bs : Bytes) (len : Nat) :
    SDNV.decodeAt (0 :: bs) (len + 1) = .ok (some 1, 0) := rfl

/-! ## What `validate` returns -/

/-- The number behind the matching rule has a byte less to read than the rule itself. -/
theorem room_back {buf : Bytes} {used : UInt64} (hbuf : buf.length + 1 < 2 ^ 64)
    (hone : (used + 1).toNat ≤ buf.length) (htwo : (used + 1 + 1).toNat ≤ buf.length) :
    ∃ k, (UInt64.ofNat buf.length - (used + 1)).toNat = k + 1 ∧
      (UInt64.ofNat buf.length - (used + 1 + 1)).toNat = k := by
  have hlen : (UInt64.ofNat buf.length).toNat = buf.length := by
    rw [UInt64.toNat_ofNat']
    exact Nat.mod_eq_of_lt (Nat.lt_of_succ_lt hbuf)
  have hstep : (used + 1 + 1).toNat = ((used + 1).toNat + 1) % 2 ^ 64 := UInt64.toNat_add _ 1
  generalize used + 1 + 1 = two at *
  generalize used + 1 = one at *
  refine ⟨buf.length - (one.toNat + 1), ?_, ?_⟩
  · rw [UInt64.toNat_sub, hlen]
    omega
  · rw [UInt64.toNat_sub, hlen]
    omega

/-- The walk over the numbers ends at the first one, or one step back at the matching rule. -/
theorem testNumbers_ends {kind : UInt8} {behind : Bytes} {used : UInt64}
    (hbuf : (kind :: 0 :: behind).length + 1 < 2 ^ 64)
    (hone : (used + 1).toNat ≤ (kind :: 0 :: behind).length)
    (htwo : (used + 1 + 1).toNat ≤ (kind :: 0 :: behind).length) {r : Option Nat × UInt64}
    (h : SDNV.decodeAt behind
      (UInt64.ofNat (kind :: 0 :: behind).length - (used + 1 + 1)).toNat = .ok r) :
    testNumbers (kind :: 0 :: behind) ⟨used + 1 + 1, 2⟩ = .error .protocolError := by
  cases r with
  | mk ret val =>
      cases ret with
      | some n =>
          have hfirst : testSdnv (kind :: 0 :: behind) ⟨used + 1 + 1, 2⟩ = .error .protocolError :=
            testSdnv_decoded h
          rw [testNumbers, hfirst]
          rfl
      | none =>
          have hback : used + 1 + 1 - 1 = used + 1 := UInt64.add_sub_cancel _ _
          obtain ⟨k, hk, -⟩ := room_back hbuf hone htwo
          have hrule : testSdnv (kind :: 0 :: behind) ⟨used + 1, 1⟩ = .error .protocolError := by
            have hzero : SDNV.decodeAt (0 :: behind)
                (UInt64.ofNat (kind :: 0 :: behind).length - (used + 1)).toNat = .ok (some 1, 0) := by
              rw [hk]
              exact decodeAt_zero _ _
            exact testSdnv_decoded hzero
          have hfirst : testSdnv (kind :: 0 :: behind) ⟨used + 1 + 1, 2⟩ =
              .ok (val, ⟨used + 1, 1⟩) := by
            have hstep : testSdnv (kind :: 0 :: behind) ⟨used + 1 + 1, 2⟩ = _ := testSdnv_refused h
            rw [hstep, hback, if_neg (by omega)]
            rfl
          rw [testNumbers, hfirst, Exec.ok_bind]
          dsimp only
          rw [hrule]
          rfl

theorem testItems_undefined {kind : UInt8} (h : ¬ DefinedKind kind) (rest : Bytes) (used : UInt64) :
    testItems (kind :: rest) used = .error .protocolError := by
  rw [testItems, byteAt_zero, Exec.ok_bind, decide_eq_false h, testItem_false]
  rfl

theorem testItems_defined {kind : UInt8} (h : DefinedKind kind) (rest : Bytes) (used : UInt64) :
    testItems (kind :: rest) used =
      if (kind :: rest).length < (used + 1).toNat then .error .protocolError
      else byteAt (kind :: rest) 1 >>= fun rule =>
        testItem (kind :: rest).length (decide (rule = 0)) 1 ⟨used + 1, 1⟩ >>=
          testNumbers (kind :: rest) := by
  have hone : used + UInt64.ofInt 1 = used + 1 := rfl
  rw [testItems, byteAt_zero, Exec.ok_bind, decide_eq_true h, testItem_true, hone]
  by_cases hshort : (kind :: rest).length < (used + 1).toNat
  · rw [if_pos hshort, if_pos hshort]
    rfl
  · rw [if_neg hshort, if_neg hshort]
    rfl

/-- With a matching rule of zero the walk comes to the numbers, unless a sum is over the length. -/
theorem testItems_zero {kind : UInt8} (h : DefinedKind kind) (behind : Bytes) (used : UInt64) :
    testItems (kind :: 0 :: behind) used =
      if (kind :: 0 :: behind).length < (used + 1).toNat ∨
          (kind :: 0 :: behind).length < (used + 1 + 1).toNat then .error .protocolError
      else testNumbers (kind :: 0 :: behind) ⟨used + 1 + 1, 2⟩ := by
  have hrule : byteAt (kind :: 0 :: behind) 1 = .ok 0 := rfl
  have htwo : used + 1 + UInt64.ofInt 1 = used + 1 + 1 := rfl
  rw [testItems_defined h, hrule, Exec.ok_bind, decide_eq_true rfl, testItem_true, htwo]
  by_cases hone : (kind :: 0 :: behind).length < (used + 1).toNat
  · rw [if_pos hone, if_pos (Or.inl hone)]
  · rw [if_neg hone]
    by_cases hshort : (kind :: 0 :: behind).length < (used + 1 + 1).toNat
    · rw [if_pos hshort, if_pos (Or.inr hshort)]
      rfl
    · rw [if_neg hshort, if_neg (not_or.mpr ⟨hone, hshort⟩)]
      rfl

theorem validate_of_error {used : UInt64} {buf : Bytes}
    (h : testItems buf used = .error .protocolError) : validate used buf = .ok false := by
  rw [validate, h]

theorem validate_of_fault {used : UInt64} {buf : Bytes} {f : Fault}
    (h : testItems buf used = .error (.fault f)) : validate used buf = .error (.fault f) := by
  rw [validate, h]

theorem validate_undefined {kind : UInt8} (h : ¬ DefinedKind kind) (rest : Bytes) (used : UInt64) :
    validate used (kind :: rest) = .ok false :=
  validate_of_error (testItems_undefined h rest used)

theorem validate_rule {rule : UInt8} (h : rule ≠ 0) (kind : UInt8) (behind : Bytes)
    (used : UInt64) : validate used (kind :: rule :: behind) = .ok false := by
  apply validate_of_error
  by_cases hkind : DefinedKind kind
  · have hbyte : byteAt (kind :: rule :: behind) 1 = .ok rule := rfl
    rw [testItems_defined hkind, hbyte, Exec.ok_bind, decide_eq_false h, testItem_false,
      Exec.error_bind, ite_self]
  · exact testItems_undefined hkind _ _

theorem validate_lone {kind : UInt8} (h : DefinedKind kind) :
    validate 0 [kind] = .error (.fault .outOfBounds) := by
  apply validate_of_fault
  rw [testItems_defined h]
  rfl

/-- `validate` returns `false` if a byte behind the matching rule ends a number: no string makes it
return `true`. -/
theorem validate_low (kind : UInt8) {behind : Bytes} (h : ∃ b ∈ behind, b &&& 0x80 = 0)
    (hbuf : (kind :: 0 :: behind).length + 1 < 2 ^ 64) (used : UInt64) :
    validate used (kind :: 0 :: behind) = .ok false := by
  apply validate_of_error
  by_cases hkind : DefinedKind kind
  · rw [testItems_zero hkind]
    by_cases hshort : (kind :: 0 :: behind).length < (used + 1).toNat ∨
        (kind :: 0 :: behind).length < (used + 1 + 1).toNat
    · rw [if_pos hshort]
    · obtain ⟨hone, htwo⟩ := not_or.mp hshort
      obtain ⟨r, hr⟩ := decodeAt_low h
        (UInt64.ofNat (kind :: 0 :: behind).length - (used + 1 + 1)).toNat
      rw [if_neg hshort]
      exact testNumbers_ends hbuf (Nat.not_lt.mp hone) (Nat.not_lt.mp htwo) hr
  · exact testItems_undefined hkind _ _

/-- If no byte behind the matching rule ends a number, the decoder leaves the string as soon as
`used_len` started one below zero. -/
theorem validate_high {kind : UInt8} (hkind : DefinedKind kind) {behind : Bytes}
    (h : ∀ b ∈ behind, b &&& 0x80 ≠ 0) (hbuf : (kind :: 0 :: behind).length + 1 < 2 ^ 64) :
    validate (-1) (kind :: 0 :: behind) = .error (.fault .outOfBounds) := by
  apply validate_of_fault
  have hone : ((-1 : UInt64) + 1).toNat = 0 := rfl
  have htwo : ((-1 : UInt64) + 1 + 1).toNat = 1 := rfl
  have hbehind : (kind :: 0 :: behind).length = behind.length + 2 := rfl
  obtain ⟨k, hk, hroom⟩ : ∃ k,
      (UInt64.ofNat (kind :: 0 :: behind).length - (-1 + 1)).toNat = k + 1 ∧
        (UInt64.ofNat (kind :: 0 :: behind).length - (-1 + 1 + 1)).toNat = k :=
    room_back (by omega) (by omega) (by omega)
  have hlong : behind.length < k := by
    rw [UInt64.toNat_sub, UInt64.toNat_ofNat', hone, hbehind] at hk
    omega
  have hfirst : testSdnv (kind :: 0 :: behind) ⟨-1 + 1 + 1, 2⟩ = .error (.fault .outOfBounds) := by
    rw [testSdnv]
    change (SDNV.decodeAt behind _ >>= _) = _
    rw [hroom, decodeAt_high h hlong]
    rfl
  rw [testItems_zero hkind, if_neg (by omega), testNumbers, hfirst]
  rfl

end BPQBlock

end Dtn2
