import Dtn2.Framework.Reader
import Mathlib.Data.Nat.Log

/-!
# Self-delimiting numeric values

`SDNV::encode`, `SDNV::encoding_len` and `SDNV::decode` on 64-bit values: seven bits per byte,
most significant first, the high bit set on every byte but the last. The decoder returns the
same `-1` for a buffer that ends inside a value and for a value that does not fit 64 bits, and
has written the partial value by then; `read` is the view of the callers that look at the value
only after a successful decode.
-/

namespace Dtn2

open Framework

abbrev Bytes := List UInt8

instance Bytes.lawfulBEq : LawfulBEq Bytes := inferInstance

namespace SDNV

/-- The maximum length for this implementation, since the maximum value is 64 bits wide. -/
def maxLength : Nat := 10

/-- The bytes `encode` stores, filled in backwards from the last one. -/
def encodeLoop : Nat → UInt64 → UInt8 → Bytes → Bytes
  | 0, _, _, out => out
  | fuel + 1, val, highBit, out =>
      let out := (highBit ||| (val &&& 0x7f).toUInt8) :: out
      if val >>> 7 = 0 then out else encodeLoop fuel (val >>> 7) 0x80 out

/-- The bytes of the encoding; ten rounds suffice for every 64-bit value. -/
def encoded (val : UInt64) : Bytes := encodeLoop maxLength val 0 []

/-- `SDNV::encode` into a buffer of `len` bytes; `none` is the return value `-1`. -/
def encode (val : UInt64) (len : Nat) : Option Bytes :=
  if len < (encoded val).length then none else some (encoded val)

/-- `SDNV::encoding_len`, the length of the encoding in a scratch buffer of 16 bytes. -/
def encodingLen (val : UInt64) : Nat :=
  match encode val 16 with
  | some out => out.length
  | none => 0

/-- The decoding loop: the number of bytes used (`none` if the buffer ends first) and the
value accumulated so far in 64 bits. -/
def decodeLoop : Bytes → UInt64 → Nat → Option Nat × UInt64
  | [], val, _ => (none, val)
  | b :: bs, val, valLen =>
      let val := (val <<< 7) ||| (b &&& 0x7f).toUInt64
      if b &&& 0x80 = 0 then (some (valLen + 1), val) else decodeLoop bs val (valLen + 1)

/-- `SDNV::decode`: the return value (`none` for `-1`) and what is left in `*val`. The only
supported ten-byte value stores exactly one bit in its first byte. -/
def decode (bp : Bytes) : Option Nat × UInt64 :=
  match decodeLoop bp 0 0 with
  | (none, val) => (none, val)
  | (some n, val) =>
      if n > maxLength ∨ (n = maxLength ∧ bp.head? ≠ some 0x81) then (none, val)
      else (some n, val)

/-- `SDNV::decode` into a 32-bit value: the number of bytes used and the value. A value that does
not fit gives the same `-1` as a buffer that ends too soon. -/
def decode32 (bp : Bytes) : Option (Nat × Nat) :=
  match decode bp with
  | (ret, val) => if 0xffffffff < val.toNat then none else ret.map fun n => (n, val.toNat)

/-- Decode a value and step over it. -/
def read : Reader UInt8 UInt64 := fun bp =>
  match decode bp with
  | (some n, val) => some (val, bp.drop n)
  | (none, _) => none

/-! ## Bytes of an encoding -/

private theorem forall_byte {p : UInt8 → Prop} (h : ∀ i : Fin 256, p (UInt8.ofNat i.val)) (b : UInt8) :
    p b := by
  have hb := h ⟨b.toNat, b.toNat_lt⟩
  simpa using hb

private theorem toNat_shiftRight_seven (v : UInt64) : (v >>> 7).toNat = v.toNat / 128 := by
  rw [UInt64.toNat_shiftRight]
  simp [Nat.shiftRight_eq_div_pow]

private theorem shiftRight_seven_eq_zero (v : UInt64) : v >>> 7 = 0 ↔ v.toNat < 128 := by
  rw [← UInt64.toNat_inj, toNat_shiftRight_seven]
  simp

private theorem toNat_low_seven (v : UInt64) : (v &&& 0x7f).toNat = v.toNat % 128 := by
  rw [UInt64.toNat_and]
  exact Nat.and_two_pow_sub_one_eq_mod v.toNat 7

private theorem low_seven_byte (v : UInt64) : ((v &&& 0x7f).toUInt8).toNat < 128 := by
  rw [UInt64.toNat_toUInt8, toNat_low_seven]
  omega

private theorem payload_of_high (x : UInt8) (hx : x.toNat < 128) :
    ((0x80 ||| x) &&& 0x7f = x ∧ ¬ (0x80 ||| x) &&& 0x80 = 0) ∧
      ((0 ||| x) &&& 0x7f = x ∧ (0 ||| x) &&& 0x80 = 0) := by
  revert hx
  exact forall_byte (p := fun x => x.toNat < 128 → ((0x80 ||| x) &&& 0x7f = x ∧
    ¬ (0x80 ||| x) &&& 0x80 = 0) ∧ ((0 ||| x) &&& 0x7f = x ∧ (0 ||| x) &&& 0x80 = 0))
    (by decide +kernel) x

private theorem shift_in_low_seven (v : UInt64) :
    ((v >>> 7) <<< 7) ||| ((v &&& 0x7f).toUInt8).toUInt64 = v := by
  apply UInt64.toNat_inj.mp
  have hv := v.toNat_lt
  rw [UInt64.toNat_or, UInt64.toNat_shiftLeft, UInt8.toNat_toUInt64, UInt64.toNat_toUInt8,
    toNat_shiftRight_seven, toNat_low_seven]
  have h7 : (7 : UInt64).toNat % 64 = 7 := rfl
  rw [h7, Nat.shiftLeft_eq, Nat.mod_eq_of_lt (by omega : v.toNat / 128 * 2 ^ 7 < 2 ^ 64),
    Nat.mod_eq_of_lt (by omega : v.toNat % 128 < 2 ^ 8), Nat.mul_comm,
    ← Nat.two_pow_add_eq_or_of_lt (by omega : v.toNat % 128 < 2 ^ 7)]
  omega

private theorem low_seven_of_lt (v : UInt64) (hv : v.toNat < 128) :
    ((0 : UInt64) <<< 7) ||| ((v &&& 0x7f).toUInt8).toUInt64 = v := by
  have h := shift_in_low_seven v
  rwa [(shiftRight_seven_eq_zero v).mpr hv] at h

private theorem log_step (n : Nat) (h : 128 ≤ n) : Nat.log 128 n = Nat.log 128 (n / 128) + 1 :=
  Nat.log_of_one_lt_of_le (by decide) h

theorem encodeLoop_length (fuel : Nat) (val : UInt64) (highBit : UInt8) (out : Bytes)
    (hfuel : val.toNat < 128 ^ fuel) (hpos : 0 < fuel) :
    (encodeLoop fuel val highBit out).length = Nat.log 128 val.toNat + 1 + out.length := by
  induction fuel generalizing val highBit out with
  | zero => omega
  | succ fuel ih =>
      simp only [encodeLoop]
      by_cases hz : val >>> 7 = 0
      · have hlt := (shiftRight_seven_eq_zero val).mp hz
        rw [if_pos hz, Nat.log_of_lt hlt]
        simp only [List.length_cons]
        omega
      · have hge : 128 ≤ val.toNat := by
          by_contra hlt
          exact hz ((shiftRight_seven_eq_zero val).mpr (by omega))
        rw [if_neg hz]
        have hdiv : (val >>> 7).toNat < 128 ^ fuel := by
          rw [toNat_shiftRight_seven, Nat.div_lt_iff_lt_mul (by decide)]
          rwa [Nat.pow_succ] at hfuel
        have hfpos : 0 < fuel := by
          rcases Nat.eq_zero_or_pos fuel with rfl | h
          · simp at hfuel
            omega
          · exact h
        rw [ih _ _ _ hdiv hfpos, toNat_shiftRight_seven, log_step val.toNat hge]
        simp only [List.length_cons]
        omega

private theorem toNat_lt_fuel (val : UInt64) : val.toNat < 128 ^ maxLength := by
  have h := val.toNat_lt
  have hp : (2 : Nat) ^ 64 ≤ 128 ^ maxLength := by decide
  omega

theorem encoded_length (val : UInt64) : (encoded val).length = Nat.log 128 val.toNat + 1 := by
  rw [encoded, encodeLoop_length _ _ _ _ (toNat_lt_fuel val) (by decide)]
  rfl

theorem encoded_length_le (val : UInt64) : (encoded val).length ≤ maxLength := by
  rw [encoded_length]
  have h : Nat.log 128 val.toNat < maxLength :=
    Nat.log_lt_of_lt_pow' (by decide) (toNat_lt_fuel val)
  omega

@[simp] theorem encodingLen_eq (val : UInt64) : encodingLen val = (encoded val).length := by
  have h := encoded_length_le val
  have h16 : ¬ 16 < (encoded val).length := by
    simp only [maxLength] at h
    omega
  simp only [encodingLen, encode, if_neg h16]

theorem encodingLen_pos (val : UInt64) : 0 < encodingLen val := by
  rw [encodingLen_eq, encoded_length]
  omega

theorem encodingLen_mono {a b : UInt64} (h : a.toNat ≤ b.toNat) :
    encodingLen a ≤ encodingLen b := by
  rw [encodingLen_eq, encodingLen_eq, encoded_length, encoded_length]
  have := Nat.log_mono_right (b := 128) h
  omega

/-! ## Decoding what was encoded -/

private theorem encodeLoop_append (fuel : Nat) (val : UInt64) (highBit : UInt8) (out rest : Bytes) :
    encodeLoop fuel val highBit out ++ rest = encodeLoop fuel val highBit (out ++ rest) := by
  induction fuel generalizing val highBit out with
  | zero => rfl
  | succ fuel ih =>
      simp only [encodeLoop]
      split
      · rfl
      · rw [ih]
        rfl

private theorem decodeLoop_encodeLoop (fuel : Nat) (val : UInt64) (out : Bytes)
    (hfuel : val.toNat < 128 ^ fuel) (hpos : 0 < fuel) :
    decodeLoop (encodeLoop fuel val 0x80 out) 0 0 =
      decodeLoop out val (Nat.log 128 val.toNat + 1) := by
  induction fuel generalizing val out with
  | zero => omega
  | succ fuel ih =>
      have hbits := (payload_of_high _ (low_seven_byte val)).1
      simp only [encodeLoop]
      by_cases hz : val >>> 7 = 0
      · have hlt := (shiftRight_seven_eq_zero val).mp hz
        rw [if_pos hz, decodeLoop, if_neg hbits.2, hbits.1, low_seven_of_lt val hlt,
          Nat.log_of_lt hlt]
      · have hge : 128 ≤ val.toNat := by
          by_contra hlt
          exact hz ((shiftRight_seven_eq_zero val).mpr (by omega))
        have hdiv : (val >>> 7).toNat < 128 ^ fuel := by
          rw [toNat_shiftRight_seven, Nat.div_lt_iff_lt_mul (by decide)]
          rwa [Nat.pow_succ] at hfuel
        have hfpos : 0 < fuel := by
          rcases Nat.eq_zero_or_pos fuel with rfl | h
          · simp at hfuel
            omega
          · exact h
        rw [if_neg hz, ih _ _ hdiv hfpos, decodeLoop, if_neg hbits.2, hbits.1,
          shift_in_low_seven, toNat_shiftRight_seven, log_step val.toNat hge]

/-- The leading byte of a continued encoding carries the leading base-128 digit. -/
private theorem encodeLoop_head (fuel : Nat) (val : UInt64) (out : Bytes) (k : Nat)
    (hk : k < fuel) (hlo : 128 ^ k ≤ val.toNat) (hhi : val.toNat < 128 ^ (k + 1)) :
    (encodeLoop fuel val 0x80 out).head? = some (0x80 ||| UInt8.ofNat (val.toNat / 128 ^ k)) := by
  induction fuel generalizing val out k with
  | zero => omega
  | succ fuel ih =>
      simp only [encodeLoop]
      by_cases hz : val >>> 7 = 0
      · have hlt := (shiftRight_seven_eq_zero val).mp hz
        have hk0 : k = 0 := by
          by_contra hne
          have : 128 ^ 1 ≤ 128 ^ k := Nat.pow_le_pow_right (by decide) (by omega)
          omega
        subst hk0
        have hlow : (val &&& 0x7f).toUInt8 = UInt8.ofNat val.toNat := by
          apply UInt8.toNat_inj.mp
          rw [UInt64.toNat_toUInt8, toNat_low_seven, UInt8.toNat_ofNat']
          omega
        rw [if_pos hz, List.head?_cons, hlow]
        simp
      · have hge : 128 ≤ val.toNat := by
          by_contra hlt
          exact hz ((shiftRight_seven_eq_zero val).mpr (by omega))
        obtain ⟨j, rfl⟩ : ∃ j, k = j + 1 := by
          cases k with
          | zero => omega
          | succ j => exact ⟨j, rfl⟩
        rw [if_neg hz, ih (val >>> 7) _ j (by omega), toNat_shiftRight_seven, Nat.div_div_eq_div_mul,
          Nat.pow_succ, Nat.mul_comm]
        · rw [toNat_shiftRight_seven, Nat.le_div_iff_mul_le (by decide)]
          rwa [Nat.pow_succ] at hlo
        · rw [toNat_shiftRight_seven, Nat.div_lt_iff_lt_mul (by decide)]
          rwa [Nat.pow_succ] at hhi

private theorem encoded_of_lt (val : UInt64) (h : val.toNat < 128) :
    encoded val = [0 ||| (val &&& 0x7f).toUInt8] := by
  rw [encoded, maxLength, encodeLoop, if_pos ((shiftRight_seven_eq_zero val).mpr h)]

private theorem encoded_of_ge (val : UInt64) (h : 128 ≤ val.toNat) :
    encoded val = encodeLoop 9 (val >>> 7) 0x80 [0 ||| (val &&& 0x7f).toUInt8] := by
  rw [encoded, maxLength, encodeLoop, if_neg]
  rw [shiftRight_seven_eq_zero]
  omega

private theorem toNat_shift_lt_fuel (val : UInt64) : (val >>> 7).toNat < 128 ^ 9 := by
  have h := val.toNat_lt
  rw [toNat_shiftRight_seven]
  omega

private theorem decodeLoop_encoded (val : UInt64) (rest : Bytes) :
    decodeLoop (encoded val ++ rest) 0 0 = (some (encoded val).length, val) := by
  have hbits := (payload_of_high _ (low_seven_byte val)).2
  rw [encoded_length]
  by_cases hlt : val.toNat < 128
  · rw [encoded_of_lt val hlt, List.cons_append, decodeLoop, if_pos hbits.2, hbits.1,
      low_seven_of_lt val hlt, Nat.log_of_lt hlt]
  · rw [encoded_of_ge val (by omega), encodeLoop_append,
      decodeLoop_encodeLoop 9 _ _ (toNat_shift_lt_fuel val) (by decide), List.cons_append,
      decodeLoop, if_pos hbits.2, hbits.1, shift_in_low_seven, toNat_shiftRight_seven,
      log_step val.toNat (by omega)]

/-- A ten-byte encoding starts with the one bit that does not fit in the other nine bytes. -/
private theorem encoded_head_of_ten (val : UInt64) (h : (encoded val).length = maxLength) :
    (encoded val).head? = some 0x81 := by
  rw [encoded_length] at h
  have hlog : Nat.log 128 val.toNat = 9 := by
    simp only [maxLength] at h
    omega
  have hlo : 128 ^ 9 ≤ val.toNat := by
    have hne : val.toNat ≠ 0 := by
      intro h0
      rw [h0, Nat.log_zero_right] at hlog
      omega
    have hp := Nat.pow_log_le_self 128 hne
    rwa [hlog] at hp
  have hv := val.toNat_lt
  have hdiv : (val >>> 7).toNat / 128 ^ 8 = 1 := by
    rw [toNat_shiftRight_seven]
    omega
  rw [encoded_of_ge val (by omega), encodeLoop_head 9 (val >>> 7) _ 8 (by decide), hdiv]
  · rfl
  · rw [toNat_shiftRight_seven]
    omega
  · exact toNat_shift_lt_fuel val

theorem encoded_ne_nil (val : UInt64) : encoded val ≠ [] := by
  intro h
  have hlen := encoded_length val
  rw [h] at hlen
  simp at hlen

theorem decode_encoded (val : UInt64) (rest : Bytes) :
    decode (encoded val ++ rest) = (some (encoded val).length, val) := by
  have hle := encoded_length_le val
  have hgood : ¬ ((encoded val).length > maxLength ∨
      ((encoded val).length = maxLength ∧ (encoded val ++ rest).head? ≠ some 0x81)) := by
    rintro (h | ⟨h, hne⟩)
    · omega
    · apply hne
      rw [List.head?_append, encoded_head_of_ten val h]
      rfl
  simp only [decode, decodeLoop_encoded, if_neg hgood]

@[simp] theorem read_encoded (val : UInt64) (rest : Bytes) :
    read (encoded val ++ rest) = some (val, rest) := by
  simp only [read, decode_encoded, List.drop_left]

/-! ## Decoding is decided by the bytes it uses -/

private theorem decodeLoop_some {bs : Bytes} {w v : UInt64} {n m : Nat}
    (h : decodeLoop bs w n = (some m, v)) :
    n < m ∧ m - n ≤ bs.length ∧
      ∀ more, decodeLoop (bs.take (m - n) ++ more) w n = (some m, v) := by
  induction bs generalizing w n with
  | nil => simp [decodeLoop] at h
  | cons b bs ih =>
      rw [decodeLoop] at h
      by_cases hb : b &&& 0x80 = 0
      · rw [if_pos hb] at h
        simp only [Prod.mk.injEq, Option.some.injEq] at h
        obtain ⟨rfl, hv⟩ := h
        refine ⟨by omega, by simp, ?_⟩
        intro more
        have hone : n + 1 - n = 1 := by omega
        rw [hone, List.take_succ_cons, List.take_zero, List.cons_append, decodeLoop, if_pos hb, hv]
      · rw [if_neg hb] at h
        obtain ⟨hlt, hle, hmore⟩ := ih h
        refine ⟨by omega, by simp only [List.length_cons]; omega, ?_⟩
        intro more
        have hstep : m - n = (m - (n + 1)) + 1 := by omega
        rw [hstep, List.take_succ_cons, List.cons_append, decodeLoop, if_neg hb]
        exact hmore more

theorem decode_some {bp : Bytes} {n : Nat} {v : UInt64} (h : decode bp = (some n, v)) :
    0 < n ∧ n ≤ bp.length ∧ ∀ more, decode (bp.take n ++ more) = (some n, v) := by
  rw [decode] at h
  cases hl : decodeLoop bp 0 0 with
  | mk ret w =>
      rw [hl] at h
      cases ret with
      | none => simp at h
      | some m =>
          simp only at h
          split at h
          · simp at h
          · rename_i hgood
            simp only [Prod.mk.injEq, Option.some.injEq] at h
            obtain ⟨rfl, rfl⟩ := h
            obtain ⟨hlt, hle, hmore⟩ := decodeLoop_some hl
            simp only [Nat.sub_zero] at hle hmore
            refine ⟨hlt, hle, ?_⟩
            intro more
            have hhead : (bp.take m ++ more).head? = bp.head? := by
              cases bp with
              | nil => simp at hle; omega
              | cons b bs =>
                  obtain ⟨j, rfl⟩ : ∃ j, m = j + 1 := ⟨m - 1, by omega⟩
                  rfl
            simp only [decode, hmore more, hhead, if_neg hgood]

theorem read_eq_some {bp rest : Bytes} {v : UInt64} :
    read bp = some (v, rest) ↔ ∃ n, decode bp = (some n, v) ∧ rest = bp.drop n := by
  rw [read]
  cases hd : decode bp with
  | mk ret w =>
      cases ret with
      | none => simp
      | some n =>
          constructor
          · intro h
            simp only [Option.some.injEq, Prod.mk.injEq] at h
            exact ⟨n, by rw [h.1], h.2.symm⟩
          · rintro ⟨m, hm, rfl⟩
            simp only [Prod.mk.injEq, Option.some.injEq] at hm
            rw [hm.1, hm.2]

theorem read_stable : Reader.Stable read := by
  intro bp v rest h
  obtain ⟨n, hd, rfl⟩ := read_eq_some.mp h
  obtain ⟨hpos, hle, hmore⟩ := decode_some hd
  refine ⟨bp.take n, (List.take_append_drop n bp).symm, ?_⟩
  intro more
  apply read_eq_some.mpr
  refine ⟨n, hmore more, ?_⟩
  rw [List.drop_append_of_le_length (by simp; omega), List.drop_of_length_le (by simp)]
  rfl

theorem read_length_lt {bp rest : Bytes} {v : UInt64} (h : read bp = some (v, rest)) :
    rest.length < bp.length := by
  obtain ⟨n, hd, rfl⟩ := read_eq_some.mp h
  obtain ⟨hpos, hle, -⟩ := decode_some hd
  rw [List.length_drop]
  omega

theorem read_length_le {bp rest : Bytes} {v : UInt64} (h : read bp = some (v, rest)) :
    bp.length ≤ rest.length + 10 := by
  obtain ⟨n, hd, rfl⟩ := read_eq_some.mp h
  have hle : n ≤ 10 := by
    rw [decode] at hd
    split at hd
    · simp at hd
    · split at hd
      · simp at hd
      · rename_i hgood
        simp only [Prod.mk.injEq, Option.some.injEq] at hd
        simp only [maxLength] at hgood
        omega
  rw [List.length_drop]
  omega

end SDNV

end Dtn2
