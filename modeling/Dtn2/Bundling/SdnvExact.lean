import Dtn2.Bundling.Sdnv
import Mathlib.Data.Nat.Digits.Lemmas
import Mathlib.Data.Nat.Size

/-!
# The SDNV codec is exact

The value of a byte string in base 128, and what `encode` and `decode` have to do with it. The
decoder shifts in 64 bits and looks at the length and the first byte afterwards: that is enough for
no bit to be lost.
-/

namespace Dtn2

namespace SDNV

/-! ## Base 128 -/

/-- The number that the low seven bits of the bytes stand for, the most significant ones first. -/
def value (bs : Bytes) : Nat := Nat.ofDigits 128 (bs.map fun b => b.toNat % 128).reverse

/-- Bytes with the high bit set and one without behind them. -/
def Terminated (bs : Bytes) : Prop :=
  ∃ front last, bs = front ++ [last] ∧ (∀ b ∈ front, 128 ≤ b.toNat) ∧ last.toNat < 128

/-- The form of `v` in base 128: of all terminated byte strings with this value it is the only
shortest one. -/
structure Minimal (v : Nat) (bs : Bytes) : Prop where
  terminated : Terminated bs
  value_eq : value bs = v
  shortest : ∀ other, Terminated other → value other = v → other = bs ∨ bs.length < other.length

theorem value_cons (b : UInt8) (bs : Bytes) :
    value (b :: bs) = b.toNat % 128 * 128 ^ bs.length + value bs := by
  rw [value, List.map_cons, List.reverse_cons, Nat.ofDigits_append, Nat.ofDigits_singleton,
    List.length_reverse, List.length_map, value]
  ring

theorem value_lt (bs : Bytes) : value bs < 128 ^ bs.length := by
  have hdigits : ∀ d ∈ (bs.map fun b => b.toNat % 128).reverse, d < 128 := by
    intro d hd
    obtain ⟨b, -, rfl⟩ := List.mem_map.mp (List.mem_reverse.mp hd)
    exact Nat.mod_lt _ (by decide)
  have hlt := Nat.ofDigits_lt_base_pow_length (by decide : 1 < 128) hdigits
  rwa [List.length_reverse, List.length_map] at hlt

theorem terminated_cons {b : UInt8} {bs : Bytes} :
    Terminated (b :: bs) ↔ (bs = [] ∧ b.toNat < 128) ∨ (128 ≤ b.toNat ∧ Terminated bs) := by
  constructor
  · rintro ⟨front, last, hbs, hfront, hlast⟩
    cases front with
    | nil =>
        cases hbs
        exact Or.inl ⟨rfl, hlast⟩
    | cons c front =>
        cases hbs
        refine Or.inr ⟨hfront b List.mem_cons_self, front, last, rfl, ?_, hlast⟩
        exact fun d hd => hfront d (List.mem_cons_of_mem b hd)
  · intro h
    cases h with
    | inl h =>
        obtain ⟨rfl, hlast⟩ := h
        exact ⟨[], b, rfl, fun d hd => absurd hd List.not_mem_nil, hlast⟩
    | inr h =>
        obtain ⟨hb, front, last, rfl, hfront, hlast⟩ := h
        refine ⟨b :: front, last, rfl, ?_, hlast⟩
        intro d hd
        cases List.mem_cons.mp hd with
        | inl heq =>
            rw [heq]
            exact hb
        | inr hd => exact hfront d hd

theorem Terminated.ne_nil {bs : Bytes} (h : Terminated bs) : bs ≠ [] := by
  obtain ⟨front, last, rfl, -, -⟩ := h
  simp

theorem Terminated.eq_of_value {bs cs : Bytes} (hb : Terminated bs) (hc : Terminated cs)
    (hlen : bs.length = cs.length) (hvalue : value bs = value cs) : bs = cs := by
  induction bs generalizing cs with
  | nil => exact absurd rfl hb.ne_nil
  | cons b bs ih =>
      cases cs with
      | nil => exact absurd rfl hc.ne_nil
      | cons c cs =>
          have htail : bs.length = cs.length := Nat.succ.inj hlen
          have hlt := value_lt bs
          have hlt' := value_lt cs
          rw [value_cons, value_cons, htail] at hvalue
          rw [htail] at hlt
          generalize 128 ^ cs.length = p at *
          have hdigit : b.toNat % 128 = c.toNat % 128 := by
            have hdiv := congrArg (fun n => n / p) hvalue
            simp only [Nat.mul_add_div (by omega : p > 0), Nat.mul_comm _ p, Nat.div_eq_of_lt hlt,
              Nat.div_eq_of_lt hlt', Nat.add_zero] at hdiv
            exact hdiv
          rw [hdigit] at hvalue
          have hrest : value bs = value cs := Nat.add_left_cancel hvalue
          have hb' := b.toNat_lt
          have hc' := c.toNat_lt
          cases terminated_cons.mp hb with
          | inl hlast =>
              obtain ⟨rfl, hsmall⟩ := hlast
              have hnil : cs = [] := List.length_eq_zero_iff.mp htail.symm
              have hsmall' := ((terminated_cons.mp hc).resolve_right
                (fun hmore => hmore.2.ne_nil hnil)).2
              rw [hnil, UInt8.toNat_inj.mp (by omega : b.toNat = c.toNat)]
          | inr hmore =>
              have hmore' := (terminated_cons.mp hc).resolve_left (by
                rintro ⟨hnil, -⟩
                rw [hnil] at htail
                exact hmore.2.ne_nil (List.length_eq_zero_iff.mp htail))
              rw [ih hmore.2 hmore'.2 htail hrest,
                UInt8.toNat_inj.mp (by omega : b.toNat = c.toNat)]

/-! ## The decoder -/

private theorem toNat_shift_in (w : UInt64) (b : UInt8) :
    ((w <<< 7) ||| (b &&& 0x7f).toUInt64).toNat = (w.toNat * 128 + b.toNat % 128) % 2 ^ 64 := by
  have hlow : (b &&& 0x7f).toUInt64.toNat = b.toNat % 128 := by
    rw [UInt8.toNat_toUInt64, UInt8.toNat_and]
    exact Nat.and_two_pow_sub_one_eq_mod b.toNat 7
  have hshift : (w <<< 7).toNat = w.toNat * 128 % 2 ^ 64 := by
    rw [UInt64.toNat_shiftLeft, Nat.shiftLeft_eq]
    rfl
  have hdiv : w.toNat * 128 % 2 ^ 64 = 2 ^ 7 * (w.toNat * 128 % 2 ^ 64 / 128) := by omega
  rw [UInt64.toNat_or, hshift, hlow, hdiv,
    ← Nat.two_pow_add_eq_or_of_lt (by omega : b.toNat % 128 < 2 ^ 7)]
  omega

private theorem high_bit (b : UInt8) : b &&& 0x80 = 0 ↔ b.toNat < 128 := by
  have hbyte : ∀ i : Fin 256, UInt8.ofNat i.val &&& 0x80 = 0 ↔ (UInt8.ofNat i.val).toNat < 128 := by
    decide +kernel
  have hb := hbyte ⟨b.toNat, b.toNat_lt⟩
  rwa [UInt8.ofNat_toNat] at hb

/-- The loop stops behind the first byte without the high bit, with the value in 64 bits. -/
theorem decodeLoop_eq_some {bs : Bytes} {w v : UInt64} {k m : Nat} :
    decodeLoop bs w k = (some m, v) ↔ ∃ used rest, bs = used ++ rest ∧ Terminated used ∧
      m = k + used.length ∧ v.toNat = (w.toNat * 128 ^ used.length + value used) % 2 ^ 64 := by
  induction bs generalizing w k with
  | nil =>
      constructor
      · intro h
        cases h
      · rintro ⟨used, rest, hbs, hused, -, -⟩
        exact absurd (List.append_eq_nil_iff.mp hbs.symm).1 hused.ne_nil
  | cons b bs ih =>
      have hshift := toNat_shift_in w b
      rw [decodeLoop]
      generalize (w <<< 7) ||| (b &&& 0x7f).toUInt64 = w' at hshift ⊢
      by_cases hlast : b.toNat < 128
      · have hone : value [b] = b.toNat % 128 := by
          rw [value_cons]
          simp [value]
        rw [if_pos ((high_bit b).mpr hlast)]
        constructor
        · intro h
          cases h
          refine ⟨[b], bs, rfl, terminated_cons.mpr (Or.inl ⟨rfl, hlast⟩), rfl, ?_⟩
          rw [hshift, hone]
          rfl
        · rintro ⟨used, rest, hbs, hused, hm, hv⟩
          cases used with
          | nil => exact absurd rfl hused.ne_nil
          | cons c used =>
              cases hbs
              have hnil : used = [] :=
                ((terminated_cons.mp hused).resolve_right (fun hmore => by omega)).1
              rw [hnil] at hm hv
              rw [hm]
              rw [hone, List.length_singleton, Nat.pow_one, ← hshift] at hv
              rw [UInt64.toNat_inj.mp hv]
              rfl
      · rw [if_neg (fun hzero => hlast ((high_bit b).mp hzero)), ih]
        have hstep : ∀ used : Bytes, (w'.toNat * 128 ^ used.length + value used) % 2 ^ 64 =
            (w.toNat * 128 ^ (b :: used).length + value (b :: used)) % 2 ^ 64 := by
          intro used
          rw [hshift, value_cons, List.length_cons, Nat.pow_succ, Nat.add_mod, Nat.mod_mul_mod,
            ← Nat.add_mod]
          congr 1
          ring
        constructor
        · rintro ⟨used, rest, rfl, hused, hm, hv⟩
          refine ⟨b :: used, rest, rfl, terminated_cons.mpr (Or.inr ⟨by omega, hused⟩), ?_, ?_⟩
          · rw [hm, List.length_cons]
            omega
          · rw [hv, hstep]
        · rintro ⟨used, rest, hbs, hused, hm, hv⟩
          cases used with
          | nil => exact absurd rfl hused.ne_nil
          | cons c used =>
              cases hbs
              have hmore := (terminated_cons.mp hused).resolve_left (fun hend => hlast hend.2)
              refine ⟨used, rest, rfl, hmore.2, ?_, ?_⟩
              · rw [hm, List.length_cons]
                omega
              · rw [hv, hstep]

/-- `decode` takes the front of the buffer up to the first byte without the high bit, if that is not
too long for 64 bits, and no bit is lost. -/
theorem decode_eq_some (bp : Bytes) (n : Nat) (v : UInt64) :
    decode bp = (some n, v) ↔ n ≤ bp.length ∧ Terminated (bp.take n) ∧
      (n ≤ 9 ∨ n = 10 ∧ bp.head? = some 0x81) ∧ v.toNat = value (bp.take n) := by
  have hfit : ∀ m, ¬ (maxLength < m ∨ m = maxLength ∧ bp.head? ≠ some 0x81) ↔
      (m ≤ 9 ∨ m = 10 ∧ bp.head? = some 0x81) := by
    intro m
    by_cases hhead : bp.head? = some 0x81
    · simp only [maxLength, ne_eq, hhead, not_true_eq_false, and_false, or_false, and_true]
      omega
    · simp only [maxLength, ne_eq, hhead, not_false_eq_true, and_false, or_false, and_true]
      omega
  have hexact : ∀ used rest, bp = used ++ rest → Terminated used →
      (used.length ≤ 9 ∨ used.length = 10 ∧ bp.head? = some 0x81) → value used < 2 ^ 64 := by
    intro used rest hbp hused hshort
    cases hshort with
    | inl hle =>
        have hpow : 128 ^ used.length ≤ 128 ^ 9 := Nat.pow_le_pow_right (by decide) hle
        exact lt_of_lt_of_le (value_lt used) (le_trans hpow (by decide))
    | inr hten =>
        obtain ⟨hlen, hhead⟩ := hten
        cases used with
        | nil => exact absurd rfl hused.ne_nil
        | cons b used =>
            have hb : b = 0x81 := by
              rw [hbp] at hhead
              exact Option.some.inj hhead
            have hnine : used.length = 9 := Nat.succ.inj hlen
            have hlt := value_lt used
            rw [hnine] at hlt
            rw [value_cons, hb, hnine]
            have hone : (0x81 : UInt8).toNat % 128 = 1 := rfl
            rw [hone]
            omega
  constructor
  · intro h
    rw [decode] at h
    cases hl : decodeLoop bp 0 0 with
    | mk ret w =>
        rw [hl] at h
        cases ret with
        | none => cases h
        | some m =>
            dsimp only at h
            by_cases hbad : maxLength < m ∨ m = maxLength ∧ bp.head? ≠ some 0x81
            · rw [if_pos hbad] at h
              cases h
            · rw [if_neg hbad] at h
              cases h
              obtain ⟨used, rest, hbp, hused, hn, hv⟩ := decodeLoop_eq_some.mp hl
              rw [Nat.zero_add] at hn
              have hshort := (hfit n).mp hbad
              rw [hn] at hshort
              have htake : bp.take n = used := by
                rw [hbp, hn, List.take_left]
              rw [htake, hn]
              refine ⟨?_, hused, hshort, ?_⟩
              · rw [hbp, List.length_append]
                omega
              · rw [hv, UInt64.toNat_zero, Nat.zero_mul, Nat.zero_add,
                  Nat.mod_eq_of_lt (hexact used rest hbp hused hshort)]
  · rintro ⟨hle, hused, hshort, hv⟩
    have hlen : (bp.take n).length = n := by
      rw [List.length_take]
      omega
    have hsplit : bp = bp.take n ++ bp.drop n := (List.take_append_drop n bp).symm
    have hlt := hexact (bp.take n) (bp.drop n) hsplit hused (by rw [hlen]; exact hshort)
    have hl : decodeLoop bp 0 0 = (some n, v) := by
      apply decodeLoop_eq_some.mpr
      refine ⟨bp.take n, bp.drop n, hsplit, hused, ?_, ?_⟩
      · rw [hlen, Nat.zero_add]
      · rw [hv, UInt64.toNat_zero, Nat.zero_mul, Nat.zero_add, Nat.mod_eq_of_lt hlt]
    rw [decode, hl]
    dsimp only
    rw [if_neg ((hfit n).mpr hshort)]

/-! ## The encoder -/

theorem encoded_minimal (v : UInt64) : Minimal v.toNat (encoded v) := by
  have hdecode : decode (encoded v) = (some (encoded v).length, v) := by
    have hback := decode_encoded v []
    rwa [List.append_nil] at hback
  obtain ⟨-, hterminated, -, hvalue⟩ := (decode_eq_some _ _ _).mp hdecode
  rw [List.take_length] at hterminated hvalue
  refine ⟨hterminated, hvalue.symm, ?_⟩
  intro other hother heq
  have hlen := encoded_length v
  have hshort : (encoded v).length ≤ other.length := by
    have hlt := value_lt other
    rw [heq] at hlt
    have hpos : 0 < other.length := List.length_pos_of_ne_nil hother.ne_nil
    have hlog := Nat.log_lt_of_lt_pow' (Nat.pos_iff_ne_zero.mp hpos) hlt
    omega
  by_cases hsame : other.length = (encoded v).length
  · left
    exact hother.eq_of_value hterminated hsame (heq.trans hvalue)
  · right
    omega

theorem encoded_length_size (v : UInt64) :
    (encoded v).length = (max 1 v.toNat.size + 6) / 7 := by
  rw [encoded_length]
  generalize v.toNat = n
  by_cases hzero : n = 0
  · rw [hzero]
    rfl
  · have hlow : 2 ^ (7 * Nat.log 128 n) ≤ n := by
      rw [Nat.pow_mul]
      exact Nat.pow_log_le_self 128 hzero
    have hhigh : n < 2 ^ (7 * (Nat.log 128 n + 1)) := by
      rw [Nat.pow_mul]
      exact Nat.lt_pow_succ_log_self (by decide) n
    have hlt := Nat.lt_size.mpr hlow
    have hle := Nat.size_le.mpr hhigh
    omega

theorem encode_eq (v : UInt64) (len : Nat) :
    (encode v len ≠ none ↔ (max 1 v.toNat.size + 6) / 7 ≤ len) ∧
      ∀ out ∈ encode v len, Minimal v.toNat out := by
  rw [encode, ← encoded_length_size]
  by_cases hshort : len < (encoded v).length
  · rw [if_pos hshort]
    constructor
    · simp only [ne_eq, not_true_eq_false, false_iff]
      omega
    · intro out hout
      cases hout
  · rw [if_neg hshort]
    constructor
    · simp only [ne_eq, reduceCtorEq, not_false_eq_true, true_iff]
      omega
    · intro out hout
      cases hout
      exact encoded_minimal v

/-- `encode` writes the minimal form of a value into every buffer that is large enough for it,
`decode` takes exactly the terminated byte strings that fit 64 bits, and takes an encoding back. -/
theorem codec_exact :
    (∀ (v : UInt64) (len : Nat), (encode v len ≠ none ↔ (max 1 v.toNat.size + 6) / 7 ≤ len) ∧
      ∀ out ∈ encode v len, Minimal v.toNat out) ∧
    (∀ (bp : Bytes) (n : Nat) (v : UInt64), decode bp = (some n, v) ↔
      n ≤ bp.length ∧ Terminated (bp.take n) ∧ (n ≤ 9 ∨ n = 10 ∧ bp.head? = some 0x81) ∧
        v.toNat = value (bp.take n)) ∧
    ∀ (v : UInt64) (len : Nat), ∀ out ∈ encode v len, ∀ rest,
      decode (out ++ rest) = (some (encodingLen v), v) := by
  refine ⟨encode_eq, decode_eq_some, ?_⟩
  intro v len out hout rest
  rw [encode] at hout
  by_cases hshort : len < (encoded v).length
  · rw [if_pos hshort] at hout
    cases hout
  · rw [if_neg hshort] at hout
    cases hout
    rw [encodingLen_eq, decode_encoded]

end SDNV

end Dtn2
