import Mathlib.Data.List.Basic
import Mathlib.Tactic.Ring

/-!
# Numbers in network byte order

A number is written in a fixed count of bytes, the most significant first. What does not fit in
that count is lost, so reading gives the number back modulo the size of the field.
-/

namespace Framework

namespace BigEndian

/-- The last `k` base-256 digits of a number. -/
def encode : Nat → Nat → List UInt8
  | 0, _ => []
  | k + 1, v => UInt8.ofNat (v / 256 ^ k) :: encode k v

/-- The number that a list of digits stands for. -/
def decode : List UInt8 → Nat
  | [] => 0
  | b :: bs => b.toNat * 256 ^ bs.length + decode bs

@[simp] theorem length_encode (k v : Nat) : (encode k v).length = k := by
  induction k with
  | zero => rfl
  | succ k ih => simp [encode, ih]

/-- Reading a field gives the number that was written, less what did not fit. -/
theorem decode_encode (k v : Nat) : decode (encode k v) = v % 256 ^ k := by
  induction k with
  | zero => simp [decode, encode, Nat.mod_one]
  | succ k ih =>
      have hdigit : (UInt8.ofNat (v / 256 ^ k)).toNat = v / 256 ^ k % 256 := by simp
      simp only [encode, decode, length_encode, ih, hdigit]
      rw [pow_succ, Nat.mod_mul]
      ring

theorem decode_encode_of_lt {k v : Nat} (h : v < 256 ^ k) : decode (encode k v) = v := by
  rw [decode_encode, Nat.mod_eq_of_lt h]

end BigEndian

end Framework
