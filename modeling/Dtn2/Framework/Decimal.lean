import Mathlib.Data.Nat.Digits.Lemmas

/-!
# Decimal numerals

Printing a natural number in ASCII decimal digits, and scanning the longest run of digits at the
front of a string. A printed number is scanned back whatever follows it, as long as that does
not start with a digit.
-/

namespace Framework

namespace Decimal

def isDigit (b : UInt8) : Bool := decide (48 ≤ b.toNat) && decide (b.toNat ≤ 57)

def digit (d : Nat) : UInt8 := UInt8.ofNat (48 + d)

/-- The numeral of `n`, without leading zeros. -/
def print (n : Nat) : List UInt8 :=
  if n = 0 then [digit 0] else ((Nat.digits 10 n).reverse).map digit

/-- The number that a run of digits stands for. -/
def value (ds : List UInt8) : Nat := ds.foldl (fun acc b => acc * 10 + (b.toNat - 48)) 0

/-- The digits at the front of the input and what follows them; `none` if there is no digit. -/
def scan (input : List UInt8) : Option (Nat × List UInt8) :=
  if input.takeWhile isDigit = [] then none
  else some (value (input.takeWhile isDigit), input.dropWhile isDigit)

theorem toNat_digit {d : Nat} (h : d < 10) : (digit d).toNat = 48 + d := by
  rw [digit, UInt8.toNat_ofNat']
  omega

theorem isDigit_digit {d : Nat} (h : d < 10) : isDigit (digit d) = true := by
  rw [isDigit, toNat_digit h]
  simp only [Bool.and_eq_true, decide_eq_true_eq]
  omega

theorem print_ne_nil (n : Nat) : print n ≠ [] := by
  unfold print
  split
  · simp
  · rename_i h
    simpa using Nat.digits_ne_nil_iff_ne_zero.mpr h

theorem isDigit_of_mem_print {n : Nat} {b : UInt8} (h : b ∈ print n) : isDigit b = true := by
  unfold print at h
  split at h
  · rw [List.mem_singleton] at h
    rw [h]
    exact isDigit_digit (by omega)
  · obtain ⟨d, hd, rfl⟩ := List.mem_map.mp h
    exact isDigit_digit (Nat.digits_lt_base (by decide) (List.mem_reverse.mp hd))

private theorem value_map_digit (ds : List Nat) (h : ∀ d ∈ ds, d < 10) :
    value ((ds.reverse).map digit) = Nat.ofDigits 10 ds := by
  induction ds with
  | nil => rfl
  | cons d ds ih =>
      have hd := toNat_digit (h d (by simp))
      have hds := ih fun x hx => h x (by simp [hx])
      rw [value] at hds ⊢
      rw [List.reverse_cons, List.map_append, List.foldl_append, hds, List.map_singleton,
        List.foldl_cons, List.foldl_nil, hd, Nat.ofDigits_cons]
      change Nat.ofDigits 10 ds * 10 + (48 + d - 48) = d + 10 * Nat.ofDigits 10 ds
      omega

theorem value_print (n : Nat) : value (print n) = n := by
  unfold print
  split
  · rename_i h
    rw [h]
    rfl
  · rw [value_map_digit _ fun d hd => Nat.digits_lt_base (by decide) hd, Nat.ofDigits_digits]

theorem print_length_le {n k : Nat} (hk : 0 < k) (h : n < 10 ^ k) : (print n).length ≤ k := by
  unfold print
  split
  · exact hk
  · rw [List.length_map, List.length_reverse]
    exact (Nat.digits_length_le_iff (by decide) n).mpr h

theorem scan_print (n : Nat) (rest : List UInt8) (hrest : ∀ b ∈ rest.head?, isDigit b = false) :
    scan (print n ++ rest) = some (n, rest) := by
  have hall : ∀ b ∈ print n, isDigit b = true := fun b hb => isDigit_of_mem_print hb
  have htake : rest.takeWhile isDigit = [] ∧ rest.dropWhile isDigit = rest := by
    cases rest with
    | nil => simp
    | cons b bs =>
        have hb := hrest b rfl
        simp [hb]
  unfold scan
  rw [List.takeWhile_append_of_pos hall, List.dropWhile_append_of_pos hall, htake.1, htake.2,
    List.append_nil, if_neg (print_ne_nil n), value_print]

end Decimal

end Framework
