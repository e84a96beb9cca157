import Mathlib.Data.List.Nodup

/-!
# Lists with distinct keys

Entries of a list are told apart by a key. When no key occurs twice, erasing the first entry with a
key erases all of them, and a map that leaves the keys alone touches one entry at a time.
-/

namespace Framework

namespace KeyedList

variable {α κ : Type} (key : α → κ)

theorem eraseP_eq_filter_of_nodup [DecidableEq κ] (k : κ) (xs : List α) (h : (xs.map key).Nodup) :
    (xs.eraseP fun x => decide (key x = k)) = xs.filter fun x => !decide (key x = k) := by
  induction xs with
  | nil => rfl
  | cons x xs ih =>
      rw [List.map_cons, List.nodup_cons] at h
      by_cases hx : key x = k
      · rw [List.eraseP_cons_of_pos (by simp [hx]), List.filter_cons_of_neg (by simp [hx])]
        refine (List.filter_eq_self.mpr ?_).symm
        intro y hy
        have hne : key y ≠ k := by
          intro hyk
          exact h.1 (List.mem_map.mpr ⟨y, hy, hyk.trans hx.symm⟩)
        simp [hne]
      · rw [List.eraseP_cons_of_neg (by simp [hx]), List.filter_cons_of_pos (by simp [hx]), ih h.2]

theorem eq_of_key_eq {xs : List α} (h : (xs.map key).Nodup) {x y : α} (hx : x ∈ xs) (hy : y ∈ xs)
    (hkey : key x = key y) : x = y :=
  List.inj_on_of_nodup_map h hx hy hkey

theorem nodup_append_singleton {xs : List α} (h : (xs.map key).Nodup) {x : α}
    (hnew : ∀ y ∈ xs, key y ≠ key x) : ((xs ++ [x]).map key).Nodup := by
  rw [List.map_append, List.nodup_append]
  refine ⟨h, List.nodup_singleton _, ?_⟩
  intro k hk k' hk'
  obtain ⟨y, hy, rfl⟩ := List.mem_map.mp hk
  rw [List.map_singleton, List.mem_singleton] at hk'
  rw [hk']
  exact hnew y hy

end KeyedList

end Framework
