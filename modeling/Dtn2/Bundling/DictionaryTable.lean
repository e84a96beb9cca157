import Dtn2.Bundling.Dictionary
import Dtn2.Framework.StringTable

/-!
# The dictionary as a table of strings

`add_str` makes a table of terminated strings out of the buffer, and the overloads of `get_offset`
find the offsets of this table. The buffer doubles in size until the table fits. Doubling goes up to
`2 ^ 31` bytes: the next size is zero in 32 bits, so for a larger table the loop never ends.
-/

namespace Dtn2

open Framework

namespace Dictionary

/-! ## The overloads of `get_offset` -/

/-- The loop of `get_offset` with a string length and an offset of `bits` bits. The offset stays
inside the dictionary, so a scan with more rounds than the dictionary has bytes never ends. -/
def scan (bits : Nat) (dict str : Bytes) : Nat → Nat → Exec (Option Nat)
  | 0, _ => .error (.fault .diverges)
  | fuel + 1, offset =>
      if offset < dict.length then
        let here := cString (dict.drop offset)
        let len := here.length % 2 ^ bits
        if (cString str).take len = here.take len ∧ str.length = len then pure (some offset)
        else do
          let offset := (offset + (len + 1)) % 2 ^ bits
          assertThat (offset ≤ dict.length)
          scan bits dict str fuel offset
      else pure none

def getOffset32 (d : Dictionary) (str : Bytes) : Exec (Option UInt32) := do
  let offset ← scan 32 d.dict str (d.dict.length + 1) 0
  pure (offset.map UInt32.ofNat)

def getOffset64 (d : Dictionary) (str : Bytes) : Exec (Option UInt64) := do
  let offset ← scan 64 d.dict str (d.dict.length + 1) 0
  pure (offset.map UInt64.ofNat)

/-- The offsets of both strings of an endpoint id; the second is looked up if the first is found. -/
def offsetPair {ω : Type} (find : Bytes → Exec (Option ω)) (eid : EndpointID) :
    Exec (Option (ω × ω)) := do
  match ← find eid.schemeStr with
  | none => pure none
  | some schemeOffset =>
      match ← find eid.ssp with
      | none => pure none
      | some sspOffset => pure (some (schemeOffset, sspOffset))

def getOffsets32 (d : Dictionary) (eid : EndpointID) : Exec (Option (UInt32 × UInt32)) :=
  offsetPair d.getOffset32 eid

def getOffsets64 (d : Dictionary) (eid : EndpointID) : Exec (Option (UInt64 × UInt64)) :=
  offsetPair d.getOffset64 eid

theorem offsetPair_of_found {ω : Type} {find : Bytes → Exec (Option ω)} {eid : EndpointID}
    {s t : ω} (hs : find eid.schemeStr = .ok (some s)) (ht : find eid.ssp = .ok (some t)) :
    offsetPair find eid = .ok (some (s, t)) := by
  rw [offsetPair, hs, Exec.ok_bind]
  simp only [ht, Exec.ok_bind]
  rfl

/-! ## The scan over a table -/

section Scan

variable {strs : List Bytes} {str : Bytes}

private theorem cString_encode_cons {s : Bytes} (h : 0 ∉ s) (strs : List Bytes) :
    cString (StringTable.encode 0 (s :: strs)) = s :=
  StringTable.takeWhile_encode_cons h strs

private theorem compare_iff {s : Bytes} (h : 0 ∉ s) :
    (cString str).take s.length = s ∧ str.length = s.length ↔ s = str := by
  constructor
  · rintro ⟨htake, hlen⟩
    have hshort : (cString str).length ≤ s.length := by
      rw [← hlen]
      exact (List.takeWhile_prefix _).length_le
    rw [List.take_of_length_le hshort] at htake
    have hpre : s <+: str := htake ▸ List.takeWhile_prefix _
    exact hpre.eq_of_length hlen.symm
  · rintro rfl
    simp [cString_eq_self h]

theorem scan_encode {bits fuel offset : Nat} {dict : Bytes}
    (hdrop : dict.drop offset = StringTable.encode 0 strs)
    (hlen : offset + (StringTable.encode 0 strs).length = dict.length)
    (hbits : dict.length < 2 ^ bits) (hfree : ∀ s ∈ strs, 0 ∉ s)
    (hfuel : (StringTable.encode 0 strs).length < fuel) :
    scan bits dict str fuel offset = .ok ((StringTable.offset str strs).map (offset + ·)) := by
  induction strs generalizing offset fuel with
  | nil =>
      obtain ⟨fuel, rfl⟩ : ∃ k, fuel = k + 1 := ⟨fuel - 1, by omega⟩
      have hend : ¬ offset < dict.length := by
        rw [← hlen]
        simp
      rw [scan, if_neg hend]
      rfl
  | cons s strs ih =>
      obtain ⟨fuel, rfl⟩ : ∃ k, fuel = k + 1 := ⟨fuel - 1, by omega⟩
      have hs : 0 ∉ s := hfree s (List.mem_cons_self ..)
      rw [StringTable.encode_cons, List.length_append, List.length_cons] at hlen hfuel
      have hhere : cString (dict.drop offset) = s := by rw [hdrop, cString_encode_cons hs]
      have hcut : s.length % 2 ^ bits = s.length := Nat.mod_eq_of_lt (by omega)
      rw [scan, if_pos (by omega)]
      simp only [hhere, hcut, List.take_length, compare_iff hs]
      by_cases heq : s = str
      · rw [if_pos heq, heq, StringTable.offset_cons_self]
        rfl
      · have hnext : (offset + (s.length + 1)) % 2 ^ bits = offset + (s.length + 1) :=
          Nat.mod_eq_of_lt (by omega)
        have hrest : dict.drop (offset + (s.length + 1)) = StringTable.encode 0 strs := by
          rw [← List.drop_drop, hdrop]
          simp
        rw [if_neg heq, hnext, Exec.assert_bind (by omega), StringTable.offset_cons_of_ne heq,
          ih hrest (by omega) (fun x hx => hfree x (List.mem_cons_of_mem _ hx)) (by omega),
          Option.map_map]
        congr 2
        funext n
        simp only [Function.comp_apply]
        omega

theorem getOffsetLoop_encode {fuel offset : Nat} (hfree : ∀ s ∈ strs, 0 ∉ s)
    (hfuel : (StringTable.encode 0 strs).length ≤ fuel) :
    getOffsetLoop str fuel (StringTable.encode 0 strs) offset =
      .ok ((StringTable.offset str strs).map (offset + ·)) := by
  induction strs generalizing offset fuel with
  | nil => cases fuel <;> rfl
  | cons s strs ih =>
      rw [StringTable.encode_cons, List.length_append, List.length_cons] at hfuel
      obtain ⟨fuel, rfl⟩ : ∃ k, fuel = k + 1 := ⟨fuel - 1, by omega⟩
      have hs : 0 ∉ s := hfree s (List.mem_cons_self ..)
      have hlen : s.length + 1 ≤ (StringTable.encode 0 (s :: strs)).length := by simp
      rw [getOffsetLoop, if_neg (by simp)]
      simp only [cString_encode_cons hs, compare_iff hs]
      by_cases heq : s = str
      · rw [if_pos heq, heq, StringTable.offset_cons_self]
        rfl
      · have hrest : (StringTable.encode 0 (s :: strs)).drop (s.length + 1) =
            StringTable.encode 0 strs := by simp
        rw [if_neg heq, Exec.assert_bind hlen, hrest, StringTable.offset_cons_of_ne heq,
          ih (fun x hx => hfree x (List.mem_cons_of_mem _ hx)) (by omega), Option.map_map]
        congr 2
        funext n
        simp only [Function.comp_apply]
        omega

end Scan

/-! ## The size of the buffer -/

/-- The sizes that doubling goes through: nothing, and the powers of two from 64 on. -/
def Doubled (size : UInt32) : Prop := size = 0 ∨ ∃ k, 6 ≤ k ∧ k < 32 ∧ size.toNat = 2 ^ k

def doubled (size : UInt32) : UInt32 := if size = 0 then 64 else size * 2

theorem Doubled.le {size : UInt32} (h : Doubled size) : size.toNat ≤ 2 ^ 31 := by
  rcases h with rfl | ⟨k, -, hk, hsize⟩
  · simp
  · rw [hsize]
    exact Nat.pow_le_pow_right (by omega) (by omega)

theorem toNat_doubled {size : UInt32} {k : Nat} (h : size.toNat = 2 ^ k) :
    (doubled size).toNat = 2 ^ (k + 1) % 2 ^ 32 := by
  have hne : size ≠ 0 := by
    rintro rfl
    exact absurd h (Nat.two_pow_pos k).ne
  rw [doubled, if_neg hne, UInt32.toNat_mul, h, Nat.pow_succ]
  rfl

theorem Doubled.next {size : UInt32} (h : Doubled size) : Doubled (doubled size) := by
  rcases h with rfl | ⟨k, hk, hk32, hsize⟩
  · exact Or.inr ⟨6, by omega, by omega, rfl⟩
  · have htwice := toNat_doubled hsize
    rcases Nat.lt_or_ge (k + 1) 32 with hlt | hge
    · refine Or.inr ⟨k + 1, by omega, hlt, ?_⟩
      rw [htwice, Nat.mod_eq_of_lt (Nat.pow_lt_pow_right (by omega) hlt)]
    · have hk' : k + 1 = 32 := by omega
      rw [hk', Nat.mod_self] at htwice
      exact Or.inl (UInt32.toNat_inj.mp htwice)

theorem growLoop_succ (fuel : Nat) (size : UInt32) (needed : Nat) :
    growLoop (fuel + 1) size needed =
      if (doubled size).toNat < needed then growLoop fuel (doubled size) needed
      else .ok (doubled size) := rfl

/-- From a power of two the loop ends in as many rounds as there are larger ones. -/
private theorem growLoop_pow {fuel needed k : Nat} {size : UInt32} (hk : 6 ≤ k) (hk32 : k < 32)
    (hsize : size.toNat = 2 ^ k) (hfuel : 31 - k ≤ fuel) (hless : size.toNat < needed)
    (hneeded : needed ≤ 2 ^ 31) :
    ∃ n, growLoop fuel size needed = .ok n ∧ Doubled n ∧ needed ≤ n.toNat := by
  have hlt : k < 31 := by
    by_contra hge
    have hk31 : k = 31 := by omega
    rw [hk31] at hsize
    omega
  induction fuel generalizing k size with
  | zero => omega
  | succ fuel ih =>
      have hnext : (doubled size).toNat = 2 ^ (k + 1) := by
        rw [toNat_doubled hsize, Nat.mod_eq_of_lt (Nat.pow_lt_pow_right (by omega) (by omega))]
      rw [growLoop_succ]
      split
      · rename_i hmore
        have hlt' : k + 1 < 31 := by
          by_contra hge
          have hk31 : k + 1 = 31 := by omega
          rw [hnext, hk31] at hmore
          omega
        have hrounds : 31 - (k + 1) ≤ fuel := by omega
        exact ih (by omega) (by omega) hnext hrounds hmore hlt'
      · exact ⟨_, rfl, Or.inr ⟨k + 1, by omega, by omega, hnext⟩, by omega⟩

theorem growLoop_of_gt {size : UInt32} {needed : Nat} (fuel : Nat) (h : Doubled size)
    (hneeded : 2 ^ 31 < needed) : growLoop fuel size needed = .error (.fault .diverges) := by
  induction fuel generalizing size with
  | zero => rfl
  | succ fuel ih =>
      have hless : (doubled size).toNat < needed := h.next.le.trans_lt hneeded
      rw [growLoop_succ, if_pos hless]
      exact ih h.next

/-- The size of the buffer once it holds `needed` bytes. -/
def resized (size : UInt32) (needed : Nat) : Exec UInt32 :=
  if size.toNat < needed then growLoop 64 size needed else .ok size

theorem resized_of_le {size : UInt32} {needed : Nat} (h : Doubled size)
    (hneeded : needed ≤ 2 ^ 31) :
    ∃ n, resized size needed = .ok n ∧ Doubled n ∧ needed ≤ n.toNat := by
  by_cases hless : size.toNat < needed
  · rw [resized, if_pos hless]
    rcases h with rfl | ⟨k, hk, hk32, hsize⟩
    · have hfirst : (doubled 0).toNat = 2 ^ 6 := rfl
      rw [growLoop_succ]
      split
      · rename_i hmore
        exact growLoop_pow (by omega) (by omega) hfirst (by omega) hmore hneeded
      · exact ⟨_, rfl, Or.inr ⟨6, by omega, by omega, hfirst⟩, by omega⟩
    · exact growLoop_pow hk hk32 hsize (by omega) hless hneeded
  · rw [resized, if_neg hless]
    exact ⟨size, rfl, h, by omega⟩

theorem resized_of_gt {size : UInt32} {needed : Nat} (h : Doubled size)
    (hneeded : 2 ^ 31 < needed) : resized size needed = .error (.fault .diverges) := by
  rw [resized, if_pos (h.le.trans_lt hneeded), growLoop_of_gt 64 h hneeded]

theorem addStr_of_absent {d : Dictionary} {str : Bytes} (h : d.getOffset str = .ok none) :
    d.addStr str = (resized d.dictLength (d.dict.length + str.length + 1) >>= fun n =>
      .ok ⟨d.dict ++ str ++ [0], n⟩) := by
  rw [addStr, h, Exec.ok_bind, resized]
  by_cases hless : d.dictLength.toNat < d.dict.length + str.length + 1
  · simp only [if_pos hless]
    rfl
  · simp only [if_neg hless]
    rfl

/-! ## Adding strings to a table -/

/-- The buffer is a table of NUL-free strings, in an allocation that doubling has led to. -/
structure Holds (d : Dictionary) (strs : List Bytes) : Prop where
  bytes : d.dict = StringTable.encode 0 strs
  free : ∀ s ∈ strs, 0 ∉ s
  size : Doubled d.dictLength
  sized : d.dict.length ≤ d.dictLength.toNat

theorem holds_empty : Holds empty [] where
  bytes := rfl
  free := by simp
  size := Or.inl rfl
  sized := le_refl _

section Holds

variable {d : Dictionary} {strs : List Bytes} {str : Bytes}

theorem Holds.length_le (h : Holds d strs) : d.dict.length ≤ 2 ^ 31 := h.sized.trans h.size.le

theorem Holds.getOffset (h : Holds d strs) :
    d.getOffset str = .ok (StringTable.offset str strs) := by
  rw [Dictionary.getOffset, h.bytes, getOffsetLoop_encode h.free (le_refl _)]
  simp

theorem Holds.scan {bits : Nat} (h : Holds d strs) (hbits : 32 ≤ bits) :
    scan bits d.dict str (d.dict.length + 1) 0 = .ok (StringTable.offset str strs) := by
  have hpow : 2 ^ 32 ≤ 2 ^ bits := Nat.pow_le_pow_right (by omega) hbits
  have hlen := h.length_le
  have hall := congrArg List.length h.bytes
  rw [scan_encode (by rw [List.drop_zero, h.bytes]) (by omega) (by omega) h.free (by omega)]
  simp

theorem Holds.getOffset32 (h : Holds d strs) :
    d.getOffset32 str = .ok ((StringTable.offset str strs).map UInt32.ofNat) := by
  rw [Dictionary.getOffset32, h.scan (le_refl _)]
  rfl

theorem Holds.getOffset64 (h : Holds d strs) :
    d.getOffset64 str = .ok ((StringTable.offset str strs).map UInt64.ofNat) := by
  rw [Dictionary.getOffset64, h.scan (by omega)]
  rfl

theorem Holds.at_offset (h : Holds d strs) {o : Nat} (ho : StringTable.offset str strs = some o) :
    d.At str o := by
  obtain ⟨more, hdrop⟩ := StringTable.drop_offset 0 ho
  rw [← h.bytes] at hdrop
  have hlen := congrArg List.length hdrop
  rw [List.length_drop, StringTable.encode_cons, List.length_append, List.length_cons] at hlen
  exact ⟨by rw [hdrop, cString_encode_cons (h.free str (StringTable.mem_of_offset ho))], by omega⟩

theorem Holds.addStr_of_le (h : Holds d strs) (hstr : 0 ∉ str)
    (hfits : (StringTable.encode 0 (StringTable.intern strs str)).length ≤ 2 ^ 31) :
    ∃ d', d.addStr str = .ok d' ∧ Holds d' (StringTable.intern strs str) := by
  by_cases hmem : str ∈ strs
  · obtain ⟨o, ho⟩ := StringTable.exists_offset hmem
    rw [addStr, h.getOffset, ho, StringTable.intern, if_pos hmem]
    exact ⟨d, rfl, h⟩
  · have hnone := StringTable.offset_eq_none.mpr hmem
    rw [StringTable.intern, if_neg hmem] at hfits ⊢
    have hneeded : d.dict.length + str.length + 1 ≤ 2 ^ 31 := by
      simpa [h.bytes, Nat.add_assoc] using hfits
    obtain ⟨n, hgrown, hsize, hn⟩ := resized_of_le h.size hneeded
    refine ⟨⟨d.dict ++ str ++ [0], n⟩, ?_, ?_⟩
    · rw [addStr_of_absent (hnone ▸ h.getOffset), hgrown, Exec.ok_bind]
    · refine ⟨?_, ?_, hsize, ?_⟩
      · simp [h.bytes]
      · intro s hs
        rcases List.mem_append.mp hs with hs | hs
        · exact h.free s hs
        · rw [List.mem_singleton.mp hs]
          exact hstr
      · simpa [Nat.add_assoc] using hn

theorem Holds.addStr_of_gt (h : Holds d strs)
    (hexceeds : 2 ^ 31 < (StringTable.encode 0 (StringTable.intern strs str)).length) :
    d.addStr str = .error (.fault .diverges) := by
  have hlen := h.length_le
  have hmem : str ∉ strs := by
    intro hmem
    rw [StringTable.intern, if_pos hmem, ← h.bytes] at hexceeds
    omega
  have hneeded : 2 ^ 31 < d.dict.length + str.length + 1 := by
    simpa [StringTable.intern, hmem, h.bytes, Nat.add_assoc] using hexceeds
  rw [addStr_of_absent (StringTable.offset_eq_none.mpr hmem ▸ h.getOffset),
    resized_of_gt h.size hneeded, Exec.error_bind]

theorem Holds.run_of_le (h : Holds d strs) {more : List Bytes} (hmore : ∀ s ∈ more, 0 ∉ s)
    (hfits : (StringTable.encode 0 (StringTable.internAll strs more)).length ≤ 2 ^ 31) :
    ∃ d', more.foldlM addStr d = .ok d' ∧ Holds d' (StringTable.internAll strs more) := by
  induction more generalizing d strs with
  | nil => exact ⟨d, rfl, h⟩
  | cons str more ih =>
      have hpre := StringTable.prefix_internAll (StringTable.intern strs str) more
      have hfirst := (StringTable.encode_prefix 0 hpre).length_le.trans hfits
      obtain ⟨mid, hmid, hholds⟩ := h.addStr_of_le (hmore str (List.mem_cons_self ..)) hfirst
      obtain ⟨d', hrun, hend⟩ :=
        ih hholds (fun s hs => hmore s (List.mem_cons_of_mem _ hs)) hfits
      exact ⟨d', by rw [List.foldlM_cons, hmid, Exec.ok_bind, hrun], hend⟩

theorem Holds.of_run (h : Holds d strs) {more : List Bytes} {d' : Dictionary}
    (hmore : ∀ s ∈ more, 0 ∉ s) (hrun : more.foldlM addStr d = .ok d') :
    Holds d' (StringTable.internAll strs more) := by
  induction more generalizing d strs with
  | nil =>
      cases hrun
      exact h
  | cons str more ih =>
      rw [List.foldlM_cons] at hrun
      obtain ⟨mid, hmid, hrest⟩ := Exec.bind_eq_ok.mp hrun
      have hfits : (StringTable.encode 0 (StringTable.intern strs str)).length ≤ 2 ^ 31 := by
        by_contra hexceeds
        rw [h.addStr_of_gt (by omega)] at hmid
        cases hmid
      obtain ⟨mid', hmid', hholds⟩ := h.addStr_of_le (hmore str (List.mem_cons_self ..)) hfits
      rw [hmid] at hmid'
      cases hmid'
      exact ih hholds (fun s hs => hmore s (List.mem_cons_of_mem _ hs)) hrest

end Holds


end Dictionary

end Dtn2
