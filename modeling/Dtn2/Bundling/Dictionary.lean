import Dtn2.Bundling.Core

/-!
# The endpoint id dictionary

A sequence of NUL-terminated strings. A sender adds the schemes and scheme-specific parts of
the endpoint ids of a bundle and refers to them by their offsets; a receiver installs the
transmitted bytes with `set_dict` and extracts the endpoint ids again.
-/

namespace Dtn2

/-- `dict` is the filled-in portion, `dictLength` the size of the allocation (zero while the
pointer is null). -/
structure Dictionary where
  dict : Bytes
  dictLength : UInt32
deriving DecidableEq, Repr

namespace Dictionary

def empty : Dictionary := ⟨[], 0⟩

/-- `set_dict`, which must not be called twice. -/
def setDict (d : Dictionary) (dict : Bytes) : Exec Dictionary := do
  assertThat (d.dictLength = 0)
  pure ⟨dict, UInt32.ofNat dict.length⟩

/-- The scan of `get_offset` over the strings that are left, `offset` bytes into the dictionary. -/
def getOffsetLoop (str : Bytes) : Nat → Bytes → Nat → Exec (Option Nat)
  | 0, _, _ => pure none
  | fuel + 1, rest, offset =>
      if rest = [] then pure none
      else
        let len := (cString rest).length
        if (cString str).take len = cString rest ∧ str.length = len then pure (some offset)
        else do
          assertThat (len + 1 ≤ rest.length)
          getOffsetLoop str fuel (rest.drop (len + 1)) (offset + len + 1)

/-- `get_offset`; each round skips at least one byte. -/
def getOffset (d : Dictionary) (str : Bytes) : Exec (Option Nat) :=
  getOffsetLoop str d.dict.length d.dict 0

/-- The doubling of `dict_length_` in 32 bits until it reaches `needed`. From zero or a power of
two it is back at zero after at most 32 rounds, so a loop that has not ended after 64 never does. -/
def growLoop : Nat → UInt32 → Nat → Exec UInt32
  | 0, _, _ => .error (.fault .diverges)
  | fuel + 1, dictLength, needed =>
      let dictLength := if dictLength = 0 then 64 else dictLength * 2
      if dictLength.toNat < needed then growLoop fuel dictLength needed else pure dictLength

/-- `add_str`: append the string unless it is there already. -/
def addStr (d : Dictionary) (str : Bytes) : Exec Dictionary := do
  match ← d.getOffset str with
  | some _ => pure d
  | none =>
      let needed := d.dict.length + str.length + 1
      let dictLength ←
        if d.dictLength.toNat < needed then growLoop 64 d.dictLength needed else pure d.dictLength
      pure ⟨d.dict ++ str ++ [0], dictLength⟩

def addEid (d : Dictionary) (eid : EndpointID) : Exec Dictionary := do
  let d ← d.addStr eid.schemeStr
  d.addStr eid.ssp

/-- `get_offsets`; `none` when one of the two strings is missing. -/
def getOffsets (d : Dictionary) (eid : EndpointID) : Exec (Option (Nat × Nat)) := do
  match ← d.getOffset eid.schemeStr with
  | none => pure none
  | some schemeOffset =>
      match ← d.getOffset eid.ssp with
      | none => pure none
      | some sspOffset => pure (some (schemeOffset, sspOffset))

/-- `extract_eid` with 32-bit offsets: the return value and the endpoint id afterwards, which is
untouched when an offset is out of range. -/
def extractEid32 (os : Oasys) (d : Dictionary) (eid : EndpointID)
    (schemeOffset sspOffset : UInt32) : Bool × EndpointID :=
  if d.dictLength = 0 then (false, eid)
  else if schemeOffset ≥ d.dictLength - 1 then (false, eid)
  else if sspOffset ≥ d.dictLength - 1 then (false, eid)
  else
    let eid := os.assign (cString (d.dict.drop schemeOffset.toNat) ++
      EndpointID.colon :: cString (d.dict.drop sspOffset.toNat))
    (eid.valid, eid)

/-- `extract_eid` with 64-bit offsets, which are cut to 32 bits. -/
def extractEid (os : Oasys) (d : Dictionary) (eid : EndpointID)
    (schemeOffset sspOffset : UInt64) : Bool × EndpointID :=
  d.extractEid32 os eid schemeOffset.toUInt32 sspOffset.toUInt32

/-! ## Strings found in a terminated dictionary -/

/-- Every string in the dictionary ends with a NUL. -/
def Terminated (d : Dictionary) : Prop := d.dict = [] ∨ d.dict.getLast? = some 0

/-- A string sits at an offset, NUL included. -/
def At (d : Dictionary) (str : Bytes) (offset : Nat) : Prop :=
  cString (d.dict.drop offset) = str ∧ offset + str.length + 1 ≤ d.dict.length

theorem cString_append_of_mem {a b : Bytes} (h : 0 ∈ a) : cString (a ++ b) = cString a := by
  induction a with
  | nil => simp at h
  | cons x xs ih =>
      by_cases hx : x = 0
      · simp [cString, hx]
      · have hmem : 0 ∈ xs := by
          rcases List.mem_cons.mp h with h0 | h0
          · exact absurd h0.symm hx
          · exact h0
        have := ih hmem
        simp only [cString, List.cons_append] at this ⊢
        rw [List.takeWhile_cons, List.takeWhile_cons, this]

theorem cString_length_lt {a : Bytes} (h : 0 ∈ a) : (cString a).length < a.length := by
  induction a with
  | nil => simp at h
  | cons x xs ih =>
      by_cases hx : x = 0
      · simp [cString, hx]
      · have hmem : 0 ∈ xs := by
          rcases List.mem_cons.mp h with h0 | h0
          · exact absurd h0.symm hx
          · exact h0
        have hlt := ih hmem
        have hcons : cString (x :: xs) = x :: cString xs := by simp [cString, hx]
        rw [hcons, List.length_cons, List.length_cons]
        omega

private theorem zero_mem_of_getLast {a : Bytes} (h : a.getLast? = some 0) : 0 ∈ a :=
  List.mem_of_getLast? h

private theorem getLast_drop {a : Bytes} {n : Nat} (hn : n < a.length) (h : a.getLast? = some 0) :
    (a.drop n).getLast? = some 0 := by
  rw [List.getLast?_drop, if_neg (by omega), h]

private theorem getOffsetLoop_at {str : Bytes} (hstr : 0 ∉ str) (fuel : Nat) (rest : Bytes)
    (offset o : Nat) (hlast : rest = [] ∨ rest.getLast? = some 0)
    (h : getOffsetLoop str fuel rest offset = .ok (some o)) :
    offset ≤ o ∧ cString (rest.drop (o - offset)) = str ∧
      (o - offset) + str.length + 1 ≤ rest.length := by
  induction fuel generalizing rest offset with
  | zero => cases h
  | succ fuel ih =>
      rw [getOffsetLoop] at h
      by_cases hnil : rest = []
      · rw [if_pos hnil] at h
        cases h
      · rw [if_neg hnil] at h
        have hl : rest.getLast? = some 0 := hlast.resolve_left hnil
        have hzero := zero_mem_of_getLast hl
        have hlen := cString_length_lt hzero
        by_cases hm : (cString str).take (cString rest).length = cString rest ∧
            str.length = (cString rest).length
        · simp only [if_pos hm] at h
          have ho : offset = o := by
            have h' : (Except.ok (some offset) : Exec (Option Nat)) = .ok (some o) := h
            simpa using h'
          subst ho
          have heq : cString rest = str := by
            have h1 := hm.1
            rw [cString_eq_self hstr, ← hm.2, List.take_length] at h1
            exact h1.symm
          refine ⟨le_refl _, ?_, ?_⟩
          · simpa using heq
          · rw [heq] at hlen
            omega
        · simp only [if_neg hm] at h
          rw [Exec.assert_bind (by omega : (cString rest).length + 1 ≤ rest.length)] at h
          have hrest : rest.drop ((cString rest).length + 1) = [] ∨
              (rest.drop ((cString rest).length + 1)).getLast? = some 0 := by
            by_cases hd : (cString rest).length + 1 < rest.length
            · exact Or.inr (getLast_drop hd hl)
            · exact Or.inl (List.drop_of_length_le (by omega))
          obtain ⟨hle, hc, hb⟩ := ih _ _ hrest h
          refine ⟨by omega, ?_, ?_⟩
          · rw [List.drop_drop] at hc
            rw [← hc]
            congr 2
            omega
          · rw [List.length_drop] at hb
            omega

theorem at_of_getOffset {d : Dictionary} {str : Bytes} {o : Nat} (hd : d.Terminated)
    (hstr : 0 ∉ str) (h : d.getOffset str = .ok (some o)) : d.At str o := by
  obtain ⟨-, hc, hb⟩ := getOffsetLoop_at hstr _ _ _ _ hd h
  simp only [Nat.sub_zero] at hc hb
  exact ⟨hc, hb⟩

theorem At.zero_mem {d : Dictionary} {str : Bytes} {o : Nat} (h : d.At str o) :
    0 ∈ d.dict.drop o := by
  obtain ⟨hc, hb⟩ := h
  by_contra hne
  have hself := cString_eq_self hne
  rw [hself] at hc
  have := congrArg List.length hc
  rw [List.length_drop] at this
  omega

theorem At.append {d d' : Dictionary} {str : Bytes} {o : Nat} (h : d.At str o)
    (hext : d.dict <+: d'.dict) : d'.At str o := by
  have hmem := h.zero_mem
  obtain ⟨more, hmore⟩ := hext
  obtain ⟨hc, hb⟩ := h
  refine ⟨?_, ?_⟩
  · rw [← hmore, List.drop_append_of_le_length (by omega), cString_append_of_mem hmem, hc]
  · rw [← hmore, List.length_append]
    omega

/-! ## Adding strings -/

def Has (d : Dictionary) (str : Bytes) : Prop := ∃ o, d.getOffset str = .ok (some o)

/-- A dictionary as a sender builds it: its strings are terminated and lie in the allocation. -/
structure Sound (d : Dictionary) : Prop where
  terminated : d.Terminated
  sized : d.dict.length ≤ d.dictLength.toNat

theorem sound_empty : Sound empty := ⟨Or.inl rfl, le_refl _⟩

private theorem getOffsetLoop_step {str rest : Bytes} (fuel offset : Nat) (hne : rest ≠ [])
    (hl : rest.getLast? = some 0) :
    getOffsetLoop str (fuel + 1) rest offset =
      if (cString str).take (cString rest).length = cString rest ∧
          str.length = (cString rest).length then .ok (some offset)
      else getOffsetLoop str fuel (rest.drop ((cString rest).length + 1))
        (offset + (cString rest).length + 1) := by
  have hlen := cString_length_lt (zero_mem_of_getLast hl)
  rw [getOffsetLoop, if_neg hne]
  simp only
  split
  · rfl
  · rw [Exec.assert_bind (by omega : (cString rest).length + 1 ≤ rest.length)]

private theorem terminated_drop {rest : Bytes} (n : Nat)
    (hlast : rest = [] ∨ rest.getLast? = some 0) :
    rest.drop n = [] ∨ (rest.drop n).getLast? = some 0 := by
  by_cases hd : n < rest.length
  · rcases hlast with rfl | hl
    · simp at hd
    · exact Or.inr (getLast_drop hd hl)
  · exact Or.inl (List.drop_of_length_le (by omega))

private theorem getOffsetLoop_append {str : Bytes} (fuel : Nat) (rest more : Bytes)
    (offset o fuel' : Nat) (hlast : rest = [] ∨ rest.getLast? = some 0) (hfuel : fuel ≤ fuel')
    (hmore : more = [] ∨ more.getLast? = some 0)
    (h : getOffsetLoop str fuel rest offset = .ok (some o)) :
    getOffsetLoop str fuel' (rest ++ more) offset = .ok (some o) := by
  induction fuel generalizing rest offset fuel' with
  | zero => cases h
  | succ fuel ih =>
      obtain ⟨fuel', rfl⟩ : ∃ k, fuel' = k + 1 := ⟨fuel' - 1, by omega⟩
      by_cases hnil : rest = []
      · rw [getOffsetLoop, if_pos hnil] at h
        cases h
      · have hl : rest.getLast? = some 0 := hlast.resolve_left hnil
        have hzero := zero_mem_of_getLast hl
        have hlen := cString_length_lt hzero
        have hl' : (rest ++ more).getLast? = some 0 := by
          rcases hmore with rfl | hm
          · rwa [List.append_nil]
          · rw [List.getLast?_append, hm]
            rfl
        rw [getOffsetLoop_step _ _ hnil hl] at h
        rw [getOffsetLoop_step _ _ (by simp [hnil]) hl', cString_append_of_mem hzero]
        split at h
        · rename_i hm
          rw [if_pos hm]
          exact h
        · rename_i hm
          rw [if_neg hm, List.drop_append_of_le_length (by omega)]
          exact ih _ _ _ (terminated_drop _ hlast) (by omega) h

private theorem getOffsetLoop_added {str : Bytes} (hstr : 0 ∉ str) (fuel : Nat) (rest : Bytes)
    (offset fuel' : Nat) (hlast : rest = [] ∨ rest.getLast? = some 0) (hfuel : rest.length ≤ fuel)
    (hfuel' : rest.length < fuel') (h : getOffsetLoop str fuel rest offset = .ok none) :
    getOffsetLoop str fuel' (rest ++ (str ++ [0])) offset = .ok (some (offset + rest.length)) := by
  have hend : (str ++ [0]).getLast? = some (0 : UInt8) := by simp
  have hself : cString (str ++ [0]) = str := by
    rw [cString, List.takeWhile_append_of_pos]
    · simp
    · intro b hb
      have hne : b ≠ 0 := fun h0 => hstr (h0 ▸ hb)
      simpa using hne
  have hfirst : ∀ k off, getOffsetLoop str (k + 1) (str ++ [0]) off = .ok (some off) := by
    intro k off
    rw [getOffsetLoop_step _ _ (by simp) hend, hself, cString_eq_self hstr, if_pos (by simp)]
  obtain ⟨fuel', rfl⟩ : ∃ k, fuel' = k + 1 := ⟨fuel' - 1, by omega⟩
  induction fuel generalizing rest offset fuel' with
  | zero =>
      have hnil : rest = [] := List.length_eq_zero_iff.mp (by omega)
      rw [hnil]
      exact hfirst _ _
  | succ fuel ih =>
      by_cases hnil : rest = []
      · rw [hnil]
        exact hfirst _ _
      · have hl : rest.getLast? = some 0 := hlast.resolve_left hnil
        have hzero := zero_mem_of_getLast hl
        have hlen := cString_length_lt hzero
        have hl' : (rest ++ (str ++ [0])).getLast? = some 0 := by
          rw [List.getLast?_append, hend]
          rfl
        rw [getOffsetLoop_step _ _ hnil hl] at h
        rw [getOffsetLoop_step _ _ (by simp [hnil]) hl', cString_append_of_mem hzero]
        split at h
        · cases h
        · rename_i hm
          obtain ⟨fuel', rfl⟩ : ∃ k, fuel' = k + 1 := ⟨fuel' - 1, by omega⟩
          rw [if_neg hm, List.drop_append_of_le_length (by omega)]
          have hrec := ih _ (offset + (cString rest).length + 1) (terminated_drop _ hlast)
            (by rw [List.length_drop]; omega) h fuel' (by rw [List.length_drop]; omega)
          rw [hrec, List.length_drop]
          congr 2
          omega

private theorem growLoop_le {fuel : Nat} {dictLength n : UInt32} {needed : Nat}
    (h : growLoop fuel dictLength needed = .ok n) : needed ≤ n.toNat := by
  induction fuel generalizing dictLength with
  | zero => cases h
  | succ fuel ih =>
      rw [growLoop] at h
      generalize (if dictLength = 0 then (64 : UInt32) else dictLength * 2) = next at h
      by_cases hlt : next.toNat < needed
      · simp only [if_pos hlt] at h
        exact ih h
      · simp only [if_neg hlt, pure, Except.pure, Except.ok.injEq] at h
        rw [← h]
        omega

/-- Adding a string: the dictionary grows at its end, and the string is found afterwards. -/
theorem addStr_spec {d d' : Dictionary} {str : Bytes} (hd : d.Sound) (hstr : 0 ∉ str)
    (h : d.addStr str = .ok d') :
    d'.Sound ∧ d.dict <+: d'.dict ∧ d'.Has str ∧ ∀ s, d.Has s → d'.Has s := by
  rw [addStr] at h
  obtain ⟨found, hfound, h⟩ := Exec.bind_eq_ok.mp h
  cases found with
  | some o =>
      have heq : d = d' := by simpa [pure, Except.pure] using h
      subst heq
      exact ⟨hd, List.prefix_refl _, ⟨o, hfound⟩, fun s hs => hs⟩
  | none =>
      obtain ⟨n, hsize, heq⟩ : ∃ n : UInt32, d.dict.length + str.length + 1 ≤ n.toNat ∧
          (⟨d.dict ++ str ++ [0], n⟩ : Dictionary) = d' := by
        simp only at h
        split at h
        · obtain ⟨n, hn, h⟩ := Exec.bind_eq_ok.mp h
          exact ⟨n, growLoop_le hn, by simpa [pure, Except.pure] using h⟩
        · exact ⟨d.dictLength, by omega, by simpa [pure, Except.pure] using h⟩
      subst heq
      have hassoc : d.dict ++ str ++ [0] = d.dict ++ (str ++ [0]) := List.append_assoc ..
      refine ⟨⟨Or.inr (by simp), ?_⟩, ?_, ?_, ?_⟩
      · simp only [List.length_append, List.length_singleton]
        exact hsize
      · rw [hassoc]
        exact List.prefix_append _ _
      · refine ⟨0 + d.dict.length, ?_⟩
        rw [getOffset, hassoc]
        exact getOffsetLoop_added hstr _ _ _ _ hd.terminated (le_refl _)
          (by rw [List.length_append, List.length_append, List.length_singleton]; omega) hfound
      · rintro s ⟨o, ho⟩
        refine ⟨o, ?_⟩
        rw [getOffset, hassoc]
        exact getOffsetLoop_append _ _ _ _ _ _ hd.terminated (by rw [List.length_append]; omega)
          (Or.inr (by simp)) ho

/-- The strings of an endpoint id are NUL-free and not empty. -/
structure WellNamed (eid : EndpointID) : Prop where
  scheme_ne : eid.schemeStr ≠ []
  ssp_ne : eid.ssp ≠ []
  scheme_nul : 0 ∉ eid.schemeStr
  ssp_nul : 0 ∉ eid.ssp

theorem addEid_spec {d d' : Dictionary} {eid : EndpointID} (hd : d.Sound) (hname : WellNamed eid)
    (h : d.addEid eid = .ok d') :
    d'.Sound ∧ d.dict <+: d'.dict ∧ (d'.Has eid.schemeStr ∧ d'.Has eid.ssp) ∧
      ∀ s, d.Has s → d'.Has s := by
  obtain ⟨mid, hmid, h⟩ := Exec.bind_eq_ok.mp h
  obtain ⟨hsound, hpre, hscheme, hkeep⟩ := addStr_spec hd hname.scheme_nul hmid
  obtain ⟨hsound', hpre', hssp, hkeep'⟩ := addStr_spec hsound hname.ssp_nul h
  exact ⟨hsound', hpre.trans hpre', ⟨hkeep' _ hscheme, hssp⟩, fun s hs => hkeep' s (hkeep s hs)⟩

theorem getOffsets_spec {d : Dictionary} {eid : EndpointID} {s t : Nat} (hd : d.Sound)
    (hname : WellNamed eid) (h : d.getOffsets eid = .ok (some (s, t))) :
    d.At eid.schemeStr s ∧ d.At eid.ssp t := by
  obtain ⟨found, hs, h⟩ := Exec.bind_eq_ok.mp h
  cases found with
  | none => cases h
  | some s' =>
      obtain ⟨found, ht, h⟩ := Exec.bind_eq_ok.mp h
      cases found with
      | none => cases h
      | some t' =>
          have heq : s' = s ∧ t' = t := by simpa [pure, Except.pure] using h
          obtain ⟨rfl, rfl⟩ := heq
          exact ⟨at_of_getOffset hd.terminated hname.scheme_nul hs,
            at_of_getOffset hd.terminated hname.ssp_nul ht⟩

theorem extractEid32_of_at (os : Oasys) {d : Dictionary} {eid e : EndpointID} {s t : Nat}
    (hlen : d.dictLength.toNat = d.dict.length) (hname : WellNamed e)
    (hs : d.At e.schemeStr s) (ht : d.At e.ssp t) :
    d.extractEid32 os eid (UInt32.ofNat s) (UInt32.ofNat t) =
      ((os.assign (e.schemeStr ++ EndpointID.colon :: e.ssp)).valid,
        os.assign (e.schemeStr ++ EndpointID.colon :: e.ssp)) := by
  have hsp : 0 < e.schemeStr.length := List.length_pos_of_ne_nil hname.scheme_ne
  have htp : 0 < e.ssp.length := List.length_pos_of_ne_nil hname.ssp_ne
  have hsb := hs.2
  have htb := ht.2
  have hlt := d.dictLength.toNat_lt
  have hs32 : (UInt32.ofNat s).toNat = s := by
    rw [UInt32.toNat_ofNat', Nat.mod_eq_of_lt (by omega)]
  have ht32 : (UInt32.ofNat t).toNat = t := by
    rw [UInt32.toNat_ofNat', Nat.mod_eq_of_lt (by omega)]
  have hsub : (d.dictLength - 1).toNat = d.dict.length - 1 := by
    rw [UInt32.toNat_sub_of_le _ _ (by rw [UInt32.le_iff_toNat_le]; simp; omega), hlen]
    rfl
  have hne : ¬ d.dictLength = 0 := by
    intro h0
    rw [h0] at hlen
    simp at hlen
    omega
  have h1 : ¬ UInt32.ofNat s ≥ d.dictLength - 1 := by
    rw [ge_iff_le, UInt32.le_iff_toNat_le, hsub, hs32]
    omega
  have h2 : ¬ UInt32.ofNat t ≥ d.dictLength - 1 := by
    rw [ge_iff_le, UInt32.le_iff_toNat_le, hsub, ht32]
    omega
  simp only [extractEid32, if_neg hne, if_neg h1, if_neg h2, hs32, ht32, hs.1, ht.1]

end Dictionary

end Dtn2
