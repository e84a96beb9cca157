import Dtn2.Bundling.DictionaryTable
import Dtn2.Bundling.GenerateSpec

/-!
# Looking up what was added

After any sequence of `add_eid` calls the endpoint ids added so far are found, at offsets that later
calls leave alone, and a fresh dictionary that is given the buffer extracts them again. The bounds
of `extract_eid` are weaker than the length of the dictionary: a 64-bit offset is cut to 32 bits
first, and the result is compared with the size of the allocation.
-/

namespace Dtn2

open Framework

namespace Dictionary

/-! ## Extracting from the allocation -/

/-- A dictionary with its whole allocation: behind the filled-in portion stands what `malloc` and
`realloc` have left there. -/
structure Allocated where
  dictionary : Dictionary
  spare : Bytes
  fills : dictionary.dict.length + spare.length = dictionary.dictLength.toNat

namespace Allocated

/-- `length()`, the length of the filled-in portion. -/
def length (a : Allocated) : Nat := a.dictionary.dict.length

def memory (a : Allocated) : Bytes := a.dictionary.dict ++ a.spare

/-- `extract_eid` with 32-bit offsets. A string without a NUL is read past the allocation. -/
def extractEid32 (os : Oasys) (a : Allocated) (eid : EndpointID)
    (schemeOffset sspOffset : UInt32) : Exec (Bool × EndpointID) :=
  let dictLength := a.dictionary.dictLength
  if dictLength = 0 then pure (false, eid)
  else if schemeOffset ≥ dictLength - 1 then pure (false, eid)
  else if sspOffset ≥ dictLength - 1 then pure (false, eid)
  else if 0 ∈ a.memory.drop schemeOffset.toNat ∧ 0 ∈ a.memory.drop sspOffset.toNat then
    let eid := os.assign (cString (a.memory.drop schemeOffset.toNat) ++
      EndpointID.colon :: cString (a.memory.drop sspOffset.toNat))
    pure (eid.valid, eid)
  else .error (.fault .outOfBounds)

/-- `extract_eid` with 64-bit offsets, which are cut to 32 bits. -/
def extractEid (os : Oasys) (a : Allocated) (eid : EndpointID)
    (schemeOffset sspOffset : UInt64) : Exec (Bool × EndpointID) :=
  a.extractEid32 os eid schemeOffset.toUInt32 sspOffset.toUInt32

/-- Where both strings end inside, the allocation is read as if all of it were filled in. -/
theorem extractEid32_eq (os : Oasys) (a : Allocated) (eid : EndpointID) {s t : UInt32}
    (hs : 0 ∈ a.memory.drop s.toNat) (ht : 0 ∈ a.memory.drop t.toNat) :
    a.extractEid32 os eid s t =
      .ok ((⟨a.memory, a.dictionary.dictLength⟩ : Dictionary).extractEid32 os eid s t) := by
  simp only [extractEid32, Dictionary.extractEid32, hs, ht, and_self, if_true]
  split_ifs <;> rfl

/-- The bound on an offset: it is in front of the last byte of the allocation. -/
def InBounds (a : Allocated) (offset : UInt32) : Prop :=
  offset.toNat + 1 < a.dictionary.dictLength.toNat

instance (a : Allocated) (offset : UInt32) : Decidable (a.InBounds offset) :=
  inferInstanceAs (Decidable (_ < _))

/-- The two strings form a valid endpoint id, or one of them does not end in the allocation. -/
def Yields (os : Oasys) (a : Allocated) (s t : UInt32) : Prop :=
  0 ∈ a.memory.drop s.toNat → 0 ∈ a.memory.drop t.toNat →
    (os.assign (cString (a.memory.drop s.toNat) ++
      EndpointID.colon :: cString (a.memory.drop t.toNat))).valid = true

theorem inBounds_iff (a : Allocated) (offset : UInt32) :
    a.InBounds offset ↔ a.dictionary.dictLength ≠ 0 ∧ ¬ offset ≥ a.dictionary.dictLength - 1 := by
  by_cases hzero : a.dictionary.dictLength = 0
  · simp [InBounds, hzero]
  · have hpos : 1 ≤ a.dictionary.dictLength.toNat := by
      by_contra hlt
      exact hzero (UInt32.toNat_inj.mp (by simpa using hlt))
    have hsub : (a.dictionary.dictLength - 1).toNat = a.dictionary.dictLength.toNat - 1 :=
      UInt32.toNat_sub_of_le _ _ (UInt32.le_iff_toNat_le.mpr hpos)
    rw [InBounds, ge_iff_le, UInt32.le_iff_toNat_le, hsub]
    constructor
    · intro hlt
      exact ⟨hzero, by omega⟩
    · rintro ⟨-, hlt⟩
      omega

/-- `extract_eid` returns false unless both offsets are in bounds and their strings yield
something. -/
theorem extractEid32_false_iff (os : Oasys) (a : Allocated) (eid : EndpointID) (s t : UInt32) :
    (∃ eid', a.extractEid32 os eid s t = .ok (false, eid')) ↔
      ¬ (a.InBounds s ∧ a.InBounds t ∧ a.Yields os s t) := by
  rw [inBounds_iff, inBounds_iff]
  by_cases hzero : a.dictionary.dictLength = 0
  · simp [extractEid32, hzero, pure, Except.pure]
  by_cases hs : s ≥ a.dictionary.dictLength - 1
  · simp [extractEid32, hs, pure, Except.pure]
  by_cases ht : t ≥ a.dictionary.dictLength - 1
  · simp [extractEid32, hzero, ht, pure, Except.pure]
  by_cases hends : 0 ∈ a.memory.drop s.toNat ∧ 0 ∈ a.memory.drop t.toNat
  · simp [extractEid32, hzero, hs, ht, hends, Yields, pure, Except.pure]
  · have hyields : a.Yields os s t := fun h h' => absurd ⟨h, h'⟩ hends
    have hfault : a.extractEid32 os eid s t = .error (.fault .outOfBounds) := by
      simp only [extractEid32, if_neg hzero, if_neg hs, if_neg ht, if_neg hends]
    simp [hfault, hzero, hs, ht, hyields]

theorem extractEid32_of_at (os : Oasys) {a : Allocated} (eid : EndpointID) {e : EndpointID}
    {s t : Nat} (hspare : a.spare = []) (hform : Wellformed os e)
    (hs : a.dictionary.At e.schemeStr s) (ht : a.dictionary.At e.ssp t) :
    a.extractEid32 os eid (UInt32.ofNat s) (UInt32.ofNat t) = .ok (e.valid, e) := by
  have hmemory : a.memory = a.dictionary.dict := by rw [memory, hspare, List.append_nil]
  have hfills : a.dictionary.dictLength.toNat = a.dictionary.dict.length := by
    rw [← a.fills, hspare]
    rfl
  have hterminated : ∀ {str : Bytes} {o : Nat}, a.dictionary.At str o →
      0 ∈ a.memory.drop (UInt32.ofNat o).toNat := by
    intro str o hat
    have hlt := a.dictionary.dictLength.toNat_lt
    have hbound := hat.2
    rw [hmemory, UInt32.toNat_ofNat', Nat.mod_eq_of_lt (by omega)]
    exact hat.zero_mem
  rw [extractEid32_eq os a eid (hterminated hs) (hterminated ht), hmemory,
    Dictionary.extractEid32_of_at os hfills hform.named hs ht, hform.assign_eq]

end Allocated

/-! ## Lookups after a sequence of insertions -/

/-- The strings of the endpoint ids in the order in which `add_eid` adds them. -/
def strings (eids : List EndpointID) : List Bytes := eids.flatMap fun e => [e.schemeStr, e.ssp]

/-- `add_eid` for one endpoint id after the other. -/
def addEids (d : Dictionary) (eids : List EndpointID) : Exec Dictionary := eids.foldlM addEid d

theorem addEids_eq (d : Dictionary) (eids : List EndpointID) :
    d.addEids eids = (strings eids).foldlM addStr d := by
  induction eids generalizing d with
  | nil => rfl
  | cons e eids ih =>
      have hcons : strings (e :: eids) = e.schemeStr :: e.ssp :: strings eids := rfl
      rw [addEids, List.foldlM_cons, addEid, hcons, List.foldlM_cons, bind_assoc]
      congr 1
      funext mid
      rw [List.foldlM_cons]
      congr 1
      funext next
      exact ih next

/-- What is asked of a dictionary to which some endpoint ids have been added. The two overloads of
`get_offset` agree and find no two strings at one offset. They find every endpoint id, and a fresh
dictionary that has been given the buffer hands it out again and says whether it is valid. -/
structure Inverts (os : Oasys) (d : Dictionary) (eids : List EndpointID) : Prop where
  agree : ∀ str, d.getOffset64 str = (·.map UInt32.toUInt64) <$> d.getOffset32 str
  distinct : ∀ str str' o, d.getOffset32 str = .ok (some o) → d.getOffset32 str' = .ok (some o) →
    str = str'
  found : ∀ e ∈ eids, ∃ s t : UInt32, d.getOffsets32 e = .ok (some (s, t)) ∧
    d.getOffsets64 e = .ok (some (s.toUInt64, t.toUInt64)) ∧
    ∃ fresh : Allocated, empty.setDict d.dict = .ok fresh.dictionary ∧ ∀ eid,
      fresh.extractEid32 os eid s t = .ok (e.valid, e) ∧
      fresh.extractEid os eid s.toUInt64 t.toUInt64 = .ok (e.valid, e)

/-- At every point of a sequence of calls, all of which return, the endpoint ids added so far can be
looked up, and no offset changes afterwards. -/
def LooksUp (os : Oasys) (eids : List EndpointID) : Prop :=
  ∀ before after, eids = before ++ after →
    ∃ d d', empty.addEids before = .ok d ∧ d.addEids after = .ok d' ∧ Inverts os d before ∧
      ∀ str o, d.getOffset32 str = .ok (some o) →
        d'.getOffset32 str = .ok (some o) ∧ d'.getOffset64 str = .ok (some o.toUInt64)

/-- An offset at or beyond the length of the dictionary is refused. -/
def Rejects (os : Oasys) (a : Allocated) (s t : UInt64) : Prop :=
  a.length ≤ s.toNat ∨ a.length ≤ t.toNat →
    ∀ eid, ∃ eid', a.extractEid os eid s t = .ok (false, eid')

/-- The size of the table of all the strings, each stored once. -/
def tableSize (eids : List EndpointID) : Nat :=
  (StringTable.encode 0 (StringTable.internAll [] (strings eids))).length

/-- One of the offsets is outside of the dictionary, and cut to 32 bits they are in the allocation
and yield an endpoint id. -/
def Strays (os : Oasys) (a : Allocated) (s t : UInt64) : Prop :=
  (a.length ≤ s.toNat ∨ a.length ≤ t.toNat) ∧
    a.InBounds s.toUInt32 ∧ a.InBounds t.toUInt32 ∧ a.Yields os s.toUInt32 t.toUInt32

section Holds

variable {d : Dictionary} {strs : List Bytes} {str : Bytes}

theorem Holds.offset_lt (h : Holds d strs) {o : Nat} (ho : StringTable.offset str strs = some o) :
    o < 2 ^ 32 := by
  have hlen := h.length_le
  have hbound := (h.at_offset ho).2
  omega

theorem Holds.getOffset32_eq_some (h : Holds d strs) {o : UInt32} :
    d.getOffset32 str = .ok (some o) ↔ StringTable.offset str strs = some o.toNat := by
  rw [h.getOffset32, Except.ok.injEq, Option.map_eq_some_iff]
  constructor
  · rintro ⟨n, hn, rfl⟩
    rw [hn, UInt32.toNat_ofNat', Nat.mod_eq_of_lt (h.offset_lt hn)]
  · intro ho
    exact ⟨o.toNat, ho, UInt32.ofNat_toNat⟩

theorem Holds.agree (h : Holds d strs) (str : Bytes) :
    d.getOffset64 str = (·.map UInt32.toUInt64) <$> d.getOffset32 str := by
  rw [h.getOffset64, h.getOffset32]
  change _ = Except.ok _
  cases ho : StringTable.offset str strs with
  | none => rfl
  | some o =>
      have hlt := h.offset_lt ho
      have hwide : UInt64.ofNat o = (UInt32.ofNat o).toUInt64 := by
        apply UInt64.toNat_inj.mp
        rw [UInt32.toNat_toUInt64, UInt64.toNat_ofNat', UInt32.toNat_ofNat']
        omega
      simp [hwide]

theorem Holds.offset_of_mem (h : Holds d strs) (hmem : str ∈ strs) :
    ∃ o : UInt32, d.getOffset32 str = .ok (some o) ∧ d.getOffset64 str = .ok (some o.toUInt64) ∧
      d.At str o.toNat := by
  obtain ⟨n, hn⟩ := StringTable.exists_offset hmem
  have hcut : (UInt32.ofNat n).toNat = n := by
    rw [UInt32.toNat_ofNat', Nat.mod_eq_of_lt (h.offset_lt hn)]
  have hfound : d.getOffset32 str = .ok (some (UInt32.ofNat n)) :=
    h.getOffset32_eq_some.mpr (hn.trans (congrArg some hcut.symm))
  refine ⟨UInt32.ofNat n, hfound, ?_, hcut.symm ▸ h.at_offset hn⟩
  rw [h.agree, hfound]
  rfl

theorem Holds.exists_fresh (h : Holds d strs) : ∃ fresh : Allocated,
    empty.setDict d.dict = .ok fresh.dictionary ∧ fresh.dictionary.dict = d.dict ∧
      fresh.spare = [] := by
  have hlen := h.length_le
  have hfills : d.dict.length + ([] : Bytes).length = (UInt32.ofNat d.dict.length).toNat := by
    rw [UInt32.toNat_ofNat', Nat.mod_eq_of_lt (by omega)]
    rfl
  exact ⟨⟨⟨d.dict, UInt32.ofNat d.dict.length⟩, [], hfills⟩, rfl, rfl, rfl⟩

theorem Holds.inverts (h : Holds d strs) {os : Oasys} {eids : List EndpointID}
    (hforms : ∀ e ∈ eids, Wellformed os e)
    (hmem : ∀ e ∈ eids, e.schemeStr ∈ strs ∧ e.ssp ∈ strs) : Inverts os d eids where
  agree := h.agree
  distinct str str' o hstr hstr' := StringTable.offset_inj (h.getOffset32_eq_some.mp hstr)
    (h.getOffset32_eq_some.mp hstr')
  found := by
    intro e he
    obtain ⟨s, hs, hs64, hats⟩ := h.offset_of_mem (hmem e he).1
    obtain ⟨t, ht, ht64, hatt⟩ := h.offset_of_mem (hmem e he).2
    obtain ⟨fresh, hset, hbytes, hspare⟩ := h.exists_fresh
    have hats' : fresh.dictionary.At e.schemeStr s.toNat := by rwa [At, hbytes]
    have hatt' : fresh.dictionary.At e.ssp t.toNat := by rwa [At, hbytes]
    have hextract : ∀ eid, fresh.extractEid32 os eid s t = .ok (e.valid, e) := by
      intro eid
      have hat := Allocated.extractEid32_of_at os eid hspare (hforms e he) hats' hatt'
      rwa [UInt32.ofNat_toNat, UInt32.ofNat_toNat] at hat
    refine ⟨s, t, offsetPair_of_found hs ht, offsetPair_of_found hs64 ht64, fresh, hset, ?_⟩
    intro eid
    refine ⟨hextract eid, ?_⟩
    rw [Allocated.extractEid, UInt32.toUInt32_toUInt64, UInt32.toUInt32_toUInt64]
    exact hextract eid

theorem Holds.unmoved (h : Holds d strs) {d' : Dictionary} {strs' : List Bytes}
    (h' : Holds d' strs') (hpre : strs <+: strs') {o : UInt32}
    (ho : d.getOffset32 str = .ok (some o)) :
    d'.getOffset32 str = .ok (some o) ∧ d'.getOffset64 str = .ok (some o.toUInt64) := by
  rw [h.getOffset32_eq_some] at ho
  have hmem := StringTable.mem_of_offset ho
  have hsame : d'.getOffset32 str = .ok (some o) :=
    h'.getOffset32_eq_some.mpr ((StringTable.offset_of_prefix hpre hmem).trans ho)
  refine ⟨hsame, ?_⟩
  rw [h'.agree, hsame]
  rfl

end Holds

theorem strings_append (eids more : List EndpointID) :
    strings (eids ++ more) = strings eids ++ strings more := List.flatMap_append

theorem mem_strings {eids : List EndpointID} {e : EndpointID} (he : e ∈ eids) :
    e.schemeStr ∈ strings eids ∧ e.ssp ∈ strings eids :=
  ⟨List.mem_flatMap.mpr ⟨e, he, by simp⟩, List.mem_flatMap.mpr ⟨e, he, by simp⟩⟩

theorem free_strings {os : Oasys} {eids : List EndpointID} (h : ∀ e ∈ eids, Wellformed os e) :
    ∀ s ∈ strings eids, 0 ∉ s := by
  intro s hs
  obtain ⟨e, he, hse⟩ := List.mem_flatMap.mp hs
  rcases List.mem_pair.mp hse with rfl | rfl
  · exact (h e he).named.scheme_nul
  · exact (h e he).named.ssp_nul

/-- Insertions are inverted throughout a run exactly if its strings fit into `2 ^ 31` bytes. -/
theorem looksUp_iff {os : Oasys} {eids : List EndpointID} (hforms : ∀ e ∈ eids, Wellformed os e) :
    LooksUp os eids ↔ tableSize eids ≤ 2 ^ 31 := by
  constructor
  · intro h
    obtain ⟨d, _, hrun, -⟩ := h eids [] (List.append_nil _).symm
    rw [addEids_eq] at hrun
    have hholds := holds_empty.of_run (free_strings hforms) hrun
    rw [tableSize, ← hholds.bytes]
    exact hholds.length_le
  · intro hsize before after heq
    subst heq
    rw [tableSize, strings_append, StringTable.internAll_append] at hsize
    have hbefore := fun e he => hforms e (List.mem_append_left _ he)
    have hafter := fun e he => hforms e (List.mem_append_right _ he)
    have hpre := StringTable.prefix_internAll (StringTable.internAll [] (strings before))
      (strings after)
    obtain ⟨d, hd, hholds⟩ := holds_empty.run_of_le (free_strings hbefore)
      ((StringTable.encode_prefix 0 hpre).length_le.trans hsize)
    obtain ⟨d', hd', hholds'⟩ := hholds.run_of_le (free_strings hafter) hsize
    refine ⟨d, d', (addEids_eq ..).trans hd, (addEids_eq ..).trans hd',
      hholds.inverts hbefore ?_, fun str o ho => hholds.unmoved hholds' hpre ho⟩
    intro e he
    have hmem := mem_strings he
    exact ⟨StringTable.mem_internAll.mpr (Or.inr hmem.1),
      StringTable.mem_internAll.mpr (Or.inr hmem.2)⟩

theorem rejects_iff (os : Oasys) (a : Allocated) (s t : UInt64) :
    Rejects os a s t ↔ ¬ Strays os a s t := by
  simp only [Rejects, Allocated.extractEid, Allocated.extractEid32_false_iff, Strays]
  constructor
  · rintro h ⟨hout, hin⟩
    exact h hout .default hin
  · intro h hout _ hin
    exact h ⟨hout, hin⟩

/-- Insertions are inverted and offsets outside refused exactly if the strings fit into `2 ^ 31`
bytes and the offsets do not stray back into the allocation. -/
theorem lookup_inverse_iff (os : Oasys) (eids : List EndpointID)
    (hforms : ∀ e ∈ eids, Wellformed os e) (a : Allocated) (s t : UInt64) :
    LooksUp os eids ∧ Rejects os a s t ↔ tableSize eids ≤ 2 ^ 31 ∧ ¬ Strays os a s t := by
  rw [looksUp_iff hforms, rejects_iff]

def noneEid : EndpointID := ⟨EndpointID.dtnNone, true⟩

/-- The strings of `dtn:none`. -/
def noneTable : Bytes :=
  ascii ['d', 't', 'n'] ++ 0 :: (ascii ['n', 'o', 'n', 'e'] ++ [0])

theorem noneReceived_fills : noneTable.length + ([] : Bytes).length = (UInt32.ofNat 9).toNat := rfl

def noneReceived : Allocated := ⟨⟨noneTable, UInt32.ofNat 9⟩, [], noneReceived_fills⟩

/-- `realloc` has left a copy of the strings behind them. -/
def noneSpare : Bytes := noneTable ++ List.replicate 46 0

theorem noneAdded_fills : noneTable.length + noneSpare.length = (UInt32.ofNat 64).toNat := rfl

/-- As the sender has it, after `add_eid`. -/
def noneAdded : Allocated := ⟨⟨noneTable, UInt32.ofNat 64⟩, noneSpare, noneAdded_fills⟩

theorem lookup_inverse_iff_sample :
    (∀ e ∈ [noneEid], Wellformed .plain e) ∧
    (LooksUp .plain [noneEid] ∧ Rejects .plain noneReceived 9 0 ↔
      tableSize [noneEid] ≤ 2 ^ 31 ∧ ¬ Strays .plain noneReceived 9 0) := by
  have hform : ∀ e ∈ [noneEid], Wellformed .plain e := by
    intro e he
    rw [List.mem_singleton.mp he]
    exact ⟨⟨by decide, by decide, by decide, by decide⟩, by decide⟩
  exact ⟨hform, lookup_inverse_iff .plain [noneEid] hform noneReceived 9 0⟩

/-- The offsets `2 ^ 32` and `2 ^ 32 + 4` are those of `dtn:none` to the receiver, and the sender
extracts it behind the end of its dictionary. -/
theorem not_lookup_inverse :
    (empty.addEids [noneEid] = .ok noneAdded.dictionary ∧
      ¬ (LooksUp .plain [noneEid] ∧ Rejects .plain noneAdded 9 13)) ∧
    (empty.setDict noneAdded.dictionary.dict = .ok noneReceived.dictionary ∧
      ¬ (LooksUp .plain [noneEid] ∧
        Rejects .plain noneReceived 4294967296 4294967300)) := by
  refine ⟨⟨rfl, ?_⟩, rfl, ?_⟩
  · rintro ⟨-, h⟩
    obtain ⟨eid', hfalse⟩ := h (by decide) .default
    have htrue : noneAdded.extractEid .plain .default 9 13 = .ok (true, noneEid) := by decide
    rw [htrue] at hfalse
    cases hfalse
  · rintro ⟨-, h⟩
    obtain ⟨eid', hfalse⟩ := h (by decide) .default
    have htrue : noneReceived.extractEid .plain .default 4294967296 4294967300 =
        .ok (true, noneEid) := by decide
    rw [htrue] at hfalse
    cases hfalse

end Dictionary

end Dtn2
