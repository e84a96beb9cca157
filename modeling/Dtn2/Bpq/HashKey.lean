import Dtn2.Bpq.ValidateAgreement

/-!
# Cache keys and the match of queries

The cache files a response under the matching rule and the query of its block, and a query is
answered by the response whose block it matches. The key appends both as C strings, the address of
the single character of the rule among them; the match compares the queries by `strncmp`.
-/

namespace Dtn2

open Framework

/-! ## C strings in a buffer -/

/-- `std::string::append(const char*)` of a pointer to `mem`: the characters before the first NUL.
-/
def appendCString (s mem : Bytes) : Exec Bytes :=
  if 0 ∈ mem then .ok (s ++ cString mem) else .error (.fault .outOfBounds)

theorem appendCString_eq_ok {s mem out : Bytes} :
    appendCString s mem = .ok out ↔ 0 ∈ mem ∧ s ++ cString mem = out := by
  rw [appendCString]
  by_cases h : 0 ∈ mem
  · rw [if_pos h]
    simp [h]
  · rw [if_neg h]
    simp [h]

/-- Whether `strncmp` of two buffers and at most `n` characters is zero. It stops at a difference
and behind a NUL. -/
def strncmpZero : Nat → Bytes → Bytes → Exec Bool
  | 0, _, _ => .ok true
  | n + 1, a :: as, b :: bs =>
      if a ≠ b then .ok false
      else if a = 0 then .ok true
      else strncmpZero n as bs
  | _ + 1, _, _ => .error (.fault .outOfBounds)

theorem cString_zero (bs : Bytes) : cString (0 :: bs) = [] := rfl

theorem cString_cons {b : UInt8} (h : b ≠ 0) (bs : Bytes) : cString (b :: bs) = b :: cString bs := by
  simp [cString, h]

/-- Of two buffers of `n` characters `strncmp` reads no more and compares what is in front of the
first NUL. -/
theorem strncmpZero_eq {n : Nat} {as bs : Bytes} (ha : as.length = n) (hb : bs.length = n) :
    strncmpZero n as bs = .ok (decide (cString as = cString bs)) := by
  induction n generalizing as bs with
  | zero =>
      rw [List.length_eq_zero_iff.mp ha, List.length_eq_zero_iff.mp hb]
      rfl
  | succ n ih =>
      cases as with
      | nil => simp at ha
      | cons a as =>
          cases bs with
          | nil => simp at hb
          | cons b bs =>
              rw [List.length_cons, Nat.add_right_cancel_iff] at ha hb
              rw [strncmpZero]
              by_cases hab : a = b
              · rw [if_neg (not_not_intro hab)]
                by_cases hzero : a = 0
                · rw [if_pos hzero, ← hab, hzero, cString_zero, cString_zero]
                  rfl
                · have hzero' : b ≠ 0 := hab ▸ hzero
                  rw [if_neg hzero, ih ha hb, cString_cons hzero, cString_cons hzero']
                  simp [hab]
              · rw [if_pos hab]
                have hne : cString (a :: as) ≠ cString (b :: bs) := by
                  intro h
                  by_cases hzero : a = 0
                  · have hzero' : b ≠ 0 := fun h0 => hab (hzero.trans h0.symm)
                    rw [hzero, cString_zero, cString_cons hzero'] at h
                    cases h
                  · by_cases hzero' : b = 0
                    · rw [hzero', cString_zero, cString_cons hzero] at h
                      cases h
                    · rw [cString_cons hzero, cString_cons hzero'] at h
                      exact hab (List.cons.inj h).1
                simp [hne]

/-! ## The key and the match -/

/-- `BPQCache::get_hash_key(BPQBlock*, std::string*)`. The rule is a character on the stack. -/
def BPQCache.getHashKey (block : BPQBlock) : Exec Bytes := do
  let input ← appendCString [] [block.matchingRule]
  appendCString input block.query

namespace BPQBlock

def matchQuery (b other : BPQBlock) : Exec Bool :=
  if b.matchingRule ≠ other.matchingRule then .ok false
  else if b.queryLen ≠ other.queryLen then .ok false
  else strncmpZero b.queryLen.toNat b.query other.query

def SameQuery (b other : BPQBlock) : Prop :=
  b.matchingRule = other.matchingRule ∧ b.query = other.query

/-- Both keys are read from the two fields alone; they are equal exactly if the fields are, and the
blocks match exactly then. -/
def KeysAgree (b other : BPQBlock) : Prop :=
  ∃ key key' same, BPQCache.getHashKey b = .ok key ∧ BPQCache.getHashKey other = .ok key' ∧
    matchQuery b other = .ok same ∧
    (key = key' ↔ SameQuery b other) ∧ (same = true ↔ SameQuery b other)

/-- The rule is zero, which ends the string it is appended as, and the query has its own NUL. -/
def KeyEnds (b : BPQBlock) : Prop := b.matchingRule = 0 ∧ 0 ∈ b.query

theorem getHashKey_eq_ok {b : BPQBlock} {key : Bytes} :
    BPQCache.getHashKey b = .ok key ↔ KeyEnds b ∧ cString b.query = key := by
  rw [BPQCache.getHashKey, Exec.bind_eq_ok, KeyEnds]
  constructor
  · intro h
    obtain ⟨input, hrule, hquery⟩ := h
    rw [appendCString_eq_ok] at hrule hquery
    have hzero : b.matchingRule = 0 := (List.mem_singleton.mp hrule.1).symm
    rw [← hrule.2, hzero] at hquery
    exact ⟨⟨hzero, hquery.1⟩, hquery.2⟩
  · intro h
    refine ⟨[], ?_, ?_⟩
    · rw [appendCString_eq_ok, h.1.1]
      exact ⟨List.mem_singleton_self 0, rfl⟩
    · rw [appendCString_eq_ok]
      exact ⟨h.1.2, h.2⟩

theorem query_length_lt {os : Oasys} {buf : Bytes} {b : BPQBlock}
    (h : initialiseFromBuf os buf = .ok b) : b.query.length < uintMod := by
  rw [initialiseFromBuf] at h
  obtain ⟨kind, -, h⟩ := Exec.bind_eq_ok.mp h
  obtain ⟨rule, -, h⟩ := Exec.bind_eq_ok.mp h
  obtain ⟨creationTs, -, h⟩ := Exec.bind_eq_ok.mp h
  obtain ⟨source, -, h⟩ := Exec.bind_eq_ok.mp h
  obtain ⟨query, hquery, h⟩ := Exec.bind_eq_ok.mp h
  obtain ⟨fragments, -, h⟩ := Exec.bind_eq_ok.mp h
  obtain rfl := Except.ok.inj h
  dsimp only
  rw [extractQuery] at hquery
  obtain ⟨⟨len, k⟩, hlen, hquery⟩ := Exec.bind_eq_ok.mp hquery
  have hlt : len < uintMod := by
    rw [extractSdnv32] at hlen
    by_cases hi : source.2 < buf.length
    · rw [if_pos hi] at hlen
      cases hdecode : SDNV.decode32 (buf.drop source.2) with
      | none =>
          rw [hdecode] at hlen
          cases hlen
      | some r =>
          rw [hdecode] at hlen
          rw [← (Prod.mk.inj (Except.ok.inj hlen)).1]
          exact (decode32_eq_some.mp hdecode).1
    · rw [if_neg hi] at hlen
      cases hlen
  dsimp only at hquery
  rw [extractBytes] at hquery
  by_cases hfits : (k + len) % uintMod < buf.length
  · rw [if_pos hfits] at hquery
    by_cases hover : buf.length < k + len
    · rw [if_pos hover] at hquery
      cases hquery
    · rw [if_neg hover] at hquery
      obtain rfl := Except.ok.inj hquery
      exact lt_of_le_of_lt (List.length_take_le _ _) hlt
  · rw [if_neg hfits] at hquery
    cases hquery

theorem queryLen_toNat_of_lt {b : BPQBlock} (h : b.query.length < uintMod) :
    b.queryLen.toNat = b.query.length := by
  rw [queryLen, UInt32.toNat_ofNat_of_lt' h]

/-- Two blocks match exactly if rules and lengths agree and the queries up to their first NUL. -/
theorem matchQuery_eq {b other : BPQBlock} (hb : b.query.length < uintMod)
    (hother : other.query.length < uintMod) :
    matchQuery b other = .ok (decide (b.matchingRule = other.matchingRule ∧
      b.query.length = other.query.length ∧ cString b.query = cString other.query)) := by
  rw [matchQuery]
  by_cases hrule : b.matchingRule = other.matchingRule
  · rw [if_neg (not_not_intro hrule)]
    by_cases hlen : b.query.length = other.query.length
    · have hqueryLen : b.queryLen = other.queryLen := by
        rw [queryLen, queryLen, hlen]
      rw [if_neg (not_not_intro hqueryLen),
        strncmpZero_eq (queryLen_toNat_of_lt hb).symm ((queryLen_toNat_of_lt hb).trans hlen).symm]
      simp [hrule, hlen]
    · have hqueryLen : b.queryLen ≠ other.queryLen := by
        intro h
        apply hlen
        rw [← queryLen_toNat_of_lt hb, ← queryLen_toNat_of_lt hother, h]
      rw [if_pos hqueryLen]
      simp [hlen]
  · rw [if_pos hrule]
    simp [hrule]

/-- Of two blocks read from buffers, keys and match agree with rule and query exactly if the rules
are zero, each query holds a NUL, and queries that agree in front of it are equal. -/
theorem keysAgree_iff {os : Oasys} {buf buf' : Bytes} {b other : BPQBlock}
    (hb : initialiseFromBuf os buf = .ok b) (hother : initialiseFromBuf os buf' = .ok other) :
    KeysAgree b other ↔ KeyEnds b ∧ KeyEnds other ∧
      (cString b.query = cString other.query → b.query = other.query) := by
  have hmatch := matchQuery_eq (query_length_lt hb) (query_length_lt hother)
  constructor
  · intro h
    obtain ⟨key, key', same, hkey, hkey', -, heq, -⟩ := h
    rw [getHashKey_eq_ok] at hkey hkey'
    refine ⟨hkey.1, hkey'.1, ?_⟩
    intro hstr
    have hsame : key = key' := by
      rw [← hkey.2, ← hkey'.2, hstr]
    exact (heq.mp hsame).2
  · intro h
    have hrule : b.matchingRule = other.matchingRule := h.1.1.trans h.2.1.1.symm
    refine ⟨cString b.query, cString other.query, _, getHashKey_eq_ok.mpr ⟨h.1, rfl⟩,
      getHashKey_eq_ok.mpr ⟨h.2.1, rfl⟩, hmatch, ?_, ?_⟩
    · constructor
      · exact fun hstr => ⟨hrule, h.2.2 hstr⟩
      · intro hsame
        rw [hsame.2]
    · rw [decide_eq_true_iff]
      constructor
      · exact fun hsame => ⟨hrule, h.2.2 hsame.2.2⟩
      · intro hsame
        rw [hsame.2]
        exact ⟨hrule, rfl, rfl⟩

def queryBuf (rule : UInt8) (query : Bytes) : Bytes :=
  [0, rule, 0, 0, 5] ++ ascii ['d', 't', 'n', ':', 'a'] ++ UInt8.ofNat query.length :: query ++ [0]

def queryBlock (rule : UInt8) (query : Bytes) : BPQBlock :=
  ⟨0, rule, ⟨0, 0⟩, Oasys.plain.assign (ascii ['d', 't', 'n', ':', 'a']), query, []⟩

/-- Two terminated queries that differ in their text. -/
theorem keysAgree_iff_sample :
    KeysAgree (queryBlock 0 (ascii ['a'] ++ [0])) (queryBlock 0 (ascii ['b'] ++ [0])) := by
  have ha : initialiseFromBuf Oasys.plain (queryBuf 0 (ascii ['a'] ++ [0])) =
      .ok (queryBlock 0 (ascii ['a'] ++ [0])) := by decide +kernel
  have hb : initialiseFromBuf Oasys.plain (queryBuf 0 (ascii ['b'] ++ [0])) =
      .ok (queryBlock 0 (ascii ['b'] ++ [0])) := by decide +kernel
  apply (keysAgree_iff ha hb).mpr
  refine ⟨⟨rfl, by decide⟩, ⟨rfl, by decide⟩, ?_⟩
  intro h
  revert h
  decide +kernel

/-- Queries that differ behind a NUL share their key and match; a rule other than zero and a query
without a NUL make the key read behind them. -/
theorem keys_not_agree :
    (BPQCache.getHashKey (queryBlock 0 [97, 0, 98]) =
      BPQCache.getHashKey (queryBlock 0 [97, 0, 99]) ∧
    matchQuery (queryBlock 0 [97, 0, 98]) (queryBlock 0 [97, 0, 99]) = .ok true) ∧
    BPQCache.getHashKey (queryBlock 1 [97, 0]) = .error (.fault .outOfBounds) ∧
    BPQCache.getHashKey (queryBlock 0 [97]) = .error (.fault .outOfBounds) ∧
    ¬ ∀ (os : Oasys) (buf buf' : Bytes) (b other : BPQBlock),
      initialiseFromBuf os buf = .ok b → initialiseFromBuf os buf' = .ok other →
      KeysAgree b other := by
  have hkey : BPQCache.getHashKey (queryBlock 0 [97]) = .error (.fault .outOfBounds) := by
    decide +kernel
  refine ⟨⟨by decide +kernel, by decide +kernel⟩, by decide +kernel, hkey, ?_⟩
  intro h
  have hinit : initialiseFromBuf Oasys.plain (queryBuf 0 [97]) = .ok (queryBlock 0 [97]) := by
    decide +kernel
  obtain ⟨key, key', same, hread, -⟩ := h Oasys.plain _ _ _ _ hinit hinit
  rw [hkey] at hread
  cases hread

end BPQBlock

end Dtn2
