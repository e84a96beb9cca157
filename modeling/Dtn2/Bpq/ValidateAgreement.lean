import Dtn2.Bpq.Validate

/-!
# The validator and the parser

The parser of a block goes through the same items by an index. What it accepts as a whole is a kind,
a matching rule, two numbers, the source and the query behind their lengths, and the fragments
behind their number. The validator returns `true` on none of these strings.
-/

namespace Dtn2

open Framework

namespace BPQBlock

/-! ## The parser with its index -/

/-- The loop of `extract_fragments`, with `*buf_index` at its end. -/
def extractFragmentsLoopAt (buf : Bytes) :
    Nat → Nat → List BPQFragment → Exec (List BPQFragment × Nat)
  | 0, i, fragments => .ok (fragments, i)
  | count + 1, i, fragments => do
      let offset ← extractSdnv32 buf i
      let len ← extractSdnv32 buf offset.2
      extractFragmentsLoopAt buf count len.2
        (BPQFragmentList.insertSorted ⟨offset.1, len.1⟩ fragments)

def extractFragmentsAt (buf : Bytes) (i : Nat) : Exec (List BPQFragment × Nat) := do
  let count ← extractSdnv32 buf i
  extractFragmentsLoopAt buf count.1 count.2 []

/-- `BPQBlock::initialise_from_buf` of a new block, with `buf_index` at its end. -/
def initialiseAt (os : Oasys) (buf : Bytes) : Exec (BPQBlock × Nat) := do
  let kind ← extractByte buf 0
  let rule ← extractByte buf kind.2
  let creationTs ← extractCreationTs buf rule.2
  let source ← extractSource os buf creationTs.2
  let query ← extractQuery buf source.2
  let fragments ← extractFragmentsAt buf query.2
  pure (⟨kind.1, rule.1, creationTs.1, source.1, query.1, fragments.1⟩, fragments.2)

theorem extractFragmentsLoopAt_fst (buf : Bytes) (count i : Nat) (fragments : List BPQFragment) :
    extractFragmentsLoop buf count i fragments =
      extractFragmentsLoopAt buf count i fragments >>= fun r => pure r.1 := by
  induction count generalizing i fragments with
  | zero => rfl
  | succ count ih =>
      simp only [extractFragmentsLoop, extractFragmentsLoopAt, bind_assoc, ih]

theorem initialiseAt_fst (os : Oasys) (buf : Bytes) :
    initialiseFromBuf os buf = initialiseAt os buf >>= fun r => pure r.1 := by
  have hfragments : ∀ i,
      extractFragments buf i = extractFragmentsAt buf i >>= fun r => pure r.1 := by
    intro i
    rw [extractFragments, extractFragmentsAt, bind_assoc]
    congr 1
    funext count
    exact extractFragmentsLoopAt_fst buf _ _ _
  simp only [initialiseFromBuf, initialiseAt, bind_assoc, hfragments, pure_bind]

/-! ## What is accepted -/

/-- The string is one number, nothing less and nothing more. -/
def Number (num : Bytes) : Prop := ∃ val, SDNV.decode num = (some num.length, val)

/-- The string is one number that fits a `u_int`. -/
def Number32 (num : Bytes) (val : Nat) : Prop := SDNV.decode32 num = some (num.length, val)

/-- Specifiers of as many fragments. -/
inductive Specifiers : Nat → Bytes → Prop
  | none : Specifiers 0 []
  | more {count offset len : Nat} {offsetNum lenNum rest : Bytes}
      (hoffset : Number32 offsetNum offset) (hlen : Number32 lenNum len) (hrest : Specifiers count rest) :
      Specifiers (count + 1) (offsetNum ++ (lenNum ++ rest))

def Layout (os : Oasys) (behind : Bytes) : Prop :=
  ∃ seconds seqno sourceLen source queryLen query fragCount fragments : Bytes, ∃ count : Nat,
    behind = seconds ++ (seqno ++ (sourceLen ++ (source ++ (queryLen ++ (query ++
      (fragCount ++ fragments)))))) ∧
    Number seconds ∧ Number seqno ∧
    Number32 sourceLen source.length ∧ (os.assign source).valid = true ∧
    Number32 queryLen query.length ∧ Number32 fragCount count ∧ Specifiers count fragments

/-- `initialise_from_buf` succeeds with the whole string, the kind is defined and the matching rule
is zero. -/
def Accepted (os : Oasys) (buf : Bytes) : Prop :=
  ∃ block, initialiseAt os buf = .ok (block, buf.length) ∧ DefinedKind block.kind ∧
    block.matchingRule = 0

/-- Whatever `used_len` holds at the start, `validate` stays in the string and returns `true`
exactly for what the parser accepts. -/
def ValidateAgrees (os : Oasys) (buf : Bytes) : Prop :=
  ∀ used, ∃ result, validate used buf = .ok result ∧ (result = true ↔ Accepted os buf)

/-! ## Items of the parser -/

theorem decode32_eq_some {bp : Bytes} {n v : Nat} : SDNV.decode32 bp = some (n, v) ↔
    v < uintMod ∧ ∃ val : UInt64, SDNV.decode bp = (some n, val) ∧ val.toNat = v := by
  rw [SDNV.decode32]
  cases hdecode : SDNV.decode bp with
  | mk ret val =>
      dsimp only
      cases ret with
      | none =>
          rw [Option.map_none, ite_self]
          constructor
          · intro h
            cases h
          · rintro ⟨-, val', h, -⟩
            cases (Prod.mk.inj h).1
      | some m =>
          by_cases hbig : 0xffffffff < val.toNat
          · rw [if_pos hbig]
            constructor
            · intro h
              cases h
            · rintro ⟨hv, val', h, rfl⟩
              rw [← (Prod.mk.inj h).2] at hv
              simp only [uintMod] at hv
              omega
          · rw [if_neg hbig]
            constructor
            · intro h
              obtain ⟨rfl, rfl⟩ := Prod.mk.inj (Option.some.inj h)
              refine ⟨?_, val, rfl, rfl⟩
              simp only [uintMod]
              omega
            · rintro ⟨-, val', h, rfl⟩
              obtain ⟨hn, hval⟩ := Prod.mk.inj h
              rw [Option.some.inj hn, hval]
              rfl

theorem number32_length {num : Bytes} {v : Nat} (h : Number32 num v) : 0 < num.length := by
  obtain ⟨-, val, h, -⟩ := decode32_eq_some.mp h
  exact (SDNV.decode_some h).1

theorem decode_split_iff {bp : Bytes} {n : Nat} {val : UInt64} : SDNV.decode bp = (some n, val) ↔
    ∃ num rest, bp = num ++ rest ∧ num.length = n ∧ SDNV.decode num = (some num.length, val) := by
  constructor
  · intro h
    obtain ⟨-, hle, hmore⟩ := SDNV.decode_some h
    have hlen : (bp.take n).length = n := List.length_take_of_le hle
    refine ⟨bp.take n, bp.drop n, (List.take_append_drop n bp).symm, hlen, ?_⟩
    have hnum := hmore []
    rw [List.append_nil] at hnum
    rw [hlen, hnum]
  · rintro ⟨num, rest, rfl, rfl, h⟩
    have hmore := (SDNV.decode_some h).2.2 rest
    rwa [List.take_length] at hmore

theorem decode32_split_iff {bp : Bytes} {n v : Nat} : SDNV.decode32 bp = some (n, v) ↔
    ∃ num rest, bp = num ++ rest ∧ Number32 num v ∧ num.length = n := by
  constructor
  · intro h
    obtain ⟨hv, val, hdecode, hval⟩ := decode32_eq_some.mp h
    obtain ⟨num, rest, hsplit, hlen, hnum⟩ := decode_split_iff.mp hdecode
    exact ⟨num, rest, hsplit, decode32_eq_some.mpr ⟨hv, val, hnum, hval⟩, hlen⟩
  · rintro ⟨num, rest, hsplit, hnum, hlen⟩
    obtain ⟨hv, val, hdecode, hval⟩ := decode32_eq_some.mp hnum
    exact decode32_eq_some.mpr
      ⟨hv, val, decode_split_iff.mpr ⟨num, rest, hsplit, hlen, hdecode⟩, hval⟩

theorem drop_behind {buf part rest : Bytes} {i : Nat} (h : buf.drop i = part ++ rest) :
    buf.drop (i + part.length) = rest := by
  rw [← List.drop_drop, h, List.drop_left]

theorem extractSource_ok {os : Oasys} {buf : Bytes} {i : Nat}
    {source : EndpointID} {j : Nat} :
    extractSource os buf i = .ok (source, j) ↔
      ∃ bs, extractQuery buf i = .ok (bs, j) ∧ os.assign bs = source ∧ source.valid = true := by
  rw [extractSource, extractQuery]
  constructor
  · intro h
    obtain ⟨⟨len, k⟩, hlen, h⟩ := Exec.bind_eq_ok.mp h
    obtain ⟨⟨bs, m⟩, hbytes, h⟩ := Exec.bind_eq_ok.mp h
    dsimp only at h
    by_cases hvalid : (os.assign bs).valid = true
    · rw [if_pos hvalid] at h
      obtain ⟨rfl, rfl⟩ := Prod.mk.inj (Except.ok.inj h)
      refine ⟨bs, ?_, rfl, hvalid⟩
      rw [hlen, Exec.ok_bind]
      exact hbytes
    · rw [if_neg hvalid] at h
      cases h
  · rintro ⟨bs, h, rfl, hvalid⟩
    obtain ⟨⟨len, k⟩, hlen, hbytes⟩ := Exec.bind_eq_ok.mp h
    rw [hlen, Exec.ok_bind]
    dsimp only at hbytes ⊢
    rw [hbytes, Exec.ok_bind]
    exact if_pos hvalid

section Items

variable {buf : Bytes} {i : Nat} (hbuf : buf.length < uintMod)

include hbuf

theorem extractByte_ok {b : UInt8} {j : Nat} : extractByte buf i = .ok (b, j) ↔
    ∃ rest, buf.drop i = b :: rest ∧ j = i + 1 := by
  constructor
  · intro h
    rw [extractByte] at h
    cases hget : buf[i]? with
    | none =>
        rw [hget] at h
        cases h
    | some c =>
        rw [hget] at h
        obtain ⟨rfl, rfl⟩ := Prod.mk.inj (Except.ok.inj h)
        obtain ⟨hi, hc⟩ := List.getElem?_eq_some_iff.mp hget
        refine ⟨buf.drop (i + 1), ?_, Nat.mod_eq_of_lt (by omega)⟩
        rw [← hc]
        exact List.drop_eq_getElem_cons hi
  · rintro ⟨rest, h, rfl⟩
    exact (extractByte_at hbuf h).1

theorem extractSdnv_ok {val : UInt64} {j : Nat} : extractSdnv buf i = .ok (val, j) ↔
    ∃ num rest, buf.drop i = num ++ rest ∧ SDNV.decode num = (some num.length, val) ∧
      j = i + num.length := by
  have hdrop : (buf.drop i).length = buf.length - i := List.length_drop
  rw [extractSdnv]
  constructor
  · intro h
    by_cases hi : i < buf.length
    · rw [if_pos hi] at h
      cases hdecode : SDNV.decode (buf.drop i) with
      | mk ret v =>
          rw [hdecode] at h
          cases ret with
          | none => cases h
          | some n =>
              obtain ⟨rfl, rfl⟩ := Prod.mk.inj (Except.ok.inj h)
              obtain ⟨num, rest, hsplit, rfl, hnum⟩ := decode_split_iff.mp hdecode
              have hle := (SDNV.decode_some hdecode).2.1
              exact ⟨num, rest, hsplit, hnum, Nat.mod_eq_of_lt (by omega)⟩
    · rw [if_neg hi] at h
      cases h
  · rintro ⟨num, rest, hsplit, hnum, rfl⟩
    have hdecode := decode_split_iff.mpr ⟨num, rest, hsplit, rfl, hnum⟩
    obtain ⟨hpos, hle, -⟩ := SDNV.decode_some hdecode
    rw [if_pos (by omega), hdecode]
    dsimp only
    rw [Nat.mod_eq_of_lt (by omega)]

theorem extractSdnv32_ok {v j : Nat} : extractSdnv32 buf i = .ok (v, j) ↔
    ∃ num rest, buf.drop i = num ++ rest ∧ Number32 num v ∧ j = i + num.length := by
  have hdrop : (buf.drop i).length = buf.length - i := List.length_drop
  rw [extractSdnv32]
  constructor
  · intro h
    by_cases hi : i < buf.length
    · rw [if_pos hi] at h
      cases hdecode : SDNV.decode32 (buf.drop i) with
      | none =>
          rw [hdecode] at h
          cases h
      | some r =>
          cases r with
          | mk n w =>
              rw [hdecode] at h
              obtain ⟨rfl, rfl⟩ := Prod.mk.inj (Except.ok.inj h)
              obtain ⟨num, rest, hsplit, hnum, rfl⟩ := decode32_split_iff.mp hdecode
              have hlen := congrArg List.length hsplit
              rw [List.length_append] at hlen
              exact ⟨num, rest, hsplit, hnum, Nat.mod_eq_of_lt (by omega)⟩
    · rw [if_neg hi] at h
      cases h
  · rintro ⟨num, rest, hsplit, hnum, rfl⟩
    have hpos := number32_length hnum
    have hlen := congrArg List.length hsplit
    rw [List.length_append] at hlen
    rw [if_pos (by omega), decode32_split_iff.mpr ⟨num, rest, hsplit, hnum, rfl⟩]
    dsimp only
    rw [Nat.mod_eq_of_lt (by omega)]

theorem extractBytes_ok {len j : Nat} {bs : Bytes} : extractBytes buf i len = .ok (bs, j) ↔
    ∃ rest, rest ≠ [] ∧ buf.drop i = bs ++ rest ∧ bs.length = len ∧ j = i + len := by
  have hdrop : (buf.drop i).length = buf.length - i := List.length_drop
  constructor
  · intro h
    rw [extractBytes] at h
    by_cases hroom : (i + len) % uintMod < buf.length
    · rw [if_pos hroom] at h
      by_cases hover : buf.length < i + len
      · rw [if_pos hover] at h
        cases h
      · rw [if_neg hover] at h
        rw [Nat.mod_eq_of_lt (by omega)] at h hroom
        obtain ⟨rfl, rfl⟩ := Prod.mk.inj (Except.ok.inj h)
        refine ⟨(buf.drop i).drop len, ?_, (List.take_append_drop _ _).symm,
          List.length_take_of_le (by omega), rfl⟩
        apply List.ne_nil_of_length_pos
        rw [List.length_drop]
        omega
    · rw [if_neg hroom] at h
      cases h
  · rintro ⟨rest, hrest, hsplit, rfl, rfl⟩
    exact (extractBytes_at hbuf hrest hsplit).1

theorem extractFragmentsLoopAt_ok {count j : Nat} {fragments : List BPQFragment} :
    (∃ all, extractFragmentsLoopAt buf count i fragments = .ok (all, j)) ↔
      ∃ specifiers rest, buf.drop i = specifiers ++ rest ∧ Specifiers count specifiers ∧
        j = i + specifiers.length := by
  induction count generalizing i fragments with
  | zero =>
      constructor
      · rintro ⟨all, h⟩
        obtain ⟨-, rfl⟩ := Prod.mk.inj (Except.ok.inj h)
        exact ⟨[], buf.drop i, rfl, .none, rfl⟩
      · rintro ⟨specifiers, rest, -, hspec, rfl⟩
        cases hspec
        exact ⟨fragments, rfl⟩
  | succ count ih =>
      constructor
      · rintro ⟨all, h⟩
        rw [extractFragmentsLoopAt] at h
        obtain ⟨⟨offset, k⟩, hoffset, h⟩ := Exec.bind_eq_ok.mp h
        obtain ⟨⟨len, m⟩, hlen, h⟩ := Exec.bind_eq_ok.mp h
        obtain ⟨offsetNum, rest, hsplit, hnum, rfl⟩ := (extractSdnv32_ok hbuf).mp hoffset
        obtain ⟨lenNum, rest', hsplit', hnum', rfl⟩ := (extractSdnv32_ok hbuf).mp hlen
        obtain ⟨specifiers, rest'', hsplit'', hspec, rfl⟩ := ih.mp ⟨all, h⟩
        have hrest := drop_behind hsplit
        have hrest' := drop_behind hsplit'
        refine ⟨offsetNum ++ (lenNum ++ specifiers), rest'', ?_, .more hnum hnum' hspec, ?_⟩
        · simp only [List.append_assoc]
          rw [hsplit, ← hrest, hsplit', ← hrest', hsplit'']
        · simp only [List.length_append]
          omega
      · rintro ⟨specifiers, rest, hsplit, hspec, rfl⟩
        cases hspec with
        | @more _ offset len offsetNum lenNum specifiers hoffset hlen hspec =>
            simp only [List.append_assoc] at hsplit
            have hrest := drop_behind hsplit
            have hrest' := drop_behind hrest
            have hend : i + (offsetNum ++ (lenNum ++ specifiers)).length =
                i + offsetNum.length + lenNum.length + specifiers.length := by
              simp only [List.length_append]
              omega
            obtain ⟨all, hall⟩ : ∃ all, extractFragmentsLoopAt buf count
                (i + offsetNum.length + lenNum.length)
                (BPQFragmentList.insertSorted ⟨offset, len⟩ fragments) = .ok (all, _) :=
              ih.mpr ⟨specifiers, rest, hrest', hspec, hend⟩
            refine ⟨all, ?_⟩
            rw [extractFragmentsLoopAt, (extractSdnv32_ok hbuf).mpr ⟨_, _, hsplit, hoffset, rfl⟩,
              Exec.ok_bind]
            dsimp only
            rw [(extractSdnv32_ok hbuf).mpr ⟨_, _, hrest, hlen, rfl⟩, Exec.ok_bind]
            dsimp only
            exact hall

theorem extractCreationTs_ok {ts : BundleTimestamp} {j : Nat} :
    extractCreationTs buf i = .ok (ts, j) ↔
      ∃ seconds seqno rest, buf.drop i = seconds ++ (seqno ++ rest) ∧
        SDNV.decode seconds = (some seconds.length, ts.seconds) ∧
        SDNV.decode seqno = (some seqno.length, ts.seqno) ∧
        j = i + seconds.length + seqno.length := by
  rw [extractCreationTs]
  constructor
  · intro h
    obtain ⟨⟨sec, k⟩, hseconds, h⟩ := Exec.bind_eq_ok.mp h
    obtain ⟨⟨seq, m⟩, hseqno, h⟩ := Exec.bind_eq_ok.mp h
    obtain ⟨rfl, rfl⟩ := Prod.mk.inj (Except.ok.inj h)
    obtain ⟨seconds, rest, hsplit, hnum, rfl⟩ := (extractSdnv_ok hbuf).mp hseconds
    obtain ⟨seqno, rest', hsplit', hnum', rfl⟩ := (extractSdnv_ok hbuf).mp hseqno
    rw [drop_behind hsplit] at hsplit'
    rw [hsplit'] at hsplit
    exact ⟨seconds, seqno, rest', hsplit, hnum, hnum', rfl⟩
  · rintro ⟨seconds, seqno, rest, hsplit, hnum, hnum', rfl⟩
    rw [(extractSdnv_ok hbuf).mpr ⟨seconds, _, hsplit, hnum, rfl⟩, Exec.ok_bind]
    dsimp only
    rw [(extractSdnv_ok hbuf).mpr ⟨seqno, _, drop_behind hsplit, hnum', rfl⟩]
    rfl

theorem extractQuery_ok {query : Bytes} {j : Nat} : extractQuery buf i = .ok (query, j) ↔
    ∃ num rest, rest ≠ [] ∧ buf.drop i = num ++ (query ++ rest) ∧ Number32 num query.length ∧
      j = i + num.length + query.length := by
  rw [extractQuery]
  constructor
  · intro h
    obtain ⟨⟨len, k⟩, hlen, h⟩ := Exec.bind_eq_ok.mp h
    obtain ⟨num, rest, hsplit, hnum, rfl⟩ := (extractSdnv32_ok hbuf).mp hlen
    obtain ⟨rest', hrest, hsplit', rfl, rfl⟩ := (extractBytes_ok hbuf).mp h
    rw [drop_behind hsplit] at hsplit'
    rw [hsplit'] at hsplit
    exact ⟨num, rest', hrest, hsplit, hnum, rfl⟩
  · rintro ⟨num, rest, hrest, hsplit, hnum, rfl⟩
    rw [(extractSdnv32_ok hbuf).mpr ⟨num, _, hsplit, hnum, rfl⟩, Exec.ok_bind]
    exact (extractBytes_ok hbuf).mpr ⟨rest, hrest, drop_behind hsplit, rfl, rfl⟩

/-! ## The parser accepts the layout -/

theorem layout_of_initialiseAt {os : Oasys} {block : BPQBlock}
    (h : initialiseAt os buf = .ok (block, buf.length)) :
    ∃ behind, buf = block.kind :: block.matchingRule :: behind ∧ Layout os behind := by
  rw [initialiseAt] at h
  obtain ⟨⟨kind, i₁⟩, hkind, h⟩ := Exec.bind_eq_ok.mp h
  obtain ⟨⟨rule, i₂⟩, hrule, h⟩ := Exec.bind_eq_ok.mp h
  obtain ⟨⟨ts, i₃⟩, hts, h⟩ := Exec.bind_eq_ok.mp h
  obtain ⟨⟨src, i₄⟩, hsource, h⟩ := Exec.bind_eq_ok.mp h
  obtain ⟨⟨query, i₅⟩, hquery, h⟩ := Exec.bind_eq_ok.mp h
  obtain ⟨⟨all, i₆⟩, hfragments, h⟩ := Exec.bind_eq_ok.mp h
  rw [extractFragmentsAt] at hfragments
  obtain ⟨⟨count, i₇⟩, hcount, hloop⟩ := Exec.bind_eq_ok.mp hfragments
  obtain ⟨rfl, hend⟩ := Prod.mk.inj (Except.ok.inj h)
  dsimp only at hend hrule hts hsource hquery hcount hloop
  obtain ⟨bs, hsource, hassign, hvalid⟩ := extractSource_ok.mp hsource
  obtain ⟨rest₁, hsplit₁, rfl⟩ := (extractByte_ok hbuf).mp hkind
  obtain ⟨behind, hsplit₂, rfl⟩ := (extractByte_ok hbuf).mp hrule
  obtain ⟨seconds, seqno, rest₃, hsplit₃, hsec, hseq, rfl⟩ := (extractCreationTs_ok hbuf).mp hts
  obtain ⟨sourceLen, rest₄, -, hsplit₄, hsourceLen, rfl⟩ := (extractQuery_ok hbuf).mp hsource
  obtain ⟨queryLen, rest₅, -, hsplit₅, hqueryLen, rfl⟩ := (extractQuery_ok hbuf).mp hquery
  obtain ⟨fragCount, rest₆, hsplit₆, hfragCount, rfl⟩ := (extractSdnv32_ok hbuf).mp hcount
  obtain ⟨specifiers, rest₇, hsplit₇, hspec, hlast⟩ :=
    (extractFragmentsLoopAt_ok hbuf).mp ⟨all, hloop⟩
  -- the whole string is consumed, so nothing is left behind the specifiers
  have hnone : rest₇ = [] := by
    have hlen := congrArg List.length hsplit₇
    have hcountLen := number32_length hfragCount
    have hcountSplit := congrArg List.length hsplit₆
    rw [List.length_drop, List.length_append] at hlen hcountSplit
    exact List.eq_nil_of_length_eq_zero (by omega)
  have hbyte₁ : buf.drop 0 = [kind] ++ rest₁ := hsplit₁
  have hbyte₂ : buf.drop 1 = [rule] ++ behind := hsplit₂
  have hdrop₁ : buf.drop 1 = rest₁ := drop_behind hbyte₁
  have hdrop₂ : buf.drop 2 = behind := drop_behind hbyte₂
  have hdrop₃ := drop_behind (drop_behind hsplit₃)
  have hdrop₄ := drop_behind (drop_behind hsplit₄)
  have hdrop₅ := drop_behind (drop_behind hsplit₅)
  have hdrop₆ := drop_behind hsplit₆
  refine ⟨behind, ?_, seconds, seqno, sourceLen, bs, queryLen, query, fragCount, specifiers, count,
    ?_, ⟨_, hsec⟩, ⟨_, hseq⟩, hsourceLen, ?_, hqueryLen, hfragCount, hspec⟩
  · rw [← List.drop_zero (l := buf), hsplit₁, ← hdrop₁]
    exact congrArg (kind :: ·) hsplit₂
  · rw [hnone, List.append_nil] at hsplit₇
    rw [← hsplit₇, hdrop₆, ← hsplit₆, hdrop₅, ← hsplit₅, hdrop₄, ← hsplit₄, hdrop₃, ← hsplit₃]
    exact hdrop₂.symm
  · rw [hassign]
    exact hvalid

theorem initialiseAt_of_layout {os : Oasys} {kind rule : UInt8} {behind : Bytes}
    (hshape : buf = kind :: rule :: behind) (h : Layout os behind) :
    ∃ block, initialiseAt os buf = .ok (block, buf.length) ∧ block.kind = kind ∧
      block.matchingRule = rule := by
  obtain ⟨seconds, seqno, sourceLen, bs, queryLen, query, fragCount, specifiers, count, hbehind,
    ⟨sec, hsec⟩, ⟨seq, hseq⟩, hsourceLen, hvalid, hqueryLen, hfragCount, hspec⟩ := h
  have hsplit₁ : buf.drop 0 = kind :: rule :: behind := hshape
  have hsplit₂ : buf.drop (0 + 1) = rule :: behind := by
    rw [hshape]
    rfl
  have hsplit₃ : buf.drop (0 + 1 + 1) = behind := by
    rw [hshape]
    rfl
  rw [hbehind] at hsplit₃
  have hsplit₄ := drop_behind (drop_behind hsplit₃)
  have hsplit₅ := drop_behind (drop_behind hsplit₄)
  have hsplit₆ := drop_behind (drop_behind hsplit₅)
  have hsplit₇ := drop_behind hsplit₆
  have hcount := (extractSdnv32_ok hbuf).mpr ⟨fragCount, _, hsplit₆, hfragCount, rfl⟩
  have hopen : fragCount ++ specifiers ≠ [] := by
    apply List.ne_nil_of_length_pos
    rw [List.length_append]
    exact Nat.add_pos_left (number32_length hfragCount) _
  have hopen' : queryLen ++ (query ++ (fragCount ++ specifiers)) ≠ [] := by
    apply List.ne_nil_of_length_pos
    rw [List.length_append]
    exact Nat.add_pos_left (number32_length hqueryLen) _
  have hquery := (extractQuery_ok hbuf).mpr ⟨queryLen, _, hopen, hsplit₅, hqueryLen, rfl⟩
  have hsourceBytes := (extractQuery_ok hbuf).mpr ⟨sourceLen, _, hopen', hsplit₄, hsourceLen, rfl⟩
  have hsource := extractSource_ok.mpr ⟨bs, hsourceBytes, rfl, hvalid⟩
  have hts : extractCreationTs buf (0 + 1 + 1) = .ok (⟨sec, seq⟩, _) :=
    (extractCreationTs_ok hbuf).mpr ⟨seconds, seqno, _, hsplit₃, hsec, hseq, rfl⟩
  rw [← List.append_nil specifiers] at hsplit₇
  obtain ⟨all, hloop⟩ : ∃ all, extractFragmentsLoopAt buf count _ [] = .ok (all, _) :=
    (extractFragmentsLoopAt_ok hbuf).mpr ⟨specifiers, [], hsplit₇, hspec, rfl⟩
  have hlen := congrArg List.length hshape
  rw [hbehind] at hlen
  simp only [List.length_cons, List.length_append] at hlen
  refine ⟨⟨kind, rule, ⟨sec, seq⟩, os.assign bs, query, all⟩, ?_, rfl, rfl⟩
  rw [initialiseAt, (extractByte_ok hbuf).mpr ⟨_, hsplit₁, rfl⟩, Exec.ok_bind]
  dsimp only
  rw [(extractByte_ok hbuf).mpr ⟨_, hsplit₂, rfl⟩, Exec.ok_bind]
  dsimp only
  rw [hts, Exec.ok_bind]
  dsimp only
  rw [hsource, Exec.ok_bind]
  dsimp only
  rw [hquery, Exec.ok_bind, extractFragmentsAt]
  dsimp only
  rw [hcount, Exec.ok_bind]
  dsimp only
  rw [hloop, Exec.ok_bind, hlen]
  congr 2
  omega

end Items

theorem accepted_iff {os : Oasys} {kind rule : UInt8} {behind : Bytes}
    (hbuf : (kind :: rule :: behind).length < uintMod) :
    Accepted os (kind :: rule :: behind) ↔ DefinedKind kind ∧ rule = 0 ∧ Layout os behind := by
  constructor
  · rintro ⟨block, h, hkind, hrule⟩
    obtain ⟨behind', hshape, hlayout⟩ := layout_of_initialiseAt hbuf h
    obtain ⟨rfl, hrest⟩ := List.cons.inj hshape
    obtain ⟨rfl, rfl⟩ := List.cons.inj hrest
    exact ⟨hkind, hrule, hlayout⟩
  · rintro ⟨hkind, rfl, hlayout⟩
    obtain ⟨block, h, hkind', hrule⟩ := initialiseAt_of_layout hbuf rfl hlayout
    refine ⟨block, h, ?_, hrule⟩
    rw [hkind']
    exact hkind

/-! ## Where the two agree -/

/-- The kind is undefined, or the matching rule is not zero, or what is behind it has an end of a
number and is not a block. -/
def RefusedInside (os : Oasys) : Bytes → Prop
  | [] => False
  | [kind] => ¬ DefinedKind kind
  | kind :: rule :: behind =>
      ¬ DefinedKind kind ∨ rule ≠ 0 ∨ (∃ b ∈ behind, b &&& 0x80 = 0) ∧ ¬ Layout os behind

theorem validateAgrees_of_false {os : Oasys} {buf : Bytes}
    (h : ∀ used, validate used buf = .ok false) : ValidateAgrees os buf ↔ ¬ Accepted os buf := by
  constructor
  · intro hagrees haccepted
    obtain ⟨result, hresult, hiff⟩ := hagrees 0
    rw [h 0] at hresult
    rw [← Except.ok.inj hresult] at hiff
    exact Bool.false_ne_true (hiff.mpr haccepted)
  · intro hrefused used
    exact ⟨false, h used, fun hfalse => absurd hfalse Bool.false_ne_true,
      fun haccepted => absurd haccepted hrefused⟩

theorem not_validateAgrees_of_fault {os : Oasys} {buf : Bytes} {used : UInt64} {f : Fault}
    (h : validate used buf = .error (.fault f)) : ¬ ValidateAgrees os buf := by
  intro hagrees
  obtain ⟨result, hresult, -⟩ := hagrees used
  rw [h] at hresult
  cases hresult

/-- The validator agrees with the parser, and stays in the string, exactly on strings that both
refuse and whose numbers end inside. -/
theorem validate_agrees_iff (os : Oasys) {buf : Bytes} (hbuf : buf ≠ [])
    (hlen : buf.length < uintMod) : ValidateAgrees os buf ↔ RefusedInside os buf := by
  cases buf with
  | nil => exact absurd rfl hbuf
  | cons kind rest =>
      by_cases hkind : DefinedKind kind
      · cases rest with
        | nil =>
            constructor
            · intro hagrees
              exact absurd hagrees (not_validateAgrees_of_fault (validate_lone hkind))
            · exact fun hundefined => absurd hkind hundefined
        | cons rule behind =>
            by_cases hrule : rule = 0
            · rw [hrule] at hlen ⊢
              have hroom : (kind :: 0 :: behind).length + 1 < 2 ^ 64 := by
                simp only [uintMod] at hlen
                omega
              by_cases hlow : ∃ b ∈ behind, b &&& 0x80 = 0
              · rw [validateAgrees_of_false (validate_low kind hlow hroom), accepted_iff hlen]
                constructor
                · intro hrefused
                  exact Or.inr (Or.inr ⟨hlow, fun hlayout => hrefused ⟨hkind, rfl, hlayout⟩⟩)
                · rintro (hundefined | hrule | ⟨-, hlayout⟩) haccepted
                  · exact hundefined hkind
                  · exact hrule rfl
                  · exact hlayout haccepted.2.2
              · have hhigh : ∀ b ∈ behind, b &&& 0x80 ≠ 0 := by
                  intro b hb hzero
                  exact hlow ⟨b, hb, hzero⟩
                constructor
                · intro hagrees
                  have hfault := validate_high hkind hhigh hroom
                  exact absurd hagrees (not_validateAgrees_of_fault hfault)
                · rintro (hundefined | hrule | ⟨hin, -⟩)
                  · exact absurd hkind hundefined
                  · exact absurd rfl hrule
                  · exact absurd hin hlow
            · rw [validateAgrees_of_false (validate_rule hrule kind behind), accepted_iff hlen]
              constructor
              · exact fun _ => Or.inr (Or.inl hrule)
              · exact fun _ haccepted => hrule haccepted.2.1
      · rw [validateAgrees_of_false (validate_undefined hkind rest)]
        cases rest with
        | nil =>
            constructor
            · exact fun _ => hkind
            · rintro - ⟨block, h, -, -⟩
              obtain ⟨behind, hshape, -⟩ := layout_of_initialiseAt hlen h
              cases (List.cons.inj hshape).2
        | cons rule behind =>
            rw [accepted_iff hlen]
            constructor
            · exact fun _ => Or.inl hkind
            · exact fun _ haccepted => hkind haccepted.1

/-- Of a matching rule of one both make a refusal. -/
theorem validate_agrees_iff_sample : ValidateAgrees Oasys.plain [0, 1] :=
  (validate_agrees_iff Oasys.plain (by decide) (by decide)).mpr (Or.inr (Or.inl (by decide)))

/-- A query block with an empty query and no fragments. -/
def sampleBlock : Bytes := [0, 0, 0, 0, 5] ++ ascii ['d', 't', 'n', ':', 'a'] ++ [0, 0]

/-- The parser accepts this block and the validator does not; of a kind alone the validator reads
behind the end. -/
theorem validate_not_agrees :
    Accepted Oasys.plain sampleBlock ∧ validate 0 sampleBlock = .ok false ∧
    validate 0 [0] = .error (.fault .outOfBounds) ∧
    ¬ ∀ buf : Bytes, buf ≠ [] → ValidateAgrees Oasys.plain buf := by
  have haccepted : Accepted Oasys.plain sampleBlock := by
    refine ⟨⟨0, 0, ⟨0, 0⟩, Oasys.plain.assign (ascii ['d', 't', 'n', ':', 'a']), [], []⟩, ?_, ?_,
      rfl⟩
    · decide +kernel
    · exact Or.inl rfl
  have hfalse : validate 0 sampleBlock = .ok false := by decide +kernel
  refine ⟨haccepted, hfalse, validate_lone (Or.inl rfl), ?_⟩
  intro h
  obtain ⟨result, hresult, hiff⟩ := h sampleBlock (by decide) 0
  rw [hfalse] at hresult
  rw [← Except.ok.inj hresult] at hiff
  exact Bool.false_ne_true (hiff.mpr haccepted)

end BPQBlock

end Dtn2
