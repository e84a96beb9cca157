import Dtn2.Naming.Ipn

/-!
# The grammar of the ipn scheme

The message of `IPNScheme::validate` asks for a node number and perhaps a service number behind two
slashes; the scheme also has the wildcard for a service number. Validation and matching leave the
text to `sscanf`. What an ipn text denotes is stated here by its grammar, with the numbers as
decimal numerals.
-/

namespace Dtn2

open Framework

namespace IPNScheme

def ipnUri (s : Bytes) : Bytes := ascii ['i', 'p', 'n'] ++ EndpointID.colon :: s

def star : UInt8 := 0x2a

/-- `sscanf(text, "ipn://%lu/%lu", ..)`: the return value, and the two numbers over zeros. -/
def scanIpn (text : Bytes) : Int × UInt64 × UInt64 :=
  match matchLiteral ipnPrefix text with
  | none => (if text.isPrefixOf ipnPrefix then -1 else 0, 0, 0)
  | some rest =>
      match scanUnsigned rest with
      | .inputFailure => (-1, 0, 0)
      | .mismatch => (0, 0, 0)
      | .value n rest =>
          match matchLiteral [slash] rest with
          | none => (1, n, 0)
          | some rest =>
              match scanUnsigned rest with
              | .value s _ => (2, n, s)
              | _ => (1, n, 0)

/-- `IPNScheme::match`. The scheme of the pattern is the one its URI names. -/
def matchPattern (pattern eid : EndpointID) : Exec Bool := do
  assertThat (pattern.schemeStr = ascii ['i', 'p', 'n'])
  if cString eid.uri = EndpointID.dtnNone then pure false
  else
    let s := scanIpn (cString eid.uri)
    let p := scanIpn (cString pattern.uri)
    if p.1 < 1 ∨ s.1 < 1 then pure false
    else if p.2.1 = s.2.1 then
      if p.1 = s.1 ∧ p.2.2 = s.2.2 then pure true
      else pure (decide ([slash, star] <:+: cString pattern.uri))
    else pure false

/-- `IPNScheme::validate` of the URI `ipn:s`; `uriValid` is `URI::valid()`. -/
def accepts (uriValid : Bytes → Bool) (s : Bytes) : Bool :=
  uriValid (ipnUri s) && validate ⟨ipnUri s, true⟩

/-! ## The grammar -/

/-- A decimal numeral of a value below `2 ^ 64`. -/
structure Numeral (t : Bytes) (n : UInt64) : Prop where
  ne_nil : t ≠ []
  digits : ∀ b ∈ t, Decimal.isDigit b = true
  value_eq : Decimal.value t = n.toNat

inductive Service where
  | absent
  | wildcard
  | number (m : UInt64)
deriving DecidableEq, Repr

/-- The service number; neither a missing one nor a wildcard is a number. -/
def Service.number? : Service → Option UInt64
  | number m => some m
  | _ => none

/-- The texts `//N`, `//N/*` and `//N/M` with what they denote. -/
inductive Denotes : Bytes → UInt64 → Service → Prop where
  | node {t : Bytes} {n : UInt64} : Numeral t n → Denotes (slash :: slash :: t) n .absent
  | wildcard {t : Bytes} {n : UInt64} : Numeral t n →
      Denotes (slash :: slash :: (t ++ [slash, star])) n .wildcard
  | service {t u : Bytes} {n m : UInt64} : Numeral t n → Numeral u m →
      Denotes (slash :: slash :: (t ++ slash :: u)) n (.number m)

def Grammar (s : Bytes) : Prop := ∃ n service, Denotes s n service

/-- Equal node numbers, and any service or the same one. -/
def SameNumbers (p e : Bytes) : Prop :=
  ∃ n servicep servicee, Denotes p n servicep ∧ Denotes e n servicee ∧
    (servicep = .wildcard ∨ servicep.number? = servicee.number?)

/-- White space, and then the end or a digit that can have a sign. -/
def Readable (t : Bytes) : Prop :=
  ∃ blank rest, t = blank ++ rest ∧ (∀ b ∈ blank, isSpace b = true) ∧
    (rest = [] ∨ ∃ sign digit more, rest = sign ++ digit :: more ∧
      (sign = [] ∨ sign = [0x2b] ∨ sign = [0x2d]) ∧ Decimal.isDigit digit = true)

/-- Three bytes or more, of which the C string is two slashes in front of a readable text. -/
def Loose (s : Bytes) : Prop :=
  3 ≤ s.length ∧ ∃ rest, cString s = slash :: slash :: rest ∧ Readable rest

/-! ## What `sscanf` reads -/

theorem scan_eq_none_iff {input : Bytes} :
    Decimal.scan input = none ↔ ∀ b ∈ input.head?, Decimal.isDigit b = false := by
  cases input with
  | nil => simp [Decimal.scan]
  | cons b bs =>
      by_cases hb : Decimal.isDigit b = true
      · simp [Decimal.scan, hb]
      · simp [Decimal.scan, hb]

theorem scan_numeral {t rest : Bytes} {n : UInt64} (h : Numeral t n)
    (hrest : ∀ b ∈ rest.head?, Decimal.isDigit b = false) :
    Decimal.scan (t ++ rest) = some (n.toNat, rest) := by
  have hnone : rest.takeWhile Decimal.isDigit = [] ∧ rest.dropWhile Decimal.isDigit = rest := by
    cases rest with
    | nil => simp
    | cons b bs =>
        have hb := hrest b rfl
        simp [hb]
  rw [Decimal.scan, List.takeWhile_append_of_pos h.digits, List.dropWhile_append_of_pos h.digits,
    hnone.1, hnone.2, List.append_nil, if_neg h.ne_nil, h.value_eq]

theorem scanUnsigned_numeral {t rest : Bytes} {n : UInt64} (h : Numeral t n)
    (hrest : ∀ b ∈ rest.head?, Decimal.isDigit b = false) :
    scanUnsigned (t ++ rest) = .value n rest := by
  have hscan := scan_numeral h hrest
  have hlt := n.toNat_lt
  cases t with
  | nil => exact absurd rfl h.ne_nil
  | cons b bs =>
      obtain ⟨hspace, hplus, hminus, -⟩ := isDigit_facts (h.digits b List.mem_cons_self)
      have hdrop : (b :: (bs ++ rest)).dropWhile isSpace = b :: (bs ++ rest) := by
        simp [hspace]
      rw [List.cons_append] at hscan ⊢
      rw [scanUnsigned, hdrop]
      simp only [hplus, hminus, or_self, if_false, hscan, strtoul, decide_false,
        Bool.false_eq_true]
      rw [if_neg (by omega), UInt64.ofNat_toNat]

theorem dropWhile_blank {blank rest : Bytes} (hblank : ∀ b ∈ blank, isSpace b = true)
    (hrest : ∀ b ∈ rest.head?, isSpace b = false) : (blank ++ rest).dropWhile isSpace = rest := by
  rw [List.dropWhile_append_of_pos hblank]
  cases rest with
  | nil => rfl
  | cons b bs =>
      have hb := hrest b rfl
      simp [hb]

theorem scanUnsigned_ne_mismatch_iff {t : Bytes} :
    scanUnsigned t ≠ .mismatch ↔ Readable t := by
  constructor
  · intro h
    refine ⟨t.takeWhile isSpace, t.dropWhile isSpace, List.takeWhile_append_dropWhile.symm, ?_, ?_⟩
    · intro b hb
      exact List.mem_takeWhile_imp hb
    · rw [scanUnsigned] at h
      cases hrest : t.dropWhile isSpace with
      | nil => exact Or.inl rfl
      | cons b bs =>
          rw [hrest] at h
          right
          by_cases hsign : b = 0x2b ∨ b = 0x2d
          · simp only [if_pos hsign] at h
            cases bs with
            | nil => exact absurd rfl h
            | cons d more =>
                by_cases hd : Decimal.isDigit d = true
                · refine ⟨[b], d, more, rfl, ?_, hd⟩
                  right
                  cases hsign with
                  | inl hplus => exact Or.inl (congrArg (fun c => [c]) hplus)
                  | inr hminus => exact Or.inr (congrArg (fun c => [c]) hminus)
                · have hnone : Decimal.scan (d :: more) = none := by
                    rw [scan_eq_none_iff]
                    intro c hc
                    obtain rfl := Option.some.inj hc
                    exact Bool.eq_false_iff.mpr hd
                  rw [hnone] at h
                  exact absurd rfl h
          · simp only [if_neg hsign] at h
            by_cases hb : Decimal.isDigit b = true
            · exact ⟨[], b, bs, rfl, Or.inl rfl, hb⟩
            · have hnone : Decimal.scan (b :: bs) = none := by
                rw [scan_eq_none_iff]
                intro c hc
                obtain rfl := Option.some.inj hc
                exact Bool.eq_false_iff.mpr hb
              rw [hnone] at h
              exact absurd rfl h
  · intro h
    obtain ⟨blank, rest, rfl, hblank, hrest⟩ := h
    cases hrest with
    | inl hnil =>
        rw [scanUnsigned, dropWhile_blank hblank (by simp [hnil]), hnil]
        simp
    | inr hdigit =>
        obtain ⟨sign, d, more, rfl, hsign, hd⟩ := hdigit
        obtain ⟨hspace, hplus, hminus, -⟩ := isDigit_facts hd
        have hscan : ∃ r, Decimal.scan (d :: more) = some r := by
          apply Option.ne_none_iff_exists'.mp
          intro hnone
          have hfalse := scan_eq_none_iff.mp hnone d rfl
          rw [hd] at hfalse
          cases hfalse
        obtain ⟨r, hr⟩ := hscan
        rcases hsign with rfl | rfl | rfl
        · rw [scanUnsigned, dropWhile_blank hblank (by simp [hspace])]
          simp [hplus, hminus, hr]
        · rw [scanUnsigned, dropWhile_blank hblank (by simp [isSpace])]
          simp [hr]
        · rw [scanUnsigned, dropWhile_blank hblank (by simp [isSpace])]
          simp [hr]

/-! ## Validation -/

theorem validate_iff (s : Bytes) : validate ⟨ipnUri s, true⟩ = true ↔ Loose s := by
  have hssp : EndpointID.ssp ⟨ipnUri s, true⟩ = s := rfl
  rw [validate, hssp, Loose]
  by_cases hlen : s.length < 3
  · rw [if_pos (Or.inl hlen)]
    simp only [Bool.false_eq_true, false_iff, not_and]
    omega
  · by_cases hslash : [slash, slash].isPrefixOf (cString s)
    · rw [if_neg (not_or.mpr ⟨hlen, not_not_intro hslash⟩)]
      obtain ⟨rest, hrest⟩ := List.isPrefixOf_iff_prefix.mp hslash
      have hread : scanUnsigned rest ≠ .mismatch ↔ Readable rest := scanUnsigned_ne_mismatch_iff
      rw [← hrest]
      simp only [List.cons_append, List.nil_append, List.drop_succ_cons, List.drop_zero,
        List.cons.injEq, true_and, exists_eq_left']
      rw [← hread]
      cases scanUnsigned rest with
      | value v more => simp [Nat.le_of_not_lt hlen]
      | inputFailure => simp [Nat.le_of_not_lt hlen]
      | mismatch => simp
    · rw [if_pos (Or.inr hslash)]
      simp only [Bool.false_eq_true, false_iff, not_and, not_exists]
      intro _ rest hrest
      exact absurd (List.isPrefixOf_iff_prefix.mpr ⟨rest, hrest.symm⟩) hslash

theorem Numeral.zero_notMem {t : Bytes} {n : UInt64} (h : Numeral t n) : (0 : UInt8) ∉ t := by
  intro hzero
  exact (isDigit_facts (h.digits 0 hzero)).2.2.2 rfl

theorem Numeral.star_notMem {t : Bytes} {n : UInt64} (h : Numeral t n) : star ∉ t := by
  intro hstar
  have hdigit := h.digits star hstar
  revert hdigit
  decide

theorem Numeral.readable {t : Bytes} {n : UInt64} (h : Numeral t n) (rest : Bytes) :
    Readable (t ++ rest) := by
  cases t with
  | nil => exact absurd rfl h.ne_nil
  | cons d ds =>
      refine ⟨[], d :: ds ++ rest, rfl, by simp, Or.inr ⟨[], d, ds ++ rest, rfl, Or.inl rfl, ?_⟩⟩
      exact h.digits d List.mem_cons_self

theorem Denotes.zero_notMem {s : Bytes} {n : UInt64} {service : Service}
    (h : Denotes s n service) : (0 : UInt8) ∉ s := by
  have hslash : (0 : UInt8) ≠ slash := by decide
  have hstar : (0 : UInt8) ≠ star := by decide
  cases h with
  | node ht => simp [hslash, ht.zero_notMem]
  | wildcard ht => simp [hslash, hstar, ht.zero_notMem]
  | service ht hu => simp [hslash, ht.zero_notMem, hu.zero_notMem]

theorem Grammar.loose {s : Bytes} (h : Grammar s) : Loose s := by
  obtain ⟨n, service, h⟩ := h
  have hpos : ∀ {t : Bytes} {m : UInt64}, Numeral t m → 0 < t.length := by
    intro t m ht
    exact List.length_pos_of_ne_nil ht.ne_nil
  rw [Loose, cString_eq_self h.zero_notMem]
  cases h with
  | node ht =>
      have hlen := hpos ht
      have hread := ht.readable []
      rw [List.append_nil] at hread
      refine ⟨?_, _, rfl, hread⟩
      simp only [List.length_cons]
      omega
  | wildcard ht =>
      have hlen := hpos ht
      refine ⟨?_, _, rfl, ht.readable _⟩
      simp only [List.length_cons, List.length_append]
      omega
  | service ht hu =>
      have hlen := hpos ht
      refine ⟨?_, _, rfl, ht.readable _⟩
      simp only [List.length_cons, List.length_append]
      omega

/-! ## Matching -/

theorem matchLiteral_ipn (s : Bytes) :
    matchLiteral ipnPrefix (ipnUri (slash :: slash :: s)) = some s :=
  matchLiteral_append ipnPrefix s

/-- The return value of `sscanf` on a text of the grammar, and the service number or zero. -/
def Service.scanned : Service → Int × UInt64
  | .number m => (2, m)
  | _ => (1, 0)

theorem scanIpn_eq {s : Bytes} {n : UInt64} {service : Service} (h : Denotes s n service) :
    scanIpn (ipnUri s) = (service.scanned.1, n, service.scanned.2) := by
  have hslash : ∀ rest : Bytes, ∀ b ∈ (slash :: rest).head?, Decimal.isDigit b = false := by
    intro rest b hb
    obtain rfl := Option.some.inj hb
    rfl
  have hliteral : ∀ rest : Bytes, matchLiteral [slash] (slash :: rest) = some rest :=
    fun rest => matchLiteral_append [slash] rest
  have hnone : matchLiteral [slash] [] = none := rfl
  cases h with
  | node ht =>
      rename_i t
      have hscan : scanUnsigned (t ++ []) = .value n [] := scanUnsigned_numeral ht (by simp)
      rw [List.append_nil] at hscan
      simp only [scanIpn, matchLiteral_ipn, hscan, hnone, Service.scanned]
  | wildcard ht =>
      have hscan := scanUnsigned_numeral ht (hslash [star])
      have hstar : scanUnsigned [star] = .mismatch := by decide
      simp only [scanIpn, matchLiteral_ipn, hscan, hliteral, hstar, Service.scanned]
  | service ht hu =>
      rename_i t u m
      have hscan := scanUnsigned_numeral ht (hslash u)
      have hservice : scanUnsigned (u ++ []) = .value m [] := scanUnsigned_numeral hu (by simp)
      rw [List.append_nil] at hservice
      simp only [scanIpn, matchLiteral_ipn, hscan, hliteral, hservice, Service.scanned]

theorem star_infix_iff {s : Bytes} {n : UInt64} {service : Service} (h : Denotes s n service) :
    [slash, star] <:+: ipnUri s ↔ service = .wildcard := by
  have hslash : star ≠ slash := by decide
  have hfront : star ∉ ascii ['i', 'p', 'n'] ++ [EndpointID.colon] := by decide
  have hmem : [slash, star] <:+: ipnUri s → star ∈ s := by
    intro hinfix
    have hall : star ∈ ipnUri s := hinfix.subset (by simp)
    have hsplit : ipnUri s = (ascii ['i', 'p', 'n'] ++ [EndpointID.colon]) ++ s := by
      simp [ipnUri]
    rw [hsplit, List.mem_append] at hall
    exact hall.resolve_left hfront
  cases h with
  | node ht =>
      rename_i t
      have hstar : star ∉ slash :: slash :: t := by simp [hslash, ht.star_notMem]
      simp only [reduceCtorEq, iff_false]
      exact fun hinfix => hstar (hmem hinfix)
  | wildcard ht =>
      rename_i t
      simp only [iff_true]
      refine ⟨ipnUri (slash :: slash :: t), [], ?_⟩
      simp [ipnUri]
  | service ht hu =>
      rename_i t u m
      have hstar : star ∉ slash :: slash :: (t ++ slash :: u) := by
        simp [hslash, ht.star_notMem, hu.star_notMem]
      simp only [reduceCtorEq, iff_false]
      exact fun hinfix => hstar (hmem hinfix)

theorem Service.scanned_eq_iff {a b : Service} : a.scanned = b.scanned ↔ a.number? = b.number? := by
  cases a with
  | absent => cases b <;> simp [scanned, Service.number?]
  | wildcard => cases b <;> simp [scanned, Service.number?]
  | number m => cases b <;> simp [scanned, Service.number?]

theorem Service.scanned_pos (a : Service) : ¬ a.scanned.1 < 1 := by
  cases a <;> simp [scanned]

theorem matchPattern_eq {p e : Bytes} {n m : UInt64} {servicep servicee : Service}
    (hp : Denotes p n servicep) (he : Denotes e m servicee) :
    matchPattern ⟨ipnUri p, true⟩ ⟨ipnUri e, true⟩ = .ok (decide (n = m ∧
      (servicep = .wildcard ∨ servicep.number? = servicee.number?))) := by
  have hipn : ∀ s : Bytes, (0 : UInt8) ∉ s → cString (ipnUri s) = ipnUri s := by
    intro s hs
    apply cString_eq_self
    have hfront : (0 : UInt8) ∉ ascii ['i', 'p', 'n'] := by decide
    have hcolon : (0 : UInt8) ≠ EndpointID.colon := by decide
    simp [ipnUri, hfront, hcolon, hs]
  have hscheme : EndpointID.schemeStr ⟨ipnUri p, true⟩ = ascii ['i', 'p', 'n'] := rfl
  have hne : ipnUri e ≠ EndpointID.dtnNone := by
    intro h
    have hhead : some (0x69 : UInt8) = some 0x64 := congrArg List.head? h
    revert hhead
    decide
  rw [matchPattern, hscheme, Exec.assert_bind rfl]
  simp only [hipn e he.zero_notMem, hipn p hp.zero_notMem, if_neg hne, scanIpn_eq hp, scanIpn_eq he,
    servicep.scanned_pos, servicee.scanned_pos, or_self, if_false, star_infix_iff hp]
  by_cases hn : n = m
  · rw [if_pos hn]
    by_cases hsame : servicep.number? = servicee.number?
    · have hscanned := Service.scanned_eq_iff.mpr hsame
      rw [if_pos ⟨congrArg Prod.fst hscanned, congrArg Prod.snd hscanned⟩]
      simp [hn, hsame]
      rfl
    · have hscanned : ¬ (servicep.scanned.1 = servicee.scanned.1 ∧
          servicep.scanned.2 = servicee.scanned.2) := by
        intro h
        exact hsame (Service.scanned_eq_iff.mp (Prod.ext h.1 h.2))
      rw [if_neg hscanned]
      simp [hn, hsame]
      rfl
  · rw [if_neg hn]
    simp [hn]
    rfl

/-! ## Acceptance and matching together -/

/-- Exactly the texts of the grammar are accepted, and of two accepted ones the match compares the
numbers. -/
def Meets (uriValid : Bytes → Bool) (p e : Bytes) : Prop :=
  (accepts uriValid p = true ↔ Grammar p) ∧ (accepts uriValid e = true ↔ Grammar e) ∧
  (accepts uriValid p = true → accepts uriValid e = true →
    (matchPattern ⟨ipnUri p, true⟩ ⟨ipnUri e, true⟩ = .ok true ↔ SameNumbers p e))

/-- A text of a valid URI that is loosely readable is one of the grammar. -/
def Strict (uriValid : Bytes → Bool) (s : Bytes) : Prop :=
  uriValid (ipnUri s) = true → Loose s → Grammar s

theorem accepts_iff {uriValid : Bytes → Bool} {s : Bytes} :
    accepts uriValid s = true ↔ uriValid (ipnUri s) = true ∧ Loose s := by
  rw [accepts, Bool.and_eq_true, validate_iff]

theorem strict_iff {uriValid : Bytes → Bool} {s : Bytes}
    (hvalid : Grammar s → uriValid (ipnUri s) = true) :
    (accepts uriValid s = true ↔ Grammar s) ↔ Strict uriValid s := by
  rw [accepts_iff]
  constructor
  · intro h hv hl
    exact h.mp ⟨hv, hl⟩
  · intro h
    exact ⟨fun hs => h hs.1 hs.2, fun hs => ⟨hvalid hs, hs.loose⟩⟩

/-- The scheme keeps to its grammar and its numbers exactly on texts that are in the grammar, or
that are not even loosely readable behind the slashes. -/
theorem meets_iff {uriValid : Bytes → Bool}
    (hvalid : ∀ s, Grammar s → uriValid (ipnUri s) = true) (p e : Bytes) :
    Meets uriValid p e ↔ Strict uriValid p ∧ Strict uriValid e := by
  rw [Meets, strict_iff (hvalid p), strict_iff (hvalid e)]
  constructor
  · exact fun h => ⟨h.1, h.2.1⟩
  · intro h
    refine ⟨h.1, h.2, ?_⟩
    intro hp he
    obtain ⟨n, servicep, hp⟩ := ((strict_iff (hvalid p)).mpr h.1).mp hp
    obtain ⟨m, servicee, he⟩ := ((strict_iff (hvalid e)).mpr h.2).mp he
    constructor
    · intro hmatch
      rw [matchPattern_eq hp he, Except.ok.injEq, decide_eq_true_iff] at hmatch
      rw [← hmatch.1] at he
      exact ⟨n, servicep, servicee, hp, he, hmatch.2⟩
    · intro hsame
      obtain ⟨k, sp, se, hp, he, hservice⟩ := hsame
      rw [matchPattern_eq hp he, Except.ok.injEq, decide_eq_true_iff]
      exact ⟨rfl, hservice⟩

/-- The characters that a URI can have: printable ones, and no space. -/
def graphic (uri : Bytes) : Bool := uri.all fun b => decide (0x21 ≤ b.toNat ∧ b.toNat ≤ 0x7e)

theorem graphic_of_grammar {s : Bytes} (h : Grammar s) : graphic (ipnUri s) = true := by
  have hdigit : ∀ {t : Bytes} {n : UInt64}, Numeral t n →
      t.all (fun b => decide (0x21 ≤ b.toNat ∧ b.toNat ≤ 0x7e)) = true := by
    intro t n ht
    rw [List.all_eq_true]
    intro b hb
    have hb := ht.digits b hb
    simp only [Decimal.isDigit, Bool.and_eq_true, decide_eq_true_eq] at hb ⊢
    omega
  obtain ⟨n, service, h⟩ := h
  rw [graphic, ipnUri]
  cases h with
  | node ht =>
      rw [List.all_append, List.all_cons, List.all_cons, List.all_cons, hdigit ht]
      decide
  | wildcard ht =>
      rw [List.all_append, List.all_cons, List.all_cons, List.all_cons, List.all_append, hdigit ht]
      decide
  | service ht hu =>
      rw [List.all_append, List.all_cons, List.all_cons, List.all_cons, List.all_append,
        List.all_cons, hdigit ht, hdigit hu]
      decide

theorem numeral_five : Numeral (ascii ['5']) 5 where
  ne_nil := by decide
  digits := List.all_eq_true.mp (by decide)
  value_eq := rfl

/-- A pattern for all services of a node, and a service of it. -/
theorem meets_iff_sample :
    Meets graphic (ascii ['/', '/', '5', '/', '*']) (ascii ['/', '/', '5', '/', '5']) := by
  apply (meets_iff (fun s h => graphic_of_grammar h) _ _).mpr
  constructor
  · exact fun _ _ => ⟨5, .wildcard, .wildcard numeral_five⟩
  · exact fun _ _ => ⟨5, .number 5, .service numeral_five numeral_five⟩

theorem Grammar.third_isDigit {s : Bytes} (h : Grammar s) :
    ∃ d rest, s = slash :: slash :: d :: rest ∧ Decimal.isDigit d = true := by
  have hcons : ∀ {t : Bytes} {n : UInt64}, Numeral t n →
      ∃ d ds, t = d :: ds ∧ Decimal.isDigit d = true := by
    intro t n ht
    cases t with
    | nil => exact absurd rfl ht.ne_nil
    | cons d ds => exact ⟨d, ds, rfl, ht.digits d List.mem_cons_self⟩
  obtain ⟨n, service, h⟩ := h
  cases h with
  | node ht =>
      obtain ⟨d, ds, rfl, hd⟩ := hcons ht
      exact ⟨d, ds, rfl, hd⟩
  | wildcard ht =>
      obtain ⟨d, ds, rfl, hd⟩ := hcons ht
      exact ⟨d, ds ++ [slash, star], rfl, hd⟩
  | service ht hu =>
      rename_i t u m
      obtain ⟨d, ds, rfl, hd⟩ := hcons ht
      exact ⟨d, ds ++ slash :: u, rfl, hd⟩

/-- A node number with letters behind it is accepted, a negative one too; the number `-1` matches
one that is too large for 64 bits. -/
theorem not_meets :
    accepts graphic (ascii ['/', '/', '5', 'a']) = true ∧
    accepts graphic (ascii ['/', '/', '-', '1']) = true ∧
    accepts graphic (slash :: slash :: Decimal.print (2 ^ 70)) = true ∧
    matchPattern ⟨ipnUri (ascii ['/', '/', '-', '1']), true⟩
      ⟨ipnUri (slash :: slash :: Decimal.print (2 ^ 70)), true⟩ = .ok true ∧
    ¬ ∀ uriValid : Bytes → Bool, (∀ s, Grammar s → uriValid (ipnUri s) = true) →
      ∀ p e : Bytes, Meets uriValid p e := by
  have haccepts : accepts graphic (ascii ['/', '/', '-', '1']) = true := by decide +kernel
  refine ⟨by decide +kernel, haccepts, by decide +kernel, by decide +kernel, ?_⟩
  intro h
  have hmeets := h graphic (fun s hs => graphic_of_grammar hs) (ascii ['/', '/', '-', '1'])
    (ascii ['/', '/', '-', '1'])
  obtain ⟨d, rest, heq, hd⟩ := (hmeets.1.mp haccepts).third_isDigit
  have hminus : d = 0x2d := by
    have hget := congrArg (fun t : Bytes => t[2]?) heq
    exact (Option.some.inj hget).symm
  rw [hminus] at hd
  revert hd
  decide

end IPNScheme

end Dtn2
