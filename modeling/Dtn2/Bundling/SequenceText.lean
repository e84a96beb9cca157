import Dtn2.Bundling.SequenceID
import Dtn2.Framework.Decimal

/-!
# The text of a sequence id

A sequence id is written as a list of pairs in brackets, and the extension blocks carry this text. The
parser fills the vector while it goes along, and puts the old one back if it fails. It leaves the text
at one of many places, or when an index runs out of the string and the range throws.
-/

namespace Dtn2

namespace SequenceID

open Framework

/-! ## Characters -/

def langle : UInt8 := 0x3c

def rangle : UInt8 := 0x3e

def lparen : UInt8 := 0x28

def rparen : UInt8 := 0x29

def space : UInt8 := 0x20

def isSpace (b : UInt8) : Bool := decide (b = space) || (decide (9 ≤ b) && decide (b ≤ 13))

def isAlnum (b : UInt8) : Bool :=
  Decimal.isDigit b || (decide (0x41 ≤ b) && decide (b ≤ 0x5a)) ||
    (decide (0x61 ≤ b) && decide (b ≤ 0x7a))

def isValueChar (b : UInt8) : Bool := isAlnum b || decide (b = 0x5f) || decide (b = 0x2d)

/-! ## Writing -/

def formatValue : SequenceEntry → Bytes
  | .counter _ value => Decimal.print value.toNat
  | .identifier _ value => cString value

def formatEntry (e : SequenceEntry) : Bytes :=
  lparen :: (cString e.eid.uri ++ space :: (formatValue e ++ [rparen]))

/-- The loop of `format`, with a space in front of every entry but the first. -/
def formatEntries : Bool → List SequenceEntry → Bytes
  | _, [] => []
  | first, e :: rest => (if first then [] else [space]) ++ formatEntry e ++ formatEntries false rest

/-- `format`, into a buffer that is large enough. -/
def format (v : SequenceID) : Bytes := langle :: (formatEntries true v.vector ++ [rangle])

/-! ## Parsing -/

/-- The ways to leave the text: `goto bad`, a `SafeRange::Error`, and the assertion. Running out of fuel
is kept apart. -/
inductive Exit where
  | bad
  | thrown
  | assertion
  | diverges
deriving DecidableEq, Repr

def eatWs : Bytes → Except Exit Bytes
  | [] => .error .thrown
  | b :: bs => if isSpace b = true then eatWs bs else .ok (b :: bs)

def scanEid : Bytes → Bytes → Except Exit (Bytes × Bytes)
  | [], _ => .error .thrown
  | b :: bs, text => if isSpace b = true then .ok (text, b :: bs) else scanEid bs (text ++ [b])

/-- The loop over the characters of a value: what was read, whether it is a number, and the rest. -/
def scanValue : Bytes → Bytes → Bool → Except Exit (Bytes × Bool × Bytes)
  | [], _, _ => .error .thrown
  | b :: bs, text, isnum =>
      if isValueChar b = false then .error .bad
      else
        let text := text ++ [b]
        let isnum := isnum && Decimal.isDigit b
        match bs with
        | [] => .error .thrown
        | c :: _ => if c = rparen ∨ c = 0 then .ok (text, isnum, bs) else scanValue bs text isnum

/-- `strtoull` in front of a digit: the number, which is bounded by `ULLONG_MAX`, and the rest. -/
def strtoull (s : Bytes) : UInt64 × Bytes :=
  (UInt64.ofNat (min (Decimal.value (s.takeWhile Decimal.isDigit)) (2 ^ 64 - 1)),
    s.dropWhile Decimal.isDigit)

def makeEntry (eid : EndpointID) (s text : Bytes) (isnum : Bool) (rest : Bytes) :
    Except Exit SequenceEntry :=
  if isnum = true then
    if (strtoull s).2 = rest then .ok (.counter eid (strtoull s).1) else .error .assertion
  else .ok (.identifier eid text)

/-- An entry, behind its opening bracket and up to its closing one. -/
def parseEntry (os : Oasys) : Bytes → Except Exit (SequenceEntry × Bytes)
  | [] => .error .thrown
  | c :: bs => do
      let (text, s) ← scanEid bs [c]
      let eid := os.assign text
      if eid.valid = false then .error .bad
      else do
        let s ← eatWs s
        let (text, isnum, rest) ← scanValue s [] true
        let entry ← makeEntry eid s text isnum rest
        pure (entry, rest)

def matchChar (c : UInt8) : Bytes → Except Exit Bytes
  | [] => .error .thrown
  | b :: bs => if b = c then .ok bs else .error .bad

/-- The loop over the entries, with the vector as it is when the text is left. -/
def parseLoop (os : Oasys) : Nat → Bytes → List SequenceEntry → List SequenceEntry × Except Exit Unit
  | _, [], vector => (vector, .error .thrown)
  | 0, _ :: _, vector => (vector, .error .diverges)
  | fuel + 1, b :: s, vector =>
      if b = lparen then
        match parseEntry os s with
        | .error e => (vector, .error e)
        | .ok (entry, s) =>
            match matchChar rparen s >>= eatWs with
            | .error e => (vector ++ [entry], .error e)
            | .ok s => parseLoop os fuel s (vector ++ [entry])
      else if b = rangle then (vector, .ok ())
      else (vector, .error .bad)

/-- The text from its beginning, with an empty vector. -/
def parseText (os : Oasys) (str : Bytes) : List SequenceEntry × Except Exit Unit :=
  match matchChar langle str >>= eatWs with
  | .error e => ([], .error e)
  | .ok s => parseLoop os str.length s []

/-- `parse`: the vector and the return value. When the text is left, the old vector is swapped back. -/
def parse (os : Oasys) (v : SequenceID) (str : Bytes) : Exec (SequenceID × Bool) :=
  match parseText os str with
  | (vector, .ok _) => .ok (⟨vector⟩, true)
  | (_, .error .bad) | (_, .error .thrown) => .ok (v, false)
  | (_, .error .assertion) => .error (.fault .assertion)
  | (_, .error .diverges) => .error (.fault .diverges)

/-! ## The parser comes to an end -/

theorem eatWs_le {s t : Bytes} (h : eatWs s = .ok t) : t.length ≤ s.length := by
  induction s with
  | nil => cases h
  | cons b bs ih =>
      rw [eatWs] at h
      by_cases hb : isSpace b = true
      · rw [if_pos hb] at h
        exact Nat.le_succ_of_le (ih h)
      · rw [if_neg hb] at h
        rw [← Except.ok.inj h]

theorem scanEid_le {s text : Bytes} {r : Bytes × Bytes} (h : scanEid s text = .ok r) :
    r.2.length ≤ s.length := by
  induction s generalizing text with
  | nil => cases h
  | cons b bs ih =>
      rw [scanEid] at h
      by_cases hb : isSpace b = true
      · rw [if_pos hb] at h
        rw [← Except.ok.inj h]
      · rw [if_neg hb] at h
        exact Nat.le_succ_of_le (ih h)

/-- What is left of a value is a rest of the text, and the value ends in front of it. The text that was
read are the characters in front of the rest, digits only if it is a number. -/
theorem scanValue_spec {s text : Bytes} {isnum : Bool} {r : Bytes × Bool × Bytes}
    (h : scanValue s text isnum = .ok r) :
    ∃ read c behind, s = read ++ c :: behind ∧ r = (text ++ read, isnum && read.all Decimal.isDigit,
      c :: behind) ∧ (c = rparen ∨ c = 0) := by
  induction s generalizing text isnum with
  | nil => cases h
  | cons b bs ih =>
      rw [scanValue] at h
      by_cases hb : isValueChar b = false
      · rw [if_pos hb] at h
        cases h
      · rw [if_neg hb] at h
        cases bs with
        | nil => cases h
        | cons c behind =>
            dsimp only at h
            by_cases hend : c = rparen ∨ c = 0
            · rw [if_pos hend] at h
              refine ⟨[b], c, behind, rfl, ?_, hend⟩
              rw [← Except.ok.inj h]
              simp
            · rw [if_neg hend] at h
              obtain ⟨read, c', behind', hs, hr, hend'⟩ := ih h
              refine ⟨b :: read, c', behind', by rw [hs]; rfl, ?_, hend'⟩
              rw [hr]
              simp [Bool.and_assoc]

theorem isDigit_of_end {c : UInt8} (h : c = rparen ∨ c = 0) : Decimal.isDigit c = false := by
  cases h with
  | inl h => rw [h]; decide
  | inr h => rw [h]; decide

theorem strtoull_digits {read behind : Bytes} {c : UInt8} (hread : read.all Decimal.isDigit = true)
    (hc : Decimal.isDigit c = false) :
    strtoull (read ++ c :: behind) =
      (UInt64.ofNat (min (Decimal.value read) (2 ^ 64 - 1)), c :: behind) := by
  have hall : ∀ b ∈ read, Decimal.isDigit b = true := List.all_eq_true.mp hread
  have htake : (c :: behind).takeWhile Decimal.isDigit = [] :=
    List.takeWhile_cons_of_neg (by rw [hc]; decide)
  have hdrop : (c :: behind).dropWhile Decimal.isDigit = c :: behind :=
    List.dropWhile_cons_of_neg (by rw [hc]; decide)
  rw [strtoull, List.takeWhile_append_of_pos hall, List.dropWhile_append_of_pos hall, htake, hdrop,
    List.append_nil]

/-- An exit that goes to `bad`. -/
def Exit.restores (e : Exit) : Prop := e = .bad ∨ e = .thrown

theorem eatWs_exit {s : Bytes} {e : Exit} (h : eatWs s = .error e) : e.restores := by
  induction s with
  | nil => exact Or.inr (Except.error.inj h).symm
  | cons b bs ih =>
      rw [eatWs] at h
      by_cases hb : isSpace b = true
      · rw [if_pos hb] at h
        exact ih h
      · rw [if_neg hb] at h
        cases h

theorem scanEid_exit {s text : Bytes} {e : Exit} (h : scanEid s text = .error e) : e.restores := by
  induction s generalizing text with
  | nil => exact Or.inr (Except.error.inj h).symm
  | cons b bs ih =>
      rw [scanEid] at h
      by_cases hb : isSpace b = true
      · rw [if_pos hb] at h
        cases h
      · rw [if_neg hb] at h
        exact ih h

theorem scanValue_exit {s text : Bytes} {isnum : Bool} {e : Exit}
    (h : scanValue s text isnum = .error e) : e.restores := by
  induction s generalizing text isnum with
  | nil => exact Or.inr (Except.error.inj h).symm
  | cons b bs ih =>
      rw [scanValue] at h
      by_cases hb : isValueChar b = false
      · rw [if_pos hb] at h
        exact Or.inl (Except.error.inj h).symm
      · rw [if_neg hb] at h
        cases bs with
        | nil => exact Or.inr (Except.error.inj h).symm
        | cons c behind =>
            dsimp only at h
            by_cases hend : c = rparen ∨ c = 0
            · rw [if_pos hend] at h
              cases h
            · rw [if_neg hend] at h
              exact ih h

theorem matchChar_exit {c : UInt8} {s : Bytes} {e : Exit} (h : matchChar c s = .error e) :
    e.restores := by
  cases s with
  | nil => exact Or.inr (Except.error.inj h).symm
  | cons b bs =>
      rw [matchChar] at h
      by_cases hb : b = c
      · rw [if_pos hb] at h
        cases h
      · rw [if_neg hb] at h
        exact Or.inl (Except.error.inj h).symm

theorem matchChar_le {c : UInt8} {s t : Bytes} (h : matchChar c s = .ok t) :
    t.length ≤ s.length := by
  cases s with
  | nil => cases h
  | cons b bs =>
      rw [matchChar] at h
      by_cases hb : b = c
      · rw [if_pos hb] at h
        rw [← Except.ok.inj h]
        exact Nat.le_succ _
      · rw [if_neg hb] at h
        cases h

theorem matchEat_spec (c : UInt8) (s : Bytes) :
    (∃ t, (matchChar c s >>= eatWs) = .ok t ∧ t.length ≤ s.length) ∨
      ∃ e, (matchChar c s >>= eatWs) = .error e ∧ e.restores := by
  cases hmatch : matchChar c s with
  | error e => exact Or.inr ⟨e, rfl, matchChar_exit hmatch⟩
  | ok t =>
      cases heat : eatWs t with
      | error e => exact Or.inr ⟨e, heat, eatWs_exit heat⟩
      | ok t' => exact Or.inl ⟨t', heat, le_trans (eatWs_le heat) (matchChar_le hmatch)⟩

theorem parseEntry_spec (os : Oasys) (s : Bytes) :
    (∃ entry t, parseEntry os s = .ok (entry, t) ∧ t.length ≤ s.length) ∨
      ∃ e, parseEntry os s = .error e ∧ e.restores := by
  cases s with
  | nil => exact Or.inr ⟨.thrown, rfl, Or.inr rfl⟩
  | cons c bs =>
      rw [parseEntry]
      cases heid : scanEid bs [c] with
      | error e => exact Or.inr ⟨e, rfl, scanEid_exit heid⟩
      | ok r =>
          have hbs := scanEid_le heid
          change (∃ entry t, (if (os.assign r.1).valid = false then _ else _) = _ ∧ _) ∨
            ∃ e, (if (os.assign r.1).valid = false then _ else _) = _ ∧ _
          by_cases hvalid : (os.assign r.1).valid = false
          · rw [if_pos hvalid]
            exact Or.inr ⟨.bad, rfl, Or.inl rfl⟩
          · rw [if_neg hvalid]
            cases heat : eatWs r.2 with
            | error e => exact Or.inr ⟨e, rfl, eatWs_exit heat⟩
            | ok s =>
                have hs := eatWs_le heat
                cases hvalue : scanValue s [] true with
                | error e =>
                    refine Or.inr ⟨e, ?_, scanValue_exit hvalue⟩
                    change (scanValue s [] true >>= _) = _
                    rw [hvalue]
                    rfl
                | ok r' =>
                    obtain ⟨read, d, behind, hsplit, hr', hend⟩ := scanValue_spec hvalue
                    have hmake : ∃ entry, makeEntry (os.assign r.1) s r'.1 r'.2.1 r'.2.2 =
                        .ok entry := by
                      rw [hr', makeEntry]
                      by_cases hnum : read.all Decimal.isDigit = true
                      · rw [if_pos (by rw [hnum]; rfl), hsplit,
                          strtoull_digits hnum (isDigit_of_end hend), if_pos rfl]
                        exact ⟨_, rfl⟩
                      · rw [if_neg (by rw [Bool.true_and]; exact hnum)]
                        exact ⟨_, rfl⟩
                    obtain ⟨entry, hentry⟩ := hmake
                    refine Or.inl ⟨entry, r'.2.2, ?_, ?_⟩
                    · change (scanValue s [] true >>= _) = _
                      rw [hvalue]
                      change (makeEntry (os.assign r.1) s r'.1 r'.2.1 r'.2.2 >>= _) = _
                      rw [hentry]
                      rfl
                    · have hlen := congrArg List.length hsplit
                      rw [List.length_append] at hlen
                      rw [hr']
                      simp only [List.length_cons] at *
                      omega

theorem parseLoop_exit {os : Oasys} {fuel : Nat} {s : Bytes} {vector : List SequenceEntry}
    (hfuel : s.length ≤ fuel) {e : Exit} (h : (parseLoop os fuel s vector).2 = .error e) :
    e.restores := by
  induction fuel generalizing s vector with
  | zero =>
      rw [List.length_eq_zero_iff.mp (Nat.le_zero.mp hfuel)] at h
      exact Or.inr (Except.error.inj h).symm
  | succ fuel ih =>
      cases s with
      | nil => exact Or.inr (Except.error.inj h).symm
      | cons b s =>
          rw [parseLoop] at h
          by_cases hb : b = lparen
          · rw [if_pos hb] at h
            cases parseEntry_spec os s with
            | inr hbad =>
                obtain ⟨e', hentry, he'⟩ := hbad
                rw [hentry] at h
                rw [← Except.error.inj h]
                exact he'
            | inl hgood =>
                obtain ⟨entry, t, hentry, ht⟩ := hgood
                rw [hentry] at h
                dsimp only at h
                cases matchEat_spec rparen t with
                | inr hbad =>
                    obtain ⟨e', hmatch, he'⟩ := hbad
                    rw [hmatch] at h
                    rw [← Except.error.inj h]
                    exact he'
                | inl hgood =>
                    obtain ⟨t', hmatch, ht'⟩ := hgood
                    rw [hmatch] at h
                    rw [List.length_cons] at hfuel
                    exact ih (by omega) h
          · rw [if_neg hb] at h
            by_cases hb' : b = rangle
            · rw [if_pos hb'] at h
              cases h
            · rw [if_neg hb'] at h
              exact Or.inl (Except.error.inj h).symm

theorem parseText_exit {os : Oasys} {str : Bytes} {e : Exit} (h : (parseText os str).2 = .error e) :
    e.restores := by
  unfold parseText at h
  cases matchEat_spec langle str with
  | inr hbad =>
      obtain ⟨e', hmatch, he'⟩ := hbad
      rw [hmatch] at h
      rw [← Except.error.inj h]
      exact he'
  | inl hgood =>
      obtain ⟨t, hmatch, ht⟩ := hgood
      rw [hmatch] at h
      exact parseLoop_exit ht h

theorem parse_spec (os : Oasys) (v : SequenceID) (str : Bytes) :
    (∃ vector, parseText os str = (vector, .ok ()) ∧ parse os v str = .ok (⟨vector⟩, true)) ∨
      parse os v str = .ok (v, false) := by
  unfold parse
  cases htext : parseText os str with
  | mk vector result =>
      cases result with
      | ok u => exact Or.inl ⟨vector, rfl, rfl⟩
      | error e =>
          have he : e.restores := parseText_exit (by rw [htext])
          cases he with
          | inl he => rw [he]; exact Or.inr rfl
          | inr he => rw [he]; exact Or.inr rfl

/-! ## What was written is read back -/

/-- A valid endpoint id without white space. A valid URI is not empty, and has no zero byte. -/
structure TextEid (os : Oasys) (eid : EndpointID) : Prop where
  assigned : os.assign eid.uri = eid
  valid : eid.valid = true
  nonempty : eid.uri ≠ []
  noSpace : ∀ b ∈ eid.uri, isSpace b = false
  noZero : 0 ∉ eid.uri

theorem noSpace_of_all {uri : Bytes} (h : (uri.all fun b => !isSpace b) = true) :
    ∀ b ∈ uri, isSpace b = false := by
  intro b hb
  simpa using List.all_eq_true.mp h b hb

/-- An entry whose endpoint id is valid and without white space. The characters of an identifier are
letters, digits, underscores and hyphens, and not all of them digits. -/
def Textual (os : Oasys) : SequenceEntry → Prop
  | .counter eid _ => TextEid os eid
  | .identifier eid value =>
      TextEid os eid ∧ (∀ b ∈ value, isValueChar b = true) ∧ ∃ b ∈ value, Decimal.isDigit b = false

theorem Textual.eid {os : Oasys} {e : SequenceEntry} (h : Textual os e) : TextEid os e.eid := by
  cases e with
  | counter eid value => exact h
  | identifier eid value => exact h.1

theorem isValueChar_ne_end {b : UInt8} (h : isValueChar b = true) : ¬ (b = rparen ∨ b = 0) := by
  intro hend
  cases hend with
  | inl hend => rw [hend] at h; exact absurd h (by decide)
  | inr hend => rw [hend] at h; exact absurd h (by decide)

theorem isValueChar_of_isDigit {b : UInt8} (h : Decimal.isDigit b = true) :
    isValueChar b = true := by
  simp [isValueChar, isAlnum, h]

theorem isSpace_of_isValueChar {b : UInt8} (h : isValueChar b = true) : isSpace b = false := by
  have hall : ∀ i : Fin 256, isValueChar (UInt8.ofNat i.val) = true →
      isSpace (UInt8.ofNat i.val) = false := by decide +kernel
  have hb := hall ⟨b.toNat, b.toNat_lt⟩
  rw [UInt8.ofNat_toNat] at hb
  exact hb h

theorem scanEid_append {bs : Bytes} (hbs : ∀ b ∈ bs, isSpace b = false) (text rest : Bytes) :
    scanEid (bs ++ space :: rest) text = .ok (text ++ bs, space :: rest) := by
  induction bs generalizing text with
  | nil =>
      rw [List.nil_append, List.append_nil, scanEid, if_pos (by decide)]
  | cons b bs ih =>
      rw [List.forall_mem_cons] at hbs
      rw [List.cons_append, scanEid, if_neg (by rw [hbs.1]; decide), ih hbs.2]
      simp

theorem eatWs_of_not_space {b : UInt8} (h : isSpace b = false) (rest : Bytes) :
    eatWs (b :: rest) = .ok (b :: rest) := by
  rw [eatWs, if_neg (by rw [h]; decide)]

theorem eatWs_space (rest : Bytes) : eatWs (space :: rest) = eatWs rest := by
  rw [eatWs, if_pos (by decide)]

theorem scanValue_append {read : Bytes} (hread : ∀ b ∈ read, isValueChar b = true)
    (hne : read ≠ []) (text behind : Bytes) (isnum : Bool) :
    scanValue (read ++ rparen :: behind) text isnum =
      .ok (text ++ read, isnum && read.all Decimal.isDigit, rparen :: behind) := by
  induction read generalizing text isnum with
  | nil => exact absurd rfl hne
  | cons b bs ih =>
      rw [List.forall_mem_cons] at hread
      rw [List.cons_append, scanValue, if_neg (by rw [hread.1]; decide)]
      cases bs with
      | nil => simp
      | cons c bs =>
          rw [List.cons_append]
          dsimp only
          rw [if_neg (isValueChar_ne_end (hread.2 c List.mem_cons_self)), ← List.cons_append,
            ih hread.2 (List.cons_ne_nil _ _)]
          simp [Bool.and_assoc]

theorem formatValue_chars {os : Oasys} {e : SequenceEntry} (h : Textual os e) :
    (∀ b ∈ formatValue e, isValueChar b = true) ∧ formatValue e ≠ [] := by
  cases e with
  | counter eid value =>
      exact ⟨fun b hb => isValueChar_of_isDigit (Decimal.isDigit_of_mem_print hb),
        Decimal.print_ne_nil _⟩
  | identifier eid value =>
      obtain ⟨-, hchars, b, hb, -⟩ := h
      have hzero : 0 ∉ value := fun hz => absurd (hchars 0 hz) (by decide)
      rw [formatValue, cString_eq_self hzero]
      exact ⟨hchars, List.ne_nil_of_mem hb⟩

theorem makeEntry_format {os : Oasys} {e : SequenceEntry} (h : Textual os e) (behind : Bytes) :
    makeEntry e.eid (formatValue e ++ rparen :: behind) (formatValue e)
      ((formatValue e).all Decimal.isDigit) (rparen :: behind) = .ok e := by
  cases e with
  | counter eid value =>
      have hall : (Decimal.print value.toNat).all Decimal.isDigit = true :=
        List.all_eq_true.mpr fun b hb => Decimal.isDigit_of_mem_print hb
      have hlt := value.toNat_lt
      have hmin : min value.toNat (2 ^ 64 - 1) = value.toNat := by omega
      rw [formatValue, makeEntry, if_pos hall, strtoull_digits hall (by decide), if_pos rfl,
        Decimal.value_print, hmin, UInt64.ofNat_toNat]
      rfl
  | identifier eid value =>
      obtain ⟨-, hchars, b, hb, hdigit⟩ := h
      have hzero : 0 ∉ value := fun hz => absurd (hchars 0 hz) (by decide)
      have hsome : ¬ value.all Decimal.isDigit = true := by
        intro hall
        have htrue := List.all_eq_true.mp hall b hb
        rw [hdigit] at htrue
        exact absurd htrue (by decide)
      rw [formatValue, cString_eq_self hzero, makeEntry, if_neg hsome]
      rfl

theorem parseEntry_format {os : Oasys} {e : SequenceEntry} (h : Textual os e) (behind : Bytes) :
    parseEntry os (cString e.eid.uri ++ space :: (formatValue e ++ rparen :: behind)) =
      .ok (e, rparen :: behind) := by
  have heid := h.eid
  obtain ⟨hchars, hne⟩ := formatValue_chars h
  rw [cString_eq_self heid.noZero]
  cases huri : e.eid.uri with
  | nil => exact absurd huri heid.nonempty
  | cons c bs =>
      have hspaces : ∀ b ∈ bs, isSpace b = false := by
        intro b hb
        exact heid.noSpace b (huri ▸ List.mem_cons_of_mem c hb)
      have hassign : os.assign ([c] ++ bs) = e.eid := by
        rw [List.singleton_append, ← huri]
        exact heid.assigned
      rw [List.cons_append, parseEntry, scanEid_append hspaces]
      change (if (os.assign ([c] ++ bs)).valid = false then _ else _) = _
      rw [hassign, if_neg (by rw [heid.valid]; decide), eatWs_space]
      cases hvalue : formatValue e with
      | nil => exact absurd hvalue hne
      | cons b text =>
          have hb : isSpace b = false := isSpace_of_isValueChar (hchars b (by rw [hvalue]; simp))
          rw [List.cons_append, eatWs_of_not_space hb, ← List.cons_append, ← hvalue]
          change (scanValue (formatValue e ++ rparen :: behind) [] true >>= _) = _
          rw [scanValue_append hchars hne, List.nil_append, Bool.true_and]
          change (makeEntry e.eid (formatValue e ++ rparen :: behind) (formatValue e)
            ((formatValue e).all Decimal.isDigit) (rparen :: behind) >>= _) = _
          rw [makeEntry_format h]
          rfl

theorem eatWs_formatEntries (es : List SequenceEntry) :
    eatWs (formatEntries false es ++ [rangle]) = .ok (formatEntries true es ++ [rangle]) := by
  cases es with
  | nil => exact eatWs_of_not_space (by decide) []
  | cons e rest =>
      simp only [formatEntries, formatEntry, List.cons_append, List.nil_append,
        if_true, List.append_assoc]
      exact (eatWs_space _).trans (eatWs_of_not_space (by decide) _)

theorem parseLoop_format {os : Oasys} {es : List SequenceEntry} (hes : ∀ e ∈ es, Textual os e)
    {fuel : Nat} (hfuel : es.length < fuel) (vector : List SequenceEntry) :
    parseLoop os fuel (formatEntries true es ++ [rangle]) vector = (vector ++ es, .ok ()) := by
  induction es generalizing fuel vector with
  | nil =>
      cases fuel with
      | zero => exact absurd hfuel (Nat.not_lt_zero _)
      | succ fuel =>
          change parseLoop os (fuel + 1) (rangle :: []) vector = _
          rw [parseLoop, if_neg (by decide), if_pos rfl, List.append_nil]
  | cons e rest ih =>
      cases fuel with
      | zero => exact absurd hfuel (Nat.not_lt_zero _)
      | succ fuel =>
          rw [List.forall_mem_cons] at hes
          have htext : formatEntries true (e :: rest) ++ [rangle] =
              lparen :: (cString e.eid.uri ++ space :: (formatValue e ++
                rparen :: (formatEntries false rest ++ [rangle]))) := by
            simp only [formatEntries, formatEntry, if_true, List.nil_append, List.cons_append,
              List.append_assoc]
          have hmatch : (matchChar rparen (rparen :: (formatEntries false rest ++ [rangle])) >>=
              eatWs) = .ok (formatEntries true rest ++ [rangle]) := by
            rw [matchChar, if_pos rfl]
            exact eatWs_formatEntries rest
          rw [htext, parseLoop, if_pos rfl, parseEntry_format hes.1]
          dsimp only
          rw [hmatch]
          dsimp only
          rw [ih hes.2 (Nat.lt_of_succ_lt_succ hfuel), List.append_assoc]
          rfl

theorem formatEntries_length (first : Bool) (es : List SequenceEntry) :
    es.length ≤ (formatEntries first es).length := by
  induction es generalizing first with
  | nil => exact Nat.zero_le _
  | cons e rest ih =>
      have hrest := ih false
      simp only [formatEntries, formatEntry, List.length_append, List.length_cons]
      omega

/-- The text of a sequence id is read as this sequence id, whatever the vector was before, and a string
that the parser refuses leaves the vector as it was. -/
theorem parse_format (os : Oasys) :
    (∀ v old : SequenceID, (∀ e ∈ v.vector, Textual os e) →
      parse os old (format v) = .ok (v, true)) ∧
    ∀ (old : SequenceID) (str : Bytes), ∃ v ok, parse os old str = .ok (v, ok) ∧
      (ok = false → v = old) := by
  constructor
  · intro v old h
    have hlen := formatEntries_length true v.vector
    have hmatch : (matchChar langle (format v) >>= eatWs) =
        .ok (formatEntries true v.vector ++ [rangle]) := by
      rw [format, matchChar, if_pos rfl]
      change eatWs _ = _
      cases hv : v.vector with
      | nil => exact eatWs_of_not_space (by decide) _
      | cons e rest =>
          simp only [formatEntries, formatEntry, if_true, List.nil_append, List.cons_append]
          exact eatWs_of_not_space (by decide) _
    have htext : parseText os (format v) = (v.vector, .ok ()) := by
      rw [parseText, hmatch]
      dsimp only
      rw [parseLoop_format h, List.nil_append]
      rw [format, List.length_cons, List.length_append]
      omega
    rw [parse, htext]
  · intro old str
    cases parse_spec os old str with
    | inl hgood =>
        obtain ⟨vector, -, hparse⟩ := hgood
        exact ⟨_, _, hparse, fun h => absurd h (by decide)⟩
    | inr hbad => exact ⟨_, _, hbad, fun _ => rfl⟩

/-- A counter of `dtn:a` and an identifier of `dtn:b`. -/
def sampleText : SequenceID :=
  ⟨[.counter (Oasys.plain.assign (ascii ['d', 't', 'n', ':', 'a'])) 70,
    .identifier (Oasys.plain.assign (ascii ['d', 't', 'n', ':', 'b'])) (ascii ['1', '-', 'x'])]⟩

theorem parse_format_sample :
    parse .plain ⟨[]⟩ (format sampleText) = .ok (sampleText, true) ∧
    ∃ v ok, parse .plain sampleText (ascii ['<', '(', 'd', 't', 'n', ':', 'c', ' ', ')']) =
      .ok (v, ok) ∧ (ok = false → v = sampleText) := by
  constructor
  · apply (parse_format .plain).1
    intro e he
    cases List.mem_cons.mp he with
    | inl he =>
        rw [he]
        exact ⟨by decide, by decide, by decide, noSpace_of_all (by decide), by decide⟩
    | inr he =>
        have heid : TextEid .plain (Oasys.plain.assign (ascii ['d', 't', 'n', ':', 'b'])) :=
          ⟨by decide, by decide, by decide, noSpace_of_all (by decide), by decide⟩
        rw [List.mem_singleton.mp he]
        refine ⟨heid, List.all_eq_true.mp (by decide), 0x78, ?_⟩
        exact ⟨by decide, by decide⟩
  · exact (parse_format .plain).2 sampleText _

end SequenceID

end Dtn2
