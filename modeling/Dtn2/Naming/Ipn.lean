import Dtn2.Framework.Decimal
import Dtn2.Bundling.Core

/-!
# The ipn scheme

`IPNScheme::validate` and the two helpers of the primary block processor that turn an endpoint
id into a pair of numbers and back. The conversions of `sscanf` follow the C library: an
unsigned conversion skips white space, takes an optional sign, and saturates at the largest
64-bit value.
-/

namespace Dtn2

open Framework

def isSpace (b : UInt8) : Bool := decide (b = 0x20) || (decide (9 ≤ b.toNat) && decide (b.toNat ≤ 13))

/-- How a conversion of `sscanf` can end. -/
inductive Scanned (α : Type) where
  | value (v : α) (rest : Bytes)
  | mismatch
  | inputFailure
deriving DecidableEq, Repr

/-- The value that `strtoul` gives for a magnitude behind a sign. -/
def strtoul (negative : Bool) (magnitude : Nat) : UInt64 :=
  if 2 ^ 64 ≤ magnitude then UInt64.ofNat (2 ^ 64 - 1)
  else if negative then 0 - UInt64.ofNat magnitude else UInt64.ofNat magnitude

/-- The `%lu` conversion at the front of a C string. -/
def scanUnsigned (input : Bytes) : Scanned UInt64 :=
  match input.dropWhile isSpace with
  | [] => .inputFailure
  | b :: bs =>
      let digits := if b = 0x2b ∨ b = 0x2d then bs else b :: bs
      match Decimal.scan digits with
      | none => .mismatch
      | some (n, rest) => .value (strtoul (b = 0x2d) n) rest

def ipnPrefix : Bytes := ascii ['i', 'p', 'n', ':', '/', '/']

def slash : UInt8 := 0x2f

def matchLiteral (lit input : Bytes) : Option Bytes :=
  if lit.isPrefixOf input then some (input.drop lit.length) else none

/-- `get_ipn`: the return value and what is in `*ieid` and `*itag` afterwards. -/
def getIpn (eid : EndpointID) (ieid itag : UInt64) : Bool × UInt64 × UInt64 :=
  let temp := cString eid.uri
  if temp = EndpointID.dtnNone then (true, 0, 0)
  else
    match matchLiteral ipnPrefix temp with
    | none => (false, ieid, itag)
    | some temp =>
        match scanUnsigned temp with
        | .mismatch => (false, ieid, itag)
        | .inputFailure => (false, ieid, itag)
        | .value ieid rest =>
            match matchLiteral [slash] rest with
            | none => (true, ieid, itag)
            | some rest =>
                match scanUnsigned rest with
                | .value itag _ => (true, ieid, itag)
                | _ => (true, ieid, itag)

/-- `make_ipn`: the text printed into the buffer. -/
def makeIpn (eid path : UInt64) : Bytes :=
  if eid = 0 then EndpointID.dtnNone
  else if path = 0 then ipnPrefix ++ Decimal.print eid.toNat
  else ipnPrefix ++ Decimal.print eid.toNat ++ slash :: Decimal.print path.toNat

/-! ## Strings that are printed as they are scanned -/

/-- The strings that `make_ipn` prints: the null endpoint id, a node number, or a node and a
service number, both positive and without leading zeros. -/
inductive CanonicalIpn : Bytes → Prop where
  | none : CanonicalIpn EndpointID.dtnNone
  | node (n : UInt64) : n ≠ 0 → CanonicalIpn (ipnPrefix ++ Decimal.print n.toNat)
  | service (n m : UInt64) : n ≠ 0 → m ≠ 0 →
      CanonicalIpn (ipnPrefix ++ Decimal.print n.toNat ++ slash :: Decimal.print m.toNat)

theorem makeIpn_canonical (n m : UInt64) : CanonicalIpn (makeIpn n m) := by
  unfold makeIpn
  split
  · exact .none
  · rename_i hn
    split
    · exact .node n hn
    · rename_i hm
      exact .service n m hn hm

theorem isDigit_facts {b : UInt8} (h : Decimal.isDigit b = true) :
    isSpace b = false ∧ b ≠ 0x2b ∧ b ≠ 0x2d ∧ b ≠ 0 := by
  simp only [Decimal.isDigit, Bool.and_eq_true, decide_eq_true_eq] at h
  have hne : ∀ c : UInt8, c.toNat < 48 → b ≠ c := by
    rintro c hc rfl
    omega
  refine ⟨?_, hne _ (by decide), hne _ (by decide), hne _ (by decide)⟩
  have hspace : b ≠ 0x20 := hne _ (by decide)
  simp only [isSpace, hspace, decide_false, Bool.false_or, Bool.and_eq_false_iff,
    decide_eq_false_iff_not]
  omega

theorem scanUnsigned_print (n : UInt64) (rest : Bytes)
    (hrest : ∀ b ∈ rest.head?, Decimal.isDigit b = false) :
    scanUnsigned (Decimal.print n.toNat ++ rest) = .value n rest := by
  obtain ⟨b, bs, hprint⟩ := List.exists_cons_of_ne_nil (Decimal.print_ne_nil n.toNat)
  have hb : Decimal.isDigit b = true :=
    Decimal.isDigit_of_mem_print (n := n.toNat) (by rw [hprint]; exact List.mem_cons_self)
  obtain ⟨hspace, hplus, hminus, -⟩ := isDigit_facts hb
  have hscan := Decimal.scan_print n.toNat rest hrest
  have hlt := n.toNat_lt
  have hdrop : (b :: (bs ++ rest)).dropWhile isSpace = b :: (bs ++ rest) := by
    rw [List.dropWhile_cons, hspace]
    simp
  rw [hprint, List.cons_append] at hscan ⊢
  rw [scanUnsigned, hdrop]
  simp only [hplus, hminus, or_self, if_false, hscan, strtoul, decide_false, Bool.false_eq_true]
  rw [if_neg (by omega), UInt64.ofNat_toNat]

theorem zero_notMem_print (n : Nat) : (0 : UInt8) ∉ Decimal.print n := by
  intro h
  exact (isDigit_facts (Decimal.isDigit_of_mem_print h)).2.2.2 rfl

theorem CanonicalIpn.cString_eq {s : Bytes} (h : CanonicalIpn s) : cString s = s := by
  apply cString_eq_self
  cases h with
  | none => decide
  | node n _ =>
      rw [List.mem_append, not_or]
      exact ⟨by decide, zero_notMem_print _⟩
  | service n m _ _ =>
      rw [List.mem_append, List.mem_append, List.mem_cons, not_or, not_or, not_or]
      exact ⟨⟨by decide, zero_notMem_print _⟩, by decide, zero_notMem_print _⟩

theorem matchLiteral_append (lit rest : Bytes) :
    matchLiteral lit (lit ++ rest) = some rest := by
  rw [matchLiteral, if_pos (by simp), List.drop_left]

private theorem ipnPrefix_ne_none (rest : Bytes) : ipnPrefix ++ rest ≠ EndpointID.dtnNone := by
  intro h
  have hhead : some (0x69 : UInt8) = some 0x64 := congrArg List.head? h
  revert hhead
  decide

theorem getIpn_canonical {e : EndpointID} (h : CanonicalIpn e.uri) :
    (getIpn e 0 0).1 = true ∧ makeIpn (getIpn e 0 0).2.1 (getIpn e 0 0).2.2 = e.uri := by
  have hc := h.cString_eq
  generalize huri : e.uri = s at h hc
  rw [getIpn, huri, hc]
  cases h with
  | none => exact ⟨rfl, rfl⟩
  | node n hn =>
      have hscan := scanUnsigned_print n [] (by simp)
      rw [List.append_nil] at hscan
      have hslash : matchLiteral [slash] [] = none := rfl
      simp only [if_neg (ipnPrefix_ne_none _), matchLiteral_append, hscan, hslash]
      refine ⟨trivial, ?_⟩
      rw [makeIpn, if_neg hn, if_pos rfl]
  | service n m hn hm =>
      have hscan := scanUnsigned_print n (slash :: Decimal.print m.toNat) (by
        intro b hb
        obtain rfl := Option.some.inj hb
        rfl)
      have htag := scanUnsigned_print m [] (by simp)
      have hslash : matchLiteral [slash] (slash :: Decimal.print m.toNat) =
          some (Decimal.print m.toNat) := matchLiteral_append [slash] _
      rw [List.append_nil] at htag
      rw [List.append_assoc, if_neg (ipnPrefix_ne_none _), matchLiteral_append]
      simp only [hscan, hslash, htag]
      refine ⟨trivial, ?_⟩
      rw [makeIpn, if_neg hn, if_neg hm, List.append_assoc]

theorem makeIpn_length_le (n m : UInt64) : (makeIpn n m).length ≤ 47 := by
  have hlen : ∀ v : UInt64, (Decimal.print v.toNat).length ≤ 20 := fun v =>
    Decimal.print_length_le (by decide) (by have := v.toNat_lt; omega)
  have hpre : ipnPrefix.length = 6 := rfl
  have hnone : EndpointID.dtnNone.length = 8 := rfl
  have h1 := hlen n
  have h2 := hlen m
  unfold makeIpn
  split
  · omega
  · split
    · rw [List.length_append]
      omega
    · rw [List.length_append, List.length_append, List.length_cons]
      omega

namespace IPNScheme

/-- `IPNScheme::validate` on a well-formed URI: two slashes and something behind them on which
`sscanf(.., "%lu/*", ..)` does not return zero. At the end of the string it returns `EOF`. -/
def validate (eid : EndpointID) : Bool :=
  if eid.ssp.length < 3 ∨ ¬ [slash, slash].isPrefixOf (cString eid.ssp) then false
  else
    match scanUnsigned ((cString eid.ssp).drop 2) with
    | .value _ _ => true
    | .inputFailure => true
    | .mismatch => false

end IPNScheme

end Dtn2
