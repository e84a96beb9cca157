import Dtn2.Bundling.Core

/-!
# Control bundles of the TCA router

A control bundle is a code, a colon and the arguments with tabs between them. `str` writes it and
the constructor reads it back; an empty last argument leaves no trace in the text.
-/

namespace Dtn2

inductive TypeCode where
  | null
  | adv
  | advSent
  | ask
  | askReceived
  | askSent
  | coa
  | coaSent
  | regReceived
  | routes
  | unb
  | linkAnnounce
  | linkAvailable
  | linkUnavailable
  | contactUp
  | contactDown
  | unknown
deriving DecidableEq, Repr

structure TcaControlBundle where
  type : TypeCode
  code : Bytes
  args : List Bytes
deriving DecidableEq, Repr

namespace TcaControlBundle

def colon : UInt8 := 0x3a
def tab : UInt8 := 0x09

/-- The chain of comparisons at the end of `parse_payload`. -/
def typeOfCode (code : Bytes) : TypeCode :=
  if code = ascii "adv".toList then .adv
  else if code = ascii "adv_sent".toList then .advSent
  else if code = ascii "ask".toList then .ask
  else if code = ascii "ask_received".toList then .askReceived
  else if code = ascii "ask_sent".toList then .askSent
  else if code = ascii "coa".toList then .coa
  else if code = ascii "coa_sent".toList then .coaSent
  else if code = ascii "reg_received".toList then .regReceived
  else if code = ascii "routes".toList then .routes
  else if code = ascii "unb".toList then .unb
  else if code = ascii "link_announce".toList then .linkAnnounce
  else if code = ascii "link_available".toList then .linkAvailable
  else if code = ascii "link_unavailable".toList then .linkUnavailable
  else if code = ascii "contact_up".toList then .contactUp
  else if code = ascii "contact_down".toList then .contactDown
  else .unknown

/-- `parse_payload` on the references `type` and `body`: the type, the code and the body it leaves.
Nothing but the code is written for an empty payload. -/
def parsePayload (payload : Bytes) (type : TypeCode) (body : Bytes) : TypeCode × Bytes × Bytes :=
  if payload.length = 0 then (type, [], body)
  else
    match payload.findIdx? fun b => b = colon with
    | none => (typeOfCode payload, payload, body)
    | some i => (typeOfCode (payload.take i), payload.take i, payload.drop (i + 1))

/-- `eat_to_tab`: the string up to the first tab, and what is left of it behind the tab. -/
def eatToTab (s : Bytes) : Bytes × Bytes :=
  match s.findIdx? fun b => b = tab with
  | none => (s, [])
  | some i => (s.take i, s.drop (i + 1))

def eatArgs : Nat → Bytes → Exec (List Bytes)
  | _, [] => pure []
  | 0, _ :: _ => .error (.fault .diverges)
  | fuel + 1, b :: bs => do
      let (arg, s) := eatToTab (b :: bs)
      let args ← eatArgs fuel s
      pure (arg :: args)

/-- `TcaControlBundle(const std::string&)`. `memory` is what is in `type_` before it is written: no
initializer sets it. -/
def ofPayload (memory : TypeCode) (payload : Bytes) : Exec TcaControlBundle := do
  let (type, code, s) := parsePayload payload memory []
  let args ← eatArgs s.length s
  pure ⟨type, code, args⟩

/-- The arguments in `str`: the first one, and the others behind a tab each. -/
def joined : List Bytes → Bytes
  | [] => []
  | arg :: args => arg ++ args.flatMap fun a => tab :: a

def str (cb : TcaControlBundle) : Bytes := cb.code ++ colon :: joined cb.args

/-! ## Reading arguments -/

theorem joined_cons_cons (a b : Bytes) (args : List Bytes) :
    joined (a :: b :: args) = a ++ tab :: joined (b :: args) := rfl

theorem eatToTab_last {a : Bytes} (h : tab ∉ a) : eatToTab a = (a, []) := by
  have hnone : (a.findIdx? fun b => decide (b = tab)) = none := by
    rw [List.findIdx?_eq_none_iff]
    intro b hb
    apply decide_eq_false
    intro heq
    rw [heq] at hb
    exact h hb
  rw [eatToTab, hnone]

theorem findIdx_append {a : Bytes} {sep : UInt8} (h : sep ∉ a) (rest : Bytes) :
    ((a ++ sep :: rest).findIdx? fun b => decide (b = sep)) = some a.length := by
  induction a with
  | nil =>
      rw [List.nil_append, List.findIdx?_cons, decide_eq_true rfl]
      rfl
  | cons c a ih =>
      have hc : c ≠ sep := by
        intro heq
        apply h
        rw [heq]
        exact List.mem_cons_self
      have ha : sep ∉ a := fun hmem => h (List.mem_cons_of_mem c hmem)
      rw [List.cons_append, List.findIdx?_cons, decide_eq_false hc, ih ha]
      rfl

theorem eatToTab_append {a : Bytes} (h : tab ∉ a) (rest : Bytes) :
    eatToTab (a ++ tab :: rest) = (a, rest) := by
  rw [eatToTab, findIdx_append h]
  simp

theorem eatToTab_length (b : UInt8) (bs : Bytes) : (eatToTab (b :: bs)).2.length ≤ bs.length := by
  rw [eatToTab]
  cases (b :: bs).findIdx? fun b => decide (b = tab) with
  | none => exact Nat.zero_le _
  | some i =>
      simp only [List.length_drop, List.length_cons]
      omega

theorem eatArgs_ends (fuel : Nat) (s : Bytes) (hfuel : s.length ≤ fuel) :
    ∃ args, eatArgs fuel s = .ok args := by
  induction fuel generalizing s with
  | zero =>
      rw [List.length_eq_zero_iff.mp (Nat.le_zero.mp hfuel)]
      exact ⟨[], rfl⟩
  | succ fuel ih =>
      cases s with
      | nil => exact ⟨[], rfl⟩
      | cons b bs =>
          have hlen := eatToTab_length b bs
          rw [List.length_cons] at hfuel
          obtain ⟨args, hargs⟩ := ih (eatToTab (b :: bs)).2 (by omega)
          refine ⟨(eatToTab (b :: bs)).1 :: args, ?_⟩
          rw [eatArgs]
          dsimp only
          rw [hargs]
          rfl

/-- An empty argument at the end is lost. -/
def readBack (args : List Bytes) : List Bytes :=
  if args.getLast? = some [] then args.dropLast else args

theorem readBack_eq_self (args : List Bytes) : readBack args = args ↔ args.getLast? ≠ some [] := by
  rw [readBack]
  by_cases hlast : args.getLast? = some []
  · rw [if_pos hlast]
    constructor
    · intro heq
      have hlen := congrArg List.length heq
      rw [List.length_dropLast] at hlen
      cases args with
      | nil => cases hlast
      | cons a args =>
          rw [List.length_cons] at hlen
          omega
    · intro hne
      exact absurd hlast hne
  · rw [if_neg hlast]
    exact ⟨fun _ => hlast, fun _ => rfl⟩

theorem readBack_cons_cons (a b : Bytes) (args : List Bytes) :
    readBack (a :: b :: args) = a :: readBack (b :: args) := by
  rw [readBack, readBack, List.getLast?_cons_cons]
  by_cases hlast : (b :: args).getLast? = some []
  · rw [if_pos hlast, if_pos hlast, List.dropLast_cons_cons]
  · rw [if_neg hlast, if_neg hlast]

theorem eatArgs_joined (args : List Bytes) (hargs : ∀ a ∈ args, tab ∉ a) (fuel : Nat)
    (hfuel : (joined args).length ≤ fuel) : eatArgs fuel (joined args) = .ok (readBack args) := by
  induction args generalizing fuel with
  | nil =>
      rw [joined, eatArgs]
      rfl
  | cons a args ih =>
      have ha := hargs a List.mem_cons_self
      have hrest : ∀ b ∈ args, tab ∉ b := fun b hb => hargs b (List.mem_cons_of_mem a hb)
      cases args with
      | nil =>
          have hjoined : joined [a] = a := List.append_nil a
          rw [hjoined] at hfuel ⊢
          cases a with
          | nil =>
              rw [eatArgs]
              rfl
          | cons c a =>
              cases fuel with
              | zero => cases hfuel
              | succ fuel =>
                  rw [eatArgs, eatToTab_last ha]
                  dsimp only
                  rw [eatArgs]
                  rfl
      | cons b args =>
          rw [joined_cons_cons] at hfuel ⊢
          rw [List.length_append, List.length_cons] at hfuel
          cases fuel with
          | zero => omega
          | succ fuel =>
              have hstep := ih hrest fuel (by omega)
              have heat := eatToTab_append ha (joined (b :: args))
              rw [readBack_cons_cons]
              cases htext : a ++ tab :: joined (b :: args) with
              | nil => simp at htext
              | cons c s =>
                  rw [htext] at heat
                  rw [eatArgs, heat]
                  dsimp only
                  rw [hstep]
                  rfl

/-! ## Reading a bundle -/

theorem ofPayload_str (memory : TypeCode) (cb : TcaControlBundle) (hcode : colon ∉ cb.code)
    (hargs : ∀ a ∈ cb.args, tab ∉ a) :
    ofPayload memory cb.str = .ok ⟨typeOfCode cb.code, cb.code, readBack cb.args⟩ := by
  have hpos : ¬ (str cb).length = 0 := by
    rw [str, List.length_append, List.length_cons]
    omega
  have hparse : parsePayload (str cb) memory [] = (typeOfCode cb.code, cb.code, joined cb.args) := by
    rw [parsePayload, if_neg hpos, str, findIdx_append hcode]
    simp
  rw [ofPayload, hparse]
  dsimp only
  rw [eatArgs_joined cb.args hargs _ (le_refl _)]
  rfl

theorem ofPayload_ends (memory : TypeCode) (payload : Bytes) :
    ∃ args, ofPayload memory payload = .ok ⟨(parsePayload payload memory []).1,
      (parsePayload payload memory []).2.1, args⟩ := by
  obtain ⟨args, hargs⟩ := eatArgs_ends (parsePayload payload memory []).2.2.length _ (le_refl _)
  refine ⟨args, ?_⟩
  rw [ofPayload]
  dsimp only
  rw [hargs]
  rfl

theorem parsePayload_type (payload : Bytes) :
    (∀ memory, (parsePayload payload memory []).1 = typeOfCode (parsePayload payload memory []).2.1) ↔
      payload ≠ [] := by
  constructor
  · intro h hnil
    rw [hnil] at h
    have hnull := h .null
    cases hnull
  · intro hne memory
    rw [parsePayload, if_neg (fun hlen => hne (List.length_eq_zero_iff.mp hlen))]
    cases payload.findIdx? fun b => decide (b = colon) with
    | none => rfl
    | some i => rfl

/-- A control bundle is read back with its code, type and arguments, and the constructor sets the
type of a payload, exactly if the last argument and the payload are not empty. -/
theorem ofPayload_iff (code : Bytes) (args : List Bytes) (payload : Bytes) (hcode : colon ∉ code)
    (hargs : ∀ a ∈ args, tab ∉ a) :
    ((∀ memory, ofPayload memory (str ⟨typeOfCode code, code, args⟩) =
        .ok ⟨typeOfCode code, code, args⟩) ∧
      ∀ memory, ∃ cb, ofPayload memory payload = .ok cb ∧ cb.type = typeOfCode cb.code) ↔
    args.getLast? ≠ some [] ∧ payload ≠ [] := by
  rw [← readBack_eq_self, ← parsePayload_type]
  constructor
  · rintro ⟨hround, htype⟩
    constructor
    · have hback := ofPayload_str .null ⟨typeOfCode code, code, args⟩ hcode hargs
      rw [hround] at hback
      simp only [Except.ok.injEq, mk.injEq, true_and] at hback
      exact hback.symm
    · intro memory
      obtain ⟨cb, hcb, hset⟩ := htype memory
      obtain ⟨read, hread⟩ := ofPayload_ends memory payload
      rw [hread] at hcb
      cases hcb
      exact hset
  · rintro ⟨hback, htype⟩
    constructor
    · intro memory
      rw [ofPayload_str memory _ hcode hargs, hback]
    · intro memory
      obtain ⟨read, hread⟩ := ofPayload_ends memory payload
      exact ⟨_, hread, htype memory⟩

theorem ofPayload_iff_sample :
    ((∀ memory, ofPayload memory (str ⟨typeOfCode (ascii "coa".toList), ascii "coa".toList,
        [[], ascii "a b".toList]⟩) =
        .ok ⟨typeOfCode (ascii "coa".toList), ascii "coa".toList, [[], ascii "a b".toList]⟩) ∧
      ∀ memory, ∃ cb, ofPayload memory (ascii "ask".toList) = .ok cb ∧
        cb.type = typeOfCode cb.code) ↔
    [[], ascii "a b".toList].getLast? ≠ some [] ∧ ascii "ask".toList ≠ [] :=
  ofPayload_iff _ _ _ (by decide) (by decide)

/-- The only argument of a bundle is empty and is lost, and the type of an empty payload stays as it
was in memory. -/
theorem ofPayload_not_round_trip :
    ofPayload .null (str ⟨.coa, ascii "coa".toList, [[]]⟩) ≠ .ok ⟨.coa, ascii "coa".toList, [[]]⟩ ∧
      ¬ ∀ memory, ∃ cb, ofPayload memory [] = .ok cb ∧ cb.type = typeOfCode cb.code := by
  refine ⟨by decide, ?_⟩
  intro h
  obtain ⟨cb, hcb, htype⟩ := h .null
  cases hcb
  cases htype

end TcaControlBundle

end Dtn2
