import Dtn2.Security.EncryptionUndone
import Dtn2.Security.OwnerValidate

/-!
# Validating a bundle with security blocks

`BundleProtocol::validate` goes through the received blocks, counts the primary and the payload
blocks, calls each processor and looks at the flag of the last block. The calls can change the list
that the loop goes through. A last block that was cut inside its preamble is dropped, and the block
in front of it is tested again as the last one.
-/

namespace Dtn2

namespace Security

open PrepareBlocks (Owner)

namespace ValidateBundle

/-- A call of a processor, with the blocks it found and the blocks it left. -/
structure Call where
  before : Received
  after : Received
  index : Nat

/-- Where `validate` stands: the bundle and its blocks, the two counts, and the calls so far. -/
structure Progress where
  st : Received
  primaries : Nat
  payloads : Nat
  calls : List Call

def Progress.count (p : Progress) (type : Nat) : Progress :=
  { p with
    primaries := if type = Owner.primary.blockType then p.primaries + 1 else p.primaries
    payloads := if type = Owner.payload.blockType then p.payloads + 1 else p.payloads }

/-- The second part of the loop body: the processor's check, and the flag of the last block. -/
def visit (d : Daemon) (p : Progress) (i : Nat) (last : Bool) : Exec (Bool × Progress) := do
  let done ← ownerValidate d p.st i
  let p : Progress := { p with st := done.2, calls := p.calls ++ [⟨p.st, done.2, i⟩] }
  if done.1 = false then pure (false, p)
  else
    match p.st.blocks[i]? with
    | none => .error (.fault .outOfBounds)
    | some b => do
        let flagged ← b.lastBlock
        pure (if last then flagged || p.st.bundle.fragmentedIncoming else !flagged, p)

/-- The checks behind the loop: the counts and the policy for incoming bundles. -/
def finish (d : Daemon) (p : Progress) : Bool × Progress :=
  (decide (p.primaries = 1 ∧ p.payloads ≤ 1) && verifyInPolicy d.checkEnv (header p.st.bundle)
    (p.st.blocks.map CSBlock.checked) d.rules, p)

/-- The last block is erased, and the loop goes on with the one in front of it. -/
def dropLast (d : Daemon) (p : Progress) : Exec (Bool × Progress) :=
  let p : Progress := { p with st := ⟨p.st.bundle, p.st.blocks.dropLast⟩ }
  if p.st.blocks.length < 2 then pure (false, p)
  else do
    let r ← visit d p (p.st.blocks.length - 1) true
    if r.1 = false then pure r else pure (finish d r.2)

/-- The loop from the block at `i` on. -/
def validateLoop (d : Daemon) : Nat → Nat → Progress → Exec (Bool × Progress)
  | 0, _, p => pure (finish d p)
  | count + 1, i, p =>
      match p.st.blocks[i]? with
      | none => pure (finish d p)
      | some b =>
          if b.info.dataOffset = 0 then
            if i + 1 = p.st.blocks.length then dropLast d p else pure (false, p)
          else do
            let type ← b.type
            let r ← visit d (p.count type) i (decide (i + 1 = p.st.blocks.length))
            if r.1 = false then pure r else validateLoop d count (i + 1) r.2

/-- `BundleProtocol::validate`: the result, and where it came to. -/
def validate (d : Daemon) (received : Received) : Exec (Bool × Progress) :=
  match received.blocks with
  | front :: _ :: _ => do
      let type ← front.type
      if type ≠ Owner.primary.blockType then pure (false, ⟨received, 0, 0, []⟩)
      else validateLoop d received.blocks.length 0 ⟨received, 0, 0, []⟩
  | _ => pure (false, ⟨received, 0, 0, []⟩)

/-! ## What is left -/

def isType (type : Nat) (b : CSBlock) : Bool := decide (b.type = .ok type)

/-- One primary block in front, at most one payload block, no block without its preamble, and the
flag on the last block alone. A bundle that was cut does not need the flag. -/
structure Wellformed (st : Received) : Prop where
  primary : ∃ front rest, st.blocks = front :: rest ∧ front.type = .ok Owner.primary.blockType ∧
    ∀ b ∈ rest, b.type ≠ .ok Owner.primary.blockType
  payload : st.blocks.countP (isType Owner.payload.blockType) ≤ 1
  preamble : ∀ b ∈ st.blocks, b.info.dataOffset ≠ 0
  unflagged : ∀ (j : Nat) b, st.blocks[j]? = some b → j + 1 < st.blocks.length → b.lastBlock = .ok false
  flagged : st.bundle.fragmentedIncoming = false →
    ∀ b, st.blocks[st.blocks.length - 1]? = some b → b.lastBlock = .ok true

/-- The indices of the calls if `n` blocks are left. -/
inductive Once (received : Received) (n : Nat) (indices : List Nat) : Prop where
  | all : n = received.blocks.length → indices = List.range n → Once received n indices
  | dropped : n + 1 = received.blocks.length → indices = List.range n ++ [n - 1] →
      Once received n indices

/-- The list that is left is well formed and the received one, but for what the calls themselves
have changed and perhaps for a last block without a preamble; each of its blocks was passed by its
own processor. -/
structure Validated (d : Daemon) (received : Received) (p : Progress) : Prop where
  wellformed : Wellformed p.st
  once : Once received p.st.blocks.length (p.calls.map Call.index)
  passed : ∀ c ∈ p.calls, ownerValidate d c.before c.index = .ok (true, c.after) ∧
    p.st.blocks[c.index]? = c.before.blocks[c.index]?
  kept : ∀ j : Nat, j < p.st.blocks.length →
    (∀ c ∈ p.calls, c.after.blocks[j]? = c.before.blocks[j]?) →
    p.st.blocks[j]? = received.blocks[j]?
  cut : ∀ b, received.blocks[p.st.blocks.length]? = some b →
    (∀ c ∈ p.calls,
      c.after.blocks[p.st.blocks.length]? = c.before.blocks[p.st.blocks.length]?) →
    b.info.dataOffset = 0

/-! ## One round -/

structure Round (d : Daemon) (p p' : Progress) (i : Nat) (last : Bool) : Prop where
  calls : p'.calls = p.calls ++ [⟨p.st, p'.st, i⟩]
  primaries : p'.primaries = p.primaries
  payloads : p'.payloads = p.payloads
  passed : ownerValidate d p.st i = .ok (true, p'.st)
  flag : ∃ b, p'.st.blocks[i]? = some b ∧
    (last = true → p'.st.bundle.fragmentedIncoming = false → b.lastBlock = .ok true) ∧
    (last = false → b.lastBlock = .ok false)

theorem visit_round {d : Daemon} {p p' : Progress} {i : Nat} {last : Bool}
    (h : visit d p i last = .ok (true, p')) : Round d p p' i last := by
  rw [visit] at h
  obtain ⟨done, hdone, h⟩ := Exec.bind_eq_ok.mp h
  dsimp only at h
  by_cases hok : done.1 = false
  · rw [if_pos hok] at h
    cases h
  · rw [if_neg hok] at h
    rw [Bool.not_eq_false] at hok
    have hpair : done = (true, done.2) := Prod.ext hok rfl
    cases hb : done.2.blocks[i]? with
    | none =>
        rw [hb] at h
        cases h
    | some b =>
        rw [hb] at h
        obtain ⟨flagged, hflagged, h⟩ := Exec.bind_eq_ok.mp h
        obtain ⟨hresult, rfl⟩ := Prod.mk.inj (Except.ok.inj h)
        refine ⟨rfl, rfl, rfl, hdone.trans (congrArg Except.ok hpair), b, hb, ?_, ?_⟩
        · intro hlast hfragmented
          rw [if_pos hlast] at hresult
          dsimp only at hfragmented
          rw [hfragmented, Bool.or_false] at hresult
          rw [hflagged, hresult]
        · intro hlast
          rw [hlast, if_neg Bool.false_ne_true, Bool.not_eq_true'] at hresult
          rw [hflagged, hresult]

theorem finish_eq_true {d : Daemon} {p p' : Progress} (h : finish d p = (true, p')) :
    p' = p ∧ p.primaries = 1 ∧ p.payloads ≤ 1 := by
  rw [finish] at h
  obtain ⟨hresult, rfl⟩ := Prod.mk.inj h
  rw [Bool.and_eq_true, decide_eq_true_iff] at hresult
  exact ⟨rfl, hresult.1⟩

theorem visit_passed {d : Daemon} {p p' : Progress} {i : Nat} {last : Bool}
    {f : Bool × Progress → Exec (Bool × Progress)}
    (h : (visit d p i last >>= fun r => if r.1 = false then pure r else f r) = .ok (true, p')) :
    ∃ q, Round d p q i last ∧ f (true, q) = .ok (true, p') := by
  obtain ⟨r, hr, h⟩ := Exec.bind_eq_ok.mp h
  by_cases hok : r.1 = false
  · rw [if_pos hok] at h
    obtain rfl := Except.ok.inj h
    cases hok
  · rw [if_neg hok] at h
    rw [Bool.not_eq_false] at hok
    have hpair : r = (true, r.2) := Prod.ext hok rfl
    rw [hpair] at hr h
    exact ⟨r.2, visit_round hr, h⟩

theorem dropLast_round {d : Daemon} {p p' : Progress} (h : dropLast d p = .ok (true, p')) :
    2 ≤ p.st.blocks.dropLast.length ∧
    Round d { p with st := ⟨p.st.bundle, p.st.blocks.dropLast⟩ } p'
      (p.st.blocks.dropLast.length - 1) true ∧
    p'.primaries = 1 ∧ p'.payloads ≤ 1 := by
  rw [dropLast] at h
  dsimp only at h
  by_cases hlen : p.st.blocks.dropLast.length < 2
  · rw [if_pos hlen] at h
    cases h
  · rw [if_neg hlen] at h
    obtain ⟨q, hround, h⟩ := visit_passed h
    obtain ⟨rfl, hcounts⟩ := finish_eq_true (Except.ok.inj h)
    exact ⟨Nat.le_of_not_lt hlen, hround, hcounts⟩

theorem validateLoop_calls {d : Daemon} {count i : Nat} {p p' : Progress}
    (h : validateLoop d count i p = .ok (true, p')) : p.calls <+: p'.calls := by
  induction count generalizing i p with
  | zero =>
      obtain ⟨rfl, -⟩ := finish_eq_true (Except.ok.inj h)
      exact List.prefix_refl _
  | succ count ih =>
      rw [validateLoop] at h
      cases hb : p.st.blocks[i]? with
      | none =>
          rw [hb] at h
          obtain ⟨rfl, -⟩ := finish_eq_true (Except.ok.inj h)
          exact List.prefix_refl _
      | some b =>
          rw [hb] at h
          dsimp only at h
          by_cases hoffset : b.info.dataOffset = 0
          · rw [if_pos hoffset] at h
            by_cases hlast : i + 1 = p.st.blocks.length
            · rw [if_pos hlast] at h
              rw [(dropLast_round h).2.1.calls]
              exact List.prefix_append _ _
            · rw [if_neg hlast] at h
              cases h
          · rw [if_neg hoffset] at h
            obtain ⟨type, -, h⟩ := Exec.bind_eq_ok.mp h
            obtain ⟨q, hround, h⟩ := visit_passed h
            apply List.IsPrefix.trans _ (ih h)
            rw [hround.calls]
            exact List.prefix_append _ _

/-! ## The whole loop -/

/-- What holds before the block at `i` is looked at. -/
structure Visited (d : Daemon) (received : Received) (i : Nat) (p : Progress) : Prop where
  length : p.st.blocks.length = received.blocks.length
  le : i ≤ p.st.blocks.length
  indices : p.calls.map Call.index = List.range i
  first : p.st.blocks[0]? = received.blocks[0]?
  passed : ∀ c ∈ p.calls, ownerValidate d c.before c.index = .ok (true, c.after) ∧
    p.st.blocks[c.index]? = c.before.blocks[c.index]?
  kept : ∀ j : Nat, (∀ c ∈ p.calls, c.after.blocks[j]? = c.before.blocks[j]?) →
    p.st.blocks[j]? = received.blocks[j]?
  seen : ∀ j : Nat, j < i → ∀ b, p.st.blocks[j]? = some b → b.info.dataOffset ≠ 0 ∧
    (j + 1 < p.st.blocks.length → b.lastBlock = .ok false)
  primaries : p.primaries =
    (p.st.blocks.take i).countP (isType Owner.primary.blockType)
  payloads : p.payloads = (p.st.blocks.take i).countP (isType Owner.payload.blockType)
  flagged : i = p.st.blocks.length → p.st.bundle.fragmentedIncoming = false →
    ∀ b, p.st.blocks[i - 1]? = some b → b.lastBlock = .ok true

theorem countP_take_succ {blocks : List CSBlock} {i type found : Nat} {b : CSBlock}
    (hb : blocks[i]? = some b) (htype : b.type = .ok found) :
    (blocks.take (i + 1)).countP (isType type) =
      if found = type then (blocks.take i).countP (isType type) + 1
      else (blocks.take i).countP (isType type) := by
  rw [List.take_add_one, hb, Option.toList_some, List.countP_append, List.countP_singleton,
    isType, htype]
  by_cases hfound : found = type
  · simp [hfound]
  · simp [hfound]

theorem Visited.step {d : Daemon} {received : Received} {i found : Nat} {p p' : Progress}
    {b : CSBlock} (hinv : Visited d received i p) (hb : p.st.blocks[i]? = some b)
    (hoffset : b.info.dataOffset ≠ 0) (htype : b.type = .ok found)
    (hround : Round d (p.count found) p' i (decide (i + 1 = p.st.blocks.length)))
    (hkeeps : KeepsFront i p.st p'.st) : Visited d received (i + 1) p' := by
  have hi : i < p.st.blocks.length := (List.getElem?_eq_some_iff.mp hb).1
  have hlen := hkeeps.length
  have hcalls : p'.calls = p.calls ++ [⟨p.st, p'.st, i⟩] := hround.calls
  have hindex : ∀ c ∈ p.calls, c.index < i := by
    intro c hc
    rw [← List.mem_range, ← hinv.indices]
    exact List.mem_map_of_mem hc
  obtain ⟨b', hb', hlast, hnot⟩ := hround.flag
  have hsame : b' = b := by
    rw [hkeeps.front i (Nat.le_refl i), hb] at hb'
    exact (Option.some.inj hb').symm
  rw [hsame] at hlast hnot
  constructor
  · exact hlen.trans hinv.length
  · omega
  · rw [hcalls, List.map_append, hinv.indices, List.range_succ]
    rfl
  · rw [hkeeps.front 0 (Nat.zero_le i), hinv.first]
  · intro c hc
    rw [hcalls, List.mem_append, List.mem_singleton] at hc
    cases hc with
    | inl hc =>
        refine ⟨(hinv.passed c hc).1, ?_⟩
        rw [hkeeps.front _ (Nat.le_of_lt (hindex c hc)), (hinv.passed c hc).2]
    | inr hc =>
        rw [hc]
        exact ⟨hround.passed, hkeeps.front i (Nat.le_refl i)⟩
  · intro j hj
    have hnew := hj ⟨p.st, p'.st, i⟩ (by rw [hcalls]; simp)
    rw [hnew]
    apply hinv.kept j
    intro c hc
    exact hj c (by rw [hcalls]; exact List.mem_append_left _ hc)
  · intro j hj c hc
    rw [hkeeps.front j (by omega)] at hc
    by_cases hji : j = i
    · rw [hji, hb] at hc
      obtain rfl := Option.some.inj hc
      refine ⟨hoffset, ?_⟩
      intro hbehind
      apply hnot
      rw [decide_eq_false_iff_not]
      omega
    · rw [hlen]
      exact hinv.seen j (by omega) c hc
  · rw [hround.primaries, hkeeps.take (Nat.le_refl _), countP_take_succ hb htype, ← hinv.primaries]
    rfl
  · rw [hround.payloads, hkeeps.take (Nat.le_refl _), countP_take_succ hb htype, ← hinv.payloads]
    rfl
  · intro hend hfragmented c hc
    rw [Nat.add_sub_cancel, hkeeps.front i (Nat.le_refl i), hb] at hc
    obtain rfl := Option.some.inj hc
    apply hlast _ hfragmented
    rw [decide_eq_true_iff]
    omega

theorem primary_of_count {blocks : List CSBlock} {front : CSBlock} {type : Nat}
    (hfront : blocks[0]? = some front) (htype : front.type = .ok type)
    (hcount : blocks.countP (isType type) = 1) :
    ∃ front rest, blocks = front :: rest ∧ front.type = .ok type ∧
      ∀ b ∈ rest, b.type ≠ .ok type := by
  cases blocks with
  | nil => cases hfront
  | cons b rest =>
      obtain rfl := Option.some.inj hfront
      refine ⟨b, rest, rfl, htype, ?_⟩
      rw [List.countP_cons_of_pos (by simp [isType, htype]), Nat.add_eq_right,
        List.countP_eq_zero] at hcount
      intro c hc hbad
      apply hcount c hc
      rw [isType, decide_eq_true_iff]
      exact hbad

theorem Visited.wellformed {d : Daemon} {received : Received} {i : Nat} {p : Progress}
    {front : CSBlock} (hinv : Visited d received i p) (hend : i = p.st.blocks.length)
    (hfront : received.blocks[0]? = some front)
    (htype : front.type = .ok Owner.primary.blockType) (hprimaries : p.primaries = 1)
    (hpayloads : p.payloads ≤ 1) : Wellformed p.st := by
  have hall : p.st.blocks.take i = p.st.blocks := List.take_of_length_le (Nat.le_of_eq hend.symm)
  have hprimary := hinv.primaries
  have hpayload := hinv.payloads
  rw [hall] at hprimary hpayload
  constructor
  · apply primary_of_count (hinv.first.trans hfront) htype
    rw [← hprimary, hprimaries]
  · rw [← hpayload]
    exact hpayloads
  · intro b hb
    obtain ⟨j, hj⟩ := List.getElem?_of_mem hb
    have hlt := (List.getElem?_eq_some_iff.mp hj).1
    exact (hinv.seen j (by omega) b hj).1
  · intro j b hb hj
    exact (hinv.seen j (by omega) b hb).2 hj
  · intro hfragmented b hb
    apply hinv.flagged hend hfragmented b
    rw [hend]
    exact hb

theorem Visited.validated_drop {d : Daemon} {received : Received} {i : Nat} {p p' : Progress}
    {b front : CSBlock} (hinv : Visited d received i p) (hb : p.st.blocks[i]? = some b)
    (hoffset : b.info.dataOffset = 0) (hlast : i + 1 = p.st.blocks.length)
    (hfront : received.blocks[0]? = some front)
    (htype : front.type = .ok Owner.primary.blockType)
    (hpos : 2 ≤ i) (hprimaries : p'.primaries = 1) (hpayloads : p'.payloads ≤ 1)
    (hround : Round d { p with st := ⟨p.st.bundle, p.st.blocks.dropLast⟩ } p' (i - 1) true)
    (hkeeps : KeepsFront (i - 1) ⟨p.st.bundle, p.st.blocks.dropLast⟩ p'.st) :
    Validated d received p' := by
  have hdrop : p.st.blocks.dropLast = p.st.blocks.take i := by
    rw [List.dropLast_eq_take, ← hlast, Nat.add_sub_cancel]
  have hlen : p'.st.blocks.length = i := by
    rw [hkeeps.length]
    dsimp only
    rw [List.length_dropLast, ← hlast, Nat.add_sub_cancel]
  -- the whole list that is left is in front of the call
  have hblocks : p'.st.blocks = p.st.blocks.take i := by
    have htake := hkeeps.take (show i ≤ i - 1 + 1 by omega)
    rw [List.take_of_length_le (by omega)] at htake
    rw [htake]
    dsimp only
    rw [hdrop, List.take_take, Nat.min_self]
  have hget : ∀ j < i, p'.st.blocks[j]? = p.st.blocks[j]? := by
    intro j hj
    rw [hblocks, List.getElem?_take_of_lt hj]
  have hindex : ∀ c ∈ p.calls, c.index < i := by
    intro c hc
    rw [← List.mem_range, ← hinv.indices]
    exact List.mem_map_of_mem hc
  have hcalls : p'.calls = p.calls ++ [⟨⟨p.st.bundle, p.st.blocks.dropLast⟩, p'.st, i - 1⟩] :=
    hround.calls
  have hold : ∀ c ∈ p.calls, c ∈ p'.calls := by
    intro c hc
    rw [hcalls]
    exact List.mem_append_left _ hc
  constructor
  · constructor
    · apply primary_of_count _ htype
      · have hcount := hround.primaries
        rw [hprimaries] at hcount
        rw [hblocks, ← hinv.primaries]
        exact hcount.symm
      · rw [hget 0 (by omega), hinv.first, hfront]
    · rw [hblocks, ← hinv.payloads]
      have hcount : p'.payloads = p.payloads := hround.payloads
      rw [← hcount]
      exact hpayloads
    · intro c hc
      obtain ⟨j, hj⟩ := List.getElem?_of_mem hc
      have hlt := (List.getElem?_eq_some_iff.mp hj).1
      rw [hget j (by omega)] at hj
      exact (hinv.seen j (by omega) c hj).1
    · intro j c hc hj
      rw [hget j (by omega)] at hc
      exact (hinv.seen j (by omega) c hc).2 (by omega)
    · intro hfragmented c hc
      obtain ⟨c', hc', hflag, -⟩ := hround.flag
      rw [hlen, hc'] at hc
      obtain rfl := Option.some.inj hc
      exact hflag rfl hfragmented
  · apply Once.dropped
    · rw [hlen, hlast, hinv.length]
    · rw [hlen, hcalls, List.map_append, hinv.indices]
      rfl
  · intro c hc
    rw [hcalls, List.mem_append, List.mem_singleton] at hc
    cases hc with
    | inl hc =>
        refine ⟨(hinv.passed c hc).1, ?_⟩
        rw [hget _ (hindex c hc)]
        exact (hinv.passed c hc).2
    | inr hc =>
        rw [hc]
        exact ⟨hround.passed, hkeeps.front (i - 1) (Nat.le_refl _)⟩
  · intro j hj hsame
    rw [hget j (by omega)]
    exact hinv.kept j fun c hc => hsame c (hold c hc)
  · intro c hc hsame
    rw [hlen] at hc hsame
    have hkept := hinv.kept i fun c hc => hsame c (hold c hc)
    rw [hb, hc] at hkept
    rw [← Option.some.inj hkept]
    exact hoffset

theorem validateLoop_validated {d : Daemon} {received : Received} {count i : Nat}
    {p p' : Progress} {front : CSBlock} (hinv : Visited d received i p)
    (hcount : received.blocks.length ≤ i + count) (hfront : received.blocks[0]? = some front)
    (htype : front.type = .ok Owner.primary.blockType)
    (h : validateLoop d count i p = .ok (true, p'))
    (hes : ∀ c ∈ p'.calls, ¬ ReachesES d.node c.before c.index) : Validated d received p' := by
  have hdone : ∀ {i : Nat} {p : Progress}, Visited d received i p → i = p.st.blocks.length →
      finish d p = (true, p') → Validated d received p' := by
    intro i p hinv hend hfinish
    obtain ⟨rfl, hprimaries, hpayloads⟩ := finish_eq_true hfinish
    constructor
    · exact hinv.wellformed hend hfront htype hprimaries hpayloads
    · exact Once.all hinv.length (by rw [hinv.indices, hend])
    · exact hinv.passed
    · exact fun j _ hsame => hinv.kept j hsame
    · intro b hb
      have hlt := (List.getElem?_eq_some_iff.mp hb).1
      rw [hinv.length] at hlt
      omega
  induction count generalizing i p with
  | zero =>
      have hle := hinv.le
      have hlen := hinv.length
      exact hdone hinv (by omega) (Except.ok.inj h)
  | succ count ih =>
      rw [validateLoop] at h
      cases hb : p.st.blocks[i]? with
      | none =>
          rw [hb] at h
          have hle := hinv.le
          have hge := List.getElem?_eq_none_iff.mp hb
          exact hdone hinv (by omega) (Except.ok.inj h)
      | some b =>
          rw [hb] at h
          dsimp only at h
          by_cases hoffset : b.info.dataOffset = 0
          · rw [if_pos hoffset] at h
            by_cases hlast : i + 1 = p.st.blocks.length
            · rw [if_pos hlast] at h
              obtain ⟨hlen, hround, hprimaries, hpayloads⟩ := dropLast_round h
              have hi : p.st.blocks.dropLast.length = i := by
                rw [List.length_dropLast, ← hlast, Nat.add_sub_cancel]
              rw [hi] at hlen hround
              have hmem := hes ⟨⟨p.st.bundle, p.st.blocks.dropLast⟩, p'.st, i - 1⟩ (by
                rw [hround.calls]
                simp)
              exact hinv.validated_drop hb hoffset hlast hfront htype hlen hprimaries hpayloads
                hround (ownerValidate_keeps hmem hround.passed)
            · rw [if_neg hlast] at h
              cases h
          · rw [if_neg hoffset] at h
            obtain ⟨found, hfound, h⟩ := Exec.bind_eq_ok.mp h
            obtain ⟨q, hround, h⟩ := visit_passed h
            have hmem := hes ⟨p.st, q.st, i⟩ (by
              apply (validateLoop_calls h).subset
              rw [hround.calls]
              exact List.mem_append_right _ (List.mem_singleton_self _))
            have hkeeps : KeepsFront i p.st q.st := ownerValidate_keeps hmem hround.passed
            exact ih (hinv.step hb hoffset hfound hround hkeeps) (by omega) h

/-- If no call reaches an encapsulated block for this node, a bundle that is valid has a well-formed
list. Each of its blocks has passed its processor once, and the last one twice if a block without a
preamble was dropped behind it. -/
theorem validate_validated (d : Daemon) (received : Received) (p : Progress)
    (h : validate d received = .ok (true, p))
    (hes : ∀ c ∈ p.calls, ¬ ReachesES d.node c.before c.index) : Validated d received p := by
  rw [validate] at h
  cases hblocks : received.blocks with
  | nil =>
      rw [hblocks] at h
      cases h
  | cons front rest =>
      cases rest with
      | nil =>
          rw [hblocks] at h
          cases h
      | cons second rest =>
          simp only [hblocks] at h
          obtain ⟨type, htype, h⟩ := Exec.bind_eq_ok.mp h
          by_cases hprimary : type = Owner.primary.blockType
          · rw [if_neg (not_not_intro hprimary)] at h
            rw [hprimary] at htype
            rw [← hblocks] at h
            have hstart : Visited d received 0 ⟨received, 0, 0, []⟩ := by
              constructor
              · rfl
              · exact Nat.zero_le _
              · rfl
              · rfl
              · exact fun c hc => absurd hc List.not_mem_nil
              · exact fun j _ => rfl
              · exact fun j hj => absurd hj (Nat.not_lt_zero j)
              · rfl
              · rfl
              · intro hend
                dsimp only at hend
                rw [hblocks] at hend
                cases hend
            apply validateLoop_validated hstart _ _ htype h hes
            · rw [hblocks]
              omega
            · rw [hblocks]
              rfl
          · rw [if_pos hprimary] at h
            cases h

/-! ## Lists that were received -/

def sampleEnv : Env where
  localEid := []
  basePortion := id
  host := id
  findKey _ _ := none
  resultLen _ := 20
  mac _ _ _ _ _ := none
  digest _ _ _ _ := none
  recover _ _ _ := none
  decapsulate _ _ _ _ := none
  otherValid _ _ _ := true

def sampleDaemon : Daemon := ⟨Sample.node, sampleEnv, [], 3⟩

def sampleBundle (cut : Bool) : Bundle :=
  { Bundle.new 1 0 with
    source := ⟨ascii ['d', 't', 'n', ':', '/', '/', 'b'], true⟩
    dest := ⟨Sample.node.localEid, true⟩
    replyto := ⟨EndpointID.dtnNone, true⟩
    custodian := ⟨EndpointID.dtnNone, true⟩
    fragmentedIncoming := cut }

def samplePrimary : CSBlock :=
  ⟨.base .primary, ⟨.primary, [], ⟨[6, 16, 0], []⟩, 1, 2, true, none⟩, none, []⟩

def samplePayload (flags : UInt8) : CSBlock :=
  ⟨.base .payload, ⟨.payload, [], ⟨[1, flags, 5], []⟩, 5, 3, true, none⟩, none, []⟩

def starved : CSBlock :=
  ⟨.base .unknown, ⟨.unknown, [], ⟨[0x33], []⟩, 0, 0, false, none⟩, none, []⟩

/-- An extension security block that holds a payload block. -/
def sealed : CSBlock :=
  ⟨.extensionSecurity, ⟨.unknown, [], ⟨[9, 0, 61], []⟩, 61, 3, true, none⟩,
    some ⟨⟨4, 5, 0, [(csIVField, List.replicate ivLen 1), (csKeyInfoField, List.replicate 16 9),
      (csSaltField, [1, 2, 3, 4])], [], [],
      [(csEncapBlockField, [0x5b, 0x5a, 0x5b, 0xf0] ++ List.replicate tagLen 7)]⟩, .none, 0⟩, []⟩

theorem exists_of_map_eq_ok {α β : Type} {x : Exec α} {f : α → β} {y : β} (h : x.map f = .ok y) :
    ∃ a, x = .ok a ∧ f a = y := by
  cases x with
  | error s => cases h
  | ok a => exact ⟨a, rfl, Except.ok.inj h⟩

/-- A primary block and a payload block with the flag. -/
theorem validate_validated_sample : ∃ p,
    validate sampleDaemon ⟨sampleBundle false, [samplePrimary, samplePayload 8]⟩ = .ok (true, p) ∧
    Validated sampleDaemon ⟨sampleBundle false, [samplePrimary, samplePayload 8]⟩ p := by
  have hrun : (validate sampleDaemon
      ⟨sampleBundle false, [samplePrimary, samplePayload 8]⟩).map (fun r => (r.1,
        r.2.calls.all fun c => c.before.blocks.all fun b => b.locals.isNone)) =
      .ok (true, true) := by decide +kernel
  obtain ⟨⟨valid, p⟩, hvalidate, hresult⟩ := exists_of_map_eq_ok hrun
  obtain ⟨rfl, hplain⟩ := Prod.mk.inj hresult
  refine ⟨p, hvalidate, validate_validated _ _ _ hvalidate ?_⟩
  rw [List.all_eq_true] at hplain
  intro c hc hreaches
  obtain ⟨b, l, hb, -, hl, -⟩ := hreaches
  have hnone := List.all_eq_true.mp (hplain c hc) b (List.mem_of_getElem? hb)
  rw [hl] at hnone
  cases hnone

/-- Behind a primary block and a payload block a starved block is dropped, and the payload block is
validated twice; an encapsulated payload block comes out behind the counts, and the valid list has
two payload blocks. -/
theorem not_validated :
    (∃ p, validate sampleDaemon ⟨sampleBundle true, [samplePrimary, samplePayload 0, starved]⟩ =
      .ok (true, p) ∧ p.calls.map Call.index = [0, 1, 1] ∧ p.st.blocks.length = 2) ∧
    (∃ p, validate sampleDaemon ⟨sampleBundle false, [samplePrimary, sealed, samplePayload 8]⟩ =
      .ok (true, p) ∧ p.st.blocks.countP (isType Owner.payload.blockType) = 2) ∧
    ¬ ∀ (d : Daemon) (received : Received) (p : Progress),
      validate d received = .ok (true, p) →
      Wellformed p.st ∧ p.calls.map Call.index = List.range p.st.blocks.length := by
  have hcut : (validate sampleDaemon
      ⟨sampleBundle true, [samplePrimary, samplePayload 0, starved]⟩).map (fun r => (r.1,
        r.2.calls.map Call.index, r.2.st.blocks.length)) = .ok (true, [0, 1, 1], 2) := by
    decide +kernel
  have hsealed : (validate sampleDaemon
      ⟨sampleBundle false, [samplePrimary, sealed, samplePayload 8]⟩).map (fun r => (r.1,
        r.2.st.blocks.countP (isType Owner.payload.blockType))) = .ok (true, 2) := by
    decide +kernel
  obtain ⟨⟨valid, p⟩, hvalidate, hresult⟩ := exists_of_map_eq_ok hcut
  obtain ⟨rfl, hresult⟩ := Prod.mk.inj hresult
  obtain ⟨hindices, hlen⟩ := Prod.mk.inj hresult
  obtain ⟨⟨valid, q⟩, hvalidate', hresult⟩ := exists_of_map_eq_ok hsealed
  obtain ⟨rfl, hcount⟩ := Prod.mk.inj hresult
  refine ⟨⟨p, hvalidate, hindices, hlen⟩, ⟨q, hvalidate', hcount⟩, ?_⟩
  intro h
  have honce := (h _ _ _ hvalidate).2
  rw [hindices, hlen] at honce
  revert honce
  decide

end ValidateBundle

end Security

end Dtn2
