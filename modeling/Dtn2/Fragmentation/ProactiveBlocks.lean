import Dtn2.Fragmentation.Proactive
import Dtn2.Fragmentation.ReassembledBlocks

/-!
# The blocks of the fragments for a link

A received block is passed on in every fragment if it is marked so, and else in the first fragment
if it stands in front of the payload, and in the last one if it stands behind it. Which fragment
is the last one is predicted before the fragment is created, from the length of all blocks of a last
fragment; `create_fragment` then decides by itself whether the rest of the payload fits.
-/

namespace Dtn2

namespace FragmentManager

def replicated (block : XmitBlock) : Bool :=
  match block.flags with
  | .ok flags => decide (flags &&& blockFlagReplicate ≠ 0)
  | .error _ => false

def inEvery (block : XmitBlock) : Bool :=
  decide block.toBlockInfo.IsPrimary || decide block.toBlockInfo.IsPayload || replicated block

def beforePayload (blocks : List XmitBlock) : List XmitBlock :=
  blocks.takeWhile fun block => !decide block.toBlockInfo.IsPayload

def fromPayload (blocks : List XmitBlock) : List XmitBlock :=
  blocks.dropWhile fun block => !decide block.toBlockInfo.IsPayload

/-- The received blocks among those that satisfy `p`. -/
def received (p : XmitBlock → Bool) (blocks : List XmitBlock) : List BlockInfo :=
  (blocks.filter p).filterMap XmitBlock.source

/-- The received blocks that belong into a fragment: the first one, or the one that ends the
payload. -/
def wanted (blocks : List XmitBlock) (first last : Bool) : List BlockInfo :=
  received (fun block => inEvery block || first) (beforePayload blocks) ++
    received (fun block => inEvery block || last) (fromPayload blocks)

/-- The received blocks behind the payload that belong into one fragment only. -/
def trailingOnce (blocks : List XmitBlock) : List BlockInfo :=
  received (fun block => !inEvery block) (fromPayload blocks)

def BlocksKept (bundle : Bundle) (blocks : List XmitBlock) : Bool → List Piece → Prop
  | _, [] => True
  | first, piece :: pieces =>
      piece.fragment.recvBlocks.blocks = wanted blocks first
        (decide (piece.offset + piece.fragment.payload.length = bundle.payload.length)) ∧
      BlocksKept bundle blocks false pieces

/-- The prediction that a fragment is the last one agrees with the check of `create_fragment`
whether it takes the rest of the payload. -/
def Start.Agrees (bundle : Bundle) (blocks : List XmitBlock) (maxLength : Nat) (s : Start) :
    Prop :=
  s.first = true ∨ (s.last = true ↔ bundle.payload.length ≤
    (s.offset + room bundle blocks s.offset maxLength s.first s.last) % 2 ^ 64)

/-! ## The copied blocks -/

section Copied

variable {blocks : List XmitBlock} {first last : Bool}

private theorem received_cons (p : XmitBlock → Bool) (block : XmitBlock)
    (blocks : List XmitBlock) :
    received p (block :: blocks) =
      (if p block = true then block.source.toList else []) ++ received p blocks := by
  unfold received
  rw [List.filter_cons]
  split
  · rw [List.filterMap_cons]
    cases block.source <;> rfl
  · rfl

private theorem copiesBlock_eq {found copied : Bool} {type : Nat} {block : XmitBlock}
    (htype : block.type = .ok type)
    (h : copiesBlock first last found type block = .ok copied) :
    (if copied = true then block.source.toList else []) =
      if (inEvery block || (if found = true then last else first)) = true then
        block.source.toList else [] := by
  have hprimary : block.toBlockInfo.IsPrimary ↔ type = Processor.primary.blockType := by
    rw [BlockInfo.IsPrimary, htype]
    exact ⟨Except.ok.inj, congrArg Except.ok⟩
  have hpayload : block.toBlockInfo.IsPayload ↔ type = Processor.payload.blockType := by
    rw [BlockInfo.IsPayload, htype]
    exact ⟨Except.ok.inj, congrArg Except.ok⟩
  unfold copiesBlock at h
  unfold inEvery
  simp only [hprimary, hpayload]
  split at h
  · rename_i hyes
    obtain rfl := Except.ok.inj h
    rw [if_pos rfl]
    rcases hyes with hp | hp | ⟨rfl, rfl⟩ | ⟨rfl, rfl⟩ | hnone
    · simp [hp]
    · simp [hp]
    · simp
    · simp
    · simp [hnone]
  · rename_i hno
    simp only [not_or] at hno
    obtain ⟨flags, hflags, hcopied⟩ := Exec.bind_eq_ok.mp h
    obtain rfl := Except.ok.inj hcopied
    have hflag : (if found = true then last else first) = false := by
      obtain ⟨-, -, hfirst, hlast, -⟩ := hno
      cases found with
      | false => simpa using hfirst
      | true => simpa using hlast
    rw [hflag]
    simp only [replicated, hflags, hno.1, hno.2.1, decide_false, Bool.false_or, Bool.or_false]

private theorem copyBlocks_found {sources : List BlockInfo} {n : Nat}
    (h : copyBlocks first last blocks true = .ok (sources, n)) :
    sources = received (fun block => inEvery block || last) blocks := by
  induction blocks generalizing sources n with
  | nil =>
      obtain ⟨rfl, -⟩ := Prod.mk.inj (Except.ok.inj h)
      rfl
  | cons block blocks ih =>
      rw [copyBlocks] at h
      obtain ⟨type, htype, h⟩ := Exec.bind_eq_ok.mp h
      obtain ⟨copied, hcopied, h⟩ := Exec.bind_eq_ok.mp h
      obtain ⟨⟨rest, m⟩, hrest, h⟩ := Exec.bind_eq_ok.mp h
      rw [Bool.true_or] at hrest
      have heq := copiesBlock_eq htype hcopied
      rw [if_pos rfl] at heq
      rw [received_cons, ← heq, ← ih hrest]
      dsimp only at h
      split at h
      · rename_i hyes
        obtain ⟨rfl, -⟩ := Prod.mk.inj (Except.ok.inj h)
        rw [if_pos hyes]
      · rename_i hno
        obtain ⟨rfl, -⟩ := Prod.mk.inj (Except.ok.inj h)
        rw [if_neg hno, List.nil_append]

theorem copyBlocks_wanted {sources : List BlockInfo} {n : Nat}
    (h : copyBlocks first last blocks false = .ok (sources, n)) :
    sources = wanted blocks first last := by
  induction blocks generalizing sources n with
  | nil =>
      obtain ⟨rfl, -⟩ := Prod.mk.inj (Except.ok.inj h)
      rfl
  | cons block blocks ih =>
      rw [copyBlocks] at h
      obtain ⟨type, htype, h⟩ := Exec.bind_eq_ok.mp h
      obtain ⟨copied, hcopied, h⟩ := Exec.bind_eq_ok.mp h
      obtain ⟨⟨rest, m⟩, hrest, h⟩ := Exec.bind_eq_ok.mp h
      rw [Bool.false_or] at hrest
      have hsources : sources = (if copied = true then block.source.toList else []) ++ rest := by
        dsimp only at h
        split at h
        · rename_i hyes
          obtain ⟨rfl, -⟩ := Prod.mk.inj (Except.ok.inj h)
          rw [if_pos hyes]
        · rename_i hno
          obtain ⟨rfl, -⟩ := Prod.mk.inj (Except.ok.inj h)
          rw [if_neg hno, List.nil_append]
      have heq := copiesBlock_eq htype hcopied
      rw [hsources, heq, if_neg Bool.false_ne_true]
      by_cases hpayload : block.toBlockInfo.IsPayload
      · have htype' : type = Processor.payload.blockType := Except.ok.inj (htype.symm.trans hpayload)
        rw [decide_eq_true htype'] at hrest
        rw [copyBlocks_found hrest]
        have hfront : beforePayload (block :: blocks) = [] := by
          simp [beforePayload, hpayload]
        have hback : fromPayload (block :: blocks) = block :: blocks := by
          simp [fromPayload, hpayload]
        have hin : inEvery block = true := by
          simp [inEvery, hpayload]
        rw [wanted, hfront, hback, received_cons]
        simp [received, hin]
      · have htype' : type ≠ Processor.payload.blockType := fun ht =>
          hpayload (htype.trans (congrArg Except.ok ht))
        rw [decide_eq_false htype'] at hrest
        have hfront : beforePayload (block :: blocks) = block :: beforePayload blocks := by
          simp [beforePayload, hpayload]
        have hback : fromPayload (block :: blocks) = fromPayload blocks := by
          simp [fromPayload, hpayload]
        rw [ih hrest, wanted, wanted, hfront, hback, received_cons, List.append_assoc]

end Copied

/-! ## The last fragment -/

section Last

variable {bundle : Bundle} {blocks : List XmitBlock} {maxLength lastLen : Nat}

private theorem received_length (p : XmitBlock → Bool) (l : List XmitBlock) :
    (received (fun block => p block || true) l).length =
      (received (fun block => p block || false) l).length +
        (received (fun block => !p block) l).length := by
  induction l with
  | nil => rfl
  | cons block l ih =>
      simp only [received_cons, List.length_append]
      rw [ih]
      cases p block <;> simp <;> omega

private theorem received_true_eq (p : XmitBlock → Bool) (l : List XmitBlock)
    (h : received (fun block => !p block) l = []) :
    received (fun block => p block || true) l = received (fun block => p block || false) l := by
  induction l with
  | nil => rfl
  | cons block l ih =>
      simp only [received_cons] at h ⊢
      obtain ⟨hblock, hl⟩ := List.append_eq_nil_iff.mp h
      rw [ih hl]
      cases hp : p block with
      | true => rfl
      | false =>
          rw [hp] at hblock
          simpa using hblock

/-- It matters whether a fragment counts as the last one, unless nothing behind the payload belongs
into one fragment only. -/
theorem wanted_last_iff (first last last' : Bool) :
    wanted blocks first last = wanted blocks first last' ↔
      trailingOnce blocks = [] ∨ last = last' := by
  have hboth : wanted blocks first true = wanted blocks first false ↔
      trailingOnce blocks = [] := by
    unfold wanted trailingOnce
    rw [List.append_cancel_left_eq]
    constructor
    · intro heq
      have hlen := received_length inEvery (fromPayload blocks)
      rw [heq] at hlen
      exact List.length_eq_zero_iff.mp (by omega)
    · exact received_true_eq inEvery (fromPayload blocks)
  have hsym : wanted blocks first false = wanted blocks first true ↔ trailingOnce blocks = [] :=
    eq_comm.trans hboth
  cases last <;> cases last'
  · simp
  · simpa using hsym
  · simpa using hboth
  · simp

theorem Created.ends_iff {s : Start} {fragment : Bundle}
    (h : Created bundle blocks s.offset maxLength s.first s.last fragment)
    (htotal : bundle.payload.length < 2 ^ 64) (hfirst : s.first = false) :
    s.offset + s.taken bundle blocks maxLength = bundle.payload.length ↔
      bundle.payload.length ≤
        (s.offset + room bundle blocks s.offset maxLength s.first s.last) % 2 ^ 64 := by
  have hinside := h.inside
  unfold Start.taken
  unfold taken clampLength at *
  rw [hfirst] at *
  split at hinside
  · rename_i hall
    rw [if_pos hall]
    dsimp only at hinside ⊢
    rw [if_neg Bool.false_ne_true] at *
    unfold sizeSub at *
    omega
  · rename_i hpart
    rw [if_neg hpart]
    omega

theorem clampLength_first_lt {total length : Nat} (htotal : 1 < total)
    (hlt : total < 2 ^ 64) (hlength : length < 2 ^ 64) :
    0 + clampLength total 0 length true < total := by
  unfold clampLength
  rw [Nat.zero_add, Nat.zero_add, Nat.mod_eq_of_lt hlength, sizeSub_of_le (Nat.zero_le _) hlt]
  dsimp only
  split
  · rw [if_pos rfl]
    split <;> omega
  · omega

theorem Follows.blocksKept_iff {s : Start} {pieces : List Piece}
    (htotal : bundle.payload.length < 2 ^ 64)
    (hfirst : s.first = true → s.last = false ∧
      s.offset + s.taken bundle blocks maxLength < bundle.payload.length)
    (h : Follows bundle blocks maxLength lastLen s pieces) :
    BlocksKept bundle blocks s.first pieces ↔ trailingOnce blocks = [] ∨
      ∀ s', Starts bundle blocks maxLength lastLen s s' → s'.Agrees bundle blocks maxLength := by
  induction pieces generalizing s with
  | nil => cases h
  | cons piece pieces ih =>
      obtain ⟨⟨hoffset, hpfirst, hplast⟩, hcreated, hrest⟩ := h
      obtain ⟨n, hcopy⟩ := hcreated.sources
      have hlen : piece.fragment.payload.length = s.taken bundle blocks maxLength :=
        hcreated.payload_length
      have hhead : piece.fragment.recvBlocks.blocks = wanted blocks s.first
          (decide (piece.offset + piece.fragment.payload.length = bundle.payload.length)) ↔
          trailingOnce blocks = [] ∨ s.Agrees bundle blocks maxLength := by
        rw [copyBlocks_wanted hcopy, wanted_last_iff, hoffset, hlen]
        apply or_congr_right
        unfold Start.Agrees
        cases hf : s.first with
        | true =>
            obtain ⟨hlast, hlt⟩ := hfirst hf
            rw [hlast]
            simp
            omega
        | false =>
            have hends := hcreated.ends_iff htotal hf
            rw [hf] at hends
            simp only [Bool.false_eq_true, false_or, ← hends]
            cases s.last <;> simp
      rw [BlocksKept, hhead]
      rcases hrest with ⟨hdone, rfl⟩ | ⟨hlt, hrest⟩
      · rw [BlocksKept, and_true]
        apply or_congr_right
        constructor
        · intro hagree s' hs'
          cases hs' with
          | here => exact hagree
          | next hlt _ => omega
        · intro hall
          exact hall s (Starts.here s)
      · have hnext : (s.next bundle blocks maxLength lastLen).first = false := rfl
        have hih := ih (fun hf => absurd (hf.symm.trans hnext) (by decide)) hrest
        rw [hnext] at hih
        rw [hih]
        constructor
        · rintro ⟨hnil | hagree, hnil' | hall⟩
          · exact Or.inl hnil
          · exact Or.inl hnil
          · exact Or.inl hnil'
          · refine Or.inr fun s' hs' => ?_
            cases hs' with
            | here => exact hagree
            | next _ hs' => exact hall s' hs'
        · rintro (hnil | hall)
          · exact ⟨Or.inl hnil, Or.inl hnil⟩
          · exact ⟨Or.inr (hall s (Starts.here s)),
              Or.inr fun s' hs' => hall s' (Starts.next hlt hs')⟩

/-- The fragments that are returned have the blocks that belong into them exactly if no received
block behind the payload belongs into one fragment only, or every prediction of the last fragment
agrees with `create_fragment`. -/
theorem proactivelyFragment_blocks_iff (os : Oasys) (fuel id : Nat) (now : UInt64)
    (table table' : FragmentTable) (pieces : List Piece) (firstLen lastLen : Nat)
    (htotal : bundle.payload.length < 2 ^ 64)
    (hlens : blockLengths blocks false = .ok (firstLen, lastLen))
    (hrun : proactivelyFragment os fuel id now table bundle blocks maxLength =
      .ok (some (pieces, table'))) :
    BlocksKept bundle blocks true pieces ↔ trailingOnce blocks = [] ∨
      ∀ s, Starts bundle blocks maxLength (lastLen + estimatedFields bundle) Start.initial s →
        s.Agrees bundle blocks maxLength := by
  obtain ⟨hlong, -, hfollows⟩ := proactivelyFragment_follows hlens htotal hrun
  refine hfollows.blocksKept_iff htotal ?_
  intro _
  refine ⟨rfl, ?_⟩
  exact clampLength_first_lt hlong htotal (Nat.mod_lt _ (by decide))

end Last

theorem exists_of_isSome {r : Exec (Option (List Piece × FragmentTable))}
    (h : (r.toOption.bind id).isSome = true) : ∃ pieces table', r = .ok (some (pieces, table')) := by
  cases r with
  | error s => cases h
  | ok r =>
      cases r with
      | none => cases h
      | some r => exact ⟨r.1, r.2, rfl⟩

/-- Five bytes and a block behind them, for a link that takes 36. -/
theorem proactivelyFragment_blocks_iff_sample :
    ∃ pieces table',
      proactivelyFragment Oasys.plain 10 2 0 FragmentTable.empty (sampleBundle [1, 2, 3, 4, 5])
        (formatted (sampleBundle [1, 2, 3, 4, 5]) [sampleTrailing]) 36 =
          .ok (some (pieces, table')) ∧
      BlocksKept (sampleBundle [1, 2, 3, 4, 5])
        (formatted (sampleBundle [1, 2, 3, 4, 5]) [sampleTrailing]) true pieces := by
  obtain ⟨pieces, table', hrun⟩ := @exists_of_isSome (proactivelyFragment Oasys.plain 10 2 0
    FragmentTable.empty (sampleBundle [1, 2, 3, 4, 5])
    (formatted (sampleBundle [1, 2, 3, 4, 5]) [sampleTrailing]) 36) (by decide +kernel)
  refine ⟨pieces, table', hrun, (proactivelyFragment_blocks_iff Oasys.plain 10 2 0
    FragmentTable.empty table' pieces 29 32 (by decide) (by decide +kernel) hrun).mpr (Or.inr ?_)⟩
  intro s hs
  cases hs with
  | here => exact Or.inl rfl
  | next _ hs =>
      cases hs with
      | here => exact Or.inr (by decide +kernel)
      | next hlt _ => exact absurd hlt (by decide +kernel)

/-- For a link that takes 34 the rest of the payload fits into the second fragment without the block
behind it but not with it, and the block is lost. -/
theorem proactivelyFragment_not_blocks :
    ∃ pieces table',
      proactivelyFragment Oasys.plain 10 2 0 FragmentTable.empty (sampleBundle [1, 2, 3, 4, 5])
        (formatted (sampleBundle [1, 2, 3, 4, 5]) [sampleTrailing]) 34 =
          .ok (some (pieces, table')) ∧
      ¬ BlocksKept (sampleBundle [1, 2, 3, 4, 5])
        (formatted (sampleBundle [1, 2, 3, 4, 5]) [sampleTrailing]) true pieces := by
  obtain ⟨pieces, table', hrun⟩ := @exists_of_isSome (proactivelyFragment Oasys.plain 10 2 0
    FragmentTable.empty (sampleBundle [1, 2, 3, 4, 5])
    (formatted (sampleBundle [1, 2, 3, 4, 5]) [sampleTrailing]) 34) (by decide +kernel)
  refine ⟨pieces, table', hrun, ?_⟩
  have hlens : blockLengths (formatted (sampleBundle [1, 2, 3, 4, 5]) [sampleTrailing]) false =
      .ok (29, 32) := by decide +kernel
  obtain ⟨-, -, hfollows⟩ := proactivelyFragment_follows hlens (by decide) hrun
  have hiff := hfollows.blocksKept_iff (by decide) fun _ => ⟨rfl, by decide +kernel⟩
  intro hkept
  rcases hiff.mp hkept with hnil | hall
  · exact absurd hnil (by decide +kernel)
  · have hsecond := hall _ (Starts.next (by decide +kernel) (Starts.here _))
    revert hsecond
    unfold Start.Agrees
    decide +kernel

end FragmentManager

end Dtn2
