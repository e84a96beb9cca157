import Dtn2.Bundling.BundleActions
import Dtn2.Fragmentation.Proactive

/-!
# Queueing a bundle

`queue_bundle` with its result and with the fragments it makes: the bundle is formatted for the
link, and then it is fragmented, or queued, or not sent. Where formatting fails the blocks are
deleted again; where one of the later checks fails they stay, and no later attempt gets past them.
-/

namespace Dtn2

open ForwardingInfo ForwardingLog

namespace FragmentManager

/-- The reasons of `proactively_fragment` not to fragment. -/
def NotFragmented (bundle : Bundle) (blocks : List XmitBlock) (maxLength : Nat) : Prop :=
  bundle.payload.length ≤ 1 ∨ ∃ lens, blockLengths blocks false = .ok lens ∧
    (maxLength ≤ lens.1 + estimatedFields bundle ∨ maxLength ≤ lens.2 + estimatedFields bundle)

theorem proactivelyFragment_eq_none_iff {os : Oasys} {fuel id : Nat} {now : UInt64}
    {table : FragmentTable} {bundle : Bundle} {blocks : List XmitBlock} {maxLength : Nat} :
    proactivelyFragment os fuel id now table bundle blocks maxLength = .ok none ↔
      NotFragmented bundle blocks maxLength := by
  unfold proactivelyFragment NotFragmented
  by_cases hshort : bundle.payload.length ≤ 1
  · rw [if_pos hshort]
    exact iff_of_true rfl (Or.inl hshort)
  · rw [if_neg hshort]
    cases hlens : blockLengths blocks false with
    | error stop => simp [hshort]
    | ok lens =>
        simp only [Exec.ok_bind, hshort, false_or, Except.ok.injEq, exists_eq_left']
        by_cases hfull : maxLength ≤ lens.1 + estimatedFields bundle ∨
            maxLength ≤ lens.2 + estimatedFields bundle
        · rw [if_pos hfull]
          exact iff_of_true rfl hfull
        · rw [if_neg hfull]
          apply iff_of_false _ hfull
          intro h
          have hend := Exec.bind_eq_ok.mp h
          apply hend.elim
          intro result hresult
          have hlast := hresult.2
          split at hlast
          · cases hlast
          · cases Except.ok.inj hlast

end FragmentManager

/-- A bundle, and the blocks that `prepare_blocks` and `generate_blocks` give for a link: none where
one of them fails, and else the primary block at least. -/
structure Formatting where
  bundle : Bundle
  blocks : Option (List XmitBlock)
  length_ne_zero : ∀ list ∈ blocks, BundleProtocol.totalLength list ≠ 0

def Formatting.format (os : Oasys) (fuel id : Nat) (now : UInt64) (table : FragmentTable)
    (maxLength : Nat) (f : Formatting) : Format :=
  match f.blocks with
  | none => ⟨0, false⟩
  | some blocks =>
      ⟨BundleProtocol.totalLength blocks,
        match FragmentManager.proactivelyFragment os fuel id now table f.bundle blocks
            maxLength with
        | .ok (some _) => true
        | _ => false⟩

theorem Formatting.format_fragments {os : Oasys} {fuel id : Nat} {now : UInt64}
    {table : FragmentTable} {maxLength : Nat} {f : Formatting} {blocks : List XmitBlock}
    {made : Option (List FragmentManager.Piece × FragmentTable)} (hformat : f.blocks = some blocks)
    (hmade : FragmentManager.proactivelyFragment os fuel id now table f.bundle blocks maxLength =
      .ok made) :
    (f.format os fuel id now table maxLength).fragments = made.isSome := by
  unfold Formatting.format
  simp only [hformat, hmade]
  cases made with
  | none => rfl
  | some made => rfl

/-- What `queue_bundle` posts at the head of the event queue. -/
inductive PostedEvent (B : Type) where
  | bundleReceived (fragment : Bundle)
  | bundleDeleteRequest (b : B)

/-- All that `queue_bundle` changes. The posted events are given from the head of the queue. -/
structure Sender (L B : Type) where
  forwarding : Forwarding L B
  fragments : FragmentTable
  posted : List (PostedEvent B)

namespace Sender

variable {L B : Type} [DecidableEq L] [DecidableEq B]

/-- The fragment list of the state that is returned: it is in the table for the last fragment. -/
def fragmentList (pieces : List FragmentManager.Piece) (table : FragmentTable) : List Bundle :=
  match pieces.getLast? with
  | none => []
  | some piece => ((table (getHashKey piece.fragment)).map FragmentState.fragments).getD []

section QueueBundle

variable (os : Oasys) (fuel id : Nat) (now : UInt64) (w : Sender L B) (f : Formatting) (b : B)
  (l : L) (action : Action)

/-- The part of `queue_bundle` for a bundle that is longer than the link takes. -/
def queueFragments (blocks : List XmitBlock) : Exec (Sender L B × Bool) := do
  match ← FragmentManager.proactivelyFragment os fuel id now w.fragments f.bundle blocks
      (w.forwarding.link l).mtu with
  | none => pure (w, false)
  | some (pieces, table) =>
      let received := (fragmentList pieces table).map PostedEvent.bundleReceived
      pure ({ forwarding := w.forwarding.addEntry b l action .suppressed
              fragments := table
              posted := .bundleDeleteRequest b :: received.reverse ++ w.posted }, true)

/-- The part of `queue_bundle` behind the formatting. -/
def queueFormatted (blocks : List XmitBlock) : Exec (Sender L B × Bool) :=
  let total := BundleProtocol.totalLength blocks
  let link := w.forwarding.link l
  if latestState (w.forwarding.log b) l = .queued then pure (w, false)
  else if link.mtu ≠ 0 ∧ total > link.mtu then w.queueFragments os fuel id now f b l action blocks
  else if b ∈ link.queue then pure (w, false)
  else if b ∈ link.inflight then pure (w, false)
  else
    let forwarding := w.forwarding.addEntry b l action .queued
    pure ({ w with forwarding := forwarding.setLink l (link.addToQueue b total) }, true)

def queueBundle : Exec (Sender L B × Bool) :=
  if (w.forwarding.link l).isDeleted then pure (w, false)
  else if w.forwarding.blocks b l ≠ none then pure (w, false)
  else
    match f.blocks with
    | none => pure (w, false)
    | some blocks =>
        { w with
          forwarding := w.forwarding.setBlocks b l
            (some (BundleProtocol.totalLength blocks)) }.queueFormatted
          os fuel id now f b l action blocks

end QueueBundle

/-! ## Failures -/

/-- A check behind the formatting fails: the bundle is queued already, or it is too long and cannot
be fragmented, or it is on one of the lists of the link. -/
def FailsLate (w : Sender L B) (bundle : Bundle) (blocks : List XmitBlock) (b : B) (l : L) : Prop :=
  let link := w.forwarding.link l
  latestState (w.forwarding.log b) l = .queued ∨
    if link.mtu ≠ 0 ∧ BundleProtocol.totalLength blocks > link.mtu then
      FragmentManager.NotFragmented bundle blocks link.mtu
    else b ∈ link.queue ∨ b ∈ link.inflight

/-- What stays the same where a bundle is not sent. -/
structure Untouched (w w' : Sender L B) (b : B) (l : L) : Prop where
  blocks : ∀ k, (w'.forwarding.blocks b k).isSome = (w.forwarding.blocks b k).isSome
  log : w'.forwarding.log b = w.forwarding.log b
  link : w'.forwarding.link l = w.forwarding.link l
  fragments : w'.fragments = w.fragments

omit [DecidableEq L] [DecidableEq B] in
theorem Untouched.refl (w : Sender L B) (b : B) (l : L) : w.Untouched w b l :=
  ⟨fun _ => rfl, rfl, rfl, rfl⟩

section Results

variable {os : Oasys} {fuel id : Nat} {now : UInt64} {w w' : Sender L B} {f : Formatting} {b : B}
  {l : L} {action : Action} {blocks : List XmitBlock}

omit [DecidableEq L] in
theorem queueFragments_false_iff :
    w.queueFragments os fuel id now f b l action blocks = .ok (w', false) ↔
      w' = w ∧ FragmentManager.NotFragmented f.bundle blocks (w.forwarding.link l).mtu := by
  rw [← FragmentManager.proactivelyFragment_eq_none_iff, queueFragments, Exec.bind_eq_ok]
  constructor
  · rintro ⟨result, hresult, hend⟩
    cases result with
    | none =>
        have hsame := Except.ok.inj hend
        exact ⟨(Prod.mk.inj hsame).1.symm, hresult⟩
    | some made =>
        have hsame := Except.ok.inj hend
        exact absurd (Prod.mk.inj hsame).2 (by decide)
  · rintro ⟨hsame, hresult⟩
    rw [hsame]
    exact ⟨none, hresult, rfl⟩

theorem queueFormatted_false_iff :
    w.queueFormatted os fuel id now f b l action blocks = .ok (w', false) ↔
      w' = w ∧ w.FailsLate f.bundle blocks b l := by
  have hsame : (.ok (w, false) : Exec (Sender L B × Bool)) = .ok (w', false) ↔ w' = w := by
    rw [Except.ok.injEq, Prod.mk.injEq, and_iff_left rfl, eq_comm]
  unfold queueFormatted FailsLate
  dsimp only
  by_cases hqueued : latestState (w.forwarding.log b) l = .queued
  · rw [if_pos hqueued]
    simp only [hqueued, true_or, and_true]
    exact hsame
  rw [if_neg hqueued]
  simp only [hqueued, false_or]
  by_cases hlong : (w.forwarding.link l).mtu ≠ 0 ∧
      BundleProtocol.totalLength blocks > (w.forwarding.link l).mtu
  · rw [if_pos hlong, if_pos hlong]
    exact queueFragments_false_iff
  rw [if_neg hlong, if_neg hlong]
  by_cases hqueue : b ∈ (w.forwarding.link l).queue
  · rw [if_pos hqueue]
    simp only [hqueue, true_or, and_true]
    exact hsame
  rw [if_neg hqueue]
  simp only [hqueue, false_or]
  by_cases hinflight : b ∈ (w.forwarding.link l).inflight
  · rw [if_pos hinflight]
    simp only [hinflight, and_true]
    exact hsame
  · rw [if_neg hinflight]
    simp only [hinflight, and_false, iff_false]
    intro h
    have hsent := Except.ok.inj h
    exact absurd (Prod.mk.inj hsent).2 (by decide)

theorem queueBundle_of_blocks (hblocks : w.forwarding.blocks b l ≠ none) :
    w.queueBundle os fuel id now f b l action = .ok (w, false) := by
  rw [queueBundle, if_pos hblocks]
  exact ite_self _

theorem queueBundle_of_formatted (hlink : (w.forwarding.link l).isDeleted = false)
    (hblocks : w.forwarding.blocks b l = none) (hformat : f.blocks = some blocks) :
    w.queueBundle os fuel id now f b l action =
      { w with
        forwarding := w.forwarding.setBlocks b l
          (some (BundleProtocol.totalLength blocks)) }.queueFormatted
        os fuel id now f b l action blocks := by
  rw [queueBundle, hlink, hblocks, hformat]
  rfl

def LateFailure (w : Sender L B) (f : Formatting) (b : B) (l : L) : Prop :=
  (w.forwarding.link l).isDeleted = false ∧ w.forwarding.blocks b l = none ∧
    ∃ blocks, f.blocks = some blocks ∧ w.FailsLate f.bundle blocks b l

theorem queueBundle_false (h : w.queueBundle os fuel id now f b l action = .ok (w', false)) :
    w' = w ∧ ¬ w.LateFailure f b l ∨
      w.LateFailure f b l ∧ ∃ len,
        w' = { w with forwarding := w.forwarding.setBlocks b l (some len) } := by
  unfold LateFailure
  by_cases hlink : (w.forwarding.link l).isDeleted = true
  · rw [queueBundle, if_pos hlink] at h
    have hsame := Except.ok.inj h
    have hnot : ¬ (w.forwarding.link l).isDeleted = false := by simp [hlink]
    exact Or.inl ⟨(Prod.mk.inj hsame).1.symm, fun hlate => hnot hlate.1⟩
  rw [Bool.not_eq_true] at hlink
  by_cases hblocks : w.forwarding.blocks b l = none
  · cases hformat : f.blocks with
    | none =>
        rw [queueBundle, hlink, hblocks, hformat] at h
        have hsame := Except.ok.inj h
        simp [← (Prod.mk.inj hsame).1]
    | some blocks =>
        rw [queueBundle_of_formatted hlink hblocks hformat] at h
        have hlate := queueFormatted_false_iff.mp h
        apply Or.inr
        exact ⟨⟨hlink, hblocks, blocks, rfl, hlate.2⟩, _, hlate.1⟩
  · rw [queueBundle_of_blocks hblocks] at h
    have hsame := Except.ok.inj h
    exact Or.inl ⟨(Prod.mk.inj hsame).1.symm, fun hlate => hblocks hlate.2.1⟩

theorem LateFailure.queueBundle (h : w.LateFailure f b l) (os : Oasys) (fuel id : Nat)
    (now : UInt64) (action : Action) :
    ∃ len, w.queueBundle os fuel id now f b l action =
      .ok ({ w with forwarding := w.forwarding.setBlocks b l (some len) }, false) := by
  obtain ⟨hlink, hblocks, blocks, hformat, hlate⟩ := h
  rw [queueBundle_of_formatted hlink hblocks hformat]
  exact ⟨_, queueFormatted_false_iff.mpr ⟨rfl, hlate⟩⟩

theorem LateFailure.refused (h : w.LateFailure f b l)
    (hfail : w.queueBundle os fuel id now f b l action = .ok (w', false)) (fuel' id' : Nat)
    (now' : UInt64) (f' : Formatting) (action' : Action) :
    w'.queueBundle os fuel' id' now' f' b l action' = .ok (w', false) := by
  obtain ⟨len, hresult⟩ := h.queueBundle os fuel id now action
  rw [hresult] at hfail
  have hleft := (Prod.mk.inj (Except.ok.inj hfail)).1
  apply queueBundle_of_blocks
  rw [← hleft]
  simp [Forwarding.setBlocks]

end Results

/-- Wherever the result is false, nothing has changed. -/
def Atomic (os : Oasys) (fuel id : Nat) (now : UInt64) (w : Sender L B) (f : Formatting) (b : B)
    (l : L) (action : Action) : Prop :=
  ∀ w', w.queueBundle os fuel id now f b l action = .ok (w', false) → w.Untouched w' b l

/-- A failure of `queue_bundle` leaves everything as it was exactly if it is not one of the checks
behind the formatting that fails. -/
theorem queueBundle_atomic_iff (os : Oasys) (fuel id : Nat) (now : UInt64) (w : Sender L B)
    (f : Formatting) (b : B) (l : L) (action : Action) :
    w.Atomic os fuel id now f b l action ↔ ¬ w.LateFailure f b l := by
  constructor
  · intro h hlate
    obtain ⟨len, hresult⟩ := hlate.queueBundle os fuel id now action
    have hblocks := (h _ hresult).blocks l
    simp [Forwarding.setBlocks, hlate.2.1] at hblocks
  · intro h w' hresult
    rcases queueBundle_false hresult with hsame | hlate
    · rw [hsame.1]
      exact Untouched.refl w b l
    · exact absurd hlate.1 h

def sampleFormatting : Formatting where
  bundle := FragmentManager.sampleBundle [1]
  blocks := some (FragmentManager.formatted (FragmentManager.sampleBundle [1]) [])
  length_ne_zero := by
    intro list hlist
    cases hlist
    decide +kernel

/-- One bundle, and an open link that takes ten bytes at a time. -/
def sample : Sender Unit Unit where
  forwarding :=
    { link := fun _ => ⟨.open, false, [], false, 10, 10, 1000, 10, 1000, [], [], 0, 0, 0, 0⟩
      log := fun _ => []
      blocks := fun _ _ => none
      timers := fun _ => []
      localCustody := fun _ => false }
  fragments := FragmentTable.empty
  posted := []

/-- One byte of payload cannot be fragmented; the blocks for the link stay. -/
theorem sample_not_atomic :
    ¬ sample.Atomic Oasys.plain 0 2 0 sampleFormatting () () .forward := by
  have hlate : sample.LateFailure sampleFormatting () () := by
    refine ⟨rfl, rfl, _, rfl, Or.inr ?_⟩
    rw [if_pos (by decide +kernel)]
    exact Or.inl (by decide)
  obtain ⟨len, hresult⟩ := hlate.queueBundle Oasys.plain 0 2 0 .forward
  intro h
  have hblocks := (h _ hresult).blocks ()
  simp [Forwarding.setBlocks, sample] at hblocks

/-! ## The effect on links and logs -/

section Effect

variable {os : Oasys} {fuel id : Nat} {now : UInt64} {w w' : Sender L B} {f : Formatting} {b : B}
  {l : L} {action : Action} {blocks : List XmitBlock} {result : Bool}

theorem queueFormatted_forwarding
    (h : w.queueFormatted os fuel id now f b l action blocks = .ok (w', result))
    (hformat : f.blocks = some blocks) :
    w'.forwarding =
      if latestState (w.forwarding.log b) l = .queued then w.forwarding
      else if (w.forwarding.link l).mtu ≠ 0 ∧
          BundleProtocol.totalLength blocks > (w.forwarding.link l).mtu then
        if (f.format os fuel id now w.fragments (w.forwarding.link l).mtu).fragments then
          w.forwarding.addEntry b l action .suppressed
        else w.forwarding
      else if b ∈ (w.forwarding.link l).queue then w.forwarding
      else if b ∈ (w.forwarding.link l).inflight then w.forwarding
      else
        let forwarding := w.forwarding.addEntry b l action .queued
        forwarding.setLink l
          ((forwarding.link l).addToQueue b (BundleProtocol.totalLength blocks)) := by
  unfold queueFormatted at h
  dsimp only at h
  split at h
  next hqueued =>
    have hsame := Except.ok.inj h
    rw [← (Prod.mk.inj hsame).1, if_pos hqueued]
  next hqueued =>
    rw [if_neg hqueued]
    split at h
    next hlong =>
      obtain ⟨made, hmade, hend⟩ := Exec.bind_eq_ok.mp h
      rw [if_pos hlong, Formatting.format_fragments hformat hmade]
      cases made with
      | none =>
          have hsame := Except.ok.inj hend
          rw [← (Prod.mk.inj hsame).1]
          rfl
      | some made =>
          have hsame := Except.ok.inj hend
          rw [← (Prod.mk.inj hsame).1]
          rfl
    next hlong =>
      rw [if_neg hlong]
      split at h
      next hqueue =>
        have hsame := Except.ok.inj h
        rw [← (Prod.mk.inj hsame).1, if_pos hqueue]
      next hqueue =>
        rw [if_neg hqueue]
        split at h
        next hinflight =>
          have hsame := Except.ok.inj h
          rw [← (Prod.mk.inj hsame).1, if_pos hinflight]
        next hinflight =>
          have hsame := Except.ok.inj h
          rw [← (Prod.mk.inj hsame).1, if_neg hinflight]
          rfl

theorem queueBundle_forwarding
    (h : w.queueBundle os fuel id now f b l action = .ok (w', result)) :
    w'.forwarding = w.forwarding.queueBundle b l action
      (f.format os fuel id now w.fragments (w.forwarding.link l).mtu) := by
  rw [Forwarding.queueBundle]
  by_cases hlink : (w.forwarding.link l).isDeleted = true
  · rw [queueBundle, if_pos hlink] at h
    have hsame := Except.ok.inj h
    rw [← (Prod.mk.inj hsame).1, if_pos hlink]
  rw [Bool.not_eq_true] at hlink
  rw [if_neg (by rw [hlink]; decide)]
  by_cases hblocks : w.forwarding.blocks b l = none
  · rw [if_neg (not_not_intro hblocks)]
    cases hformat : f.blocks with
    | none =>
        rw [queueBundle, hlink, hblocks, hformat] at h
        have hsame := Except.ok.inj h
        rw [← (Prod.mk.inj hsame).1, Formatting.format, hformat]
        rfl
    | some blocks =>
        have hlength := f.length_ne_zero blocks hformat
        have hformatted : (f.format os fuel id now w.fragments (w.forwarding.link l).mtu).length =
            BundleProtocol.totalLength blocks := by
          rw [Formatting.format, hformat]
        rw [queueBundle_of_formatted hlink hblocks hformat] at h
        rw [hformatted, if_neg hlength]
        exact queueFormatted_forwarding h hformat
  · rw [queueBundle_of_blocks hblocks] at h
    have hsame := Except.ok.inj h
    rw [← (Prod.mk.inj hsame).1, if_pos hblocks]

end Effect

end Sender

end Dtn2
