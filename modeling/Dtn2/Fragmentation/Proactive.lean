import Dtn2.Fragmentation.CreateFragment

/-!
# Fragmenting for a link

The loop of `proactively_fragment` cuts the payload from the front. Where a fragment starts, which
blocks go into it and how much payload it takes is determined by the arithmetic of
`create_fragment`. The check in front of the loop estimates the new fields of the primary block by
one number, so it does not make sure that every fragment has room for payload.
-/

namespace Dtn2

namespace FragmentManager

/-- The arguments of a call of `create_fragment` in the loop. -/
structure Start where
  first : Bool
  last : Bool
  offset : Nat
deriving DecidableEq, Repr

section Starts

variable (bundle : Bundle) (blocks : List XmitBlock) (maxLength lastLen : Nat)

namespace Start

/-- The start for the values that a round of the loop begins with. -/
def ofRound (first last : Bool) (offset : Nat) : Start :=
  ⟨first, last || (!first && decide (bundle.payload.length - offset + lastLen ≤ maxLength)), offset⟩

def initial : Start := ⟨true, false, 0⟩

def overhead (s : Start) : Nat := FragmentManager.overhead bundle blocks s.offset s.first s.last

/-- The bytes of the payload that the fragment takes. -/
def taken (s : Start) : Nat :=
  FragmentManager.taken bundle blocks s.offset maxLength s.first s.last

def next (s : Start) : Start :=
  Start.ofRound bundle maxLength lastLen false s.last (s.offset + s.taken bundle blocks maxLength)

/-- The fragment that starts here has room for payload, and its offset is a 32-bit value. -/
structure Fits (s : Start) : Prop where
  room : s.overhead bundle blocks < maxLength
  offset_lt : baseOffset bundle + s.offset < 2 ^ 32
  sum_lt : s.offset + (maxLength - s.overhead bundle blocks) < 2 ^ 64

end Start

/-- The starts that follow one another until the payload is used up. -/
inductive Starts : Start → Start → Prop where
  | here (s : Start) : Starts s s
  | next {s s' : Start} :
      s.offset + s.taken bundle blocks maxLength < bundle.payload.length →
      Starts (s.next bundle blocks maxLength lastLen) s' → Starts s s'

/-- What is promised of the fragment behind the first `before` bytes. -/
structure PieceFits (before : Nat) (piece : Piece) : Prop where
  nonempty : 1 ≤ piece.fragment.payload.length
  offset : piece.offset = before
  noUnderflow : overhead bundle blocks piece.offset piece.first piece.last ≤ maxLength
  fragOffset : piece.fragment.fragOffset.toNat = baseOffset bundle + before
  origLength : piece.fragment.origLength.toNat = totalOf bundle
  fits : piece.fragment.payload.length +
    overhead bundle blocks piece.offset piece.first piece.last ≤ maxLength

def PiecesFit : Nat → List Piece → Prop
  | _, [] => True
  | before, piece :: pieces => PieceFits bundle blocks maxLength before piece ∧
      PiecesFit (before + piece.fragment.payload.length) pieces

structure Partition (pieces : List Piece) : Prop where
  fit : PiecesFit bundle blocks maxLength 0 pieces
  payload : pieces.flatMap (fun piece => piece.fragment.payload.data) = bundle.payload.data

end Starts

/-! ## One fragment -/

section Piece

variable {bundle : Bundle} {blocks : List XmitBlock} {maxLength lastLen : Nat}

theorem clampLength_spec {total offset length : Nat} {first : Bool} (hoffset : offset < total)
    (htotal : total < 2 ^ 64) (hlength : 0 < length) (hsum : offset + length < 2 ^ 64) :
    1 ≤ clampLength total offset length first ∧ clampLength total offset length first ≤ length ∧
      offset + clampLength total offset length first ≤ total := by
  unfold clampLength
  rw [Nat.mod_eq_of_lt hsum, sizeSub_of_le hoffset.le htotal]
  dsimp only
  split
  · split
    · split <;> omega
    · omega
  · omega

theorem Start.Fits.taken_spec {s : Start} (h : s.Fits bundle blocks maxLength)
    (hoffset : s.offset < bundle.payload.length) (htotal : bundle.payload.length < 2 ^ 64)
    (hmax : maxLength < 2 ^ 64) :
    1 ≤ s.taken bundle blocks maxLength ∧
      s.taken bundle blocks maxLength + s.overhead bundle blocks ≤ maxLength ∧
      s.offset + s.taken bundle blocks maxLength ≤ bundle.payload.length := by
  have hroom := h.room
  have hsum := h.sum_lt
  unfold Start.overhead at *
  unfold Start.taken FragmentManager.taken
  rw [room_eq hroom.le hmax]
  have hspec := @clampLength_spec _ _ _ s.first hoffset htotal (by omega) hsum
  omega

theorem fragOffset_eq {offset : Nat} {first last : Bool} {fragment : Bundle} {length : Nat}
    (h : Created bundle blocks offset length first last fragment) :
    fragment.fragOffset = UInt32.ofNat (baseOffset bundle + offset) := by
  rw [h.fragOffset, baseOffset]
  cases bundle.isFragment <;> simp

theorem origLength_eq_iff {offset : Nat} {first last : Bool} {fragment : Bundle} {length : Nat}
    (h : Created bundle blocks offset length first last fragment) :
    fragment.origLength.toNat = totalOf bundle ↔
      (bundle.isFragment = false → bundle.payload.length < 2 ^ 32) := by
  rw [h.origLength, totalOf]
  cases bundle.isFragment with
  | true => simp
  | false =>
      simp only [if_true, UInt32.toNat_ofNat', Bool.false_eq_true, if_false, forall_const]
      constructor
      · intro heq
        rw [← heq]
        exact Nat.mod_lt _ (by decide)
      · intro hlt
        exact Nat.mod_eq_of_lt hlt

theorem Start.Fits.pieceFits {s : Start} {fragment : Bundle} (h : s.Fits bundle blocks maxLength)
    (hoffset : s.offset < bundle.payload.length) (htotal : bundle.payload.length < 2 ^ 64)
    (hmax : maxLength < 2 ^ 64)
    (hshort : bundle.isFragment = false → bundle.payload.length < 2 ^ 32)
    (hcreated : Created bundle blocks s.offset maxLength s.first s.last fragment) :
    PieceFits bundle blocks maxLength s.offset ⟨s.offset, s.first, s.last, fragment⟩ := by
  obtain ⟨hpos, hfits, -⟩ := h.taken_spec hoffset htotal hmax
  have hlen := hcreated.payload_length
  unfold Start.taken at hpos hfits
  refine ⟨?_, rfl, h.room.le, ?_, (origLength_eq_iff hcreated).mpr hshort, ?_⟩
  · show 1 ≤ fragment.payload.length
    omega
  · show fragment.fragOffset.toNat = _
    rw [fragOffset_eq hcreated, UInt32.toNat_ofNat', Nat.mod_eq_of_lt h.offset_lt]
  · show fragment.payload.length + _ ≤ maxLength
    rw [hlen]
    exact hfits

theorem PieceFits.start_fits {s : Start} {fragment : Bundle}
    (h : PieceFits bundle blocks maxLength s.offset ⟨s.offset, s.first, s.last, fragment⟩)
    (htotal : bundle.payload.length < 2 ^ 64) (hmax : maxLength < 2 ^ 64)
    (hcreated : Created bundle blocks s.offset maxLength s.first s.last fragment) :
    s.Fits bundle blocks maxLength := by
  have hpos := h.nonempty
  have hfits := h.fits
  have hoffset := h.fragOffset
  have hlen := hcreated.payload_length
  have hinside := hcreated.inside
  dsimp only at hpos hfits hoffset
  rw [← hlen] at hinside
  have hroom : s.overhead bundle blocks < maxLength := by
    unfold Start.overhead
    omega
  refine ⟨hroom, ?_, ?_⟩
  · rw [← hoffset]
    exact fragment.fragOffset.toNat_lt
  · -- a sum that wraps around is below the offset, and the length is not cut to the payload
    by_contra hwrap
    have hlong : taken bundle blocks s.offset maxLength s.first s.last =
        maxLength - s.overhead bundle blocks := by
      unfold taken clampLength
      rw [room_eq hroom.le hmax]
      have heq : overhead bundle blocks s.offset s.first s.last = s.overhead bundle blocks := rfl
      rw [heq, if_neg]
      omega
    omega

end Piece

/-! ## The loop -/

section Loop

variable {bundle : Bundle} {blocks : List XmitBlock} {maxLength lastLen : Nat}

theorem fragmentLoop_succ {os : Oasys} {now : UInt64} {fuel id offset : Nat}
    {state : FragmentState} {first last : Bool} {fragment : Bundle} {s : Start}
    (hs : s = Start.ofRound bundle maxLength lastLen first last offset)
    (hcreate : createFragment os id now bundle blocks s.offset maxLength s.first s.last =
      .ok fragment)
    (hlt : bundle.payload.length < 2 ^ 64) :
    fragmentLoop os now bundle blocks maxLength lastLen (fuel + 1) id (some state) first last
        offset (bundle.payload.length - offset) =
      if s.offset + s.taken bundle blocks maxLength = bundle.payload.length then
        .ok ([⟨s.offset, s.first, s.last, fragment⟩], state.addFragment fragment)
      else
        fragmentLoop os now bundle blocks maxLength lastLen fuel (id + 1)
          (some (state.addFragment fragment)) false s.last
          (s.offset + s.taken bundle blocks maxLength)
          (bundle.payload.length - (s.offset + s.taken bundle blocks maxLength)) >>=
        fun r => pure (⟨s.offset, s.first, s.last, fragment⟩ :: r.1, r.2) := by
  have hcreated := createFragment_created hcreate
  have hlen : fragment.payload.length = s.taken bundle blocks maxLength :=
    hcreated.payload_length
  have hinside : s.offset + s.taken bundle blocks maxLength ≤ bundle.payload.length :=
    hcreated.inside
  have hoffset : s.offset = offset := by rw [hs]; rfl
  have hfirst : s.first = first := by rw [hs]; rfl
  have hlast : (last || (!first && decide (bundle.payload.length - offset + lastLen ≤
      maxLength))) = s.last := by rw [hs]; rfl
  rw [hoffset, hfirst] at hcreate
  rw [hoffset, hfirst, ← hlen]
  rw [hoffset, ← hlen] at hinside
  have htodo : sizeSub (bundle.payload.length - offset) fragment.payload.length =
      bundle.payload.length - (offset + fragment.payload.length) := by
    rw [sizeSub_of_le (by omega) (by omega)]
    omega
  rw [fragmentLoop]
  dsimp only
  rw [hlast, hcreate, Exec.ok_bind, htodo]
  by_cases hdone : offset + fragment.payload.length = bundle.payload.length
  · rw [if_pos hdone, if_pos (by omega)]
    rfl
  · rw [if_neg hdone, if_neg (by omega)]

theorem fragmentLoop_partition (os : Oasys) (now : UInt64) {fuel id offset : Nat}
    {state : FragmentState} {first last : Bool} {lens : Nat × Nat}
    (hlens : blockLengths blocks false = .ok lens)
    (hstored : bundle.payload.location ≠ .nodata) (htotal : bundle.payload.length < 2 ^ 64)
    (hmax : maxLength < 2 ^ 64)
    (hshort : bundle.isFragment = false → bundle.payload.length < 2 ^ 32)
    (hoffset : offset < bundle.payload.length) (hfuel : bundle.payload.length - offset ≤ fuel)
    (hfits : ∀ s, Starts bundle blocks maxLength lastLen
      (Start.ofRound bundle maxLength lastLen first last offset) s →
        s.Fits bundle blocks maxLength) :
    ∃ pieces state', fragmentLoop os now bundle blocks maxLength lastLen fuel id (some state)
        first last offset (bundle.payload.length - offset) = .ok (pieces, state') ∧
      pieces ≠ [] ∧ PiecesFit bundle blocks maxLength offset pieces ∧
      pieces.flatMap (fun piece => piece.fragment.payload.data) =
        bundle.payload.data.drop offset := by
  induction fuel generalizing id offset state first last with
  | zero => omega
  | succ fuel ih =>
      generalize hs : Start.ofRound bundle maxLength lastLen first last offset = s at hfits
      have hoff : s.offset = offset := by rw [← hs]; rfl
      have hfit := hfits s (Starts.here s)
      obtain ⟨hpos, -, hinside⟩ := hfit.taken_spec (by omega) htotal hmax
      obtain ⟨fragment, hcreate⟩ := createFragment_ok os id now hlens hstored htotal hinside
      have hcreated := createFragment_created hcreate
      have hlen : fragment.payload.length = s.taken bundle blocks maxLength :=
        hcreated.payload_length
      have hpiece := hfit.pieceFits (by omega) htotal hmax hshort hcreated
      have hdata : fragment.payload.data =
          (bundle.payload.data.drop s.offset).take (s.taken bundle blocks maxLength) :=
        hcreated.data
      rw [fragmentLoop_succ hs.symm hcreate htotal]
      by_cases hdone : s.offset + s.taken bundle blocks maxLength = bundle.payload.length
      · rw [if_pos hdone]
        refine ⟨_, _, rfl, by simp, ⟨hoff ▸ hpiece, trivial⟩, ?_⟩
        rw [List.flatMap_singleton, hdata, hoff]
        apply List.take_of_length_le
        simp only [BundlePayload.length] at hdone
        rw [List.length_drop]
        omega
      · rw [if_neg hdone]
        obtain ⟨pieces, state', hloop, -, hrest, hbytes⟩ := @ih (id + 1)
          (s.offset + s.taken bundle blocks maxLength) (state.addFragment fragment) false s.last
          (by omega) (by omega) fun s' hs' => hfits s' (Starts.next (by omega) hs')
        rw [hloop, Exec.ok_bind]
        refine ⟨_, _, rfl, by simp, ⟨hoff ▸ hpiece, ?_⟩, ?_⟩
        · show PiecesFit _ _ _ (offset + fragment.payload.length) pieces
          rw [hlen, ← hoff]
          exact hrest
        · rw [List.flatMap_cons, hbytes, hdata, ← List.drop_drop, hoff,
            List.take_append_drop]

/-- The fragments are those created at the start `s` and at those that follow it, up to the end of
the payload. -/
def Follows (bundle : Bundle) (blocks : List XmitBlock) (maxLength lastLen : Nat) :
    Start → List Piece → Prop
  | _, [] => False
  | s, piece :: pieces =>
      (piece.offset = s.offset ∧ piece.first = s.first ∧ piece.last = s.last) ∧
      Created bundle blocks s.offset maxLength s.first s.last piece.fragment ∧
      (s.offset + s.taken bundle blocks maxLength = bundle.payload.length ∧ pieces = [] ∨
        s.offset + s.taken bundle blocks maxLength < bundle.payload.length ∧
          Follows bundle blocks maxLength lastLen (s.next bundle blocks maxLength lastLen) pieces)

theorem fragmentLoop_follows {os : Oasys} {now : UInt64} {fuel id offset : Nat}
    {state state' : FragmentState} {first last : Bool} {pieces : List Piece}
    (htotal : bundle.payload.length < 2 ^ 64)
    (hloop : fragmentLoop os now bundle blocks maxLength lastLen fuel id (some state)
      first last offset (bundle.payload.length - offset) = .ok (pieces, state')) :
    Follows bundle blocks maxLength lastLen
      (Start.ofRound bundle maxLength lastLen first last offset) pieces := by
  induction fuel generalizing id offset state first last pieces with
  | zero => cases hloop
  | succ fuel ih =>
      generalize hs : Start.ofRound bundle maxLength lastLen first last offset = s
      have hcreate : ∃ fragment, createFragment os id now bundle blocks s.offset maxLength
          s.first s.last = .ok fragment := by
        rw [← hs]
        rw [fragmentLoop] at hloop
        obtain ⟨fragment, hcreate, -⟩ := Exec.bind_eq_ok.mp hloop
        exact ⟨fragment, hcreate⟩
      obtain ⟨fragment, hcreate⟩ := hcreate
      have hcreated := createFragment_created hcreate
      have hinside : s.offset + s.taken bundle blocks maxLength ≤ bundle.payload.length :=
        hcreated.inside
      rw [fragmentLoop_succ hs.symm hcreate htotal] at hloop
      split at hloop
      · rename_i hdone
        obtain ⟨rfl, -⟩ := Prod.mk.inj (Except.ok.inj hloop)
        exact ⟨⟨rfl, rfl, rfl⟩, hcreated, Or.inl ⟨hdone, rfl⟩⟩
      · rename_i hdone
        obtain ⟨⟨rest, state''⟩, hrest, hcons⟩ := Exec.bind_eq_ok.mp hloop
        obtain ⟨rfl, rfl⟩ := Prod.mk.inj (Except.ok.inj hcons)
        exact ⟨⟨rfl, rfl, rfl⟩, hcreated, Or.inr ⟨by omega, ih hrest⟩⟩

theorem Follows.fits {s s' : Start} {pieces : List Piece}
    (htotal : bundle.payload.length < 2 ^ 64) (hmax : maxLength < 2 ^ 64)
    (h : Follows bundle blocks maxLength lastLen s pieces)
    (hpieces : PiecesFit bundle blocks maxLength s.offset pieces)
    (hstart : Starts bundle blocks maxLength lastLen s s') :
    s'.Fits bundle blocks maxLength := by
  induction pieces generalizing s with
  | nil => cases h
  | cons piece pieces ih =>
      obtain ⟨⟨hoffset, hfirst, hlast⟩, hcreated, hrest⟩ := h
      obtain ⟨hpiece, hpieces⟩ := hpieces
      have hlen : piece.fragment.payload.length = s.taken bundle blocks maxLength :=
        hcreated.payload_length
      have heq : piece = ⟨s.offset, s.first, s.last, piece.fragment⟩ := by
        rw [← hoffset, ← hfirst, ← hlast]
      rw [heq] at hpiece
      cases hstart with
      | here => exact hpiece.start_fits htotal hmax hcreated
      | next hlt hnext =>
          rcases hrest with ⟨hdone, -⟩ | ⟨-, hrest⟩
          · omega
          · refine ih hrest ?_ hnext
            rw [hlen] at hpieces
            exact hpieces

end Loop

section Proactive

variable {bundle : Bundle} {blocks : List XmitBlock} {maxLength : Nat}

theorem proactivelyFragment_eq (os : Oasys) (fuel id : Nat) (now : UInt64) (table : FragmentTable)
    {firstLen lastLen : Nat} (htotal : 1 < bundle.payload.length)
    (hlens : blockLengths blocks false = .ok (firstLen, lastLen))
    (hfirst : firstLen + estimatedFields bundle < maxLength)
    (hlast : lastLen + estimatedFields bundle < maxLength) :
    proactivelyFragment os fuel id now table bundle blocks maxLength =
      fragmentLoop os now bundle blocks maxLength (lastLen + estimatedFields bundle) fuel id
          (proactiveState table bundle) true false 0 bundle.payload.length >>=
        fun r => match r.1.getLast? with
          | none => .error (.fault .nullPointer)
          | some piece => pure (some (r.1, table.insert (getHashKey piece.fragment) r.2)) := by
  unfold proactivelyFragment
  rw [if_neg (by omega), hlens, Exec.ok_bind]
  exact if_neg (by omega)

theorem fragmentLoop_none {os : Oasys} {now : UInt64} {lastLen fuel id offset todo : Nat}
    {first last : Bool} {r : List Piece × FragmentState} :
    fragmentLoop os now bundle blocks maxLength lastLen fuel id none first last offset todo ≠
      .ok r := by
  intro h
  cases fuel with
  | zero => cases h
  | succ fuel =>
      rw [fragmentLoop] at h
      obtain ⟨fragment, -, hrest⟩ := Exec.bind_eq_ok.mp h
      cases hrest

/-- If fragments are returned, the check was passed, there is a state to add them to, and they
follow one another from the start of the payload. -/
theorem proactivelyFragment_follows {os : Oasys} {fuel id : Nat} {now : UInt64}
    {table table' : FragmentTable} {pieces : List Piece} {firstLen lastLen : Nat}
    (hlens : blockLengths blocks false = .ok (firstLen, lastLen))
    (htotal_lt : bundle.payload.length < 2 ^ 64)
    (hrun : proactivelyFragment os fuel id now table bundle blocks maxLength =
      .ok (some (pieces, table'))) :
    1 < bundle.payload.length ∧ (bundle.isFragment = true → table (getHashKey bundle) ≠ none) ∧
      Follows bundle blocks maxLength (lastLen + estimatedFields bundle) Start.initial pieces := by
  have htotal : 1 < bundle.payload.length := by
    by_contra hle
    unfold proactivelyFragment at hrun
    rw [if_pos (by omega)] at hrun
    cases Except.ok.inj hrun
  have hcheck : firstLen + estimatedFields bundle < maxLength ∧
      lastLen + estimatedFields bundle < maxLength := by
    by_contra hnot
    unfold proactivelyFragment at hrun
    rw [if_neg (by omega), hlens, Exec.ok_bind] at hrun
    dsimp only at hrun
    rw [if_pos (by omega)] at hrun
    cases Except.ok.inj hrun
  rw [proactivelyFragment_eq os fuel id now table htotal hlens hcheck.1 hcheck.2] at hrun
  obtain ⟨⟨pieces', state'⟩, hloop, hend⟩ := Exec.bind_eq_ok.mp hrun
  obtain ⟨state, hstate⟩ : ∃ state, proactiveState table bundle = some state := by
    cases hstate : proactiveState table bundle with
    | none =>
        rw [hstate] at hloop
        exact absurd hloop fragmentLoop_none
    | some state => exact ⟨state, rfl⟩
  rw [hstate] at hloop
  have hpieces : pieces' = pieces := by
    dsimp only at hend
    split at hend
    · cases hend
    · exact (Prod.mk.inj (Option.some.inj (Except.ok.inj hend))).1
  subst hpieces
  refine ⟨htotal, ?_, fragmentLoop_follows htotal_lt hloop⟩
  intro hfrag hnone
  rw [proactiveState, hfrag, if_neg (by decide), hnone] at hstate
  cases hstate

/-- Behind its check, `proactively_fragment` ends with a partition of the payload into fragments
that fit exactly if there is a state to add them to, the payload length fits its field, and every
fragment has room for payload. -/
theorem proactivelyFragment_partition_iff (os : Oasys) (id : Nat) (now : UInt64)
    (table : FragmentTable) (firstLen lastLen : Nat) (htotal : 1 < bundle.payload.length)
    (htotal_lt : bundle.payload.length < 2 ^ 64) (hmax : maxLength < 2 ^ 64)
    (hstored : bundle.payload.location ≠ .nodata)
    (hlens : blockLengths blocks false = .ok (firstLen, lastLen))
    (hfirst : firstLen + estimatedFields bundle < maxLength)
    (hlast : lastLen + estimatedFields bundle < maxLength) :
    (∃ fuel pieces table',
      proactivelyFragment os fuel id now table bundle blocks maxLength =
        .ok (some (pieces, table')) ∧ Partition bundle blocks maxLength pieces) ↔
      (bundle.isFragment = true → table (getHashKey bundle) ≠ none) ∧
      (bundle.isFragment = false → bundle.payload.length < 2 ^ 32) ∧
      ∀ s, Starts bundle blocks maxLength (lastLen + estimatedFields bundle) Start.initial s →
        s.Fits bundle blocks maxLength := by
  constructor
  · rintro ⟨fuel, pieces, table', hrun, hpartition⟩
    obtain ⟨-, hstate, hfollows⟩ := proactivelyFragment_follows hlens htotal_lt hrun
    refine ⟨hstate, ?_, fun s hs => hfollows.fits htotal_lt hmax hpartition.fit hs⟩
    cases pieces with
    | nil => cases hfollows
    | cons piece pieces =>
        exact (origLength_eq_iff hfollows.2.1).mp hpartition.fit.1.origLength
  · rintro ⟨hstate, hshort, hfits⟩
    obtain ⟨state, hsome⟩ : ∃ state, proactiveState table bundle = some state := by
      unfold proactiveState
      cases hfrag : bundle.isFragment with
      | false => exact ⟨⟨bundle, []⟩, rfl⟩
      | true => exact Option.ne_none_iff_exists'.mp (hstate hfrag)
    obtain ⟨pieces, state', hloop, hne, hpieces, hbytes⟩ := @fragmentLoop_partition bundle blocks
      maxLength (lastLen + estimatedFields bundle) os now bundle.payload.length id 0 state true
      false _ hlens hstored htotal_lt hmax hshort (by omega) (by omega) hfits
    refine ⟨bundle.payload.length, pieces,
      table.insert (getHashKey (pieces.getLast hne).fragment) state', ?_, hpieces, hbytes⟩
    rw [proactivelyFragment_eq os _ id now table htotal hlens hfirst hlast, hsome]
    rw [Nat.sub_zero] at hloop
    rw [hloop, Exec.ok_bind]
    dsimp only
    rw [List.getLast?_eq_some_getLast hne]
    rfl

end Proactive

def sampleBundle (data : Bytes) : Bundle :=
  { Bundle.new 1 0 with
    creationTs := ⟨0, 0⟩
    source := ⟨ascii ['d', 't', 'n', ':', 'a'], true⟩
    dest := ⟨ascii ['d', 't', 'n', ':', 'b'], true⟩
    replyto := ⟨EndpointID.dtnNone, true⟩
    custodian := ⟨EndpointID.dtnNone, true⟩
    payload := ⟨.disk, data⟩ }

/-- The blocks of a bundle as they are formatted for a link, with the extension blocks behind the
payload that are passed on. -/
def formatted (bundle : Bundle) (trailing : List BlockInfo) : List XmitBlock :=
  let blocks : Exec (BlockInfoVec XmitBlock) := do
    let dict ← PrimaryBlockProcessor.prepare bundle
    BundleProtocol.generateBlocks Oasys.plain bundle
      (⟨.primary, none⟩ :: ⟨.payload, none⟩ :: trailing.map fun block => ⟨.unknown, some block⟩)
      dict
  (blocks.toOption.map BlockInfoVec.blocks).getD []

/-- Three bytes for a link that takes 40. -/
theorem proactivelyFragment_partition_iff_sample :
    ∃ fuel pieces table',
      proactivelyFragment Oasys.plain fuel 2 0 FragmentTable.empty (sampleBundle [1, 2, 3])
          (formatted (sampleBundle [1, 2, 3]) []) 40 = .ok (some (pieces, table')) ∧
        Partition (sampleBundle [1, 2, 3]) (formatted (sampleBundle [1, 2, 3]) []) 40 pieces := by
  refine (proactivelyFragment_partition_iff Oasys.plain 2 0 FragmentTable.empty 29 29 (by decide)
    (by decide) (by decide) (by decide) (by decide +kernel) (by decide) (by decide)).mpr
    ⟨fun h => Bool.noConfusion h, fun _ => by decide, ?_⟩
  intro s hs
  cases hs with
  | here => exact ⟨by decide +kernel, by decide, by decide +kernel⟩
  | next _ hs =>
      cases hs with
      | here => exact ⟨by decide +kernel, by decide +kernel, by decide +kernel⟩
      | next hlt _ => exact absurd hlt (by decide +kernel)

/-- Three bytes for a link that takes 31: the check passes, and there is no room for payload in the
first fragment. -/
theorem proactivelyFragment_not_partition :
    blockLengths (formatted (sampleBundle [1, 2, 3]) []) false = .ok (29, 29) ∧
    29 + estimatedFields (sampleBundle [1, 2, 3]) < 31 ∧
    ¬ ∃ fuel pieces table',
      proactivelyFragment Oasys.plain fuel 2 0 FragmentTable.empty (sampleBundle [1, 2, 3])
          (formatted (sampleBundle [1, 2, 3]) []) 31 = .ok (some (pieces, table')) ∧
        Partition (sampleBundle [1, 2, 3]) (formatted (sampleBundle [1, 2, 3]) []) 31 pieces := by
  have hlens : blockLengths (formatted (sampleBundle [1, 2, 3]) []) false = .ok (29, 29) := by
    decide +kernel
  refine ⟨hlens, by decide, ?_⟩
  rintro ⟨fuel, pieces, table', hrun, hpartition⟩
  obtain ⟨-, -, hfollows⟩ := proactivelyFragment_follows hlens (by decide) hrun
  have hfits := hfollows.fits (by decide) (by decide) hpartition.fit (Starts.here _)
  exact absurd hfits.room (by decide +kernel)

end FragmentManager

end Dtn2
