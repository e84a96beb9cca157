import Dtn2.Fragmentation.Reassembly

/-!
# What `create_fragment` makes

The blocks a fragment gets, the bytes that are counted for them, and the part of the payload it
takes. The length that is left for the payload is computed with `size_t` values; it is the
difference only as long as the counted bytes do not exceed the length the caller allows.
-/

namespace Dtn2

namespace FragmentManager

/-! ## Blocks -/

def counted (blocks : List XmitBlock) (first last : Bool) : Nat :=
  ((copyBlocks first last blocks false).toOption.map Prod.snd).getD 0

/-- The bytes that do not go into the payload of the fragment: the counted blocks and the new
fields of the primary block. -/
def overhead (bundle : Bundle) (blocks : List XmitBlock) (offset : Nat) (first last : Bool) : Nat :=
  counted blocks first last + addedFields bundle offset

/-- The length left for the payload, as computed with `size_t` values. -/
def room (bundle : Bundle) (blocks : List XmitBlock) (offset length : Nat)
    (first last : Bool) : Nat :=
  sizeSub (sizeSub length (counted blocks first last)) (addedFields bundle offset)

/-- The bytes of the payload that the fragment takes. -/
def taken (bundle : Bundle) (blocks : List XmitBlock) (offset length : Nat)
    (first last : Bool) : Nat :=
  clampLength bundle.payload.length offset (room bundle blocks offset length first last) first

theorem copyBlocks_eq {blocks : List XmitBlock} {first last : Bool} {sources : List BlockInfo}
    {n : Nat} (h : copyBlocks first last blocks false = .ok (sources, n)) :
    counted blocks first last = n := by
  unfold counted
  rw [h]
  rfl

theorem room_eq {bundle : Bundle} {blocks : List XmitBlock} {offset length : Nat}
    {first last : Bool} (hle : overhead bundle blocks offset first last ≤ length)
    (hlt : length < 2 ^ 64) :
    room bundle blocks offset length first last =
      length - overhead bundle blocks offset first last := by
  unfold room overhead at *
  rw [sizeSub_of_le (by omega) hlt, sizeSub_of_le (by omega) (by omega)]
  omega

theorem copyBlocks_ok {blocks : List XmitBlock} {found : Bool} {lens : Nat × Nat}
    (h : blockLengths blocks found = .ok lens) (first last found' : Bool) :
    ∃ sources n, copyBlocks first last blocks found' = .ok (sources, n) := by
  induction blocks generalizing found lens found' with
  | nil => exact ⟨[], 0, rfl⟩
  | cons block blocks ih =>
      rw [blockLengths] at h
      obtain ⟨type, htype, hrest⟩ := Exec.bind_eq_ok.mp h
      have hrec : ∀ f, ∃ sources n, copyBlocks first last blocks f = .ok (sources, n) := by
        intro f
        split at hrest
        · obtain ⟨lens', hlens, -⟩ := Exec.bind_eq_ok.mp hrest
          exact ih hlens f
        · split at hrest
          · exact ih hrest f
          · obtain ⟨flags, -, hrest'⟩ := Exec.bind_eq_ok.mp hrest
            obtain ⟨lens', hlens, -⟩ := Exec.bind_eq_ok.mp hrest'
            exact ih hlens f
      have hcopies : ∃ copied, copiesBlock first last found' type block = .ok copied := by
        unfold copiesBlock
        split
        · exact ⟨true, rfl⟩
        · rename_i hother
          simp only [not_or] at hother
          rw [if_neg hother.1, if_neg hother.2.1] at hrest
          obtain ⟨flags, hflags, -⟩ := Exec.bind_eq_ok.mp hrest
          rw [hflags]
          exact ⟨_, rfl⟩
      obtain ⟨copied, hcopied⟩ := hcopies
      obtain ⟨sources, n, hsources⟩ :=
        hrec (found' || decide (type = Processor.payload.blockType))
      rw [copyBlocks, htype, Exec.ok_bind, hcopied, Exec.ok_bind, hsources, Exec.ok_bind]
      dsimp only
      split
      · exact ⟨_, _, rfl⟩
      · exact ⟨_, _, rfl⟩

/-! ## The fragment -/

def baseOffset (bundle : Bundle) : Nat :=
  if bundle.isFragment = true then bundle.fragOffset.toNat else 0

/-- The length of the payload of the original. -/
def totalOf (bundle : Bundle) : Nat :=
  if bundle.isFragment = true then bundle.origLength.toNat else bundle.payload.length

structure Created (bundle : Bundle) (blocks : List XmitBlock) (offset length : Nat)
    (first last : Bool) (fragment : Bundle) : Prop where
  sources : ∃ n, copyBlocks first last blocks false = .ok (fragment.recvBlocks.blocks, n)
  inside : offset + taken bundle blocks offset length first last ≤ bundle.payload.length
  data : fragment.payload.data =
    (bundle.payload.data.drop offset).take (taken bundle blocks offset length first last)
  isFragment : fragment.isFragment = true
  origLength : fragment.origLength =
    if bundle.isFragment = false then UInt32.ofNat bundle.payload.length else bundle.origLength
  fragOffset : fragment.fragOffset = if bundle.isFragment = false then UInt32.ofNat offset
    else UInt32.ofNat (bundle.fragOffset.toNat + offset)

section Created

variable {os : Oasys} {id : Nat} {now : UInt64} {bundle fragment : Bundle}
variable {blocks : List XmitBlock} {offset length : Nat} {first last : Bool}

theorem setLength_length (os : Oasys) (p : BundlePayload) (n : Nat) :
    (p.setLength os n).length = n := by
  simp only [BundlePayload.setLength, BundlePayload.length, List.length_append, List.length_take,
    List.length_map, List.length_range']
  omega

theorem Created.payload_length (h : Created bundle blocks offset length first last fragment) :
    fragment.payload.length = taken bundle blocks offset length first last := by
  have hinside := h.inside
  simp only [BundlePayload.length] at *
  rw [h.data, List.length_take, List.length_drop]
  omega

private theorem overwrite_all {p : BundlePayload} {bp : Bytes} (h : bp.length = p.length) :
    (p.overwrite bp 0).data = bp := by
  simp only [BundlePayload.overwrite, List.take_zero, List.nil_append]
  rw [List.drop_eq_nil_of_le, List.append_nil]
  simp only [BundlePayload.length] at h
  omega

theorem createFragment_created
    (h : createFragment os id now bundle blocks offset length first last = .ok fragment) :
    Created bundle blocks offset length first last fragment := by
  unfold createFragment at h
  obtain ⟨⟨sources, n⟩, hcopy, hrest⟩ := Exec.bind_eq_ok.mp h
  obtain ⟨payload, hwrite, hfragment⟩ := Exec.bind_eq_ok.mp hrest
  dsimp only at hwrite hfragment
  have hn := copyBlocks_eq hcopy
  rw [← hn] at hwrite
  have htaken : clampLength bundle.payload.length offset
      (sizeSub (sizeSub length (counted blocks first last)) (addedFields bundle offset)) first =
        taken bundle blocks offset length first last := rfl
  rw [htaken] at hwrite
  obtain ⟨hinside, -, hpayload⟩ := BundlePayload.writeFrom_inside hwrite
  rw [← Except.ok.inj hfragment]
  refine ⟨⟨n, hcopy⟩, hinside, ?_, rfl, rfl, rfl⟩
  rw [hpayload]
  apply overwrite_all
  rw [setLength_length, List.length_take, List.length_drop]
  simp only [BundlePayload.length] at hinside
  omega

theorem createFragment_ok (os : Oasys) (id : Nat) (now : UInt64) {lens : Nat × Nat}
    (hlens : blockLengths blocks false = .ok lens)
    (hstored : bundle.payload.location ≠ .nodata) (hlt : bundle.payload.length < 2 ^ 64)
    (hinside : offset + taken bundle blocks offset length first last ≤ bundle.payload.length) :
    ∃ fragment, createFragment os id now bundle blocks offset length first last = .ok fragment := by
  obtain ⟨sources, n, hcopy⟩ := copyBlocks_ok hlens first last false
  have hn := copyBlocks_eq hcopy
  unfold createFragment
  rw [hcopy, Exec.ok_bind]
  dsimp only
  rw [← hn]
  have htaken : clampLength bundle.payload.length offset
      (sizeSub (sizeSub length (counted blocks first last)) (addedFields bundle offset)) first =
        taken bundle blocks offset length first last := rfl
  rw [htaken, BundlePayload.writeFrom_eq]
  · exact ⟨_, rfl⟩
  · rw [setLength_length]
    omega
  · exact hinside
  · omega
  · omega
  · show Location.disk ≠ Location.nodata
    decide
  · exact hstored

end Created

end FragmentManager

end Dtn2
