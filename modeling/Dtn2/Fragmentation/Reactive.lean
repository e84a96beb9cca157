import Dtn2.Fragmentation.Proactive

/-!
# Fragmenting what was sent in part

`try_to_reactively_fragment` passes the length of the unsent payload to `create_fragment`, which
takes it for the length of a whole fragment and subtracts the blocks and the new fields from it. The
tail is complete only if there is nothing to subtract, or so much that the difference wraps around
and the length is cut to the payload.
-/

namespace Dtn2

namespace FragmentManager

/-- Where the tail starts: at the first byte that was not sent, or at the last byte. -/
def tailOffset (payloadLen payloadOffset bytesSent : Nat) : Nat :=
  (tailOf payloadLen (min payloadLen (bytesSent - payloadOffset))).1

/-- A bundle that was received in part, with at least `p` bytes of the payload. -/
structure ReceivedPart (bundle : Bundle) (p : Nat) (r : Bundle) : Prop where
  isFragment : r.isFragment = bundle.isFragment
  fragOffset : r.fragOffset = bundle.fragOffset
  kept : ∃ k, p ≤ k ∧ r.payload.data = bundle.payload.data.take k
  announced : ∀ block, findBlock Processor.payload.blockType r.recvBlocks.blocks =
    .ok (some block) → block.dataLength.toNat = bundle.payload.length

/-- The tail has the payload from `p` on, and with the part that was received it covers the payload
of the bundle. -/
structure TailComplete (bundle : Bundle) (p : Nat) (tail : Bundle) : Prop where
  payload : tail.payload.data = bundle.payload.data.drop p
  fragOffset : tail.fragOffset.toNat = baseOffset bundle + p
  origLength : tail.origLength.toNat = totalOf bundle
  covers : ∀ r r', ReceivedPart bundle p r → tryToConvertToFragment r = .ok (true, r') →
    ∀ x, baseOffset bundle ≤ x → x < baseOffset bundle + bundle.payload.length →
      r'.fragOffset.toNat ≤ x ∧ x < r'.fragOffset.toNat + r'.payload.length ∨
        tail.fragOffset.toNat ≤ x ∧ x < tail.fragOffset.toNat + tail.payload.length

section Tail

variable {bundle : Bundle} {blocks : List XmitBlock}

theorem tailOf_spec {payloadLen payloadSent : Nat} (h : 1 < payloadLen) :
    (tailOf payloadLen payloadSent).1 < payloadLen ∧
      (tailOf payloadLen payloadSent).1 + (tailOf payloadLen payloadSent).2 = payloadLen := by
  unfold tailOf
  split
  · dsimp only
    omega
  · dsimp only
    omega

theorem tryToReactivelyFragment_created {os : Oasys} {id : Nat} {now : UInt64} {bytesSent : Nat}
    {payloadOffset : Nat} {tail : Bundle}
    (hoffset : BundleProtocol.payloadOffset blocks = .ok payloadOffset)
    (hrun : tryToReactivelyFragment os id now bundle blocks bytesSent = .ok (some tail)) :
    1 < bundle.payload.length ∧
      Created bundle blocks (tailOffset bundle.payload.length payloadOffset bytesSent)
        (bundle.payload.length - tailOffset bundle.payload.length payloadOffset bytesSent)
        false true tail := by
  unfold tryToReactivelyFragment at hrun
  split at hrun
  · cases Except.ok.inj hrun
  · rw [hoffset, Exec.ok_bind] at hrun
    split at hrun
    · cases Except.ok.inj hrun
    · split at hrun
      · cases Except.ok.inj hrun
      · obtain ⟨payloadBlock, -, hrun⟩ := Exec.bind_eq_ok.mp hrun
        dsimp only at hrun
        split at hrun
        · cases Except.ok.inj hrun
        · rename_i hlong
          have hlong' : 1 < bundle.payload.length := by omega
          obtain ⟨_, _, hrun⟩ := Exec.bind_eq_ok.mp hrun
          obtain ⟨tail', hcreate, htail⟩ := Exec.bind_eq_ok.mp hrun
          obtain rfl := Option.some.inj (Except.ok.inj htail)
          have hspec := @tailOf_spec _ (min bundle.payload.length (bytesSent - payloadOffset))
            hlong'
          have hlen : bundle.payload.length -
              tailOffset bundle.payload.length payloadOffset bytesSent =
                (tailOf bundle.payload.length
                  (min bundle.payload.length (bytesSent - payloadOffset))).2 := by
            unfold tailOffset
            omega
          rw [hlen]
          exact ⟨hlong', createFragment_created hcreate⟩

theorem room_mod (p length : Nat) (first last : Bool) (hlt : length < 2 ^ 64) :
    room bundle blocks p length first last =
      if overhead bundle blocks p first last % 2 ^ 64 ≤ length then
        length - overhead bundle blocks p first last % 2 ^ 64
      else 2 ^ 64 + length - overhead bundle blocks p first last % 2 ^ 64 := by
  unfold room sizeSub overhead
  split <;> omega

theorem taken_rest_iff {p : Nat} {last : Bool} (hp : p < bundle.payload.length)
    (hlt : bundle.payload.length < 2 ^ 64)
    (hinside : p + taken bundle blocks p (bundle.payload.length - p) false last ≤
      bundle.payload.length) :
    p + taken bundle blocks p (bundle.payload.length - p) false last = bundle.payload.length ↔
      overhead bundle blocks p false last % 2 ^ 64 = 0 ∨
        bundle.payload.length < overhead bundle blocks p false last % 2 ^ 64 := by
  have hmod := Nat.mod_lt (overhead bundle blocks p false last) (show 0 < 2 ^ 64 by decide)
  unfold taken clampLength at *
  rw [room_mod p _ false last (by omega)] at *
  dsimp only at *
  rw [sizeSub_of_le hp.le hlt] at *
  simp only [Bool.false_eq_true, if_false] at *
  generalize overhead bundle blocks p false last % 2 ^ 64 = o at *
  by_cases ho : o ≤ bundle.payload.length - p
  · simp only [if_pos ho] at *
    split at hinside <;> rename_i hcheck
    · rw [if_pos hcheck]
      omega
    · rw [if_neg hcheck]
      omega
  · simp only [if_neg ho] at *
    split at hinside <;> rename_i hcheck
    · rw [if_pos hcheck]
      omega
    · rw [if_neg hcheck]
      omega

theorem tryToConvertToFragment_part {p : Nat} {r r' : Bundle} (hr : ReceivedPart bundle p r)
    (hp : p < bundle.payload.length) (h : tryToConvertToFragment r = .ok (true, r')) :
    r'.fragOffset.toNat = baseOffset bundle ∧ p ≤ r'.payload.length := by
  obtain ⟨k, hk, hdata⟩ := hr.kept
  have hlen : r.payload.length = min k bundle.payload.length := by
    simp only [BundlePayload.length, hdata, List.length_take]
  have hmark : ∀ (c : Bundle) (n : UInt32), c.isFragment = r.isFragment →
      c.fragOffset = r.fragOffset → (markFragment c n).fragOffset.toNat = baseOffset bundle ∧
        (markFragment c n).payload = c.payload := by
    intro c n hfrag hoff
    rw [hr.isFragment] at hfrag
    rw [hr.fragOffset] at hoff
    unfold markFragment baseOffset
    rw [hfrag]
    cases bundle.isFragment with
    | true => exact ⟨congrArg UInt32.toNat hoff, rfl⟩
    | false => exact ⟨rfl, rfl⟩
  unfold tryToConvertToFragment at h
  obtain ⟨found, hfound, h⟩ := Exec.bind_eq_ok.mp h
  cases found with
  | none => cases (Prod.mk.inj (Except.ok.inj h)).1
  | some block =>
      have hannounced := hr.announced block hfound
      dsimp only at h
      split at h
      · cases (Prod.mk.inj (Except.ok.inj h)).1
      · split at h
        · rename_i hcomplete
          obtain ⟨_, _, h⟩ := Exec.bind_eq_ok.mp h
          obtain ⟨whole, -, h⟩ := Exec.bind_eq_ok.mp h
          split at h
          · cases (Prod.mk.inj (Except.ok.inj h)).1
          · obtain ⟨payload, htrunc, h⟩ := Exec.bind_eq_ok.mp h
            obtain ⟨-, rfl⟩ := Prod.mk.inj (Except.ok.inj h)
            obtain ⟨hoff, hpay⟩ := hmark { r with payload := payload } block.dataLength rfl rfl
            refine ⟨hoff, ?_⟩
            rw [hpay]
            unfold BundlePayload.truncate at htrunc
            obtain ⟨_, _, htrunc⟩ := Exec.bind_eq_ok.mp htrunc
            obtain ⟨_, _, htrunc⟩ := Exec.bind_eq_ok.mp htrunc
            rw [← Except.ok.inj htrunc]
            simp only [BundlePayload.length, List.length_take] at *
            omega
        · obtain ⟨-, rfl⟩ := Prod.mk.inj (Except.ok.inj h)
          obtain ⟨hoff, hpay⟩ := hmark r block.dataLength rfl rfl
          refine ⟨hoff, ?_⟩
          rw [hpay]
          omega

/-- The tail that is posted is complete exactly if the bytes that are subtracted from its length are
none or more than the payload, and its offset and total length fit their fields. -/
theorem tryToReactivelyFragment_complete_iff (os : Oasys) (id : Nat) (now : UInt64)
    (bytesSent payloadOffset : Nat) (tail : Bundle)
    (hlt : bundle.payload.length < 2 ^ 64)
    (hoffset : BundleProtocol.payloadOffset blocks = .ok payloadOffset)
    (hrun : tryToReactivelyFragment os id now bundle blocks bytesSent = .ok (some tail)) :
    TailComplete bundle (tailOffset bundle.payload.length payloadOffset bytesSent) tail ↔
      (overhead bundle blocks (tailOffset bundle.payload.length payloadOffset bytesSent)
          false true % 2 ^ 64 = 0 ∨
        bundle.payload.length < overhead bundle blocks
          (tailOffset bundle.payload.length payloadOffset bytesSent) false true % 2 ^ 64) ∧
      baseOffset bundle + tailOffset bundle.payload.length payloadOffset bytesSent < 2 ^ 32 ∧
      (bundle.isFragment = false → bundle.payload.length < 2 ^ 32) := by
  obtain ⟨hlong, hcreated⟩ := tryToReactivelyFragment_created hoffset hrun
  have hp : tailOffset bundle.payload.length payloadOffset bytesSent < bundle.payload.length :=
    (tailOf_spec hlong).1
  generalize tailOffset bundle.payload.length payloadOffset bytesSent = p at hcreated hp ⊢
  have hlen := hcreated.payload_length
  rw [← taken_rest_iff hp hlt hcreated.inside, ← origLength_eq_iff hcreated, ← hlen]
  constructor
  · intro h
    have hpayload := congrArg List.length h.payload
    have hfrag := h.fragOffset
    refine ⟨?_, ?_, h.origLength⟩
    · simp only [BundlePayload.length, List.length_drop] at *
      omega
    · rw [← hfrag]
      exact tail.fragOffset.toNat_lt
  · rintro ⟨hrest, hoff, horig⟩
    have hfrag : tail.fragOffset.toNat = baseOffset bundle + p := by
      rw [fragOffset_eq hcreated, UInt32.toNat_ofNat', Nat.mod_eq_of_lt hoff]
    refine ⟨?_, hfrag, horig, ?_⟩
    · rw [hcreated.data, ← hlen]
      apply List.take_of_length_le
      simp only [BundlePayload.length, List.length_drop] at *
      omega
    · intro r r' hr hconvert x hlow hhigh
      obtain ⟨hroff, hrlen⟩ := tryToConvertToFragment_part hr hp hconvert
      rw [hroff, hfrag]
      omega

end Tail

/-- Five bytes, two of them sent. -/
theorem tryToReactivelyFragment_complete_iff_sample :
    ∃ tail, tryToReactivelyFragment Oasys.plain 2 0 (sampleBundle [1, 2, 3, 4, 5])
        (formatted (sampleBundle [1, 2, 3, 4, 5]) []) 34 = .ok (some tail) ∧
      TailComplete (sampleBundle [1, 2, 3, 4, 5]) (tailOffset 5 32 34) tail := by
  have hsome : ((tryToReactivelyFragment Oasys.plain 2 0 (sampleBundle [1, 2, 3, 4, 5])
      (formatted (sampleBundle [1, 2, 3, 4, 5]) []) 34).toOption.bind id).isSome = true := by
    decide +kernel
  cases hrun : tryToReactivelyFragment Oasys.plain 2 0 (sampleBundle [1, 2, 3, 4, 5])
      (formatted (sampleBundle [1, 2, 3, 4, 5]) []) 34 with
  | error s =>
      rw [hrun] at hsome
      cases hsome
  | ok tail =>
      cases tail with
      | none =>
          rw [hrun] at hsome
          cases hsome
      | some tail =>
          exact ⟨tail, rfl, (tryToReactivelyFragment_complete_iff Oasys.plain 2 0 34 32 tail
            (by decide) (by decide +kernel) hrun).mpr
            ⟨Or.inr (by decide +kernel), by decide, fun _ => by decide⟩⟩

/-- A hundred bytes, ten of them sent: the tail ends 31 bytes too early. -/
theorem tryToReactivelyFragment_not_complete :
    ∃ tail, tryToReactivelyFragment Oasys.plain 2 0 (sampleBundle (List.replicate 100 7))
        (formatted (sampleBundle (List.replicate 100 7)) []) 42 = .ok (some tail) ∧
      ¬ TailComplete (sampleBundle (List.replicate 100 7)) (tailOffset 100 32 42) tail := by
  have hlen : (tryToReactivelyFragment Oasys.plain 2 0 (sampleBundle (List.replicate 100 7))
      (formatted (sampleBundle (List.replicate 100 7)) []) 42).toOption.bind
        (Option.map fun tail => tail.payload.length) = some 59 := by
    decide +kernel
  cases hrun : tryToReactivelyFragment Oasys.plain 2 0 (sampleBundle (List.replicate 100 7))
      (formatted (sampleBundle (List.replicate 100 7)) []) 42 with
  | error s =>
      rw [hrun] at hlen
      cases hlen
  | ok tail =>
      cases tail with
      | none =>
          rw [hrun] at hlen
          cases hlen
      | some tail =>
          rw [hrun] at hlen
          refine ⟨tail, rfl, ?_⟩
          intro hcomplete
          have hpayload := congrArg List.length hcomplete.payload
          have hshort : tail.payload.data.length = 59 := Option.some.inj hlen
          rw [hshort] at hpayload
          exact absurd hpayload (by decide)

end FragmentManager

end Dtn2
