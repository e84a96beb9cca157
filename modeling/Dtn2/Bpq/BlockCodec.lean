import Dtn2.Bpq.Block

/-!
# The BPQ block is read back

What `write_to_buffer` writes is read back by `initialise_from_buf` as long as the return value can hold
the length, and `initialise_from_buf` stays inside of its buffer as long as no index wraps.
-/

namespace Dtn2

open Framework

namespace BPQBlock

/-! ## Room for all fields, or not -/

def encoded (b : BPQBlock) : Bytes := b.fields.flatMap Field.encoded

theorem Field.write_fits {len : Nat} {out : Bytes} {f : Field}
    (h : out.length + f.encoded.length ≤ len) : f.write len out = .ok (out ++ f.encoded) := by
  cases f with
  | byte b =>
      simp only [Field.encoded, List.length_singleton] at h
      rw [Field.write, if_pos (by omega)]
      rfl
  | sdnv val =>
      have hpos := List.length_pos_of_ne_nil (SDNV.encoded_ne_nil val)
      simp only [Field.encoded] at h
      rw [Field.write, if_pos (by omega), SDNV.encode, if_neg (by omega)]
      rfl
  | bytes bs =>
      simp only [Field.encoded] at h
      rw [Field.write, List.take_of_length_le (by omega)]
      rfl

theorem writeFields_fits {len : Nat} {fs : List Field} {out : Bytes}
    (h : out.length + (fs.flatMap Field.encoded).length ≤ len) :
    writeFields len fs out = .ok (out ++ fs.flatMap Field.encoded) := by
  induction fs generalizing out with
  | nil => simp [writeFields]
  | cons f fs ih =>
      rw [List.flatMap_cons, List.length_append] at h
      have hrest : (out ++ f.encoded).length + (fs.flatMap Field.encoded).length ≤ len := by
        rw [List.length_append]
        omega
      rw [writeFields, Field.write_fits (by omega), Exec.ok_bind, ih hrest, List.flatMap_cons,
        List.append_assoc]

/-- A byte or a value fails if there is no room for it. -/
def Field.Checked : Field → Prop
  | .bytes _ => False
  | _ => True

theorem Field.write_over {len : Nat} {out : Bytes} {f : Field} (hf : f.Checked)
    (h : len < out.length + f.encoded.length) : f.write len out = .error .protocolError := by
  cases f with
  | byte b =>
      simp only [Field.encoded, List.length_singleton] at h
      rw [Field.write, if_neg (by omega)]
  | sdnv val =>
      simp only [Field.encoded] at h
      rw [Field.write]
      split
      · rw [SDNV.encode, if_pos (by omega)]
      · rfl
  | bytes bs => cases hf

/-- Every string is followed by something that needs room. -/
def Guarded : List Field → Prop
  | [] => True
  | .bytes _ :: [] => False
  | .bytes _ :: g :: rest => g.Checked ∧ Guarded (g :: rest)
  | _ :: rest => Guarded rest

theorem writeFields_over {len : Nat} {fs : List Field} (hfs : Guarded fs) {out : Bytes}
    (hout : out.length ≤ len) (h : len < out.length + (fs.flatMap Field.encoded).length) :
    writeFields len fs out = .error .protocolError := by
  induction fs generalizing out with
  | nil =>
      simp only [List.flatMap_nil, List.length_nil] at h
      omega
  | cons f fs ih =>
      rw [List.flatMap_cons, List.length_append] at h
      by_cases hfit : out.length + f.encoded.length ≤ len
      · have hguard : Guarded fs := by
          cases f with
          | bytes bs =>
              cases fs with
              | nil => cases hfs
              | cons g rest => exact hfs.2
          | byte b => exact hfs
          | sdnv val => exact hfs
        rw [writeFields, Field.write_fits hfit, Exec.ok_bind]
        apply ih hguard
        · rw [List.length_append]
          exact hfit
        · rw [List.length_append]
          omega
      · cases f with
        | bytes bs =>
            cases fs with
            | nil => cases hfs
            | cons g rest =>
                -- the string is cut, and the field behind it finds the buffer full
                simp only [Field.encoded] at hfit
                have hfull : (out ++ bs.take (len - out.length)).length = len := by
                  rw [List.length_append, List.length_take]
                  omega
                have hg : 0 < g.encoded.length := by
                  cases g with
                  | byte b => exact Nat.one_pos
                  | sdnv val => exact List.length_pos_of_ne_nil (SDNV.encoded_ne_nil val)
                  | bytes bs => cases hfs.1
                rw [writeFields, Field.write, Exec.ok_bind, writeFields,
                  Field.write_over hfs.1 (by omega), Exec.error_bind]
        | byte b =>
            have hover : (Field.byte b).write len out = .error .protocolError :=
              Field.write_over trivial (by omega)
            rw [writeFields, hover, Exec.error_bind]
        | sdnv val =>
            have hover : (Field.sdnv val).write len out = .error .protocolError :=
              Field.write_over trivial (by omega)
            rw [writeFields, hover, Exec.error_bind]

theorem guarded_flatMap (l : List BPQFragment) : Guarded (l.flatMap fragmentFields) := by
  induction l with
  | nil => trivial
  | cons f l ih => exact ih

theorem guarded_fields (b : BPQBlock) : Guarded b.fields :=
  ⟨trivial, trivial, guarded_flatMap b.fragments⟩

/-! ## The length -/

/-- What the fields of a block hold: an endpoint id that its own string gives, a query whose length is a
`u_int`, and a list of 32-bit fragments in the order of their offsets. -/
structure Wellformed (os : Oasys) (b : BPQBlock) : Prop where
  source : os.assign b.source.uri = b.source
  valid : b.source.valid = true
  query : b.query.length < uintMod
  fragments : ∀ f ∈ b.fragments, f.offset < uintMod ∧ f.length < uintMod
  sorted : Coverage.Sorted BPQFragment.offset b.fragments

theorem queryLen_toNat {os : Oasys} {b : BPQBlock} (h : Wellformed os b) :
    b.queryLen.toNat = b.query.length := by
  rw [queryLen, UInt32.toNat_ofNat']
  exact Nat.mod_eq_of_lt h.query

theorem length_eq {os : Oasys} {b : BPQBlock} (h : Wellformed os b) :
    b.length = b.encoded.length % uintMod := by
  have hfragments : (b.fragments.flatMap fragmentFields).flatMap Field.encoded =
      b.fragments.flatMap fun f => SDNV.encoded (UInt64.ofNat f.offset) ++
        SDNV.encoded (UInt64.ofNat f.length) := by
    rw [List.flatMap_assoc]
    apply List.flatMap_congr
    intro f _
    simp [fragmentFields, Field.encoded]
  rw [length, encoded, fields, List.flatMap_append, hfragments]
  congr 1
  simp only [List.flatMap_cons, List.flatMap_nil, Field.encoded, List.length_append,
    List.length_flatMap, SDNV.encodingLen_eq, queryLen_toNat h, List.take_length, List.length_cons,
    List.length_nil]
  omega

theorem writeToBuffer_eq {os : Oasys} {b : BPQBlock} (h : Wellformed os b) :
    b.writeToBuffer b.length =
      if b.encoded.length < uintMod then .ok (toInt b.length, b.encoded) else .error .protocolError := by
  have hlen := length_eq h
  rw [writeToBuffer]
  split
  · rename_i hlt
    rw [Nat.mod_eq_of_lt hlt] at hlen
    have hfits : ([] : Bytes).length + (b.fields.flatMap Field.encoded).length ≤ b.length := by
      rw [hlen, encoded, List.length_nil]
      omega
    rw [writeFields_fits hfits, Exec.ok_bind, List.nil_append]
    change (assertThat (b.encoded.length = b.length) >>= fun _ =>
      pure (toInt b.encoded.length, b.encoded)) = _
    rw [Exec.assert_bind hlen.symm, ← hlen]
    rfl
  · rename_i hge
    have hover : b.length < ([] : Bytes).length + (b.fields.flatMap Field.encoded).length := by
      have hmod := Nat.mod_lt b.encoded.length (show 0 < uintMod by decide)
      rw [hlen, List.length_nil]
      change _ < 0 + b.encoded.length
      omega
    rw [writeFields_over (guarded_fields b) (Nat.zero_le _) hover, Exec.error_bind]

/-! ## Reading what was written -/

section Read

variable {buf rest : Bytes} {i : Nat}

theorem extractByte_at {b : UInt8} (hbuf : buf.length < uintMod) (h : buf.drop i = b :: rest) :
    extractByte buf i = .ok (b, i + 1) ∧ buf.drop (i + 1) = rest := by
  have hlen := congrArg List.length h
  rw [List.length_drop, List.length_cons] at hlen
  have hget : buf[i]? = some b := by
    rw [← List.head?_drop, h]
    rfl
  refine ⟨?_, ?_⟩
  · rw [extractByte, hget]
    simp only
    rw [Nat.mod_eq_of_lt (by omega)]
  · rw [← List.drop_drop, h]
    rfl

theorem extractSdnv_at {val : UInt64} (hbuf : buf.length < uintMod)
    (h : buf.drop i = SDNV.encoded val ++ rest) :
    extractSdnv buf i = .ok (val, i + (SDNV.encoded val).length) ∧
      buf.drop (i + (SDNV.encoded val).length) = rest := by
  have hpos := List.length_pos_of_ne_nil (SDNV.encoded_ne_nil val)
  have hlen := congrArg List.length h
  rw [List.length_drop, List.length_append] at hlen
  refine ⟨?_, ?_⟩
  · rw [extractSdnv, if_pos (by omega), h, SDNV.decode_encoded]
    simp only
    rw [Nat.mod_eq_of_lt (by omega)]
  · rw [← List.drop_drop, h, List.drop_left]

theorem extractSdnv32_at {n : Nat} (hn : n < uintMod) (hbuf : buf.length < uintMod)
    (h : buf.drop i = SDNV.encoded (UInt64.ofNat n) ++ rest) :
    extractSdnv32 buf i = .ok (n, i + (SDNV.encoded (UInt64.ofNat n)).length) ∧
      buf.drop (i + (SDNV.encoded (UInt64.ofNat n)).length) = rest := by
  have hpos := List.length_pos_of_ne_nil (SDNV.encoded_ne_nil (UInt64.ofNat n))
  have hlen := congrArg List.length h
  rw [List.length_drop, List.length_append] at hlen
  simp only [uintMod] at hn
  have hval : (UInt64.ofNat n).toNat = n := by
    rw [UInt64.toNat_ofNat']
    omega
  refine ⟨?_, ?_⟩
  · rw [extractSdnv32, if_pos (by omega), h, SDNV.decode32, SDNV.decode_encoded]
    simp only
    rw [hval, if_neg (by omega)]
    simp only [Option.map_some]
    rw [Nat.mod_eq_of_lt (by omega)]
  · rw [← List.drop_drop, h, List.drop_left]

/-- The index behind a string is compared as an index inside of the buffer, so the string must not be the
last field. -/
theorem extractBytes_at {bs : Bytes} (hbuf : buf.length < uintMod) (hrest : rest ≠ [])
    (h : buf.drop i = bs ++ rest) :
    extractBytes buf i bs.length = .ok (bs, i + bs.length) ∧ buf.drop (i + bs.length) = rest := by
  have hpos := List.length_pos_of_ne_nil hrest
  have hlen := congrArg List.length h
  rw [List.length_drop, List.length_append] at hlen
  have hmod : (i + bs.length) % uintMod = i + bs.length := Nat.mod_eq_of_lt (by omega)
  refine ⟨?_, ?_⟩
  · rw [extractBytes, hmod, if_pos (by omega), if_neg (by omega), h, List.take_left]
  · rw [← List.drop_drop, h, List.drop_left]

theorem insertSorted_last {f : BPQFragment} {l : List BPQFragment}
    (h : ∀ g ∈ l, g.offset ≤ f.offset) : BPQFragmentList.insertSorted f l = l ++ [f] := by
  induction l with
  | nil => rfl
  | cons g l ih =>
      have hg := h g List.mem_cons_self
      rw [BPQFragmentList.insertSorted, Coverage.insertSorted, if_neg (by omega)]
      change g :: BPQFragmentList.insertSorted f l = g :: l ++ [f]
      rw [ih fun c hc => h c (List.mem_cons_of_mem g hc)]
      rfl

theorem extractFragmentsLoop_at (hbuf : buf.length < uintMod) (l done : List BPQFragment)
    (hl : ∀ f ∈ l, f.offset < uintMod ∧ f.length < uintMod)
    (hsorted : Coverage.Sorted BPQFragment.offset (done ++ l))
    (h : buf.drop i = (l.flatMap fragmentFields).flatMap Field.encoded) :
    extractFragmentsLoop buf l.length i done = .ok (done ++ l) := by
  induction l generalizing i done with
  | nil => simp [extractFragmentsLoop]
  | cons f l ih =>
      obtain ⟨hoffset, hlength⟩ := hl f List.mem_cons_self
      simp only [List.flatMap_cons, fragmentFields, List.flatMap_append, List.flatMap_nil,
        Field.encoded, List.append_nil, List.append_assoc] at h
      obtain ⟨hread, hdrop⟩ := extractSdnv32_at hoffset hbuf h
      obtain ⟨hread', hdrop'⟩ := extractSdnv32_at hlength hbuf hdrop
      have hle : ∀ g ∈ done, g.offset ≤ f.offset := by
        intro g hg
        exact (List.pairwise_append.mp hsorted).2.2 g hg f List.mem_cons_self
      rw [List.length_cons, extractFragmentsLoop, hread, Exec.ok_bind]
      dsimp only
      rw [hread', Exec.ok_bind]
      dsimp only
      rw [insertSorted_last hle, ih (done ++ [f])]
      · rw [List.append_assoc]
        rfl
      · intro g hg
        exact hl g (List.mem_cons_of_mem f hg)
      · rw [List.append_assoc]
        exact hsorted
      · exact hdrop'

end Read

theorem encoded_eq {os : Oasys} {b : BPQBlock} (h : Wellformed os b)
    (hlen : b.encoded.length < uintMod) :
    b.source.uri.length < uintMod ∧ b.fragments.length < uintMod ∧
    b.encoded = b.kind :: b.matchingRule :: (SDNV.encoded b.creationTs.seconds ++
      (SDNV.encoded b.creationTs.seqno ++ (SDNV.encoded (UInt64.ofNat b.source.uri.length) ++
      (b.source.uri ++ (SDNV.encoded (UInt64.ofNat b.query.length) ++ (b.query ++
      (SDNV.encoded (UInt64.ofNat b.fragments.length) ++
      (b.fragments.flatMap fragmentFields).flatMap Field.encoded))))))) := by
  have hquery : b.queryLen.toUInt64 = UInt64.ofNat b.query.length := by
    apply UInt64.toNat_inj.mp
    have hq := h.query
    simp only [uintMod] at hq
    rw [UInt32.toNat_toUInt64, queryLen_toNat h, UInt64.toNat_ofNat']
    omega
  have hshape : b.encoded = b.kind :: b.matchingRule :: (SDNV.encoded b.creationTs.seconds ++
      (SDNV.encoded b.creationTs.seqno ++ (SDNV.encoded (UInt64.ofNat b.source.uri.length) ++
      (b.source.uri ++ (SDNV.encoded (UInt64.ofNat b.query.length) ++ (b.query ++
      (SDNV.encoded b.fragLen.toUInt64 ++
      (b.fragments.flatMap fragmentFields).flatMap Field.encoded))))))) := by
    rw [encoded, fields, queryLen_toNat h, List.take_length, hquery]
    simp [Field.encoded]
  have hfragments : b.fragments.length ≤
      ((b.fragments.flatMap fragmentFields).flatMap Field.encoded).length := by
    generalize b.fragments = l
    induction l with
    | nil => exact Nat.le_refl 0
    | cons f l ih =>
        have hpos := List.length_pos_of_ne_nil (SDNV.encoded_ne_nil (UInt64.ofNat f.offset))
        simp only [List.flatMap_cons, fragmentFields, List.flatMap_append, List.length_append,
          List.length_cons, Field.encoded] at ih ⊢
        omega
  have htotal := congrArg List.length hshape
  simp only [List.length_cons, List.length_append] at htotal
  have hfraglen : b.fragLen.toUInt64 = UInt64.ofNat b.fragments.length := by
    apply UInt64.toNat_inj.mp
    simp only [uintMod] at hlen
    rw [UInt32.toNat_toUInt64, fragLen, UInt32.toNat_ofNat', UInt64.toNat_ofNat']
    omega
  rw [hfraglen] at hshape
  exact ⟨by omega, by omega, hshape⟩

theorem initialiseFromBuf_encoded {os : Oasys} {b : BPQBlock} (h : Wellformed os b)
    (hlen : b.encoded.length < uintMod) : initialiseFromBuf os b.encoded = .ok b := by
  obtain ⟨hsource, hfragments, hshape⟩ := encoded_eq h hlen
  obtain ⟨hkind, hdrop⟩ := extractByte_at (i := 0) hlen (by rw [List.drop_zero]; exact hshape)
  obtain ⟨hrule, hdrop⟩ := extractByte_at hlen hdrop
  obtain ⟨hseconds, hdrop⟩ := extractSdnv_at hlen hdrop
  obtain ⟨hseqno, hdrop⟩ := extractSdnv_at hlen hdrop
  obtain ⟨hsourceLen, hdrop⟩ := extractSdnv32_at hsource hlen hdrop
  obtain ⟨huri, hdrop⟩ := extractBytes_at hlen
    (List.append_ne_nil_of_left_ne_nil (SDNV.encoded_ne_nil _) _) hdrop
  obtain ⟨hqueryLen, hdrop⟩ := extractSdnv32_at h.query hlen hdrop
  obtain ⟨hquery, hdrop⟩ := extractBytes_at hlen
    (List.append_ne_nil_of_left_ne_nil (SDNV.encoded_ne_nil _) _) hdrop
  obtain ⟨hcount, hdrop⟩ := extractSdnv32_at hfragments hlen hdrop
  have hloop := extractFragmentsLoop_at hlen b.fragments [] h.fragments h.sorted hdrop
  rw [initialiseFromBuf, hkind, Exec.ok_bind]
  dsimp only
  rw [hrule, Exec.ok_bind]
  dsimp only
  rw [extractCreationTs, hseconds, Exec.ok_bind]
  dsimp only
  rw [hseqno, Exec.ok_bind]
  change (extractSource os b.encoded _ >>= _) = _
  rw [extractSource, hsourceLen, Exec.ok_bind]
  dsimp only
  rw [huri, Exec.ok_bind]
  dsimp only
  rw [h.source, h.valid]
  change (extractQuery b.encoded _ >>= _) = _
  rw [extractQuery, hqueryLen, Exec.ok_bind]
  dsimp only
  rw [hquery, Exec.ok_bind]
  dsimp only
  rw [extractFragments, hcount, Exec.ok_bind]
  dsimp only
  rw [hloop]
  rfl

/-- A block is written in full, and read back as it was. -/
def RoundTrip (os : Oasys) (b : BPQBlock) : Prop :=
  ∃ out, b.writeToBuffer b.length = .ok (b.length, out) ∧ initialiseFromBuf os out = .ok b

theorem roundTrip_iff {os : Oasys} {b : BPQBlock} (h : Wellformed os b) :
    RoundTrip os b ↔ b.encoded.length < 2 ^ 31 := by
  have hlen := length_eq h
  constructor
  · rintro ⟨out, hwrite, -⟩
    rw [writeToBuffer_eq h] at hwrite
    by_cases hlt : b.encoded.length < uintMod
    · rw [if_pos hlt] at hwrite
      simp only [Except.ok.injEq, Prod.mk.injEq] at hwrite
      rw [Nat.mod_eq_of_lt hlt] at hlen
      by_contra hge
      have hneg := toInt_neg (Nat.not_lt.mp hge) hlt
      rw [← hlen] at hneg
      omega
    · rw [if_neg hlt] at hwrite
      cases hwrite
  · intro hlt
    have hmod : b.encoded.length < uintMod := by
      simp only [uintMod]
      omega
    rw [Nat.mod_eq_of_lt hmod] at hlen
    have hint : toInt b.length = b.length := by
      apply toInt_of_lt
      rw [hlen]
      exact hlt
    refine ⟨b.encoded, ?_, initialiseFromBuf_encoded h hmod⟩
    rw [writeToBuffer_eq h, if_pos hmod, hint]

/-! ## Reading any bytes -/

def sourceLength (buf : Bytes) : Exec (Nat × Nat) := do
  let (_, i) ← extractByte buf 0
  let (_, i) ← extractByte buf i
  let (_, i) ← extractCreationTs buf i
  extractSdnv32 buf i

def queryLength (os : Oasys) (buf : Bytes) : Exec (Nat × Nat) := do
  let (_, i) ← extractByte buf 0
  let (_, i) ← extractByte buf i
  let (_, i) ← extractCreationTs buf i
  let (_, i) ← extractSource os buf i
  extractSdnv32 buf i

/-- The source and the query end at an index that a `u_int` can hold. -/
def IndexFits (os : Oasys) (buf : Bytes) : Prop :=
  (∀ len i, sourceLength buf = .ok (len, i) → i + len < uintMod) ∧
  ∀ len i, queryLength os buf = .ok (len, i) → i + len < uintMod

theorem faults_bind {α β : Type} {x : Exec α} {f : α → Exec β} :
    (x >>= f).Faults ↔ x.Faults ∨ ∃ a, x = .ok a ∧ (f a).Faults := by
  cases x with
  | ok a => simp [Exec.not_faults_ok]
  | error s =>
      constructor
      · rintro ⟨g, hg⟩
        exact Or.inl ⟨g, by simpa using hg⟩
      · rintro (⟨g, hg⟩ | ⟨a, ha, -⟩)
        · exact ⟨g, by simpa using hg⟩
        · cases ha

theorem faults_bind_of_safe {α β : Type} {x : Exec α} {f : α → Exec β} (hx : ¬ x.Faults) :
    (x >>= f).Faults ↔ ∃ a, x = .ok a ∧ (f a).Faults := by
  rw [faults_bind, or_iff_right hx]

theorem safe_error {α : Type} {s : Stop} (h : ¬ Exec.Faults (.error s : Exec α)) (β : Type) :
    ¬ Exec.Faults (.error s : Exec β) := by
  rintro ⟨f, hf⟩
  exact h ⟨f, congrArg Except.error (Except.error.inj hf)⟩

theorem extractByte_safe (buf : Bytes) (i : Nat) : ¬ (extractByte buf i).Faults := by
  rw [extractByte]
  split
  · exact Exec.not_faults_ok _
  · exact Exec.not_faults_protocolError

theorem extractSdnv_safe (buf : Bytes) (i : Nat) : ¬ (extractSdnv buf i).Faults := by
  rw [extractSdnv]
  split
  · split
    · exact Exec.not_faults_ok _
    · exact Exec.not_faults_protocolError
  · exact Exec.not_faults_protocolError

theorem extractSdnv32_safe (buf : Bytes) (i : Nat) : ¬ (extractSdnv32 buf i).Faults := by
  rw [extractSdnv32]
  split
  · split
    · exact Exec.not_faults_ok _
    · exact Exec.not_faults_protocolError
  · exact Exec.not_faults_protocolError

theorem extractCreationTs_safe (buf : Bytes) (i : Nat) : ¬ (extractCreationTs buf i).Faults := by
  apply Exec.not_faults_bind (extractSdnv_safe buf i)
  rintro ⟨seconds, i⟩ -
  apply Exec.not_faults_bind (extractSdnv_safe buf i)
  rintro ⟨seqno, i⟩ -
  exact Exec.not_faults_ok _

theorem extractFragmentsLoop_safe (buf : Bytes) (count i : Nat) (l : List BPQFragment) :
    ¬ (extractFragmentsLoop buf count i l).Faults := by
  induction count generalizing i l with
  | zero => exact Exec.not_faults_ok _
  | succ count ih =>
      apply Exec.not_faults_bind (extractSdnv32_safe buf i)
      rintro ⟨offset, i⟩ -
      apply Exec.not_faults_bind (extractSdnv32_safe buf i)
      rintro ⟨len, i⟩ -
      exact ih i _

theorem extractFragments_safe (buf : Bytes) (i : Nat) : ¬ (extractFragments buf i).Faults := by
  apply Exec.not_faults_bind (extractSdnv32_safe buf i)
  rintro ⟨count, i⟩ -
  exact extractFragmentsLoop_safe buf count i []

theorem extractSdnv32_le {buf : Bytes} {i n j : Nat} (hbuf : buf.length < uintMod)
    (h : extractSdnv32 buf i = .ok (n, j)) : j ≤ buf.length ∧ n < uintMod := by
  rw [extractSdnv32] at h
  split at h
  · split at h
    · rename_i m val hdecode
      simp only [Except.ok.injEq, Prod.mk.injEq] at h
      obtain ⟨rfl, rfl⟩ := h
      rw [SDNV.decode32] at hdecode
      split at hdecode
      rename_i ret w hret
      split at hdecode
      · cases hdecode
      · cases ret with
        | none => cases hdecode
        | some k =>
            simp only [Option.map_some, Option.some.injEq, Prod.mk.injEq] at hdecode
            obtain ⟨rfl, rfl⟩ := hdecode
            obtain ⟨-, hle, -⟩ := SDNV.decode_some hret
            rw [List.length_drop] at hle
            rw [Nat.mod_eq_of_lt (by omega)]
            refine ⟨by omega, ?_⟩
            simp only [uintMod]
            omega
    · cases h
  · cases h

/-- The copy leaves the buffer exactly if the sum of index and length wraps around: the sum is then smaller
than the index, and passes the comparison. -/
theorem extractBytes_faults {buf : Bytes} {i len : Nat} (hbuf : buf.length < uintMod)
    (hi : i ≤ buf.length) (hlen : len < uintMod) :
    (extractBytes buf i len).Faults ↔ uintMod ≤ i + len := by
  constructor
  · rintro ⟨f, h⟩
    by_contra hlt
    rw [extractBytes, Nat.mod_eq_of_lt (by omega)] at h
    split at h
    · rw [if_neg (by omega)] at h
      cases h
    · cases h
  · intro hge
    have hmod : (i + len) % uintMod = i + len - uintMod := by
      rw [Nat.mod_eq_sub_mod hge]
      exact Nat.mod_eq_of_lt (by omega)
    refine ⟨.outOfBounds, ?_⟩
    rw [extractBytes, hmod, if_pos (by omega), if_pos (by omega)]

theorem extractSource_faults {os : Oasys} {buf : Bytes} {i : Nat} (hbuf : buf.length < uintMod) :
    (extractSource os buf i).Faults ↔
      ∃ len j, extractSdnv32 buf i = .ok (len, j) ∧ uintMod ≤ j + len := by
  rw [extractSource, faults_bind_of_safe (extractSdnv32_safe buf i)]
  constructor
  · rintro ⟨⟨len, j⟩, hread, hfault⟩
    obtain ⟨hj, hlen⟩ := extractSdnv32_le hbuf hread
    refine ⟨len, j, hread, (extractBytes_faults hbuf hj hlen).mp ?_⟩
    by_contra hsafe
    rw [faults_bind_of_safe hsafe] at hfault
    obtain ⟨⟨bs, k⟩, -, g, hg⟩ := hfault
    dsimp only at hg
    split at hg <;> cases hg
  · rintro ⟨len, j, hread, hge⟩
    obtain ⟨hj, hlen⟩ := extractSdnv32_le hbuf hread
    obtain ⟨f, hf⟩ := (extractBytes_faults hbuf hj hlen).mpr hge
    refine ⟨(len, j), hread, f, ?_⟩
    dsimp only
    rw [hf, Exec.error_bind]

theorem extractQuery_faults {buf : Bytes} {i : Nat} (hbuf : buf.length < uintMod) :
    (extractQuery buf i).Faults ↔
      ∃ len j, extractSdnv32 buf i = .ok (len, j) ∧ uintMod ≤ j + len := by
  rw [extractQuery, faults_bind_of_safe (extractSdnv32_safe buf i)]
  constructor
  · rintro ⟨⟨len, j⟩, hread, hfault⟩
    obtain ⟨hj, hlen⟩ := extractSdnv32_le hbuf hread
    exact ⟨len, j, hread, (extractBytes_faults hbuf hj hlen).mp hfault⟩
  · rintro ⟨len, j, hread, hge⟩
    obtain ⟨hj, hlen⟩ := extractSdnv32_le hbuf hread
    exact ⟨(len, j), hread, (extractBytes_faults hbuf hj hlen).mpr hge⟩

theorem initialiseFromBuf_faults {os : Oasys} {buf : Bytes} (hbuf : buf.length < uintMod) :
    (initialiseFromBuf os buf).Faults ↔
      (∃ len i, sourceLength buf = .ok (len, i) ∧ uintMod ≤ i + len) ∨
      ∃ len i, queryLength os buf = .ok (len, i) ∧ uintMod ≤ i + len := by
  have hend : ∀ (i : Nat) (f : List BPQFragment → BPQBlock),
      ¬ (extractFragments buf i >>= fun l => pure (f l)).Faults := by
    intro i f
    apply Exec.not_faults_bind (extractFragments_safe buf i)
    intro l _
    exact Exec.not_faults_ok _
  rw [initialiseFromBuf, sourceLength, queryLength]
  cases hkind : extractByte buf 0 with
  | error s =>
      have hsafe := safe_error (hkind ▸ extractByte_safe buf 0)
      simpa using hsafe BPQBlock
  | ok kind => ?_
  simp only [Exec.ok_bind]
  cases hrule : extractByte buf kind.2 with
  | error s =>
      have hsafe := safe_error (hrule ▸ extractByte_safe buf kind.2)
      simpa using hsafe BPQBlock
  | ok rule => ?_
  simp only [Exec.ok_bind]
  cases hts : extractCreationTs buf rule.2 with
  | error s =>
      have hsafe := safe_error (hts ▸ extractCreationTs_safe buf rule.2)
      simpa using hsafe BPQBlock
  | ok ts => ?_
  simp only [Exec.ok_bind]
  rw [faults_bind, extractSource_faults hbuf]
  apply or_congr Iff.rfl
  cases hsource : extractSource os buf ts.2 with
  | error s => simp
  | ok source => ?_
  simp only [Exec.ok_bind, Except.ok.injEq, exists_eq_left']
  rw [faults_bind, extractQuery_faults hbuf]
  apply or_iff_left
  rintro ⟨query, -, hfault⟩
  exact hend _ _ hfault

/-- For any bytes, `initialise_from_buf` stays inside of its buffer exactly if the source and the query end
at an index that a `u_int` can hold; for any block, writing and reading give it back exactly if its length
is an `int`. -/
theorem codec_iff (os : Oasys) :
    (∀ buf : Bytes, buf.length < uintMod →
      (¬ (initialiseFromBuf os buf).Faults ↔ IndexFits os buf)) ∧
    ∀ b : BPQBlock, Wellformed os b → (RoundTrip os b ↔ b.encoded.length < 2 ^ 31) := by
  refine ⟨?_, fun b hb => roundTrip_iff hb⟩
  intro buf hbuf
  rw [initialiseFromBuf_faults hbuf, not_or, IndexFits]
  simp only [not_exists, not_and, Nat.not_le]

def sample : BPQBlock where
  kind := 0
  matchingRule := 0
  creationTs := ⟨1000, 1⟩
  source := ⟨ascii ['d', 't', 'n', ':', 'a'], true⟩
  query := [1, 0, 2]
  fragments := [⟨0, 300⟩, ⟨500, 2⟩]

theorem sample_wellformed : Wellformed Oasys.plain sample where
  source := by decide +kernel
  valid := rfl
  query := by decide
  fragments := by decide
  sorted := by
    refine List.pairwise_cons.mpr ⟨?_, List.pairwise_singleton _ _⟩
    intro f hf
    obtain rfl := List.mem_singleton.mp hf
    exact Nat.zero_le _

theorem codec_iff_sample :
    RoundTrip Oasys.plain sample ∧ ¬ (initialiseFromBuf Oasys.plain [0, 0, 0, 0, 1]).Faults := by
  obtain ⟨hread, hwrite⟩ := codec_iff Oasys.plain
  refine ⟨(hwrite sample sample_wellformed).mpr (by decide +kernel), ?_⟩
  apply (hread [0, 0, 0, 0, 1] (by decide)).mpr
  refine ⟨?_, ?_⟩
  · intro len i h
    have hsource : sourceLength [0, 0, 0, 0, 1] = .ok (1, 5) := by decide +kernel
    rw [hsource] at h
    simp only [Except.ok.injEq, Prod.mk.injEq] at h
    rw [← h.1, ← h.2]
    decide
  · intro len i h
    have hquery : queryLength Oasys.plain [0, 0, 0, 0, 1] = .error .protocolError := by
      decide +kernel
    rw [hquery] at h
    cases h

/-- The length of the source, `2 ^ 32 - 1`, is read nine bytes into the buffer: the sum wraps around to
eight, and the copy has more than four gigabytes. -/
theorem source_outOfBounds :
    initialiseFromBuf Oasys.plain [0, 0, 0, 0, 0x8f, 0xff, 0xff, 0xff, 0x7f] =
      .error (.fault .outOfBounds) := by
  decide +kernel

end BPQBlock

end Dtn2
