import Dtn2.Bundling.ConsumeBlock

/-!
# Looking at a complete block

What the processors do with a complete block depends on its contents, on the dictionary and on
the bundle's own fields, but neither on the other received blocks nor, with two exceptions, on
the memory behind the contents. The exceptions are the session block, which reads its flags from
a block without data, and the sequence id blocks, which do not check the length of their entries.
-/

namespace Dtn2

open Framework BundleProtocol

section Frame

variable (params : Params) (os : Oasys) (bundle : Bundle) (blocks : List BlockInfo)
  (payload : BundlePayload)

/-- Replace the received blocks and the payload in a result. -/
def putFrame (x : Exec (Bundle × BlockInfo)) : Exec (Bundle × BlockInfo) :=
  x.map fun r => (r.1.reframe blocks payload, r.2)

theorem putFrame_ok (block : BlockInfo) : putFrame blocks payload (.ok (bundle, block)) =
    .ok (bundle.reframe blocks payload, block) := rfl

namespace PrimaryBlockProcessor

theorem parseFragment_reframe (buf : Bytes) :
    parseFragment (bundle.reframe blocks payload) buf =
      (parseFragment bundle buf).map (Bundle.reframe · blocks payload) := by
  unfold parseFragment
  have hfrag : (bundle.reframe blocks payload).isFragment = bundle.isFragment := rfl
  rw [hfrag]
  repeat' split
  all_goals rfl

theorem parseIpnEids_reframe (primary : PrimaryBlock) :
    parseIpnEids os (bundle.reframe blocks payload) primary =
      (parseIpnEids os bundle primary).map (Bundle.reframe · blocks payload) := by
  unfold parseIpnEids
  cases assignIpn os primary.sourceSchemeOffset primary.sourceSspOffset <;>
  cases assignIpn os primary.destSchemeOffset primary.destSspOffset <;>
  cases assignIpn os primary.replytoSchemeOffset primary.replytoSspOffset <;>
  cases assignIpn os primary.custodianSchemeOffset primary.custodianSspOffset <;> rfl

theorem parseDictEids_reframe (primary : PrimaryBlock) (dictionary : Bytes) :
    parseDictEids os (bundle.reframe blocks payload) primary dictionary =
      (parseDictEids os bundle primary dictionary).map (Bundle.reframe · blocks payload) := by
  unfold parseDictEids
  have hdict : (bundle.reframe blocks payload).recvBlocks.dict = bundle.recvBlocks.dict := rfl
  rw [hdict]
  cases bundle.recvBlocks.dict.setDict dictionary <;> rfl

theorem parseEids_reframe (primary : PrimaryBlock) (buf : Bytes) :
    parseEids os (bundle.reframe blocks payload) primary buf =
      (parseEids os bundle primary buf).map (Bundle.reframe · blocks payload) := by
  unfold parseEids
  split
  · exact parseIpnEids_reframe os bundle blocks payload primary
  · exact parseDictEids_reframe os bundle blocks payload primary _

theorem bind_map_reframe {x : Exec Bundle} {f : Bundle → Exec Bundle}
    (hf : ∀ b : Bundle, f (b.reframe blocks payload) = (f b).map (Bundle.reframe · blocks payload)) :
    (x.map (Bundle.reframe · blocks payload) >>= f) =
      (x >>= f).map (Bundle.reframe · blocks payload) := by
  cases x with
  | error s => rfl
  | ok b => exact hf b

theorem parseFields_reframe (contents buf : Bytes) :
    parseFields os (bundle.reframe blocks payload) contents buf =
      (parseFields os bundle contents buf).map (Bundle.reframe · blocks payload) := by
  unfold parseFields
  cases readFields buf with
  | none => rfl
  | some r =>
      obtain ⟨primary, tail⟩ := r
      simp only
      split
      · rfl
      · split
        · rfl
        · change (parseEids os ((parseTimes bundle primary).reframe blocks payload) primary tail >>=
            fun b => _) = _
          rw [parseEids_reframe]
          exact bind_map_reframe blocks payload fun b => parseFragment_reframe b blocks payload _

theorem parseFlags_reframe (flags : UInt64) :
    parseFlags (bundle.reframe blocks payload) flags = (parseFlags bundle flags).reframe blocks payload :=
  rfl

theorem finish_reframe (block : BlockInfo) :
    finish os (bundle.reframe blocks payload) block =
      (finish os bundle block).map (Bundle.reframe · blocks payload) := by
  unfold finish
  by_cases hlen : block.fullLength.toNat = block.contents.len
  · rw [Exec.assert_bind hlen, Exec.assert_bind hlen]
    cases block.contents.filled with
    | nil => rfl
    | cons version buf =>
        simp only
        split
        · rfl
        · cases readHead buf with
          | none => rfl
          | some r =>
              obtain ⟨⟨flags, len⟩, tail⟩ := r
              simp only
              by_cases hdata : tail.length = block.dataLength.toNat
              · rw [Exec.assert_bind hdata, Exec.assert_bind hdata, parseFlags_reframe,
                  parseFields_reframe]
              · rw [Exec.assert_bind_not hdata, Exec.assert_bind_not hdata]
                rfl
  · rw [Exec.assert_bind_not hlen, Exec.assert_bind_not hlen]
    rfl

end PrimaryBlockProcessor

theorem finishBlock_reframe (block : BlockInfo) :
    finishBlock params os (bundle.reframe blocks payload) block =
      putFrame blocks payload (finishBlock params os bundle block) := by
  unfold finishBlock
  split
  · rw [PrimaryBlockProcessor.finish_reframe]
    cases PrimaryBlockProcessor.finish os bundle block <;> rfl
  · unfold PreviousHopBlockProcessor.finish
    simp only
    split <;> rfl
  · unfold SessionBlockProcessor.finish
    split
    · split <;> rfl
    · rfl
  · cases SequenceIDBlockProcessor.entries block <;> rfl
  · cases SequenceIDBlockProcessor.entries block <;> rfl
  · unfold AgeBlockProcessor.finish
    simp only
    split <;> rfl
  · unfold MetadataBlockProcessor.finish
    cases block.type with
    | error s => rfl
    | ok t =>
        simp only [Exec.ok_bind, assertThat]
        repeat' split
        all_goals rfl
  · rfl
  · rfl
  · rfl

end Frame

/-! ## Memory behind the contents -/

structure Whole (block : BlockInfo) : Prop where
  complete : block.complete = true
  length : block.contents.filled.length = block.dataOffset.toNat + block.dataLength.toNat
  length_lt : block.dataOffset.toNat + block.dataLength.toNat < 2 ^ 32

/-- The entries of a sequence id block end inside its data, as far as they are read. -/
def EntriesFit : Nat → Bytes → Prop
  | 0, _ => True
  | _ + 1, [] => False
  | n + 1, type :: bp =>
      if type = SequenceIDBlockProcessor.counterEntry then
        match SDNV.decode bp with
        | (some k, _) => EntriesFit n (bp.drop k)
        | (none, _) => True
      else if type = SequenceIDBlockProcessor.identifierEntry then
        match SDNV.decode bp with
        | (some k, idLen) =>
            idLen.toNat ≤ (bp.drop k).length ∧ EntriesFit n ((bp.drop k).drop idLen.toNat)
        | (none, _) => True
      else True

instance decidableEntriesFit : (n : Nat) → (bp : Bytes) → Decidable (EntriesFit n bp)
  | 0, _ => isTrue trivial
  | _ + 1, [] => isFalse id
  | n + 1, type :: bp =>
      have ih := decidableEntriesFit n
      if ht : type = SequenceIDBlockProcessor.counterEntry then
        match hd : SDNV.decode bp with
        | (some k, _) => decidable_of_iff (EntriesFit n (bp.drop k)) (by simp [EntriesFit, ht, hd])
        | (none, _) => isTrue (by simp [EntriesFit, ht, hd])
      else if hi : type = SequenceIDBlockProcessor.identifierEntry then
        match hd : SDNV.decode bp with
        | (some k, idLen) => decidable_of_iff (idLen.toNat ≤ (bp.drop k).length ∧
            EntriesFit n ((bp.drop k).drop idLen.toNat)) (by simp only [EntriesFit, if_neg ht, if_pos hi, hd])
        | (none, _) => isTrue (by simp [EntriesFit, hi, hd])
      else isTrue (by simp [EntriesFit, ht, hi])

structure ReadsContents (block : BlockInfo) : Prop where
  session : block.owner = .session → block.eidList.length = 1 → 0 < block.dataLength.toNat
  sequence : block.owner = .sequenceID ∨ block.owner = .obsoletesID →
    EntriesFit block.eidList.length block.data

variable {block : BlockInfo}

theorem Whole.dataMemory (h : Whole block) :
    block.dataMemory = block.contents.filled.drop block.dataOffset.toNat ++ block.contents.spare := by
  have hlen := h.length
  rw [BlockInfo.dataMemory, ScratchBuffer.memory, List.drop_append_of_le_length (by omega)]

theorem Whole.data (h : Whole block) :
    block.data = block.contents.filled.drop block.dataOffset.toNat := by
  have hlen := h.length
  rw [BlockInfo.data, h.dataMemory, List.take_left']
  rw [List.length_drop]
  omega

theorem Whole.data_length (h : Whole block) : block.data.length = block.dataLength.toNat := by
  have hlen := h.length
  rw [h.data, List.length_drop]
  omega

theorem Whole.erase (h : Whole block) : Whole block.erase := ⟨h.complete, h.length, h.length_lt⟩

theorem Whole.erase_data (h : Whole block) : block.erase.data = block.data := by
  rw [h.data, h.erase.data]
  rfl

namespace SequenceIDBlockProcessor

private theorem decodeAt_append (bp spare : Bytes) :
    decodeAt (bp ++ spare) bp.length = decodeAt bp bp.length := by
  have htake : (bp ++ spare).take bp.length = bp.take bp.length := by
    rw [List.take_left, List.take_length]
  have h1 : ¬ ((bp ++ spare).length < bp.length ∧
      (bp ++ spare).all (fun b => b &&& 0x80 ≠ 0) = true) := by
    rw [List.length_append]
    omega
  have h2 : ¬ (bp.length < bp.length ∧ bp.all (fun b => b &&& 0x80 ≠ 0) = true) := by omega
  rw [decodeAt, decodeAt, htake, if_neg h1, if_neg h2]

private theorem decodeAt_eq (bp : Bytes) :
    decodeAt bp bp.length = match SDNV.decode bp with
      | (some n, val) => pure (n, val)
      | (none, _) => .error .protocolError := by
  have h2 : ¬ (bp.length < bp.length ∧ bp.all (fun b => b &&& 0x80 ≠ 0) = true) := by omega
  unfold decodeAt
  rw [List.take_length]
  rcases SDNV.decode bp with ⟨_ | n, val⟩
  · exact if_neg h2
  · rfl

private theorem sizeSub_one (n : Nat) (h : n + 1 < 2 ^ 64) : sizeSub (n + 1) 1 = n :=
  sizeSub_of_le (by omega) h

theorem parseEntries_append (eids : List EndpointID) (data spare : Bytes)
    (hlt : data.length < 2 ^ 64) (hfit : EntriesFit eids.length data) :
    parseEntries eids (data ++ spare) data.length = parseEntries eids data data.length := by
  induction eids generalizing data with
  | nil => rfl
  | cons eid eids ih =>
      cases data with
      | nil => exact absurd hfit id
      | cons type bp =>
          rw [List.length_cons] at hlt
          simp only [List.cons_append, parseEntries, List.length_cons,
            sizeSub_one bp.length hlt, decodeAt_append, decodeAt_eq]
          rw [List.length_cons, EntriesFit] at hfit
          by_cases hcounter : type = counterEntry
          · rw [if_pos hcounter] at hfit
            simp only [if_pos hcounter]
            rcases hd : SDNV.decode bp with ⟨_ | k, val⟩
            · rfl
            · rw [hd] at hfit
              have hk := (SDNV.decode_some hd).2.1
              have hrec := ih (bp.drop k) (by rw [List.length_drop]; omega) hfit
              rw [List.length_drop] at hrec
              simp only [pure, Except.pure, Exec.ok_bind]
              rw [List.drop_append_of_le_length hk, hrec]
          · rw [if_neg hcounter] at hfit
            simp only [if_neg hcounter]
            by_cases hident : type = identifierEntry
            · rw [if_pos hident] at hfit
              simp only [if_pos hident]
              rcases hd : SDNV.decode bp with ⟨_ | k, idLen⟩
              · rfl
              · rw [hd] at hfit
                obtain ⟨hid, hfit⟩ := hfit
                have hk := (SDNV.decode_some hd).2.1
                have hrec := ih ((bp.drop k).drop idLen.toNat)
                  (by rw [List.length_drop, List.length_drop]; omega) hfit
                have hsub : sizeSub (bp.length - k) idLen.toNat =
                    ((bp.drop k).drop idLen.toNat).length := by
                  rw [List.length_drop] at hid
                  rw [sizeSub_of_le hid (by omega), List.length_drop, List.length_drop]
                have h1 : ¬ (bp.drop k ++ spare).length < idLen.toNat := by
                  rw [List.length_append]
                  omega
                have h2 : ¬ (bp.drop k).length < idLen.toNat := by omega
                simp only [pure, Except.pure, Exec.ok_bind]
                rw [List.drop_append_of_le_length hk, if_neg h1, if_neg h2, hsub,
                  List.drop_append_of_le_length hid, List.take_append_of_le_length hid, hrec]
            · simp only [if_neg hident]

theorem parseEntries_not_faults (eids : List EndpointID) (data : Bytes)
    (hlt : data.length < 2 ^ 64) (hfit : EntriesFit eids.length data) :
    ¬ (parseEntries eids data data.length).Faults := by
  induction eids generalizing data with
  | nil => rintro ⟨f, h⟩; cases h
  | cons eid eids ih =>
      cases data with
      | nil => exact absurd hfit id
      | cons type bp =>
          rw [List.length_cons] at hlt
          simp only [parseEntries, List.length_cons, sizeSub_one bp.length hlt, decodeAt_eq]
          rw [List.length_cons, EntriesFit] at hfit
          by_cases hcounter : type = counterEntry
          · rw [if_pos hcounter] at hfit
            simp only [if_pos hcounter]
            rcases hd : SDNV.decode bp with ⟨_ | k, val⟩
            · rintro ⟨f, h⟩; cases h
            · rw [hd] at hfit
              have hk := (SDNV.decode_some hd).2.1
              have hrec := ih (bp.drop k) (by rw [List.length_drop]; omega) hfit
              rw [List.length_drop] at hrec
              simp only [pure, Except.pure, Exec.ok_bind]
              exact Exec.not_faults_bind hrec fun entries _ => Exec.not_faults_ok _
          · rw [if_neg hcounter] at hfit
            simp only [if_neg hcounter]
            by_cases hident : type = identifierEntry
            · rw [if_pos hident] at hfit
              simp only [if_pos hident]
              rcases hd : SDNV.decode bp with ⟨_ | k, idLen⟩
              · rintro ⟨f, h⟩; cases h
              · rw [hd] at hfit
                obtain ⟨hid, hfit⟩ := hfit
                have hk := (SDNV.decode_some hd).2.1
                have hrec := ih ((bp.drop k).drop idLen.toNat)
                  (by rw [List.length_drop, List.length_drop]; omega) hfit
                have hsub : sizeSub (bp.length - k) idLen.toNat =
                    ((bp.drop k).drop idLen.toNat).length := by
                  rw [List.length_drop] at hid
                  rw [sizeSub_of_le hid (by omega), List.length_drop, List.length_drop]
                have h2 : ¬ (bp.drop k).length < idLen.toNat := by omega
                simp only [pure, Except.pure, Exec.ok_bind]
                rw [if_neg h2, hsub]
                exact Exec.not_faults_bind hrec fun entries _ => Exec.not_faults_ok _
            · simp only [if_neg hident]
              rintro ⟨f, h⟩; cases h

end SequenceIDBlockProcessor

theorem finishBlock_erase (params : Params) (os : Oasys) (bundle : Bundle)
    (hw : block.owner ≠ .payload → Whole block) (hread : ReadsContents block) :
    finishBlock params os bundle block.erase =
      (finishBlock params os bundle block).map fun r => (r.1, r.2.erase) := by
  have hown : block.erase.owner = block.owner := rfl
  have hentries : block.owner = .sequenceID ∨ block.owner = .obsoletesID →
      SequenceIDBlockProcessor.entries block.erase = SequenceIDBlockProcessor.entries block := by
    intro hseq
    have hwhole : Whole block := hw (by rcases hseq with h | h <;> simp [h])
    have hfit := hread.sequence hseq
    have hlt := hwhole.length_lt
    have hlen := hwhole.data_length
    unfold SequenceIDBlockProcessor.entries
    change (if block.eidList = [] then _ else
      SequenceIDBlockProcessor.parseEntries block.eidList _ block.dataLength.toNat) = _
    split
    · rfl
    · rw [hwhole.erase.dataMemory, hwhole.dataMemory, ← hlen]
      change SequenceIDBlockProcessor.parseEntries block.eidList
        (block.contents.filled.drop block.dataOffset.toNat ++ []) _ = _
      rw [List.append_nil, ← hwhole.data,
        SequenceIDBlockProcessor.parseEntries_append _ _ _ (by omega) hfit]
  unfold finishBlock
  rw [hown]
  split
  · have hfin : PrimaryBlockProcessor.finish os bundle block.erase =
        PrimaryBlockProcessor.finish os bundle block := rfl
    rw [hfin]
    cases PrimaryBlockProcessor.finish os bundle block <;> rfl
  · rename_i ho
    have hdata := (hw (by simp [ho])).erase_data
    simp only [PreviousHopBlockProcessor.finish, hdata]
    split <;> rfl
  · rename_i ho
    have hwhole := hw (by simp [ho])
    have he : block.erase.eidList = block.eidList := rfl
    unfold SessionBlockProcessor.finish
    rw [he]
    split
    · rename_i eid heids
      have hpos := hread.session ho (by rw [heids]; rfl)
      have hlen := hwhole.data_length
      obtain ⟨b, bs, hb⟩ : ∃ b bs, block.data = b :: bs := by
        cases hd : block.data with
        | nil => rw [hd] at hlen; simp at hlen; omega
        | cons b bs => exact ⟨b, bs, rfl⟩
      have h1 : block.dataMemory = b :: (bs ++ block.contents.spare) := by
        rw [hwhole.dataMemory, ← hwhole.data, hb]
        rfl
      have h2 : block.erase.dataMemory = b :: bs := by
        rw [hwhole.erase.dataMemory, ← hwhole.erase.data, hwhole.erase_data, hb]
        exact List.append_nil _
      simp only [h1, h2]
      rfl
    · rfl
  · rename_i ho
    rw [hentries (Or.inl ho)]
    cases SequenceIDBlockProcessor.entries block <;> rfl
  · rename_i ho
    rw [hentries (Or.inr ho)]
    cases SequenceIDBlockProcessor.entries block <;> rfl
  · rename_i ho
    have hdata := (hw (by simp [ho])).erase_data
    simp only [AgeBlockProcessor.finish, hdata]
    split <;> rfl
  · rename_i ho
    have hdata := (hw (by simp [ho])).erase_data
    have htype : block.erase.type = block.type := rfl
    have hcomp : block.erase.complete = block.complete := rfl
    have hoff : block.erase.dataOffset = block.dataOffset := rfl
    simp only [MetadataBlockProcessor.finish, hdata, htype, hcomp, hoff]
    cases block.type with
    | error s => rfl
    | ok t =>
        simp only [Exec.ok_bind, assertThat]
        repeat' split
        all_goals rfl
  · rfl
  · rfl
  · rfl

/-! ## Complete blocks never leave their memory -/

section Bounds

variable {os : Oasys} {dict : Dictionary} {bytes rest : Bytes}

theorem readEids_bound (n : Nat) {eids : List EndpointID}
    (h : readEids os dict n bytes = some (eids, rest)) :
    eids.length = n ∧ bytes.length ≤ rest.length + 20 * n := by
  induction n generalizing bytes eids with
  | zero =>
      have hpure : some ([], bytes) = some (eids, rest) := h
      simp only [Option.some.injEq, Prod.mk.injEq] at hpure
      rw [← hpure.1, ← hpure.2]
      exact ⟨rfl, by omega⟩
  | succ n ih =>
      obtain ⟨s, mid, hs, htail⟩ := (Reader.bind_eq_some _ _ _ _ _).mp h
      obtain ⟨t, mid', ht, htail⟩ := (Reader.bind_eq_some _ _ _ _ _).mp htail
      obtain ⟨es, mid'', hes, htail⟩ := (Reader.bind_eq_some _ _ _ _ _).mp htail
      have hpure : some (_ :: es, mid'') = some (eids, rest) := htail
      simp only [Option.some.injEq, Prod.mk.injEq] at hpure
      obtain ⟨rfl, rfl⟩ := hpure
      have h1 := SDNV.read_length_le hs
      have h2 := SDNV.read_length_le ht
      obtain ⟨h3, h4⟩ := ih hes
      rw [List.length_cons, h3]
      exact ⟨rfl, by omega⟩

theorem readEidRefs_bound {flags : UInt64} {eids : List EndpointID}
    (h : readEidRefs os dict flags bytes = some (eids, rest)) :
    bytes.length ≤ rest.length + 10 + 20 * eids.length := by
  unfold readEidRefs at h
  split at h
  · have hpure : some ([], bytes) = some (eids, rest) := h
    simp only [Option.some.injEq, Prod.mk.injEq] at hpure
    rw [← hpure.2]
    omega
  · obtain ⟨count, mid, hc, htail⟩ := (Reader.bind_eq_some _ _ _ _ _).mp h
    have h1 := SDNV.read_length_le hc
    split at htail
    · obtain ⟨h2, h3⟩ := readEids_bound _ htail
      omega
    · cases htail

theorem readPreamble_eq_some {p : Preamble} (h : readPreamble os dict bytes = some (p, rest)) :
    ∃ mid mid', SDNV.read bytes = some (p.flags, mid) ∧
      readEidRefs os dict p.flags mid = some (p.eidList, mid') ∧
      SDNV.read mid' = some (p.blockLen, rest) := by
  obtain ⟨flags, mid, hf, htail⟩ := (Reader.bind_eq_some _ _ _ _ _).mp h
  obtain ⟨eids, mid', he, htail⟩ := (Reader.bind_eq_some _ _ _ _ _).mp htail
  obtain ⟨len, mid'', hl, htail⟩ := (Reader.bind_eq_some _ _ _ _ _).mp htail
  have hpure : some (Preamble.mk flags eids len, mid'') = some (p, rest) := htail
  simp only [Option.some.injEq, Prod.mk.injEq] at hpure
  obtain ⟨rfl, rfl⟩ := hpure
  exact ⟨mid, mid', hf, he, hl⟩

theorem scanPreamble_bound {p : Preamble} (h : scanPreamble os dict bytes = some (p, rest)) :
    bytes.length ≤ rest.length + 31 + 20 * p.eidList.length := by
  obtain ⟨mid, mid', hf, he, hl⟩ := readPreamble_eq_some h
  have h1 := SDNV.read_length_le hf
  have h2 := readEidRefs_bound he
  have h3 := SDNV.read_length_le hl
  rw [List.length_drop] at h1
  omega

end Bounds

/-- A complete block as the parser leaves it, with the preamble it was parsed from. -/
structure Parsed (os : Oasys) (dict : Dictionary) (p : Preamble) (block : BlockInfo) : Prop where
  whole : block.owner ≠ .payload → Whole block
  capacity : 64 ≤ block.contents.bufLen
  preamble : ∃ rest, scanPreamble os dict block.contents.filled = some (p, rest) ∧
    block.contents.filled.length - rest.length = block.dataOffset.toNat
  eids : block.eidList = p.eidList

theorem Parsed.of_erase {os : Oasys} {dict : Dictionary} {owner : Processor} {p : Preamble}
    {all tail : Bytes} (hs : scanPreamble os dict all = some (p, tail))
    (hsmall : ¬ 0xffffffff < p.blockLen.toNat) (henough : ¬ tail.length < p.blockLen.toNat)
    (herase : block.erase = wholeBlock owner p all (all.length - tail.length))
    (hcap : 64 ≤ block.contents.bufLen) (hoff : all.length - tail.length < 2 ^ 32)
    (hwrap : owner ≠ .payload → all.length - tail.length + p.blockLen.toNat < 2 ^ 32) :
    Parsed os dict p block := by
  have hlen := scanPreamble_length hs
  have howner : block.owner = owner := congrArg BlockInfo.owner herase
  have hfilled : block.contents.filled =
      kept owner (all.take (all.length - tail.length + p.blockLen.toNat))
        (all.length - tail.length) := congrArg (fun b => b.contents.filled) herase
  have hdo : block.dataOffset.toNat = all.length - tail.length := by
    have h : block.dataOffset = UInt32.ofNat (all.length - tail.length) :=
      congrArg BlockInfo.dataOffset herase
    rw [h, UInt32.toNat_ofNat', Nat.mod_eq_of_lt hoff]
  have hdl : block.dataLength.toNat = p.blockLen.toNat := by
    have h : block.dataLength = p.blockLen.toUInt32 := congrArg BlockInfo.dataLength herase
    rw [h, UInt64.toNat_toUInt32, Nat.mod_eq_of_lt (by omega)]
  refine ⟨?_, hcap, ?_, congrArg BlockInfo.eidList herase⟩
  · intro hne
    rw [howner] at hne
    refine ⟨congrArg BlockInfo.complete herase, ?_, ?_⟩
    · rw [hfilled, kept_of_ne hne, List.length_take, hdo, hdl]
      omega
    · rw [hdo, hdl]
      exact hwrap hne
  · by_cases hpay : owner = .payload
    · rw [hfilled, hpay, kept_payload, List.take_take, min_eq_left (by omega)]
      refine ⟨_, scanPreamble_take hs (le_refl _), ?_⟩
      rw [Nat.sub_self, List.take_zero, List.length_take, List.length_nil, hdo]
      omega
    · rw [hfilled, kept_of_ne hpay]
      refine ⟨_, scanPreamble_take hs (by omega), ?_⟩
      rw [List.length_take, List.length_take, hdo]
      omega

section NoFault

variable {params : Params} {os : Oasys} {bundle : Bundle} {p : Preamble}

variable (bundle) in
theorem Parsed.flags_not_faults (h : Parsed os bundle.recvBlocks.dict p block)
    (hfirst : block.owner = .payload → block.contents.filled.head? = some 1) :
    ¬ block.flags.Faults := by
  obtain ⟨rest, hs, -⟩ := h.preamble
  obtain ⟨mid, mid', hf, -, -⟩ := readPreamble_eq_some hs
  obtain ⟨n, hd, -⟩ := SDNV.read_eq_some.mp hf
  cases hfl : block.contents.filled with
  | nil =>
      rw [hfl] at hd
      cases hd
  | cons first tail =>
      rw [hfl] at hd hfirst
      have htype : ¬ block.type.Faults := by
        unfold BlockInfo.type
        split
        · exact Exec.not_faults_ok _
        · rw [hfl]
          have hassert : first.toNat = block.owner.blockType ∨ block.owner.anyFirstByte = true := by
            cases ho : block.owner with
            | primary => rename_i hne; simp [ho, Processor.blockType] at hne
            | payload =>
                have h1 : first = 1 := by simpa using hfirst ho
                left
                rw [h1]
                rfl
            | _ => right; rfl
          simp only
          rw [Exec.assert_bind hassert]
          exact Exec.not_faults_ok _
      unfold BlockInfo.flags
      apply Exec.not_faults_bind htype
      intro t _
      split
      · exact Exec.not_faults_ok _
      · rw [hfl]
        simp only [List.drop_one, List.tail_cons] at hd
        simp only [hd]
        exact Exec.not_faults_ok _

theorem PrimaryBlockProcessor.assignIpn_eq (os : Oasys) (eid path : UInt64) :
    assignIpn os eid path = .ok (os.assign (makeIpn eid path)) := by
  have hle := makeIpn_length_le eid path
  rw [assignIpn, if_neg (by omega), (makeIpn_canonical eid path).cString_eq]
  rfl

private theorem parseFields_not_faults (contents buf : Bytes)
    (hdict : bundle.recvBlocks.dict.dictLength = 0) :
    ¬ (PrimaryBlockProcessor.parseFields os bundle contents buf).Faults := by
  unfold PrimaryBlockProcessor.parseFields
  cases PrimaryBlockProcessor.readFields buf with
  | none => exact Exec.not_faults_protocolError
  | some r =>
      obtain ⟨primary, tail⟩ := r
      simp only
      split
      · exact Exec.not_faults_protocolError
      · split
        · exact Exec.not_faults_protocolError
        · apply Exec.not_faults_bind
          · unfold PrimaryBlockProcessor.parseEids
            split
            · simp only [PrimaryBlockProcessor.parseIpnEids, PrimaryBlockProcessor.assignIpn_eq,
                Exec.ok_bind]
              exact Exec.not_faults_ok _
            · have hempty : (PrimaryBlockProcessor.parseTimes bundle
                  primary).recvBlocks.dict.dictLength = 0 := hdict
              rw [PrimaryBlockProcessor.parseDictEids, Dictionary.setDict,
                Exec.assert_bind hempty]
              exact Exec.not_faults_ok _
          · intro b _
            unfold PrimaryBlockProcessor.parseFragment
            repeat' split
            all_goals first
              | exact Exec.not_faults_protocolError
              | exact Exec.not_faults_ok _

private theorem readHead_of_plain {dict : Dictionary} {bytes rest : Bytes}
    (hplain : p.flags &&& blockFlagEidRefs = 0)
    (hs : readPreamble os dict bytes = some (p, rest)) :
    PrimaryBlockProcessor.readHead bytes = some ((p.flags, p.blockLen), rest) := by
  obtain ⟨mid, mid', hf, he, hl⟩ := readPreamble_eq_some hs
  rw [readEidRefs, if_pos hplain] at he
  have hmid : some (([] : List EndpointID), mid) = some (p.eidList, mid') := he
  simp only [Option.some.injEq, Prod.mk.injEq] at hmid
  rw [PrimaryBlockProcessor.readHead, Reader.bind_of_some hf, hmid.2, Reader.bind_of_some hl]
  rfl

/-- The conditions on a complete block under which its processor ends without a fault. A primary
block of another version is refused before anything else is looked at. -/
structure FinishFits (dict : Dictionary) (p : Preamble) (block : BlockInfo) : Prop where
  primary : block.owner = .primary →
    block.contents.filled.head? = some PrimaryBlockProcessor.currentVersion →
    p.flags &&& blockFlagEidRefs = 0 ∧ dict.dictLength = 0
  sequence : block.owner = .sequenceID ∨ block.owner = .obsoletesID →
    EntriesFit block.eidList.length block.data
  metadata : block.owner = .metadata → block.contents.filled.head? = some 8

private theorem primary_finish_not_faults (h : Parsed os bundle.recvBlocks.dict p block)
    (hf : FinishFits bundle.recvBlocks.dict p block) (howner : block.owner = .primary) :
    ¬ (PrimaryBlockProcessor.finish os bundle block).Faults := by
  have hw := h.whole (by simp [howner])
  have hlen := hw.length
  have hlt := hw.length_lt
  have hfull : block.fullLength.toNat = block.contents.len := by
    rw [BlockInfo.fullLength, UInt32.toNat_add, Nat.mod_eq_of_lt hlt, ScratchBuffer.len, hlen]
  obtain ⟨rest, hs, hoff⟩ := h.preamble
  have hslen := scanPreamble_length hs
  unfold PrimaryBlockProcessor.finish
  rw [Exec.assert_bind hfull]
  cases hfl : block.contents.filled with
  | nil =>
      rw [hfl] at hs
      cases hs
  | cons version buf =>
      rw [hfl] at hs hoff hslen hlen
      simp only
      split
      · exact Exec.not_faults_protocolError
      · rename_i hversion
        have hhead : block.contents.filled.head? = some PrimaryBlockProcessor.currentVersion := by
          rw [hfl]
          simpa using hversion
        obtain ⟨hplain, hdict⟩ := hf.primary howner hhead
        have hread := readHead_of_plain hplain hs
        simp only [List.drop_one, List.tail_cons] at hread
        have hdata : rest.length = block.dataLength.toNat := by omega
        rw [hread]
        simp only
        rw [Exec.assert_bind hdata]
        exact parseFields_not_faults _ _ hdict

variable (params bundle) in
theorem finishBlock_not_faults (h : Parsed os bundle.recvBlocks.dict p block)
    (hf : FinishFits bundle.recvBlocks.dict p block) :
    ¬ (finishBlock params os bundle block).Faults := by
  have hentries : block.owner = .sequenceID ∨ block.owner = .obsoletesID →
      ¬ (SequenceIDBlockProcessor.entries block).Faults := by
    intro hseq
    have hw : Whole block := h.whole (by rcases hseq with ho | ho <;> simp [ho])
    have hlt := hw.length_lt
    have hlen := hw.data_length
    have hfit := hf.sequence hseq
    unfold SequenceIDBlockProcessor.entries
    split
    · exact Exec.not_faults_protocolError
    · rw [hw.dataMemory, ← hlen, ← hw.data,
        SequenceIDBlockProcessor.parseEntries_append _ _ _ (by omega) hfit]
      exact SequenceIDBlockProcessor.parseEntries_not_faults _ _ (by omega) hfit
  unfold finishBlock
  split
  · rename_i ho
    exact Exec.not_faults_bind (primary_finish_not_faults h hf ho) fun b _ => Exec.not_faults_ok _
  · unfold PreviousHopBlockProcessor.finish
    simp only
    split
    · exact Exec.not_faults_ok _
    · exact Exec.not_faults_protocolError
  · rename_i ho
    unfold SessionBlockProcessor.finish
    split
    · rename_i eid heid
      -- a preamble with one endpoint id is shorter than the static buffer
      obtain ⟨rest, hs, hoff⟩ := h.preamble
      have hbound := scanPreamble_bound hs
      rw [← h.eids, heid] at hbound
      have hcap := h.capacity
      have hmem : 0 < block.dataMemory.length := by
        rw [BlockInfo.dataMemory, List.length_drop, ScratchBuffer.memory, List.length_append]
        simp only [ScratchBuffer.bufLen, List.length_cons, List.length_nil] at hcap hbound
        omega
      split
      · rename_i hnil
        rw [hnil] at hmem
        simp at hmem
      · exact Exec.not_faults_ok _
    · exact Exec.not_faults_protocolError
  · rename_i ho
    exact Exec.not_faults_bind (hentries (Or.inl ho)) fun b _ => Exec.not_faults_ok _
  · rename_i ho
    exact Exec.not_faults_bind (hentries (Or.inr ho)) fun b _ => Exec.not_faults_ok _
  · exact Exec.not_faults_ok _
  · rename_i ho
    have hw := h.whole (by simp [ho])
    obtain ⟨rest, hs, hoff⟩ := h.preamble
    have hslen := scanPreamble_length hs
    have hfirst := hf.metadata ho
    have htype : block.type = .ok 8 := by
      cases hfl : block.contents.filled with
      | nil => rw [hfl] at hfirst; cases hfirst
      | cons first tail =>
          rw [hfl] at hfirst
          have h8 : first = 8 := by simpa using hfirst
          simp only [BlockInfo.type, ho, hfl, h8]
          rfl
    have hpos : 0 < block.dataOffset := by
      rw [UInt32.lt_iff_toNat_lt]
      change 0 < block.dataOffset.toNat
      omega
    have hcode : 8 = Processor.metadata.blockType := rfl
    rw [MetadataBlockProcessor.finish, htype, Exec.ok_bind, Exec.assert_bind hcode,
      Exec.assert_bind hw.complete, Exec.assert_bind hpos]
    exact Exec.not_faults_ok _
  · exact Exec.not_faults_ok _
  · exact Exec.not_faults_ok _
  · exact Exec.not_faults_ok _

end NoFault

end Dtn2
