import Dtn2.Prophet.Deserialize

/-!
# Safety of the Prophet parser

A message comes from a neighbour, so every byte of it may be chosen. The parsers of four kinds of TLV
compare what they are about to read with what is left of the message. The parser of the hello does
not: it takes a name that ends behind the message, and a length that is smaller than its header, and
with the length zero the loop over the TLVs stays where it is.
-/

namespace Dtn2

namespace Prophet

open Framework

/-! ## Runs that return -/

section Returns

variable {α β : Type}

/-- The run returns a value with the property. -/
def Returns (x : Exec α) (P : α → Prop) : Prop := ∃ a, x = .ok a ∧ P a

theorem returns_pure {P : α → Prop} {a : α} (h : P a) : Returns (pure a : Exec α) P := ⟨a, rfl, h⟩

theorem Returns.bind {x : Exec α} {f : α → Exec β} {P : α → Prop} {Q : β → Prop} (hx : Returns x P)
    (hf : ∀ a, P a → Returns (f a) Q) : Returns (x >>= f) Q := by
  obtain ⟨a, rfl, ha⟩ := hx
  exact hf a ha

theorem returns_readByte {bp : Bytes} {i : Nat} (h : i < bp.length) :
    Returns (readByte bp i) fun b => bp[i]? = some b := by
  refine ⟨bp[i], ?_, List.getElem?_eq_getElem h⟩
  rw [readByte, List.getElem?_eq_getElem h]
  rfl

theorem returns_readBytes {bp : Bytes} {i n : Nat} (h : n = 0 ∨ i + n ≤ bp.length) :
    Returns (readBytes bp i n) fun bytes => bytes = (bp.drop i).take n := by
  refine ⟨_, ?_, rfl⟩
  rw [readBytes, if_pos h]
  rfl

/-- The 16-bit field at an offset. -/
def word16 (bp : Bytes) (i : Nat) : UInt16 := UInt16.ofNat (BigEndian.decode ((bp.drop i).take 2))

theorem returns_readU16 {bp : Bytes} {i : Nat} (h : i + 2 ≤ bp.length) :
    Returns (readU16 bp i) fun v => v = word16 bp i := by
  apply (returns_readBytes (Or.inr h)).bind
  rintro bytes rfl
  exact returns_pure rfl

theorem returns_readU32 {bp : Bytes} {i : Nat} (h : i + 4 ≤ bp.length) :
    Returns (readU32 bp i) fun _ => True := by
  apply (returns_readBytes (Or.inr h)).bind
  rintro bytes rfl
  exact returns_pure trivial

end Returns

/-- An accepted TLV takes at least its header and at most what is left. -/
def Advances (len : Nat) (r : Option TLV) : Prop :=
  ∀ tlv, r = some tlv → tlv.body.headerSize ≤ tlv.length.toNat ∧ tlv.length.toNat ≤ len

theorem advances_none (len : Nat) : Advances len none := by
  intro tlv h
  cases h

theorem advances_some {len : Nat} {tlv : TLV} (hsize : tlv.body.headerSize ≤ tlv.length.toNat)
    (hle : tlv.length.toNat ≤ len) : Advances len (some tlv) := by
  intro tlv' h
  cases h
  exact ⟨hsize, hle⟩

/-! ## Dictionaries -/

namespace RIBDTLV

theorem readRasEntry_returns (sid : UInt16) (destId bp : Bytes) :
    Returns (readRasEntry sid destId bp bp.length) fun _ => True := by
  unfold readRasEntry
  split
  · exact returns_pure trivial
  · rename_i hlen
    have hsize : routingAddressStringSize = 4 := rfl
    apply (returns_readByte (by omega)).bind
    intro length _
    dsimp only
    split
    · exact returns_pure trivial
    · rename_i hcopy
      have halign := le_fourByteAlign length.toNat
      apply (returns_readU16 (by omega)).bind
      intro stringId _
      apply (returns_readBytes (by omega)).bind
      intro name _
      exact returns_pure trivial

theorem readEntries_returns (count : Nat) (sid : UInt16) (destId : Bytes) (ribd : Dictionary)
    (bp : Bytes) (amtRead : Nat) :
    Returns (readEntries count sid destId ribd bp bp.length amtRead) fun r => amtRead ≤ r.2 := by
  induction count generalizing sid destId ribd bp amtRead with
  | zero => exact returns_pure (le_refl _)
  | succ count ih =>
      unfold readEntries
      apply (readRasEntry_returns sid destId bp).bind
      rintro ⟨bytesRead, sid', destId'⟩ _
      dsimp only
      split
      · exact returns_pure (le_refl _)
      · split
        · exact returns_pure (le_refl _)
        · rename_i ribd' _
          rw [← List.length_drop]
          obtain ⟨r, hr, hle⟩ := ih sid' destId' ribd' (bp.drop bytesRead) (amtRead + bytesRead)
          exact ⟨r, hr, by omega⟩

theorem deserialize_returns {bp : Bytes} (hpos : 0 < bp.length) :
    Returns (deserialize bp bp.length) (Advances bp.length) := by
  unfold deserialize
  apply (returns_readByte hpos).bind
  intro type _
  split
  · exact returns_pure (advances_none _)
  split
  · exact returns_pure (advances_none _)
  rename_i hlen
  simp only [ribdHeaderSize, not_lt] at *
  apply (returns_readU16 (by omega)).bind
  intro length _
  split
  · exact returns_pure (advances_none _)
  rename_i hle
  apply (returns_readByte (by omega)).bind
  intro flags _
  apply (returns_readU16 (by omega)).bind
  intro entryCount _
  rw [← List.length_drop]
  apply (readEntries_returns _ _ _ _ _ _).bind
  rintro ⟨ribd, amtRead⟩ hamt
  dsimp only
  split
  · rename_i heq
    exact returns_pure (advances_some (heq ▸ hamt) (Nat.not_lt.mp hle))
  · exact returns_pure (advances_none _)

end RIBDTLV

/-! ## Routing information -/

namespace RIBTLV

theorem readRibEntry_returns {bp : Bytes} (h : 4 ≤ bp.length) :
    Returns (readRibEntry bp) fun _ => True := by
  unfold readRibEntry
  apply (returns_readU16 (by omega)).bind
  intro sid _
  apply (returns_readByte (by omega)).bind
  intro pvalue _
  apply (returns_readByte (by omega)).bind
  intro flags _
  exact returns_pure trivial

theorem readEntries_returns (count : Nat) (nodes : List RIBNode) (bp : Bytes) (amtRead : Nat) :
    Returns (readEntries count nodes bp bp.length amtRead) fun r => amtRead ≤ r.2 := by
  induction count generalizing nodes bp amtRead with
  | zero => exact returns_pure (le_refl _)
  | succ count ih =>
      unfold readEntries
      split
      · exact returns_pure (le_refl _)
      · rename_i hlen
        apply (readRibEntry_returns (Nat.not_lt.mp hlen)).bind
        intro node _
        rw [← List.length_drop]
        obtain ⟨r, hr, hle⟩ := ih (nodes ++ [node]) (bp.drop ribEntrySize) (amtRead + ribEntrySize)
        exact ⟨r, hr, by omega⟩

theorem deserialize_returns (bp : Bytes) :
    Returns (deserialize bp bp.length) (Advances bp.length) := by
  unfold deserialize
  split
  · exact returns_pure (advances_none _)
  rename_i hlen
  simp only [ribHeaderSize, not_lt] at *
  apply (returns_readByte (by omega)).bind
  intro type _
  split
  · exact returns_pure (advances_none _)
  apply (returns_readU16 (by omega)).bind
  intro length _
  split
  · exact returns_pure (advances_none _)
  rename_i hle
  apply (returns_readByte (by omega)).bind
  intro flags _
  apply (returns_readU16 (by omega)).bind
  intro entryCount _
  rw [← List.length_drop]
  apply (readEntries_returns _ _ _ _).bind
  rintro ⟨nodes, amtRead⟩ hamt
  dsimp only
  split
  · rename_i heq
    exact returns_pure (advances_some (heq ▸ hamt) (Nat.not_lt.mp hle))
  · exact returns_pure (advances_none _)

end RIBTLV

/-! ## Offers and responses -/

namespace BundleTLV

variable {type : BundleEntryType}

theorem readBundleEntry_returns {bp : Bytes} (h : 12 ≤ bp.length) :
    Returns (readBundleEntry bp) fun _ => True := by
  unfold readBundleEntry
  apply (returns_readByte (by omega)).bind
  intro flags _
  apply (returns_readU16 (by omega)).bind
  intro sid _
  apply (returns_readU32 (by omega)).bind
  intro cts _
  apply (returns_readU32 (by omega)).bind
  intro seq _
  exact returns_pure trivial

theorem readEntries_returns (length count : Nat) (list : BundleEntryList type) (bp : Bytes)
    (amtRead : Nat) : Returns (readEntries length count list bp bp.length amtRead)
      fun r => ∀ p, r = some p → amtRead ≤ p.2 := by
  induction count generalizing list bp amtRead with
  | zero =>
      refine returns_pure ?_
      rintro p ⟨⟩
      exact le_refl _
  | succ count ih =>
      unfold readEntries
      split
      · split
        · refine returns_pure ?_
          rintro p ⟨⟩
        · rename_i hlen
          apply (readBundleEntry_returns (Nat.not_lt.mp hlen)).bind
          intro entry _
          split
          · refine returns_pure ?_
            rintro p ⟨⟩
          · rename_i list' _
            rw [← List.length_drop]
            obtain ⟨r, hr, hle⟩ := ih list' (bp.drop bundleEntrySize) (amtRead + bundleEntrySize)
            refine ⟨r, hr, ?_⟩
            intro p hp
            have := hle p hp
            omega
      · refine returns_pure ?_
        rintro p ⟨⟩
        exact le_refl _

theorem deserialize_returns (typecode : UInt8) (body : BundleEntryList type → Body)
    (hsize : ∀ list, (body list).headerSize = bundleHeaderSize) (bp : Bytes) :
    Returns (deserialize typecode body bp bp.length) (Advances bp.length) := by
  unfold deserialize
  split
  · exact returns_pure (advances_none _)
  rename_i hlen
  simp only [bundleHeaderSize, not_lt] at *
  apply (returns_readByte (by omega)).bind
  intro first _
  split
  · exact returns_pure (advances_none _)
  apply (returns_readU16 (by omega)).bind
  intro length _
  split
  · exact returns_pure (advances_none _)
  rename_i hle
  apply (returns_readByte (by omega)).bind
  intro flags _
  apply (returns_readU16 (by omega)).bind
  intro offerCount _
  rw [← List.length_drop]
  apply (readEntries_returns _ _ _ _ _).bind
  intro r hr
  split
  · exact returns_pure (advances_none _)
  · rename_i list amtRead
    split
    · rename_i heq
      have hamt : 8 ≤ amtRead := hr _ rfl
      have hbody : (body list).headerSize ≤ length.toNat := by
        rw [hsize, ← heq]
        exact hamt
      exact returns_pure (advances_some hbody (Nat.not_lt.mp hle))
    · exact returns_pure (advances_none _)

end BundleTLV

/-! ## Hellos -/

namespace HelloTLV

def nameLength (bp : Bytes) : Nat := (bp.getD 5 0).toNat

/-- A hello at the pointer that passes all the checks of its parser. -/
def Passes (bp : Bytes) (len : Nat) : Prop :=
  bp[0]? = some 0x01 ∧ helloHeaderSize ≤ len ∧ (word16 bp 2).toNat ≤ len ∧
    nameLength bp ≤ (word16 bp 2).toNat

instance (bp : Bytes) (len : Nat) : Decidable (Passes bp len) := inferInstanceAs (Decidable (_ ∧ _))

/-- The hello covers its header, and its name ends inside the message. -/
def Fits (bp : Bytes) (len : Nat) : Prop :=
  helloHeaderSize ≤ (word16 bp 2).toNat ∧ helloHeaderSize + nameLength bp ≤ len

instance (bp : Bytes) (len : Nat) : Decidable (Fits bp len) := inferInstanceAs (Decidable (_ ∧ _))

theorem readByte_nameLength {bp : Bytes} (h : 5 < bp.length) :
    ∃ b, readByte bp 5 = .ok b ∧ b.toNat = nameLength bp := by
  obtain ⟨b, hread, hb⟩ := returns_readByte h
  refine ⟨b, hread, ?_⟩
  rw [nameLength, List.getD_eq_getElem?_getD, hb, Option.getD_some]

theorem deserialize_of_passes {bp : Bytes} (h : Passes bp bp.length) :
    ∃ hf timer, deserialize bp bp.length =
      readBytes bp helloHeaderSize (nameLength bp) >>= fun name =>
        pure (some ⟨.hello hf timer name, 0, word16 bp 2⟩) := by
  obtain ⟨htype, hlen, hle, hname⟩ := h
  simp only [helloHeaderSize] at hlen
  obtain ⟨type, htype', hb⟩ := returns_readByte (show 0 < bp.length by omega)
  obtain ⟨length, hlength, rfl⟩ := returns_readU16 (show 2 + 2 ≤ bp.length by omega)
  obtain ⟨name, hname', hnl⟩ := readByte_nameLength (show 5 < bp.length by omega)
  obtain ⟨hf, hhf, -⟩ := returns_readByte (show 1 < bp.length by omega)
  obtain ⟨timer, htimer, -⟩ := returns_readByte (show 4 < bp.length by omega)
  rw [htype, Option.some.injEq] at hb
  refine ⟨.ofBits (hf >>> 5), timer, ?_⟩
  unfold deserialize
  rw [htype', Exec.ok_bind, if_neg (by simp [← hb]), if_neg (by simp [helloHeaderSize]; omega),
    hlength, Exec.ok_bind, if_neg (by omega), hname', Exec.ok_bind, if_neg (by omega), hhf,
    Exec.ok_bind, htimer, Exec.ok_bind, hnl]

theorem deserialize_of_not_passes {bp : Bytes} (hpos : 0 < bp.length)
    (h : ¬ Passes bp bp.length) : deserialize bp bp.length = .ok none := by
  obtain ⟨type, htype, hb⟩ := returns_readByte hpos
  unfold deserialize
  rw [htype, Exec.ok_bind]
  split
  · rfl
  rename_i htype'
  split
  · rfl
  rename_i hlen
  simp only [helloHeaderSize, not_lt] at hlen
  obtain ⟨length, hlength, rfl⟩ := returns_readU16 (show 2 + 2 ≤ bp.length by omega)
  rw [hlength, Exec.ok_bind]
  split
  · rfl
  rename_i hle
  obtain ⟨name, hname, hnl⟩ := readByte_nameLength (show 5 < bp.length by omega)
  rw [hname, Exec.ok_bind]
  split
  · rfl
  rename_i hname'
  refine absurd ⟨?_, hlen, Nat.not_lt.mp hle, ?_⟩ h
  · rw [hb, not_not.mp htype']
  · rw [← hnl]
    exact Nat.not_lt.mp hname'

theorem deserialize_returns {bp : Bytes} (hpos : 0 < bp.length)
    (hfits : Passes bp bp.length → Fits bp bp.length) :
    Returns (deserialize bp bp.length) (Advances bp.length) := by
  by_cases h : Passes bp bp.length
  · obtain ⟨hf, timer, heq⟩ := deserialize_of_passes h
    rw [heq]
    apply (returns_readBytes (Or.inr (hfits h).2)).bind
    intro name _
    exact returns_pure (advances_some (hfits h).1 h.2.2.1)
  · rw [deserialize_of_not_passes hpos h]
    exact returns_pure (advances_none _)

end HelloTLV

/-! ## Messages -/

namespace ProphetTLV

theorem readHeader_returns (src dst bp : Bytes) :
    Returns (readHeader src dst bp) fun r => ∀ p, r = some p → prophetHeaderSize ≤ bp.length := by
  unfold readHeader
  split
  · exact returns_pure fun p h => by cases h
  rename_i hlen
  have hlen' : prophetHeaderSize ≤ bp.length := Nat.not_lt.mp hlen
  simp only [prophetHeaderSize] at *
  have hnone : ∀ p : Message, (none : Option Message) = some p → 16 ≤ bp.length :=
    fun p h => hlen'
  apply (returns_readByte (by omega)).bind
  intro v _
  split
  · exact returns_pure hnone
  apply (returns_readByte (by omega)).bind
  intro flags _
  split
  · exact returns_pure hnone
  apply (returns_readByte (by omega)).bind
  intro code _
  split
  · exact returns_pure hnone
  apply (returns_readU16 (by omega)).bind
  intro length _
  split
  · exact returns_pure hnone
  apply (returns_readByte (by omega)).bind
  intro result _
  apply (returns_readU16 (by omega)).bind
  intro senderInstance _
  apply (returns_readU16 (by omega)).bind
  intro receiverInstance _
  apply (returns_readU32 (by omega)).bind
  intro tid _
  apply (returns_readByte (by omega)).bind
  intro low _
  apply (returns_readByte (by omega)).bind
  intro high _
  split
  · exact returns_pure hnone
  · exact returns_pure fun p _ => hlen'

theorem readTlv_returns {bp : Bytes} (hpos : 0 < bp.length)
    (hfits : HelloTLV.Passes bp bp.length → HelloTLV.Fits bp bp.length) :
    Returns (readTlv bp bp.length) (Advances bp.length) := by
  unfold readTlv
  apply (returns_readByte hpos).bind
  intro typecode _
  split
  · exact HelloTLV.deserialize_returns hpos hfits
  split
  · exact RIBDTLV.deserialize_returns hpos
  split
  · exact RIBTLV.deserialize_returns bp
  split
  · exact BundleTLV.deserialize_returns _ _ (fun _ => rfl) bp
  split
  · exact BundleTLV.deserialize_returns _ _ (fun _ => rfl) bp
  · exact returns_pure (advances_none _)

theorem readTlv_of_passes {bp : Bytes} (h : HelloTLV.Passes bp bp.length) :
    readTlv bp bp.length = HelloTLV.deserialize bp bp.length := by
  have hread : readByte bp 0 = .ok 0x01 := by
    rw [readByte, h.1]
    rfl
  unfold readTlv
  rw [hread, Exec.ok_bind, if_pos rfl]

/-- Where the loop looks for a TLV: behind the header, and behind each TLV that was accepted. -/
inductive Reaches (src dst buf : Bytes) : Bytes → Nat → Prop
  | start {p : Message} (h : readHeader src dst buf = .ok (some p)) :
      Reaches src dst buf (buf.drop prophetHeaderSize) (buf.length - prophetHeaderSize)
  | next {bp : Bytes} {len : Nat} {tlv : TLV} (hr : Reaches src dst buf bp len) (hpos : 0 < len)
      (h : readTlv bp len = .ok (some tlv)) :
      Reaches src dst buf (bp.drop tlv.length.toNat) (len - tlv.length.toNat)

/-- The parser ends, reads nothing behind the message, and each TLV it accepts takes at least its
header and at most what is left. -/
structure Safe (src dst buf : Bytes) : Prop where
  terminates : ∃ fuel, deserialize fuel src dst buf ≠ .error (.fault .diverges)
  inBounds : ∀ fuel, deserialize fuel src dst buf ≠ .error (.fault .outOfBounds)
  advances : ∀ bp len tlv, Reaches src dst buf bp len → 0 < len →
    readTlv bp len = .ok (some tlv) →
    tlv.body.headerSize ≤ tlv.length.toNat ∧ tlv.length.toNat ≤ len

section Loop

variable {src dst buf bp : Bytes} {len : Nat}

theorem Reaches.length_eq (h : Reaches src dst buf bp len) : len = bp.length := by
  induction h with
  | start h => rw [List.length_drop]
  | next hr hpos h ih => rw [List.length_drop, ih]

theorem Reaches.run (h : Reaches src dst buf bp len) :
    ∃ k p, ∀ fuel, deserialize (fuel + k) src dst buf =
      readTlvs fuel p bp len >>= fun p => pure (some p) := by
  induction h with
  | start h =>
      rename_i p
      refine ⟨0, p, ?_⟩
      intro fuel
      unfold deserialize
      rw [h]
      rfl
  | next hr hpos h ih =>
      rename_i tlv
      obtain ⟨k, p, hrun⟩ := ih
      refine ⟨k + 1, p.addTlv tlv, ?_⟩
      intro fuel
      have hfuel : fuel + (k + 1) = (fuel + 1) + k := by omega
      rw [hfuel, hrun, readTlvs, if_neg (by omega), h]
      rfl

theorem readTlvs_returns (hfits : ∀ bp len, Reaches src dst buf bp len →
      HelloTLV.Passes bp len → HelloTLV.Fits bp len)
    (fuel : Nat) (p : Message) (h : Reaches src dst buf bp len) :
    (∃ q, readTlvs fuel p bp len = .ok q) ∨
      (fuel ≤ len ∧ readTlvs fuel p bp len = .error (.fault .diverges)) := by
  induction fuel generalizing p bp len with
  | zero => exact Or.inr ⟨Nat.zero_le _, rfl⟩
  | succ fuel ih =>
      unfold readTlvs
      split
      · exact Or.inl ⟨p, rfl⟩
      rename_i hne
      have hpos : 0 < len := Nat.pos_of_ne_zero hne
      have heq := h.length_eq
      subst heq
      obtain ⟨r, hr, hadv⟩ := readTlv_returns hpos (hfits _ _ h)
      rw [hr, Exec.ok_bind]
      cases r with
      | none => exact Or.inl ⟨p, rfl⟩
      | some tlv =>
          have hstep := tlv.body.headerSize_pos
          have hlen := (hadv tlv rfl).1
          rcases ih (p.addTlv tlv) (h.next hpos hr) with hq | ⟨hfuel, hdiv⟩
          · exact Or.inl hq
          · exact Or.inr ⟨by omega, hdiv⟩

end Loop

/-- The parser is safe on exactly the messages in which every hello that it comes to and does not
refuse covers its own header and ends inside the message. -/
theorem deserialize_safe_iff (src dst buf : Bytes) :
    Safe src dst buf ↔ ∀ bp len, Reaches src dst buf bp len → HelloTLV.Passes bp len →
      HelloTLV.Fits bp len := by
  constructor
  · intro hsafe bp len hreach hpass
    have heq := hreach.length_eq
    subst heq
    have hpos : 0 < bp.length := Nat.lt_of_lt_of_le (by decide) hpass.2.1
    obtain ⟨hf, timer, hrun⟩ := HelloTLV.deserialize_of_passes hpass
    rw [← readTlv_of_passes hpass] at hrun
    have hname : helloHeaderSize + HelloTLV.nameLength bp ≤ bp.length := by
      by_contra hlt
      have hlen := hpass.2.1
      -- one more round of the loop reads the name
      obtain ⟨k, p, hk⟩ := hreach.run
      apply hsafe.inBounds (1 + k)
      rw [hk, readTlvs, if_neg (by omega), hrun, readBytes, if_neg (by omega)]
      rfl
    refine ⟨?_, hname⟩
    rw [readBytes, if_pos (Or.inr hname)] at hrun
    exact (hsafe.advances _ _ _ hreach hpos hrun).1
  · intro hfits
    obtain ⟨r, hr, -⟩ := readHeader_returns src dst buf
    have hrun : ∀ fuel, (∃ q, deserialize fuel src dst buf = .ok q) ∨
        (fuel ≤ buf.length ∧ deserialize fuel src dst buf = .error (.fault .diverges)) := by
      intro fuel
      unfold deserialize
      rw [hr, Exec.ok_bind]
      cases r with
      | none => exact Or.inl ⟨none, rfl⟩
      | some p =>
          rcases readTlvs_returns hfits fuel p (.start hr) with ⟨q, hq⟩ | ⟨hfuel, hdiv⟩
          · left
            refine ⟨some q, ?_⟩
            dsimp only
            rw [hq]
            rfl
          · right
            refine ⟨by omega, ?_⟩
            dsimp only
            rw [hdiv]
            rfl
    refine ⟨⟨buf.length + 1, ?_⟩, ?_, ?_⟩
    · rcases hrun (buf.length + 1) with ⟨q, hq⟩ | ⟨hle, -⟩
      · rw [hq]
        simp
      · omega
    · intro fuel
      rcases hrun fuel with ⟨q, hq⟩ | ⟨-, hdiv⟩
      · rw [hq]
        simp
      · rw [hdiv]
        simp
    · intro bp len tlv hreach hpos htlv
      have heq := hreach.length_eq
      subst heq
      obtain ⟨r, hr', hadv⟩ := readTlv_returns hpos (hfits _ _ hreach)
      rw [htlv, Except.ok.injEq] at hr'
      exact hadv tlv hr'.symm

theorem readTlvs_stuck {bp : Bytes} {len : Nat} {tlv : TLV} (hpos : 0 < len)
    (h : readTlv bp len = .ok (some tlv)) (hzero : tlv.length = 0) (fuel : Nat) (p : Message) :
    readTlvs fuel p bp len = .error (.fault .diverges) := by
  induction fuel generalizing p with
  | zero => rfl
  | succ fuel ih =>
      rw [readTlvs, if_neg (by omega), h, Exec.ok_bind]
      dsimp only
      rw [hzero]
      exact ih _

def sampleHeader : Bytes := [0x01, 0, 0x01, 0, 0, 0x01, 0, 0, 0, 0, 0, 0x01, 0, 0, 0, 22]

def emptyHello : Bytes := sampleHeader ++ [0x01, 0x20, 0, 0, 100, 0]

/-- A hello with a name of which nothing was sent. -/
def cutHello : Bytes := sampleHeader ++ [0x01, 0x20, 0, 6, 100, 5]

/-- On one of these messages the parser never ends, on the other it reads behind the end. -/
theorem deserialize_not_safe : ¬ Safe [] [] emptyHello ∧ ¬ Safe [] [] cutHello := by
  constructor
  · intro hsafe
    obtain ⟨fuel, hfuel⟩ := hsafe.terminates
    apply hfuel
    have htlv : readTlv (emptyHello.drop prophetHeaderSize) (emptyHello.length - prophetHeaderSize) =
        .ok (some ⟨.hello .syn 100 [], 0, 0⟩) := by decide +kernel
    have hheader : readHeader [] [] emptyHello =
        .ok (some ⟨[], [], .noSuccessAck, 1, 0, 1, 16, []⟩) := by decide +kernel
    unfold deserialize
    rw [hheader, Exec.ok_bind]
    dsimp only
    rw [readTlvs_stuck (by decide) htlv rfl]
    rfl
  · intro hsafe
    apply hsafe.inBounds 1
    decide +kernel

end ProphetTLV

end Prophet

end Dtn2
