import Dtn2.Fragmentation.FragmentState

/-!
# The keys of the fragment table

A key is the creation timestamp of a bundle, its source and its destination in one string. There is a
dot between the two numbers and nothing between the other fields, so the same string may be cut into
fields in more than one place.
-/

namespace Dtn2

open Framework

/-! ## Strings that are cut in two ways -/

section Cuts

variable {α : Type}

/-- Text is moved over the boundaries of three fields: `u` from the second field to the first, and some
between the second field and the third. -/
inductive Moved (a b c a' b' c' : List α) : Prop
  /-- The text `w` from the third field to the second. -/
  | shift (u m w : List α) (ha : a' = a ++ u) (hb : b = u ++ m) (hb' : b' = m ++ w)
      (hc : c = w ++ c') (hsome : u ≠ [] ∨ w ≠ [])
  /-- The text `w` from the second field to the third. -/
  | spread (u w : List α) (ha : a' = a ++ u) (hb : b = u ++ b' ++ w) (hc : c' = w ++ c)
      (hsome : u ≠ [] ∨ w ≠ [])
  /-- The first field takes all of the second and some of the third, out of which the new second field
  is made. -/
  | swallow (x : List α) (ha : a' = a ++ b ++ x) (hc : c = x ++ b' ++ c') (hsome : b ++ x ≠ [])

theorem Moved.append_eq {a b c a' b' c' : List α} (h : Moved a b c a' b' c') :
    a ++ (b ++ c) = a' ++ (b' ++ c') := by
  cases h with
  | shift u m w ha hb hb' hc hsome =>
      rw [ha, hb, hb', hc]
      simp only [List.append_assoc]
  | spread u w ha hb hc hsome =>
      rw [ha, hb, hc]
      simp only [List.append_assoc]
  | swallow x ha hc hsome =>
      rw [ha, hc]
      simp only [List.append_assoc]

theorem Moved.length_ne {a b c a' b' c' : List α} (h : Moved a b c a' b' c') :
    a.length ≠ a'.length ∨ b.length ≠ b'.length := by
  cases h with
  | shift u m w ha hb hb' hc hsome =>
      rw [ha, hb, hb']
      simp only [List.length_append, ← List.length_pos_iff] at *
      omega
  | spread u w ha hb hc hsome =>
      rw [ha, hb]
      simp only [List.length_append, ← List.length_pos_iff] at *
      omega
  | swallow x ha hc hsome =>
      rw [ha]
      simp only [List.length_append, ← List.length_pos_iff] at *
      omega

/-- One string in three fields, the first of them not longer than in the other cut. -/
theorem moved_of_append_eq (a : List α) {b c u b' c' : List α} (h : b ++ c = u ++ (b' ++ c')) :
    (u = [] ∧ b = b' ∧ c = c') ∨ Moved a b c (a ++ u) b' c' := by
  cases List.append_eq_append_iff.mp h with
  | inl hlong =>
      obtain ⟨x, hu, hc⟩ := hlong
      by_cases hsome : b ++ x ≠ []
      · exact Or.inr (.swallow x (by rw [hu, List.append_assoc])
          (by rw [hc, List.append_assoc]) hsome)
      · have hnil := List.append_eq_nil_iff.mp (not_not.mp hsome)
        rw [hnil.1, hnil.2] at hu
        rw [hnil.2] at hc
        by_cases hb' : b' = []
        · rw [hb'] at hc
          exact Or.inl ⟨hu, hnil.1.trans hb'.symm, hc⟩
        · exact Or.inr (.shift [] [] b' (by rw [hu]; rfl) hnil.1 rfl hc (Or.inr hb'))
  | inr hshort =>
      obtain ⟨m, hb, htail⟩ := hshort
      cases List.append_eq_append_iff.mp htail with
      | inl hshift =>
          obtain ⟨w, hm, hc'⟩ := hshift
          by_cases hsome : u ≠ [] ∨ w ≠ []
          · exact Or.inr (.spread u w rfl (by rw [hb, hm, List.append_assoc]) hc' hsome)
          · rw [not_or, not_not, not_not] at hsome
            rw [hsome.2, List.append_nil] at hm
            rw [hsome.2] at hc'
            exact Or.inl ⟨hsome.1, by rw [hb, hsome.1, hm]; rfl, hc'.symm⟩
      | inr hspread =>
          obtain ⟨w, hb', hc⟩ := hspread
          by_cases hsome : u ≠ [] ∨ w ≠ []
          · exact Or.inr (.shift u m w rfl hb hb' hc hsome)
          · rw [not_or, not_not, not_not] at hsome
            rw [hsome.2, List.append_nil] at hb'
            rw [hsome.2] at hc
            exact Or.inl ⟨hsome.1, by rw [hb, hsome.1, hb']; rfl, hc⟩

theorem append_eq_iff_moved (a b c a' b' c' : List α) :
    a ++ (b ++ c) = a' ++ (b' ++ c') ↔
      (a = a' ∧ b = b' ∧ c = c') ∨ Moved a b c a' b' c' ∨ Moved a' b' c' a b c := by
  constructor
  · intro h
    cases List.append_eq_append_iff.mp h with
    | inl hlong =>
        obtain ⟨u, ha', htail⟩ := hlong
        rw [ha']
        cases moved_of_append_eq a htail with
        | inl hsame =>
            rw [hsame.1, List.append_nil]
            exact Or.inl ⟨rfl, hsame.2⟩
        | inr hmoved => exact Or.inr (Or.inl hmoved)
    | inr hshort =>
        obtain ⟨u, ha, htail⟩ := hshort
        rw [ha]
        cases moved_of_append_eq a' htail with
        | inl hsame =>
            rw [hsame.1, List.append_nil]
            exact Or.inl ⟨rfl, hsame.2.1.symm, hsame.2.2.symm⟩
        | inr hmoved => exact Or.inr (Or.inr hmoved)
  · intro h
    cases h with
    | inl hsame => rw [hsame.1, hsame.2.1, hsame.2.2]
    | inr hmoved =>
        cases hmoved with
        | inl hmoved => exact hmoved.append_eq
        | inr hmoved => exact hmoved.append_eq.symm

end Cuts

/-! ## Keys of bundles -/

/-- Two bundles have the same timestamp, source and destination. -/
def SameIdentity (b b' : Bundle) : Prop :=
  b.creationTs = b'.creationTs ∧ b.source.uri = b'.source.uri ∧ b.dest.uri = b'.dest.uri

/-- The fields behind the dot of a key. -/
def seqnoText (b : Bundle) : Bytes := Decimal.print b.creationTs.seqno.toNat

def sourceText (b : Bundle) : Bytes := cString b.source.uri

def destText (b : Bundle) : Bytes := cString b.dest.uri

theorem getHashKey_text (b : Bundle) : getHashKey b =
    Decimal.print b.creationTs.seconds.toNat ++
      ascii ['.'] ++ (seqnoText b ++ (sourceText b ++ destText b)) := by
  simp only [getHashKey, seqnoText, sourceText, destText, List.append_assoc]

theorem print_injective {m n : Nat} (h : Decimal.print m = Decimal.print n) : m = n := by
  rw [← Decimal.value_print m, h, Decimal.value_print]

theorem getHashKey_eq_getHashKey_iff (b b' : Bundle) :
    getHashKey b = getHashKey b' ↔ b.creationTs.seconds = b'.creationTs.seconds ∧
      seqnoText b ++ (sourceText b ++ destText b) =
        seqnoText b' ++ (sourceText b' ++ destText b') := by
  have hscan : ∀ c : Bundle, Decimal.scan (getHashKey c) = some (c.creationTs.seconds.toNat,
      ascii ['.'] ++ (seqnoText c ++ (sourceText c ++ destText c))) := by
    intro c
    rw [getHashKey_text, List.append_assoc]
    apply Decimal.scan_print
    intro byte hbyte
    rw [← Option.some.inj hbyte]
    decide
  constructor
  · intro h
    have hpair := hscan b
    rw [h, hscan b'] at hpair
    simp only [Option.some.injEq, Prod.mk.injEq, List.append_cancel_left_eq] at hpair
    exact ⟨UInt64.toNat_inj.mp hpair.1.symm, hpair.2.symm⟩
  · intro h
    rw [getHashKey_text, getHashKey_text, h.1, h.2]

/-- The endpoint ids of two bundles with the same timestamp differ only behind a zero byte. -/
def Hidden (b b' : Bundle) : Prop :=
  b.creationTs = b'.creationTs ∧ sourceText b = sourceText b' ∧ destText b = destText b' ∧
    (b.source.uri ≠ b'.source.uri ∨ b.dest.uri ≠ b'.dest.uri)

/-- Text of `b` that is moved over the boundaries of the fields gives `b'`. -/
def MovedText (b b' : Bundle) : Prop :=
  b.creationTs.seconds = b'.creationTs.seconds ∧
    Moved (seqnoText b) (sourceText b) (destText b) (seqnoText b') (sourceText b') (destText b')

theorem SameIdentity.texts {b b' : Bundle} (h : SameIdentity b b') :
    seqnoText b = seqnoText b' ∧ sourceText b = sourceText b' ∧ destText b = destText b' := by
  unfold seqnoText sourceText destText
  rw [h.1, h.2.1, h.2.2]
  exact ⟨rfl, rfl, rfl⟩

theorem MovedText.not_same {b b' : Bundle} (h : MovedText b b') : ¬ SameIdentity b b' := by
  intro hsame
  have htexts := hsame.texts
  cases h.2.length_ne with
  | inl hseqno => exact hseqno (congrArg List.length htexts.1)
  | inr hsource => exact hsource (congrArg List.length htexts.2.1)

theorem SameIdentity.symm {b b' : Bundle} (h : SameIdentity b b') : SameIdentity b' b :=
  ⟨h.1.symm, h.2.1.symm, h.2.2.symm⟩

/-- The keys of different bundles are the same if and only if text is moved over the boundaries of the
fields, or the difference is hidden behind a zero byte. -/
theorem getHashKey_collides_iff (b b' : Bundle) :
    (getHashKey b = getHashKey b' ∧ ¬ SameIdentity b b') ↔
      MovedText b b' ∨ MovedText b' b ∨ Hidden b b' := by
  rw [getHashKey_eq_getHashKey_iff, append_eq_iff_moved]
  constructor
  · rintro ⟨⟨hseconds, htexts | hmoved | hmoved⟩, hdiffer⟩
    · have hseqno : b.creationTs.seqno = b'.creationTs.seqno :=
        UInt64.toNat_inj.mp (print_injective htexts.1)
      have hts : b.creationTs = b'.creationTs := by
        cases hb : b.creationTs
        cases hb' : b'.creationTs
        rw [hb, hb'] at hseconds hseqno
        simp only at hseconds hseqno
        rw [hseconds, hseqno]
      refine Or.inr (Or.inr ⟨hts, htexts.2.1, htexts.2.2, ?_⟩)
      by_contra hsame
      rw [not_or, not_not, not_not] at hsame
      exact hdiffer ⟨hts, hsame⟩
    · exact Or.inl ⟨hseconds, hmoved⟩
    · exact Or.inr (Or.inl ⟨hseconds.symm, hmoved⟩)
  · intro h
    cases h with
    | inl hmoved => exact ⟨⟨hmoved.1, Or.inr (Or.inl hmoved.2)⟩, hmoved.not_same⟩
    | inr h =>
        cases h with
        | inl hmoved =>
            exact ⟨⟨hmoved.1.symm, Or.inr (Or.inr hmoved.2)⟩, fun h => hmoved.not_same h.symm⟩
        | inr hhidden =>
            obtain ⟨hts, hsource, hdest, hdiffer⟩ := hhidden
            refine ⟨⟨congrArg _ hts, Or.inl ⟨?_, hsource, hdest⟩⟩, ?_⟩
            · unfold seqnoText
              rw [hts]
            · intro hsame
              exact hdiffer.elim (fun h => h hsame.2.1) fun h => h hsame.2.2

/-- A key names its bundle, unless text is moved over the boundaries of its fields or hidden behind a
zero byte. -/
theorem getHashKey_names_iff (b b' : Bundle) :
    (getHashKey b = getHashKey b' ↔ SameIdentity b b') ↔
      ¬ (MovedText b b' ∨ MovedText b' b ∨ Hidden b b') := by
  rw [← getHashKey_collides_iff]
  have hsame : SameIdentity b b' → getHashKey b = getHashKey b' := by
    intro h
    rw [getHashKey_text, getHashKey_text, h.texts.1, h.texts.2.1, h.texts.2.2, h.1]
  constructor
  · intro h hcollides
    exact hcollides.2 (h.mp hcollides.1)
  · intro h
    exact ⟨fun hkey => by_contra fun hdiffer => h ⟨hkey, hdiffer⟩, hsame⟩

/-- An endpoint id with a scheme and something behind the colon. -/
def EidForm (eid : EndpointID) : Prop :=
  ∃ scheme ssp, eid.uri = scheme ++ EndpointID.colon :: ssp ∧ scheme ≠ [] ∧ ssp ≠ []

/-- A bundle of `dtn:a` for `xdtn:b`, and one of `dtn:ax` for `dtn:b`. -/
theorem getHashKey_not_injective :
    ¬ ∀ b b' : Bundle, EidForm b.source → EidForm b.dest → EidForm b'.source → EidForm b'.dest →
      (getHashKey b = getHashKey b' ↔ SameIdentity b b') := by
  intro h
  have hkeys := h
    { Bundle.new 1 0 with
      source := Oasys.plain.assign (ascii ['d', 't', 'n', ':', 'a'])
      dest := Oasys.plain.assign (ascii ['x', 'd', 't', 'n', ':', 'b']) }
    { Bundle.new 1 0 with
      source := Oasys.plain.assign (ascii ['d', 't', 'n', ':', 'a', 'x'])
      dest := Oasys.plain.assign (ascii ['d', 't', 'n', ':', 'b']) }
    ⟨ascii ['d', 't', 'n'], ascii ['a'], by decide, by decide, by decide⟩
    ⟨ascii ['x', 'd', 't', 'n'], ascii ['b'], by decide, by decide, by decide⟩
    ⟨ascii ['d', 't', 'n'], ascii ['a', 'x'], by decide, by decide, by decide⟩
    ⟨ascii ['d', 't', 'n'], ascii ['b'], by decide, by decide, by decide⟩
  have hsame := hkeys.mp (by
    rw [getHashKey_eq_getHashKey_iff]
    exact ⟨rfl, by decide⟩)
  exact absurd hsame.2.1 (by decide)

end Dtn2
