import Dtn2.Discovery.TypeTreeReads

/-!
# What a failed read leaves behind

If reading a tree fails, the nodes that were complete before the failure stay filled. The first of
them is the leaf that the headers at the start of the buffer lead to.
-/

namespace Dtn2

namespace IPND

open Framework

/-- The content of the leaf at `ptr` is complete. -/
def Primitives.Whole (p : Primitives) (ptr : Bytes) (n : Nat) : Prop :=
  match p with
  | .uint64 _ | .sint64 _ => ∃ num val, readSdnv ptr n = .ok (.ok (num, val))
  | .string _ | .bytes _ => ∃ num len, readSdnv ptr n = .ok (.ok (num, len)) ∧
      len.toNat % 2 ^ 32 ≤ n - num ∧ 0 ≤ toInt (num + len.toNat)
  | _ => True

/-- The headers at the start of the buffer lead to a leaf that is complete. -/
inductive LeadsToLeaf : BaseDatatype → Bytes → Nat → Prop
  | primitive (value : Primitives) (filled : Bool) {ptr : Bytes} {n : Nat}
      (room : value.getMinLength ≤ n) (whole : value.Whole ptr (n - 1)) :
      LeadsToLeaf (.primitive value filled) (value.getTag :: ptr) n
  | constructed (tag : UInt8) {components : List BaseDatatype} (filled : Bool) {buf : Bytes}
      {n : Nat} {h : ConstructedType.Header} {child : BaseDatatype}
      (header : ConstructedType.readHeader tag buf n = .ok (.ok h))
      (first : ConstructedType.Next components h.ptr h.remaining 0 h.expected child)
      (leads : LeadsToLeaf child h.ptr h.remaining.toNat) :
      LeadsToLeaf (.constructed tag components filled) buf n

namespace Primitives

theorem number_whole {ptr : Bytes} {n : Nat} {r : Except Int (Nat × UInt64)} {code : Int}
    (hr : readSdnv ptr n = .ok r) (herror : ∀ e, r = .error e → code = e)
    (hok : ∀ x, r = .ok x → code = x.1) :
    0 ≤ code ↔ ∃ num val, readSdnv ptr n = .ok (.ok (num, val)) := by
  cases r with
  | error e =>
      have hneg := readSdnv_error hr
      rw [herror e rfl]
      constructor
      · intro h
        omega
      · rintro ⟨num, val, hread⟩
        rw [hr] at hread
        cases hread
  | ok x =>
      rw [hok x rfl]
      exact ⟨fun _ => ⟨x.1, x.2, hr⟩, fun _ => Int.natCast_nonneg x.1⟩

theorem array_whole {p q : Primitives} {ptr : Bytes} {n : Nat} {copied : UInt64 → Nat}
    {value : UInt64 → Bytes → Primitives} {code : Int}
    (h : readArray p ptr n copied value = .ok (code, q)) :
    0 ≤ code ↔ ∃ num len, readSdnv ptr n = .ok (.ok (num, len)) ∧
      len.toNat % 2 ^ 32 ≤ n - num ∧ 0 ≤ toInt (num + len.toNat) := by
  cases readArray_ok h with
  | inl hfail =>
      cases hfail.2 with
      | inl herror =>
          have hneg := readSdnv_error herror
          constructor
          · intro hcode
            omega
          · rintro ⟨num, len, hread, -, -⟩
            rw [herror] at hread
            cases hread
      | inr hshort =>
          obtain ⟨hcode, num, len, hread, hlt⟩ := hshort
          constructor
          · intro hnonneg
            rw [hcode] at hnonneg
            exact absurd hnonneg (by decide)
          · rintro ⟨num', len', hread', hle, -⟩
            rw [hread] at hread'
            obtain ⟨hnum, hlen⟩ := Prod.mk.inj (Except.ok.inj (Except.ok.inj hread'))
            rw [← hnum, ← hlen] at hle
            omega
  | inr hgood =>
      obtain ⟨num, len, hread, hle, hcode, -⟩ := hgood
      rw [hcode]
      constructor
      · intro hnonneg
        exact ⟨num, len, hread, hle, hnonneg⟩
      · rintro ⟨num', len', hread', -, hnonneg⟩
        rw [hread] at hread'
        obtain ⟨hnum, hlen⟩ := Prod.mk.inj (Except.ok.inj (Except.ok.inj hread'))
        rw [hnum, hlen]
        exact hnonneg

theorem readRawContent_whole {p q : Primitives} {ptr : Bytes} {n : Nat} {code : Int}
    (h : p.readRawContent ptr n = .ok (code, q)) : 0 ≤ code ↔ p.Whole ptr n := by
  cases p with
  | boolean val =>
      cases ptr with
      | nil => cases h
      | cons b ptr =>
          cases h
          exact ⟨fun _ => trivial, fun _ => by decide⟩
  | uint64 val | sint64 val =>
      rw [readRawContent, bind_eq_ok] at h
      obtain ⟨r, hr, h⟩ := h
      apply number_whole hr
      · intro e he
        rw [he] at h
        cases h
        rfl
      · intro x hx
        rw [hx] at h
        cases h
        rfl
  | string val | bytes val =>
      rw [readRawContent] at h
      exact array_whole h
  | _ =>
      rw [readRawContent] at h
      rw [(readFixed_ok h).1]
      exact ⟨fun _ => trivial, fun _ => by decide⟩

end Primitives

namespace BaseDatatype

/-! ## Which nodes stay filled -/

theorem readAt_isFilled {depth : Nat} {t t' : BaseDatatype} {buf : Bytes} {n : Nat} {code : Int}
    (hdepth : t.depth ≤ depth) (h : readAt depth t buf n = .ok (code, t')) (hcode : 0 ≤ code) :
    t'.isFilled = true := by
  cases t with
  | primitive value filled =>
      have hread : PrimitiveType.read value filled buf n = .ok (code, t') := by
        cases depth <;> exact h
      cases primitive_read_ok hread with
      | inl hfail => omega
      | inr hread =>
          obtain ⟨ptr, r, -, -, -, hend⟩ := hread
          cases hend with
          | inl hfail => omega
          | inr hgood =>
              rw [hgood.2.2]
              rfl
  | constructed tag cs f =>
      cases depth with
      | zero =>
          rw [BaseDatatype.depth] at hdepth
          omega
      | succ depth =>
          cases constructed_read_ok h with
          | inl hfail =>
              have hneg := ConstructedType.readHeader_error hfail.1
              omega
          | inr hread =>
              obtain ⟨hd, o, -, -, hc, ht'⟩ := hread
              rw [hc] at hcode
              rw [ht', ConstructedType.finish_code tag f hd o hcode]
              rfl

theorem Marked.isFilled {b : Bool} {t : BaseDatatype} (h : t.Marked b) : t.isFilled = b := by
  cases h <;> rfl

theorem marked_constructed {b f : Bool} {tag : UInt8} {cs : List BaseDatatype} :
    Marked b (.constructed tag cs f) ↔ f = b ∧ ∀ c ∈ cs, c.Marked b := by
  constructor
  · intro h
    cases h with
    | constructed _ children => exact ⟨rfl, children⟩
  · rintro ⟨rfl, hall⟩
    exact .constructed tag hall

theorem primitive_unfilled_iff {value : Primitives} {filled : Bool} {buf : Bytes} {n : Nat}
    {code : Int} {t' : BaseDatatype} (hfilled : filled = false)
    (h : PrimitiveType.read value filled buf n = .ok (code, t')) :
    t'.Unfilled ↔ ¬ LeadsToLeaf (.primitive value filled) buf n := by
  rw [hfilled] at h ⊢
  cases primitive_read_ok h with
  | inl hfail =>
      rw [hfail.2.1]
      refine ⟨fun _ hleads => ?_, fun _ => .primitive value⟩
      cases hleads with
      | primitive _ _ room whole =>
          cases hfail.2.2 with
          | inl hshort => omega
          | inr htag => exact htag rfl
  | inr hread =>
      obtain ⟨ptr, r, hbuf, hmin, hr, hend⟩ := hread
      have hleads : LeadsToLeaf (.primitive value false) buf n ↔ value.Whole ptr (n - 1) := by
        rw [hbuf]
        constructor
        · intro hleads
          cases hleads with
          | primitive _ _ room whole => exact whole
        · exact .primitive value false hmin
      rw [hleads, ← Primitives.readRawContent_whole hr]
      cases hend with
      | inl hfail =>
          rw [hfail.2.2]
          exact ⟨fun _ => Int.not_le.mpr hfail.1, fun _ => .primitive r.2⟩
      | inr hgood =>
          rw [hgood.2.2]
          constructor
          · intro hunf
            have hflag := hunf.isFilled
            cases hflag
          · intro hneg
            exact absurd hgood.1 hneg

theorem leadsToLeaf_constructed {tag : UInt8} {cs : List BaseDatatype} {f : Bool} {buf : Bytes}
    {n : Nat} {h : ConstructedType.Header} {child : BaseDatatype}
    (hheader : ConstructedType.readHeader tag buf n = .ok (.ok h))
    (hnext : ConstructedType.Next cs h.ptr h.remaining 0 h.expected child) :
    LeadsToLeaf (.constructed tag cs f) buf n ↔ LeadsToLeaf child h.ptr h.remaining.toNat := by
  constructor
  · intro hleads
    cases hleads with
    | constructed _ _ header first leads =>
        rw [hheader] at header
        cases header
        have hstarts := first.starts
        rw [hnext.starts] at hstarts
        have hfound := hnext.found
        rw [Option.some.inj hstarts, first.found] at hfound
        rw [← Option.some.inj hfound]
        exact leads
  · exact .constructed tag f hheader hnext

theorem readComponents_filled {depth : Nat} {tag : UInt8} {cs us : List BaseDatatype} {f : Bool}
    (htree : Tree (.constructed tag cs f)) (hus : us.map blank = cs.map blank) {left : Nat}
    {ptr : Bytes} {remaining : Int} {structBytes expected : Nat} {o : ConstructedType.Outcome}
    (h : ConstructedType.readComponents (readAt depth) left us ptr remaining structBytes expected =
      .ok o) (hfilled : ∃ c ∈ us, c.isFilled = true) : ∃ c ∈ o.components, c.isFilled = true := by
  have hkept : o.components.map blank = cs.map blank ∧ ∃ c ∈ o.components, c.isFilled = true := by
    apply ConstructedType.readComponents_invariant
      (I := fun xs => xs.map blank = cs.map blank ∧ ∃ c ∈ xs, c.isFilled = true) ?_ h
      ⟨hus, hfilled⟩ (Nat.le_refl _)
    intro xs child buf n code child' hxs hunfilled hchild _ hread
    obtain ⟨hmap, c, hc, hcfilled⟩ := hxs
    have hdistinct := htree.distinct
    rw [← map_getTag hmap] at hdistinct
    obtain ⟨x, hx, hsame⟩ := sameShape_of_mem hmap (List.mem_of_find?_eq_some hchild)
    have hchildTree : child.Tree := by
      cases htree with
      | constructed _ _ _ _ children => exact (children x hx).same hsame
    constructor
    · rw [map_blank_setChild hdistinct hchild (readAt_sameShape hchildTree hread), hmap]
    · obtain ⟨-, before, after, heq, hset⟩ := ConstructedType.getChild_split hdistinct hchild
      refine ⟨c, ?_, hcfilled⟩
      rw [hset child']
      rw [heq] at hc
      have hne : c ≠ child := by
        intro hcc
        rw [hcc, hunfilled] at hcfilled
        cases hcfilled
      simp only [List.mem_append, List.mem_cons] at hc ⊢
      tauto
  exact hkept.2

/-- The nodes of a tree are unfilled after a read exactly if the headers at the start of the buffer
do not lead to a leaf that is complete. -/
theorem readAt_unfilled_iff {depth : Nat} {t t' : BaseDatatype} {buf : Bytes} {n : Nat} {code : Int}
    (hdepth : t.depth ≤ depth) (htree : t.Tree) (hunfilled : t.Unfilled)
    (h : readAt depth t buf n = .ok (code, t')) : t'.Unfilled ↔ ¬ LeadsToLeaf t buf n := by
  induction depth generalizing t t' buf n code with
  | zero =>
      cases t with
      | primitive value filled => exact primitive_unfilled_iff hunfilled.isFilled h
      | constructed tag cs f =>
          rw [BaseDatatype.depth] at hdepth
          omega
  | succ depth ih =>
      cases t with
      | primitive value filled => exact primitive_unfilled_iff hunfilled.isFilled h
      | constructed tag cs f =>
          obtain ⟨hf, hcs⟩ := marked_constructed.mp hunfilled
          rw [BaseDatatype.depth] at hdepth
          cases constructed_read_ok h with
          | inl hsame =>
              rw [hsame.2]
              refine ⟨fun _ hleads => ?_, fun _ => hunfilled⟩
              cases hleads with
              | constructed _ _ header first leads =>
                  rw [hsame.1] at header
                  cases header
          | inr hread =>
              obtain ⟨hd, o, hheader, ho, -, hfinish⟩ := hread
              obtain ⟨g, hg, hgf⟩ := finish_tree tag f hd o
              rw [hg] at hfinish
              have hlength : cs.length ≠ 0 := by
                cases htree with
                | constructed _ _ nonempty _ _ =>
                    intro hzero
                    exact nonempty (List.eq_nil_of_length_eq_zero hzero)
              obtain ⟨left, hleft⟩ := Nat.exists_eq_succ_of_ne_zero hlength
              rw [hleft] at ho
              cases ConstructedType.readComponents_succ ho with
              | inl hstop =>
                  rw [hstop.2.1, hgf (by omega)] at hfinish
                  rw [hfinish]
                  refine ⟨fun _ hleads => ?_, fun _ => hunfilled⟩
                  cases hleads with
                  | constructed _ _ header first leads =>
                      rw [hheader] at header
                      cases header
                      exact hstop.2.2 _ first
              | inr hfirst =>
                  obtain ⟨child, c, child', hnext, hread, hend⟩ := hfirst
                  have hmem := List.mem_of_find?_eq_some hnext.found
                  have hchildDepth := ConstructedType.depth_le hmem
                  have hchildTree : child.Tree := by
                    cases htree with
                    | constructed _ _ _ _ children => exact children child hmem
                  have hchild := ih (by omega) hchildTree (hcs child hmem) hread
                  rw [leadsToLeaf_constructed hheader hnext, ← hchild, hfinish]
                  obtain ⟨-, before, after, heq, hset⟩ :=
                    ConstructedType.getChild_split htree.distinct hnext.found
                  cases hend with
                  | inl hstop =>
                      rw [hstop.2.2, hgf (by omega), Unfilled, marked_constructed, hset child']
                      constructor
                      · intro hall
                        exact hall.2 child' (List.mem_append_right _ List.mem_cons_self)
                      · intro hunf
                        refine ⟨hf, fun x hx => ?_⟩
                        rw [List.mem_append, List.mem_cons] at hx
                        rcases hx with hx | rfl | hx
                        · exact hcs x (heq ▸ List.mem_append_left _ hx)
                        · exact hunf
                        · exact hcs x (heq ▸ List.mem_append_right _ (List.mem_cons_of_mem _ hx))
                  | inr hmore =>
                      have hfilled := readAt_isFilled (by omega) hread (by omega)
                      have hsame := readAt_sameShape hchildTree hread
                      obtain ⟨x, hx, hxfilled⟩ := readComponents_filled htree
                        (map_blank_setChild htree.distinct hnext.found hsame) hmore.2
                        ⟨child', hset child' ▸ List.mem_append_right _ List.mem_cons_self, hfilled⟩
                      constructor
                      · intro hall
                        have hx' := ((marked_constructed.mp hall).2 x hx).isFilled
                        rw [hxfilled] at hx'
                        cases hx'
                      · intro hunf
                        rw [hunf.isFilled] at hfilled
                        cases hfilled

end BaseDatatype

end IPND

end Dtn2
