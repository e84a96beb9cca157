import Dtn2.Discovery.TypeTreeLeaves

/-!
# What reading leaves in a tree

One round of the loop over the components reads at most one child, and what holds of the components
while children are replaced holds at the end. Reading never changes the shape of a tree, and no
array in it gets longer than the buffer.
-/

namespace Dtn2

namespace IPND

open Framework

theorem bind_eq_ok {α β : Type} {x : Except Trap α} {f : α → Except Trap β} {b : β} :
    (x >>= f) = .ok b ↔ ∃ a, x = .ok a ∧ f a = .ok b := by
  cases x with
  | error e =>
      constructor
      · intro h
        cases h
      · rintro ⟨a, ha, -⟩
        cases ha
  | ok a =>
      constructor
      · intro h
        exact ⟨a, rfl, h⟩
      · rintro ⟨a', ha, h⟩
        cases ha
        exact h

namespace ConstructedType

theorem getChild_tag {cs : List BaseDatatype} {tag : UInt8} {child : BaseDatatype}
    (h : getChild cs tag = some child) : child.getTag = tag := by
  have hdecide := List.find?_some h
  exact of_decide_eq_true hdecide

theorem getChild_split {cs : List BaseDatatype} {tag : UInt8} {child : BaseDatatype}
    (hdistinct : (cs.map BaseDatatype.getTag).Nodup) (h : getChild cs tag = some child) :
    child.getTag = tag ∧ ∃ before after, cs = before ++ child :: after ∧
      ∀ c, setChild cs tag c = before ++ c :: after := by
  induction cs with
  | nil => cases h
  | cons c cs ih =>
      rw [List.map_cons, List.nodup_cons] at hdistinct
      rw [getChild, List.find?_cons] at h
      by_cases htag : c.getTag = tag
      · rw [decide_eq_true htag] at h
        cases h
        refine ⟨htag, [], cs, rfl, ?_⟩
        intro c'
        have hrest : cs.map (fun x => if x.getTag = tag then c' else x) = cs := by
          have hother : ∀ x ∈ cs, (if x.getTag = tag then c' else x) = id x := by
            intro x hx
            apply if_neg
            intro heq
            apply hdistinct.1
            rw [htag, ← heq]
            exact List.mem_map_of_mem hx
          rw [List.map_congr_left hother, List.map_id]
        rw [setChild, List.map_cons, if_pos htag, hrest]
        rfl
      · rw [decide_eq_false htag] at h
        obtain ⟨hchild, before, after, hcs, hset⟩ := ih hdistinct.2 h
        refine ⟨hchild, c :: before, after, congrArg (List.cons c) hcs, ?_⟩
        intro c'
        have hrest := hset c'
        rw [setChild] at hrest
        rw [setChild, List.map_cons, if_neg htag, hrest]
        rfl

theorem getChild_append {before after : List BaseDatatype} {child : BaseDatatype}
    (hdistinct : ((before ++ child :: after).map BaseDatatype.getTag).Nodup) :
    getChild (before ++ child :: after) child.getTag = some child := by
  rw [List.map_append, List.map_cons, List.nodup_append] at hdistinct
  obtain ⟨-, -, hother⟩ := hdistinct
  rw [getChild, List.find?_append, List.find?_cons, decide_eq_true rfl, Option.or_eq_some_iff]
  right
  refine ⟨?_, rfl⟩
  rw [List.find?_eq_none]
  intro c hc
  rw [decide_eq_true_eq]
  exact hother _ (List.mem_map_of_mem hc) _ List.mem_cons_self

structure Next (cs : List BaseDatatype) (ptr : Bytes) (remaining : Int) (structBytes expected : Nat)
    (child : BaseDatatype) : Prop where
  wanted : structBytes < expected
  room : 2 ≤ remaining
  starts : ptr.head? = some child.getTag
  found : getChild cs child.getTag = some child
  unfilled : child.isFilled = false

theorem readComponents_succ {left : Nat} {cs : List BaseDatatype} {ptr : Bytes} {remaining : Int}
    {structBytes expected : Nat} {o : Outcome}
    {read : BaseDatatype → Bytes → Nat → Except Trap (Int × BaseDatatype)}
    (h : readComponents read (left + 1) cs ptr remaining structBytes expected = .ok o) :
    (o.left = left + 1 ∧ o.components = cs ∧
      ∀ child, ¬ Next cs ptr remaining structBytes expected child) ∨
    ∃ child code child', Next cs ptr remaining structBytes expected child ∧
      read child ptr remaining.toNat = .ok (code, child') ∧
      (code < 2 ∧ o.left = left + 1 ∧ o.components = setChild cs child.getTag child' ∨
        2 ≤ code ∧ readComponents read left (setChild cs child.getTag child') (ptr.drop code.toNat)
          (remaining - code) (structBytes + code.toNat) expected = .ok o) := by
  unfold readComponents at h
  by_cases henough : expected ≤ structBytes
  · rw [if_pos henough] at h
    cases h
    exact Or.inl ⟨rfl, rfl, fun child hn => absurd hn.wanted (Nat.not_lt.mpr henough)⟩
  rw [if_neg henough] at h
  by_cases hremaining : remaining ≤ 0 ∨ remaining.toNat < 2
  · rw [if_pos hremaining] at h
    cases h
    refine Or.inl ⟨rfl, rfl, ?_⟩
    intro child hn
    have hroom := hn.room
    omega
  rw [if_neg hremaining] at h
  cases ptr with
  | nil => cases h
  | cons tag rest =>
      dsimp only at h
      have hhead : ∀ child, Next cs (tag :: rest) remaining structBytes expected child →
          child.getTag = tag := by
        intro child hn
        exact (Option.some.inj hn.starts).symm
      cases hchild : getChild cs tag with
      | none =>
          rw [hchild] at h
          cases h
          refine Or.inl ⟨rfl, rfl, ?_⟩
          intro child hn
          have hfound := hn.found
          rw [hhead child hn, hchild] at hfound
          cases hfound
      | some child =>
          rw [hchild] at h
          dsimp only at h
          have htag := getChild_tag hchild
          by_cases hfilled : child.isFilled = true
          · rw [if_pos hfilled] at h
            cases h
            refine Or.inl ⟨rfl, rfl, ?_⟩
            intro child' hn
            have hfound := hn.found
            have hunfilled := hn.unfilled
            rw [hhead child' hn, hchild] at hfound
            cases hfound
            rw [hfilled] at hunfilled
            cases hunfilled
          · rw [if_neg hfilled, bind_eq_ok] at h
            obtain ⟨r, hread, h⟩ := h
            right
            refine ⟨child, r.1, r.2, ?_, hread, ?_⟩
            · exact ⟨by omega, by omega, congrArg some htag.symm, htag ▸ hchild,
                Bool.eq_false_iff.mpr hfilled⟩
            rw [htag]
            by_cases hneg : r.1 < 0
            · rw [if_pos hneg] at h
              cases h
              exact Or.inl ⟨by omega, rfl, rfl⟩
            rw [if_neg hneg] at h
            by_cases hshort : r.1 < 2
            · rw [if_pos hshort] at h
              cases h
              exact Or.inl ⟨hshort, rfl, rfl⟩
            rw [if_neg hshort] at h
            exact Or.inr ⟨by omega, h⟩

theorem readComponents_invariant {I : List BaseDatatype → Prop} {N : Nat}
    {read : BaseDatatype → Bytes → Nat → Except Trap (Int × BaseDatatype)}
    (hstep : ∀ cs child buf n code child', I cs → child.isFilled = false →
      getChild cs child.getTag = some child → buf.length ≤ N →
      read child buf n = .ok (code, child') → I (setChild cs child.getTag child'))
    {left : Nat} {cs : List BaseDatatype} {ptr : Bytes} {remaining : Int}
    {structBytes expected : Nat} {o : Outcome}
    (h : readComponents read left cs ptr remaining structBytes expected = .ok o)
    (hcs : I cs) (hptr : ptr.length ≤ N) : I o.components := by
  induction left generalizing cs ptr remaining structBytes with
  | zero =>
      cases h
      exact hcs
  | succ left ih =>
      cases readComponents_succ h with
      | inl hstop =>
          rw [hstop.2.1]
          exact hcs
      | inr hread =>
          obtain ⟨child, code, child', hnext, hread, hend⟩ := hread
          have hset := hstep cs child ptr _ code child' hcs hnext.unfilled hnext.found hptr hread
          cases hend with
          | inl hstop =>
              rw [hstop.2.2]
              exact hset
          | inr hmore =>
              apply ih hmore.2 hset
              rw [List.length_drop]
              omega

end ConstructedType

/-! ## Reading keeps the shape -/

namespace Primitives

theorem readFixed_ok {len : Nat} {buf : Bytes} {value : Nat → Primitives} {code : Int}
    {q : Primitives} (h : readFixed len buf value = .ok (code, q)) :
    code = len ∧ ∃ n, q = value n := by
  rw [readFixed] at h
  by_cases hshort : buf.length < len
  · rw [if_pos hshort] at h
    cases h
  · rw [if_neg hshort] at h
    cases h
    exact ⟨rfl, _, rfl⟩

theorem readArray_ok {p : Primitives} {buf : Bytes} {n : Nat} {copied : UInt64 → Nat}
    {value : UInt64 → Bytes → Primitives} {code : Int} {q : Primitives}
    (h : readArray p buf n copied value = .ok (code, q)) :
    (q = p ∧ ((readSdnv buf n = .ok (.error code)) ∨ code = errLength ∧
      ∃ num len, readSdnv buf n = .ok (.ok (num, len)) ∧ n - num < len.toNat % 2 ^ 32)) ∨
    ∃ num len, readSdnv buf n = .ok (.ok (num, len)) ∧ len.toNat % 2 ^ 32 ≤ n - num ∧
      code = toInt (num + len.toNat) ∧ q = value len (buf.drop num) := by
  rw [readArray, bind_eq_ok] at h
  obtain ⟨r, hr, h⟩ := h
  cases r with
  | error e =>
      cases h
      exact Or.inl ⟨rfl, Or.inl hr⟩
  | ok r =>
      dsimp only at h
      by_cases hlen : n - r.1 < r.2.toNat % 2 ^ 32
      · rw [if_pos hlen] at h
        cases h
        exact Or.inl ⟨rfl, Or.inr ⟨rfl, r.1, r.2, hr, hlen⟩⟩
      · rw [if_neg hlen] at h
        by_cases hshort : (buf.drop r.1).length < copied r.2
        · rw [if_pos hshort] at h
          cases h
        · rw [if_neg hshort] at h
          obtain ⟨hcode, hvalue⟩ := Prod.mk.inj (Except.ok.inj h)
          exact Or.inr ⟨r.1, r.2, hr, Nat.le_of_not_lt hlen, hcode.symm, hvalue.symm⟩

theorem readRawContent_blank {p q : Primitives} {buf : Bytes} {n : Nat} {code : Int}
    (h : p.readRawContent buf n = .ok (code, q)) : q.blank = p.blank := by
  cases p with
  | boolean val =>
      cases buf with
      | nil => cases h
      | cons b buf =>
          cases h
          rfl
  | uint64 val | sint64 val =>
      rw [readRawContent, bind_eq_ok] at h
      obtain ⟨r, -, h⟩ := h
      cases r <;> cases h <;> rfl
  | string val | bytes val =>
      rw [readRawContent] at h
      cases readArray_ok h with
      | inl hp => rw [hp.1]
      | inr hq =>
          obtain ⟨num, len, -, -, -, hq⟩ := hq
          rw [hq]
          rfl
  | _ =>
      rw [readRawContent] at h
      obtain ⟨-, n, hq⟩ := readFixed_ok h
      rw [hq]
      rfl

theorem readRawContent_bounded {p q : Primitives} {buf : Bytes} {n N : Nat} {code : Int}
    (h : p.readRawContent buf n = .ok (code, q)) (hbuf : buf.length ≤ N) (hp : p.array.length ≤ N) :
    q.array.length ≤ N := by
  have hvalue : ∀ (len : UInt64) (num k : Nat),
      (arrayValue len ((buf.drop num).take k)).length ≤ N := by
    intro len num k
    have htake := List.length_take_le' k (buf.drop num)
    rw [List.length_drop] at htake
    unfold arrayValue
    split
    · exact Nat.zero_le _
    · omega
  have hblank := readRawContent_blank h
  cases p with
  | string val | bytes val =>
      rw [readRawContent] at h
      cases readArray_ok h with
      | inl hsame =>
          rw [hsame.1]
          exact hp
      | inr hq =>
          obtain ⟨num, len, -, -, -, hq⟩ := hq
          rw [hq]
          exact hvalue len num _
  | _ =>
      cases q <;> cases hblank
      exact Nat.zero_le _

end Primitives

namespace BaseDatatype

theorem map_blank_setChild {cs : List BaseDatatype} {child child' : BaseDatatype}
    (hdistinct : (cs.map getTag).Nodup)
    (hchild : ConstructedType.getChild cs child.getTag = some child) (h : child'.SameShape child) :
    (ConstructedType.setChild cs child.getTag child').map blank = cs.map blank := by
  obtain ⟨-, before, after, hcs, hset⟩ := ConstructedType.getChild_split hdistinct hchild
  rw [hset child', hcs, List.map_append, List.map_append, List.map_cons, List.map_cons, h]

theorem finish_tree (tag : UInt8) (filled : Bool) (h : ConstructedType.Header)
    (o : ConstructedType.Outcome) :
    ∃ g, (ConstructedType.finish tag filled h o).2 = .constructed tag o.components g ∧
      (o.left ≠ 0 → g = filled) := by
  unfold ConstructedType.finish
  by_cases hcode : o.code < 0
  · rw [if_pos hcode]
    exact ⟨filled, rfl, fun _ => rfl⟩
  rw [if_neg hcode]
  by_cases hbytes : o.structBytes ≠ h.expected
  · rw [if_pos hbytes]
    exact ⟨filled, rfl, fun _ => rfl⟩
  rw [if_neg hbytes]
  by_cases hleft : o.left ≠ 0
  · rw [if_pos hleft]
    exact ⟨filled, rfl, fun _ => rfl⟩
  · rw [if_neg hleft]
    exact ⟨true, rfl, fun h => absurd h hleft⟩

theorem primitive_read_ok {value : Primitives} {filled : Bool} {buf : Bytes} {n : Nat} {code : Int}
    {t' : BaseDatatype} (h : PrimitiveType.read value filled buf n = .ok (code, t')) :
    (code < 0 ∧ t' = .primitive value filled ∧
      (n < value.getMinLength ∨ buf.head? ≠ some value.getTag)) ∨
    ∃ ptr r, buf = value.getTag :: ptr ∧ value.getMinLength ≤ n ∧
      value.readRawContent ptr (n - 1) = .ok r ∧
      (r.1 < 0 ∧ code = r.1 ∧ t' = .primitive r.2 filled ∨
        0 ≤ r.1 ∧ code = 1 + r.1 ∧ t' = .primitive r.2 true) := by
  unfold PrimitiveType.read at h
  by_cases hmin : n < value.getMinLength
  · rw [if_pos hmin] at h
    cases h
    exact Or.inl ⟨by decide, rfl, Or.inl hmin⟩
  rw [if_neg hmin] at h
  cases buf with
  | nil => cases h
  | cons tag ptr =>
      dsimp only at h
      by_cases htag : tag ≠ value.getTag
      · rw [if_pos htag] at h
        cases h
        exact Or.inl ⟨by decide, rfl, Or.inr fun heq => htag (Option.some.inj heq)⟩
      rw [if_neg htag, bind_eq_ok] at h
      obtain ⟨r, hr, h⟩ := h
      right
      refine ⟨ptr, r, by rw [not_not.mp htag], Nat.le_of_not_lt hmin, hr, ?_⟩
      by_cases hneg : r.1 < 0
      · rw [if_pos hneg] at h
        cases h
        exact Or.inl ⟨hneg, rfl, rfl⟩
      · rw [if_neg hneg] at h
        cases h
        exact Or.inr ⟨Int.not_lt.mp hneg, rfl, rfl⟩

theorem constructed_read_ok {depth : Nat} {tag : UInt8} {cs : List BaseDatatype} {f : Bool}
    {buf : Bytes} {n : Nat} {code : Int} {t' : BaseDatatype}
    (h : readAt (depth + 1) (.constructed tag cs f) buf n = .ok (code, t')) :
    (ConstructedType.readHeader tag buf n = .ok (.error code) ∧ t' = .constructed tag cs f) ∨
    ∃ h o, ConstructedType.readHeader tag buf n = .ok (.ok h) ∧
      ConstructedType.readComponents (readAt depth) cs.length cs h.ptr h.remaining 0 h.expected =
        .ok o ∧
      code = (ConstructedType.finish tag f h o).1 ∧ t' = (ConstructedType.finish tag f h o).2 := by
  rw [readAt, bind_eq_ok] at h
  obtain ⟨r, hr, h⟩ := h
  cases r with
  | error e =>
      cases h
      exact Or.inl ⟨hr, rfl⟩
  | ok hd =>
      rw [bind_eq_ok] at h
      obtain ⟨o, ho, h⟩ := h
      have hend : ConstructedType.finish tag f hd o = (code, t') := Except.ok.inj h
      exact Or.inr ⟨hd, o, hr, ho, by rw [hend], by rw [hend]⟩

theorem primitive_sameShape {value : Primitives} {filled : Bool} {buf : Bytes} {n : Nat}
    {code : Int} {t' : BaseDatatype} (h : PrimitiveType.read value filled buf n = .ok (code, t')) :
    t'.SameShape (.primitive value filled) := by
  cases primitive_read_ok h with
  | inl hsame =>
      rw [hsame.2.1]
      rfl
  | inr hread =>
      obtain ⟨ptr, r, -, -, hr, hend⟩ := hread
      have hblank := Primitives.readRawContent_blank hr
      cases hend with
      | inl hfail => rw [hfail.2.2, SameShape, blank, blank, hblank]
      | inr hgood => rw [hgood.2.2, SameShape, blank, blank, hblank]

theorem readAt_sameShape {depth : Nat} {t t' : BaseDatatype} {buf : Bytes} {n : Nat} {code : Int}
    (ht : t.Tree) (h : readAt depth t buf n = .ok (code, t')) : t'.SameShape t := by
  induction depth generalizing t t' buf n code with
  | zero =>
      cases t with
      | primitive value filled => exact primitive_sameShape h
      | constructed tag cs f =>
          cases h
          rfl
  | succ depth ih =>
      cases t with
      | primitive value filled => exact primitive_sameShape h
      | constructed tag cs f =>
          cases constructed_read_ok h with
          | inl hsame =>
              rw [hsame.2]
              rfl
          | inr hread =>
              obtain ⟨hd, o, -, ho, -, hfinish⟩ := hread
              obtain ⟨g, hg, -⟩ := finish_tree tag f hd o
              have hmap : o.components.map blank = cs.map blank := by
                apply ConstructedType.readComponents_invariant
                  (I := fun us => us.map blank = cs.map blank) ?_ ho rfl (Nat.le_refl _)
                intro us child buf n code child' hus _ hchild _ hread
                have hdistinct := ht.distinct
                rw [← map_getTag hus] at hdistinct
                obtain ⟨c, hc, hsame⟩ := sameShape_of_mem hus (List.mem_of_find?_eq_some hchild)
                have hchildTree : child.Tree := by
                  cases ht with
                  | constructed _ _ _ _ children => exact (children c hc).same hsame
                rw [map_blank_setChild hdistinct hchild (ih hchildTree hread), hus]
              rw [hfinish, hg]
              exact sameShape_of_map hmap

end BaseDatatype

theorem readSdnv_error {buf : Bytes} {n : Nat} {code : Int}
    (h : readSdnv buf n = .ok (.error code)) : code < 0 := by
  rw [readSdnv] at h
  by_cases hn : n < 1
  · rw [if_pos hn] at h
    cases h
    decide
  · rw [if_neg hn, bind_eq_ok] at h
    obtain ⟨r, -, h⟩ := h
    cases r with
    | none =>
        cases h
        decide
    | some sdnv =>
        dsimp only at h
        cases hdecode : SDNV.decode sdnv with
        | mk ret value =>
            rw [hdecode] at h
            cases ret with
            | none =>
                cases h
                decide
            | some dLen =>
                by_cases hlen : dLen = sdnv.length
                · simp only [if_pos hlen] at h
                  cases h
                · simp only [if_neg hlen] at h
                  cases h
                  decide

namespace ConstructedType

theorem readHeader_error {tag : UInt8} {buf : Bytes} {n : Nat} {code : Int}
    (h : readHeader tag buf n = .ok (.error code)) : code < 0 := by
  unfold readHeader at h
  by_cases hmin : n < 4
  · rw [if_pos hmin] at h
    cases h
    decide
  rw [if_neg hmin] at h
  cases buf with
  | nil => cases h
  | cons b ptr =>
      dsimp only at h
      by_cases htag : b ≠ tag
      · rw [if_pos htag] at h
        cases h
        decide
      rw [if_neg htag] at h
      by_cases hroom : toInt n - 1 ≤ 0 ∨ (toInt n - 1).toNat < 3
      · rw [if_pos hroom] at h
        cases h
        decide
      rw [if_neg hroom, bind_eq_ok] at h
      obtain ⟨r, hr, h⟩ := h
      cases r with
      | error e =>
          cases h
          exact readSdnv_error hr
      | ok x =>
          have hend := Except.ok.inj h
          by_cases hshort : toInt n - 1 - x.1 ≤ 0 ∨ (toInt n - 1 - x.1).toNat < x.2.toNat % 2 ^ 32
          · rw [if_pos hshort] at hend
            rw [← Except.error.inj hend]
            decide
          · rw [if_neg hshort] at hend
            cases hend

theorem readHeader_ok {tag : UInt8} {buf : Bytes} {n : Nat} {h : Header}
    (hread : readHeader tag buf n = .ok (.ok h)) : h.ptr.length ≤ buf.length ∧ 1 < toInt n := by
  unfold readHeader at hread
  by_cases hmin : n < 4
  · rw [if_pos hmin] at hread
    cases hread
  rw [if_neg hmin] at hread
  cases buf with
  | nil => cases hread
  | cons b ptr =>
      dsimp only at hread
      by_cases htag : b ≠ tag
      · rw [if_pos htag] at hread
        cases hread
      rw [if_neg htag] at hread
      by_cases hroom : toInt n - 1 ≤ 0 ∨ (toInt n - 1).toNat < 3
      · rw [if_pos hroom] at hread
        cases hread
      rw [if_neg hroom, bind_eq_ok] at hread
      obtain ⟨r, hr, hread⟩ := hread
      cases r with
      | error e => cases hread
      | ok x =>
          have hend := Except.ok.inj hread
          by_cases hshort : toInt n - 1 - x.1 ≤ 0 ∨ (toInt n - 1 - x.1).toNat < x.2.toNat % 2 ^ 32
          · rw [if_pos hshort] at hend
            cases hend
          · rw [if_neg hshort] at hend
            rw [← Except.ok.inj hend]
            constructor
            · rw [List.length_drop, List.length_cons]
              omega
            · omega

theorem finish_code (tag : UInt8) (filled : Bool) (h : Header) (o : Outcome)
    (hcode : 0 ≤ (finish tag filled h o).1) :
    (finish tag filled h o).2 = .constructed tag o.components true := by
  unfold finish at hcode ⊢
  by_cases hneg : o.code < 0
  · rw [if_pos hneg] at hcode
    exact absurd hneg (Int.not_lt.mpr hcode)
  rw [if_neg hneg] at hcode ⊢
  by_cases hbytes : o.structBytes ≠ h.expected
  · rw [if_pos hbytes] at hcode
    have hlength : ¬ (0 : Int) ≤ errLength := by decide
    exact absurd hcode hlength
  rw [if_neg hbytes] at hcode ⊢
  by_cases hleft : o.left ≠ 0
  · rw [if_pos hleft] at hcode
    have hprocessing : ¬ (0 : Int) ≤ errProcessing := by decide
    exact absurd hcode hprocessing
  · rw [if_neg hleft]

end ConstructedType

namespace BaseDatatype

/-! ## The arrays that were read -/

theorem primitive_bounded {value : Primitives} {filled : Bool} {buf : Bytes} {n N : Nat}
    {code : Int} {t' : BaseDatatype} (h : PrimitiveType.read value filled buf n = .ok (code, t'))
    (hbuf : buf.length ≤ N) (hvalue : value.array.length ≤ N) :
    ∀ v ∈ t'.leaves, v.array.length ≤ N := by
  intro v hv
  cases primitive_read_ok h with
  | inl hsame =>
      rw [hsame.2.1] at hv
      rw [List.mem_singleton.mp hv]
      exact hvalue
  | inr hread =>
      obtain ⟨ptr, r, hptr, -, hr, hend⟩ := hread
      have hlen := congrArg List.length hptr
      rw [List.length_cons] at hlen
      have hbound := Primitives.readRawContent_bounded hr (by omega) hvalue
      cases hend with
      | inl hfail =>
          rw [hfail.2.2] at hv
          rw [List.mem_singleton.mp hv]
          exact hbound
      | inr hgood =>
          rw [hgood.2.2] at hv
          rw [List.mem_singleton.mp hv]
          exact hbound

theorem readAt_bounded {depth : Nat} {t t' : BaseDatatype} {buf : Bytes} {n N : Nat} {code : Int}
    (h : readAt depth t buf n = .ok (code, t')) (hbuf : buf.length ≤ N)
    (ht : ∀ value ∈ t.leaves, value.array.length ≤ N) :
    ∀ value ∈ t'.leaves, value.array.length ≤ N := by
  induction depth generalizing t t' buf n code with
  | zero =>
      cases t with
      | primitive value filled =>
          exact primitive_bounded h hbuf (ht value (List.mem_singleton.mpr rfl))
      | constructed tag cs f =>
          cases h
          exact ht
  | succ depth ih =>
      cases t with
      | primitive value filled =>
          exact primitive_bounded h hbuf (ht value (List.mem_singleton.mpr rfl))
      | constructed tag cs f =>
          cases constructed_read_ok h with
          | inl hsame =>
              rw [hsame.2]
              exact ht
          | inr hread =>
              obtain ⟨hd, o, hheader, ho, -, hfinish⟩ := hread
              obtain ⟨g, hg, -⟩ := finish_tree tag f hd o
              have hptr := (ConstructedType.readHeader_ok hheader).1
              have hcs : ∀ c ∈ cs, ∀ v ∈ c.leaves, v.array.length ≤ N := by
                intro c hc v hv
                exact ht v (ConstructedType.mem_leaves.mpr ⟨c, hc, hv⟩)
              have hall : ∀ c ∈ o.components, ∀ v ∈ c.leaves, v.array.length ≤ N := by
                apply ConstructedType.readComponents_invariant
                  (I := fun us => ∀ c ∈ us, ∀ v ∈ c.leaves, v.array.length ≤ N) ?_ ho hcs
                  (Nat.le_trans hptr hbuf)
                intro us child ptr m code child' hus _ hchild hlen hread x hx
                obtain ⟨c, hc, heq⟩ := List.mem_map.mp hx
                by_cases htag : c.getTag = child.getTag
                · rw [if_pos htag] at heq
                  rw [← heq]
                  exact ih hread hlen (hus child (List.mem_of_find?_eq_some hchild))
                · rw [if_neg htag] at heq
                  rw [← heq]
                  exact hus c hc
              rw [hfinish, hg]
              intro v hv
              obtain ⟨c, hc, hv⟩ := ConstructedType.mem_leaves.mp hv
              exact hall c hc v hv

end BaseDatatype

end IPND

end Dtn2
