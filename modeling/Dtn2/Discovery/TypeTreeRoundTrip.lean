import Dtn2.Discovery.TypeTreeFailure

/-!
# Trees of types come back

What a tree writes is read back by every tree of the same shape that was not read yet, whatever
follows. The exceptions are a string or an array of a single zero byte, which is written as the
empty one is, and what does not fit the `int` lengths.
-/

namespace Dtn2

namespace IPND

open Framework

namespace BaseDatatype

/-- The tree writes itself into a buffer of `getLength()` bytes, and an unfilled tree of the same
shape reads the values from these bytes with `tail` behind them. -/
def RoundTrips (t : BaseDatatype) (tail : Bytes) : Prop :=
  ∃ bytes, t.write t.getLength = .ok (.ok bytes) ∧ toInt bytes.length = t.getLength ∧
    ∀ u : BaseDatatype, u.SameShape t → u.Unfilled →
      ∃ u', u.read (bytes ++ tail) (bytes ++ tail).length = .ok ((t.getLength : Int), u') ∧
        u'.leaves = t.leaves

/-- The bytes that have to fit an `int`: a constructed type looks at the whole buffer. -/
def intLength (t : BaseDatatype) (tail : Bytes) : Nat :=
  match t with
  | primitive _ _ => t.encoded.length
  | constructed _ _ _ => t.encoded.length + tail.length

/-- No leaf is a single zero byte, and the lengths fit. -/
def Survives (t : BaseDatatype) (tail : Bytes) : Prop :=
  (∀ value ∈ t.leaves, ¬ value.LoneZero) ∧ t.intLength tail < 2 ^ 31

end BaseDatatype

/-! ## The encoding of a tree -/

theorem structureOf_length (tag : UInt8) (body : Bytes) :
    (structureOf tag body).length =
      1 + (SDNV.encoded (UInt64.ofNat body.length)).length + body.length := by
  rw [structureOf, List.length_cons, List.length_append]
  omega

theorem ConstructedType.getComponentsLength_eq {cs : List BaseDatatype}
    (hlengths : ∀ c ∈ cs, c.encoded.length < 2 ^ 31 → c.getLength = c.encoded.length)
    (h : (ConstructedType.encoded cs).length < 2 ^ 31) :
    getComponentsLength cs = (ConstructedType.encoded cs).length := by
  induction cs with
  | nil => rfl
  | cons c cs ih =>
      rw [ConstructedType.encoded, List.length_append] at h ⊢
      rw [List.forall_mem_cons] at hlengths
      rw [getComponentsLength, hlengths.1 (by omega), ih hlengths.2 (by omega),
        Nat.mod_eq_of_lt (by omega)]

namespace BaseDatatype

theorem two_le_encoded (t : BaseDatatype) : 2 ≤ t.encoded.length := by
  cases t with
  | primitive value filled =>
      have hpos := value.encoded_pos
      rw [encoded, List.length_cons]
      omega
  | constructed tag cs f =>
      have hpos := encoded_length_pos (UInt64.ofNat (ConstructedType.encoded cs).length)
      rw [encoded, structureOf_length]
      omega

theorem encoded_head (t : BaseDatatype) : ∃ rest, t.encoded = t.getTag :: rest := by
  cases t with
  | primitive value filled => exact ⟨value.encoded, rfl⟩
  | constructed tag cs f => exact ⟨_, rfl⟩

theorem getLength_eq {t : BaseDatatype} (h : t.encoded.length < 2 ^ 31) :
    t.getLength = t.encoded.length := by
  induction t using BaseDatatype.inductOn with
  | primitive value filled =>
      rw [encoded, List.length_cons] at h ⊢
      rw [getLength, Primitives.getRawContent_eq (by omega), Nat.mod_eq_of_lt (by omega)]
      omega
  | constructed tag cs f ih =>
      rw [encoded, structureOf_length] at h ⊢
      have hlen := SDNV.encoded_length_le (UInt64.ofNat (ConstructedType.encoded cs).length)
      rw [getLength, ConstructedType.getComponentsLength_eq ih (by omega), SDNV.encodingLen_eq,
        Nat.mod_eq_of_lt (by omega)]

end BaseDatatype

/-! ## Writing -/

theorem PrimitiveType.write_ok {value : Primitives} {len n : Nat} {bytes : Bytes}
    (h : PrimitiveType.write value len n = .ok (.ok bytes)) :
    bytes = value.getTag :: value.getRawContent ∧ 1 + value.getRawContent.length ≤ n := by
  rw [PrimitiveType.write] at h
  by_cases hlen : n < len
  · rw [if_pos hlen] at h
    cases h
  rw [if_neg hlen] at h
  by_cases hroom : n < 1 + value.getRawContent.length
  · rw [if_pos hroom] at h
    cases h
  · rw [if_neg hroom] at h
    cases h
    exact ⟨rfl, Nat.le_of_not_lt hroom⟩

theorem toInt_emod (n : Nat) : toInt n % 2 ^ 32 = (n : Int) % 2 ^ 32 := by
  have hmod := Int.bmod_emod (x := (n : Int)) (m := 2 ^ 32)
  exact hmod

theorem toInt_le (n : Nat) : toInt n ≤ n := by
  have hmod := toInt_emod n
  have hlt : toInt n < 2 ^ 31 := Int.bmod_lt (x := (n : Int)) (m := 2 ^ 32) (by decide)
  omega

theorem toInt_pred_mod {n : Nat} (h : 0 < n) : ((toInt n - 1) % 2 ^ 32).toNat ≤ n - 1 := by
  have hmod := toInt_emod n
  omega

theorem ConstructedType.write_ok {tag : UInt8} {len compLen n : Nat}
    {components : Int → Except Trap (Except Int Bytes)} {bytes : Bytes}
    (h : ConstructedType.write tag len compLen n components = .ok (.ok bytes)) :
    ∃ body, bytes = structureOf tag body ∧
      1 + (SDNV.encoded (UInt64.ofNat body.length)).length ≤ n ∧
      components (toInt n - 1 - (SDNV.encoded (UInt64.ofNat body.length)).length) =
        .ok (.ok body) := by
  unfold ConstructedType.write at h
  by_cases hlen : n < len
  · rw [if_pos hlen] at h
    cases h
  rw [if_neg hlen] at h
  by_cases hempty : n < 1
  · rw [if_pos hempty] at h
    cases h
  rw [if_neg hempty] at h
  dsimp only at h
  cases hnumber : SDNV.encode (UInt64.ofNat compLen) ((toInt n - 1) % 2 ^ 32).toNat with
  | none =>
      rw [hnumber] at h
      cases h
  | some number =>
      rw [hnumber] at h
      dsimp only at h
      by_cases hcheck : number.length ≠ SDNV.encodingLen (UInt64.ofNat compLen)
      · rw [if_pos hcheck] at h
        cases h
      rw [if_neg hcheck, bind_eq_ok] at h
      obtain ⟨r, hr, h⟩ := h
      cases r with
      | error e => cases h
      | ok body =>
          have hend := Except.ok.inj h
          by_cases hbody : body.length ≠ compLen
          · rw [if_pos hbody] at hend
            cases hend
          · rw [if_neg hbody] at hend
            rw [SDNV.encode] at hnumber
            by_cases hroom : ((toInt n - 1) % 2 ^ 32).toNat <
                (SDNV.encoded (UInt64.ofNat compLen)).length
            · rw [if_pos hroom] at hnumber
              cases hnumber
            rw [if_neg hroom] at hnumber
            have hmod : ((toInt n - 1) % 2 ^ 32).toNat ≤ n - 1 := toInt_pred_mod (by omega)
            refine ⟨body, ?_, ?_, ?_⟩
            · rw [structureOf, not_not.mp hbody, Option.some.inj hnumber]
              exact (Except.ok.inj hend).symm
            · rw [not_not.mp hbody]
              omega
            · rw [not_not.mp hbody, Option.some.inj hnumber]
              exact hr

theorem ConstructedType.writeComponents_ok {c : BaseDatatype} {cs : List BaseDatatype}
    {remaining : Int} {structBytes compLen : Nat} {body : Bytes}
    (h : writeComponents (c :: cs) remaining structBytes compLen = .ok (.ok body)) :
    ∃ bytes rest, c.write remaining.toNat = .ok (.ok bytes) ∧
      writeComponents cs (remaining - bytes.length) (structBytes + bytes.length) compLen =
        .ok (.ok rest) ∧ body = bytes ++ rest := by
  rw [writeComponents] at h
  by_cases hroom : remaining ≤ 0 ∨ compLen ≤ structBytes
  · rw [if_pos hroom] at h
    cases h
  rw [if_neg hroom, bind_eq_ok] at h
  obtain ⟨r, hr, h⟩ := h
  cases r with
  | error e => cases h
  | ok bytes =>
      dsimp only at h
      by_cases hshort : bytes.length < 2
      · rw [if_pos hshort] at h
        cases h
      rw [if_neg hshort, bind_eq_ok] at h
      obtain ⟨r, hrest, h⟩ := h
      cases r with
      | error e => cases h
      | ok rest =>
          cases h
          exact ⟨bytes, rest, hr, hrest, rfl⟩

theorem ConstructedType.writeComponents_length {cs : List BaseDatatype}
    (hlengths : ∀ c ∈ cs, ∀ n bytes, c.write n = .ok (.ok bytes) → bytes.length ≤ n)
    {remaining : Int} {structBytes compLen : Nat} {body : Bytes}
    (h : writeComponents cs remaining structBytes compLen = .ok (.ok body)) :
    body.length ≤ remaining.toNat := by
  induction cs generalizing remaining structBytes body with
  | nil =>
      cases h
      exact Nat.zero_le _
  | cons c cs ih =>
      rw [List.forall_mem_cons] at hlengths
      obtain ⟨bytes, rest, hc, hrest, heq⟩ := ConstructedType.writeComponents_ok h
      have hbytes := hlengths.1 _ _ hc
      have hbehind := ih hlengths.2 hrest
      rw [heq, List.length_append]
      omega

theorem BaseDatatype.write_eq_encoded {t : BaseDatatype}
    (hleaves : ∀ value ∈ t.leaves, value.getRawContent = value.encoded) {n : Nat} {bytes : Bytes}
    (h : t.write n = .ok (.ok bytes)) : bytes = t.encoded := by
  induction t using BaseDatatype.inductOn generalizing n bytes with
  | primitive value filled =>
      rw [BaseDatatype.write] at h
      rw [(PrimitiveType.write_ok h).1, hleaves value (List.mem_singleton.mpr rfl)]
      rfl
  | constructed tag cs f ih =>
      have hall : ∀ c ∈ cs, ∀ n bytes, c.write n = .ok (.ok bytes) → bytes = c.encoded := by
        intro c hc n bytes hwrite
        apply ih c hc _ hwrite
        intro value hv
        exact hleaves value (ConstructedType.mem_leaves.mpr ⟨c, hc, hv⟩)
      rw [BaseDatatype.write] at h
      obtain ⟨body, hbytes, -, hbody⟩ := ConstructedType.write_ok h
      have hcomponents : ∀ (compLen : Nat) (cs : List BaseDatatype) (remaining : Int)
          (structBytes : Nat) (body : Bytes),
          (∀ c ∈ cs, ∀ n bytes, c.write n = .ok (.ok bytes) → bytes = c.encoded) →
          ConstructedType.writeComponents cs remaining structBytes compLen = .ok (.ok body) →
          body = ConstructedType.encoded cs := by
        intro compLen cs
        induction cs with
        | nil =>
            intro remaining structBytes body _ hw
            cases hw
            rfl
        | cons c cs ihcs =>
            intro remaining structBytes body hcs hw
            rw [List.forall_mem_cons] at hcs
            obtain ⟨b, rest, hc, hrest, heq⟩ := ConstructedType.writeComponents_ok hw
            rw [heq, ConstructedType.encoded, hcs.1 _ _ hc, ihcs _ _ _ hcs.2 hrest]
      rw [hbytes, BaseDatatype.encoded, hcomponents _ _ _ _ _ hall hbody]

theorem BaseDatatype.write_length {t : BaseDatatype} {n : Nat} {bytes : Bytes}
    (h : t.write n = .ok (.ok bytes)) : bytes.length ≤ n := by
  induction t using BaseDatatype.inductOn generalizing n bytes with
  | primitive value filled =>
      rw [BaseDatatype.write] at h
      obtain ⟨hbytes, hroom⟩ := PrimitiveType.write_ok h
      rw [hbytes, List.length_cons]
      omega
  | constructed tag cs f ih =>
      rw [BaseDatatype.write] at h
      obtain ⟨body, hbytes, hroom, hbody⟩ := ConstructedType.write_ok h
      have hle := toInt_le n
      have hlength := ConstructedType.writeComponents_length (fun c hc _ _ => ih c hc) hbody
      rw [hbytes, structureOf_length]
      omega

theorem ConstructedType.writeComponents_encoded {cs : List BaseDatatype}
    (hwrite : ∀ c ∈ cs, ∀ n, c.encoded.length ≤ n → n < 2 ^ 31 → c.write n = .ok (.ok c.encoded))
    {remaining structBytes compLen : Nat} (hremaining : (encoded cs).length ≤ remaining)
    (hsize : remaining < 2 ^ 31) (hlen : compLen = structBytes + (encoded cs).length) :
    writeComponents cs remaining structBytes compLen = .ok (.ok (encoded cs)) := by
  induction cs generalizing remaining structBytes with
  | nil => rfl
  | cons c cs ih =>
      have htwo := c.two_le_encoded
      rw [encoded, List.length_append] at hremaining hlen
      rw [List.forall_mem_cons] at hwrite
      have hrest : (remaining : Int) - c.encoded.length =
          ((remaining - c.encoded.length : Nat) : Int) := by
        omega
      rw [writeComponents, if_neg (by omega), Int.toNat_natCast,
        hwrite.1 remaining (by omega) hsize, ok_bind]
      dsimp only
      rw [if_neg (by omega), hrest, ih hwrite.2 (by omega) (by omega) (by omega), ok_bind, encoded]

theorem ConstructedType.write_structure {tag : UInt8} {len n : Nat} {body : Bytes}
    {components : Int → Except Trap (Except Int Bytes)} (hlen : len ≤ n)
    (hfits : 1 + (SDNV.encoded (UInt64.ofNat body.length)).length + body.length ≤ n)
    (hn : n < 2 ^ 31)
    (hcomponents : components
      ((n - 1 - (SDNV.encoded (UInt64.ofNat body.length)).length : Nat) : Int) = .ok (.ok body)) :
    ConstructedType.write tag len body.length n components = .ok (.ok (structureOf tag body)) := by
  have hremaining : toInt n - 1 = ((n - 1 : Nat) : Int) := by
    rw [toInt_of_lt hn]
    omega
  have hroom : (((n - 1 : Nat) : Int) % 2 ^ 32).toNat = n - 1 := by omega
  have hrest : ((n - 1 : Nat) : Int) - (SDNV.encoded (UInt64.ofNat body.length)).length =
      ((n - 1 - (SDNV.encoded (UInt64.ofNat body.length)).length : Nat) : Int) := by omega
  rw [ConstructedType.write, if_neg (by omega), if_neg (by omega)]
  simp only [hremaining, hroom]
  rw [SDNV.encode, if_neg (by omega)]
  simp only [SDNV.encodingLen_eq, ne_eq, not_true_eq_false, if_false, hrest, hcomponents, ok_bind]
  rfl

theorem BaseDatatype.write_encoded {t : BaseDatatype} {n : Nat} (h : t.encoded.length ≤ n)
    (hn : n < 2 ^ 31) : t.write n = .ok (.ok t.encoded) := by
  have hlength := BaseDatatype.getLength_eq (Nat.lt_of_le_of_lt h hn)
  induction t using BaseDatatype.inductOn generalizing n with
  | primitive value filled =>
      rw [encoded, List.length_cons] at h hlength
      have hcontent : value.getRawContent = value.encoded :=
        Primitives.getRawContent_eq (by omega)
      rw [BaseDatatype.write, PrimitiveType.write, hlength, hcontent, if_neg (by omega),
        if_neg (by omega)]
      rfl
  | constructed tag cs f ih =>
      have hwrite : ∀ c ∈ cs, ∀ n, c.encoded.length ≤ n → n < 2 ^ 31 →
          c.write n = .ok (.ok c.encoded) := by
        intro c hc n hle hlt
        exact ih c hc hle hlt (getLength_eq (Nat.lt_of_le_of_lt hle hlt))
      rw [encoded, structureOf_length] at h hlength
      have hcompLen : ConstructedType.getComponentsLength cs =
          (ConstructedType.encoded cs).length :=
        ConstructedType.getComponentsLength_eq (fun c _ => getLength_eq) (by omega)
      rw [BaseDatatype.write, hlength, hcompLen]
      exact ConstructedType.write_structure h h hn (ConstructedType.writeComponents_encoded hwrite
        (by omega) (by omega) (Nat.zero_add _).symm)

/-! ## Reading -/

theorem PrimitiveType.read_encoded {p q : Primitives} (hkind : q.blank = p.blank) (filled : Bool)
    (tail : Bytes) (hsize : p.encoded.length < 2 ^ 31) :
    PrimitiveType.read q filled (p.getTag :: (p.encoded ++ tail))
      (p.getTag :: (p.encoded ++ tail)).length =
      .ok (((p.getTag :: p.encoded).length : Int), .primitive p.reread true) := by
  have htag : q.getTag = p.getTag := by
    rw [← q.getTag_blank, hkind, p.getTag_blank]
  have hmin : q.getMinLength = p.getMinLength := by
    rw [← q.getMinLength_blank, hkind, p.getMinLength_blank]
  have hle := p.getMinLength_le
  have hread := Primitives.readRawContent_encoded hkind tail hsize
  have hnonneg : ¬ ((p.encoded.length : Nat) : Int) < 0 := by omega
  unfold PrimitiveType.read
  rw [hmin, htag, if_neg (by rw [List.length_cons, List.length_append]; omega)]
  dsimp only
  rw [if_neg (not_not.mpr rfl), List.length_cons, Nat.add_sub_cancel, hread, ok_bind]
  dsimp only
  rw [if_neg hnonneg, List.length_cons, Int.natCast_succ, Int.add_comm]

namespace ConstructedType

theorem readHeader_encoded {tag : UInt8} {body : Bytes} (tail : Bytes) (htwo : 2 ≤ body.length)
    (hsize : (structureOf tag body ++ tail).length < 2 ^ 31) :
    readHeader tag (structureOf tag body ++ tail) (structureOf tag body ++ tail).length =
      .ok (.ok ⟨body ++ tail, ((body ++ tail).length : Int),
        (SDNV.encoded (UInt64.ofNat body.length)).length, body.length⟩) := by
  have hpos := encoded_length_pos (UInt64.ofNat body.length)
  have hlen : (structureOf tag body ++ tail).length =
      1 + (SDNV.encoded (UInt64.ofNat body.length)).length + body.length + tail.length := by
    rw [List.length_append, structureOf_length]
  have hcons : structureOf tag body ++ tail =
      tag :: (SDNV.encoded (UInt64.ofNat body.length) ++ (body ++ tail)) := by
    rw [structureOf, List.cons_append, List.append_assoc]
  have hremaining : toInt (structureOf tag body ++ tail).length - 1 =
      (((SDNV.encoded (UInt64.ofNat body.length)).length + body.length + tail.length : Nat) :
        Int) := by
    rw [toInt_of_lt hsize, hlen]
    omega
  have hnat : (UInt64.ofNat body.length).toNat = body.length := by
    rw [UInt64.toNat_ofNat']
    omega
  unfold readHeader
  rw [hremaining, if_neg (by omega), hcons]
  dsimp only
  rw [if_neg (not_not.mpr rfl), if_neg (by omega), Int.toNat_natCast,
    readSdnv_encoded _ _ (by omega), ok_bind]
  dsimp only
  have hrest : (((SDNV.encoded (UInt64.ofNat body.length)).length + body.length +
      tail.length : Nat) : Int) - (SDNV.encoded (UInt64.ofNat body.length)).length =
      ((body ++ tail).length : Int) := by
    rw [List.length_append]
    omega
  rw [hnat, Nat.mod_eq_of_lt (by omega), List.drop_left, hrest,
    if_neg (by rw [List.length_append]; omega)]

theorem readComponents_next {read : BaseDatatype → Bytes → Nat → Except Trap (Int × BaseDatatype)}
    {left : Nat} {cs : List BaseDatatype} {ptr : Bytes} {remaining code : Int}
    {structBytes expected : Nat} {child child' : BaseDatatype}
    (hnext : Next cs ptr remaining structBytes expected child)
    (hread : read child ptr remaining.toNat = .ok (code, child')) (hcode : 2 ≤ code) :
    readComponents read (left + 1) cs ptr remaining structBytes expected =
      readComponents read left (setChild cs child.getTag child') (ptr.drop code.toNat)
        (remaining - code) (structBytes + code.toNat) expected := by
  have hwanted := hnext.wanted
  have hroom := hnext.room
  cases ptr with
  | nil => cases hnext.starts
  | cons tag rest =>
      rw [readComponents, if_neg (by omega), if_neg (by omega), Option.some.inj hnext.starts,
        hnext.found]
      dsimp only
      rw [hnext.unfilled, if_neg Bool.false_ne_true, ← Option.some.inj hnext.starts, hread, ok_bind]
      dsimp only
      rw [if_neg (by omega), if_neg (by omega)]

theorem setChild_append {before after : List BaseDatatype} {child : BaseDatatype}
    (hdistinct : ((before ++ child :: after).map BaseDatatype.getTag).Nodup) (c : BaseDatatype) :
    setChild (before ++ child :: after) child.getTag c = before ++ c :: after := by
  rw [List.map_append, List.map_cons, List.nodup_append, List.nodup_cons] at hdistinct
  obtain ⟨-, hafter, hbefore⟩ := hdistinct
  have hkeep : ∀ xs : List BaseDatatype, (∀ x ∈ xs, x.getTag ≠ child.getTag) →
      xs.map (fun x => if x.getTag = child.getTag then c else x) = xs := by
    intro xs hxs
    have hid : ∀ x ∈ xs, (if x.getTag = child.getTag then c else x) = id x :=
      fun x hx => if_neg (hxs x hx)
    rw [List.map_congr_left hid, List.map_id]
  rw [setChild, List.map_append, List.map_cons, if_pos rfl, hkeep before, hkeep after]
  · intro x hx heq
    exact hafter.1 (heq ▸ List.mem_map_of_mem hx)
  · intro x hx
    exact hbefore _ (List.mem_map_of_mem hx) _ List.mem_cons_self

theorem readComponents_encoded {depth : Nat} {ts us : List BaseDatatype}
    (hsame : us.map BaseDatatype.blank = ts.map BaseDatatype.blank)
    (hunfilled : ∀ u ∈ us, u.Unfilled)
    (hread : ∀ t ∈ ts, ∀ u : BaseDatatype, u.SameShape t → u.Unfilled → ∀ tail : Bytes,
      (t.encoded ++ tail).length < 2 ^ 31 → ∃ u' : BaseDatatype,
        BaseDatatype.readAt depth u (t.encoded ++ tail) (t.encoded ++ tail).length =
          .ok ((t.encoded.length : Int), u') ∧ u'.SameShape t ∧
        u'.leaves = t.leaves.map Primitives.reread)
    {done : List BaseDatatype} (hdistinct : ((done ++ us).map BaseDatatype.getTag).Nodup)
    {tail : Bytes} {structBytes expected : Nat}
    (hexpected : expected = structBytes + (encoded ts).length)
    (hsize : (encoded ts ++ tail).length < 2 ^ 31) :
    ∃ us', readComponents (BaseDatatype.readAt depth) us.length (done ++ us) (encoded ts ++ tail)
        ((encoded ts ++ tail).length : Int) structBytes expected =
          .ok ⟨0, expected, 0, done ++ us'⟩ ∧
      leaves us' = (leaves ts).map Primitives.reread := by
  induction us generalizing ts done structBytes with
  | nil =>
      have hnil : ts = [] := List.map_eq_nil_iff.mp hsame.symm
      rw [hnil] at hexpected ⊢
      have hend : expected = structBytes := hexpected
      refine ⟨[], ?_, rfl⟩
      rw [hend]
      rfl
  | cons u us ih =>
      cases ts with
      | nil => cases hsame
      | cons t ts =>
          rw [List.map_cons, List.map_cons] at hsame
          obtain ⟨hu, hus⟩ := List.cons.inj hsame
          rw [List.forall_mem_cons] at hunfilled hread
          have htag : u.getTag = t.getTag := BaseDatatype.SameShape.getTag hu
          have htwo := t.two_le_encoded
          have hpart : encoded (t :: ts) ++ tail = t.encoded ++ (encoded ts ++ tail) := by
            rw [encoded, List.append_assoc]
          rw [hpart] at hsize ⊢
          obtain ⟨u', hread', hsame', hleaves⟩ := hread.1 u hu hunfilled.1 _ hsize
          rw [List.length_append] at hsize
          have hfound := getChild_append hdistinct
          rw [htag] at hfound
          have hset := setChild_append hdistinct u'
          rw [htag] at hset
          have hdistinct' : (((done ++ [u']) ++ us).map BaseDatatype.getTag).Nodup := by
            have hutag : u'.getTag = u.getTag := hsame'.getTag.trans htag.symm
            rw [List.map_append, List.map_cons] at hdistinct
            rw [List.append_assoc, List.map_append, List.singleton_append, List.map_cons, hutag]
            exact hdistinct
          rw [encoded, List.length_append] at hexpected
          have hsum : expected = (structBytes + t.encoded.length) + (encoded ts).length := by omega
          obtain ⟨us', hrest, hleaves'⟩ := ih hus hunfilled.2 hread.2 hdistinct' hsum (by omega)
          refine ⟨u' :: us', ?_, ?_⟩
          · obtain ⟨rest, hhead⟩ := t.encoded_head
            have hnext : Next (done ++ u :: us) (t.encoded ++ (encoded ts ++ tail))
                ((t.encoded ++ (encoded ts ++ tail)).length : Int) structBytes expected u := by
              refine ⟨by omega, by rw [List.length_append]; omega, ?_, ?_, hunfilled.1.isFilled⟩
              · rw [hhead, htag]
                rfl
              · rw [htag]
                exact hfound
            have hcode : (2 : Int) ≤ t.encoded.length := by omega
            have hremaining :
                ((t.encoded ++ (encoded ts ++ tail)).length : Int) - t.encoded.length =
                  ((encoded ts ++ tail).length : Int) := by
              rw [List.length_append]
              omega
            rw [← Int.toNat_natCast (t.encoded ++ (encoded ts ++ tail)).length] at hread'
            rw [List.length_cons, readComponents_next hnext hread' hcode, htag, hset,
              Int.toNat_natCast, List.drop_left, List.append_cons done u' us, hremaining, hrest,
              ← List.append_cons]
          · rw [leaves, leaves, List.map_append, hleaves, hleaves']

end ConstructedType

namespace BaseDatatype

theorem readAt_encoded {t : BaseDatatype} (htree : t.Tree) {depth : Nat} (hdepth : t.depth ≤ depth)
    {u : BaseDatatype} (hsame : u.SameShape t) (hunfilled : u.Unfilled) {tail : Bytes}
    (hsize : t.intLength tail < 2 ^ 31) :
    ∃ u', readAt depth u (t.encoded ++ tail) (t.encoded ++ tail).length =
      .ok ((t.encoded.length : Int), u') ∧ u'.SameShape t ∧
      u'.leaves = t.leaves.map Primitives.reread := by
  induction t using BaseDatatype.inductOn generalizing depth u tail with
  | primitive value filled =>
      cases u with
      | constructed tag us g => cases hsame
      | primitive value' filled' =>
          rw [SameShape, blank, blank] at hsame
          have hkind := (BaseDatatype.primitive.inj hsame).1
          have hread := PrimitiveType.read_encoded hkind filled' tail (by
            rw [intLength, encoded, List.length_cons] at hsize
            omega)
          have hreread : value.reread.blank = value.blank := value.reread_blank
          refine ⟨.primitive value.reread true, ?_, ?_, rfl⟩
          · cases depth <;> exact hread
          · rw [SameShape, blank, blank, hreread]
  | constructed tag cs f ih =>
      obtain ⟨us, g, hu, hmap⟩ := sameShape_constructed hsame
      rw [hu] at hunfilled ⊢
      cases depth with
      | zero =>
          rw [BaseDatatype.depth] at hdepth
          omega
      | succ depth =>
          rw [BaseDatatype.depth] at hdepth
          have hchildren : ∀ t ∈ cs, ∀ u : BaseDatatype, u.SameShape t → u.Unfilled →
              ∀ tail : Bytes, (t.encoded ++ tail).length < 2 ^ 31 → ∃ u' : BaseDatatype,
                readAt depth u (t.encoded ++ tail) (t.encoded ++ tail).length =
                  .ok ((t.encoded.length : Int), u') ∧ u'.SameShape t ∧
                u'.leaves = t.leaves.map Primitives.reread := by
            intro t ht u hu hunf tail hlen
            have htdepth := ConstructedType.depth_le ht
            have httree : t.Tree := by
              cases htree with
              | constructed _ _ _ _ children => exact children t ht
            rw [List.length_append] at hlen
            apply ih t ht httree (by omega) hu hunf
            cases t with
            | primitive value filled => exact Nat.lt_of_le_of_lt (Nat.le_add_right _ _) hlen
            | constructed tag cs f => exact hlen
          have htwo : 2 ≤ (ConstructedType.encoded cs).length := by
            cases htree with
            | constructed _ _ nonempty _ _ =>
                cases cs with
                | nil => exact absurd rfl nonempty
                | cons c cs =>
                    have hc := c.two_le_encoded
                    rw [ConstructedType.encoded, List.length_append]
                    omega
          have hdistinct : ((([] : List BaseDatatype) ++ us).map getTag).Nodup := by
            rw [List.nil_append, map_getTag hmap]
            exact htree.distinct
          have hlen : (structureOf tag (ConstructedType.encoded cs) ++ tail).length < 2 ^ 31 := by
            rw [List.length_append]
            exact hsize
          have hbody : (ConstructedType.encoded cs ++ tail).length < 2 ^ 31 := by
            rw [List.length_append, structureOf_length] at hlen
            rw [List.length_append]
            omega
          obtain ⟨us', hloop, hleaves⟩ := ConstructedType.readComponents_encoded hmap
            (marked_constructed.mp hunfilled).2 hchildren hdistinct (Nat.zero_add _).symm hbody
          have hread : readAt (depth + 1) (.constructed tag us g)
              ((constructed tag cs f).encoded ++ tail)
              ((constructed tag cs f).encoded ++ tail).length =
              .ok (((constructed tag cs f).encoded.length : Int), .constructed tag us' true) := by
            rw [encoded, readAt, ConstructedType.readHeader_encoded tail htwo hlen, ok_bind]
            dsimp only
            rw [List.nil_append] at hloop
            rw [hloop, ok_bind, ConstructedType.finish, if_neg (Int.lt_irrefl 0),
              if_neg (not_not.mpr rfl), if_neg (not_not.mpr rfl), structureOf_length, toInt_of_lt]
            · rfl
            · dsimp only
              rw [List.length_append, structureOf_length] at hlen
              omega
          have hshape := readAt_sameShape (htree.same (hu ▸ hsame)) hread
          exact ⟨.constructed tag us' true, hread, hshape.trans (hu ▸ hsame), hleaves⟩

/-! ## The round trip -/

theorem reread_leaves {t : BaseDatatype} :
    t.leaves.map Primitives.reread = t.leaves ↔ ∀ value ∈ t.leaves, ¬ value.LoneZero := by
  constructor
  · intro hmap value hv
    have hid : t.leaves.map Primitives.reread = t.leaves.map id := by
      rw [hmap, List.map_id]
    exact Primitives.reread_eq.mp (List.map_inj_left.mp hid value hv)
  · intro hlone
    have hid : ∀ value ∈ t.leaves, value.reread = id value := by
      intro value hv
      exact Primitives.reread_eq.mpr (hlone value hv)
    rw [List.map_congr_left hid, List.map_id]

theorem encoded_le_intLength (t : BaseDatatype) (tail : Bytes) :
    t.encoded.length ≤ t.intLength tail := by
  cases t with
  | primitive value filled => exact Nat.le_refl _
  | constructed tag cs f => exact Nat.le_add_right _ _

theorem roundTrips_of_survives {t : BaseDatatype} (htree : t.Tree) {tail : Bytes}
    (h : t.Survives tail) : t.RoundTrips tail := by
  have hle := t.encoded_le_intLength tail
  have hsize : t.encoded.length < 2 ^ 31 := Nat.lt_of_le_of_lt hle h.2
  have hlength := getLength_eq hsize
  refine ⟨t.encoded, ?_, ?_, ?_⟩
  · rw [hlength]
    exact write_encoded (Nat.le_refl _) hsize
  · rw [hlength, toInt_of_lt hsize]
  · intro u hsame hunfilled
    obtain ⟨u', hread, -, hleaves⟩ :=
      readAt_encoded htree (Nat.le_of_eq hsame.depth.symm) hsame hunfilled h.2
    rw [hlength]
    exact ⟨u', hread, hleaves.trans (reread_leaves.mpr h.1)⟩

theorem blank_unfilled (t : BaseDatatype) : t.blank.Unfilled := by
  induction t using BaseDatatype.inductOn with
  | primitive value filled => exact .primitive value.blank
  | constructed tag cs f ih =>
      rw [blank, ConstructedType.blank_eq_map]
      refine .constructed tag ?_
      intro c hc
      obtain ⟨x, hx, heq⟩ := List.mem_map.mp hc
      rw [← heq]
      exact ih x hx

theorem blank_blank (t : BaseDatatype) : t.blank.SameShape t := by
  induction t using BaseDatatype.inductOn with
  | primitive value filled =>
      have hvalue : value.blank.blank = value.blank := by
        cases value <;> rfl
      rw [SameShape, blank, blank, hvalue]
  | constructed tag cs f ih =>
      apply sameShape_of_map
      rw [ConstructedType.blank_eq_map, List.map_map]
      exact List.map_congr_left ih

theorem blank_arrays (t : BaseDatatype) : ∀ value ∈ t.blank.leaves, value.array = [] := by
  induction t using BaseDatatype.inductOn with
  | primitive value filled =>
      intro v hv
      rw [List.mem_singleton.mp hv]
      cases value <;> rfl
  | constructed tag cs f ih =>
      intro v hv
      rw [blank, leaves, ConstructedType.blank_eq_map] at hv
      obtain ⟨c, hc, hv⟩ := ConstructedType.mem_leaves.mp hv
      obtain ⟨x, hx, heq⟩ := List.mem_map.mp hc
      exact ih x hx v (heq ▸ hv)

theorem primitive_not_long {value : Primitives} {filled : Bool} {tail bytes : Bytes} {n : Nat}
    {code : Int} {u' : BaseDatatype}
    (hwrite : (primitive value filled).write n = .ok (.ok bytes))
    (hread : (primitive value filled).blank.read (bytes ++ tail) (bytes ++ tail).length =
      .ok (code, u')) (hleaves : u'.leaves = [value])
    (hempty : value.getRawContent = value.blank.encoded) : ¬ 2 ^ 31 ≤ value.array.length := by
  have hshort : value.blank.encoded.length < 2 ^ 31 := by
    have hlen := value.blank_encoded_length
    omega
  have hback := PrimitiveType.read_encoded (p := value.blank) (q := value.blank) rfl false tail
    hshort
  rw [BaseDatatype.write] at hwrite
  rw [(PrimitiveType.write_ok hwrite).1, hempty, ← value.getTag_blank] at hread
  rw [BaseDatatype.read, blank, readAt, List.cons_append, hback] at hread
  obtain ⟨-, heq⟩ := Prod.mk.inj (Except.ok.inj hread)
  rw [← heq] at hleaves
  have hvalue : value.blank.reread = value := List.singleton_inj.mp hleaves
  have harray : value.blank.reread.array = [] := value.blank_reread_array
  rw [← hvalue, harray]
  decide

theorem constructed_length_lt {tag : UInt8} {cs : List BaseDatatype} {f : Bool} {buf : Bytes}
    {n k : Nat} {u' : BaseDatatype}
    (h : (constructed tag cs f).blank.read buf n = .ok ((k : Int), u')) (hn : n < 2 ^ 32) :
    n < 2 ^ 31 := by
  rw [BaseDatatype.read, blank, BaseDatatype.depth, Nat.add_comm] at h
  cases constructed_read_ok h with
  | inl hfail =>
      have hneg := ConstructedType.readHeader_error hfail.1
      omega
  | inr hread =>
      obtain ⟨hd, o, hheader, -⟩ := hread
      have hint := (ConstructedType.readHeader_ok hheader).2
      by_contra hlong
      have hneg := toInt_neg (Nat.le_of_not_lt hlong) hn
      omega

theorem roundTrips_length {t : BaseDatatype} {tail bytes : Bytes} {u' : BaseDatatype}
    (hfit : t.getLength + tail.length < 2 ^ 32)
    (hwrite : t.write t.getLength = .ok (.ok bytes)) (hlength : toInt bytes.length = t.getLength)
    (hread : t.blank.read (bytes ++ tail) (bytes ++ tail).length = .ok ((t.getLength : Int), u'))
    (hleaves : u'.leaves = t.leaves) : bytes = t.encoded ∧ t.intLength tail < 2 ^ 31 := by
  have hle := write_length hwrite
  have hshort : bytes.length < 2 ^ 31 := by
    by_contra hlong
    have hneg := toInt_neg (Nat.le_of_not_lt hlong) (by omega)
    omega
  have hbounded : ∀ value ∈ t.leaves, value.array.length ≤ (bytes ++ tail).length := by
    rw [← hleaves]
    apply readAt_bounded hread (Nat.le_refl _)
    intro value hv
    rw [t.blank_arrays value hv]
    exact Nat.zero_le _
  rw [List.length_append] at hbounded
  have hbytes : bytes = t.encoded := by
    apply write_eq_encoded _ hwrite
    intro value hv
    have harray := hbounded value hv
    cases value.content_cases (by omega) with
    | inl heq => exact heq
    | inr hempty =>
        cases t with
        | primitive value' filled =>
            rw [List.mem_singleton.mp hv] at hempty
            exact absurd hempty.2 (primitive_not_long hwrite hread hleaves hempty.1)
        | constructed tag cs f =>
            have hint := constructed_length_lt hread (by rw [List.length_append]; omega)
            rw [List.length_append] at hint
            omega
  refine ⟨hbytes, ?_⟩
  cases t with
  | primitive value filled =>
      rw [intLength, ← hbytes]
      exact hshort
  | constructed tag cs f =>
      have hint := constructed_length_lt hread (by rw [List.length_append]; omega)
      rw [List.length_append] at hint
      rw [intLength, ← hbytes]
      exact hint

theorem survives_of_roundTrips {t : BaseDatatype} (htree : t.Tree) {tail : Bytes}
    (hfit : t.getLength + tail.length < 2 ^ 32) (h : t.RoundTrips tail) : t.Survives tail := by
  obtain ⟨bytes, hwrite, hlength, hall⟩ := h
  obtain ⟨u', hread, hleaves⟩ := hall t.blank t.blank_blank t.blank_unfilled
  obtain ⟨hbytes, hsize⟩ := roundTrips_length hfit hwrite hlength hread hleaves
  obtain ⟨v', hback, -, hreread⟩ := readAt_encoded htree (Nat.le_of_eq t.blank_blank.depth.symm)
    t.blank_blank t.blank_unfilled hsize
  rw [hbytes, BaseDatatype.read, hback] at hread
  obtain ⟨-, heq⟩ := Prod.mk.inj (Except.ok.inj hread)
  rw [← heq, hreread] at hleaves
  exact ⟨reread_leaves.mp hleaves, hsize⟩

/-- What a filled tree of the same shape writes is read. -/
def ReadsLater (t : BaseDatatype) : Prop :=
  ∀ (w : BaseDatatype) (tail : Bytes), w.SameShape t → w.Filled → w.Survives tail →
    ∃ bytes t', w.write w.getLength = .ok (.ok bytes) ∧
      t.read (bytes ++ tail) (bytes ++ tail).length = .ok ((w.getLength : Int), t') ∧
      t'.leaves = w.leaves

theorem readsLater_of_unfilled {t : BaseDatatype} (htree : t.Tree) (h : t.Unfilled) :
    t.ReadsLater := by
  intro w tail hsame _ hsurvives
  obtain ⟨bytes, hwrite, -, hread⟩ := roundTrips_of_survives (htree.same hsame) hsurvives
  obtain ⟨t', hback, hleaves⟩ := hread t hsame.symm h
  exact ⟨bytes, t', hwrite, hback, hleaves⟩

/-- A tree of types comes back from the bytes it wrote exactly if no leaf is a single zero byte and
the lengths fit an `int`. After a read that returns an error code the tree is unfilled, and reads
what is written later, exactly if the headers at the start of the buffer do not lead to a complete
leaf. -/
theorem tree_roundTrips_failsCleanly {t : BaseDatatype} (htree : t.Tree) :
    (∀ tail : Bytes, t.getLength + tail.length < 2 ^ 32 →
      (t.RoundTrips tail ↔ t.Survives tail)) ∧
    ∀ (buf : Bytes) (code : Int) (t' : BaseDatatype), t.Unfilled →
      t.read buf buf.length = .ok (code, t') → code < 0 →
      (t'.Unfilled ∧ t'.ReadsLater ↔ ¬ LeadsToLeaf t buf buf.length) := by
  constructor
  · intro tail hfit
    exact ⟨survives_of_roundTrips htree hfit, roundTrips_of_survives htree⟩
  · intro buf code t' hunfilled hread _
    have hiff := readAt_unfilled_iff (Nat.le_refl _) htree hunfilled hread
    have htree' := htree.same (readAt_sameShape htree hread)
    rw [← hiff]
    constructor
    · intro h
      exact h.1
    · intro h
      exact ⟨h, readsLater_of_unfilled htree' h⟩

/-- The types of `cla-tcp-v4`, with a port and an address. -/
def sampleService (port : UInt16) (addr : UInt32) (portFilled addrFilled filled : Bool) :
    BaseDatatype :=
  constructed 64 [primitive (.fixed16 port) portFilled, primitive (.fixed32 addr) addrFilled] filled

theorem sampleService_tree (port : UInt16) (addr : UInt32) (portFilled addrFilled filled : Bool) :
    (sampleService port addr portFilled addrFilled filled).Tree := by
  apply Tree.constructed 64 filled (List.cons_ne_nil _ _)
  · have hlt : (3 : UInt8) < 4 := by decide
    exact List.pairwise_pair.mpr hlt
  · intro c hc
    simp only [List.mem_cons, List.not_mem_nil, or_false] at hc
    rcases hc with rfl | rfl
    · exact .primitive _ _
    · exact .primitive _ _

/-- A port, and a component of another tag where the address belongs. -/
def brokenService : Bytes := [64, 8, 3, 0xaa, 4, 5, 0x80, 0x40, 0x80, 0x40]

theorem brokenService_read :
    (sampleService 0 0 false false false).read brokenService 10 =
      .ok (errProcessing, sampleService 0xaa04 0 true false false) := by
  with_unfolding_all rfl

theorem tree_roundTrips_failsCleanly_sample :
    (sampleService 0xaa04 0x80408040 true true true).RoundTrips [1, 2] ∧
    ((sampleService 0xaa04 0 true false false).Unfilled ∧
        (sampleService 0xaa04 0 true false false).ReadsLater ↔
      ¬ LeadsToLeaf (sampleService 0 0 false false false) brokenService brokenService.length) := by
  constructor
  · apply ((tree_roundTrips_failsCleanly (sampleService_tree _ _ _ _ _)).1 [1, 2] (by decide)).mpr
    refine ⟨?_, by decide⟩
    intro value hv
    have hleaves : value = .fixed16 0xaa04 ∨ value = .fixed32 0x80408040 := by
      simpa [sampleService, leaves, ConstructedType.leaves] using hv
    rcases hleaves with rfl | rfl
    · exact fun h => by cases h
    · exact fun h => by cases h
  · apply (tree_roundTrips_failsCleanly (sampleService_tree _ _ _ _ _)).2 brokenService
      errProcessing
    · apply Marked.constructed 64
      intro c hc
      simp only [List.mem_cons, List.not_mem_nil, or_false] at hc
      rcases hc with rfl | rfl
      · exact .primitive _
      · exact .primitive _
    · exact brokenService_read
    · decide

def stringType (val : Bytes) : BaseDatatype := constructed 200 [primitive (.string val) true] true

theorem stringType_tree (val : Bytes) : (stringType val).Tree := by
  apply Tree.constructed 200 true (List.cons_ne_nil _ _) (List.pairwise_singleton _ _)
  intro c hc
  rw [List.mem_singleton.mp hc]
  exact .primitive _ _

theorem stringType_short {val : Bytes} (h : (stringType val).RoundTrips []) :
    val.length < 2 ^ 31 := by
  have hfit : (stringType val).getLength + ([] : Bytes).length < 2 ^ 32 := by
    rw [stringType, getLength, List.length_nil]
    omega
  have hsurvives := survives_of_roundTrips (stringType_tree val) hfit h
  have hlen := Primitives.length_lt_arrayEncoded val
  have hint := hsurvives.2
  rw [stringType, intLength, encoded, structureOf_length, ConstructedType.encoded,
    List.length_append, encoded, List.length_cons, Primitives.encoded] at hint
  omega

/-- A string that is too long for an `int`. -/
def longText : Bytes := List.replicate (2 ^ 31) 1

theorem longText_length : longText.length = 2 ^ 31 := List.length_replicate

/-- A failed read leaves the port filled, and the complete service is not read afterwards. A single
zero byte is lost, and a long string is not written. -/
theorem sampleService_not_clean :
    ((sampleService 0 0 false false false).Unfilled ∧
      (sampleService 0 0 false false false).read brokenService 10 =
        .ok (errProcessing, sampleService 0xaa04 0 true false false) ∧
      ¬ (sampleService 0xaa04 0 true false false).Unfilled ∧
      (sampleService 0xaa04 0 true false false).read
        [64, 8, 3, 0xaa, 4, 4, 0x80, 0x40, 0x80, 0x40] 10 =
          .ok (errProcessing, sampleService 0xaa04 0 true false false)) ∧
    ¬ (stringType [0]).RoundTrips [] ∧ ¬ (stringType longText).RoundTrips [] := by
  refine ⟨⟨?_, brokenService_read, ?_, ?_⟩, ?_, ?_⟩
  · apply Marked.constructed 64
    intro c hc
    simp only [List.mem_cons, List.not_mem_nil, or_false] at hc
    rcases hc with rfl | rfl
    · exact .primitive _
    · exact .primitive _
  · intro h
    have hport := ((marked_constructed.mp h).2 _ List.mem_cons_self).isFilled
    cases hport
  · with_unfolding_all rfl
  · intro h
    have hsurvives := survives_of_roundTrips (stringType_tree [0]) (by decide) h
    exact hsurvives.1 (.string [0]) (List.mem_singleton.mpr rfl) rfl
  · intro h
    have hshort := stringType_short h
    rw [longText_length] at hshort
    omega

end BaseDatatype

end IPND

end Dtn2
