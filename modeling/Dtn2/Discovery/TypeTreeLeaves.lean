import Dtn2.Discovery.BeaconServices
import Dtn2.Discovery.TypeTree

/-!
# Shapes and leaves

The shape of a tree is what its default constructors leave. The value of a leaf is read back from
its encoding, except for a single zero byte, which is written as the empty value is.
-/

namespace Dtn2

namespace IPND

open Framework

/-! ## The shape of a tree -/

theorem BaseDatatype.inductOn {P : BaseDatatype → Prop}
    (primitive : ∀ value filled, P (.primitive value filled))
    (constructed : ∀ tag components filled, (∀ c ∈ components, P c) →
      P (.constructed tag components filled)) (t : BaseDatatype) : P t :=
  @BaseDatatype.rec P (fun components => ∀ c ∈ components, P c) primitive
    (fun tag components filled h => constructed tag components filled h)
    (fun _ h => absurd h List.not_mem_nil)
    (fun _ _ hc hcs x hx => (List.mem_cons.mp hx).elim (fun h => h ▸ hc) (hcs x)) t

namespace Primitives

/-- The type as its default constructor leaves it. -/
def blank : Primitives → Primitives
  | boolean _ => boolean false
  | uint64 _ => uint64 0
  | sint64 _ => sint64 0
  | fixed16 _ => fixed16 0
  | fixed32 _ => fixed32 0
  | fixed64 _ => fixed64 0
  | float _ => float 0
  | double _ => double 0
  | string _ => string []
  | bytes _ => bytes ⟨[], by decide⟩

def array : Primitives → Bytes
  | string val => val
  | bytes val => val.val
  | _ => []

/-- A string or an array of a single zero byte. -/
def LoneZero (p : Primitives) : Prop := p.array = [0]

/-- What stands behind the length: the empty value is a zero byte. -/
def payload (val : Bytes) : Bytes := if val.length = 0 then [0] else val

def arrayEncoded (val : Bytes) : Bytes :=
  SDNV.encoded (UInt64.ofNat (payload val).length) ++ payload val

/-- The encoding of a value, without the limits of the lengths. -/
def encoded : Primitives → Bytes
  | string val => arrayEncoded val
  | bytes val => arrayEncoded val.val
  | p => p.getRawContent

end Primitives

namespace BaseDatatype

/-- All nodes carry the flag. -/
inductive Marked (filled : Bool) : BaseDatatype → Prop
  | primitive (value : Primitives) : Marked filled (.primitive value filled)
  | constructed (tag : UInt8) {components : List BaseDatatype}
      (children : ∀ c ∈ components, Marked filled c) :
      Marked filled (.constructed tag components filled)

def Filled (t : BaseDatatype) : Prop := t.Marked true

def Unfilled (t : BaseDatatype) : Prop := t.Marked false

/-- A tree of constructed types with distinct child tags, whose leaves are primitive types. -/
inductive Tree : BaseDatatype → Prop
  | primitive (value : Primitives) (filled : Bool) : Tree (.primitive value filled)
  | constructed (tag : UInt8) {components : List BaseDatatype} (filled : Bool)
      (nonempty : components ≠ []) (ascending : (components.map getTag).Pairwise (· < ·))
      (children : ∀ c ∈ components, Tree c) : Tree (.constructed tag components filled)

end BaseDatatype

mutual

def BaseDatatype.blank : BaseDatatype → BaseDatatype
  | .primitive value _ => .primitive value.blank false
  | .constructed tag components _ => .constructed tag (ConstructedType.blank components) false

def ConstructedType.blank : List BaseDatatype → List BaseDatatype
  | [] => []
  | c :: cs => c.blank :: ConstructedType.blank cs

end

mutual

def BaseDatatype.leaves : BaseDatatype → List Primitives
  | .primitive value _ => [value]
  | .constructed _ components _ => ConstructedType.leaves components

def ConstructedType.leaves : List BaseDatatype → List Primitives
  | [] => []
  | c :: cs => c.leaves ++ ConstructedType.leaves cs

end

mutual

/-- The encoding of a tree, without the limits of the lengths. -/
def BaseDatatype.encoded : BaseDatatype → Bytes
  | .primitive value _ => value.getTag :: value.encoded
  | .constructed tag components _ => structureOf tag (ConstructedType.encoded components)

def ConstructedType.encoded : List BaseDatatype → Bytes
  | [] => []
  | c :: cs => c.encoded ++ ConstructedType.encoded cs

end

namespace BaseDatatype

def SameShape (u t : BaseDatatype) : Prop := u.blank = t.blank

end BaseDatatype

/-! ## Numbers in a raw buffer -/

theorem copySdnv_split {room : Nat} {buf num rest : Bytes}
    (h : splitNumber (room + 1) buf = some (num, rest)) (sdnv : Bytes) :
    copySdnv room buf sdnv = .ok (some (sdnv ++ num)) := by
  induction room generalizing buf num sdnv with
  | zero =>
      cases buf with
      | nil => cases h
      | cons b buf =>
          rw [splitNumber] at h
          by_cases hb : b &&& 0x80 = 0
          · rw [if_pos hb] at h
            cases h
            rw [copySdnv, if_pos hb]
          · rw [if_neg hb] at h
            cases h
  | succ room ih =>
      cases buf with
      | nil => cases h
      | cons b buf =>
          rw [splitNumber] at h
          by_cases hb : b &&& 0x80 = 0
          · rw [if_pos hb] at h
            cases h
            rw [copySdnv, if_pos hb]
          · rw [if_neg hb] at h
            obtain ⟨s, hs, heq⟩ := Option.map_eq_some_iff.mp h
            cases heq
            rw [copySdnv, if_neg hb, ih hs, List.append_assoc]
            rfl

theorem readSdnv_encoded (v : UInt64) (rest : Bytes) {n : Nat} (h : (SDNV.encoded v).length ≤ n) :
    readSdnv (SDNV.encoded v ++ rest) n = .ok (.ok ((SDNV.encoded v).length, v)) := by
  have hpos := encoded_length_pos v
  have hle := SDNV.encoded_length_le v
  have hten : SDNV.maxLength = 10 := rfl
  have hroom : min n SDNV.maxLength - 1 + 1 = min n SDNV.maxLength := by omega
  have hsplit : splitNumber (min n SDNV.maxLength - 1 + 1) (SDNV.encoded v ++ rest) =
      some (SDNV.encoded v, rest) := by
    apply splitNumber_room (splitNumber_encoded v rest)
    omega
  have hdecode := SDNV.decode_encoded v []
  rw [List.append_nil] at hdecode
  rw [readSdnv, if_neg (by omega), copySdnv_split hsplit, List.nil_append, ok_bind]
  simp only [hdecode, if_pos]

/-! ## Leaves -/

namespace Primitives

theorem sdnvContent_eq (val : UInt64) : sdnvContent val = SDNV.encoded val := by
  have hle := SDNV.encoded_length_le val
  rw [sdnvContent, SDNV.encode, if_neg (by omega)]

theorem payload_pos (val : Bytes) : 0 < (payload val).length := by
  unfold payload
  by_cases h : val.length = 0
  · rw [if_pos h]
    decide
  · rw [if_neg h]
    omega

theorem arrayEncoded_length (val : Bytes) : 2 ≤ (arrayEncoded val).length := by
  have hpos := encoded_length_pos (UInt64.ofNat (payload val).length)
  have hpayload := payload_pos val
  rw [arrayEncoded, List.length_append]
  omega

theorem arrayEncoded_nil : arrayEncoded [] = [1, 0] := by decide

theorem length_lt_arrayEncoded (val : Bytes) : val.length < (arrayEncoded val).length := by
  have hpos := encoded_length_pos (UInt64.ofNat (payload val).length)
  rw [arrayEncoded, List.length_append]
  unfold payload at hpos ⊢
  by_cases h : val.length = 0
  · rw [if_pos h] at hpos ⊢
    omega
  · rw [if_neg h] at hpos ⊢
    omega

theorem arrayContent_cases {val : Bytes} (h : val.length < 2 ^ 32) :
    arrayContent val = arrayEncoded val ∨
      (arrayContent val = arrayEncoded [] ∧ 2 ^ 31 ≤ val.length) := by
  have hle := SDNV.encoded_length_le (UInt64.ofNat val.length)
  have hten : SDNV.maxLength = 10 := rfl
  by_cases hnil : val.length = 0
  · left
    rw [List.eq_nil_of_length_eq_zero hnil, arrayEncoded_nil]
    rfl
  · rw [arrayContent, if_neg hnil, Nat.mod_eq_of_lt h]
    simp only [SDNV.encodingLen_eq, SDNV.encode]
    by_cases hwrap : ((SDNV.encoded (UInt64.ofNat val.length)).length + val.length) % 2 ^ 32 <
        (SDNV.encoded (UInt64.ofNat val.length)).length
    · right
      rw [if_pos hwrap, arrayEncoded_nil]
      refine ⟨rfl, ?_⟩
      by_contra hsmall
      rw [Nat.mod_eq_of_lt (by omega)] at hwrap
      omega
    · left
      rw [if_neg hwrap, arrayEncoded, payload, if_neg hnil]
      simp only [ne_eq, not_true_eq_false, if_false, List.take_length]

/-- The value that is read back: a single zero byte stands for the empty value. -/
def arrayReread (val : Bytes) : Bytes := if val = [0] then [] else val

theorem arrayReread_length (val : Bytes) : (arrayReread val).length ≤ val.length := by
  unfold arrayReread
  split
  · exact Nat.zero_le _
  · exact Nat.le_refl _

theorem ByteArr.reread_fits (val : ByteArr) : (arrayReread val.val).length < 2 ^ 32 :=
  Nat.lt_of_le_of_lt (arrayReread_length val.val) val.fits

def reread : Primitives → Primitives
  | string val => string (arrayReread val)
  | bytes val => bytes ⟨arrayReread val.val, ByteArr.reread_fits val⟩
  | p => p

theorem reread_blank (p : Primitives) : p.reread.blank = p.blank := by
  cases p <;> rfl

theorem arrayReread_eq {val : Bytes} : arrayReread val = val ↔ val ≠ [0] := by
  unfold arrayReread
  by_cases h : val = [0]
  · rw [if_pos h, h]
    decide
  · rw [if_neg h]
    exact ⟨fun _ => h, fun _ => rfl⟩

theorem reread_eq {p : Primitives} : p.reread = p ↔ ¬ p.LoneZero := by
  cases p with
  | string val =>
      change string (arrayReread val) = string val ↔ val ≠ [0]
      rw [string.injEq, arrayReread_eq]
  | bytes val =>
      change bytes ⟨arrayReread val.val, _⟩ = bytes val ↔ val.val ≠ [0]
      rw [bytes.injEq, ← arrayReread_eq]
      exact ⟨fun h => congrArg ByteArr.val h, fun h => by cases val; simpa using h⟩
  | _ => exact ⟨fun _ => (by decide : ¬ ([] : Bytes) = [0]), fun _ => rfl⟩

theorem arrayValue_payload (val : Bytes) :
    arrayValue (UInt64.ofNat (payload val).length) (payload val) = arrayReread val := by
  unfold arrayValue arrayReread
  by_cases hnil : val.length = 0
  · have hval := List.eq_nil_of_length_eq_zero hnil
    rw [hval]
    decide
  · have hpayload : payload val = val := if_neg hnil
    rw [hpayload]
    by_cases hzero : val = [0]
    · rw [hzero]
      decide
    · rw [if_neg hzero, if_neg (fun hc => hzero hc.2)]

theorem getTag_blank (p : Primitives) : p.blank.getTag = p.getTag := by
  cases p <;> rfl

theorem getMinLength_blank (p : Primitives) : p.blank.getMinLength = p.getMinLength := by
  cases p <;> rfl

theorem getMinLength_le (p : Primitives) : p.getMinLength ≤ 1 + p.encoded.length := by
  cases p with
  | boolean val => exact Nat.le_refl 2
  | uint64 val =>
      have hpos := encoded_length_pos val
      change 2 ≤ 1 + (sdnvContent val).length
      rw [sdnvContent_eq]
      omega
  | sint64 val =>
      have hpos := encoded_length_pos val.toUInt64
      change 2 ≤ 1 + (sdnvContent val.toUInt64).length
      rw [sdnvContent_eq]
      omega
  | string val =>
      have hlen := arrayEncoded_length val
      change 1 + 2 ≤ 1 + (arrayEncoded val).length
      omega
  | bytes val =>
      have hlen := arrayEncoded_length val.val
      change 1 + 2 ≤ 1 + (arrayEncoded val.val).length
      omega
  | fixed16 val => exact Nat.le_of_eq (congrArg (1 + ·) (BigEndian.length_encode 2 val.toNat).symm)
  | fixed32 val => exact Nat.le_of_eq (congrArg (1 + ·) (BigEndian.length_encode 4 val.toNat).symm)
  | fixed64 val => exact Nat.le_of_eq (congrArg (1 + ·) (BigEndian.length_encode 8 val.toNat).symm)
  | float val => exact Nat.le_of_eq (congrArg (1 + ·) (BigEndian.length_encode 4 val.toNat).symm)
  | double val => exact Nat.le_of_eq (congrArg (1 + ·) (BigEndian.length_encode 8 val.toNat).symm)

theorem encoded_pos (p : Primitives) : 1 ≤ p.encoded.length := by
  have hmin := p.getMinLength_le
  have htwo : 2 ≤ p.getMinLength := by
    cases p <;> exact Nat.le_of_ble_eq_true rfl
  omega

theorem readFixed_encode (len n : Nat) (tail : Bytes) (value : Nat → Primitives)
    (h : n < 256 ^ len) :
    readFixed len (BigEndian.encode len n ++ tail) value = .ok (len, value n) := by
  have hlen := BigEndian.length_encode len n
  rw [readFixed, if_neg (by rw [List.length_append]; omega), List.take_left' hlen,
    BigEndian.decode_encode_of_lt h]

theorem readArray_encoded (p : Primitives) (val tail : Bytes) (copied : UInt64 → Nat)
    (value : UInt64 → Bytes → Primitives) (hsize : (arrayEncoded val).length < 2 ^ 31)
    (hcopied : ∀ len, copied len ≤ len.toNat) :
    readArray p (arrayEncoded val ++ tail) (arrayEncoded val ++ tail).length copied value =
      .ok ((arrayEncoded val).length,
        value (UInt64.ofNat (payload val).length) (payload val ++ tail)) := by
  have hlen : (arrayEncoded val).length =
      (SDNV.encoded (UInt64.ofNat (payload val).length)).length + (payload val).length := by
    rw [arrayEncoded, List.length_append]
  have hnat : (UInt64.ofNat (payload val).length).toNat = (payload val).length := by
    rw [UInt64.toNat_ofNat']
    omega
  have hread := readSdnv_encoded (UInt64.ofNat (payload val).length) (payload val ++ tail)
    (n := (arrayEncoded val ++ tail).length) (by rw [List.length_append]; omega)
  rw [← List.append_assoc, ← arrayEncoded] at hread
  have hdrop : (arrayEncoded val ++ tail).drop
      (SDNV.encoded (UInt64.ofNat (payload val).length)).length = payload val ++ tail := by
    rw [arrayEncoded, List.append_assoc, List.drop_left]
  have hcopy := hcopied (UInt64.ofNat (payload val).length)
  rw [readArray, hread, ok_bind]
  dsimp only
  rw [hdrop, hnat, if_neg, if_neg, ← hlen, toInt_of_lt hsize]
  · rw [List.length_append]
    omega
  · rw [List.length_append, Nat.mod_eq_of_lt (by omega)]
    omega

theorem readRawContent_encoded {p q : Primitives} (hkind : q.blank = p.blank) (tail : Bytes)
    (hsize : p.encoded.length < 2 ^ 31) :
    q.readRawContent (p.encoded ++ tail) (p.encoded ++ tail).length =
      .ok (p.encoded.length, p.reread) := by
  cases p with
  | boolean val =>
      cases q <;> cases hkind
      cases val <;> rfl
  | uint64 val =>
      cases q <;> cases hkind
      have hread := readSdnv_encoded val tail (n := (SDNV.encoded val ++ tail).length)
        (by rw [List.length_append]; omega)
      change (readSdnv (sdnvContent val ++ tail) (sdnvContent val ++ tail).length >>= _) =
        .ok (((sdnvContent val).length : Int), uint64 val)
      rw [sdnvContent_eq, hread, ok_bind]
  | sint64 val =>
      cases q <;> cases hkind
      have hread := readSdnv_encoded val.toUInt64 tail
        (n := (SDNV.encoded val.toUInt64 ++ tail).length) (by rw [List.length_append]; omega)
      change (readSdnv (sdnvContent val.toUInt64 ++ tail)
        (sdnvContent val.toUInt64 ++ tail).length >>= _) =
        .ok (((sdnvContent val.toUInt64).length : Int), sint64 val)
      rw [sdnvContent_eq, hread, ok_bind]
      dsimp only
      rw [Int64.toInt64_toUInt64]
  | fixed16 val =>
      cases q <;> cases hkind
      have hencoded : (fixed16 val).encoded = BigEndian.encode 2 val.toNat := rfl
      rw [hencoded, readRawContent, readFixed_encode 2 val.toNat tail _ val.toNat_lt,
        UInt16.ofNat_toNat, BigEndian.length_encode]
      rfl
  | fixed32 val =>
      cases q <;> cases hkind
      have hencoded : (fixed32 val).encoded = BigEndian.encode 4 val.toNat := rfl
      rw [hencoded, readRawContent, readFixed_encode 4 val.toNat tail _ val.toNat_lt,
        UInt32.ofNat_toNat, BigEndian.length_encode]
      rfl
  | fixed64 val =>
      cases q <;> cases hkind
      have hencoded : (fixed64 val).encoded = BigEndian.encode 8 val.toNat := rfl
      rw [hencoded, readRawContent, readFixed_encode 8 val.toNat tail _ val.toNat_lt,
        UInt64.ofNat_toNat, BigEndian.length_encode]
      rfl
  | float val =>
      cases q <;> cases hkind
      have hencoded : (float val).encoded = BigEndian.encode 4 val.toNat := rfl
      rw [hencoded, readRawContent, readFixed_encode 4 val.toNat tail _ val.toNat_lt,
        UInt32.ofNat_toNat, BigEndian.length_encode]
      rfl
  | double val =>
      cases q <;> cases hkind
      have hencoded : (double val).encoded = BigEndian.encode 8 val.toNat := rfl
      rw [hencoded, readRawContent, readFixed_encode 8 val.toNat tail _ val.toNat_lt,
        UInt64.ofNat_toNat, BigEndian.length_encode]
      rfl
  | string val =>
      cases q <;> cases hkind
      have hlt : (payload val).length < 2 ^ 64 := by
        have hlen : (arrayEncoded val).length < 2 ^ 31 := hsize
        rw [arrayEncoded, List.length_append] at hlen
        omega
      have hencoded : (string val).encoded = arrayEncoded val := rfl
      rw [hencoded, readRawContent, readArray_encoded _ val tail _ _ hsize fun len => Nat.le_refl _,
        UInt64.toNat_ofNat', Nat.mod_eq_of_lt hlt, List.take_left, arrayValue_payload]
      rfl
  | bytes val =>
      cases q <;> cases hkind
      have hlt : (payload val.val).length < 2 ^ 32 := by
        have hlen : (arrayEncoded val.val).length < 2 ^ 31 := hsize
        rw [arrayEncoded, List.length_append] at hlen
        omega
      have hlong : (payload val.val).length < 2 ^ 64 := Nat.lt_trans hlt (by decide)
      have hencoded : (bytes val).encoded = arrayEncoded val.val := rfl
      rw [hencoded, readRawContent,
        readArray_encoded _ val.val tail _ _ hsize fun len => Nat.mod_le _ _]
      have hvalue : arrayValue (UInt64.ofNat (payload val.val).length)
          ((payload val.val ++ tail).take
            ((UInt64.ofNat (payload val.val).length).toNat % 2 ^ 32)) = arrayReread val.val := by
        rw [UInt64.toNat_ofNat', Nat.mod_eq_of_lt hlong, Nat.mod_eq_of_lt hlt, List.take_left,
          arrayValue_payload]
      simp only [hvalue, reread]

theorem getRawContent_eq {p : Primitives} (h : p.encoded.length < 2 ^ 31) :
    p.getRawContent = p.encoded := by
  cases p with
  | string val =>
      have hlen := length_lt_arrayEncoded val
      change (arrayEncoded val).length < 2 ^ 31 at h
      have hfits : val.length < 2 ^ 32 := by omega
      cases arrayContent_cases hfits with
      | inl heq => exact heq
      | inr hlong => omega
  | bytes val =>
      have hlen := length_lt_arrayEncoded val.val
      change (arrayEncoded val.val).length < 2 ^ 31 at h
      cases arrayContent_cases val.fits with
      | inl heq => exact heq
      | inr hlong => omega
  | _ => rfl

theorem blank_encoded_length (p : Primitives) : p.blank.encoded.length ≤ 8 := by
  cases p <;> exact of_decide_eq_true rfl

theorem blank_reread_array (p : Primitives) : p.blank.reread.array = [] := by
  cases p <;> rfl

theorem content_cases (p : Primitives) (h : p.array.length < 2 ^ 32) :
    p.getRawContent = p.encoded ∨
      (p.getRawContent = p.blank.encoded ∧ 2 ^ 31 ≤ p.array.length) := by
  cases p with
  | string val => exact arrayContent_cases h
  | bytes val => exact arrayContent_cases h
  | _ => exact Or.inl rfl

end Primitives

/-! ## Shapes -/

namespace ConstructedType

theorem blank_eq_map (cs : List BaseDatatype) : blank cs = cs.map BaseDatatype.blank := by
  induction cs with
  | nil => rfl
  | cons c cs ih => rw [blank, ih, List.map_cons]

theorem mem_leaves {cs : List BaseDatatype} {v : Primitives} :
    v ∈ leaves cs ↔ ∃ c ∈ cs, v ∈ c.leaves := by
  induction cs with
  | nil => simp [leaves]
  | cons c cs ih => simp [leaves, ih]

theorem depth_le {c : BaseDatatype} {cs : List BaseDatatype} (h : c ∈ cs) : c.depth ≤ depth cs := by
  induction cs with
  | nil => cases h
  | cons c' cs ih =>
      rw [depth]
      cases List.mem_cons.mp h with
      | inl heq =>
          rw [heq]
          exact Nat.le_max_left _ _
      | inr hmem => exact Nat.le_trans (ih hmem) (Nat.le_max_right _ _)

end ConstructedType

namespace BaseDatatype

theorem getTag_blank (t : BaseDatatype) : t.blank.getTag = t.getTag := by
  cases t with
  | primitive value filled => exact value.getTag_blank
  | constructed tag components filled => rfl

theorem SameShape.getTag {u t : BaseDatatype} (h : u.SameShape t) : u.getTag = t.getTag := by
  rw [← getTag_blank u, ← getTag_blank t, h]

theorem SameShape.depth {u t : BaseDatatype} (h : u.SameShape t) : u.depth = t.depth := by
  have hblank : ∀ x : BaseDatatype, x.blank.depth = x.depth := by
    intro x
    induction x using BaseDatatype.inductOn with
    | primitive value filled => rfl
    | constructed tag components filled ih =>
        have hall : ConstructedType.depth (ConstructedType.blank components) =
            ConstructedType.depth components := by
          induction components with
          | nil => rfl
          | cons c cs ihcs =>
              rw [ConstructedType.blank, ConstructedType.depth, ConstructedType.depth,
                ih c List.mem_cons_self, ihcs fun x hx => ih x (List.mem_cons_of_mem c hx)]
        rw [BaseDatatype.blank, BaseDatatype.depth, BaseDatatype.depth, hall]
  rw [← hblank u, ← hblank t, h]

theorem sameShape_constructed {u : BaseDatatype} {tag : UInt8} {cs : List BaseDatatype} {f : Bool}
    (h : u.SameShape (.constructed tag cs f)) :
    ∃ us g, u = .constructed tag us g ∧ us.map blank = cs.map blank := by
  cases u with
  | primitive value filled => cases h
  | constructed tag' us g =>
      rw [SameShape, blank, blank] at h
      obtain ⟨htag, hus, -⟩ := BaseDatatype.constructed.inj h
      rw [ConstructedType.blank_eq_map, ConstructedType.blank_eq_map] at hus
      rw [htag]
      exact ⟨us, g, rfl, hus⟩

theorem sameShape_of_map {tag : UInt8} {us cs : List BaseDatatype} {f g : Bool}
    (h : us.map blank = cs.map blank) :
    SameShape (.constructed tag us g) (.constructed tag cs f) := by
  rw [SameShape, blank, blank, ConstructedType.blank_eq_map, ConstructedType.blank_eq_map, h]

theorem sameShape_of_mem {us cs : List BaseDatatype} (h : us.map blank = cs.map blank)
    {u : BaseDatatype} (hu : u ∈ us) : ∃ c ∈ cs, u.SameShape c := by
  have hmem : u.blank ∈ cs.map blank := h ▸ List.mem_map_of_mem hu
  obtain ⟨c, hc, heq⟩ := List.mem_map.mp hmem
  exact ⟨c, hc, heq.symm⟩

theorem map_getTag {us cs : List BaseDatatype} (h : us.map blank = cs.map blank) :
    us.map getTag = cs.map getTag := by
  have hcomp : ∀ xs : List BaseDatatype, xs.map getTag = (xs.map blank).map getTag := by
    intro xs
    rw [List.map_map]
    exact List.map_congr_left fun x _ => (getTag_blank x).symm
  rw [hcomp us, hcomp cs, h]

theorem Tree.distinct {tag : UInt8} {cs : List BaseDatatype} {f : Bool}
    (h : Tree (.constructed tag cs f)) : (cs.map getTag).Nodup := by
  cases h with
  | constructed _ _ _ ascending _ => exact ascending.imp fun hlt => UInt8.ne_of_lt hlt

theorem Tree.same {u t : BaseDatatype} (ht : t.Tree) (h : u.SameShape t) : u.Tree := by
  induction t using BaseDatatype.inductOn generalizing u with
  | primitive value filled =>
      cases u with
      | primitive value' filled' => exact .primitive value' filled'
      | constructed tag us g => cases h
  | constructed tag cs f ih =>
      obtain ⟨us, g, hu, hmap⟩ := sameShape_constructed h
      cases ht with
      | constructed _ _ nonempty ascending children =>
          rw [hu]
          refine .constructed tag g ?_ ?_ ?_
          · intro hnil
            rw [hnil] at hmap
            exact nonempty (List.map_eq_nil_iff.mp hmap.symm)
          · rw [map_getTag hmap]
            exact ascending
          · intro x hx
            obtain ⟨c, hc, hsame⟩ := sameShape_of_mem hmap hx
            exact ih c hc (children c hc) hsame

end BaseDatatype

end IPND

end Dtn2
