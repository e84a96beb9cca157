import Dtn2.Discovery.Datatypes

/-!
# Trees of types

A constructed type holds children by their tags, which may be constructed types again; the leaves
are primitive types. A tree writes itself into a buffer and reads itself from one. Whether a node
was read is kept in a flag of the node, which nothing takes back.
-/

namespace Dtn2

namespace IPND

open Framework

/-! ## Primitive types -/

/-- The value of a `Primitives::Bytes`, whose length is an `unsigned int`. -/
structure ByteArr where
  val : Bytes
  fits : val.length < 2 ^ 32
deriving DecidableEq, Repr

/-- A primitive type with its value; of the floating point types it is the bit pattern. The raw
content is set together with the value. -/
inductive Primitives where
  | boolean (val : Bool)
  | uint64 (val : UInt64)
  | sint64 (val : Int64)
  | fixed16 (val : UInt16)
  | fixed32 (val : UInt32)
  | fixed64 (val : UInt64)
  | float (bits : UInt32)
  | double (bits : UInt64)
  | string (val : Bytes)
  | bytes (val : ByteArr)
deriving DecidableEq

namespace Primitives

/-- `getTag`, by `Tags_e`. -/
def getTag : Primitives → UInt8
  | boolean _ => 0
  | uint64 _ => 1
  | sint64 _ => 2
  | fixed16 _ => 3
  | fixed32 _ => 4
  | fixed64 _ => 5
  | float _ => 6
  | double _ => 7
  | string _ => 8
  | bytes _ => 9

def getMinLength : Primitives → Nat
  | boolean _ | uint64 _ | sint64 _ => 2
  | fixed16 _ => 1 + 2
  | fixed32 _ | float _ => 1 + 4
  | fixed64 _ | double _ => 1 + 8
  | string _ | bytes _ => 1 + 2

/-- `updateContent` of `UInt64` and `SInt64`. -/
def sdnvContent (val : UInt64) : Bytes :=
  match SDNV.encode val SDNV.maxLength with
  | none => [0]
  | some content => content

/-- `updateContent` of `String` and `Bytes`, with the length in an `unsigned int`. Next to `2 ^ 32`
the sum of the lengths wraps around and the value is written as the empty one. -/
def arrayContent (val : Bytes) : Bytes :=
  if val.length = 0 then [1, 0]
  else
    let len := val.length % 2 ^ 32
    let lenLen := SDNV.encodingLen (UInt64.ofNat len)
    match SDNV.encode (UInt64.ofNat len) ((lenLen + len) % 2 ^ 32) with
    | none => [1, 0]
    | some number => if number.length ≠ lenLen then [1, 0] else number ++ val.take len

def getRawContent : Primitives → Bytes
  | boolean val => [if val then 0xff else 0x00]
  | uint64 val => sdnvContent val
  | sint64 val => sdnvContent val.toUInt64
  | fixed16 val => BigEndian.encode 2 val.toNat
  | fixed32 val => BigEndian.encode 4 val.toNat
  | fixed64 val => BigEndian.encode 8 val.toNat
  | float bits => BigEndian.encode 4 bits.toNat
  | double bits => BigEndian.encode 8 bits.toNat
  | string val => arrayContent val
  | bytes val => arrayContent val.val

/-- What `readSdnv` leaves in a value that was zero, also when it fails. -/
def sdnvLeft (buf : Bytes) (lenRemain : Nat) : UInt64 :=
  if lenRemain < 1 then 0
  else match copySdnv (min lenRemain SDNV.maxLength - 1) buf [] with
    | .ok (some sdnv) => (SDNV.decode sdnv).2
    | _ => 0

/-- `readRawContent` of a type with content of a fixed length. -/
def readFixed (len : Nat) (buf : Bytes) (value : Nat → Primitives) :
    Except Trap (Int × Primitives) :=
  if buf.length < len then .error .outside else .ok (len, value (BigEndian.decode (buf.take len)))

/-- The value behind the length: a single zero byte stands for the empty value. -/
def arrayValue (len : UInt64) (arr : Bytes) : Bytes := if len = 1 ∧ arr = [0] then [] else arr

theorem arrayValue_fits (len : UInt64) (buf : Bytes) :
    (arrayValue len (buf.take (len.toNat % 2 ^ 32))).length < 2 ^ 32 := by
  have hmod : len.toNat % 2 ^ 32 < 2 ^ 32 := Nat.mod_lt _ (by decide)
  have htake := List.length_take_le (len.toNat % 2 ^ 32) buf
  unfold arrayValue
  split
  · decide
  · omega

/-- `readRawContent` of `String` and `Bytes`, with the number of bytes that are copied. The length
is checked as an `unsigned int`, and the result is an `int`. -/
def readArray (p : Primitives) (buf : Bytes) (lenRemain : Nat) (copied : UInt64 → Nat)
    (value : UInt64 → Bytes → Primitives) : Except Trap (Int × Primitives) := do
  match ← readSdnv buf lenRemain with
  | .error code => .ok (code, p)
  | .ok (num, len) =>
      if lenRemain - num < len.toNat % 2 ^ 32 then .ok (errLength, p)
      else if (buf.drop num).length < copied len then .error .outside
      else .ok (toInt (num + len.toNat), value len (buf.drop num))

/-- `readRawContent`: an error code or the number of bytes, and the type. -/
def readRawContent (p : Primitives) (buf : Bytes) (lenRemain : Nat) :
    Except Trap (Int × Primitives) :=
  match p with
  | boolean _ =>
      match buf with
      | [] => .error .outside
      | val :: _ => .ok (1, .boolean (val ≠ 0))
  | uint64 _ => do
      match ← readSdnv buf lenRemain with
      | .error code => .ok (code, p)
      | .ok (num, val) => .ok (num, .uint64 val)
  | sint64 _ => do
      match ← readSdnv buf lenRemain with
      -- The result is compared with zero only, so an error code comes with a new value.
      | .error code => .ok (code, .sint64 (sdnvLeft buf lenRemain).toInt64)
      | .ok (num, val) => .ok (num, .sint64 val.toInt64)
  | fixed16 _ => readFixed 2 buf fun n => .fixed16 (UInt16.ofNat n)
  | fixed32 _ => readFixed 4 buf fun n => .fixed32 (UInt32.ofNat n)
  | fixed64 _ => readFixed 8 buf fun n => .fixed64 (UInt64.ofNat n)
  | float _ => readFixed 4 buf fun n => .float (UInt32.ofNat n)
  | double _ => readFixed 8 buf fun n => .double (UInt64.ofNat n)
  | string _ => readArray p buf lenRemain UInt64.toNat fun len behind =>
      .string (arrayValue len (behind.take len.toNat))
  | bytes _ => readArray p buf lenRemain (fun len => len.toNat % 2 ^ 32) fun len behind =>
      .bytes ⟨arrayValue len (behind.take (len.toNat % 2 ^ 32)), arrayValue_fits len behind⟩

end Primitives

/-! ## Datatypes -/

/-- A datatype with its flag `content_read_`. The children of a constructed type are the entries of
its map, in the order of the tags. -/
inductive BaseDatatype where
  | primitive (value : Primitives) (filled : Bool)
  | constructed (tag : UInt8) (components : List BaseDatatype) (filled : Bool)

namespace BaseDatatype

def getTag : BaseDatatype → UInt8
  | primitive value _ => value.getTag
  | constructed tag _ _ => tag

def isFilled : BaseDatatype → Bool
  | primitive _ filled => filled
  | constructed _ _ filled => filled

end BaseDatatype

mutual

def BaseDatatype.getLength : BaseDatatype → Nat
  | .primitive value _ => (1 + value.getRawContent.length) % 2 ^ 32
  | .constructed _ components _ =>
      (1 + SDNV.encodingLen (UInt64.ofNat (ConstructedType.getComponentsLength components)) +
        ConstructedType.getComponentsLength components) % 2 ^ 32

def ConstructedType.getComponentsLength : List BaseDatatype → Nat
  | [] => 0
  | c :: cs => (c.getLength + ConstructedType.getComponentsLength cs) % 2 ^ 32

end

/-! ## Writing -/

/-- `PrimitiveType::write`: an error code, or the bytes, whose number is the result. -/
def PrimitiveType.write (value : Primitives) (len lenRemain : Nat) :
    Except Trap (Except Int Bytes) :=
  if lenRemain < len then .ok (.error errLength)
  else if lenRemain < 1 + value.getRawContent.length then .error .overrun
  else .ok (.ok (value.getTag :: value.getRawContent))

/-- `ConstructedType::write`, with the lengths of the type and of its components and the loop that
writes the components into what remains. -/
def ConstructedType.write (tag : UInt8) (len compLen lenRemain : Nat)
    (components : Int → Except Trap (Except Int Bytes)) : Except Trap (Except Int Bytes) :=
  if lenRemain < len then .ok (.error errLength)
  else if lenRemain < 1 then .error .overrun
  else
    let remaining := toInt lenRemain - 1
    match SDNV.encode (UInt64.ofNat compLen) (remaining % 2 ^ 32).toNat with
    | none => .ok (.error errLength)
    | some number =>
        if number.length ≠ SDNV.encodingLen (UInt64.ofNat compLen) then .ok (.error errProcessing)
        else do
          match ← components (remaining - number.length) with
          | .error code => .ok (.error code)
          | .ok body =>
              .ok (if body.length ≠ compLen then .error errLength
                else .ok (tag :: (number ++ body)))

mutual

def BaseDatatype.write : BaseDatatype → Nat → Except Trap (Except Int Bytes)
  | .primitive value filled, lenRemain =>
      PrimitiveType.write value (BaseDatatype.primitive value filled).getLength lenRemain
  | .constructed tag components filled, lenRemain =>
      ConstructedType.write tag (BaseDatatype.constructed tag components filled).getLength
        (ConstructedType.getComponentsLength components) lenRemain fun remaining =>
          ConstructedType.writeComponents components remaining 0
            (ConstructedType.getComponentsLength components)

/-- The loop of `ConstructedType::write` over the components. -/
def ConstructedType.writeComponents :
    List BaseDatatype → Int → Nat → Nat → Except Trap (Except Int Bytes)
  | [], _, _, _ => .ok (.ok [])
  | c :: cs, remaining, structBytes, compLen =>
      if remaining ≤ 0 ∨ compLen ≤ structBytes then .ok (.error errLength)
      else do
        match ← c.write remaining.toNat with
        | .error code => .ok (.error code)
        | .ok bytes =>
            if bytes.length < 2 then .ok (.error errProcessing)
            else do
              match ← ConstructedType.writeComponents cs (remaining - bytes.length)
                  (structBytes + bytes.length) compLen with
              | .error code => .ok (.error code)
              | .ok rest => .ok (.ok (bytes ++ rest))

end

/-! ## Reading -/

/-- `PrimitiveType::read`: an error code or the number of bytes, and the datatype. -/
def PrimitiveType.read (value : Primitives) (filled : Bool) (buf : Bytes) (lenRemain : Nat) :
    Except Trap (Int × BaseDatatype) :=
  if lenRemain < value.getMinLength then .ok (errLength, .primitive value filled)
  else match buf with
    | [] => .error .outside
    | tag :: ptr =>
        if tag ≠ value.getTag then .ok (errTag, .primitive value filled)
        else do
          let r ← value.readRawContent ptr (lenRemain - 1)
          if r.1 < 0 then .ok (r.1, .primitive r.2 filled) else .ok (1 + r.1, .primitive r.2 true)

namespace ConstructedType

/-- What is known when `ConstructedType::read` comes to the components. -/
structure Header where
  ptr : Bytes
  remaining : Int
  readBytes : Nat
  expected : Nat

/-- `ConstructedType::read` up to the length of the structure. -/
def readHeader (tag : UInt8) (buf : Bytes) (lenRemain : Nat) : Except Trap (Except Int Header) :=
  if lenRemain < 4 then .ok (.error errLength)
  else match buf with
    | [] => .error .outside
    | b :: ptr =>
        let remaining := toInt lenRemain - 1
        if b ≠ tag then .ok (.error errTag)
        else if remaining ≤ 0 ∨ remaining.toNat < 3 then .ok (.error errLength)
        else do
          match ← readSdnv ptr remaining.toNat with
          | .error code => .ok (.error code)
          | .ok (readBytes, value) =>
              let expected := value.toNat % 2 ^ 32
              let remaining := remaining - readBytes
              .ok (if remaining ≤ 0 ∨ remaining.toNat < expected then .error errLength
                else .ok ⟨ptr.drop readBytes, remaining, readBytes, expected⟩)

/-- How the loop over the components ends: the error code, the bytes that were read, the number of
components that were not reached, and the components. -/
structure Outcome where
  code : Int
  structBytes : Nat
  left : Nat
  components : List BaseDatatype

def getChild (components : List BaseDatatype) (tag : UInt8) : Option BaseDatatype :=
  components.find? fun child => decide (child.getTag = tag)

def setChild (components : List BaseDatatype) (tag : UInt8) (child : BaseDatatype) :
    List BaseDatatype :=
  components.map fun c => if c.getTag = tag then child else c

/-- The loop of `ConstructedType::read` over up to `left` components, with the `read` of a child. -/
def readComponents (read : BaseDatatype → Bytes → Nat → Except Trap (Int × BaseDatatype)) :
    Nat → List BaseDatatype → Bytes → Int → Nat → Nat → Except Trap Outcome
  | 0, components, _, _, structBytes, _ => .ok ⟨0, structBytes, 0, components⟩
  | left + 1, components, ptr, remaining, structBytes, expected =>
      if expected ≤ structBytes then .ok ⟨0, structBytes, left + 1, components⟩
      else if remaining ≤ 0 ∨ remaining.toNat < 2 then
        .ok ⟨errLength, structBytes, left + 1, components⟩
      else match ptr with
        | [] => .error .outside
        | tag :: _ =>
            match getChild components tag with
            | none => .ok ⟨errProcessing, structBytes, left + 1, components⟩
            | some child =>
                if child.isFilled then .ok ⟨errProcessing, structBytes, left + 1, components⟩
                else read child ptr remaining.toNat >>= fun r =>
                  if r.1 < 0 then .ok ⟨r.1, structBytes, left + 1, setChild components tag r.2⟩
                  else if r.1 < 2 then
                    .ok ⟨errProcessing, structBytes, left + 1, setChild components tag r.2⟩
                  else readComponents read left (setChild components tag r.2)
                    (ptr.drop r.1.toNat) (remaining - r.1) (structBytes + r.1.toNat) expected

/-- The end of `ConstructedType::read`. -/
def finish (tag : UInt8) (filled : Bool) (h : Header) (o : Outcome) : Int × BaseDatatype :=
  if o.code < 0 then (o.code, .constructed tag o.components filled)
  else if o.structBytes ≠ h.expected then (errLength, .constructed tag o.components filled)
  else if o.left ≠ 0 then (errProcessing, .constructed tag o.components filled)
  else (toInt (1 + h.readBytes + o.structBytes), .constructed tag o.components true)

end ConstructedType

namespace BaseDatatype

/-- `read` of a datatype whose types are nested no deeper than `depth`. -/
def readAt : Nat → BaseDatatype → Bytes → Nat → Except Trap (Int × BaseDatatype)
  | _, .primitive value filled, buf, lenRemain => PrimitiveType.read value filled buf lenRemain
  | 0, .constructed tag components filled, _, _ =>
      .ok (errProcessing, .constructed tag components filled)
  | depth + 1, .constructed tag components filled, buf, lenRemain => do
      match ← ConstructedType.readHeader tag buf lenRemain with
      | .error code => .ok (code, .constructed tag components filled)
      | .ok h => do
          let o ← ConstructedType.readComponents (readAt depth) components.length components h.ptr
            h.remaining 0 h.expected
          .ok (ConstructedType.finish tag filled h o)

end BaseDatatype

mutual

/-- How deep the constructed types are nested. -/
def BaseDatatype.depth : BaseDatatype → Nat
  | .primitive _ _ => 0
  | .constructed _ components _ => 1 + ConstructedType.depth components

def ConstructedType.depth : List BaseDatatype → Nat
  | [] => 0
  | c :: cs => max c.depth (ConstructedType.depth cs)

end

/-- `read` of a datatype: an error code or the number of bytes, and the datatype. -/
def BaseDatatype.read (t : BaseDatatype) (buf : Bytes) (lenRemain : Nat) :
    Except Trap (Int × BaseDatatype) :=
  t.readAt t.depth buf lenRemain

end IPND

end Dtn2
