import Dtn2.Bundling.Core
import Dtn2.Framework.BigEndian

/-!
# The datatypes of a service definition

A service is a tag, the length of its components and the components. Every datatype reads itself from
a raw buffer and writes itself into one. The services of the repository hold primitive components of a
fixed size; what is sent may also be a service that the receiver does not know, with components of any
kind.
-/

namespace Dtn2

namespace IPND

open Framework

/-- The ways to leave what the source defines: a store or a read behind the end of a buffer, and the use
of a variable that was never set. -/
inductive Trap where
  | overrun
  | outside
  | unset
deriving DecidableEq, Repr

/-! ## Error codes -/

def errProcessing : Int := -1

def errLength : Int := -2

def errTag : Int := -3

/-! ## Numbers in a raw buffer -/

/-- The copying loop of `BaseDatatype::readSdnv`, with the room that is left up to the bound behind the
next byte. `none` if the bound is hit. -/
def copySdnv : Nat → Bytes → Bytes → Except Trap (Option Bytes)
  | _, [], _ => .error .outside
  | 0, b :: _, sdnv => .ok (if b &&& 0x80 = 0 then some (sdnv ++ [b]) else none)
  | room + 1, b :: buf, sdnv =>
      if b &&& 0x80 = 0 then .ok (some (sdnv ++ [b])) else copySdnv room buf (sdnv ++ [b])

/-- `BaseDatatype::readSdnv`: an error code, or the length of the number and its value. -/
def readSdnv (buf : Bytes) (lenRemain : Nat) : Except Trap (Except Int (Nat × UInt64)) :=
  if lenRemain < 1 then .ok (.error errLength)
  else do
    match ← copySdnv (min lenRemain SDNV.maxLength - 1) buf [] with
    | none => .ok (.error errLength)
    | some sdnv =>
        match SDNV.decode sdnv with
        | (some dLen, value) =>
            .ok (if dLen = sdnv.length then .ok (sdnv.length, value) else .error errProcessing)
        | (none, _) => .ok (.error errProcessing)

/-! ## Primitive types -/

/-- A primitive datatype with its raw content. -/
structure Primitive where
  tag : UInt8
  content : Bytes
  filled : Bool
  fits : content.length + 1 < 2 ^ 32
deriving DecidableEq, Repr

namespace Primitive

def getLength (p : Primitive) : Nat := 1 + p.content.length

theorem take_fits (p : Primitive) (bs : Bytes) :
    (bs.take p.content.length).length + 1 < 2 ^ 32 := by
  have hfits := p.fits
  rw [List.length_take]
  omega

/-- `PrimitiveType::read` for a type with content of a fixed length. -/
def read (p : Primitive) (buf : Bytes) (lenRemain : Nat) : Except Trap (Int × Primitive) :=
  if lenRemain < p.getLength then .ok (errLength, p)
  else match buf with
    | [] => .error .outside
    | tag :: rest =>
        if tag ≠ p.tag then .ok (errTag, p)
        else if rest.length < p.content.length then .error .outside
        else .ok (p.getLength,
          { tag := p.tag
            content := rest.take p.content.length
            filled := true
            fits := p.take_fits rest })

end Primitive

def Fixed16 : Primitive := ⟨3, [0, 0], false, by decide⟩

def Fixed16.ofValue (value : UInt16) : Primitive where
  tag := 3
  content := BigEndian.encode 2 value.toNat
  filled := true
  fits := by
    rw [BigEndian.length_encode]
    decide

def Fixed32 : Primitive := ⟨4, [0, 0, 0, 0], false, by decide⟩

def Fixed32.ofValue (value : UInt32) : Primitive where
  tag := 4
  content := BigEndian.encode 4 value.toNat
  filled := true
  fits := by
    rw [BigEndian.length_encode]
    decide

/-! ## Reading a service -/

/-- A service whose components are of a fixed size. -/
structure ClaService where
  tag : UInt8
  components : List Primitive
  filled : Bool
deriving DecidableEq, Repr

/-- How the loop over the components ends: the error code, the bytes that were read, the number of
components that were not reached, and the components. -/
structure Children where
  code : Int
  structBytes : Nat
  left : Nat
  components : List Primitive

/-- The loop of `ConstructedType::read` over up to `left` components. -/
def readChildren : Nat → List Primitive → Bytes → Int → Nat → Nat → Except Trap Children
  | 0, components, _, _, structBytes, _ => .ok ⟨0, structBytes, 0, components⟩
  | left + 1, components, ptr, remaining, structBytes, expected =>
      if expected ≤ structBytes then .ok ⟨0, structBytes, left + 1, components⟩
      else if remaining ≤ 0 ∨ remaining.toNat < 2 then .ok ⟨errLength, structBytes, left + 1, components⟩
      else match ptr with
        | [] => .error .outside
        | tag :: _ =>
            match components.find? fun child => decide (child.tag = tag) with
            | none => .ok ⟨errProcessing, structBytes, left + 1, components⟩
            | some child =>
                if child.filled then .ok ⟨errProcessing, structBytes, left + 1, components⟩
                else child.read ptr remaining.toNat >>= fun r =>
                  if r.1 < 0 then .ok ⟨r.1, structBytes, left + 1, components⟩
                  else if r.1 < 2 then .ok ⟨errProcessing, structBytes, left + 1, components⟩
                  else readChildren left (components.map fun c => if c.tag = tag then r.2 else c)
                    (ptr.drop r.1.toNat) (remaining - r.1) (structBytes + r.1.toNat) expected

namespace ClaService

/-- `TcpV4ClaService()` and `UdpV4ClaService()`, by their tag. -/
def unset (tag : UInt8) : ClaService := ⟨tag, [Fixed16, Fixed32], false⟩

/-- The tag of `cla-tcp-v4`. -/
def tcpV4 : UInt8 := 64

/-- The tag of `cla-udp-v4`. -/
def udpV4 : UInt8 := 65

/-- `TcpV4ClaService(ip_addr, port)` and `UdpV4ClaService(ip_addr, port)`, by their tag. -/
def ofParams (tag : UInt8) (addr : UInt32) (port : UInt16) : ClaService :=
  ⟨tag, [Fixed16.ofValue port, Fixed32.ofValue addr], true⟩

/-- `MIN_LEN_v4`. -/
def getMinLength : Nat := 10

/-- `ConstructedType::read`: an error code or the number of bytes, and the service. A service that
could not be read is deleted by the caller. -/
def read (svc : ClaService) (buf : Bytes) (lenRemain : Nat) : Except Trap (Int × ClaService) :=
  if lenRemain < getMinLength then .ok (errLength, svc)
  else match buf with
    | [] => .error .outside
    | tag :: ptr =>
        let remaining := toInt lenRemain - 1
        if tag ≠ svc.tag then .ok (errTag, svc)
        else if remaining ≤ 0 ∨ remaining.toNat < 3 then .ok (errLength, svc)
        else do
          match ← readSdnv ptr remaining.toNat with
          | .error code => .ok (code, svc)
          | .ok (readBytes, value) =>
              let expected := value.toNat % 2 ^ 32
              let remaining := remaining - readBytes
              if remaining ≤ 0 ∨ remaining.toNat < expected then .ok (errLength, svc)
              else do
                let r ← readChildren svc.components.length svc.components (ptr.drop readBytes)
                  remaining 0 expected
                if r.code < 0 then .ok (r.code, svc)
                else if r.structBytes ≠ expected then .ok (errLength, svc)
                else if r.left ≠ 0 then .ok (errProcessing, svc)
                else .ok (1 + readBytes + r.structBytes,
                  { svc with components := r.components, filled := true })

end ClaService

/-! ## Writing a service -/

/-- A datatype as the writer sees it. -/
inductive Datatype where
  | primitive (p : Primitive)
  | constructed (tag : UInt8) (components : List Datatype)

mutual

def Datatype.getLength : Datatype → Nat
  | .primitive p => p.getLength
  | .constructed _ components =>
      (1 + SDNV.encodingLen (UInt64.ofNat (getComponentsLength components)) +
        getComponentsLength components) % 2 ^ 32

def getComponentsLength : List Datatype → Nat
  | [] => 0
  | c :: cs => (c.getLength + getComponentsLength cs) % 2 ^ 32

end

mutual

/-- `write` of a datatype: an error code, or the bytes, whose number is the result. -/
def Datatype.write : Datatype → Nat → Except Int Bytes
  | .primitive p, lenRemain =>
      if lenRemain < p.getLength then .error errLength else .ok (p.tag :: p.content)
  | .constructed tag components, lenRemain =>
      if lenRemain < (Datatype.constructed tag components).getLength then .error errLength
      else
        let remaining := toInt lenRemain - 1
        let compLen := getComponentsLength components
        match SDNV.encode (UInt64.ofNat compLen) (remaining % 2 ^ 32).toNat with
        | none => .error errLength
        | some number =>
            if number.length ≠ SDNV.encodingLen (UInt64.ofNat compLen) then .error errProcessing
            else match writeComponents components (remaining - number.length) 0 compLen with
              | .error code => .error code
              | .ok body =>
                  if body.length ≠ compLen then .error errLength else .ok (tag :: (number ++ body))

/-- The loop of `ConstructedType::write` over the components. -/
def writeComponents : List Datatype → Int → Nat → Nat → Except Int Bytes
  | [], _, _, _ => .ok []
  | c :: cs, remaining, structBytes, compLen =>
      if remaining ≤ 0 ∨ compLen ≤ structBytes then .error errLength
      else match c.write remaining.toNat with
        | .error code => .error code
        | .ok bytes =>
            if bytes.length < 2 then .error errProcessing
            else match writeComponents cs (remaining - bytes.length) (structBytes + bytes.length)
                compLen with
              | .error code => .error code
              | .ok rest => .ok (bytes ++ rest)

end

structure IPNDService where
  tag : UInt8
  components : List Datatype
  filled : Bool

def IPNDService.datatype (svc : IPNDService) : Datatype := .constructed svc.tag svc.components

def ClaService.toService (svc : ClaService) : IPNDService :=
  ⟨svc.tag, svc.components.map .primitive, svc.filled⟩

end IPND

end Dtn2
