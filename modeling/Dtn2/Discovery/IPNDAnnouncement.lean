import Dtn2.Discovery.Datatypes
import Dtn2.Framework.InputStream

/-!
# IPND beacons

The formatter and the parser of a neighbor discovery beacon: version, flags and sequence number, then
by the flags an endpoint id, a block of services and a period. The parser reads from a string stream,
and the numbers in a beacon are SDNVs.
-/

namespace Dtn2

namespace IPND

open Framework

structure IPNDAnnouncement where
  version : UInt8
  flags : UInt8
  sequenceNum : UInt16
  canonicalEid : EndpointID
  services : List IPNDService
  beaconPeriod : UInt64

def beaconContainsEid : UInt8 := 0x01

def beaconServiceBlock : UInt8 := 0x02

def beaconContainsPeriod : UInt8 := 0x08

/-! ## Reading numbers and strings from a stream -/

/-- The reading loop of `readSDNV`, with the room that is left in the buffer. A byte that cannot be read
leaves its place in the buffer unset, and behind the last place the buffer is overrun. -/
def readSDNVLoop : Nat → InputStream UInt8 → Bytes → Except Trap (Bytes × InputStream UInt8)
  | 0, _, _ => .error .overrun
  | room + 1, input, sdnv =>
      match input.read 1 with
      | ([b], input) =>
          if b &&& 0x80 = 0 then .ok (sdnv ++ [b], input) else readSDNVLoop room input (sdnv ++ [b])
      | _ => .error .unset

/-- `readSDNV`: the result, a `size_t` that is `-1` for a number that was not decoded, and the value. -/
def readSDNV (input : InputStream UInt8) : Except Trap (Nat × UInt64 × InputStream UInt8) := do
  let r ← readSDNVLoop SDNV.maxLength input []
  let decoded := SDNV.decode r.1
  .ok (if decoded.1 = some r.1.length then r.1.length else 2 ^ 64 - 1, decoded.2, r.2)

/-- `readStringWithSDNV`: the result, a `size_t`, and the string. -/
def readStringWithSDNV (input : InputStream UInt8) :
    Except Trap (Nat × Bytes × InputStream UInt8) := do
  let r ← readSDNV input
  if r.1 = 0 then .ok (2 ^ 64 - 1, [], r.2.2)
  else
    let data := r.2.2.read r.2.1.toNat
    if data.1.length < r.2.1.toNat then .error .unset
    else .ok ((r.1 + r.2.1.toNat) % 2 ^ 64, data.1, data.2)

/-! ## Reading services -/

/-- `DefaultIpndServicePlugin::readService`: the service and `*num_read`. -/
def readService (tag : UInt8) (buf : Bytes) (lenRemain : Nat) :
    Except Trap (Option ClaService × Int) :=
  if tag = ClaService.tcpV4 ∨ tag = ClaService.udpV4 then do
    let r ← (ClaService.unset tag).read buf lenRemain
    .ok (if r.1 < 0 then (none, r.1) else if r.1 = 0 then (none, errProcessing) else (some r.2, r.1))
  else .ok (none, 0)

/-- How the loop of `readServices` ends: the number of services that are still expected, the services
found, `*num_read` if it was set, the bytes used, and the stream. -/
structure ServiceLoop where
  left : Nat
  services : List ClaService
  numRead : Option Int
  totalRead : Nat
  input : InputStream UInt8

/-- The loop of `IPNDServiceFactory::readServices`. -/
def readServicesLoop : Nat → InputStream UInt8 → Nat → Nat → List ClaService → Except Trap ServiceLoop
  | 0, input, _, totalRead, services => .ok ⟨0, services, none, totalRead, input⟩
  | left + 1, input, lenRemain, totalRead, services =>
      if lenRemain < 4 then .ok ⟨left + 1, services, none, totalRead, input⟩
      else match input.read 1 with
        | ([tag], rest) =>
            readSDNV rest >>= fun number =>
              let result := toInt number.1
              let len := number.2.1.toNat
              if result ≤ 0 then
                .ok ⟨left + 1, services, some errProcessing, totalRead, number.2.2⟩
              else if lenRemain < (1 + result.toNat + len) % 2 ^ 64 then
                .ok ⟨left + 1, services, some errLength, totalRead, number.2.2⟩
              else
                let structureLen := (1 + result.toNat + len) % 2 ^ 32
                -- back to the tag, to read the structure as a whole into a zeroed buffer
                let raw := (number.2.2.seek (Int.bmod input.tellg (2 ^ 32))).read structureLen
                let buf := raw.1 ++ List.replicate (structureLen - raw.1.length) 0
                readService tag buf structureLen >>= fun r =>
                  match r with
                  | (none, num) =>
                      if num < 0 then .ok ⟨left + 1, services, some num, totalRead, raw.2⟩
                      else if num = 0 then
                        readServicesLoop left raw.2 (lenRemain - structureLen)
                          (totalRead + structureLen) services
                      else .ok ⟨left + 1, services, some errProcessing, totalRead, raw.2⟩
                  | (some svc, num) =>
                      if 0 < num ∧ num.toNat = structureLen then
                        readServicesLoop left raw.2 (lenRemain - structureLen)
                          (totalRead + structureLen) (services ++ [svc])
                      else .ok ⟨left + 1, services, some errProcessing, totalRead, raw.2⟩
        | _ => .error .unset

/-- `IPNDServiceFactory::readServices`: the services, `*num_read` if it was set, and the stream. -/
def readServices (expected : Nat) (input : InputStream UInt8) :
    Except Trap (List ClaService × Option Int × InputStream UInt8) :=
  let curPos := Int.bmod input.tellg (2 ^ 32)
  let atEnd := input.seekEnd
  let lenRemain := ((Int.bmod atEnd.tellg (2 ^ 32) - curPos) % 2 ^ 32).toNat
  if lenRemain < 4 then .ok ([], some errLength, atEnd)
  else do
    let e ← readServicesLoop expected (atEnd.seek curPos) lenRemain 0 []
    .ok (e.services, if e.left = 0 then some (toInt e.totalRead) else e.numRead, e.input)

/-! ## Parsing -/

namespace IPNDAnnouncement

variable (oasys : Oasys)

/-- The endpoint id of `parse`: whether to go on, the announcement and the stream. -/
def parseEid (ann : IPNDAnnouncement) (input : InputStream UInt8) :
    Except Trap (Bool × IPNDAnnouncement × InputStream UInt8) :=
  if ann.flags &&& beaconContainsEid ≠ 0 then do
    let r ← readStringWithSDNV input
    .ok (if r.1 = 0 then (false, ann, r.2.2)
      else (true, { ann with canonicalEid := oasys.assign r.2.1 }, r.2.2))
  else .ok (true, ann, input)

/-- What `parse` makes of the result of `readServices`. -/
def afterServices (ann : IPNDAnnouncement)
    (r : List ClaService × Option Int × InputStream UInt8) :
    Except Trap (Bool × IPNDAnnouncement × InputStream UInt8) :=
  match r with
  | (_, none, _) => .error .unset
  | (services, some result, input) =>
      .ok (decide (0 < result), { ann with services := services.map ClaService.toService }, input)

/-- The service block of `parse`. -/
def parseServices (ann : IPNDAnnouncement) (input : InputStream UInt8) :
    Except Trap (Bool × IPNDAnnouncement × InputStream UInt8) :=
  if 4 ≤ ann.version ∧ ann.flags &&& beaconServiceBlock ≠ 0 then do
    let r ← readSDNV input
    if r.1 = 0 then .ok (false, ann, r.2.2)
    else if r.2.1 = 0 then .ok (true, { ann with services := [] }, r.2.2)
    else do
      let found ← readServices (r.2.1.toNat % 2 ^ 32) r.2.2
      afterServices ann found
  else .ok (true, ann, input)

def parsePeriod (ann : IPNDAnnouncement) (input : InputStream UInt8) :
    Except Trap (Bool × IPNDAnnouncement) :=
  if 3 ≤ ann.version ∧ ann.flags &&& beaconContainsPeriod ≠ 0 then do
    let r ← readSDNV input
    .ok (if r.1 = 0 then (false, ann) else (true, { ann with beaconPeriod := r.2.1 }))
  else .ok (true, ann)

/-- The parts of `parse` behind the sequence number. -/
def parseBody (ann : IPNDAnnouncement) (input : InputStream UInt8) :
    Except Trap (Bool × IPNDAnnouncement) := do
  let r ← ann.parseEid oasys input
  if r.1 = false then .ok (false, r.2.1)
  else do
    let s ← r.2.1.parseServices r.2.2
    if s.1 = false then .ok (false, s.2.1) else s.2.1.parsePeriod s.2.2

/-- `parse`: the result, and the announcement. `get` at the end of the stream gives `0xff`. -/
def parse (ann : IPNDAnnouncement) (bp : Bytes) : Except Trap (Bool × IPNDAnnouncement) :=
  let version := (InputStream.ofList bp).get
  let ann := { ann with version := version.1.getD 0xff }
  if 2 ≤ ann.version then
    let flags := version.2.get
    let sn := flags.2.read 2
    parseBody oasys { ann with
      flags := flags.1.getD 0xff
      sequenceNum :=
        UInt16.ofNat (BigEndian.decode (sn.1 ++ List.replicate (2 - sn.1.length) 0)) } sn.2
  else .ok (false, ann)

/-! ## Formatting -/

/-- `writeStringWithSDNV`: what is written, and the length that is counted. The string is written up to
its first NUL. -/
def writeStringWithSDNV (value : Bytes) : Bytes × Nat :=
  (SDNV.encoded (UInt64.ofNat value.length) ++ cString value,
    SDNV.encodingLen (UInt64.ofNat value.length) + value.length)

end IPNDAnnouncement

/-- The raw form of a service in a beacon, `none` for a service that is left out. -/
def IPNDService.raw (svc : IPNDService) : Option Bytes :=
  if svc.filled then
    match svc.datatype.write svc.datatype.getLength with
    | .ok bytes => if bytes.length = svc.datatype.getLength then some bytes else none
    | .error _ => none
  else none

namespace IPNDAnnouncement

/-- The flags that `format` sets. -/
def formatFlags (ann : IPNDAnnouncement) : UInt8 :=
  (if ann.canonicalEid.uri ≠ [] then beaconContainsEid else 0) |||
    (if ann.services ≠ [] then beaconServiceBlock else 0) |||
    (if 0 < ann.beaconPeriod ∧ 2 < ann.version then beaconContainsPeriod else 0)

/-- The endpoint id of `format`, and its counted length. -/
def formatEid (ann : IPNDAnnouncement) : Bytes × Nat :=
  if ann.formatFlags &&& beaconContainsEid ≠ 0 then writeStringWithSDNV ann.canonicalEid.uri
  else ([], 0)

/-- The service block of `format`. -/
def formatServices (ann : IPNDAnnouncement) : Bytes :=
  if 4 ≤ ann.version ∧ ann.formatFlags &&& beaconServiceBlock ≠ 0 then
    SDNV.encoded (UInt64.ofNat ann.services.length) ++
      (ann.services.filterMap IPNDService.raw).flatten
  else []

def formatPeriod (ann : IPNDAnnouncement) : Bytes :=
  if ann.formatFlags &&& beaconContainsPeriod ≠ 0 then SDNV.encoded ann.beaconPeriod else []

/-- What `format` writes to its stream. -/
def formatted (ann : IPNDAnnouncement) : Bytes :=
  [ann.version, ann.formatFlags] ++ BigEndian.encode 2 ann.sequenceNum.toNat ++ ann.formatEid.1 ++
    ann.formatServices ++ ann.formatPeriod

/-- The length that `format` counts. -/
def formattedLength (ann : IPNDAnnouncement) : Nat :=
  4 + ann.formatEid.2 + ann.formatServices.length + ann.formatPeriod.length

/-- `format` into a buffer of `len` bytes: the number of bytes, and the buffer. -/
def format (ann : IPNDAnnouncement) (bp : Bytes) (len : Nat) : Nat × Bytes :=
  if ann.formattedLength ≤ len then
    let stored := ann.formatted.take ann.formattedLength
    (ann.formattedLength, stored ++ bp.drop stored.length)
  else (0, bp)

end IPNDAnnouncement

end IPND

end Dtn2
