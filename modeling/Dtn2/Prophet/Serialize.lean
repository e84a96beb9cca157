import Dtn2.Prophet.Deserialize

/-!
# Writing Prophet messages

The serializers get a pointer into a buffer and a count of bytes that they may use. The memory from
the pointer to the end of the buffer is a list, and a write behind its end is a fault. Some bytes of
the headers are never written and keep what the memory held. The lengths of the TLVs and of the
message are 16-bit fields.
-/

namespace Dtn2

namespace Prophet

open Framework

def overwrite (bp bytes : Bytes) : Exec Bytes :=
  if bytes.length ≤ bp.length then pure (bytes ++ bp.drop bytes.length)
  else .error (.fault .outOfBounds)

/-- A name in `copylen` bytes: its length is stored in one byte, and what is behind that length is
zeroed. -/
def paddedName (name : Bytes) (copylen : Nat) : Bytes :=
  name.take (name.length % 256) ++ List.replicate (copylen - name.length % 256) 0

/-! ## Lengths -/

def Dictionary.guessRibdSize (d : Dictionary) : Nat :=
  (d.rribd.map fun e => fourByteAlign (routingAddressStringSize + e.2.length)).sum

/-- The length that the constructor of a TLV computes. In that of the hello, the condition of
`FOUR_BYTE_ALIGN` is added to the size of the header and always holds. -/
def Body.estimate : Body → Nat
  | hello _ _ sender => sender.length + (4 - sender.length % 4)
  | ribd d => ribdHeaderSize + d.guessRibdSize
  | rib nodes _ _ _ => ribHeaderSize + ribEntrySize * nodes.length
  | offer l => bundleEntrySize * l.list.length
  | response l => bundleEntrySize * l.list.length

def TLV.new (body : Body) : TLV := ⟨body, 0, UInt16.ofNat body.estimate⟩

/-! ## The serializers -/

namespace HelloTLV

def bytes (hf : HelloHf) (timer : UInt8) (sender : Bytes) (size : Nat) : Bytes :=
  [(0x01 : UInt8), hf.toBits <<< 5] ++ BigEndian.encode 2 size ++ [timer, UInt8.ofNat sender.length] ++ sender ++
    List.replicate (size - (helloHeaderSize + sender.length)) 0

/-- `HelloTLV::serialize`: the memory, the count it returns and the length of the TLV. -/
def serialize (hf : HelloHf) (timer : UInt8) (sender : Bytes) (length : UInt16) (bp : Bytes)
    (len : Nat) : Exec (Bytes × Nat × UInt16) :=
  let helloSz := fourByteAlign (sender.length + helloHeaderSize)
  if sender = [] then pure (bp, 0, length)
  else if helloSz > len then pure (bp, 0, length)
  else do
    let bp ← overwrite bp (bytes hf timer sender helloSz)
    pure (bp, helloSz, UInt16.ofNat helloSz)

end HelloTLV

namespace RIBDTLV

/-- `write_ras_entry`; the byte behind the length is left as it is. -/
def writeRasEntry (sid : UInt16) (destId bp : Bytes) (len : Nat) : Exec (Bytes × Nat) :=
  let copylen := fourByteAlign destId.length
  if routingAddressStringSize + copylen > len then pure (bp, 0)
  else do
    let bp ← overwrite bp (BigEndian.encode 2 sid.toNat ++ [UInt8.ofNat destId.length, bp.getD 3 0] ++
      paddedName destId copylen)
    pure (bp, routingAddressStringSize + copylen)

/-- The loop over the entries: the memory, the length of the TLV and the count of entries. -/
def writeEntries : List (UInt16 × Bytes) → Bytes → Nat → UInt16 → Nat → Exec (Bytes × UInt16 × Nat)
  | [], bp, _, length, count => pure (bp, length, count)
  | (sid, destId) :: rest, bp, len, length, count =>
      if sid.toNat < 2 then writeEntries rest bp len length count
      else do
        let (bp, written) ← writeRasEntry sid destId bp len
        if written = 0 then pure (bp, length, count)
        else
          let (tail, length, count) ← writeEntries rest (bp.drop written) (len - written)
            (length + UInt16.ofNat written) (count + 1)
          pure (bp.take written ++ tail, length, count)

def serialize (d : Dictionary) (length : UInt16) (bp : Bytes) (len : Nat) :
    Exec (Bytes × Nat × UInt16) :=
  if d.guessRibdSize + ribdHeaderSize > len then pure (bp, 0, length)
  else do
    let bp ← overwrite bp (List.replicate ribdHeaderSize 0)
    let (tail, length, count) ← writeEntries d.rribd (bp.drop ribdHeaderSize) len
      (UInt16.ofNat ribdHeaderSize) 0
    pure ([0xA0, 0] ++ BigEndian.encode 2 length.toNat ++ BigEndian.encode 2 count ++ [0, 0] ++ tail,
      length.toNat, length)

end RIBDTLV

namespace RIBTLV

def flagsByte (relay custody internet : Bool) : UInt8 :=
  (if relay then relayNode else 0) ||| (if custody then custodyNode else 0) |||
    (if internet then internetGwNode else 0)

def writeRibEntry (node : RIBNode) (bp : Bytes) (len : Nat) : Exec (Bytes × Nat) :=
  if ribEntrySize > len then pure (bp, 0)
  else do
    let bp ← overwrite bp (BigEndian.encode 2 node.sid.toNat ++
      [node.pvalue, flagsByte node.relay node.custody node.internetGw])
    pure (bp, ribEntrySize)

def writeEntries : List RIBNode → Bytes → Nat → UInt16 → Nat → Exec (Bytes × UInt16 × Nat)
  | [], bp, _, length, count => pure (bp, length, count)
  | node :: rest, bp, len, length, count => do
      let (bp, written) ← writeRibEntry node bp len
      if written = 0 then pure (bp, length, count)
      else
        let (tail, length, count) ← writeEntries rest (bp.drop written) (len - written)
          (length + UInt16.ofNat written) (count + 1)
        pure (bp.take written ++ tail, length, count)

/-- `RIBTLV::serialize`; the last two bytes of the header are left as they are. -/
def serialize (nodes : List RIBNode) (relay custody internet : Bool) (length : UInt16) (bp : Bytes)
    (len : Nat) : Exec (Bytes × Nat × UInt16) :=
  if ribHeaderSize + ribEntrySize * nodes.length > len then pure (bp, 0, length)
  else do
    let (tail, length, count) ← writeEntries nodes (bp.drop ribHeaderSize) len
      (UInt16.ofNat ribHeaderSize) 0
    let head ← overwrite (bp.take ribHeaderSize) ([0xA1, flagsByte relay custody internet] ++
      BigEndian.encode 2 length.toNat ++ BigEndian.encode 2 count ++ [bp.getD 6 0, bp.getD 7 0])
    pure (head ++ tail, length.toNat, length)

end RIBTLV

namespace BundleTLV

def flagsByte (e : BundleTLVEntry) : UInt8 :=
  (if e.custody then custodyFlag else 0) ||| (if e.accept then acceptedFlag else 0) |||
    (if e.ack then ackFlag else 0)

def writeBundleEntry (e : BundleTLVEntry) (bp : Bytes) (len : Nat) : Exec (Bytes × Nat) :=
  if e.type = .undefined then pure (bp, 0)
  else if bundleEntrySize > len then pure (bp, 0)
  else do
    let bp ← overwrite bp (BigEndian.encode 2 e.sid.toNat ++ [flagsByte e, 0] ++
      BigEndian.encode 4 e.creationTs.toNat ++ BigEndian.encode 4 e.seqno.toNat)
    pure (bp, bundleEntrySize)

def writeEntries : List BundleTLVEntry → Bytes → Nat → UInt16 → Exec (Bytes × UInt16)
  | [], bp, _, length => pure (bp, length)
  | e :: rest, bp, len, length => do
      let (bp, written) ← writeBundleEntry e bp len
      if bundleEntrySize > written then pure (bp, length)
      else
        let (tail, length) ← writeEntries rest (bp.drop written) (len - written)
          (length + UInt16.ofNat written)
        pure (bp.take written ++ tail, length)

/-- The body that `OfferTLV::serialize` and `ResponseTLV::serialize` share. -/
def serialize (typecode : UInt8) (list : List BundleTLVEntry) (length : UInt16) (bp : Bytes)
    (len : Nat) : Exec (Bytes × Nat × UInt16) :=
  if bundleHeaderSize + bundleEntrySize * list.length > len then pure (bp, 0, length)
  else do
    let bp ← overwrite bp (List.replicate bundleHeaderSize 0)
    let (tail, length) ← writeEntries list (bp.drop bundleHeaderSize) (len - bundleHeaderSize)
      (UInt16.ofNat bundleHeaderSize)
    pure ([typecode, 0] ++ BigEndian.encode 2 length.toNat ++ BigEndian.encode 2 list.length ++
      [0, 0] ++ tail, length.toNat, length)

end BundleTLV

def TLV.serialize (tlv : TLV) (bp : Bytes) (len : Nat) : Exec (Bytes × Nat × UInt16) :=
  match tlv.body with
  | .hello hf timer sender => HelloTLV.serialize hf timer sender tlv.length bp len
  | .ribd d => RIBDTLV.serialize d tlv.length bp len
  | .rib nodes relay custody internet =>
      RIBTLV.serialize nodes relay custody internet tlv.length bp len
  | .offer l => BundleTLV.serialize 0xA2 l.list tlv.length bp len
  | .response l => BundleTLV.serialize 0xA3 l.list tlv.length bp len

namespace ProphetTLV

def new (src dst : Bytes) (result : HeaderResult) (localInstance remoteInstance : UInt16)
    (tid : UInt32) : Message :=
  ⟨src, dst, result, localInstance, remoteInstance, tid, UInt16.ofNat prophetHeaderSize, []⟩

def withTlvs (p : Message) (bodies : List Body) : Message :=
  bodies.foldl (fun p b => p.addTlv (.new b)) p

theorem withTlvs_list (p : Message) (bodies : List Body) :
    (withTlvs p bodies).list = p.list ++ bodies.map TLV.new := by
  induction bodies generalizing p with
  | nil => simp [withTlvs]
  | cons b rest ih =>
      have hstep := ih (p.addTlv (.new b))
      rw [List.map_cons]
      change (withTlvs (p.addTlv (.new b)) rest).list = _
      rw [hstep]
      simp [Message.addTlv]

/-- The loop over the TLVs: the memory, the count of bytes left and the length so far. -/
def writeTlvs : List TLV → Bytes → Nat → UInt16 → Exec (Bytes × Nat × UInt16)
  | [], bp, len, length => pure (bp, len, length)
  | tlv :: rest, bp, len, length => do
      let (bp, written, tlvLength) ← tlv.serialize bp len
      if written ≠ tlvLength.toNat then pure (bp, len, length)
      else
        let (tail, len, length) ← writeTlvs rest (bp.drop written) (len - written)
          (length + UInt16.ofNat written)
        pure (bp.take written ++ tail, len, length)

def headerBytes (p : Message) (length : UInt16) : Bytes :=
  [version, 0, p.result.toByte, 0] ++ BigEndian.encode 2 p.senderInstance.toNat ++
    BigEndian.encode 2 p.receiverInstance.toNat ++ BigEndian.encode 4 p.tid.toNat ++ [0, 0] ++
    BigEndian.encode 2 length.toNat

/-- `ProphetTLV::serialize` into a whole buffer: the memory and the count it returns. The TLVs get
the count of bytes of the whole buffer. -/
def serialize (p : Message) (bp : Bytes) : Exec (Bytes × Nat) :=
  if prophetHeaderSize > bp.length then pure (bp, 0)
  else do
    let (tail, len, length) ← writeTlvs p.list (bp.drop prophetHeaderSize) bp.length 0
    let zeroed := List.replicate prophetHeaderSize 0
    if prophetHeaderSize > len then pure (zeroed ++ tail, 0)
    else
      let length := length + UInt16.ofNat prophetHeaderSize
      pure (headerBytes p length ++ tail, length.toNat)

end ProphetTLV

end Prophet

end Dtn2
