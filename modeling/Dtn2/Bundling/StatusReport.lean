import Dtn2.Bundling.CustodySignal

/-!
# Bundle status reports

A report tells where a bundle went. Its payload names the event in a flag, with the time of the event
and a reason, and the bundle by its creation timestamp, its source and its fragment fields. The length
is computed in front of the writing. The parser works on a pointer and an unsigned length that it
counts down itself.
-/

namespace Dtn2

open Framework

/-! ## Decoding with a length of its own -/

namespace SDNV

/-- The loop of `SDNV::decode` on memory that may end before the length does. -/
def loopAt : Bytes → Nat → UInt64 → Nat → Exec (Option Nat × UInt64)
  | _, 0, val, _ => pure (none, val)
  | [], _ + 1, _, _ => .error (.fault .outOfBounds)
  | b :: bs, len + 1, val, valLen =>
      let val := (val <<< 7) ||| (b &&& 0x7f).toUInt64
      if b &&& 0x80 = 0 then pure (some (valLen + 1), val) else loopAt bs len val (valLen + 1)

/-- `SDNV::decode` on a pointer and a length. -/
def decodeAt (bp : Bytes) (len : Nat) : Exec (Option Nat × UInt64) := do
  match ← loopAt bp len 0 0 with
  | (none, val) => pure (none, val)
  | (some n, val) =>
      pure (if n > maxLength ∨ (n = maxLength ∧ bp.head? ≠ some 0x81) then (none, val)
        else (some n, val))

theorem loopAt_eq {bp : Bytes} {len : Nat} (h : len ≤ bp.length) (val : UInt64) (valLen : Nat) :
    loopAt bp len val valLen = .ok (decodeLoop (bp.take len) val valLen) := by
  induction len generalizing bp val valLen with
  | zero =>
      rw [List.take_zero]
      cases bp <;> rfl
  | succ len ih =>
      cases bp with
      | nil => exact absurd h (Nat.not_succ_le_zero len)
      | cons b bs =>
          rw [List.take_succ_cons, loopAt, decodeLoop]
          by_cases hb : b &&& 0x80 = 0
          · rw [if_pos hb, if_pos hb]
            rfl
          · rw [if_neg hb, if_neg hb]
            exact ih (Nat.le_of_succ_le_succ h) _ _

theorem decodeAt_eq {bp : Bytes} {len : Nat} (h : len ≤ bp.length) :
    decodeAt bp len = .ok (decode (bp.take len)) := by
  unfold decodeAt decode
  rw [loopAt_eq h, Exec.ok_bind]
  cases hloop : decodeLoop (bp.take len) 0 0 with
  | mk ret val =>
      cases ret with
      | none => rfl
      | some n =>
          have hpos : len ≠ 0 := by
            intro hzero
            rw [hzero, List.take_zero] at hloop
            cases hloop
          have hhead : (bp.take len).head? = bp.head? := by
            cases bp with
            | nil => simp
            | cons b bs =>
                cases len with
                | zero => exact absurd rfl hpos
                | succ len => rfl
          simp only [hhead]
          by_cases hbad : n > maxLength ∨ (n = maxLength ∧ bp.head? ≠ some 0x81)
          · rw [if_pos hbad]
            rfl
          · rw [if_neg hbad]
            rfl

end SDNV

/-! ## The fields of a report -/

inductive ReportTime where
  | receipt
  | custody
  | forwarding
  | delivery
  | deletion
  | ackByApp
deriving DecidableEq, Repr

/-- `flag_t`: the flag of the event. The two flags that are left have no use and no time. -/
def ReportTime.flag : ReportTime → UInt8
  | receipt => 0x01
  | custody => 0x02
  | forwarding => 0x04
  | delivery => 0x08
  | deletion => 0x10
  | ackByApp => 0x20

namespace BundleStatusReport

/-- `data_t`. -/
structure Data where
  adminType : UInt8
  adminFlags : UInt8
  statusFlags : UInt8
  reasonCode : UInt8
  origFragOffset : UInt64
  origFragLength : UInt64
  receiptTv : BundleTimestamp
  custodyTv : BundleTimestamp
  forwardingTv : BundleTimestamp
  deliveryTv : BundleTimestamp
  deletionTv : BundleTimestamp
  ackByAppTv : BundleTimestamp
  origCreationTv : BundleTimestamp
  origSourceEid : EndpointID
deriving DecidableEq, Repr

namespace Data

def time (d : Data) : ReportTime → BundleTimestamp
  | .receipt => d.receiptTv
  | .custody => d.custodyTv
  | .forwarding => d.forwardingTv
  | .delivery => d.deliveryTv
  | .deletion => d.deletionTv
  | .ackByApp => d.ackByAppTv

def setTime (d : Data) (tv : BundleTimestamp) : ReportTime → Data
  | .receipt => { d with receiptTv := tv }
  | .custody => { d with custodyTv := tv }
  | .forwarding => { d with forwardingTv := tv }
  | .delivery => { d with deliveryTv := tv }
  | .deletion => { d with deletionTv := tv }
  | .ackByApp => { d with ackByAppTv := tv }

end Data

/-! ## Writing -/

open CustodySignal in
def reportLength (now : UInt32) (orig : Bundle) : Nat :=
  3 + (if orig.isFragment = true then
      SDNV.encodingLen orig.fragOffset.toUInt64 + SDNV.encodingLen orig.origLength.toUInt64 else 0) +
    tsEncodingLen ⟨now.toUInt64, 0⟩ + tsEncodingLen orig.creationTs +
    (SDNV.encodingLen (UInt64.ofNat orig.source.uri.length) + orig.source.uri.length)

/-- Admin payload type and flags. -/
def adminByte (orig : Bundle) : UInt8 :=
  ((0x01 : UInt8) <<< 4) ||| if orig.isFragment = true then 0x01 else 0

open CustodySignal in
/-- What is written into the scratch buffer. -/
def reportBytes (now : UInt32) (orig : Bundle) (statusFlags reason : UInt8) : Exec Bytes := do
  let len := reportLength now orig - 3
  let fragment ← fragmentFields orig len
  let len := len - fragment.length
  let reportTime ← encodePair now.toUInt64 0 len
  let len := len - reportTime.length
  let creation ← encodePair orig.creationTs.seconds orig.creationTs.seqno len
  let len := len - creation.length
  let count ← encodeField (UInt64.ofNat orig.source.uri.length) len
  let len := len - count.length
  assertThat (len = orig.source.uri.length)
  pure (adminByte orig :: statusFlags :: reason ::
    (fragment ++ reportTime ++ creation ++ (count ++ orig.source.uri)))

/-- `create_status_report`: the report is made from the scratch buffer, up to the length that was
computed. -/
def createStatusReport (os : Oasys) (now : UInt32) (bundle orig : Bundle) (source : EndpointID)
    (statusFlags reason : UInt8) : Exec Bundle := do
  let written ← reportBytes now orig statusFlags reason
  let scratch := written ++ (List.range (reportLength now orig)).map os.junk
  pure { bundle with
    source := source
    dest := if orig.replyto.uri = EndpointID.nullEid.uri then orig.source else orig.replyto
    replyto := .nullEid
    custodian := .nullEid
    isAdmin := true
    expiration := orig.expiration
    payload := { bundle.payload with data := scratch.take (reportLength now orig) } }

/-! ## Reading -/

/-- The parser between two fields: what was stored, the memory from `bp` on, and `len`. -/
structure Parse where
  data : Data
  bp : Bytes
  len : UInt32
deriving DecidableEq, Repr

/-- Step over `n` bytes. -/
def Parse.advance (s : Parse) (n : Nat) : Parse :=
  { s with bp := s.bp.drop n, len := s.len - UInt32.ofNat n }

/-- A part of the parser; `false` is `return false`. -/
abbrev Step := Parse → Exec (Parse × Bool)

def Step.andThen (f g : Step) : Step := fun s => do
  let r ← f s
  if r.2 = true then g r.1 else pure (r.1, false)

def readByte (store : Data → UInt8 → Data) : Step := fun s =>
  if s.len < 1 then pure (s, false)
  else
    match s.bp with
    | [] => .error (.fault .outOfBounds)
    | b :: _ => pure ({ s.advance 1 with data := store s.data b }, true)

def checkType : Step := fun s => pure (s, decide (s.data.adminType = 0x01))

def readNumber (store : Data → UInt64 → Data) : Step := fun s => do
  let r ← SDNV.decodeAt s.bp s.len.toNat
  let s := { s with data := store s.data r.2 }
  match r.1 with
  | none => pure (s, false)
  | some n => pure (s.advance n, true)

/-- `get_timestamp` into the field that `get` reads and `store` writes: the first number is stored even
if the second fails. -/
def readTimestamp (get : Data → BundleTimestamp) (store : Data → BundleTimestamp → Data) : Step :=
  fun s => do
    let seconds ← SDNV.decodeAt s.bp s.len.toNat
    match seconds.1 with
    | none => pure (s, false)
    | some n => do
        let s' := { s with data := store s.data { get s.data with seconds := seconds.2 } }
        let seqno ← SDNV.decodeAt (s'.bp.drop n) (s'.len.toNat - n)
        match seqno.1 with
        | none => pure (s', false)
        | some m =>
            let data := store s'.data { get s'.data with seqno := seqno.2 }
            pure ({ s' with data := data }.advance (n + m), true)

/-- The fragment fields, if the flags announce them. -/
def readFragment : Step := fun s =>
  if s.data.adminFlags &&& 0x01 ≠ 0 then
    Step.andThen (readNumber fun d val => { d with origFragOffset := val })
      (readNumber fun d val => { d with origFragLength := val }) s
  else pure (s, true)

/-- The time of an event, if the status flags announce it. -/
def readAckTime (t : ReportTime) : Step := fun s =>
  if s.data.statusFlags &&& t.flag ≠ 0 then
    readTimestamp (fun d => d.time t) (fun d tv => d.setTime tv t) s
  else pure ({ s with data := s.data.setTime ⟨0, 0⟩ t }, true)

def readSource (os : Oasys) : Step := fun s => do
  let count ← SDNV.decodeAt s.bp s.len.toNat
  match count.1 with
  | none => pure (s, false)
  | some n =>
      let s := s.advance n
      if s.len.toUInt64 ≠ count.2 then pure (s, false)
      else if s.bp.length < s.len.toNat then .error (.fault .outOfBounds)
      else
        let eid := os.assign (s.bp.take s.len.toNat)
        pure ({ s.advance s.len.toNat with data := { s.data with origSourceEid := eid } }, eid.valid)

def readAckTimes : Step :=
  (readAckTime .receipt).andThen <| (readAckTime .custody).andThen <|
    (readAckTime .forwarding).andThen <| (readAckTime .delivery).andThen <|
      (readAckTime .deletion).andThen (readAckTime .ackByApp)

/-- The parts of `parse_status_report`. -/
def readReport (os : Oasys) : Step :=
  (readByte fun d b => { d with adminType := b >>> 4, adminFlags := b &&& 0xf }).andThen <|
    checkType.andThen <|
    (readByte fun d b => { d with statusFlags := b }).andThen <|
    (readByte fun d b => { d with reasonCode := b }).andThen <|
    readFragment.andThen <| readAckTimes.andThen <|
    (readTimestamp (fun d => d.origCreationTv) fun d tv => { d with origCreationTv := tv }).andThen
      (readSource os)

/-- `parse_status_report` on memory from `bp` on and a length. -/
def parseStatusReport (os : Oasys) (data : Data) (bp : Bytes) (len : UInt32) :
    Exec (Parse × Bool) :=
  readReport os ⟨data, bp, len⟩

end BundleStatusReport

end Dtn2
