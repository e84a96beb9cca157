import Dtn2.Discovery.IPNDAnnouncement

/-!
# The layout of a beacon

What a datagram holds by its own lengths and counts, taken as numbers of any size, and the course that
the parser takes through it: where it is stuck, where it rejects the datagram, and what it gets past
although it should not.
-/

namespace Dtn2

namespace IPND

open Framework

/-! ## Numbers -/

/-- The number at the start of a datagram and what follows it, if it ends within `room` bytes. -/
def splitNumber : Nat → Bytes → Option (Bytes × Bytes)
  | 0, _ => none
  | _ + 1, [] => none
  | room + 1, b :: d =>
      if b &&& 0x80 = 0 then some ([b], d) else (splitNumber room d).map fun s => (b :: s.1, s.2)

def shiftIn (v : Nat) (b : UInt8) : Nat := v * 128 + b.toNat % 128

def value (num : Bytes) : Nat := num.foldl shiftIn 0

/-- Numbers that `SDNV::decode` does not accept. -/
def Refused (num : Bytes) : Prop := num.length = SDNV.maxLength ∧ num.head? ≠ some 0x81

instance (num : Bytes) : Decidable (Refused num) := inferInstanceAs (Decidable (_ ∧ _))

/-! ## Well-formed beacons -/

/-- A number that is complete and fits 64 bits, and what follows it. -/
def number? (d : Bytes) : Option (Nat × Bytes) :=
  match splitNumber d.length d with
  | none => none
  | some (num, rest) => if value num < 2 ^ 64 then some (value num, rest) else none

/-- What follows a number and as many bytes as it says. -/
def field? (d : Bytes) : Option Bytes :=
  match number? d with
  | none => none
  | some (n, rest) => if n ≤ rest.length then some (rest.drop n) else none

def services? : Nat → Bytes → Option Bytes
  | 0, d => some d
  | _ + 1, [] => none
  | n + 1, _ :: d => (field? d).bind (services? n)

def eid? (flags : UInt8) (d : Bytes) : Option Bytes :=
  if flags &&& beaconContainsEid ≠ 0 then field? d else some d

def block? (version flags : UInt8) (d : Bytes) : Option Bytes :=
  if 4 ≤ version ∧ flags &&& beaconServiceBlock ≠ 0 then
    (number? d).bind fun n => services? n.1 n.2
  else some d

def period? (version flags : UInt8) (d : Bytes) : Option Bytes :=
  if 3 ≤ version ∧ flags &&& beaconContainsPeriod ≠ 0 then (number? d).map Prod.snd else some d

/-- What follows the beacon: `none` if the header is incomplete, a number is truncated or does not fit
64 bits, a length exceeds what is left, or services are missing. -/
def beacon? : Bytes → Option Bytes
  | version :: flags :: _ :: _ :: d =>
      ((eid? flags d).bind (block? version flags)).bind (period? version flags)
  | _ => none

/-! ## The course of the parser -/

/-- Where a part of the parser ends: in the use of something unset, with a rejection, or in front of the
next part; then `clean` says that it had no reason to reject the datagram. -/
inductive Course where
  | stuck
  | rejected
  | reached (rest : Bytes) (clean : Bool)
deriving DecidableEq, Repr

namespace Course

/-- Something that should have been rejected stays so. -/
def mark (clean : Bool) : Course → Course
  | .reached rest c => .reached rest (clean && c)
  | c => c

def andThen (c : Course) (f : Bytes → Course) : Course :=
  match c with
  | .reached rest clean => (f rest).mark clean
  | c => c

@[simp] theorem reached_andThen (rest : Bytes) (clean : Bool) (f : Bytes → Course) :
    (reached rest clean).andThen f = (f rest).mark clean := rfl

theorem mark_mark (a b : Bool) (c : Course) : (c.mark b).mark a = c.mark (a && b) := by
  cases c with
  | reached rest clean => simp only [mark, Bool.and_assoc]
  | stuck => rfl
  | rejected => rfl

theorem mark_andThen (b : Bool) (c : Course) (f : Bytes → Course) :
    (c.mark b).andThen f = (c.andThen f).mark b := by
  cases c with
  | reached rest clean => exact (mark_mark b clean (f rest)).symm
  | stuck => rfl
  | rejected => rfl

def Sound : Course → Prop
  | .stuck => False
  | .rejected => True
  | .reached _ clean => clean = true

instance (c : Course) : Decidable c.Sound :=
  match c with
  | .stuck => isFalse id
  | .rejected => isTrue trivial
  | .reached _ clean => inferInstanceAs (Decidable (clean = true))

end Course

/-- The endpoint id: its length is taken modulo 2^64. A refused length of one is the only one for which
the result wraps to zero. -/
def eidCourse (flags : UInt8) (d : Bytes) : Course :=
  if flags &&& beaconContainsEid ≠ 0 then
    match splitNumber SDNV.maxLength d with
    | none => .stuck
    | some (num, rest) =>
        if rest.length < value num % 2 ^ 64 then .stuck
        else if Refused num ∧ value num % 2 ^ 64 = 1 then .rejected
        else .reached (rest.drop (value num % 2 ^ 64)) (decide (value num < 2 ^ 64))
  else .reached d true

/-- The plugin does not take the structure of a service that it knows. -/
def bodyRefused (tag : UInt8) (buf : Bytes) : Bool :=
  match readService tag buf buf.length with
  | .ok (none, num) => decide (num ≠ 0)
  | .ok (some _, num) => decide (¬(0 < num ∧ num.toNat = buf.length))
  | .error _ => true

theorem bodyRefused_none {tag : UInt8} {buf : Bytes} {num : Int}
    (h : readService tag buf buf.length = .ok (none, num)) :
    bodyRefused tag buf = decide (num ≠ 0) := by
  rw [bodyRefused, h]

theorem bodyRefused_some {tag : UInt8} {buf : Bytes} {svc : ClaService} {num : Int}
    (h : readService tag buf buf.length = .ok (some svc, num)) :
    bodyRefused tag buf = decide (¬(0 < num ∧ num.toNat = buf.length)) := by
  rw [bodyRefused, h]

/-- A number of services. The length of a structure is taken modulo 2^64. -/
def servicesCourse : Nat → Bytes → Course
  | 0, d => .reached d true
  | _ + 1, [] => .stuck
  | n + 1, tag :: d =>
      if d.length < 3 then .stuck
      else match splitNumber SDNV.maxLength d with
        | none => .stuck
        | some (num, rest) =>
            let total := (1 + num.length + value num) % 2 ^ 64
            if Refused num ∨ (tag :: d).length < total ∨
                bodyRefused tag ((tag :: d).take total) = true then .rejected
            else (servicesCourse n ((tag :: d).drop total)).mark (decide (value num ≤ rest.length))

/-- The service block: the count is taken modulo 2^64, and then modulo 2^32. Services that take no bytes
at all are rejected. -/
def blockCourse (version flags : UInt8) (d : Bytes) : Course :=
  if 4 ≤ version ∧ flags &&& beaconServiceBlock ≠ 0 then
    match splitNumber SDNV.maxLength d with
    | none => .stuck
    | some (num, rest) =>
        if value num % 2 ^ 64 = 0 then .reached rest (decide (value num < 2 ^ 64))
        else if rest.length < 4 then .rejected
        else match servicesCourse (value num % 2 ^ 32) rest with
          | .reached rest' clean =>
              if rest'.length = rest.length then .rejected
              else .reached rest' (decide (value num < 2 ^ 32) && clean)
          | c => c
  else .reached d true

def periodCourse (version flags : UInt8) (d : Bytes) : Course :=
  if 3 ≤ version ∧ flags &&& beaconContainsPeriod ≠ 0 then
    match splitNumber SDNV.maxLength d with
    | none => .stuck
    | some (num, rest) => .reached rest (decide (value num < 2 ^ 64))
  else .reached d true

/-- The parts behind the sequence number. -/
def bodyCourse (version flags : UInt8) (d : Bytes) : Course :=
  ((eidCourse flags d).andThen (blockCourse version flags)).andThen (periodCourse version flags)

/-- The datagrams that the parser handles soundly: the version is not supported, or the header is
complete and so is the course through the parts behind it. -/
def Handled : Bytes → Prop
  | [] => False
  | version :: header =>
      version < 2 ∨ match header with
        | flags :: _ :: _ :: d => (bodyCourse version flags d).Sound
        | _ => False

/-! ## Numbers and the stream reader -/

theorem splitNumber_some {room : Nat} {d num rest : Bytes} (h : splitNumber room d = some (num, rest)) :
    d = num ++ rest ∧ 0 < num.length ∧ num.length ≤ room := by
  induction room generalizing d num with
  | zero =>
      rw [splitNumber] at h
      cases h
  | succ room ih =>
      cases d with
      | nil =>
          rw [splitNumber] at h
          cases h
      | cons b d =>
          rw [splitNumber] at h
          by_cases hb : b &&& 0x80 = 0
          · rw [if_pos hb] at h
            cases h
            simp
          · rw [if_neg hb] at h
            obtain ⟨s, hs, heq⟩ := Option.map_eq_some_iff.mp h
            cases heq
            obtain ⟨happ, hpos, hle⟩ := ih hs
            refine ⟨?_, ?_, ?_⟩
            · rw [List.cons_append, ← happ]
            · simp
            · simpa using hle

theorem splitNumber_room {room room' : Nat} {d num rest : Bytes}
    (h : splitNumber room d = some (num, rest)) (hle : num.length ≤ room') :
    splitNumber room' d = some (num, rest) := by
  induction room generalizing d num room' with
  | zero =>
      rw [splitNumber] at h
      cases h
  | succ room ih =>
      cases d with
      | nil =>
          rw [splitNumber] at h
          cases h
      | cons b d =>
          rw [splitNumber] at h
          by_cases hb : b &&& 0x80 = 0
          · rw [if_pos hb] at h
            cases h
            cases room' with
            | zero => simp at hle
            | succ room' => rw [splitNumber, if_pos hb]
          · rw [if_neg hb] at h
            obtain ⟨s, hs, heq⟩ := Option.map_eq_some_iff.mp h
            cases heq
            cases room' with
            | zero => simp at hle
            | succ room' =>
                rw [splitNumber, if_neg hb, ih hs (by simpa using hle)]
                rfl

theorem number?_of_split {room : Nat} {d num rest : Bytes}
    (h : splitNumber room d = some (num, rest)) :
    number? d = if value num < 2 ^ 64 then some (value num, rest) else none := by
  obtain ⟨happ, -, -⟩ := splitNumber_some h
  have hle : num.length ≤ d.length := by
    rw [happ, List.length_append]
    omega
  rw [number?, splitNumber_room h hle]

/-! ## Numbers and `SDNV::decode` -/

theorem shiftIn_uint64 (v : Nat) (b : UInt8) :
    (UInt64.ofNat v <<< 7) ||| (b &&& 0x7f).toUInt64 = UInt64.ofNat (shiftIn v b) := by
  have hlow : (b &&& 0x7f).toNat = b.toNat % 128 := by
    rw [UInt8.toNat_and]
    exact Nat.and_two_pow_sub_one_eq_mod b.toNat 7
  have h7 : (7 : UInt64).toNat % 64 = 7 := rfl
  have hhigh : v % 2 ^ 64 * 2 ^ 7 % 2 ^ 64 = 2 ^ 7 * (v % 2 ^ 57) := by omega
  apply UInt64.toNat_inj.mp
  rw [UInt64.toNat_or, UInt64.toNat_shiftLeft, UInt8.toNat_toUInt64, hlow, h7, UInt64.toNat_ofNat',
    UInt64.toNat_ofNat', Nat.shiftLeft_eq, hhigh,
    ← Nat.two_pow_add_eq_or_of_lt (by omega : b.toNat % 128 < 2 ^ 7), shiftIn]
  omega

theorem decodeLoop_split {room : Nat} {d num rest : Bytes} (h : splitNumber room d = some (num, rest))
    (v n : Nat) :
    SDNV.decodeLoop num (UInt64.ofNat v) n =
      (some (n + num.length), UInt64.ofNat (num.foldl shiftIn v)) := by
  induction room generalizing d num v n with
  | zero =>
      rw [splitNumber] at h
      cases h
  | succ room ih =>
      cases d with
      | nil =>
          rw [splitNumber] at h
          cases h
      | cons b d =>
          rw [splitNumber] at h
          by_cases hb : b &&& 0x80 = 0
          · rw [if_pos hb] at h
            cases h
            rw [SDNV.decodeLoop, if_pos hb, shiftIn_uint64]
            rfl
          · rw [if_neg hb] at h
            obtain ⟨s, hs, heq⟩ := Option.map_eq_some_iff.mp h
            cases heq
            rw [SDNV.decodeLoop, if_neg hb, shiftIn_uint64, ih hs, List.foldl_cons, List.length_cons,
              Nat.add_right_comm, Nat.add_assoc]

theorem decode_split {d num rest : Bytes} (h : splitNumber SDNV.maxLength d = some (num, rest)) :
    SDNV.decode num =
      (if Refused num then none else some num.length, UInt64.ofNat (value num)) := by
  have hlen := (splitNumber_some h).2.2
  have hloop := decodeLoop_split h 0 0
  rw [Nat.zero_add] at hloop
  have hloop' : SDNV.decodeLoop num 0 0 = (some num.length, UInt64.ofNat (value num)) := hloop
  simp only [SDNV.decode, hloop']
  by_cases hr : Refused num
  · rw [if_pos hr, if_pos]
    exact Or.inr hr
  · rw [if_neg hr, if_neg]
    intro hbad
    cases hbad with
    | inl hlong => omega
    | inr hhead => exact hr hhead

end IPND

end Dtn2
