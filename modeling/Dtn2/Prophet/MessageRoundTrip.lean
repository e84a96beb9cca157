import Dtn2.Prophet.ReadBack
import Mathlib.Algebra.Order.BigOperators.Group.List
import Mathlib.Data.List.Forall2

/-!
# The Prophet message round trip

`Encounter::send_tlv` serializes a message into a buffer of its `length()` and 512 bytes more. The
length comes from the constructors of the TLVs, which count too little for hellos, offers and
responses, and it is a 16-bit number. The TLVs are given the whole buffer as room, although the
header of the message is in it.
-/

namespace Dtn2

namespace Prophet

open Framework

namespace ProphetTLV

/-- The buffer of `send_tlv`, with what the memory held. -/
def sendBuffer (junk : Nat → UInt8) (p : Message) : Bytes :=
  (List.range (p.length.toNat + 512)).map junk

structure Delivered (p q : Message) : Prop where
  result : q.result = p.result
  senderInstance : q.senderInstance = p.senderInstance
  receiverInstance : q.receiverInstance = p.receiverInstance
  tid : q.tid = p.tid
  list : List.Forall₂ (fun a b => a.body.Same b.body) p.list q.list

/-- `serialize` stays inside the buffer, and what it says it has written is read back. -/
def RoundTrips (p : Message) (buffer : Bytes) : Prop :=
  ∃ memory n, serialize p buffer = .ok (memory, n) ∧
    (0 < n → ∃ fuel q, deserialize fuel p.src p.dst (memory.take n) = .ok (some q) ∧ Delivered p q)

def totalSize (bodies : List Body) : Nat := (bodies.map Body.size).sum

def totalEstimate (bodies : List Body) : Nat := (bodies.map Body.estimate).sum

def room (bodies : List Body) : Nat := (16 + totalEstimate bodies) % 65536 + 496

/-- Every name has between 1 and 255 bytes (in a hello) or at most 255 (in a dictionary), the message
has less than 65536 bytes, and it fits in the buffer. -/
structure Sendable (bodies : List Body) : Prop where
  named : ∀ b ∈ bodies, b.Writable ∧ b.NamesFit
  short : 16 + totalSize bodies < 65536
  fits : totalSize bodies ≤ room bodies

/-- The bytes that TLVs of these sizes take up in the given room; nothing if one of them leaves the
buffer. A TLV that is refused ends the message, unless its constructor has computed the length 0. -/
def packed : List Body → Nat → Option Nat
  | [], _ => some 0
  | b :: rest, room =>
      if ¬ b.Writable ∨ room + 16 < b.size then
        if b.estimate % 65536 = 0 then packed rest room else some 0
      else if room < b.size then none
      else if b.written ≠ b.size % 65536 then some 0
      else (packed rest (room - b.size % 65536)).map (· + b.size % 65536)

/-! ## Writing -/

theorem withTlvs_length (p : Message) (bodies : List Body) :
    (withTlvs p bodies).length = p.length + UInt16.ofNat (totalEstimate bodies) := by
  induction bodies generalizing p with
  | nil => simp [withTlvs, totalEstimate]
  | cons b rest ih =>
      have hstep := ih (p.addTlv (.new b))
      change (withTlvs (p.addTlv (.new b)) rest).length = _
      rw [hstep]
      simp only [Message.addTlv, TLV.new, totalEstimate, List.map_cons, List.sum_cons,
        UInt16.ofNat_add, UInt16.add_assoc]

theorem estimate_toNat (b : Body) : (TLV.new b).length.toNat = b.estimate % 65536 := by
  rw [TLV.new, UInt16.toNat_ofNat']

theorem toNat_size (b : Body) : (UInt16.ofNat b.size).toNat = b.size % 65536 := by
  rw [UInt16.toNat_ofNat']

theorem writeTlvs_packed (bodies : List Body) (bp : Bytes) (length : UInt16) :
    (packed bodies bp.length = none ∧
      writeTlvs (bodies.map TLV.new) bp (bp.length + 16) length = .error (.fault .outOfBounds)) ∨
    ∃ w memory, packed bodies bp.length = some w ∧ w ≤ bp.length ∧
      writeTlvs (bodies.map TLV.new) bp (bp.length + 16) length =
        .ok (memory, bp.length + 16 - w, length + UInt16.ofNat w) := by
  induction bodies generalizing bp length with
  | nil => exact Or.inr ⟨0, bp, rfl, Nat.zero_le _, by simp [writeTlvs, pure, Except.pure]⟩
  | cons b rest ih =>
      rw [List.map_cons, writeTlvs, packed]
      have hbody : (TLV.new b).body = b := rfl
      by_cases hrefused : ¬ b.Writable ∨ bp.length + 16 < b.size
      · rw [if_pos hrefused, TLV.serialize_of_not hrefused, Exec.ok_bind]
        dsimp only
        rw [estimate_toNat]
        by_cases hzero : b.estimate % 65536 = 0
        · rw [if_pos hzero, if_neg (by omega), List.drop_zero, List.take_zero, Nat.sub_zero]
          rcases ih bp (length + UInt16.ofNat 0) with ⟨hnone, hrun⟩ | ⟨w, memory, hw, hle, hrun⟩
          · exact Or.inl ⟨hnone, by rw [hrun]; rfl⟩
          · refine Or.inr ⟨w, memory, hw, hle, ?_⟩
            rw [hrun, UInt16.add_assoc, ← UInt16.ofNat_add, Nat.zero_add]
            rfl
        · rw [if_neg hzero, if_pos (by omega)]
          exact Or.inr ⟨0, bp, rfl, Nat.zero_le _, by simp [pure, Except.pure]⟩
      · rw [not_or, not_not, Nat.not_lt] at hrefused
        obtain ⟨hw, hlen⟩ := hrefused
        rw [if_neg (by simp [hw]; omega)]
        by_cases hroom : bp.length < b.size
        · rw [if_pos hroom, TLV.serialize_of_lt hw hlen hroom]
          exact Or.inl ⟨rfl, rfl⟩
        · obtain ⟨bytes, hbytes, -, hrun⟩ := TLV.serialize_of_le (show (TLV.new b).body.Writable from hw) hlen
            (Nat.not_lt.mp hroom)
          rw [hbody] at hbytes hrun
          rw [if_neg hroom, hrun, Exec.ok_bind]
          dsimp only
          rw [toNat_size]
          by_cases hcut : b.written ≠ b.size % 65536
          · rw [if_pos hcut, if_pos hcut]
            exact Or.inr ⟨0, bytes ++ bp.drop b.size, rfl, Nat.zero_le _, by simp [pure, Except.pure]⟩
          · have heq : b.written = b.size % 65536 := not_not.mp hcut
            have hmod := Nat.mod_le b.size 65536
            rw [if_neg hcut, if_neg hcut, heq]
            generalize hmem : bytes ++ bp.drop b.size = mem
            have hmem' : mem.length = bp.length := by
              rw [← hmem, List.length_append, List.length_drop, hbytes]
              omega
            have hdrop : (mem.drop (b.size % 65536)).length = bp.length - b.size % 65536 := by
              rw [List.length_drop, hmem']
            have hcount : bp.length + 16 - b.size % 65536 =
                (mem.drop (b.size % 65536)).length + 16 := by omega
            have hstep := ih (mem.drop (b.size % 65536)) (length + UInt16.ofNat (b.size % 65536))
            rw [← hcount, hdrop] at hstep
            rcases hstep with ⟨hnone, hrun'⟩ | ⟨w, memory, hw', hle, hrun'⟩
            · left
              rw [hnone, hrun']
              exact ⟨rfl, rfl⟩
            · right
              refine ⟨w + b.size % 65536, mem.take (b.size % 65536) ++ memory, ?_, by omega, ?_⟩
              · rw [hw']
                rfl
              · rw [hrun', UInt16.add_assoc, ← UInt16.ofNat_add, Exec.ok_bind, Nat.add_comm w,
                  Nat.sub_add_eq]
                rfl

def EncodesAll : List Body → Bytes → Prop
  | [], bytes => bytes = []
  | b :: rest, bytes =>
      ∃ head tail, bytes = head ++ tail ∧ b.Encodes head ∧ head.length = b.size ∧ EncodesAll rest tail

theorem EncodesAll.length {bodies : List Body} {bytes : Bytes} (h : EncodesAll bodies bytes) :
    bytes.length = totalSize bodies := by
  induction bodies generalizing bytes with
  | nil =>
      have hnil : bytes = [] := h
      rw [hnil]
      rfl
  | cons b rest ih =>
      obtain ⟨head, tail, rfl, -, hhead, htail⟩ := h
      rw [List.length_append, hhead, ih htail]
      rfl

/-- Names and sizes fit in their fields. -/
def Small (b : Body) : Prop := b.NamesFit ∧ b.size < 65536

theorem written_of_small {b : Body} (h : b.size < 65536) : b.written = b.size := by
  cases b with
  | hello hf timer sender => rfl
  | _ => exact toNat_ofNat16 h

theorem estimate_of_refused {b : Body} {n : Nat} (hsmall : Small b)
    (h : ¬ b.Writable ∨ n + 16 < b.size) : b.estimate % 65536 ≠ 0 := by
  obtain ⟨hnames, hsize⟩ := hsmall
  cases b with
  | hello hf timer sender =>
      have hlt : sender.length < 256 := hnames
      simp only [Body.estimate]
      omega
  | ribd d =>
      simp only [Body.estimate, Body.size, ribdHeaderSize] at *
      omega
  | rib nodes relay custody internet =>
      simp only [Body.estimate, Body.size, ribHeaderSize] at *
      omega
  | offer l =>
      have hlt := h.resolve_left fun hw => hw trivial
      simp only [Body.estimate, Body.size, bundleHeaderSize, bundleEntrySize] at *
      omega
  | response l =>
      have hlt := h.resolve_left fun hw => hw trivial
      simp only [Body.estimate, Body.size, bundleHeaderSize, bundleEntrySize] at *
      omega

theorem writeTlvs_cons {b : Body} (rest : List Body) (hsmall : Small b) (hw : b.Writable) {bp : Bytes}
    (hroom : b.size ≤ bp.length) (length : UInt16) :
    ∃ head, b.Encodes head ∧ head.length = b.size ∧
      writeTlvs ((b :: rest).map TLV.new) bp (bp.length + 16) length =
        writeTlvs (rest.map TLV.new) (bp.drop b.size) ((bp.drop b.size).length + 16)
          (length + UInt16.ofNat b.size) >>= fun r => pure (head ++ r.1, r.2.1, r.2.2) := by
  obtain ⟨head, hhead, henc, hrun⟩ := TLV.serialize_of_le
    (show (TLV.new b).body.Writable from hw) (Nat.le_add_right_of_le hroom : _ ≤ bp.length + 16) hroom
  change head.length = b.size at hhead
  change (TLV.new b).serialize bp (bp.length + 16) = .ok (head ++ bp.drop b.size, b.written,
    UInt16.ofNat b.size) at hrun
  refine ⟨head, henc, hhead, ?_⟩
  have hlen : bp.length + 16 - b.size = (bp.drop b.size).length + 16 := by
    rw [List.length_drop]
    omega
  rw [List.map_cons, writeTlvs, hrun, Exec.ok_bind]
  dsimp only
  rw [written_of_small hsmall.2, toNat_ofNat16 hsmall.2, if_neg (by simp),
    List.drop_left' hhead, List.take_left' hhead, hlen]

theorem totalSize_cons (b : Body) (rest : List Body) :
    totalSize (b :: rest) = b.size + totalSize rest := rfl

/-- TLVs whose sizes fit in their fields are written one behind the other, up to the first that is
refused. -/
theorem writeTlvs_small (bodies : List Body) (hsmall : ∀ b ∈ bodies, Small b) (bp : Bytes)
    (length : UInt16) :
    writeTlvs (bodies.map TLV.new) bp (bp.length + 16) length = .error (.fault .outOfBounds) ∨
    ∃ done rest bytes, bodies = done ++ rest ∧ EncodesAll done bytes ∧ totalSize done ≤ bp.length ∧
      (∀ b ∈ done, b.Writable) ∧ writeTlvs (bodies.map TLV.new) bp (bp.length + 16) length =
        .ok (bytes ++ bp.drop (totalSize done), bp.length + 16 - totalSize done,
          length + UInt16.ofNat (totalSize done)) := by
  induction bodies generalizing bp length with
  | nil =>
      refine Or.inr ⟨[], [], [], rfl, rfl, Nat.zero_le _, by simp, ?_⟩
      simp [writeTlvs, totalSize, pure, Except.pure]
  | cons b rest ih =>
      have hb := hsmall b List.mem_cons_self
      by_cases hrefused : ¬ b.Writable ∨ bp.length + 16 < b.size
      · refine Or.inr ⟨[], b :: rest, [], rfl, rfl, Nat.zero_le _, by simp, ?_⟩
        have hstop := estimate_of_refused hb hrefused
        rw [List.map_cons, writeTlvs, TLV.serialize_of_not hrefused, Exec.ok_bind]
        dsimp only
        rw [estimate_toNat, if_pos hstop.symm]
        simp [totalSize, pure, Except.pure]
      rw [not_or, not_not, Nat.not_lt] at hrefused
      obtain ⟨hw, hlen⟩ := hrefused
      by_cases hroom : b.size ≤ bp.length
      · obtain ⟨head, henc, hhead, hrun⟩ := writeTlvs_cons rest hb hw hroom length
        rw [hrun]
        rcases ih (fun x hx => hsmall x (List.mem_cons_of_mem _ hx)) (bp.drop b.size)
          (length + UInt16.ofNat b.size) with hfault | ⟨done, more, bytes, rfl, hall, hle, hws, hrest⟩
        · rw [hfault]
          exact Or.inl rfl
        · right
          rw [List.length_drop] at hle
          refine ⟨b :: done, more, head ++ bytes, rfl, ⟨head, bytes, rfl, henc, hhead, hall⟩, ?_, ?_, ?_⟩
          · rw [totalSize_cons]
            omega
          · intro x hx
            rcases List.mem_cons.mp hx with rfl | hx
            · exact hw
            · exact hws x hx
          · have hcount : bp.length - b.size + 16 - totalSize done =
                bp.length + 16 - (b.size + totalSize done) := by omega
            rw [hrest, Exec.ok_bind, List.length_drop, totalSize_cons, List.drop_drop, hcount,
              UInt16.add_assoc, ← UInt16.ofNat_add, List.append_assoc]
            rfl
      · left
        rw [List.map_cons, writeTlvs, TLV.serialize_of_lt hw hlen (Nat.not_le.mp hroom)]
        rfl

theorem writeTlvs_all (bodies : List Body) (hsmall : ∀ b ∈ bodies, Small b)
    (hw : ∀ b ∈ bodies, b.Writable) (bp : Bytes) (hroom : totalSize bodies ≤ bp.length)
    (length : UInt16) :
    ∃ bytes, EncodesAll bodies bytes ∧ writeTlvs (bodies.map TLV.new) bp (bp.length + 16) length =
      .ok (bytes ++ bp.drop (totalSize bodies), bp.length + 16 - totalSize bodies,
        length + UInt16.ofNat (totalSize bodies)) := by
  induction bodies generalizing bp length with
  | nil => exact ⟨[], rfl, by simp [writeTlvs, totalSize, pure, Except.pure]⟩
  | cons b rest ih =>
      rw [totalSize_cons] at hroom
      obtain ⟨head, henc, hhead, hrun⟩ := writeTlvs_cons rest (hsmall b List.mem_cons_self)
        (hw b List.mem_cons_self) (show b.size ≤ bp.length by omega) length
      obtain ⟨bytes, hall, hrest⟩ := ih (fun x hx => hsmall x (List.mem_cons_of_mem _ hx))
        (fun x hx => hw x (List.mem_cons_of_mem _ hx)) (bp.drop b.size)
        (by rw [List.length_drop]; omega) (length + UInt16.ofNat b.size)
      refine ⟨head ++ bytes, ⟨head, bytes, rfl, henc, hhead, hall⟩, ?_⟩
      have hcount : bp.length - b.size + 16 - totalSize rest =
          bp.length + 16 - (b.size + totalSize rest) := by omega
      rw [hrun, hrest, Exec.ok_bind, List.length_drop, totalSize_cons, List.drop_drop, hcount,
        UInt16.add_assoc, ← UInt16.ofNat_add, List.append_assoc]
      rfl

/-! ## Reading -/

theorem readTlvs_mono {fuel : Nat} {p q : Message} {bp : Bytes} {len : Nat}
    (h : readTlvs fuel p bp len = .ok q) (k : Nat) : readTlvs (fuel + k) p bp len = .ok q := by
  induction fuel generalizing p bp len with
  | zero => cases h
  | succ fuel ih =>
      have hfuel : fuel + 1 + k = (fuel + k) + 1 := by omega
      rw [hfuel]
      unfold readTlvs at h ⊢
      split at h
      · rename_i hzero
        rw [if_pos hzero]
        exact h
      · rename_i hne
        rw [if_neg hne]
        obtain ⟨r, hread, h⟩ := Exec.bind_eq_ok.mp h
        rw [hread, Exec.ok_bind]
        cases r with
        | none => exact h
        | some tlv => exact ih h

theorem readTlvs_fitsIn {fuel : Nat} {p q : Message} {bp : Bytes} {len : Nat}
    (hp : ∀ tlv ∈ p.list, tlv.body.FitsIn tlv.length) (h : readTlvs fuel p bp len = .ok q) :
    ∀ tlv ∈ q.list, tlv.body.FitsIn tlv.length := by
  induction fuel generalizing p bp len with
  | zero => cases h
  | succ fuel ih =>
      unfold readTlvs at h
      split at h
      · cases h
        exact hp
      obtain ⟨r, hread, h⟩ := Exec.bind_eq_ok.mp h
      cases r with
      | none =>
          cases h
          exact hp
      | some tlv =>
          refine ih ?_ h
          intro t ht
          rcases List.mem_append.mp ht with ht | ht
          · exact hp t ht
          · rw [List.mem_singleton.mp ht]
            exact readTlv_fitsIn hread

def SameHeader (p q : Message) : Prop :=
  q.result = p.result ∧ q.senderInstance = p.senderInstance ∧
    q.receiverInstance = p.receiverInstance ∧ q.tid = p.tid

theorem readTlvs_encodesAll {bodies : List Body} (hsmall : ∀ b ∈ bodies, Small b) {bytes : Bytes}
    (h : EncodesAll bodies bytes) {m : Nat} (hm : m ≤ bytes.length) {fuel : Nat}
    (hfuel : bodies.length < fuel) (p : Message) :
    ∃ q done tlvs, readTlvs fuel p (bytes.take m) m = .ok q ∧ SameHeader p q ∧
      q.list = p.list ++ tlvs ∧ done <+: bodies ∧
      List.Forall₂ (fun b tlv => Body.Same b tlv.body) done tlvs ∧
      (m = bytes.length → done = bodies) ∧ (m < bytes.length → done ≠ bodies) := by
  induction bodies generalizing bytes m fuel p with
  | nil =>
      have hnil : bytes = [] := h
      subst hnil
      have hzero : m = 0 := Nat.le_zero.mp hm
      subst hzero
      obtain ⟨k, rfl⟩ : ∃ k, fuel = k + 1 := ⟨fuel - 1, by omega⟩
      refine ⟨p, [], [], ?_, ⟨rfl, rfl, rfl, rfl⟩, by simp, List.nil_prefix, .nil, fun _ => rfl, ?_⟩
      · rfl
      · intro hlt
        simp at hlt
  | cons b rest ih =>
      obtain ⟨head, tail, rfl, henc, hhead, htail⟩ := h
      obtain ⟨k, rfl⟩ : ∃ k, fuel = k + 1 := ⟨fuel - 1, by omega⟩
      have hb := hsmall b List.mem_cons_self
      have hpos : 0 < b.size := b.headerSize_pos.trans_le b.headerSize_le_size
      rw [List.length_append, hhead] at hm
      unfold readTlvs
      by_cases hzero : m = 0
      · refine ⟨p, [], [], ?_, ⟨rfl, rfl, rfl, rfl⟩, by simp, List.nil_prefix, .nil, ?_, ?_⟩
        · rw [if_pos hzero]
          rfl
        · intro heq
          rw [List.length_append, hhead] at heq
          omega
        · simp
      by_cases hcut : m < b.size
      · refine ⟨p, [], [], ?_, ⟨rfl, rfl, rfl, rfl⟩, by simp, List.nil_prefix, .nil, ?_, ?_⟩
        · rw [if_neg hzero, List.take_append_of_le_length (by omega),
            readTlv_cut hb.2 henc (by omega) hcut]
          rfl
        · intro heq
          rw [List.length_append, hhead] at heq
          omega
        · simp
      · have htake : (head ++ tail).take m = head ++ tail.take (m - b.size) := by
          rw [List.take_append, hhead, List.take_of_length_le (by omega)]
        have hlen : (head ++ tail.take (m - b.size)).length = m := by
          rw [List.length_append, List.length_take, hhead]
          omega
        obtain ⟨b', flags, hsame, hread⟩ := readTlv_encodes hb.1 hb.2 henc hhead
          (tail.take (m - b.size))
        rw [hlen] at hread
        rw [List.length_cons] at hfuel
        obtain ⟨q, done, tlvs, hrun, hheader, hlist, hprefix, hall, hwhole, hpart⟩ := ih
          (fun x hx => hsmall x (List.mem_cons_of_mem _ hx)) htail (m := m - b.size) (by omega)
          (show rest.length < k by omega) (p.addTlv ⟨b', flags, UInt16.ofNat b.size⟩)
        refine ⟨q, b :: done, ⟨b', flags, UInt16.ofNat b.size⟩ :: tlvs, ?_, hheader, ?_,
          List.cons_prefix_cons.mpr ⟨rfl, hprefix⟩, .cons hsame hall, ?_, ?_⟩
        · rw [if_neg hzero, htake, hread, Exec.ok_bind]
          dsimp only
          rw [toNat_ofNat16 hb.2, List.drop_left' hhead, hrun]
        · rw [hlist]
          simp [Message.addTlv]
        · intro heq
          rw [List.length_append, hhead] at heq
          rw [hwhole (by omega)]
        · intro hlt heq
          rw [List.length_append, hhead] at hlt
          exact hpart (by omega) (List.cons.inj heq).2

theorem readHeader_headerBytes (p : Message) (src dst : Bytes) (length : UInt16) (rest : Bytes)
    (hle : length.toNat ≤ 16 + rest.length) :
    readHeader src dst (headerBytes p length ++ rest) =
      .ok (some ⟨src, dst, p.result, p.senderInstance, p.receiverInstance, p.tid, 16, []⟩) := by
  have hlen : (headerBytes p length ++ rest).length = 16 + rest.length := by
    rw [List.length_append]
    rfl
  have hbyte : ∀ i b, (headerBytes p length)[i]? = some b →
      readByte (headerBytes p length ++ rest) i = .ok b := by
    intro i b hb
    have hi : i < (headerBytes p length).length := (List.getElem?_eq_some_iff.mp hb).1
    rw [readByte, List.getElem?_append_left hi, hb]
    rfl
  have hlength : readU16 (headerBytes p length ++ rest) 14 = .ok length := by
    unfold headerBytes
    rw [List.append_assoc]
    refine (readU16_append rfl).trans ?_
    rw [UInt16.ofNat_toNat]
  have hsender : readU16 (headerBytes p length ++ rest) 4 = .ok p.senderInstance := by
    simp only [headerBytes, List.append_assoc]
    refine (readU16_append (a := [version, 0, p.result.toByte, 0]) rfl).trans ?_
    rw [UInt16.ofNat_toNat]
  have hreceiver : readU16 (headerBytes p length ++ rest) 6 = .ok p.receiverInstance := by
    unfold headerBytes
    rw [List.append_assoc, List.append_assoc, List.append_assoc, List.append_assoc]
    refine (readU16_append rfl).trans ?_
    rw [UInt16.ofNat_toNat]
  have htid : readU32 (headerBytes p length ++ rest) 8 = .ok p.tid := by
    unfold headerBytes
    rw [List.append_assoc, List.append_assoc, List.append_assoc]
    refine (readU32_append rfl).trans ?_
    rw [UInt32.ofNat_toNat]
  unfold readHeader
  rw [if_neg (by rw [hlen, prophetHeaderSize]; omega), hbyte 0 version rfl, Exec.ok_bind,
    if_neg (by simp), hbyte 1 0 rfl, Exec.ok_bind, if_neg (by simp), hbyte 3 0 rfl, Exec.ok_bind,
    if_neg (by simp), hlength, Exec.ok_bind, if_neg (by omega), hbyte 2 p.result.toByte rfl,
    Exec.ok_bind, hsender, Exec.ok_bind, hreceiver, Exec.ok_bind, htid, Exec.ok_bind, hbyte 12 0 rfl,
    Exec.ok_bind, hbyte 13 0 rfl, Exec.ok_bind, if_neg (by decide), HeaderResult.ofByte_toByte]
  rfl

theorem serialize_of_writeTlvs {p : Message} {buffer memory : Bytes} {w : Nat}
    (hbuffer : 16 ≤ buffer.length) (hw : w ≤ (buffer.drop 16).length)
    (h : writeTlvs p.list (buffer.drop 16) ((buffer.drop 16).length + 16) 0 =
      .ok (memory, (buffer.drop 16).length + 16 - w, 0 + UInt16.ofNat w)) :
    serialize p buffer = .ok (headerBytes p (UInt16.ofNat (w + 16)) ++ memory, (w + 16) % 65536) := by
  have hlen : (buffer.drop 16).length + 16 = buffer.length := by
    rw [List.length_drop]
    omega
  unfold serialize
  rw [if_neg (by rw [prophetHeaderSize]; omega)]
  change writeTlvs p.list (buffer.drop 16) buffer.length 0 >>= _ = _
  rw [hlen] at h
  rw [h, Exec.ok_bind]
  dsimp only
  rw [if_neg (by rw [prophetHeaderSize]; omega)]
  have hlength : 0 + UInt16.ofNat w + UInt16.ofNat prophetHeaderSize = UInt16.ofNat (w + 16) := by
    rw [UInt16.zero_add, ← UInt16.ofNat_add]
    rfl
  rw [hlength, UInt16.toNat_ofNat']
  rfl

theorem serialize_of_fault {p : Message} {buffer : Bytes} (hbuffer : 16 ≤ buffer.length)
    (h : writeTlvs p.list (buffer.drop 16) ((buffer.drop 16).length + 16) 0 =
      .error (.fault .outOfBounds)) : serialize p buffer = .error (.fault .outOfBounds) := by
  have hlen : (buffer.drop 16).length + 16 = buffer.length := by
    rw [List.length_drop]
    omega
  rw [hlen] at h
  unfold serialize
  rw [if_neg (by rw [prophetHeaderSize]; omega)]
  change writeTlvs p.list (buffer.drop 16) buffer.length 0 >>= _ = _
  rw [h]
  rfl

/-! ## The round trip -/

theorem small_of_same {b b' : Body} {length : UInt16} (hsame : b.Same b') (h : b'.FitsIn length) :
    Small b := by
  have hlt := length.toNat_lt
  cases b with
  | hello hf timer sender =>
      have heq : Body.hello hf timer sender = b' := by
        cases b' <;> exact hsame
      subst heq
      have hname : sender.length < 256 := h.1
      refine ⟨hname, ?_⟩
      have halign := fourByteAlign_lt (sender.length + helloHeaderSize)
      simp only [Body.size, helloHeaderSize] at *
      omega
  | ribd d =>
      cases b' with
      | ribd d' =>
          have heq : d.rribd = d'.rribd := hsame
          have hsize : (Body.ribd d').size ≤ length.toNat := h.2
          refine ⟨?_, ?_⟩
          · intro e he
            rw [heq] at he
            exact h.1 e he
          · simp only [Body.size, Dictionary.guessRibdSize] at *
            rw [heq]
            omega
      | _ => cases hsame
  | rib nodes relay custody internet =>
      have heq : Body.rib nodes relay custody internet = b' := by
        cases b' <;> exact hsame
      subst heq
      exact ⟨trivial, h.2.trans_lt hlt⟩
  | offer l =>
      have heq : Body.offer l = b' := by
        cases b' <;> exact hsame
      subst heq
      exact ⟨trivial, h.2.trans_lt hlt⟩
  | response l =>
      have heq : Body.response l = b' := by
        cases b' <;> exact hsame
      subst heq
      exact ⟨trivial, h.2.trans_lt hlt⟩

theorem readHeader_list {src dst bp : Bytes} {p : Message} (h : readHeader src dst bp = .ok (some p)) :
    p.list = [] := by
  unfold readHeader at h
  split at h
  · cases h
  obtain ⟨v, -, h⟩ := Exec.bind_eq_ok.mp h
  split at h
  · cases h
  obtain ⟨flags, -, h⟩ := Exec.bind_eq_ok.mp h
  split at h
  · cases h
  obtain ⟨code, -, h⟩ := Exec.bind_eq_ok.mp h
  split at h
  · cases h
  obtain ⟨length, -, h⟩ := Exec.bind_eq_ok.mp h
  split at h
  · cases h
  obtain ⟨result, -, h⟩ := Exec.bind_eq_ok.mp h
  obtain ⟨sender, -, h⟩ := Exec.bind_eq_ok.mp h
  obtain ⟨receiver, -, h⟩ := Exec.bind_eq_ok.mp h
  obtain ⟨tid, -, h⟩ := Exec.bind_eq_ok.mp h
  obtain ⟨low, -, h⟩ := Exec.bind_eq_ok.mp h
  obtain ⟨high, -, h⟩ := Exec.bind_eq_ok.mp h
  split at h
  · cases h
  · cases h
    rfl

theorem deserialize_eq_some {fuel : Nat} {src dst bp : Bytes} {q : Message}
    (h : deserialize fuel src dst bp = .ok (some q)) :
    ∃ p, readHeader src dst bp = .ok (some p) ∧
      readTlvs fuel p (bp.drop prophetHeaderSize) (bp.length - prophetHeaderSize) = .ok q := by
  unfold deserialize at h
  obtain ⟨r, hr, h⟩ := Exec.bind_eq_ok.mp h
  cases r with
  | none => cases h
  | some p =>
      obtain ⟨q', hq, h⟩ := Exec.bind_eq_ok.mp h
      cases h
      exact ⟨p, hr, hq⟩

theorem deserialize_fitsIn {fuel : Nat} {src dst bp : Bytes} {q : Message}
    (h : deserialize fuel src dst bp = .ok (some q)) :
    ∀ tlv ∈ q.list, tlv.body.FitsIn tlv.length := by
  obtain ⟨p, hheader, hrun⟩ := deserialize_eq_some h
  refine readTlvs_fitsIn ?_ hrun
  rw [readHeader_list hheader]
  exact fun tlv htlv => absurd htlv List.not_mem_nil

theorem small_of_delivered {bodies : List Body} {tlvs : List TLV}
    (h : List.Forall₂ (fun a b => a.body.Same b.body) (bodies.map TLV.new) tlvs)
    (hfits : ∀ tlv ∈ tlvs, tlv.body.FitsIn tlv.length) : ∀ b ∈ bodies, Small b := by
  induction bodies generalizing tlvs with
  | nil => exact fun b hb => absurd hb List.not_mem_nil
  | cons b rest ih =>
      cases h with
      | cons hhead htail =>
          rename_i tlv tlvs
          intro x hx
          rcases List.mem_cons.mp hx with rfl | hx
          · exact small_of_same hhead (hfits tlv List.mem_cons_self)
          · exact ih htail (fun t ht => hfits t (List.mem_cons_of_mem _ ht)) x hx

theorem deserialize_take {bodies : List Body} (hsmall : ∀ b ∈ bodies, Small b) {bytes : Bytes}
    (h : EncodesAll bodies bytes) (p : Message) {n : Nat} (hn : 16 ≤ n) (hn' : n ≤ 16 + bytes.length)
    (hlt : n < 65536) (rest : Bytes) {fuel : Nat} (hfuel : bodies.length < fuel) :
    ∃ q done, deserialize fuel p.src p.dst
        ((headerBytes p (UInt16.ofNat n) ++ (bytes ++ rest)).take n) = .ok (some q) ∧
      SameHeader p q ∧ done <+: bodies ∧
      List.Forall₂ (fun b tlv => Body.Same b tlv.body) done q.list ∧
      (n = 16 + bytes.length → done = bodies) ∧ (n < 16 + bytes.length → done ≠ bodies) := by
  have hheader : (headerBytes p (UInt16.ofNat n)).length = 16 := rfl
  have htake : (headerBytes p (UInt16.ofNat n) ++ (bytes ++ rest)).take n =
      headerBytes p (UInt16.ofNat n) ++ bytes.take (n - 16) := by
    rw [List.take_append, List.take_of_length_le (by omega), hheader,
      List.take_append_of_le_length (by omega)]
  have hread := readHeader_headerBytes p p.src p.dst (UInt16.ofNat n) (bytes.take (n - 16))
    (by rw [toNat_ofNat16 hlt, List.length_take]; omega)
  obtain ⟨q, done, tlvs, hrun, hsame, hlist, hprefix, hall, hwhole, hpart⟩ :=
    readTlvs_encodesAll hsmall h (m := n - 16) (by omega) hfuel
      ⟨p.src, p.dst, p.result, p.senderInstance, p.receiverInstance, p.tid, 16, []⟩
  refine ⟨q, done, ?_, hsame, hprefix, ?_, fun heq => hwhole (by omega),
    fun hlt' => hpart (by omega)⟩
  · have hlen : (headerBytes p (UInt16.ofNat n) ++ bytes.take (n - 16)).length - 16 = n - 16 := by
      rw [List.length_append, hheader, List.length_take]
      omega
    unfold deserialize
    rw [htake, hread, Exec.ok_bind]
    dsimp only
    rw [prophetHeaderSize, List.drop_left' hheader, hlen, hrun]
    rfl
  · rw [hlist] at *
    exact hall

section RoundTrip

variable (p : Message) (bodies : List Body) (junk : Nat → UInt8)

theorem length_sendBuffer (hp : p.length = 16) :
    16 ≤ (sendBuffer junk (withTlvs p bodies)).length ∧
      ((sendBuffer junk (withTlvs p bodies)).drop 16).length = room bodies := by
  have hlength : (withTlvs p bodies).length.toNat = (16 + totalEstimate bodies) % 65536 := by
    rw [withTlvs_length, hp, show (16 : UInt16) = UInt16.ofNat 16 from rfl, ← UInt16.ofNat_add,
      UInt16.toNat_ofNat']
  rw [List.length_drop, sendBuffer, List.length_map, List.length_range, hlength, room]
  omega

theorem roundTrips_of_sendable (hp : p.length = 16) (hlist : p.list = []) (h : Sendable bodies) :
    RoundTrips (withTlvs p bodies) (sendBuffer junk (withTlvs p bodies)) := by
  obtain ⟨hbuffer, hroom⟩ := length_sendBuffer p bodies junk hp
  have hsize : ∀ b ∈ bodies, b.size ≤ totalSize bodies := by
    intro b hb
    exact List.le_sum_of_mem (List.mem_map_of_mem hb)
  have hsmall : ∀ b ∈ bodies, Small b := by
    intro b hb
    have := hsize b hb
    have := h.short
    exact ⟨(h.named b hb).2, by omega⟩
  obtain ⟨bytes, hall, hrun⟩ := writeTlvs_all bodies hsmall (fun b hb => (h.named b hb).1)
    ((sendBuffer junk (withTlvs p bodies)).drop 16) (by rw [hroom]; exact h.fits) 0
  have hlist' : (withTlvs p bodies).list = bodies.map TLV.new := by
    rw [withTlvs_list, hlist, List.nil_append]
  rw [← hlist'] at hrun
  have hserialize := serialize_of_writeTlvs hbuffer (by rw [hroom]; exact h.fits) hrun
  have hshort := h.short
  rw [Nat.mod_eq_of_lt (by omega)] at hserialize
  refine ⟨_, _, hserialize, ?_⟩
  intro _
  have hbytes := hall.length
  obtain ⟨q, done, hq, hsame, -, hdone, hwhole, -⟩ := deserialize_take hsmall hall (withTlvs p bodies)
    (n := totalSize bodies + 16) (by omega) (by omega) (by omega) _ (Nat.lt_succ_self bodies.length)
  rw [hwhole (by omega)] at hdone
  refine ⟨_, q, hq, hsame.1, hsame.2.1, hsame.2.2.1, hsame.2.2.2, ?_⟩
  rw [hlist', List.forall₂_map_left_iff]
  exact hdone

theorem roundTrips_of_packed (hp : p.length = 16) (hlist : p.list = [])
    (h : packed bodies (room bodies) = some 65520) :
    RoundTrips (withTlvs p bodies) (sendBuffer junk (withTlvs p bodies)) := by
  obtain ⟨hbuffer, hroom⟩ := length_sendBuffer p bodies junk hp
  have hlist' : (withTlvs p bodies).list = bodies.map TLV.new := by
    rw [withTlvs_list, hlist, List.nil_append]
  rcases writeTlvs_packed bodies ((sendBuffer junk (withTlvs p bodies)).drop 16) 0 with
    ⟨hnone, -⟩ | ⟨w, memory, hw, hle, hrun⟩
  · rw [hroom, h] at hnone
    cases hnone
  · rw [hroom, h, Option.some.injEq] at hw
    subst hw
    rw [← hlist'] at hrun
    refine ⟨_, _, serialize_of_writeTlvs hbuffer hle hrun, ?_⟩
    intro hpos
    simp at hpos

theorem sendable_of_roundTrips (hp : p.length = 16) (hlist : p.list = [])
    (hpacked : packed bodies (room bodies) ≠ some 65520)
    (h : RoundTrips (withTlvs p bodies) (sendBuffer junk (withTlvs p bodies))) : Sendable bodies := by
  obtain ⟨hbuffer, hroom⟩ := length_sendBuffer p bodies junk hp
  have hlist' : (withTlvs p bodies).list = bodies.map TLV.new := by
    rw [withTlvs_list, hlist, List.nil_append]
  obtain ⟨memory, n, hserialize, hback⟩ := h
  have hbound : room bodies < 66032 := by
    have := Nat.mod_lt (16 + totalEstimate bodies) (show 65536 > 0 by decide)
    rw [room]
    omega
  -- the length does not come out as zero
  have hn : 0 < n := by
    rcases writeTlvs_packed bodies ((sendBuffer junk (withTlvs p bodies)).drop 16) 0 with
      ⟨-, hfault⟩ | ⟨w, memory', hw, hle, hrun⟩
    · rw [← hlist'] at hfault
      rw [serialize_of_fault hbuffer hfault] at hserialize
      cases hserialize
    · rw [← hlist'] at hrun
      rw [serialize_of_writeTlvs hbuffer hle hrun] at hserialize
      cases hserialize
      rw [hroom] at hw hle
      have hne : w ≠ 65520 := by
        rintro rfl
        exact hpacked hw
      omega
  obtain ⟨fuel, q, hq, hdelivered⟩ := hback hn
  have hdlist := hdelivered.list
  rw [hlist'] at hdlist
  have hsmall := small_of_delivered hdlist (deserialize_fitsIn hq)
  -- so the TLVs were written one behind the other, up to the first that was refused
  rcases writeTlvs_small bodies hsmall ((sendBuffer junk (withTlvs p bodies)).drop 16) 0 with
    hfault | ⟨done, rest, bytes, hsplit, hall, hle, hws, hrun⟩
  · rw [← hlist'] at hfault
    rw [serialize_of_fault hbuffer hfault] at hserialize
    cases hserialize
  rw [← hlist'] at hrun
  rw [serialize_of_writeTlvs hbuffer hle hrun] at hserialize
  have hbytes := hall.length
  have hdsmall : ∀ b ∈ done, Small b := by
    intro b hb
    exact hsmall b (hsplit ▸ List.mem_append_left _ hb)
  cases hserialize
  generalize hn' : (totalSize done + 16) % 65536 = n at *
  have hle' : n ≤ 16 + bytes.length := by
    have := Nat.mod_le (totalSize done + 16) 65536
    omega
  have hlt : n < 65536 := by
    rw [← hn']
    exact Nat.mod_lt _ (by decide)
  have hfield : UInt16.ofNat (totalSize done + 16) = UInt16.ofNat n := by
    apply UInt16.toNat_inj.mp
    rw [UInt16.toNat_ofNat', UInt16.toNat_ofNat', ← hn']
    simp
  rw [hfield] at hq
  obtain ⟨header, hheader, hread⟩ := deserialize_eq_some hq
  have hlong : 16 ≤ n := by
    obtain ⟨r, hr, hsize⟩ := readHeader_returns (withTlvs p bodies).src (withTlvs p bodies).dst
      ((headerBytes (withTlvs p bodies) (UInt16.ofNat n) ++
        (bytes ++ ((sendBuffer junk (withTlvs p bodies)).drop 16).drop (totalSize done))).take n)
    rw [hheader, Except.ok.injEq] at hr
    have := hsize header hr.symm
    rw [List.length_take, prophetHeaderSize] at this
    omega
  obtain ⟨q', done', hq', -, hprefix, hsame, hwhole, hpart⟩ := deserialize_take hdsmall hall
    (withTlvs p bodies) hlong hle' hlt
    (((sendBuffer junk (withTlvs p bodies)).drop 16).drop (totalSize done))
    (show done.length < fuel + (done.length + 1) by omega)
  have heq : q' = q := by
    obtain ⟨header', hheader', hread'⟩ := deserialize_eq_some hq'
    rw [hheader, Except.ok.injEq, Option.some.injEq] at hheader'
    subst hheader'
    rw [readTlvs_mono hread, Except.ok.injEq] at hread'
    exact hread'.symm
  subst heq
  -- all TLVs of the sender are there, so none was refused or cut off
  have hcount : done'.length = bodies.length := by
    rw [hsame.length_eq, ← hdlist.length_eq, List.length_map]
  have hdone : done' = done := by
    apply hprefix.eq_of_length_le
    rw [hcount, hsplit, List.length_append]
    omega
  have hrest : rest = [] := by
    rw [hdone, hsplit, List.length_append] at hcount
    exact List.length_eq_zero_iff.mp (by omega)
  rw [hrest, List.append_nil] at hsplit
  subst hsplit
  have hn'' : n = 16 + bytes.length := by
    by_contra hne
    exact hpart (by omega) hdone
  refine ⟨fun b hb => ⟨hws b hb, (hsmall b hb).1⟩, by omega, ?_⟩
  rw [← hroom]
  exact hle

/-- A message comes back from the buffer exactly if it is sendable, or if the TLVs that are written
take 65520 bytes, so that the length of the message comes out as zero and nothing is sent. -/
theorem roundTrips_iff (src dst : Bytes) (result : HeaderResult) (localInstance remoteInstance : UInt16)
    (tid : UInt32) :
    RoundTrips (withTlvs (new src dst result localInstance remoteInstance tid) bodies)
        (sendBuffer junk (withTlvs (new src dst result localInstance remoteInstance tid) bodies)) ↔
      Sendable bodies ∨ packed bodies (room bodies) = some 65520 := by
  constructor
  · intro h
    by_cases hpacked : packed bodies (room bodies) = some 65520
    · exact Or.inr hpacked
    · exact Or.inl (sendable_of_roundTrips _ bodies junk rfl rfl hpacked h)
  · rintro (h | h)
    · exact roundTrips_of_sendable _ bodies junk rfl rfl h
    · exact roundTrips_of_packed _ bodies junk rfl rfl h

end RoundTrip

/-- A hello from a sender with a name of the given length. -/
def sampleHello (n : Nat) : Body := .hello .syn 100 (List.replicate n 0x61)

def sampleMessage (bodies : List Body) : Message := withTlvs (new [] [] .noSuccessAck 1 0 1) bodies

/-- A name of 256 bytes does not come back, and 200 hellos are written over the end of the buffer. -/
theorem not_roundTrips :
    ¬ RoundTrips (sampleMessage [sampleHello 256])
        (sendBuffer (fun _ => 0) (sampleMessage [sampleHello 256])) ∧
      serialize (sampleMessage (List.replicate 200 (sampleHello 3)))
        (sendBuffer (fun _ => 0) (sampleMessage (List.replicate 200 (sampleHello 3)))) =
          .error (.fault .outOfBounds) := by
  constructor
  · intro h
    have hsend := sendable_of_roundTrips _ [sampleHello 256] (fun _ => 0) rfl rfl (by decide +kernel) h
    have hname := (hsend.named (sampleHello 256) List.mem_cons_self).2
    have hlen : (List.replicate 256 (0x61 : UInt8)).length < 256 := hname
    rw [List.length_replicate] at hlen
    omega
  · obtain ⟨hbuffer, hroom⟩ := length_sendBuffer (new [] [] .noSuccessAck 1 0 1)
      (List.replicate 200 (sampleHello 3)) (fun _ => 0) rfl
    apply serialize_of_fault hbuffer
    rcases writeTlvs_packed (List.replicate 200 (sampleHello 3))
      ((sendBuffer (fun _ => 0) (sampleMessage (List.replicate 200 (sampleHello 3)))).drop 16) 0 with
      ⟨-, hfault⟩ | ⟨w, memory, hw, -⟩
    · rw [sampleMessage, withTlvs_list]
      exact hfault
    · have hnone : packed (List.replicate 200 (sampleHello 3))
          (room (List.replicate 200 (sampleHello 3))) = none := by decide +kernel
      rw [sampleMessage, hroom, hnone] at hw
      cases hw

end ProphetTLV

end Prophet

end Dtn2
