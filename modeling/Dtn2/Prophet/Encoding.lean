import Dtn2.Prophet.Serialize

/-!
# What the Prophet serializers write

Each serializer checks its size against the count it was given, and then either writes exactly that
many bytes or leaves the buffer.
-/

namespace Dtn2

namespace Prophet

open Framework

theorem overwrite_of_le {bp bytes : Bytes} (h : bytes.length ≤ bp.length) :
    overwrite bp bytes = .ok (bytes ++ bp.drop bytes.length) := by
  rw [overwrite, if_pos h]
  rfl

theorem overwrite_of_lt {bp bytes : Bytes} (h : bp.length < bytes.length) :
    overwrite bp bytes = .error (.fault .outOfBounds) := by
  rw [overwrite, if_neg (by omega)]

theorem fourByteAlign_add_four (n : Nat) : fourByteAlign (4 + n) = 4 + fourByteAlign n := by
  have hmod : (4 + n) % 4 = n % 4 := by omega
  unfold fourByteAlign
  rw [hmod]
  split <;> omega

/-- The bytes that a TLV takes. -/
def Body.size : Body → Nat
  | hello _ _ sender => fourByteAlign (sender.length + helloHeaderSize)
  | ribd d => ribdHeaderSize + d.guessRibdSize
  | rib nodes _ _ _ => ribHeaderSize + ribEntrySize * nodes.length
  | offer l => bundleHeaderSize + bundleEntrySize * l.list.length
  | response l => bundleHeaderSize + bundleEntrySize * l.list.length

theorem Body.headerSize_le_size (b : Body) : b.headerSize ≤ b.size := by
  cases b with
  | hello hf timer sender =>
      have h := le_fourByteAlign (sender.length + helloHeaderSize)
      simp only [headerSize, size]
      omega
  | _ => exact Nat.le_add_right _ _

def headerBytes (typecode flags : UInt8) (size count : Nat) (unused : Bytes) : Bytes :=
  [typecode, flags] ++ BigEndian.encode 2 (UInt16.ofNat size).toNat ++ BigEndian.encode 2 count ++
    unused

/-! ## Dictionaries -/

namespace RIBDTLV

def rasBytes (e : UInt16 × Bytes) (unused : UInt8) : Bytes :=
  BigEndian.encode 2 e.1.toNat ++ [UInt8.ofNat e.2.length, unused] ++
    paddedName e.2 (fourByteAlign e.2.length)

def rasSize (e : UInt16 × Bytes) : Nat := routingAddressStringSize + fourByteAlign e.2.length

@[simp] theorem length_rasBytes (e : UInt16 × Bytes) (unused : UInt8) :
    (rasBytes e unused).length = rasSize e := by
  have hmod := Nat.mod_le e.2.length 256
  have halign := le_fourByteAlign e.2.length
  simp only [rasBytes, paddedName, rasSize, routingAddressStringSize, List.length_append,
    BigEndian.length_encode, List.length_cons, List.length_nil, List.length_take,
    List.length_replicate]
  omega

def EntriesAre : List (UInt16 × Bytes) → Bytes → Prop
  | [], bytes => bytes = []
  | e :: rest, bytes => ∃ unused tail, bytes = rasBytes e unused ++ tail ∧ EntriesAre rest tail

theorem writeRasEntry_of_le {e : UInt16 × Bytes} {bp : Bytes} {len : Nat} (hlen : rasSize e ≤ len)
    (hroom : rasSize e ≤ bp.length) : writeRasEntry e.1 e.2 bp len =
      .ok (rasBytes e (bp.getD 3 0) ++ bp.drop (rasSize e), rasSize e) := by
  have hlength := length_rasBytes e (bp.getD 3 0)
  unfold writeRasEntry
  dsimp only
  rw [if_neg (by unfold rasSize at hlen; omega)]
  change overwrite bp (rasBytes e (bp.getD 3 0)) >>= _ = _
  rw [overwrite_of_le (by omega), hlength]
  rfl

theorem writeRasEntry_of_lt {e : UInt16 × Bytes} {bp : Bytes} {len : Nat} (hlen : rasSize e ≤ len)
    (hroom : bp.length < rasSize e) :
    writeRasEntry e.1 e.2 bp len = .error (.fault .outOfBounds) := by
  have hlength := length_rasBytes e (bp.getD 3 0)
  unfold writeRasEntry
  dsimp only
  rw [if_neg (by unfold rasSize at hlen; omega)]
  change overwrite bp (rasBytes e (bp.getD 3 0)) >>= _ = _
  rw [overwrite_of_lt (by omega)]
  rfl

theorem rasSize_pos (e : UInt16 × Bytes) : 0 < rasSize e := by
  simp only [rasSize, routingAddressStringSize]
  omega

theorem two_le_of_proper {e : UInt16 × Bytes} (h : Dictionary.Proper e) : ¬ e.1.toNat < 2 := by
  intro hlt
  have hcases : e.1.toNat = 0 ∨ e.1.toNat = 1 := by omega
  rcases hcases with h0 | h1
  · exact h.1 (UInt16.toNat_inj.mp h0)
  · exact h.2.1 (UInt16.toNat_inj.mp h1)

theorem writeEntries_of_le {entries : List (UInt16 × Bytes)} (hproper : ∀ e ∈ entries, Dictionary.Proper e)
    {bp : Bytes} {len : Nat} (hlen : (entries.map rasSize).sum ≤ len)
    (hroom : (entries.map rasSize).sum ≤ bp.length) (length : UInt16) (count : Nat) :
    ∃ bytes, bytes.length = (entries.map rasSize).sum ∧ EntriesAre entries bytes ∧
      writeEntries entries bp len length count =
        .ok (bytes ++ bp.drop (entries.map rasSize).sum,
          length + UInt16.ofNat (entries.map rasSize).sum, count + entries.length) := by
  induction entries generalizing bp len length count with
  | nil =>
      refine ⟨[], rfl, rfl, ?_⟩
      simp [writeEntries, pure, Except.pure]
  | cons e rest ih =>
      simp only [List.map_cons, List.sum_cons] at hlen hroom ⊢
      have hhead := hproper e List.mem_cons_self
      have hwrite := writeRasEntry_of_le (show rasSize e ≤ len by omega) (show _ ≤ bp.length by omega)
      have hlength := length_rasBytes e (bp.getD 3 0)
      obtain ⟨bytes, hbytes, hentries, hrun⟩ := ih (fun x hx => hproper x (List.mem_cons_of_mem _ hx))
        (show _ ≤ len - rasSize e by omega)
        (show _ ≤ (bp.drop (rasSize e)).length by rw [List.length_drop]; omega) (length + UInt16.ofNat (rasSize e)) (count + 1)
      refine ⟨rasBytes e (bp.getD 3 0) ++ bytes, ?_, ⟨_, _, rfl, hentries⟩, ?_⟩
      · rw [List.length_append, hlength, hbytes]
      · unfold writeEntries
        rw [if_neg (two_le_of_proper hhead), hwrite, Exec.ok_bind]
        have hpos := rasSize_pos e
        dsimp only
        rw [if_neg (by omega), List.drop_append_of_le_length (by omega),
          List.drop_of_length_le (by omega), List.nil_append, hrun, Exec.ok_bind]
        dsimp only
        rw [List.take_append_of_le_length (by omega), List.take_of_length_le (by omega),
          List.drop_drop, List.append_assoc, UInt16.add_assoc, ← UInt16.ofNat_add,
          List.length_cons, Nat.add_assoc, Nat.add_comm 1]
        rfl

theorem writeEntries_of_lt {entries : List (UInt16 × Bytes)} (hproper : ∀ e ∈ entries, Dictionary.Proper e)
    {bp : Bytes} {len : Nat} (hlen : (entries.map rasSize).sum ≤ len)
    (hroom : bp.length < (entries.map rasSize).sum) (length : UInt16) (count : Nat) :
    writeEntries entries bp len length count = .error (.fault .outOfBounds) := by
  induction entries generalizing bp len length count with
  | nil => simp at hroom
  | cons e rest ih =>
      simp only [List.map_cons, List.sum_cons] at hlen hroom
      have hhead := hproper e List.mem_cons_self
      have hlength := length_rasBytes e (bp.getD 3 0)
      unfold writeEntries
      rw [if_neg (two_le_of_proper hhead)]
      by_cases hfits : rasSize e ≤ bp.length
      · have hpos := rasSize_pos e
        rw [writeRasEntry_of_le (by omega) hfits, Exec.ok_bind]
        dsimp only
        rw [if_neg (by omega), List.drop_append_of_le_length (by omega),
          List.drop_of_length_le (by omega), List.nil_append,
          ih (fun x hx => hproper x (List.mem_cons_of_mem _ hx)) (by omega)
            (by rw [List.length_drop]; omega)]
        rfl
      · rw [writeRasEntry_of_lt (by omega) (by omega)]
        rfl

theorem guessRibdSize_eq (d : Dictionary) : d.guessRibdSize = (d.rribd.map rasSize).sum := by
  unfold Dictionary.guessRibdSize rasSize
  simp only [routingAddressStringSize, fourByteAlign_add_four]

def Encodes (d : Dictionary) (bytes : Bytes) : Prop :=
  ∃ tail, EntriesAre d.rribd tail ∧
    bytes = headerBytes 0xA0 0 (8 + d.guessRibdSize) d.rribd.length [0, 0] ++ tail

theorem serialize_of_le {d : Dictionary} {bp : Bytes} {len : Nat}
    (hlen : 8 + d.guessRibdSize ≤ len) (hroom : 8 + d.guessRibdSize ≤ bp.length) (length : UInt16) :
    ∃ bytes, bytes.length = 8 + d.guessRibdSize ∧ Encodes d bytes ∧
      serialize d length bp len = .ok (bytes ++ bp.drop (8 + d.guessRibdSize),
        (UInt16.ofNat (8 + d.guessRibdSize)).toNat, UInt16.ofNat (8 + d.guessRibdSize)) := by
  have hguess := guessRibdSize_eq d
  obtain ⟨tail, htail, hentries, hrun⟩ := writeEntries_of_le d.proper
    (show _ ≤ len by omega) (show _ ≤ (bp.drop 8).length by rw [List.length_drop]; omega) (UInt16.ofNat 8) 0
  rw [← hguess, ← UInt16.ofNat_add, List.drop_drop, Nat.zero_add] at hrun
  refine ⟨_, ?_, ⟨tail, hentries, rfl⟩, ?_⟩
  · rw [List.length_append, htail, hguess]
    rfl
  · unfold serialize
    rw [if_neg (by simp only [ribdHeaderSize]; omega), overwrite_of_le (by simp [ribdHeaderSize]; omega),
      Exec.ok_bind, List.drop_append_of_le_length (by simp), List.drop_of_length_le (by simp),
      List.nil_append, List.length_replicate]
    change writeEntries d.rribd (bp.drop 8) len (UInt16.ofNat 8) 0 >>= _ = _
    rw [hrun, Exec.ok_bind, List.append_assoc]
    rfl

theorem serialize_of_lt {d : Dictionary} {bp : Bytes} {len : Nat}
    (hlen : 8 + d.guessRibdSize ≤ len) (hroom : bp.length < 8 + d.guessRibdSize) (length : UInt16) :
    serialize d length bp len = .error (.fault .outOfBounds) := by
  have hguess := guessRibdSize_eq d
  unfold serialize
  rw [if_neg (by simp only [ribdHeaderSize]; omega)]
  by_cases hhead : 8 ≤ bp.length
  · rw [overwrite_of_le (by simpa [ribdHeaderSize] using hhead), Exec.ok_bind,
      List.drop_append_of_le_length (by simp), List.drop_of_length_le (by simp), List.nil_append,
      List.length_replicate, writeEntries_of_lt d.proper (by omega)
        (by simp only [List.length_drop, ribdHeaderSize]; omega)]
    rfl
  · rw [overwrite_of_lt (by simp only [List.length_replicate, ribdHeaderSize]; omega)]
    rfl

end RIBDTLV

/-! ## Routing information -/

namespace RIBTLV

def entryBytes (node : RIBNode) : Bytes :=
  BigEndian.encode 2 node.sid.toNat ++
    [node.pvalue, flagsByte node.relay node.custody node.internetGw]

@[simp] theorem length_entryBytes (node : RIBNode) : (entryBytes node).length = 4 := by
  simp [entryBytes]

theorem length_entries (nodes : List RIBNode) :
    (nodes.flatMap entryBytes).length = 4 * nodes.length := by
  induction nodes with
  | nil => rfl
  | cons node rest ih =>
      rw [List.flatMap_cons, List.length_append, ih, length_entryBytes, List.length_cons]
      omega

theorem writeRibEntry_of_le {node : RIBNode} {bp : Bytes} {len : Nat} (hlen : 4 ≤ len)
    (hroom : 4 ≤ bp.length) :
    writeRibEntry node bp len = .ok (entryBytes node ++ bp.drop 4, 4) := by
  unfold writeRibEntry
  rw [if_neg (by simp only [ribEntrySize]; omega)]
  change overwrite bp (entryBytes node) >>= _ = _
  rw [overwrite_of_le (by rw [length_entryBytes]; omega), length_entryBytes]
  rfl

theorem writeRibEntry_of_lt {node : RIBNode} {bp : Bytes} {len : Nat} (hlen : 4 ≤ len)
    (hroom : bp.length < 4) : writeRibEntry node bp len = .error (.fault .outOfBounds) := by
  unfold writeRibEntry
  rw [if_neg (by simp only [ribEntrySize]; omega)]
  change overwrite bp (entryBytes node) >>= _ = _
  rw [overwrite_of_lt (by rw [length_entryBytes]; omega)]
  rfl

theorem writeEntries_of_le {nodes : List RIBNode} {bp : Bytes} {len : Nat}
    (hlen : 4 * nodes.length ≤ len) (hroom : 4 * nodes.length ≤ bp.length) (length : UInt16)
    (count : Nat) : writeEntries nodes bp len length count =
      .ok (nodes.flatMap entryBytes ++ bp.drop (4 * nodes.length),
        length + UInt16.ofNat (4 * nodes.length), count + nodes.length) := by
  induction nodes generalizing bp len length count with
  | nil => simp [writeEntries, pure, Except.pure]
  | cons node rest ih =>
      have hcons : 4 * (node :: rest).length = 4 + 4 * rest.length := by
        rw [List.length_cons]
        omega
      rw [hcons] at hlen hroom ⊢
      unfold writeEntries
      rw [writeRibEntry_of_le (by omega) (by omega), Exec.ok_bind]
      dsimp only
      rw [if_neg (by decide), List.drop_left' (length_entryBytes node),
        ih (by omega) (by rw [List.length_drop]; omega), Exec.ok_bind]
      dsimp only
      rw [List.take_left' (length_entryBytes node), List.drop_drop, List.flatMap_cons,
        List.append_assoc, UInt16.add_assoc, ← UInt16.ofNat_add, List.length_cons, Nat.add_assoc,
        Nat.add_comm 1]
      rfl

theorem writeEntries_of_lt {nodes : List RIBNode} {bp : Bytes} {len : Nat}
    (hlen : 4 * nodes.length ≤ len) (hroom : bp.length < 4 * nodes.length) (length : UInt16)
    (count : Nat) : writeEntries nodes bp len length count = .error (.fault .outOfBounds) := by
  induction nodes generalizing bp len length count with
  | nil => simp at hroom
  | cons node rest ih =>
      rw [List.length_cons] at hlen hroom
      unfold writeEntries
      by_cases hfits : 4 ≤ bp.length
      · rw [writeRibEntry_of_le (by omega) hfits, Exec.ok_bind]
        dsimp only
        rw [if_neg (by decide), List.drop_left' (length_entryBytes node),
          ih (by omega) (by rw [List.length_drop]; omega)]
        rfl
      · rw [writeRibEntry_of_lt (by omega) (by omega)]
        rfl

def Encodes (nodes : List RIBNode) (relay custody internet : Bool) (bytes : Bytes) : Prop :=
  ∃ b c, bytes = headerBytes 0xA1 (flagsByte relay custody internet) (8 + 4 * nodes.length)
    nodes.length [b, c] ++ nodes.flatMap entryBytes

variable {nodes : List RIBNode} {relay custody internet : Bool} {bp : Bytes} {len : Nat}

theorem serialize_of_le (hlen : 8 + 4 * nodes.length ≤ len) (hroom : 8 + 4 * nodes.length ≤ bp.length)
    (length : UInt16) : ∃ bytes, bytes.length = 8 + 4 * nodes.length ∧
      Encodes nodes relay custody internet bytes ∧
      serialize nodes relay custody internet length bp len =
        .ok (bytes ++ bp.drop (8 + 4 * nodes.length), (UInt16.ofNat (8 + 4 * nodes.length)).toNat,
          UInt16.ofNat (8 + 4 * nodes.length)) := by
  refine ⟨_, ?_, ⟨bp.getD 6 0, bp.getD 7 0, rfl⟩, ?_⟩
  · rw [List.length_append, length_entries]
    rfl
  · unfold serialize
    rw [if_neg (by simp only [ribHeaderSize, ribEntrySize]; omega),
      writeEntries_of_le (by omega) (by simp only [List.length_drop, ribHeaderSize]; omega),
      Exec.ok_bind]
    dsimp only
    rw [← UInt16.ofNat_add, Nat.zero_add]
    change overwrite (bp.take 8) (headerBytes 0xA1 (flagsByte relay custody internet)
      (8 + 4 * nodes.length) nodes.length [bp.getD 6 0, bp.getD 7 0]) >>= _ = _
    have hhead : ∀ (a b : UInt8) (m n : Nat) (l : Bytes), (headerBytes a b m n l).length = 6 + l.length := by
      intro a b m n l
      simp [headerBytes]
      omega
    rw [overwrite_of_le (by rw [hhead, List.length_take]; simp; omega), Exec.ok_bind, hhead,
      List.drop_of_length_le (by simp), List.append_nil, List.drop_drop, List.append_assoc]
    rfl

theorem serialize_of_lt (hlen : 8 + 4 * nodes.length ≤ len) (hroom : bp.length < 8 + 4 * nodes.length)
    (length : UInt16) : serialize nodes relay custody internet length bp len =
      .error (.fault .outOfBounds) := by
  unfold serialize
  rw [if_neg (by simp only [ribHeaderSize, ribEntrySize]; omega)]
  by_cases hroom' : (bp.drop ribHeaderSize).length < 4 * nodes.length
  · rw [writeEntries_of_lt (by omega) hroom']
    rfl
  · rw [writeEntries_of_le (by omega) (by omega), Exec.ok_bind]
    rw [List.length_drop, ribHeaderSize] at hroom'
    dsimp only
    rw [overwrite_of_lt (by simp [ribHeaderSize]; omega)]
    rfl

end RIBTLV

/-! ## Offers and responses -/

namespace BundleTLV

def entryBytes (e : BundleTLVEntry) : Bytes :=
  BigEndian.encode 2 e.sid.toNat ++ [flagsByte e, 0] ++ BigEndian.encode 4 e.creationTs.toNat ++
    BigEndian.encode 4 e.seqno.toNat

@[simp] theorem length_entryBytes (e : BundleTLVEntry) : (entryBytes e).length = 12 := by
  simp [entryBytes]

theorem length_entries (list : List BundleTLVEntry) :
    (list.flatMap entryBytes).length = 12 * list.length := by
  induction list with
  | nil => rfl
  | cons e rest ih =>
      rw [List.flatMap_cons, List.length_append, ih, length_entryBytes, List.length_cons]
      omega

theorem writeBundleEntry_of_le {e : BundleTLVEntry} {bp : Bytes} {len : Nat}
    (htype : e.type ≠ .undefined) (hlen : 12 ≤ len) (hroom : 12 ≤ bp.length) :
    writeBundleEntry e bp len = .ok (entryBytes e ++ bp.drop 12, 12) := by
  unfold writeBundleEntry
  rw [if_neg htype, if_neg (by simp only [bundleEntrySize]; omega)]
  change overwrite bp (entryBytes e) >>= _ = _
  rw [overwrite_of_le (by rw [length_entryBytes]; omega), length_entryBytes]
  rfl

theorem writeBundleEntry_of_lt {e : BundleTLVEntry} {bp : Bytes} {len : Nat}
    (htype : e.type ≠ .undefined) (hlen : 12 ≤ len) (hroom : bp.length < 12) :
    writeBundleEntry e bp len = .error (.fault .outOfBounds) := by
  unfold writeBundleEntry
  rw [if_neg htype, if_neg (by simp only [bundleEntrySize]; omega)]
  change overwrite bp (entryBytes e) >>= _ = _
  rw [overwrite_of_lt (by rw [length_entryBytes]; omega)]
  rfl

theorem writeEntries_of_le {list : List BundleTLVEntry} (htype : ∀ e ∈ list, e.type ≠ .undefined)
    {bp : Bytes} {len : Nat} (hlen : 12 * list.length ≤ len) (hroom : 12 * list.length ≤ bp.length)
    (length : UInt16) : writeEntries list bp len length =
      .ok (list.flatMap entryBytes ++ bp.drop (12 * list.length),
        length + UInt16.ofNat (12 * list.length)) := by
  induction list generalizing bp len length with
  | nil => simp [writeEntries, pure, Except.pure]
  | cons e rest ih =>
      have hcons : 12 * (e :: rest).length = 12 + 12 * rest.length := by
        rw [List.length_cons]
        omega
      rw [hcons] at hlen hroom ⊢
      unfold writeEntries
      rw [writeBundleEntry_of_le (htype e List.mem_cons_self) (by omega) (by omega), Exec.ok_bind]
      dsimp only
      rw [if_neg (by decide), List.drop_left' (length_entryBytes e),
        ih (fun x hx => htype x (List.mem_cons_of_mem _ hx)) (by omega)
          (by rw [List.length_drop]; omega), Exec.ok_bind]
      dsimp only
      rw [List.take_left' (length_entryBytes e), List.drop_drop, List.flatMap_cons,
        List.append_assoc, UInt16.add_assoc, ← UInt16.ofNat_add]
      rfl

theorem writeEntries_of_lt {list : List BundleTLVEntry} (htype : ∀ e ∈ list, e.type ≠ .undefined)
    {bp : Bytes} {len : Nat} (hlen : 12 * list.length ≤ len) (hroom : bp.length < 12 * list.length)
    (length : UInt16) : writeEntries list bp len length = .error (.fault .outOfBounds) := by
  induction list generalizing bp len length with
  | nil => simp at hroom
  | cons e rest ih =>
      rw [List.length_cons] at hlen hroom
      have hhead := htype e List.mem_cons_self
      unfold writeEntries
      by_cases hfits : 12 ≤ bp.length
      · rw [writeBundleEntry_of_le hhead (by omega) hfits, Exec.ok_bind]
        dsimp only
        rw [if_neg (by decide), List.drop_left' (length_entryBytes e),
          ih (fun x hx => htype x (List.mem_cons_of_mem _ hx)) (by omega)
            (by rw [List.length_drop]; omega)]
        rfl
      · rw [writeBundleEntry_of_lt hhead (by omega) (by omega)]
        rfl

def encode (typecode : UInt8) (list : List BundleTLVEntry) : Bytes :=
  headerBytes typecode 0 (8 + 12 * list.length) list.length [0, 0] ++ list.flatMap entryBytes

theorem length_encode (typecode : UInt8) (list : List BundleTLVEntry) :
    (encode typecode list).length = 8 + 12 * list.length := by
  rw [encode, List.length_append, length_entries]
  rfl

variable {typecode : UInt8} {list : List BundleTLVEntry} {bp : Bytes} {len : Nat}

theorem serialize_of_le (htype : ∀ e ∈ list, e.type ≠ .undefined) (hlen : 8 + 12 * list.length ≤ len)
    (hroom : 8 + 12 * list.length ≤ bp.length) (length : UInt16) :
    serialize typecode list length bp len =
      .ok (encode typecode list ++ bp.drop (8 + 12 * list.length),
        (UInt16.ofNat (8 + 12 * list.length)).toNat, UInt16.ofNat (8 + 12 * list.length)) := by
  unfold serialize
  rw [if_neg (by simp only [bundleHeaderSize, bundleEntrySize]; omega),
    overwrite_of_le (by simp [bundleHeaderSize]; omega), Exec.ok_bind,
    List.drop_left' (List.length_replicate ..),
    writeEntries_of_le htype (by simp only [bundleHeaderSize]; omega)
      (by simp only [List.length_drop, List.length_replicate, bundleHeaderSize]; omega),
    Exec.ok_bind]
  dsimp only
  rw [← UInt16.ofNat_add, List.drop_drop, List.length_replicate, encode, List.append_assoc]
  rfl

theorem serialize_of_lt (htype : ∀ e ∈ list, e.type ≠ .undefined) (hlen : 8 + 12 * list.length ≤ len)
    (hroom : bp.length < 8 + 12 * list.length) (length : UInt16) :
    serialize typecode list length bp len = .error (.fault .outOfBounds) := by
  unfold serialize
  rw [if_neg (by simp only [bundleHeaderSize, bundleEntrySize]; omega)]
  by_cases hhead : 8 ≤ bp.length
  · rw [overwrite_of_le (by simpa [bundleHeaderSize] using hhead), Exec.ok_bind,
      List.drop_left' (List.length_replicate ..),
      writeEntries_of_lt htype (by simp only [bundleHeaderSize]; omega)
        (by simp only [List.length_drop, List.length_replicate, bundleHeaderSize]; omega)]
    rfl
  · rw [overwrite_of_lt (by simp only [List.length_replicate, bundleHeaderSize]; omega)]
    rfl

end BundleTLV

/-! ## Hellos -/

namespace HelloTLV

variable {hf : HelloHf} {timer : UInt8} {sender bp : Bytes} {len : Nat}

theorem length_bytes (hf : HelloHf) (timer : UInt8) (sender : Bytes) {size : Nat}
    (h : helloHeaderSize + sender.length ≤ size) : (bytes hf timer sender size).length = size := by
  simp only [bytes, helloHeaderSize, List.length_append, BigEndian.length_encode, List.length_cons,
    List.length_nil, List.length_replicate] at *
  omega

theorem le_size (sender : Bytes) :
    helloHeaderSize + sender.length ≤ fourByteAlign (sender.length + helloHeaderSize) := by
  rw [Nat.add_comm]
  exact le_fourByteAlign _

theorem serialize_of_le (hne : sender ≠ [])
    (hlen : fourByteAlign (sender.length + helloHeaderSize) ≤ len)
    (hroom : fourByteAlign (sender.length + helloHeaderSize) ≤ bp.length) (length : UInt16) :
    serialize hf timer sender length bp len =
      .ok (bytes hf timer sender (fourByteAlign (sender.length + helloHeaderSize)) ++
          bp.drop (fourByteAlign (sender.length + helloHeaderSize)),
        fourByteAlign (sender.length + helloHeaderSize),
        UInt16.ofNat (fourByteAlign (sender.length + helloHeaderSize))) := by
  have hlength := length_bytes hf timer sender (le_size sender)
  unfold serialize
  dsimp only
  rw [if_neg hne, if_neg (by omega), overwrite_of_le (by omega), hlength]
  rfl

theorem serialize_of_lt (hne : sender ≠ [])
    (hlen : fourByteAlign (sender.length + helloHeaderSize) ≤ len)
    (hroom : bp.length < fourByteAlign (sender.length + helloHeaderSize)) (length : UInt16) :
    serialize hf timer sender length bp len = .error (.fault .outOfBounds) := by
  have hlength := length_bytes hf timer sender (le_size sender)
  unfold serialize
  dsimp only
  rw [if_neg hne, if_neg (by omega), overwrite_of_lt (by omega)]
  rfl

end HelloTLV

/-! ## All TLVs -/

/-- The serializer of the hello refuses an empty name. -/
def Body.Writable : Body → Prop
  | hello _ _ sender => sender ≠ []
  | _ => True

instance (b : Body) : Decidable b.Writable :=
  match b with
  | .hello _ _ sender => inferInstanceAs (Decidable (sender ≠ []))
  | .ribd _ => inferInstanceAs (Decidable True)
  | .rib .. => inferInstanceAs (Decidable True)
  | .offer _ => inferInstanceAs (Decidable True)
  | .response _ => inferInstanceAs (Decidable True)

/-- The count that the serializer returns: that of the hello is not cut to 16 bits. -/
def Body.written : Body → Nat
  | b@(hello ..) => b.size
  | b => (UInt16.ofNat b.size).toNat

def Body.Encodes : Body → Bytes → Prop
  | b@(hello hf timer sender), bytes => bytes = HelloTLV.bytes hf timer sender b.size
  | ribd d, bytes => RIBDTLV.Encodes d bytes
  | rib nodes relay custody internet, bytes => RIBTLV.Encodes nodes relay custody internet bytes
  | offer l, bytes => bytes = BundleTLV.encode 0xA2 l.list
  | response l, bytes => bytes = BundleTLV.encode 0xA3 l.list

theorem BundleEntryList.type_ne_undefined {type : BundleEntryType} (l : BundleEntryList type)
    (h : type ≠ .undefined) : ∀ e ∈ l.list, e.type ≠ .undefined := by
  intro e he
  rw [l.typed e he]
  exact h

namespace TLV

variable {tlv : TLV} {bp : Bytes} {len : Nat}

theorem serialize_of_le (hw : tlv.body.Writable) (hlen : tlv.body.size ≤ len)
    (hroom : tlv.body.size ≤ bp.length) :
    ∃ bytes, bytes.length = tlv.body.size ∧ tlv.body.Encodes bytes ∧
      tlv.serialize bp len = .ok (bytes ++ bp.drop tlv.body.size, tlv.body.written,
        UInt16.ofNat tlv.body.size) := by
  obtain ⟨body, flags, length⟩ := tlv
  cases body with
  | hello hf timer sender =>
      exact ⟨_, HelloTLV.length_bytes hf timer sender (HelloTLV.le_size sender), rfl,
        HelloTLV.serialize_of_le hw hlen hroom length⟩
  | ribd d => exact RIBDTLV.serialize_of_le hlen hroom length
  | rib nodes relay custody internet => exact RIBTLV.serialize_of_le hlen hroom length
  | offer l =>
      exact ⟨_, BundleTLV.length_encode _ _, rfl,
        BundleTLV.serialize_of_le (l.type_ne_undefined (by decide)) hlen hroom length⟩
  | response l =>
      exact ⟨_, BundleTLV.length_encode _ _, rfl,
        BundleTLV.serialize_of_le (l.type_ne_undefined (by decide)) hlen hroom length⟩

theorem serialize_of_lt (hw : tlv.body.Writable) (hlen : tlv.body.size ≤ len)
    (hroom : bp.length < tlv.body.size) :
    tlv.serialize bp len = .error (.fault .outOfBounds) := by
  obtain ⟨body, flags, length⟩ := tlv
  cases body with
  | hello hf timer sender => exact HelloTLV.serialize_of_lt hw hlen hroom length
  | ribd d => exact RIBDTLV.serialize_of_lt hlen hroom length
  | rib nodes relay custody internet => exact RIBTLV.serialize_of_lt hlen hroom length
  | offer l =>
      exact BundleTLV.serialize_of_lt (l.type_ne_undefined (by decide)) hlen hroom length
  | response l =>
      exact BundleTLV.serialize_of_lt (l.type_ne_undefined (by decide)) hlen hroom length

theorem serialize_of_not (h : ¬ tlv.body.Writable ∨ len < tlv.body.size) :
    tlv.serialize bp len = .ok (bp, 0, tlv.length) := by
  obtain ⟨body, flags, length⟩ := tlv
  cases body with
  | hello hf timer sender =>
      change HelloTLV.serialize hf timer sender length bp len = _
      unfold HelloTLV.serialize
      dsimp only
      by_cases hempty : sender = []
      · rw [if_pos hempty]
        rfl
      · have hlt : len < fourByteAlign (sender.length + helloHeaderSize) :=
          h.resolve_left fun hw => hw hempty
        rw [if_neg hempty, if_pos hlt]
        rfl
  | ribd d =>
      have hlt : len < ribdHeaderSize + d.guessRibdSize := h.resolve_left fun hw => hw trivial
      change RIBDTLV.serialize d length bp len = _
      unfold RIBDTLV.serialize
      rw [if_pos (by omega)]
      rfl
  | rib nodes relay custody internet =>
      change RIBTLV.serialize nodes relay custody internet length bp len = _
      unfold RIBTLV.serialize
      exact if_pos (h.resolve_left fun hw => hw trivial)
  | offer l =>
      change BundleTLV.serialize 0xA2 l.list length bp len = _
      unfold BundleTLV.serialize
      exact if_pos (h.resolve_left fun hw => hw trivial)
  | response l =>
      change BundleTLV.serialize 0xA3 l.list length bp len = _
      unfold BundleTLV.serialize
      exact if_pos (h.resolve_left fun hw => hw trivial)

end TLV

end Prophet

end Dtn2
