import Dtn2.Prophet.Encoding
import Dtn2.Prophet.ParseSafety

/-!
# Reading back what was written

A TLV whose names have at most 255 bytes and whose size fits in its 16-bit length is read back from
its own bytes, whatever is behind them. Cut short it is refused. A TLV that the parser accepts has
only such names and lengths.
-/

namespace Dtn2

namespace Prophet

open Framework

/-! ## Fields -/

theorem toNat_ofNat16 {n : Nat} (h : n < 65536) : (UInt16.ofNat n).toNat = n := by
  rw [UInt16.toNat_ofNat']
  omega

theorem readBytes_append {a mid rest : Bytes} {i n : Nat} (hi : a.length = i)
    (hn : mid.length = n) : readBytes (a ++ (mid ++ rest)) i n = .ok mid := by
  subst hi hn
  rw [readBytes, if_pos (Or.inr (by simp only [List.length_append]; omega)), List.drop_left,
    List.take_left]
  rfl

theorem readU16_append {a rest : Bytes} {v : Nat} {i : Nat} (h : a.length = i) :
    readU16 (a ++ (BigEndian.encode 2 v ++ rest)) i = .ok (UInt16.ofNat v) := by
  unfold readU16
  rw [readBytes_append h (BigEndian.length_encode 2 v), Exec.ok_bind, BigEndian.decode_encode]
  have hmod : UInt16.ofNat (v % 256 ^ 2) = UInt16.ofNat v := by
    apply UInt16.toNat_inj.mp
    simp
  rw [hmod]
  rfl

theorem readU32_append {a rest : Bytes} {v : Nat} {i : Nat} (h : a.length = i) :
    readU32 (a ++ (BigEndian.encode 4 v ++ rest)) i = .ok (UInt32.ofNat v) := by
  unfold readU32
  rw [readBytes_append h (BigEndian.length_encode 4 v), Exec.ok_bind, BigEndian.decode_encode]
  have hmod : UInt32.ofNat (v % 256 ^ 4) = UInt32.ofNat v := by
    apply UInt32.toNat_inj.mp
    simp
  rw [hmod]
  rfl

/-! ## Headers of TLVs with entries -/

section Header

variable (typecode flags : UInt8) (size count : Nat) (unused tail : Bytes)

theorem readByte_header_zero :
    readByte (headerBytes typecode flags size count unused ++ tail) 0 = .ok typecode := rfl

theorem readByte_header_one :
    readByte (headerBytes typecode flags size count unused ++ tail) 1 = .ok flags := rfl

theorem readU16_header_two : readU16 (headerBytes typecode flags size count unused ++ tail) 2 =
    .ok (UInt16.ofNat size) := by
  unfold headerBytes
  rw [List.append_assoc, List.append_assoc, List.append_assoc]
  refine (readU16_append (a := [typecode, flags]) rfl).trans ?_
  rw [UInt16.ofNat_toNat]

theorem readU16_header_four : readU16 (headerBytes typecode flags size count unused ++ tail) 4 =
    .ok (UInt16.ofNat count) := by
  unfold headerBytes
  rw [List.append_assoc, List.append_assoc]
  exact readU16_append rfl

theorem length_headerBytes :
    (headerBytes typecode flags size count unused).length = 6 + unused.length := by
  simp only [headerBytes, List.length_append, BigEndian.length_encode, List.length_cons,
    List.length_nil]

theorem drop_header (h : unused.length = 2) :
    (headerBytes typecode flags size count unused ++ tail).drop 8 = tail := by
  apply List.drop_left'
  rw [length_headerBytes, h]

theorem take_header (h : unused.length = 2) {m : Nat} (hm : 8 ≤ m) :
    (headerBytes typecode flags size count unused ++ tail).take m =
      headerBytes typecode flags size count unused ++ tail.take (m - 8) := by
  rw [List.take_append, length_headerBytes, h,
    List.take_of_length_le (by rw [length_headerBytes]; omega)]

theorem readByte_header_take {m : Nat} (hm : 0 < m) :
    readByte ((headerBytes typecode flags size count unused ++ tail).take m) 0 = .ok typecode := by
  obtain ⟨k, rfl⟩ : ∃ k, m = k + 1 := ⟨m - 1, by omega⟩
  rfl

end Header

/-! ## Dictionaries -/

theorem Dictionary.assign_of_new {d : Dictionary} {e : UInt16 × Bytes} (he : Dictionary.Proper e)
    (hname : e.2 ∉ d.rribd.map Prod.snd) (hsid : ∀ x ∈ d.rribd, x.1.toNat < e.1.toNat) :
    ∃ d', d.assign e.2 e.1 = some d' ∧ d'.rribd = d.rribd ++ [e] := by
  have hkey : e.1 ∉ d.rribd.map Prod.fst := by
    intro hmem
    obtain ⟨x, hx, heq⟩ := List.mem_map.mp hmem
    have hlt := hsid x hx
    rw [heq] at hlt
    exact lt_irrefl _ hlt
  unfold Dictionary.assign
  rw [dif_neg he.2.2.2, dif_neg he.1, dif_neg he.2.1, dif_neg he.2.2.1, dif_neg hname, dif_neg hkey]
  exact ⟨_, rfl, Dictionary.insertSid_of_lt hsid⟩

namespace RIBDTLV

theorem readRasEntry_rasBytes {e : UInt16 × Bytes} (hlen : e.2.length < 256) (unused : UInt8)
    (tail : Bytes) (sid : UInt16) (destId : Bytes) :
    readRasEntry sid destId (rasBytes e unused ++ tail) (rasBytes e unused ++ tail).length =
      .ok (rasSize e, e.1, e.2) := by
  have hbyte : (UInt8.ofNat e.2.length).toNat = e.2.length := by
    rw [UInt8.toNat_ofNat']
    omega
  have hsize := length_rasBytes e unused
  have hpad : rasBytes e unused ++ tail = (BigEndian.encode 2 e.1.toNat ++
      [UInt8.ofNat e.2.length, unused]) ++ (e.2 ++ (List.replicate
        (fourByteAlign e.2.length - e.2.length) 0 ++ tail)) := by
    rw [rasBytes, paddedName, Nat.mod_eq_of_lt hlen, List.take_length]
    simp only [List.append_assoc]
  unfold readRasEntry
  rw [if_neg (by rw [List.length_append, hsize, rasSize]; omega)]
  have hlength : readByte (rasBytes e unused ++ tail) 2 = .ok (UInt8.ofNat e.2.length) := rfl
  have hsid : readU16 (rasBytes e unused ++ tail) 0 = .ok e.1 := by
    rw [hpad, List.append_assoc]
    refine (readU16_append (a := []) rfl).trans ?_
    rw [UInt16.ofNat_toNat]
  have hname : readBytes (rasBytes e unused ++ tail) routingAddressStringSize e.2.length = .ok e.2 := by
    rw [hpad]
    exact readBytes_append rfl rfl
  rw [hlength, Exec.ok_bind]
  dsimp only
  rw [hbyte, if_neg (by rw [List.length_append, hsize, rasSize]; omega), hsid, Exec.ok_bind, hname,
    Exec.ok_bind]
  rfl

theorem readEntries_entriesAre {entries : List (UInt16 × Bytes)} {bytes : Bytes}
    (hbytes : EntriesAre entries bytes) (hlen : ∀ e ∈ entries, e.2.length < 256) (d : Dictionary)
    (hproper : ∀ e ∈ entries, Dictionary.Proper e)
    (hsorted : (d.rribd ++ entries).Pairwise fun a b => a.1.toNat < b.1.toNat)
    (hnamed : ((d.rribd ++ entries).map Prod.snd).Nodup) (sid : UInt16) (destId rest : Bytes)
    (amtRead : Nat) :
    ∃ d', d'.rribd = d.rribd ++ entries ∧
      readEntries entries.length sid destId d (bytes ++ rest) (bytes ++ rest).length amtRead =
        .ok (d', amtRead + bytes.length) := by
  induction entries generalizing bytes d sid destId amtRead with
  | nil =>
      have hnil : bytes = [] := hbytes
      subst hnil
      exact ⟨d, by simp, rfl⟩
  | cons e entries ih =>
      obtain ⟨unused, tail, rfl, htail⟩ := hbytes
      have hhead := hproper e List.mem_cons_self
      have hname : e.2 ∉ d.rribd.map Prod.snd := by
        rw [List.map_append, List.nodup_append] at hnamed
        intro hmem
        exact hnamed.2.2 e.2 hmem e.2 (by simp) rfl
      have hsid : ∀ x ∈ d.rribd, x.1.toNat < e.1.toNat := by
        intro x hx
        exact (List.pairwise_append.mp hsorted).2.2 x hx e List.mem_cons_self
      obtain ⟨d', hassign, hd'⟩ := Dictionary.assign_of_new hhead hname hsid
      have hsplit : d'.rribd ++ entries = d.rribd ++ e :: entries := by
        rw [hd', List.append_assoc]
        rfl
      obtain ⟨d'', hd'', hrun⟩ := ih htail (fun x hx => hlen x (List.mem_cons_of_mem _ hx)) d'
        (fun x hx => hproper x (List.mem_cons_of_mem _ hx)) (by rwa [hsplit]) (by rwa [hsplit]) e.1 e.2
        (amtRead + rasSize e)
      have hsize := length_rasBytes e unused
      have hpos := rasSize_pos e
      refine ⟨d'', by rw [hd'', hsplit], ?_⟩
      rw [List.length_cons, readEntries, List.append_assoc,
        readRasEntry_rasBytes (hlen e List.mem_cons_self), Exec.ok_bind]
      dsimp only
      rw [if_neg (by omega), hassign]
      dsimp only
      rw [List.drop_left' hsize, List.length_append, hsize, Nat.add_sub_cancel_left, hrun,
        List.length_append, hsize, Nat.add_assoc]

theorem length_le_guessRibdSize (d : Dictionary) : 4 * d.rribd.length ≤ d.guessRibdSize := by
  rw [guessRibdSize_eq]
  induction d.rribd with
  | nil => simp
  | cons e rest ih =>
      simp only [List.length_cons, List.map_cons, List.sum_cons, rasSize, routingAddressStringSize]
      omega

theorem deserialize_encodes {d : Dictionary} {bytes : Bytes} (hbytes : Encodes d bytes)
    (hlen : ∀ e ∈ d.rribd, e.2.length < 256) (hsize : 8 + d.guessRibdSize < 65536)
    (hlength : bytes.length = 8 + d.guessRibdSize) (rest : Bytes) :
    ∃ d', d'.rribd = d.rribd ∧ deserialize (bytes ++ rest) (bytes ++ rest).length =
      .ok (some ⟨.ribd d', 0, UInt16.ofNat (8 + d.guessRibdSize)⟩) := by
  obtain ⟨tail, hentries, rfl⟩ := hbytes
  have hcount := length_le_guessRibdSize d
  obtain ⟨d', hd', hrun⟩ := readEntries_entriesAre hentries hlen .empty d.proper d.sorted d.named 0 []
    rest 8
  refine ⟨d', hd', ?_⟩
  have htail : tail.length = d.guessRibdSize := by
    rw [List.length_append, length_headerBytes] at hlength
    simp only [List.length_cons, List.length_nil] at hlength
    omega
  have htotal := hlength
  rw [List.append_assoc]
  have hlen' : (headerBytes 0xA0 0 (8 + d.guessRibdSize) d.rribd.length [0, 0] ++
      (tail ++ rest)).length = 8 + (tail ++ rest).length := by
    rw [List.length_append, length_headerBytes]
    rfl
  unfold deserialize
  rw [readByte_header_zero, Exec.ok_bind, if_neg (by simp), if_neg (by rw [hlen', ribdHeaderSize]; omega),
    readU16_header_two, Exec.ok_bind, toNat_ofNat16 hsize,
    if_neg (by rw [hlen', List.length_append]; omega), readByte_header_one, Exec.ok_bind,
    readU16_header_four, Exec.ok_bind, toNat_ofNat16 (by omega)]
  change readEntries _ 0 [] .empty ((_ ++ (tail ++ rest)).drop 8) (_ - 8) 8 >>= _ = _
  rw [drop_header _ _ _ _ _ _ rfl, hlen', Nat.add_sub_cancel_left, hrun, Exec.ok_bind]
  dsimp only
  rw [htail, if_pos rfl]
  rfl

theorem deserialize_cut {flags : UInt8} {size count : Nat} {unused tail : Bytes} {m : Nat}
    (hunused : unused.length = 2) (hsize : size < 65536) (hpos : 0 < m) (hm : m < size) :
    deserialize ((headerBytes 0xA0 flags size count unused ++ tail).take m) m = .ok none := by
  unfold deserialize
  rw [readByte_header_take _ _ _ _ _ _ hpos, Exec.ok_bind, if_neg (by simp)]
  by_cases hshort : m < ribdHeaderSize
  · exact if_pos hshort
  · rw [if_neg hshort, take_header _ _ _ _ _ _ hunused (Nat.not_lt.mp hshort), readU16_header_two,
      Exec.ok_bind, toNat_ofNat16 hsize, if_pos hm]
    rfl

end RIBDTLV

/-! ## Routing information -/

namespace RIBTLV

theorem flagsByte_relay (relay custody internet : Bool) :
    decide (flagsByte relay custody internet &&& relayNode = relayNode) = relay := by
  revert relay custody internet
  decide

theorem flagsByte_custody (relay custody internet : Bool) :
    decide (flagsByte relay custody internet &&& custodyNode = custodyNode) = custody := by
  revert relay custody internet
  decide

theorem flagsByte_internet (relay custody internet : Bool) :
    decide (flagsByte relay custody internet &&& internetGwNode = internetGwNode) = internet := by
  revert relay custody internet
  decide

theorem readRibEntry_entryBytes (node : RIBNode) (tail : Bytes) :
    readRibEntry (entryBytes node ++ tail) = .ok node := by
  have hsid : readU16 (entryBytes node ++ tail) 0 = .ok node.sid := by
    rw [entryBytes, List.append_assoc]
    refine (readU16_append (a := []) rfl).trans ?_
    rw [UInt16.ofNat_toNat]
  have hpvalue : readByte (entryBytes node ++ tail) 2 = .ok node.pvalue := rfl
  have hflags : readByte (entryBytes node ++ tail) 3 =
      .ok (flagsByte node.relay node.custody node.internetGw) := rfl
  unfold readRibEntry
  rw [hsid, Exec.ok_bind, hpvalue, Exec.ok_bind, hflags, Exec.ok_bind, flagsByte_relay,
    flagsByte_custody, flagsByte_internet]
  rfl

theorem readEntries_entries (nodes old : List RIBNode) (rest : Bytes) (amtRead : Nat) :
    readEntries nodes.length old (nodes.flatMap entryBytes ++ rest)
        (nodes.flatMap entryBytes ++ rest).length amtRead =
      .ok (old ++ nodes, amtRead + 4 * nodes.length) := by
  induction nodes generalizing old amtRead with
  | nil =>
      rw [List.append_nil]
      rfl
  | cons node nodes ih =>
      have hlen : (entryBytes node ++ (nodes.flatMap entryBytes ++ rest)).length =
          4 + (nodes.flatMap entryBytes ++ rest).length := by
        rw [List.length_append, length_entryBytes]
      rw [List.flatMap_cons, List.append_assoc, List.length_cons, readEntries,
        if_neg (by rw [hlen, ribEntrySize]; omega), readRibEntry_entryBytes, Exec.ok_bind, hlen]
      change readEntries nodes.length _ (List.drop 4 _) (4 + _ - 4) (amtRead + 4) = _
      rw [List.drop_left' (length_entryBytes node), Nat.add_sub_cancel_left, ih, List.append_assoc]
      have hamt : amtRead + 4 + 4 * nodes.length = amtRead + 4 * (nodes.length + 1) := by omega
      rw [hamt]
      rfl

theorem deserialize_encodes {nodes : List RIBNode} {relay custody internet : Bool} {bytes : Bytes}
    (hbytes : Encodes nodes relay custody internet bytes) (hsize : 8 + 4 * nodes.length < 65536)
    (rest : Bytes) : deserialize (bytes ++ rest) (bytes ++ rest).length =
      .ok (some ⟨.rib nodes relay custody internet, flagsByte relay custody internet,
        UInt16.ofNat (8 + 4 * nodes.length)⟩) := by
  obtain ⟨b, c, rfl⟩ := hbytes
  have hentries := length_entries nodes
  have hlen : (headerBytes 0xA1 (flagsByte relay custody internet) (8 + 4 * nodes.length)
      nodes.length [b, c] ++ (nodes.flatMap entryBytes ++ rest)).length =
      8 + (nodes.flatMap entryBytes ++ rest).length := by
    rw [List.length_append, length_headerBytes]
    rfl
  rw [List.append_assoc]
  unfold deserialize
  rw [if_neg (by rw [hlen, ribHeaderSize]; omega), readByte_header_zero, Exec.ok_bind,
    if_neg (by simp), readU16_header_two, Exec.ok_bind, toNat_ofNat16 hsize,
    if_neg (by rw [hlen, List.length_append]; omega), readByte_header_one, Exec.ok_bind,
    readU16_header_four, Exec.ok_bind, toNat_ofNat16 (by omega)]
  change readEntries _ [] ((_ ++ (nodes.flatMap entryBytes ++ rest)).drop 8) (_ - 8) 8 >>= _ = _
  rw [drop_header _ _ _ _ _ _ rfl, hlen, Nat.add_sub_cancel_left, readEntries_entries, Exec.ok_bind]
  dsimp only
  rw [if_pos rfl, flagsByte_relay, flagsByte_custody, flagsByte_internet]
  rfl

theorem deserialize_cut {flags : UInt8} {size count : Nat} {unused tail : Bytes} {m : Nat}
    (hunused : unused.length = 2) (hsize : size < 65536) (hm : m < size) :
    deserialize ((headerBytes 0xA1 flags size count unused ++ tail).take m) m = .ok none := by
  unfold deserialize
  by_cases hshort : m < ribHeaderSize
  · exact if_pos hshort
  · rw [if_neg hshort, take_header _ _ _ _ _ _ hunused (Nat.not_lt.mp hshort), readByte_header_zero,
      Exec.ok_bind, if_neg (by simp), readU16_header_two, Exec.ok_bind, toNat_ofNat16 hsize,
      if_pos hm]
    rfl

end RIBTLV

/-! ## Offers and responses -/

theorem BundleEntryList.addEntry_of_new {type : BundleEntryType} {l : BundleEntryList type}
    {e : BundleTLVEntry} (htype : e.type = type) (hkey : e.key ∉ l.list.map BundleTLVEntry.key) :
    ∃ l', l.addEntry e = some l' ∧ l'.list = l.list ++ [e] := by
  unfold BundleEntryList.addEntry
  rw [dif_pos htype, dif_neg hkey]
  exact ⟨_, rfl, rfl⟩

namespace BundleTLV

variable {type : BundleEntryType}

theorem flagsByte_custody (e : BundleTLVEntry) :
    decide (flagsByte e &&& custodyFlag = custodyFlag) = e.custody := by
  unfold flagsByte
  generalize e.custody = custody, e.accept = accept, e.ack = ack
  revert custody accept ack
  decide

theorem flagsByte_accept (e : BundleTLVEntry) :
    decide (flagsByte e &&& acceptedFlag = acceptedFlag) = e.accept := by
  unfold flagsByte
  generalize e.custody = custody, e.accept = accept, e.ack = ack
  revert custody accept ack
  decide

theorem flagsByte_ack (e : BundleTLVEntry) :
    decide (flagsByte e &&& ackFlag = ackFlag) = e.ack := by
  unfold flagsByte
  generalize e.custody = custody, e.accept = accept, e.ack = ack
  revert custody accept ack
  decide

theorem readBundleEntry_entryBytes (e : BundleTLVEntry) (tail : Bytes) :
    readBundleEntry (entryBytes e ++ tail) = .ok e := by
  have hflags : readByte (entryBytes e ++ tail) 2 = .ok (flagsByte e) := rfl
  have hsid : readU16 (entryBytes e ++ tail) 0 = .ok e.sid := by
    simp only [entryBytes, List.append_assoc]
    refine (readU16_append (a := []) rfl).trans ?_
    rw [UInt16.ofNat_toNat]
  have hcts : readU32 (entryBytes e ++ tail) 4 = .ok e.creationTs := by
    rw [entryBytes, List.append_assoc, List.append_assoc]
    refine (readU32_append rfl).trans ?_
    rw [UInt32.ofNat_toNat]
  have hseq : readU32 (entryBytes e ++ tail) 8 = .ok e.seqno := by
    rw [entryBytes, List.append_assoc]
    refine (readU32_append rfl).trans ?_
    rw [UInt32.ofNat_toNat]
  unfold readBundleEntry
  rw [hflags, Exec.ok_bind, hsid, Exec.ok_bind, hcts, Exec.ok_bind, hseq, Exec.ok_bind,
    flagsByte_custody, flagsByte_accept, flagsByte_ack]
  rfl

theorem readEntries_entries (list : List BundleTLVEntry) (old : BundleEntryList type)
    (htype : ∀ e ∈ list, e.type = type) (hkeys : ((old.list ++ list).map BundleTLVEntry.key).Nodup)
    (rest : Bytes) (amtRead length : Nat) (hlength : length = amtRead + 12 * list.length) :
    ∃ l', l'.list = old.list ++ list ∧
      readEntries length list.length old (list.flatMap entryBytes ++ rest)
          (list.flatMap entryBytes ++ rest).length amtRead = .ok (some (l', length)) := by
  induction list generalizing old amtRead with
  | nil =>
      have hnil : length = amtRead := hlength
      rw [hnil]
      exact ⟨old, by simp, rfl⟩
  | cons e list ih =>
      rw [List.length_cons] at hlength
      have hlen : (entryBytes e ++ (list.flatMap entryBytes ++ rest)).length =
          12 + (list.flatMap entryBytes ++ rest).length := by
        rw [List.length_append, length_entryBytes]
      have hkey : e.key ∉ old.list.map BundleTLVEntry.key := by
        rw [List.map_append, List.nodup_append] at hkeys
        intro hmem
        exact hkeys.2.2 e.key hmem e.key (by simp) rfl
      obtain ⟨l', hadd, hl'⟩ := BundleEntryList.addEntry_of_new (htype e List.mem_cons_self) hkey
      have hsplit : l'.list ++ list = old.list ++ e :: list := by
        rw [hl', List.append_assoc]
        rfl
      obtain ⟨l'', hl'', hrun⟩ := ih l' (fun x hx => htype x (List.mem_cons_of_mem _ hx))
        (by rwa [hsplit]) (amtRead + 12) (by omega)
      refine ⟨l'', by rw [hl'', hsplit], ?_⟩
      rw [List.flatMap_cons, List.append_assoc, List.length_cons, readEntries,
        if_pos ⟨by rw [hlen, bundleHeaderSize]; omega, by rw [bundleHeaderSize]; omega⟩,
        if_neg (by rw [hlen, bundleEntrySize]; omega), readBundleEntry_entryBytes, Exec.ok_bind, hadd,
        hlen]
      change readEntries length list.length l' (List.drop 12 _) (12 + _ - 12) (amtRead + 12) = _
      rw [List.drop_left' (length_entryBytes e), Nat.add_sub_cancel_left, hrun]

theorem deserialize_encode (typecode : UInt8) (body : BundleEntryList type → Body)
    (l : BundleEntryList type) (hsize : 8 + 12 * l.list.length < 65536) (rest : Bytes) :
    deserialize typecode body (encode typecode l.list ++ rest) (encode typecode l.list ++ rest).length =
      .ok (some ⟨body l, 0, UInt16.ofNat (8 + 12 * l.list.length)⟩) := by
  have hentries := length_entries l.list
  have hlen : (headerBytes typecode 0 (8 + 12 * l.list.length) l.list.length [0, 0] ++
      (l.list.flatMap entryBytes ++ rest)).length =
      8 + (l.list.flatMap entryBytes ++ rest).length := by
    rw [List.length_append, length_headerBytes]
    rfl
  obtain ⟨l', hl', hrun⟩ := readEntries_entries l.list .empty l.typed l.distinct rest 8 _ rfl
  have hl : l' = l := by
    obtain ⟨_, _, _⟩ := l'
    obtain ⟨_, _, _⟩ := l
    cases hl'
    rfl
  rw [encode, List.append_assoc]
  unfold deserialize
  rw [if_neg (by rw [hlen, bundleHeaderSize]; omega), readByte_header_zero, Exec.ok_bind,
    if_neg (by simp), readU16_header_two, Exec.ok_bind, toNat_ofNat16 hsize,
    if_neg (by rw [hlen, List.length_append]; omega), readByte_header_one, Exec.ok_bind,
    readU16_header_four, Exec.ok_bind, toNat_ofNat16 (by omega)]
  change readEntries _ _ .empty ((_ ++ (l.list.flatMap entryBytes ++ rest)).drop 8) (_ - 8) 8 >>= _ = _
  rw [drop_header _ _ _ _ _ _ rfl, hlen, Nat.add_sub_cancel_left, hrun, Exec.ok_bind]
  dsimp only
  rw [if_pos rfl, hl]
  rfl

theorem deserialize_cut {typecode : UInt8} {body : BundleEntryList type → Body} {flags : UInt8}
    {size count : Nat} {unused tail : Bytes} {m : Nat} (hunused : unused.length = 2)
    (hsize : size < 65536) (hm : m < size) :
    deserialize typecode body ((headerBytes typecode flags size count unused ++ tail).take m) m =
      .ok none := by
  unfold deserialize
  by_cases hshort : m < bundleHeaderSize
  · exact if_pos hshort
  · rw [if_neg hshort, take_header _ _ _ _ _ _ hunused (Nat.not_lt.mp hshort), readByte_header_zero,
      Exec.ok_bind, if_neg (by simp), readU16_header_two, Exec.ok_bind, toNat_ofNat16 hsize,
      if_pos hm]
    rfl

end BundleTLV

/-! ## Hellos -/

namespace HelloTLV

variable {hf : HelloHf} {timer : UInt8} {sender : Bytes} {size : Nat}

def header (hf : HelloHf) (timer : UInt8) (sender : Bytes) (size : Nat) : Bytes :=
  [(0x01 : UInt8), hf.toBits <<< 5] ++ (BigEndian.encode 2 size ++ [timer, UInt8.ofNat sender.length])

theorem bytes_eq (hf : HelloHf) (timer : UInt8) (sender : Bytes) (size : Nat) :
    bytes hf timer sender size = header hf timer sender size ++
      (sender ++ List.replicate (size - (helloHeaderSize + sender.length)) 0) := by
  simp only [bytes, header, List.append_assoc]

theorem readU16_header (hf : HelloHf) (timer : UInt8) (sender : Bytes) (size : Nat) (tail : Bytes) :
    readU16 (header hf timer sender size ++ tail) 2 = .ok (UInt16.ofNat size) := by
  unfold header
  rw [List.append_assoc, List.append_assoc]
  exact readU16_append rfl

theorem deserialize_bytes (hname : sender.length < 256) (hle : helloHeaderSize + sender.length ≤ size)
    (hsize : size < 65536) (rest : Bytes) :
    deserialize (bytes hf timer sender size ++ rest) (bytes hf timer sender size ++ rest).length =
      .ok (some ⟨.hello hf timer sender, 0, UInt16.ofNat size⟩) := by
  have hlength := length_bytes hf timer sender hle
  have hlen : (bytes hf timer sender size ++ rest).length = size + rest.length := by
    rw [List.length_append, hlength]
  have hbyte : (UInt8.ofNat sender.length).toNat = sender.length := by
    rw [UInt8.toNat_ofNat']
    omega
  have hread : readBytes (bytes hf timer sender size ++ rest) helloHeaderSize sender.length =
      .ok sender := by
    rw [bytes_eq, List.append_assoc, List.append_assoc]
    exact readBytes_append rfl rfl
  have hu16 : readU16 (bytes hf timer sender size ++ rest) 2 = .ok (UInt16.ofNat size) := by
    rw [bytes_eq, List.append_assoc]
    exact readU16_header _ _ _ _ _
  have htype : readByte (bytes hf timer sender size ++ rest) 0 = .ok 0x01 := rfl
  have hhf : readByte (bytes hf timer sender size ++ rest) 1 = .ok (hf.toBits <<< 5) := rfl
  have htimer : readByte (bytes hf timer sender size ++ rest) 4 = .ok timer := rfl
  have hnl : readByte (bytes hf timer sender size ++ rest) 5 = .ok (UInt8.ofNat sender.length) := rfl
  unfold deserialize
  rw [htype, Exec.ok_bind, if_neg (by simp), if_neg (by rw [hlen]; omega), hu16, Exec.ok_bind,
    toNat_ofNat16 hsize, if_neg (by omega), hnl, Exec.ok_bind, hbyte, if_neg (by omega), hhf,
    Exec.ok_bind, htimer, Exec.ok_bind, hread, Exec.ok_bind, HelloHf.ofBits_shift]
  rfl

theorem deserialize_cut (hsize : size < 65536) {m : Nat} (hpos : 0 < m) (hm : m < size) :
    deserialize ((bytes hf timer sender size).take m) m = .ok none := by
  have htype : readByte ((bytes hf timer sender size).take m) 0 = .ok 0x01 := by
    obtain ⟨k, rfl⟩ : ∃ k, m = k + 1 := ⟨m - 1, by omega⟩
    rfl
  unfold deserialize
  rw [htype, Exec.ok_bind, if_neg (by simp)]
  by_cases hshort : m < helloHeaderSize
  · exact if_pos hshort
  · have hheader : (header hf timer sender size).length = helloHeaderSize := rfl
    rw [if_neg hshort, bytes_eq, List.take_append,
      List.take_of_length_le (by omega), readU16_header, Exec.ok_bind, toNat_ofNat16 hsize, if_pos hm]
    rfl

end HelloTLV

/-! ## All TLVs -/

def Body.NamesFit : Body → Prop
  | hello _ _ sender => sender.length < 256
  | ribd d => ∀ e ∈ d.rribd, e.2.length < 256
  | _ => True

/-- The TLVs say the same. Of a dictionary it is the map from string ids to names. -/
def Body.Same : Body → Body → Prop
  | ribd d, ribd d' => d.rribd = d'.rribd
  | a, b => a = b

theorem Body.Same.rfl' (b : Body) : Body.Same b b := by
  cases b <;> rfl

namespace ProphetTLV

theorem readTlv_encodes {b : Body} {bytes : Bytes} (hnames : b.NamesFit) (hsize : b.size < 65536)
    (hbytes : b.Encodes bytes) (hlength : bytes.length = b.size) (rest : Bytes) :
    ∃ b' flags, b.Same b' ∧ readTlv (bytes ++ rest) (bytes ++ rest).length =
      .ok (some ⟨b', flags, UInt16.ofNat b.size⟩) := by
  cases b with
  | hello hf timer sender =>
      refine ⟨_, 0, Body.Same.rfl' _, ?_⟩
      have heq : bytes = HelloTLV.bytes hf timer sender (Body.hello hf timer sender).size := hbytes
      subst heq
      exact HelloTLV.deserialize_bytes hnames (HelloTLV.le_size sender) hsize rest
  | ribd d =>
      obtain ⟨d', hd', hrun⟩ := RIBDTLV.deserialize_encodes hbytes hnames hsize hlength rest
      refine ⟨.ribd d', 0, hd'.symm, ?_⟩
      obtain ⟨tail, -, rfl⟩ := hbytes
      exact hrun
  | rib nodes relay custody internet =>
      refine ⟨_, RIBTLV.flagsByte relay custody internet, Body.Same.rfl' _, ?_⟩
      have hrun := RIBTLV.deserialize_encodes hbytes hsize rest
      obtain ⟨x, y, rfl⟩ := hbytes
      exact hrun
  | offer l =>
      refine ⟨_, 0, Body.Same.rfl' _, ?_⟩
      have heq : bytes = BundleTLV.encode 0xA2 l.list := hbytes
      subst heq
      exact BundleTLV.deserialize_encode 0xA2 .offer l hsize rest
  | response l =>
      refine ⟨_, 0, Body.Same.rfl' _, ?_⟩
      have heq : bytes = BundleTLV.encode 0xA3 l.list := hbytes
      subst heq
      exact BundleTLV.deserialize_encode 0xA3 .response l hsize rest

theorem readTlv_eq {bp : Bytes} {len : Nat} {t : UInt8} (h : readByte bp 0 = .ok t) :
    readTlv bp len =
      if t = 0x01 then HelloTLV.deserialize bp len
      else if t = 0xA0 then RIBDTLV.deserialize bp len
      else if t = 0xA1 then RIBTLV.deserialize bp len
      else if t = 0xA2 then OfferTLV.deserialize bp len
      else if t = 0xA3 then ResponseTLV.deserialize bp len
      else pure none := by
  unfold readTlv
  rw [h, Exec.ok_bind]

theorem readTlv_cut {b : Body} {bytes : Bytes} (hsize : b.size < 65536) (hbytes : b.Encodes bytes)
    {m : Nat} (hpos : 0 < m) (hm : m < b.size) : readTlv (bytes.take m) m = .ok none := by
  cases b with
  | hello hf timer sender =>
      have heq : bytes = HelloTLV.bytes hf timer sender (Body.hello hf timer sender).size := hbytes
      subst heq
      have htype : readByte ((HelloTLV.bytes hf timer sender (Body.hello hf timer sender).size).take m)
          0 = .ok 0x01 := by
        obtain ⟨k, rfl⟩ : ∃ k, m = k + 1 := ⟨m - 1, by omega⟩
        rfl
      rw [readTlv_eq htype, if_pos rfl]
      exact HelloTLV.deserialize_cut hsize hpos hm
  | ribd d =>
      obtain ⟨tail, -, rfl⟩ := hbytes
      rw [readTlv_eq (readByte_header_take _ _ _ _ _ _ hpos)]
      exact RIBDTLV.deserialize_cut rfl hsize hpos hm
  | rib nodes relay custody internet =>
      obtain ⟨x, y, rfl⟩ := hbytes
      rw [readTlv_eq (readByte_header_take _ _ _ _ _ _ hpos)]
      exact RIBTLV.deserialize_cut rfl hsize hm
  | offer l =>
      have heq : bytes = BundleTLV.encode 0xA2 l.list := hbytes
      subst heq
      unfold BundleTLV.encode
      rw [readTlv_eq (readByte_header_take _ _ _ _ _ _ hpos)]
      exact BundleTLV.deserialize_cut rfl hsize hm
  | response l =>
      have heq : bytes = BundleTLV.encode 0xA3 l.list := hbytes
      subst heq
      unfold BundleTLV.encode
      rw [readTlv_eq (readByte_header_take _ _ _ _ _ _ hpos)]
      exact BundleTLV.deserialize_cut rfl hsize hm

end ProphetTLV

/-! ## What is accepted -/

theorem Dictionary.assign_again {d d' : Dictionary} {destId : Bytes} {sid : UInt16}
    (h : d.assign destId sid = some d') : d'.assign destId sid = none := by
  unfold Dictionary.assign at h ⊢
  split at h
  · cases h
  rename_i hne
  rw [dif_neg hne]
  split at h
  · rename_i h0
    rw [dif_pos h0]
    split at h
    · cases h
      exact if_neg hne
    · cases h
  rename_i h0
  rw [dif_neg h0]
  split at h
  · rename_i h1
    rw [dif_pos h1]
    split at h
    · cases h
      exact if_neg hne
    · cases h
  rename_i h1
  rw [dif_neg h1]
  split at h
  · cases h
  rename_i hinv
  rw [dif_neg hinv]
  split at h
  · cases h
  split at h
  · cases h
  · cases h
    have hperm := (Dictionary.insertSid_perm sid destId d.rribd).map Prod.snd
    exact dif_pos (hperm.symm.subset List.mem_cons_self)

theorem Dictionary.assign_rribd {d d' : Dictionary} {destId : Bytes} {sid : UInt16}
    (h : d.assign destId sid = some d') :
    d'.rribd = d.rribd ∨ d'.rribd.Perm ((sid, destId) :: d.rribd) := by
  unfold Dictionary.assign at h
  split at h
  · cases h
  split at h
  · split at h
    · cases h
      exact Or.inl rfl
    · cases h
  split at h
  · split at h
    · cases h
      exact Or.inl rfl
    · cases h
  split at h
  · cases h
  split at h
  · cases h
  split at h
  · cases h
  · cases h
    exact Or.inr (Dictionary.insertSid_perm sid destId d.rribd)

namespace RIBDTLV

/-- The entries of a dictionary that was read have names of at most 255 bytes, and take no more bytes
than were read. -/
def ReadAs (d : Dictionary) (amtRead : Nat) : Prop :=
  (∀ e ∈ d.rribd, e.2.length < 256) ∧ 8 + (d.rribd.map rasSize).sum ≤ amtRead

theorem ReadAs.assign {d d' : Dictionary} {amtRead : Nat} (h : ReadAs d amtRead) {destId : Bytes}
    {sid : UInt16} (hname : destId.length < 256) (hassign : d.assign destId sid = some d') :
    ReadAs d' (amtRead + rasSize (sid, destId)) := by
  rcases Dictionary.assign_rribd hassign with heq | hperm
  · rw [ReadAs, heq]
    exact ⟨h.1, Nat.le_add_right_of_le h.2⟩
  · constructor
    · intro e he
      rcases List.mem_cons.mp (hperm.subset he) with rfl | hmem
      · exact hname
      · exact h.1 e hmem
    · rw [(hperm.map rasSize).sum_nat, List.map_cons, List.sum_cons]
      have := h.2
      omega

/-- A read entry is either whole, or its string id and name are the old ones. -/
theorem readRasEntry_cases {sid sid' : UInt16} {destId destId' bp : Bytes} {len n : Nat}
    (h : readRasEntry sid destId bp len = .ok (n, sid', destId')) :
    (sid' = sid ∧ destId' = destId) ∨ (destId'.length < 256 ∧ n = rasSize (sid', destId')) := by
  unfold readRasEntry at h
  split at h
  · cases h
    exact Or.inl ⟨rfl, rfl⟩
  obtain ⟨length, -, h⟩ := Exec.bind_eq_ok.mp h
  dsimp only at h
  split at h
  · cases h
    exact Or.inl ⟨rfl, rfl⟩
  obtain ⟨stringId, -, h⟩ := Exec.bind_eq_ok.mp h
  obtain ⟨name, hname, h⟩ := Exec.bind_eq_ok.mp h
  cases h
  right
  have hlen : destId'.length = length.toNat := by
    unfold readBytes at hname
    split at hname
    · rename_i hcase
      cases hname
      rw [List.length_take, List.length_drop]
      rcases hcase with h0 | hle
      · omega
      · omega
    · cases hname
  refine ⟨?_, ?_⟩
  · rw [hlen]
    exact length.toNat_lt
  · rw [rasSize, hlen]

theorem readEntries_readAs {count : Nat} {sid : UInt16} {destId : Bytes} {d d' : Dictionary}
    {bp : Bytes} {len amtRead amtRead' : Nat} (hstale : d.assign destId sid = none)
    (hd : ReadAs d amtRead)
    (h : readEntries count sid destId d bp len amtRead = .ok (d', amtRead')) : ReadAs d' amtRead' := by
  induction count generalizing sid destId d bp len amtRead with
  | zero =>
      cases h
      exact hd
  | succ count ih =>
      unfold readEntries at h
      obtain ⟨⟨n, sid', destId'⟩, hread, h⟩ := Exec.bind_eq_ok.mp h
      dsimp only at h
      split at h
      · cases h
        exact hd
      split at h
      · cases h
        exact hd
      · rename_i d'' hassign
        rcases readRasEntry_cases hread with ⟨rfl, rfl⟩ | ⟨hname, rfl⟩
        · rw [hstale] at hassign
          cases hassign
        · exact ih (Dictionary.assign_again hassign) (hd.assign hname hassign) h

end RIBDTLV

def Body.FitsIn (b : Body) (length : UInt16) : Prop :=
  b.NamesFit ∧ match b with
    | hello .. => True
    | b => b.size ≤ length.toNat

namespace RIBDTLV

theorem deserialize_fitsIn {bp : Bytes} {len : Nat} {tlv : TLV}
    (h : deserialize bp len = .ok (some tlv)) : tlv.body.FitsIn tlv.length := by
  unfold deserialize at h
  obtain ⟨type, -, h⟩ := Exec.bind_eq_ok.mp h
  split at h
  · cases h
  split at h
  · cases h
  obtain ⟨length, -, h⟩ := Exec.bind_eq_ok.mp h
  split at h
  · cases h
  obtain ⟨flags, -, h⟩ := Exec.bind_eq_ok.mp h
  obtain ⟨count, -, h⟩ := Exec.bind_eq_ok.mp h
  obtain ⟨⟨d, amtRead⟩, hrun, h⟩ := Exec.bind_eq_ok.mp h
  dsimp only at h
  split at h
  · rename_i heq
    cases h
    have hstart : ReadAs .empty 8 := ⟨fun e he => absurd he List.not_mem_nil, le_refl _⟩
    have hread := readEntries_readAs rfl hstart hrun
    refine ⟨hread.1, ?_⟩
    change 8 + d.guessRibdSize ≤ length.toNat
    rw [guessRibdSize_eq, ← heq]
    exact hread.2
  · cases h

end RIBDTLV

namespace RIBTLV

theorem readEntries_length {count : Nat} {nodes nodes' : List RIBNode} {bp : Bytes}
    {len amtRead amtRead' : Nat} (h : readEntries count nodes bp len amtRead = .ok (nodes', amtRead')) :
    amtRead' + 4 * nodes.length = amtRead + 4 * nodes'.length := by
  induction count generalizing nodes bp len amtRead with
  | zero =>
      cases h
      rfl
  | succ count ih =>
      unfold readEntries at h
      split at h
      · cases h
        rfl
      · obtain ⟨node, -, h⟩ := Exec.bind_eq_ok.mp h
        have hstep := ih h
        rw [List.length_append, List.length_singleton, ribEntrySize] at hstep
        omega

theorem deserialize_fitsIn {bp : Bytes} {len : Nat} {tlv : TLV}
    (h : deserialize bp len = .ok (some tlv)) : tlv.body.FitsIn tlv.length := by
  unfold deserialize at h
  split at h
  · cases h
  obtain ⟨type, -, h⟩ := Exec.bind_eq_ok.mp h
  split at h
  · cases h
  obtain ⟨length, -, h⟩ := Exec.bind_eq_ok.mp h
  split at h
  · cases h
  obtain ⟨flags, -, h⟩ := Exec.bind_eq_ok.mp h
  obtain ⟨count, -, h⟩ := Exec.bind_eq_ok.mp h
  obtain ⟨⟨nodes, amtRead⟩, hrun, h⟩ := Exec.bind_eq_ok.mp h
  dsimp only at h
  split at h
  · rename_i heq
    cases h
    have hread := readEntries_length hrun
    rw [List.length_nil, ribHeaderSize] at hread
    refine ⟨trivial, ?_⟩
    change 8 + 4 * nodes.length ≤ length.toNat
    omega
  · cases h

end RIBTLV

namespace BundleTLV

variable {type : BundleEntryType}

theorem readEntries_length {length count : Nat} {l l' : BundleEntryList type} {bp : Bytes}
    {len amtRead amtRead' : Nat}
    (h : readEntries length count l bp len amtRead = .ok (some (l', amtRead'))) :
    amtRead' + 12 * l.list.length = amtRead + 12 * l'.list.length := by
  induction count generalizing l bp len amtRead with
  | zero =>
      cases h
      rfl
  | succ count ih =>
      unfold readEntries at h
      split at h
      · split at h
        · cases h
        obtain ⟨e, -, h⟩ := Exec.bind_eq_ok.mp h
        split at h
        · cases h
        · rename_i l'' hadd
          have hstep := ih h
          rw [BundleEntryList.addEntry_list hadd, List.length_append, List.length_singleton,
            bundleEntrySize] at hstep
          omega
      · cases h
        rfl

theorem deserialize_length {typecode : UInt8} {body : BundleEntryList type → Body} {bp : Bytes}
    {len : Nat} {tlv : TLV} (h : deserialize typecode body bp len = .ok (some tlv)) :
    ∃ l, tlv.body = body l ∧ 8 + 12 * l.list.length ≤ tlv.length.toNat := by
  unfold deserialize at h
  split at h
  · cases h
  obtain ⟨first, -, h⟩ := Exec.bind_eq_ok.mp h
  split at h
  · cases h
  obtain ⟨length, -, h⟩ := Exec.bind_eq_ok.mp h
  split at h
  · cases h
  obtain ⟨flags, -, h⟩ := Exec.bind_eq_ok.mp h
  obtain ⟨count, -, h⟩ := Exec.bind_eq_ok.mp h
  obtain ⟨r, hrun, h⟩ := Exec.bind_eq_ok.mp h
  split at h
  · cases h
  · rename_i l amtRead
    split at h
    · rename_i heq
      cases h
      have hread := readEntries_length hrun
      refine ⟨l, rfl, ?_⟩
      change 8 + 12 * l.list.length ≤ length.toNat
      have hempty : (@BundleEntryList.empty type).list.length = 0 := rfl
      rw [hempty, bundleHeaderSize] at hread
      omega
    · cases h

end BundleTLV

namespace HelloTLV

theorem deserialize_fitsIn {bp : Bytes} {len : Nat} {tlv : TLV}
    (h : deserialize bp len = .ok (some tlv)) : tlv.body.FitsIn tlv.length := by
  unfold deserialize at h
  obtain ⟨type, -, h⟩ := Exec.bind_eq_ok.mp h
  split at h
  · cases h
  split at h
  · cases h
  obtain ⟨length, -, h⟩ := Exec.bind_eq_ok.mp h
  split at h
  · cases h
  obtain ⟨nameLength, -, h⟩ := Exec.bind_eq_ok.mp h
  split at h
  · cases h
  obtain ⟨hf, -, h⟩ := Exec.bind_eq_ok.mp h
  obtain ⟨timer, -, h⟩ := Exec.bind_eq_ok.mp h
  obtain ⟨name, hname, h⟩ := Exec.bind_eq_ok.mp h
  cases h
  refine ⟨?_, trivial⟩
  change name.length < 256
  unfold readBytes at hname
  split at hname
  · cases hname
    have hlt := nameLength.toNat_lt
    rw [List.length_take]
    omega
  · cases hname

end HelloTLV

theorem ProphetTLV.readTlv_fitsIn {bp : Bytes} {len : Nat} {tlv : TLV}
    (h : readTlv bp len = .ok (some tlv)) : tlv.body.FitsIn tlv.length := by
  unfold readTlv at h
  obtain ⟨typecode, -, h⟩ := Exec.bind_eq_ok.mp h
  split at h
  · exact HelloTLV.deserialize_fitsIn h
  split at h
  · exact RIBDTLV.deserialize_fitsIn h
  split at h
  · exact RIBTLV.deserialize_fitsIn h
  split at h
  · obtain ⟨l, hbody, hlen⟩ := BundleTLV.deserialize_length h
    rw [hbody]
    exact ⟨trivial, hlen⟩
  split at h
  · obtain ⟨l, hbody, hlen⟩ := BundleTLV.deserialize_length h
    rw [hbody]
    exact ⟨trivial, hlen⟩
  · cases h

end Prophet

end Dtn2
