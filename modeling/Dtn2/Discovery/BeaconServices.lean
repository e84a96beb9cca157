import Dtn2.Discovery.BeaconSafety

/-!
# The services of a beacon

How a number or a service that was written is read back, whatever follows it, and how a service that ends
less than four bytes behind its start is passed over.
-/

namespace Dtn2

namespace IPND

open Framework InputStream

/-! ## Numbers that were written -/

theorem decodeLoop_eq_some {d : Bytes} {v w : UInt64} {n m : Nat}
    (h : SDNV.decodeLoop d v n = (some m, w)) :
    ∃ num rest, splitNumber d.length d = some (num, rest) ∧ m = n + num.length := by
  induction d generalizing v n with
  | nil => cases h
  | cons b d ih =>
      rw [SDNV.decodeLoop] at h
      by_cases hb : b &&& 0x80 = 0
      · rw [if_pos hb] at h
        cases h
        exact ⟨[b], d, if_pos hb, rfl⟩
      · rw [if_neg hb] at h
        obtain ⟨num, rest, hsplit, hm⟩ := ih h
        refine ⟨b :: num, rest, ?_, ?_⟩
        · rw [List.length_cons, splitNumber, if_neg hb, hsplit]
          rfl
        · rw [hm, List.length_cons]
          omega

theorem splitNumber_append {room : Nat} {d num rest : Bytes}
    (h : splitNumber room d = some (num, rest)) (e : Bytes) :
    splitNumber room (d ++ e) = some (num, rest ++ e) := by
  induction room generalizing d num with
  | zero => cases h
  | succ room ih =>
      cases d with
      | nil => cases h
      | cons b d =>
          rw [splitNumber] at h
          rw [List.cons_append, splitNumber]
          by_cases hb : b &&& 0x80 = 0
          · rw [if_pos hb] at h ⊢
            cases h
            rfl
          · rw [if_neg hb] at h ⊢
            obtain ⟨s, hs, heq⟩ := Option.map_eq_some_iff.mp h
            cases heq
            rw [ih hs]
            rfl

theorem decodeLoop_of_decode {d : Bytes} {v : UInt64} {n : Nat}
    (h : SDNV.decode d = (some n, v)) : SDNV.decodeLoop d 0 0 = (some n, v) := by
  rw [SDNV.decode] at h
  cases hloop : SDNV.decodeLoop d 0 0 with
  | mk ret w =>
      rw [hloop] at h
      cases ret with
      | none => cases h
      | some m =>
          simp only at h
          split at h
          · cases h
          · exact h

theorem splitNumber_encoded (v : UInt64) (rest : Bytes) :
    splitNumber SDNV.maxLength (SDNV.encoded v ++ rest) = some (SDNV.encoded v, rest) := by
  have hdecode := SDNV.decode_encoded v []
  rw [List.append_nil] at hdecode
  obtain ⟨num, behind, hsplit, hlen⟩ := decodeLoop_eq_some (decodeLoop_of_decode hdecode)
  obtain ⟨happ, -, -⟩ := splitNumber_some hsplit
  rw [Nat.zero_add] at hlen
  have hbehind : behind = [] := by
    apply List.eq_nil_of_length_eq_zero
    have hsum := congrArg List.length happ
    rw [List.length_append] at hsum
    omega
  rw [hbehind, List.append_nil] at happ
  rw [hbehind, ← happ] at hsplit
  have happend := splitNumber_append (splitNumber_room hsplit (SDNV.encoded_length_le v)) rest
  rwa [List.nil_append] at happend

theorem encoded_accepted (v : UInt64) :
    ¬ Refused (SDNV.encoded v) ∧ UInt64.ofNat (value (SDNV.encoded v)) = v := by
  have hsplit := splitNumber_encoded v []
  have hdecode := SDNV.decode_encoded v []
  rw [List.append_nil] at hsplit hdecode
  rw [decode_split hsplit] at hdecode
  obtain ⟨hret, hvalue⟩ := Prod.mk.inj hdecode
  refine ⟨?_, hvalue⟩
  intro hrefused
  rw [if_pos hrefused] at hret
  cases hret

theorem readSDNV_encoded (xs : Bytes) (v : UInt64) (rest : Bytes) :
    readSDNV (between xs (SDNV.encoded v ++ rest)) =
      .ok ((SDNV.encoded v).length, v, between (xs ++ SDNV.encoded v) rest) := by
  obtain ⟨haccepted, hvalue⟩ := encoded_accepted v
  rw [readSDNV_some (splitNumber_encoded v rest), numberResult, if_neg haccepted, hvalue]

theorem encoded_length_pos (v : UInt64) : 0 < (SDNV.encoded v).length :=
  List.length_pos_of_ne_nil (SDNV.encoded_ne_nil v)

theorem encoded_head {v : UInt64} (h : v ≠ 0) : ∃ b num, SDNV.encoded v = b :: num ∧ b ≠ 0 := by
  have hsplit := splitNumber_encoded v []
  obtain ⟨-, hvalue⟩ := encoded_accepted v
  cases hv : SDNV.encoded v with
  | nil => exact absurd hv (SDNV.encoded_ne_nil v)
  | cons b num =>
      refine ⟨b, num, rfl, ?_⟩
      intro hb
      rw [hv, hb, List.append_nil, SDNV.maxLength, splitNumber, if_pos (by decide)] at hsplit
      rw [hv, hb, ← (Prod.mk.inj (Option.some.inj hsplit)).1] at hvalue
      exact h hvalue.symm

theorem value_encoded {n : Nat} (h : n < 2 ^ 64) :
    value (SDNV.encoded (UInt64.ofNat n)) % 2 ^ 64 = n := by
  obtain ⟨-, hvalue⟩ := encoded_accepted (UInt64.ofNat n)
  rw [← UInt64.toNat_ofNat', hvalue, UInt64.toNat_ofNat', Nat.mod_eq_of_lt h]

/-! ## Services that were written -/

/-- A service as it is written: the tag, the length of the components, and the components. -/
def structureOf (tag : UInt8) (body : Bytes) : Bytes :=
  tag :: (SDNV.encoded (UInt64.ofNat body.length) ++ body)

theorem writeComponents_length {c : Datatype} {cs : List Datatype} {remaining : Int}
    {structBytes compLen : Nat} {body : Bytes}
    (h : writeComponents (c :: cs) remaining structBytes compLen = .ok body) : 2 ≤ body.length := by
  rw [writeComponents] at h
  split at h
  · cases h
  · split at h
    · cases h
    · rename_i bytes hbytes
      split at h
      · cases h
      · rename_i hlen
        split at h
        · cases h
        · cases h
          rw [List.length_append]
          omega

theorem getComponentsLength_lt (cs : List Datatype) : getComponentsLength cs < 2 ^ 32 := by
  cases cs with
  | nil => decide
  | cons c cs =>
      rw [getComponentsLength]
      exact Nat.mod_lt _ (by decide)

/-- The recursion over datatypes at a service. The equation of `write` itself is beyond the kernel, which
would evaluate the number that is written. -/
theorem brecOn_constructed {M : Datatype → Type} {N : List Datatype → Type}
    (F : (t : Datatype) → @Datatype.below M N t → M t)
    (G : (t : List Datatype) → @Datatype.below_1 M N t → N t) (tag : UInt8)
    (components : List Datatype) (K : M (.constructed tag components) → Prop)
    (h : K (@Datatype.brecOn M N (.constructed tag components) F G)) :
    ∃ B : @Datatype.below M N (.constructed tag components),
      K (F (.constructed tag components) B) ∧ B.1 = @Datatype.brecOn_1 M N components F G :=
  ⟨_, h, rfl⟩

theorem write_rec {tag : UInt8} {components : List Datatype} {n : Nat} {r : Except Int Bytes}
    (h : (Datatype.constructed tag components).write n = r) :
    ∃ B, Datatype.write._f (.constructed tag components) B n = r ∧
      B.1 = writeComponents components := by
  delta Datatype.write at h
  delta writeComponents
  exact brecOn_constructed Datatype.write._f writeComponents._f tag components
    (fun w => w n = r) h

theorem write_constructed {tag : UInt8} {components : List Datatype} {n : Nat} {raw : Bytes}
    (h : (Datatype.constructed tag components).write n = .ok raw) :
    ∃ number room body, SDNV.encode (UInt64.ofNat (getComponentsLength components)) room =
        some number ∧
      writeComponents components (toInt n - 1 - number.length) 0 (getComponentsLength components) =
        .ok body ∧
      body.length = getComponentsLength components ∧ raw = tag :: (number ++ body) := by
  obtain ⟨B, hwrite, hbelow⟩ := write_rec h
  rw [← hbelow]
  clear hbelow h
  delta Datatype.write._f at hwrite
  dsimp -zeta only at hwrite
  split at hwrite
  · cases hwrite
  · extract_lets remaining compLen at hwrite
    split at hwrite
    · cases hwrite
    · rename_i number hnumber
      split at hwrite
      · cases hwrite
      · split at hwrite
        · cases hwrite
        · rename_i body hbody
          split at hwrite
          · cases hwrite
          · rename_i hlen
            exact ⟨number, _, body, hnumber, hbody, not_not.mp hlen, (Except.ok.inj hwrite).symm⟩

theorem write_of_components {tag : UInt8} {components : List Datatype} {n : Nat}
    {number body : Bytes} (hn : (Datatype.constructed tag components).getLength ≤ n)
    (hnumber : SDNV.encode (UInt64.ofNat (getComponentsLength components))
      ((toInt n - 1) % 2 ^ 32).toNat = some number)
    (hlength : number.length = SDNV.encodingLen (UInt64.ofNat (getComponentsLength components)))
    (hbody : writeComponents components (toInt n - 1 - number.length) 0
      (getComponentsLength components) = .ok body)
    (hlen : body.length = getComponentsLength components) :
    (Datatype.constructed tag components).write n = .ok (tag :: (number ++ body)) := by
  obtain ⟨B, hwrite, hbelow⟩ := write_rec (rfl : (Datatype.constructed tag components).write n = _)
  rw [← hbelow] at hbody
  rw [← hwrite]
  clear hwrite hbelow
  delta Datatype.write._f
  dsimp -zeta only
  rw [if_neg (Nat.not_lt.mpr hn)]
  dsimp only
  rw [hnumber]
  dsimp only
  rw [if_neg (not_not.mpr hlength)]
  split
  · rename_i code herror
    cases herror.symm.trans hbody
  · rename_i body' hbody'
    cases hbody'.symm.trans hbody
    rw [if_neg (not_not.mpr hlen)]

theorem raw_structure {svc : IPNDService} {raw : Bytes} (h : svc.raw = some raw) :
    svc.filled = true ∧ ∃ body, raw = structureOf svc.tag body ∧ body.length < 2 ^ 32 ∧
      (svc.components = [] ∧ body = [] ∨ svc.components ≠ [] ∧ 2 ≤ body.length) := by
  have hwrite : svc.filled = true ∧ svc.datatype.write svc.datatype.getLength = .ok raw := by
    unfold IPNDService.raw at h
    split at h
    · rename_i hfilled
      split at h
      · rename_i bytes hbytes
        split at h
        · cases h
          exact ⟨hfilled, hbytes⟩
        · cases h
      · cases h
    · cases h
  obtain ⟨number, room, body, hnumber, hbody, hlen, hraw⟩ := write_constructed hwrite.2
  refine ⟨hwrite.1, body, ?_, ?_, ?_⟩
  · rw [SDNV.encode] at hnumber
    split at hnumber
    · cases hnumber
    · cases hnumber
      rw [hraw, structureOf, hlen]
  · rw [hlen]
    exact getComponentsLength_lt svc.components
  · cases hcomponents : svc.components with
    | nil =>
        rw [hcomponents, writeComponents] at hbody
        exact Or.inl ⟨rfl, (Except.ok.inj hbody).symm⟩
    | cons c cs =>
        rw [hcomponents] at hbody
        exact Or.inr ⟨List.cons_ne_nil c cs, writeComponents_length hbody⟩

theorem readServicesLoop_structure {tag : UInt8} {body : Bytes} {found : Option ClaService}
    (left : Nat) (xs rest : Bytes) (totalRead : Nat) (services : List ClaService)
    (hservice : readService tag (structureOf tag body) (structureOf tag body).length =
      .ok (found, if found.isSome then ((structureOf tag body).length : Int) else 0))
    (hlong : 4 ≤ (structureOf tag body ++ rest).length)
    (hsize : (xs ++ (structureOf tag body ++ rest)).length < 2 ^ 31) :
    readServicesLoop (left + 1) (between xs (structureOf tag body ++ rest))
        (structureOf tag body ++ rest).length totalRead services =
      readServicesLoop left (between (xs ++ structureOf tag body) rest) rest.length
        (totalRead + (structureOf tag body).length) (services ++ found.toList) := by
  have hnumber := readSDNV_encoded (xs ++ [tag]) (UInt64.ofNat body.length) (body ++ rest)
  have hpos := encoded_length_pos (UInt64.ofNat body.length)
  have hten := SDNV.encoded_length_le (UInt64.ofNat body.length)
  have hlen : (structureOf tag body).length =
      1 + (SDNV.encoded (UInt64.ofNat body.length)).length + body.length := by
    rw [structureOf, List.length_cons, List.length_append]
    omega
  have hdata : structureOf tag body ++ rest =
      tag :: (SDNV.encoded (UInt64.ofNat body.length) ++ (body ++ rest)) := by
    rw [structureOf, List.cons_append, List.append_assoc]
  rw [List.length_append, List.length_append] at hsize
  have hbody : (UInt64.ofNat body.length).toNat = body.length := by
    rw [UInt64.toNat_ofNat', Nat.mod_eq_of_lt (by omega)]
  rw [SDNV.maxLength] at hten
  generalize hnum : SDNV.encoded (UInt64.ofNat body.length) = num at *
  have hresult : toInt num.length = num.length := toInt_of_lt (by omega)
  have hread : (between xs (structureOf tag body ++ rest)).read 1 =
      ([tag], between (xs ++ [tag]) (num ++ (body ++ rest))) := by
    rw [hdata, read_one]
  have hback : (between (xs ++ [tag] ++ num) (body ++ rest)).seek
      (Int.bmod (between xs (structureOf tag body ++ rest)).tellg (2 ^ 32)) =
        between xs (structureOf tag body ++ rest) := by
    rw [tellg_between, bmod_position (by omega), List.append_assoc, seek_between, hdata]
    rfl
  have hraw := read_between_append xs (structureOf tag body) rest
  have htotal : (1 + num.length + body.length) % 2 ^ 64 = (structureOf tag body).length := by
    omega
  have hstruct : (1 + num.length + body.length) % 2 ^ 32 = (structureOf tag body).length := by
    omega
  have hshort : ¬ (structureOf tag body ++ rest).length < 4 := Nat.not_lt.mpr hlong
  have hnotpos : ¬ (num.length : Int) ≤ 0 := by omega
  have hfits : ¬ (structureOf tag body ++ rest).length < (structureOf tag body).length := by
    rw [List.length_append]
    omega
  have hleft : (structureOf tag body ++ rest).length - (structureOf tag body).length =
      rest.length := by
    rw [List.length_append]
    omega
  conv_lhs => unfold readServicesLoop
  rw [if_neg hshort, hread]
  dsimp only
  rw [hnumber, ok_bind]
  dsimp only
  rw [hresult, if_neg hnotpos, Int.toNat_natCast, hbody, htotal, if_neg hfits, hstruct, hback, hraw]
  dsimp only
  rw [Nat.sub_self, List.replicate_zero, List.append_nil, hservice, ok_bind, hleft]
  cases found with
  | none => simp
  | some svc =>
      have hgood : 0 < ((structureOf tag body).length : Int) ∧
          ((structureOf tag body).length : Int).toNat = (structureOf tag body).length := by
        omega
      exact if_pos hgood

/-! ## A service that is missing -/

theorem mark_reached {b : Bool} {c : Course} {rest : Bytes} {clean : Bool}
    (h : c.mark b = .reached rest clean) : ∃ clean', c = .reached rest clean' := by
  cases c with
  | stuck => cases h
  | rejected => cases h
  | reached rest' clean' =>
      cases h
      exact ⟨clean', rfl⟩

theorem servicesCourse_reached {n : Nat} {d rest : Bytes} {clean : Bool}
    (h : servicesCourse (n + 1) d = .reached rest clean) :
    4 ≤ d.length ∧ ∃ tag num body clean', d = tag :: (num ++ body) ∧
      splitNumber SDNV.maxLength (num ++ body) = some (num, body) ∧
      (1 + num.length + value num) % 2 ^ 64 ≤ d.length ∧
      servicesCourse n (d.drop ((1 + num.length + value num) % 2 ^ 64)) = .reached rest clean' := by
  cases d with
  | nil => cases h
  | cons tag d =>
      unfold servicesCourse at h
      by_cases hshort : d.length < 3
      · rw [if_pos hshort] at h
        cases h
      rw [if_neg hshort] at h
      cases hsplit : splitNumber SDNV.maxLength d with
      | none =>
          rw [hsplit] at h
          cases h
      | some s =>
          obtain ⟨num, body⟩ := s
          obtain ⟨happ, -, -⟩ := splitNumber_some hsplit
          rw [hsplit] at h
          dsimp only at h
          rw [happ] at hsplit
          split at h
          · cases h
          · rename_i hgood
            obtain ⟨-, hfits, -⟩ := not_or.mp hgood |>.imp_right not_or.mp
            obtain ⟨clean', hnext⟩ := mark_reached h
            rw [List.length_cons]
            refine ⟨by omega, tag, num, body, clean', ?_, hsplit, ?_, hnext⟩
            · rw [happ]
            · rw [← List.length_cons (a := tag)]
              exact Nat.le_of_not_lt hfits

theorem foldl_shiftIn_lt (v : Nat) (num : Bytes) :
    num.foldl shiftIn v < (v + 1) * 128 ^ num.length := by
  induction num generalizing v with
  | nil => simp
  | cons b num ih =>
      rw [List.foldl_cons, List.length_cons, Nat.pow_succ']
      apply Nat.lt_of_lt_of_le (ih (shiftIn v b))
      rw [← Nat.mul_assoc]
      apply Nat.mul_le_mul_right
      rw [shiftIn]
      omega

theorem value_lt (num : Bytes) : value num < 128 ^ num.length := by
  have hlt := foldl_shiftIn_lt 0 num
  rwa [Nat.zero_add, Nat.one_mul] at hlt

theorem servicesCourse_number {n : Nat} {v : UInt64} {rest : Bytes} {clean : Bool}
    (h : servicesCourse (n + 1) (SDNV.encoded v) = .reached rest clean) : rest = [] := by
  obtain ⟨-, tag, num, body, clean', hd, hsplit, hfits, hnext⟩ := servicesCourse_reached h
  have hwhole := splitNumber_encoded v []
  have hten := SDNV.encoded_length_le v
  rw [List.append_nil, hd, SDNV.maxLength, splitNumber] at hwhole
  have hpos := (splitNumber_some hsplit).2.1
  have hbody : body = [] := by
    by_cases hb : tag &&& 0x80 = 0
    · rw [if_pos hb] at hwhole
      have hnil : num ++ body = [] := (Prod.mk.inj (Option.some.inj hwhole)).2
      rw [(List.append_eq_nil_iff.mp hnil).1] at hpos
      cases hpos
    · rw [if_neg hb] at hwhole
      obtain ⟨s, hs, heq⟩ := Option.map_eq_some_iff.mp hwhole
      have hroom := splitNumber_room hs (Nat.le_succ_of_le (splitNumber_some hs).2.2)
      cases hroom.symm.trans hsplit
      exact (Prod.mk.inj heq).2
  rw [hbody, List.append_nil] at hd
  rw [hd, List.length_cons] at hfits hten
  rw [SDNV.maxLength] at hten
  have hlt : value num < 128 ^ 9 :=
    Nat.lt_of_lt_of_le (value_lt num) (Nat.pow_le_pow_right (by decide) (by omega))
  have htotal : (1 + num.length + value num) % 2 ^ 64 = 1 + num.length := by omega
  rw [htotal, hd, Nat.add_comm 1, List.drop_succ_cons, List.drop_length] at hnext
  cases n with
  | zero =>
      cases hnext
      rfl
  | succ n => cases hnext

theorem servicesCourse_structure {n : Nat} {tag : UInt8} {body d rest : Bytes} {clean : Bool}
    (hbody : body.length < 2 ^ 32)
    (h : servicesCourse (n + 1) (structureOf tag body ++ d) = .reached rest clean) :
    4 ≤ (structureOf tag body ++ d).length ∧
      ∃ clean', servicesCourse n d = .reached rest clean' := by
  obtain ⟨hfour, tag', num, body', clean', hd, hsplit, -, hnext⟩ := servicesCourse_reached h
  refine ⟨hfour, clean', ?_⟩
  rw [structureOf, List.cons_append, List.append_assoc] at hd
  obtain ⟨-, htail⟩ := List.cons.inj hd
  rw [← htail] at hsplit
  have hsplit' := splitNumber_encoded (UInt64.ofNat body.length) (body ++ d)
  have hnum : SDNV.encoded (UInt64.ofNat body.length) = num :=
    (Prod.mk.inj (Option.some.inj (hsplit'.symm.trans hsplit))).1
  have hten := SDNV.encoded_length_le (UInt64.ofNat body.length)
  have hvalue := value_encoded (n := body.length) (by omega)
  rw [hnum] at hvalue hten
  have hlen : (structureOf tag body).length = 1 + num.length + body.length := by
    rw [structureOf, hnum, List.length_cons, List.length_append]
    omega
  rw [SDNV.maxLength] at hten
  have htotal : (1 + num.length + value num) % 2 ^ 64 = (structureOf tag body).length := by omega
  rwa [htotal, List.drop_left] at hnext

/-! ## Services of a sender -/

/-- A service that is announced: one of the known convergence layers, not filled or with an address and
a port, or a service that the receiver does not know. -/
inductive BeaconService where
  | unset (udp : Bool)
  | cla (udp : Bool) (addr : UInt32) (port : UInt16)
  | other (svc : IPNDService) (tcp_ne : svc.tag ≠ ClaService.tcpV4) (udp_ne : svc.tag ≠ ClaService.udpV4)

namespace BeaconService

def claTag (udp : Bool) : UInt8 := if udp then ClaService.udpV4 else ClaService.tcpV4

def toService : BeaconService → IPNDService
  | unset udp => (ClaService.unset (claTag udp)).toService
  | cla udp addr port => (ClaService.ofParams (claTag udp) addr port).toService
  | other svc _ _ => svc

def received : BeaconService → Option ClaService
  | unset _ => none
  | cla udp addr port => some (ClaService.ofParams (claTag udp) addr port)
  | other _ _ _ => none

/-- The components of a convergence layer as they are written. -/
def params (addr : UInt32) (port : UInt16) : Bytes :=
  3 :: BigEndian.encode 2 port.toNat ++ 4 :: BigEndian.encode 4 addr.toNat

theorem params_length (addr : UInt32) (port : UInt16) : (params addr port).length = 8 := by
  simp [params]

theorem structureOf_params (udp : Bool) (addr : UInt32) (port : UInt16) :
    structureOf (claTag udp) (params addr port) = claTag udp :: 8 :: params addr port := by
  have hnumber : SDNV.encoded (UInt64.ofNat 8) = [8] := by decide +kernel
  rw [structureOf, params_length, hnumber]
  rfl

theorem cla_read (udp : Bool) (addr : UInt32) (port : UInt16) :
    readService (claTag udp) (structureOf (claTag udp) (params addr port)) 10 =
      .ok (some (ClaService.ofParams (claTag udp) addr port), 10) := by
  rw [structureOf_params]
  cases udp
  · rfl
  · rfl

theorem cla_components (udp : Bool) (addr : UInt32) (port : UInt16) :
    getComponentsLength (cla udp addr port).toService.components = 8 := by
  change getComponentsLength [.primitive (Fixed16.ofValue port), .primitive (Fixed32.ofValue addr)] = 8
  simp only [getComponentsLength, Datatype.getLength, Primitive.getLength, Fixed16.ofValue,
    Fixed32.ofValue, BigEndian.length_encode]
  decide

theorem cla_write (udp : Bool) (addr : UInt32) (port : UInt16) :
    (cla udp addr port).toService.datatype.getLength = 10 ∧
      (cla udp addr port).toService.datatype.write 10 =
        .ok (claTag udp :: ([8] ++ params addr port)) := by
  have hcomponents := cla_components udp addr port
  have hlength : (cla udp addr port).toService.datatype.getLength = 10 := by
    rw [IPNDService.datatype, Datatype.getLength, hcomponents]
    decide +kernel
  refine ⟨hlength, write_of_components hlength.le ?_ ?_ ?_ ?_⟩
  · rw [hcomponents]
    decide +kernel
  · rw [hcomponents]
    decide +kernel
  · rw [hcomponents]
    cases udp
    · with_unfolding_all rfl
    · with_unfolding_all rfl
  · rw [hcomponents, params_length]

theorem cla_raw (udp : Bool) (addr : UInt32) (port : UInt16) :
    (cla udp addr port).toService.raw = some (structureOf (claTag udp) (params addr port)) := by
  obtain ⟨hlength, hwrite⟩ := cla_write udp addr port
  have hfilled : (cla udp addr port).toService.filled = true := by
    cases udp
    · rfl
    · rfl
  rw [IPNDService.raw, if_pos hfilled, hlength, hwrite, structureOf_params]
  apply if_pos
  simp [params_length]

theorem written {s : BeaconService} {raw : Bytes} (h : s.toService.raw = some raw) :
    ∃ tag body, raw = structureOf tag body ∧ body.length < 2 ^ 32 ∧
      (s.toService.components = [] ∧ body = [] ∨ s.toService.components ≠ [] ∧ 2 ≤ body.length) ∧
      readService tag raw raw.length =
        .ok (s.received, if s.received.isSome then (raw.length : Int) else 0) := by
  obtain ⟨hfilled, body, hraw, hsize, hbody⟩ := raw_structure h
  cases s with
  | unset udp => cases hfilled
  | cla udp addr port =>
      rw [cla_raw] at h
      cases h
      have hread := cla_read udp addr port
      refine ⟨claTag udp, params addr port, rfl, ?_, ?_, ?_⟩
      · rw [params_length]
        decide
      · rw [params_length]
        exact Or.inr ⟨List.cons_ne_nil _ _, by decide⟩
      · have hlen : (structureOf (claTag udp) (params addr port)).length = 10 := by
          rw [structureOf_params, List.length_cons, List.length_cons, params_length]
        rw [hlen]
        exact hread
  | other svc tcp_ne udp_ne =>
      refine ⟨svc.tag, body, hraw, hsize, hbody, ?_⟩
      exact if_neg (not_or.mpr ⟨tcp_ne, udp_ne⟩)

def bytes (svcs : List BeaconService) : Bytes :=
  ((svcs.map toService).filterMap IPNDService.raw).flatten

theorem bytes_skipped {s : BeaconService} (h : s.toService.raw = none) (svcs : List BeaconService) :
    bytes (s :: svcs) = bytes svcs := by
  rw [bytes, List.map_cons, List.filterMap_cons_none h, bytes]

theorem bytes_written {s : BeaconService} {raw : Bytes} (h : s.toService.raw = some raw)
    (svcs : List BeaconService) : bytes (s :: svcs) = raw ++ bytes svcs := by
  rw [bytes, List.map_cons, List.filterMap_cons_some h, List.flatten_cons, bytes]

def AllWritten (svcs : List BeaconService) : Prop := ∀ s ∈ svcs, s.toService.raw ≠ none

/-- The last service has components, or two bytes follow it. -/
def EndsLong (svcs : List BeaconService) (room : Nat) : Prop :=
  ∀ last ∈ svcs.getLast?, last.toService.components ≠ [] ∨ 2 ≤ room

theorem two_le_raw {s : BeaconService} {raw : Bytes} (h : s.toService.raw = some raw) :
    2 ≤ raw.length := by
  obtain ⟨tag, body, hraw, -⟩ := written h
  have hpos := encoded_length_pos (UInt64.ofNat body.length)
  rw [hraw, structureOf, List.length_cons, List.length_append]
  omega

theorem four_le_iff {s : BeaconService} {raw : Bytes} (h : s.toService.raw = some raw)
    (rest : Bytes) :
    4 ≤ (raw ++ rest).length ↔ s.toService.components ≠ [] ∨ 2 ≤ rest.length := by
  obtain ⟨tag, body, hraw, -, hbody, -⟩ := written h
  have hpos := encoded_length_pos (UInt64.ofNat body.length)
  cases hbody with
  | inl hempty =>
      have hlen : raw.length = 2 := by
        rw [hraw, hempty.2]
        rfl
      rw [List.length_append, hlen]
      constructor
      · intro hfour
        exact Or.inr (by omega)
      · intro hor
        cases hor with
        | inl hne => exact absurd hempty.1 hne
        | inr htwo => omega
  | inr hfull =>
      refine iff_of_true ?_ (Or.inl hfull.1)
      rw [hraw, structureOf, List.length_append, List.length_cons, List.length_append]
      omega

theorem AllWritten.head {s : BeaconService} {svcs : List BeaconService}
    (h : AllWritten (s :: svcs)) : ∃ raw, s.toService.raw = some raw :=
  Option.ne_none_iff_exists'.mp (h s List.mem_cons_self)

theorem AllWritten.tail {s : BeaconService} {svcs : List BeaconService}
    (h : AllWritten (s :: svcs)) : AllWritten svcs :=
  fun t ht => h t (List.mem_cons_of_mem s ht)

theorem length_le_bytes {svcs : List BeaconService} (hall : AllWritten svcs) :
    2 * svcs.length ≤ (bytes svcs).length := by
  induction svcs with
  | nil => exact Nat.zero_le _
  | cons s svcs ih =>
      obtain ⟨raw, hraw⟩ := hall.head
      have htwo := two_le_raw hraw
      have htail := ih hall.tail
      rw [bytes_written hraw, List.length_append, List.length_cons]
      omega

theorem four_le_bytes {s : BeaconService} {svcs : List BeaconService} {rest : Bytes}
    (hall : AllWritten (s :: svcs)) (hlong : EndsLong (s :: svcs) rest.length) :
    4 ≤ (bytes (s :: svcs) ++ rest).length := by
  obtain ⟨raw, hraw⟩ := hall.head
  rw [bytes_written hraw, List.append_assoc, four_le_iff hraw]
  cases svcs with
  | nil => exact hlong s rfl
  | cons t svcs =>
      have hbytes := length_le_bytes hall.tail
      rw [List.length_cons] at hbytes
      rw [List.length_append]
      exact Or.inr (by omega)

theorem readServicesLoop_bytes (svcs : List BeaconService) (xs rest : Bytes) (totalRead : Nat)
    (services : List ClaService) (hall : AllWritten svcs) (hlong : EndsLong svcs rest.length)
    (hsize : (xs ++ (bytes svcs ++ rest)).length < 2 ^ 31) :
    readServicesLoop svcs.length (between xs (bytes svcs ++ rest)) (bytes svcs ++ rest).length
        totalRead services =
      .ok ⟨0, services ++ svcs.filterMap received, none, totalRead + (bytes svcs).length,
        between (xs ++ bytes svcs) rest⟩ := by
  induction svcs generalizing xs totalRead services with
  | nil =>
      rw [List.length_nil, readServicesLoop]
      simp [bytes]
  | cons s svcs ih =>
      obtain ⟨raw, hraw⟩ := hall.head
      obtain ⟨tag, body, hstruct, -, -, hservice⟩ := written hraw
      have hfour := four_le_bytes hall hlong
      have htail : EndsLong svcs rest.length := by
        intro last hlast
        apply hlong
        cases svcs with
        | nil => cases hlast
        | cons t svcs => exact hlast
      rw [bytes_written hraw, List.append_assoc] at hsize hfour ⊢
      rw [List.length_cons]
      subst hstruct
      rw [readServicesLoop_structure svcs.length xs (bytes svcs ++ rest) totalRead services hservice
        hfour hsize]
      rw [ih (xs ++ structureOf tag body) _ _ hall.tail htail
        (by rwa [List.append_assoc])]
      have hfound : s.received.toList ++ svcs.filterMap received =
          (s :: svcs).filterMap received := by
        cases hreceived : s.received with
        | none => rw [List.filterMap_cons_none hreceived]; rfl
        | some svc => rw [List.filterMap_cons_some hreceived]; rfl
      rw [List.append_assoc, List.append_assoc, hfound, List.length_append, Nat.add_assoc]

theorem servicesCourse_bytes (svcs : List BeaconService) (m : Nat) {period rest : Bytes}
    {clean : Bool} (hperiod : period = [] ∨ ∃ v, period = SDNV.encoded v)
    (h : servicesCourse (svcs.length + m) (bytes svcs ++ period) = .reached rest clean) :
    (m = 0 ∧ AllWritten svcs ∧ EndsLong svcs period.length) ∨ (period ≠ [] ∧ rest = []) := by
  induction svcs generalizing m clean with
  | nil =>
      rw [List.length_nil, Nat.zero_add] at h
      cases m with
      | zero =>
          refine Or.inl ⟨rfl, ?_, ?_⟩
          · intro s hs
            cases hs
          · intro last hlast
            cases hlast
      | succ m =>
          have hbytes : bytes [] ++ period = period := rfl
          rw [hbytes] at h
          cases hperiod with
          | inl hnone =>
              rw [hnone] at h
              cases h
          | inr hsome =>
              obtain ⟨v, hv⟩ := hsome
              rw [hv] at h ⊢
              exact Or.inr ⟨SDNV.encoded_ne_nil v, servicesCourse_number h⟩
  | cons s svcs ih =>
      cases hraw : s.toService.raw with
      | none =>
          rw [bytes_skipped hraw, List.length_cons, Nat.add_assoc, Nat.add_comm 1] at h
          cases ih (m + 1) h with
          | inl hall => cases hall.1
          | inr hend => exact Or.inr hend
      | some raw =>
          obtain ⟨tag, body, hstruct, hbody, -⟩ := written hraw
          rw [bytes_written hraw, List.append_assoc, hstruct, List.length_cons,
            Nat.add_right_comm] at h
          obtain ⟨hfour, clean', hnext⟩ := servicesCourse_structure hbody h
          cases ih m hnext with
          | inr hend => exact Or.inr hend
          | inl hall =>
              obtain ⟨hm, hwritten, hlong⟩ := hall
              refine Or.inl ⟨hm, ?_, ?_⟩
              · intro t ht
                cases List.mem_cons.mp ht with
                | inl heq =>
                    rw [heq, hraw]
                    exact Option.some_ne_none raw
                | inr htail => exact hwritten t htail
              · intro last hlast
                cases svcs with
                | nil =>
                    cases hlast
                    rw [← hstruct] at hfour
                    exact (four_le_iff hraw period).mp hfour
                | cons t svcs => exact hlong last hlast

end BeaconService

end IPND

end Dtn2
