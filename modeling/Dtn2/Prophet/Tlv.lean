import Dtn2.Bundling.Core

/-!
# Prophet TLVs

Two Prophet routers exchange messages made of five kinds of TLV: the hello that opens an encounter,
the dictionary that numbers the endpoint ids, the routing information base, and the lists of bundles
that are offered and requested. This module has the values that the TLVs carry in memory.
-/

namespace Dtn2

namespace Prophet

/-- `FOUR_BYTE_ALIGN`, where the argument stands alone. -/
def fourByteAlign (n : Nat) : Nat := if n % 4 ≠ 0 then n + (4 - n % 4) else n

theorem le_fourByteAlign (n : Nat) : n ≤ fourByteAlign n := by
  unfold fourByteAlign
  split <;> omega

theorem fourByteAlign_lt (n : Nat) : fourByteAlign n < n + 4 := by
  unfold fourByteAlign
  split <;> omega

/-! ## Hello functions and results -/

/-- `hello_hf_t`: the field has three bits, and three of its values have no name. -/
inductive HelloHf where
  | unknown
  | syn
  | synack
  | ack
  | rstack
  | unnamed (n : Fin 3)
deriving DecidableEq, Repr

def HelloHf.toBits : HelloHf → UInt8
  | unknown => 0x0
  | syn => 0x1
  | synack => 0x2
  | ack => 0x3
  | rstack => 0x4
  | unnamed n => UInt8.ofNat (5 + n.val)

/-- The cast of a bit field of three bits. -/
def HelloHf.ofBits (b : UInt8) : HelloHf :=
  match b.toNat % 8 with
  | 0 => unknown
  | 1 => syn
  | 2 => synack
  | 3 => ack
  | 4 => rstack
  | n => unnamed ⟨(n - 5) % 3, Nat.mod_lt _ (by decide)⟩

theorem HelloHf.ofBits_shift (hf : HelloHf) : ofBits (hf.toBits <<< 5 >>> 5) = hf := by
  cases hf with
  | unnamed n => revert n; decide
  | _ => decide

/-- `header_result_t`: values of the byte that have no name are kept as they are. -/
inductive HeaderResult where
  | unknownResult
  | noSuccessAck
  | ackAll
  | success
  | failure
  | returnReceipt
  | unnamed (n : Fin 250)
deriving DecidableEq, Repr

def HeaderResult.toByte : HeaderResult → UInt8
  | unknownResult => 0x0
  | noSuccessAck => 0x1
  | ackAll => 0x2
  | success => 0x3
  | failure => 0x4
  | returnReceipt => 0x5
  | unnamed n => UInt8.ofNat (6 + n.val)

def HeaderResult.ofByte (b : UInt8) : HeaderResult :=
  match b.toNat with
  | 0 => unknownResult
  | 1 => noSuccessAck
  | 2 => ackAll
  | 3 => success
  | 4 => failure
  | 5 => returnReceipt
  | n => unnamed ⟨(n - 6) % 250, Nat.mod_lt _ (by decide)⟩

theorem HeaderResult.ofByte_toByte (r : HeaderResult) : ofByte r.toByte = r := by
  cases r with
  | unnamed n => revert n; decide +kernel
  | _ => decide

/-! ## Bundle entries -/

/-- `bundle_entry_t`. -/
inductive BundleEntryType where
  | undefined
  | offer
  | response
deriving DecidableEq, Repr

/-- `BundleTLVEntry`: one bundle of an offer or of a response. -/
structure BundleTLVEntry where
  creationTs : UInt32
  seqno : UInt32
  sid : UInt16
  custody : Bool
  accept : Bool
  ack : Bool
deriving DecidableEq, Repr

namespace BundleTLVEntry

def decodeFlags (custody accept ack : Bool) : BundleEntryType :=
  if accept && ack then .undefined
  else if !accept then
    if custody && ack then .undefined else .offer
  else if (custody || accept) && !ack then
    if custody && !accept then .undefined else .response
  else .undefined

def type (e : BundleTLVEntry) : BundleEntryType := decodeFlags e.custody e.accept e.ack

/-- What `find` compares. -/
def key (e : BundleTLVEntry) : UInt32 × UInt32 × UInt16 := (e.creationTs, e.seqno, e.sid)

end BundleTLVEntry

/-- `BundleEntryList`: the entries have the type of the list, and no two are for the same bundle. -/
structure BundleEntryList (type : BundleEntryType) where
  list : List BundleTLVEntry
  typed : ∀ e ∈ list, e.type = type
  distinct : (list.map BundleTLVEntry.key).Nodup
deriving DecidableEq, Repr

namespace BundleEntryList

variable {type : BundleEntryType}

def empty : BundleEntryList type :=
  ⟨[], fun _ h => absurd h List.not_mem_nil, List.Pairwise.nil⟩

def find (l : BundleEntryList type) (cts seq : UInt32) (sid : UInt16) : Option BundleTLVEntry :=
  l.list.find? fun e => decide (e.creationTs = cts) && decide (e.seqno = seq) && decide (e.sid = sid)

theorem typed_append {l : List BundleTLVEntry} {e : BundleTLVEntry} (hl : ∀ e ∈ l, e.type = type)
    (he : e.type = type) : ∀ x ∈ l ++ [e], x.type = type := by
  intro x hx
  rcases List.mem_append.mp hx with h | h
  · exact hl x h
  · rw [List.mem_singleton.mp h]
    exact he

theorem distinct_append {l : List BundleTLVEntry} {e : BundleTLVEntry}
    (hl : (l.map BundleTLVEntry.key).Nodup) (he : e.key ∉ l.map BundleTLVEntry.key) :
    ((l ++ [e]).map BundleTLVEntry.key).Nodup := by
  have hperm := (List.perm_append_singleton e l).map BundleTLVEntry.key
  rw [hperm.nodup_iff, List.map_cons]
  exact List.nodup_cons.mpr ⟨he, hl⟩

/-- `add_entry`: an entry of another type and a second entry for the same bundle are refused. -/
def addEntry (l : BundleEntryList type) (e : BundleTLVEntry) : Option (BundleEntryList type) :=
  if ht : e.type = type then
    if hk : e.key ∈ l.list.map BundleTLVEntry.key then none
    else some ⟨l.list ++ [e], typed_append l.typed ht, distinct_append l.distinct hk⟩
  else none

/-- `remove_entry`: the first entry for the bundle, which is the only one. -/
def removeEntry (l : BundleEntryList type) (cts seq : UInt32) (sid : UInt16) : BundleEntryList type :=
  ⟨l.list.filter fun e => decide (e.key ≠ (cts, seq, sid)),
    fun e h => l.typed e (List.mem_of_mem_filter h),
    l.distinct.sublist (List.filter_sublist.map _)⟩

theorem addEntry_list {l l' : BundleEntryList type} {e : BundleTLVEntry}
    (h : l.addEntry e = some l') : l'.list = l.list ++ [e] := by
  unfold addEntry at h
  split at h
  · split at h
    · cases h
    · cases h
      rfl
  · cases h

end BundleEntryList

abbrev BundleOfferList := BundleEntryList .offer

abbrev BundleResponseList := BundleEntryList .response

/-! ## Dictionaries -/

namespace Dictionary

/-- `INVALID_SID`, reserved to report an error. -/
def invalidSid : UInt16 := 0xffff

/-- The entry of a new key in the reverse lookup, which is ordered by string id. -/
def insertSid (sid : UInt16) (name : Bytes) : List (UInt16 × Bytes) → List (UInt16 × Bytes)
  | [] => [(sid, name)]
  | e :: rest =>
      if sid.toNat < e.1.toNat then (sid, name) :: e :: rest else e :: insertSid sid name rest

theorem insertSid_perm (sid : UInt16) (name : Bytes) (l : List (UInt16 × Bytes)) :
    (insertSid sid name l).Perm ((sid, name) :: l) := by
  induction l with
  | nil => exact List.Perm.refl _
  | cons e rest ih =>
      unfold insertSid
      split
      · exact List.Perm.refl _
      · exact (ih.cons e).trans (List.Perm.swap _ _ _)

theorem insertSid_of_lt {sid : UInt16} {name : Bytes} {l : List (UInt16 × Bytes)}
    (h : ∀ e ∈ l, e.1.toNat < sid.toNat) : insertSid sid name l = l ++ [(sid, name)] := by
  induction l with
  | nil => rfl
  | cons e rest ih =>
      have he := h e List.mem_cons_self
      unfold insertSid
      rw [if_neg (by omega), ih fun x hx => h x (List.mem_cons_of_mem _ hx)]
      rfl

theorem insertSid_sorted {sid : UInt16} {name : Bytes} {l : List (UInt16 × Bytes)}
    (hl : l.Pairwise fun a b => a.1.toNat < b.1.toNat) (hsid : sid ∉ l.map Prod.fst) :
    (insertSid sid name l).Pairwise fun a b => a.1.toNat < b.1.toNat := by
  induction l with
  | nil => exact List.pairwise_singleton _ _
  | cons e rest ih =>
      rw [List.pairwise_cons] at hl
      rw [List.map_cons, List.mem_cons, not_or] at hsid
      have hne : sid.toNat ≠ e.1.toNat := fun heq => hsid.1 (UInt16.toNat_inj.mp heq)
      unfold insertSid
      split
      · rename_i hlt
        rw [List.pairwise_cons, List.pairwise_cons]
        refine ⟨?_, hl⟩
        intro x hx
        rcases List.mem_cons.mp hx with rfl | hx
        · exact hlt
        · exact hlt.trans (hl.1 x hx)
      · rw [List.pairwise_cons]
        refine ⟨?_, ih hl.2 hsid.2⟩
        intro x hx
        rcases List.mem_cons.mp ((insertSid_perm sid name rest).subset hx) with rfl | hx
        · change e.1.toNat < sid.toNat
          omega
        · exact hl.1 x hx

theorem insertSid_named {sid : UInt16} {name : Bytes} {l : List (UInt16 × Bytes)}
    (hl : (l.map Prod.snd).Nodup) (hname : name ∉ l.map Prod.snd) :
    ((insertSid sid name l).map Prod.snd).Nodup := by
  rw [((insertSid_perm sid name l).map Prod.snd).nodup_iff, List.map_cons, List.nodup_cons]
  exact ⟨hname, hl⟩

/-- An entry that `assign` can make: the first two string ids are those of the peers. -/
def Proper (e : UInt16 × Bytes) : Prop := e.1 ≠ 0 ∧ e.1 ≠ 1 ∧ e.1 ≠ invalidSid ∧ e.2 ≠ []

instance (e : UInt16 × Bytes) : Decidable (Proper e) := inferInstanceAs (Decidable (_ ∧ _))

theorem insertSid_proper {sid : UInt16} {name : Bytes} {l : List (UInt16 × Bytes)}
    (hl : ∀ e ∈ l, Proper e) (he : Proper (sid, name)) : ∀ e ∈ insertSid sid name l, Proper e := by
  intro x hx
  rcases List.mem_cons.mp ((insertSid_perm sid name l).subset hx) with rfl | hx
  · exact he
  · exact hl x hx

end Dictionary

/-- `Dictionary`. The forward lookup holds the pairs of the reverse lookup and is never walked, so
one list stands for both. -/
structure Dictionary where
  sender : Bytes
  receiver : Bytes
  rribd : List (UInt16 × Bytes)
  sorted : rribd.Pairwise fun a b => a.1.toNat < b.1.toNat
  named : (rribd.map Prod.snd).Nodup
  proper : ∀ e ∈ rribd, Dictionary.Proper e
deriving DecidableEq, Repr

namespace Dictionary

def new (sender receiver : Bytes) : Dictionary :=
  ⟨sender, receiver, [], List.Pairwise.nil, List.Pairwise.nil, fun _ h => absurd h List.not_mem_nil⟩

/-- `clear`. -/
def empty : Dictionary := new [] []

def find (d : Dictionary) (destId : Bytes) : UInt16 :=
  if destId = [] then invalidSid
  else if destId = d.sender then 0
  else if destId = d.receiver then 1
  else
    match d.rribd.find? fun e => decide (e.2 = destId) with
    | some e => e.1
    | none => invalidSid

/-- `find` by string id; the empty string if there is none. -/
def findId (d : Dictionary) (sid : UInt16) : Bytes :=
  if sid = 0 then d.sender
  else if sid = 1 then d.receiver
  else
    match d.rribd.find? fun e => decide (e.1 = sid) with
    | some e => e.2
    | none => []

def assign (d : Dictionary) (destId : Bytes) (sid : UInt16) : Option Dictionary :=
  if hn : destId = [] then none
  else if h0 : sid = 0 then
    if d.sender = [] then some { d with sender := destId } else none
  else if h1 : sid = 1 then
    if d.receiver = [] then some { d with receiver := destId } else none
  else if hi : sid = invalidSid then none
  else if hm : destId ∈ d.rribd.map Prod.snd then none
  else if hk : sid ∈ d.rribd.map Prod.fst then none
  else some { d with
    rribd := insertSid sid destId d.rribd
    sorted := insertSid_sorted d.sorted hk
    named := insertSid_named d.named hm
    proper := insertSid_proper d.proper ⟨h0, h1, hi, hn⟩ }

end Dictionary

/-! ## The TLVs -/

/-- `RIBNode`, as far as the wire has it: the delivery predictability is scaled to eight bits. -/
structure RIBNode where
  sid : UInt16
  pvalue : UInt8
  relay : Bool
  custody : Bool
  internetGw : Bool
deriving DecidableEq, Repr

inductive Body where
  | hello (hf : HelloHf) (timer : UInt8) (sender : Bytes)
  | ribd (dictionary : Dictionary)
  | rib (nodes : List RIBNode) (relay custody internet : Bool)
  | offer (list : BundleOfferList)
  | response (list : BundleResponseList)
deriving DecidableEq, Repr

/-- A TLV: `flags_` and `length_` are those of `BaseTLV`. -/
structure TLV where
  body : Body
  flags : UInt8
  length : UInt16
deriving DecidableEq, Repr

def Body.typecode : Body → UInt8
  | hello .. => 0x01
  | ribd .. => 0xA0
  | rib .. => 0xA1
  | offer .. => 0xA2
  | response .. => 0xA3

def helloHeaderSize : Nat := 6

def ribdHeaderSize : Nat := 8

def routingAddressStringSize : Nat := 4

def ribHeaderSize : Nat := 8

def ribEntrySize : Nat := 4

def bundleHeaderSize : Nat := 8

def bundleEntrySize : Nat := 12

def prophetHeaderSize : Nat := 16

def Body.headerSize : Body → Nat
  | hello .. => helloHeaderSize
  | ribd .. => ribdHeaderSize
  | rib .. => ribHeaderSize
  | offer .. => bundleHeaderSize
  | response .. => bundleHeaderSize

theorem Body.headerSize_pos (b : Body) : 0 < b.headerSize := by
  cases b <;>
    simp [headerSize, helloHeaderSize, ribdHeaderSize, ribHeaderSize, bundleHeaderSize]

/-- `ProphetTLV`: a message. -/
structure Message where
  src : Bytes
  dst : Bytes
  result : HeaderResult
  senderInstance : UInt16
  receiverInstance : UInt16
  tid : UInt32
  length : UInt16
  list : List TLV
deriving DecidableEq, Repr

def Message.addTlv (p : Message) (tlv : TLV) : Message :=
  { p with length := p.length + tlv.length, list := p.list ++ [tlv] }

end Prophet

end Dtn2
