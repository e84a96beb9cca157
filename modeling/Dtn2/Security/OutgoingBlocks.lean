import Dtn2.Bundling.TransmitList
import Mathlib.Data.List.Dedup
import Mathlib.Tactic.IntervalCases

/-!
# The outgoing security policy

The rules that match the source and destination node of a bundle are checked against each other, put in
an order, and handed to `prepare` of their ciphersuites. Both functions that look for the last security
destination among the received blocks go on to the next block before they return one, and so give the
destination node.

`prepare` of a ciphersuite returns success without a block if this node is the security destination or
there is nothing to put the block in front of. A block that it does insert is lost if the vector has room
to spare. Integrity blocks are made with the type of the confidentiality blocks.
-/

namespace Dtn2

namespace SecurityConfig

open PrepareBlocks

/-- `OutgoingRule`, with its patterns as predicates. A security destination that is not NULL is not
empty. -/
structure OutgoingRule where
  src : Bytes → Bool
  dest : Bytes → Bool
  secdest : Option Bytes
  csnum : Int
  named : secdest ≠ some []

def getBlockType (csnum : Int) : Nat :=
  if csnum = 1 ∨ csnum = 5 ∨ csnum = 9 then Owner.authentication.blockType
  else if csnum = 2 ∨ csnum = 6 ∨ csnum = 10 then Owner.integrity.blockType
  else if csnum = 3 ∨ csnum = 7 ∨ csnum = 11 then Owner.confidentiality.blockType
  else if csnum = 4 ∨ csnum = 8 ∨ csnum = 12 then Owner.extensionSecurity.blockType
  else (Owner.base .unknown).blockType

def matching (rules : List OutgoingRule) (src dest : Bytes) : List OutgoingRule :=
  rules.filter fun r => r.src src && r.dest dest

def isPolicyConsistant (rules : List OutgoingRule) (src dest lastsecdestp lastsecdeste : Bytes) :
    Bool :=
  let secdest (r : OutgoingRule) := r.secdest.getD dest
  let ofType (types : List Nat) :=
    (matching rules src dest).filter fun r => decide (getBlockType r.csnum ∈ types)
  let pcbdests := ((ofType [Owner.confidentiality.blockType]).map fun r => (secdest r, r.csnum)).dedup
  let pdests :=
    ((ofType [Owner.integrity.blockType, Owner.confidentiality.blockType]).map secdest).dedup
  let edests := ((ofType [Owner.extensionSecurity.blockType]).map secdest).dedup
  if 1 < pcbdests.length then false
  else if (lastsecdestp ∉ pdests ∧ 1 < pdests.length) ∨ 2 < pdests.length then false
  else if dest ∈ pdests ∧ lastsecdestp ≠ dest then false
  else if (lastsecdeste ∉ edests ∧ 1 < edests.length) ∨ 2 < edests.length then false
  else if dest ∈ edests ∧ lastsecdeste ≠ dest then false
  else true

/-- The ciphersuite and the security destination of a rule; the empty one stands for the next hop. -/
def rulePair (dest : Bytes) (r : OutgoingRule) : Int × Bytes :=
  match r.secdest with
  | some d => (r.csnum, d)
  | none => (r.csnum, if getBlockType r.csnum = Owner.authentication.blockType then [] else dest)

/-- One pass over the rules that match: those of a block type and with some security destinations. -/
def pass (pairs : List (Int × Bytes)) (type : Nat) (keep : Bytes → Bool) : List (Int × Bytes) :=
  pairs.filter fun p => decide (getBlockType p.1 = type) && keep p.2

def getOutgoingRules (rules : List OutgoingRule) (src dest lastsecdestp lastsecdeste : Bytes) :
    List (Int × Bytes) :=
  let pairs := (matching rules src dest).map (rulePair dest)
  pass pairs Owner.integrity.blockType (fun d => decide (d = lastsecdestp)) ++
    pass pairs Owner.confidentiality.blockType (fun d => decide (d = lastsecdestp)) ++
    pass pairs Owner.integrity.blockType (fun d => decide (d ≠ lastsecdestp)) ++
    pass pairs Owner.confidentiality.blockType (fun d => decide (d ≠ lastsecdestp)) ++
    pass pairs Owner.extensionSecurity.blockType (fun d => decide (d = lastsecdeste)) ++
    pass pairs Owner.extensionSecurity.blockType (fun d => decide (d ≠ lastsecdeste)) ++
    pass pairs Owner.authentication.blockType fun _ => true

def findLastSecdest (bundle : Outgoing) : Bytes := bundle.destNode

def outgoingPairs (bundle : Outgoing) (srcNode : Bytes) (rules : List OutgoingRule) :
    List (Nat × Bytes) :=
  (getOutgoingRules rules srcNode bundle.destNode (findLastSecdest bundle)
    (findLastSecdest bundle)).map fun p => (p.1.toNat, p.2)

/-- `prepare_out_blocks`; `none` is `BP_FAIL`. -/
def prepareOutBlocks (config : Config) (bundle : Outgoing) (srcNode : Bytes)
    (rules : List OutgoingRule) (v : XmitBlocks config.growth) : Option (XmitBlocks config.growth) :=
  if isPolicyConsistant rules srcNode bundle.destNode (findLastSecdest bundle)
      (findLastSecdest bundle) = false then none
  else prepareRules config bundle (outgoingPairs bundle srcNode rules) 0 v

/-! ## What the policy requires -/

variable (dest nexthop : Bytes)

/-- The security destination of a ciphersuite and a security destination that may be empty. -/
def logicalDest (csnum : Int) (secdest : Bytes) : Bytes :=
  if secdest ≠ [] then secdest
  else if getBlockType csnum = Owner.authentication.blockType then nexthop
  else dest

/-- The security destination that a rule names: the destination node if it is NULL, the next hop for
authentication blocks. -/
def OutgoingRule.destination (r : OutgoingRule) : Bytes :=
  logicalDest dest nexthop r.csnum (r.secdest.getD [])

/-- `security_dest_eid`, up to the node of the bundle's destination. -/
def securityDestEid (l : SecurityLocals) : Bytes :=
  if l.csFlags &&& csBlockHasDest ≠ 0 then l.securityDest
  else if getBlockType l.ownerCsNum = Owner.authentication.blockType then nexthop
  else dest

/-- The block has the ciphersuite and the security destination of the rule, and the block type of the
ciphersuite. -/
def Meets (r : OutgoingRule) (b : PrepareBlocks.XmitBlock) : Prop :=
  b.owner.blockType = getBlockType r.csnum ∧
    ∃ l, b.locals = some (.security l) ∧ (l.ownerCsNum : Int) = r.csnum ∧
      securityDestEid dest nexthop l = r.destination dest nexthop

/-- A block for one rule stands in front of a block for another. -/
def InOrder (r r' : OutgoingRule) (blocks : List PrepareBlocks.XmitBlock) : Prop :=
  ∃ b b', Meets dest nexthop r b ∧ Meets dest nexthop r' b' ∧ [b, b'].Sublist blocks

/-- Every rule for the bundle has its block, and the confidentiality block of a security destination
stands in front of an integrity block that is to go there too. -/
structure Protected (required : List OutgoingRule) (blocks : List PrepareBlocks.XmitBlock) : Prop where
  each : ∀ r ∈ required, ∃ b ∈ blocks, Meets dest nexthop r b
  order : ∀ r ∈ required, ∀ r' ∈ required,
    getBlockType r.csnum = Owner.confidentiality.blockType →
    getBlockType r'.csnum = Owner.integrity.blockType →
    r.destination dest nexthop = r'.destination dest nexthop →
    InOrder dest nexthop r r' blocks

open Framework Framework.GrowVector

/-! ## The condition -/

/-- The types that confidentiality blocks are put behind. -/
def payloadSkipped : List Nat := [0x00, 0x02]

/-- The types that extension security blocks are put behind. -/
def extSkipped : List Nat := [0x00, 0x01, 0x04, 0x02]

section Condition

variable {g : Growth} (localEid dest nexthop : Bytes) (v : XmitBlocks g)

/-- There is a block of another type. -/
def openFor (skipped : List Nat) : Bool :=
  v.blocks.any fun b => decide (b.owner.blockType ∉ skipped)

/-- The block of a rule is inserted somewhere. -/
def Placed (p : Nat × Bytes) : Prop :=
  match findSuite p.1 with
  | none => False
  | some .ba => True
  | some .es => p.2 ≠ localEid ∧ openFor v extSkipped = true
  | some _ => p.2 ≠ localEid ∧ openFor v payloadSkipped = true

instance (p : Nat × Bytes) : Decidable (Placed localEid v p) := by
  unfold Placed
  split <;> infer_instance

/-- How many blocks a rule adds. -/
def added (p : Nat × Bytes) : Nat :=
  if Placed localEid v p then (if findSuite p.1 = some .ba then 2 else 1) else 0

/-- A list of `n` blocks has no room to spare. -/
def Full (g : Growth) (n : Nat) : Prop := ¬n < g.capacityAfter n

instance (g : Growth) (n : Nat) : Decidable (Full g n) := inferInstanceAs (Decidable (¬_))

/-- With `n` blocks in the list, the rule leaves one that meets `r`. The second authentication block
comes last and is never lost, but has a security destination only if that is the next hop. -/
def Leaves (n : Nat) (r : OutgoingRule) (p : Nat × Bytes) : Prop :=
  (p.1 : Int) = r.csnum ∧
    match findSuite p.1 with
    | none => False
    | some .pi => False
    | some .ba =>
        (logicalDest dest nexthop p.1 p.2 = r.destination dest nexthop ∧ (n = 1 ∨ Full g n)) ∨
          (if p.2 ≠ [] then [] else nexthop) = r.destination dest nexthop
    | some _ =>
        Placed localEid v p ∧ logicalDest dest nexthop p.1 p.2 = r.destination dest nexthop ∧ Full g n

/-- One of the rules leaves a block that meets `r`, with `n` blocks in the list before the first. -/
def Kept (r : OutgoingRule) : Nat → List (Nat × Bytes) → Prop
  | _, [] => False
  | n, p :: rest => Leaves localEid dest nexthop v n r p ∨ Kept r (n + added localEid v p) rest

end Condition

/-! ## Insertions -/

section Insert

variable {g : Growth} {v : XmitBlocks g} {position : Nat} {owner : Owner} {source : Option Source}
  {eidList : List Bytes} {locals : Option XmitLocals}

theorem assign_keeps (a b : PrepareBlocks.XmitBlock) : XmitBlock.assign a b = a := rfl

theorem insert_blocks : (v.insert position owner source eidList locals).blocks =
    inserted XmitBlock.assign (¬Full g v.calls.length) v.blocks position
      (v.block owner source eidList locals) := by
  have hspare : v.vec.data.length < v.vec.capacity ↔ ¬Full g v.calls.length := by
    rw [Full, not_not, v.traced.length_data, v.traced.capacity_eq]
  show inserted XmitBlock.assign (v.vec.data.length < v.vec.capacity) v.blocks position _ = _
  simp only [inserted, hspare]

def Stored (v : XmitBlocks g) (position : Nat) : Prop :=
  Full g v.calls.length ∨ v.calls.length ≤ position

theorem stored_iff : Stored v position ↔ ¬(¬Full g v.calls.length ∧ position < v.blocks.length) := by
  rw [Stored, not_and_or, not_not, not_lt, length_blocks]

theorem mem_insert {b : PrepareBlocks.XmitBlock} :
    b ∈ (v.insert position owner source eidList locals).blocks ↔
      b ∈ v.blocks ∨ Stored v position ∧ b = v.block owner source eidList locals := by
  rw [insert_blocks, mem_inserted_of_keeps assign_keeps, stored_iff]

theorem sublist_insert : v.blocks.Sublist (v.insert position owner source eidList locals).blocks := by
  rw [insert_blocks]
  exact sublist_inserted_of_keeps assign_keeps

theorem pair_of_insert {y z : PrepareBlocks.XmitBlock} (hne : y ≠ z)
    (hold : Stored v position → y ≠ v.block owner source eidList locals ∧
      z ≠ v.block owner source eidList locals)
    (h : [y, z].Sublist (v.insert position owner source eidList locals).blocks) :
    [y, z].Sublist v.blocks := by
  rw [insert_blocks] at h
  exact pair_of_inserted assign_keeps hne (fun hspare => hold (stored_iff.2 hspare)) h

theorem insert_blocks_stored (h : Stored v position) :
    (v.insert position owner source eidList locals).blocks =
      v.blocks.take position ++ v.block owner source eidList locals :: v.blocks.drop position := by
  rw [insert_blocks, inserted, if_neg (stored_iff.1 h)]

theorem startsWithPrimary_insert (h : v.startsWithPrimary = true) (hpos : 1 ≤ position) :
    (v.insert position owner source eidList locals).startsWithPrimary = true := by
  have hne : v.blocks ≠ [] := by
    intro hnil
    rw [XmitBlocks.startsWithPrimary, hnil] at h
    cases h
  have hhead := head_inserted XmitBlock.assign (¬Full g v.calls.length) hne hpos
    (v.block owner source eidList locals)
  rw [← insert_blocks] at hhead
  rw [XmitBlocks.startsWithPrimary] at h ⊢
  cases hv : v.blocks with
  | nil => exact absurd hv hne
  | cons b rest =>
      rw [hv] at h hhead
      cases hblocks : (v.insert position owner source eidList locals).blocks with
      | nil =>
          rw [hblocks] at hhead
          cases hhead
      | cons b' rest' =>
          rw [hblocks, List.head?_cons, List.head?_cons, Option.some.injEq] at hhead
          rw [hhead]
          exact h

theorem openFor_insert {skipped : List Nat}
    (hopen : owner.blockType ∈ skipped ∨ openFor v skipped = true) :
    openFor (v.insert position owner source eidList locals) skipped = openFor v skipped := by
  rw [Bool.eq_iff_iff, openFor, openFor, List.any_eq_true, List.any_eq_true]
  constructor
  · rintro ⟨b, hb, htype⟩
    cases mem_insert.1 hb with
    | inl hold => exact ⟨b, hold, htype⟩
    | inr hnew =>
        cases hopen with
        | inl hskipped =>
            rw [hnew.2] at htype
            exact absurd hskipped (of_decide_eq_true htype)
        | inr hopen => exact List.any_eq_true.1 hopen
  · rintro ⟨b, hb, htype⟩
    exact ⟨b, sublist_insert.subset hb, htype⟩

end Insert

/-! ## What one rule does -/

def suiteType : Suite → Nat
  | .ba => Owner.authentication.blockType
  | .pi => Owner.integrity.blockType
  | .pc => Owner.confidentiality.blockType
  | .es => Owner.extensionSecurity.blockType

theorem getBlockType_of_findSuite {n : Nat} {suite : Suite} (h : findSuite n = some suite) :
    getBlockType n = suiteType suite := by
  unfold findSuite at h
  split at h
  · rename_i hrange
    obtain ⟨hlow, hhigh⟩ := hrange
    interval_cases n <;> cases h <;> rfl
  · cases h

variable {config : Config} {bundle : Outgoing} {dest nexthop : Bytes} {v v' : XmitBlocks config.growth}
  {p : Nat × Bytes}

/-- What `prepare` for a rule does to a list that starts with the primary block. -/
structure Stepped (localEid dest nexthop : Bytes) (v v' : XmitBlocks config.growth)
    (p : Nat × Bytes) : Prop where
  calls : v'.calls.length = v.calls.length + added localEid v p
  starts : v'.startsWithPrimary = true
  opens : ∀ skipped, skipped = payloadSkipped ∨ skipped = extSkipped →
    openFor v' skipped = openFor v skipped
  sublist : v.blocks.Sublist v'.blocks
  meets : ∀ r, (∃ b ∈ v'.blocks, Meets dest nexthop r b) ↔
    (∃ b ∈ v.blocks, Meets dest nexthop r b) ∨
      Leaves localEid dest nexthop v v.calls.length r p
  order : ∀ r r', getBlockType r.csnum = Owner.confidentiality.blockType →
    getBlockType r'.csnum = Owner.integrity.blockType →
    (InOrder dest nexthop r r' v'.blocks ↔ InOrder dest nexthop r r' v.blocks ∨
      (Leaves localEid dest nexthop v v.calls.length r p ∧
        ∃ b ∈ v.blocks, Meets dest nexthop r' b))

theorem stepped_nothing (hstart : v.startsWithPrimary = true)
    (hplaced : ¬Placed config.localEid v p) (hba : findSuite p.1 ≠ some .ba) :
    Stepped config.localEid dest nexthop v v p := by
  have hleaves : ∀ r, ¬Leaves config.localEid dest nexthop v v.calls.length r p := by
    intro r hleaves
    obtain ⟨-, h⟩ := hleaves
    cases hsuite : findSuite p.1 with
    | none =>
        rw [hsuite] at h
        exact h
    | some suite =>
        rw [hsuite] at h
        cases suite with
        | ba => exact hba hsuite
        | pi => exact h
        | pc => exact hplaced h.1
        | es => exact hplaced h.1
  constructor
  · rw [added, if_neg hplaced, Nat.add_zero]
  · exact hstart
  · exact fun _ _ => rfl
  · exact List.Sublist.refl _
  · exact fun r => (or_iff_left (hleaves r)).symm
  · exact fun r r' _ _ => (or_iff_left fun h => hleaves r h.1).symm

theorem securityDestEid_flagged {l : SecurityLocals} {d : Bytes} {csnum : Nat}
    (hflag : l.csFlags &&& csBlockHasDest ≠ 0 ↔ d ≠ []) (hnum : l.ownerCsNum = csnum) :
    securityDestEid dest nexthop l =
      if d ≠ [] then l.securityDest
      else if getBlockType csnum = Owner.authentication.blockType then nexthop else dest := by
  rw [securityDestEid, hnum]
  by_cases hd : d ≠ []
  · rw [if_pos hd, if_pos (hflag.2 hd)]
  · rw [if_neg hd, if_neg fun h => hd (hflag.1 h)]

theorem hasDest_iff {n : Nat} {d : Prop} [Decidable d] (hn : n &&& csBlockHasDest = 0) :
    (n ||| (if d then csBlockHasDest else 0)) &&& csBlockHasDest ≠ 0 ↔ d := by
  rw [Nat.and_or_distrib_right, hn, Nat.zero_or]
  by_cases hd : d
  · rw [if_pos hd]
    exact iff_of_true (by decide) hd
  · rw [if_neg hd]
    exact iff_of_false (by decide) hd

def ruleSource (p : Nat × Bytes) : SecurityLocals := { SecurityLocals.new with securityDest := p.2 }

theorem rule_meets_iff {r : OutgoingRule} {b : PrepareBlocks.XmitBlock} {l : SecurityLocals}
    (hlocals : b.locals = some (.security l)) :
    Meets dest nexthop r b ↔ b.owner.blockType = getBlockType r.csnum ∧
      (l.ownerCsNum : Int) = r.csnum ∧ securityDestEid dest nexthop l = r.destination dest nexthop := by
  rw [Meets, hlocals]
  refine and_congr_right fun _ => ⟨?_, fun h => ⟨l, rfl, h⟩⟩
  rintro ⟨l', heq, h⟩
  cases heq
  exact h

theorem meets_made {r : OutgoingRule} {owner : Owner} {source : Option Source} {eids : List Bytes} :
    Meets dest nexthop r (v.block owner source eids (some (.security
      (createBspBlockFromSource config bundle .none p.1 [] (ruleSource p)).2))) ↔
      owner.blockType = getBlockType r.csnum ∧ (p.1 : Int) = r.csnum ∧
        logicalDest dest nexthop p.1 p.2 = r.destination dest nexthop := by
  have hdest : securityDestEid dest nexthop
      (createBspBlockFromSource config bundle .none p.1 [] (ruleSource p)).2 =
        logicalDest dest nexthop p.1 p.2 := by
    refine securityDestEid_flagged ?_ rfl
    refine hasDest_iff ?_
    split <;> split <;> decide
  rw [rule_meets_iff rfl, hdest]
  exact Iff.rfl

theorem insertSecurityBlock_cases (hstart : v.startsWithPrimary = true) {skipped : List Nat}
    (hzero : 0 ∈ skipped) (owner : Owner) (ref : Source) (made : List Bytes × SecurityLocals) :
    (openFor v skipped = false ∧ insertSecurityBlock config v skipped owner ref made = v) ∨
      ∃ position, openFor v skipped = true ∧ 1 ≤ position ∧ position < v.blocks.length ∧
        (∀ b ∈ v.blocks.take position, b.owner.blockType ∈ skipped) ∧
        insertSecurityBlock config v skipped owner ref made =
          v.insert position owner (some ref) made.1 (some (.security made.2)) := by
  have hlength : v.blocks.length ≠ 0 := by
    have hlen := startsWithPrimary_length hstart
    rw [length_blocks]
    omega
  rw [insertSecurityBlock, if_neg hlength, openFor]
  cases hfind : v.blocks.findIdx? fun b => decide (b.owner.blockType ∉ skipped) with
  | none =>
      refine .inl ⟨?_, rfl⟩
      rw [Bool.eq_false_iff]
      intro hany
      rw [← List.findIdx?_isSome, hfind] at hany
      cases hany
  | some position =>
      obtain ⟨hlt, htype, hbefore⟩ := List.findIdx?_eq_some_iff_getElem.1 hfind
      refine .inr ⟨position, ?_, ?_, hlt, ?_, rfl⟩
      · rw [← List.findIdx?_isSome, hfind]
        rfl
      · by_contra hpos
        obtain rfl : position = 0 := by omega
        rw [XmitBlocks.startsWithPrimary] at hstart
        cases hv : v.blocks with
        | nil => exact hlength (by rw [hv]; rfl)
        | cons b rest =>
            simp only [hv, List.getElem_cons_zero, decide_eq_true_eq] at htype hstart
            exact htype (hstart ▸ hzero)
      · intro b hb
        obtain ⟨k, hk, rfl⟩ := List.mem_take_iff_getElem.1 hb
        have hskip := hbefore k (by omega)
        simpa using hskip

theorem type_eq_iff {r : OutgoingRule} {suite : Suite} (hsuite : findSuite p.1 = some suite)
    (hnum : (p.1 : Int) = r.csnum) {owner : Owner} :
    owner.blockType = getBlockType r.csnum ↔ owner.blockType = suiteType suite := by
  rw [← hnum, getBlockType_of_findSuite hsuite]

/-- The ciphersuites that make one block. -/
inductive Single : Suite → List Nat → Owner → Prop where
  | pi : Single .pi payloadSkipped .confidentiality
  | pc : Single .pc payloadSkipped .confidentiality
  | es : Single .es extSkipped .extensionSecurity

theorem openFor_payload (h : openFor v extSkipped = true) : openFor v payloadSkipped = true := by
  rw [openFor, List.any_eq_true] at h ⊢
  obtain ⟨b, hb, htype⟩ := h
  refine ⟨b, hb, decide_eq_true fun hin => of_decide_eq_true htype ?_⟩
  simp only [payloadSkipped, extSkipped, List.mem_cons, List.not_mem_nil, or_false] at hin ⊢
  omega

section Single

variable {suite : Suite} {skipped : List Nat} {owner : Owner} (hsuite : findSuite p.1 = some suite)
  (hsingle : Single suite skipped owner)

include hsuite hsingle

theorem Single.placed_iff : Placed config.localEid v p ↔
    p.2 ≠ config.localEid ∧ openFor v skipped = true := by
  unfold Placed
  rw [hsuite]
  cases hsingle <;> exact Iff.rfl

theorem Single.leaves_iff {n : Nat} {r : OutgoingRule} :
    Leaves config.localEid dest nexthop v n r p ↔ (p.1 : Int) = r.csnum ∧ suite ≠ .pi ∧
      Placed config.localEid v p ∧
      logicalDest dest nexthop p.1 p.2 = r.destination dest nexthop ∧ Full config.growth n := by
  unfold Leaves
  rw [hsuite]
  refine and_congr_right fun _ => ?_
  cases hsingle with
  | pi => exact iff_of_false not_false fun h => h.1 rfl
  | pc => exact (and_iff_right (by decide)).symm
  | es => exact (and_iff_right (by decide)).symm

theorem Single.rule_meets_iff {r : OutgoingRule} {source : Option Source} {eids : List Bytes} :
    Meets dest nexthop r (v.block owner source eids (some (.security
      (createBspBlockFromSource config bundle .none p.1 [] (ruleSource p)).2))) ↔
      (p.1 : Int) = r.csnum ∧ suite ≠ .pi ∧
        logicalDest dest nexthop p.1 p.2 = r.destination dest nexthop := by
  rw [meets_made, and_left_comm]
  refine and_congr_right fun hnum => and_congr_left fun _ => ?_
  rw [type_eq_iff hsuite hnum]
  cases hsingle with
  | pi => exact iff_of_false (by decide) fun h => h rfl
  | pc => exact iff_of_true rfl (by decide)
  | es => exact iff_of_true rfl (by decide)

theorem Single.stepped (hstart : v.startsWithPrimary = true) (hdest : p.2 ≠ config.localEid)
    (ref : Source) :
    Stepped config.localEid dest nexthop v (insertSecurityBlock config v skipped owner ref
      (createBspBlockFromSource config bundle .none p.1 [] (ruleSource p))) p := by
  have hplaced := hsingle.placed_iff hsuite (v := v)
  have hzero : 0 ∈ skipped := by cases hsingle <;> decide
  have hba : findSuite p.1 ≠ some .ba := by
    rw [hsuite]
    cases hsingle <;> decide
  cases insertSecurityBlock_cases hstart hzero owner ref
      (createBspBlockFromSource config bundle .none p.1 [] (ruleSource p)) with
  | inl hclosed =>
      rw [hclosed.2]
      refine stepped_nothing hstart (fun h => ?_) hba
      rw [(hplaced.1 h).2] at hclosed
      exact absurd hclosed.1 (by decide)
  | inr hopen =>
      obtain ⟨position, hopen, hone, hlt, hbefore, heq⟩ := hopen
      rw [heq]
      generalize hmade : v.block owner (some ref)
        (createBspBlockFromSource config bundle .none p.1 [] (ruleSource p)).1
        (some (.security (createBspBlockFromSource config bundle .none p.1 [] (ruleSource p)).2)) = made
      have hmeets : ∀ r, Meets dest nexthop r made ↔ (p.1 : Int) = r.csnum ∧ suite ≠ .pi ∧
          logicalDest dest nexthop p.1 p.2 = r.destination dest nexthop := by
        intro r
        rw [← hmade]
        exact hsingle.rule_meets_iff hsuite
      have hstored : Stored v position ↔ Full config.growth v.calls.length := by
        have hlt' : position < v.calls.length := length_blocks v ▸ hlt
        exact or_iff_left (by omega)
      have hleaves : ∀ r, Leaves config.localEid dest nexthop v v.calls.length r p ↔
          Stored v position ∧ Meets dest nexthop r made := by
        intro r
        rw [hsingle.leaves_iff hsuite, hstored, hmeets, and_iff_right (hplaced.2 ⟨hdest, hopen⟩)]
        tauto
      have hother : ∀ r', getBlockType r'.csnum = Owner.integrity.blockType →
          ¬Meets dest nexthop r' made := by
        intro r' hinteg hmeets'
        have htype : owner.blockType = Owner.integrity.blockType := by
          have hsame := hmeets'.1
          rw [← hmade, hinteg] at hsame
          exact hsame
        cases hsingle <;> exact absurd htype (by decide)
      constructor
      · rw [insert_calls, List.length_append, added, if_pos (hplaced.2 ⟨hdest, hopen⟩), if_neg hba]
        rfl
      · exact startsWithPrimary_insert hstart hone
      · intro other hcases
        refine openFor_insert ?_
        cases hcases with
        | inl hpayload =>
            rw [hpayload]
            cases hsingle with
            | pi => exact .inr hopen
            | pc => exact .inr hopen
            | es => exact .inr (openFor_payload hopen)
        | inr hext =>
            rw [hext]
            cases hsingle with
            | pi => exact .inl (by decide)
            | pc => exact .inl (by decide)
            | es => exact .inr hopen
      · exact sublist_insert
      · intro r
        rw [hleaves]
        constructor
        · rintro ⟨b, hb, hm⟩
          cases mem_insert.1 hb with
          | inl hold => exact .inl ⟨b, hold, hm⟩
          | inr hnew => exact .inr ⟨hnew.1, hmade ▸ hnew.2 ▸ hm⟩
        · rintro (⟨b, hb, hm⟩ | ⟨hs, hm⟩)
          · exact ⟨b, sublist_insert.subset hb, hm⟩
          · exact ⟨made, mem_insert.2 (.inr ⟨hs, hmade.symm⟩), hm⟩
      · intro r r' hconf hinteg
        rw [hleaves]
        constructor
        · rintro ⟨b, b', hm, hm', hsub⟩
          have hne : b ≠ b' := by
            rintro rfl
            have hsame := hm.1.symm.trans hm'.1
            rw [hconf, hinteg] at hsame
            exact absurd hsame (by decide)
          have hnot : b' ≠ made := fun heq => hother r' hinteg (heq ▸ hm')
          by_cases hnew : Stored v position ∧ b = made
          · refine .inr ⟨⟨hnew.1, hnew.2 ▸ hm⟩, b', ?_, hm'⟩
            have hin := hsub.subset (List.mem_cons_of_mem b List.mem_cons_self)
            exact (mem_insert.1 hin).resolve_right fun h => hnot (h.2.trans hmade)
          · refine .inl ⟨b, b', hm, hm', pair_of_insert hne (fun hs => ?_) hsub⟩
            rw [hmade]
            exact ⟨fun heq => hnew ⟨hs, heq⟩, hnot⟩
        · rintro (⟨b, b', hm, hm', hsub⟩ | ⟨⟨hs, hm⟩, b', hb', hm'⟩)
          · exact ⟨b, b', hm, hm', hsub.trans sublist_insert⟩
          · refine ⟨made, b', hm, hm', ?_⟩
            rw [insert_blocks_stored hs, hmade]
            have hbehind : b' ∈ v.blocks.drop position := by
              rw [← List.take_append_drop position v.blocks, List.mem_append] at hb'
              refine hb'.resolve_left fun hin => ?_
              have hskip := hbefore b' hin
              rw [hm'.1, hinteg] at hskip
              cases hsingle <;> exact absurd hskip (by decide)
            exact ((List.singleton_sublist.2 hbehind).cons_cons made).trans
              (List.sublist_append_right _ _)

end Single

theorem ba_stepped (hstart : v.startsWithPrimary = true) (hsuite : findSuite p.1 = some .ba)
    (ref : Source) :
    Stepped config.localEid dest nexthop v
      (CiphersuiteBA.prepare config bundle v p.1 ref (ruleSource p)).2 p := by
  have hplaced : Placed config.localEid v p := by
    rw [Placed, hsuite]
    trivial
  have hba : getBlockType p.1 = Owner.authentication.blockType := getBlockType_of_findSuite hsuite
  obtain ⟨eids, front, back, hfront, hback, hnumFront, hnumBack, hprepare⟩ :
      ∃ eids front back,
        securityDestEid dest nexthop front = logicalDest dest nexthop p.1 p.2 ∧
        securityDestEid dest nexthop back = (if p.2 ≠ [] then [] else nexthop) ∧
        front.ownerCsNum = p.1 ∧ back.ownerCsNum = p.1 ∧
        (CiphersuiteBA.prepare config bundle v p.1 ref (ruleSource p)).2 =
          (v.insert 1 .authentication (some ref) eids (some (.security front))).pushBack
            .authentication (some ref) eids (some (.security back)) := by
    have hflags : (csBlockHasCorrelator ||| csBlockHasSource |||
        (if p.2 ≠ [] then csBlockHasDest else 0)) &&& csBlockHasDest ≠ 0 ↔ p.2 ≠ [] :=
      hasDest_iff (by decide)
    refine ⟨_, _, _, ?_, ?_, ?_, ?_, by rw [CiphersuiteBA.prepare, if_pos hstart]⟩
    · exact (securityDestEid_flagged hflags rfl).trans rfl
    · refine (securityDestEid_flagged hflags rfl).trans ?_
      rw [if_pos hba]
    · rfl
    · rfl
  rw [hprepare, XmitBlocks.pushBack]
  generalize hv₁ : v.insert 1 .authentication (some ref) eids (some (.security front)) = v₁
  have hone := startsWithPrimary_length hstart
  have hstart₁ : v₁.startsWithPrimary = true := hv₁ ▸ startsWithPrimary_insert hstart (Nat.le_refl 1)
  have hstored : Stored v₁ v₁.blocks.length := .inr (length_blocks v₁).ge
  have hnumber : ∀ r : OutgoingRule, (p.1 : Int) = r.csnum →
      Owner.authentication.blockType = getBlockType r.csnum := by
    intro r hnum
    rw [← hnum, hba]
  have hmeetsFront : ∀ r, Meets dest nexthop r
      (v.block .authentication (some ref) eids (some (.security front))) ↔ (p.1 : Int) = r.csnum ∧
        logicalDest dest nexthop p.1 p.2 = r.destination dest nexthop := by
    intro r
    rw [rule_meets_iff rfl, hfront, hnumFront]
    exact ⟨And.right, fun h => ⟨hnumber r h.1, h⟩⟩
  have hmeetsBack : ∀ r, Meets dest nexthop r
      (v₁.block .authentication (some ref) eids (some (.security back))) ↔ (p.1 : Int) = r.csnum ∧
        (if p.2 ≠ [] then [] else nexthop) = r.destination dest nexthop := by
    intro r
    rw [rule_meets_iff rfl, hback, hnumBack]
    exact ⟨And.right, fun h => ⟨hnumber r h.1, h⟩⟩
  have hfirst : Stored v 1 ↔ v.calls.length = 1 ∨ Full config.growth v.calls.length := by
    rw [Stored, or_comm]
    refine or_congr_left ?_
    omega
  have hleaves : ∀ r, Leaves config.localEid dest nexthop v v.calls.length r p ↔
      (Stored v 1 ∧ Meets dest nexthop r
        (v.block .authentication (some ref) eids (some (.security front)))) ∨
      Meets dest nexthop r (v₁.block .authentication (some ref) eids (some (.security back))) := by
    intro r
    rw [Leaves, hsuite, hmeetsFront, hmeetsBack, hfirst]
    tauto
  have hmem : ∀ b, b ∈ (v₁.insert v₁.blocks.length .authentication (some ref) eids
      (some (.security back))).blocks ↔ b ∈ v.blocks ∨
        (Stored v 1 ∧ b = v.block .authentication (some ref) eids (some (.security front))) ∨
        b = v₁.block .authentication (some ref) eids (some (.security back)) := by
    intro b
    rw [mem_insert, and_iff_right hstored, ← hv₁, mem_insert, or_assoc]
  have hsublist : v.blocks.Sublist (v₁.insert v₁.blocks.length .authentication (some ref) eids
      (some (.security back))).blocks := by
    refine List.Sublist.trans ?_ sublist_insert
    rw [← hv₁]
    exact sublist_insert
  constructor
  · rw [insert_calls, List.length_append, ← hv₁, insert_calls, List.length_append, added,
      if_pos hplaced, if_pos hsuite]
    rfl
  · refine startsWithPrimary_insert hstart₁ ?_
    rw [length_blocks]
    exact startsWithPrimary_length hstart₁
  · intro skipped hcases
    have hin : Owner.authentication.blockType ∈ skipped := by
      cases hcases with
      | inl h => rw [h]; decide
      | inr h => rw [h]; decide
    rw [openFor_insert (.inl hin), ← hv₁, openFor_insert (.inl hin)]
  · exact hsublist
  · intro r
    rw [hleaves]
    constructor
    · rintro ⟨b, hb, hm⟩
      rcases (hmem b).1 hb with hold | hnew | hlast
      · exact .inl ⟨b, hold, hm⟩
      · exact .inr (.inl ⟨hnew.1, hnew.2 ▸ hm⟩)
      · exact .inr (.inr (hlast ▸ hm))
    · rintro (⟨b, hb, hm⟩ | ⟨hs, hm⟩ | hm)
      · exact ⟨b, hsublist.subset hb, hm⟩
      · exact ⟨_, (hmem _).2 (.inr (.inl ⟨hs, rfl⟩)), hm⟩
      · exact ⟨_, (hmem _).2 (.inr (.inr rfl)), hm⟩
  · intro r r' hconf hinteg
    have hno : ¬Leaves config.localEid dest nexthop v v.calls.length r p := by
      intro h
      have hsame := hnumber r h.1
      rw [hconf] at hsame
      exact absurd hsame (by decide)
    rw [or_iff_left fun h => hno h.1]
    constructor
    · rintro ⟨b, b', hm, hm', hsub⟩
      have htype : ∀ {c : PrepareBlocks.XmitBlock}, c = b ∨ c = b' →
          c.owner.blockType ≠ Owner.authentication.blockType := by
        rintro c (rfl | rfl) heq
        · rw [hm.1, hconf] at heq
          exact absurd heq (by decide)
        · rw [hm'.1, hinteg] at heq
          exact absurd heq (by decide)
      have hne : b ≠ b' := by
        rintro rfl
        have hsame := hm.1.symm.trans hm'.1
        rw [hconf, hinteg] at hsame
        exact absurd hsame (by decide)
      have hsub₁ := pair_of_insert hne (fun _ => ⟨fun h => htype (.inl h.symm) rfl,
        fun h => htype (.inr h.symm) rfl⟩) hsub
      rw [← hv₁] at hsub₁
      exact ⟨b, b', hm, hm', pair_of_insert hne (fun _ => ⟨fun h => htype (.inl h.symm) rfl,
        fun h => htype (.inr h.symm) rfl⟩) hsub₁⟩
    · rintro ⟨b, b', hm, hm', hsub⟩
      exact ⟨b, b', hm, hm', hsub.trans hsublist⟩

/-! ## All rules -/

theorem prepare_stepped (hstart : v.startsWithPrimary = true) {suite : Suite}
    (hsuite : findSuite p.1 = some suite) (ref : Source) :
    ∃ v', Ciphersuite.prepare config bundle v suite p.1 ref (ruleSource p) .none = (true, v') ∧
      Stepped config.localEid dest nexthop v v' p := by
  have hlocal : p.2 = config.localEid → suite ≠ .ba → ¬Placed config.localEid v p := by
    intro heq hba h
    unfold Placed at h
    rw [hsuite] at h
    cases suite with
    | ba => exact hba rfl
    | pi => exact h.1 heq
    | pc => exact h.1 heq
    | es => exact h.1 heq
  have hsingle : ∀ {skipped : List Nat} {owner : Owner}, Single suite skipped owner →
      ∃ v', (if p.2 = config.localEid then (true, v) else (true, insertSecurityBlock config v skipped
          owner ref (createBspBlockFromSource config bundle .none p.1 [] (ruleSource p)))) = (true, v') ∧
        Stepped config.localEid dest nexthop v v' p := by
    intro skipped owner hsingle
    have hba : suite ≠ .ba := by cases hsingle <;> decide
    by_cases heq : p.2 = config.localEid
    · rw [if_pos heq]
      exact ⟨v, rfl, stepped_nothing hstart (hlocal heq hba) fun h => hba (by
        rw [hsuite] at h
        exact Option.some.inj h)⟩
    · rw [if_neg heq]
      exact ⟨_, rfl, hsingle.stepped hsuite hstart heq ref⟩
  cases suite with
  | ba => exact ⟨_, rfl, ba_stepped hstart hsuite ref⟩
  | pi => exact hsingle .pi
  | pc => exact hsingle .pc
  | es => exact hsingle .es

theorem placed_congr {localEid : Bytes} (hopen : ∀ skipped, skipped = payloadSkipped ∨
    skipped = extSkipped → openFor v' skipped = openFor v skipped) (p : Nat × Bytes) :
    Placed localEid v' p ↔ Placed localEid v p := by
  unfold Placed
  rw [hopen _ (.inl rfl), hopen _ (.inr rfl)]

theorem kept_congr {localEid : Bytes} (hopen : ∀ skipped, skipped = payloadSkipped ∨
    skipped = extSkipped → openFor v' skipped = openFor v skipped) (r : OutgoingRule)
    (ps : List (Nat × Bytes)) :
    ∀ n, Kept localEid dest nexthop v' r n ps ↔ Kept localEid dest nexthop v r n ps := by
  induction ps with
  | nil => exact fun _ => Iff.rfl
  | cons p rest ih =>
      intro n
      have hadded : added localEid v' p = added localEid v p := by
        simp only [added, placed_congr hopen p]
      have hleaves : Leaves localEid dest nexthop v' n r p ↔ Leaves localEid dest nexthop v n r p := by
        unfold Leaves
        rw [placed_congr hopen p]
      rw [Kept, Kept, hadded, hleaves, ih]

theorem not_leaves_integrity {localEid : Bytes} {n : Nat} {r : OutgoingRule}
    (hinteg : getBlockType r.csnum = Owner.integrity.blockType) :
    ¬Leaves localEid dest nexthop v n r p := by
  rintro ⟨hnum, h⟩
  cases hsuite : findSuite p.1 with
  | none =>
      rw [hsuite] at h
      exact h
  | some suite =>
      rw [hsuite] at h
      have htype := getBlockType_of_findSuite hsuite
      rw [hnum, hinteg] at htype
      cases suite with
      | pi => exact h
      | ba => exact absurd htype (by decide)
      | pc => exact absurd htype (by decide)
      | es => exact absurd htype (by decide)

/-- Rules with known ciphersuites never fail, and leave a block each as the list has room. -/
theorem prepareRules_run (ps : List (Nat × Bytes)) (hknown : ∀ p ∈ ps, findSuite p.1 ≠ none) :
    ∀ (index : Nat) {v : XmitBlocks config.growth}, v.startsWithPrimary = true →
      ∃ v', prepareRules config bundle ps index v = some v' ∧
        (∀ r, (∃ b ∈ v'.blocks, Meets dest nexthop r b) ↔ (∃ b ∈ v.blocks, Meets dest nexthop r b) ∨
          Kept config.localEid dest nexthop v r v.calls.length ps) ∧
        ∀ r r', getBlockType r.csnum = Owner.confidentiality.blockType →
          getBlockType r'.csnum = Owner.integrity.blockType →
          (InOrder dest nexthop r r' v'.blocks ↔ InOrder dest nexthop r r' v.blocks ∨
            (Kept config.localEid dest nexthop v r v.calls.length ps ∧
              ∃ b ∈ v.blocks, Meets dest nexthop r' b)) := by
  induction ps with
  | nil =>
      intro index v _
      exact ⟨v, rfl, fun r => (or_iff_left id).symm, fun r r' _ _ => (or_iff_left And.left).symm⟩
  | cons p rest ih =>
      intro index v hstart
      cases hsuite : findSuite p.1 with
      | none => exact absurd hsuite (hknown p List.mem_cons_self)
      | some suite =>
          obtain ⟨v₁, hprepare, hstep⟩ :=
            @prepare_stepped config bundle dest nexthop v p hstart suite hsuite (.rule index)
          obtain ⟨v', hrest, hmeets, horder⟩ := ih (fun q hq => hknown q (List.mem_cons_of_mem p hq))
            (index + 1) hstep.starts
          have hkept : ∀ r, Kept config.localEid dest nexthop v₁ r v₁.calls.length rest ↔
              Kept config.localEid dest nexthop v r (v.calls.length + added config.localEid v p)
                rest := by
            intro r
            rw [kept_congr hstep.opens, hstep.calls]
          refine ⟨v', ?_, fun r => ?_, fun r r' hconf hinteg => ?_⟩
          · rw [prepareRules, hsuite]
            dsimp only
            rw [show { SecurityLocals.new with securityDest := p.2 } = ruleSource p from rfl, hprepare]
            exact hrest
          · rw [hmeets, hstep.meets, hkept, or_assoc, Kept]
          · have hsame : (∃ b ∈ v₁.blocks, Meets dest nexthop r' b) ↔
                ∃ b ∈ v.blocks, Meets dest nexthop r' b := by
              rw [hstep.meets]
              exact or_iff_left (not_leaves_integrity hinteg)
            rw [horder r r' hconf hinteg, hstep.order r r' hconf hinteg, hkept, hsame, or_assoc, Kept,
              or_and_right]

theorem getBlockType_cases (csnum : Int) :
    getBlockType csnum = Owner.integrity.blockType ∨
      getBlockType csnum = Owner.confidentiality.blockType ∨
      getBlockType csnum = Owner.extensionSecurity.blockType ∨
      getBlockType csnum = Owner.authentication.blockType ∨
      getBlockType csnum = (Owner.base .unknown).blockType := by
  unfold getBlockType
  split
  · simp
  split
  · simp
  split
  · simp
  split
  · simp
  · simp

theorem mem_pass {pairs : List (Int × Bytes)} {type : Nat} {keep : Bytes → Bool} {q : Int × Bytes} :
    q ∈ pass pairs type keep ↔ q ∈ pairs ∧ getBlockType q.1 = type ∧ keep q.2 = true := by
  rw [pass, List.mem_filter, Bool.and_eq_true, decide_eq_true_eq]

theorem mem_getOutgoingRules {rules : List OutgoingRule} {src last : Bytes} {q : Int × Bytes} :
    q ∈ getOutgoingRules rules src dest last last ↔
      q ∈ (matching rules src dest).map (rulePair dest) ∧
        getBlockType q.1 ≠ (Owner.base .unknown).blockType := by
  unfold getOutgoingRules
  simp only [List.mem_append, mem_pass]
  constructor
  · rintro ((((((h | h) | h) | h) | h) | h) | h) <;>
      exact ⟨h.1, by rw [h.2.1]; decide⟩
  · rintro ⟨hmem, htype⟩
    have hlast : decide (q.2 = last) = true ∨ decide (q.2 ≠ last) = true := by
      rw [decide_eq_true_eq, decide_eq_true_eq]
      exact em _
    rcases getBlockType_cases q.1 with h | h | h | h | h
    · cases hlast with
      | inl heq => exact .inl (.inl (.inl (.inl (.inl (.inl ⟨hmem, h, heq⟩)))))
      | inr hne => exact .inl (.inl (.inl (.inl (.inr ⟨hmem, h, hne⟩))))
    · cases hlast with
      | inl heq => exact .inl (.inl (.inl (.inl (.inl (.inr ⟨hmem, h, heq⟩)))))
      | inr hne => exact .inl (.inl (.inl (.inr ⟨hmem, h, hne⟩)))
    · cases hlast with
      | inl heq => exact .inl (.inl (.inr ⟨hmem, h, heq⟩))
      | inr hne => exact .inl (.inr ⟨hmem, h, hne⟩)
    · exact .inr ⟨hmem, h, trivial⟩
    · exact absurd h htype

theorem findSuite_of_known {csnum : Int}
    (h : getBlockType csnum ≠ (Owner.base .unknown).blockType) : findSuite csnum.toNat ≠ none := by
  have hrange : 1 ≤ csnum ∧ csnum ≤ 12 := by
    unfold getBlockType at h
    by_contra hout
    rw [if_neg (by omega), if_neg (by omega), if_neg (by omega), if_neg (by omega)] at h
    exact h rfl
  obtain ⟨hlow, hhigh⟩ := hrange
  interval_cases csnum <;> decide

theorem outgoingPairs_known (bundle : Outgoing) (srcNode : Bytes) (rules : List OutgoingRule) :
    ∀ p ∈ outgoingPairs bundle srcNode rules, findSuite p.1 ≠ none := by
  intro p hp
  obtain ⟨q, hq, rfl⟩ := List.mem_map.1 hp
  exact findSuite_of_known (mem_getOutgoingRules.1 hq).2

/-- The condition under which a consistent policy is kept: each rule has its block in the list already,
or one of the rules, as they are ordered, leaves it one; and a confidentiality block that is not put in
the list stands in front already. -/
structure Keeps (config : Config) (bundle : Outgoing) (srcNode nexthop : Bytes)
    (rules : List OutgoingRule) (v : XmitBlocks config.growth) : Prop where
  each : ∀ r ∈ matching rules srcNode bundle.destNode,
    (∃ b ∈ v.blocks, Meets bundle.destNode nexthop r b) ∨
      Kept config.localEid bundle.destNode nexthop v r v.calls.length
        (outgoingPairs bundle srcNode rules)
  order : ∀ r ∈ matching rules srcNode bundle.destNode,
    ∀ r' ∈ matching rules srcNode bundle.destNode,
    getBlockType r.csnum = Owner.confidentiality.blockType →
    getBlockType r'.csnum = Owner.integrity.blockType →
    r.destination bundle.destNode nexthop = r'.destination bundle.destNode nexthop →
    InOrder bundle.destNode nexthop r r' v.blocks ∨
      Kept config.localEid bundle.destNode nexthop v r v.calls.length
        (outgoingPairs bundle srcNode rules)

theorem not_kept_integrity {localEid : Bytes} {r : OutgoingRule}
    (hinteg : getBlockType r.csnum = Owner.integrity.blockType) (ps : List (Nat × Bytes)) :
    ∀ n, ¬Kept localEid dest nexthop v r n ps := by
  induction ps with
  | nil => exact fun _ => not_false
  | cons p rest ih =>
      intro n h
      cases h with
      | inl hleaves => exact not_leaves_integrity hinteg hleaves
      | inr hrest => exact ih _ hrest

/-- Success means that every rule is kept, exactly if a consistent policy meets the condition. -/
theorem prepareOutBlocks_protected_iff (config : Config) (bundle : Outgoing) (srcNode nexthop : Bytes)
    (rules : List OutgoingRule) (v : XmitBlocks config.growth) (hstart : v.startsWithPrimary = true) :
    (∀ v', prepareOutBlocks config bundle srcNode rules v = some v' →
      Protected bundle.destNode nexthop (matching rules srcNode bundle.destNode) v'.blocks) ↔
    (isPolicyConsistant rules srcNode bundle.destNode (findLastSecdest bundle)
        (findLastSecdest bundle) = true →
      Keeps config bundle srcNode nexthop rules v) := by
  obtain ⟨v', hrun, hmeets, horder⟩ := @prepareRules_run config bundle bundle.destNode nexthop
    (outgoingPairs bundle srcNode rules) (outgoingPairs_known bundle srcNode rules) 0 v hstart
  rw [prepareOutBlocks]
  cases hconsistent : isPolicyConsistant rules srcNode bundle.destNode (findLastSecdest bundle)
      (findLastSecdest bundle) with
  | false => simp
  | true =>
      rw [if_neg (by decide), hrun]
      constructor
      · intro h _
        have hprotected := h v' rfl
        refine ⟨fun r hr => (hmeets r).1 (hprotected.each r hr), ?_⟩
        intro r hr r' hr' hconf hinteg hsame
        exact ((horder r r' hconf hinteg).1 (hprotected.order r hr r' hr' hconf hinteg hsame)).imp_right
          And.left
      · intro h w hw
        cases hw
        have hkeeps := h rfl
        refine ⟨fun r hr => (hmeets r).2 (hkeeps.each r hr), ?_⟩
        intro r hr r' hr' hconf hinteg hsame
        refine (horder r r' hconf hinteg).2 ((hkeeps.order r hr r' hr' hconf hinteg hsame).imp_right
          fun hkept => ⟨hkept, ?_⟩)
        exact (hkeeps.each r' hr').resolve_right (not_kept_integrity hinteg _ _)

namespace Sample

def here : Bytes := ascii ['d', 't', 'n', ':', '/', '/', 'h']

def there : Bytes := ascii ['d', 't', 'n', ':', '/', '/', 't']

def gateway : Bytes := ascii ['d', 't', 'n', ':', '/', '/', 'g']

/-- A node with the security blocks, on a library that doubles the capacity. -/
def node : Config where
  growth := .doubling
  bpqEnabled := false
  bspEnabled := true
  ageOutboundEnabled := false
  ageInboundProcessing := false
  localEid := here

def outgoing : Outgoing where
  recvBlocks := []
  apiBlocks := []
  fragmentedIncoming := false
  source := here
  destNode := there
  fragOffset := none
  sessionEid := []
  hasSequenceId := false
  hasObsoletesId := false
  prevhopHdr := false
  linkMetadata := none
  nullMetadata := none
  outgoingRules := none

def plainBlocks : XmitBlocks node.growth :=
  ((XmitBlocks.empty _).pushBack .primary none [] none).pushBack .payload none [] none

/-- All bundles are to be protected up to the gateway. -/
def ruleFor (csnum : Int) : OutgoingRule where
  src := fun _ => true
  dest := fun _ => true
  secdest := some gateway
  csnum := csnum
  named := by decide

/-- A confidentiality block finds a full vector. -/
theorem confidentiality_protected : ∃ v',
    prepareOutBlocks node outgoing here [ruleFor 3] plainBlocks = some v' ∧
      Protected there gateway [ruleFor 3] v'.blocks := by
  have hsome : (prepareOutBlocks node outgoing here [ruleFor 3] plainBlocks).isSome = true := by
    decide +kernel
  obtain ⟨v', hv'⟩ := Option.isSome_iff_exists.1 hsome
  refine ⟨v', hv', ?_⟩
  refine (prepareOutBlocks_protected_iff node outgoing here gateway [ruleFor 3] plainBlocks
    (by decide)).2 (fun _ => ⟨fun r hr => .inr ?_, ?_⟩) v' hv'
  · cases List.mem_singleton.1 hr
    refine .inl ⟨rfl, ?_⟩
    show Placed here plainBlocks (3, gateway) ∧
      logicalDest there gateway (3 : Nat) gateway = logicalDest there gateway 3 gateway ∧
      Full node.growth 2
    decide +kernel
  · intro r hr r' hr' _ hinteg
    cases List.mem_singleton.1 hr'
    exact absurd hinteg (by decide)

/-- The block for an integrity rule has the type of the confidentiality blocks. -/
theorem integrity_not_protected : ∃ v',
    prepareOutBlocks node outgoing here [ruleFor 2] plainBlocks = some v' ∧
      v'.blocks.map PrepareBlocks.XmitBlock.owner = [.primary, .confidentiality, .payload] ∧
      ¬Protected there gateway (matching [ruleFor 2] here there) v'.blocks := by
  have hrun : ∃ v' ∈ prepareOutBlocks node outgoing here [ruleFor 2] plainBlocks,
      v'.blocks.map PrepareBlocks.XmitBlock.owner = [.primary, .confidentiality, .payload] := by
    decide +kernel
  obtain ⟨v', hv', howners⟩ := hrun
  refine ⟨v', hv', howners, fun h => ?_⟩
  obtain ⟨b, hb, htype, -⟩ := h.each (ruleFor 2) (List.mem_singleton_self _)
  have howner : b.owner ∈ v'.blocks.map PrepareBlocks.XmitBlock.owner := List.mem_map_of_mem hb
  rw [howners] at howner
  simp only [List.mem_cons, List.not_mem_nil, or_false] at howner
  rcases howner with h | h | h <;> rw [h] at htype <;> exact absurd htype (by decide)

end Sample

end SecurityConfig

end Dtn2
