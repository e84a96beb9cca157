import Dtn2.Fragmentation.FragmentManager

/-!
# Reassembly

Fragments of one bundle arrive in any order, with overlaps and more than once, and some of them
are deleted again. The bytes that the listed fragments cover are those of the bundle, so the
payload is complete when the list covers it, and `check_completed` finds out at that step.
-/

namespace Dtn2

open Framework

/-- Part of a bundle with the payload `P`, with the fields that `get_hash_key` uses. -/
structure FragmentOf (P : Bytes) (ts : BundleTimestamp) (source dest : EndpointID)
    (b : Bundle) : Prop where
  isFragment : b.isFragment = true
  creationTs : b.creationTs = ts
  source : b.source = source
  dest : b.dest = dest
  origLength : b.origLength.toNat = P.length
  inside : b.fragOffset.toNat + b.payload.length ≤ P.length
  bytes : b.payload.data = (P.drop b.fragOffset.toNat).take b.payload.length
  stored : b.payload.location ≠ .nodata
  types : ∀ block ∈ b.recvBlocks.blocks, ∃ type, block.type = .ok type

def hashKey (ts : BundleTimestamp) (source dest : EndpointID) : Bytes :=
  Decimal.print ts.seconds.toNat ++ ascii ['.'] ++ Decimal.print ts.seqno.toNat ++
    cString source.uri ++ cString dest.uri

theorem getHashKey_eq (b : Bundle) : getHashKey b = hashKey b.creationTs b.source b.dest := rfl

/-! ## Writing into the payload -/

theorem BundlePayload.length_overwrite {p : BundlePayload} {bp : Bytes} {offset : Nat}
    (h : offset + bp.length ≤ p.length) : (p.overwrite bp offset).length = p.length := by
  simp only [BundlePayload.length, BundlePayload.overwrite, List.length_append, List.length_take,
    List.length_drop] at *
  omega

theorem BundlePayload.getElem?_overwrite {p : BundlePayload} {bp : Bytes} {offset : Nat}
    (h : offset + bp.length ≤ p.length) (x : Nat) :
    (p.overwrite bp offset).data[x]? =
      if offset ≤ x ∧ x < offset + bp.length then bp[x - offset]? else p.data[x]? := by
  have hlen : (p.data.take offset).length = offset := by
    rw [List.length_take]
    simp only [BundlePayload.length] at h
    omega
  simp only [BundlePayload.overwrite]
  by_cases hlow : x < offset
  · rw [if_neg (by omega), List.append_assoc, List.getElem?_append_left (by omega),
      List.getElem?_take_of_lt hlow]
  · by_cases hhigh : x < offset + bp.length
    · rw [if_pos ⟨by omega, hhigh⟩, List.append_assoc,
        List.getElem?_append_right (by omega), hlen, List.getElem?_append_left (by omega)]
    · rw [if_neg (by omega), List.getElem?_append_right (by rw [List.length_append]; omega),
        List.length_append, hlen, List.getElem?_drop]
      congr 1
      omega

theorem BundlePayload.writeFrom_inside {p src q : BundlePayload} {srcOffset len dstOffset : Nat}
    (h : p.writeFrom src srcOffset len dstOffset = .ok q) :
    srcOffset + len ≤ src.length ∧ dstOffset + len ≤ p.length ∧
      q = p.overwrite ((src.data.drop srcOffset).take len) dstOffset := by
  unfold BundlePayload.writeFrom at h
  obtain ⟨_, _, h⟩ := Exec.bind_eq_ok.mp h
  obtain ⟨_, _, h⟩ := Exec.bind_eq_ok.mp h
  obtain ⟨_, _, h⟩ := Exec.bind_eq_ok.mp h
  split at h
  · cases h
  · obtain ⟨_, _, h⟩ := Exec.bind_eq_ok.mp h
    split at h
    · cases h
    · exact ⟨by omega, by omega, (Except.ok.inj h).symm⟩

theorem BundlePayload.writeFrom_eq {p src : BundlePayload} {srcOffset len dstOffset : Nat}
    (hdst : dstOffset + len ≤ p.length) (hsrc : srcOffset + len ≤ src.length)
    (hdst64 : dstOffset + len < 2 ^ 64) (hsrc64 : srcOffset + len < 2 ^ 64)
    (hp : p.location ≠ .nodata) (hs : src.location ≠ .nodata) :
    p.writeFrom src srcOffset len dstOffset =
      .ok (p.overwrite ((src.data.drop srcOffset).take len) dstOffset) := by
  unfold BundlePayload.writeFrom
  rw [Nat.mod_eq_of_lt hdst64, Nat.mod_eq_of_lt hsrc64, Exec.assert_bind hdst,
    Exec.assert_bind hsrc, Exec.assert_bind hs, if_neg (by omega), Exec.assert_bind hp,
    if_neg (by omega)]
  rfl

/-! ## The blocks that a fragment brings -/

section Blocks

variable {blocks : List BlockInfo}

theorem FragmentManager.headBlocks_ok
    (h : ∀ block ∈ blocks, ∃ type, block.type = .ok type) :
    ∃ head, FragmentManager.headBlocks blocks = .ok head := by
  induction blocks with
  | nil => exact ⟨[], rfl⟩
  | cons block blocks ih =>
      obtain ⟨type, htype⟩ := h block (by simp)
      obtain ⟨head, hhead⟩ := ih fun b hb => h b (List.mem_cons_of_mem _ hb)
      rw [FragmentManager.headBlocks, htype, Exec.ok_bind]
      split
      · exact ⟨[block], rfl⟩
      · rw [hhead, Exec.ok_bind]
        exact ⟨block :: head, rfl⟩

theorem FragmentManager.tailBlocks_ok
    (h : ∀ block ∈ blocks, ∃ type, block.type = .ok type) (seenPayload : Bool) :
    ∃ tail, FragmentManager.tailBlocks blocks seenPayload = .ok tail := by
  induction blocks generalizing seenPayload with
  | nil => exact ⟨[], rfl⟩
  | cons block blocks ih =>
      obtain ⟨type, htype⟩ := h block (by simp)
      have hrest := ih fun b hb => h b (List.mem_cons_of_mem _ hb)
      obtain ⟨tail, htail⟩ :=
        hrest (seenPayload || decide (type = Processor.payload.blockType))
      rw [FragmentManager.tailBlocks, htype, Exec.ok_bind, htail, Exec.ok_bind]
      exact ⟨_, rfl⟩

theorem FragmentManager.frontBlocks_ok {fragment : Bundle}
    (h : ∀ block ∈ fragment.recvBlocks.blocks, ∃ type, block.type = .ok type) :
    ∃ front, FragmentManager.frontBlocks fragment = .ok front := by
  unfold FragmentManager.frontBlocks
  split
  · exact FragmentManager.headBlocks_ok h
  · exact ⟨[], rfl⟩

theorem FragmentManager.backBlocks_ok {fragment : Bundle}
    (h : ∀ block ∈ fragment.recvBlocks.blocks, ∃ type, block.type = .ok type) :
    ∃ back, FragmentManager.backBlocks fragment = .ok back := by
  unfold FragmentManager.backBlocks
  split
  · exact FragmentManager.tailBlocks_ok h false
  · exact ⟨[], rfl⟩

end Blocks

/-! ## The state of a reassembly -/

section State

variable {P : Bytes} {ts : BundleTimestamp} {source dest : EndpointID}

theorem FragmentOf.key {b : Bundle} (h : FragmentOf P ts source dest b) :
    getHashKey b = hashKey ts source dest := by
  rw [getHashKey_eq, h.creationTs, h.source, h.dest]

theorem FragmentOf.length_lt {b : Bundle} (h : FragmentOf P ts source dest b) :
    P.length < 2 ^ 32 := by
  rw [← h.origLength]
  exact b.origLength.toNat_lt

theorem FragmentOf.getElem? {b : Bundle} (h : FragmentOf P ts source dest b) {x : Nat}
    (hx : b.fragOffset.toNat ≤ x) (hlt : x < b.fragOffset.toNat + b.payload.length) :
    b.payload.data[x - b.fragOffset.toNat]? = P[x]? := by
  rw [h.bytes, List.getElem?_take_of_lt (by omega), List.getElem?_drop]
  congr 1
  omega

/-- What is kept while a bundle with the payload `P` is put together: every byte that a listed
fragment covers is in place. -/
structure FragmentState.Holds (P : Bytes) (ts : BundleTimestamp) (source dest : EndpointID)
    (state : FragmentState) : Prop where
  length : state.bundle.payload.length = P.length
  stored : state.bundle.payload.location ≠ .nodata
  whole : state.bundle.isFragment = false
  wellformed : BundleList.Wellformed state.fragments
  pieces : ∀ c ∈ state.fragments, FragmentOf P ts source dest c
  written : ∀ c ∈ state.fragments, ∀ x, c.fragOffset.toNat ≤ x →
    x < c.fragOffset.toNat + c.payload.length → state.bundle.payload.data[x]? = P[x]?

theorem FragmentManager.newState_holds (os : Oasys) (id : Nat) (now : UInt64) {b : Bundle}
    (h : FragmentOf P ts source dest b) :
    (FragmentManager.newState os id now b).Holds P ts source dest where
  length := by
    simp only [FragmentManager.newState, BundlePayload.length, BundlePayload.setLength,
      Bundle.copyMetadata, Bundle.new, List.take_nil, List.length_append, List.length_map,
      List.length_range', List.length_nil]
    have := h.origLength
    omega
  stored := by
    show Location.disk ≠ Location.nodata
    decide
  whole := rfl
  wellformed := ⟨List.Pairwise.nil, List.nodup_nil⟩
  pieces := by
    intro c hc
    cases hc
  written := by
    intro c hc
    cases hc

theorem FragmentState.Holds.payload_eq {state : FragmentState}
    (h : state.Holds P ts source dest) (hcover : CoversAll state.fragments P.length) :
    state.bundle.payload.data = P := by
  apply List.ext_getElem?
  intro x
  by_cases hx : x < P.length
  · obtain ⟨c, hc, hin⟩ := hcover x hx
    exact h.written c hc x hin.1 hin.2
  · have hlen := h.length
    simp only [BundlePayload.length] at hlen
    rw [List.getElem?_eq_none (by omega), List.getElem?_eq_none (by omega)]

theorem FragmentState.Holds.erase {state : FragmentState} (h : state.Holds P ts source dest)
    (b : Bundle) : (state.eraseFragment b).2.Holds P ts source dest where
  length := h.length
  stored := h.stored
  whole := h.whole
  wellformed := h.wellformed.erase b
  pieces := fun c hc => h.pieces c (List.mem_of_mem_eraseP hc)
  written := fun c hc => h.written c (List.mem_of_mem_eraseP hc)

theorem FragmentManager.addToState_spec {state : FragmentState} {b : Bundle}
    (h : state.Holds P ts source dest) (hb : FragmentOf P ts source dest b) :
    ∃ front back state', FragmentManager.frontBlocks b = .ok front ∧
      FragmentManager.backBlocks b = .ok back ∧
      FragmentManager.addToState state b = .ok state' ∧
      state'.Holds P ts source dest ∧
      state'.fragments = BundleList.insertSorted b state.fragments ∧
      state'.bundle.recvBlocks.blocks = front ++ state.bundle.recvBlocks.blocks ++ back := by
  obtain ⟨front, hfront⟩ := FragmentManager.frontBlocks_ok hb.types
  obtain ⟨back, hback⟩ := FragmentManager.backBlocks_ok hb.types
  have hinside := hb.inside
  have hlength := h.length
  have hlt := hb.length_lt
  have hread : (b.payload.data.drop 0).take b.payload.length = b.payload.data := by
    rw [List.drop_zero]
    exact List.take_length
  have hfits : b.fragOffset.toNat + b.payload.data.length ≤ state.bundle.payload.length := by
    rw [hlength]
    exact hinside
  have hwrite : state.bundle.payload.writeFrom b.payload 0 b.payload.length
      b.fragOffset.toNat = .ok (state.bundle.payload.overwrite b.payload.data
        b.fragOffset.toNat) := by
    rw [BundlePayload.writeFrom_eq (by omega) (by omega) (by omega) (by omega) h.stored hb.stored,
      hread]
  refine ⟨front, back, ⟨{ state.bundle with
    payload := state.bundle.payload.overwrite b.payload.data b.fragOffset.toNat
    recvBlocks := ⟨front ++ state.bundle.recvBlocks.blocks ++ back, state.bundle.recvBlocks.dict⟩ },
    BundleList.insertSorted b state.fragments⟩, hfront, hback, ?_, ?_, rfl, rfl⟩
  · simp only [FragmentManager.addToState, FragmentState.addFragment]
    rw [hwrite, Exec.ok_bind, FragmentManager.mergeBlocks, hfront, Exec.ok_bind, hback]
    rfl
  · refine ⟨?_, h.stored, h.whole, h.wellformed.insertSorted b, ?_, ?_⟩
    · rw [← hlength]
      exact BundlePayload.length_overwrite hfits
    · intro c hc
      rcases BundleList.mem_insertSorted hc with rfl | hc
      · exact hb
      · exact h.pieces c hc
    · intro c hc x hx hlt
      show (state.bundle.payload.overwrite _ _).data[x]? = _
      rw [BundlePayload.getElem?_overwrite hfits]
      split
      · rename_i hin
        exact hb.getElem? hin.1 hin.2
      · rename_i hout
        rcases BundleList.mem_insertSorted hc with rfl | hc
        · exact absurd ⟨hx, hlt⟩ hout
        · exact h.written c hc x hx hlt

/-- A delivered fragment goes into the state of its bundle, and the event is posted exactly if the
fragments on the list cover the payload. -/
theorem FragmentManager.processForReassembly_spec (os : Oasys) (id : Nat) (now : UInt64)
    {table : FragmentTable} {b : Bundle} (hb : FragmentOf P ts source dest b)
    (h : ((table (hashKey ts source dest)).getD (FragmentManager.newState os id now b)).Holds
      P ts source dest) :
    ∃ state', FragmentManager.addToState
        ((table (hashKey ts source dest)).getD (FragmentManager.newState os id now b)) b =
          .ok state' ∧
      state'.Holds P ts source dest ∧
      state'.fragments = BundleList.insertSorted b
        ((table (hashKey ts source dest)).getD (FragmentManager.newState os id now b)).fragments ∧
      (CoversAll state'.fragments P.length →
        FragmentManager.processForReassembly os id now table b =
          .ok (table.erase (hashKey ts source dest), some ⟨state'.bundle, state'.fragments⟩)) ∧
      (¬ CoversAll state'.fragments P.length →
        FragmentManager.processForReassembly os id now table b =
          .ok (table.insert (hashKey ts source dest) state', none)) := by
  obtain ⟨-, -, state', -, -, hadd, hstate, hlist, -⟩ := FragmentManager.addToState_spec h hb
  obtain ⟨done, hdone, hiff⟩ := FragmentState.checkCompleted_eq hstate.wellformed (by
    intro c hc
    have hpiece := hstate.pieces c hc
    rw [hstate.length]
    exact ⟨hpiece.isFragment, hpiece.origLength, hpiece.inside⟩)
  rw [hstate.length] at hiff
  have hrun : FragmentManager.processForReassembly os id now table b =
      if done = true then
        .ok (table.erase (hashKey ts source dest), some ⟨state'.bundle, state'.fragments⟩)
      else .ok (table.insert (hashKey ts source dest) state', none) := by
    unfold FragmentManager.processForReassembly
    rw [Exec.assert_bind hb.isFragment, hb.key, hadd, Exec.ok_bind, hdone, Exec.ok_bind]
    cases done <;> rfl
  refine ⟨state', hadd, hstate, hlist, ?_, ?_⟩
  · intro hcover
    rw [hrun, if_pos (hiff.mpr hcover)]
  · intro hcover
    rw [hrun, if_neg (fun hd => hcover (hiff.mp hd))]

end State

/-! ## Runs -/

inductive ReassemblyStep where
  | deliver (id : Nat) (now : UInt64) (fragment : Bundle)
  | delete (fragment : Bundle)
deriving DecidableEq, Repr

namespace ReassemblyStep

def fragment : ReassemblyStep → Bundle
  | deliver _ _ fragment => fragment
  | delete fragment => fragment

/-- One call: the table after it, and the event that it posted. -/
def run (os : Oasys) (table : FragmentTable) :
    ReassemblyStep → Exec (FragmentTable × Option FragmentManager.ReassemblyCompleted)
  | deliver id now fragment => FragmentManager.processForReassembly os id now table fragment
  | delete fragment => do
      let table ← FragmentManager.deleteFragment table fragment
      pure (table, none)

def runAll (os : Oasys) : FragmentTable → List ReassemblyStep →
    Exec (List (FragmentTable × Option FragmentManager.ReassemblyCompleted))
  | _, [] => pure []
  | table, step :: steps => do
      let outcome ← step.run os table
      let outcomes ← runAll os outcome.1 steps
      pure (outcome :: outcomes)

end ReassemblyStep

def FragmentTable.listed (table : FragmentTable) (key : Bytes) : List Bundle :=
  ((table key).map FragmentState.fragments).getD []

@[simp] theorem FragmentTable.listed_erase (table : FragmentTable) (key : Bytes) :
    (table.erase key).listed key = [] := by
  rw [FragmentTable.listed, FragmentTable.erase_self]
  rfl

@[simp] theorem FragmentTable.listed_insert (table : FragmentTable) (key : Bytes)
    (state : FragmentState) : (table.insert key state).listed key = state.fragments := by
  rw [FragmentTable.listed, FragmentTable.insert_self]
  rfl

/-- What reassembly promises about a delivery: the event comes exactly if the fragments on the list
cover the payload, with the whole payload, and then the state is gone. -/
structure DeliveryCorrect (P key : Bytes) (table : FragmentTable) (b : Bundle)
    (outcome : FragmentTable × Option FragmentManager.ReassemblyCompleted) : Prop where
  posted_iff : outcome.2.isSome = true ↔
    CoversAll (BundleList.insertSorted b (table.listed key)) P.length
  posted : ∀ event, outcome.2 = some event →
    event.bundle.payload.data = P ∧ event.bundle.isFragment = false ∧ outcome.1 key = none
  kept : outcome.2 = none →
    outcome.1.listed key = BundleList.insertSorted b (table.listed key)

structure DeletionCorrect (key : Bytes) (table : FragmentTable) (b : Bundle)
    (outcome : FragmentTable × Option FragmentManager.ReassemblyCompleted) : Prop where
  silent : outcome.2 = none
  erased : outcome.1.listed key = (BundleList.erase b (table.listed key)).2

/-- What reassembly promises about a run. A state that is kept does not cover its payload. -/
def Reassembles (P key : Bytes) : FragmentTable → List ReassemblyStep →
    List (FragmentTable × Option FragmentManager.ReassemblyCompleted) → Prop
  | _, [], outcomes => outcomes = []
  | _, _ :: _, [] => False
  | table, step :: steps, outcome :: outcomes =>
      (match step with
        | .deliver _ _ b => DeliveryCorrect P key table b outcome
        | .delete b => DeletionCorrect key table b outcome) ∧
      (∀ state, outcome.1 key = some state → ¬ CoversAll state.fragments P.length) ∧
      Reassembles P key outcome.1 steps outcomes

section Runs

variable {P : Bytes} {ts : BundleTimestamp} {source dest : EndpointID}

structure FragmentTable.Pending (P : Bytes) (ts : BundleTimestamp) (source dest : EndpointID)
    (table : FragmentTable) : Prop where
  holds : ∀ state, table (hashKey ts source dest) = some state → state.Holds P ts source dest
  incomplete : ∀ state, table (hashKey ts source dest) = some state →
    ¬ CoversAll state.fragments P.length

theorem CoversAll.mono {l l' : List Bundle} {n : Nat} (hsub : ∀ b ∈ l, b ∈ l')
    (h : CoversAll l n) : CoversAll l' n := by
  intro x hx
  obtain ⟨b, hb, hin⟩ := h x hx
  exact ⟨b, hsub b hb, hin⟩

theorem FragmentTable.Pending.erase_key (table : FragmentTable) :
    (table.erase (hashKey ts source dest)).Pending P ts source dest := by
  constructor <;> intro state hstate <;> rw [FragmentTable.erase_self] at hstate <;> cases hstate

theorem FragmentTable.Pending.insert_key {table : FragmentTable} {state : FragmentState}
    (hstate : state.Holds P ts source dest) (hcover : ¬ CoversAll state.fragments P.length) :
    (table.insert (hashKey ts source dest) state).Pending P ts source dest := by
  constructor <;> intro state' hstate' <;> rw [FragmentTable.insert_self] at hstate' <;>
    cases hstate'
  · exact hstate
  · exact hcover

theorem FragmentTable.Pending.deliver (os : Oasys) (id : Nat) (now : UInt64)
    {table : FragmentTable} {b : Bundle} (h : table.Pending P ts source dest)
    (hb : FragmentOf P ts source dest b) :
    ∃ outcome, FragmentManager.processForReassembly os id now table b = .ok outcome ∧
      DeliveryCorrect P (hashKey ts source dest) table b outcome ∧
      outcome.1.Pending P ts source dest := by
  have hstate : ((table (hashKey ts source dest)).getD
      (FragmentManager.newState os id now b)).Holds P ts source dest := by
    cases hlook : table (hashKey ts source dest) with
    | none => exact FragmentManager.newState_holds os id now hb
    | some state => exact h.holds state hlook
  have hlisted : ((table (hashKey ts source dest)).getD
      (FragmentManager.newState os id now b)).fragments =
        table.listed (hashKey ts source dest) := by
    unfold FragmentTable.listed
    cases table (hashKey ts source dest) <;> rfl
  obtain ⟨state', -, hholds, hlist, hyes, hno⟩ :=
    FragmentManager.processForReassembly_spec os id now hb hstate
  rw [hlisted] at hlist
  by_cases hcover : CoversAll state'.fragments P.length
  · refine ⟨_, hyes hcover, ⟨?_, ?_, ?_⟩, FragmentTable.Pending.erase_key table⟩
    · rw [← hlist]
      exact ⟨fun _ => hcover, fun _ => rfl⟩
    · intro event hevent
      obtain rfl := Option.some.inj hevent
      exact ⟨hholds.payload_eq hcover, hholds.whole, FragmentTable.erase_self _ _⟩
    · intro hnone
      cases hnone
  · refine ⟨_, hno hcover, ⟨?_, ?_, ?_⟩, FragmentTable.Pending.insert_key hholds hcover⟩
    · rw [← hlist]
      exact ⟨fun hsome => Bool.noConfusion hsome, fun hc => absurd hc hcover⟩
    · intro event hevent
      cases hevent
    · intro _
      rw [← hlist]
      exact FragmentTable.listed_insert table _ _

theorem FragmentTable.Pending.delete {table : FragmentTable} {b : Bundle}
    (h : table.Pending P ts source dest) (hb : FragmentOf P ts source dest b) :
    ∃ table', FragmentManager.deleteFragment table b = .ok table' ∧
      DeletionCorrect (hashKey ts source dest) table b (table', none) ∧
      table'.Pending P ts source dest := by
  unfold FragmentManager.deleteFragment
  rw [Exec.assert_bind hb.isFragment, hb.key]
  cases hlook : table (hashKey ts source dest) with
  | none =>
      refine ⟨table, rfl, ⟨rfl, ?_⟩, h⟩
      simp [FragmentTable.listed, hlook, BundleList.erase]
  | some state =>
      have hholds := (h.holds state hlook).erase b
      have hlisted : table.listed (hashKey ts source dest) = state.fragments := by
        simp [FragmentTable.listed, hlook]
      by_cases hon : ∃ c ∈ state.fragments, c.bundleid = b.bundleid
      · have herase : state.eraseFragment b = (true, (state.eraseFragment b).2) :=
          Prod.ext (decide_eq_true hon) rfl
        dsimp only
        rw [herase]
        by_cases hempty : (state.eraseFragment b).2.fragments = []
        · refine ⟨table.erase (hashKey ts source dest), if_pos hempty, ⟨rfl, ?_⟩,
            FragmentTable.Pending.erase_key table⟩
          rw [hlisted]
          exact (FragmentTable.listed_erase table _).trans hempty.symm
        · refine ⟨table.insert (hashKey ts source dest) (state.eraseFragment b).2, if_neg hempty,
            ⟨rfl, ?_⟩, FragmentTable.Pending.insert_key hholds ?_⟩
          · rw [hlisted]
            exact FragmentTable.listed_insert table _ _
          · intro hcover
            exact h.incomplete state hlook
              (hcover.mono fun c hc => List.mem_of_mem_eraseP hc)
      · have herase : state.eraseFragment b = (false, (state.eraseFragment b).2) :=
          Prod.ext (decide_eq_false hon) rfl
        dsimp only
        rw [herase]
        refine ⟨table, rfl, ⟨rfl, ?_⟩, h⟩
        rw [hlisted, BundleList.erase, List.eraseP_of_forall_not]
        intro c hc heq
        exact hon ⟨c, hc, of_decide_eq_true heq⟩

theorem FragmentTable.Pending.runAll (os : Oasys) {steps : List ReassemblyStep}
    {table : FragmentTable} (h : table.Pending P ts source dest)
    (hsteps : ∀ step ∈ steps, FragmentOf P ts source dest step.fragment) :
    ∃ outcomes, ReassemblyStep.runAll os table steps = .ok outcomes ∧
      Reassembles P (hashKey ts source dest) table steps outcomes := by
  induction steps generalizing table with
  | nil => exact ⟨[], rfl, rfl⟩
  | cons step steps ih =>
      have hstep := hsteps step (by simp)
      have hrest := fun s hs => hsteps s (List.mem_cons_of_mem _ hs)
      cases step with
      | deliver id now b =>
          have hb : FragmentOf P ts source dest b := hstep
          obtain ⟨outcome, hrun, hcorrect, hpending⟩ := h.deliver os id now hb
          obtain ⟨outcomes, hall, htail⟩ := ih hpending hrest
          refine ⟨outcome :: outcomes, ?_, hcorrect, hpending.incomplete, htail⟩
          rw [ReassemblyStep.runAll, ReassemblyStep.run, hrun, Exec.ok_bind, hall]
          rfl
      | delete b =>
          have hb : FragmentOf P ts source dest b := hstep
          obtain ⟨table', hrun, hcorrect, hpending⟩ := h.delete hb
          obtain ⟨outcomes, hall, htail⟩ := ih hpending hrest
          refine ⟨(table', none) :: outcomes, ?_, hcorrect, hpending.incomplete, htail⟩
          rw [ReassemblyStep.runAll, ReassemblyStep.run, hrun, Exec.ok_bind]
          show (ReassemblyStep.runAll os table' steps >>= _) = _
          rw [hall]
          rfl

/-- Reassembly is correct for fragments that come in any order, with overlaps and duplicates, and
are deleted at any time. -/
theorem runAll_reassembles (os : Oasys) (table : FragmentTable) (steps : List ReassemblyStep)
    (hnone : table (hashKey ts source dest) = none)
    (hsteps : ∀ step ∈ steps, FragmentOf P ts source dest step.fragment) :
    ∃ outcomes, ReassemblyStep.runAll os table steps = .ok outcomes ∧
      Reassembles P (hashKey ts source dest) table steps outcomes := by
  have hpending : table.Pending P ts source dest := by
    constructor <;> intro state hstate <;> rw [hnone] at hstate <;> cases hstate
  exact hpending.runAll os hsteps

end Runs

/-- A fragment of a bundle whose fields are those of a new one. -/
def sampleFragment (id : Nat) (offset : UInt32) (data P : Bytes) : Bundle :=
  { Bundle.new id 0 with
    isFragment := true
    creationTs := ⟨0, 0⟩
    fragOffset := offset
    origLength := UInt32.ofNat P.length
    payload := ⟨.disk, data⟩ }

/-- Two overlapping fragments, the first of them deleted and delivered once more. -/
theorem runAll_reassembles_sample :
    ∃ outcomes, ReassemblyStep.runAll Oasys.plain FragmentTable.empty
        [.deliver 10 0 (sampleFragment 1 1 [2, 3] [1, 2, 3]),
          .delete (sampleFragment 1 1 [2, 3] [1, 2, 3]),
          .deliver 11 0 (sampleFragment 2 0 [1, 2] [1, 2, 3]),
          .deliver 12 0 (sampleFragment 3 1 [2, 3] [1, 2, 3])] = .ok outcomes ∧
      Reassembles [1, 2, 3] (hashKey ⟨0, 0⟩ .default .default) FragmentTable.empty
        [.deliver 10 0 (sampleFragment 1 1 [2, 3] [1, 2, 3]),
          .delete (sampleFragment 1 1 [2, 3] [1, 2, 3]),
          .deliver 11 0 (sampleFragment 2 0 [1, 2] [1, 2, 3]),
          .deliver 12 0 (sampleFragment 3 1 [2, 3] [1, 2, 3])] outcomes := by
  apply runAll_reassembles Oasys.plain FragmentTable.empty _ rfl
  have hpiece : ∀ step ∈ ([.deliver 10 0 (sampleFragment 1 1 [2, 3] [1, 2, 3]),
      .delete (sampleFragment 1 1 [2, 3] [1, 2, 3]),
      .deliver 11 0 (sampleFragment 2 0 [1, 2] [1, 2, 3]),
      .deliver 12 0 (sampleFragment 3 1 [2, 3] [1, 2, 3])] : List ReassemblyStep),
      step.fragment.isFragment = true ∧ step.fragment.creationTs = ⟨0, 0⟩ ∧
      step.fragment.source = .default ∧ step.fragment.dest = .default ∧
      step.fragment.origLength.toNat = [1, 2, 3].length ∧
      step.fragment.fragOffset.toNat + step.fragment.payload.length ≤ [1, 2, 3].length ∧
      step.fragment.payload.data = (([1, 2, 3] : Bytes).drop step.fragment.fragOffset.toNat).take
        step.fragment.payload.length ∧
      step.fragment.payload.location ≠ .nodata ∧ step.fragment.recvBlocks.blocks = [] := by
    decide
  intro step hstep
  obtain ⟨hfrag, hts, hsource, hdest, horig, hinside, hbytes, hstored, hblocks⟩ :=
    hpiece step hstep
  refine ⟨hfrag, hts, hsource, hdest, horig, hinside, hbytes, hstored, ?_⟩
  rw [hblocks]
  intro block hblock
  cases hblock

end Dtn2
