import Dtn2.Fragmentation.Reassembly

/-!
# The blocks of a reassembled bundle

Every fragment that starts the payload puts its blocks up to the payload block in front of what is
there, and every fragment that ends the payload appends the blocks behind its payload block. The
list is that of a bundle if there was one fragment of the first kind, and one of the second kind
or nothing to append.
-/

namespace Dtn2

open FragmentManager

namespace BlockInfo

def IsPrimary (block : BlockInfo) : Prop := block.type = .ok Processor.primary.blockType

def IsPayload (block : BlockInfo) : Prop := block.type = .ok Processor.payload.blockType

/-- A block that is neither the primary nor the payload block. -/
def IsExtension (block : BlockInfo) : Prop :=
  ∃ type, block.type = .ok type ∧ type ≠ Processor.primary.blockType ∧
    type ≠ Processor.payload.blockType

instance (block : BlockInfo) : Decidable block.IsPrimary :=
  inferInstanceAs (Decidable (_ = _))

instance (block : BlockInfo) : Decidable block.IsPayload :=
  inferInstanceAs (Decidable (_ = _))

theorem IsExtension.not_isPrimary {block : BlockInfo} (h : block.IsExtension) :
    ¬ block.IsPrimary := by
  obtain ⟨type, htype, hne, -⟩ := h
  intro heq
  rw [IsPrimary, htype] at heq
  exact hne (Except.ok.inj heq)

theorem IsExtension.not_isPayload {block : BlockInfo} (h : block.IsExtension) :
    ¬ block.IsPayload := by
  obtain ⟨type, htype, -, hne⟩ := h
  intro heq
  rw [IsPayload, htype] at heq
  exact hne (Except.ok.inj heq)

theorem IsPrimary.not_isPayload {block : BlockInfo} (h : block.IsPrimary) :
    ¬ block.IsPayload := by
  intro heq
  rw [IsPayload, h] at heq
  exact absurd (Except.ok.inj heq) (by decide)

end BlockInfo

/-- The blocks of a fragment: one primary block, in front, and one payload block. A fragment that
ends the payload carries the blocks `trailing` behind it. -/
def FragmentBlocks (trailing : List BlockInfo) (b : Bundle) : Prop :=
  ∃ primary lead payload tail,
    b.recvBlocks.blocks = primary :: lead ++ payload :: tail ∧ primary.IsPrimary ∧
      (∀ block ∈ lead, block.IsExtension) ∧ payload.IsPayload ∧
      (∀ block ∈ tail, block.IsExtension) ∧
      (b.fragOffset.toNat + b.payload.length = b.origLength.toNat → tail = trailing)

/-- The blocks of a whole bundle: one primary block, in front, one payload block, and behind it each
of the blocks `trailing` once. -/
structure WholeBlocks (trailing blocks : List BlockInfo) : Prop where
  primary_first : ∃ block, blocks.head? = some block ∧ block.IsPrimary
  primary_once : blocks.countP (fun block => decide block.IsPrimary) = 1
  payload_once : blocks.countP (fun block => decide block.IsPayload) = 1
  trailing_once : ∃ tail, tailBlocks blocks false = .ok tail ∧ tail.Perm trailing

/-- A call of `process_for_reassembly`. -/
structure Delivery where
  id : Nat
  now : UInt64
  fragment : Bundle
deriving DecidableEq, Repr

namespace Delivery

def step (d : Delivery) : ReassemblyStep := .deliver d.id d.now d.fragment

def Starts (d : Delivery) : Prop := d.fragment.fragOffset = 0

/-- The fragment reaches the end of the payload. -/
def Ends (d : Delivery) : Prop :=
  d.fragment.fragOffset.toNat + d.fragment.payload.length = d.fragment.origLength.toNat

instance (d : Delivery) : Decidable d.Starts := inferInstanceAs (Decidable (_ = _))

instance (d : Delivery) : Decidable d.Ends := inferInstanceAs (Decidable (_ = _))

end Delivery

/-! ## The blocks of one fragment -/

section Split

variable {primary payload : BlockInfo} {lead tail : List BlockInfo}

private theorem headBlocks_lead (hlead : ∀ block ∈ lead, block.IsExtension)
    (hpayload : payload.IsPayload) :
    headBlocks (lead ++ payload :: tail) = .ok (lead ++ [payload]) := by
  induction lead with
  | nil =>
      rw [List.nil_append, headBlocks, hpayload, Exec.ok_bind, if_pos rfl]
      rfl
  | cons block lead ih =>
      obtain ⟨type, htype, -, hne⟩ := hlead block (by simp)
      rw [List.cons_append, headBlocks, htype, Exec.ok_bind, if_neg hne,
        ih fun b hb => hlead b (List.mem_cons_of_mem _ hb)]
      rfl

theorem headBlocks_split (hprimary : primary.IsPrimary)
    (hlead : ∀ block ∈ lead, block.IsExtension) (hpayload : payload.IsPayload) :
    headBlocks (primary :: lead ++ payload :: tail) = .ok (primary :: lead ++ [payload]) := by
  rw [List.cons_append, headBlocks, hprimary, Exec.ok_bind, if_neg (by decide),
    headBlocks_lead hlead hpayload]
  rfl

private theorem tailBlocks_seen (htail : ∀ block ∈ tail, ∃ type, block.type = .ok type) :
    tailBlocks tail true = .ok tail := by
  induction tail with
  | nil => rfl
  | cons block tail ih =>
      obtain ⟨type, htype⟩ := htail block (by simp)
      rw [tailBlocks, htype, Exec.ok_bind, Bool.true_or,
        ih fun b hb => htail b (List.mem_cons_of_mem _ hb)]
      rfl

private theorem tailBlocks_lead {rest : List BlockInfo}
    (hlead : ∀ block ∈ lead, ∃ type, block.type = .ok type ∧ type ≠ Processor.payload.blockType) :
    tailBlocks (lead ++ rest) false = tailBlocks rest false := by
  induction lead with
  | nil => rfl
  | cons block lead ih =>
      obtain ⟨type, htype, hne⟩ := hlead block (by simp)
      rw [List.cons_append, tailBlocks, htype, Exec.ok_bind, Bool.false_or, decide_eq_false hne,
        ih fun b hb => hlead b (List.mem_cons_of_mem _ hb)]
      cases tailBlocks rest false <;> rfl

theorem tailBlocks_split (hprimary : primary.IsPrimary)
    (hlead : ∀ block ∈ lead, block.IsExtension) (hpayload : payload.IsPayload)
    (htail : ∀ block ∈ tail, block.IsExtension) :
    tailBlocks (primary :: lead ++ payload :: tail) false = .ok tail := by
  have hfront : ∀ block ∈ primary :: lead, ∃ type, block.type = .ok type ∧
      type ≠ Processor.payload.blockType := by
    intro block hblock
    rcases List.mem_cons.mp hblock with rfl | hblock
    · exact ⟨_, hprimary, by decide⟩
    · obtain ⟨type, htype, -, hne⟩ := hlead block hblock
      exact ⟨type, htype, hne⟩
  rw [tailBlocks_lead hfront, tailBlocks, hpayload, Exec.ok_bind, Bool.false_or,
    decide_eq_true rfl, tailBlocks_seen fun block hblock => (htail block hblock).imp fun _ h => h.1]
  rfl

end Split

/-! ## The blocks of the bundle -/

/-- The blocks after `starts` fragments at the start and `ends` fragments at the end. -/
def BlocksShape (trailing : List BlockInfo) (starts ends : Nat)
    (blocks : List BlockInfo) : Prop :=
  ∃ front, blocks = front ++ (List.replicate ends trailing).flatten ∧
    front.countP (fun block => decide block.IsPrimary) = starts ∧
    (starts = 0 → front = []) ∧
    (starts = 1 → ∃ primary lead payload, front = primary :: lead ++ [payload] ∧
      primary.IsPrimary ∧ (∀ block ∈ lead, block.IsExtension) ∧ payload.IsPayload)

section Shape

variable {trailing blocks : List BlockInfo} {starts ends : Nat}

private theorem countP_extension {l : List BlockInfo} {p : BlockInfo → Prop} [DecidablePred p]
    (hp : ∀ block : BlockInfo, block.IsExtension → ¬ p block)
    (h : ∀ block ∈ l, block.IsExtension) : l.countP (fun block => decide (p block)) = 0 := by
  rw [List.countP_eq_zero]
  intro block hblock
  rw [decide_eq_true_eq]
  exact hp block (h block hblock)

theorem BlocksShape.nil (trailing : List BlockInfo) : BlocksShape trailing 0 0 [] :=
  ⟨[], rfl, rfl, fun _ => rfl, fun h => absurd h (by decide)⟩

theorem BlocksShape.merge (h : BlocksShape trailing starts ends blocks) {b : Bundle}
    (hb : FragmentBlocks trailing b) {front back : List BlockInfo}
    (hfront : frontBlocks b = .ok front) (hback : backBlocks b = .ok back) :
    BlocksShape trailing (starts + if b.fragOffset = 0 then 1 else 0)
      (ends + if b.fragOffset.toNat + b.payload.length = b.origLength.toNat then 1 else 0)
      (front ++ blocks ++ back) := by
  obtain ⟨primary, lead, payload, tail, hblocks, hprimary, hlead, hpayload, htail, hends⟩ := hb
  obtain ⟨old, rfl, hcount, hzero, hone⟩ := h
  have hback' : (List.replicate ends trailing).flatten ++ back = (List.replicate (ends +
      if b.fragOffset.toNat + b.payload.length = b.origLength.toNat then 1 else 0)
        trailing).flatten := by
    unfold backBlocks at hback
    split at hback
    · rename_i hend
      rw [hblocks, tailBlocks_split hprimary hlead hpayload htail, hends hend] at hback
      rw [if_pos hend, ← Except.ok.inj hback, List.replicate_succ', List.flatten_append]
      simp
    · rename_i hend
      rw [if_neg hend, ← Except.ok.inj hback, List.append_nil, Nat.add_zero]
  refine ⟨front ++ old, ?_, ?_⟩
  · rw [← hback']
    simp only [List.append_assoc]
  · unfold frontBlocks at hfront
    split at hfront
    · rename_i hstart
      rw [hblocks, headBlocks_split hprimary hlead hpayload] at hfront
      obtain rfl := Except.ok.inj hfront
      have hnew : (primary :: lead ++ [payload]).countP (fun block => decide block.IsPrimary) =
          1 := by
        have hnot : ¬ payload.IsPrimary := fun hp => hp.not_isPayload hpayload
        have hmid := countP_extension (fun _ => BlockInfo.IsExtension.not_isPrimary) hlead
        simp [List.countP_append, hprimary, hnot, hmid]
      rw [if_pos hstart, List.countP_append, hnew, hcount]
      refine ⟨by omega, fun h0 => by omega, ?_⟩
      intro h1
      rw [hzero (by omega), List.append_nil]
      exact ⟨primary, lead, payload, rfl, hprimary, hlead, hpayload⟩
    · rename_i hstart
      obtain rfl := Except.ok.inj hfront
      rw [if_neg hstart, List.nil_append, Nat.add_zero]
      exact ⟨hcount, hzero, hone⟩

private theorem perm_replicate_iff (trailing : List BlockInfo) (ends : Nat) :
    (List.replicate ends trailing).flatten.Perm trailing ↔ trailing = [] ∨ ends = 1 := by
  constructor
  · intro hperm
    have hlen := hperm.length_eq
    simp only [List.length_flatten, List.map_replicate, List.sum_replicate_nat] at hlen
    rw [← List.length_eq_zero_iff]
    by_contra hne
    rw [not_or] at hne
    have hone := Nat.eq_of_mul_eq_mul_right (by omega) (hlen.trans (Nat.one_mul _).symm)
    exact hne.2 hone
  · rintro (rfl | rfl)
    · rw [List.flatten_replicate_nil]
    · simp

theorem BlocksShape.whole_iff (h : BlocksShape trailing starts ends blocks)
    (htrailing : ∀ block ∈ trailing, block.IsExtension) :
    WholeBlocks trailing blocks ↔ starts = 1 ∧ (trailing = [] ∨ ends = 1) := by
  obtain ⟨front, rfl, hcount, hzero, hone⟩ := h
  have hback : ∀ block ∈ (List.replicate ends trailing).flatten, block.IsExtension := by
    intro block hblock
    obtain ⟨l, hl, hmem⟩ := List.mem_flatten.mp hblock
    obtain ⟨-, rfl⟩ := List.mem_replicate.mp hl
    exact htrailing block hmem
  have hprim := countP_extension (fun _ => BlockInfo.IsExtension.not_isPrimary) hback
  constructor
  · intro hwhole
    have hstarts : starts = 1 := by
      have honce := hwhole.primary_once
      rw [List.countP_append, hprim, hcount] at honce
      omega
    obtain ⟨primary, lead, payload, rfl, hprimary, hlead, hpayload⟩ := hone hstarts
    obtain ⟨tail, htail, hperm⟩ := hwhole.trailing_once
    rw [List.append_assoc, List.singleton_append,
      tailBlocks_split hprimary hlead hpayload hback] at htail
    rw [← Except.ok.inj htail] at hperm
    exact ⟨hstarts, (perm_replicate_iff trailing ends).mp hperm⟩
  · rintro ⟨hstarts, hends⟩
    obtain ⟨primary, lead, payload, rfl, hprimary, hlead, hpayload⟩ := hone hstarts
    have hpay := countP_extension (fun _ => BlockInfo.IsExtension.not_isPayload) hback
    have hmid := countP_extension (fun _ => BlockInfo.IsExtension.not_isPayload) hlead
    refine ⟨⟨primary, rfl, hprimary⟩, ?_, ?_, ?_⟩
    · rw [List.countP_append, hprim, hcount, hstarts]
    · rw [List.countP_append, hpay]
      simp [List.countP_append, hprimary.not_isPayload, hpayload, hmid]
    · refine ⟨_, ?_, (perm_replicate_iff trailing ends).mpr hends⟩
      rw [List.append_assoc, List.singleton_append,
        tailBlocks_split hprimary hlead hpayload hback]

end Shape

/-! ## Runs -/

section Runs

variable {P : Bytes} {ts : BundleTimestamp} {source dest : EndpointID}
variable {trailing : List BlockInfo}

/-- The blocks of the bundle that is being put together. -/
def FragmentTable.blocksAt (table : FragmentTable) (key : Bytes) : List BlockInfo :=
  ((table key).map fun state => state.bundle.recvBlocks.blocks).getD []

theorem FragmentTable.Pending.deliver_blocks (os : Oasys) {d : Delivery} {table : FragmentTable}
    {outcome : FragmentTable × Option ReassemblyCompleted} {starts ends : Nat}
    (h : table.Pending P ts source dest) (hpiece : FragmentOf P ts source dest d.fragment)
    (hblocks : FragmentBlocks trailing d.fragment)
    (hshape : BlocksShape trailing starts ends (table.blocksAt (hashKey ts source dest)))
    (hrun : d.step.run os table = .ok outcome) :
    outcome.1.Pending P ts source dest ∧
      BlocksShape trailing (starts + if d.Starts then 1 else 0) (ends + if d.Ends then 1 else 0)
        (match outcome.2 with
          | none => outcome.1.blocksAt (hashKey ts source dest)
          | some event => event.bundle.recvBlocks.blocks) := by
  have hrun' : processForReassembly os d.id d.now table d.fragment = .ok outcome := hrun
  have hpending : outcome.1.Pending P ts source dest := by
    obtain ⟨outcome', hok, -, hpending⟩ := h.deliver os d.id d.now hpiece
    rw [hok] at hrun'
    rwa [← Except.ok.inj hrun']
  refine ⟨hpending, ?_⟩
  have hstate : ((table (hashKey ts source dest)).getD
      (newState os d.id d.now d.fragment)).Holds P ts source dest := by
    cases hlook : table (hashKey ts source dest) with
    | none => exact newState_holds os d.id d.now hpiece
    | some state => exact h.holds state hlook
  have hold : ((table (hashKey ts source dest)).getD
      (newState os d.id d.now d.fragment)).bundle.recvBlocks.blocks =
        table.blocksAt (hashKey ts source dest) := by
    unfold FragmentTable.blocksAt
    cases table (hashKey ts source dest) <;> rfl
  obtain ⟨front, back, state', hfront, hback, hadd, -, -, hmerged⟩ :=
    addToState_spec hstate hpiece
  obtain ⟨state'', hadd', -, -, hyes, hno⟩ :=
    processForReassembly_spec os d.id d.now hpiece hstate
  obtain rfl : state' = state'' := Except.ok.inj (hadd.symm.trans hadd')
  have hnew := hshape.merge hblocks hfront hback
  rw [← hold, ← hmerged] at hnew
  by_cases hcover : CoversAll state'.fragments P.length
  · obtain rfl := Except.ok.inj ((hyes hcover).symm.trans hrun')
    exact hnew
  · obtain rfl := Except.ok.inj ((hno hcover).symm.trans hrun')
    simp only [FragmentTable.blocksAt, FragmentTable.insert_self]
    exact hnew

theorem FragmentTable.Pending.runAll_blocks (os : Oasys) {deliveries : List Delivery}
    {table table' : FragmentTable}
    {outcomes : List (FragmentTable × Option ReassemblyCompleted)}
    {event : ReassemblyCompleted} {starts ends : Nat} (h : table.Pending P ts source dest)
    (hpieces : ∀ d ∈ deliveries, FragmentOf P ts source dest d.fragment)
    (hblocks : ∀ d ∈ deliveries, FragmentBlocks trailing d.fragment)
    (hshape : BlocksShape trailing starts ends (table.blocksAt (hashKey ts source dest)))
    (hrun : ReassemblyStep.runAll os table (deliveries.map Delivery.step) =
      .ok (outcomes ++ [(table', some event)]))
    (hsilent : ∀ outcome ∈ outcomes, outcome.2 = none) :
    BlocksShape trailing (starts + deliveries.countP fun d => decide d.Starts)
      (ends + deliveries.countP fun d => decide d.Ends) event.bundle.recvBlocks.blocks := by
  induction deliveries generalizing table outcomes starts ends with
  | nil =>
      have hnil := Except.ok.inj hrun
      exact absurd hnil.symm (by simp)
  | cons d deliveries ih =>
      rw [List.map_cons, ReassemblyStep.runAll] at hrun
      obtain ⟨outcome, hstep, hrest⟩ := Exec.bind_eq_ok.mp hrun
      obtain ⟨later, hlater, hcons⟩ := Exec.bind_eq_ok.mp hrest
      have hcons' := Except.ok.inj hcons
      obtain ⟨hpending, hnew⟩ := h.deliver_blocks os (hpieces d (by simp)) (hblocks d (by simp))
        hshape hstep
      have hcount : ∀ p : Delivery → Prop, ∀ [DecidablePred p], ∀ n : Nat,
          n + (d :: deliveries).countP (fun d => decide (p d)) =
            n + (if p d then 1 else 0) + deliveries.countP (fun d => decide (p d)) := by
        intro p _ n
        rw [List.countP_cons]
        simp only [decide_eq_true_eq]
        omega
      rw [hcount Delivery.Starts, hcount Delivery.Ends]
      cases outcomes with
      | nil =>
          obtain ⟨rfl, rfl⟩ := List.cons.inj hcons'
          have hdone : deliveries = [] := by
            cases deliveries with
            | nil => rfl
            | cons d' deliveries =>
                rw [List.map_cons, ReassemblyStep.runAll] at hlater
                obtain ⟨_, _, hrest'⟩ := Exec.bind_eq_ok.mp hlater
                obtain ⟨_, _, hcons''⟩ := Exec.bind_eq_ok.mp hrest'
                cases Except.ok.inj hcons''
          rw [hdone]
          exact hnew
      | cons outcome' outcomes =>
          obtain ⟨rfl, rfl⟩ := List.cons.inj hcons'
          have hnone := hsilent outcome (by simp)
          rw [hnone] at hnew
          exact ih hpending (fun d hd => hpieces d (List.mem_cons_of_mem _ hd))
            (fun d hd => hblocks d (List.mem_cons_of_mem _ hd)) hnew hlater
            fun o ho => hsilent o (List.mem_cons_of_mem _ ho)

end Runs

/-- A fragment with a primary block, a payload block and `tail` behind them. -/
def sampleBlocksFragment (id : Nat) (offset : UInt32) (data P : Bytes) (tail : List BlockInfo) :
    Bundle :=
  { sampleFragment id offset data P with
    recvBlocks := ⟨[⟨.primary, [], ⟨[6], []⟩, 0, 0, true, none⟩,
      ⟨.payload, [], ⟨[1, 0, 0], []⟩, 0, 3, true, none⟩] ++ tail, Dictionary.empty⟩ }

/-- A block of an unknown type, the last one. -/
def sampleTrailing : BlockInfo := ⟨.unknown, [], ⟨[0x30, 0x08, 0], []⟩, 0, 3, true, none⟩

theorem sampleTrailing_isExtension : sampleTrailing.IsExtension :=
  ⟨0x30, rfl, by decide, by decide⟩

theorem sampleBlocksFragment_blocks {trailing tail : List BlockInfo} {id : Nat} {offset : UInt32}
    {data P : Bytes} (htail : ∀ block ∈ tail, block.IsExtension)
    (hends : offset.toNat + data.length = (UInt32.ofNat P.length).toNat → tail = trailing) :
    FragmentBlocks trailing (sampleBlocksFragment id offset data P tail) :=
  ⟨_, [], _, tail, rfl, rfl, by simp, rfl, htail, hends⟩

theorem sampleBlocksFragment_of {tail : List BlockInfo} {id : Nat} {offset : UInt32}
    {data P : Bytes} (htail : ∀ block ∈ tail, block.IsExtension)
    (hlen : (UInt32.ofNat P.length).toNat = P.length) (hin : offset.toNat + data.length ≤ P.length)
    (hdata : data = (P.drop offset.toNat).take data.length) :
    FragmentOf P ⟨0, 0⟩ .default .default (sampleBlocksFragment id offset data P tail) where
  isFragment := rfl
  creationTs := rfl
  source := rfl
  dest := rfl
  origLength := hlen
  inside := hin
  bytes := hdata
  stored := by
    show Location.disk ≠ Location.nodata
    decide
  types := by
    intro block hblock
    rcases List.mem_append.mp hblock with hblock | hblock
    · rcases List.mem_cons.mp hblock with rfl | hblock
      · exact ⟨_, rfl⟩
      · rw [List.mem_singleton.mp hblock]
        exact ⟨_, rfl⟩
    · exact (htail block hblock).imp fun _ h => h.1

/-- The tail of a bundle, then its head. -/
def sampleDeliveries : List Delivery :=
  [⟨10, 0, sampleBlocksFragment 1 1 [2, 3] [1, 2, 3] [sampleTrailing]⟩,
    ⟨11, 0, sampleBlocksFragment 2 0 [1] [1, 2, 3] []⟩]

/-- Two fragments at the start of the payload. -/
def overlappingDeliveries : List Delivery :=
  [⟨10, 0, sampleBlocksFragment 1 0 [1, 2] [1, 2, 3] []⟩,
    ⟨11, 0, sampleBlocksFragment 2 0 [1, 2, 3] [1, 2, 3] []⟩]

end Dtn2
