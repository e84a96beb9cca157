import Dtn2.Fragmentation.ReassembledBlocks
import Dtn2.Bundling.Validate

/-!
# Fragments that do not belong together

Validation does not relate the offset, the length and the total length of a fragment, and the
key of a reassembly does not contain the total length. So a valid fragment can lie outside of the
bundle that is being put together, or belong to a bundle of another length. A run comes through
exactly if every fragment lies inside, and the fragments that the scan reads have the same length.
-/

namespace Dtn2

open FragmentManager

/-- A fragment that passed validation; its offset and lengths are arbitrary. -/
structure ValidFragment (ts : BundleTimestamp) (source dest : EndpointID) (b : Bundle) : Prop where
  isFragment : b.isFragment = true
  creationTs : b.creationTs = ts
  source : b.source = source
  dest : b.dest = dest
  valid : ∃ received reasons verdict,
    BundleProtocol.validate received reasons = .ok verdict ∧ verdict.valid = true ∧
      b = { received with recvBlocks := { received.recvBlocks with blocks := verdict.blocks } }
  stored : b.payload.location ≠ .nodata

/-- The length of the bundle that a fragment is taken to belong to: that of the state, or else its
own total length. -/
def FragmentTable.totalAt (table : FragmentTable) (key : Bytes) (b : Bundle) : Nat :=
  ((table key).map fun state => state.bundle.payload.length).getD b.origLength.toNat

/-- The fragment lies inside the bundle, and what is listed up to the first hole has its length. -/
def StepFits (table : FragmentTable) (key : Bytes) (b : Bundle) : Prop :=
  b.fragOffset.toNat + b.payload.length ≤ table.totalAt key b ∧
    ∀ c ∈ scanned (BundleList.insertSorted b (table.listed key)) 0,
      c.origLength.toNat = table.totalAt key b

def RunFits (os : Oasys) (key : Bytes) : FragmentTable → List Delivery → Prop
  | _, [] => True
  | table, d :: deliveries => StepFits table key d.fragment ∧
      ∀ outcome, d.step.run os table = .ok outcome → RunFits os key outcome.1 deliveries

/-- What a state keeps, whatever the fragments are. -/
structure FragmentState.Sound (state : FragmentState) : Prop where
  stored : state.bundle.payload.location ≠ .nodata
  length_lt : state.bundle.payload.length < 2 ^ 64
  pieces : ∀ c ∈ state.fragments, c.isFragment = true

section Step

variable {ts : BundleTimestamp} {source dest : EndpointID} {b : Bundle} {table : FragmentTable}

theorem ValidFragment.key (h : ValidFragment ts source dest b) :
    getHashKey b = hashKey ts source dest := by
  rw [getHashKey_eq, h.creationTs, h.source, h.dest]

theorem ValidFragment.types (h : ValidFragment ts source dest b) :
    ∀ block ∈ b.recvBlocks.blocks, ∃ type, block.type = .ok type := by
  obtain ⟨received, reasons, verdict, hrun, hvalid, rfl⟩ := h.valid
  exact BundleProtocol.validate_types hrun hvalid

theorem newState_sound (os : Oasys) (id : Nat) (now : UInt64) (b : Bundle) :
    (newState os id now b).Sound ∧
      (newState os id now b).bundle.payload.length = b.origLength.toNat := by
  have hlen : (newState os id now b).bundle.payload.length = b.origLength.toNat := by
    simp [newState, BundlePayload.length, BundlePayload.setLength, Bundle.copyMetadata, Bundle.new]
  refine ⟨⟨?_, ?_, ?_⟩, hlen⟩
  · show Location.disk ≠ Location.nodata
    decide
  · rw [hlen]
    exact b.origLength.toNat_lt.trans (by decide)
  · intro c hc
    cases hc

theorem BundlePayload.writeFrom_ok_iff {p src : BundlePayload} {dstOffset : Nat}
    (hlt : p.length < 2 ^ 64) (hp : p.location ≠ .nodata) (hs : src.location ≠ .nodata) :
    (∃ q, p.writeFrom src 0 src.length dstOffset = .ok q) ↔
      dstOffset + src.length ≤ p.length := by
  constructor
  · rintro ⟨q, hq⟩
    exact (BundlePayload.writeFrom_inside hq).2.1
  · intro hle
    exact ⟨_, BundlePayload.writeFrom_eq hle (by omega) (by omega) (by omega) hp hs⟩

theorem addToState_ok_iff {state : FragmentState} (h : state.Sound)
    (hb : ValidFragment ts source dest b) :
    (∃ state', addToState state b = .ok state') ↔
      b.fragOffset.toNat + b.payload.length ≤ state.bundle.payload.length := by
  rw [← BundlePayload.writeFrom_ok_iff h.length_lt h.stored hb.stored]
  unfold addToState
  constructor
  · rintro ⟨state', hok⟩
    obtain ⟨payload, hwrite, -⟩ := Exec.bind_eq_ok.mp hok
    exact ⟨payload, hwrite⟩
  · rintro ⟨payload, hwrite⟩
    obtain ⟨front, hfront⟩ := frontBlocks_ok hb.types
    obtain ⟨back, hback⟩ := backBlocks_ok hb.types
    simp only [FragmentState.addFragment]
    rw [hwrite, Exec.ok_bind, mergeBlocks, hfront, Exec.ok_bind, hback]
    exact ⟨_, rfl⟩

theorem addToState_sound {state state' : FragmentState} (h : state.Sound)
    (hb : ValidFragment ts source dest b) (hok : addToState state b = .ok state') :
    state'.Sound ∧ state'.bundle.payload.length = state.bundle.payload.length ∧
      state'.fragments = BundleList.insertSorted b state.fragments := by
  have hfits := (addToState_ok_iff h hb).mp ⟨state', hok⟩
  have hread : (b.payload.data.drop 0).take b.payload.length = b.payload.data := by
    rw [List.drop_zero]
    exact List.take_length
  unfold addToState at hok
  obtain ⟨payload, hwrite, hmerge⟩ := Exec.bind_eq_ok.mp hok
  obtain ⟨bundle, hbundle, hstate⟩ := Exec.bind_eq_ok.mp hmerge
  unfold mergeBlocks at hbundle
  obtain ⟨front, -, h1⟩ := Exec.bind_eq_ok.mp hbundle
  obtain ⟨back, -, h2⟩ := Exec.bind_eq_ok.mp h1
  have hlt := h.length_lt
  simp only [FragmentState.addFragment] at hwrite
  rw [BundlePayload.writeFrom_eq hfits (by omega) (by omega) (by omega) h.stored hb.stored,
    hread] at hwrite
  have hpayload : bundle.payload = state.bundle.payload.overwrite b.payload.data
      b.fragOffset.toNat := by
    rw [← Except.ok.inj h2, ← Except.ok.inj hwrite]
  have hlen : bundle.payload.length = state.bundle.payload.length := by
    rw [hpayload]
    exact BundlePayload.length_overwrite hfits
  rw [← Except.ok.inj hstate]
  refine ⟨⟨?_, ?_, ?_⟩, hlen, rfl⟩
  · show bundle.payload.location ≠ .nodata
    rw [hpayload]
    exact h.stored
  · show bundle.payload.length < 2 ^ 64
    rw [hlen]
    exact hlt
  · intro c hc
    rcases BundleList.mem_insertSorted hc with rfl | hc
    · exact hb.isFragment
    · exact h.pieces c hc

def FragmentTable.Sound (table : FragmentTable) (key : Bytes) : Prop :=
  ∀ state, table key = some state → state.Sound

private theorem lookup_sound (os : Oasys) (id : Nat) (now : UInt64) {key : Bytes}
    (h : table.Sound key) :
    ((table key).getD (newState os id now b)).Sound ∧
      ((table key).getD (newState os id now b)).bundle.payload.length = table.totalAt key b ∧
      ((table key).getD (newState os id now b)).fragments = table.listed key := by
  unfold FragmentTable.totalAt FragmentTable.listed
  cases hlook : table key with
  | none =>
      obtain ⟨hsound, hlen⟩ := newState_sound os id now b
      exact ⟨hsound, hlen, rfl⟩
  | some state => exact ⟨h state hlook, rfl, rfl⟩

theorem processForReassembly_ok_iff (os : Oasys) (id : Nat) (now : UInt64)
    (h : table.Sound (hashKey ts source dest)) (hb : ValidFragment ts source dest b) :
    (∃ outcome, processForReassembly os id now table b = .ok outcome) ↔
      StepFits table (hashKey ts source dest) b := by
  obtain ⟨hsound, hlen, hlisted⟩ := @lookup_sound b table os id now _ h
  unfold processForReassembly StepFits
  rw [Exec.assert_bind hb.isFragment, hb.key, ← hlen, ← addToState_ok_iff hsound hb, ← hlisted]
  constructor
  · rintro ⟨outcome, hok⟩
    obtain ⟨state', hadd, hcheck⟩ := Exec.bind_eq_ok.mp hok
    obtain ⟨done, hdone, -⟩ := Exec.bind_eq_ok.mp hcheck
    obtain ⟨hsound', hlen', hlist'⟩ := addToState_sound hsound hb hadd
    refine ⟨⟨state', hadd⟩, ?_⟩
    rw [← hlist', ← hlen', ← FragmentState.checkLoop_ok_iff hsound'.pieces]
    exact ⟨done, hdone⟩
  · rintro ⟨⟨state', hadd⟩, hscan⟩
    obtain ⟨hsound', hlen', hlist'⟩ := addToState_sound hsound hb hadd
    rw [← hlist', ← hlen', ← FragmentState.checkLoop_ok_iff hsound'.pieces] at hscan
    obtain ⟨done, hdone⟩ := hscan
    have hcheck : state'.checkCompleted = .ok done := hdone
    rw [hadd, Exec.ok_bind, hcheck, Exec.ok_bind]
    cases done
    · exact ⟨_, rfl⟩
    · exact ⟨_, rfl⟩

theorem FragmentTable.Sound.deliver (os : Oasys) {id : Nat} {now : UInt64}
    {outcome : FragmentTable × Option ReassemblyCompleted}
    (h : table.Sound (hashKey ts source dest)) (hb : ValidFragment ts source dest b)
    (hok : processForReassembly os id now table b = .ok outcome) :
    outcome.1.Sound (hashKey ts source dest) := by
  obtain ⟨hsound, -, -⟩ := @lookup_sound b table os id now _ h
  unfold processForReassembly at hok
  rw [Exec.assert_bind hb.isFragment, hb.key] at hok
  obtain ⟨state', hadd, hcheck⟩ := Exec.bind_eq_ok.mp hok
  obtain ⟨done, -, hend⟩ := Exec.bind_eq_ok.mp hcheck
  obtain ⟨hsound', -, -⟩ := addToState_sound hsound hb hadd
  split at hend
  · rw [← Except.ok.inj hend]
    intro state hstate
    cases (FragmentTable.erase_self table _).symm.trans hstate
  · rw [← Except.ok.inj hend]
    intro state hstate
    rwa [← Option.some.inj ((FragmentTable.insert_self table _ _).symm.trans hstate)]

theorem FragmentTable.Sound.runAll_ok_iff (os : Oasys) {deliveries : List Delivery}
    (h : table.Sound (hashKey ts source dest))
    (hvalid : ∀ d ∈ deliveries, ValidFragment ts source dest d.fragment) :
    (∃ outcomes, ReassemblyStep.runAll os table (deliveries.map Delivery.step) = .ok outcomes) ↔
      RunFits os (hashKey ts source dest) table deliveries := by
  induction deliveries generalizing table with
  | nil =>
      rw [RunFits, iff_true]
      exact ⟨[], rfl⟩
  | cons d deliveries ih =>
      have hd := hvalid d (by simp)
      have hrest := fun e he => hvalid e (List.mem_cons_of_mem d he)
      rw [RunFits, ← processForReassembly_ok_iff os d.id d.now h hd, List.map_cons,
        ReassemblyStep.runAll]
      constructor
      · rintro ⟨outcomes, hok⟩
        obtain ⟨outcome, hstep, hok'⟩ := Exec.bind_eq_ok.mp hok
        obtain ⟨later, hlater, -⟩ := Exec.bind_eq_ok.mp hok'
        refine ⟨⟨outcome, hstep⟩, ?_⟩
        intro outcome' hstep'
        obtain rfl := Except.ok.inj (hstep.symm.trans hstep')
        exact (ih (h.deliver os hd hstep) hrest).mp ⟨later, hlater⟩
      · rintro ⟨⟨outcome, hstep⟩, hfits⟩
        have hstep' : d.step.run os table = .ok outcome := hstep
        obtain ⟨later, hlater⟩ := (ih (h.deliver os hd hstep) hrest).mpr (hfits outcome hstep')
        rw [hstep', Exec.ok_bind, hlater]
        exact ⟨_, rfl⟩

/-- A run of valid fragments with one key comes through, without a failed assertion and without the
`PANIC` of `check_completed`, exactly if every fragment fits when it is delivered. -/
theorem runAll_valid_iff (os : Oasys) (table : FragmentTable) (deliveries : List Delivery)
    (hnone : table (hashKey ts source dest) = none)
    (hvalid : ∀ d ∈ deliveries, ValidFragment ts source dest d.fragment) :
    (∃ outcomes, ReassemblyStep.runAll os table (deliveries.map Delivery.step) = .ok outcomes) ↔
      RunFits os (hashKey ts source dest) table deliveries := by
  have hsound : table.Sound (hashKey ts source dest) := by
    intro state hstate
    rw [hnone] at hstate
    cases hstate
  exact hsound.runAll_ok_iff os hvalid

end Step

def sampleEid : EndpointID := ⟨ascii ['d', 't', 'n', ':', 'a'], true⟩

/-- A valid fragment with the given offset, total length and payload. -/
def validSample (id : Nat) (offset origLength : UInt32) (data : Bytes) : Bundle :=
  { Bundle.new id 0 with
    isFragment := true
    creationTs := ⟨0, 0⟩
    source := sampleEid
    dest := sampleEid
    replyto := sampleEid
    custodian := sampleEid
    fragOffset := offset
    origLength := origLength
    recvBlocks := ⟨[⟨.primary, [], ⟨[6], []⟩, 0, 1, true, none⟩,
      ⟨.payload, [], ⟨[1, 8, 0], []⟩, UInt32.ofNat data.length, 3, true, none⟩], Dictionary.empty⟩
    payload := ⟨.disk, data⟩ }

theorem validSample_valid (id : Nat) (offset origLength : UInt32) (data : Bytes) :
    ValidFragment ⟨0, 0⟩ sampleEid sampleEid (validSample id offset origLength data) where
  isFragment := rfl
  creationTs := rfl
  source := rfl
  dest := rfl
  valid := ⟨validSample id offset origLength data, Reasons.initial,
    ⟨true, Reasons.initial, (validSample id offset origLength data).recvBlocks.blocks⟩, rfl, rfl,
    rfl⟩
  stored := by
    show Location.disk ≠ Location.nodata
    decide

/-- Two fragments that belong together. -/
theorem runAll_valid_iff_sample :
    ∃ outcomes, ReassemblyStep.runAll Oasys.plain FragmentTable.empty
      ([⟨10, 0, validSample 1 0 3 [1, 2]⟩, ⟨11, 0, validSample 2 1 3 [2, 3]⟩].map
        Delivery.step) = .ok outcomes := by
  have hvalid : ∀ d ∈ [(⟨10, 0, validSample 1 0 3 [1, 2]⟩ : Delivery),
      ⟨11, 0, validSample 2 1 3 [2, 3]⟩],
      ValidFragment ⟨0, 0⟩ sampleEid sampleEid d.fragment := by
    intro d hd
    rcases List.mem_cons.mp hd with rfl | hd
    · exact validSample_valid 1 0 3 [1, 2]
    · rw [List.mem_singleton.mp hd]
      exact validSample_valid 2 1 3 [2, 3]
  refine (runAll_valid_iff Oasys.plain FragmentTable.empty _ rfl hvalid).mpr
    ⟨⟨by decide, by decide⟩, ?_⟩
  intro outcome hstep
  obtain rfl := Except.ok.inj (hstep.symm.trans (by rfl : _ = Except.ok (_, none)))
  exact ⟨⟨by decide, by decide⟩, fun _ _ => trivial⟩

/-- A valid fragment behind the end of its bundle fails the assertion of `write_data`, and two valid
fragments of different lengths reach the `PANIC`. -/
theorem runAll_valid_faults :
    (∀ d ∈ [(⟨10, 0, validSample 1 5 3 [1]⟩ : Delivery)],
      ValidFragment ⟨0, 0⟩ sampleEid sampleEid d.fragment) ∧
    ReassemblyStep.runAll Oasys.plain FragmentTable.empty
      ([⟨10, 0, validSample 1 5 3 [1]⟩].map Delivery.step) = .error (.fault .assertion) ∧
    (∀ d ∈ [(⟨10, 0, validSample 1 0 3 [1]⟩ : Delivery), ⟨11, 0, validSample 2 1 2 [2]⟩],
      ValidFragment ⟨0, 0⟩ sampleEid sampleEid d.fragment) ∧
    ReassemblyStep.runAll Oasys.plain FragmentTable.empty
      ([⟨10, 0, validSample 1 0 3 [1]⟩, ⟨11, 0, validSample 2 1 2 [2]⟩].map Delivery.step) =
        .error (.fault .panic) := by
  refine ⟨?_, rfl, ?_, rfl⟩
  · intro d hd
    rw [List.mem_singleton.mp hd]
    exact validSample_valid 1 5 3 [1]
  · intro d hd
    rcases List.mem_cons.mp hd with rfl | hd
    · exact validSample_valid 1 0 3 [1]
    · rw [List.mem_singleton.mp hd]
      exact validSample_valid 2 1 2 [2]

end Dtn2
