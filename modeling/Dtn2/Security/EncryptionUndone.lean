import Dtn2.Security.EncryptionSent
import Dtn2.Security.BlockRoundTrip

/-!
# Encrypted extension blocks do not come back

The placeholder arrives as an extension security block that has no initialisation vector, and the security
destination rejects it. Before that, only the decryption of a block into a primary block could have changed
the destination of the bundle, and then the blocks are not those that were sent.
-/

namespace Dtn2

namespace Security

open PrepareBlocks (Owner findSuite csBlockHasSource csBlockHasDest csBlockHasCorrelator)

namespace CiphersuiteES

/-! ## The placeholder at the security destination -/

theorem parse_placeholder {info : BlockInfo} {csNum flags : UInt16} {l : ParsedLocals}
    (hdata : info.data = placeholderData csNum flags)
    (hlen : info.data.length = info.dataLength.toNat)
    (hplain : hasFlag flags.toUInt64 csBlockHasCorrelator = false ∧
      hasFlag flags.toUInt64 csBlockHasParams = false ∧
      hasFlag flags.toUInt64 csBlockHasResult = false)
    (h : Ciphersuite.parse info = .ok l) :
    l.ownerCsNum = csNum ∧ l.csFlags = flags ∧ l.securityParams = [] ∧
      parseEids flags.toUInt64 info.eidList = .ok (l.securitySrc, l.securityDest) := by
  have hstart := At.start hdata (by rw [← hdata, hlen])
  rw [placeholderData, start] at hstart
  -- the first number is the ciphersuite number, the second one is the flags
  obtain ⟨p, hsuite, hp⟩ := hstart.number
  rw [← List.append_nil (SDNV.encoded flags.toUInt64)] at hp
  obtain ⟨q, hflags, -⟩ := hp.number
  obtain ⟨hcorrelator, hparams, hresult⟩ := hplain
  rw [Ciphersuite.parse, hsuite, Exec.ok_bind, hflags, Exec.ok_bind, hcorrelator, hparams,
    hresult] at h
  obtain ⟨_, _, h⟩ := Exec.bind_eq_ok.mp h
  obtain ⟨_, _, h⟩ := Exec.bind_eq_ok.mp h
  obtain ⟨_, _, h⟩ := Exec.bind_eq_ok.mp h
  obtain ⟨_, _, h⟩ := Exec.bind_eq_ok.mp h
  obtain ⟨params, hitems, h⟩ := Exec.bind_eq_ok.mp h
  obtain ⟨eids, heids, h⟩ := Exec.bind_eq_ok.mp h
  obtain ⟨_, _, h⟩ := Exec.bind_eq_ok.mp h
  cases hitems
  cases h
  exact ⟨by simp, by simp, rfl, heids⟩

/-- A block that cannot be decapsulated, whoever's it is. -/
def Dummy (b : CSBlock) : Prop :=
  ∃ l, b.locals = some l ∧ findItem csIVField l.securityParams = none

structure Arrived (job : Job) (receiver : Node) (g : CSBlock) : Prop where
  owner : g.owner = .extensionSecurity
  dummy : Dummy g
  suite : ∃ l, g.locals = some l ∧ findSuite l.ownerCsNum.toNat = some .es
  local_of : ∀ bundle, job.AtDestination receiver bundle →
    destinationIsLocalNode receiver bundle g = true

theorem parseEids_placeholder {os : Oasys} {src dest : Bytes} {eids : Bytes × Bytes}
    (h : parseEids (placeholderFlags src dest).toUInt64 (placeholderEids os src dest) = .ok eids) :
    hasFlag (placeholderFlags src dest).toUInt64 csBlockHasDest = decide (dest ≠ []) ∧
      (dest ≠ [] → eids.2 = (os.assign dest).uri) := by
  unfold placeholderFlags placeholderEids at *
  by_cases hsrc : src = [] <;> by_cases hdest : dest = []
  all_goals
    simp only [hsrc, hdest, ne_eq, not_true_eq_false, not_false_eq_true, if_true, if_false] at h ⊢
  · exact ⟨by decide, fun hno => hno.elim⟩
  · cases h
    exact ⟨by decide, fun _ => rfl⟩
  · exact ⟨by decide, fun hno => hno.elim⟩
  · cases h
    exact ⟨by decide, fun _ => rfl⟩

theorem Left.arrived {job : Job} {receiver : Node} {s g : CSBlock} (hleft : Left job s)
    (h : Carried receiver s g) : Arrived job receiver g := by
  obtain ⟨t, hs, hg⟩ := h.same.type
  have hnine := hleft.type
  rw [hs] at hnine
  cases hnine
  have howner : g.owner = .extensionSecurity := h.owner 9 hg
  obtain ⟨l, hparse, hlocals⟩ := h.parsed (by rw [howner]; rfl)
  have hs0 : s.type ≠ .ok 0 := by simp [hs]
  have hs1 : s.type ≠ .ok 1 := by simp [hs]
  have hdata := (h.same.data hs0 hs1).symm.trans hleft.data
  have hlen := h.complete (by simp [hg]) (by simp [hg])
  obtain ⟨hnum, hflags, hparams, heids⟩ :=
    parse_placeholder hdata hlen (placeholderFlags_plain _ _) hparse
  rw [← h.same.eidList hs0, hleft.eidList] at heids
  obtain ⟨hhas, hdest⟩ := parseEids_placeholder heids
  refine ⟨howner, ⟨_, hlocals, by dsimp only; rw [hparams]; rfl⟩, ⟨_, hlocals, ?_⟩, fun bundle hat => ?_⟩
  · dsimp only
    rw [hnum]
    exact job.suite
  · have hhas : Locals.has ⟨l, .none, 0⟩ csBlockHasDest = decide (job.dest ≠ []) := by
      rw [Locals.has, hflags, hhas]
    rw [destinationIsLocalNode, hlocals]
    dsimp only
    rw [hhas]
    rw [Job.AtDestination] at hat
    by_cases hempty : job.dest = []
    · rw [if_neg (not_not.mpr hempty)] at hat
      simp [hempty, hat]
    · rw [if_pos hempty] at hat
      simp only [ne_eq, hempty, not_false_eq_true, decide_true, if_true, decide_eq_true_eq]
      exact hat.trans (hdest hempty).symm

/-! ## What consuming a block leaves as it is -/

theorem consumePreamble_owner {os : Oasys} {dict : Dictionary} {block : BlockInfo} {buf : Bytes}
    {r : BlockInfo × Nat} (h : BlockProcessor.consumePreamble os dict block buf = .ok r) :
    r.1.owner = block.owner := by
  have hpartial : ∀ {contents : ScratchBuffer} {tocopy len : Nat},
      partialPreamble block contents tocopy len = .ok r → r.1.owner = block.owner := by
    intro contents tocopy len h
    obtain ⟨_, _, h⟩ := Exec.bind_eq_ok.mp h
    cases h
    rfl
  rw [BlockProcessor.consumePreamble] at h
  obtain ⟨_, _, h⟩ := Exec.bind_eq_ok.mp h
  obtain ⟨_, _, h⟩ := Exec.bind_eq_ok.mp h
  obtain ⟨_, _, h⟩ := Exec.bind_eq_ok.mp h
  obtain ⟨_, _, h⟩ := Exec.bind_eq_ok.mp h
  obtain ⟨contents, _, h⟩ := Exec.bind_eq_ok.mp h
  split at h
  · exact hpartial h
  · obtain ⟨_, _, h⟩ := Exec.bind_eq_ok.mp h
    split at h
    · exact hpartial h
    · split at h
      · cases h
      · cases h
        rfl

theorem consume_owner {os : Oasys} {dict : Dictionary} {block : BlockInfo} {buf : Bytes}
    {r : BlockInfo × Nat} (h : BlockProcessor.consume os dict block buf = .ok r) :
    r.1.owner = block.owner := by
  rw [BlockProcessor.consume] at h
  obtain ⟨_, _, h⟩ := Exec.bind_eq_ok.mp h
  obtain ⟨head, hhead, h⟩ := Exec.bind_eq_ok.mp h
  have hfirst : head.1.owner = block.owner := by
    rw [BlockProcessor.consumeHead] at hhead
    split at hhead
    · obtain ⟨made, hmade, hhead⟩ := Exec.bind_eq_ok.mp hhead
      obtain ⟨_, _, hhead⟩ := Exec.bind_eq_ok.mp hhead
      cases hhead
      exact consumePreamble_owner hmade
    · cases hhead
      rfl
  have hsecond : ∀ {rest : Bytes} {made : BlockInfo × Nat},
      BlockProcessor.consumeData os head.1 rest = .ok made → made.1.owner = head.1.owner := by
    intro rest made hmade
    rw [BlockProcessor.consumeData] at hmade
    split at hmade
    · cases hmade
      rfl
    · obtain ⟨_, _, hmade⟩ := Exec.bind_eq_ok.mp hmade
      obtain ⟨_, _, hmade⟩ := Exec.bind_eq_ok.mp hmade
      cases hmade
      rfl
  dsimp only at h
  split at h
  · obtain ⟨_, _, h⟩ := Exec.bind_eq_ok.mp h
    obtain ⟨made, hmade, h⟩ := Exec.bind_eq_ok.mp h
    cases h
    exact (hsecond hmade).trans hfirst
  · obtain ⟨made, hmade, h⟩ := Exec.bind_eq_ok.mp h
    cases h
    exact (hsecond hmade).trans hfirst

theorem finishBlock_dest {params : Params} {os : Oasys} {bundle : Bundle} {block : BlockInfo}
    {r : Bundle × BlockInfo} (hprimary : block.owner ≠ .primary)
    (h : finishBlock params os bundle block = .ok r) : r.1.dest = bundle.dest := by
  rw [finishBlock] at h
  split at h
  · exact absurd (by assumption) hprimary
  · rw [PreviousHopBlockProcessor.finish] at h
    split at h
    · cases h
      rfl
    · cases h
  · rw [SessionBlockProcessor.finish] at h
    split at h
    · split at h
      · cases h
      · cases h
        rfl
    · cases h
  · obtain ⟨_, _, h⟩ := Exec.bind_eq_ok.mp h
    cases h
    rfl
  · obtain ⟨_, _, h⟩ := Exec.bind_eq_ok.mp h
    cases h
    rfl
  · cases h
    dsimp only
    split <;> rfl
  · obtain ⟨_, _, h⟩ := Exec.bind_eq_ok.mp h
    obtain ⟨_, _, h⟩ := Exec.bind_eq_ok.mp h
    obtain ⟨_, _, h⟩ := Exec.bind_eq_ok.mp h
    obtain ⟨_, _, h⟩ := Exec.bind_eq_ok.mp h
    cases h
    rfl
  all_goals
    cases h
    rfl

theorem payload_consume_dest {os : Oasys} {bundle : Bundle} {block : BlockInfo} {buf : Bytes}
    {r : Bundle × BlockInfo × Nat}
    (h : PayloadBlockProcessor.consume os bundle block buf = .ok r) : r.1.dest = bundle.dest := by
  obtain ⟨head, _, h⟩ := Exec.bind_eq_ok.mp h
  obtain ⟨made, hmade, h⟩ := Exec.bind_eq_ok.mp h
  cases h
  rw [PayloadBlockProcessor.consumeData] at hmade
  split at hmade
  · obtain ⟨_, _, hmade⟩ := Exec.bind_eq_ok.mp hmade
    cases hmade
    rfl
  split at hmade
  · cases hmade
    rfl
  split at hmade
  · cases hmade
    rfl
  split at hmade
  · cases hmade
    rfl
  · obtain ⟨_, _, hmade⟩ := Exec.bind_eq_ok.mp hmade
    obtain ⟨_, _, hmade⟩ := Exec.bind_eq_ok.mp hmade
    obtain ⟨_, _, hmade⟩ := Exec.bind_eq_ok.mp hmade
    cases hmade
    rfl

theorem consumeBlock_dest {params : Params} {os : Oasys} {bundle : Bundle} {block : BlockInfo}
    {buf : Bytes} {r : Bundle × BlockInfo × Nat} (hprimary : block.owner ≠ .primary)
    (h : consumeBlock params os bundle block buf = .ok r) : r.1.dest = bundle.dest := by
  rw [consumeBlock] at h
  split at h
  · exact payload_consume_dest h
  · cases h
  · obtain ⟨_, _, h⟩ := Exec.bind_eq_ok.mp h
    cases h
    rfl
  · rw [consumeGeneric] at h
    obtain ⟨made, hmade, h⟩ := Exec.bind_eq_ok.mp h
    have howner := consume_owner hmade
    dsimp only at h
    split at h
    · cases h
    split at h
    · obtain ⟨_, _, h⟩ := Exec.bind_eq_ok.mp h
      cases h
      rfl
    · obtain ⟨done, hdone, h⟩ := Exec.bind_eq_ok.mp h
      cases h
      have hne : made.1.owner ≠ .primary := by
        rw [howner]
        exact hprimary
      exact finishBlock_dest hne hdone

/-! ## What validating leaves as it is -/

/-- A primary block, which is never validated or decapsulated. -/
def IsPrimary (b : CSBlock) : Prop := b.owner = .base .primary ∧ b.locals = none

theorem attempt_eq_some {α : Type} {x : Exec α} {a : α} (h : attempt x = .ok (some a)) :
    x = .ok a := by
  cases x with
  | ok b =>
      cases h
      rfl
  | error s =>
      cases s with
      | protocolError => cases h
      | fault f => cases h

theorem csConsume_ok {node : Node} {bundle : Bundle} {b : CSBlock} {buf : Bytes}
    {r : Bundle × CSBlock × Nat} (h : b.consume node bundle buf = .ok r) :
    r.2.1.owner = b.owner ∧ (IsPrimary b → IsPrimary r.2.1) ∧
      (b.owner ≠ .base .primary → r.1.dest = bundle.dest) := by
  rw [CSBlock.consume] at h
  split at h
  · rename_i processor howner
    obtain ⟨done, hdone, h⟩ := Exec.bind_eq_ok.mp h
    cases h
    refine ⟨rfl, fun hp => ⟨hp.1, hp.2⟩, fun hne => consumeBlock_dest (fun hprimary => ?_) hdone⟩
    dsimp only at hprimary
    rw [hprimary] at howner
    exact hne howner
  · rename_i hother
    obtain ⟨done, _, h⟩ := Exec.bind_eq_ok.mp h
    cases h
    exact ⟨rfl, fun hp => absurd hp.1 (hother _), fun _ => rfl⟩

theorem init_primary {node : Node} {type : UInt8} {bsp : List ProtectionInfo}
    (h : (CSBlock.init node type bsp).owner = .base .primary) :
    IsPrimary (CSBlock.init node type bsp) := by
  refine ⟨h, ?_⟩
  rw [CSBlock.init]
  split <;> rfl

theorem recreateBlock_dest {node : Node} {bundle : Bundle} {b : CSBlock} {text tag : Bytes} {skip : Nat}
    {r : Bool × Bundle × CSBlock} (h : recreateBlock node bundle b text tag skip = .ok r) :
    r.2.1.dest = bundle.dest ∨ IsPrimary r.2.2 := by
  rw [recreateBlock] at h
  obtain ⟨read, _, h⟩ := Exec.bind_eq_ok.mp h
  cases read with
  | none =>
      cases h
      exact Or.inl rfl
  | some d =>
      obtain ⟨preamble, _, h⟩ := Exec.bind_eq_ok.mp h
      obtain ⟨first, hfirst, h⟩ := Exec.bind_eq_ok.mp h
      cases first with
      | none =>
          cases h
          exact Or.inl rfl
      | some head =>
          obtain ⟨howner, hprimary, hdest⟩ := csConsume_ok (attempt_eq_some hfirst)
          have hhead : head.1.dest = bundle.dest ∨ IsPrimary head.2.1 := by
            by_cases hp : (CSBlock.init node d.type b.bsp).owner = .base .primary
            · exact Or.inr (hprimary (init_primary hp))
            · exact Or.inl (hdest hp)
          dsimp only at h
          split at h
          · cases h
            exact hhead
          split at h
          · cases h
          obtain ⟨second, hsecond, h⟩ := Exec.bind_eq_ok.mp h
          cases second with
          | none =>
              cases h
              exact hhead
          | some last =>
              have hr := Except.ok.inj h
              rw [← hr]
              obtain ⟨_, hprimary', hdest'⟩ := csConsume_ok (attempt_eq_some hsecond)
              by_cases hp : (CSBlock.init node d.type b.bsp).owner = .base .primary
              · exact Or.inr (hprimary' (hprimary (init_primary hp)))
              · have hne : head.2.1.owner ≠ .base .primary := by
                  rw [howner]
                  exact hp
                exact Or.inl ((hdest' hne).trans (hdest hp))

theorem decapsulate_ok {node : Node} {bundle : Bundle} {b : CSBlock} {l : Locals}
    {session : Option Session} {r : (Bool × Bundle × CSBlock) × Option Session}
    (h : decapsulate node bundle b l session = .ok r) :
    (Dummy b → r.1 = (false, bundle, b)) ∧ (r.1.2.1.dest = bundle.dest ∨ IsPrimary r.1.2.2) := by
  have hsame : r.1 = (false, bundle, b) → (Dummy b → r.1 = (false, bundle, b)) ∧
      (r.1.2.1.dest = bundle.dest ∨ IsPrimary r.1.2.2) := by
    intro hr
    rw [hr]
    exact ⟨fun _ => rfl, Or.inl rfl⟩
  rw [decapsulate] at h
  split at h
  · cases h
    exact hsame rfl
  · rename_i target htarget
    split at h
    · cases h
      exact hsame rfl
    · rename_i iv hiv
      split at h
      · cases h
        exact hsame rfl
      · obtain ⟨opened, _, h⟩ := Exec.bind_eq_ok.mp h
        split at h
        · cases h
          exact hsame rfl
        · obtain ⟨done, hdone, h⟩ := Exec.bind_eq_ok.mp h
          cases h
          refine ⟨fun hdummy => ?_, ?_⟩
          · obtain ⟨l', hl', hnone⟩ := hdummy
            rw [htarget] at hl'
            cases hl'
            rw [hiv] at hnone
            cases hnone
          · rw [decryptBlock] at hdone
            split at hdone
            · cases hdone
              exact Or.inl rfl
            split at hdone
            · cases hdone
            dsimp only at hdone
            split at hdone
            · cases hdone
              exact Or.inl rfl
            · exact recreateBlock_dest hdone

/-- What validating does to the blocks and the bundle: primary blocks and blocks that cannot be
decapsulated stay, and the destination of the bundle stays unless a block turns into a primary block. -/
structure Evolves (st st' : Received) : Prop where
  length : st'.blocks.length = st.blocks.length
  stays : ∀ (j : Nat) (b : CSBlock), st.blocks[j]? = some b → IsPrimary b ∨ Dummy b →
    st'.blocks[j]? = some b
  dest : st'.bundle.dest = st.bundle.dest ∨ ∃ (j : Nat) (b b' : CSBlock), st.blocks[j]? = some b ∧
    st'.blocks[j]? = some b' ∧ ¬IsPrimary b ∧ IsPrimary b'

theorem Evolves.refl (st : Received) : Evolves st st :=
  ⟨rfl, fun _ _ hb _ => hb, Or.inl rfl⟩

theorem Evolves.trans {st st' st'' : Received} (h : Evolves st st') (h' : Evolves st' st'') :
    Evolves st st'' := by
  refine ⟨h'.length.trans h.length, fun j b hb hfix => h'.stays j b (h.stays j b hb hfix) hfix, ?_⟩
  rcases h.dest with hdest | ⟨j, b, b', hb, hb', hnot, hprimary⟩
  · rcases h'.dest with hdest' | ⟨j, b, b', hb, hb', hnot, hprimary⟩
    · exact Or.inl (hdest'.trans hdest)
    · -- the block that becomes a primary one was none before
      have hj : j < st.blocks.length := by
        rw [← h.length]
        exact (List.getElem?_eq_some_iff.mp hb).1
      refine Or.inr ⟨j, st.blocks[j], b', List.getElem?_eq_getElem hj, hb', fun hp => hnot ?_,
        hprimary⟩
      have hsame := h.stays j _ (List.getElem?_eq_getElem hj) (Or.inl hp)
      rw [hb] at hsame
      cases hsame
      exact hp
  · exact Or.inr ⟨j, b, b', hb, h'.stays j b' hb' (Or.inl hprimary), hnot, hprimary⟩

theorem Evolves.set {st : Received} {j : Nat} {b b' : CSBlock} {bundle : Bundle}
    (hb : st.blocks[j]? = some b) (hnot : ¬IsPrimary b) (hdummy : Dummy b → b' = b)
    (hdest : bundle.dest = st.bundle.dest ∨ IsPrimary b') :
    Evolves st ⟨bundle, st.blocks.set j b'⟩ := by
  have hj : j < st.blocks.length := (List.getElem?_eq_some_iff.mp hb).1
  refine ⟨List.length_set, fun k c hc hfix => ?_, ?_⟩
  · by_cases hk : j = k
    · subst hk
      rw [hb] at hc
      cases hc
      rcases hfix with hp | hd
      · exact absurd hp hnot
      · dsimp only
        rw [hdummy hd, List.getElem?_set_self hj]
    · dsimp only
      rw [List.getElem?_set_ne hk, hc]
  · rcases hdest with hdest | hp
    · exact Or.inl hdest
    · exact Or.inr ⟨j, b, b', hb, List.getElem?_set_self hj, hnot, hp⟩

section Steps

variable {node : Node} {l : Locals} {info : ProtectionInfo} {session : Session} {st : Received}

theorem not_primary_of_locals {b : CSBlock} {l : Locals} (h : b.locals = some l) : ¬IsPrimary b := by
  rintro ⟨_, hnone⟩
  rw [h] at hnone
  cases hnone

theorem decapsulateAt_evolves {j : Nat} {b : CSBlock} {r : Bool × Received × Bool}
    (hb : st.blocks[j]? = some b) (h : decapsulateAt node l info session st j b = .ok r) :
    Evolves st r.2.1 := by
  rw [decapsulateAt] at h
  obtain ⟨type, _, h⟩ := Exec.bind_eq_ok.mp h
  split at h
  · cases h
    exact Evolves.refl st
  split at h
  · cases h
  rename_i target htarget
  split at h
  · cases h
    exact Evolves.refl st
  obtain ⟨done, hdone, h⟩ := Exec.bind_eq_ok.mp h
  obtain ⟨hdummy, hdest⟩ := decapsulate_ok hdone
  have hnot := not_primary_of_locals htarget
  split at h
  · cases h
    exact Evolves.set hb hnot (fun hd => by rw [hdummy hd]) hdest
  · rename_i hok
    obtain ⟨type', _, h⟩ := Exec.bind_eq_ok.mp h
    cases h
    refine Evolves.set hb hnot (fun hd => ?_) hdest
    rw [hdummy hd] at hok
    exact absurd rfl hok

theorem decapsulateLoop_evolves {count j : Nat} {r : Bool × Received × List Nat}
    (h : decapsulateLoop node l info session count j st = .ok r) : Evolves st r.2.1 := by
  induction count generalizing j st r with
  | zero =>
      cases h
      exact Evolves.refl st
  | succ count ih =>
      rw [decapsulateLoop] at h
      split at h
      · cases h
        exact Evolves.refl st
      · rename_i b hb
        obtain ⟨round, hround, h⟩ := Exec.bind_eq_ok.mp h
        have hfirst := decapsulateAt_evolves hb hround
        split at h
        · cases h
          exact hfirst
        · obtain ⟨rest, hrest, h⟩ := Exec.bind_eq_ok.mp h
          cases h
          have hlater := ih hrest
          exact hfirst.trans hlater

variable {inner : Received → Nat → Exec (Bool × Received)}
  (hinner : ∀ {st i r}, inner st i = .ok r → Evolves st r.2)

include hinner

theorem validateSecurity_evolves {i : Nat} {r : Bool × Received}
    (h : validateSecurity node inner st i = .ok r) : Evolves st r.2 := by
  rw [validateSecurity] at h
  split at h
  · cases h
  split at h
  · cases h
    exact Evolves.refl st
  split at h
  · cases h
    exact Evolves.refl st
  split at h
  · exact hinner h
  · cases h
    exact Evolves.refl st
  · cases h
    exact Evolves.refl st

theorem revalidate_evolves {js : List Nat} {st' : Received}
    (h : revalidate inner js st = .ok st') : Evolves st st' := by
  induction js generalizing st with
  | nil =>
      cases h
      exact Evolves.refl _
  | cons j rest ih =>
      obtain ⟨done, hdone, h⟩ := Exec.bind_eq_ok.mp h
      exact (hinner hdone).trans (ih h)

theorem validateRest_evolves {i : Nat} {b b' : CSBlock} {r : Bool × Received}
    {bundle : Bundle} (hb : st.blocks[i]? = some b) (hnot : ¬IsPrimary b) (hdummy : ¬Dummy b)
    (hdest : bundle.dest = st.bundle.dest ∨ IsPrimary b')
    (h : validateRest node inner l info session ⟨bundle, st.blocks.set i b'⟩ i b' = .ok r) :
    Evolves st r.2 := by
  rw [validateRest] at h
  obtain ⟨type, _, h⟩ := Exec.bind_eq_ok.mp h
  obtain ⟨loop, hloop, h⟩ := Exec.bind_eq_ok.mp h
  have hstart : Evolves st ⟨bundle, (st.blocks.set i b').set i (noted b' info)⟩ := by
    rw [List.set_set]
    exact Evolves.set hb hnot (fun hd => absurd hd hdummy) hdest
  have hthere := hstart.trans (decapsulateLoop_evolves hloop)
  split at h
  · cases h
    exact hthere
  split at h
  · cases h
  obtain ⟨found, _, h⟩ := Exec.bind_eq_ok.mp h
  dsimp only at h
  split at h
  · obtain ⟨last, hlast, h⟩ := Exec.bind_eq_ok.mp h
    cases h
    exact hthere.trans (revalidate_evolves (fun h => validateSecurity_evolves hinner h) hlast)
  · cases h
    exact hthere

end Steps

theorem validate_evolves {node : Node} {depth : Nat} {st : Received} {i : Nat} {r : Bool × Received}
    (h : validate node depth st i = .ok r) : Evolves st r.2 := by
  induction depth generalizing st i r with
  | zero => cases h
  | succ depth ih =>
      rw [validate] at h
      split at h
      · cases h
      rename_i b hb
      split at h
      · cases h
        exact Evolves.refl st
      rename_i l hl
      split at h
      · cases h
        exact Evolves.refl st
      obtain ⟨done, hdone, h⟩ := Exec.bind_eq_ok.mp h
      obtain ⟨hdummy, hdest⟩ := decapsulate_ok hdone
      have hnot := not_primary_of_locals hl
      dsimp only at h
      split at h
      · rename_i session hok hsession
        refine validateRest_evolves (fun h => ih h) hb hnot (fun hd => ?_) hdest h
        rw [hdummy hd] at hok
        cases hok
      · cases h
        exact Evolves.set hb hnot (fun hd => by rw [hdummy hd]) hdest

theorem validate_dummy {node : Node} {depth : Nat} {st : Received} {i : Nat} {b : CSBlock}
    {r : Bool × Received} (hb : st.blocks[i]? = some b) (hdummy : Dummy b)
    (hlocal : destinationIsLocalNode node st.bundle b = true)
    (h : validate node depth st i = .ok r) : r.1 = false := by
  cases depth with
  | zero => cases h
  | succ depth =>
      rw [validate, hb] at h
      dsimp only at h
      obtain ⟨l, hl, _⟩ := id hdummy
      rw [hl] at h
      dsimp only at h
      rw [hlocal, if_neg (by decide)] at h
      obtain ⟨done, hdone, h⟩ := Exec.bind_eq_ok.mp h
      rw [(decapsulate_ok hdone).1 hdummy] at h
      cases h
      rfl

theorem validateFrom_evolves {node : Node} {depth count i : Nat} {st : Received}
    {r : Bool × Received} (h : validateFrom node depth count i st = .ok r) : Evolves st r.2 := by
  induction count generalizing i st r with
  | zero =>
      cases h
      exact Evolves.refl st
  | succ count ih =>
      rw [validateFrom] at h
      split at h
      · cases h
        exact Evolves.refl st
      split at h
      · obtain ⟨done, hdone, h⟩ := Exec.bind_eq_ok.mp h
        have hfirst := validateSecurity_evolves (fun h => validate_evolves h) hdone
        split at h
        · cases h
          exact hfirst
        · exact hfirst.trans (ih h)
      · exact ih h

theorem validateFrom_passes {job : Job} {receiver : Node} {depth count i p : Nat} {st final : Received}
    {g : CSBlock} (hg : Arrived job receiver g) (hp : st.blocks[p]? = some g) (hle : i ≤ p)
    (hlt : p < i + count) (h : validateFrom receiver depth count i st = .ok (true, final)) :
    ∃ mid, Evolves st mid ∧ Evolves mid final ∧
      destinationIsLocalNode receiver mid.bundle g = false := by
  induction count generalizing i st with
  | zero => omega
  | succ count ih =>
      have hall := validateFrom_evolves h
      rw [validateFrom] at h
      by_cases hi : i = p
      · subst hi
        rw [hp] at h
        dsimp only at h
        rw [if_pos hg.owner] at h
        obtain ⟨done, hdone, h⟩ := Exec.bind_eq_ok.mp h
        refine ⟨st, Evolves.refl st, hall, ?_⟩
        by_contra hlocal
        rw [Bool.not_eq_false] at hlocal
        -- the ciphersuite is asked, and rejects the block
        obtain ⟨l, hl, hsuite⟩ := hg.suite
        rw [validateSecurity, hp] at hdone
        dsimp only at hdone
        rw [hl] at hdone
        dsimp only at hdone
        rw [hlocal, if_neg (by decide), hsuite] at hdone
        rw [validate_dummy hp hg.dummy hlocal hdone, if_pos rfl] at h
        cases h
      · have hnext : i + 1 ≤ p := by omega
        split at h
        · rename_i hnone
          have hlen := (List.getElem?_eq_some_iff.mp hp).1
          rw [List.getElem?_eq_none_iff] at hnone
          omega
        split at h
        · obtain ⟨done, hdone, h⟩ := Exec.bind_eq_ok.mp h
          have hfirst := validateSecurity_evolves (fun h => validate_evolves h) hdone
          split at h
          · cases h
          · obtain ⟨mid, hmid, hrest⟩ :=
              ih (hfirst.stays p g hp (Or.inr hg.dummy)) hnext (by omega) h
            exact ⟨mid, hfirst.trans hmid, hrest⟩
        · exact ih hp hnext (by omega) h

end CiphersuiteES

open CiphersuiteES

theorem exists_of_forall₂ {α β : Type} {R : α → β → Prop} {xs : List α} {ys : List β}
    (h : List.Forall₂ R xs ys) {k : Nat} {x : α} (hx : xs[k]? = some x) :
    ∃ y, ys[k]? = some y ∧ R x y := by
  induction h generalizing k with
  | nil => cases hx
  | cons hr _ ih =>
      cases k with
      | zero =>
          cases hx
          exact ⟨_, rfl, hr⟩
      | succ k => exact ih hx

theorem type_of_isPrimary {b : CSBlock} (h : IsPrimary b) : b.type = .ok 0 := by
  rw [CSBlock.type, h.1, if_pos (by decide)]
  rfl

theorem Carried.primary {receiver : Node} {s g : CSBlock} (h : Carried receiver s g)
    (hs : s.type = .ok 0) : IsPrimary g := by
  obtain ⟨t, hst, hg⟩ := h.same.type
  rw [hs] at hst
  cases hst
  have howner : g.owner = .base .primary := h.owner 0 hg
  exact ⟨howner, h.plain (by rw [howner]; rfl)⟩

/-- The encryption of extension blocks is undone for no transmit list, at no node. -/
theorem not_undone (job : Job) (receiver : Node) : ¬job.Undone receiver := by
  rintro ⟨ok, sent, depth, st, final, hfinalize, hcarried, hat, hvalid, kept, hsub, hsame⟩
  obtain ⟨hlen, hfirst, b, hb, hleft⟩ := finalize_left hfinalize
  obtain ⟨g, hg, hcarry⟩ := exists_of_forall₂ hcarried hb
  have harrived := hleft.arrived hcarry
  have hposition := (List.getElem?_eq_some_iff.mp hg).1
  obtain ⟨mid, hmid, hrest, hother⟩ :=
    validateFrom_passes harrived hg (Nat.zero_le _) (by omega) hvalid
  rcases hmid.dest with hdest | ⟨j, c, c', hc, hc', hnot, hprimary⟩
  · -- the placeholder was for this node
    have hstill : job.AtDestination receiver mid.bundle := by
      rw [Job.AtDestination, hdest]
      exact hat
    rw [harrived.local_of mid.bundle hstill] at hother
    cases hother
  · -- a block that turned into a primary block is none of the originals
    have hfinal : kept = final.blocks := by
      refine hsub.eq_of_length ?_
      rw [← hsame.length_eq, hrest.length, hmid.length, ← hcarried.length_eq, hlen]
    rw [hfinal] at hsame
    obtain ⟨o, ho, hso⟩ := exists_of_forall₂ hsame.flip (hrest.stays j c' hc' (Or.inl hprimary))
    obtain ⟨t, hot, hct⟩ := hso.type
    rw [type_of_isPrimary hprimary] at hct
    cases hct
    cases j with
    | zero =>
        obtain ⟨c₀, hc₀, hcarry₀⟩ := exists_of_forall₂ hcarried hfirst
        rw [hc] at hc₀
        cases hc₀
        exact hnot (hcarry₀.primary job.first)
    | succ j =>
        rw [Job.originals, List.cons_append, List.getElem?_cons_succ] at ho
        exact job.single o (List.mem_of_getElem? ho) hot

namespace Sample

def flipping : Cipher where
  encryptMessage _ _ text := (text.map (· ^^^ 0x5a), List.replicate tagLen 7)
  decryptMessage _ _ text _ := some (text.map (· ^^^ 0x5a))
  decrypt_message _ _ text := by simp [Function.comp_def, UInt8.xor_assoc]
  length_text _ _ text := List.length_map _
  length_tag _ _ _ := List.length_replicate
  encrypt _ _ key := some key
  decrypt _ _ enc := some enc
  decrypt_key _ _ _ _ h := h.symm

def node : Node :=
  ⟨Oasys.plain, Params.default, ascii ['d', 't', 'n', ':', '/', '/', 'a'], id, id, flipping⟩

def draws : Draws :=
  ⟨[1, 2, 3, 4], List.replicate 16 9, fun n => List.replicate ivLen (UInt8.ofNat n), rfl,
    fun _ => List.length_replicate⟩

/-- An extension block of a type without a processor, and the payload block behind it. -/
def extension : CSBlock :=
  ⟨.base .unknown, ⟨.unknown, [], ⟨[0x33, 0x02, 3, 10, 11, 12], []⟩, 3, 3, false, none⟩, none, []⟩

def payload : CSBlock :=
  ⟨.base .payload, ⟨.payload, [], ⟨[0x01, 0x08, 5], []⟩, 5, 3, false, none⟩, none, []⟩

def primary : CSBlock := ⟨.base .primary, BlockInfo.new Oasys.plain .primary, none, []⟩

def placeholder : CSBlock :=
  let made := prepared node (Bundle.new 1 0) [] [] 4
  ⟨made.owner, ⟨.unknown, made.info.eidList,
    ⟨[9, 0x40, 1, 0, 4, 2, 4, 16], List.replicate 56 0⟩, 2, 6, false, none⟩, made.locals, []⟩

theorem generate_placeholder : ∃ dict, generate node .empty
    (prepared node (Bundle.new 1 0) [] [] 4) false = .ok (placeholder, dict) := by
  have h : (generate node .empty (prepared node (Bundle.new 1 0) [] [] 4) false).map Prod.fst =
      .ok placeholder := by decide +kernel
  cases hmade : generate node .empty (prepared node (Bundle.new 1 0) [] [] 4) false with
  | error s =>
      rw [hmade] at h
      cases h
  | ok made =>
      rw [hmade] at h
      exact ⟨made.2, by rw [← Except.ok.inj h]⟩

/-- One extension block is to be encrypted. -/
def job : Job where
  node := node
  draws := draws
  bundle := Bundle.new 1 0
  src := []
  dest := []
  csNum := 4
  primary := primary
  before := []
  placeholder := placeholder
  after := [extension, payload]
  dict := .empty
  suite := by decide
  first := rfl
  single := by decide
  generated := ⟨_, generate_placeholder.imp fun _ h => ⟨false, h⟩⟩

/-- The payload block is lost, the placeholder is still there. -/
example : (finalize node draws (Bundle.new 1 0) ⟨job.blocks, .empty⟩ 1).toOption.map
    (fun r => (r.1, r.2.blocks.map fun b => b.type.toOption)) =
    some (true, [some 0, some 9, some 9]) := by
  decide +kernel

/-- Whatever node it arrives at, the extension block is not back in its place. -/
theorem job_not_undone : ¬∃ receiver, job.Undone receiver := by
  rintro ⟨receiver, ok, sent, depth, st, final, hfinalize, hcarried, _, hvalid, kept, hsub, hsame⟩
  obtain ⟨hlen, _, b, hb, hleft⟩ := finalize_left hfinalize
  obtain ⟨g, hg, hcarry⟩ := exists_of_forall₂ hcarried hb
  have hall := validateFrom_evolves hvalid
  have hstill := hall.stays _ g hg (Or.inr (hleft.arrived hcarry).dummy)
  have hkept : kept = final.blocks := by
    refine hsub.eq_of_length ?_
    rw [← hsame.length_eq, hall.length, ← hcarried.length_eq, hlen]
  rw [hkept] at hsame
  -- where the extension block was, there is the placeholder
  obtain ⟨o, ho, hso⟩ := exists_of_forall₂ hsame.flip hstill
  obtain rfl : extension = o := Option.some.inj ho
  obtain ⟨t, hot, hgt⟩ := hso.type
  obtain ⟨t', hbt, hgt'⟩ := hcarry.same.type
  rw [hleft.type] at hbt
  rw [hgt'] at hgt
  cases hbt
  cases hgt
  exact absurd hot (by decide)

end Sample

end Security

end Dtn2
