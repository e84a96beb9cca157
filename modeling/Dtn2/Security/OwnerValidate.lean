import Dtn2.Bpq.Block
import Dtn2.Bundling.Validate
import Dtn2.Security.Decapsulate

/-!
# The processors' checks of a received block

`owner()->validate(..)` of a received block is called with the whole list of blocks. Most processors
only read it. `Ciphersuite_PC::validate` decrypts the payload and the encapsulated blocks behind its
own block; `Ciphersuite_ES::validate` replaces its own block and blocks anywhere in the list.
-/

namespace Dtn2

namespace Security

open PrepareBlocks (Owner Suite findSuite)

/-! ## The payload confidentiality ciphersuites -/

namespace CiphersuitePC

def csPCBlockICVField : UInt8 := 8

/-- `get_key_len()` of the ciphersuites 3, 7 and 11. -/
def getKeyLen (csNum : UInt16) : Nat := if csNum = 11 then 32 else 16

/-- What `validate` takes out of the parameters and the result of its block. -/
structure Opened where
  session : CiphersuiteES.Session
  iv : Bytes
  tag : Bytes

/-- The checks of `validate` in front of its loop. A key that cannot be decrypted has length zero.
-/
def openSession (node : Node) (bundle : Bundle) (l : Locals) : Option Opened := do
  let iv ← findItem csIVField l.securityParams
  guard (iv.length = ivLen)
  let salt ← findItem csSaltField l.securityParams
  guard (salt.length = saltLen)
  let encryptedKey ← findItem csKeyInfoField l.securityParams
  let key := (node.cipher.decrypt (node.host (CiphersuiteES.securityDestEid l bundle))
    l.ownerCsNum encryptedKey).getD []
  guard (key.length = getKeyLen l.ownerCsNum)
  let tag ← findItem csPCBlockICVField l.securityResult
  guard (tag.length = tagLen)
  pure ⟨⟨key, salt, l.correlator⟩, iv, tag⟩

/-- `mutate` of the payload with `do_crypt`, and the comparison of the tags. -/
def decryptPayload (node : Node) (o : Opened) (bundle : Bundle) (b : CSBlock) : Option Bundle :=
  let text := bundle.payload.data.take b.info.dataLength.toNat
  (node.cipher.decryptMessage o.session.key (o.session.salt ++ o.iv) text o.tag).map fun plain =>
    { bundle with payload := bundle.payload.overwrite plain 0 }

/-- The round of the loop for the block at `j`. -/
def visit (node : Node) (l : Locals) (o : Opened) (st : Received) (j : Nat) (b : CSBlock) :
    Exec (Bool × Received) := do
  let type ← b.type
  if type = Owner.confidentiality.blockType then
    match b.locals with
    | none => pure (false, st)
    | some target =>
        if target.ownerCsNum ≠ l.ownerCsNum ∨ target.correlator ≠ l.correlator then pure (true, st)
        else do
          let done ← CiphersuiteES.decapsulate node st.bundle b l (some o.session)
          pure (done.1.1, ⟨done.1.2.1, st.blocks.set j done.1.2.2⟩)
  else if type = Owner.payload.blockType then
    match decryptPayload node o st.bundle b with
    | none => pure (false, st)
    | some bundle => pure (true, ⟨bundle, st.blocks⟩)
  else pure (true, st)

/-- The loop over the blocks from `j` on. -/
def visitFrom (node : Node) (l : Locals) (o : Opened) : Nat → Nat → Received →
    Exec (Bool × Received)
  | 0, _, st => pure (true, st)
  | count + 1, j, st =>
      match st.blocks[j]? with
      | none => pure (true, st)
      | some b => do
          let done ← visit node l o st j b
          if done.1 = false then pure done else visitFrom node l o count (j + 1) done.2

/-- `Ciphersuite_PC::validate` for the block at `i`. The loop steps over the blocks up to it. -/
def validate (node : Node) (st : Received) (i : Nat) : Exec (Bool × Received) :=
  match st.blocks[i]? with
  | none => .error (.fault .outOfBounds)
  | some b =>
      match b.locals with
      | none => pure (false, st)
      | some l =>
          if CiphersuiteES.destinationIsLocalNode node st.bundle b = false then pure (true, st)
          else
            match openSession node st.bundle l with
            | none => pure (false, st)
            | some o => visitFrom node l o st.blocks.length (i + 1) st

end CiphersuitePC

/-! ## All processors -/

/-- A node with what the checks of the other ciphersuites and the policy need: their cryptographic
functions, the incoming rules, and how deep blocks may be encapsulated. -/
structure Daemon where
  node : Node
  env : Env
  rules : List IncomingRule
  depth : Nat

namespace Daemon

def checkEnv (d : Daemon) : Env :=
  { d.env with
    localEid := d.node.localEid
    basePortion := d.node.basePortion
    host := d.node.host }

end Daemon

def Locals.checked (l : Locals) : LocalsCS :=
  ⟨l.ownerCsNum.toNat, l.csFlags.toNat, l.correlator.toNat, l.securitySrc, l.securityDest,
    l.securityResult.map fun item => (item.1.toNat, item.2)⟩

def CSBlock.checked (b : CSBlock) : Block := ⟨b.owner, b.locals.map Locals.checked, b.bsp⟩

def header (bundle : Bundle) : Header := ⟨bundle.source.uri, bundle.dest.uri, bundle.prevhop.uri⟩

/-- `validate` of a ciphersuite for the block at `i`. -/
def suiteValidate (d : Daemon) (st : Received) (i : Nat) (b : CSBlock) (l : Locals) :
    Suite → Exec (Bool × Received)
  | .ba => do
      let verdict ← CiphersuiteBA.validate d.checkEnv (header st.bundle)
        (st.blocks.map CSBlock.checked) i l.checked
      pure (decide (verdict ≠ .rejected), st)
  | .pi =>
      let verdict := CiphersuitePI.validate d.checkEnv (header st.bundle)
        (st.blocks.map CSBlock.checked) i b.checked l.checked
      pure (decide (verdict ≠ .rejected), st)
  | .pc => CiphersuitePC.validate d.node st i
  | .es => CiphersuiteES.validate d.node d.depth st i

/-- `BA_BlockProcessor::validate` and `AS_BlockProcessor::validate`. -/
def securityValidate (d : Daemon) (st : Received) (i : Nat) (b : CSBlock) :
    Exec (Bool × Received) :=
  match b.locals with
  | none => pure (false, st)
  | some l =>
      if b.owner = .authentication ∨
          CiphersuiteES.destinationIsLocalNode d.node st.bundle b = true then
        match findSuite l.ownerCsNum.toNat with
        | none => pure (false, st)
        | some suite => suiteValidate d st i b l suite
      else pure (true, st)

/-- `BPQBlockProcessor::validate`. The block is validated if its data could be read. -/
def queryValidate (os : Oasys) (bundle : Bundle) (block : BlockInfo) : Exec Bool := do
  let done ← BlockProcessor.validate bundle block .initial
  if done.1 = false then pure false
  else if (block.dataOffset + block.dataLength).toNat ≠ block.fullLength.toNat then pure false
  else if block.contents.memory.length < block.fullLength.toNat then pure false
  else
    match BPQBlock.initialiseFromBuf os block.data with
    | .ok _ => pure true
    | .error _ => pure false

/-- `owner()->validate(..)` for the block at `i`. The reasons it sets are not kept here. -/
def ownerValidate (d : Daemon) (st : Received) (i : Nat) : Exec (Bool × Received) :=
  match st.blocks[i]? with
  | none => .error (.fault .outOfBounds)
  | some b =>
      match b.owner with
      | .base processor => do
          let done ← BundleProtocol.validateBlock st.bundle { b.info with owner := processor }
            .initial
          pure (done.1, st)
      | .query => do
          let valid ← queryValidate d.node.os st.bundle b.info
          pure (valid, st)
      | _ => securityValidate d st i b

/-! ## What a check leaves as it is -/

/-- The number of the blocks stays, and so do the blocks up to the one at `i`. -/
structure KeepsFront (i : Nat) (st st' : Received) : Prop where
  length : st'.blocks.length = st.blocks.length
  front : ∀ j ≤ i, st'.blocks[j]? = st.blocks[j]?

theorem KeepsFront.refl (i : Nat) (st : Received) : KeepsFront i st st := ⟨rfl, fun _ _ => rfl⟩

theorem KeepsFront.trans {i : Nat} {st st' st'' : Received} (h : KeepsFront i st st')
    (h' : KeepsFront i st' st'') : KeepsFront i st st'' where
  length := h'.length.trans h.length
  front j hj := (h'.front j hj).trans (h.front j hj)

theorem KeepsFront.set {i j : Nat} (hj : i < j) (st : Received) (bundle : Bundle) (b : CSBlock) :
    KeepsFront i st ⟨bundle, st.blocks.set j b⟩ where
  length := List.length_set
  front k hk := List.getElem?_set_ne (by omega)

theorem KeepsFront.take {i : Nat} {st st' : Received} (h : KeepsFront i st st') {n : Nat}
    (hn : n ≤ i + 1) : st'.blocks.take n = st.blocks.take n := by
  apply List.ext_getElem?
  intro j
  by_cases hj : j < n
  · rw [List.getElem?_take_of_lt hj, List.getElem?_take_of_lt hj, h.front j (by omega)]
  · rw [List.getElem?_take_eq_none (Nat.le_of_not_lt hj),
      List.getElem?_take_eq_none (Nat.le_of_not_lt hj)]

namespace CiphersuitePC

theorem visit_keeps {node : Node} {l : Locals} {o : Opened} {st : Received} {i j : Nat}
    {b : CSBlock} {r : Bool × Received} (hj : i < j) (h : visit node l o st j b = .ok r) :
    KeepsFront i st r.2 := by
  rw [visit] at h
  obtain ⟨type, -, h⟩ := Exec.bind_eq_ok.mp h
  by_cases hconf : type = Owner.confidentiality.blockType
  · rw [if_pos hconf] at h
    cases hl : b.locals with
    | none =>
        rw [hl] at h
        cases h
        exact KeepsFront.refl i st
    | some target =>
        rw [hl] at h
        dsimp only at h
        split at h
        · cases h
          exact KeepsFront.refl i st
        · obtain ⟨done, -, h⟩ := Exec.bind_eq_ok.mp h
          cases h
          exact KeepsFront.set hj st _ _
  · rw [if_neg hconf] at h
    by_cases hpayload : type = Owner.payload.blockType
    · rw [if_pos hpayload] at h
      cases hplain : decryptPayload node o st.bundle b with
      | none =>
          rw [hplain] at h
          cases h
          exact KeepsFront.refl i st
      | some bundle =>
          rw [hplain] at h
          cases h
          exact ⟨rfl, fun _ _ => rfl⟩
    · rw [if_neg hpayload] at h
      cases h
      exact KeepsFront.refl i st

theorem visitFrom_keeps {node : Node} {l : Locals} {o : Opened} {st : Received} {count i j : Nat}
    {r : Bool × Received} (hj : i < j) (h : visitFrom node l o count j st = .ok r) :
    KeepsFront i st r.2 := by
  induction count generalizing j st with
  | zero =>
      cases h
      exact KeepsFront.refl i st
  | succ count ih =>
      rw [visitFrom] at h
      cases hb : st.blocks[j]? with
      | none =>
          rw [hb] at h
          cases h
          exact KeepsFront.refl i st
      | some b =>
          rw [hb] at h
          obtain ⟨done, hdone, h⟩ := Exec.bind_eq_ok.mp h
          have hfirst := visit_keeps hj hdone
          by_cases hok : done.1 = false
          · rw [if_pos hok] at h
            cases h
            exact hfirst
          · rw [if_neg hok] at h
            apply hfirst.trans
            exact ih (by omega) h

theorem validate_keeps {node : Node} {st : Received} {i : Nat} {r : Bool × Received}
    (h : validate node st i = .ok r) : KeepsFront i st r.2 := by
  rw [validate] at h
  cases hb : st.blocks[i]? with
  | none =>
      rw [hb] at h
      cases h
  | some b =>
      rw [hb] at h
      dsimp only at h
      cases hl : b.locals with
      | none =>
          rw [hl] at h
          cases h
          exact KeepsFront.refl i st
      | some l =>
          rw [hl] at h
          dsimp only at h
          split at h
          · cases h
            exact KeepsFront.refl i st
          · cases hopen : openSession node st.bundle l with
            | none =>
                rw [hopen] at h
                cases h
                exact KeepsFront.refl i st
            | some o =>
                rw [hopen] at h
                exact visitFrom_keeps (Nat.lt_succ_self i) h

end CiphersuitePC

/-- The block at `i` is handed to `Ciphersuite_ES::validate` at its security destination. -/
def ReachesES (node : Node) (st : Received) (i : Nat) : Prop :=
  ∃ b l, st.blocks[i]? = some b ∧
    b.owner ∈ [Owner.authentication, .integrity, .confidentiality, .extensionSecurity] ∧
    b.locals = some l ∧ findSuite l.ownerCsNum.toNat = some .es ∧
    CiphersuiteES.destinationIsLocalNode node st.bundle b = true

theorem validate_es_other {node : Node} {depth : Nat} {st : Received} {i : Nat} {b : CSBlock}
    {l : Locals} {r : Bool × Received} (hb : st.blocks[i]? = some b) (hl : b.locals = some l)
    (hother : CiphersuiteES.destinationIsLocalNode node st.bundle b = false)
    (h : CiphersuiteES.validate node depth st i = .ok r) : r.2 = st := by
  cases depth with
  | zero => cases h
  | succ depth =>
      rw [CiphersuiteES.validate, hb] at h
      dsimp only at h
      rw [hl] at h
      dsimp only at h
      rw [if_pos hother] at h
      cases h
      rfl

theorem securityValidate_keeps {d : Daemon} {st : Received} {i : Nat} {b : CSBlock}
    {r : Bool × Received} (hb : st.blocks[i]? = some b)
    (howner : b.owner ∈ [Owner.authentication, .integrity, .confidentiality, .extensionSecurity])
    (hes : ¬ ReachesES d.node st i) (h : securityValidate d st i b = .ok r) :
    KeepsFront i st r.2 := by
  rw [securityValidate] at h
  cases hl : b.locals with
  | none =>
      rw [hl] at h
      cases h
      exact KeepsFront.refl i st
  | some l =>
      rw [hl] at h
      dsimp only at h
      split at h
      · cases hsuite : findSuite l.ownerCsNum.toNat with
        | none =>
            rw [hsuite] at h
            cases h
            exact KeepsFront.refl i st
        | some suite =>
            rw [hsuite] at h
            dsimp only at h
            cases suite with
            | ba =>
                obtain ⟨verdict, -, h⟩ := Exec.bind_eq_ok.mp h
                cases h
                exact KeepsFront.refl i st
            | pi =>
                cases h
                exact KeepsFront.refl i st
            | pc => exact CiphersuitePC.validate_keeps h
            | es =>
                have hother : CiphersuiteES.destinationIsLocalNode d.node st.bundle b = false := by
                  rw [← Bool.not_eq_true]
                  intro hlocal
                  exact hes ⟨b, l, hb, howner, hl, hsuite, hlocal⟩
                rw [validate_es_other hb hl hother h]
                exact KeepsFront.refl i st
      · cases h
        exact KeepsFront.refl i st

theorem ownerValidate_keeps {d : Daemon} {st : Received} {i : Nat} {r : Bool × Received}
    (hes : ¬ ReachesES d.node st i) (h : ownerValidate d st i = .ok r) : KeepsFront i st r.2 := by
  rw [ownerValidate] at h
  cases hb : st.blocks[i]? with
  | none =>
      rw [hb] at h
      cases h
  | some b =>
      rw [hb] at h
      dsimp only at h
      cases howner : b.owner with
      | base processor =>
          rw [howner] at h
          obtain ⟨done, -, h⟩ := Exec.bind_eq_ok.mp h
          cases h
          exact KeepsFront.refl i st
      | query =>
          rw [howner] at h
          obtain ⟨valid, -, h⟩ := Exec.bind_eq_ok.mp h
          cases h
          exact KeepsFront.refl i st
      | authentication =>
          rw [howner] at h
          exact securityValidate_keeps hb (by simp [howner]) hes h
      | integrity =>
          rw [howner] at h
          exact securityValidate_keeps hb (by simp [howner]) hes h
      | confidentiality =>
          rw [howner] at h
          exact securityValidate_keeps hb (by simp [howner]) hes h
      | extensionSecurity =>
          rw [howner] at h
          exact securityValidate_keeps hb (by simp [howner]) hes h

end Security

end Dtn2
