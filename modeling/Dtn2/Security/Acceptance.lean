import Dtn2.Security.Policy

/-!
# Accepted and verified

A bundle is accepted if every block passes and the policy is satisfied. Whether a digest was compared for a
block that satisfies a rule depends on what the block says of itself: an authentication block with a
result passes as it is, and so does any block whose security destination is not exactly the local
endpoint id.
-/

namespace Dtn2

namespace Security

open PrepareBlocks (Owner Suite findSuite csBlockHasSource csBlockHasDest)

section Verified

variable {env : Env} {b : Header}

/-- A block of a ciphersuite on the rule's list, with the security source and destination of the
rule. -/
structure Satisfies (env : Env) (b : Header) (rule : IncomingRule) (l : LocalsCS) : Prop where
  listed : l.ownerCsNum ∈ rule.csnums
  matching : checkSrcDestMatch env b l rule.secsrc rule.secdest = true

/-- The rule is for this bundle, lists authentication and integrity ciphersuites only, and names this node
as the security destination. -/
structure Requires (env : Env) (b : Header) (rule : IncomingRule) : Prop where
  applies : rule.applies env b = true
  listed : ∀ num ∈ rule.csnums, isBA num = true ∨ isPI num = true
  names : match rule.secdest with
    | some pattern => ∀ eid, pattern eid = true ↔ eid = env.basePortion env.localEid
    | none => env.basePortion b.dest = env.basePortion env.localEid

/-- A digest over the received bundle was computed, under the key of the security source of the block,
and compared with the value that is carried. -/
inductive Compared (env : Env) (b : Header) (e : Entry) (l : LocalsCS) : Prop where
  | mac (key result carried : Bytes) (target : Block) (t : LocalsCS) :
      env.findKey (env.host (l.securitySrcEid b)) l.ownerCsNum = some key →
      env.mac l.ownerCsNum key b e.blocks e.index = some result →
      target ∈ e.blocks → target.locals = some t → t.ownerCsNum = l.ownerCsNum →
      t.correlator = l.correlator → t.getSecurityResult csSignatureField = some carried →
      carried = result.take (env.resultLen l.ownerCsNum) →
      carried.length = env.resultLen l.ownerCsNum → Compared env b e l
  | signature (digest : Bytes) :
      env.digest l.ownerCsNum b e.blocks e.index = some digest →
      env.recover (env.host (l.securitySrcEid b)) l.ownerCsNum
        ((l.getSecurityResult csSignatureField).getD []) = some digest → Compared env b e l

/-- The block is one that `validate` does not let pass as it is: an authentication ciphersuite without a
result, or an integrity ciphersuite for this very node, and for this node too if it does not come in an
authentication block. -/
structure Checks (env : Env) (b : Header) (block : Block) (l : LocalsCS) : Prop where
  security : block.owner ∈
    [.authentication, .integrity, .confidentiality, .extensionSecurity]
  own : block.owner = .authentication ∨ destinationIsLocalNode env b block = true
  front : isBA l.ownerCsNum = true → l.hasFlag csBlockHasResult = false
  exact : isPI l.ownerCsNum = true → destinationIsLocalNode env b block = true

theorem findSuite_ba {num : Nat} (h : isBA num = true) : findSuite num = some .ba := by
  rcases of_decide_eq_true h with rfl | rfl | rfl <;> rfl

theorem findSuite_pi {num : Nat} (h : isPI num = true) : findSuite num = some .pi := by
  rcases of_decide_eq_true h with rfl | rfl | rfl <;> rfl

theorem not_isPI_of_isBA {num : Nat} (h : isBA num = true) : isPI num = false := by
  rcases of_decide_eq_true h with rfl | rfl | rfl <;> rfl

theorem not_isBA_of_isPI {num : Nat} (h : isPI num = true) : isBA num = false := by
  rcases of_decide_eq_true h with rfl | rfl | rfl <;> rfl

theorem checkResult_cases {csNum correlator : Nat} {result : Bytes} (blocks : List Block) :
    checkResult env csNum correlator result blocks = .rejected ∨
      ∃ carried target t, checkResult env csNum correlator result blocks = .verified carried ∧
        target ∈ blocks ∧ target.locals = some t ∧ t.ownerCsNum = csNum ∧
        t.correlator = correlator ∧ t.getSecurityResult csSignatureField = some carried ∧
        carried = result.take (env.resultLen csNum) ∧ carried.length = env.resultLen csNum := by
  induction blocks with
  | nil => exact Or.inl rfl
  | cons target rest ih =>
      have hskip : ∀ {v : Verdict}, v = checkResult env csNum correlator result rest →
          v = .rejected ∨ ∃ carried target' t, v = .verified carried ∧
            target' ∈ target :: rest ∧ target'.locals = some t ∧ t.ownerCsNum = csNum ∧
            t.correlator = correlator ∧ t.getSecurityResult csSignatureField = some carried ∧
            carried = result.take (env.resultLen csNum) ∧
            carried.length = env.resultLen csNum := by
        rintro v rfl
        rcases ih with h | ⟨carried, target', t, h, hmem, hrest⟩
        · exact Or.inl h
        · exact Or.inr ⟨carried, target', t, h, List.mem_cons_of_mem _ hmem, hrest⟩
      rw [checkResult]
      split
      · exact hskip rfl
      split
      · exact Or.inl rfl
      · rename_i t hlocals
        split
        · exact hskip rfl
        rename_i hsame
        rw [not_or, not_not, not_not] at hsame
        split
        · exact hskip rfl
        split
        · exact Or.inl rfl
        · rename_i carried hcarried
          split
          · exact Or.inl rfl
          rename_i hlen
          split
          · exact Or.inl rfl
          rename_i hequal
          exact Or.inr ⟨carried, target, t, rfl, List.mem_cons_self, hlocals, hsame.1, hsame.2,
            hcarried, not_not.mp hequal, not_not.mp hlen⟩

theorem ba_validate {blocks : List Block} {index : Nat} {l : LocalsCS} {verdict : Verdict}
    (h : CiphersuiteBA.validate env b blocks index l = .ok verdict) (hpasses : verdict ≠ .rejected)
    (e : Entry) (hblocks : e.blocks = blocks) (hindex : e.index = index) :
    (l.hasFlag csBlockHasResult = true ∧ verdict = .unchecked) ∨
      (l.hasFlag csBlockHasResult = false ∧ (∃ digest, verdict = .verified digest) ∧
        Compared env b e l) := by
  rw [CiphersuiteBA.validate] at h
  split at h
  · rename_i hresult
    cases h
    exact Or.inl ⟨hresult, rfl⟩
  · rename_i hresult
    refine Or.inr ⟨Bool.not_eq_true _ ▸ hresult, ?_⟩
    split at h
    · cases h
      exact absurd rfl hpasses
    · rename_i key hkey
      obtain ⟨_, -, h⟩ := Exec.bind_eq_ok.mp h
      split at h
      · cases h
        exact absurd rfl hpasses
      · rename_i result hmac
        cases h
        rcases checkResult_cases blocks with hno | ⟨carried, target, t, hyes, hmem, hlocals, hnum,
          hcorrelator, hcarried, hequal, hlen⟩
        · exact absurd hno hpasses
        · refine ⟨⟨carried, hyes⟩, ?_⟩
          rw [← hblocks] at hmac hmem
          rw [← hindex] at hmac
          exact .mac key result carried target t hkey hmac hmem hlocals hnum hcorrelator hcarried
            hequal hlen

theorem pi_validate {blocks : List Block} {index : Nat} {block : Block} {l : LocalsCS}
    {verdict : Verdict} (h : CiphersuitePI.validate env b blocks index block l = verdict)
    (hpasses : verdict ≠ .rejected) (e : Entry) (hblocks : e.blocks = blocks)
    (hindex : e.index = index) :
    (destinationIsLocalNode env b block = false ∧ verdict = .unchecked) ∨
      (destinationIsLocalNode env b block = true ∧ (∃ digest, verdict = .verified digest) ∧
        Compared env b e l) := by
  rw [CiphersuitePI.validate] at h
  split at h
  · rename_i hdest
    exact Or.inl ⟨hdest, h.symm⟩
  · rename_i hdest
    refine Or.inr ⟨by simpa using hdest, ?_⟩
    split at h
    · exact absurd h.symm hpasses
    dsimp only at h
    split at h
    · exact absurd h.symm hpasses
    rename_i db hdb
    split at h
    · exact absurd h.symm hpasses
    rename_i carried hrecover
    split at h
    · exact absurd h.symm hpasses
    split at h
    · exact absurd h.symm hpasses
    rename_i hequal
    rw [not_not] at hequal
    rw [hequal] at hrecover
    refine ⟨⟨db, h.symm⟩, ?_⟩
    rw [← hblocks, ← hindex] at hdb
    exact .signature db hdb hrecover

theorem validateBlock_verified {blocks after : List Block} {index : Nat} {block : Block}
    {l : LocalsCS} {verdict : Verdict} (hlocals : block.locals = some l)
    (hsuite : isBA l.ownerCsNum = true ∨ isPI l.ownerCsNum = true)
    (h : validateBlock env b blocks index block = .ok (verdict, after))
    (hpasses : verdict ≠ .rejected) :
    ((∃ digest, verdict = .verified digest) ∧ Compared env b ⟨blocks, index, block, verdict⟩ l ∧
        Checks env b block l) ∨
      (verdict = .unchecked ∧ ¬Checks env b block l) := by
  by_cases hsecurity : block.owner ∈
      [.authentication, .integrity, .confidentiality, .extensionSecurity]
  · have hvalidate : validateSecurity env b blocks index block = .ok (verdict, after) := by
      unfold validateBlock at h
      simp only [List.mem_cons, List.not_mem_nil, or_false] at hsecurity
      rcases hsecurity with howner | howner | howner | howner <;> rw [howner] at h <;> exact h
    unfold validateSecurity at hvalidate
    rw [hlocals] at hvalidate
    dsimp only at hvalidate
    split at hvalidate
    · rename_i hown
      rcases hsuite with hba | hpi
      · rw [findSuite_ba hba] at hvalidate
        obtain ⟨v, hv, hvalidate⟩ := Exec.bind_eq_ok.mp hvalidate
        cases hvalidate
        rcases ba_validate hv hpasses ⟨blocks, index, block, verdict⟩ rfl rfl with
          ⟨hresult, hunchecked⟩ | ⟨hresult, hverified, hcompared⟩
        · refine Or.inr ⟨hunchecked, fun hchecks => ?_⟩
          rw [hchecks.front hba] at hresult
          cases hresult
        · refine Or.inl ⟨hverified, hcompared, hsecurity, hown, fun _ => hresult, fun hpi => ?_⟩
          rw [not_isPI_of_isBA hba] at hpi
          cases hpi
      · rw [findSuite_pi hpi] at hvalidate
        obtain ⟨hv, -⟩ := Prod.mk.inj (Except.ok.inj hvalidate)
        rcases pi_validate hv hpasses ⟨blocks, index, block, verdict⟩ rfl rfl with
          ⟨hdest, hunchecked⟩ | ⟨hdest, hverified, hcompared⟩
        · refine Or.inr ⟨hunchecked, fun hchecks => ?_⟩
          rw [hchecks.exact hpi] at hdest
          cases hdest
        · refine Or.inl ⟨hverified, hcompared, hsecurity, hown, fun hba => ?_, fun _ => hdest⟩
          rw [not_isBA_of_isPI hpi] at hba
          cases hba
    · rename_i hown
      cases hvalidate
      exact Or.inr ⟨rfl, fun hchecks => hown hchecks.own⟩
  · refine Or.inr ⟨?_, fun hchecks => hsecurity hchecks.security⟩
    simp only [List.mem_cons, List.not_mem_nil, or_false, not_or] at hsecurity
    unfold validateBlock at h
    split at h
    · exact absurd (by assumption) hsecurity.1
    · exact absurd (by assumption) hsecurity.2.1
    · exact absurd (by assumption) hsecurity.2.2.1
    · exact absurd (by assumption) hsecurity.2.2.2
    · split at h
      · cases h
        rfl
      · cases h
        exact absurd rfl hpasses

theorem validateFrom_entries {count index : Nat} {blocks last : List Block} {entries : List Entry}
    (h : validateFrom env b count index blocks = .ok (some (last, entries))) :
    ∀ e ∈ entries, e.verdict ≠ .rejected ∧
      ∃ after, validateBlock env b e.blocks e.index e.block = .ok (e.verdict, after) := by
  induction count generalizing index blocks last entries with
  | zero =>
      cases h
      exact fun e he => absurd he List.not_mem_nil
  | succ count ih =>
      rw [validateFrom] at h
      split at h
      · cases h
        exact fun e he => absurd he List.not_mem_nil
      · rename_i block hblock
        obtain ⟨⟨verdict, after⟩, hvalidate, h⟩ := Exec.bind_eq_ok.mp h
        dsimp only at h
        split at h
        · cases h
        · rename_i hpasses
          obtain ⟨result, hrest, h⟩ := Exec.bind_eq_ok.mp h
          cases result with
          | none => cases h
          | some pair =>
              cases h
              intro e he
              rcases List.mem_cons.mp he with rfl | he
              · exact ⟨hpasses, after, hvalidate⟩
              · exact ih hrest e he

theorem verifyInPolicy_satisfied {rules : List IncomingRule} {blocks : List Block}
    (h : verifyInPolicy env b blocks rules = true) {rule : IncomingRule} (hmem : rule ∈ rules)
    (hrule : Requires env b rule) :
    ∃ block ∈ blocks, ∃ l, block.locals = some l ∧ Satisfies env b rule l := by
  rw [verifyInPolicy, List.all_eq_true] at h
  have hone := h rule hmem
  rw [hrule.applies, Bool.not_true, Bool.false_or, verifyOneCiphersuite, Bool.or_eq_true] at hone
  rcases hone with hzero | hany
  · rw [List.contains_iff_mem] at hzero
    rcases hrule.listed 0 hzero with hba | hpi
    · cases hba
    · cases hpi
  · rw [List.any_eq_true] at hany
    obtain ⟨num, hnum, hcheck⟩ := hany
    have hsmall : num % 2 ^ 16 = num := by
      rcases hrule.listed num hnum with hba | hpi
      · rcases of_decide_eq_true hba with rfl | rfl | rfl <;> rfl
      · rcases of_decide_eq_true hpi with rfl | rfl | rfl <;> rfl
    have hes : isES num = false := by
      rcases hrule.listed num hnum with hba | hpi
      · rcases of_decide_eq_true hba with rfl | rfl | rfl <;> rfl
      · rcases of_decide_eq_true hpi with rfl | rfl | rfl <;> rfl
    rw [checkValidation, hsmall, hes, if_neg Bool.false_ne_true, List.any_eq_true] at hcheck
    obtain ⟨block, hblock, hsat⟩ := hcheck
    split at hsat
    · rename_i l hlocals
      rw [Bool.and_eq_true, decide_eq_true_eq] at hsat
      exact ⟨block, hblock, l, hlocals, by rw [hsat.1]; exact hnum, hsat.2⟩
    · cases hsat

/-- In an accepted bundle there is a block that satisfies each rule that requires one. A digest was
compared for such a block exactly if for each of these rules one of the blocks that satisfy it is not one
to pass as it is. -/
theorem accepted_verified (env : Env) (b : Header) (rules : List IncomingRule)
    (blocks last : List Block) (entries : List Entry)
    (hvalid : validateAll env b blocks = .ok (some (last, entries)))
    (hpolicy : verifyInPolicy env b last rules = true) :
    (∀ rule ∈ rules, Requires env b rule →
      ∃ block ∈ last, ∃ l, block.locals = some l ∧ Satisfies env b rule l) ∧
    ((∀ rule ∈ rules, Requires env b rule → ∃ e ∈ entries, ∃ l, last[e.index]? = some e.block ∧
      e.block.locals = some l ∧ Satisfies env b rule l ∧
      (∃ digest, e.verdict = .verified digest) ∧ Compared env b e l) ↔
    (∀ rule ∈ rules, Requires env b rule → ∃ e ∈ entries, ∃ l, last[e.index]? = some e.block ∧
      e.block.locals = some l ∧ Satisfies env b rule l ∧ Checks env b e.block l)) := by
  refine ⟨fun rule hmem hrule => verifyInPolicy_satisfied hpolicy hmem hrule, ?_⟩
  have hentry : ∀ rule, Requires env b rule → ∀ e ∈ entries, ∀ l, e.block.locals = some l →
      Satisfies env b rule l →
      ((∃ digest, e.verdict = .verified digest) ∧ Compared env b e l ∧ Checks env b e.block l) ∨
        (e.verdict = .unchecked ∧ ¬Checks env b e.block l) := by
    intro rule hrule e he l hlocals hsatisfies
    obtain ⟨hpasses, after, hvalidate⟩ := validateFrom_entries hvalid e he
    exact validateBlock_verified hlocals (hrule.listed _ hsatisfies.listed) hvalidate hpasses
  constructor
  · intro h rule hmem hrule
    obtain ⟨e, he, l, hlast, hlocals, hsatisfies, ⟨digest, hverdict⟩, -⟩ := h rule hmem hrule
    refine ⟨e, he, l, hlast, hlocals, hsatisfies, ?_⟩
    rcases hentry rule hrule e he l hlocals hsatisfies with ⟨-, -, hchecks⟩ | ⟨hunchecked, -⟩
    · exact hchecks
    · rw [hunchecked] at hverdict
      cases hverdict
  · intro h rule hmem hrule
    obtain ⟨e, he, l, hlast, hlocals, hsatisfies, hchecks⟩ := h rule hmem hrule
    refine ⟨e, he, l, hlast, hlocals, hsatisfies, ?_⟩
    rcases hentry rule hrule e he l hlocals hsatisfies with ⟨hverified, hcompared, -⟩ | ⟨-, hno⟩
    · exact ⟨hverified, hcompared⟩
    · exact absurd hchecks hno

end Verified

/-- The endpoint id `dtn://` with one more character. -/
def nodeEid (c : Char) : Bytes := ascii ['d', 't', 'n', ':', '/', '/', c]

/-- A key of the length of a SHA-1 digest. -/
def sampleKey : Bytes := List.replicate 20 7

/-- The node `dtn://l`, which has a key for the host `a`. Endpoint ids have no path here. -/
def sampleEnv : Env where
  localEid := nodeEid 'l'
  basePortion := fun eid => eid
  host := fun eid => eid.drop 6
  findKey := fun host num => if host = ascii ['a'] ∧ num = 1 then some sampleKey else none
  resultLen := fun num => if num = 1 then 20 else if num = 5 then 32 else 48
  mac := fun _ key _ _ _ => some (key.map (· + 1))
  digest := fun _ _ _ _ => none
  recover := fun _ _ _ => none
  decapsulate := fun _ _ _ _ => none
  otherValid := fun _ _ _ => true

def sampleHeader : Header := ⟨nodeEid 'a', nodeEid 'l', nodeEid 'a'⟩

/-- Bundles from `dtn://a` need an authentication block of that node for this one. -/
def sampleRule : IncomingRule where
  src := fun eid => decide (eid = nodeEid 'a')
  dest := fun _ => true
  secsrc := some fun eid => decide (eid = nodeEid 'a')
  secdest := some fun eid => decide (eid = nodeEid 'l')
  csnums := [1]

/-- An authentication block from `dtn://a` for this node, with these flags and results. -/
def sampleAuthentication (csFlags : Nat) (securityResult : List (Nat × Bytes)) : Block :=
  ⟨.authentication, some ⟨1, csFlags, 65537, nodeEid 'a', nodeEid 'l', securityResult⟩, []⟩

/-- The pair of authentication blocks around the payload. -/
def samplePair : List Block :=
  [⟨.primary, none, []⟩, sampleAuthentication 0x1a [], ⟨.payload, none, []⟩,
    sampleAuthentication 0x1b [(5, sampleKey.map (· + 1))]]

theorem sampleRule_requires : Requires sampleEnv sampleHeader sampleRule := by
  refine ⟨by decide, ?_, ?_⟩
  · intro num hnum
    rw [List.mem_singleton.mp hnum]
    exact Or.inl rfl
  · intro eid
    exact decide_eq_true_iff

theorem accepted_verified_sample : ∃ last entries,
    validateAll sampleEnv sampleHeader samplePair = .ok (some (last, entries)) ∧
    verifyInPolicy sampleEnv sampleHeader last [sampleRule] = true ∧
    ∃ e ∈ entries, ∃ l, e.block.locals = some l ∧ Satisfies sampleEnv sampleHeader sampleRule l ∧
      Compared sampleEnv sampleHeader e l := by
  have hrun : ∃ r ∈ (validateAll sampleEnv sampleHeader samplePair).toOption, ∃ p ∈ r,
      p.1 = samplePair ∧ (⟨samplePair, 1, sampleAuthentication 0x1a [],
        .verified (sampleKey.map (· + 1))⟩ : Entry) ∈ p.2 := by
    decide +kernel
  obtain ⟨r, hr, ⟨last, entries⟩, hp, hlast, hentry⟩ := hrun
  rw [Exec.mem_toOption, Option.mem_def.mp hp] at hr
  dsimp only at hlast hentry
  subst hlast
  have hpolicy : verifyInPolicy sampleEnv sampleHeader samplePair [sampleRule] = true := by
    decide +kernel
  have hboth := (accepted_verified sampleEnv sampleHeader [sampleRule] samplePair samplePair entries hr
    hpolicy).2.mpr (by
      intro rule hrule _
      rw [List.mem_singleton.mp hrule]
      refine ⟨_, hentry, _, rfl, rfl, ⟨List.mem_singleton.mpr rfl, by decide +kernel⟩, ?_⟩
      exact ⟨by decide, Or.inl rfl, fun _ => by decide, fun h => absurd h (by decide)⟩)
  obtain ⟨e, he, l, -, hlocals, hsatisfies, -, hcompared⟩ :=
    hboth sampleRule (List.mem_singleton.mpr rfl) sampleRule_requires
  exact ⟨samplePair, entries, hr, hpolicy, e, he, l, hlocals, hsatisfies, hcompared⟩

/-- A single authentication block that has a result. It passes without a comparison, and the policy takes
it for what the rule requires. -/
def sampleForged : List Block :=
  [⟨.primary, none, []⟩, sampleAuthentication 0x19 [(5, [])], ⟨.payload, none, []⟩]

theorem forged_accepted :
    Requires sampleEnv sampleHeader sampleRule ∧
    ∃ last entries, validateAll sampleEnv sampleHeader sampleForged = .ok (some (last, entries)) ∧
      verifyInPolicy sampleEnv sampleHeader last [sampleRule] = true ∧
      ∀ e ∈ entries, e.verdict = .unchecked := by
  refine ⟨sampleRule_requires, ?_⟩
  have hrun : ∃ r ∈ (validateAll sampleEnv sampleHeader sampleForged).toOption, ∃ p ∈ r,
      verifyInPolicy sampleEnv sampleHeader p.1 [sampleRule] = true ∧
        ∀ e ∈ p.2, e.verdict = .unchecked := by
    decide +kernel
  obtain ⟨r, hr, ⟨last, entries⟩, hp, hpolicy, hunchecked⟩ := hrun
  rw [Exec.mem_toOption, Option.mem_def.mp hp] at hr
  exact ⟨last, entries, hr, hpolicy, hunchecked⟩

end Security

end Dtn2
