import Mathlib.Data.List.Nodup
import Dtn2.Bundling.SequenceID

/-!
# The bundles of a session

A session keeps the bundles that no other one of them makes obsolete. One pass over the list, in which
bundles are erased, decides about a bundle that arrives: it makes members obsolete up to the first one
that refuses it.
-/

namespace Dtn2

structure SequenceIds (B : Type) where
  sequenceId : B → SequenceID
  obsoletesId : B → SequenceID

/-- `Session`, as far as bundles are added to it: the list, in which no bundle is twice, and the sequence
id. `posted` collects the bundles for which a delete request was posted. -/
structure Session (B : Type) where
  bundles : List B
  nodup : bundles.Nodup
  sequenceId : SequenceID
  posted : List B

namespace Session

variable {B : Type} [DecidableEq B]

def new : Session B := ⟨[], List.nodup_nil, ⟨[]⟩, []⟩

/-! ## Adding a bundle -/

def erase (s : Session B) (b : B) : Session B :=
  { s with bundles := s.bundles.erase b, nodup := s.nodup.erase b }

/-- `post_at_head` of a delete request. -/
def postDelete (s : Session B) (b : B) : Session B := { s with posted := s.posted ++ [b] }

/-- `push_back`, which leaves out a bundle that was freed or is on the list. -/
def pushBack (s : Session B) (freed : Bool) (b : B) : Session B :=
  if h : freed = true ∨ b ∈ s.bundles then s
  else
    { s with
      bundles := s.bundles ++ [b]
      nodup := by
        rw [← List.concat_eq_append]
        exact s.nodup.concat fun hmem => h (Or.inr hmem) }

/-- The loop of `add_bundle_to_session`: whether the bundle may be added. -/
def checkLoop (ids : SequenceIds B) (b : B) : List B → Session B → Session B × Exec Bool
  | [], s => (s, .ok true)
  | old :: rest, s =>
      if (ids.sequenceId old).isEmpty then checkLoop ids b rest s
      else if (ids.obsoletesId b).covers (ids.sequenceId old) then
        if old ∈ s.bundles then checkLoop ids b rest ((s.erase old).postDelete old)
        else (s, .error (.fault .assertion))
      else if (ids.obsoletesId old).covers (ids.sequenceId b) then (s.postDelete b, .ok false)
      else if (ids.sequenceId b).same (ids.sequenceId old) then (s.postDelete b, .ok false)
      else checkLoop ids b rest s

/-- The end of `add_bundle_to_session`. -/
def finishAdd (ids : SequenceIds B) (freed : Bool) (b : B) (s : Session B) : Session B × Exec Bool :=
  match (s.pushBack freed b).sequenceId.update (ids.sequenceId b) with
  | .ok id => ({ s.pushBack freed b with sequenceId := id }, .ok true)
  | .error stop => (s.pushBack freed b, .error stop)

def addBundle (ids : SequenceIds B) (freed : Bool) (b : B) (s : Session B) : Session B × Exec Bool :=
  if (ids.sequenceId b).isEmpty then s.finishAdd ids freed b
  else
    match checkLoop ids b s.bundles s with
    | (s, .ok true) => s.finishAdd ids freed b
    | (s, r) => (s, r)

/-! ## What one pass does -/

section

variable (ids : SequenceIds B) (b : B)

def obsoletes (old : B) : Bool :=
  !(ids.sequenceId old).isEmpty && (ids.obsoletesId b).covers (ids.sequenceId old)

/-- A member that stays makes the bundle obsolete, or is equal to it. -/
def refusedBy (old : B) : Bool :=
  !(ids.sequenceId old).isEmpty && !(ids.obsoletesId b).covers (ids.sequenceId old) &&
    ((ids.obsoletesId old).covers (ids.sequenceId b) || (ids.sequenceId b).same (ids.sequenceId old))

/-- The members that are erased: those in front of the first one that refuses the bundle. -/
def erased (rest : List B) : List B :=
  (rest.takeWhile fun old => !refusedBy ids b old).filter (obsoletes ids b)

omit [DecidableEq B] in
theorem not_refusedBy_of_obsoletes {old : B} (h : obsoletes ids b old = true) :
    refusedBy ids b old = false := by
  rw [obsoletes, Bool.and_eq_true] at h
  rw [refusedBy, h.1, h.2]
  rfl

/-- The outcome of a pass over a part of the list. -/
structure Passed (rest : List B) (s : Session B) (r : Session B × Exec Bool) : Prop where
  bundles : r.1.bundles = s.bundles.diff (erased ids b rest)
  sequenceId : r.1.sequenceId = s.sequenceId
  posted : r.1.posted = s.posted ++ erased ids b rest ++
    if rest.any (refusedBy ids b) then [b] else []
  verdict : r.2 = .ok (!rest.any (refusedBy ids b))

omit [DecidableEq B] in
theorem erased_cons_of_refusedBy {old : B} {rest : List B} (h : refusedBy ids b old = true) :
    erased ids b (old :: rest) = [] := by
  rw [erased, List.takeWhile_cons_of_neg (by simp [h])]
  rfl

omit [DecidableEq B] in
theorem erased_cons {old : B} {rest : List B} (h : refusedBy ids b old = false) :
    erased ids b (old :: rest) =
      if obsoletes ids b old then old :: erased ids b rest else erased ids b rest := by
  rw [erased, List.takeWhile_cons_of_pos (by simp [h]), List.filter_cons]
  rfl

theorem Passed.refused {old : B} {rest : List B} {s : Session B} (h : refusedBy ids b old = true) :
    Passed ids b (old :: rest) s (s.postDelete b, .ok false) where
  bundles := by rw [erased_cons_of_refusedBy ids b h]; rfl
  sequenceId := rfl
  posted := by
    rw [erased_cons_of_refusedBy ids b h, List.append_nil, List.any_cons, h]
    rfl
  verdict := by rw [List.any_cons, h]; rfl

theorem Passed.kept {old : B} {rest : List B} {s : Session B} {r : Session B × Exec Bool}
    (hrefused : refusedBy ids b old = false) (hobsoletes : obsoletes ids b old = false)
    (h : Passed ids b rest s r) : Passed ids b (old :: rest) s r where
  bundles := by rw [h.bundles, erased_cons ids b hrefused, hobsoletes]; rfl
  sequenceId := h.sequenceId
  posted := by
    rw [h.posted, erased_cons ids b hrefused, hobsoletes, List.any_cons, hrefused, Bool.false_or]
    rfl
  verdict := by rw [h.verdict, List.any_cons, hrefused, Bool.false_or]

theorem Passed.dropped {old : B} {rest : List B} {s : Session B} {r : Session B × Exec Bool}
    (hobsoletes : obsoletes ids b old = true)
    (h : Passed ids b rest ((s.erase old).postDelete old) r) : Passed ids b (old :: rest) s r where
  bundles := by
    rw [h.bundles, erased_cons ids b (not_refusedBy_of_obsoletes ids b hobsoletes), if_pos hobsoletes,
      List.diff_cons]
    rfl
  sequenceId := h.sequenceId
  posted := by
    rw [h.posted, erased_cons ids b (not_refusedBy_of_obsoletes ids b hobsoletes), if_pos hobsoletes,
      List.any_cons, not_refusedBy_of_obsoletes ids b hobsoletes, Bool.false_or]
    simp [postDelete, erase]
  verdict := by
    rw [h.verdict, List.any_cons, not_refusedBy_of_obsoletes ids b hobsoletes, Bool.false_or]

theorem checkLoop_passed {rest : List B} {s : Session B} (hnodup : rest.Nodup)
    (hmem : ∀ old ∈ rest, old ∈ s.bundles) : Passed ids b rest s (checkLoop ids b rest s) := by
  induction rest generalizing s with
  | nil => exact ⟨rfl, rfl, by simp [checkLoop, erased], rfl⟩
  | cons old rest ih =>
      rw [List.nodup_cons] at hnodup
      rw [List.forall_mem_cons] at hmem
      rw [checkLoop]
      by_cases hempty : (ids.sequenceId old).isEmpty = true
      · rw [if_pos hempty]
        exact .kept ids b (by simp [refusedBy, hempty]) (by simp [obsoletes, hempty])
          (ih hnodup.2 hmem.2)
      · rw [if_neg hempty]
        by_cases hobsoletes : (ids.obsoletesId b).covers (ids.sequenceId old) = true
        · rw [if_pos hobsoletes, if_pos hmem.1]
          refine .dropped ids b (by simp [obsoletes, hempty, hobsoletes]) (ih hnodup.2 ?_)
          intro other hother
          have hne : other ≠ old := fun heq => hnodup.1 (heq ▸ hother)
          exact (List.mem_erase_of_ne hne).mpr (hmem.2 other hother)
        · rw [if_neg hobsoletes]
          by_cases hcovers : (ids.obsoletesId old).covers (ids.sequenceId b) = true
          · rw [if_pos hcovers]
            exact .refused ids b (by simp [refusedBy, hempty, hobsoletes, hcovers])
          · rw [if_neg hcovers]
            by_cases hsame : (ids.sequenceId b).same (ids.sequenceId old) = true
            · rw [if_pos hsame]
              exact .refused ids b (by simp [refusedBy, hempty, hobsoletes, hsame])
            · rw [if_neg hsame]
              exact .kept ids b (by simp [refusedBy, hobsoletes, hcovers, hsame])
                (by simp [obsoletes, hobsoletes]) (ih hnodup.2 hmem.2)

/-! ## What a call does -/

theorem pushBack_subset (s : Session B) (freed : Bool) (x : B)
    (h : x ∈ (s.pushBack freed b).bundles) : x ∈ s.bundles ∨ x = b := by
  rw [pushBack] at h
  split at h
  next => exact Or.inl h
  next =>
    rcases List.mem_append.mp h with hold | hnew
    · exact Or.inl hold
    · exact Or.inr (List.mem_singleton.mp hnew)

theorem subset_pushBack (s : Session B) (freed : Bool) {x : B} (h : x ∈ s.bundles) :
    x ∈ (s.pushBack freed b).bundles := by
  rw [pushBack]
  split
  next => exact h
  next => exact List.mem_append_left _ h

theorem pushBack_posted (s : Session B) (freed : Bool) :
    (s.pushBack freed b).posted = s.posted := by
  rw [pushBack]
  split <;> rfl

theorem finishAdd_bundles (s : Session B) (freed : Bool) :
    (s.finishAdd ids freed b).1.bundles = (s.pushBack freed b).bundles := by
  rw [finishAdd]
  split <;> rfl

theorem finishAdd_posted (s : Session B) (freed : Bool) :
    (s.finishAdd ids freed b).1.posted = s.posted := by
  rw [finishAdd]
  split <;> exact pushBack_posted b s freed

theorem finishAdd_ne_false (s : Session B) (freed : Bool) : (s.finishAdd ids freed b).2 ≠ .ok false := by
  rw [finishAdd]
  split <;> exact nofun

/-- The bundle has a sequence id, and a member refuses it. -/
def Refused (s : Session B) : Prop :=
  (ids.sequenceId b).isEmpty = false ∧ s.bundles.any (refusedBy ids b) = true

theorem addBundle_refused {s : Session B} (freed : Bool) (h : s.Refused ids b) :
    (s.addBundle ids freed b).1.bundles = s.bundles.diff (erased ids b s.bundles) ∧
      (s.addBundle ids freed b).1.sequenceId = s.sequenceId ∧
      (s.addBundle ids freed b).1.posted = s.posted ++ erased ids b s.bundles ++ [b] ∧
      (s.addBundle ids freed b).2 = .ok false := by
  have hpassed := checkLoop_passed ids b s.nodup fun _ hold => hold
  have hverdict := hpassed.verdict
  have hposted := hpassed.posted
  rw [h.2] at hverdict hposted
  rw [addBundle, if_neg (by rw [h.1]; exact Bool.false_ne_true)]
  cases hloop : checkLoop ids b s.bundles s with
  | mk s' r =>
      rw [hloop] at hpassed hverdict hposted
      have hr : r = .ok false := hverdict
      rw [hr]
      exact ⟨hpassed.bundles, hpassed.sequenceId, hposted, rfl⟩

theorem addBundle_admitted {s : Session B} (freed : Bool) (h : ¬s.Refused ids b) :
    ∃ kept : Session B, (∀ x, x ∈ kept.bundles ↔ x ∈ s.bundles ∧
        ((ids.sequenceId b).isEmpty = false → obsoletes ids b x = false)) ∧
      (∃ gone, kept.posted = s.posted ++ gone ∧ ∀ x ∈ s.bundles, x ∉ kept.bundles → x ∈ gone) ∧
      s.addBundle ids freed b = kept.finishAdd ids freed b := by
  rw [addBundle]
  by_cases hempty : (ids.sequenceId b).isEmpty = true
  · refine ⟨s, ?_, ⟨[], (List.append_nil _).symm, fun x hx hnot => absurd hx hnot⟩, by rw [if_pos hempty]⟩
    intro x
    rw [hempty]
    simp
  · have hne : (ids.sequenceId b).isEmpty = false := Bool.eq_false_iff.mpr hempty
    have hnone : s.bundles.any (refusedBy ids b) = false :=
      Bool.eq_false_iff.mpr fun hany => h ⟨hne, hany⟩
    have hpassed := checkLoop_passed ids b s.nodup fun _ hold => hold
    have hall : s.bundles.takeWhile (fun old => !refusedBy ids b old) = s.bundles := by
      rw [List.takeWhile_eq_self_iff]
      intro old hold
      rw [List.any_eq_false] at hnone
      simpa using hnone old hold
    have herased : erased ids b s.bundles = s.bundles.filter (obsoletes ids b) := by
      rw [erased, hall]
    rw [if_neg hempty]
    cases hloop : checkLoop ids b s.bundles s with
    | mk kept r =>
        rw [hloop] at hpassed
        have hr : r = .ok true := by
          have hverdict := hpassed.verdict
          rw [hnone] at hverdict
          exact hverdict
        have hposted : kept.posted = s.posted ++ s.bundles.filter (obsoletes ids b) := by
          have hposted := hpassed.posted
          rw [hnone, herased] at hposted
          simpa using hposted
        have hkept : ∀ x, x ∈ kept.bundles ↔ x ∈ s.bundles ∧ obsoletes ids b x = false := by
          intro x
          rw [hpassed.bundles, herased, s.nodup.mem_sdiff_iff, List.mem_filter]
          constructor
          · intro ⟨hx, hnot⟩
            exact ⟨hx, Bool.eq_false_iff.mpr fun hobs => hnot ⟨hx, hobs⟩⟩
          · intro ⟨hx, hobs⟩
            exact ⟨hx, fun hmem => Bool.false_ne_true (hobs.symm.trans hmem.2)⟩
        refine ⟨kept, fun x => ?_, ⟨_, hposted, fun x hx hnot => ?_⟩, by rw [hr]⟩
        · rw [hkept, forall_prop_of_true hne]
        · rw [List.mem_filter]
          rw [hkept] at hnot
          exact ⟨hx, by simpa [hx] using hnot⟩

end

/-! ## Lists without obsolete bundles -/

/-- No bundle makes another one obsolete, and no two have the same sequence id. -/
def Clean (ids : SequenceIds B) (s : Session B) : Prop :=
  ∀ x ∈ s.bundles, ∀ y ∈ s.bundles, x ≠ y → (ids.sequenceId x).isEmpty = false →
    (ids.sequenceId y).isEmpty = false → (ids.obsoletesId x).covers (ids.sequenceId y) = false ∧
      (ids.sequenceId x).same (ids.sequenceId y) = false

/-- A delete request was posted for the bundle if it was refused, and for every member that is no longer
on the list. -/
def Reported (s : Session B) (b : B) (r : Session B × Exec Bool) : Prop :=
  ∃ requests, r.1.posted = s.posted ++ requests ∧ (r.2 = .ok false → b ∈ requests) ∧
    ∀ x ∈ s.bundles, x ∉ r.1.bundles → x ∈ requests

/-- Every list in a sequence of arrivals, each perhaps of a freed bundle, is clean, and every call has
reported what it took away. A sequence ends where an update of the sequence id does not succeed. -/
def RunClean (ids : SequenceIds B) : List (B × Bool) → Session B → Prop
  | [], s => Clean ids s
  | a :: arrivals, s => Clean ids s ∧ s.Reported a.1 (s.addBundle ids a.2 a.1) ∧
      match s.addBundle ids a.2 a.1 with
      | (s', .ok _) => RunClean ids arrivals s'
      | (s', .error _) => Clean ids s'

variable {ids : SequenceIds B} {s : Session B} {b : B}

omit [DecidableEq B] in
theorem Clean.subset {s' : Session B} (h : Clean ids s) (hsub : ∀ x ∈ s'.bundles, x ∈ s.bundles) :
    Clean ids s' :=
  fun x hx y hy => h x (hsub x hx) y (hsub y hy)

theorem Clean.addBundle (h : Clean ids s) (freed : Bool) : Clean ids (s.addBundle ids freed b).1 := by
  by_cases hrefused : s.Refused ids b
  · refine h.subset fun x hx => ?_
    rw [(addBundle_refused ids b freed hrefused).1] at hx
    exact List.diff_subset _ _ hx
  · obtain ⟨kept, hkept, -, heq⟩ := addBundle_admitted ids b freed hrefused
    rw [heq]
    -- the newcomer against a member that stays, on either side
    have hnew : ∀ x ∈ kept.bundles, (ids.sequenceId b).isEmpty = false →
        (ids.sequenceId x).isEmpty = false → (ids.obsoletesId b).covers (ids.sequenceId x) = false ∧
          (ids.obsoletesId x).covers (ids.sequenceId b) = false ∧
          (ids.sequenceId b).same (ids.sequenceId x) = false := by
      intro x hx hb hne
      obtain ⟨hmem, hobsoletes⟩ := (hkept x).mp hx
      have hcovers : (ids.obsoletesId b).covers (ids.sequenceId x) = false := by
        have hobs := hobsoletes hb
        rw [obsoletes, hne] at hobs
        exact hobs
      have hnot : refusedBy ids b x = false :=
        Bool.eq_false_iff.mpr fun hyes => hrefused ⟨hb, List.any_eq_true.mpr ⟨x, hmem, hyes⟩⟩
      rw [refusedBy, hne, hcovers] at hnot
      exact ⟨hcovers, Bool.or_eq_false_iff.mp hnot⟩
    intro x hx y hy hxy hxne hyne
    rw [finishAdd_bundles] at hx hy
    rcases pushBack_subset b kept freed x hx with hxold | rfl
    · rcases pushBack_subset b kept freed y hy with hyold | rfl
      · exact h x ((hkept x).mp hxold).1 y ((hkept y).mp hyold).1 hxy hxne hyne
      · have hpair := hnew x hxold hyne hxne
        rw [SequenceID.same_comm]
        exact hpair.2
    · rcases pushBack_subset x kept freed y hy with hyold | rfl
      · have hpair := hnew y hyold hxne hyne
        exact ⟨hpair.1, hpair.2.2⟩
      · exact absurd rfl hxy

theorem addBundle_reported (ids : SequenceIds B) (s : Session B) (freed : Bool) (b : B) :
    s.Reported b (s.addBundle ids freed b) := by
  by_cases hrefused : s.Refused ids b
  · obtain ⟨hbundles, -, hposted, -⟩ := addBundle_refused ids b freed hrefused
    refine ⟨erased ids b s.bundles ++ [b], ?_, fun _ => by simp, fun x hx hnot => ?_⟩
    · rw [hposted, List.append_assoc]
    · rw [hbundles, s.nodup.mem_sdiff_iff, not_and, not_not] at hnot
      exact List.mem_append_left _ (hnot hx)
  · obtain ⟨kept, -, ⟨gone, hposted, hgone⟩, heq⟩ := addBundle_admitted ids b freed hrefused
    refine ⟨gone, ?_, fun hfalse => ?_, fun x hx hnot => hgone x hx fun hmem => hnot ?_⟩
    · rw [heq, finishAdd_posted, hposted]
    · rw [heq] at hfalse
      exact absurd hfalse (finishAdd_ne_false ids b kept freed)
    · rw [heq, finishAdd_bundles]
      exact subset_pushBack b kept freed hmem

theorem run_clean_of_clean (arrivals : List (B × Bool)) (h : Clean ids s) :
    RunClean ids arrivals s := by
  induction arrivals generalizing s with
  | nil => exact h
  | cons a arrivals ih =>
      have hclean := h.addBundle (b := a.1) a.2
      refine ⟨h, s.addBundle_reported ids a.2 a.1, ?_⟩
      split
      next s' _ heq =>
        rw [heq] at hclean
        exact ih hclean
      next s' _ heq =>
        rw [heq] at hclean
        exact hclean

/-- In every sequence of arrivals at a new session the list stays clean, and the bundles that are dropped
or refused are reported. -/
theorem run_clean (ids : SequenceIds B) (arrivals : List (B × Bool)) : RunClean ids arrivals new := by
  refine run_clean_of_clean arrivals ?_
  intro x hx
  cases hx

/-! ## Refusals -/

/-- If the bundle is refused, nothing else has happened. -/
def RefusedOnly (s : Session B) (b : B) (r : Session B × Exec Bool) : Prop :=
  r.2 = .ok false → r.1.bundles = s.bundles ∧ r.1.sequenceId = s.sequenceId ∧
    ∃ requests, r.1.posted = s.posted ++ requests ∧ ∀ x ∈ requests, x = b

/-- No member that the bundle makes obsolete stands in front of the first one that refuses it. -/
def RefusedFirst (ids : SequenceIds B) (s : Session B) (b : B) : Prop :=
  (ids.sequenceId b).isEmpty = false → ∀ before old after, s.bundles = before ++ old :: after →
    refusedBy ids b old = true → (∀ x ∈ before, refusedBy ids b x = false) →
      ∀ x ∈ before, obsoletes ids b x = false

omit [DecidableEq B] in
theorem erased_split {before after : List B} {old : B} (hold : refusedBy ids b old = true)
    (hbefore : ∀ x ∈ before, refusedBy ids b x = false) :
    erased ids b (before ++ old :: after) = before.filter (obsoletes ids b) := by
  rw [erased, List.takeWhile_append_of_pos fun x hx => by rw [hbefore x hx]; rfl,
    List.takeWhile_cons_of_neg (by simp [hold]), List.append_nil]

omit [DecidableEq B] in
theorem exists_first {s : Session B} (h : s.bundles.any (refusedBy ids b) = true) :
    ∃ before old after, s.bundles = before ++ old :: after ∧ refusedBy ids b old = true ∧
      ∀ x ∈ before, refusedBy ids b x = false := by
  obtain ⟨old, hfind⟩ := Option.isSome_iff_exists.mp
    (List.find?_isSome.mpr (List.any_eq_true.mp h))
  obtain ⟨hold, before, after, heq, hbefore⟩ := List.find?_eq_some_iff_append.mp hfind
  exact ⟨before, old, after, heq, hold, fun x hx => by simpa using hbefore x hx⟩

/-- A refused bundle has changed nothing exactly if the pass had not erased a member before it came to
the one that refuses the bundle. -/
theorem addBundle_refusedOnly_iff (ids : SequenceIds B) (s : Session B) (freed : Bool) (b : B) :
    s.RefusedOnly b (s.addBundle ids freed b) ↔ s.RefusedFirst ids b := by
  by_cases hrefused : s.Refused ids b
  · obtain ⟨before, old, after, hsplit, hold, hbefore⟩ := exists_first hrefused.2
    have herased : erased ids b s.bundles = before.filter (obsoletes ids b) := by
      rw [hsplit]
      exact erased_split hold hbefore
    obtain ⟨hbundles, hid, hposted, hfalse⟩ := addBundle_refused ids b freed hrefused
    constructor
    · intro honly _ before' old' after' hsplit' hold' hbefore' x hx
      have herased' : erased ids b s.bundles = before'.filter (obsoletes ids b) := by
        rw [hsplit']
        exact erased_split hold' hbefore'
      have hsame := (honly hfalse).1
      rw [hbundles, herased'] at hsame
      rw [Bool.eq_false_iff]
      intro hobs
      have hmem : x ∈ s.bundles.diff (before'.filter (obsoletes ids b)) := by
        rw [hsame, hsplit']
        exact List.mem_append_left _ hx
      rw [s.nodup.mem_sdiff_iff] at hmem
      exact hmem.2 (List.mem_filter.mpr ⟨hx, hobs⟩)
    · intro hfirst _
      have hnone : before.filter (obsoletes ids b) = [] := by
        rw [List.filter_eq_nil_iff]
        intro x hx
        rw [hfirst hrefused.1 before old after hsplit hold hbefore x hx]
        exact Bool.false_ne_true
      rw [hbundles, hid, hposted, herased, hnone, List.append_nil]
      exact ⟨rfl, rfl, [b], rfl, fun x hx => List.mem_singleton.mp hx⟩
  · obtain ⟨kept, -, -, heq⟩ := addBundle_admitted ids b freed hrefused
    constructor
    · intro _ hne before old after hsplit hold
      have hany : s.bundles.any (refusedBy ids b) = true :=
        List.any_eq_true.mpr ⟨old, by rw [hsplit]; simp, hold⟩
      exact absurd ⟨hne, hany⟩ hrefused
    · intro _ hfalse
      rw [heq] at hfalse
      exact absurd hfalse (finishAdd_ne_false ids b kept freed)

/-! ## A refusal that drops a member -/

def bundleIds : SequenceIds Bundle := ⟨fun b => ⟨b.sequenceId⟩, fun b => ⟨b.obsoletesId⟩⟩

/-- A bundle with a counter of the node with the given name, and perhaps what it makes obsolete. -/
def sampleBundle (id : Nat) (name : Char) (obsoletesId : List SequenceEntry) : Bundle :=
  { Bundle.new id 1 with
    sequenceId := [.counter ⟨ascii ['d', 't', 'n', ':', name], true⟩ 1]
    obsoletesId := obsoletesId }

/-- A bundle that makes the third one obsolete has arrived behind one that this makes obsolete. -/
def sampleSession : Session Bundle :=
  ((new.addBundle bundleIds false (sampleBundle 0 'a' [])).1.addBundle bundleIds false
    (sampleBundle 1 'b' [.counter ⟨ascii ['d', 't', 'n', ':', 'c'], true⟩ 5])).1

def sampleArrival : Bundle := sampleBundle 2 'c' [.counter ⟨ascii ['d', 't', 'n', ':', 'a'], true⟩ 1]

theorem sample_not_refusedOnly :
    ¬sampleSession.RefusedOnly sampleArrival
      (sampleSession.addBundle bundleIds false sampleArrival) := by
  intro h
  have hfalse : (sampleSession.addBundle bundleIds false sampleArrival).2 = .ok false := by
    decide +kernel
  have hsame := (h hfalse).1
  exact absurd hsame (by decide +kernel)

end Session

end Dtn2
