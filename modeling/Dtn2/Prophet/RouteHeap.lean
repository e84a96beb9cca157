import Dtn2.Prophet.TableMaintenance

/-!
# The truth of the route heap

The heap holds the nodes of the map, each at the place that it was told, and in order, as long as the
last node fits where a node is taken out of the heap.
-/

namespace Dtn2

namespace Prophet

open Framework BinaryHeap

namespace Table

variable {P : Type} [LinearOrder P] {t : Table P}

/-- What the heap says is true: it has the nodes of the map, each at its `heap_pos_`, and is in order. -/
def Truthful (t : Table P) : Prop :=
  (∀ n, t.heap.Mem n ↔ ∃ e ∈ t.table, e.2 = n) ∧
    (∀ n, t.heap.Mem n → t.heap.pos n < t.heap.size ∧ t.heap.seq (t.heap.pos n) = n) ∧ t.Heaped

/-- The nodes that remain are those that reach the epsilon. -/
def Exact (epsilon : P) (t t' : Table P) : Prop :=
  t'.table = t.table.filter fun e => decide (epsilon ≤ (t.node e.2).pValue)

/-- The names of a peer's nodes are those of routes, and each node may be taken out of the heap. -/
def ImportSettled (ribd : Dictionary) : List (UInt16 × P) → Table P → Prop
  | [], _ => True
  | (sid, p) :: rib, t =>
      if sid = Dictionary.invalidSid ∨ ribd.findId sid = [] then ImportSettled ribd rib t
      else (minLength ≤ (ribd.findId sid).length ∧ 0 ∉ ribd.findId sid ∧ t.Free (ribd.findId sid)) ∧
        ∀ r, t.touch (ribd.findId sid) p = .ok r → ImportSettled ribd rib r.1

/-- The condition of a step: names are C strings and long enough; where a node is taken out of the heap
the last one fits in its place; and a truncation leaves a node, or has all of them below its epsilon. -/
def Settles (one : P) (t : Table P) : Event P → Prop
  | .updateNew destId _ => minLength ≤ (cString destId).length → 0 ∉ destId ∧ t.Free destId
  | .updateHeld n _ => (∃ e ∈ t.table, e.2 = n) ∧ t.Settled n
  | .updateRoute destId _ => minLength ≤ destId.length → 0 ∉ destId ∧ t.Free destId
  | .updateTransitive destId peerId _ =>
      minLength ≤ destId.length → minLength ≤ peerId.length → 0 ∉ destId ∧ t.Free destId
  | .importRib peerId rib ribd => minLength ≤ peerId.length → ImportSettled ribd rib t
  | .ageNodes age => AgeSettled age t.table t
  | .truncate epsilon =>
      if one ≤ epsilon then ∀ e ∈ t.table, (t.node e.2).pValue < epsilon
      else t.table = [] ∨ ∃ e ∈ t.table, epsilon ≤ (t.node e.2).pValue
  | .setMaxRoute _ => True

theorem Linked.truthful (h : t.Consistent) (hheap : t.Heaped) : t.Truthful := by
  refine ⟨fun n => ?_, fun n hn => seq_pos h.placed hn, hheap⟩
  rw [h.held]
  exact and_iff_left List.not_mem_nil

theorem Updated.good {destId : Bytes} {p : P} {t' : Table P} {acts : List (Act P)}
    (h : Updated t destId p t' acts) (hheap : t.Heaped) (hfree : t.Free destId) :
    t'.Consistent ∧ t'.Heaped ∧ Fair acts :=
  ⟨h.consistent, h.heaped hheap hfree⟩

theorem importLoop_good (ribd : Dictionary) (rib : List (UInt16 × P)) :
    ∀ {t : Table P}, t.Consistent → t.Heaped → ImportSettled ribd rib t →
      ∃ t' acts, importLoop ribd t rib = .ok (t', acts) ∧ t'.Consistent ∧ t'.Heaped ∧ Fair acts := by
  induction rib with
  | nil => exact fun h hheap _ => ⟨_, _, rfl, h, hheap, .nil⟩
  | cons entry rib ih =>
      intro t h hheap hsettled
      obtain ⟨sid, p⟩ := entry
      rw [importLoop]
      rw [ImportSettled] at hsettled
      by_cases hskip : sid = Dictionary.invalidSid ∨ ribd.findId sid = []
      · rw [if_pos hskip] at hsettled ⊢
        exact ih h hheap hsettled
      · rw [if_neg hskip] at hsettled ⊢
        obtain ⟨⟨hlong, hzero, hfree⟩, hrest⟩ := hsettled
        obtain ⟨t₁, acts₁, htouch, hupdated⟩ := touch_updated h hzero hlong p
        obtain ⟨h₁, hheap₁, hfair₁⟩ := hupdated.good hheap hfree
        obtain ⟨t₂, acts₂, hloop, h₂, hheap₂, hfair₂⟩ := ih h₁ hheap₁ (hrest _ htouch)
        rw [htouch, Except.bind, hloop]
        exact ⟨t₂, _, rfl, h₂, hheap₂, hfair₁.append hfair₂⟩

theorem truncate_good (one : P) (h : t.Consistent) (hheap : t.Heaped) {epsilon : P}
    (hsettles : Settles one t (.truncate epsilon)) :
    ∃ t' acts, t.truncate one epsilon = .ok (t', acts) ∧ t'.Consistent ∧ t'.Heaped ∧ Fair acts ∧
      Exact epsilon t t' := by
  rw [Settles] at hsettles
  rw [truncate]
  by_cases hone : one ≤ epsilon
  · rw [if_pos hone] at hsettles ⊢
    obtain ⟨htable, hsize, -⟩ := clear_empty h
    obtain ⟨hclear, hheaped⟩ := empty_consistent htable hsize
    refine ⟨_, _, rfl, hclear, hheaped, .nil, ?_⟩
    rw [Exact, htable, eq_comm, List.filter_eq_nil_iff]
    intro e he
    simpa using hsettles e he
  · rw [if_neg hone] at hsettles ⊢
    cases hsettles with
    | inl hempty =>
        have hsize : t.heap.size = 0 := by
          by_contra hne
          obtain ⟨⟨e, he, -⟩, -⟩ := (h.held _).1 ⟨0, by omega, rfl⟩
          rw [hempty] at he
          exact absurd he List.not_mem_nil
        rw [if_pos hsize, hempty, sweep]
        refine ⟨t, [], rfl, h, hheap, .nil, ?_⟩
        rw [Exact, hempty]
        rfl
    | inr hsome =>
        obtain ⟨e, he, hreach⟩ := hsome
        have hsize := heap_nonempty h he
        rw [if_neg (by omega)]
        obtain ⟨t', acts, hloop, hdone⟩ := truncateLoop_truncated h (Nat.le_refl _)
          ⟨e, he, hreach⟩
        obtain ⟨hheap', hfair, hexact⟩ := hdone.heaped hheap
        exact ⟨t', acts, hloop, hdone.consistent, hheap', hfair, hexact⟩

theorem step_good (one : P) (h : t.Consistent) (hheap : t.Heaped) {e : Event P}
    (hsettles : Settles one t e) :
    ∃ t' acts, t.step one e = .ok (t', acts) ∧ t'.Consistent ∧ t'.Heaped ∧ Fair acts ∧
      ∀ epsilon, e = .truncate epsilon → Exact epsilon t t' := by
  have hnone : ∃ t' acts, (.ok (t, []) : Result P) = .ok (t', acts) ∧ t'.Consistent ∧ t'.Heaped ∧
      Fair acts := ⟨t, [], rfl, h, hheap, .nil⟩
  have hother : (∀ epsilon, e ≠ .truncate epsilon) →
      (∃ t' acts, t.step one e = .ok (t', acts) ∧ t'.Consistent ∧ t'.Heaped ∧ Fair acts) →
      ∃ t' acts, t.step one e = .ok (t', acts) ∧ t'.Consistent ∧ t'.Heaped ∧ Fair acts ∧
        ∀ epsilon, e = .truncate epsilon → Exact epsilon t t' := by
    rintro hne ⟨t', acts, hstep, h', hheap', hfair⟩
    exact ⟨t', acts, hstep, h', hheap', hfair, fun epsilon heq => absurd heq (hne epsilon)⟩
  cases e with
  | updateNew destId p =>
      refine hother (fun _ => by simp) ?_
      by_cases hlong : minLength ≤ (cString destId).length
      · obtain ⟨hzero, hfree⟩ := hsettles hlong
        rw [cString_eq_self hzero] at hlong
        obtain ⟨t', acts, hstep, hupdated⟩ := updateNew_updated h hzero hlong p
        exact ⟨t', acts, hstep, hupdated.good hheap hfree⟩
      · have hself : (t.newNode destId p).node t.next = ⟨destId, p⟩ := Function.update_self ..
        rw [step, update, hself]
        dsimp only
        rw [if_pos (by omega)]
        exact ⟨_, _, rfl, h.newNode destId p, newNode_heaped h hheap destId p, .nil⟩
  | updateHeld n p =>
      refine hother (fun _ => by simp) ?_
      obtain ⟨⟨x, hx, rfl⟩, hsettled⟩ := hsettles
      obtain ⟨t', acts, hstep, hupdated⟩ := updateHeld_updated h hx p
      refine ⟨t', acts, hstep, hupdated.good hheap ?_⟩
      intro y hy hkey
      rwa [KeyedList.eq_of_key_eq Prod.fst h.keys hy hx hkey]
  | updateRoute destId p =>
      refine hother (fun _ => by simp) ?_
      rw [step, updateRoute]
      by_cases hshort : destId.length < minLength
      · rw [if_pos hshort]
        exact hnone
      · rw [if_neg hshort]
        obtain ⟨hzero, hfree⟩ := hsettles (by omega)
        obtain ⟨t', acts, hstep, hupdated⟩ := touch_updated h hzero (by omega) p
        exact ⟨t', acts, hstep, hupdated.good hheap hfree⟩
  | updateTransitive destId peerId p =>
      refine hother (fun _ => by simp) ?_
      rw [step, updateTransitive]
      by_cases hshort : destId.length < minLength ∨ peerId.length < minLength
      · rw [if_pos hshort]
        exact hnone
      · rw [if_neg hshort]
        obtain ⟨hzero, hfree⟩ := hsettles (by omega) (by omega)
        obtain ⟨t', acts, hstep, hupdated⟩ := touch_updated h hzero (by omega) p
        exact ⟨t', acts, hstep, hupdated.good hheap hfree⟩
  | importRib peerId rib ribd =>
      refine hother (fun _ => by simp) ?_
      rw [step, importRib]
      by_cases hshort : peerId.length < minLength
      · rw [if_pos hshort]
        exact hnone
      · rw [if_neg hshort]
        exact importLoop_good ribd rib h hheap (hsettles (by omega))
  | ageNodes age =>
      refine hother (fun _ => by simp) ?_
      have haged := ageLoop_aged age t.table h fun _ he => he
      obtain ⟨hheap', hfair⟩ := haged.heaped hheap hsettles
      exact ⟨_, _, rfl, haged.consistent, hheap', hfair⟩
  | truncate epsilon =>
      obtain ⟨t', acts, hstep, h', hheap', hfair, hexact⟩ := truncate_good one h hheap hsettles
      refine ⟨t', acts, hstep, h', hheap', hfair, ?_⟩
      intro epsilon' heq
      cases heq
      exact hexact
  | setMaxRoute max =>
      refine hother (fun _ => by simp) ?_
      have hset : ({ t with maxRoute := max } : Table P).Consistent :=
        ⟨h.keys, h.named, h.fresh, h.placed, h.held⟩
      obtain ⟨t', acts, hstep, hdone⟩ := enforceQuota_enforced hset
      obtain ⟨hheap', hfair⟩ := hdone.heaped hheap
      exact ⟨t', acts, hstep, hdone.consistent, hheap', hfair⟩

theorem reached_good {one : P} {names : List Bytes} (h : Reached one (Settles one) t names) :
    t.Consistent ∧ t.Heaped := by
  induction h with
  | start htable hheap _ => exact empty_consistent htable hheap
  | step _ hmeets hstep ih =>
      obtain ⟨t', acts, hok, h', hheap', -⟩ := step_good one ih.1 ih.2 hmeets
      rw [hok] at hstep
      cases hstep
      exact ⟨h', hheap'⟩

/-- In a state that is reached by steps that meet the condition the heap tells the truth. The next such
step comes to an end in one as well; it evicts nodes of the least predictability, and a truncation leaves
exactly the nodes that reach its epsilon. -/
theorem reached_truthful {one : P} {names : List Bytes} (h : Reached one (Settles one) t names) :
    t.Truthful ∧ ∀ e, Settles one t e →
      ∃ t' acts, t.step one e = .ok (t', acts) ∧ t'.Truthful ∧ Fair acts ∧
        ∀ epsilon, e = .truncate epsilon → Exact epsilon t t' := by
  obtain ⟨hgood, hheap⟩ := reached_good h
  refine ⟨hgood.truthful hheap, fun e hsettles => ?_⟩
  obtain ⟨t', acts, hstep, h', hheap', hfair, hexact⟩ := step_good one hgood hheap hsettles
  exact ⟨t', acts, hstep, h'.truthful hheap', hfair, hexact⟩

/-! ## Samples -/

namespace Sample

def route (c : Char) : Bytes := ascii ['d', 't', 'n', ':', '/', '/', c]

def start : Table Nat := ⟨fun _ => ⟨[], 0⟩, 0, [], ⟨fun _ => 0, 0, fun _ => 0⟩, 0⟩

theorem reached_truthful_sample :
    ∃ t names, Reached 100 (Settles 100) t names ∧ t.Truthful ∧
      ∀ e, Settles 100 t e →
        ∃ t' acts, t.step 100 e = .ok (t', acts) ∧ t'.Truthful ∧ Fair acts ∧
          ∀ epsilon, e = .truncate epsilon → Exact epsilon t t' := by
  have h₀ : Reached 100 (Settles 100) start [] := .start rfl rfl rfl
  have h₁ := h₀.step (e := .updateRoute (route 'a') 75)
    (fun _ => ⟨by decide, fun e he => absurd he List.not_mem_nil⟩) rfl
  exact ⟨_, _, h₁, reached_truthful h₁⟩

def unfair : Act Nat → Bool
  | .evict s n => s.table.any fun e => decide ((s.node e.2).pValue < (s.node n).pValue)
  | _ => false

/-- Six routes; the one with the fourth place becomes more predictable, and the last one comes to its
place, where it does not belong. Then the quota evicts a route that is not the least predictable. -/
theorem update_breaks_heap :
    ∃ t acts, run 100 start [.updateRoute (route 'a') 1, .updateRoute (route 'b') 10,
        .updateRoute (route 'c') 2, .updateRoute (route 'd') 11, .updateRoute (route 'e') 12,
        .updateRoute (route 'f') 3, .updateRoute (route 'd') 20] = .ok (t, acts) ∧ ¬t.Heaped ∧
      ∃ t' acts', t.step 100 (.setMaxRoute 3) = .ok (t', acts') ∧ ¬Fair acts' := by
  have hrun : ∃ r ∈ (run 100 start [.updateRoute (route 'a') 1, .updateRoute (route 'b') 10,
        .updateRoute (route 'c') 2, .updateRoute (route 'd') 11, .updateRoute (route 'e') 12,
        .updateRoute (route 'f') 3, .updateRoute (route 'd') 20]).toOption,
      (3 < r.1.heap.size ∧ r.1.comp (r.1.heap.seq 1) (r.1.heap.seq 3) = true) ∧
        ∃ s ∈ (r.1.step 100 (.setMaxRoute 3)).toOption, ∃ a ∈ s.2, unfair a = true := by
    decide +kernel
  obtain ⟨⟨t, acts⟩, hr, ⟨hsize, hcomp⟩, ⟨t', acts'⟩, hs, a, ha, hunfair⟩ := hrun
  refine ⟨t, acts, eq_ok_of_mem hr, ?_, t', acts', eq_ok_of_mem hs, ?_⟩
  · exact fun h => h 3 (by decide) hsize (Nat.zero_le _) hcomp
  · intro h
    cases a with
    | evict s n =>
        obtain ⟨e, he, hless⟩ := List.any_eq_true.1 hunfair
        exact (h s n ha).2 e he (of_decide_eq_true hless)
    | updateNode s n => exact absurd hunfair (by simp [unfair])
    | deleteNode s n => exact absurd hunfair (by simp [unfair])

end Sample

end Table

end Prophet

end Dtn2
