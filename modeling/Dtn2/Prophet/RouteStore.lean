import Dtn2.Prophet.TableMaintenance

/-!
# The persistent routes

The persistent store holds the routes of the table, and the table keeps its quota, as long as no update
evicts its own node.
-/

namespace Dtn2

namespace Prophet

open Framework BinaryHeap

namespace Table

variable {P : Type} [LinearOrder P] {t : Table P}

/-- The names of a peer's nodes are those of routes, and each node finds room or is not the least. -/
def ImportRoomy (ribd : Dictionary) : List (UInt16 × P) → Table P → Prop
  | [], _ => True
  | (sid, p) :: rib, t =>
      if sid = Dictionary.invalidSid ∨ ribd.findId sid = [] then ImportRoomy ribd rib t
      else (minLength ≤ (ribd.findId sid).length ∧ 0 ∉ ribd.findId sid ∧
          t.Roomy (ribd.findId sid) p) ∧
        ∀ r, t.touch (ribd.findId sid) p = .ok r → ImportRoomy ribd rib r.1

/-- The condition of a step: names are C strings, those of a peer's nodes long enough; a new node finds
room or is not smaller than the node at the top of the heap; and a truncation leaves a node, unless there
was none. -/
def Stores (one : P) (t : Table P) : Event P → Prop
  | .updateNew destId p => minLength ≤ (cString destId).length → 0 ∉ destId ∧ t.Roomy destId p
  | .updateHeld n _ => ∃ e ∈ t.table, e.2 = n
  | .updateRoute destId p => minLength ≤ destId.length → 0 ∉ destId ∧ t.Roomy destId p
  | .updateTransitive destId peerId p =>
      minLength ≤ destId.length → minLength ≤ peerId.length → 0 ∉ destId ∧ t.Roomy destId p
  | .importRib peerId rib ribd => minLength ≤ peerId.length → ImportRoomy ribd rib t
  | .ageNodes _ => True
  | .truncate epsilon =>
      t.table = [] ∨ ¬one ≤ epsilon ∧ ∃ e ∈ t.table, epsilon ≤ (t.node e.2).pValue
  | .setMaxRoute _ => True

/-- What a step keeps: the quota, and the agreement of the table with the store. -/
structure Kept (t t' : Table P) (acts : List (Act P)) : Prop where
  consistent : t'.Consistent
  bounded : t'.Bounded
  honest : Honest acts
  agrees : ∀ stored, t.Agrees stored [] → t'.Agrees (acts.foldl store stored) []

theorem Updated.kept {destId : Bytes} {p : P} {t' : Table P} {acts : List (Act P)}
    (h : Updated t destId p t' acts) (hbounded : t.Bounded) (hroomy : t.Roomy destId p) :
    Kept t t' acts :=
  ⟨h.consistent, h.bounded, (h.agrees hbounded hroomy).1, (h.agrees hbounded hroomy).2⟩

theorem importLoop_kept (ribd : Dictionary) (rib : List (UInt16 × P)) :
    ∀ {t : Table P}, t.Consistent → t.Bounded → ImportRoomy ribd rib t →
      ∃ t' acts, importLoop ribd t rib = .ok (t', acts) ∧ Kept t t' acts := by
  induction rib with
  | nil => exact fun h hbounded _ => ⟨_, _, rfl, h, hbounded, .nil, fun _ hs => hs⟩
  | cons entry rib ih =>
      intro t h hbounded hroomy
      obtain ⟨sid, p⟩ := entry
      rw [importLoop]
      rw [ImportRoomy] at hroomy
      by_cases hskip : sid = Dictionary.invalidSid ∨ ribd.findId sid = []
      · rw [if_pos hskip] at hroomy ⊢
        exact ih h hbounded hroomy
      · rw [if_neg hskip] at hroomy ⊢
        obtain ⟨⟨hlong, hzero, hroom⟩, hrest⟩ := hroomy
        obtain ⟨t₁, acts₁, htouch, hupdated⟩ := touch_updated h hzero hlong p
        have hkept := hupdated.kept hbounded hroom
        obtain ⟨t₂, acts₂, hloop, hkept₂⟩ := ih hkept.consistent hkept.bounded (hrest _ htouch)
        rw [htouch, Except.bind, hloop]
        refine ⟨t₂, _, rfl, hkept₂.consistent, hkept₂.bounded, hkept.honest.append hkept₂.honest, ?_⟩
        intro stored hstored
        rw [List.foldl_append]
        exact hkept₂.agrees _ (hkept.agrees _ hstored)

theorem truncate_kept (one : P) (h : t.Consistent) (hbounded : t.Bounded) {epsilon : P}
    (hstores : Stores one t (.truncate epsilon)) :
    ∃ t' acts, t.truncate one epsilon = .ok (t', acts) ∧ Kept t t' acts := by
  cases hstores with
  | inl hempty =>
      have hsize : t.heap.size = 0 := by
        by_contra hne
        obtain ⟨⟨e, he, -⟩, -⟩ := (h.held _).1 ⟨0, by omega, rfl⟩
        rw [hempty] at he
        exact absurd he List.not_mem_nil
      rw [truncate]
      by_cases hone : one ≤ epsilon
      · rw [if_pos hone]
        obtain ⟨htable, hheap, hmax⟩ := clear_empty h
        refine ⟨_, _, rfl, (empty_consistent htable hheap).1, ?_, .nil, ?_⟩
        · intro _
          rw [htable]
          exact Nat.zero_le _
        · intro stored hstored
          rwa [Agrees, names, htable, ← hempty]
      · rw [if_neg hone, if_pos hsize, hempty, sweep]
        exact ⟨t, [], rfl, h, hbounded, .nil, fun _ hs => hs⟩
  | inr hsome =>
      obtain ⟨hone, e, he, hreach⟩ := hsome
      have hsize := heap_nonempty h he
      rw [truncate, if_neg hone, if_neg (by omega)]
      obtain ⟨t', acts, hloop, hdone⟩ := truncateLoop_truncated h (Nat.le_refl _) ⟨e, he, hreach⟩
      refine ⟨t', acts, hloop, hdone.consistent, ?_, hdone.honest, hdone.agrees⟩
      intro hmax
      rw [hdone.maxRoute] at hmax ⊢
      exact hdone.length.trans (hbounded hmax)

theorem step_kept (one : P) (h : t.Consistent) (hbounded : t.Bounded) {e : Event P}
    (hstores : Stores one t e) :
    ∃ t' acts, t.step one e = .ok (t', acts) ∧ Kept t t' acts := by
  have hnone : ∃ t' acts, (.ok (t, []) : Result P) = .ok (t', acts) ∧ Kept t t' acts :=
    ⟨t, [], rfl, h, hbounded, .nil, fun _ hs => hs⟩
  cases e with
  | updateNew destId p =>
      by_cases hlong : minLength ≤ (cString destId).length
      · obtain ⟨hzero, hroomy⟩ := hstores hlong
        rw [cString_eq_self hzero] at hlong
        obtain ⟨t', acts, hstep, hupdated⟩ := updateNew_updated h hzero hlong p
        exact ⟨t', acts, hstep, hupdated.kept hbounded hroomy⟩
      · have hself : (t.newNode destId p).node t.next = ⟨destId, p⟩ := Function.update_self ..
        rw [step, update, hself]
        dsimp only
        rw [if_pos (by omega)]
        exact ⟨_, _, rfl, h.newNode destId p, hbounded, .nil, fun _ hs => hs⟩
  | updateHeld n p =>
      obtain ⟨x, hx, rfl⟩ := hstores
      obtain ⟨t', acts, hstep, hupdated⟩ := updateHeld_updated h hx p
      exact ⟨t', acts, hstep, hupdated.kept hbounded fun hnew => absurd rfl (hnew x hx)⟩
  | updateRoute destId p =>
      rw [step, updateRoute]
      by_cases hshort : destId.length < minLength
      · rw [if_pos hshort]
        exact hnone
      · rw [if_neg hshort]
        obtain ⟨hzero, hroomy⟩ := hstores (by omega)
        obtain ⟨t', acts, hstep, hupdated⟩ := touch_updated h hzero (by omega) p
        exact ⟨t', acts, hstep, hupdated.kept hbounded hroomy⟩
  | updateTransitive destId peerId p =>
      rw [step, updateTransitive]
      by_cases hshort : destId.length < minLength ∨ peerId.length < minLength
      · rw [if_pos hshort]
        exact hnone
      · rw [if_neg hshort]
        obtain ⟨hzero, hroomy⟩ := hstores (by omega) (by omega)
        obtain ⟨t', acts, hstep, hupdated⟩ := touch_updated h hzero (by omega) p
        exact ⟨t', acts, hstep, hupdated.kept hbounded hroomy⟩
  | importRib peerId rib ribd =>
      rw [step, importRib]
      by_cases hshort : peerId.length < minLength
      · rw [if_pos hshort]
        exact hnone
      · rw [if_neg hshort]
        exact importLoop_kept ribd rib h hbounded (hstores (by omega))
  | ageNodes age =>
      have haged := ageLoop_aged age t.table h fun _ he => he
      refine ⟨_, _, rfl, haged.consistent, ?_, haged.honest, haged.agrees⟩
      have hmax := haged.maxRoute
      intro hpos
      show (ageLoop age t t.table).1.table.length ≤ (ageLoop age t t.table).1.maxRoute
      rw [haged.table, hmax]
      exact hbounded (hmax ▸ hpos)
  | truncate epsilon => exact truncate_kept one h hbounded hstores
  | setMaxRoute max =>
      have hset : ({ t with maxRoute := max } : Table P).Consistent :=
        ⟨h.keys, h.named, h.fresh, h.placed, h.held⟩
      obtain ⟨t', acts, hstep, hdone⟩ := enforceQuota_enforced hset
      refine ⟨t', acts, hstep, hdone.consistent, ?_, hdone.honest, ?_⟩
      · rw [Bounded, hdone.maxRoute]
        exact hdone.quota
      · exact fun stored hstored => hdone.agrees stored [] hstored

theorem reached_kept {one : P} {stored : List Bytes} (h : Reached one (Stores one) t stored) :
    t.Consistent ∧ t.Bounded ∧ t.Agrees stored [] := by
  induction h with
  | @start t htable hheap hmax =>
      refine ⟨(empty_consistent htable hheap).1, fun hpos => by omega, List.nodup_nil, ?_⟩
      rw [names, htable]
      exact fun k => ⟨fun hk => absurd hk List.not_mem_nil, fun hk => absurd hk.1 List.not_mem_nil⟩
  | step _ hmeets hstep ih =>
      obtain ⟨h, hbounded, hstored⟩ := ih
      obtain ⟨t', acts, hok, hkept⟩ := step_kept one h hbounded hmeets
      rw [hok] at hstep
      cases hstep
      exact ⟨hkept.consistent, hkept.bounded, hkept.agrees _ hstored⟩

/-- The quota holds, and the names in the persistent store are those in the table. -/
def InStep (t : Table P) (stored : List Bytes) : Prop :=
  t.Bounded ∧ ∀ k, k ∈ stored ↔ k ∈ t.names

/-- In a state that is reached by steps that meet the condition, table, quota and store agree. The next
such step inserts nothing through an iterator that was not set, reports only nodes that are in the table,
and leaves such a state. -/
theorem reached_inStep {one : P} {stored : List Bytes} (h : Reached one (Stores one) t stored) :
    t.InStep stored ∧ ∀ e, Stores one t e →
      ∃ t' acts, t.step one e = .ok (t', acts) ∧ t'.InStep (acts.foldl store stored) ∧
        Honest acts := by
  have hnames : ∀ {t : Table P} {stored : List Bytes}, t.Agrees stored [] →
      ∀ k, k ∈ stored ↔ k ∈ t.names :=
    fun hagrees k => (hagrees.2 k).trans (and_iff_left List.not_mem_nil)
  obtain ⟨hgood, hbounded, hstored⟩ := reached_kept h
  refine ⟨⟨hbounded, hnames hstored⟩, fun e hstores => ?_⟩
  obtain ⟨t', acts, hstep, hkept⟩ := step_kept one hgood hbounded hstores
  exact ⟨t', acts, hstep, ⟨hkept.bounded, hnames (hkept.agrees _ hstored)⟩, hkept.honest⟩

/-! ## Samples -/

namespace PersistentSample

def route (c : Char) : Bytes := ascii ['d', 't', 'n', ':', '/', '/', c]

def start : Table Nat := ⟨fun _ => ⟨[], 0⟩, 0, [], ⟨fun _ => 0, 0, fun _ => 0⟩, 0⟩

theorem reached_inStep_sample :
    ∃ t stored, Reached 100 (Stores 100) t stored ∧ t.InStep stored ∧
      ∀ e, Stores 100 t e →
        ∃ t' acts, t.step 100 e = .ok (t', acts) ∧ t'.InStep (acts.foldl store stored) ∧
          Honest acts := by
  have h₀ : Reached 100 (Stores 100) start [] := .start rfl rfl rfl
  have h₁ := h₀.step (e := .setMaxRoute 1) trivial rfl
  have h₂ := h₁.step (e := .updateRoute (route 'a') 75)
    (fun _ => ⟨by decide, fun _ _ hfull => absurd hfull (by decide)⟩) rfl
  exact ⟨_, _, h₂, reached_inStep h₂⟩

/-- The store holds a route that is not in the table. -/
def Resurrects (t : Table Nat) (acts : List (Act Nat)) : Prop :=
  ∃ k ∈ acts.foldl store [], k ∉ t.names

/-- There is room for one route. The second one is less predictable than the first, so it is evicted at
once, and then reported to the store. -/
theorem update_reports_evicted :
    ∃ t acts, run 100 start [.setMaxRoute 1, .updateRoute (route 'a') 75,
        .updateRoute (route 'b') 50] = .ok (t, acts) ∧ Resurrects t acts ∧ ¬Honest acts := by
  refine ⟨_, _, rfl, ⟨route 'b', by decide, by decide⟩, ?_⟩
  intro h
  obtain ⟨e, he, heq⟩ := h _ 1 (.inl (.tail _ (.tail _ (.tail _ (.head _)))))
  cases he with
  | head => exact absurd heq (by decide)
  | tail _ he => cases he

end PersistentSample

end Table

end Prophet

end Dtn2
