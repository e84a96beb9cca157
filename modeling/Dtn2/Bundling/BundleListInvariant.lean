import Dtn2.Bundling.BundleList
import Dtn2.Framework.KeyedList

/-!
# Back-pointers and reference counts

Each operation changes a list, the mappings of a bundle and its reference count one after the other.
Between these changes the count is off by a number that the invariant keeps account of.
-/

namespace Dtn2

namespace BundleList

namespace World

open Framework

variable {L B : Type} [DecidableEq L] [DecidableEq B] {all : L} {w w' : World L B} {b : B} {l : L}

/-- The lists and mappings agree, and each list holds one reference to each of its bundles; `o` counts
what a bundle is still owed. -/
structure Wf (o : B → Int) (w : World L B) : Prop where
  mapped : ∀ b l p, (l, p) ∈ w.mappings b ↔ (p, b) ∈ w.nodes l
  once : ∀ b, ((w.mappings b).map Prod.fst).Nodup
  named : ∀ l, ((w.nodes l).map Prod.fst).Nodup
  old : ∀ l, ∀ n ∈ w.nodes l, n.1 < w.fresh
  counted : ∀ b, w.refcount b + o b = (w.mappings b).length + w.handles b

/-- A reference more, or less, is owed to a bundle. -/
def owe (o : B → Int) (b : B) (n : Int) : B → Int := Function.update o b (o b + n)

theorem owe_owe (o : B → Int) (b : B) (m n : Int) : owe (owe o b m) b n = owe o b (m + n) := by
  simp only [owe, Function.update_self, Function.update_idem, Int.add_assoc]

theorem owe_zero (o : B → Int) (b : B) : owe o b 0 = o := by
  simp only [owe, Int.add_zero, Function.update_eq_self]

omit [DecidableEq B] in
theorem Wf.queued {o : B → Int} (h : Wf o w) (l : L) (b : B) :
    w.isQueuedOn l b = true ↔ b ∈ w.bundles l := by
  simp only [isQueuedOn, bundles, decide_eq_true_eq, List.mem_map, Prod.exists]
  constructor
  · rintro ⟨l', p, hm, rfl⟩
    exact ⟨p, b, (h.mapped b l' p).mp hm, rfl⟩
  · rintro ⟨p, b', hn, rfl⟩
    exact ⟨l, p, (h.mapped b' l p).mpr hn, rfl⟩

omit [DecidableEq L] [DecidableEq B] in
theorem Wf.position_eq {o : B → Int} (h : Wf o w) {p p' : Nat} (hp : (l, p) ∈ w.mappings b)
    (hp' : (l, p') ∈ w.mappings b) : p = p' := by
  have heq := List.inj_on_of_nodup_map (h.once b) hp hp' rfl
  exact congrArg Prod.snd heq

omit [DecidableEq L] [DecidableEq B] in
theorem Wf.distinct {o : B → Int} (h : Wf o w) (l : L) : (w.bundles l).Nodup := by
  refine List.Nodup.map_on ?_ (List.Nodup.of_map _ (h.named l))
  rintro ⟨p, b⟩ hn ⟨p', b'⟩ hn' heq
  cases heq
  rw [h.position_eq ((h.mapped b l p).mpr hn) ((h.mapped b l p').mpr hn')]

theorem Wf.containsAssertion {o : B → Int} (h : Wf o w) (l : L) (b : B) :
    w.containsAssertion l b = true := by
  rw [World.containsAssertion, beq_iff_eq]
  rcases Bool.eq_false_or_eq_true (w.isQueuedOn l b) with hq | hq
  · rw [hq, decide_eq_true ((h.queued l b).mp hq)]
  · rw [hq, decide_eq_false]
    rw [← h.queued l b, hq]
    decide

/-! ## The steps of an operation -/

omit [DecidableEq L] in
theorem Wf.count {o : B → Int} (h : Wf o w) (b : B) (n : Int) : Wf (owe o b (-n)) (w.count b n) where
  mapped := h.mapped
  once := h.once
  named := h.named
  old := h.old
  counted c := by
    have hc := h.counted c
    by_cases hcb : c = b
    · subst hcb
      simp only [World.count, owe, Function.update_self]
      omega
    · simpa only [World.count, owe, Function.update_of_ne hcb] using hc

omit [DecidableEq L] in
theorem Wf.handle {o : B → Int} (h : Wf o w) (b : B) (n : Nat) :
    Wf (owe o b (n - w.handles b)) { w with handles := Function.update w.handles b n } where
  mapped := h.mapped
  once := h.once
  named := h.named
  old := h.old
  counted c := by
    have hc := h.counted c
    by_cases hcb : c = b
    · subst hcb
      simp only [owe, Function.update_self]
      omega
    · simpa only [owe, Function.update_of_ne hcb] using hc

omit [DecidableEq L] [DecidableEq B] in
theorem Wf.free {o : B → Int} (h : Wf o w) (freed : B → Bool) : Wf o { w with freed := freed } :=
  ⟨h.mapped, h.once, h.named, h.old, h.counted⟩

theorem Wf.link {o : B → Int} (h : Wf o w) (hq : w.isQueuedOn l b = false) {i : Nat}
    (hi : i ≤ (w.nodes l).length) : Wf (owe o b 1) (w.link l b i) := by
  have hperm := List.perm_insertIdx (w.fresh, b) (w.nodes l) hi
  have hnodes : ∀ n l', n ∈ (w.link l b i).nodes l' ↔ (l' = l ∧ n = (w.fresh, b)) ∨ n ∈ w.nodes l' := by
    intro n l'
    by_cases hl : l' = l
    · subst hl
      simp only [World.link, Function.update_self, hperm.mem_iff, List.mem_cons, true_and]
    · simp only [World.link, Function.update_of_ne hl, hl, false_and, false_or]
  have hmappings : ∀ m c, m ∈ (w.link l b i).mappings c ↔
      m ∈ w.mappings c ∨ (c = b ∧ m = (l, w.fresh)) := by
    intro m c
    by_cases hc : c = b
    · subst hc
      simp only [World.link, Function.update_self, List.mem_append, List.mem_singleton, true_and]
    · simp only [World.link, Function.update_of_ne hc, hc, false_and, or_false]
  refine ⟨?_, ?_, ?_, ?_, ?_⟩
  · intro c l' p
    rw [hnodes, hmappings, h.mapped]
    simp only [Prod.mk.injEq]
    tauto
  · intro c
    by_cases hc : c = b
    · subst hc
      simp only [World.link, Function.update_self, List.map_append, List.map_cons, List.map_nil]
      refine List.Nodup.append (h.once c) (List.nodup_singleton l) ?_
      rw [List.disjoint_singleton]
      simpa [isQueuedOn] using hq
    · simpa only [World.link, Function.update_of_ne hc] using h.once c
  · intro l'
    by_cases hl : l' = l
    · subst hl
      simp only [World.link, Function.update_self]
      rw [(hperm.map Prod.fst).nodup_iff, List.map_cons, List.nodup_cons]
      refine ⟨?_, h.named l'⟩
      intro hmem
      obtain ⟨n, hn, heq⟩ := List.mem_map.mp hmem
      exact absurd (h.old l' n hn) (by omega)
    · simpa only [World.link, Function.update_of_ne hl] using h.named l'
  · intro l' n hn
    rw [hnodes] at hn
    change n.1 < w.fresh + 1
    rcases hn with ⟨-, rfl⟩ | hn
    · exact Nat.lt_succ_self _
    · exact Nat.lt_succ_of_lt (h.old l' n hn)
  · intro c
    have hc := h.counted c
    by_cases hcb : c = b
    · subst hcb
      simp only [World.link, owe, Function.update_self, List.length_append, List.length_singleton]
      omega
    · simpa only [World.link, owe, Function.update_of_ne hcb] using hc

theorem Wf.delBundle_eq {o : B → Int} (h : Wf o w) {n : Nat × B} (hn : n ∈ w.nodes l) :
    w.delBundle l n = some ((w.unmap l n.2).unlinkNode l n.1) := by
  have hm : (l, n.1) ∈ w.mappings n.2 := (h.mapped n.2 l n.1).mpr hn
  obtain ⟨m, hfind⟩ : ∃ m, (w.mappings n.2).find? (fun m => decide (m.1 = l)) = some m := by
    rw [← Option.isSome_iff_exists, List.find?_isSome]
    exact ⟨(l, n.1), hm, decide_eq_true rfl⟩
  have hml : m.1 = l := by simpa using List.find?_some hfind
  have hmem : (l, m.2) ∈ w.mappings n.2 := by
    rw [← hml]
    exact List.mem_of_find?_eq_some hfind
  rw [delBundle, hfind]
  exact if_pos (h.position_eq hmem hm)

theorem Wf.unlink {o : B → Int} (h : Wf o w) {p : Nat} (hn : (p, b) ∈ w.nodes l) :
    Wf (owe o b (-1)) ((w.unmap l b).unlinkNode l p) := by
  have hm : (l, p) ∈ w.mappings b := (h.mapped b l p).mpr hn
  have hnodes : ((w.unmap l b).unlinkNode l p).nodes =
      Function.update w.nodes l ((w.nodes l).filter fun n => !decide (n.1 = p)) := by
    rw [← KeyedList.eraseP_eq_filter_of_nodup Prod.fst p _ (h.named l)]
    rfl
  have hmappings : ((w.unmap l b).unlinkNode l p).mappings =
      Function.update w.mappings b ((w.mappings b).filter fun m => !decide (m.1 = l)) := by
    rw [← KeyedList.eraseP_eq_filter_of_nodup Prod.fst l _ (h.once b)]
    rfl
  have hlength : ((w.mappings b).filter fun m => !decide (m.1 = l)).length + 1 =
      (w.mappings b).length := by
    rw [← KeyedList.eraseP_eq_filter_of_nodup Prod.fst l _ (h.once b),
      List.length_eraseP_of_mem hm (decide_eq_true rfl)]
    have hpos := List.length_pos_of_mem hm
    omega
  refine ⟨?_, ?_, ?_, ?_, ?_⟩
  · intro c l' q
    rw [hnodes, hmappings]
    have hcq := h.mapped c l' q
    by_cases hl : l' = l
    · subst hl
      by_cases hc : c = b
      · subst hc
        simp only [Function.update_self, List.mem_filter, decide_true, Bool.not_true,
          Bool.false_eq_true, and_false, false_iff, not_and, Bool.not_eq_true, Bool.not_eq_false',
          decide_eq_true_eq]
        intro hq
        exact h.position_eq (hcq.mpr hq) hm
      · simp only [Function.update_self, Function.update_of_ne hc, hcq, List.mem_filter,
          iff_self_and, Bool.not_eq_true', decide_eq_false_iff_not]
        rintro hq rfl
        exact hc (congrArg Prod.snd (List.inj_on_of_nodup_map (h.named l') hq hn rfl))
    · by_cases hc : c = b
      · subst hc
        simp only [Function.update_self, Function.update_of_ne hl, List.mem_filter, hl, decide_false,
          Bool.not_false, and_true, hcq]
      · simpa only [Function.update_of_ne hl, Function.update_of_ne hc] using hcq
  · intro c
    rw [hmappings]
    by_cases hc : c = b
    · subst hc
      rw [Function.update_self]
      exact (h.once c).sublist (List.filter_sublist.map Prod.fst)
    · rw [Function.update_of_ne hc]
      exact h.once c
  · intro l'
    rw [hnodes]
    by_cases hl : l' = l
    · subst hl
      rw [Function.update_self]
      exact (h.named l').sublist (List.filter_sublist.map Prod.fst)
    · rw [Function.update_of_ne hl]
      exact h.named l'
  · intro l' n hn'
    rw [hnodes] at hn'
    by_cases hl : l' = l
    · subst hl
      rw [Function.update_self] at hn'
      exact h.old l' n (List.mem_of_mem_filter hn')
    · rw [Function.update_of_ne hl] at hn'
      exact h.old l' n hn'
  · intro c
    have hc := h.counted c
    rw [hmappings]
    change w.refcount c + owe o b (-1) c = _ + (w.handles c : Int)
    by_cases hcb : c = b
    · subst hcb
      simp only [owe, Function.update_self]
      omega
    · simpa only [owe, Function.update_of_ne hcb] using hc

/-! ## References -/

theorem Wf.addRefTo {depth : Nat} {o : B → Int} (h : Wf o w)
    (hadd : addRefTo all depth w b = some w') : Wf (owe o b (-1)) w' := by
  induction depth generalizing w o with
  | zero => exact absurd hadd (by simp [World.addRefTo])
  | succ depth ih =>
      have hcount := h.count b 1
      rw [World.addRefTo] at hadd
      split at hadd
      · exact absurd hadd (by simp)
      split at hadd
      · rw [addBundle] at hadd
        split at hadd
        · exact Option.some.inj hadd ▸ hcount
        split at hadd
        · exact Option.some.inj hadd ▸ hcount
        · rename_i hq
          have hlink := hcount.link (Bool.eq_false_iff.mpr hq) (Nat.le_refl _)
          have hnext := ih hlink hadd
          rw [owe_owe, owe_owe] at hnext
          exact hnext
      · exact Option.some.inj hadd ▸ hcount

theorem Wf.addRef {o : B → Int} (h : Wf o w) (hadd : w.addRef all b = some w') :
    Wf (owe o b (-1)) w' :=
  Wf.addRefTo h hadd

omit [DecidableEq L] in
theorem delRef_cases (hdel : w.delRef b = some w') :
    (w' = w.count b (-1) ∧ w.refcount b ≠ 2) ∨
      (w' = { w.count b (-1) with freed := Function.update w.freed b true } ∧ w.refcount b = 2 ∧
        w.freed b = false) := by
  have hcount : (w.count b (-1)).refcount b = w.refcount b + -1 := Function.update_self _ _ _
  simp only [World.delRef, hcount] at hdel
  split at hdel
  · split at hdel
    · exact absurd hdel (by simp)
    · exact Or.inl ⟨(Option.some.inj hdel).symm, by omega⟩
  split at hdel
  · split at hdel
    · exact absurd hdel (by simp)
    · rename_i hfreed
      exact Or.inr ⟨(Option.some.inj hdel).symm, by omega, Bool.eq_false_iff.mpr hfreed⟩
  split at hdel
  · split at hdel
    · exact Or.inl ⟨(Option.some.inj hdel).symm, by omega⟩
    · exact absurd hdel (by simp)
  · exact Or.inl ⟨(Option.some.inj hdel).symm, by omega⟩

omit [DecidableEq L] in
theorem Wf.delRef {o : B → Int} (h : Wf o w) (hdel : w.delRef b = some w') : Wf (owe o b 1) w' := by
  have hcount : Wf (owe o b 1) (w.count b (-1)) := by
    simpa only [Int.neg_neg] using h.count b (-1)
  rcases delRef_cases hdel with ⟨rfl, -⟩ | ⟨rfl, -, -⟩
  · exact hcount
  · exact hcount.free _

theorem Wf.takeRef {o : B → Int} (h : Wf o w) (htake : w.takeRef all b = some w') : Wf o w' := by
  obtain ⟨v, hadd, rfl⟩ := Option.map_eq_some_iff.mp htake
  have hv := (h.addRef hadd).handle b (v.handles b + 1)
  rw [owe_owe, show (-1 + (((v.handles b + 1 : Nat) : Int) - v.handles b) : Int) = 0 by omega,
    owe_zero] at hv
  exact hv

omit [DecidableEq L] in
theorem Wf.dropRef {o : B → Int} (h : Wf o w) (hdrop : w.dropRef b = some w') : Wf o w' := by
  rw [World.dropRef] at hdrop
  split at hdrop
  · exact absurd hdrop (by simp)
  · have hv := (h.handle b (w.handles b - 1)).delRef hdrop
    rw [owe_owe, show ((((w.handles b - 1 : Nat) : Int) - w.handles b) + 1 : Int) = 0 by omega,
      owe_zero] at hv
    exact hv

/-! ## Operations -/

theorem Wf.addBundle {o : B → Int} (h : Wf o w) {i : Nat} (hi : i ≤ (w.nodes l).length)
    (hadd : w.addBundle (World.addRef all) l b i = some w') : Wf o w' := by
  rw [World.addBundle] at hadd
  split at hadd
  · exact Option.some.inj hadd ▸ h
  split at hadd
  · exact Option.some.inj hadd ▸ h
  · rename_i hq
    have hv := (h.link (Bool.eq_false_iff.mpr hq) hi).addRef hadd
    rw [owe_owe, show (1 + -1 : Int) = 0 from rfl, owe_zero] at hv
    exact hv

theorem Wf.eraseAt {o : B → Int} (h : Wf o w) {n : Nat × B} (hn : n ∈ w.nodes l)
    (herase : w.eraseAt l n = some w') : Wf o w' := by
  rw [World.eraseAt, h.delBundle_eq hn] at herase
  have hv := (h.unlink hn).delRef herase
  rw [owe_owe, show (-1 + 1 : Int) = 0 from rfl, owe_zero] at hv
  exact hv

theorem Wf.popAt {o : B → Int} (h : Wf o w) {n : Nat × B} (hn : n ∈ w.nodes l)
    (hpop : w.popAt all l n = some w') : Wf o w' := by
  rw [World.popAt, h.delBundle_eq hn] at hpop
  obtain ⟨v, htake, hdel⟩ := Option.bind_eq_some_iff.mp ((Option.bind_some _ _).symm.trans hpop)
  have hv := ((h.unlink hn).takeRef htake).delRef hdel
  rw [owe_owe, show (-1 + 1 : Int) = 0 from rfl, owe_zero] at hv
  exact hv

end World

end BundleList

end Dtn2
