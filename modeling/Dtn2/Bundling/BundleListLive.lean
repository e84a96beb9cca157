import Dtn2.Bundling.BundleListRuns

/-!
# Bundles that are referred to

Unless the list of all bundles gives up a bundle that is still in use, each bundle with a reference
is on it, and a bundle that is being freed is on no other list. Then no operation on another list
fails.
-/

namespace Dtn2

namespace BundleList

namespace World

variable {L B : Type} [DecidableEq L] [DecidableEq B] {all : L} {w w' : World L B} {b : B} {l : L}

structure Alive (all : L) (w : World L B) (b : B) : Prop where
  live : w.freed b = false → 0 < w.refcount b → w.isQueuedOn all b = true
  dead : w.freed b = true → ∀ l, l ≠ all → w.isQueuedOn l b = false

/-- All references are accounted for, and no bundle in use has been given up. -/
structure Steady (all : L) (w : World L B) : Prop where
  inv : Inv all w
  alive : ∀ b, Alive all w b

omit [DecidableEq B] in
theorem steady_empty (all : L) : Steady all (empty : World L B) where
  inv := inv_empty all
  alive b := ⟨fun _ h => absurd h (by simp [empty]), fun h => absurd h (by simp [empty])⟩

/-! ## What the operations keep -/

omit [DecidableEq B] in
theorem Alive.only (h : ∀ c, Alive all w c) (honly : Only b w w') (hb : Alive all w' b) :
    ∀ c, Alive all w' c := by
  intro c
  by_cases hc : c = b
  · exact hc ▸ hb
  · obtain ⟨hm, hr, hf⟩ := honly c hc
    constructor
    · simp only [isQueuedOn, hm, hr, hf]
      exact (h c).live
    · simp only [isQueuedOn, hm, hf]
      exact (h c).dead

theorem isQueuedOn_link (w : World L B) (l l' : L) (b : B) (i : Nat) :
    (w.link l b i).isQueuedOn l' b = (w.isQueuedOn l' b || decide (l' = l)) := by
  have hmappings : (w.link l b i).mappings b = w.mappings b ++ [(l, w.fresh)] :=
    Function.update_self _ _ _
  rw [isQueuedOn, isQueuedOn, ← Bool.decide_or, decide_eq_decide, hmappings]
  simp

theorem addRefTo_alive {depth : Nat} (hadd : addRefTo all depth w b = some w')
    (hlive : 0 < w.refcount b → w.isQueuedOn all b = true) :
    Alive all w' b ∧ w'.freed = w.freed ∧ w.freed b = false := by
  induction depth generalizing w with
  | zero => exact absurd hadd (by simp [addRefTo])
  | succ depth ih =>
      have hcount : (w.count b 1).refcount b = w.refcount b + 1 := Function.update_self _ _ _
      rw [addRefTo] at hadd
      split at hadd
      · exact absurd hadd (by simp)
      rename_i hfreed
      have hfalse : w.freed b = false := Bool.eq_false_iff.mpr hfreed
      split at hadd
      · rw [addBundle, if_neg (show ¬(w.count b 1).freed b = true from hfreed)] at hadd
        split at hadd
        · rename_i hq
          cases hadd
          exact ⟨⟨fun _ _ => hq, fun h => absurd h hfreed⟩, rfl, hfalse⟩
        · obtain ⟨halive, hf, -⟩ := ih hadd fun _ => by rw [isQueuedOn_link]; simp
          exact ⟨halive, hf, hfalse⟩
      · rename_i hone
        cases hadd
        refine ⟨⟨fun _ hpos => hlive ?_, fun h => absurd h hfreed⟩, rfl, hfalse⟩
        omega

omit [DecidableEq L] [DecidableEq B] in
theorem Wf.refcount_nonneg {o : B → Int} (h : Wf o w) (hb : o b ≤ 0) : 0 ≤ w.refcount b := by
  have hcounted := h.counted b
  omega

theorem delRef_alive {o : B → Int} (h : Wf o w) (howe : o b = -1) (hb : Alive all w b)
    (hdel : w.delRef b = some w') : Alive all w' b := by
  have hcount : (w.count b (-1)).refcount b = w.refcount b + -1 := Function.update_self _ _ _
  rcases delRef_cases hdel with ⟨rfl, -⟩ | ⟨rfl, htwo, hfreed⟩
  · refine ⟨fun hf hpos => hb.live hf ?_, hb.dead⟩
    omega
  · refine ⟨fun hf => absurd hf (by simp), fun _ l' hl => ?_⟩
    have hcounted := h.counted b
    have hall := hb.live hfreed (by omega)
    change decide (l' ∈ (w.mappings b).map Prod.fst) = false
    rw [isQueuedOn, decide_eq_true_eq] at hall
    have hlen := List.length_pos_of_mem hall
    rw [List.length_map] at hlen
    obtain ⟨m, hm⟩ := List.length_eq_one_iff.mp (show (w.mappings b).length = 1 by omega)
    rw [hm, List.map_singleton, List.mem_singleton] at hall
    rw [decide_eq_false_iff_not, hm, List.map_singleton, List.mem_singleton, ← hall]
    exact hl

theorem alive_unlink (hl : l ≠ all) (hb : Alive all w b) (p : Nat) :
    Alive all ((w.unmap l b).unlinkNode l p) b := by
  have hmappings : ((w.unmap l b).unlinkNode l p).mappings b =
      (w.mappings b).eraseP fun m => decide (m.1 = l) := Function.update_self _ _ _
  constructor
  · intro hf hpos
    have hall := hb.live hf hpos
    simp only [isQueuedOn, decide_eq_true_eq, List.mem_map] at hall ⊢
    obtain ⟨m, hm, hfst⟩ := hall
    refine ⟨m, ?_, hfst⟩
    rw [hmappings]
    exact (List.mem_eraseP_of_neg (by simp [hfst, Ne.symm hl])).mpr hm
  · intro hf l' hl'
    have hdead := hb.dead hf l' hl'
    simp only [isQueuedOn, decide_eq_false_iff_not, List.mem_map] at hdead ⊢
    rintro ⟨m, hm, hfst⟩
    rw [hmappings] at hm
    exact hdead ⟨m, List.mem_of_mem_eraseP hm, hfst⟩

theorem Steady.addBundle (h : Steady all w) {i : Nat} (hi : i ≤ (w.nodes l).length)
    (hadd : w.addBundle (addRef all) l b i = some w') : Steady all w' := by
  refine ⟨h.inv.addBundle hi hadd, ?_⟩
  rw [World.addBundle] at hadd
  split at hadd
  · exact Option.some.inj hadd ▸ h.alive
  rename_i hfreed
  split at hadd
  · exact Option.some.inj hadd ▸ h.alive
  · have hlive : 0 < (w.link l b i).refcount b → (w.link l b i).isQueuedOn all b = true := by
      intro hpos
      rw [isQueuedOn_link, (h.alive b).live (Bool.eq_false_iff.mpr hfreed) hpos, Bool.true_or]
    exact Alive.only h.alive ((only_link w l b i).trans (addRefTo_only hadd).1)
      (addRefTo_alive hadd hlive).1

theorem used_of_addRef (h : w.addRef all b = some w') : w.freed b = false := by
  cases hfreed : w.freed b with
  | false => rfl
  | true =>
      rw [addRef, addRefTo, if_pos hfreed] at h
      cases h

theorem Steady.takeRef (h : Steady all w) (htake : w.takeRef all b = some w') : Steady all w' := by
  refine ⟨h.inv.takeRef htake, ?_⟩
  obtain ⟨v, hadd, rfl⟩ := Option.map_eq_some_iff.mp htake
  have hlive : 0 < w.refcount b → w.isQueuedOn all b = true := by
    intro hpos
    exact (h.alive b).live (used_of_addRef hadd) hpos
  have halive := (addRefTo_alive hadd hlive).1
  exact Alive.only h.alive (addRefTo_only hadd).1 ⟨halive.live, halive.dead⟩

theorem Steady.dropRef (h : Steady all w) (hdrop : w.dropRef b = some w') : Steady all w' := by
  refine ⟨h.inv.dropRef hdrop, ?_⟩
  rw [World.dropRef] at hdrop
  split at hdrop
  · exact absurd hdrop (by simp)
  · rename_i hhandles
    have hwf := h.inv.wf.handle b (w.handles b - 1)
    have howe : owe (fun _ => 0) b (((w.handles b - 1 : Nat) : Int) - w.handles b) b = -1 := by
      rw [owe, Function.update_self]
      omega
    have hb : Alive all { w with handles := Function.update w.handles b (w.handles b - 1) } b :=
      ⟨(h.alive b).live, (h.alive b).dead⟩
    exact Alive.only h.alive (delRef_only all hdrop).1 (delRef_alive hwf howe hb hdrop)

theorem owe_unlink (b : B) : owe (fun _ => 0) b (-1) b = -1 := by
  rw [owe, Function.update_self]
  rfl

theorem Steady.eraseAt (h : Steady all w) (hl : l ≠ all) {n : Nat × B} (hn : n ∈ w.nodes l)
    (herase : w.eraseAt l n = some w') : Steady all w' := by
  refine ⟨h.inv.eraseAt hn herase, ?_⟩
  rw [World.eraseAt, h.inv.wf.delBundle_eq hn] at herase
  exact Alive.only h.alive ((only_unlink w l n.2 n.1).trans (delRef_only all herase).1)
    (delRef_alive (h.inv.wf.unlink hn) (owe_unlink n.2) (alive_unlink hl (h.alive n.2) n.1) herase)

theorem Steady.popAt (h : Steady all w) (hl : l ≠ all) {n : Nat × B} (hn : n ∈ w.nodes l)
    (hpop : w.popAt all l n = some w') : Steady all w' := by
  refine ⟨h.inv.popAt hn hpop, ?_⟩
  rw [World.popAt, h.inv.wf.delBundle_eq hn] at hpop
  obtain ⟨v, htake, hdel⟩ := Option.bind_eq_some_iff.mp ((Option.bind_some _ _).symm.trans hpop)
  have hwf := (h.inv.wf.unlink hn).takeRef htake
  have hunlinked := alive_unlink hl (h.alive n.2) n.1
  have honly := takeRef_only htake
  obtain ⟨u, hadd, rfl⟩ := Option.map_eq_some_iff.mp htake
  have hlive : 0 < ((w.unmap l n.2).unlinkNode l n.1).refcount n.2 →
      ((w.unmap l n.2).unlinkNode l n.1).isQueuedOn all n.2 = true := by
    intro hpos
    exact hunlinked.live (used_of_addRef hadd) hpos
  have halive := (addRefTo_alive hadd hlive).1
  exact Alive.only h.alive (((only_unlink w l n.2 n.1).trans honly.1).trans (delRef_only all hdel).1)
    (delRef_alive hwf (owe_unlink n.2) ⟨halive.live, halive.dead⟩ hdel)

theorem Steady.dropHeld (h : Steady all w) {held : Option B} (hdrop : w.dropHeld held = some w') :
    Steady all w' := by
  cases held with
  | none => exact Option.some.inj hdrop ▸ h
  | some b => exact h.dropRef hdrop

theorem Steady.moveLoop (hl : l ≠ all) {other : L} {rounds : Nat} {held : Option B}
    (h : Steady all w) (hmove : World.moveLoop all l other rounds held w = some w') :
    Steady all w' := by
  induction rounds generalizing w held with
  | zero => exact absurd hmove (by simp [World.moveLoop])
  | succ rounds ih =>
      rw [World.moveLoop] at hmove
      split at hmove
      · exact h.dropHeld hmove
      · rename_i n hhead
        obtain ⟨v, hpop, hmove⟩ := Option.bind_eq_some_iff.mp hmove
        obtain ⟨u, hdrop, hmove⟩ := Option.bind_eq_some_iff.mp hmove
        obtain ⟨t, hpush, hmove⟩ := Option.bind_eq_some_iff.mp hmove
        have hu := (h.popAt hl (List.mem_of_mem_head? hhead) hpop).dropHeld hdrop
        exact ih (hu.addBundle (Nat.le_refl _) hpush) hmove

/-! ## Nothing fails -/

omit [DecidableEq B] in
theorem Steady.queued (h : Steady all w) (l : L) (b : B) :
    w.isQueuedOn l b = true ↔ b ∈ w.bundles l := h.inv.wf.queued l b

omit [DecidableEq B] in
theorem Steady.listed (h : Steady all w) (hl : l ≠ all) (hb : b ∈ w.bundles l) :
    w.freed b = false ∧ 1 < w.refcount b := by
  have hq := (h.queued l b).mpr hb
  have hfreed : w.freed b = false := by
    by_contra hfreed
    rw [(h.alive b).dead (Bool.not_eq_false _ ▸ hfreed) l hl] at hq
    cases hq
  exact ⟨hfreed, h.inv.one_lt_refcount hl hb hfreed⟩

omit [DecidableEq B] in
theorem Steady.movable (h : Steady all w) (hl : l ≠ all) : w.Movable l :=
  fun _ hb => h.listed hl hb

theorem addRef_of_unfreed (all : L) (hfreed : w.freed b = false) (hnonneg : 0 ≤ w.refcount b) :
    ∃ w', w.addRef all b = some w' ∧ w'.freed = w.freed ∧ w'.handles = w.handles ∧
      ∀ l, l ≠ all → w'.nodes l = w.nodes l := by
  by_cases hpos : 0 < w.refcount b
  · exact ⟨_, addRef_of_pos hfreed hpos, rfl, rfl, fun _ _ => rfl⟩
  · have hcount : (w.count b 1).refcount b = 1 := by
      change Function.update w.refcount b (w.refcount b + 1) b = 1
      rw [Function.update_self]
      omega
    have hsame : ¬(w.count b 1).freed b = true := by
      change ¬w.freed b = true
      simp [hfreed]
    rw [addRef, addRefTo, if_neg (by simp [hfreed]), if_pos hcount, addBundle, if_neg hsame]
    by_cases hq : (w.count b 1).isQueuedOn all b = true
    · rw [if_pos hq]
      exact ⟨_, rfl, rfl, rfl, fun _ _ => rfl⟩
    · rw [if_neg hq]
      refine ⟨_, addRefTo_of_pos 0 hfreed ?_, rfl, rfl, fun l hl => Function.update_of_ne hl _ _⟩
      change 0 < (w.count b 1).refcount b
      omega

theorem Steady.addBundle_exists (h : Steady all w) (hl : l ≠ all) (hfreed : w.freed b = false)
    {i : Nat} (hi : i ≤ (w.nodes l).length) :
    ∃ w', w.addBundle (addRef all) l b i = some w' ∧ Steady all w' ∧ w'.handles = w.handles ∧
      w'.freed = w.freed ∧ (∀ l', l' ≠ l → l' ≠ all → w'.bundles l' = w.bundles l') ∧
      ∀ c, c ∈ w'.bundles l ↔ c ∈ w.bundles l ∨ c = b := by
  have hkeep : ∀ w', w.addBundle (addRef all) l b i = some w' → Steady all w' :=
    fun _ hadd => h.addBundle hi hadd
  rw [World.addBundle, if_neg (by simp [hfreed])] at hkeep ⊢
  by_cases hq : w.isQueuedOn l b = true
  · have hmem := (h.queued l b).mp hq
    rw [if_pos hq]
    refine ⟨w, rfl, h, rfl, rfl, fun _ _ _ => rfl, fun c => ⟨Or.inl, ?_⟩⟩
    rintro (hc | rfl)
    · exact hc
    · exact hmem
  · rw [if_neg hq] at hkeep ⊢
    have hnonneg : 0 ≤ (w.link l b i).refcount b := h.inv.wf.refcount_nonneg (Int.le_refl 0)
    obtain ⟨w', hadd, hf, hh, hnodes⟩ := addRef_of_unfreed all (w := w.link l b i) hfreed hnonneg
    refine ⟨w', hadd, hkeep w' hadd, hh, hf, fun l' hl' hall => ?_, fun c => ?_⟩
    · have hlink : (w.link l b i).nodes l' = w.nodes l' := Function.update_of_ne hl' _ _
      rw [bundles, bundles, hnodes l' hall, hlink]
    · have hlink : (w.link l b i).nodes l = (w.nodes l).insertIdx i (w.fresh, b) :=
        Function.update_self _ _ _
      have hperm := (List.perm_insertIdx (w.fresh, b) (w.nodes l) hi).map Prod.snd
      rw [bundles, hnodes l hl, hlink, hperm.mem_iff, List.map_cons, List.mem_cons]
      exact or_comm

theorem Steady.takeRef_exists (h : Steady all w) (hfreed : w.freed b = false) :
    ∃ w', w.takeRef all b = some w' ∧ Steady all w' ∧ w'.freed = w.freed ∧
      w'.handles b = w.handles b + 1 ∧ ∀ l, l ≠ all → w'.bundles l = w.bundles l := by
  obtain ⟨v, hadd, hf, hh, hnodes⟩ :=
    addRef_of_unfreed all hfreed (h.inv.wf.refcount_nonneg (Int.le_refl 0))
  have htake : w.takeRef all b =
      some { v with handles := Function.update v.handles b (v.handles b + 1) } := by
    rw [World.takeRef, hadd]
    rfl
  refine ⟨_, htake, h.takeRef htake, hf, ?_, fun l hl => ?_⟩
  · change Function.update v.handles b (v.handles b + 1) b = _
    rw [Function.update_self, hh]
  · exact congrArg (List.map Prod.snd) (hnodes l hl)

omit [DecidableEq L] in
theorem delRef_of_unfreed (hfreed : w.freed b = false) (hr : 1 < w.refcount b) :
    ∃ w', w.delRef b = some w' ∧ w'.nodes = w.nodes ∧ w'.mappings = w.mappings ∧
      w'.handles = w.handles := by
  have hcount : (w.count b (-1)).refcount b = w.refcount b + -1 := Function.update_self _ _ _
  have hsame : ¬(w.count b (-1)).freed b = true := by
    change ¬w.freed b = true
    simp [hfreed]
  by_cases htwo : w.refcount b = 2
  · rw [delRef, if_neg (by omega), if_pos (by omega), if_neg hsame]
    exact ⟨_, rfl, rfl, rfl, rfl⟩
  · rw [delRef, if_pos (by omega), if_neg hsame]
    exact ⟨_, rfl, rfl, rfl, rfl⟩

theorem Steady.erase_exists (h : Steady all w) (hl : l ≠ all) (hb : b ∈ w.bundles l) :
    ∃ w', w.erase l b = some w' ∧ Steady all w' ∧ w'.handles = w.handles ∧
      (∀ l', l' ≠ l → w'.bundles l' = w.bundles l') ∧
      ∀ c, c ∈ w'.bundles l ↔ c ∈ w.bundles l ∧ c ≠ b := by
  obtain ⟨n, hn, rfl⟩ := List.mem_map.mp hb
  obtain ⟨hfreed, hr⟩ := h.listed hl hb
  have hm : (l, n.1) ∈ w.mappings n.2 := (h.inv.wf.mapped n.2 l n.1).mpr hn
  obtain ⟨m, hfind⟩ : ∃ m, (w.mappings n.2).find? (fun m => decide (m.1 = l)) = some m := by
    rw [← Option.isSome_iff_exists, List.find?_isSome]
    exact ⟨(l, n.1), hm, decide_eq_true rfl⟩
  have hml : m.1 = l := by simpa using List.find?_some hfind
  have hposition : m.2 = n.1 := by
    refine h.inv.wf.position_eq ?_ hm
    rw [← hml]
    exact List.mem_of_find?_eq_some hfind
  have hnode : ((w.nodes l).find? fun x => decide (x.1 = m.2)).map Prod.snd = some n.2 := by
    obtain ⟨x, hx⟩ : ∃ x, (w.nodes l).find? (fun x => decide (x.1 = m.2)) = some x := by
      rw [← Option.isSome_iff_exists, List.find?_isSome]
      exact ⟨n, hn, decide_eq_true hposition.symm⟩
    have hx1 : x.1 = n.1 := by
      rw [← hposition]
      simpa using List.find?_some hx
    rw [hx, List.inj_on_of_nodup_map (h.inv.wf.named l) (List.mem_of_find?_eq_some hx) hn hx1]
    rfl
  obtain ⟨w', hdel, hnodes, hmappings, hhandles⟩ :=
    delRef_of_unfreed (w := (w.unmap l n.2).unlinkNode l n.1) (b := n.2) hfreed hr
  have hat : w.eraseAt l n = some w' := by
    rw [World.eraseAt, h.inv.wf.delBundle_eq hn]
    exact hdel
  have herase : w.erase l n.2 = some w' := by
    rw [World.erase, hfind]
    dsimp only
    rw [if_pos hnode, hposition]
    exact hat
  have hsteady := h.eraseAt hl hn hat
  refine ⟨w', herase, hsteady, hhandles, fun l' hl' => ?_, fun c => ?_⟩
  · rw [bundles, hnodes]
    exact congrArg (List.map Prod.snd) (Function.update_of_ne hl' _ _)
  · rw [← hsteady.queued l c, ← h.queued l c, isQueuedOn, isQueuedOn, hmappings]
    by_cases hc : c = n.2
    · subst hc
      have hgone : ((w.unmap l n.2).unlinkNode l n.1).mappings n.2 =
          (w.mappings n.2).filter fun m => !decide (m.1 = l) := by
        rw [← Framework.KeyedList.eraseP_eq_filter_of_nodup Prod.fst l _ (h.inv.wf.once n.2)]
        exact Function.update_self _ _ _
      rw [hgone]
      simp
    · have hsame : ((w.unmap l n.2).unlinkNode l n.1).mappings c = w.mappings c :=
        Function.update_of_ne hc _ _
      rw [hsame]
      simp [hc]

theorem Steady.moveContents_exists (h : Steady all w) (hl : l ≠ all) {other : L} (hother : other ≠ l) :
    ∃ w', w.moveContents all l other = some w' ∧ Steady all w' ∧ w'.bundles l = [] ∧
      (∀ l', l' ≠ l → l' ≠ other → w'.bundles l' = w.bundles l') ∧
      ∀ c, c ∈ w'.bundles other ↔ c ∈ w.bundles other ∨ c ∈ w.bundles l := by
  obtain ⟨w', hmove, hempty, hto, hframe⟩ :=
    moveLoop_moves hother h.inv rfl (h.movable hl) (show w.Held l none by simp [Held])
  refine ⟨w', hmove, h.moveLoop hl hmove, by rw [bundles, hempty]; rfl, fun l' hl' ho => ?_,
    fun c => ?_⟩
  · exact congrArg (List.map Prod.snd) (hframe l' hl' ho)
  · rw [hto, List.mem_append, List.mem_filter]
    change c ∈ w.bundles other ∨ c ∈ w.bundles l ∧ _ ↔ _
    by_cases hc : c ∈ w.bundles other
    · simp [hc]
    · simp [hc]

theorem Steady.popFront_exists (h : Steady all w) (hl : l ≠ all) {n : Nat × B} {ns : List (Nat × B)}
    (hnodes : w.nodes l = n :: ns) :
    ∃ w', w.popFront all l = some w' ∧ Steady all w' ∧ w'.freed n.2 = false ∧
      (∀ l', l' ≠ l → w'.bundles l' = w.bundles l') ∧
      ∀ c, c ∈ w'.bundles l ↔ c ∈ w.bundles l ∧ c ≠ n.2 := by
  have hn : n ∈ w.nodes l := hnodes ▸ List.mem_cons_self
  obtain ⟨hfreed, hr⟩ := h.listed hl (List.mem_map_of_mem hn)
  obtain ⟨w', hpop, hnodes', -, hf, -⟩ := popAt_head h.inv hnodes hfreed hr
  have hfront : w.popFront all l = some w' := by
    rw [popFront, hnodes]
    exact hpop
  refine ⟨w', hfront, h.popAt hl hn hpop, by rw [hf, hfreed], fun l' hl' => ?_, fun c => ?_⟩
  · rw [bundles, hnodes']
    exact congrArg (List.map Prod.snd) (Function.update_of_ne hl' _ _)
  · have hdistinct := h.inv.wf.distinct l
    rw [bundles, hnodes, List.map_cons, List.nodup_cons] at hdistinct
    rw [bundles, bundles, hnodes', Function.update_self, hnodes, List.map_cons, List.mem_cons]
    constructor
    · intro hc
      exact ⟨.inr hc, fun heq => hdistinct.1 (heq ▸ hc)⟩
    · rintro ⟨heq | hc, hne⟩
      · exact absurd heq hne
      · exact hc

end World

end BundleList

end Dtn2
