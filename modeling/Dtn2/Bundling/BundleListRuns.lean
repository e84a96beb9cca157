import Dtn2.Bundling.BundleListInvariant

/-!
# Runs of list operations

The operations of many lists in any order keep the lists, the mappings and the reference counts in
agreement. Contents move as a whole as long as the bundles are not about to be freed.
-/

namespace Dtn2

namespace BundleList

namespace World

variable {L B : Type} [DecidableEq L] [DecidableEq B] {all : L} {w w' : World L B} {b : B} {l : L}

/-! ## What an operation leaves alone -/

def Only (b : B) (w w' : World L B) : Prop :=
  ∀ c, c ≠ b → w'.mappings c = w.mappings c ∧ w'.refcount c = w.refcount c ∧ w'.freed c = w.freed c

/-- The last reference to a bundle that is not being freed is the one of the list of all bundles. -/
def Anchored (all : L) (w : World L B) (b : B) : Prop :=
  w.freed b = false → w.refcount b = 1 → w.isQueuedOn all b = true

omit [DecidableEq L] [DecidableEq B] in
theorem Only.trans {v : World L B} (h : Only b w v) (h' : Only b v w') : Only b w w' := by
  intro c hc
  obtain ⟨hm, hr, hf⟩ := h c hc
  obtain ⟨hm', hr', hf'⟩ := h' c hc
  exact ⟨hm'.trans hm, hr'.trans hr, hf'.trans hf⟩

omit [DecidableEq B] in
theorem Anchored.only (h : ∀ c, Anchored all w c) (honly : Only b w w') (hb : Anchored all w' b) :
    ∀ c, Anchored all w' c := by
  intro c
  by_cases hc : c = b
  · exact hc ▸ hb
  · obtain ⟨hm, hr, hf⟩ := honly c hc
    simp only [Anchored, isQueuedOn, hm, hr, hf]
    exact h c

omit [DecidableEq L] in
theorem only_count (w : World L B) (b : B) (n : Int) : Only b w (w.count b n) :=
  fun _ hc => ⟨rfl, Function.update_of_ne hc _ _, rfl⟩

theorem only_link (w : World L B) (l : L) (b : B) (i : Nat) : Only b w (w.link l b i) :=
  fun _ hc => ⟨Function.update_of_ne hc _ _, rfl, rfl⟩

theorem only_unlink (w : World L B) (l : L) (b : B) (p : Nat) :
    Only b w ((w.unmap l b).unlinkNode l p) :=
  fun _ hc => ⟨Function.update_of_ne hc _ _, rfl, rfl⟩

theorem addRefTo_only {depth : Nat} (hadd : addRefTo all depth w b = some w') :
    Only b w w' ∧ Anchored all w' b := by
  induction depth generalizing w with
  | zero => exact absurd hadd (by simp [addRefTo])
  | succ depth ih =>
      have hcount := only_count w b 1
      rw [addRefTo] at hadd
      split at hadd
      · exact absurd hadd (by simp)
      rename_i hfreed
      split at hadd
      · rw [addBundle, if_neg (show ¬(w.count b 1).freed b = true from hfreed)] at hadd
        split at hadd
        · rename_i hq
          cases hadd
          exact ⟨hcount, fun _ _ => hq⟩
        · obtain ⟨honly, hb⟩ := ih hadd
          exact ⟨(hcount.trans (only_link _ _ _ _)).trans honly, hb⟩
      · rename_i hone
        cases hadd
        exact ⟨hcount, fun _ hr => absurd hr hone⟩

theorem delRef_only (all : L) (hdel : w.delRef b = some w') : Only b w w' ∧ Anchored all w' b := by
  have hcount : (w.count b (-1)).refcount b = w.refcount b + -1 := Function.update_self _ _ _
  rcases delRef_cases hdel with ⟨rfl, hne⟩ | ⟨rfl, -, -⟩
  · refine ⟨only_count w b (-1), fun _ hr => absurd hr ?_⟩
    rw [hcount]
    omega
  · refine ⟨?_, fun hf => absurd hf (by simp)⟩
    intro c hc
    exact ⟨rfl, Function.update_of_ne hc _ _, Function.update_of_ne hc _ _⟩

theorem addBundle_anchored (h : ∀ c, Anchored all w c) {i : Nat}
    (hadd : w.addBundle (addRef all) l b i = some w') : ∀ c, Anchored all w' c := by
  rw [addBundle] at hadd
  split at hadd
  · exact Option.some.inj hadd ▸ h
  split at hadd
  · exact Option.some.inj hadd ▸ h
  · obtain ⟨honly, hb⟩ := addRefTo_only hadd
    exact Anchored.only h ((only_link w l b i).trans honly) hb

theorem takeRef_only (htake : w.takeRef all b = some w') : Only b w w' ∧ Anchored all w' b := by
  obtain ⟨v, hadd, rfl⟩ := Option.map_eq_some_iff.mp htake
  obtain ⟨honly, hb⟩ := addRefTo_only hadd
  exact ⟨honly, hb⟩

theorem dropRef_anchored (h : ∀ c, Anchored all w c) (hdrop : w.dropRef b = some w') :
    ∀ c, Anchored all w' c := by
  rw [dropRef] at hdrop
  split at hdrop
  · exact absurd hdrop (by simp)
  · obtain ⟨honly, hb⟩ := delRef_only all hdrop
    exact Anchored.only h honly hb

theorem eraseAt_anchored (h : ∀ c, Anchored all w c) {o : B → Int} (hwf : Wf o w) {n : Nat × B}
    (hn : n ∈ w.nodes l) (herase : w.eraseAt l n = some w') : ∀ c, Anchored all w' c := by
  rw [eraseAt, hwf.delBundle_eq hn] at herase
  obtain ⟨honly, hb⟩ := delRef_only all herase
  exact Anchored.only h ((only_unlink w l n.2 n.1).trans honly) hb

theorem popAt_anchored (h : ∀ c, Anchored all w c) {o : B → Int} (hwf : Wf o w) {n : Nat × B}
    (hn : n ∈ w.nodes l) (hpop : w.popAt all l n = some w') : ∀ c, Anchored all w' c := by
  rw [popAt, hwf.delBundle_eq hn] at hpop
  obtain ⟨v, htake, hdel⟩ := Option.bind_eq_some_iff.mp ((Option.bind_some _ _).symm.trans hpop)
  obtain ⟨honly, hb⟩ := delRef_only all hdel
  exact Anchored.only h (((only_unlink w l n.2 n.1).trans (takeRef_only htake).1).trans honly) hb

/-! ## The invariant of a run -/

/-- All references are accounted for. -/
structure Inv (all : L) (w : World L B) : Prop where
  wf : Wf (fun _ => 0) w
  anchored : ∀ b, Anchored all w b

omit [DecidableEq B] in
theorem inv_empty (all : L) : Inv all (empty : World L B) where
  wf := ⟨by simp [empty], by simp [empty], by simp [empty], by simp [empty], by simp [empty]⟩
  anchored b := by simp [Anchored, empty]

theorem Inv.addBundle (h : Inv all w) {i : Nat} (hi : i ≤ (w.nodes l).length)
    (hadd : w.addBundle (World.addRef all) l b i = some w') : Inv all w' :=
  ⟨h.wf.addBundle hi hadd, addBundle_anchored h.anchored hadd⟩

theorem Inv.takeRef (h : Inv all w) (htake : w.takeRef all b = some w') : Inv all w' :=
  ⟨h.wf.takeRef htake, Anchored.only h.anchored (takeRef_only htake).1 (takeRef_only htake).2⟩

theorem Inv.dropRef (h : Inv all w) (hdrop : w.dropRef b = some w') : Inv all w' :=
  ⟨h.wf.dropRef hdrop, dropRef_anchored h.anchored hdrop⟩

theorem Inv.eraseAt (h : Inv all w) {n : Nat × B} (hn : n ∈ w.nodes l)
    (herase : w.eraseAt l n = some w') : Inv all w' :=
  ⟨h.wf.eraseAt hn herase, eraseAt_anchored h.anchored h.wf hn herase⟩

theorem Inv.popAt (h : Inv all w) {n : Nat × B} (hn : n ∈ w.nodes l)
    (hpop : w.popAt all l n = some w') : Inv all w' :=
  ⟨h.wf.popAt hn hpop, popAt_anchored h.anchored h.wf hn hpop⟩

theorem Inv.erase (h : Inv all w) (herase : w.erase l b = some w') : Inv all w' := by
  rw [World.erase] at herase
  split at herase
  · exact Option.some.inj herase ▸ h
  · rename_i m hfind
    split at herase
    · have hml : m.1 = l := by simpa using List.find?_some hfind
      have hm : (l, m.2) ∈ w.mappings b := hml ▸ List.mem_of_find?_eq_some hfind
      have hn : (m.2, b) ∈ w.nodes l := (h.wf.mapped b l m.2).mp hm
      exact h.eraseAt hn herase
    · exact absurd herase (by simp)

theorem Inv.dropHeld (h : Inv all w) {held : Option B} (hdrop : w.dropHeld held = some w') :
    Inv all w' := by
  cases held with
  | none => exact Option.some.inj hdrop ▸ h
  | some b => exact h.dropRef hdrop

theorem Inv.moveLoop {other : L} {rounds : Nat} {held : Option B} (h : Inv all w)
    (hmove : World.moveLoop all l other rounds held w = some w') : Inv all w' := by
  induction rounds generalizing w held with
  | zero => exact absurd hmove (by simp [World.moveLoop])
  | succ rounds ih =>
      rw [World.moveLoop] at hmove
      split at hmove
      · exact h.dropHeld hmove
      · rename_i n hhead
        obtain ⟨v, hpop, hmove⟩ := Option.bind_eq_some_iff.mp hmove
        obtain ⟨u, hdrop, hmove⟩ := Option.bind_eq_some_iff.mp hmove
        obtain ⟨t, hpush, hmove⟩ := Option.bind_eq_some_iff.mp hmove
        have hu := (h.popAt (List.mem_of_mem_head? hhead) hpop).dropHeld hdrop
        exact ih (hu.addBundle (Nat.le_refl _) hpush) hmove

theorem Inv.clearLoop {rounds : Nat} (h : Inv all w)
    (hclear : World.clearLoop all l rounds w = some w') : Inv all w' := by
  induction rounds generalizing w with
  | zero => exact absurd hclear (by simp [World.clearLoop])
  | succ rounds ih =>
      rw [World.clearLoop] at hclear
      split at hclear
      · exact Option.some.inj hclear ▸ h
      · rename_i n hhead
        obtain ⟨v, hpop, hclear⟩ := Option.bind_eq_some_iff.mp hclear
        obtain ⟨u, hdrop, hclear⟩ := Option.bind_eq_some_iff.mp hclear
        exact ih ((h.popAt (List.mem_of_mem_head? hhead) hpop).dropRef hdrop) hclear

omit [DecidableEq L] [DecidableEq B] in
theorem sortedIndex_le {fragOffset : B → Nat} {order : SortOrder} {ns : List (Nat × B)} {i : Nat}
    (hindex : sortedIndex fragOffset order b ns = some i) : i ≤ ns.length := by
  induction ns generalizing i with
  | nil => exact Option.some.inj hindex ▸ Nat.le_refl 0
  | cons n ns ih =>
      cases order with
      | priority => exact absurd hindex (by simp [sortedIndex])
      | fragOffset =>
          rw [sortedIndex] at hindex
          split at hindex
          · exact Option.some.inj hindex ▸ Nat.zero_le _
          · obtain ⟨j, hj, rfl⟩ := Option.map_eq_some_iff.mp hindex
            exact Nat.succ_le_succ (ih hj)

/-! ## Runs -/

/-- The operations, with the taking and the dropping of references by other code. -/
inductive Op (L B : Type) where
  | pushFront (l : L) (b : B)
  | pushBack (l : L) (b : B)
  | insertSorted (order : SortOrder) (l : L) (b : B)
  | insertRandom (random : Nat) (l : L) (b : B)
  | popFront (l : L)
  | popBack (l : L)
  | erase (l : L) (b : B)
  | eraseAt (l : L) (i : Nat)
  | moveContents (l other : L)
  | clear (l : L)
  | takeRef (b : B)
  | dropRef (b : B)

/-- One operation. An iterator to erase is given by its index. -/
def apply (all : L) (fragOffset : B → Nat) (w : World L B) : Op L B → Option (World L B)
  | .pushFront l b => w.pushFront all l b
  | .pushBack l b => w.pushBack all l b
  | .insertSorted order l b => w.insertSorted all fragOffset order l b
  | .insertRandom random l b => w.insertRandom all random l b
  | .popFront l => w.popFront all l
  | .popBack l => w.popBack all l
  | .erase l b => w.erase l b
  | .eraseAt l i => (w.nodes l)[i]?.bind (w.eraseAt l)
  | .moveContents l other => w.moveContents all l other
  | .clear l => w.clear all l
  | .takeRef b => w.takeRef all b
  | .dropRef b => w.dropRef b

def run (all : L) (fragOffset : B → Nat) (ops : List (Op L B)) (w : World L B) :
    Option (World L B) :=
  ops.foldlM (apply all fragOffset) w

theorem Inv.apply {fragOffset : B → Nat} {op : Op L B} (h : Inv all w)
    (happly : World.apply all fragOffset w op = some w') : Inv all w' := by
  cases op with
  | pushFront l b => exact h.addBundle (Nat.zero_le _) happly
  | pushBack l b => exact h.addBundle (Nat.le_refl _) happly
  | insertSorted order l b =>
      obtain ⟨i, hi, hadd⟩ := Option.bind_eq_some_iff.mp happly
      exact h.addBundle (sortedIndex_le hi) hadd
  | insertRandom random l b =>
      refine h.addBundle ?_ happly
      split
      · exact Nat.zero_le _
      · exact Nat.le_of_lt (Nat.mod_lt _ (by omega))
  | popFront l =>
      rw [World.apply, popFront] at happly
      split at happly
      · exact Option.some.inj happly ▸ h
      · rename_i n hhead
        exact h.popAt (List.mem_of_mem_head? hhead) happly
  | popBack l =>
      rw [World.apply, popBack] at happly
      split at happly
      · exact Option.some.inj happly ▸ h
      · rename_i n hlast
        exact h.popAt (List.mem_of_mem_getLast? hlast) happly
  | erase l b => exact h.erase happly
  | eraseAt l i =>
      obtain ⟨n, hn, herase⟩ := Option.bind_eq_some_iff.mp happly
      exact h.eraseAt (List.mem_of_getElem? hn) herase
  | moveContents l other => exact h.moveLoop happly
  | clear l => exact h.clearLoop happly
  | takeRef b => exact h.takeRef happly
  | dropRef b => exact h.dropRef happly

theorem Inv.run {fragOffset : B → Nat} {ops : List (Op L B)} (h : Inv all w)
    (hrun : World.run all fragOffset ops w = some w') : Inv all w' := by
  induction ops generalizing w with
  | nil => exact Option.some.inj hrun ▸ h
  | cons op ops ih =>
      rw [World.run, List.foldlM_cons] at hrun
      obtain ⟨v, happly, hrest⟩ := Option.bind_eq_some_iff.mp hrun
      exact ih (h.apply happly) hrest

/-! ## Moving the contents of a list -/

theorem addRefTo_of_pos (depth : Nat) (hfreed : w.freed b = false) (hpos : 0 < w.refcount b) :
    addRefTo all (depth + 1) w b = some (w.count b 1) := by
  have hcount : (w.count b 1).refcount b = w.refcount b + 1 := Function.update_self _ _ _
  rw [addRefTo, if_neg (by simp [hfreed]), if_neg (by omega)]

theorem addRef_of_pos (hfreed : w.freed b = false) (hpos : 0 < w.refcount b) :
    w.addRef all b = some (w.count b 1) := addRefTo_of_pos 1 hfreed hpos

omit [DecidableEq L] in
theorem delRef_of_two_lt (hfreed : w.freed b = false) (hr : 2 < w.refcount b) :
    w.delRef b = some (w.count b (-1)) := by
  have hcount : (w.count b (-1)).refcount b = w.refcount b + -1 := Function.update_self _ _ _
  have hsame : ¬(w.count b (-1)).freed b = true := by
    change ¬w.freed b = true
    simp [hfreed]
  rw [delRef, if_pos (by omega), if_neg hsame]

theorem popAt_head (h : Inv all w) {n : Nat × B} {ns : List (Nat × B)} (hnodes : w.nodes l = n :: ns)
    (hfreed : w.freed n.2 = false) (hr : 1 < w.refcount n.2) :
    ∃ w', w.popAt all l n = some w' ∧ w'.nodes = Function.update w.nodes l ns ∧
      w'.refcount = w.refcount ∧ w'.freed = w.freed ∧
      w'.handles = Function.update w.handles n.2 (w.handles n.2 + 1) := by
  have hn : n ∈ w.nodes l := hnodes ▸ List.mem_cons_self
  have hadd : ((w.unmap l n.2).unlinkNode l n.1).addRef all n.2 =
      some (((w.unmap l n.2).unlinkNode l n.1).count n.2 1) :=
    addRef_of_pos hfreed (show 0 < w.refcount n.2 by omega)
  have herase : (w.nodes l).eraseP (fun m => decide (m.1 = n.1)) = ns := by
    rw [hnodes, List.eraseP_cons_of_pos (by simp)]
  rw [popAt, h.wf.delBundle_eq hn]
  simp only [Option.bind_eq_bind, Option.bind_some, takeRef, hadd, Option.map_some]
  refine ⟨_, delRef_of_two_lt hfreed ?_, ?_, ?_, rfl, rfl⟩
  · change 2 < Function.update w.refcount n.2 (w.refcount n.2 + 1) n.2
    rw [Function.update_self]
    omega
  · exact congrArg (Function.update w.nodes l) herase
  · change Function.update (Function.update w.refcount n.2 (w.refcount n.2 + 1)) n.2
      (Function.update w.refcount n.2 (w.refcount n.2 + 1) n.2 + -1) = w.refcount
    rw [Function.update_self, Function.update_idem, show w.refcount n.2 + 1 + -1 = w.refcount n.2 by omega,
      Function.update_eq_self]

omit [DecidableEq L] in
theorem dropRef_of_one_lt (hfreed : w.freed b = false) (hr : 1 < w.refcount b)
    (hhandles : 0 < w.handles b) :
    ∃ w', w.dropRef b = some w' ∧ w'.nodes = w.nodes ∧
      ∀ c, c ≠ b → w'.refcount c = w.refcount c ∧ w'.freed c = w.freed c ∧
        w'.handles c = w.handles c := by
  rw [dropRef, if_neg (by omega)]
  generalize hv : ({ w with handles := Function.update w.handles b (w.handles b - 1) } : World L B) = v
  have hvr : v.refcount = w.refcount := hv ▸ rfl
  have hvf : v.freed = w.freed := hv ▸ rfl
  have hcount : (v.count b (-1)).refcount b = w.refcount b + -1 := by
    rw [← hvr]
    exact Function.update_self _ _ _
  have hsame : ¬(v.count b (-1)).freed b = true := by
    change ¬v.freed b = true
    simp [hvf, hfreed]
  have hother : ∀ c, c ≠ b → v.handles c = w.handles c := by
    intro c hc
    subst hv
    exact Function.update_of_ne hc _ _
  have hrefs : ∀ c, c ≠ b → (v.count b (-1)).refcount c = w.refcount c := by
    intro c hc
    rw [← hvr]
    exact Function.update_of_ne hc _ _
  by_cases htwo : w.refcount b = 2
  · rw [delRef, if_neg (by omega), if_pos (by omega), if_neg hsame]
    refine ⟨_, rfl, hv ▸ rfl, fun c hc => ⟨hrefs c hc, ?_, hother c hc⟩⟩
    exact (Function.update_of_ne hc _ _).trans (congrFun hvf c)
  · rw [delRef, if_pos (by omega), if_neg hsame]
    exact ⟨_, rfl, hv ▸ rfl, fun c hc => ⟨hrefs c hc, congrFun hvf c, hother c hc⟩⟩

theorem pushBack_of_pos (h : Inv all w) (l : L) (hfreed : w.freed b = false)
    (hpos : 0 < w.refcount b) :
    ∃ w', w.pushBack all l b = some w' ∧ w'.freed = w.freed ∧ w'.handles = w.handles ∧
      (∀ l', l' ≠ l → w'.nodes l' = w.nodes l') ∧ (∀ c, w.refcount c ≤ w'.refcount c) ∧
      w'.bundles l = w.bundles l ++ [b].filter fun c => !decide (c ∈ w.bundles l) := by
  rw [pushBack, addBundle, if_neg (by simp [hfreed])]
  by_cases hq : w.isQueuedOn l b = true
  · have hmem := (h.wf.queued l b).mp hq
    rw [if_pos hq]
    exact ⟨w, rfl, rfl, rfl, fun _ _ => rfl, fun _ => Int.le_refl _, by simp [hmem]⟩
  · have hmem : b ∉ w.bundles l := fun hb => hq ((h.wf.queued l b).mpr hb)
    rw [if_neg hq]
    refine ⟨_, addRef_of_pos hfreed hpos, rfl, rfl, ?_, ?_, ?_⟩
    · intro l' hl
      exact Function.update_of_ne hl _ _
    · intro c
      change w.refcount c ≤ Function.update w.refcount b (w.refcount b + 1) c
      by_cases hc : c = b
      · subst hc
        rw [Function.update_self]
        omega
      · have hsame := Function.update_of_ne hc (w.refcount b + 1) w.refcount
        omega
    · change (Function.update w.nodes l _ l).map Prod.snd = _
      rw [Function.update_self, List.insertIdx_length_self, List.filter_cons_of_pos (by simp [hmem])]
      simp [bundles]

/-- The bundles that are moved are not being freed, and not only their list refers to them. -/
def Movable (w : World L B) (l : L) : Prop :=
  ∀ b ∈ w.bundles l, w.freed b = false ∧ 1 < w.refcount b

def Held (w : World L B) (l : L) (held : Option B) : Prop :=
  ∀ b ∈ held, b ∉ w.bundles l ∧ w.freed b = false ∧ 1 < w.refcount b ∧ 0 < w.handles b

omit [DecidableEq L] in
theorem dropHeld_of_held {held : Option B} (hheld : w.Held l held) :
    ∃ w', w.dropHeld held = some w' ∧ w'.nodes = w.nodes ∧
      ∀ c, some c ≠ held → w'.refcount c = w.refcount c ∧ w'.freed c = w.freed c ∧
        w'.handles c = w.handles c := by
  cases held with
  | none => exact ⟨w, rfl, rfl, fun _ _ => ⟨rfl, rfl, rfl⟩⟩
  | some b =>
      obtain ⟨-, hfreed, hr, hhandles⟩ := hheld b rfl
      obtain ⟨w', hdrop, hnodes, hother⟩ := dropRef_of_one_lt hfreed hr hhandles
      exact ⟨w', hdrop, hnodes, fun c hc => hother c fun hcb => hc (congrArg some hcb)⟩

theorem moveLoop_round {other : L} (hother : other ≠ l) (h : Inv all w) {n : Nat × B}
    {ns : List (Nat × B)} (hnodes : w.nodes l = n :: ns) (hmov : w.Movable l) {held : Option B}
    (hheld : w.Held l held) (rounds : Nat) :
    ∃ w', World.moveLoop all l other (rounds + 1) held w =
        World.moveLoop all l other rounds (some n.2) w' ∧ Inv all w' ∧ w'.nodes l = ns ∧
      w'.Movable l ∧ w'.Held l (some n.2) ∧ (∀ l', l' ≠ l → l' ≠ other → w'.nodes l' = w.nodes l') ∧
      w'.bundles other =
        w.bundles other ++ [n.2].filter fun c => !decide (c ∈ w.bundles other) := by
  have hbundles : w.bundles l = n.2 :: ns.map Prod.snd := by rw [bundles, hnodes, List.map_cons]
  have hn : n.2 ∈ w.bundles l := hbundles ▸ List.mem_cons_self
  have hgone : n.2 ∉ ns.map Prod.snd := by
    have hnd := h.wf.distinct l
    rw [hbundles, List.nodup_cons] at hnd
    exact hnd.1
  -- no bundle of the list is the held one
  have hother_held : ∀ c ∈ w.bundles l, some c ≠ held := by
    rintro c hc rfl
    exact (hheld c rfl).1 hc
  obtain ⟨v, hpop, hvnodes, hvr, hvf, hvh⟩ := popAt_head h hnodes (hmov n.2 hn).1 (hmov n.2 hn).2
  have hv := h.popAt (hnodes ▸ List.mem_cons_self) hpop
  have hvl : v.nodes l = ns := by rw [hvnodes, Function.update_self]
  have hvheld : v.Held l held := by
    intro b hb
    obtain ⟨hnot, hfreed, hr, hhandles⟩ := hheld b hb
    have hne : b ≠ n.2 := fun heq => hnot (heq ▸ hn)
    refine ⟨?_, hvf ▸ hfreed, hvr ▸ hr, ?_⟩
    · rw [bundles, hvl]
      intro hmem
      exact hnot (hbundles ▸ List.mem_cons_of_mem _ hmem)
    · rw [hvh, Function.update_of_ne hne]
      exact hhandles
  obtain ⟨u, hdrop, hunodes, husame⟩ := dropHeld_of_held hvheld
  have hu := hv.dropHeld hdrop
  have hukeep : ∀ c ∈ w.bundles l, u.refcount c = w.refcount c ∧ u.freed c = w.freed c ∧
      u.handles c = v.handles c := by
    intro c hc
    obtain ⟨hr, hf, hh⟩ := husame c (hother_held c hc)
    exact ⟨hr.trans (congrFun hvr c), hf.trans (congrFun hvf c), hh⟩
  have huo : u.nodes other = w.nodes other := by rw [hunodes, hvnodes, Function.update_of_ne hother]
  obtain ⟨hur, huf, huh⟩ := hukeep n.2 hn
  have hmovn := hmov n.2 hn
  obtain ⟨t, hpush, htf, hth, htnodes, htr, htother⟩ :=
    pushBack_of_pos hu other (huf.trans hmovn.1) (by omega)
  have htl : t.nodes l = ns := by rw [htnodes l (Ne.symm hother), hunodes, hvl]
  have hkeep : ∀ c ∈ w.bundles l, t.freed c = false ∧ 1 < t.refcount c := by
    intro c hc
    obtain ⟨hr, hf, -⟩ := hukeep c hc
    have hc' := hmov c hc
    have hle := htr c
    exact ⟨by rw [htf, hf, hc'.1], by omega⟩
  refine ⟨t, ?_, hu.addBundle (Nat.le_refl _) hpush, htl, ?_, ?_, ?_, ?_⟩
  · rw [World.moveLoop, hnodes]
    simp only [List.head?_cons, Option.bind_eq_bind, hpop, hdrop, hpush, Option.bind_some]
  · intro c hc
    rw [bundles, htl] at hc
    exact hkeep c (hbundles ▸ List.mem_cons_of_mem _ hc)
  · rintro c ⟨⟩
    refine ⟨?_, (hkeep _ hn).1, (hkeep _ hn).2, ?_⟩
    · rw [bundles, htl]
      exact hgone
    · rw [hth, huh, hvh, Function.update_self]
      omega
  · intro l' hl hl'
    rw [htnodes l' hl', hunodes, hvnodes, Function.update_of_ne hl]
  · have huob : u.bundles other = w.bundles other := congrArg (List.map Prod.snd) huo
    rw [htother, huob]

theorem moveLoop_moves {other : L} (hother : other ≠ l) {ns : List (Nat × B)} {held : Option B}
    (h : Inv all w) (hnodes : w.nodes l = ns) (hmov : w.Movable l) (hheld : w.Held l held) :
    ∃ w', World.moveLoop all l other (ns.length + 1) held w = some w' ∧ w'.nodes l = [] ∧
      w'.bundles other =
        w.bundles other ++ (ns.map Prod.snd).filter (fun c => !decide (c ∈ w.bundles other)) ∧
      ∀ l', l' ≠ l → l' ≠ other → w'.nodes l' = w.nodes l' := by
  induction ns generalizing w held with
  | nil =>
      obtain ⟨v, hdrop, hvnodes, -⟩ := dropHeld_of_held hheld
      refine ⟨v, ?_, by rw [hvnodes, hnodes], ?_, fun l' _ _ => by rw [hvnodes]⟩
      · rw [World.moveLoop, hnodes]
        exact hdrop
      · simp [bundles, hvnodes]
  | cons n ns ih =>
      have hdistinct := h.wf.distinct l
      rw [bundles, hnodes, List.map_cons, List.nodup_cons] at hdistinct
      obtain ⟨v, hround, hv, hvl, hvmov, hvheld, hvnodes, hvother⟩ :=
        moveLoop_round hother h hnodes hmov hheld (ns.length + 1)
      obtain ⟨w', hloop, hwl, hwother, hwnodes⟩ := ih hv hvl hvmov hvheld
      refine ⟨w', hround.trans hloop, hwl, ?_, fun l' hl hl' => (hwnodes l' hl hl').trans (hvnodes l' hl hl')⟩
      -- the bundle that has just been added does not occur again
      have hfilter : (ns.map Prod.snd).filter (fun c => !decide (c ∈ v.bundles other)) =
          (ns.map Prod.snd).filter (fun c => !decide (c ∈ w.bundles other)) := by
        refine List.filter_congr fun c hc => ?_
        have hne : c ≠ n.2 := fun heq => hdistinct.1 (heq ▸ hc)
        rw [hvother]
        congr 1
        refine decide_eq_decide.mpr ?_
        rw [List.mem_append, List.mem_filter, List.mem_singleton]
        tauto
      rw [hwother, hfilter, hvother, List.append_assoc, ← List.filter_append]
      rfl

omit [DecidableEq B] in
theorem Inv.one_lt_refcount (h : Inv all w) (hl : l ≠ all) (hb : b ∈ w.bundles l)
    (hfreed : w.freed b = false) : 1 < w.refcount b := by
  have hcounted := h.wf.counted b
  obtain ⟨n, hn, rfl⟩ := List.mem_map.mp hb
  have hm : (l, n.1) ∈ w.mappings n.2 := (h.wf.mapped n.2 l n.1).mpr hn
  have hpos := List.length_pos_of_mem hm
  by_contra hle
  have hone : w.refcount n.2 = 1 := by omega
  have hall := h.anchored n.2 hfreed hone
  rw [isQueuedOn, decide_eq_true_eq, List.mem_map] at hall
  obtain ⟨m, hmall, hfst⟩ := hall
  have hlength : (w.mappings n.2).length = 1 := by omega
  obtain ⟨x, hx⟩ := List.length_eq_one_iff.mp hlength
  rw [hx, List.mem_singleton] at hm hmall
  rw [hmall, ← hm] at hfst
  exact hl hfst

/-- In every state that the operations lead to, each bundle is at most once on each list, its mappings
are its lists with its positions on them, each of them has one reference to it, and `contains` finds no
disagreement. The contents of a list go to the end of another one, in order and without the bundles
that are already there, if the bundles are not being freed and, on the list of all bundles, something
else refers to them. -/
theorem run_consistent (all : L) (fragOffset : B → Nat) (ops : List (Op L B)) (w : World L B)
    (hrun : World.run all fragOffset ops World.empty = some w) :
    (∀ l, (w.bundles l).Nodup) ∧
    (∀ b l p, (l, p) ∈ w.mappings b ↔ (p, b) ∈ w.nodes l) ∧
    (∀ l, ((w.nodes l).map Prod.fst).Nodup) ∧
    (∀ b, ((w.mappings b).map Prod.fst).Nodup) ∧
    (∀ b, w.refcount b = (w.mappings b).length + w.handles b) ∧
    (∀ l b, w.containsAssertion l b = true) ∧
    ∀ l other, other ≠ l →
      (∀ b ∈ w.bundles l, w.freed b = false ∧ (l = all → 1 < w.refcount b)) →
      ∃ w', w.moveContents all l other = some w' ∧ w'.bundles l = [] ∧
        w'.bundles other =
          w.bundles other ++ (w.bundles l).filter (fun b => !decide (b ∈ w.bundles other)) ∧
        ∀ l', l' ≠ l → l' ≠ other → w'.nodes l' = w.nodes l' := by
  have h := (inv_empty all).run hrun
  refine ⟨h.wf.distinct, h.wf.mapped, h.wf.named, h.wf.once, ?_, h.wf.containsAssertion, ?_⟩
  · intro b
    have hb := h.wf.counted b
    omega
  · intro l other hother hbundles
    have hmov : w.Movable l := by
      intro b hb
      obtain ⟨hfreed, hall⟩ := hbundles b hb
      refine ⟨hfreed, ?_⟩
      by_cases hl : l = all
      · exact hall hl
      · exact h.one_lt_refcount hl hb hfreed
    have hheld : w.Held l none := by simp [Held]
    obtain ⟨w', hloop, hwl, hwother, hwnodes⟩ := moveLoop_moves hother h rfl hmov hheld
    exact ⟨w', hloop, by rw [bundles, hwl, List.map_nil], hwother, hwnodes⟩

/-- Two bundles on two lists. The second one is on both, and is not moved. -/
theorem run_consistent_two_lists :
    ∃ w : World (Fin 3) (Fin 2),
      World.run 0 (fun _ => 0) [.pushBack 1 0, .pushBack 1 1, .pushBack 2 1] World.empty = some w ∧
      ∃ w', w.moveContents 0 1 2 = some w' ∧ w'.bundles 1 = [] ∧ w'.bundles 2 = [1, 0] := by
  obtain ⟨w, hw⟩ : ∃ w : World (Fin 3) (Fin 2),
      World.run 0 (fun _ => 0) [.pushBack 1 0, .pushBack 1 1, .pushBack 2 1] World.empty = some w :=
    ⟨_, rfl⟩
  refine ⟨w, hw, ?_⟩
  obtain ⟨-, -, -, -, -, -, hmove⟩ := run_consistent 0 _ _ w hw
  cases hw
  obtain ⟨w', hloop, hl, hother, -⟩ := hmove 1 2 (by decide) (by decide +kernel)
  exact ⟨w', hloop, hl, hother.trans (by decide +kernel)⟩

/-- The list of all bundles gives a bundle up while another list has it. The bundle is then marked as
freed, and the move to a third list stops at the assertion of `add_ref`. -/
theorem moveContents_freed :
    ∃ w : World (Fin 3) (Fin 1),
      World.run 0 (fun _ => 0) [.pushBack 1 0, .erase 0 0] World.empty = some w ∧
      w.bundles 1 = [0] ∧ w.bundles 2 = [] ∧ (w.moveContents 0 1 2).isNone = true := by
  refine ⟨_, rfl, ?_⟩
  decide +kernel

end World

end BundleList

end Dtn2
