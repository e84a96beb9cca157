import Dtn2.Framework.BinaryHeap

/-!
# The heap of routes

`Heap` tells every element that it moves the new place of it. The comparator says that an element has
to go below another one; what it says of an element may have changed since the last operation.
-/

namespace Dtn2

namespace Prophet

open Framework BinaryHeap

variable {α : Type} [DecidableEq α]

/-- `Heap`: the sequence, its size, and the place that each element was told last. Places from the size
on hold nothing that counts. -/
structure NodeHeap (α : Type) where
  seq : Nat → α
  size : Nat
  pos : α → Nat

namespace NodeHeap

def upd (h : NodeHeap α) (x : α) (pos : Nat) : NodeHeap α :=
  { h with pos := Function.update h.pos x pos }

def swap (h : NodeHeap α) (a b : Nat) : NodeHeap α :=
  let seq := Function.update (Function.update h.seq a (h.seq b)) b (h.seq a)
  ({ h with seq := seq }.upd (seq a) a).upd (seq b) b

/-- The new element of `add` comes behind the others. -/
def push (h : NodeHeap α) (x : α) : NodeHeap α :=
  { h with seq := Function.update h.seq h.size x, size := h.size + 1 }

/-- The victim of `remove` is overwritten with the last element. -/
def cut (h : NodeHeap α) (pos : Nat) : NodeHeap α :=
  let last := h.seq (h.size - 1)
  { h with seq := Function.update h.seq pos last, size := h.size - 1 }.upd last pos

section Sift

variable (comp : α → α → Bool)

/-- `heap_up`, which comes to the root after `last` steps at the latest. -/
def heapUp : Nat → NodeHeap α → Nat → NodeHeap α × Nat
  | 0, h, last => (h, last)
  | fuel + 1, h, last =>
      if 0 < last ∧ comp (h.seq (parent last)) (h.seq last) = true then
        heapUp fuel (h.swap (parent last) last) (parent last)
      else (h, last)

/-- The place that comes up in a step of `heap_down`. -/
def heapTop (h : NodeHeap α) (hole : Nat) : Nat :=
  let top := if comp (h.seq hole) (h.seq (2 * hole + 1)) = true then 2 * hole + 1 else hole
  if 2 * hole + 2 < h.size ∧ comp (h.seq top) (h.seq (2 * hole + 2)) = true then 2 * hole + 2
  else top

/-- `heap_down`, which leaves the heap after as many steps as it has places. -/
def heapDown : Nat → NodeHeap α → Nat → NodeHeap α
  | 0, h, _ => h
  | fuel + 1, h, hole =>
      if 2 * hole + 1 < h.size then
        let top := h.heapTop comp hole
        if top = hole then h else heapDown fuel (h.swap top hole) top
      else h

def add (h : NodeHeap α) (x : α) : NodeHeap α :=
  let d := heapUp comp h.size (h.push x) h.size
  d.1.upd (d.1.seq d.2) d.2

/-- `remove` of a place of the heap. -/
def remove (h : NodeHeap α) (pos : Nat) : NodeHeap α :=
  heapDown comp (h.size - 1) (h.cut pos) pos

end Sift

def Placed (h : NodeHeap α) : Prop := ∀ i, i < h.size → h.pos (h.seq i) = i

def Mem (h : NodeHeap α) (x : α) : Prop := ∃ i, i < h.size ∧ h.seq i = x

/-- No element has to go below another one under it. -/
abbrev Heaped (comp : α → α → Bool) (h : NodeHeap α) : Prop :=
  Ordered (fun x y => comp x y = true) h.seq 0 h.size

/-- The comparator is a strict weak order. -/
abbrev Weak (comp : α → α → Bool) : Prop := IsStrictWeakOrder α fun x y => comp x y = true

variable {h : NodeHeap α} {comp : α → α → Bool}

omit [DecidableEq α] in
theorem Placed.inj (hp : h.Placed) {i j : Nat} (hi : i < h.size) (hj : j < h.size)
    (hij : h.seq i = h.seq j) : i = j := by
  rw [← hp i hi, hij, hp j hj]

omit [DecidableEq α] in
theorem Placed.mem_iff (hp : h.Placed) (x : α) :
    h.Mem x ↔ h.pos x < h.size ∧ h.seq (h.pos x) = x := by
  constructor
  · rintro ⟨i, hi, rfl⟩
    rw [hp i hi]
    exact ⟨hi, rfl⟩
  · intro hx
    exact ⟨_, hx.1, hx.2⟩

/-! ## Swaps -/

theorem swap_rearranged {a b : Nat} (ha : a < h.size) (hb : b < h.size) :
    Rearranged h.size h.seq (h.swap a b).seq := by
  have hmoved := Rearranged.moveHole h.seq (h.seq a) ha hb
  rwa [Function.update_eq_self] at hmoved

theorem swap_placed {a b : Nat} (ha : a < h.size) (hb : b < h.size) (hab : a ≠ b)
    (hinj : ∀ i, i < h.size → ∀ j, j < h.size → h.seq i = h.seq j → i = j)
    (hp : ∀ i, i < h.size → i ≠ a → i ≠ b → h.pos (h.seq i) = i) : (h.swap a b).Placed := by
  have hseqa : Function.update (Function.update h.seq a (h.seq b)) b (h.seq a) a = h.seq b := by
    rw [Function.update_of_ne hab, Function.update_self]
  intro i hi
  simp only [swap, upd]
  rw [hseqa, Function.update_self]
  by_cases hib : i = b
  · rw [hib, Function.update_self, Function.update_self]
  rw [Function.update_of_ne hib]
  by_cases hia : i = a
  · have hne : h.seq b ≠ h.seq a := fun heq => hab (hinj b hb a ha heq).symm
    rw [hia, Function.update_self, Function.update_of_ne hne, Function.update_self]
  · have hne : h.seq i ≠ h.seq a := fun heq => hia (hinj i hi a ha heq)
    have hne' : h.seq i ≠ h.seq b := fun heq => hib (hinj i hi b hb heq)
    rw [Function.update_of_ne hia, Function.update_of_ne hne, Function.update_of_ne hne']
    exact hp i hi hia hib

/-! ## Sifting up -/

/-- What `heap_up` has done: the elements are rearranged, and all but the one that went up know their
places. -/
structure WentUp (h : NodeHeap α) (last : Nat) (d : NodeHeap α × Nat) : Prop where
  size : d.1.size = h.size
  moved : Rearranged h.size h.seq d.1.seq
  inside : d.2 < h.size
  placed : ∀ i, i < h.size → i ≠ d.2 → d.1.pos (d.1.seq i) = i

theorem heapUp_wentUp {fuel : Nat} :
    ∀ {h : NodeHeap α} {last : Nat}, last < h.size →
      (∀ i, i < h.size → ∀ j, j < h.size → h.seq i = h.seq j → i = j) →
      (∀ i, i < h.size → i ≠ last → h.pos (h.seq i) = i) →
      WentUp h last (heapUp comp fuel h last) := by
  induction fuel with
  | zero =>
      intro h last hin _ hp
      exact ⟨rfl, .refl _ _, hin, hp⟩
  | succ fuel ih =>
      intro h last hin hinj hp
      rw [heapUp]
      by_cases hmove : 0 < last ∧ comp (h.seq (parent last)) (h.seq last) = true
      · rw [if_pos hmove]
        have hlt := parent_lt hmove.1
        have hmoved : Rearranged h.size h.seq (h.swap (parent last) last).seq :=
          swap_rearranged (by omega) hin
        have hplaced : (h.swap (parent last) last).Placed :=
          swap_placed (by omega) hin (by omega) hinj fun i hi _ hne => hp i hi hne
        have hrest : WentUp (h.swap (parent last) last) (parent last)
            (heapUp comp fuel (h.swap (parent last) last) (parent last)) :=
          ih (Nat.lt_trans hlt hin) (hmoved.injOn hinj) fun i hi _ => hplaced i hi
        exact ⟨hrest.size, hmoved.trans hrest.moved, hrest.inside, hrest.placed⟩
      · rw [if_neg hmove]
        exact ⟨rfl, .refl _ _, hin, hp⟩

theorem heapUp_heaped (hweak : Weak comp) {fuel : Nat} :
    ∀ {h : NodeHeap α} {last : Nat}, last ≤ fuel → last < h.size →
      HoleOrder (fun x y => comp x y = true) h.seq 0 h.size last →
      (∀ i, 0 < i → i < h.size → parent i = last → ¬comp (h.seq last) (h.seq i) = true) →
      Heaped comp (heapUp comp fuel h last).1 := by
  have hstay : ∀ {h : NodeHeap α} {last : Nat},
      HoleOrder (fun x y => comp x y = true) h.seq 0 h.size last →
      (∀ i, 0 < i → i < h.size → parent i = last → ¬comp (h.seq last) (h.seq i) = true) →
      (0 < last → ¬comp (h.seq (parent last)) (h.seq last) = true) → Heaped comp h := by
    intro h last hole hdown hup
    have hfilled := hole.fill (fun hpos _ _ => hup hpos) hdown
    rwa [Function.update_eq_self] at hfilled
  induction fuel with
  | zero =>
      intro h last hfuel _ hole hdown
      exact hstay hole hdown fun hpos => by omega
  | succ fuel ih =>
      intro h last hfuel hin hole hdown
      rw [heapUp]
      by_cases hmove : 0 < last ∧ comp (h.seq (parent last)) (h.seq last) = true
      · rw [if_pos hmove]
        have hlt := parent_lt hmove.1
        have hmoved := hole.moveUp hmove.1 hin (Nat.zero_le _) hmove.2
        have hseq : ∀ i, i ≠ parent last → (h.swap (parent last) last).seq i =
            Function.update h.seq last (h.seq (parent last)) i := by
          intro i hi
          simp only [swap, upd]
          by_cases hil : i = last
          · rw [hil, Function.update_self, Function.update_self]
          · rw [Function.update_of_ne hil, Function.update_of_ne hil, Function.update_of_ne hi]
        have hself : (h.swap (parent last) last).seq (parent last) = h.seq last := by
          simp only [swap, upd]
          rw [Function.update_of_ne (Nat.ne_of_lt hlt), Function.update_self]
        refine ih (by omega) (Nat.lt_trans hlt hin) (hmoved.1.congr fun i _ hi => hseq i hi) ?_
        intro i hi hilt hip
        have hlt' := parent_lt hi
        rw [hself, hseq i (by omega)]
        exact hmoved.2 i hi hilt hip
      · rw [if_neg hmove]
        exact hstay hole hdown fun hpos hx => hmove ⟨hpos, hx⟩

/-! ## Sifting down -/

omit [DecidableEq α] in
/-- The place that comes up: a child that has to be above the hole and may be above its sibling, or the
hole itself if no child has to come up. -/
theorem heapTop_spec (hweak : Weak comp) {hole : Nat} (hleft : 2 * hole + 1 < h.size) :
    (h.heapTop comp hole = hole ∧
        ∀ i, 0 < i → i < h.size → parent i = hole → ¬comp (h.seq hole) (h.seq i) = true) ∨
      (parent (h.heapTop comp hole) = hole ∧ hole < h.heapTop comp hole ∧
        h.heapTop comp hole < h.size ∧
        comp (h.seq hole) (h.seq (h.heapTop comp hole)) = true ∧
        ∀ i, 0 < i → i < h.size → parent i = hole →
          ¬comp (h.seq (h.heapTop comp hole)) (h.seq i) = true) := by
  have hirrefl : ∀ x, ¬comp x x = true := fun x => irrefl (r := fun x y => comp x y = true) x
  have hasymm : ∀ x y, comp x y = true → ¬comp y x = true :=
    fun x y hxy => asymm (r := fun x y => comp x y = true) hxy
  have htrans : ∀ x y z, comp x y = true → comp y z = true → comp x z = true :=
    fun x y z hxy hyz => IsTrans.trans (r := fun x y => comp x y = true) x y z hxy hyz
  have hl : parent (2 * hole + 1) = hole := (parent_eq (by omega)).2 (.inl rfl)
  have hr : parent (2 * hole + 2) = hole := (parent_eq (by omega)).2 (.inr rfl)
  rw [heapTop]
  by_cases hup : comp (h.seq hole) (h.seq (2 * hole + 1)) = true
  · rw [if_pos hup]
    by_cases hright : 2 * hole + 2 < h.size ∧
        comp (h.seq (2 * hole + 1)) (h.seq (2 * hole + 2)) = true
    · rw [if_pos hright]
      refine .inr ⟨hr, by omega, hright.1, htrans _ _ _ hup hright.2, ?_⟩
      intro i hi _ hip
      cases (parent_eq hi).1 hip with
      | inl hleft =>
          rw [hleft]
          exact hasymm _ _ hright.2
      | inr hright =>
          rw [hright]
          exact hirrefl _
    · rw [if_neg hright]
      refine .inr ⟨hl, by omega, hleft, hup, ?_⟩
      intro i hi hilt hip
      cases (parent_eq hi).1 hip with
      | inl hleft =>
          rw [hleft]
          exact hirrefl _
      | inr hsecond =>
          rw [hsecond] at hilt ⊢
          exact fun hx => hright ⟨hilt, hx⟩
  · rw [if_neg hup]
    by_cases hright : 2 * hole + 2 < h.size ∧ comp (h.seq hole) (h.seq (2 * hole + 2)) = true
    · rw [if_pos hright]
      refine .inr ⟨hr, by omega, hright.1, hright.2, ?_⟩
      intro i hi _ hip
      cases (parent_eq hi).1 hip with
      | inl hleft =>
          rw [hleft]
          exact fun hx => hup (htrans _ _ _ hright.2 hx)
      | inr hsecond =>
          rw [hsecond]
          exact hirrefl _
    · rw [if_neg hright]
      refine .inl ⟨rfl, ?_⟩
      intro i hi hilt hip
      cases (parent_eq hi).1 hip with
      | inl hleft =>
          rw [hleft]
          exact hup
      | inr hsecond =>
          rw [hsecond] at hilt ⊢
          exact fun hx => hright ⟨hilt, hx⟩

/-- What `heap_down` has done. -/
structure WentDown (h h' : NodeHeap α) : Prop where
  size : h'.size = h.size
  moved : Rearranged h.size h.seq h'.seq
  placed : h'.Placed

theorem heapDown_wentDown (hweak : Weak comp) {fuel : Nat} :
    ∀ {h : NodeHeap α} {hole : Nat}, h.Placed → WentDown h (heapDown comp fuel h hole) := by
  induction fuel with
  | zero =>
      intro h hole hp
      exact ⟨rfl, .refl _ _, hp⟩
  | succ fuel ih =>
      intro h hole hp
      rw [heapDown]
      by_cases hleft : 2 * hole + 1 < h.size
      · rw [if_pos hleft]
        dsimp only
        by_cases hstop : h.heapTop comp hole = hole
        · rw [if_pos hstop]
          exact ⟨rfl, .refl _ _, hp⟩
        · rw [if_neg hstop]
          obtain ⟨hparent, hlt, hin, -, -⟩ :=
            (heapTop_spec hweak hleft).resolve_left fun hx => hstop hx.1
          have hplaced : (h.swap (h.heapTop comp hole) hole).Placed :=
            swap_placed hin (by omega) (by omega) (fun i hi j hj => hp.inj hi hj)
              fun i hi _ _ => hp i hi
          have hrest := @ih _ (h.heapTop comp hole) hplaced
          exact ⟨hrest.size, (swap_rearranged hin (by omega)).trans hrest.moved, hrest.placed⟩
      · rw [if_neg hleft]
        exact ⟨rfl, .refl _ _, hp⟩

theorem heapDown_heaped (hweak : Weak comp) {fuel : Nat} :
    ∀ {h : NodeHeap α} {hole : Nat}, h.size ≤ hole + fuel →
      HoleOrder (fun x y => comp x y = true) h.seq 0 h.size hole →
      (0 < hole → hole < h.size → ¬comp (h.seq (parent hole)) (h.seq hole) = true) →
      Heaped comp (heapDown comp fuel h hole) := by
  have hstay : ∀ {h : NodeHeap α} {hole : Nat},
      HoleOrder (fun x y => comp x y = true) h.seq 0 h.size hole →
      (0 < hole → hole < h.size → ¬comp (h.seq (parent hole)) (h.seq hole) = true) →
      (∀ i, 0 < i → i < h.size → parent i = hole → ¬comp (h.seq hole) (h.seq i) = true) →
      Heaped comp h := by
    intro h hole horder hup hdown
    have hfilled := horder.fill (fun hpos hin _ => hup hpos hin) hdown
    rwa [Function.update_eq_self] at hfilled
  induction fuel with
  | zero =>
      intro h hole hfuel horder hup
      rw [heapDown]
      refine hstay horder hup ?_
      intro i hi hilt hip
      have hlt := parent_lt hi
      omega
  | succ fuel ih =>
      intro h hole hfuel horder hup
      rw [heapDown]
      by_cases hleft : 2 * hole + 1 < h.size
      · rw [if_pos hleft]
        dsimp only
        cases heapTop_spec hweak hleft with
        | inl hstop =>
            rw [if_pos hstop.1]
            exact hstay horder hup hstop.2
        | inr hmove =>
            obtain ⟨hparent, hlt, hin, hcomp, hbest⟩ := hmove
            rw [if_neg (by omega)]
            generalize h.heapTop comp hole = top at hparent hlt hin hcomp hbest ⊢
            have hself : (h.swap top hole).seq top = h.seq hole := by
              simp only [swap, upd]
              rw [Function.update_of_ne (by omega), Function.update_self]
            have hseq : ∀ i, i ≠ top →
                (h.swap top hole).seq i = Function.update h.seq hole (h.seq top) i := by
              intro i hi
              simp only [swap, upd]
              by_cases hih : i = hole
              · rw [hih, Function.update_self, Function.update_self]
              · rw [Function.update_of_ne hih, Function.update_of_ne hih, Function.update_of_ne hi]
            have hdown := horder.moveDown (by omega) hin hparent hbest
            refine ih (h := h.swap top hole) ?_ (hdown.congr fun i _ hi => hseq i hi) ?_
            · show h.size ≤ top + fuel
              omega
            · intro _ _
              rw [hself, hparent, hseq hole (by omega), Function.update_self]
              exact asymm (r := fun x y => comp x y = true) hcomp
      · rw [if_neg hleft]
        refine hstay horder hup ?_
        intro i hi hilt hip
        have hcase := (parent_eq hi).1 hip
        omega

/-! ## The operations -/

omit [DecidableEq α] in
theorem push_mem (x y : α) : (h.push x).Mem y ↔ h.Mem y ∨ y = x := by
  constructor
  · rintro ⟨i, hi, rfl⟩
    simp only [push] at hi ⊢
    by_cases hil : i = h.size
    · rw [hil, Function.update_self]
      exact .inr rfl
    · rw [Function.update_of_ne hil]
      exact .inl ⟨i, by omega, rfl⟩
  · intro hy
    cases hy with
    | inl hmem =>
        obtain ⟨i, hi, rfl⟩ := hmem
        exact ⟨i, Nat.lt_succ_of_lt hi, Function.update_of_ne (by omega) _ _⟩
    | inr heq => exact ⟨h.size, Nat.lt_succ_self _, by rw [heq]; exact Function.update_self ..⟩

omit [DecidableEq α] in
theorem push_inj (hp : h.Placed) {x : α} (hnew : ¬h.Mem x) :
    ∀ i, i < h.size + 1 → ∀ j, j < h.size + 1 → (h.push x).seq i = (h.push x).seq j → i = j := by
  have hold : ∀ i, i ≠ h.size → (h.push x).seq i = h.seq i :=
    fun i hi => Function.update_of_ne hi _ _
  have hself : (h.push x).seq h.size = x := Function.update_self ..
  intro i hi j hj hij
  by_cases hil : i = h.size
  · by_cases hjl : j = h.size
    · rw [hil, hjl]
    · rw [hil, hself, hold j hjl] at hij
      exact absurd ⟨j, by omega, hij.symm⟩ hnew
  · rw [hold i hil] at hij
    by_cases hjl : j = h.size
    · rw [hjl, hself] at hij
      exact absurd ⟨i, by omega, hij⟩ hnew
    · rw [hold j hjl] at hij
      exact hp.inj (by omega) (by omega) hij

omit [DecidableEq α] in
theorem mem_of_rearranged {h' : NodeHeap α} (hsize : h'.size = h.size)
    (hmoved : Rearranged h.size h.seq h'.seq) (x : α) : h'.Mem x ↔ h.Mem x := by
  constructor
  · rintro ⟨i, hi, rfl⟩
    obtain ⟨j, hj, hsame⟩ := hmoved.source (hsize ▸ hi)
    exact ⟨j, hj, hsame.symm⟩
  · rintro ⟨j, hj, rfl⟩
    obtain ⟨i, hi, hsame⟩ := hmoved.reached hj
    exact ⟨i, hsize.symm ▸ hi, hsame⟩

/-- What `add` has done. -/
structure Added (h : NodeHeap α) (x : α) (h' : NodeHeap α) : Prop where
  size : h'.size = h.size + 1
  placed : h'.Placed
  mem : ∀ y, h'.Mem y ↔ h.Mem y ∨ y = x

theorem add_added (hp : h.Placed) {x : α} (hnew : ¬h.Mem x) : Added h x (h.add comp x) := by
  have hinj := push_inj hp hnew
  have hup : WentUp (h.push x) h.size (heapUp comp h.size (h.push x) h.size) := by
    refine heapUp_wentUp (Nat.lt_succ_self _) hinj ?_
    intro i hi hne
    have hold : (h.push x).seq i = h.seq i := Function.update_of_ne hne _ _
    rw [hold]
    exact hp i (Nat.lt_of_le_of_ne (Nat.le_of_lt_succ hi) hne)
  rw [add]
  generalize heapUp comp h.size (h.push x) h.size = d at hup
  have hinj' := hup.moved.injOn hinj
  refine ⟨hup.size, ?_, ?_⟩
  · intro i hi
    have hin : i < h.size + 1 := Nat.lt_of_lt_of_eq hi hup.size
    simp only [upd]
    by_cases hid : i = d.2
    · rw [hid, Function.update_self]
    · have hne : d.1.seq i ≠ d.1.seq d.2 := fun heq => hid (hinj' i hin d.2 hup.inside heq)
      rw [Function.update_of_ne hne]
      exact hup.placed i hin hid
  · intro y
    rw [← push_mem]
    exact mem_of_rearranged hup.size hup.moved y

theorem add_heaped (hweak : Weak comp) (h : NodeHeap α) (x : α) (hheap : Heaped comp h) :
    Heaped comp (h.add comp x) := by
  have hpushed : HoleOrder (fun x y => comp x y = true) (h.push x).seq 0 (h.size + 1) h.size :=
    hheap.extend.congr fun i _ hi => Function.update_of_ne hi _ _
  have hup : Heaped comp (heapUp comp h.size (h.push x) h.size).1 := by
    refine heapUp_heaped hweak (Nat.le_refl _) (Nat.lt_succ_self _) hpushed ?_
    intro i hi hilt hip
    have hlt := parent_lt hi
    simp only [push] at hilt
    omega
  exact hup

theorem heapUp_top {fuel : Nat} {x : α} :
    ∀ {h : NodeHeap α} {last : Nat}, 0 < last → h.seq last = x → ¬comp (h.seq 0) x = true →
      (heapUp comp fuel h last).1.seq 0 = h.seq 0 := by
  induction fuel with
  | zero => exact fun _ _ _ => rfl
  | succ fuel ih =>
      intro h last hpos hx htop
      rw [heapUp]
      by_cases hmove : 0 < last ∧ comp (h.seq (parent last)) (h.seq last) = true
      · rw [if_pos hmove]
        have hlt := parent_lt hpos
        have hparent : 0 < parent last := by
          refine Nat.pos_of_ne_zero fun hzero => htop ?_
          rw [← hx, ← hzero]
          exact hmove.2
        have hself : (h.swap (parent last) last).seq (parent last) = x := by
          simp only [swap, upd]
          rw [Function.update_of_ne (by omega), Function.update_self, hx]
        have hzero : (h.swap (parent last) last).seq 0 = h.seq 0 := by
          simp only [swap, upd]
          rw [Function.update_of_ne (by omega), Function.update_of_ne (by omega)]
        rw [ih hparent hself (by rwa [hzero]), hzero]
      · rw [if_neg hmove]

theorem add_top {x : α} (hsize : 0 < h.size) (htop : ¬comp (h.seq 0) x = true) :
    (h.add comp x).seq 0 = h.seq 0 := by
  have hzero : (h.push x).seq 0 = h.seq 0 := Function.update_of_ne (by omega) _ _
  have hup := @heapUp_top α _ comp h.size x (h.push x) h.size hsize (Function.update_self ..)
    (by rwa [hzero])
  rw [← hzero]
  exact hup

/-- The last element may come to a place: it does not have to be above the parent of the place. -/
def Settled (comp : α → α → Bool) (h : NodeHeap α) (pos : Nat) : Prop :=
  pos + 1 < h.size → 0 < pos → ¬comp (h.seq (parent pos)) (h.seq (h.size - 1)) = true

/-- What `remove` has done. -/
structure Removed (h : NodeHeap α) (pos : Nat) (h' : NodeHeap α) : Prop where
  size : h'.size = h.size - 1
  placed : h'.Placed
  mem : ∀ y, h'.Mem y ↔ h.Mem y ∧ y ≠ h.seq pos

theorem cut_seq {pos i : Nat} (hi : i ≠ pos) : (h.cut pos).seq i = h.seq i :=
  Function.update_of_ne hi _ _

theorem cut_placed (hp : h.Placed) {pos : Nat} (hpos : pos < h.size) : (h.cut pos).Placed := by
  intro i hi
  simp only [cut, upd] at hi ⊢
  by_cases hip : i = pos
  · rw [hip, Function.update_self, Function.update_self]
  · have hne : h.seq i ≠ h.seq (h.size - 1) := by
      intro heq
      have hsame := hp.inj (by omega) (by omega) heq
      omega
    rw [Function.update_of_ne hip, Function.update_of_ne hne]
    exact hp i (by omega)

theorem cut_mem (hp : h.Placed) {pos : Nat} (hpos : pos < h.size) (y : α) :
    (h.cut pos).Mem y ↔ h.Mem y ∧ y ≠ h.seq pos := by
  constructor
  · rintro ⟨i, hi, rfl⟩
    simp only [cut, upd] at hi ⊢
    by_cases hip : i = pos
    · rw [hip, Function.update_self]
      refine ⟨⟨h.size - 1, by omega, rfl⟩, fun heq => ?_⟩
      have hsame := hp.inj (by omega) hpos heq
      omega
    · rw [Function.update_of_ne hip]
      exact ⟨⟨i, by omega, rfl⟩, fun heq => hip (hp.inj (by omega) hpos heq)⟩
  · rintro ⟨⟨i, hi, rfl⟩, hne⟩
    have hip : i ≠ pos := fun heq => hne (congrArg h.seq heq)
    by_cases hlast : i = h.size - 1
    · refine ⟨pos, ?_, ?_⟩
      · simp only [cut, upd]
        omega
      · rw [hlast]
        exact Function.update_self ..
    · refine ⟨i, ?_, cut_seq hip⟩
      simp only [cut, upd]
      omega

theorem remove_removed (hweak : Weak comp) (hp : h.Placed) {pos : Nat} (hpos : pos < h.size) :
    Removed h pos (h.remove comp pos) := by
  have hdown : WentDown (h.cut pos) (h.remove comp pos) :=
    heapDown_wentDown hweak (cut_placed hp hpos)
  refine ⟨hdown.size, hdown.placed, fun y => ?_⟩
  rw [← cut_mem hp hpos]
  exact mem_of_rearranged hdown.size hdown.moved y

theorem remove_heaped (hweak : Weak comp) {pos : Nat}
    (hheap : HoleOrder (fun x y => comp x y = true) h.seq 0 h.size pos)
    (hsettled : Settled comp h pos) : Heaped comp (h.remove comp pos) := by
  have hcut : HoleOrder (fun x y => comp x y = true) (h.cut pos).seq 0 (h.size - 1) pos :=
    (hheap.mono (Nat.sub_le _ _)).congr fun i _ hi => cut_seq hi
  refine heapDown_heaped hweak (Nat.le_add_left _ _) hcut ?_
  intro hzero hin
  have hlt := parent_lt hzero
  have hself : (h.cut pos).seq pos = h.seq (h.size - 1) := Function.update_self ..
  rw [cut_seq (by omega), hself]
  simp only [cut, upd] at hin
  exact hsettled (by omega) hzero

end NodeHeap

end Prophet

end Dtn2
