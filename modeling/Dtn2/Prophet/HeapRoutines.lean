import Dtn2.Prophet.Repository

/-!
# The heap routines of the repository

`adjust_heap` leaves a heap of the places it was given. `remove_and_reheap` gives it one place too
few: what is left is a heap when the last bundle fits in the place of the victim. `make_heap` leaves
out the last place.
-/

namespace Dtn2

namespace Prophet

open Framework BinaryHeap

variable {B : Type}

namespace Repository

section Heap

variable {after : B → B → Bool}

/-- The order that the heap routines keep. -/
abbrev Heap (after : B → B → Bool) (list : Nat → B) (root n : Nat) : Prop :=
  Ordered (fun x y => after x y = true) list root n

abbrev Holed (after : B → B → Bool) (list : Nat → B) (root n hole : Nat) : Prop :=
  HoleOrder (fun x y => after x y = true) list root n hole

/-- The comparator is a strict weak order. -/
abbrev Weak (after : B → B → Bool) : Prop := IsStrictWeakOrder B fun x y => after x y = true

/-! ## Sifting up -/

theorem pushHeapLoop_heap (hweak : Weak after) {root n top fuel : Nat} {b : B} :
    ∀ {list : Nat → B} {hole : Nat}, Holed after list root n hole → hole ≤ fuel → hole < n →
      Below top hole → root ≤ top →
      (0 < top → root ≤ parent top → ¬after (list (parent top)) b = true) →
      (∀ i, 0 < i → i < n → parent i = hole → ¬after b (list i) = true) →
      Heap after (pushHeapLoop after top b fuel list hole) root n := by
  induction fuel with
  | zero =>
      intro list hole h hfuel _ _ _ _ hdown
      rw [pushHeapLoop]
      exact h.fill (fun hpos => by omega) hdown
  | succ fuel ih =>
      intro list hole h hfuel hin hbelow hroot habove hdown
      rw [pushHeapLoop]
      by_cases hmove : top < hole ∧ after (list (parent hole)) b = true
      · rw [if_pos hmove]
        have hpos : 0 < hole := Nat.zero_lt_of_lt hmove.1
        have hlt := parent_lt hpos
        have hup := hbelow.parent hmove.1
        have hle := hup.le
        have hmoved := h.moveUp hpos hin (by omega) hmove.2
        refine ih hmoved.1 (by omega) (by omega) hup hroot ?_ hmoved.2
        intro htop hle'
        have hlt' := parent_lt htop
        rw [Function.update_of_ne (by omega)]
        exact habove htop hle'
      · rw [if_neg hmove]
        refine h.fill ?_ hdown
        intro hpos _ hle
        by_cases htop : top < hole
        · exact fun hx => hmove ⟨htop, hx⟩
        · have heq : top = hole := by
            have htle := hbelow.le
            omega
          rw [← heq] at hpos hle ⊢
          exact habove hpos hle

/-! ## Sifting down -/

/-- The places through which the loop of `adjust_heap` comes. -/
inductive Chosen (after : B → B → Bool) (list : Nat → B) (top : Nat) : Nat → Prop where
  | refl : Chosen after list top top
  | left {i : Nat} (h : Chosen after list top i)
      (hlater : after (list (2 * i + 2)) (list (2 * i + 1)) = true) :
      Chosen after list top (2 * i + 1)
  | right {i : Nat} (h : Chosen after list top i)
      (hlater : ¬after (list (2 * i + 2)) (list (2 * i + 1)) = true) :
      Chosen after list top (2 * i + 2)

theorem Chosen.under {list : Nat → B} {top i : Nat} (h : Chosen after list top i) :
    Below top i := by
  induction h with
  | refl => exact .refl
  | @left i _ _ ih =>
      have hparent : parent (2 * i + 1) = i := (parent_eq (by omega)).2 (.inl rfl)
      exact .child (by omega) (by rwa [hparent])
  | @right i _ _ ih =>
      have hparent : parent (2 * i + 2) = i := (parent_eq (by omega)).2 (.inr rfl)
      exact .child (by omega) (by rwa [hparent])

theorem Chosen.trans {list list' : Nat → B} {top second i : Nat} (h : Chosen after list top second)
    (h' : Chosen after list' second i) (hsame : ∀ j, second < j → list' j = list j) :
    Chosen after list top i := by
  induction h' with
  | refl => exact h
  | @left i hi hlater ih =>
      have hle := hi.under.le
      rw [hsame _ (by omega), hsame _ (by omega)] at hlater
      exact .left ih hlater
  | @right i hi hlater ih =>
      have hle := hi.under.le
      rw [hsame _ (by omega), hsame _ (by omega)] at hlater
      exact .right ih hlater

/-- What the loop of `adjust_heap` has done when it stops. -/
structure Sifted (after : B → B → Bool) (len root : Nat) (list : Nat → B) (top : Nat)
    (d : (Nat → B) × Nat) : Prop where
  chosen : Chosen after list top d.2
  inside : top < len → d.2 < len
  stopped : len ≤ 2 * d.2 + 2
  deeper : ∀ i, d.2 < i → d.1 i = list i
  higher : ∀ i, i < top → d.1 i = list i
  heap : ∀ n, len ≤ n → Holed after list root n top → Holed after d.1 root n d.2

theorem adjustHeapLoop_sifted (hweak : Weak after) {len root fuel : Nat} :
    ∀ {list : Nat → B} {hole : Nat}, len ≤ hole + fuel →
      Sifted after len root list hole (adjustHeapLoop after len fuel list hole) := by
  induction fuel with
  | zero =>
      intro list hole hfuel
      rw [adjustHeapLoop]
      exact ⟨.refl, id, by omega, fun _ _ => rfl, fun _ _ => rfl, fun _ _ h => h⟩
  | succ fuel ih =>
      intro list hole hfuel
      rw [adjustHeapLoop]
      by_cases hlt : 2 * hole + 2 < len
      · rw [if_pos hlt]
        dsimp only
        generalize hsecond : (if after (list (2 * hole + 2)) (list (2 * hole + 1)) = true
          then 2 * hole + 1 else 2 * hole + 2) = second
        have hstep : Chosen after list hole second ∧ hole < second ∧ second < len ∧
            parent second = hole ∧
            ∀ i, 0 < i → parent i = hole → ¬after (list second) (list i) = true := by
          by_cases hlater : after (list (2 * hole + 2)) (list (2 * hole + 1)) = true
          · rw [if_pos hlater] at hsecond
            subst hsecond
            refine ⟨.left .refl hlater, by omega, by omega, ?_, ?_⟩
            · exact (parent_eq (by omega)).2 (.inl rfl)
            intro i hi hparent
            cases (parent_eq hi).1 hparent with
            | inl hleft =>
                rw [hleft]
                exact irrefl (r := fun x y => after x y = true) _
            | inr hright =>
                rw [hright]
                exact asymm (r := fun x y => after x y = true) hlater
          · rw [if_neg hlater] at hsecond
            subst hsecond
            refine ⟨.right .refl hlater, by omega, by omega, ?_, ?_⟩
            · exact (parent_eq (by omega)).2 (.inr rfl)
            intro i hi hparent
            cases (parent_eq hi).1 hparent with
            | inl hleft =>
                rw [hleft]
                exact hlater
            | inr hright =>
                rw [hright]
                exact irrefl (r := fun x y => after x y = true) _
        obtain ⟨hchosen, hdeeper, hin, hparent, hbest⟩ := hstep
        have hrest := @ih (Function.update list hole (list second)) second (by omega)
        have hupdate : ∀ i, i ≠ hole → Function.update list hole (list second) i = list i :=
          fun i hi => Function.update_of_ne hi _ _
        have hle := hrest.chosen.under.le
        refine ⟨?_, fun _ => hrest.inside hin, hrest.stopped, ?_, ?_, ?_⟩
        · exact hchosen.trans hrest.chosen (fun i hi => hupdate i (by omega))
        · intro i hi
          rw [hrest.deeper i hi, hupdate i (by omega)]
        · intro i hi
          rw [hrest.higher i (by omega), hupdate i (by omega)]
        · intro n hn h
          refine hrest.heap n hn ?_
          exact h.moveDown (by omega) (by omega) hparent (fun i hi _ => hbest i hi)
      · rw [if_neg hlt]
        exact ⟨.refl, id, by omega, fun _ _ => rfl, fun _ _ => rfl, fun _ _ h => h⟩

theorem adjustHeap_of_le {size len hole : Nat} (hsize : 2 ≤ size) (hle : len ≤ hole)
    (list : Nat → B) (b : B) :
    adjustHeap after size list hole len b = Function.update list hole b := by
  have hloop : adjustHeapLoop after len len list hole = (list, hole) := by
    cases len with
    | zero => rfl
    | succ len => rw [adjustHeapLoop, if_neg (by omega)]
  rw [adjustHeap, if_neg (by omega), hloop, adjustHeapLast, if_neg (by simp only; omega), pushHeap]
  cases hole with
  | zero => rw [pushHeapLoop]
  | succ hole => rw [pushHeapLoop, if_neg (by omega)]

theorem adjustHeap_heap (hweak : Weak after) {size len root hole : Nat} {list : Nat → B} {b : B}
    (hsize : 2 ≤ size) (h : Holed after list root len hole) (hin : hole < len) (hroot : root ≤ hole)
    (habove : 0 < hole → root ≤ parent hole → ¬after (list (parent hole)) b = true) :
    Heap after (adjustHeap after size list hole len b) root len := by
  rw [adjustHeap, if_neg (by omega)]
  have hs : Sifted after len root list hole (adjustHeapLoop after len len list hole) :=
    adjustHeapLoop_sifted hweak (by omega)
  generalize adjustHeapLoop after len len list hole = d at hs
  have hheap := hs.heap len (Nat.le_refl len) h
  have hend := hs.inside hin
  have hstop := hs.stopped
  have hup : 0 < hole → d.1 (parent hole) = list (parent hole) :=
    fun hpos => hs.higher _ (parent_lt hpos)
  have hle := hs.chosen.under.le
  simp only [adjustHeapLast, pushHeap]
  by_cases hlast : 2 * d.2 + 2 = len
  · rw [if_pos hlast]
    dsimp only
    have hparent : parent (len - 1) = d.2 := (parent_eq (by omega)).2 (.inl (by omega))
    refine pushHeapLoop_heap hweak (hheap.moveDown (by omega) (by omega) hparent ?_)
      (Nat.le_refl _) (by omega) (.child (by omega) (by rw [hparent]; exact hs.chosen.under)) hroot
      ?_ ?_
    · intro i hi hilt hip
      have hcase := (parent_eq hi).1 hip
      rw [show i = len - 1 by omega]
      exact irrefl (r := fun x y => after x y = true) _
    · intro hpos hle'
      have hlt := parent_lt hpos
      have hne : parent hole ≠ d.2 := by omega
      rw [Function.update_of_ne hne, hup hpos]
      exact habove hpos hle'
    · intro i hi hilt hip
      have hcase := (parent_eq hi).1 hip
      omega
  · rw [if_neg hlast]
    refine pushHeapLoop_heap hweak hheap (Nat.le_refl _) hend hs.chosen.under hroot ?_ ?_
    · intro hpos hle'
      rw [hup hpos]
      exact habove hpos hle'
    · intro i hi hilt hip
      have hcase := (parent_eq hi).1 hip
      omega

theorem pushHeap_back {list : Nat → B} {b : B} {hole c top : Nat} (htop : top < c)
    (hparent : parent c = hole) (hlater : after (list c) b = true) :
    pushHeap after (Function.update list hole (list c)) c top b =
      pushHeapLoop after top b (c - 1)
        (Function.update (Function.update list hole (list c)) c (list c)) hole := by
  obtain ⟨fuel, rfl⟩ : ∃ fuel, c = fuel + 1 := ⟨c - 1, by omega⟩
  rw [pushHeap, pushHeapLoop, hparent, Function.update_self, if_pos ⟨htop, hlater⟩,
    Nat.add_sub_cancel]

theorem pushHeap_stay {list : Nat → B} {b : B} {hole c top : Nat} (htop : top < c)
    (hparent : parent c = hole) (hlater : ¬after (list c) b = true) :
    pushHeap after (Function.update list hole (list c)) c top b =
      Function.update (Function.update list hole (list c)) c b := by
  obtain ⟨fuel, rfl⟩ : ∃ fuel, c = fuel + 1 := ⟨c - 1, by omega⟩
  rw [pushHeap, pushHeapLoop, hparent, Function.update_self, if_neg fun hx => hlater hx.2]

/-- The bundle behind a heap of `len` bundles does not have to come up: it is not below the places
through which the loop comes, or the bundle that is moved is not evicted later, or its sibling comes
up instead. -/
def Quiet (after : B → B → Bool) (list : Nat → B) (hole len : Nat) (b : B) : Prop :=
  Chosen after list hole (parent len) → after b (list len) = true →
    len = 2 * parent len + 2 ∧ ¬after (list (len - 1)) (list len) = true

theorem adjustHeap_heap_short (hweak : Weak after) {size len root hole : Nat} {list : Nat → B}
    {b : B} (hsize : 2 ≤ size) (h : Holed after list root (len + 1) hole) (hin : hole < len)
    (hroot : root ≤ hole)
    (habove : 0 < hole → root ≤ parent hole → ¬after (list (parent hole)) b = true)
    (hquiet : Quiet after list hole len b) :
    Heap after (adjustHeap after size list hole len b) root (len + 1) := by
  rw [adjustHeap, if_neg (by omega)]
  have hs : Sifted after len root list hole (adjustHeapLoop after len len list hole) :=
    adjustHeapLoop_sifted hweak (by omega)
  generalize adjustHeapLoop after len len list hole = d at hs
  have hheap := hs.heap (len + 1) (by omega) h
  have hend := hs.inside hin
  have hstop := hs.stopped
  have hup : 0 < hole → root ≤ parent hole → ¬after (d.1 (parent hole)) b = true := by
    intro hpos hle'
    rw [hs.higher _ (parent_lt hpos)]
    exact habove hpos hle'
  have hle := hs.chosen.under.le
  have hlen := hs.deeper len (by omega)
  simp only [adjustHeapLast]
  by_cases hlast : 2 * d.2 + 2 = len
  · rw [if_pos hlast]
    dsimp only
    have hparent : parent (len - 1) = d.2 := (parent_eq (by omega)).2 (.inl (by omega))
    have hparent' : parent len = d.2 := (parent_eq (by omega)).2 (.inr (by omega))
    have hleft := hs.deeper (len - 1) (by omega)
    have hquiet' : after b (list len) = true → ¬after (list (len - 1)) (list len) = true := by
      intro hb
      exact (hquiet (by rw [hparent']; exact hs.chosen) hb).2
    by_cases hmove : after (d.1 (len - 1)) b = true
    · -- the child goes back, and the sift goes on from where the loop has stopped
      rw [pushHeap_back (by omega) hparent hmove]
      have hcongr : ∀ i, i ≠ d.2 →
          Function.update (Function.update d.1 d.2 (d.1 (len - 1))) (len - 1) (d.1 (len - 1)) i =
            d.1 i := by
        intro i hi
        by_cases hil : i = len - 1
        · rw [hil, Function.update_self]
        · rw [Function.update_of_ne hil, Function.update_of_ne hi]
      refine pushHeapLoop_heap hweak (hheap.congr fun i _ hi => hcongr i hi) (by omega) (by omega)
        hs.chosen.under hroot ?_ ?_
      · intro hpos hle'
        have hlt := parent_lt hpos
        rw [hcongr _ (by omega)]
        exact hup hpos hle'
      · intro i hi hilt hip
        rw [hcongr i (by have := parent_lt hi; omega)]
        have hcase := (parent_eq hi).1 hip
        by_cases hil : i = len
        · rw [hil, hlen]
          intro hb
          rw [hleft] at hmove
          exact hquiet' hb (IsTrans.trans (r := fun x y => after x y = true) _ _ _ hmove hb)
        · rw [show i = len - 1 by omega]
          exact asymm (r := fun x y => after x y = true) hmove
    · -- the child stays in the place of the hole, and the bundle comes below it
      have hsibling : ¬after (d.1 (len - 1)) (d.1 len) = true := by
        rw [hlen, hleft] at *
        by_cases hb : after b (list len) = true
        · exact hquiet' hb
        · exact not_rel_trans (r := fun x y => after x y = true) hmove hb
      have hfilled : Heap after (Function.update d.1 d.2 (d.1 (len - 1))) root (len + 1) := by
        refine hheap.fill ?_ ?_
        · intro hpos _ hle'
          exact hheap.across hpos hle' (len - 1) (by omega) (by omega) hparent
        · intro i hi hilt hip
          have hcase := (parent_eq hi).1 hip
          by_cases hil : i = len
          · rw [hil]
            exact hsibling
          · rw [show i = len - 1 by omega]
            exact irrefl (r := fun x y => after x y = true) _
      rw [pushHeap_stay (by omega) hparent hmove]
      refine (hfilled.withHole (len - 1) (by omega)).fill ?_ ?_
      · intro _ _ _
        rw [hparent, Function.update_self]
        exact hmove
      · intro i hi hilt hip
        have hcase := (parent_eq hi).1 hip
        omega
  · rw [if_neg hlast, pushHeap]
    refine pushHeapLoop_heap hweak hheap (Nat.le_refl _) (by omega) hs.chosen.under hroot hup ?_
    intro i hi hilt hip
    have hcase := (parent_eq hi).1 hip
    have hil : i = len := by omega
    rw [hil] at hip ⊢
    rw [hlen]
    intro hb
    have hquiet' := hquiet (by rw [hip]; exact hs.chosen) hb
    omega

/-! ## What the routines do with the bundles -/

theorem pushHeapLoop_rearranged {n top fuel : Nat} {b : B} :
    ∀ {list : Nat → B} {hole : Nat}, hole < n →
      Rearranged n (Function.update list hole b) (pushHeapLoop after top b fuel list hole) := by
  induction fuel with
  | zero =>
      intro list hole _
      rw [pushHeapLoop]
      exact .refl _ _
  | succ fuel ih =>
      intro list hole hin
      rw [pushHeapLoop]
      by_cases hmove : top < hole ∧ after (list (parent hole)) b = true
      · rw [if_pos hmove]
        have hlt := parent_lt (Nat.zero_lt_of_lt hmove.1)
        exact (Rearranged.moveHole list b hin (by omega)).trans (ih (by omega))
      · rw [if_neg hmove]
        exact .refl _ _

theorem adjustHeapLoop_rearranged {n len fuel : Nat} {b : B} (hlen : len ≤ n) :
    ∀ {list : Nat → B} {hole : Nat}, hole < n →
      Rearranged n (Function.update list hole b)
          (Function.update (adjustHeapLoop after len fuel list hole).1
            (adjustHeapLoop after len fuel list hole).2 b) ∧
        (adjustHeapLoop after len fuel list hole).2 < n := by
  induction fuel with
  | zero =>
      intro list hole hin
      rw [adjustHeapLoop]
      exact ⟨.refl _ _, hin⟩
  | succ fuel ih =>
      intro list hole hin
      rw [adjustHeapLoop]
      by_cases hlt : 2 * hole + 2 < len
      · rw [if_pos hlt]
        dsimp only
        generalize hsecond : (if after (list (2 * hole + 2)) (list (2 * hole + 1)) = true
          then 2 * hole + 1 else 2 * hole + 2) = second
        have hin' : second < n := by
          rw [← hsecond]
          by_cases hlater : after (list (2 * hole + 2)) (list (2 * hole + 1)) = true
          · rw [if_pos hlater]
            omega
          · rw [if_neg hlater]
            omega
        have hrest := @ih (Function.update list hole (list second)) second hin'
        exact ⟨(Rearranged.moveHole list b hin hin').trans hrest.1, hrest.2⟩
      · rw [if_neg hlt]
        exact ⟨.refl _ _, hin⟩

theorem adjustHeap_rearranged {n size len hole : Nat} {list : Nat → B} {b : B} (hlen : len ≤ n)
    (hin : hole < n) (hsize : size < 2 → list hole = b) :
    Rearranged n (Function.update list hole b) (adjustHeap after size list hole len b) := by
  rw [adjustHeap]
  by_cases hsmall : size < 2
  · rw [if_pos hsmall, ← hsize hsmall, Function.update_eq_self]
    exact .refl _ _
  rw [if_neg hsmall]
  have hloop := @adjustHeapLoop_rearranged B after n len len b hlen list hole hin
  generalize adjustHeapLoop after len len list hole = d at hloop
  refine hloop.1.trans ?_
  simp only [adjustHeapLast, pushHeap]
  by_cases hlast : 2 * d.2 + 2 = len
  · rw [if_pos hlast]
    exact (Rearranged.moveHole d.1 b hloop.2 (by omega)).trans
      (pushHeapLoop_rearranged (by omega))
  · rw [if_neg hlast]
    exact pushHeapLoop_rearranged hloop.2

theorem removeAndReheap_rearranged {size pos : Nat} {list : Nat → B} (hpos : pos + 1 < size) :
    Rearranged (size - 1) (Function.update list pos (list (size - 1)))
      (removeAndReheap after size list pos) := by
  rw [removeAndReheap, Function.update_self]
  have hrest : Rearranged (size - 1)
      (Function.update (Function.update list pos (list (size - 1))) pos (list (size - 1)))
      (adjustHeap after size (Function.update list pos (list (size - 1))) pos (size - 2)
        (list (size - 1))) :=
    adjustHeap_rearranged (by omega) (by omega) fun _ => Function.update_self ..
  rwa [Function.update_idem] at hrest

theorem removeAndReheap_last (size : Nat) (list : Nat → B) :
    removeAndReheap after size list (size - 1) = list := by
  rw [removeAndReheap, Function.update_eq_self]
  by_cases hsmall : size < 2
  · rw [adjustHeap, if_pos hsmall]
  · rw [adjustHeap_of_le (by omega) (show size - 2 ≤ size - 1 by omega), Function.update_eq_self]

theorem popHeap_rearranged {size : Nat} {list : Nat → B} (hsize : 0 < size) :
    Rearranged size list (popHeap after size list (size - 1) (list (size - 1))) ∧
      popHeap after size list (size - 1) (list (size - 1)) (size - 1) = list 0 := by
  rw [popHeap]
  by_cases hone : size = 1
  · rw [hone, adjustHeap, if_pos (by omega), Function.update_eq_self]
    exact ⟨.refl _ _, rfl⟩
  have h : Rearranged (size - 1)
      (Function.update (Function.update list (size - 1) (list 0)) 0 (list (size - 1)))
      (adjustHeap after size (Function.update list (size - 1) (list 0)) 0 (size - 1)
        (list (size - 1))) :=
    adjustHeap_rearranged (Nat.le_refl _) (by omega) (by omega)
  have hswap := Rearranged.moveHole list (list (size - 1)) (show size - 1 < size by omega) hsize
  rw [Function.update_eq_self] at hswap
  refine ⟨hswap.trans (h.mono (by omega)), ?_⟩
  rw [h.beyond (Nat.le_refl _), Function.update_of_ne (by omega), Function.update_self]

theorem adjustHeap_self {n size len hole : Nat} {list : Nat → B} (hlen : len ≤ n) (hin : hole < n) :
    Rearranged n list (adjustHeap after size list hole len (list hole)) := by
  have h := @adjustHeap_rearranged B after n size len hole list (list hole) hlen hin fun _ => rfl
  rwa [Function.update_eq_self] at h

theorem makeHeapLoop_rearranged {size len place : Nat} :
    ∀ {list : Nat → B}, place < len →
      Rearranged len list (makeHeapLoop after size len place list) := by
  induction place with
  | zero =>
      intro list hin
      rw [makeHeapLoop]
      exact adjustHeap_self (Nat.le_refl len) hin
  | succ place ih =>
      intro list hin
      rw [makeHeapLoop]
      exact (adjustHeap_self (Nat.le_refl len) hin).trans (ih (by omega))

/-! ## The order that the routines leave -/

/-- The last bundle of the list fits in a place: it is not evicted before the bundle above it, and
the bundle in front of it may stay where it is. -/
def Fits (after : B → B → Bool) (list : Nat → B) (size pos : Nat) : Prop :=
  pos + 1 < size →
    (0 < pos → ¬after (list (parent pos)) (list (size - 1)) = true) ∧
      (pos + 2 < size → Quiet after list pos (size - 2) (list (size - 1)))

theorem removeAndReheap_heap (hweak : Weak after) {size pos : Nat} {list : Nat → B}
    (h : Holed after list 0 size pos) (hin : pos < size) (hfits : Fits after list size pos) :
    Heap after (removeAndReheap after size list pos) 0 (size - 1) := by
  by_cases hlast : pos + 1 = size
  · rw [show pos = size - 1 by omega] at h ⊢
    rw [removeAndReheap_last]
    rw [show size = (size - 1) + 1 by omega] at h
    exact h.dropLast
  have hfits := hfits (by omega)
  have hmoved : ∀ i, i ≠ pos → Function.update list pos (list (size - 1)) i = list i :=
    fun i hi => Function.update_of_ne hi _ _
  have hholed : Holed after (Function.update list pos (list (size - 1))) 0 (size - 1) pos :=
    (h.mono (by omega)).congr fun i _ hi => hmoved i hi
  have habove : 0 < pos →
      ¬after (Function.update list pos (list (size - 1)) (parent pos)) (list (size - 1)) =
        true := by
    intro hpos
    have hlt := parent_lt hpos
    rw [hmoved _ (by omega)]
    exact hfits.1 hpos
  rw [removeAndReheap, Function.update_self]
  by_cases hshort : pos + 2 < size
  · have hquiet := hfits.2 hshort
    have hlen : size - 1 = (size - 2) + 1 := by omega
    rw [hlen] at hholed ⊢
    refine adjustHeap_heap_short hweak (by omega) hholed (by omega) (Nat.zero_le _)
      (fun hpos _ => by rw [← hlen]; exact habove hpos) ?_
    intro hchosen hlater
    rw [← hlen] at hchosen hlater ⊢
    have hle := hchosen.under.le
    have hlt := parent_lt (show 0 < size - 2 by omega)
    have hchosen' : Chosen after list pos (parent (size - 2)) :=
      Chosen.refl.trans hchosen fun i hi => hmoved i (by omega)
    rw [hmoved _ (by omega)] at hlater
    have hstay := hquiet hchosen' hlater
    refine ⟨hstay.1, ?_⟩
    rw [hmoved (size - 2) (by omega), hmoved (size - 2 - 1) (by omega)]
    exact hstay.2
  · rw [adjustHeap_of_le (by omega) (show size - 2 ≤ pos by omega)]
    refine hholed.fill (fun hpos _ _ => habove hpos) ?_
    intro i hi hilt hip
    have hcase := (parent_eq hi).1 hip
    omega

theorem popHeap_heap (hweak : Weak after) {size : Nat} {list : Nat → B}
    (h : Heap after list 0 size) (hsize : 0 < size) :
    Heap after (popHeap after size list (size - 1) (list (size - 1))) 0 (size - 1) := by
  rw [popHeap]
  by_cases hone : size = 1
  · intro i hi hlt
    omega
  refine adjustHeap_heap hweak (by omega) ?_ (by omega) (Nat.le_refl _) (fun hpos => by omega)
  refine ((h.withHole 0 (by omega)).mono (by omega)).congr ?_
  intro i hi _
  exact Function.update_of_ne (by omega) _ _

theorem pushHeap_heap (hweak : Weak after) {size : Nat} {list list' : Nat → B} (b : B)
    (h : Heap after list 0 size) (hsame : ∀ i, i < size → list' i = list i) :
    Heap after (pushHeap after list' size 0 b) 0 (size + 1) := by
  rw [pushHeap]
  refine pushHeapLoop_heap hweak (h.extend.congr fun i _ _ => hsame i (by omega)) (Nat.le_refl _)
    (by omega) (below_zero _) (Nat.le_refl _) (fun hpos => by omega) ?_
  intro i hi hilt hip
  have hcase := (parent_eq hi).1 hip
  omega

theorem makeHeapLoop_heap (hweak : Weak after) {size len place : Nat} (hsize : 2 ≤ size) :
    ∀ {list : Nat → B}, place < len → Heap after list (place + 1) len →
      Heap after (makeHeapLoop after size len place list) 0 len := by
  induction place with
  | zero =>
      intro list hin h
      rw [makeHeapLoop]
      exact adjustHeap_heap hweak hsize h.holeAbove hin (Nat.le_refl _) (fun hpos => by omega)
  | succ place ih =>
      intro list hin h
      rw [makeHeapLoop]
      refine ih (by omega) (adjustHeap_heap hweak hsize h.holeAbove hin (Nat.le_refl _) ?_)
      intro hpos hle
      have hlt := parent_lt hpos
      omega

theorem makeHeap_heap (hweak : Weak after) {size last : Nat} {list : Nat → B}
    (hsize : last < size) : Heap after (makeHeap after size list last) 0 last := by
  rw [makeHeap]
  by_cases hsmall : last < 2
  · intro i hi hlt
    omega
  rw [if_neg hsmall]
  refine makeHeapLoop_heap hweak (by omega) (by omega) ?_
  intro i hi hlt hle
  rw [parent] at hle
  omega

theorem makeHeap_rearranged {size last : Nat} {list : Nat → B} :
    Rearranged last list (makeHeap after size list last) := by
  rw [makeHeap]
  by_cases hsmall : last < 2
  · rw [if_pos hsmall]
    exact .refl _ _
  · rw [if_neg hsmall]
    exact makeHeapLoop_rearranged (by omega)

theorem makeHeap_heap_all (hweak : Weak after) {size : Nat} {list : Nat → B} (hsize : 0 < size)
    (hlast : ∀ i, i + 1 < size → ¬after (list i) (list (size - 1)) = true) :
    Heap after (makeHeap after size list (size - 1)) 0 size := by
  have h : Heap after (makeHeap after size list (size - 1)) 0 (size - 1) :=
    makeHeap_heap hweak (by omega)
  have hmoved : Rearranged (size - 1) list (makeHeap after size list (size - 1)) :=
    makeHeap_rearranged
  intro i hi hilt hle
  by_cases hil : i = size - 1
  · have hlt := parent_lt hi
    obtain ⟨j, hj, hsame⟩ := hmoved.source (show parent i < size - 1 by omega)
    rw [hsame, hil, hmoved.beyond (Nat.le_refl _)]
    exact hlast j (by omega)
  · exact h i hi (by omega) hle

theorem removeAndReheap_moved {size pos : Nat} {list : Nat → B} (hpos : pos < size) :
    Rearranged size list
      (Function.update (removeAndReheap after size list pos) (size - 1) (list pos)) := by
  by_cases hlast : pos + 1 = size
  · rw [show pos = size - 1 by omega, removeAndReheap_last, Function.update_eq_self]
    exact .refl _ _
  have hswap := Rearranged.moveHole (n := size) list (list pos) hpos (p := size - 1) (by omega)
  rw [Function.update_eq_self] at hswap
  have hremoved : Rearranged (size - 1) (Function.update list pos (list (size - 1)))
      (removeAndReheap after size list pos) := removeAndReheap_rearranged (by omega)
  have hrest := hremoved.updateLast (Nat.le_refl _) (x := list pos)
  rw [show size - 1 + 1 = size by omega] at hrest
  exact hswap.trans hrest

end Heap

end Repository

end Prophet

end Dtn2
