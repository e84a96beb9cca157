import Dtn2.Bundling.PrimaryBlock
import Dtn2.Framework.Coverage

/-!
# Fragments of one bundle

`FragmentState` holds the bundle that is being put together and the list of its fragments, in
the order of their offsets. `check_completed` walks through the list with a running total of what
is there without a hole. At the end the scan is also written in the arithmetic of `size_t`, with the
differences that it takes, and compared with the positions that the fragments cover.
-/

namespace Dtn2

open Framework

namespace BundleList

/-- `insert_sorted` by the fragment offset. A bundle that is freed or on the list already is not
added. -/
def insertSorted (b : Bundle) (l : List Bundle) : List Bundle :=
  if b.freed ∨ ∃ c ∈ l, c.bundleid = b.bundleid then l
  else Coverage.insertSorted (fun c => c.fragOffset.toNat) b l

/-- `erase`: whether the bundle was on the list, and the list without it. -/
def erase (b : Bundle) (l : List Bundle) : Bool × List Bundle :=
  (decide (∃ c ∈ l, c.bundleid = b.bundleid), l.eraseP fun c => c.bundleid = b.bundleid)

end BundleList

structure FragmentState where
  bundle : Bundle
  fragments : List Bundle
deriving DecidableEq, Repr

namespace FragmentState

def addFragment (state : FragmentState) (fragment : Bundle) : FragmentState :=
  { state with fragments := BundleList.insertSorted fragment state.fragments }

def eraseFragment (state : FragmentState) (fragment : Bundle) : Bool × FragmentState :=
  ((BundleList.erase fragment state.fragments).1,
    { state with fragments := (BundleList.erase fragment state.fragments).2 })

/-- The loop of `check_completed`: `doneUpTo` is the running total. -/
def checkLoop (total : Nat) : List Bundle → Nat → Exec Bool
  | [], doneUpTo => pure (decide (doneUpTo = total))
  | fragment :: fragments, doneUpTo => do
      let len := fragment.payload.length
      let offset := fragment.fragOffset.toNat
      assertThat (fragment.isFragment = true)
      if fragment.origLength.toNat ≠ total then .error (.fault .panic)
      else if doneUpTo = offset then checkLoop total fragments (doneUpTo + len)
      else if doneUpTo < offset then pure false
      else if offset + len < doneUpTo then checkLoop total fragments doneUpTo
      else checkLoop total fragments (doneUpTo + (len - (doneUpTo - offset)))

def checkCompleted (state : FragmentState) : Exec Bool :=
  checkLoop state.bundle.payload.length state.fragments 0

end FragmentState

/-- The fragment table: reassembly or fragmentation state by hash key. -/
abbrev FragmentTable := Bytes → Option FragmentState

namespace FragmentTable

def empty : FragmentTable := fun _ => none

def insert (table : FragmentTable) (key : Bytes) (state : FragmentState) : FragmentTable :=
  fun k => if k = key then some state else table k

def erase (table : FragmentTable) (key : Bytes) : FragmentTable :=
  fun k => if k = key then none else table k

@[simp] theorem insert_self (table : FragmentTable) (key : Bytes) (state : FragmentState) :
    table.insert key state key = some state := if_pos rfl

@[simp] theorem erase_self (table : FragmentTable) (key : Bytes) : table.erase key key = none :=
  if_pos rfl

end FragmentTable

/-- `get_hash_key`: the creation timestamp, the source and the destination. -/
def getHashKey (b : Bundle) : Bytes :=
  Decimal.print b.creationTs.seconds.toNat ++ ascii ['.'] ++
    Decimal.print b.creationTs.seqno.toNat ++ cString b.source.uri ++ cString b.dest.uri

/-! ## What the list and the scan say -/

section List

variable {b c : Bundle} {l : List Bundle}

/-- The list is in the order of the offsets, without a bundle on it twice. -/
structure BundleList.Wellformed (l : List Bundle) : Prop where
  sorted : Coverage.Sorted (fun c => c.fragOffset.toNat) l
  nodup : (l.map Bundle.bundleid).Nodup

theorem BundleList.mem_insertSorted (h : c ∈ BundleList.insertSorted b l) : c = b ∨ c ∈ l := by
  unfold BundleList.insertSorted at h
  split at h
  · exact Or.inr h
  · exact (Coverage.mem_insertSorted _ _ _ _).mp h

theorem BundleList.Wellformed.insertSorted (h : BundleList.Wellformed l) (b : Bundle) :
    BundleList.Wellformed (BundleList.insertSorted b l) := by
  unfold BundleList.insertSorted
  split
  · exact h
  · rename_i hnew
    rw [not_or] at hnew
    refine ⟨Coverage.sorted_insertSorted _ h.sorted b, ?_⟩
    have hperm := (Coverage.insertSorted_perm (fun c : Bundle => c.fragOffset.toNat) b l).map
      Bundle.bundleid
    rw [hperm.nodup_iff, List.map_cons, List.nodup_cons]
    refine ⟨?_, h.nodup⟩
    rw [List.mem_map]
    exact hnew.2

theorem BundleList.Wellformed.erase (h : BundleList.Wellformed l) (b : Bundle) :
    BundleList.Wellformed (BundleList.erase b l).2 :=
  ⟨h.sorted.sublist List.eraseP_sublist, h.nodup.sublist (List.eraseP_sublist.map _)⟩

end List

/-- The fragments of a bundle of `total` bytes cover all of them. -/
def CoversAll (l : List Bundle) (total : Nat) : Prop :=
  Coverage.Covers (fun c : Bundle => c.fragOffset.toNat) (fun c => c.payload.length) l total

theorem FragmentState.checkLoop_cons {total done : Nat} {c : Bundle} {l : List Bundle}
    (hc : c.isFragment = true) (hlen : c.origLength.toNat = total) :
    FragmentState.checkLoop total (c :: l) done =
      if done < c.fragOffset.toNat then .ok false
      else FragmentState.checkLoop total l
        (max done (c.fragOffset.toNat + c.payload.length)) := by
  rw [FragmentState.checkLoop, Exec.assert_bind hc, if_neg (by simpa using hlen)]
  by_cases heq : done = c.fragOffset.toNat
  · rw [if_pos heq, if_neg (by omega), heq, max_eq_right (Nat.le_add_right _ c.payload.length)]
  · rw [if_neg heq]
    by_cases hlt : done < c.fragOffset.toNat
    · rw [if_pos hlt, if_pos hlt]
      rfl
    · rw [if_neg hlt, if_neg hlt]
      by_cases hend : c.fragOffset.toNat + c.payload.length < done
      · rw [if_pos hend, max_eq_left hend.le]
      · have hsum : done + (c.payload.length - (done - c.fragOffset.toNat)) =
            c.fragOffset.toNat + c.payload.length := by omega
        rw [if_neg hend, hsum, max_eq_right (by omega)]

def scanned : List Bundle → Nat → List Bundle
  | [], _ => []
  | c :: l, done =>
      c :: if done < c.fragOffset.toNat then []
        else scanned l (max done (c.fragOffset.toNat + c.payload.length))

theorem scanned_subset {l : List Bundle} {done : Nat} {c : Bundle} (h : c ∈ scanned l done) : c ∈ l := by
  induction l generalizing done with
  | nil => cases h
  | cons d l ih =>
      rw [scanned] at h
      split at h
      · exact List.mem_cons.mpr ((List.mem_cons.mp h).imp_right fun hnil => by cases hnil)
      · exact List.mem_cons.mpr ((List.mem_cons.mp h).imp_right ih)

theorem FragmentState.checkLoop_ok_iff {total : Nat} {l : List Bundle}
    (hfrag : ∀ c ∈ l, c.isFragment = true) (done : Nat) :
    (∃ r, FragmentState.checkLoop total l done = .ok r) ↔
      ∀ c ∈ scanned l done, c.origLength.toNat = total := by
  induction l generalizing done with
  | nil =>
      rw [FragmentState.checkLoop, scanned]
      simp [pure, Except.pure]
  | cons c l ih =>
      have hc := hfrag c (by simp)
      have hrec := ih fun d hd => hfrag d (List.mem_cons_of_mem _ hd)
      rw [scanned, List.forall_mem_cons]
      by_cases hlen : c.origLength.toNat = total
      · rw [FragmentState.checkLoop_cons hc hlen]
        split
        · simp [hlen]
        · rw [hrec]
          simp [hlen]
      · rw [FragmentState.checkLoop, Exec.assert_bind hc, if_pos (by simpa using hlen)]
        simp [hlen]

theorem FragmentState.checkLoop_of_scanned {total : Nat} {l : List Bundle}
    (hfrag : ∀ c ∈ l, c.isFragment = true) {done : Nat}
    (hscan : ∀ c ∈ scanned l done, c.origLength.toNat = total) :
    FragmentState.checkLoop total l done =
      .ok (decide (Coverage.highWater (fun c : Bundle => c.fragOffset.toNat)
        (fun c => c.payload.length) l done = some total)) := by
  induction l generalizing done with
  | nil =>
      rw [FragmentState.checkLoop, Coverage.highWater]
      simp [pure, Except.pure]
  | cons c l ih =>
      rw [scanned, List.forall_mem_cons] at hscan
      rw [FragmentState.checkLoop_cons (hfrag c List.mem_cons_self) hscan.1]
      simp only [Coverage.highWater]
      by_cases hhole : done < c.fragOffset.toNat
      · rw [if_pos hhole, if_pos hhole]
        rfl
      · rw [if_neg hhole, if_neg hhole]
        apply ih fun d hd => hfrag d (List.mem_cons_of_mem c hd)
        intro d hd
        apply hscan.2
        rwa [if_neg hhole]

theorem FragmentState.checkLoop_eq {total : Nat} {l : List Bundle}
    (hfrag : ∀ c ∈ l, c.isFragment = true ∧ c.origLength.toNat = total) (done : Nat) :
    FragmentState.checkLoop total l done =
      .ok (decide (Coverage.highWater (fun c : Bundle => c.fragOffset.toNat)
        (fun c => c.payload.length) l done = some total)) :=
  FragmentState.checkLoop_of_scanned (fun c hc => (hfrag c hc).1)
    fun c hc => (hfrag c (scanned_subset hc)).2

theorem FragmentState.checkCompleted_eq {state : FragmentState}
    (hl : BundleList.Wellformed state.fragments)
    (hfrag : ∀ c ∈ state.fragments, c.isFragment = true ∧
      c.origLength.toNat = state.bundle.payload.length ∧
      c.fragOffset.toNat + c.payload.length ≤ state.bundle.payload.length) :
    ∃ done, state.checkCompleted = .ok done ∧
      (done = true ↔ CoversAll state.fragments state.bundle.payload.length) := by
  refine ⟨_, FragmentState.checkLoop_eq (fun c hc => ⟨(hfrag c hc).1, (hfrag c hc).2.1⟩) 0, ?_⟩
  rw [decide_eq_true_eq, Coverage.highWater_eq_iff hl.sorted fun c hc => (hfrag c hc).2.2]
  rfl

/-! ## The check in `size_t` -/

namespace FragmentState

/-- A sum in `size_t`. -/
def sizeAdd (a b : Nat) : Nat := (a + b) % 2 ^ 64

theorem sizeAdd_of_lt {a b : Nat} (h : a + b < 2 ^ 64) : sizeAdd a b = a + b := Nat.mod_eq_of_lt h

/-- The loop of `check_completed` in `size_t`, with both sides of every subtraction. -/
def checkSizes (total : Nat) : List Bundle → Nat → Exec (Bool × List (Nat × Nat))
  | [], doneUpTo => pure (decide (doneUpTo = total), [])
  | fragment :: fragments, doneUpTo => do
      let len := fragment.payload.length
      let offset := fragment.fragOffset.toNat
      assertThat (fragment.isFragment = true)
      if fragment.origLength.toNat ≠ total then .error (.fault .panic)
      else if doneUpTo = offset then checkSizes total fragments (sizeAdd doneUpTo len)
      else if doneUpTo < offset then pure (false, [])
      else if sizeAdd offset len < doneUpTo then checkSizes total fragments doneUpTo
      else do
        let overlap := sizeSub doneUpTo offset
        let r ← checkSizes total fragments (sizeAdd doneUpTo (sizeSub len overlap))
        pure (r.1, (doneUpTo, offset) :: (len, overlap) :: r.2)

/-- The fragments are of one bundle of `total` bytes, and stay inside of it. -/
def FragmentsOf (total : Nat) (l : List Bundle) : Prop :=
  ∀ c ∈ l, c.isFragment = true ∧ c.origLength.toNat = total ∧
    c.fragOffset.toNat + c.payload.length ≤ total

theorem checkSizes_eq {total : Nat} {l : List Bundle} (hfrag : FragmentsOf total l) {done : Nat} (hdone : done ≤ total) :
    ∃ b differences, checkSizes total l done = .ok (b, differences) ∧
      checkLoop total l done = .ok b ∧ ∀ d ∈ differences, d.2 ≤ d.1 := by
  induction l generalizing done with
  | nil => exact ⟨_, [], rfl, rfl, fun d hd => absurd hd List.not_mem_nil⟩
  | cons c l ih =>
      obtain ⟨hc, hlen, hend⟩ := hfrag c List.mem_cons_self
      have htotal : total < 2 ^ 64 := by
        have hlt := c.origLength.toNat_lt
        omega
      have hrest : FragmentsOf total l := fun d hd => hfrag d (List.mem_cons_of_mem _ hd)
      rw [checkSizes, checkLoop, Exec.assert_bind hc, Exec.assert_bind hc,
        if_neg (not_not.mpr hlen), if_neg (not_not.mpr hlen)]
      by_cases hfit : done = c.fragOffset.toNat
      · rw [if_pos hfit, if_pos hfit, sizeAdd_of_lt (by omega)]
        exact ih hrest (by omega)
      · rw [if_neg hfit, if_neg hfit]
        by_cases hhole : done < c.fragOffset.toNat
        · rw [if_pos hhole, if_pos hhole]
          exact ⟨false, [], rfl, rfl, fun d hd => absurd hd List.not_mem_nil⟩
        · rw [if_neg hhole, if_neg hhole, sizeAdd_of_lt (by omega)]
          by_cases hredundant : c.fragOffset.toNat + c.payload.length < done
          · rw [if_pos hredundant, if_pos hredundant]
            exact ih hrest hdone
          · have hoverlap : sizeSub done c.fragOffset.toNat = done - c.fragOffset.toNat :=
              sizeSub_of_le (by omega) (by omega)
            have hleft : sizeSub c.payload.length (done - c.fragOffset.toNat) =
                c.payload.length - (done - c.fragOffset.toNat) :=
              sizeSub_of_le (by omega) (by omega)
            rw [if_neg hredundant, if_neg hredundant]
            dsimp only
            rw [hoverlap, hleft, sizeAdd_of_lt (by omega)]
            have hnext : done + (c.payload.length - (done - c.fragOffset.toNat)) ≤ total := by omega
            obtain ⟨b, differences, hsizes, hloop, hle⟩ := ih hrest hnext
            refine ⟨b, (done, c.fragOffset.toNat) ::
              (c.payload.length, done - c.fragOffset.toNat) :: differences, ?_, hloop, ?_⟩
            · rw [hsizes]
              rfl
            · rw [List.forall_mem_cons, List.forall_mem_cons]
              exact ⟨by omega, by omega, hle⟩

/-- `check_completed` says whether every position of the bundle lies in a fragment, and no subtraction
of it goes below zero. -/
theorem checkCompleted_covers {state : FragmentState}
    (hsorted : Coverage.Sorted (fun c : Bundle => c.fragOffset.toNat) state.fragments)
    (hfrag : FragmentsOf state.bundle.payload.length state.fragments) :
    ∃ done differences, state.checkCompleted = .ok done ∧
      checkSizes state.bundle.payload.length state.fragments 0 = .ok (done, differences) ∧
      (∀ d ∈ differences, d.2 ≤ d.1) ∧
      (done = true ↔ ∀ x < state.bundle.payload.length, ∃ c ∈ state.fragments,
        c.fragOffset.toNat ≤ x ∧ x < c.fragOffset.toNat + c.payload.length) := by
  obtain ⟨done, differences, hsizes, hloop, hle⟩ := checkSizes_eq hfrag (Nat.zero_le _)
  refine ⟨done, differences, hloop, hsizes, hle, ?_⟩
  have hscan := checkLoop_eq (fun c hc => ⟨(hfrag c hc).1, (hfrag c hc).2.1⟩) 0
  rw [hloop] at hscan
  rw [Except.ok.inj hscan, decide_eq_true_eq,
    Coverage.highWater_eq_iff hsorted fun c hc => (hfrag c hc).2.2]
  rfl

def samplePiece (id : Nat) (offset : UInt32) (data : Bytes) : Bundle :=
  { Bundle.new id 0 with
    isFragment := true
    fragOffset := offset
    origLength := 6
    payload := ⟨.memory, data⟩ }

/-- Six bytes in three fragments, of which one overlaps and one has no bytes. -/
def samplePieces : FragmentState where
  bundle := { Bundle.new 1 0 with payload := ⟨.memory, [1, 2, 3, 4, 5, 6]⟩ }
  fragments := [samplePiece 2 0 [1, 2, 3, 4], samplePiece 3 2 [], samplePiece 4 3 [4, 5, 6]]

theorem checkCompleted_covers_sample :
    ∃ done differences, samplePieces.checkCompleted = .ok done ∧
      checkSizes samplePieces.bundle.payload.length samplePieces.fragments 0 =
        .ok (done, differences) ∧
      (∀ d ∈ differences, d.2 ≤ d.1) ∧
      (done = true ↔ ∀ x < samplePieces.bundle.payload.length, ∃ c ∈ samplePieces.fragments,
        c.fragOffset.toNat ≤ x ∧ x < c.fragOffset.toNat + c.payload.length) :=
  checkCompleted_covers (by unfold Coverage.Sorted; decide) (by unfold FragmentsOf; decide)

end FragmentState

end Dtn2
