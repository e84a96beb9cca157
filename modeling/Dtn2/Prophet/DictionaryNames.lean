import Dtn2.Prophet.DictionaryMaps

/-!
# Names and string ids are one-to-one

The names of the two peers are outside the maps, and `assign` compares a new name with neither of them.
A dictionary is one-to-one as long as no name that it has is assigned again, and the roles are those of
the peers as long as no others were assigned.
-/

namespace Dtn2

namespace Prophet

namespace DictionaryMaps

open Prophet.Dictionary (invalidSid)

inductive Call where
  | insert (destId : Bytes)
  | assign (destId : Bytes) (sid : UInt16)
  | ribd (sender receiver : Bytes)
deriving DecidableEq, Repr

def step (m : DictionaryMaps) : Call → DictionaryMaps
  | .insert destId => (m.insert destId).1
  | .assign destId sid => (m.assign destId sid).2
  | .ribd sender receiver => m.withRoles sender receiver

/-- The lookups are inverse to each other. -/
structure OneToOne (m : DictionaryMaps) : Prop where
  find : ∀ e s, e ≠ [] → m.find e = s → s ≠ invalidSid → m.findId s = e
  findId : ∀ s e, m.findId s = e → e ≠ [] → m.find e = s

/-- After `ribd` the first two string ids denote the peers. -/
def RolesKept (m : DictionaryMaps) : Call → Prop
  | .ribd sender receiver => m.findId 0 = sender ∧ m.findId 1 = receiver
  | _ => True

def RunHolds : List Call → DictionaryMaps → Prop
  | [], m => m.OneToOne
  | c :: calls, m => m.OneToOne ∧ (m.step c).RolesKept c ∧ RunHolds calls (m.step c)

/-- The condition for a name that is to be assigned: it has no string id yet, or it does not get one, as
the string id is reserved or has a name, or both have an entry in the maps. -/
def MayAssign (m : DictionaryMaps) (destId : Bytes) (sid : UInt16) : Prop :=
  m.find destId = invalidSid ∨ sid = invalidSid ∨ m.findId sid ≠ [] ∨
    (1 < (m.find destId).toNat ∧ 1 < sid.toNat)

/-- The condition for a call. A peer has its role already, or the role is free and the peer has no string
id. -/
def Meets (m : DictionaryMaps) : Call → Prop
  | .insert _ => True
  | .assign destId sid => m.MayAssign destId sid
  | .ribd sender receiver =>
      (m.findId 0 = sender ∨ m.findId 0 = [] ∧ m.find sender = invalidSid) ∧
      (m.findId 1 = receiver ∨
        m.findId 1 = [] ∧ m.find receiver = invalidSid ∧ receiver ≠ sender)

def RunMeets : List Call → DictionaryMaps → Prop
  | [], _ => True
  | c :: calls, m => m.Meets c ∧ RunMeets calls (m.step c)

/-! ## The names of the peers -/

/-- The peers have different names, which are not in the maps. -/
@[mk_iff]
structure Distinct (m : DictionaryMaps) : Prop where
  peers : m.receiver = m.sender → m.sender = []
  sender : m.ribd.lookup m.sender = none
  receiver : m.ribd.lookup m.receiver = none

variable {m : DictionaryMaps}

theorem InSync.lookup_nil (h : InSync m) : m.ribd.lookup [] = none := by
  cases hs : m.ribd.lookup [] with
  | none => rfl
  | some s => exact absurd rfl (h.named hs).2.2.2

theorem findId_zero : m.findId 0 = m.sender := rfl

theorem findId_one : m.findId 1 = m.receiver := rfl

theorem find_sender (hn : m.sender ≠ []) : m.find m.sender = 0 := by
  rw [find, if_neg hn, if_pos rfl]

theorem find_receiver (hn : m.receiver ≠ []) : m.find m.receiver = 0 ∨ m.find m.receiver = 1 := by
  rw [find, if_neg hn, if_pos rfl]
  split
  · exact Or.inl rfl
  · exact Or.inr rfl

theorem find_eq_of_ne {e : Bytes} (hn : e ≠ []) (hs : e ≠ m.sender) (hr : e ≠ m.receiver) :
    m.find e = (m.ribd.lookup e).getD invalidSid := by
  rw [find, if_neg hn, if_neg hs, if_neg hr]

theorem InSync.find_eq_invalid (h : InSync m) {e : Bytes} :
    m.find e = invalidSid ↔ e = [] ∨ e ≠ m.sender ∧ e ≠ m.receiver ∧ m.ribd.lookup e = none := by
  rw [find]
  by_cases hn : e = []
  · rw [if_pos hn]
    exact ⟨fun _ => Or.inl hn, fun _ => rfl⟩
  rw [if_neg hn]
  by_cases hs : e = m.sender
  · rw [if_pos hs]
    refine ⟨fun hz => absurd hz (by decide), fun hor => ?_⟩
    rcases hor with hor | hor
    · exact absurd hor hn
    · exact absurd hs hor.1
  rw [if_neg hs]
  by_cases hr : e = m.receiver
  · rw [if_pos hr]
    refine ⟨fun hz => absurd hz (by decide), fun hor => ?_⟩
    rcases hor with hor | hor
    · exact absurd hor hn
    · exact absurd hr hor.2.1
  rw [if_neg hr]
  cases hl : m.ribd.lookup e with
  | none => exact ⟨fun _ => Or.inr ⟨hs, hr, rfl⟩, fun _ => rfl⟩
  | some s =>
      refine ⟨fun hz => absurd hz (h.named hl).2.2.1, fun hor => ?_⟩
      rcases hor with hor | hor
      · exact absurd hor hn
      · exact absurd hor.2.2 (Option.some_ne_none s)

theorem OneToOne.distinct (hone : OneToOne m) (h : InSync m) : Distinct m := by
  have hout : ∀ e s, m.ribd.lookup e = some s → m.find e = s := by
    intro e s hl
    have hproper := h.named hl
    refine hone.findId s e ?_ hproper.2.2.2
    rw [findId_of_ne hproper.1 hproper.2.1, (h.inverse e s).mp hl]
    rfl
  constructor
  · intro heq
    by_contra hne
    have hone' := hone.findId 1 m.sender heq hne
    rw [find_sender hne] at hone'
    exact absurd hone' (by decide)
  · cases hl : m.ribd.lookup m.sender with
    | none => rfl
    | some s =>
        have hproper := h.named hl
        have hfind := hout _ s hl
        rw [find_sender hproper.2.2.2] at hfind
        exact absurd hfind.symm hproper.1
  · cases hl : m.ribd.lookup m.receiver with
    | none => rfl
    | some s =>
        have hproper := h.named hl
        have hfind := hout _ s hl
        rcases find_receiver hproper.2.2.2 with h0 | h1
        · exact absurd (hfind.symm.trans h0) hproper.1
        · exact absurd (hfind.symm.trans h1) hproper.2.1

theorem Distinct.oneToOne (hd : Distinct m) (h : InSync m) : OneToOne m := by
  constructor
  · intro e s hn hs hne
    by_cases hsender : e = m.sender
    · rw [find, if_neg hn, if_pos hsender] at hs
      rw [← hs, hsender]
      rfl
    by_cases hreceiver : e = m.receiver
    · rw [find, if_neg hn, if_neg hsender, if_pos hreceiver] at hs
      rw [← hs, hreceiver]
      rfl
    · rw [find_eq_of_ne hn hsender hreceiver] at hs
      cases hl : m.ribd.lookup e with
      | none =>
          rw [hl] at hs
          exact absurd hs.symm hne
      | some t =>
          rw [hl] at hs
          have hproper := h.named hl
          rw [← hs, Option.getD_some, findId_of_ne hproper.1 hproper.2.1, (h.inverse e t).mp hl]
          rfl
  · intro s e hs hn
    by_cases h0 : s = 0
    · rw [h0, findId_zero] at hs
      rw [find, if_neg hn, if_pos hs.symm, h0]
    by_cases h1 : s = 1
    · rw [h1, findId_one] at hs
      have hne : e ≠ m.sender := fun heq => by
        rw [← hs] at heq
        have hnil := hd.peers heq
        rw [← hs, heq] at hn
        exact hn hnil
      rw [find, if_neg hn, if_neg hne, if_pos hs.symm, h1]
    · rw [findId_of_ne h0 h1] at hs
      cases hl : m.rribd.lookup s with
      | none =>
          rw [hl] at hs
          exact absurd hs.symm hn
      | some t =>
          rw [hl] at hs
          obtain rfl : t = e := hs
          have hback := (h.inverse t s).mpr hl
          have hsender : t ≠ m.sender := fun heq => by
            rw [heq, hd.sender] at hback
            cases hback
          have hreceiver : t ≠ m.receiver := fun heq => by
            rw [heq, hd.receiver] at hback
            cases hback
          rw [find_eq_of_ne hn hsender hreceiver, hback]
          rfl

theorem InSync.oneToOne_iff (h : InSync m) : OneToOne m ↔ Distinct m :=
  ⟨fun hone => hone.distinct h, fun hd => hd.oneToOne h⟩

/-! ## One call -/

theorem toNat_find_le_one {e : Bytes} (hn : e ≠ []) (hpeer : e = m.sender ∨ e = m.receiver) :
    (m.find e).toNat ≤ 1 := by
  rcases hpeer with rfl | rfl
  · rw [find_sender hn]
    decide
  · rcases find_receiver hn with h0 | h1
    · rw [h0]
      decide
    · rw [h1]
      decide

theorem not_refuses_of {destId : Bytes} {sid : UInt16} {r : Bool × DictionaryMaps} (h : InSync m)
    (ha : Assigned m destId sid r) (htrue : r.1 = true) : ¬m.Refuses destId sid := by
  intro href
  rw [ha.eq_of_refuses h href] at htrue
  cases htrue

theorem one_lt_toNat {s : UInt16} (h0 : s ≠ 0) (h1 : s ≠ 1) : 1 < s.toNat := by
  have hn0 : s.toNat ≠ 0 := fun hz => h0 (UInt16.toNat_inj.mp hz)
  have hn1 : s.toNat ≠ 1 := fun hz => h1 (UInt16.toNat_inj.mp hz)
  omega

theorem InSync.mayAssign_iff (h : InSync m) (hd : Distinct m) {destId : Bytes} {sid : UInt16} :
    m.MayAssign destId sid ↔ m.find destId = invalidSid ∨ m.Refuses destId sid := by
  rw [MayAssign, Refuses]
  constructor
  · intro hor
    rcases hor with hor | hor | hor | ⟨hfind, hsid⟩
    · exact Or.inl hor
    · exact Or.inr (Or.inr (Or.inl hor))
    · exact Or.inr (Or.inr (Or.inr (Or.inl hor)))
    · by_cases hn : destId = []
      · exact Or.inr (Or.inl hn)
      have hpeer : ¬(destId = m.sender ∨ destId = m.receiver) := fun hpeer => by
        have hle := toNat_find_le_one hn hpeer
        omega
      rw [not_or] at hpeer
      cases hl : m.ribd.lookup destId with
      | none => exact Or.inl (h.find_eq_invalid.mpr (Or.inr ⟨hpeer.1, hpeer.2, hl⟩))
      | some s =>
          refine Or.inr (Or.inr (Or.inr (Or.inr ⟨?_, ?_, Option.some_ne_none s⟩)))
          · rintro rfl
            exact absurd hsid (by decide)
          · rintro rfl
            exact absurd hsid (by decide)
  · intro hor
    rcases hor with hor | hor | hor | hor | ⟨h0, h1, hname⟩
    · exact Or.inl hor
    · exact Or.inl (h.find_eq_invalid.mpr (Or.inl hor))
    · exact Or.inr (Or.inl hor)
    · exact Or.inr (Or.inr (Or.inl hor))
    · obtain ⟨s, hl⟩ := Option.ne_none_iff_exists'.mp hname
      have hproper := h.named hl
      have hsender : destId ≠ m.sender := fun heq => hname (heq ▸ hd.sender)
      have hreceiver : destId ≠ m.receiver := fun heq => hname (heq ▸ hd.receiver)
      refine Or.inr (Or.inr (Or.inr ⟨?_, one_lt_toNat h0 h1⟩))
      rw [find_eq_of_ne hproper.2.2.2 hsender hreceiver, hl]
      exact one_lt_toNat hproper.1 hproper.2.1

theorem Distinct.withEntry (hd : Distinct m) {destId : Bytes} {sid : UInt16}
    (hsender : destId ≠ m.sender) (hreceiver : destId ≠ m.receiver) :
    Distinct (m.withEntry destId sid) := by
  refine ⟨hd.peers, ?_, ?_⟩
  · show (m.ribd.insert destId sid).lookup m.sender = none
    rw [AList.lookup_insert_ne (Ne.symm hsender), hd.sender]
  · show (m.ribd.insert destId sid).lookup m.receiver = none
    rw [AList.lookup_insert_ne (Ne.symm hreceiver), hd.receiver]

/-- A name that is new to the dictionary keeps the names apart, whatever it is assigned to. -/
theorem Distinct.assign_iff (hd : Distinct m) (h : InSync m) (destId : Bytes) (sid : UInt16) :
    Distinct (m.assign destId sid).2 ↔ m.MayAssign destId sid := by
  rw [h.mayAssign_iff hd]
  have hcases := h.assign_cases destId sid
  generalize m.assign destId sid = r at hcases
  have hnot := not_refuses_of h hcases
  cases hcases with
  | refused href => exact ⟨fun _ => Or.inr href, fun _ => hd⟩
  | sender hn h0 hs =>
      rw [or_iff_left (hnot rfl), h.find_eq_invalid, or_iff_right hn]
      constructor
      · intro hnew
        refine ⟨?_, ?_, hnew.sender⟩
        · rw [hs]
          exact hn
        · intro heq
          exact hn (hnew.peers heq.symm)
      · intro ⟨_, hreceiver, hl⟩
        exact ⟨fun heq => absurd heq.symm hreceiver, hl, hd.receiver⟩
  | receiver hn h1 hr =>
      rw [or_iff_left (hnot rfl), h.find_eq_invalid, or_iff_right hn]
      constructor
      · intro hnew
        refine ⟨?_, ?_, hnew.receiver⟩
        · intro heq
          exact hn (heq.trans (hnew.peers heq))
        · rw [hr]
          exact hn
      · intro ⟨hsender, _, hl⟩
        exact ⟨fun heq => absurd heq hsender, hd.sender, hl⟩
  | entry hproper hname hfree =>
      rw [or_iff_left (hnot rfl), h.find_eq_invalid, or_iff_right hproper.2.2.2]
      constructor
      · intro hnew
        refine ⟨?_, ?_, hname⟩
        · rintro rfl
          have hself := hnew.sender
          rw [DictionaryMaps.withEntry, AList.lookup_insert] at hself
          cases hself
        · rintro rfl
          have hself := hnew.receiver
          rw [DictionaryMaps.withEntry, AList.lookup_insert] at hself
          cases hself
      · intro ⟨hsender, hreceiver, _⟩
        exact hd.withEntry hsender hreceiver

theorem InSync.assign (h : InSync m) (destId : Bytes) (sid : UInt16) :
    InSync (m.assign destId sid).2 :=
  (h.assign_cases destId sid).inSync h

theorem InSync.insert (h : InSync m) (hd : Distinct m) (destId : Bytes) :
    InSync (m.insert destId).1 ∧ Distinct (m.insert destId).1 := by
  rcases h.insert_cases destId with heq | ⟨hfind, hcases⟩
  · rw [heq]
    exact ⟨h, hd⟩
  · generalize m.insert destId = r at hcases
    cases hcases with
    | nothing => exact ⟨h, hd⟩
    | entry sid hproper hname hfree =>
        rw [h.find_eq_invalid, or_iff_right hproper.2.2.2] at hfind
        exact ⟨h.withEntry hname hfree hproper, hd.withEntry hfind.1 hfind.2.1⟩

theorem InSync.assign_zero (h : InSync m) (name : Bytes) :
    (m.assign name 0).2 = { m with sender := if m.sender = [] then name else m.sender } := by
  have hcases := h.assign_cases name 0
  generalize m.assign name 0 = r at hcases
  have hnot := not_refuses_of h hcases
  cases hcases with
  | refused href =>
      split
      · rename_i hs
        rcases href with hr | hr | hr | hr
        · rw [hr, ← hs]
        · exact absurd hr (by decide)
        · exact absurd hs hr
        · exact absurd rfl hr.1
      · rfl
  | sender _ _ hs => rw [if_pos hs]
  | receiver _ h1 _ => exact absurd h1 (by decide)
  | entry hproper _ _ => exact absurd rfl hproper.1

theorem InSync.assign_one (h : InSync m) (name : Bytes) :
    (m.assign name 1).2 = { m with receiver := if m.receiver = [] then name else m.receiver } := by
  have hcases := h.assign_cases name 1
  generalize m.assign name 1 = r at hcases
  cases hcases with
  | refused href =>
      split
      · rename_i hs
        rcases href with hr | hr | hr | hr
        · rw [hr, ← hs]
        · exact absurd hr (by decide)
        · exact absurd hs hr
        · exact absurd rfl hr.2.1
      · rfl
  | sender _ h0 _ => exact absurd h0 (by decide)
  | receiver _ _ hs => rw [if_pos hs]
  | entry hproper _ _ => exact absurd rfl hproper.2.1

theorem InSync.withRoles_eq (h : InSync m) (sender receiver : Bytes) :
    m.withRoles sender receiver = { m with
      sender := if m.sender = [] then sender else m.sender
      receiver := if m.receiver = [] then receiver else m.receiver } := by
  rw [withRoles, h.assign_zero, (h.with_sender _).assign_one]

theorem InSync.withRoles_iff (h : InSync m) (hd : Distinct m) (sender receiver : Bytes) :
    Distinct (m.withRoles sender receiver) ∧
        (m.withRoles sender receiver).RolesKept (.ribd sender receiver) ↔
      m.Meets (.ribd sender receiver) := by
  have hnil := h.lookup_nil
  have hpeers := hd.peers
  have hsender := hd.sender
  have hreceiver := hd.receiver
  rw [RolesKept, Meets, h.withRoles_eq, findId_zero, findId_one, findId_zero, findId_one,
    h.find_eq_invalid, h.find_eq_invalid, distinct_iff]
  dsimp only
  by_cases hs : m.sender = [] <;> by_cases hr : m.receiver = []
  · rw [if_pos hs, if_pos hr]
    grind
  · rw [if_pos hs, if_neg hr]
    grind
  · rw [if_neg hs, if_pos hr]
    grind
  · rw [if_neg hs, if_neg hr]
    grind

/-- A call keeps the names apart, and gives the peers their roles, exactly if it meets the condition. -/
theorem InSync.step_iff (h : InSync m) (hd : Distinct m) (c : Call) :
    InSync (m.step c) ∧ (Distinct (m.step c) ∧ (m.step c).RolesKept c ↔ m.Meets c) := by
  cases c with
  | insert destId =>
      have hinsert := h.insert hd destId
      exact ⟨hinsert.1, fun _ => trivial, fun _ => ⟨hinsert.2, trivial⟩⟩
  | assign destId sid =>
      have hassign := hd.assign_iff h destId sid
      exact ⟨h.assign destId sid, fun hnew => hassign.mp hnew.1,
        fun hmeets => ⟨hassign.mpr hmeets, trivial⟩⟩
  | ribd sender receiver =>
      exact ⟨(h.assign sender 0).assign receiver 1, h.withRoles_iff hd sender receiver⟩

/-! ## Runs -/

theorem InSync.run_iff (h : InSync m) (calls : List Call) :
    RunHolds calls m ↔ Distinct m ∧ RunMeets calls m := by
  induction calls generalizing m with
  | nil =>
      rw [RunHolds, RunMeets, h.oneToOne_iff]
      exact (and_iff_left trivial).symm
  | cons c calls ih =>
      rw [RunHolds, RunMeets, h.oneToOne_iff]
      refine and_congr_right fun hd => ?_
      obtain ⟨hsync, hstep⟩ := h.step_iff hd c
      rw [ih hsync, ← hstep]
      tauto

theorem distinct_new_iff (sender receiver : Bytes) :
    Distinct (new sender receiver) ↔ (receiver = sender → sender = []) :=
  ⟨fun hd => hd.peers, fun hpeers => ⟨hpeers, AList.lookup_empty _, AList.lookup_empty _⟩⟩

end DictionaryMaps

/-! ## Dictionaries that were received -/

namespace RIBDTLV

open DictionaryMaps

theorem readEntries_assigns {count : Nat} :
    ∀ {sid : UInt16} {destId bp : Bytes} {ribd : Dictionary} {len amtRead : Nat}
      {r : Dictionary × Nat} {m : DictionaryMaps},
      readEntries count sid destId ribd bp len amtRead = .ok r → Represents m ribd →
        ∃ entries : List (Bytes × UInt16),
          Represents ((entries.map fun e => Call.assign e.1 e.2).foldl step m) r.1 := by
  induction count with
  | zero =>
      intro sid destId bp ribd len amtRead r m hread hrep
      cases hread
      exact ⟨[], hrep⟩
  | succ count ih =>
      intro sid destId bp ribd len amtRead r m hread hrep
      rw [readEntries] at hread
      obtain ⟨entry, _, hread⟩ := Exec.bind_eq_ok.mp hread
      dsimp only at hread
      split at hread
      · cases hread
        exact ⟨[], hrep⟩
      · have hassign := hrep.assign entry.2.2 entry.2.1
        cases hnext : ribd.assign entry.2.2 entry.2.1 with
        | none =>
            rw [hnext] at hread
            cases hread
            exact ⟨[], hrep⟩
        | some ribd' =>
            rw [hnext] at hread hassign
            obtain ⟨entries, hentries⟩ := ih hread hassign.2
            exact ⟨(entry.2.2, entry.2.1) :: entries, hentries⟩

theorem deserialize_assigns {bp : Bytes} {len : Nat} {tlv : TLV} {d : Dictionary}
    (h : deserialize bp len = .ok (some tlv)) (hbody : tlv.body = .ribd d) :
    ∃ entries : List (Bytes × UInt16),
      Represents ((entries.map fun e => Call.assign e.1 e.2).foldl step (new [] [])) d := by
  rw [deserialize] at h
  obtain ⟨type, _, h⟩ := Exec.bind_eq_ok.mp h
  split at h
  · cases h
  split at h
  · cases h
  obtain ⟨length, _, h⟩ := Exec.bind_eq_ok.mp h
  split at h
  · cases h
  obtain ⟨flags, _, h⟩ := Exec.bind_eq_ok.mp h
  obtain ⟨entryCount, _, h⟩ := Exec.bind_eq_ok.mp h
  obtain ⟨read, hread, h⟩ := Exec.bind_eq_ok.mp h
  dsimp only at h
  split at h
  · cases h
    cases hbody
    exact readEntries_assigns hread (represents_new [] [])
  · cases h

end RIBDTLV

namespace DictionaryMaps

/-- A dictionary is one-to-one throughout a sequence of calls, with the peers in their roles after
`ribd`, exactly if it starts with different peers and every call meets its condition; and what a peer
sends makes such a sequence. -/
theorem run_oneToOne_iff (sender receiver : Bytes) (calls : List Call) :
    (RunHolds calls (new sender receiver) ↔
      (receiver = sender → sender = []) ∧ RunMeets calls (new sender receiver)) ∧
    ∀ (bp : Bytes) (len : Nat) (tlv : TLV) (d : Dictionary),
      RIBDTLV.deserialize bp len = .ok (some tlv) → tlv.body = .ribd d →
        ∃ entries : List (Bytes × UInt16),
          Represents ((entries.map fun e => Call.assign e.1 e.2).foldl step (new [] [])) d := by
  refine ⟨?_, fun bp len tlv d h hbody => RIBDTLV.deserialize_assigns h hbody⟩
  rw [(inSync_new sender receiver).run_iff, distinct_new_iff]

/-- A peer that calls itself `q` assigns 1 to another name, and 2 to its own. -/
theorem run_not_oneToOne :
    ¬RunHolds [.assign [0x70] 1, .assign [0x71] 2, .ribd [0x71] [0x72]] (new [] []) := by
  intro ⟨_, _, _, _, _, hroles, hone⟩
  exact absurd hroles.2 (by decide)

end DictionaryMaps

end Prophet

end Dtn2
