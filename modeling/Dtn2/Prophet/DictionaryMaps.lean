import Dtn2.Prophet.Encounter
import Mathlib.Data.List.AList

/-!
# The two maps of a dictionary

A `Dictionary` has a map for either direction, and the names of the two peers outside of them. `assign`
puts an entry into one map, then into the other, and takes it back where the second one has the key.
The maps stay inverse to each other, and the dictionary with one list stands for them.
-/

namespace Dtn2

namespace Prophet

/-- `Dictionary` with its two maps. -/
structure DictionaryMaps where
  sender : Bytes
  receiver : Bytes
  ribd : AList fun _ : Bytes => UInt16
  rribd : AList fun _ : UInt16 => Bytes

namespace DictionaryMaps

open Prophet.Dictionary (invalidSid)

def new (sender receiver : Bytes) : DictionaryMaps := ⟨sender, receiver, ∅, ∅⟩

def find (m : DictionaryMaps) (destId : Bytes) : UInt16 :=
  if destId = [] then invalidSid
  else if destId = m.sender then 0
  else if destId = m.receiver then 1
  else (m.ribd.lookup destId).getD invalidSid

/-- `find` by string id. -/
def findId (m : DictionaryMaps) (sid : UInt16) : Bytes :=
  if sid = 0 then m.sender
  else if sid = 1 then m.receiver
  else (m.rribd.lookup sid).getD []

/-- `insert` into both maps. The first one loses the entry again if the second one does not take it. -/
def assignMaps (m : DictionaryMaps) (destId : Bytes) (sid : UInt16) : Bool × DictionaryMaps :=
  if (m.ribd.lookup destId).isSome then (false, m)
  else
    let ribd := m.ribd.insert destId sid
    if (m.rribd.lookup sid).isSome then (false, { m with ribd := ribd.erase destId })
    else
      let rribd := m.rribd.insert sid destId
      (decide (ribd.entries.length = rribd.entries.length), { m with ribd := ribd, rribd := rribd })

def assign (m : DictionaryMaps) (destId : Bytes) (sid : UInt16) : Bool × DictionaryMaps :=
  if destId = [] then (false, m)
  else if m.ribd.entries.length ≠ m.rribd.entries.length then (false, m)
  else if sid = 0 then
    if m.sender = [] then (true, { m with sender := destId }) else (false, m)
  else if sid = 1 then
    if m.receiver = [] then (true, { m with receiver := destId }) else (false, m)
  else if sid = invalidSid then (false, m)
  else m.assignMaps destId sid

/-- The loop of `insert`. There are fewer than 65536 string ids. -/
def insertLoop (destId : Bytes) : Nat → DictionaryMaps → UInt16 → DictionaryMaps × UInt16
  | 0, m, _ => (m, invalidSid)
  | fuel + 1, m, sid =>
      let r := m.assign destId sid
      if r.1 then (r.2, sid)
      else if sid + 1 = invalidSid then ((r.2.assign destId (sid + 1)).2, invalidSid)
      else insertLoop destId fuel r.2 (sid + 1)

def insert (m : DictionaryMaps) (destId : Bytes) : DictionaryMaps × UInt16 :=
  if destId = [] then (m, invalidSid)
  else if m.find destId ≠ invalidSid then (m, invalidSid)
  else if UInt16.ofNat (m.ribd.entries.length + 2) = invalidSid then (m, invalidSid)
  else insertLoop destId 65536 m (UInt16.ofNat (m.ribd.entries.length + 2))

/-- `RIBDTLV::ribd`. -/
def withRoles (m : DictionaryMaps) (sender receiver : Bytes) : DictionaryMaps :=
  ((m.assign sender 0).2.assign receiver 1).2

/-! ## The maps are inverse to each other -/

/-- The maps have the same entries, and none for a reserved string id or the empty name. -/
structure InSync (m : DictionaryMaps) : Prop where
  inverse : ∀ e s, m.ribd.lookup e = some s ↔ m.rribd.lookup s = some e
  size : m.ribd.entries.length = m.rribd.entries.length
  proper : ∀ e s, m.rribd.lookup s = some e → Dictionary.Proper (s, e)

variable {m : DictionaryMaps} {destId : Bytes} {sid : UInt16}

theorem inSync_new (sender receiver : Bytes) : InSync (new sender receiver) := by
  constructor
  · intro e s
    simp [new]
  · rfl
  · intro e s h
    simp [new] at h

theorem InSync.named (h : InSync m) {e : Bytes} {s : UInt16} (hm : m.ribd.lookup e = some s) :
    Dictionary.Proper (s, e) :=
  h.proper e s ((h.inverse e s).mp hm)

theorem InSync.with_sender (h : InSync m) (name : Bytes) : InSync { m with sender := name } :=
  ⟨h.inverse, h.size, h.proper⟩

theorem InSync.with_receiver (h : InSync m) (name : Bytes) : InSync { m with receiver := name } :=
  ⟨h.inverse, h.size, h.proper⟩

def withEntry (m : DictionaryMaps) (destId : Bytes) (sid : UInt16) : DictionaryMaps :=
  { m with ribd := m.ribd.insert destId sid, rribd := m.rribd.insert sid destId }

theorem InSync.withEntry (h : InSync m) (hname : m.ribd.lookup destId = none)
    (hsid : m.rribd.lookup sid = none) (hproper : Dictionary.Proper (sid, destId)) :
    InSync (m.withEntry destId sid) := by
  have hrows : ∀ e s, (m.rribd.insert sid destId).lookup s = some e →
      s = sid ∧ e = destId ∨ s ≠ sid ∧ m.rribd.lookup s = some e := by
    intro e s hs
    by_cases heq : s = sid
    · rw [heq, AList.lookup_insert] at hs
      exact Or.inl ⟨heq, (Option.some.inj hs).symm⟩
    · rw [AList.lookup_insert_ne heq] at hs
      exact Or.inr ⟨heq, hs⟩
  constructor
  · intro e s
    show (m.ribd.insert destId sid).lookup e = some s ↔ (m.rribd.insert sid destId).lookup s = some e
    constructor
    · intro hm
      by_cases heq : e = destId
      · rw [heq, AList.lookup_insert] at hm
        obtain rfl := Option.some.inj hm
        rw [AList.lookup_insert, heq]
      · rw [AList.lookup_insert_ne heq] at hm
        have hback := (h.inverse e s).mp hm
        have hne : s ≠ sid := by
          intro hs
          rw [hs, hsid] at hback
          cases hback
        rw [AList.lookup_insert_ne hne, hback]
    · intro hs
      rcases hrows e s hs with ⟨rfl, rfl⟩ | ⟨_, hold⟩
      · exact AList.lookup_insert _
      · have hback := (h.inverse e s).mpr hold
        have hne : e ≠ destId := by
          intro he
          rw [he, hname] at hback
          cases hback
        rw [AList.lookup_insert_ne hne, hback]
  · show (m.ribd.insert destId sid).entries.length = (m.rribd.insert sid destId).entries.length
    rw [AList.entries_insert_of_notMem (AList.lookup_eq_none.mp hname),
      AList.entries_insert_of_notMem (AList.lookup_eq_none.mp hsid), List.length_cons,
      List.length_cons, h.size]
  · intro e s hs
    rcases hrows e s hs with ⟨rfl, rfl⟩ | ⟨_, hold⟩
    · exact hproper
    · exact h.proper e s hold

theorem erase_insert (hname : m.ribd.lookup destId = none) :
    (m.ribd.insert destId sid).erase destId = m.ribd := by
  have hnot := AList.lookup_eq_none.mp hname
  apply AList.ext
  rw [AList.insert_of_notMem hnot]
  exact List.kerase_cons_eq rfl

/-! ## What `assign` does -/

/-- `assign` does not take the entry. -/
def Refuses (m : DictionaryMaps) (destId : Bytes) (sid : UInt16) : Prop :=
  destId = [] ∨ sid = invalidSid ∨ m.findId sid ≠ [] ∨
    (sid ≠ 0 ∧ sid ≠ 1 ∧ m.ribd.lookup destId ≠ none)

/-- The ways that `assign` can go. -/
inductive Assigned (m : DictionaryMaps) (destId : Bytes) (sid : UInt16) :
    Bool × DictionaryMaps → Prop where
  | refused : m.Refuses destId sid → Assigned m destId sid (false, m)
  | sender : destId ≠ [] → sid = 0 → m.sender = [] →
      Assigned m destId sid (true, { m with sender := destId })
  | receiver : destId ≠ [] → sid = 1 → m.receiver = [] →
      Assigned m destId sid (true, { m with receiver := destId })
  | entry : Dictionary.Proper (sid, destId) → m.ribd.lookup destId = none →
      m.rribd.lookup sid = none → Assigned m destId sid (true, m.withEntry destId sid)

theorem findId_of_ne (h0 : sid ≠ 0) (h1 : sid ≠ 1) : m.findId sid = (m.rribd.lookup sid).getD [] := by
  rw [findId, if_neg h0, if_neg h1]

theorem InSync.findId_ne_nil (h : InSync m) (h0 : sid ≠ 0) (h1 : sid ≠ 1) :
    m.findId sid ≠ [] ↔ m.rribd.lookup sid ≠ none := by
  rw [findId_of_ne h0 h1]
  cases hs : m.rribd.lookup sid with
  | none => simp
  | some e => simpa using (h.proper e sid hs).2.2.2

theorem InSync.assign_cases (h : InSync m) (destId : Bytes) (sid : UInt16) :
    Assigned m destId sid (m.assign destId sid) := by
  rw [assign]
  by_cases hn : destId = []
  · rw [if_pos hn]
    exact .refused (Or.inl hn)
  rw [if_neg hn, if_neg (not_not.mpr h.size)]
  by_cases h0 : sid = 0
  · rw [if_pos h0]
    by_cases hs : m.sender = []
    · rw [if_pos hs]
      exact .sender hn h0 hs
    · rw [if_neg hs]
      refine .refused (Or.inr (Or.inr (Or.inl ?_)))
      rwa [findId, if_pos h0]
  rw [if_neg h0]
  by_cases h1 : sid = 1
  · rw [if_pos h1]
    by_cases hr : m.receiver = []
    · rw [if_pos hr]
      exact .receiver hn h1 hr
    · rw [if_neg hr]
      refine .refused (Or.inr (Or.inr (Or.inl ?_)))
      rwa [findId, if_neg h0, if_pos h1]
  rw [if_neg h1]
  by_cases hi : sid = invalidSid
  · rw [if_pos hi]
    exact .refused (Or.inr (Or.inl hi))
  rw [if_neg hi, assignMaps]
  cases hname : m.ribd.lookup destId with
  | some s =>
      refine .refused (Or.inr (Or.inr (Or.inr ⟨h0, h1, ?_⟩)))
      rw [hname]
      exact Option.some_ne_none s
  | none =>
      dsimp only
      rw [if_neg (by simp)]
      cases hsid : m.rribd.lookup sid with
      | some e =>
          rw [if_pos (by simp), erase_insert hname]
          refine .refused (Or.inr (Or.inr (Or.inl ?_)))
          rw [h.findId_ne_nil h0 h1, hsid]
          exact Option.some_ne_none e
      | none =>
          have hproper : Dictionary.Proper (sid, destId) := ⟨h0, h1, hi, hn⟩
          have hsize : (m.ribd.insert destId sid).entries.length =
              (m.rribd.insert sid destId).entries.length := (h.withEntry hname hsid hproper).size
          rw [if_neg (by simp), decide_eq_true hsize]
          exact .entry hproper hname hsid

theorem Assigned.inSync (h : InSync m) {r : Bool × DictionaryMaps} (ha : Assigned m destId sid r) :
    InSync r.2 := by
  cases ha with
  | refused => exact h
  | sender => exact h.with_sender destId
  | receiver => exact h.with_receiver destId
  | entry hproper hname hsid => exact h.withEntry hname hsid hproper

theorem Assigned.eq_of_refuses {r : Bool × DictionaryMaps} (h : InSync m)
    (ha : Assigned m destId sid r) (href : m.Refuses destId sid) : r = (false, m) := by
  cases ha with
  | refused => rfl
  | sender hn h0 hs =>
      rcases href with hr | hr | hr | hr
      · exact absurd hr hn
      · rw [h0] at hr
        cases hr
      · rw [findId, if_pos h0] at hr
        exact absurd hs hr
      · exact absurd h0 hr.1
  | receiver hn h1 hs =>
      rcases href with hr | hr | hr | hr
      · exact absurd hr hn
      · rw [h1] at hr
        cases hr
      · rw [findId, if_neg (by rw [h1]; decide), if_pos h1] at hr
        exact absurd hs hr
      · exact absurd h1 hr.2.1
  | entry hproper hname hsid =>
      rcases href with hr | hr | hr | hr
      · exact absurd hr hproper.2.2.2
      · exact absurd hr hproper.2.2.1
      · rw [h.findId_ne_nil hproper.1 hproper.2.1] at hr
        exact absurd hsid hr
      · exact absurd hname hr.2.2

/-! ## What `insert` does -/

theorem InSync.length_lt (h : InSync m) : m.ribd.entries.length + 2 < 2 ^ 16 := by
  rw [h.size]
  have hnodup : (m.rribd.keys.map UInt16.toNat).Nodup :=
    m.rribd.keys_nodup.map fun a b hab => UInt16.toNat_inj.mp hab
  have hsub : m.rribd.keys.map UInt16.toNat ⊆ List.range' 2 65533 := by
    intro n hn
    obtain ⟨s, hs, rfl⟩ := List.mem_map.mp hn
    obtain ⟨e, he⟩ := Option.isSome_iff_exists.mp (AList.lookup_isSome.mpr (AList.mem_keys.mpr hs))
    obtain ⟨h0, h1, hi, -⟩ := h.proper e s he
    have hlt := s.toNat_lt
    have hn0 : s.toNat ≠ 0 := fun hz => h0 (UInt16.toNat_inj.mp hz)
    have hn1 : s.toNat ≠ 1 := fun hz => h1 (UInt16.toNat_inj.mp hz)
    have hni : s.toNat ≠ 65535 := fun hz => hi (UInt16.toNat_inj.mp hz)
    rw [List.mem_range'_1]
    omega
  have hle := (List.subperm_of_subset hnodup hsub).length_le
  have hlen : (m.rribd.keys.map UInt16.toNat).length = m.rribd.entries.length := by
    rw [List.length_map, AList.keys, List.keys, List.length_map]
  rw [hlen, List.length_range'] at hle
  omega

/-- The ways that `insert` can go: an entry with an own string id, or nothing. -/
inductive Inserted (m : DictionaryMaps) (destId : Bytes) : DictionaryMaps × UInt16 → Prop where
  | nothing : Inserted m destId (m, invalidSid)
  | entry (sid : UInt16) : Dictionary.Proper (sid, destId) → m.ribd.lookup destId = none →
      m.rribd.lookup sid = none → Inserted m destId (m.withEntry destId sid, sid)

theorem InSync.insertLoop_cases (h : InSync m) (destId : Bytes) {fuel : Nat} :
    ∀ sid : UInt16, 2 ≤ sid.toNat → sid.toNat < 65535 →
      Inserted m destId (insertLoop destId fuel m sid) := by
  induction fuel with
  | zero =>
      intro sid _ _
      exact .nothing
  | succ fuel ih =>
      intro sid hlow hhigh
      have h0 : sid ≠ 0 := fun heq => by
        rw [heq] at hlow
        exact absurd hlow (by decide)
      have h1 : sid ≠ 1 := fun heq => by
        rw [heq] at hlow
        exact absurd hlow (by decide)
      rw [insertLoop]
      have hcases := h.assign_cases destId sid
      generalize m.assign destId sid = r at hcases ⊢
      cases hcases with
      | refused =>
          dsimp only
          rw [if_neg (by decide)]
          by_cases hlast : sid + 1 = invalidSid
          · have href : m.Refuses destId invalidSid := Or.inr (Or.inl rfl)
            rw [if_pos hlast, hlast, (h.assign_cases destId invalidSid).eq_of_refuses h href]
            exact .nothing
          · have hnext : (sid + 1).toNat = sid.toNat + 1 := by
              rw [UInt16.toNat_add]
              exact Nat.mod_eq_of_lt (by simp; omega)
            have hne : (sid + 1).toNat ≠ 65535 := fun hz => hlast (UInt16.toNat_inj.mp hz)
            rw [if_neg hlast]
            exact ih (sid + 1) (by omega) (by omega)
      | sender _ hz => exact absurd hz h0
      | receiver _ hz => exact absurd hz h1
      | entry hproper hname hfree =>
          dsimp only
          rw [if_pos rfl]
          exact .entry sid hproper hname hfree

theorem InSync.insert_cases (h : InSync m) (destId : Bytes) :
    m.insert destId = (m, invalidSid) ∨
      m.find destId = invalidSid ∧ Inserted m destId (m.insert destId) := by
  rw [insert]
  by_cases hn : destId = []
  · rw [if_pos hn]
    exact Or.inl rfl
  rw [if_neg hn]
  by_cases hf : m.find destId = invalidSid
  · rw [if_neg (not_not.mpr hf)]
    by_cases hfull : UInt16.ofNat (m.ribd.entries.length + 2) = invalidSid
    · rw [if_pos hfull]
      exact Or.inl rfl
    · rw [if_neg hfull]
      have hlt := h.length_lt
      have htoNat : (UInt16.ofNat (m.ribd.entries.length + 2)).toNat =
          m.ribd.entries.length + 2 := by
        rw [UInt16.toNat_ofNat']
        exact Nat.mod_eq_of_lt hlt
      have hne : (UInt16.ofNat (m.ribd.entries.length + 2)).toNat ≠ 65535 :=
        fun hz => hfull (UInt16.toNat_inj.mp hz)
      exact Or.inr ⟨hf, h.insertLoop_cases destId _ (by omega) (by omega)⟩
  · rw [if_pos hf]
    exact Or.inl rfl

/-! ## The dictionary with one list -/

structure Represents (m : DictionaryMaps) (d : Dictionary) : Prop where
  inSync : InSync m
  sender : m.sender = d.sender
  receiver : m.receiver = d.receiver
  entries : ∀ e s, m.rribd.lookup s = some e ↔ (s, e) ∈ d.rribd

theorem represents_new (sender receiver : Bytes) :
    Represents (new sender receiver) (Dictionary.new sender receiver) := by
  refine ⟨inSync_new sender receiver, rfl, rfl, fun e s => ?_⟩
  simp [new, Dictionary.new]

variable {d : Dictionary}

theorem Represents.mem_names (h : Represents m d) {e : Bytes} :
    e ∈ d.rribd.map Prod.snd ↔ m.ribd.lookup e ≠ none := by
  rw [List.mem_map, Option.ne_none_iff_exists']
  constructor
  · intro ⟨x, hx, he⟩
    refine ⟨x.1, (h.inSync.inverse e x.1).mpr ((h.entries e x.1).mpr ?_)⟩
    rw [← he]
    exact hx
  · intro ⟨s, hs⟩
    exact ⟨(s, e), (h.entries e s).mp ((h.inSync.inverse e s).mp hs), rfl⟩

theorem Represents.mem_sids (h : Represents m d) {s : UInt16} :
    s ∈ d.rribd.map Prod.fst ↔ m.rribd.lookup s ≠ none := by
  rw [List.mem_map, Option.ne_none_iff_exists']
  constructor
  · intro ⟨x, hx, hs⟩
    refine ⟨x.2, (h.entries x.2 s).mpr ?_⟩
    rw [← hs]
    exact hx
  · intro ⟨e, he⟩
    exact ⟨(s, e), (h.entries e s).mp he, rfl⟩

theorem Represents.assign (h : Represents m d) (destId : Bytes) (sid : UInt16) :
    (m.assign destId sid).1 = (d.assign destId sid).isSome ∧
      Represents (m.assign destId sid).2 ((d.assign destId sid).getD d) := by
  have hcases := h.inSync.assign_cases destId sid
  generalize m.assign destId sid = r at hcases
  cases hcases with
  | refused href =>
      have hfalse : ∀ r, Assigned m destId sid r → r.1 ≠ true := by
        intro r hr
        rw [hr.eq_of_refuses h.inSync href]
        exact Bool.false_ne_true
      have hnone : d.assign destId sid = none := by
        rw [Dictionary.assign]
        by_cases hn : destId = []
        · rw [dif_pos hn]
        rw [dif_neg hn]
        by_cases h0 : sid = 0
        · rw [dif_pos h0, if_neg]
          intro hs
          exact hfalse _ (.sender hn h0 (h.sender.trans hs)) rfl
        rw [dif_neg h0]
        by_cases h1 : sid = 1
        · rw [dif_pos h1, if_neg]
          intro hr
          exact hfalse _ (.receiver hn h1 (h.receiver.trans hr)) rfl
        rw [dif_neg h1]
        by_cases hi : sid = invalidSid
        · rw [dif_pos hi]
        rw [dif_neg hi]
        by_cases hname : destId ∈ d.rribd.map Prod.snd
        · rw [dif_pos hname]
        rw [dif_neg hname, dif_pos]
        by_contra hsid
        rw [h.mem_names, not_not] at hname
        rw [h.mem_sids, not_not] at hsid
        exact hfalse _ (.entry ⟨h0, h1, hi, hn⟩ hname hsid) rfl
      rw [hnone]
      exact ⟨rfl, h⟩
  | sender hn h0 hs =>
      rw [Dictionary.assign, dif_neg hn, dif_pos h0, if_pos (h.sender ▸ hs)]
      exact ⟨rfl, h.inSync.with_sender destId, rfl, h.receiver, h.entries⟩
  | receiver hn h1 hr =>
      rw [Dictionary.assign, dif_neg hn, dif_neg (by rw [h1]; decide), dif_pos h1,
        if_pos (h.receiver ▸ hr)]
      exact ⟨rfl, h.inSync.with_receiver destId, h.sender, rfl, h.entries⟩
  | entry hproper hname hfree =>
      have hnames : destId ∉ d.rribd.map Prod.snd := fun hmem => h.mem_names.mp hmem hname
      have hsids : sid ∉ d.rribd.map Prod.fst := fun hmem => h.mem_sids.mp hmem hfree
      rw [Dictionary.assign, dif_neg hproper.2.2.2, dif_neg hproper.1, dif_neg hproper.2.1,
        dif_neg hproper.2.2.1, dif_neg hnames, dif_neg hsids]
      refine ⟨rfl, h.inSync.withEntry hname hfree hproper, h.sender, h.receiver, fun e s => ?_⟩
      show (m.rribd.insert sid destId).lookup s = some e ↔
        (s, e) ∈ Dictionary.insertSid sid destId d.rribd
      rw [(Dictionary.insertSid_perm sid destId d.rribd).mem_iff, List.mem_cons, Prod.mk.injEq]
      by_cases hs : s = sid
      · rw [hs, AList.lookup_insert, Option.some.injEq]
        constructor
        · intro heq
          exact Or.inl ⟨rfl, heq.symm⟩
        · intro hor
          rcases hor with hor | hor
          · exact hor.2.symm
          · rw [← h.entries, hfree] at hor
            cases hor
      · rw [AList.lookup_insert_ne hs, h.entries]
        simp [hs]

end DictionaryMaps

end Prophet

end Dtn2
