import Dtn2.ConvLayers.StreamSteps

/-!
# The messages on the wire

What a connection puts on the wire behind its contact header is a row of messages, of which the last
one may be cut off. The log of a connection is this row. The segments of a bundle in it hold the bundle
from its start on, with the flags in their place, as long as the length of the bundle fits the 32 bits
of its record.
-/

namespace Dtn2.StreamConvergenceLayer

open Framework BundleProtocol InFlightBundle Connection

/-! ## Messages -/

/-- A segment that was begun: the record of its bundle, the bundle, the flags, and the data whose length
was announced. -/
structure Segment where
  entry : Nat
  xmit : XmitBundle
  start : Bool
  last : Bool
  data : Bytes

inductive Message where
  | segment (s : Segment)
  | ack (len : Nat)
  | keepalive
  | shutdown (reason : Reason)

namespace Message

def bytes : Message → Bytes
  | segment s => lengthMessage (segmentByte s.start s.last) s.data.length ++ s.data
  | ack len => lengthMessage ackSegment len
  | keepalive => [StreamConvergenceLayer.keepalive]
  | shutdown reason => shutdownMessage reason

def segment? : Message → Option Segment
  | segment s => some s
  | _ => none

end Message

def wireOf (log : List Message) : Bytes := (log.map Message.bytes).flatten

def segments (log : List Message) : List Segment := log.filterMap Message.segment?

def segmentsOf (log : List Message) (entry : Nat) : List Segment :=
  (segments log).filter fun s => s.entry = entry

def dataOf (segs : List Segment) : Bytes := (segs.map Segment.data).flatten

@[simp] theorem wireOf_concat (log : List Message) (m : Message) :
    wireOf (log ++ [m]) = wireOf log ++ m.bytes := by
  simp [wireOf]

@[simp] theorem dataOf_concat (segs : List Segment) (s : Segment) :
    dataOf (segs ++ [s]) = dataOf segs ++ s.data := by
  simp [dataOf]

theorem segments_control (log : List Message) {m : Message} (h : m.segment? = none) :
    segments (log ++ [m]) = segments log := by
  rw [segments, List.filterMap_append, List.filterMap_cons_none h, List.filterMap_nil,
    List.append_nil, segments]

theorem segments_segment (log : List Message) (s : Segment) :
    segments (log ++ [.segment s]) = segments log ++ [s] := by
  rw [segments, List.filterMap_append]
  rfl

theorem segmentsOf_segment (log : List Message) (s : Segment) (entry : Nat) :
    segmentsOf (log ++ [.segment s]) entry =
      segmentsOf log entry ++ if s.entry = entry then [s] else [] := by
  rw [segmentsOf, segments_segment, List.filter_append, segmentsOf]
  by_cases h : s.entry = entry
  · rw [if_pos h, List.filter_cons_of_pos (by simpa using h), List.filter_nil]
  · rw [if_neg h, List.filter_cons_of_neg (by simpa using h), List.filter_nil]

theorem mem_segmentsOf {log : List Message} {entry : Nat} {s : Segment} :
    s ∈ segmentsOf log entry ↔ s ∈ segments log ∧ s.entry = entry := by
  rw [segmentsOf, List.mem_filter, decide_eq_true_eq]

/-! ## Well-formed rows of messages -/

/-- The segments of a bundle hold its bytes from the first one on. The first segment has the start flag
and no other, and the segment that completes the bundle has the end flag and no other. -/
structure Segmented (x : XmitBundle) (segs : List Segment) : Prop where
  xmit : ∀ s ∈ segs, s.xmit = x
  nonempty : ∀ s ∈ segs, s.data ≠ []
  part : dataOf segs <+: x.bytes
  start : ∀ before s after, segs = before ++ s :: after → (s.start = true ↔ before = [])
  last : ∀ before s after, segs = before ++ s :: after →
    (s.last = true ↔ dataOf (before ++ [s]) = x.bytes)

/-- The segments of a record are segments of its bundle, and come before those of every later record. -/
structure Framed (log : List Message) : Prop where
  order : (segments log).Pairwise fun s t => s.entry ≤ t.entry
  bundles : ∀ s ∈ segments log, Segmented s.xmit (segmentsOf log s.entry)

theorem segmented_nil (x : XmitBundle) : Segmented x [] where
  xmit := by simp
  nonempty := by simp
  part := List.nil_prefix
  start := by
    intro before s after h
    cases before <;> cases h
  last := by
    intro before s after h
    cases before <;> cases h

theorem append_singleton_split {segs before after : List Segment} {s t : Segment}
    (h : segs ++ [s] = before ++ t :: after) :
    (before = segs ∧ t = s ∧ after = []) ∨ ∃ rest, segs = before ++ t :: rest := by
  induction after using List.reverseRecOn with
  | nil =>
      obtain ⟨hsegs, ht⟩ := List.append_inj' h rfl
      cases ht
      exact Or.inl ⟨hsegs.symm, rfl, rfl⟩
  | append_singleton rest u ih =>
      have hsplit : segs ++ [s] = (before ++ t :: rest) ++ [u] := by
        rw [h, List.append_assoc]
        rfl
      exact Or.inr ⟨rest, (List.append_inj' hsplit rfl).1⟩

theorem Segmented.concat {x : XmitBundle} {segs : List Segment} {s : Segment} (h : Segmented x segs)
    (hxmit : s.xmit = x) (hne : s.data ≠ []) (hpart : dataOf segs ++ s.data <+: x.bytes)
    (hstart : s.start = true ↔ segs = []) (hlast : s.last = true ↔ dataOf segs ++ s.data = x.bytes) :
    Segmented x (segs ++ [s]) where
  xmit := by
    intro t ht
    cases List.mem_append.mp ht with
    | inl hold => exact h.xmit t hold
    | inr hnew => rw [List.mem_singleton.mp hnew, hxmit]
  nonempty := by
    intro t ht
    cases List.mem_append.mp ht with
    | inl hold => exact h.nonempty t hold
    | inr hnew => rwa [List.mem_singleton.mp hnew]
  part := by rwa [dataOf_concat]
  start := by
    intro before t after hsplit
    cases append_singleton_split hsplit with
    | inl hend =>
        obtain ⟨rfl, rfl, -⟩ := hend
        exact hstart
    | inr hold =>
        obtain ⟨rest, hold⟩ := hold
        exact h.start before t rest hold
  last := by
    intro before t after hsplit
    cases append_singleton_split hsplit with
    | inl hend =>
        obtain ⟨rfl, rfl, -⟩ := hend
        rw [dataOf_concat]
        exact hlast
    | inr hold =>
        obtain ⟨rest, hold⟩ := hold
        exact h.last before t rest hold

theorem Framed.control {log : List Message} (h : Framed log) {m : Message} (hm : m.segment? = none) :
    Framed (log ++ [m]) where
  order := by
    rw [segments_control log hm]
    exact h.order
  bundles := by
    intro s hs
    rw [segments_control log hm] at hs
    rw [segmentsOf, segments_control log hm]
    exact h.bundles s hs

theorem framed_nil : Framed [] where
  order := List.Pairwise.nil
  bundles := by
    intro s hs
    cases hs

theorem Framed.segment {log : List Message} (h : Framed log) {s : Segment}
    (hlate : ∀ t ∈ segments log, t.entry ≤ s.entry)
    (hxmit : ∀ t ∈ segmentsOf log s.entry, t.xmit = s.xmit)
    (hown : Segmented s.xmit (segmentsOf log s.entry ++ [s])) : Framed (log ++ [.segment s]) where
  order := by
    rw [segments_segment, List.pairwise_append]
    refine ⟨h.order, List.pairwise_singleton _ _, ?_⟩
    intro t ht u hu
    rw [List.mem_singleton.mp hu]
    exact hlate t ht
  bundles := by
    intro t ht
    rw [segmentsOf_segment]
    by_cases hentry : s.entry = t.entry
    · rw [if_pos hentry, ← hentry]
      have hsame : t.xmit = s.xmit := by
        rw [segments_segment] at ht
        cases List.mem_append.mp ht with
        | inl hold => exact hxmit t (mem_segmentsOf.mpr ⟨hold, hentry.symm⟩)
        | inr hnew => rw [List.mem_singleton.mp hnew]
      rw [hsame]
      exact hown
    · rw [if_neg hentry, List.append_nil]
      rw [segments_segment] at ht
      cases List.mem_append.mp ht with
      | inl hold => exact h.bundles t hold
      | inr hnew => exact absurd (congrArg Segment.entry (List.mem_singleton.mp hnew)).symm hentry

theorem Framed.own {log : List Message} (h : Framed log) {entry : Nat} {x : XmitBundle}
    (hxmit : ∀ s ∈ segmentsOf log entry, s.xmit = x) : Segmented x (segmentsOf log entry) := by
  cases hsegs : segmentsOf log entry with
  | nil => exact segmented_nil x
  | cons s segs =>
      have hs : s ∈ segmentsOf log entry := by rw [hsegs]; exact List.mem_cons_self
      obtain ⟨hmem, hentry⟩ := mem_segmentsOf.mp hs
      have hown := h.bundles s hmem
      rwa [hxmit s hs, hentry, hsegs] at hown

/-! ## The log of a connection -/

/-- What has still to be put of the current segment. -/
def todoOf (c : Connection) (entry : Nat) : Nat :=
  if c.currentInflight = some entry then c.sendSegmentTodo else 0

/-- What the connection has sent and still holds in its send buffer, with the rest of the segment that is
being sent, is its contact header and the messages of the log. `Q` holds for the bundles of the link. -/
structure Logged (Q : XmitBundle → Prop) (header : Bytes) (c : Connection) (log : List Message)
    (owed : Bytes) : Prop where
  wire : c.wire ++ c.sendbuf.full ++ owed = header ++ wireOf log
  idle : c.sendSegmentTodo = 0 → owed = []
  owes : ∀ x ∈ c.inflight, c.currentInflight = some x.entry →
    owed = (x.xmit.bytes.drop x.sent).take c.sendSegmentTodo
  late : ∀ x ∈ c.inflight, c.currentInflight = some x.entry → ∀ s ∈ segments log, s.entry ≤ x.entry
  framed : Framed log
  fresh : ∀ s ∈ segments log, s.entry < c.entries
  xmit : ∀ x ∈ c.inflight, ∀ s ∈ segmentsOf log x.entry, s.xmit = x.xmit
  sent : ∀ x ∈ c.inflight,
    dataOf (segmentsOf log x.entry) = x.xmit.bytes.take (x.sent + todoOf c x.entry)
  queued : ∀ x ∈ c.link.queue, Q x
  taken : ∀ x ∈ c.inflight, Q x.xmit
  source : ∀ s ∈ segments log, Q s.xmit

section Moves

variable {env : Env} {A : Input → Connection → Prop} {Q : XmitBundle → Prop} {header owed : Bytes}
  {c c' : Connection} {log : List Message}

/-- Moves that put nothing into the send buffer, and take records off the list at most. -/
theorem Logged.congr (h : Logged Q header c log owed)
    (hwire : c'.wire ++ c'.sendbuf.full = c.wire ++ c.sendbuf.full)
    (htodo : c'.sendSegmentTodo = c.sendSegmentTodo) (hentries : c'.entries = c.entries)
    (hlink : c'.link = c.link)
    (hcurrent : c'.currentInflight = c.currentInflight ∨
      c'.currentInflight = none ∧ c.sendSegmentTodo = 0)
    (hin : ∀ x ∈ c'.inflight, ∃ y ∈ c.inflight,
      y.entry = x.entry ∧ y.xmit = x.xmit ∧ y.sent = x.sent) : Logged Q header c' log owed where
  wire := by rw [hwire, h.wire]
  idle := by
    rw [htodo]
    exact h.idle
  owes := by
    intro x hx hcur
    obtain ⟨y, hy, hentry, hxmit, hsent⟩ := hin x hx
    cases hcurrent with
    | inl hsame =>
        rw [htodo, ← hxmit, ← hsent]
        exact h.owes y hy (by rw [← hsame, hcur, hentry])
    | inr hnone =>
        rw [hnone.1] at hcur
        cases hcur
  late := by
    intro x hx hcur
    obtain ⟨y, hy, hentry, -, -⟩ := hin x hx
    cases hcurrent with
    | inl hsame =>
        rw [← hentry]
        exact h.late y hy (by rw [← hsame, hcur, hentry])
    | inr hnone =>
        rw [hnone.1] at hcur
        cases hcur
  framed := h.framed
  fresh := by
    rw [hentries]
    exact h.fresh
  xmit := by
    intro x hx
    obtain ⟨y, hy, hentry, hxmit, -⟩ := hin x hx
    rw [← hentry, ← hxmit]
    exact h.xmit y hy
  sent := by
    intro x hx
    obtain ⟨y, hy, hentry, hxmit, hsent⟩ := hin x hx
    have hsame : todoOf c' x.entry = todoOf c x.entry := by
      rw [todoOf, todoOf, htodo]
      cases hcurrent with
      | inl hsame => rw [hsame]
      | inr hnone => rw [hnone.2, ite_self, ite_self]
    rw [hsame, ← hentry, ← hxmit, ← hsent]
    exact h.sent y hy
  queued := by
    rw [hlink]
    exact h.queued
  taken := by
    intro x hx
    obtain ⟨y, hy, -, hxmit, -⟩ := hin x hx
    rw [← hxmit]
    exact h.taken y hy
  source := h.source

theorem Logged.control (h : Logged Q header c log owed) {m : Message} (hm : m.segment? = none)
    (hidle : c.sendSegmentTodo = 0) (hwire : c'.wire = c.wire)
    (hbuf : c'.sendbuf.full = c.sendbuf.full ++ m.bytes)
    (htodo : c'.sendSegmentTodo = c.sendSegmentTodo) (hentries : c'.entries = c.entries)
    (hlink : c'.link = c.link) (hcurrent : c'.currentInflight = c.currentInflight)
    (hin : c'.inflight = c.inflight) : Logged Q header c' (log ++ [m]) owed where
  wire := by
    have hold := h.wire
    rw [h.idle hidle, List.append_nil] at hold ⊢
    rw [hwire, hbuf, ← List.append_assoc, hold, wireOf_concat, List.append_assoc]
  idle := by
    rw [htodo]
    exact h.idle
  owes := by
    rw [hin, hcurrent, htodo]
    exact h.owes
  late := by
    rw [hin, hcurrent, segments_control log hm]
    exact h.late
  framed := h.framed.control hm
  fresh := by
    rw [hentries, segments_control log hm]
    exact h.fresh
  xmit := by
    intro x hx
    rw [segmentsOf, segments_control log hm]
    exact h.xmit x (hin ▸ hx)
  sent := by
    intro x hx
    rw [segmentsOf, segments_control log hm, todoOf, hcurrent, htodo]
    exact h.sent x (hin ▸ hx)
  queued := by
    rw [hlink]
    exact h.queued
  taken := by
    rw [hin]
    exact h.taken
  source := by
    rw [segments_control log hm]
    exact h.source

def segmentFrom (x : InFlightBundle) (len : Nat) : Segment where
  entry := x.entry
  xmit := x.xmit
  start := decide (x.sent = 0)
  last := decide (x.sent + len = x.totalLength)
  data := (x.xmit.bytes.drop x.sent).take len

theorem segmentFrom_length {x : InFlightBundle} {len : Nat} (h : x.sent + len ≤ x.xmit.bytes.length) :
    (segmentFrom x len).data.length = len := by
  change ((x.xmit.bytes.drop x.sent).take len).length = len
  rw [List.length_take, List.length_drop]
  omega

theorem Logged.segmented (h : Logged Q header c log owed) {x : InFlightBundle} {len : Nat}
    (hmem : x ∈ c.inflight) (hidle : c.sendSegmentTodo = 0) (hpos : len ≠ 0)
    (htotal : x.totalLength = x.xmit.bytes.length) (hle : x.sent + len ≤ x.xmit.bytes.length) :
    dataOf (segmentsOf log x.entry) ++ (segmentFrom x len).data = x.xmit.bytes.take (x.sent + len) ∧
      Segmented x.xmit (segmentsOf log x.entry ++ [segmentFrom x len]) := by
  have hlen := segmentFrom_length hle
  have hown := h.framed.own (h.xmit x hmem)
  have hdata : dataOf (segmentsOf log x.entry) = x.xmit.bytes.take x.sent := by
    rw [h.sent x hmem, todoOf, hidle, ite_self, Nat.add_zero]
  have hnext : dataOf (segmentsOf log x.entry) ++ (segmentFrom x len).data =
      x.xmit.bytes.take (x.sent + len) := by
    rw [hdata, List.take_add]
    rfl
  have hsegs : x.sent = 0 ↔ segmentsOf log x.entry = [] := by
    constructor
    · intro hzero
      rw [hzero, List.take_zero] at hdata
      by_contra hne
      obtain ⟨s, segs, hsegs⟩ := List.exists_cons_of_ne_nil hne
      rw [hsegs] at hdata hown
      rw [dataOf, List.map_cons, List.flatten_cons] at hdata
      exact hown.nonempty s List.mem_cons_self (List.append_eq_nil_iff.mp hdata).1
    · intro hnil
      rw [hnil, eq_comm, dataOf, List.map_nil, List.flatten_nil, List.take_eq_nil_iff] at hdata
      cases hdata with
      | inl hzero => exact hzero
      | inr hnil => exact absurd (congrArg List.length hnil) (Nat.ne_of_gt x.xmit.bytes_pos)
  refine ⟨hnext, hown.concat rfl ?_ ?_ ?_ ?_⟩
  · intro hnil
    rw [hnil] at hlen
    exact hpos hlen.symm
  · rw [hnext]
    exact List.take_prefix _ _
  · rw [← hsegs]
    exact decide_eq_true_iff
  · rw [hnext, List.take_eq_self_iff, segmentFrom, decide_eq_true_iff, htotal]
    omega

theorem eq_of_entry (hinv : SendInv c) {x y : InFlightBundle} (hx : x ∈ c.inflight)
    (hy : y ∈ c.inflight) (h : y.entry = x.entry) : y = x :=
  List.inj_on_of_nodup_map hinv.distinct hy hx h

theorem Logged.segment (h : Logged Q header c log owed) (hinv : SendInv c)
    (hQ : ∀ x, Q x → x.bytes.length < 2 ^ 32) {fin : List InFlightBundle} {x : InFlightBundle}
    {len : Nat} (hshape : SendShape c fin (some x)) (hidle : c.sendSegmentTodo = 0)
    (hpos : len ≠ 0) (hle : x.sent + len ≤ x.totalLength) (hwire : c'.wire = c.wire)
    (hbuf : c'.sendbuf.full = c.sendbuf.full ++
      lengthMessage (segmentByte (segmentFrom x len).start (segmentFrom x len).last) len)
    (htodo : c'.sendSegmentTodo = len) (hentries : c'.entries = c.entries)
    (hlink : c'.link = c.link) (hcurrent : c'.currentInflight = c.currentInflight)
    (hin : c'.inflight = c.inflight) :
    Logged Q header c' (log ++ [.segment (segmentFrom x len)]) (segmentFrom x len).data := by
  have hmem : x ∈ c.inflight := by
    rw [hshape.inflight_some]
    exact List.mem_append_right _ (List.mem_singleton_self x)
  have htotal : x.totalLength = x.xmit.bytes.length := by
    rw [(hinv.sound x hmem).total, u32_of_lt (hQ _ (h.taken x hmem))]
  rw [htotal] at hle
  have hlen := segmentFrom_length hle
  obtain ⟨hnext, hown⟩ := h.segmented hmem hidle hpos htotal hle
  have hlate := h.late x hmem hshape.current_some
  refine ⟨?_, ?_, ?_, ?_, h.framed.segment hlate (h.xmit x hmem) hown, ?_, ?_, ?_, ?_, ?_, ?_⟩
  · have hold := h.wire
    rw [h.idle hidle, List.append_nil] at hold
    rw [hwire, hbuf, wireOf_concat, Message.bytes, hlen, ← List.append_assoc, hold]
    simp only [List.append_assoc]
  · intro hzero
    exact absurd (htodo.symm.trans hzero) hpos
  · intro y hy hcur
    rw [hcurrent, hshape.current_some] at hcur
    rw [eq_of_entry hinv hmem (hin ▸ hy) (Option.some.inj hcur).symm, htodo]
    rfl
  · intro y hy hcur s hs
    rw [hcurrent, hshape.current_some] at hcur
    rw [← Option.some.inj hcur]
    rw [segments_segment] at hs
    cases List.mem_append.mp hs with
    | inl hold => exact hlate s hold
    | inr hnew =>
        rw [List.mem_singleton.mp hnew]
        exact Nat.le_refl _
  · intro s hs
    rw [hentries]
    rw [segments_segment] at hs
    cases List.mem_append.mp hs with
    | inl hold => exact h.fresh s hold
    | inr hnew =>
        rw [List.mem_singleton.mp hnew]
        exact hinv.fresh x hmem
  · intro y hy s hs
    rw [hin] at hy
    rw [segmentsOf_segment] at hs
    cases List.mem_append.mp hs with
    | inl hold => exact h.xmit y hy s hold
    | inr hnew =>
        by_cases hentry : (segmentFrom x len).entry = y.entry
        · rw [if_pos hentry, List.mem_singleton] at hnew
          rw [hnew, eq_of_entry hinv hmem hy hentry.symm]
          rfl
        · rw [if_neg hentry] at hnew
          cases hnew
  · intro y hy
    rw [hin] at hy
    rw [segmentsOf_segment, todoOf, hcurrent, hshape.current_some, htodo]
    by_cases hentry : x.entry = y.entry
    · have hseg : (segmentFrom x len).entry = x.entry := rfl
      rw [eq_of_entry hinv hmem hy hentry.symm, if_pos rfl, if_pos hseg, dataOf_concat, hnext]
    · have hother := h.sent y hy
      rw [todoOf, hidle, ite_self] at hother
      have hne : ¬ some x.entry = some y.entry := fun heq => hentry (Option.some.inj heq)
      have hseg : ¬ (segmentFrom x len).entry = y.entry := hentry
      rw [if_neg hne, if_neg hseg, List.append_nil, hother]
  · rw [hlink]
    exact h.queued
  · rw [hin]
    exact h.taken
  · intro s hs
    rw [segments_segment] at hs
    cases List.mem_append.mp hs with
    | inl hold => exact h.source s hold
    | inr hnew =>
        rw [List.mem_singleton.mp hnew]
        exact h.taken x hmem

theorem Logged.chunk (h : Logged Q header c log owed) (hinv : SendInv c) {fin : List InFlightBundle}
    {x : InFlightBundle} {k : Nat} (hshape : SendShape c fin (some x)) (hle : k ≤ c.sendSegmentTodo)
    (hwire : c'.wire = c.wire)
    (hbuf : c'.sendbuf.full = c.sendbuf.full ++ (x.xmit.bytes.drop x.sent).take k)
    (htodo : c'.sendSegmentTodo = c.sendSegmentTodo - k) (hentries : c'.entries = c.entries)
    (hlink : c'.link = c.link) (hcurrent : c'.currentInflight = c.currentInflight)
    (hin : c'.inflight = fin ++ [x.advance k]) :
    Logged Q header c' log ((x.xmit.bytes.drop (x.sent + k)).take (c.sendSegmentTodo - k)) := by
  have hold := hshape.inflight_some
  have hmem : x ∈ c.inflight := by
    rw [hold]
    exact List.mem_append_right _ (List.mem_singleton_self x)
  have hadvance := (hinv.sound x hmem).sent_advance k
  have hcur := hshape.current_some
  have hfin : ∀ y ∈ fin, y ∈ c.inflight ∧ y.entry ≠ x.entry := by
    intro y hy
    rw [hold]
    exact ⟨List.mem_append_left _ hy, entry_ne_of_mem_fin hinv hshape y hy⟩
  have hcases : ∀ y ∈ c'.inflight, y ∈ fin ∨ y = x.advance k := by
    intro y hy
    rw [hin] at hy
    cases List.mem_append.mp hy with
    | inl hy => exact Or.inl hy
    | inr hy => exact Or.inr (List.mem_singleton.mp hy)
  refine ⟨?_, ?_, ?_, ?_, h.framed, ?_, ?_, ?_, ?_, ?_, h.source⟩
  · have hwhole := h.wire
    have hsplit : c.sendSegmentTodo = k + (c.sendSegmentTodo - k) := by omega
    rw [h.owes x hmem hcur, hsplit, List.take_add, List.drop_drop] at hwhole
    rw [hwire, hbuf, ← hwhole]
    simp only [List.append_assoc]
  · intro hzero
    rw [htodo] at hzero
    rw [hzero, List.take_zero]
  · intro y hy hycur
    rw [hcurrent, hcur] at hycur
    cases hcases y hy with
    | inl hyfin => exact absurd (Option.some.inj hycur).symm (hfin y hyfin).2
    | inr hyadv => rw [hyadv, hadvance, htodo, advance_xmit]
  · intro y hy hycur
    rw [hcurrent, hcur] at hycur
    rw [← Option.some.inj hycur]
    exact h.late x hmem hcur
  · rw [hentries]
    exact h.fresh
  · intro y hy
    cases hcases y hy with
    | inl hyfin => exact h.xmit y (hfin y hyfin).1
    | inr hyadv =>
        rw [hyadv]
        exact h.xmit x hmem
  · intro y hy
    rw [todoOf, hcurrent, hcur, htodo]
    cases hcases y hy with
    | inl hyfin =>
        obtain ⟨hyold, hne⟩ := hfin y hyfin
        have hother := h.sent y hyold
        have hne' : ¬ some x.entry = some y.entry := fun heq => hne (Option.some.inj heq).symm
        rw [todoOf, hcur, if_neg hne'] at hother
        rw [if_neg hne', hother]
    | inr hyadv =>
        have hsame := h.sent x hmem
        rw [todoOf, if_pos hcur] at hsame
        rw [hyadv, advance_entry, advance_xmit, if_pos rfl, hadvance, hsame]
        congr 1
        omega
  · rw [hlink]
    exact h.queued
  · intro y hy
    cases hcases y hy with
    | inl hyfin => exact h.taken y (hfin y hyfin).1
    | inr hyadv =>
        rw [hyadv]
        exact h.taken x hmem

theorem Logged.take (h : Logged Q header c log owed) {x : XmitBundle} {queue : List XmitBundle}
    (hidle : c.sendSegmentTodo = 0) (hqueue : c.link.queue = x :: queue)
    (hwire : c'.wire ++ c'.sendbuf.full = c.wire ++ c.sendbuf.full)
    (htodo : c'.sendSegmentTodo = c.sendSegmentTodo) (hentries : c'.entries = c.entries + 1)
    (hlink : c'.link.queue = queue) (hcurrent : c'.currentInflight = some c.entries)
    (hin : c'.inflight = c.inflight ++ [InFlightBundle.new c.entries x]) :
    Logged Q header c' log owed := by
  have hx : Q x := h.queued x (by rw [hqueue]; exact List.mem_cons_self)
  have hcases : ∀ y ∈ c'.inflight, y ∈ c.inflight ∨ y = InFlightBundle.new c.entries x := by
    intro y hy
    rw [hin] at hy
    cases List.mem_append.mp hy with
    | inl hy => exact Or.inl hy
    | inr hy => exact Or.inr (List.mem_singleton.mp hy)
  have hnone : segmentsOf log c.entries = [] := by
    rw [List.eq_nil_iff_forall_not_mem]
    intro s hs
    obtain ⟨hmem, hentry⟩ := mem_segmentsOf.mp hs
    have hlt := h.fresh s hmem
    omega
  refine ⟨?_, ?_, ?_, ?_, h.framed, ?_, ?_, ?_, ?_, ?_, h.source⟩
  · rw [hwire, h.wire]
  · intro _
    exact h.idle hidle
  · intro y _ _
    rw [htodo, hidle, List.take_zero]
    exact h.idle hidle
  · intro y hy hycur s hs
    rw [hcurrent] at hycur
    rw [← Option.some.inj hycur]
    exact Nat.le_of_lt (h.fresh s hs)
  · intro s hs
    have hlt := h.fresh s hs
    omega
  · intro y hy
    cases hcases y hy with
    | inl hold => exact h.xmit y hold
    | inr hnew =>
        have hentry : y.entry = c.entries := by rw [hnew]; rfl
        rw [hentry, hnone]
        intro s hs
        cases hs
  · intro y hy
    rw [todoOf, htodo, hidle, ite_self]
    cases hcases y hy with
    | inl hold =>
        have hsame := h.sent y hold
        rwa [todoOf, hidle, ite_self] at hsame
    | inr hnew =>
        have hentry : y.entry = c.entries := by rw [hnew]; rfl
        have hsent : y.sent = 0 := by rw [hnew, new_sent]
        rw [hentry, hnone, hsent]
        rfl
  · intro y hy
    rw [hlink] at hy
    apply h.queued
    rw [hqueue]
    exact List.mem_cons_of_mem x hy
  · intro y hy
    cases hcases y hy with
    | inl hold => exact h.taken y hold
    | inr hnew =>
        rw [hnew]
        exact hx

def HasLog (Q : XmitBundle → Prop) (header : Bytes) (c : Connection) : Prop :=
  ∃ log owed, Logged Q header c log owed

theorem HasLog.congr (h : HasLog Q header c)
    (hwire : c'.wire ++ c'.sendbuf.full = c.wire ++ c.sendbuf.full)
    (htodo : c'.sendSegmentTodo = c.sendSegmentTodo) (hentries : c'.entries = c.entries)
    (hlink : c'.link = c.link)
    (hcurrent : c'.currentInflight = c.currentInflight ∨
      c'.currentInflight = none ∧ c.sendSegmentTodo = 0)
    (hin : ∀ x ∈ c'.inflight, ∃ y ∈ c.inflight,
      y.entry = x.entry ∧ y.xmit = x.xmit ∧ y.sent = x.sent) : HasLog Q header c' := by
  obtain ⟨log, owed, hlog⟩ := h
  exact ⟨log, owed, hlog.congr hwire htodo hentries hlink hcurrent hin⟩

theorem HasLog.same (h : HasLog Q header c)
    (hwire : c'.wire ++ c'.sendbuf.full = c.wire ++ c.sendbuf.full)
    (htodo : c'.sendSegmentTodo = c.sendSegmentTodo) (hentries : c'.entries = c.entries)
    (hlink : c'.link = c.link) (hcurrent : c'.currentInflight = c.currentInflight)
    (hin : c'.inflight = c.inflight) : HasLog Q header c' :=
  h.congr hwire htodo hentries hlink (Or.inl hcurrent) (fun x hx => ⟨x, hin ▸ hx, rfl, rfl, rfl⟩)

theorem hasLog_move (hQ : ∀ x, Q x → x.bytes.length < 2 ^ 32) (hinv : SendInv c)
    (h : HasLog Q header c) (hm : Move env A c c') : HasLog Q header c' := by
  obtain ⟨log, owed, hlog⟩ := h
  have h : HasLog Q header c := ⟨log, owed, hlog⟩
  cases hm with
  | wrote n =>
      refine h.same ?_ rfl rfl rfl rfl rfl
      rw [StreamBuffer.consume_min_full, List.append_assoc, List.take_append_drop]
  | shutdownPut reason hfit _ _ htodo =>
      exact ⟨_, owed, hlog.control (m := .shutdown reason) rfl htodo rfl rfl rfl rfl rfl rfl rfl⟩
  | keepalivePut hfit _ htodo =>
      exact ⟨_, owed, hlog.control (m := .keepalive) rfl htodo rfl rfl rfl rfl rfl rfl rfl⟩
  | ackPut y rest i hfit _ htodo _ _ _ =>
      exact ⟨_, owed, hlog.control (m := .ack (u32 (i + 1))) rfl htodo rfl rfl rfl rfl rfl rfl rfl⟩
  | bundleTaken fin x queue hshape _ hqueue _ =>
      exact ⟨log, owed, hlog.take hshape.todo_none hqueue rfl rfl rfl rfl rfl rfl⟩
  | headerPut fin x last len hfit hshape htodo hne hseg hmin hlast =>
      subst hlast
      have hle := (hinv.sound x (by rw [hshape.inflight_some]; simp)).le
      exact ⟨_, _, hlog.segment hinv hQ hshape htodo (by omega) (by omega) rfl rfl rfl rfl rfl rfl rfl⟩
  | chunkPut fin x k hfit hshape _ hle =>
      exact ⟨log, _, hlog.chunk hinv hshape hle rfl rfl rfl rfl rfl rfl rfl⟩
  | finishWaiting fin x hshape htodo _ _ _ =>
      exact h.congr rfl rfl rfl rfl (Or.inr ⟨rfl, htodo⟩) (fun y hy => ⟨y, hy, rfl, rfl, rfl⟩)
  | finishAcked x hshape htodo _ _ _ =>
      exact h.congr rfl rfl rfl rfl (Or.inr ⟨rfl, htodo⟩) (fun y hy => by cases hy)
  | finishPosted x hshape htodo _ _ =>
      exact h.congr rfl rfl rfl rfl (Or.inr ⟨rfl, htodo⟩) (fun y hy => by cases hy)
  | cancelled fin x hshape htodo _ _ =>
      refine h.congr rfl rfl rfl rfl (Or.inr ⟨rfl, htodo⟩) ?_
      intro y hy
      exact ⟨y, by rw [hshape.inflight_some]; exact List.mem_append_left _ hy, rfl, rfl, rfl⟩
  | ackPart b n acked x rest _ _ hin _ _ _ _ =>
      refine h.congr rfl rfl rfl rfl (Or.inl rfl) ?_
      intro y hy
      rw [hin]
      cases List.mem_cons.mp hy with
      | inl hfront =>
          rw [hfront]
          exact ⟨x, List.mem_cons_self, rfl, rfl, rfl⟩
      | inr hrest => exact ⟨y, List.mem_cons_of_mem x hrest, rfl, rfl, rfl⟩
  | ackFinal b n x rest _ _ hin _ _ _ _ =>
      refine h.congr rfl rfl rfl rfl (Or.inl rfl) ?_
      intro y hy
      rw [hin]
      cases List.mem_cons.mp hy with
      | inl hfront =>
          rw [hfront]
          exact ⟨x, List.mem_cons_self, rfl, rfl, rfl⟩
      | inr hrest => exact ⟨y, List.mem_cons_of_mem x hrest, rfl, rfl, rfl⟩
  | ackFinalDone b n x rest _ _ hin _ _ _ _ =>
      refine h.congr rfl rfl rfl rfl (Or.inl rfl) ?_
      intro y hy
      exact ⟨y, by rw [hin]; exact List.mem_cons_of_mem x hy, rfl, rfl, rfl⟩
  | _ => exact h.same rfl rfl rfl rfl rfl rfl

end Moves

/-! ## Runs -/

theorem mem_queueBundle {l : LinkRef} {x y : XmitBundle} (h : y ∈ (l.queueBundle x).queue) :
    y ∈ l.queue ∨ y = x := by
  rw [LinkRef.queueBundle, LinkRef.addToQueue] at h
  split at h
  · exact Or.inl h
  split at h
  · exact Or.inl h
  · cases List.mem_append.mp h with
    | inl hold => exact Or.inl hold
    | inr hnew => exact Or.inr (List.mem_singleton.mp hnew)

theorem hasLog_queue {Q : XmitBundle → Prop} {header : Bytes} {c : Connection} {x : XmitBundle}
    (hx : Q x) (h : HasLog Q header c) : HasLog Q header { c with link := c.link.queueBundle x } := by
  obtain ⟨log, owed, h⟩ := h
  refine ⟨log, owed, h.wire, h.idle, h.owes, h.late, h.framed, h.fresh, h.xmit, h.sent, ?_, h.taken,
    h.source⟩
  intro y hy
  cases mem_queueBundle hy with
  | inl hold => exact h.queued y hold
  | inr hnew => rwa [hnew]

theorem hasLog_run {env : Env} {Q : XmitBundle → Prop} {header : Bytes} {c c' : Connection}
    {es : List Event} (hQ : ∀ x, Q x → x.bytes.length < 2 ^ 32)
    (hes : ∀ x, Event.queueBundle x ∈ es → Q x) (hinv : SendInv c) (h : HasLog Q header c)
    (hrun : c.run env es = .ok c') : HasLog Q header c' := by
  induction es generalizing c with
  | nil =>
      cases hrun
      exact h
  | cons e es ih =>
      rw [run] at hrun
      obtain ⟨d, hstep, hrest⟩ := Exec.bind_eq_ok.mp hrun
      refine ih (fun x hx => hes x (List.mem_cons_of_mem e hx)) (sendInv_step hinv hstep) ?_ hrest
      cases step_moves hinv (fun _ => meets_true c e) hstep with
      | inl hqueue =>
          obtain ⟨x, rfl, rfl⟩ := hqueue
          exact hasLog_queue (hes x List.mem_cons_self) h
      | inr hmoves =>
          exact (hmoves.keep (P := fun a => SendInv a ∧ HasLog Q header a)
            (fun a b hab hm => ⟨sendInv_move hab.1 hm, hasLog_move hQ hab.1 hab.2 hm⟩) ⟨hinv, h⟩).2

/-- In every state of every run in which the bundles of the link are shorter than 2^32 bytes, what was
written behind the contact header is a row of messages of which the last one may be cut off, and the
segments in it are those of the bundles, one bundle after the other. -/
theorem run_framed {env : Env} {params : StreamLinkParams} {sendbufLen recvbufLen : Nat}
    {link : LinkRef} {eid : Bytes} {es : List Event} {c c' : Connection}
    (hstart : (Connection.new params sendbufLen recvbufLen link).initiateContact env eid = .ok c)
    (hlink : ∀ x ∈ link.queue, x.bytes.length < 2 ^ 32)
    (hes : ∀ x, Event.queueBundle x ∈ es → x.bytes.length < 2 ^ 32)
    (hrun : c.run env es = .ok c') :
    ∃ log, c'.wire ++ c'.sendbuf.full <+: contactHeader env params eid ++ wireOf log ∧ Framed log ∧
      ∀ s ∈ segments log, s.xmit ∈ link.queue ∨ Event.queueBundle s.xmit ∈ es := by
  obtain ⟨hfresh, hsame, -, -, -, hwire⟩ := initiateContact_spec hstart
  have hnone : ∀ x ∈ c.inflight, False := by
    rw [hfresh.inflight]
    intro x hx
    cases hx
  have hfirst : HasLog (fun x => (x ∈ link.queue ∨ Event.queueBundle x ∈ es) ∧
      x.bytes.length < 2 ^ 32) (contactHeader env params eid) c := by
    refine ⟨[], [], ?_, fun _ => rfl, fun x hx => (hnone x hx).elim, fun x hx => (hnone x hx).elim,
      framed_nil, ?_, fun x hx => (hnone x hx).elim, fun x hx => (hnone x hx).elim, ?_,
      fun x hx => (hnone x hx).elim, ?_⟩
    · rw [hwire, wireOf, List.map_nil, List.flatten_nil]
    · intro s hs
      cases hs
    · intro x hx
      rw [hsame] at hx
      exact ⟨Or.inl hx, hlink x hx⟩
    · intro s hs
      cases hs
  obtain ⟨log, owed, hlog⟩ := hasLog_run (fun x hx => hx.2) (fun x hx => ⟨Or.inr hx, hes x hx⟩)
    hfresh.sendInv hfirst hrun
  exact ⟨log, ⟨owed, hlog.wire⟩, hlog.framed, fun s hs => (hlog.source s hs).1⟩

theorem run_framed_sample : ∃ c c',
    (Connection.new .plain 100 100 ⟨true, [], []⟩).initiateContact .plain EndpointID.dtnNone =
      .ok c ∧
    c.run .plain [.receive (contactHeader .plain .plain EndpointID.dtnNone), .queueBundle (.sample 1),
      .sendPendingData] = .ok c' ∧
    c'.wire.length = 48 ∧
    ∃ log, c'.wire ++ c'.sendbuf.full <+: contactHeader .plain .plain EndpointID.dtnNone ++ wireOf log ∧
      Framed log ∧ ∀ s ∈ segments log, s.xmit ∈ [] ∨ Event.queueBundle s.xmit ∈
        [.receive (contactHeader .plain .plain EndpointID.dtnNone), .queueBundle (.sample 1),
          .sendPendingData] := by
  have hruns : ∃ c ∈ ((Connection.new .plain 100 100 ⟨true, [], []⟩).initiateContact .plain
      EndpointID.dtnNone).toOption, ∃ c' ∈ (c.run .plain
        [.receive (contactHeader .plain .plain EndpointID.dtnNone), .queueBundle (.sample 1),
          .sendPendingData]).toOption, c'.wire.length = 48 := by
    decide +kernel
  obtain ⟨c, hc, c', hc', hwire⟩ := hruns
  rw [Exec.mem_toOption] at hc hc'
  refine ⟨c, c', hc, hc', hwire, ?_⟩
  apply run_framed hc
  · intro x hx
    cases hx
  · intro x hx
    have hsample : x = .sample 1 := by simpa using hx
    rw [hsample]
    decide
  · exact hc'

/-! ## A bundle of four gigabytes -/

/-- The sample bundle with `n` bytes of payload. -/
def sizedPayload (n : Nat) : Bundle :=
  { (XmitBundle.sample 1).bundle with payload := ⟨.memory, List.replicate n 0xaa⟩ }

def sizedBlocks (n : Nat) : List XmitBlock :=
  [⟨⟨.primary, [], ⟨[6, 0x81, 0x10, 21, 0, 4, 0, 4, 0, 4, 0, 4, 0, 1, 0, 9, 100, 116, 110, 0,
      110, 111, 110, 101, 0], List.replicate 39 0⟩, 25, 0, false, none⟩, none⟩,
    ⟨⟨.payload, [], ⟨1 :: 8 :: SDNV.encoded (UInt64.ofNat n),
      List.replicate (62 - (SDNV.encoded (UInt64.ofNat n)).length) 0⟩, UInt32.ofNat n,
      UInt32.ofNat (2 + (SDNV.encoded (UInt64.ofNat n)).length), false, none⟩, none⟩]

theorem sizedBlocks_ne_nil (n : Nat) : sizedBlocks n ≠ [] := by
  simp [sizedBlocks]

theorem sizedBlocks_placed (n : Nat) (h : n < 2 ^ 32 - 12) :
    ∀ y ∈ sizedBlocks n, Placed (sizedPayload n) y.toBlockInfo := by
  have hten := SDNV.encoded_length_le (UInt64.ofNat n)
  rw [SDNV.maxLength] at hten
  intro y hy
  cases List.mem_cons.mp hy with
  | inl hprimary =>
      rw [hprimary]
      exact ⟨rfl, by simp [wire], fun hpayload => by cases hpayload⟩
  | inr hy =>
      rw [List.mem_singleton.mp hy]
      refine ⟨?_, by simp [wire], fun _ => ⟨?_, by simp [sizedPayload], ?_⟩⟩
      · simp only [BlockInfo.fullLength, wire, if_pos, UInt32.toNat_add, UInt32.toNat_ofNat',
          List.length_append, List.length_cons, List.length_replicate, sizedPayload]
        omega
      · simp only [UInt32.toNat_ofNat', List.length_cons]
        omega
      · simp only [BundlePayload.length, List.length_replicate, sizedPayload]
        omega

theorem sizedBlocks_marked (n : Nat) : LastMarked (sizedBlocks n) :=
  ⟨⟨0, by decide, rfl⟩, ⟨8, rfl, rfl⟩, trivial⟩

/-- A bundle like the sample with `n` bytes of payload. -/
def sized (n : Nat) (h : n < 2 ^ 32 - 12) : XmitBundle :=
  ⟨sizedPayload n, sizedBlocks n, sizedBlocks_ne_nil n, sizedBlocks_placed n h,
    sizedBlocks_marked n⟩

theorem sized_length (n : Nat) (h : n < 2 ^ 32 - 12) :
    (sized n h).bytes.length = 27 + (SDNV.encoded (UInt64.ofNat n)).length + n := by
  change (wires (sized n h).bundle (sized n h).blocks).length = _
  simp only [sized, sizedBlocks, sizedPayload, wires, wire, List.flatMap_cons, List.flatMap_nil,
    List.length_append, List.length_cons, List.length_nil, if_pos, List.length_replicate]
  simp
  omega

theorem sendLoop_whole (env : Env) {c : Connection} (hinv : SendInv c) {fin : List InFlightBundle}
    {x : InFlightBundle} (hshape : SendShape c fin (some x)) (hup : c.contactBroken = none)
    (htodo : c.sendSegmentTodo ≠ 0) (hroom : c.sendSegmentTodo ≤ c.sendbuf.tailbytes) {fuel : Nat}
    (hfuel : fuel ≠ 0) :
    ∃ c' b, c.sendLoop env fuel x.entry = .ok (c', b) ∧
      c'.wire ++ c'.sendbuf.full =
        c.wire ++ (c.sendbuf.full ++ (x.xmit.bytes.drop x.sent).take c.sendSegmentTodo) := by
  have htail : c.sendbuf.tailbytes ≠ 0 := by omega
  obtain ⟨d, hchunk, -, -, hdone, hwire⟩ :=
    sendChunk_spec (A := fun _ _ => True) env hinv hshape hup htodo htail
  rw [Nat.min_eq_left hroom, Nat.sub_self] at hdone
  rw [Nat.min_eq_left hroom] at hwire
  have hlast : ∀ fuel, d.sendLoop env fuel x.entry = .ok (d, decide (d.sendSegmentTodo = 0)) := by
    intro fuel
    cases fuel with
    | zero => rfl
    | succ fuel =>
        rw [sendLoop, if_neg]
        · rfl
        · exact fun hmore => hmore.1 hdone
  obtain ⟨fuel, rfl⟩ := Nat.exists_eq_succ_of_ne_zero hfuel
  rw [sendLoop, if_pos ⟨htodo, htail⟩, hchunk, Exec.ok_bind]
  by_cases hbroken : d.contactBroken ≠ none
  · rw [if_pos hbroken]
    exact ⟨d, _, rfl, hwire⟩
  rw [if_neg hbroken]
  by_cases hdelay : d.params.testWriteDelay ≠ 0
  · rw [if_pos hdelay]
    exact ⟨d, _, rfl, hwire⟩
  · rw [if_neg hdelay, hlast]
    exact ⟨d, _, rfl, hwire⟩

theorem sendNextSegment_single (env : Env) {c : Connection} (hinv : SendInv c)
    {fin : List InFlightBundle} {x : InFlightBundle} (hshape : SendShape c fin (some x))
    (hup : c.contactBroken = none) (hidle : c.sendSegmentTodo = 0) (hsent : x.sent = 0)
    (hseg : x.totalLength ≤ c.params.segmentLength)
    (hroom : 1 + SDNV.encodingLen (UInt64.ofNat x.totalLength) + x.totalLength ≤
      c.sendbuf.tailbytes) :
    ∃ c' b, c.sendNextSegment env x.entry = .ok (c', b) ∧
      c'.wire ++ c'.sendbuf.full = c.wire ++ (c.sendbuf.full ++
        lengthMessage (segmentByte true true) x.totalLength ++ x.xmit.bytes.take x.totalLength) := by
  have hx := hinv.sound x (by rw [hshape.inflight_some]; simp)
  have hpos := hx.pos
  have hmin : min c.params.segmentLength (x.totalLength - x.sent) = x.totalLength := by omega
  have hwhole : decide (x.sent + x.totalLength = x.totalLength) = true := by
    rw [hsent, Nat.zero_add]
    exact decide_eq_true rfl
  have hfirst : decide (x.sent = 0) = true := decide_eq_true hsent
  have hfit : (lengthMessage (segmentByte (decide (x.sent = 0)) true) x.totalLength).length ≤
      c.sendbuf.tailbytes := by
    rw [lengthMessage_length]
    omega
  have hmove : Move env (fun _ _ => True) c _ := Move.headerPut fin x true x.totalLength hfit hshape
    hidle (by omega) (by omega) hmin.symm hwhole.symm
  have htail : c.sendbuf.tailbytes ≠ 0 := by omega
  have hstart : ¬ x.sent = x.totalLength := by omega
  have hheader : ¬ c.sendbuf.tailbytes < 1 + SDNV.encodingLen (UInt64.ofNat x.totalLength) := by omega
  rw [sendNextSegment, if_neg htail, Exec.assert_bind hidle, deref_current hinv hshape, Exec.ok_bind,
    hx.bytesSent_eq, if_neg hstart, nextSegment_eq c hx, hmin, hwhole]
  dsimp only
  rw [if_neg hheader, put_of_le c hfit, Exec.ok_bind, sendDataTodo, Exec.assert_bind hpos]
  have hshape' : SendShape { c with
      sendbuf := c.sendbuf.fill (lengthMessage (segmentByte (decide (x.sent = 0)) true) x.totalLength) hfit
      sendSegmentTodo := x.totalLength } fin (some x) :=
    ⟨hshape.inflight, hshape.current, hshape.finished, fun _ => ⟨x, rfl, by
      show x.sent + x.totalLength ≤ x.totalLength
      omega⟩, hshape.plain⟩
  obtain ⟨c', b, hloop, hwire⟩ := sendLoop_whole env (sendInv_move hinv hmove) hshape' hup hpos
    (by
      rw [StreamBuffer.fill_tailbytes, lengthMessage_length]
      show x.totalLength ≤ _
      omega) hpos
  refine ⟨c', b, hloop, ?_⟩
  · rw [hwire, StreamBuffer.fill_full, hfirst, hsent, List.drop_zero]

theorem sendPendingData_single (env : Env) {c : Connection} (hinv : SendInv c) {x : XmitBundle}
    {queue : List XmitBundle} (hcontact : c.contactUp = true) (hup : c.contactBroken = none)
    (hshape : SendShape c [] none) (hincoming : c.incoming = []) (hqueue : c.link.queue = x :: queue)
    {len : Nat} (hlen : u32 x.bytes.length = len) (hpos : len ≠ 0)
    (hseg : len ≤ c.params.segmentLength)
    (hroom : 1 + SDNV.encodingLen (UInt64.ofNat len) + len ≤ c.sendbuf.tailbytes) :
    ∃ c' b, c.sendPendingData env = .ok (c', b) ∧
      c'.wire ++ c'.sendbuf.full = c.wire ++ (c.sendbuf.full ++
        lengthMessage (segmentByte true true) len ++ x.bytes.take len) := by
  have hidle := hshape.todo_none
  have htail : c.sendbuf.tailbytes ≠ 0 := by omega
  have htotal : (InFlightBundle.new c.entries x).totalLength = len := by
    rw [← hlen, ← x.totalLength_eq]
    rfl
  have hne : (InFlightBundle.new c.entries x).totalLength ≠ 0 := by
    rw [htotal]
    exact hpos
  have htaken : Move env (fun _ _ => True) c _ :=
    Move.bundleTaken [] x queue hshape hcontact hqueue hne
  have hinv' := sendInv_move hinv htaken
  have hin : c.inflight = [] := hshape.inflight_none
  have hcur : c.currentInflight = none := hshape.current
  have hready : ¬ (c.contactBroken ≠ none ∨ c.sendSegmentTodo ≠ 0) := by
    rw [hup, hidle]
    simp
  have hup' : ¬ c.contactBroken ≠ none := not_not.mpr hup
  have hcontact' : ¬ c.contactUp = false := by
    rw [hcontact]
    decide
  rw [sendPendingData, if_neg htail, continueSegment, if_pos hidle, pure_bind, if_neg hready,
    sendPendingAcks, if_neg hup', hincoming]
  dsimp only
  rw [pure_bind]
  dsimp only
  rw [if_neg hup', sendSegment, hcur]
  dsimp only
  rw [startNextBundle, Exec.assert_bind hcur, if_neg hcontact', hqueue]
  dsimp only
  rw [takeBundle, Exec.assert_bind hne, pure_bind]
  have hshape' : SendShape { c with
      inflight := c.inflight ++ [InFlightBundle.new c.entries x]
      currentInflight := some c.entries
      entries := c.entries + 1
      link := { (c.link.addToInflight x.bundleid) with queue := queue } }
      [] (some (InFlightBundle.new c.entries x)) :=
    ⟨by rw [hin]; rfl, rfl, hshape.finished, fun hmore => absurd hidle hmore, hshape.plain⟩
  obtain ⟨c', b, hsend, hwire⟩ := sendNextSegment_single env hinv' hshape' hup hidle rfl
    (by rw [htotal]; exact hseg) (by rw [htotal]; exact hroom)
  rw [htotal] at hwire
  have hentry : (InFlightBundle.new c.entries x).entry = c.entries := rfl
  rw [hentry] at hsend
  rw [hsend]
  exact ⟨c', _, rfl, hwire⟩

def longBundle : XmitBundle := sized (2 ^ 32 - 20) (by decide)

theorem longBundle_length : longBundle.bytes.length = 2 ^ 32 + 12 := by
  have hnumber : (SDNV.encoded (UInt64.ofNat (2 ^ 32 - 20))).length = 5 := by decide +kernel
  rw [longBundle, sized_length, hnumber]
  omega

/-- The contact comes up and the bundle is sent. -/
def longRun : List Event :=
  [.receive (contactHeader .plain .plain EndpointID.dtnNone), .queueBundle longBundle, .sendPendingData]

theorem first_message {log : List Message} {rest : Bytes} (h : 0x13 :: 12 :: rest <+: wireOf log) :
    ∃ s log', log = .segment s :: log' ∧ s.last = true ∧ UInt64.ofNat s.data.length = 12 := by
  cases log with
  | nil => exact absurd (List.prefix_nil.mp h) (List.cons_ne_nil _ _)
  | cons m log' =>
      have hwire : wireOf (m :: log') = m.bytes ++ wireOf log' := rfl
      rw [hwire] at h
      cases m with
      | segment s =>
          refine ⟨s, log', rfl, ?_, ?_⟩
          · have hhead : 0x13 = segmentByte s.start s.last := (List.cons_prefix_cons.mp h).1
            cases hlast : s.last with
            | true => rfl
            | false =>
                rw [hlast] at hhead
                cases hstart : s.start with
                | true =>
                    rw [hstart] at hhead
                    exact absurd hhead (by decide)
                | false =>
                    rw [hstart] at hhead
                    exact absurd hhead (by decide)
          · have htail := (List.cons_prefix_cons.mp h).2
            obtain ⟨more, hmore⟩ := htail
            have hmore : 12 :: rest ++ more =
                SDNV.encoded (UInt64.ofNat s.data.length) ++ s.data ++ wireOf log' := hmore
            have hdecode := SDNV.decode_encoded (UInt64.ofNat s.data.length) (s.data ++ wireOf log')
            rw [← List.append_assoc, ← hmore] at hdecode
            have htwelve : SDNV.decode (12 :: rest ++ more) = (some 1, 12) := rfl
            exact (Prod.mk.inj (hdecode.symm.trans htwelve)).2
      | ack len => exact absurd (List.cons_prefix_cons.mp h).1 (by decide)
      | keepalive => exact absurd (List.cons_prefix_cons.mp h).1 (by decide)
      | shutdown reason =>
          cases reason with
          | user => exact absurd (List.cons_prefix_cons.mp h).1 (by decide)
          | idle => exact absurd (List.cons_prefix_cons.mp h).1 (by decide)
          | shutdown => exact absurd (List.cons_prefix_cons.mp h).1 (by decide)
          | broken => exact absurd (List.cons_prefix_cons.mp h).1 (by decide)
          | clError => exact absurd (List.cons_prefix_cons.mp h).1 (by decide)
          | clVersion => exact absurd (List.cons_prefix_cons.mp h).1 (by decide)

/-- A bundle of 2^32 + 12 bytes is sent as one segment of twelve bytes that has the end flag. -/
theorem longRun_not_framed : ∃ c c',
    (Connection.new .plain 100 100 ⟨true, [], []⟩).initiateContact .plain EndpointID.dtnNone =
      .ok c ∧
    c.run .plain longRun = .ok c' ∧
    ¬ ∃ log, c'.wire ++ c'.sendbuf.full <+:
        contactHeader .plain .plain EndpointID.dtnNone ++ wireOf log ∧ Framed log ∧
      ∀ s ∈ segments log, s.xmit ∈ [] ∨ Event.queueBundle s.xmit ∈ longRun := by
  have hup : ∃ c ∈ ((Connection.new .plain 100 100 ⟨true, [], []⟩).initiateContact .plain
      EndpointID.dtnNone).toOption, ∃ d ∈ (c.step .plain (.receive
        (contactHeader .plain .plain EndpointID.dtnNone))).toOption,
      d.contactUp = true ∧ d.contactBroken = none ∧ d.inflight.length = 0 ∧
        d.currentInflight = none ∧ d.sendSegmentTodo = 0 ∧ d.incoming = [] ∧
        d.link.queue.length = 0 ∧ d.link.inflight = [] ∧ d.params.segmentLength = 100 ∧
        d.sendbuf.tailbytes = 100 ∧
        d.wire ++ d.sendbuf.full = contactHeader .plain .plain EndpointID.dtnNone := by
    decide +kernel
  obtain ⟨c, hc, d, hd, hcontact, hbroken, hin, hcur, htodo, hincoming, hqueue, hlink, hseg, htail,
    hwire⟩ := hup
  rw [Exec.mem_toOption] at hc hd
  have hin := List.eq_nil_of_length_eq_zero hin
  have hqueue := List.eq_nil_of_length_eq_zero hqueue
  have hinv := sendInv_queue (sendInv_step (initiateContact_spec hc).1.sendInv hd) longBundle
  have hlen : u32 longBundle.bytes.length = 12 := by
    rw [longBundle_length, u32]
    decide
  have hqueued : (d.link.queueBundle longBundle).queue = [longBundle] := by
    rw [LinkRef.queueBundle, LinkRef.addToQueue, hqueue, hlink]
    rfl
  obtain ⟨c', b, hsend, hsent⟩ := sendPendingData_single .plain hinv hcontact hbroken
    ⟨hin, hcur, by simp, fun hne => absurd htodo hne, fun _ => rfl⟩ hincoming hqueued hlen (by decide)
    (by rw [hseg]; decide) (by rw [htail]; decide +kernel)
  have hrun : c.run .plain longRun = .ok c' := by
    have hlive : ({ d with link := d.link.queueBundle longBundle } : Connection).contactBroken = none :=
      hbroken
    rw [longRun, run, hd, Exec.ok_bind, run, step_queueBundle, Exec.ok_bind, run, step_of_up hlive,
      react, hsend]
    rfl
  refine ⟨c, c', hc, hrun, ?_⟩
  rintro ⟨log, hprefix, hframed, hsource⟩
  have hmessage : lengthMessage (segmentByte true true) 12 = [0x13, 12] := by decide +kernel
  rw [hsent, List.append_assoc d.sendbuf.full, ← List.append_assoc, hwire, hmessage] at hprefix
  obtain ⟨s, log', rfl, hlast, hshort⟩ := first_message ((List.prefix_append_right_inj _).mp hprefix)
  have hmem : s ∈ segments (.segment s :: log') := List.mem_cons_self
  have hxmit : s.xmit = longBundle := by
    cases hsource s hmem with
    | inl hnone => cases hnone
    | inr hqueue => simpa [longRun] using hqueue
  have hown : segmentsOf (.segment s :: log') s.entry = [] ++ s :: segmentsOf log' s.entry := by
    have hsegs : segments (.segment s :: log') = s :: segments log' := rfl
    rw [segmentsOf, hsegs, List.filter_cons_of_pos (by simp)]
    rfl
  have hwhole := ((hframed.bundles s hmem).last _ _ _ hown).mp hlast
  have hdata : s.data = longBundle.bytes := by
    rw [← hxmit, ← hwhole]
    simp [dataOf]
  rw [hdata, longBundle_length] at hshort
  exact absurd hshort (by decide)

end Dtn2.StreamConvergenceLayer
