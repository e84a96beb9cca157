import Dtn2.Tunnel.TcpTunnel
import Mathlib.Data.List.Flatten

/-!
# A connection of a tunnel

What the threads do to a connection: `handle_bundle` puts bundles in order, and the rounds of `run` write them
to the socket and send what they read from it. Both keep what the bundles are: numbered pieces of what was
read.
-/

namespace Dtn2

namespace TCPTunnel

open Framework

/-! ## The order of the bundles -/

def number (payload : Bytes) : Nat := (seqnoOf payload).toNat

/-- The bytes behind the headers. -/
def dataOf (bs : List Bytes) : Bytes := bs.flatMap fun b => b.drop BundleHeader.size

theorem dataOf_append (as bs : List Bytes) : dataOf (as ++ bs) = dataOf as ++ dataOf bs := List.flatMap_append

namespace Connection

/-- The bundles are put into the queue in order. -/
structure Sorted (c : Connection) : Prop where
  resequenced : Resequenced number c.trace.handled c.nextSeqno.toNat (c.reorderTable.map Prod.snd)
    c.trace.delivered
  keyed : ∀ e ∈ c.reorderTable, e.1 = seqnoOf e.2

/-- None of the bundles that wait is next. -/
structure InOrder (c : Connection) : Prop extends c.Sorted where
  settled : ∀ e ∈ c.reorderTable, e.1 ≠ c.nextSeqno

theorem inOrder_new (key : ConnKey) (phase : Phase) : (new key phase).InOrder where
  resequenced := Resequenced.start number
  keyed _ he := absurd he List.not_mem_nil
  settled _ he := absurd he List.not_mem_nil

private theorem map_erase {table : List (UInt32 × Bytes)} (h : ∀ e ∈ table, e.1 = seqnoOf e.2)
    (seqno : UInt32) : (erase table seqno).map Prod.snd =
      (table.map Prod.snd).filter fun b => number b ≠ seqno.toNat := by
  rw [erase, List.filter_map]
  refine congrArg _ (List.filter_congr fun e he => ?_)
  simp only [Function.comp_apply, number, ← h e he, ne_eq, UInt32.toNat_inj]

private theorem keyed_erase {table : List (UInt32 × Bytes)} (h : ∀ e ∈ table, e.1 = seqnoOf e.2)
    (seqno : UInt32) : ∀ e ∈ erase table seqno, e.1 = seqnoOf e.2 :=
  fun e he => h e (List.mem_of_mem_filter he)

private theorem toNat_next {n : UInt32} {len : Nat} (h : n.toNat + 1 ≤ len) (hlen : len < 2 ^ 32) :
    (n + 1).toNat = n.toNat + 1 := by
  rw [UInt32.toNat_add]
  exact Nat.mod_eq_of_lt (show n.toNat + 1 < 2 ^ 32 by omega)

/-- The loop hands out what has waited, until the next bundle is missing. -/
theorem Sorted.drainFrom {n : Nat} {c : Connection} (h : c.Sorted) (hlen : c.trace.handled.length < 2 ^ 32)
    (hn : c.reorderTable.length ≤ n) : (drainFrom n c).InOrder := by
  induction n generalizing c with
  | zero =>
      have hnil : c.reorderTable = [] := List.length_eq_zero_iff.mp (by omega)
      exact { h with settled := fun e he => by rw [Connection.drainFrom, hnil] at he; cases he }
  | succ n ih =>
      unfold Connection.drainFrom
      cases hfind : c.reorderTable.find? fun e => e.1 = c.nextSeqno with
      | none => exact { h with settled := fun e he => by simpa using List.find?_eq_none.mp hfind e he }
      | some e =>
          have hmem : e ∈ c.reorderTable := List.mem_of_find?_eq_some hfind
          have hkey : e.1 = c.nextSeqno := by simpa using List.find?_some hfind
          have hnumber : number e.2 = c.nextSeqno.toNat := by rw [number, ← h.keyed e hmem, hkey]
          have hout := h.resequenced.release hnumber (List.mem_map_of_mem hmem)
          refine ih ⟨?_, keyed_erase h.keyed _⟩ hlen ?_
          · simp only [deliver]
            rw [map_erase h.keyed, toNat_next hout.next_le hlen]
            exact hout
          · have hlt : (erase c.reorderTable c.nextSeqno).length < c.reorderTable.length :=
              List.length_filter_lt_length_iff_exists.mpr ⟨e, hmem, by simpa using hkey⟩
            simp only [deliver]
            omega

theorem InOrder.handleBundle {c : Connection} (h : c.InOrder) (b : Bytes)
    (hlen : c.trace.handled.length + 1 < 2 ^ 32) : (c.handleBundle b).InOrder := by
  have hlen' : (c.trace.handled ++ [b]).length < 2 ^ 32 := by
    rw [List.length_append, List.length_singleton]
    exact hlen
  unfold Connection.handleBundle
  simp only
  split
  · next hlt => exact ⟨⟨h.resequenced.drop (UInt32.lt_iff_toNat_lt.mp hlt), h.keyed⟩, h.settled⟩
  · next hge =>
      split
      · next hne =>
          have hle : c.nextSeqno.toNat ≤ number b := by
            rw [number]
            exact UInt32.le_iff_toNat_le.mp (UInt32.not_lt.mp hge)
          refine ⟨⟨?_, ?_⟩, ?_⟩
          · simp only [List.map_cons]
            rw [map_erase h.keyed]
            exact h.resequenced.wait hle
          · intro e he
            rcases List.mem_cons.mp he with rfl | he
            · rfl
            · exact keyed_erase h.keyed _ e he
          · intro e he
            rcases List.mem_cons.mp he with rfl | he
            · exact hne
            · exact h.settled e (List.mem_of_mem_filter he)
      · next heq =>
          have hseqno : seqnoOf b = c.nextSeqno := Classical.not_not.mp heq
          have hout := h.resequenced.deliver (x := b) (congrArg UInt32.toNat hseqno)
          have hkeep : (c.reorderTable.map Prod.snd).filter (fun y => number y ≠ c.nextSeqno.toNat) =
              c.reorderTable.map Prod.snd := by
            rw [← map_erase h.keyed, erase, List.filter_eq_self.mpr]
            exact fun e he => by simpa using h.settled e he
          rw [hkeep] at hout
          refine Sorted.drainFrom ⟨?_, h.keyed⟩ hlen' (Nat.le_refl _)
          simp only [deliver]
          rw [toNat_next hout.next_le hlen']
          exact hout

private theorem drainFrom_shape (n : Nat) (c : Connection) : ∃ q n' table, drainFrom n c = { c with
    queue := c.queue ++ q
    nextSeqno := n'
    reorderTable := table
    trace := { c.trace with delivered := c.trace.delivered ++ q } } := by
  induction n generalizing c with
  | zero => exact ⟨[], c.nextSeqno, c.reorderTable, by simp only [List.append_nil]; rfl⟩
  | succ n ih =>
      unfold drainFrom
      split
      · exact ⟨[], c.nextSeqno, c.reorderTable, by simp only [List.append_nil]⟩
      · next e _ =>
          obtain ⟨q, n', table, heq⟩ := ih ({ c with reorderTable := erase c.reorderTable c.nextSeqno }.deliver e.2)
          refine ⟨e.2 :: q, n', table, heq.trans ?_⟩
          simp only [deliver, List.append_assoc, List.singleton_append]

theorem handleBundle_shape (c : Connection) (b : Bytes) : ∃ q n table,
    c.handleBundle b = { c with
      queue := c.queue ++ q
      nextSeqno := n
      reorderTable := table
      trace := { c.trace with
        handled := c.trace.handled ++ [b]
        delivered := c.trace.delivered ++ q } } := by
  unfold Connection.handleBundle
  simp only
  split
  · exact ⟨[], c.nextSeqno, c.reorderTable, by simp only [List.append_nil]⟩
  · split
    · exact ⟨[], c.nextSeqno, (seqnoOf b, b) :: erase c.reorderTable (seqnoOf b), by
        simp only [List.append_nil]⟩
    · obtain ⟨q, n, table, heq⟩ := drainFrom_shape c.reorderTable.length
        ({ c with trace := { c.trace with handled := c.trace.handled ++ [b] } }.deliver b)
      refine ⟨b :: q, n, table, Eq.trans heq ?_⟩
      simp only [deliver, List.append_assoc, List.singleton_append]

/-! ## What is written -/

/-- The loop has taken some bundles out of the queue and written their data. -/
structure Taking (c : Connection) (taken : List Bytes) : Prop where
  delivered : c.trace.delivered = taken ++ c.queue
  next : c.nextRecvSeqno = UInt32.ofNat taken.length
  written : c.trace.written = dataOf taken
  closed : c.trace.closed = false

/-- What was written when the loop may be over: all of it, and an eof behind it, if the socket was closed. -/
structure Taken (c : Connection) (taken rest : List Bytes) : Prop where
  delivered : c.trace.delivered = taken ++ rest
  written : c.trace.written <+: dataOf taken
  closed : c.trace.closed = true →
    c.trace.written = dataOf taken ∧ ∃ front b, taken = front ++ [b] ∧ (BundleHeader.ofBytes b).eof ≠ 0

theorem Taking.taken {c : Connection} {taken : List Bytes} (h : c.Taking taken) : c.Taken taken c.queue where
  delivered := h.delivered
  written := h.written ▸ List.prefix_refl _
  closed hclosed := absurd (h.closed.symm.trans hclosed) Bool.false_ne_true

theorem taking_new (key : ConnKey) (phase : Phase) : (new key phase).Taking [] := ⟨rfl, rfl, rfl, rfl⟩

/-- A round takes one bundle, unless it stops. -/
theorem Taking.receive {c : Connection} {taken : List Bytes} (h : c.Taking taken) (r : Round) :
    ((c.receive r).2 = .again → ∃ taken, (c.receive r).1.Taking taken) ∧
      ∃ taken rest, (c.receive r).1.Taken taken rest := by
  unfold Connection.receive
  split
  · exact ⟨fun _ => ⟨taken, h⟩, taken, c.queue, h.taken⟩
  · next b queue hqueue =>
      have hdelivered : c.trace.delivered = taken ++ [b] ++ queue := by
        rw [h.delivered, hqueue, List.append_assoc, List.singleton_append]
      have hdata : dataOf (taken ++ [b]) = c.trace.written ++ b.drop BundleHeader.size := by
        rw [dataOf_append, h.written]
        exact congrArg _ (List.append_nil _)
      have hnext : c.nextRecvSeqno + 1 = UInt32.ofNat (taken ++ [b]).length := by
        rw [h.next, List.length_append, UInt32.ofNat_add]
        rfl
      simp only
      split
      · refine ⟨nofun, taken, b :: queue, ?_⟩
        exact ⟨h.delivered.trans (by rw [hqueue]), h.written ▸ List.prefix_refl _,
          fun hclosed => absurd (h.closed.symm.trans hclosed) Bool.false_ne_true⟩
      · split
        · next n _ =>
            refine ⟨nofun, taken ++ [b], queue, ⟨hdelivered, ?_, fun hclosed =>
              absurd (h.closed.symm.trans hclosed) Bool.false_ne_true⟩⟩
            rw [hdata]
            exact (List.prefix_append_right_inj _).mpr (List.take_prefix n _)
        · split
          · next heof =>
              have hclosed : c.trace.written ++ b.drop BundleHeader.size = dataOf (taken ++ [b]) ∧
                  ∃ front b', taken ++ [b] = front ++ [b'] ∧ (BundleHeader.ofBytes b').eof ≠ 0 :=
                ⟨hdata.symm, taken, b, rfl, heof⟩
              have hbegins : c.trace.written ++ b.drop BundleHeader.size <+: dataOf (taken ++ [b]) :=
                hdata ▸ List.prefix_refl _
              unfold Connection.close
              simp only
              split
              · exact ⟨nofun, taken ++ [b], queue, hdelivered, hbegins, fun _ => hclosed⟩
              · split
                · exact ⟨nofun, taken ++ [b], queue, hdelivered, hbegins, fun _ => hclosed⟩
                · exact ⟨nofun, taken ++ [b], queue, hdelivered, hbegins, fun _ => hclosed⟩
          · have hstill : (⟨c.key, c.phase, queue, c.reorderTable, c.nextSeqno, c.sendSeqno, c.nextRecvSeqno + 1,
                c.totalSent, c.sockEof, c.dtnBlocked, c.first, c.bXmit,
                { c.trace with written := c.trace.written ++ b.drop BundleHeader.size }⟩ : Connection).Taking
                (taken ++ [b]) := ⟨hdelivered, hnext, hdata.symm, h.closed⟩
            exact ⟨fun _ => ⟨_, hstill⟩, _, _, hstill.taken⟩

/-! ## What is sent -/

/-- A piece of what was read, and whether it is the last one. -/
structure Segment where
  eof : Bool
  data : Bytes

/-- The bundle number `n`. -/
def payload (key : ConnKey) (n : Nat) (s : Segment) : Bytes :=
  (header key (if s.eof then 1 else 0) (UInt32.ofNat n)).bytes ++ s.data

/-- The bundles from number `n` on. -/
def numbered (key : ConnKey) : Nat → List Segment → List Bytes
  | _, [] => []
  | n, s :: segs => payload key n s :: numbered key (n + 1) segs

/-- The bytes of the pieces. -/
def contents (segs : List Segment) : Bytes := segs.flatMap Segment.data

theorem length_numbered (key : ConnKey) (n : Nat) (segs : List Segment) :
    (numbered key n segs).length = segs.length := by
  induction segs generalizing n with
  | nil => rfl
  | cons s segs ih => rw [numbered, List.length_cons, ih, List.length_cons]

theorem numbered_append (key : ConnKey) (n : Nat) (segs : List Segment) (s : Segment) :
    numbered key n (segs ++ [s]) = numbered key n segs ++ [payload key (n + segs.length) s] := by
  induction segs generalizing n with
  | nil => rfl
  | cons t segs ih =>
      rw [List.cons_append, numbered, ih, numbered, List.length_cons, List.cons_append, Nat.add_right_comm,
        Nat.add_assoc]

theorem contents_append (segs : List Segment) (s : Segment) :
    contents (segs ++ [s]) = contents segs ++ s.data := by
  rw [contents, List.flatMap_append]
  exact congrArg _ (List.append_nil _)

/-- The thread is in its loop, and has sent the pieces. The next one is being filled. -/
structure Sending (c : Connection) (segs : List Segment) : Prop where
  sent : c.trace.sent = numbered c.key 0 segs
  number : c.sendSeqno = UInt32.ofNat (segs.length + if c.bXmit.isSome then 1 else 0)
  filling : ∀ b, c.bXmit = some b →
    ∃ d, b = payload c.key segs.length ⟨c.sockEof, d⟩ ∧ contents segs ++ d = c.trace.read
  idle : c.bXmit = none → contents segs = c.trace.read
  unfinished : ∀ s ∈ segs, s.eof = true → c.sockEof = true ∧ c.bXmit = none
  last : ∀ s ∈ segs.dropLast, s.eof = false
  first : c.first = true → segs = [] ∧ c.bXmit = none ∧ c.sockEof = false

/-- What was sent when the loop may be over. A bundle that was being filled is lost, and the eof behind it has
the number of the bundle after that. -/
structure Sent (c : Connection) (segs : List Segment) (behind : List Bytes) : Prop where
  sent : c.trace.sent = numbered c.key 0 segs ++ behind
  behind : behind = [] ∨ c.bXmit.isSome ∧ behind = [payload c.key (segs.length + 1) ⟨true, []⟩]
  read : contents segs <+: c.trace.read
  finished : ∀ s ∈ segs, s.eof = true → c.bXmit = none ∧ contents segs = c.trace.read
  last : ∀ s ∈ segs.dropLast, s.eof = false

theorem Sending.read {c : Connection} {segs : List Segment} (h : c.Sending segs) :
    contents segs <+: c.trace.read := by
  cases hx : c.bXmit with
  | none => exact h.idle hx ▸ List.prefix_refl _
  | some b =>
      obtain ⟨d, -, hd⟩ := h.filling b hx
      exact hd ▸ List.prefix_append _ _

theorem Sending.done {c : Connection} {segs : List Segment} (h : c.Sending segs) : c.Sent segs [] where
  sent := by rw [List.append_nil]; exact h.sent
  behind := Or.inl rfl
  read := h.read
  finished s hs heof := ⟨(h.unfinished s hs heof).2, h.idle (h.unfinished s hs heof).2⟩
  last := h.last

theorem sending_new (key : ConnKey) (phase : Phase) : (new key phase).Sending [] where
  sent := rfl
  number := rfl
  filling _ hb := nomatch hb
  idle _ := rfl
  unfinished _ hs := absurd hs List.not_mem_nil
  last _ hs := absurd hs List.not_mem_nil
  first _ := ⟨rfl, rfl, rfl⟩

theorem Sending.newBundle {c : Connection} {segs : List Segment} (h : c.Sending segs) (hx : c.bXmit = none)
    (heof : c.sockEof = false) : c.newBundle.Sending segs where
  sent := h.sent
  number := by
    show c.sendSeqno + 1 = UInt32.ofNat (segs.length + 1)
    rw [h.number, hx, UInt32.ofNat_add segs.length 1]
    rfl
  filling b hb := by
    have hn : c.sendSeqno = UInt32.ofNat segs.length := by rw [h.number, hx]; rfl
    refine ⟨[], ?_, by rw [List.append_nil]; exact h.idle hx⟩
    rw [← Option.some.inj hb, payload, List.append_nil, ← hn]
    show (header c.key 0 c.sendSeqno).bytes = (header c.key (if c.sockEof = true then 1 else 0) c.sendSeqno).bytes
    rw [heof]
    rfl
  idle hb := nomatch hb
  unfinished s hs hse := absurd (h.unfinished s hs hse).1 (by rw [heof]; exact Bool.false_ne_true)
  last := h.last
  first hf := nomatch hf

theorem Sending.readSocket {c c' : Connection} {segs : List Segment} (h : c.Sending segs) {b : Bytes}
    (hx : c.bXmit = some b) (heof : c.sockEof = false) {maxSize : UInt32} {received : Option Bytes}
    (hread : c.readSocket maxSize received b = some c') : c'.Sending segs := by
  obtain ⟨d, hb, hd⟩ := h.filling b hx
  have hnone : ∀ s ∈ segs, ¬ s.eof = true := fun s hs hse =>
    absurd (h.unfinished s hs hse).1 (by rw [heof]; exact Bool.false_ne_true)
  have hfirst : ¬ c.first = true := fun hf => by
    rw [(h.first hf).2.1] at hx
    cases hx
  have hnumber : c.sendSeqno = UInt32.ofNat (segs.length + 1) := by
    rw [h.number, hx]
    rfl
  unfold Connection.readSocket at hread
  simp only at hread
  split at hread
  · rw [← Option.some.inj hread]
    exact h
  · split at hread
    · cases hread
    · next data =>
        split at hread
        · rw [← Option.some.inj hread]
          refine ⟨h.sent, hnumber, ?_, nofun, fun s hs hse => absurd hse (hnone s hs), h.last,
            fun hf => absurd hf hfirst⟩
          rintro _ ⟨rfl⟩
          refine ⟨d, ?_, hd⟩
          rw [hb, heof]
          rfl
        · rw [← Option.some.inj hread]
          refine ⟨h.sent, hnumber, ?_, nofun, fun s hs hse => absurd hse (hnone s hs), h.last,
            fun hf => absurd hf hfirst⟩
          rintro _ ⟨rfl⟩
          refine ⟨_, ?_, (List.append_assoc _ _ _).symm.trans (congrArg (· ++ _) hd)⟩
          rw [hb, payload, payload, List.append_assoc]

/-- The outgoing bundle is sent, is kept, or the process exits. -/
theorem Sending.sendBundle {c : Connection} {segs : List Segment} (h : c.Sending segs) (maxSize : UInt32)
    (r : Round) : ∃ segs, (c.sendBundle maxSize r).1.Sending segs := by
  unfold Connection.sendBundle
  split
  · exact ⟨segs, h⟩
  · next b hx =>
      obtain ⟨d, hb, hd⟩ := h.filling b hx
      have hfirst : ¬ c.first = true := fun hf => by
        rw [(h.first hf).2.1] at hx
        cases hx
      split
      · split
        · have hnone : ∀ s ∈ segs, s.eof = false := fun s hs => by
            cases hse : s.eof with
            | false => rfl
            | true =>
                rw [(h.unfinished s hs hse).2] at hx
                cases hx
          refine ⟨segs ++ [⟨c.sockEof, d⟩], ?_, ?_, nofun, fun _ => ?_, ?_, ?_, fun hf =>
            absurd hf hfirst⟩
          · rw [numbered_append, h.sent, hb, Nat.zero_add]
          · rw [h.number, hx, List.length_append]
            rfl
          · rw [contents_append]
            exact hd
          · intro s hs hse
            rcases List.mem_append.mp hs with hs | hs
            · rw [hnone s hs] at hse
              cases hse
            · rw [List.mem_singleton.mp hs] at hse
              exact ⟨hse, rfl⟩
          · rw [List.dropLast_concat]
            exact hnone
        · exact ⟨segs, h.sent, h.number, h.filling, h.idle, h.unfinished, h.last, h.first⟩
        · exact ⟨segs, h⟩
      · exact ⟨segs, h⟩

/-- A bundle that was received changes what was sent only by an eof. -/
theorem Sending.receive {c : Connection} {segs : List Segment} (h : c.Sending segs) (r : Round) :
    ((c.receive r).2 = .again → ∃ segs, (c.receive r).1.Sending segs) ∧
      ∃ segs behind, (c.receive r).1.Sent segs behind := by
  have hdone := h.done
  unfold Connection.receive
  split
  · exact ⟨fun _ => ⟨segs, h⟩, segs, [], hdone⟩
  · simp only
    split
    · exact ⟨nofun, segs, [], hdone.sent, hdone.behind, hdone.read, hdone.finished, hdone.last⟩
    · split
      · exact ⟨nofun, segs, [], hdone.sent, hdone.behind, hdone.read, hdone.finished, hdone.last⟩
      · split
        · unfold Connection.close
          simp only
          split
          · exact ⟨nofun, segs, [], hdone.sent, hdone.behind, hdone.read, hdone.finished, hdone.last⟩
          · next heof =>
              split
              · refine ⟨nofun, ?_⟩
                have hnone : ∀ s ∈ segs, ¬ s.eof = true := fun s hs hse =>
                  heof (h.unfinished s hs hse).1
                cases hx : c.bXmit with
                | none =>
                    -- the eof is the next piece
                    have hn : c.sendSeqno = UInt32.ofNat segs.length := by rw [h.number, hx]; rfl
                    refine ⟨segs ++ [⟨true, []⟩], [], ?_, Or.inl rfl, ?_, ?_, ?_⟩
                    · rw [numbered_append, List.append_nil, h.sent, hn, payload, List.append_nil, Nat.zero_add]
                      rfl
                    · rw [contents_append, List.append_nil]
                      exact h.read
                    · intro s _ _
                      rw [contents_append, List.append_nil]
                      exact ⟨rfl, h.idle hx⟩
                    · rw [List.dropLast_concat]
                      exact fun s hs => Bool.eq_false_iff.mpr (hnone s hs)
                | some b =>
                    -- the eof takes the number behind the bundle that is being filled
                    have hn : c.sendSeqno = UInt32.ofNat (segs.length + 1) := by rw [h.number, hx]; rfl
                    refine ⟨segs, [payload c.key (segs.length + 1) ⟨true, []⟩], ?_, Or.inr ⟨rfl, rfl⟩, h.read,
                      fun s hs hse => absurd hse (hnone s hs), h.last⟩
                    rw [h.sent, hn, payload, List.append_nil]
                    rfl
              · exact ⟨nofun, segs, [], hdone.sent, hdone.behind, hdone.read, hdone.finished, hdone.last⟩
        · exact ⟨fun _ => ⟨segs, h.sent, h.number, h.filling, h.idle, h.unfinished, h.last, h.first⟩, segs, [],
            hdone.sent, hdone.behind, hdone.read, hdone.finished, hdone.last⟩

/-! ## Rounds -/

/-- What the thread of a connection leaves to `handle_bundle`, and that nothing that was sent comes back. -/
structure Keeps (c c' : Connection) : Prop where
  key : c'.key = c.key
  nextSeqno : c'.nextSeqno = c.nextSeqno
  reorderTable : c'.reorderTable = c.reorderTable
  handled : c'.trace.handled = c.trace.handled
  delivered : c'.trace.delivered = c.trace.delivered
  sent : c.trace.sent <+: c'.trace.sent

theorem Keeps.refl (c : Connection) : Keeps c c := ⟨rfl, rfl, rfl, rfl, rfl, List.prefix_refl _⟩

theorem Keeps.trans {c c' c'' : Connection} (h : Keeps c c') (h' : Keeps c' c'') : Keeps c c'' where
  key := h'.key.trans h.key
  nextSeqno := h'.nextSeqno.trans h.nextSeqno
  reorderTable := h'.reorderTable.trans h.reorderTable
  handled := h'.handled.trans h.handled
  delivered := h'.delivered.trans h.delivered
  sent := h.sent.trans h'.sent

theorem keeps_newBundle (c : Connection) : Keeps c c.newBundle :=
  ⟨rfl, rfl, rfl, rfl, rfl, List.prefix_refl _⟩

theorem keeps_readSocket {c c' : Connection} {maxSize : UInt32} {received : Option Bytes} {b : Bytes}
    (h : c.readSocket maxSize received b = some c') : Keeps c c' := by
  unfold readSocket at h
  simp only at h
  split at h
  · exact Option.some.inj h ▸ Keeps.refl c
  · split at h
    · cases h
    · split at h
      · exact Option.some.inj h ▸ ⟨rfl, rfl, rfl, rfl, rfl, List.prefix_refl _⟩
      · exact Option.some.inj h ▸ ⟨rfl, rfl, rfl, rfl, rfl, List.prefix_refl _⟩

theorem keeps_sendBundle (maxSize : UInt32) (r : Round) (c : Connection) :
    Keeps c (c.sendBundle maxSize r).1 := by
  unfold sendBundle
  split
  · exact Keeps.refl c
  · split
    · split
      · exact ⟨rfl, rfl, rfl, rfl, rfl, List.prefix_append _ _⟩
      · exact ⟨rfl, rfl, rfl, rfl, rfl, List.prefix_refl _⟩
      · exact Keeps.refl c
    · exact Keeps.refl c

theorem keeps_receive (r : Round) (c : Connection) : Keeps c (c.receive r).1 := by
  unfold receive
  split
  · exact Keeps.refl c
  · simp only
    split
    · exact ⟨rfl, rfl, rfl, rfl, rfl, List.prefix_refl _⟩
    · split
      · exact ⟨rfl, rfl, rfl, rfl, rfl, List.prefix_refl _⟩
      · split
        · unfold close
          simp only
          split
          · exact ⟨rfl, rfl, rfl, rfl, rfl, List.prefix_refl _⟩
          · split
            · exact ⟨rfl, rfl, rfl, rfl, rfl, List.prefix_append _ _⟩
            · exact ⟨rfl, rfl, rfl, rfl, rfl, List.prefix_refl _⟩
        · exact ⟨rfl, rfl, rfl, rfl, rfl, List.prefix_refl _⟩

theorem receive_ne_proceed (r : Round) (c : Connection) : (c.receive r).2 ≠ .proceed := by
  unfold receive
  split
  · exact nofun
  · simp only
    split
    · exact nofun
    · split
      · exact nofun
      · split
        · unfold close
          split
          · exact nofun
          · split <;> exact nofun
        · exact nofun

theorem Taking.newBundle {c : Connection} {taken : List Bytes} (h : c.Taking taken) :
    c.newBundle.Taking taken := ⟨h.delivered, h.next, h.written, h.closed⟩

theorem Taking.readSocket {c c' : Connection} {taken : List Bytes} (h : c.Taking taken) {maxSize : UInt32}
    {received : Option Bytes} {b : Bytes} (hread : c.readSocket maxSize received b = some c') :
    c'.Taking taken := by
  unfold Connection.readSocket at hread
  simp only at hread
  split at hread
  · exact Option.some.inj hread ▸ h
  · split at hread
    · cases hread
    · split at hread
      · exact Option.some.inj hread ▸ ⟨h.delivered, h.next, h.written, h.closed⟩
      · exact Option.some.inj hread ▸ ⟨h.delivered, h.next, h.written, h.closed⟩

theorem Taking.sendBundle {c : Connection} {taken : List Bytes} (h : c.Taking taken) (maxSize : UInt32)
    (r : Round) : (c.sendBundle maxSize r).1.Taking taken := by
  unfold Connection.sendBundle
  split
  · exact h
  · split
    · split
      · exact ⟨h.delivered, h.next, h.written, h.closed⟩
      · exact ⟨h.delivered, h.next, h.written, h.closed⟩
      · exact h
    · exact h

/-- The thread is in its loop, or in front of it. -/
structure Looping (c : Connection) : Prop where
  sending : ∃ segs, c.Sending segs
  taking : ∃ taken, c.Taking taken

/-- The thread may be out of its loop. -/
structure Stopped (c : Connection) : Prop where
  sent : ∃ segs behind, c.Sent segs behind
  taken : ∃ taken rest, c.Taken taken rest

theorem Looping.stopped {c : Connection} (h : c.Looping) : c.Stopped where
  sent := let ⟨segs, h⟩ := h.sending; ⟨segs, [], h.done⟩
  taken := let ⟨taken, h⟩ := h.taking; ⟨taken, c.queue, h.taken⟩

/-- What a step of the thread keeps: the loop goes on, or it may be over. -/
structure Steps (c : Connection) (done : Connection × Next) : Prop where
  keeps : Keeps c done.1
  looping : done.2 = .again → done.1.Looping
  stopped : done.1.Stopped
  next : done.2 ≠ .proceed

theorem Looping.receive {c : Connection} (h : c.Looping) (r : Round) : Steps c (c.receive r) := by
  obtain ⟨segs, hsending⟩ := h.sending
  obtain ⟨taken, htaking⟩ := h.taking
  exact {
    keeps := keeps_receive r c
    looping := fun hagain => ⟨(hsending.receive r).1 hagain, (htaking.receive r).1 hagain⟩
    stopped := ⟨(hsending.receive r).2, (htaking.receive r).2⟩
    next := receive_ne_proceed r c }

private theorem Looping.finishRound {c : Connection} (h : c.Looping) (maxSize : UInt32) (r : Round) :
    Steps c (if (c.sendBundle maxSize r).2 = .proceed then
      if r.msgReady then (c.sendBundle maxSize r).1.receive r else ((c.sendBundle maxSize r).1, .again)
      else c.sendBundle maxSize r) := by
  obtain ⟨segs, hsending⟩ := h.sending
  obtain ⟨taken, htaking⟩ := h.taking
  have hsent : (c.sendBundle maxSize r).1.Looping :=
    ⟨hsending.sendBundle maxSize r, taken, htaking.sendBundle maxSize r⟩
  have hkeeps := keeps_sendBundle maxSize r c
  split
  · split
    · have hreceive := hsent.receive r
      exact { hreceive with keeps := hkeeps.trans hreceive.keeps }
    · exact ⟨hkeeps, fun _ => hsent, hsent.stopped, nofun⟩
  · next hne => exact ⟨hkeeps, fun _ => hsent, hsent.stopped, hne⟩

theorem Looping.round {c : Connection} (h : c.Looping) (maxSize : UInt32) (r : Round) :
    Steps c (c.round maxSize r) := by
  obtain ⟨segs, hsending⟩ := h.sending
  obtain ⟨taken, htaking⟩ := h.taking
  unfold Connection.round
  simp only
  split
  · exact ⟨Keeps.refl c, nofun, h.stopped, nofun⟩
  · generalize hready : (r.sockReady && !(c.sockEof || c.dtnBlocked)) = ready
    have heof : (c.first || ready) = true → c.sockEof = false := by
      intro hstart
      rcases Bool.or_eq_true_iff.mp hstart with hf | hr
      · exact (hsending.first hf).2.2
      · rw [hr] at hready
        revert hready
        cases c.sockEof <;> simp
    -- the bundle to be filled
    obtain ⟨c₁, hdef⟩ : ∃ c₁, (if ((c.first || ready) && c.bXmit.isNone) = true then c.newBundle else c) = c₁ :=
      ⟨_, rfl⟩
    have hc₁ : c₁.Sending segs ∧ c₁.Taking taken ∧ Keeps c c₁ ∧ c₁.sockEof = c.sockEof := by
      rw [← hdef]
      split
      · next hnew =>
          obtain ⟨hstart, hnone⟩ := Bool.and_eq_true_iff.mp hnew
          exact ⟨hsending.newBundle (Option.isNone_iff_eq_none.mp hnone) (heof hstart), htaking.newBundle,
            keeps_newBundle c, rfl⟩
      · exact ⟨hsending, htaking, Keeps.refl c, rfl⟩
    obtain ⟨hsending₁, htaking₁, hkeeps₁, heof₁⟩ := hc₁
    rw [hdef]
    have hlooping₁ : c₁.Looping := ⟨⟨segs, hsending₁⟩, taken, htaking₁⟩
    have hfinish {c₂ : Connection} (hkeeps₂ : Keeps c₁ c₂) (h₂ : c₂.Looping) :=
      let hsteps := h₂.finishRound maxSize r
      ({ hsteps with keeps := (hkeeps₁.trans hkeeps₂).trans hsteps.keeps } : Steps c _)
    cases hr : ready with
    | false => exact hfinish (Keeps.refl c₁) hlooping₁
    | true =>
        cases hx : c₁.bXmit with
        | none => exact hfinish (Keeps.refl c₁) hlooping₁
        | some b =>
            have hopen : c₁.sockEof = false := heof₁.trans (heof (by rw [hr, Bool.or_true]))
            cases hread : c₁.readSocket maxSize r.received b with
            | none =>
                simp only [hread]
                exact ⟨hkeeps₁, nofun, hlooping₁.stopped, nofun⟩
            | some c₂ =>
                simp only [hread]
                exact hfinish (keeps_readSocket hread)
                  ⟨⟨segs, hsending₁.readSocket hx hopen hread⟩, taken, htaking₁.readSocket hread⟩

theorem Looping.connect {c : Connection} (h : c.Looping) (hfirst : c.first = true) (o : Opening) :
    Steps c (c.connect o) := by
  unfold Connection.connect
  split
  · exact ⟨Keeps.refl c, fun _ => h, h.stopped, nofun⟩
  · exact ⟨Keeps.refl c, nofun, h.stopped, nofun⟩
  · -- the first bundle is the one with the eof
    obtain ⟨segs, hsending⟩ := h.sending
    obtain ⟨hsegs, hnone, -⟩ := hsending.first hfirst
    subst hsegs
    have hread : contents [] = c.trace.read := hsending.idle hnone
    refine ⟨⟨rfl, rfl, rfl, rfl, rfl, List.prefix_append _ _⟩, nofun, ⟨⟨[⟨true, []⟩], [], ?_⟩, ?_⟩, nofun⟩
    · refine ⟨?_, Or.inl rfl, ?_, fun _ _ _ => ⟨hnone, hread⟩, fun _ hs => absurd hs List.not_mem_nil⟩
      · rw [hsending.sent]
        rfl
      · exact hread ▸ List.prefix_refl _
    · obtain ⟨taken, rest, htaken⟩ := h.stopped.taken
      exact ⟨taken, rest, htaken.delivered, htaken.written, htaken.closed⟩
  · exact ⟨Keeps.refl c, nofun, h.stopped, nofun⟩

theorem Looping.withPhase {c : Connection} (h : c.Looping) (phase : Phase) :
    ({ c with phase := phase } : Connection).Looping where
  sending := let ⟨segs, hs⟩ := h.sending
    ⟨segs, hs.sent, hs.number, hs.filling, hs.idle, hs.unfinished, hs.last, hs.first⟩
  taking := let ⟨taken, ht⟩ := h.taking
    ⟨taken, ht.delivered, ht.next, ht.written, ht.closed⟩

theorem Stopped.withPhase {c : Connection} (h : c.Stopped) (phase : Phase) :
    ({ c with phase := phase } : Connection).Stopped where
  sent := let ⟨segs, behind, hs⟩ := h.sent
    ⟨segs, behind, hs.sent, hs.behind, hs.read, hs.finished, hs.last⟩
  taken := let ⟨taken, rest, ht⟩ := h.taken
    ⟨taken, rest, ht.delivered, ht.written, ht.closed⟩

theorem InOrder.withPhase {c : Connection} (h : c.InOrder) (phase : Phase) :
    ({ c with phase := phase } : Connection).InOrder := ⟨⟨h.resequenced, h.keyed⟩, h.settled⟩

theorem InOrder.keeps {c c' : Connection} (h : c.InOrder) (hkeeps : Keeps c c') : c'.InOrder where
  resequenced := by
    rw [hkeeps.handled, hkeeps.nextSeqno, hkeeps.reorderTable, hkeeps.delivered]
    exact h.resequenced
  keyed := hkeeps.reorderTable ▸ h.keyed
  settled := by
    rw [hkeeps.reorderTable, hkeeps.nextSeqno]
    exact h.settled

/-- A connection of a process that has exited or not. -/
structure Valid (exited : Bool) (c : Connection) : Prop where
  ordered : c.trace.handled.length < 2 ^ 32 → c.InOrder
  looping : exited = false → c.phase = .connecting ∨ c.phase = .running → c.Looping
  first : exited = false → c.phase = .connecting → c.first = true
  stopped : c.Stopped

theorem valid_new (exited : Bool) (key : ConnKey) (phase : Phase) : (new key phase).Valid exited :=
  have hlooping : (new key phase).Looping := ⟨⟨[], sending_new key phase⟩, [], taking_new key phase⟩
  ⟨fun _ => inOrder_new key phase, fun _ _ => hlooping, fun _ _ => rfl, hlooping.stopped⟩

theorem Valid.handleBundle {exited : Bool} {c : Connection} (h : c.Valid exited) (b : Bytes) :
    (c.handleBundle b).Valid exited := by
  have hordered : (c.handleBundle b).trace.handled.length < 2 ^ 32 → (c.handleBundle b).InOrder := by
    intro hlen
    obtain ⟨q, n, table, heq⟩ := handleBundle_shape c b
    rw [heq, List.length_append, List.length_singleton] at hlen
    exact (h.ordered (by omega)).handleBundle b hlen
  obtain ⟨q, n, table, heq⟩ := handleBundle_shape c b
  rw [heq] at hordered ⊢
  refine ⟨hordered, ?_, h.first, ?_⟩
  · intro hexited hphase
    obtain ⟨⟨segs, hs⟩, taken, ht⟩ := h.looping hexited hphase
    refine ⟨⟨segs, hs.sent, hs.number, hs.filling, hs.idle, hs.unfinished, hs.last, hs.first⟩, taken, ?_, ht.next,
      ht.written, ht.closed⟩
    rw [ht.delivered, List.append_assoc]
  · obtain ⟨⟨segs, behind, hs⟩, taken, rest, ht⟩ := h.stopped
    refine ⟨⟨segs, behind, hs.sent, hs.behind, hs.read, hs.finished, hs.last⟩, taken, rest ++ q, ?_, ht.written,
      ht.closed⟩
    rw [ht.delivered, List.append_assoc]

theorem Steps.ordered {exited : Bool} {c : Connection} {done : Connection × Next} (h : Steps c done)
    (hvalid : c.Valid exited) (hlen : done.1.trace.handled.length < 2 ^ 32) : done.1.InOrder :=
  (hvalid.ordered (h.keeps.handled ▸ hlen)).keeps h.keeps

theorem Steps.valid_again {c : Connection} {done : Connection × Next} (h : Steps c done)
    (hvalid : c.Valid false) (hagain : done.2 = .again) :
    ({ done.1 with phase := .running } : Connection).Valid false where
  ordered hlen := (h.ordered hvalid hlen).withPhase _
  looping _ _ := (h.looping hagain).withPhase _
  first _ hphase := nomatch hphase
  stopped := h.stopped.withPhase _

theorem Steps.valid_done {c : Connection} {done : Connection × Next} (h : Steps c done)
    (hvalid : c.Valid false) : ({ done.1 with phase := .closing } : Connection).Valid false where
  ordered hlen := (h.ordered hvalid hlen).withPhase _
  looping _ hphase := hphase.elim nofun nofun
  first _ hphase := nomatch hphase
  stopped := h.stopped.withPhase _

theorem Steps.valid_exit {c : Connection} {done : Connection × Next} (h : Steps c done)
    (hvalid : c.Valid false) : done.1.Valid true where
  ordered hlen := h.ordered hvalid hlen
  looping hexited := nomatch hexited
  first hexited := nomatch hexited
  stopped := h.stopped

theorem Valid.foldl_handleBundle {exited : Bool} {c : Connection} (h : c.Valid exited) (bs : List Bytes) :
    (bs.foldl Connection.handleBundle c).Valid exited := by
  induction bs generalizing c with
  | nil => exact h
  | cons b bs ih => exact ih (h.handleBundle b)

theorem foldl_handleBundle_frame (c : Connection) (bs : List Bytes) :
    (bs.foldl Connection.handleBundle c).key = c.key ∧
      (bs.foldl Connection.handleBundle c).trace.sent = c.trace.sent ∧
      (bs.foldl Connection.handleBundle c).trace.handled = c.trace.handled ++ bs := by
  induction bs generalizing c with
  | nil => exact ⟨rfl, rfl, (List.append_nil _).symm⟩
  | cons b bs ih =>
      obtain ⟨q, n, table, heq⟩ := handleBundle_shape c b
      obtain ⟨hkey, hsent, hhandled⟩ := ih (c.handleBundle b)
      rw [List.foldl_cons, hkey, hsent, hhandled, heq]
      exact ⟨rfl, rfl, List.append_assoc _ _ _⟩

end Connection

end TCPTunnel

end Dtn2
