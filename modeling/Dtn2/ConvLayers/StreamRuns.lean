import Dtn2.ConvLayers.StreamMoves

/-!
# The functions as rows of moves

Every function that sends returns and is a row of moves, unless the connection is set up with
segments of no length or next to no buffer, or a bundle of four gigabytes or more is on the link:
its length does not fit into the 32 bits of the records. Every function that receives is a row of
moves where it returns.
-/

namespace Dtn2.StreamConvergenceLayer

open Framework BundleProtocol InFlightBundle Connection

/-- A bundle on the link is too long for the records. -/
def Oversized (c : Connection) : Prop :=
  (∃ x ∈ c.link.queue, 2 ^ 32 ≤ x.bytes.length) ∨
    ∃ x ∈ c.inflight, 2 ^ 32 ≤ x.xmit.bytes.length

/-- The states in which a function that sends can end the process. -/
def Hazard (c : Connection) : Prop :=
  c.params.segmentLength = 0 ∨ c.sendbuf.size < 2 ∨ Oversized c

/-- A run from `c` that ends in the connection `st a`, or shows a hazard. -/
def Runs {α : Type} (env : Env) (A : Input → Connection → Prop) (c : Connection)
    (st : α → Connection) : Exec α → Prop
  | .ok a => Moves env A c (st a)
  | .error _ => Hazard c

section Compose

variable {α β : Type} {env : Env} {A : Input → Connection → Prop} {c c' : Connection}
  {st : α → Connection} {st' : β → Connection}

theorem Moves.trans {c'' : Connection} (h : Moves env A c c') (h' : Moves env A c' c'') :
    Moves env A c c'' := Relation.ReflTransGen.trans h h'

theorem Move.one (h : Move env A c c') : Moves env A c c' := Relation.ReflTransGen.single h

theorem Moves.nil (env : Env) (c : Connection) : Moves env A c c := Relation.ReflTransGen.refl

private theorem oversized_of_move (hm : Move env A c c') (h : Oversized c') : Oversized c := by
  have hsub : ∀ {d : Connection}, Oversized d → d.link.queue = c.link.queue →
      (∀ x ∈ d.inflight, ∃ y ∈ c.inflight, y.xmit = x.xmit) → Oversized c := by
    intro d hd hqueue hin
    rcases hd with ⟨x, hx, hle⟩ | ⟨x, hx, hle⟩
    · exact Or.inl ⟨x, hqueue ▸ hx, hle⟩
    · obtain ⟨y, hy, hxy⟩ := hin x hx
      exact Or.inr ⟨y, hy, hxy ▸ hle⟩
  have hself : ∀ x ∈ c.inflight, ∃ y ∈ c.inflight, y.xmit = x.xmit := fun x hx => ⟨x, hx, rfl⟩
  cases hm with
  | bundleTaken fin x queue _ _ hqueue _ =>
      rcases h with ⟨y, hy, hle⟩ | ⟨y, hy, hle⟩
      · exact Or.inl ⟨y, by rw [hqueue]; exact List.mem_cons_of_mem _ hy, hle⟩
      · rcases List.mem_append.mp hy with hy | hy
        · exact Or.inr ⟨y, hy, hle⟩
        · rw [List.mem_singleton.mp hy] at hle
          exact Or.inl ⟨x, by rw [hqueue]; simp, hle⟩
  | chunkPut fin x k _ hshape _ _ =>
      refine hsub h rfl ?_
      intro z hz
      rcases List.mem_append.mp hz with hz | hz
      · exact ⟨z, by rw [hshape.inflight_some]; exact List.mem_append_left _ hz, rfl⟩
      · rw [List.mem_singleton.mp hz]
        exact ⟨x, by rw [hshape.inflight_some]; simp, rfl⟩
  | cancelled fin x hshape _ _ _ =>
      refine hsub h rfl ?_
      intro z hz
      exact ⟨z, by rw [hshape.inflight_some]; exact List.mem_append_left _ hz, rfl⟩
  | finishAcked => exact hsub h rfl (by simp)
  | finishPosted => exact hsub h rfl (by simp)
  | ackPart b n acked x rest _ _ hin _ _ _ _ =>
      refine hsub h rfl ?_
      intro z hz
      rcases List.mem_cons.mp hz with rfl | hz
      · exact ⟨x, by rw [hin]; simp, rfl⟩
      · exact ⟨z, by rw [hin]; exact List.mem_cons_of_mem _ hz, rfl⟩
  | ackFinal b n x rest _ _ hin _ _ _ _ =>
      refine hsub h rfl ?_
      intro z hz
      rcases List.mem_cons.mp hz with rfl | hz
      · exact ⟨x, by rw [hin]; simp, rfl⟩
      · exact ⟨z, by rw [hin]; exact List.mem_cons_of_mem _ hz, rfl⟩
  | ackFinalDone b n x rest _ _ hin _ _ _ _ =>
      refine hsub h rfl ?_
      intro z hz
      exact ⟨z, by rw [hin]; exact List.mem_cons_of_mem _ hz, rfl⟩
  | _ => exact hsub h rfl hself

private theorem setup_of_move (hm : Move env A c c') :
    c'.params.segmentLength = c.params.segmentLength ∧ c'.sendbuf.size = c.sendbuf.size := by
  cases hm with
  | negotiated params recvbuf up _ hseg => exact ⟨hseg, rfl⟩
  | wrote n => exact ⟨rfl, StreamBuffer.consume_size _ _⟩
  | _ => exact ⟨rfl, rfl⟩

theorem hazard_of_moves (hm : Moves env A c c') (h : Hazard c') : Hazard c := by
  induction hm with
  | refl => exact h
  | tail _ hstep ih =>
      apply ih
      obtain ⟨hseg, hsize⟩ := setup_of_move hstep
      rw [Hazard, hseg, hsize] at h
      rcases h with h | h | h
      · exact Or.inl h
      · exact Or.inr (Or.inl h)
      · exact Or.inr (Or.inr (oversized_of_move hstep h))

theorem Runs.ok {a : α} (h : Moves env A c (st a)) : Runs env A c st (.ok a) := h

theorem Runs.pure {a : α} (h : Moves env A c (st a)) : Runs env A c st (Pure.pure a) := h

theorem Runs.bind {x : Exec α} {f : α → Exec β} (hx : Runs env A c st x)
    (hf : ∀ a, x = .ok a → Moves env A c (st a) → Runs env A (st a) st' (f a)) :
    Runs env A c st' (x >>= f) := by
  cases x with
  | error e => exact hx
  | ok a =>
      have hrest := hf a rfl hx
      show Runs env A c st' (f a)
      cases hfa : f a with
      | error e =>
          rw [hfa] at hrest
          exact hazard_of_moves hx hrest
      | ok b =>
          rw [hfa] at hrest
          exact Moves.trans hx hrest

theorem Runs.after {x : Exec β} (hm : Moves env A c c') (h : Runs env A c' st' x) :
    Runs env A c st' x := by
  cases x with
  | error e => exact hazard_of_moves hm h
  | ok b => exact Moves.trans hm h

theorem Runs.moves {x : Exec α} {a : α} (h : Runs env A c st x) (hx : x = .ok a) :
    Moves env A c (st a) := by
  rw [hx] at h
  exact h

end Compose

/-! ## The socket -/

section Socket

variable {env : Env} {A : Input → Connection → Prop} {c : Connection}

/-- `c'` differs from `c` in what a write to the socket changes. -/
def SocketOnly (c c' : Connection) : Prop :=
  ∃ b w n r k, c' = { c with
    sendbuf := b, wire := w, writes := n, contactBroken := r, breakingContact := k }

theorem breakBroken_moves (env : Env) (c : Connection) :
    Moves env A c c.breakBroken ∧ SocketOnly c c.breakBroken := by
  rw [breakBroken]
  split
  · exact ⟨Moves.nil env c, _, _, _, _, _, rfl⟩
  · exact ⟨Move.one (Move.broke .broken true), _, _, _, _, _, rfl⟩

theorem sendData_spec (env : Env) (hup : c.contactBroken = none)
    (hfull : 0 < c.sendbuf.fullbytes) :
    ∃ c', c.sendData env = .ok c' ∧ Moves env A c c' ∧ SocketOnly c c' := by
  rw [sendData, Exec.assert_bind hup, Exec.assert_bind hfull]
  cases hnet : env.net c.writes with
  | wrote n => exact ⟨_, rfl, Move.one (Move.wrote n), _, _, _, _, _, rfl⟩
  | closed =>
      obtain ⟨hmoves, b, w, n, r, k, heq⟩ := breakBroken_moves env { c with writes := c.writes + 1 }
      refine ⟨_, rfl, (Move.one Move.writeFailed).trans hmoves, b, w, n, r, k, ?_⟩
      rw [heq]

theorem sendData_wire {c' : Connection} (h : c.sendData env = .ok c') :
    c'.wire ++ c'.sendbuf.full = c.wire ++ c.sendbuf.full ∧ c'.sendbuf.size = c.sendbuf.size ∧
      SocketOnly c c' := by
  rw [sendData] at h
  obtain ⟨_, -, h⟩ := Exec.bind_eq_ok.mp h
  obtain ⟨_, -, h⟩ := Exec.bind_eq_ok.mp h
  split at h
  · rename_i n _
    cases h
    refine ⟨?_, StreamBuffer.consume_size _ _, _, _, _, _, _, rfl⟩
    rw [StreamBuffer.consume_min_full, List.append_assoc, List.take_append_drop]
  · cases h
    rw [breakBroken]
    split
    · exact ⟨rfl, rfl, _, _, _, _, _, rfl⟩
    · exact ⟨rfl, rfl, _, _, _, _, _, rfl⟩

theorem put_of_le (c : Connection) {bs : Bytes} (h : bs.length ≤ c.sendbuf.tailbytes) :
    c.put bs = .ok { c with sendbuf := c.sendbuf.fill bs h } := by
  rw [put, dif_pos h]

theorem shutdownMessage_length (reason : Reason) :
    0 < (shutdownMessage reason).length ∧ (shutdownMessage reason).length ≤ 2 := by
  cases reason <;> decide

theorem put_of_lt (c : Connection) {bs : Bytes} (h : ¬ bs.length ≤ c.sendbuf.tailbytes) :
    c.put bs = .error (.fault .outOfBounds) := by
  rw [put, dif_neg h]

/-- `break_contact` touches nothing but the socket. It fails only if the shutdown message does not
fit into the empty buffer. -/
theorem breakContact_spec (env : Env) (hup : c.contactBroken = none) (reason : Reason) :
    (∃ c', c.breakContact env reason = .ok c' ∧ Moves env A c c' ∧ SocketOnly c c') ∨
      (c.breakContact env reason = .error (.fault .outOfBounds) ∧ c.sendbuf.size < 2) := by
  rw [breakContact]
  split
  · exact Or.inl ⟨_, rfl, Moves.nil env c, _, _, _, _, _, rfl⟩
  split
  · rename_i _ hsend
    obtain ⟨hsend, hempty, htodo⟩ := hsend
    have hnil : c.sendbuf.full = [] := List.eq_nil_of_length_eq_zero hempty
    have htail := c.sendbuf.tailbytes_of_empty hnil
    obtain ⟨hpos, hle⟩ := shutdownMessage_length reason
    by_cases hfit : (shutdownMessage reason).length ≤ c.sendbuf.tailbytes
    · left
      rw [put_of_le { c with breakingContact := true } hfit, Exec.ok_bind]
      obtain ⟨c', hdata, hmoves, b, w, n, r, k, heq⟩ := @sendData_spec A
        { c with breakingContact := true, sendbuf := c.sendbuf.fill (shutdownMessage reason) hfit }
        env hup (by
          show 0 < (c.sendbuf.full ++ shutdownMessage reason).length
          rw [List.length_append]
          omega)
      rw [hdata, Exec.ok_bind]
      have hfirst : Moves env A c _ := Move.one (Move.shutdownPut reason hfit hsend hnil htodo)
      refine ⟨_, rfl, (hfirst.trans hmoves).trans (Move.one (Move.broke reason c'.breakingContact)),
        b, w, n, some reason, k, ?_⟩
      rw [heq]
      rfl
    · right
      rw [put_of_lt { c with breakingContact := true } hfit]
      exact ⟨rfl, by omega⟩
  · exact Or.inl ⟨_, rfl, Move.one (Move.broke reason true), _, _, _, _, _, rfl⟩

theorem breakContact_runs (env : Env) (hup : c.contactBroken = none) (reason : Reason) :
    Runs env A c id (c.breakContact env reason) := by
  rcases breakContact_spec env hup reason with ⟨c', hbreak, hmoves, -⟩ | ⟨hbreak, hsize⟩
  · rw [hbreak]
    exact Runs.ok hmoves
  · rw [hbreak]
    exact Or.inr (Or.inl hsize)

end Socket

/-! ## Segments -/

section Segments

variable {env : Env} {A : Input → Connection → Prop} {c : Connection}
  {fin : List InFlightBundle} {x : InFlightBundle}

theorem entry_ne_of_mem_fin (h : SendInv c) (hshape : SendShape c fin (some x)) :
    ∀ z ∈ fin, z.entry ≠ x.entry := by
  intro z hz
  have hdistinct := h.distinct
  rw [hshape.inflight_some, List.map_append, List.nodup_append] at hdistinct
  exact hdistinct.2.2 z.entry (List.mem_map_of_mem hz) x.entry (by simp)

theorem deref_current (h : SendInv c) (hshape : SendShape c fin (some x)) :
    c.deref x.entry = .ok x := by
  have hne := entry_ne_of_mem_fin h hshape
  have hfind : (fin.find? fun z => decide (z.entry = x.entry)) = none := by
    rw [List.find?_eq_none]
    intro z hz
    simpa using hne z hz
  rw [deref, hshape.inflight_some, List.find?_append, hfind]
  simp [pure, Except.pure]

theorem modify_current (h : SendInv c) (hshape : SendShape c fin (some x))
    (f : InFlightBundle → InFlightBundle) {d : Connection} (hd : d.inflight = c.inflight) :
    d.modify x.entry f = { d with inflight := fin ++ [f x] } := by
  have hne := entry_ne_of_mem_fin h hshape
  have hmap : (fin.map fun z => if z.entry = x.entry then f z else z) = fin.map id := by
    apply List.map_congr_left
    intro z hz
    exact if_neg (hne z hz)
  rw [Connection.modify, hd, hshape.inflight_some, List.map_append, hmap, List.map_id,
    List.map_singleton, if_pos rfl]

theorem sendChunk_spec (env : Env) (h : SendInv c) (hshape : SendShape c fin (some x))
    (hup : c.contactBroken = none) (htodo : c.sendSegmentTodo ≠ 0)
    (htail : c.sendbuf.tailbytes ≠ 0) :
    ∃ c', c.sendChunk env x.entry = .ok c' ∧ Moves env A c c' ∧
      c'.currentInflight = some x.entry ∧
      c'.sendSegmentTodo = c.sendSegmentTodo - min c.sendSegmentTodo c.sendbuf.tailbytes ∧
      c'.wire ++ c'.sendbuf.full = c.wire ++ (c.sendbuf.full ++
        (x.xmit.bytes.drop x.sent).take (min c.sendSegmentTodo c.sendbuf.tailbytes)) := by
  have hx := h.sound x (by rw [hshape.inflight_some]; simp)
  have hle := hshape.todo_some htodo
  have htotal := hx.total_le
  obtain ⟨k, hk⟩ : ∃ k, min c.sendSegmentTodo c.sendbuf.tailbytes = k := ⟨_, rfl⟩
  have hlen : ((x.xmit.bytes.drop x.sent).take k).length = k := by
    rw [List.length_take, List.length_drop]
    omega
  have hfit : ((x.xmit.bytes.drop x.sent).take k).length ≤ c.sendbuf.tailbytes := by omega
  rw [sendChunk, deref_current h hshape, Exec.ok_bind]
  dsimp only
  rw [hk, hx.bytesSent_eq, x.xmit.produce_eq env.os (by omega) (by omega), Exec.ok_bind]
  dsimp only
  rw [Exec.assert_bind hlen, put_of_le c hfit, Exec.ok_bind,
    modify_current h hshape _ (d := { c with sendbuf := c.sendbuf.fill _ hfit }) rfl]
  have hmove : Move env A c _ := Move.chunkPut fin x k hfit hshape (by omega) (by omega)
  obtain ⟨c', hdata, hmoves, b, w, n, r, j, heq⟩ := @sendData_spec A
    { c with
      sendbuf := c.sendbuf.fill ((x.xmit.bytes.drop x.sent).take k) hfit
      inflight := fin ++ [x.advance k]
      sendSegmentTodo := c.sendSegmentTodo - k }
    env hup (by
      show 0 < (c.sendbuf.full ++ _).length
      rw [List.length_append]
      omega)
  have hwire := (sendData_wire hdata).1
  refine ⟨c', hdata, (Move.one hmove).trans hmoves, ?_, ?_, hwire⟩
  · rw [heq]
    exact hshape.current_some
  · rw [heq]

theorem sendLoop_spec (env : Env) (fuel : Nat) {p : Nat} (h : SendInv c)
    (hcur : c.currentInflight = some p) (hup : c.contactBroken = none) :
    ∃ c' b, c.sendLoop env fuel p = .ok (c', b) ∧ Moves env A c c' := by
  induction fuel generalizing c with
  | zero => exact ⟨_, _, rfl, Moves.nil env c⟩
  | succ fuel ih =>
      rw [sendLoop]
      split
      · rename_i hmore
        obtain ⟨fin, x, hshape, rfl⟩ := h.current hcur
        obtain ⟨c', hchunk, hmoves, hcur', -⟩ := sendChunk_spec env h hshape hup hmore.1 hmore.2
        rw [hchunk, Exec.ok_bind]
        split
        · exact ⟨_, _, rfl, hmoves⟩
        · rename_i hbroken
          split
          · exact ⟨_, _, rfl, hmoves⟩
          · obtain ⟨c'', b, hloop, hrest⟩ := ih (sendInv_moves h hmoves) hcur'
              (not_not.mp hbroken)
            exact ⟨c'', b, hloop, hmoves.trans hrest⟩
      · exact ⟨_, _, rfl, Moves.nil env c⟩

theorem popInflight_cons {d : Connection} {rest : List InFlightBundle} {p : Nat}
    (hd : d.inflight = x :: rest) (hp : x.entry = p) :
    d.popInflight p = .ok { d with inflight := rest } := by
  rw [popInflight, Exec.assert_bind (by rw [hd, ← hp]; rfl), hd]
  rfl

theorem finishBundle_runs (env : Env) (h : SendInv c) (hshape : SendShape c fin (some x))
    (htodo : c.sendSegmentTodo = 0) (hsent : x.sent = x.totalLength)
    (hcomplete : x.sendComplete = true) :
    ∃ c', c.finishBundle x.entry = .ok c' ∧ Moves env A c c' := by
  have hmem : x ∈ c.inflight := by
    rw [hshape.inflight_some]
    simp
  have hx := h.sound x hmem
  have hlt := h.acks x hmem
  have hfront : x.acked ≠ 0 → fin = [] := by
    intro hne
    cases fin with
    | nil => rfl
    | cons z zs =>
        refine absurd (h.acks_front x ?_) hne
        rw [hshape.inflight_some, List.cons_append, List.tail_cons]
        simp
  have hderef : ({ c with currentInflight := none } : Connection).deref x.entry = .ok x := by
    have hold := deref_current h hshape
    rw [deref] at hold ⊢
    exact hold
  rw [finishBundle, deref_current h hshape, Exec.ok_bind, Exec.assert_bind hcomplete,
    Exec.assert_bind hshape.current_some, checkCompleted, if_neg (by simp), hderef, Exec.ok_bind]
  cases hacks : c.params.segmentAckEnabled with
  | true =>
      rw [hx.numContiguous_acked, u32_of_lt hlt, if_pos rfl]
      split
      · rename_i hwait
        exact ⟨_, rfl, Move.one (Move.finishWaiting fin x hshape htodo hsent hacks hwait)⟩
      · rename_i hdone
        have hpos := hx.pos
        have hnil := hfront (by omega)
        subst hnil
        rw [@popInflight_cons x { c with currentInflight := none } [] _ hshape.inflight_some rfl]
        exact ⟨_, rfl, Move.one (Move.finishAcked x hshape htodo hsent hacks (by omega))⟩
  | false =>
      have hnil := hshape.plain hacks
      subst hnil
      rw [if_neg (by simp),
        modify_current h hshape _ (d := { c with currentInflight := none }) rfl,
        hx.numContiguous_sent, post,
        @popInflight_cons { x with transmitEventPosted := true } _ [] _ rfl rfl]
      exact ⟨_, rfl, Move.one (Move.finishPosted x hshape htodo hsent hacks)⟩

theorem nextSegment_eq (c : Connection) (hx : x.Sound) :
    c.nextSegment x = (decide (x.sent + min c.params.segmentLength (x.totalLength - x.sent) =
      x.totalLength), min c.params.segmentLength (x.totalLength - x.sent)) := by
  have hle := hx.le
  have hlt : x.totalLength < 2 ^ 32 := by
    rw [hx.total]
    exact u32_lt _
  rw [nextSegment, hx.bytesSent_eq, sizeSub_of_le hle (by omega)]
  split
  · rename_i hlast
    rw [Nat.min_eq_right hlast, Prod.mk.injEq, eq_comm, decide_eq_true_iff]
    exact ⟨by omega, rfl⟩
  · rename_i hmore
    rw [Nat.min_eq_left (by omega), Prod.mk.injEq, eq_comm, decide_eq_false_iff_not]
    exact ⟨by omega, rfl⟩

theorem lengthMessage_length (type : UInt8) (len : Nat) :
    (lengthMessage type len).length = 1 + SDNV.encodingLen (UInt64.ofNat len) := by
  rw [lengthMessage, SDNV.encodingLen_eq, List.length_cons]
  omega

theorem sendNextSegment_runs (env : Env) (h : SendInv c) {p : Nat}
    (hcur : c.currentInflight = some p) (htodo : c.sendSegmentTodo = 0)
    (hup : c.contactBroken = none) : Runs env A c Prod.fst (c.sendNextSegment env p) := by
  obtain ⟨fin, x, hshape, rfl⟩ := h.current hcur
  have hmem : x ∈ c.inflight := by
    rw [hshape.inflight_some]
    simp
  have hx := h.sound x hmem
  rw [sendNextSegment]
  split
  · exact Runs.pure (Moves.nil env c)
  rw [Exec.assert_bind htodo, deref_current h hshape, Exec.ok_bind, hx.bytesSent_eq]
  split
  · rename_i hsent
    by_cases hcomplete : x.sendComplete = true
    · obtain ⟨c', hfinish, hmoves⟩ := finishBundle_runs env h hshape htodo hsent hcomplete
      rw [Exec.assert_bind hcomplete, hfinish, Exec.ok_bind]
      exact Runs.pure hmoves
    · rw [Exec.assert_bind_not hcomplete]
      right
      right
      right
      refine ⟨x, hmem, le_of_u32_ne ?_⟩
      rw [hx.complete, decide_eq_true_iff, hsent, hx.total] at hcomplete
      exact hcomplete
  · rename_i hsent
    rw [nextSegment_eq c hx]
    dsimp only
    split
    · exact Runs.pure (Moves.nil env c)
    · rename_i hroom
      rw [← lengthMessage_length (segmentByte (decide (x.sent = 0)) (decide (x.sent +
        min c.params.segmentLength (x.totalLength - x.sent) = x.totalLength))), not_lt] at hroom
      rw [put_of_le c hroom, Exec.ok_bind, sendDataTodo]
      by_cases hseg : c.params.segmentLength = 0
      · have hzero : ¬ min c.params.segmentLength (x.totalLength - x.sent) ≠ 0 := by omega
        rw [Exec.assert_bind_not hzero]
        exact Or.inl hseg
      · have hle := hx.le
        have hpos : min c.params.segmentLength (x.totalLength - x.sent) ≠ 0 := by omega
        rw [Exec.assert_bind hpos]
        have hmove : Move env A c _ := Move.headerPut fin x _ _ hroom hshape htodo hsent hseg rfl rfl
        obtain ⟨c', b, hloop, hmoves⟩ := @sendLoop_spec A
          { c with
            sendbuf := c.sendbuf.fill _ hroom
            sendSegmentTodo := min c.params.segmentLength (x.totalLength - x.sent) }
          env (min c.params.segmentLength (x.totalLength - x.sent)) x.entry
          (sendInv_move h hmove) hcur hup
        rw [hloop]
        exact Runs.ok ((Move.one hmove).trans hmoves)

theorem startNextBundle_runs (env : Env) (h : SendInv c) (hcur : c.currentInflight = none)
    (hup : c.contactBroken = none) : Runs env A c Prod.fst (c.startNextBundle env) := by
  obtain ⟨fin, cur, hshape⟩ := h.shape
  cases cur with
  | some x =>
      rw [hshape.current_some] at hcur
      cases hcur
  | none =>
      rw [startNextBundle, Exec.assert_bind hcur]
      split
      · exact Runs.pure (Moves.nil env c)
      rename_i hcontact
      cases hqueue : c.link.queue with
      | nil => exact Runs.pure (Moves.nil env c)
      | cons x queue =>
          dsimp only
          rw [takeBundle]
          dsimp only
          by_cases htotal : (InFlightBundle.new c.entries x).totalLength ≠ 0
          · rw [Exec.assert_bind htotal, pure_bind]
            have hmove : Move env A c _ := Move.bundleTaken fin x queue hshape (by simpa using hcontact)
              hqueue htotal
            apply Runs.after (Move.one hmove)
            exact sendNextSegment_runs env (sendInv_move h hmove) rfl hshape.todo_none hup
          · rw [Exec.assert_bind_not htotal]
            right
            right
            left
            refine ⟨x, by rw [hqueue]; simp, le_of_u32_ne ?_⟩
            have hzero : u32 x.bytes.length = 0 := by
              rw [← x.totalLength_eq]
              exact not_not.mp htotal
            have hpos := x.bytes_pos
            omega

end Segments

/-! ## Acknowledgements -/

section Acks

variable {env : Env} {A : Input → Connection → Prop} {c : Connection}

/-- The loop of `send_pending_acks` moves the connection whose front record it works on. -/
theorem ackLoop_spec (env : Env) (rest : List IncomingBundle) (fuel : Nat) {y : IncomingBundle}
    (htodo : c.sendSegmentTodo = 0) :
    ∃ b y' g, c.ackLoop fuel y = .ok ({ c with sendbuf := b }, y', g) ∧
      Moves env A { c with incoming := y :: rest } { c with sendbuf := b, incoming := y' :: rest } ∧
      c.sendbuf.fullbytes ≤ b.fullbytes ∧ (g = true → 0 < b.fullbytes) := by
  induction fuel generalizing c y with
  | zero => exact ⟨_, _, _, rfl, Moves.nil env _, le_refl _, fun hg => by cases hg⟩
  | succ fuel ih =>
      rw [ackLoop]
      cases hfirst : y.ackData.first with
      | none => exact ⟨_, _, _, rfl, Moves.nil env _, le_refl _, fun hg => by cases hg⟩
      | some i =>
          dsimp only
          split
          · exact ⟨_, _, _, rfl, Moves.nil env _, le_refl _, fun hg => by cases hg⟩
          rename_i hrcvd
          rw [not_lt] at hrcvd
          split
          · rename_i hacks
            have hmove := @Move.ackPassed env A { c with incoming := y :: rest } y rest i rfl hacks
              hfirst hrcvd
            obtain ⟨b, y', g, hloop, hmoves, hgrow, hg⟩ := @ih c (ackedRecord y i) htodo
            exact ⟨b, y', g, hloop, (Move.one hmove).trans hmoves, hgrow, hg⟩
          · rename_i hacks
            split
            · exact ⟨_, _, _, rfl, Moves.nil env _, le_refl _, fun hg => by cases hg⟩
            · rename_i hroom
              rw [← lengthMessage_length ackSegment, not_lt] at hroom
              have hmove := @Move.ackPut env A { c with incoming := y :: rest } y rest i hroom rfl
                htodo (by simpa using hacks) hfirst hrcvd
              obtain ⟨b, y', g, hloop, hmoves, hgrow, hg⟩ := @ih
                { c with sendbuf := c.sendbuf.fill _ hroom } (ackedRecord y i) htodo
              rw [put_of_le c hroom, Exec.ok_bind]
              have hlen : c.sendbuf.fullbytes < b.fullbytes := by
                have hfill : (c.sendbuf.full ++ lengthMessage ackSegment (u32 (i + 1))).length ≤
                    b.fullbytes := hgrow
                rw [List.length_append, lengthMessage_length] at hfill
                rw [StreamBuffer.fullbytes]
                omega
              refine ⟨b, y', true, ?_, (Move.one hmove).trans hmoves, by omega, fun _ => by omega⟩
              rw [hloop]
              rfl

theorem checkDone_moves (env : Env) (c : Connection) :
    Moves env A c c.checkDone ∧ c.checkDone.sendSegmentTodo = c.sendSegmentTodo := by
  rw [checkDone]
  split
  · exact ⟨Moves.nil env c, rfl⟩
  · rename_i y rest hincoming
    split
    · rename_i hdone
      exact ⟨Move.one (Move.incomingDone y rest hincoming hdone.1 hdone.2), rfl⟩
    · exact ⟨Moves.nil env c, rfl⟩

theorem sendAcks_spec (env : Env) {y : IncomingBundle} {rest : List IncomingBundle}
    (hincoming : c.incoming = y :: rest) (htodo : c.sendSegmentTodo = 0)
    (hup : c.contactBroken = none) :
    ∃ c' g, c.sendAcks env y rest = .ok (c', g) ∧ Moves env A c c' ∧ c'.sendSegmentTodo = 0 := by
  rw [sendAcks]
  split
  · exact ⟨_, _, rfl, Moves.nil env c, htodo⟩
  · obtain ⟨b, y', g, hloop, hmoves, -, hg⟩ := ackLoop_spec env rest y.ackData.card htodo
    rw [← hincoming] at hmoves
    rw [hloop, Exec.ok_bind]
    dsimp only
    cases g with
    | false => exact ⟨_, _, rfl, hmoves, htodo⟩
    | true =>
        obtain ⟨c', hdata, hsend, b', w, n, r, k, heq⟩ :=
          @sendData_spec A { c with sendbuf := b, incoming := y' :: rest } env hup (hg rfl)
        rw [if_pos rfl, hdata, Exec.ok_bind]
        refine ⟨_, _, rfl, hmoves.trans hsend, ?_⟩
        rw [heq]
        exact htodo

theorem sendPendingAcks_spec (env : Env) (htodo : c.sendSegmentTodo = 0) :
    ∃ c' g, c.sendPendingAcks env = .ok (c', g) ∧ Moves env A c c' ∧ c'.sendSegmentTodo = 0 := by
  rw [sendPendingAcks]
  split
  · exact ⟨_, _, rfl, Moves.nil env c, htodo⟩
  rename_i hup
  cases hincoming : c.incoming with
  | nil => exact ⟨_, _, rfl, Moves.nil env c, htodo⟩
  | cons y rest =>
      obtain ⟨c', g, hacks, hmoves, htodo'⟩ := sendAcks_spec env hincoming htodo (not_not.mp hup)
      obtain ⟨hdone, hsame⟩ := checkDone_moves env c'
      dsimp only
      rw [hacks, Exec.ok_bind]
      exact ⟨_, _, rfl, hmoves.trans hdone, hsame.trans htodo'⟩

end Acks

/-! ## The entry points of the sending side -/

section Entry

variable {env : Env} {A : Input → Connection → Prop} {c : Connection}

private theorem continueSegment_spec (env : Env) (h : SendInv c) (hup : c.contactBroken = none) :
    ∃ c', c.continueSegment env = .ok c' ∧ Moves env A c c' := by
  rw [continueSegment]
  split
  · exact ⟨_, rfl, Moves.nil env c⟩
  rename_i htodo
  obtain ⟨fin, cur, hshape⟩ := h.shape
  obtain ⟨x, rfl, -⟩ := hshape.todo htodo
  rw [hshape.current_some]
  dsimp only
  rw [sendDataTodo, Exec.assert_bind htodo]
  obtain ⟨c', b, hloop, hmoves⟩ := sendLoop_spec env c.sendSegmentTodo h hshape.current_some hup
  rw [hloop, Exec.ok_bind]
  exact ⟨_, rfl, hmoves⟩

private theorem sendSegment_runs (env : Env) (h : SendInv c) (htodo : c.sendSegmentTodo = 0)
    (hup : c.contactBroken = none) : Runs env A c Prod.fst (c.sendSegment env) := by
  rw [sendSegment]
  cases hcur : c.currentInflight with
  | none => exact startNextBundle_runs env h hcur hup
  | some p => exact sendNextSegment_runs env h hcur htodo hup

theorem sendPendingData_runs (env : Env) (h : SendInv c) (hup : c.contactBroken = none) :
    Runs env A c Prod.fst (c.sendPendingData env) := by
  rw [sendPendingData]
  split
  · exact Runs.pure (Moves.nil env c)
  obtain ⟨c₁, hcontinue, hmoves₁⟩ := continueSegment_spec env h hup
  rw [hcontinue, Exec.ok_bind]
  split
  · exact Runs.pure hmoves₁
  rename_i hgo
  rw [not_or, not_not, not_not] at hgo
  obtain ⟨c₂, g, hacks, hmoves₂, htodo₂⟩ := sendPendingAcks_spec (c := c₁) env hgo.2
  rw [hacks, Exec.ok_bind]
  dsimp only
  split
  · exact Runs.pure (hmoves₁.trans hmoves₂)
  rename_i hup₂
  have hinv := sendInv_moves h (hmoves₁.trans hmoves₂)
  apply Runs.after (hmoves₁.trans hmoves₂)
  apply Runs.bind (sendSegment_runs env hinv htodo₂ (not_not.mp hup₂))
  intro a _ _
  exact Runs.pure (Moves.nil env _)

theorem sendKeepalive_runs (env : Env) (htodo : c.sendSegmentTodo = 0)
    (hup : c.contactBroken = none) : Runs env A c id (c.sendKeepalive env) := by
  rw [sendKeepalive]
  split
  · exact Runs.pure (Moves.nil env c)
  rename_i hempty
  have hnil : c.sendbuf.full = [] := List.eq_nil_of_length_eq_zero (not_not.mp hempty)
  have htail := c.sendbuf.tailbytes_of_empty hnil
  by_cases hroom : 0 < c.sendbuf.tailbytes
  · have hfit : [keepalive].length ≤ c.sendbuf.tailbytes := hroom
    rw [Exec.assert_bind hroom, Exec.assert_bind htodo, put_of_le c hfit, Exec.ok_bind]
    obtain ⟨c', hdata, hmoves, -⟩ := @sendData_spec A
      { c with sendbuf := c.sendbuf.fill [keepalive] hfit } env hup (by
        show 0 < (c.sendbuf.full ++ [keepalive]).length
        simp)
    rw [hdata]
    exact Runs.ok ((Move.one (Move.keepalivePut hfit hnil htodo)).trans hmoves)
  · rw [Exec.assert_bind_not hroom]
    exact Or.inr (Or.inl (by omega))

theorem checkKeepalive_runs (env : Env) (due : Bool) (hup : c.contactBroken = none) :
    Runs env A c id (c.checkKeepalive env due) := by
  rw [checkKeepalive]
  split
  · split
    · exact Runs.pure (Moves.nil env c)
    · rename_i htodo
      exact sendKeepalive_runs env (not_not.mp htodo) hup
  · exact Runs.pure (Moves.nil env c)

theorem handlePollTimeout_runs (env : Env) (t : Timers) (hup : c.contactBroken = none) :
    Runs env A c id (c.handlePollTimeout env t) := by
  rw [handlePollTimeout]
  split
  · exact breakContact_runs env hup .broken
  split
  · exact breakContact_runs env hup .idle
  · exact checkKeepalive_runs env t.keepaliveDue hup

theorem handleCancelBundle_moves (env : Env) (h : SendInv c) (id : Nat) (hA : A (.cancel id) c) :
    Moves env A c (c.handleCancelBundle id) := by
  rw [handleCancelBundle]
  cases hfind : c.inflight.find? fun x => decide (x.xmit.bundleid = id) with
  | none => exact Moves.nil env c
  | some x =>
      dsimp only
      split
      · exact Moves.nil env c
      rename_i hempty
      split
      · exact Moves.nil env c
      rename_i hidle
      have hmem := List.mem_of_find?_eq_some hfind
      have hx := h.sound x hmem
      have hzero : x.sent = 0 := hx.sent_eq_zero.mp (not_not.mp hempty)
      have hid : x.xmit.bundleid = id := by simpa using List.find?_some hfind
      obtain ⟨fin, cur, hshape⟩ := h.shape
      -- a finished bundle has been sent, so the record is the current one
      have hcur : cur = some x := by
        rw [hshape.inflight, List.mem_append] at hmem
        rcases hmem with hfin | hcur
        · have hsent := hshape.finished x hfin
          have hpos := hx.pos
          omega
        · simpa using hcur
      subst hcur
      have hcurrent := hshape.current_some
      have htodo : c.sendSegmentTodo = 0 := by
        by_contra hne
        exact hidle ⟨hcurrent, hne⟩
      have herase : c.inflight.eraseP (fun y => decide (y.xmit.bundleid = id)) = fin := by
        have hfin : ∀ z ∈ fin, ¬ (decide (z.xmit.bundleid = id) = true) := by
          intro z hz hzid
          rw [hshape.inflight_some, List.find?_append] at hfind
          cases hfirst : fin.find? fun x => decide (x.xmit.bundleid = id) with
          | none => exact absurd hzid (List.find?_eq_none.mp hfirst z hz)
          | some w =>
              rw [hfirst, Option.some_or, Option.some.injEq] at hfind
              have hw := List.mem_of_find?_eq_some hfirst
              exact entry_ne_of_mem_fin h hshape w hw (by rw [hfind])
        rw [hshape.inflight_some, List.eraseP_append_right _ (by simpa using hfin),
          List.eraseP_cons_of_pos (by simpa using hid)]
        simp
      rw [if_pos hcurrent, herase, ← hid]
      exact Move.one (Move.cancelled fin x hshape htodo hzero (hid ▸ hA))

end Entry

end Dtn2.StreamConvergenceLayer
