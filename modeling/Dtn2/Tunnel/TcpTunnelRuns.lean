import Dtn2.Tunnel.TcpConnection

/-!
# What goes through the tunnels

Between a connection at one side and the connection with its key at the other bundles are lost, repeated and
reordered. What the one writes to its socket is what the other has read.
-/

namespace Dtn2

namespace TCPTunnel

open Framework

/-! ## Tunnels -/

/-- A tunnel of which the bundles are of some kind for their keys. -/
structure Sound (kind : ConnKey → Bytes → Prop) (t : TCPTunnel) : Prop where
  valid : ∀ (i : Nat) (c : Connection), t.conns[i]? = some c → c.Valid t.exited
  table : ∀ k i, t.connections k = some i → ∃ c : Connection, t.conns[i]? = some c ∧ c.key = k
  handled : ∀ (i : Nat) (c : Connection), t.conns[i]? = some c → ∀ b ∈ c.trace.handled, kind c.key b
  waiting : ∀ k bs, t.noConnBundles k = some bs → ∀ b ∈ bs, kind k b

theorem Sound.mono {kind kind' : ConnKey → Bytes → Prop} {t : TCPTunnel} (h : t.Sound kind)
    (hkind : ∀ k b, kind k b → kind' k b) : t.Sound kind' :=
  ⟨h.valid, h.table, fun i c hc b hb => hkind _ _ (h.handled i c hc b hb),
    fun k bs hbs b hb => hkind _ _ (h.waiting k bs hbs b hb)⟩

/-- Connections stay where they are, and so does what they have sent. -/
structure Grows (t t' : TCPTunnel) : Prop where
  localEid : t'.localEid = t.localEid
  conns : ∀ (i : Nat) (c : Connection), t.conns[i]? = some c →
    ∃ c' : Connection, t'.conns[i]? = some c' ∧ c'.key = c.key ∧ c.trace.sent <+: c'.trace.sent

theorem Grows.refl (t : TCPTunnel) : Grows t t := ⟨rfl, fun _ c h => ⟨c, h, rfl, List.prefix_refl _⟩⟩

theorem Grows.trans {t t' t'' : TCPTunnel} (h : Grows t t') (h' : Grows t' t'') : Grows t t'' where
  localEid := h'.localEid.trans h.localEid
  conns i c hc := by
    obtain ⟨c', hc', hkey, hsent⟩ := h.conns i c hc
    obtain ⟨c'', hc'', hkey', hsent'⟩ := h'.conns i c' hc'
    exact ⟨c'', hc'', hkey'.trans hkey, hsent.trans hsent'⟩

private theorem getElem?_modifyConn {t : TCPTunnel} {i j : Nat} {f : Connection → Connection} {c : Connection}
    (h : (t.modifyConn i f).conns[j]? = some c) :
    ∃ c₀, t.conns[j]? = some c₀ ∧ c = if i = j then f c₀ else c₀ := by
  rw [modifyConn, List.getElem?_modify] at h
  obtain ⟨c₀, hc₀, heq⟩ := Option.map_eq_some_iff.mp h
  exact ⟨c₀, hc₀, heq.symm⟩

theorem grows_modifyConn {t : TCPTunnel} {i : Nat} {f : Connection → Connection}
    (hf : ∀ c : Connection, t.conns[i]? = some c → (f c).key = c.key ∧ c.trace.sent <+: (f c).trace.sent) :
    Grows t (t.modifyConn i f) where
  localEid := rfl
  conns j c hc := by
    rw [modifyConn, List.getElem?_modify, hc]
    by_cases hij : i = j
    · subst hij
      exact ⟨f c, by simp, hf c hc⟩
    · exact ⟨c, by simp [hij], rfl, List.prefix_refl _⟩

theorem Sound.modifyConn {kind : ConnKey → Bytes → Prop} {t : TCPTunnel} (h : t.Sound kind) {i : Nat}
    {f : Connection → Connection} (hf : ∀ c : Connection, t.conns[i]? = some c →
      (f c).key = c.key ∧ (f c).Valid t.exited ∧ ∀ b ∈ (f c).trace.handled, kind c.key b) :
    (t.modifyConn i f).Sound kind where
  valid j c hc := by
    obtain ⟨c₀, hc₀, rfl⟩ := getElem?_modifyConn hc
    split
    · next hij => exact (hf c₀ (hij ▸ hc₀)).2.1
    · exact h.valid j c₀ hc₀
  table k j hk := by
    obtain ⟨c, hc, hkey⟩ := h.table k j hk
    rw [TCPTunnel.modifyConn, List.getElem?_modify, hc]
    by_cases hij : i = j
    · exact ⟨f c, by simp [hij], (hf c (hij ▸ hc)).1.trans hkey⟩
    · exact ⟨c, by simp [hij], hkey⟩
  handled j c hc b hb := by
    obtain ⟨c₀, hc₀, rfl⟩ := getElem?_modifyConn hc
    split at hb
    · next hij =>
        obtain ⟨hkey, -, hhandled⟩ := hf c₀ (hij ▸ hc₀)
        rw [if_pos hij, hkey]
        exact hhandled b hb
    · next hij =>
        rw [if_neg hij]
        exact h.handled j c₀ hc₀ b hb
  waiting := h.waiting

private theorem getElem?_create {t : TCPTunnel} {key : ConnKey} {phase : Phase} {j : Nat} {c : Connection}
    (h : (t.conns ++ [Connection.new key phase])[j]? = some c) :
    t.conns[j]? = some c ∨ c = Connection.new key phase := by
  rw [List.getElem?_append] at h
  split at h
  · exact Or.inl h
  · exact Or.inr (List.mem_singleton.mp (List.mem_of_getElem? h))

theorem grows_append (t : TCPTunnel) (c : Connection) (connections : ConnKey → Option Nat) (id : UInt32) :
    Grows t { t with conns := t.conns ++ [c], connections := connections, nextConnectionId := id } where
  localEid := rfl
  conns i c' hc := by
    obtain ⟨hi, -⟩ := List.getElem?_eq_some_iff.mp hc
    exact ⟨c', (List.getElem?_append_left hi).trans hc, rfl, List.prefix_refl _⟩

/-- A connection is made, and entered in the table or not. -/
theorem Sound.append {kind : ConnKey → Bytes → Prop} {t : TCPTunnel} (h : t.Sound kind) (key : ConnKey)
    (phase : Phase) {connections : ConnKey → Option Nat} (id : UInt32)
    (hconnections : ∀ k i, connections k = some i → t.connections k = some i ∨ k = key ∧ i = t.conns.length) :
    Sound kind { t with
      conns := t.conns ++ [Connection.new key phase], connections := connections, nextConnectionId := id } where
  valid i c hc := by
    rcases getElem?_create hc with hc | rfl
    · exact h.valid i c hc
    · exact Connection.valid_new t.exited key phase
  table k i hk := by
    rcases hconnections k i hk with hk | ⟨rfl, rfl⟩
    · obtain ⟨c, hc, hkey⟩ := h.table k i hk
      obtain ⟨hi, -⟩ := List.getElem?_eq_some_iff.mp hc
      exact ⟨c, (List.getElem?_append_left hi).trans hc, hkey⟩
    · exact ⟨Connection.new k phase, by simp, rfl⟩
  handled i c hc b hb := by
    rcases getElem?_create hc with hc | rfl
    · exact h.handled i c hc b hb
    · cases hb
  waiting := h.waiting

/-- A bundle is handed to its connection, with those that have waited. -/
theorem Sound.deliverTo {kind : ConnKey → Bytes → Prop} {t : TCPTunnel} (h : t.Sound kind) {i : Nat}
    {key : ConnKey} {b : Bytes} (hi : ∃ c : Connection, t.conns[i]? = some c ∧ c.key = key) (hb : kind key b) :
    (t.deliverTo i key b).Sound kind ∧ Grows t (t.deliverTo i key b) := by
  obtain ⟨c₀, hc₀, hkey⟩ := hi
  have hone (c : Connection) := Connection.foldl_handleBundle_frame c [b]
  have hsound : (t.modifyConn i (·.handleBundle b)).Sound kind := by
    refine h.modifyConn fun c hc => ⟨(hone c).1, (h.valid i c hc).handleBundle b, fun x hx => ?_⟩
    rw [show c.handleBundle b = [b].foldl Connection.handleBundle c from rfl, (hone c).2.2] at hx
    rcases List.mem_append.mp hx with hx | hx
    · exact h.handled i c hc x hx
    · rw [hc₀] at hc
      rw [← Option.some.inj hc, hkey, List.mem_singleton.mp hx]
      exact hb
  have hgrows : Grows t (t.modifyConn i (·.handleBundle b)) :=
    grows_modifyConn fun c _ => ⟨(hone c).1, (hone c).2.1 ▸ List.prefix_refl _⟩
  unfold TCPTunnel.deliverTo
  simp only
  split
  · exact ⟨hsound, hgrows⟩
  · next vec hvec =>
      obtain ⟨c₁, hc₁, hkey₁, -⟩ := hgrows.conns i c₀ hc₀
      let t₁ : TCPTunnel := { t.modifyConn i (·.handleBundle b) with
        noConnBundles := Function.update (t.modifyConn i (·.handleBundle b)).noConnBundles key none }
      have hsound₁ : t₁.Sound kind := by
        refine ⟨hsound.valid, hsound.table, hsound.handled, fun k bs hbs => ?_⟩
        simp only [t₁, Function.update_apply] at hbs
        split at hbs
        · cases hbs
        · exact hsound.waiting k bs hbs
      refine ⟨hsound₁.modifyConn fun c hc => ⟨(Connection.foldl_handleBundle_frame c vec).1,
        (hsound₁.valid i c hc).foldl_handleBundle vec, fun x hx => ?_⟩, hgrows.trans ?_⟩
      · rw [(Connection.foldl_handleBundle_frame c vec).2.2] at hx
        rcases List.mem_append.mp hx with hx | hx
        · exact hsound₁.handled i c hc x hx
        · rw [← Option.some.inj (hc₁.symm.trans hc), hkey₁, hkey]
          exact hsound.waiting key vec hvec x hx
      · have hkeep : Grows t₁ (t₁.modifyConn i fun c => vec.foldl Connection.handleBundle c) :=
          grows_modifyConn fun c _ => ⟨(Connection.foldl_handleBundle_frame c vec).1,
            (Connection.foldl_handleBundle_frame c vec).2.1 ▸ List.prefix_refl _⟩
        exact ⟨hkeep.localEid, hkeep.conns⟩

theorem Sound.handleBundle {kind : ConnKey → Bytes → Prop} {t : TCPTunnel} (h : t.Sound kind)
    (source b : Bytes) (hb : kind (keyOf source b) b) :
    (t.handleBundle source b).Sound kind ∧ Grows t (t.handleBundle source b) := by
  let t₀ : TCPTunnel := { t with arrived := t.arrived ++ [(source, b)] }
  have h₀ : t₀.Sound kind := ⟨h.valid, h.table, h.handled, h.waiting⟩
  have hgrows₀ : Grows t t₀ := ⟨rfl, fun i c hc => ⟨c, hc, rfl, List.prefix_refl _⟩⟩
  unfold TCPTunnel.handleBundle
  simp only
  split
  · split
    · have hcreate : (t₀.create (keyOf source b) .connecting).Sound kind :=
        h₀.append (keyOf source b) .connecting t₀.nextConnectionId fun k i hk => by
          rw [Function.update_apply] at hk
          split at hk
          · next heq => exact Or.inr ⟨heq, (Option.some.inj hk).symm⟩
          · exact Or.inl hk
      have hnew : ∃ c : Connection, (t₀.create (keyOf source b) .connecting).conns[t₀.conns.length]? = some c ∧
          c.key = keyOf source b := by
        refine ⟨Connection.new (keyOf source b) .connecting, ?_, rfl⟩
        rw [create]
        exact List.getElem?_concat_length
      obtain ⟨hsound, hgrows⟩ := hcreate.deliverTo hnew hb
      have hmade : Grows t₀ (t₀.create (keyOf source b) .connecting) :=
        grows_append t₀ (Connection.new (keyOf source b) .connecting) _ t₀.nextConnectionId
      exact ⟨hsound, hgrows₀.trans (hmade.trans hgrows)⟩
    · refine ⟨⟨h.valid, h.table, h.handled, fun k bs hbs x hx => ?_⟩, ⟨rfl, hgrows₀.conns⟩⟩
      simp only [Function.update_apply] at hbs
      split at hbs
      · next heq =>
          rw [← Option.some.inj hbs] at hx
          rcases List.mem_append.mp hx with hx | hx
          · cases hold : t.noConnBundles (keyOf source b) with
            | none =>
                rw [hold] at hx
                cases hx
            | some old =>
                rw [hold] at hx
                exact heq ▸ h.waiting _ old hold x hx
          · rw [heq, List.mem_singleton.mp hx]
            exact hb
      · exact h.waiting k bs hbs x hx
  · next i hi =>
      obtain ⟨hsound, hgrows⟩ := h₀.deliverTo (h.table _ i hi) hb
      exact ⟨hsound, hgrows₀.trans hgrows⟩

theorem Sound.dtnHandleBundle {kind : ConnKey → Bytes → Prop} {t : TCPTunnel} (h : t.Sound kind)
    (source b : Bytes) (hb : kind (keyOf source b) b) :
    (t.dtnHandleBundle source b).Sound kind ∧ Grows t (t.dtnHandleBundle source b) := by
  unfold TCPTunnel.dtnHandleBundle
  split
  · exact ⟨h, Grows.refl t⟩
  · split
    · exact h.handleBundle source b hb
    · exact ⟨h, Grows.refl t⟩

theorem Sound.accepted {kind : ConnKey → Bytes → Prop} {t : TCPTunnel} (h : t.Sound kind) (dest : Bytes)
    (clientAddr : UInt32) (clientPort : UInt16) (remoteAddr : UInt32) (remotePort : UInt16) :
    (t.accepted dest clientAddr clientPort remoteAddr remotePort).Sound kind ∧
      Grows t (t.accepted dest clientAddr clientPort remoteAddr remotePort) := by
  unfold TCPTunnel.accepted
  simp only
  split
  · exact ⟨h.append _ .running _ fun _ _ hk => Or.inl hk, grows_append t _ t.connections _⟩
  · refine ⟨h.append _ .running _ fun k i hk => ?_, grows_append t _ _ _⟩
    rw [Function.update_apply] at hk
    split at hk
    · next heq => exact Or.inr ⟨heq, (Option.some.inj hk).symm⟩
    · exact Or.inl hk

private theorem Sound.exit {kind : ConnKey → Bytes → Prop} {t : TCPTunnel} {i : Nat} {c c' : Connection}
    (h : t.Sound kind) (hc : t.conns[i]? = some c) (hkeeps : c.Keeps c') (hvalid : c'.Valid true) :
    Sound kind { t.modifyConn i fun _ => c' with exited := true } := by
  have hstay {exited : Bool} {c : Connection} (hv : c.Valid exited) : c.Valid true :=
    ⟨hv.ordered, nofun, nofun, hv.stopped⟩
  have h' : Sound kind { t with exited := true } :=
    ⟨fun j c hc => hstay (h.valid j c hc), h.table, h.handled, h.waiting⟩
  refine h'.modifyConn fun c₀ hc₀ => ?_
  rw [← Option.some.inj (hc.symm.trans hc₀)]
  exact ⟨hkeeps.key, hvalid, fun b hb => h.handled i c hc b (hkeeps.handled ▸ hb)⟩

theorem Sound.advance {kind : ConnKey → Bytes → Prop} {t : TCPTunnel} (h : t.Sound kind)
    (hexited : t.exited = false) (i : Nat) (phase : Phase) (f : Connection → Connection × Next)
    (hf : ∀ c : Connection, c.phase = phase → c.Valid false → c.Steps (f c)) :
    (t.advance i phase f).Sound kind ∧ Grows t (t.advance i phase f) := by
  unfold TCPTunnel.advance
  split
  · exact ⟨h, Grows.refl t⟩
  · next c hc =>
      split
      · exact ⟨h, Grows.refl t⟩
      · next hsame =>
          have hvalid : c.Valid false := hexited ▸ h.valid i c hc
          have hsteps := hf c (Classical.not_not.mp hsame) hvalid
          have hreplace {c' : Connection} (hkeeps : c.Keeps c') (hvalid' : c'.Valid false) :
              (t.modifyConn i fun _ => c').Sound kind ∧ Grows t (t.modifyConn i fun _ => c') := by
            refine ⟨h.modifyConn fun c₀ hc₀ => ?_, grows_modifyConn fun c₀ hc₀ => ?_⟩
            · rw [← Option.some.inj (hc.symm.trans hc₀)]
              exact ⟨hkeeps.key, hexited ▸ hvalid', fun b hb => h.handled i c hc b (hkeeps.handled ▸ hb)⟩
            · rw [← Option.some.inj (hc.symm.trans hc₀)]
              exact ⟨hkeeps.key, hkeeps.sent⟩
          have hkeeps := hsteps.keeps
          simp only
          split
          · exact hreplace ⟨hkeeps.key, hkeeps.nextSeqno, hkeeps.reorderTable, hkeeps.handled, hkeeps.delivered,
              hkeeps.sent⟩ (hsteps.valid_done hvalid)
          · have hgrows : Grows t (t.modifyConn i fun _ => (f c).1) := grows_modifyConn fun c₀ hc₀ => by
              rw [← Option.some.inj (hc.symm.trans hc₀)]
              exact ⟨hkeeps.key, hkeeps.sent⟩
            exact ⟨h.exit hc hkeeps (hsteps.valid_exit hvalid), hgrows.localEid, hgrows.conns⟩
          · next hdone hexit =>
              have hagain : (f c).2 = .again := by
                cases hnext : (f c).2 with
                | proceed => exact absurd hnext hsteps.next
                | again => rfl
                | done => exact absurd hnext hdone
                | exit => exact absurd hnext hexit
              exact hreplace ⟨hkeeps.key, hkeeps.nextSeqno, hkeeps.reorderTable, hkeeps.handled,
                hkeeps.delivered, hkeeps.sent⟩ (hsteps.valid_again hvalid hagain)

theorem Sound.finish {kind : ConnKey → Bytes → Prop} {t : TCPTunnel} (h : t.Sound kind) (i : Nat) :
    (t.finish i).Sound kind ∧ Grows t (t.finish i) := by
  unfold TCPTunnel.finish
  split
  · exact ⟨h, Grows.refl t⟩
  · next c hc =>
      split
      · exact ⟨h, Grows.refl t⟩
      · have hkill : (t.killConnection i c.key).Sound kind ∧ (t.killConnection i c.key).conns = t.conns ∧
            (t.killConnection i c.key).localEid = t.localEid := by
          unfold killConnection
          split
          · refine ⟨⟨h.valid, fun k j hk => ?_, h.handled, h.waiting⟩, rfl, rfl⟩
            simp only [Function.update_apply] at hk
            split at hk
            · cases hk
            · exact h.table k j hk
          · exact ⟨h, rfl, rfl⟩
        obtain ⟨hsound, hconns, heid⟩ := hkill
        have hover {exited : Bool} {c : Connection} (hv : c.Valid exited) :
            ({ c with phase := .over } : Connection).Valid exited :=
          ⟨fun hlen => (hv.ordered hlen).withPhase _, fun _ hp => hp.elim nofun nofun, fun _ hp => (nomatch hp),
            hv.stopped.withPhase _⟩
        refine ⟨hsound.modifyConn fun c₀ hc₀ => ⟨rfl, hover (hsound.valid i c₀ hc₀),
          fun b hb => hsound.handled i c₀ hc₀ b hb⟩, ?_⟩
        have hgrows : Grows (t.killConnection i c.key)
            ((t.killConnection i c.key).modifyConn i fun c => { c with phase := .over }) :=
          grows_modifyConn fun _ _ => ⟨rfl, List.prefix_refl _⟩
        exact ⟨hgrows.localEid.trans heid, fun j c' hc' => hgrows.conns j c' (hconns ▸ hc')⟩

/-! ## Runs -/

section Runs

variable {ι : Type}

/-- A bundle with a key that a connection has sent to a tunnel. -/
def Genuine (nodes : ι → TCPTunnel) (y : ι) (k : ConnKey) (b : Bytes) : Prop :=
  keyOf k.endpointId b = k ∧ ∃ (x : ι) (i : Nat) (c : Connection), (nodes x).localEid = k.endpointId ∧
    (nodes x).conns[i]? = some c ∧ c.key.endpointId = (nodes y).localEid ∧ b ∈ c.trace.sent

/-- Every bundle that a tunnel has was sent to it. -/
def SystemSound (nodes : ι → TCPTunnel) : Prop := ∀ y, (nodes y).Sound (Genuine nodes y)

theorem stepAt_sound {nodes : ι → TCPTunnel} (h : SystemSound nodes) (e : Event ι)
    (hexited : (nodes (stepAt nodes e).1).exited = false) :
    (stepAt nodes e).2.Sound (Genuine nodes (stepAt nodes e).1) ∧
      Grows (nodes (stepAt nodes e).1) (stepAt nodes e).2 := by
  cases e with
  | accepted x dest clientAddr clientPort remoteAddr remotePort =>
      exact (h x).accepted dest clientAddr clientPort remoteAddr remotePort
  | connected x i o =>
      exact (h x).advance hexited i .connecting _ fun c hc hv =>
        (hv.looping rfl (Or.inl hc)).connect (hv.first rfl hc) o
  | round x i r =>
      exact (h x).advance hexited i .running _ fun c hc hv => (hv.looping rfl (Or.inr hc)).round _ r
  | finished x i => exact (h x).finish i
  | arrives y x i j =>
      show (arrive nodes y x i j).Sound (Genuine nodes y) ∧ Grows (nodes y) (arrive nodes y x i j)
      unfold arrive
      split
      · exact ⟨h y, Grows.refl _⟩
      · next dest b hsent =>
          split
          · next hdest =>
              unfold sentBundle at hsent
              obtain ⟨c, hc, hrest⟩ := Option.bind_eq_some_iff.mp hsent
              obtain ⟨b', hb', hpair⟩ := Option.bind_eq_some_iff.mp hrest
              cases hpair
              exact (h y).dtnHandleBundle (nodes x).localEid b
                ⟨rfl, x, i, c, rfl, hc, hdest, List.mem_of_getElem? hb'⟩
          · exact ⟨h y, Grows.refl _⟩

theorem Genuine.grows {nodes nodes' : ι → TCPTunnel} (hgrows : ∀ x, Grows (nodes x) (nodes' x)) {y : ι}
    {k : ConnKey} {b : Bytes} (h : Genuine nodes y k b) : Genuine nodes' y k b := by
  obtain ⟨hkey, x, i, c, heid, hc, hdest, hb⟩ := h
  obtain ⟨c', hc', hkey', hsent⟩ := (hgrows x).conns i c hc
  exact ⟨hkey, x, i, c', (hgrows x).localEid.trans heid, hc', by rw [hkey', hdest, (hgrows y).localEid],
    hsent.subset hb⟩

theorem step_sound [DecidableEq ι] {nodes : ι → TCPTunnel} (h : SystemSound nodes) (e : Event ι) :
    SystemSound (step nodes e) ∧ ∀ x, Grows (nodes x) (step nodes e x) := by
  unfold step
  simp only
  split
  · exact ⟨h, fun x => Grows.refl _⟩
  · next hexited =>
      obtain ⟨hsound, hgrows⟩ := stepAt_sound h e (Bool.eq_false_iff.mpr hexited)
      have hall : ∀ x, Grows (nodes x) (Function.update nodes (stepAt nodes e).1 (stepAt nodes e).2 x) := by
        intro x
        rw [Function.update_apply]
        split
        · next hx => exact hx ▸ hgrows
        · exact Grows.refl _
      refine ⟨fun y => ?_, hall⟩
      have hmono := fun k b => Genuine.grows hall (y := y) (k := k) (b := b)
      by_cases hy : y = (stepAt nodes e).1
      · subst hy
        rw [Function.update_self]
        exact hsound.mono hmono
      · rw [Function.update_of_ne hy]
        exact (h y).mono hmono

theorem run_sound [DecidableEq ι] {nodes : ι → TCPTunnel} (h : SystemSound nodes) (es : List (Event ι)) :
    SystemSound (run nodes es) ∧ ∀ x, Grows (nodes x) (run nodes es x) := by
  induction es generalizing nodes with
  | nil => exact ⟨h, fun x => Grows.refl _⟩
  | cons e es ih =>
      obtain ⟨hstep, hgrows⟩ := step_sound h e
      obtain ⟨hrun, hgrows'⟩ := ih hstep
      exact ⟨hrun, fun x => (hgrows x).trans (hgrows' x)⟩

theorem start_sound (localEid : ι → Bytes) (maxSize : ι → UInt32) : SystemSound (start localEid maxSize) :=
  fun _ => ⟨nofun, nofun, nofun, nofun⟩

/-! ## The two sides of a connection -/

theorem keyOf_payload (source : Bytes) (key : ConnKey) (n : Nat) (s : Connection.Segment) :
    keyOf source (Connection.payload key n s) = { key with endpointId := source } := by
  rw [keyOf, Connection.payload, BundleHeader.ofBytes_bytes]
  rfl

theorem number_payload (key : ConnKey) {n : Nat} (h : n < 2 ^ 32) (s : Connection.Segment) :
    number (Connection.payload key n s) = n := by
  rw [number, seqnoOf, Connection.payload, BundleHeader.ofBytes_bytes]
  exact UInt32.toNat_ofNat_of_lt' h

theorem eof_payload (key : ConnKey) (n : Nat) (s : Connection.Segment) :
    (BundleHeader.ofBytes (Connection.payload key n s)).eof ≠ 0 ↔ s.eof = true := by
  rw [Connection.payload, BundleHeader.ofBytes_bytes]
  show (if s.eof = true then (1 : UInt8) else 0) ≠ 0 ↔ _
  cases s.eof <;> decide

theorem dataOf_numbered (key : ConnKey) (n : Nat) (segs : List Connection.Segment) :
    dataOf (Connection.numbered key n segs) = Connection.contents segs := by
  induction segs generalizing n with
  | nil => rfl
  | cons s segs ih =>
      show (Connection.payload key n s).drop BundleHeader.size ++ dataOf (Connection.numbered key (n + 1) segs) = _
      rw [ih, Connection.payload, BundleHeader.drop_bytes]
      rfl

theorem getElem?_numbered (key : ConnKey) (n : Nat) (segs : List Connection.Segment) (m : Nat) :
    (Connection.numbered key n segs)[m]? = (segs[m]?).map (Connection.payload key (n + m)) := by
  induction segs generalizing n m with
  | nil => rfl
  | cons s segs ih =>
      cases m with
      | zero => rfl
      | succ m =>
          rw [Connection.numbered, List.getElem?_cons_succ, ih, List.getElem?_cons_succ, Nat.add_right_comm,
            Nat.add_assoc]

/-- All bundles that a connection has sent have its key. -/
theorem keyOf_sent {c : Connection} {segs : List Connection.Segment} {behind : List Bytes}
    (h : c.Sent segs behind) {b : Bytes} (hb : b ∈ c.trace.sent) (source : Bytes) :
    keyOf source b = { c.key with endpointId := source } := by
  rw [h.sent] at hb
  rcases List.mem_append.mp hb with hb | hb
  · obtain ⟨m, hm⟩ := List.mem_iff_getElem?.mp hb
    rw [getElem?_numbered] at hm
    obtain ⟨s, -, rfl⟩ := Option.map_eq_some_iff.mp hm
    exact keyOf_payload source c.key _ s
  · rcases h.behind with rfl | ⟨-, rfl⟩
    · cases hb
    · rw [List.mem_singleton.mp hb]
      exact keyOf_payload source c.key _ _

/-- Connection `c` of tunnel `y` is the other side of connection `p` of tunnel `x`, which has made no other one
with its key. -/
structure Peers (nodes : ι → TCPTunnel) (x y : ι) (p c : Connection) : Prop where
  here : ∃ i : Nat, (nodes x).conns[i]? = some p ∧
    ∀ (i' : Nat) (p' : Connection), (nodes x).conns[i']? = some p' → p'.key = p.key → i' = i
  there : ∃ j : Nat, (nodes y).conns[j]? = some c
  dest : p.key.endpointId = (nodes y).localEid
  key : c.key = { p.key with endpointId := (nodes x).localEid }

/-- What a connection was handed was sent by the one at the other side. -/
theorem Peers.handled {nodes : ι → TCPTunnel} {x y : ι} {p c : Connection} (h : Peers nodes x y p c)
    (hsound : SystemSound nodes) (hids : ∀ x', (nodes x').localEid = (nodes x).localEid → x' = x) {b : Bytes}
    (hb : b ∈ c.trace.handled) : b ∈ p.trace.sent := by
  obtain ⟨i, hp, honly⟩ := h.here
  obtain ⟨j, hc⟩ := h.there
  obtain ⟨hkey, x', i', p', heid, hp', hdest, hsent⟩ := (hsound y).handled j c hc b hb
  have hx : x' = x := hids x' (heid.trans (by rw [h.key]))
  subst hx
  obtain ⟨segs, behind, hsent'⟩ := ((hsound x').valid i' p' hp').stopped.sent
  have hsame : p'.key = p.key := by
    have hkeys : { p'.key with endpointId := c.key.endpointId } = c.key :=
      (keyOf_sent hsent' hsent c.key.endpointId).symm.trans hkey
    rw [h.key] at hkeys
    have hend := hdest.trans h.dest.symm
    cases hk' : p'.key with
    | mk e a₁ a₂ a₃ a₄ a₅ =>
        cases hk : p.key with
        | mk e' b₁ b₂ b₃ b₄ b₅ =>
            rw [hk', hk] at hkeys hend
            cases hkeys
            cases hend
            rfl
  rw [honly i' p' hp' hsame, hp] at hp'
  rw [Option.some.inj hp']
  exact hsent

/-- What a connection has put into its queue is what was sent, from the first bundle on. -/
theorem Peers.delivered {nodes : ι → TCPTunnel} {x y : ι} {p c : Connection} (h : Peers nodes x y p c)
    (hsound : SystemSound nodes) (hids : ∀ x', (nodes x').localEid = (nodes x).localEid → x' = x)
    (hsentlen : p.trace.sent.length < 2 ^ 32) (hhandled : c.trace.handled.length < 2 ^ 32)
    {segs : List Connection.Segment} {behind : List Bytes} (hsent : p.Sent segs behind) :
    c.trace.delivered <+: Connection.numbered p.key 0 segs := by
  obtain ⟨j, hc⟩ := h.there
  have horder := (((hsound y).valid j c hc).ordered hhandled).resequenced
  have hlen : segs.length + behind.length < 2 ^ 32 := by
    rw [hsent.sent, List.length_append, Connection.length_numbered] at hsentlen
    exact hsentlen
  -- a bundle for each number; there is none for the number of one that was lost
  let source (m : Nat) : Option Bytes :=
    if m = segs.length + 1 then behind.head? else (Connection.numbered p.key 0 segs)[m]?
  have hsource : ∀ b ∈ c.trace.handled, source (number b) = some b := by
    intro b hb
    have hmem := h.handled hsound hids hb
    rw [hsent.sent] at hmem
    rcases List.mem_append.mp hmem with hmem | hmem
    · obtain ⟨m, hm⟩ := List.mem_iff_getElem?.mp hmem
      have hget := hm
      rw [getElem?_numbered] at hm
      obtain ⟨s, hs, rfl⟩ := Option.map_eq_some_iff.mp hm
      obtain ⟨hlt, -⟩ := List.getElem?_eq_some_iff.mp hs
      rw [Nat.zero_add] at hget ⊢
      rw [number_payload p.key (by omega)]
      simp only [source]
      rw [if_neg (by omega), hget]
    · rcases hsent.behind with rfl | ⟨-, rfl⟩
      · cases hmem
      · rw [List.mem_singleton.mp hmem, number_payload p.key (by simpa using hlen)]
        exact if_pos rfl
  have hget := fun {i : Nat} => horder.getElem?_out hsource (i := i)
  have hnext : c.nextSeqno.toNat ≤ segs.length := by
    by_contra hgt
    have hnone : source segs.length = none := by
      simp only [source]
      rw [if_neg (by omega), List.getElem?_eq_none (by rw [Connection.length_numbered])]
    have hsome := hget (i := segs.length) (by omega)
    rw [hnone, List.getElem?_eq_none_iff, horder.length_out] at hsome
    omega
  have htake : c.trace.delivered = (Connection.numbered p.key 0 segs).take c.nextSeqno.toNat := by
    refine List.ext_getElem? fun i => ?_
    by_cases hi : i < c.nextSeqno.toNat
    · rw [hget hi, List.getElem?_take_of_lt hi]
      exact if_neg (by omega)
    · rw [List.getElem?_eq_none (by rw [horder.length_out]; omega), List.getElem?_take_eq_none (by omega)]
  exact htake ▸ List.take_prefix _ _

private theorem dataOf_prefix {as bs : List Bytes} (h : as <+: bs) : dataOf as <+: dataOf bs := by
  obtain ⟨cs, rfl⟩ := h
  exact dataOf_append as cs ▸ List.prefix_append _ _

/-- What a connection has written is the beginning of what the other side has read. When it has closed its
socket because of an eof, it is all of it, and nothing was being filled at the other side. -/
theorem Peers.written {nodes : ι → TCPTunnel} {x y : ι} {p c : Connection} (h : Peers nodes x y p c)
    (hsound : SystemSound nodes) (hids : ∀ x', (nodes x').localEid = (nodes x).localEid → x' = x)
    (hsentlen : p.trace.sent.length < 2 ^ 32) (hhandled : c.trace.handled.length < 2 ^ 32) :
    c.trace.written <+: p.trace.read ∧
      (c.trace.closed = true → c.trace.written = p.trace.read ∧ p.bXmit = none) := by
  obtain ⟨i, hp, -⟩ := h.here
  obtain ⟨j, hc⟩ := h.there
  obtain ⟨segs, behind, hsent⟩ := ((hsound x).valid i p hp).stopped.sent
  obtain ⟨taken, rest, htaken⟩ := ((hsound y).valid j c hc).stopped.taken
  have hbegins : taken <+: Connection.numbered p.key 0 segs :=
    (htaken.delivered ▸ List.prefix_append taken rest).trans
      (h.delivered hsound hids hsentlen hhandled hsent)
  have hdata : dataOf taken <+: Connection.contents segs :=
    dataOf_numbered p.key 0 segs ▸ dataOf_prefix hbegins
  refine ⟨htaken.written.trans (hdata.trans hsent.read), fun hclosed => ?_⟩
  obtain ⟨hwritten, front, b, hfront, heof⟩ := htaken.closed hclosed
  -- the eof is in the last piece
  have hget : (Connection.numbered p.key 0 segs)[front.length]? = some b := by
    obtain ⟨more, hmore⟩ := hbegins
    rw [← hmore, hfront, List.append_assoc, List.getElem?_append_right (Nat.le_refl _), Nat.sub_self]
    rfl
  rw [getElem?_numbered] at hget
  obtain ⟨s, hs, rfl⟩ := Option.map_eq_some_iff.mp hget
  have hseof : s.eof = true := (eof_payload p.key _ s).mp heof
  obtain ⟨hlt, hval⟩ := List.getElem?_eq_some_iff.mp hs
  have hlast : front.length + 1 = segs.length := by
    by_contra hne
    have hmem : s ∈ segs.dropLast := by
      rw [← hval, ← List.getElem_dropLast (by rw [List.length_dropLast]; omega)]
      exact List.getElem_mem _
    rw [hsent.last s hmem] at hseof
    cases hseof
  have hall : taken = Connection.numbered p.key 0 segs := by
    refine hbegins.eq_of_length ?_
    rw [hfront, List.length_append, List.length_singleton, Connection.length_numbered, hlast]
  obtain ⟨hnone, hread⟩ := hsent.finished s (List.mem_of_getElem? hs) hseof
  rw [hwritten, hall, dataOf_numbered]
  exact ⟨hread, hnone⟩

/-! ## Where the bundles are that have arrived -/

/-- The bundles that the connections with a key were handed. -/
def handedTo (k : ConnKey) (cs : List Connection) : List Bytes :=
  (cs.filter fun c => c.key = k).flatMap fun c => c.trace.handled

def waitingFor (t : TCPTunnel) (k : ConnKey) : List Bytes := (t.noConnBundles k).getD []

/-- The bundles with a key that have arrived. -/
def arrivedFor (t : TCPTunnel) (k : ConnKey) : List Bytes :=
  (t.arrived.filter fun a => keyOf a.1 a.2 = k).map Prod.snd

/-- Every arrival was handed to one connection, once, or waits for one. -/
def Conserved (t : TCPTunnel) : Prop := ∀ k, (t.arrivedFor k).Perm (handedTo k t.conns ++ t.waitingFor k)

theorem handedTo_append (k : ConnKey) (cs ds : List Connection) :
    handedTo k (cs ++ ds) = handedTo k cs ++ handedTo k ds := by
  rw [handedTo, List.filter_append, List.flatMap_append]
  rfl

theorem handedTo_new (k key : ConnKey) (phase : Phase) (cs : List Connection) :
    handedTo k (cs ++ [Connection.new key phase]) = handedTo k cs := by
  rw [handedTo_append]
  refine (congrArg _ ?_).trans (List.append_nil _)
  rw [handedTo, List.filter_singleton]
  cases decide ((Connection.new key phase).key = k) <;> rfl

theorem count_handedTo_modify (x : Bytes) (k : ConnKey) {f : Connection → Connection} {bs : List Bytes}
    {cs : List Connection} {i : Nat} {c : Connection} (hc : cs[i]? = some c) (hkey : (f c).key = c.key)
    (hhandled : (f c).trace.handled = c.trace.handled ++ bs) :
    (handedTo k (cs.modify i f)).count x = (handedTo k cs).count x + if c.key = k then bs.count x else 0 := by
  have hcons (d : Connection) (ds : List Connection) : (handedTo k (d :: ds)).count x =
      (if d.key = k then d.trace.handled.count x else 0) + (handedTo k ds).count x := by
    rw [handedTo, List.filter_cons]
    by_cases hd : d.key = k
    · rw [if_pos hd, if_pos (decide_eq_true hd), List.flatMap_cons, List.count_append]
      rfl
    · rw [if_neg hd, if_neg (by simpa using hd), Nat.zero_add]
      rfl
  induction cs generalizing i with
  | nil => cases hc
  | cons d cs ih =>
      cases i with
      | zero =>
          cases hc
          rw [List.modify_zero_cons, hcons, hcons, hkey, hhandled, List.count_append]
          split <;> omega
      | succ i =>
          rw [List.modify_succ_cons, hcons, hcons, ih hc]
          omega

theorem Conserved.of_handled {t t' : TCPTunnel} (h : t.Conserved) (harrived : t'.arrived = t.arrived)
    (hwaiting : t'.noConnBundles = t.noConnBundles) (hhanded : ∀ k, handedTo k t'.conns = handedTo k t.conns) :
    t'.Conserved := fun k => by
  rw [arrivedFor, waitingFor, harrived, hwaiting, hhanded]
  exact h k

private theorem handedTo_modify_same (k : ConnKey) {f : Connection → Connection} {cs : List Connection}
    {i : Nat} (hf : ∀ c : Connection, cs[i]? = some c → (f c).key = c.key ∧ (f c).trace.handled = c.trace.handled) :
    handedTo k (cs.modify i f) = handedTo k cs := by
  induction cs generalizing i with
  | nil => cases i <;> rfl
  | cons d cs ih =>
      cases i with
      | zero =>
          obtain ⟨hkey, hhandled⟩ := hf d rfl
          rw [List.modify_zero_cons, handedTo, handedTo, List.filter_cons, List.filter_cons, hkey]
          split
          · rw [List.flatMap_cons, List.flatMap_cons, hhandled]
          · rfl
      | succ i =>
          have hrest := ih (i := i) fun c hc => hf c hc
          rw [List.modify_succ_cons, ← List.singleton_append, handedTo_append, hrest, ← handedTo_append]
          rfl

/-- A bundle that has just arrived is handed to a connection with its key. -/
theorem conserved_deliverTo {t : TCPTunnel} {i : Nat} {key : ConnKey} {b : Bytes} {c : Connection}
    (h : ∀ k x, (t.arrivedFor k).count x =
      (handedTo k t.conns).count x + (t.waitingFor k).count x + if key = k then [b].count x else 0)
    (hc : t.conns[i]? = some c) (hkey : c.key = key) : (t.deliverTo i key b).Conserved := by
  have hframe := Connection.foldl_handleBundle_frame
  have hone (k : ConnKey) (x : Bytes) : (handedTo k (t.conns.modify i (·.handleBundle b))).count x =
      (handedTo k t.conns).count x + if c.key = k then [b].count x else 0 :=
    count_handedTo_modify x k hc (hframe c [b]).1 (hframe c [b]).2.2
  intro k
  refine List.perm_iff_count.mpr fun x => ?_
  unfold deliverTo
  simp only
  split
  · next hnone =>
      have hcount := h k x
      rw [List.count_append]
      show (t.arrivedFor k).count x = (handedTo k (t.conns.modify i (·.handleBundle b))).count x +
        (t.waitingFor k).count x
      rw [hone k x, hcount, hkey]
      omega
  · next vec hvec =>
      have hc₁ : (t.conns.modify i (·.handleBundle b))[i]? = some (c.handleBundle b) := by
        rw [List.getElem?_modify, hc]
        simp
      have hkey₁ : (c.handleBundle b).key = key := (hframe c [b]).1.trans hkey
      have hvec' : t.noConnBundles key = some vec := hvec
      have hall : (handedTo k ((t.conns.modify i (·.handleBundle b)).modify i
            fun c => vec.foldl Connection.handleBundle c)).count x =
          (handedTo k (t.conns.modify i (·.handleBundle b))).count x +
            if (c.handleBundle b).key = k then vec.count x else 0 :=
        count_handedTo_modify x k hc₁ (hframe (c.handleBundle b) vec).1 (hframe (c.handleBundle b) vec).2.2
      rw [List.count_append]
      show (t.arrivedFor k).count x = (handedTo k ((t.conns.modify i (·.handleBundle b)).modify i
        fun c => vec.foldl Connection.handleBundle c)).count x +
        ((Function.update t.noConnBundles key none k).getD []).count x
      rw [hall, hone k x, h k x, hkey, hkey₁, Function.update_apply]
      by_cases hk : key = k
      · subst hk
        rw [if_pos rfl, if_pos rfl, if_pos rfl, waitingFor, hvec']
        simp only [Option.getD_some, Option.getD_none, List.count_nil]
        omega
      · rw [if_neg hk, if_neg hk, if_neg (Ne.symm hk), waitingFor]
        omega

theorem Conserved.handleBundle {kind : ConnKey → Bytes → Prop} {t : TCPTunnel} (h : t.Conserved)
    (hsound : t.Sound kind) (source b : Bytes) : (t.handleBundle source b).Conserved := by
  let t₀ : TCPTunnel := { t with arrived := t.arrived ++ [(source, b)] }
  have harrived (k : ConnKey) (x : Bytes) : (t₀.arrivedFor k).count x =
      (handedTo k t.conns).count x + (t.waitingFor k).count x +
        if keyOf source b = k then [b].count x else 0 := by
    have hold := List.perm_iff_count.mp (h k) x
    rw [List.count_append] at hold
    rw [← hold, arrivedFor, List.filter_append, List.map_append, List.count_append]
    refine congrArg ((t.arrivedFor k).count x + ·) ?_
    rw [List.filter_singleton]
    by_cases hk : keyOf source b = k
    · rw [if_pos hk, decide_eq_true hk]
      rfl
    · rw [if_neg hk, decide_eq_false hk]
      rfl
  unfold TCPTunnel.handleBundle
  simp only
  split
  · split
    · refine conserved_deliverTo (c := Connection.new (keyOf source b) .connecting) (fun k x => ?_) ?_ rfl
      · show (t₀.arrivedFor k).count x =
          (handedTo k (t.conns ++ [Connection.new (keyOf source b) .connecting])).count x +
            (t.waitingFor k).count x + _
        rw [harrived, handedTo_new]
      · rw [create]
        exact List.getElem?_concat_length
    · intro k
      refine List.perm_iff_count.mpr fun x => ?_
      rw [List.count_append]
      show (t₀.arrivedFor k).count x = (handedTo k t.conns).count x +
        ((Function.update t.noConnBundles (keyOf source b)
          (some ((t.noConnBundles (keyOf source b)).getD [] ++ [b])) k).getD []).count x
      rw [harrived, Function.update_apply]
      by_cases hk : keyOf source b = k
      · subst hk
        rw [if_pos rfl, if_pos rfl, Option.getD_some, List.count_append, waitingFor, Nat.add_assoc]
      · rw [if_neg hk, if_neg (Ne.symm hk), Nat.add_zero, waitingFor]
  · next i hi =>
      obtain ⟨c, hc, hkey⟩ := hsound.table _ i hi
      exact conserved_deliverTo harrived hc hkey

theorem Conserved.advance {kind : ConnKey → Bytes → Prop} {t : TCPTunnel} (h : t.Conserved)
    (hsound : t.Sound kind) (hexited : t.exited = false) (i : Nat) (phase : Phase)
    (f : Connection → Connection × Next)
    (hf : ∀ c : Connection, c.phase = phase → c.Valid false → c.Steps (f c)) :
    (t.advance i phase f).Conserved := by
  unfold TCPTunnel.advance
  split
  · exact h
  · next c hc =>
      split
      · exact h
      · next hsame =>
          have hkeeps := (hf c (Classical.not_not.mp hsame) (hexited ▸ hsound.valid i c hc)).keeps
          have hreplace (c' : Connection) (hkey : c'.key = (f c).1.key)
              (hhandled : c'.trace.handled = (f c).1.trace.handled) (k : ConnKey) :
              handedTo k (t.conns.modify i fun _ => c') = handedTo k t.conns :=
            handedTo_modify_same k fun c₀ hc₀ => by
              rw [← Option.some.inj (hc.symm.trans hc₀)]
              exact ⟨hkey.trans hkeeps.key, hhandled.trans hkeeps.handled⟩
          simp only
          split
          · exact h.of_handled rfl rfl (hreplace _ rfl rfl)
          · exact h.of_handled rfl rfl (hreplace _ rfl rfl)
          · exact h.of_handled rfl rfl (hreplace _ rfl rfl)

theorem Conserved.accepted {t : TCPTunnel} (h : t.Conserved) (dest : Bytes) (clientAddr : UInt32)
    (clientPort : UInt16) (remoteAddr : UInt32) (remotePort : UInt16) :
    (t.accepted dest clientAddr clientPort remoteAddr remotePort).Conserved := by
  unfold TCPTunnel.accepted
  simp only
  split
  · exact h.of_handled rfl rfl fun k => handedTo_new k _ .running t.conns
  · exact h.of_handled rfl rfl fun k => handedTo_new k _ .running t.conns

theorem Conserved.finish {t : TCPTunnel} (h : t.Conserved) (i : Nat) : (t.finish i).Conserved := by
  have hphase (t : TCPTunnel) (k : ConnKey) :
      handedTo k (t.conns.modify i fun c => { c with phase := .over }) = handedTo k t.conns :=
    handedTo_modify_same k fun _ _ => ⟨rfl, rfl⟩
  unfold TCPTunnel.finish
  split
  · exact h
  · split
    · exact h
    · unfold killConnection
      split
      · exact h.of_handled rfl rfl (hphase t)
      · exact h.of_handled rfl rfl (hphase t)

theorem stepAt_conserved [DecidableEq ι] {nodes : ι → TCPTunnel} (h : ∀ x, (nodes x).Conserved)
    (hsound : SystemSound nodes) (e : Event ι) (hexited : (nodes (stepAt nodes e).1).exited = false) :
    (stepAt nodes e).2.Conserved := by
  cases e with
  | accepted x dest clientAddr clientPort remoteAddr remotePort =>
      exact (h x).accepted dest clientAddr clientPort remoteAddr remotePort
  | connected x i o =>
      exact (h x).advance (hsound x) hexited i .connecting _ fun c hc hv =>
        (hv.looping rfl (Or.inl hc)).connect (hv.first rfl hc) o
  | round x i r =>
      exact (h x).advance (hsound x) hexited i .running _ fun c hc hv =>
        (hv.looping rfl (Or.inr hc)).round _ r
  | finished x i => exact (h x).finish i
  | arrives y x i j =>
      show (arrive nodes y x i j).Conserved
      unfold arrive
      split
      · exact h y
      · split
        · unfold dtnHandleBundle
          split
          · exact h y
          · split
            · exact (h y).handleBundle (hsound y) _ _
            · exact h y
        · exact h y

/-! ## A connection through two tunnels -/

/-- A round in which nothing is ready, and everything is sent. -/
def quiet : Round := ⟨false, false, false, none, true, .success, none, .success⟩

/-- Data is read from the socket. -/
def reading (d : Bytes) : Round := { quiet with sockReady := true, received := some d }

/-- A bundle is taken out of the queue. -/
def taking : Round := { quiet with msgReady := true }

def twoTunnels : Bool → TCPTunnel := start (fun x => if x then [2] else [1]) fun _ => 1000

/-- Two bytes and the end are sent, and the bundles arrive in another order. -/
def transfer : Bool → TCPTunnel :=
  run twoTunnels [.accepted false [2] 10 20 30 40, .round false 0 quiet, .round false 0 (reading [104, 105]),
    .round false 0 (reading []), .arrives true false 0 1, .arrives true false 0 0, .arrives true false 0 2,
    .connected true 0 .established, .round true 0 taking, .round true 0 taking, .round true 0 taking]

/-- The far side ends while a byte is waiting to be sent. -/
def cutOff : Bool → TCPTunnel :=
  run twoTunnels [.accepted false [2] 10 20 30 40, .round false 0 quiet, .arrives true false 0 0,
    .connected true 0 .established, .round true 0 (reading []), .arrives false true 0 0,
    .round false 0 { reading [104] with expired := false, msgReady := true }, .arrives true false 0 1,
    .round true 0 taking]

def only (nodes : Bool → TCPTunnel) (x : Bool) : Connection :=
  (nodes x).conns.headD (Connection.new ⟨[], 0, 0, 0, 0, 0⟩ .over)

private theorem peers_only {nodes : Bool → TCPTunnel} (h : ∀ x, (nodes x).conns = [only nodes x])
    (hdest : (only nodes false).key.endpointId = (nodes true).localEid)
    (hkey : (only nodes true).key = { (only nodes false).key with endpointId := (nodes false).localEid }) :
    Peers nodes false true (only nodes false) (only nodes true) where
  here := by
    refine ⟨0, by rw [h]; rfl, fun i' p' hp' _ => ?_⟩
    rw [h] at hp'
    obtain ⟨hlt, -⟩ := List.getElem?_eq_some_iff.mp hp'
    simpa using hlt
  there := ⟨0, by rw [h]; rfl⟩
  dest := hdest
  key := hkey

private theorem injective_eids : Function.Injective fun x : Bool => if x then ([2] : Bytes) else [1] := by
  intro x y
  revert x y
  decide

/-! ## Results -/

variable [DecidableEq ι] (localEid : ι → Bytes) (maxSize : ι → UInt32) (es : List (Event ι))

private theorem Peers.written_run (hids : Function.Injective localEid) {x y : ι} {p c : Connection}
    (h : Peers (run (start localEid maxSize) es) x y p c) (hsent : p.trace.sent.length < 2 ^ 32)
    (hhandled : c.trace.handled.length < 2 ^ 32) :
    c.trace.written <+: p.trace.read ∧
      (c.trace.closed = true → c.trace.written = p.trace.read ∧ p.bXmit = none) := by
  obtain ⟨hsound, hgrows⟩ := run_sound (start_sound localEid maxSize) es
  -- the endpoint ids stay what they were
  have hinj (x' : ι) (heq : (run (start localEid maxSize) es x').localEid =
      (run (start localEid maxSize) es x).localEid) : x' = x :=
    hids (((hgrows x').localEid.symm.trans heq).trans (hgrows x).localEid)
  exact h.written hsound hinj hsent hhandled

/-- Whatever the tunnels do and whatever becomes of the bundles on their way: a connection writes the beginning
of what the one at the other side has read, and all of it when it closes its socket because of an eof. -/
theorem written_prefix_read (hids : Function.Injective localEid) {x y : ι} {p c : Connection}
    (h : Peers (run (start localEid maxSize) es) x y p c) (hsent : p.trace.sent.length < 2 ^ 32)
    (hhandled : c.trace.handled.length < 2 ^ 32) :
    c.trace.written <+: p.trace.read ∧ (c.trace.closed = true → c.trace.written = p.trace.read) := by
  obtain ⟨hbegins, hclosed⟩ := Peers.written_run localEid maxSize es hids h hsent hhandled
  exact ⟨hbegins, fun hc => (hclosed hc).1⟩

theorem written_prefix_read_transfer : (only transfer true).trace.written = [104, 105] ∧
    (only transfer true).trace.written = (only transfer false).trace.read :=
  have h : Peers transfer false true (only transfer false) (only transfer true) :=
    peers_only (by decide +kernel) (by decide +kernel) (by decide +kernel)
  ⟨by decide +kernel, (written_prefix_read _ _ _ injective_eids h (by decide +kernel) (by decide +kernel)).2
    (by decide +kernel)⟩

/-- While a connection has a bundle that it was filling, the other side has not seen an eof. This includes a
connection that has got an eof while it was filling the bundle: it has sent its own eof with the number behind
that bundle, and is over, and the eof never comes up at the other side. -/
theorem not_closed_of_bXmit (hids : Function.Injective localEid) {x y : ι} {p c : Connection}
    (h : Peers (run (start localEid maxSize) es) x y p c) (hsent : p.trace.sent.length < 2 ^ 32)
    (hhandled : c.trace.handled.length < 2 ^ 32) (hfilling : p.bXmit ≠ none) : c.trace.closed = false := by
  cases hc : c.trace.closed with
  | false => rfl
  | true =>
      have hwritten := Peers.written_run localEid maxSize es hids h hsent hhandled
      exact absurd (hwritten.2 hc).2 hfilling

theorem not_closed_of_bXmit_cutOff : (only cutOff false).phase = .closing ∧
    (only cutOff true).trace.closed = false :=
  have h : Peers cutOff false true (only cutOff false) (only cutOff true) :=
    peers_only (by decide +kernel) (by decide +kernel) (by decide +kernel)
  ⟨by decide +kernel, not_closed_of_bXmit _ _ _ injective_eids h (by decide +kernel) (by decide +kernel)
    (by decide +kernel)⟩

/-- A connection has put the bundles into its queue in order, and waits for the first one that has not arrived,
in whatever order the others have. Its loop never meets a bundle out of order. -/
theorem in_order {y : ι} {j : Nat} {c : Connection}
    (hc : (run (start localEid maxSize) es y).conns[j]? = some c)
    (hhandled : c.trace.handled.length < 2 ^ 32) :
    c.trace.delivered.map number = List.range c.nextSeqno.toNat ∧
      (∀ b ∈ c.trace.handled, seqnoOf b ≠ c.nextSeqno) ∧
      (∀ n < c.nextSeqno.toNat, ∃ b ∈ c.trace.handled, number b = n) ∧
      ((run (start localEid maxSize) es y).exited = false → c.phase = .running →
        ∀ b queue, c.queue = b :: queue → seqnoOf b = c.nextRecvSeqno) := by
  have hvalid := ((run_sound (start_sound localEid maxSize) es).1 y).valid j c hc
  have horder := hvalid.ordered hhandled
  have hsettled : ∀ b ∈ c.reorderTable.map Prod.snd, number b ≠ c.nextSeqno.toNat := by
    intro b hb heq
    obtain ⟨e, he, rfl⟩ := List.mem_map.mp hb
    exact horder.settled e he ((horder.keyed e he).trans (UInt32.toNat_inj.mp heq))
  obtain ⟨hnone, hall⟩ := horder.resequenced.least hsettled
  refine ⟨horder.resequenced.inOrder, fun b hb heq => hnone b hb (congrArg UInt32.toNat heq), hall, ?_⟩
  intro hexited hphase b queue hqueue
  obtain ⟨taken, htaking⟩ := (hvalid.looping hexited (Or.inr hphase)).taking
  have hget : c.trace.delivered[taken.length]? = some b := by
    rw [htaking.delivered, hqueue, List.getElem?_append_right (Nat.le_refl _), Nat.sub_self]
    rfl
  have hnumber := horder.resequenced.number_out hget
  rw [htaking.next, ← hnumber, number, UInt32.ofNat_toNat]

theorem in_order_transfer : (only transfer true).trace.delivered.map number =
    List.range (only transfer true).nextSeqno.toNat :=
  have h : (transfer true).conns[0]? = some (only transfer true) := by decide +kernel
  (in_order _ _ _ h (by decide +kernel)).1

/-- No bundle that arrives is lost in a tunnel, and none is handed out twice. -/
theorem arrivals_conserved (y : ι) : (run (start localEid maxSize) es y).Conserved := by
  suffices hrun : ∀ nodes : ι → TCPTunnel, SystemSound nodes → (∀ x, (nodes x).Conserved) →
      ∀ x, (run nodes es x).Conserved from
    hrun _ (start_sound localEid maxSize) (fun _ _ => List.Perm.refl _) y
  induction es with
  | nil => exact fun _ _ h => h
  | cons e es ih =>
      intro nodes hsound h
      refine ih _ (step_sound hsound e).1 fun x => ?_
      unfold step
      split
      · exact h x
      · next hexited =>
          rw [Function.update_apply]
          split
          · exact stepAt_conserved h hsound e (Bool.eq_false_iff.mpr hexited)
          · exact h x

end Runs

end TCPTunnel

end Dtn2
