import Dtn2.ConvLayers.SendFrame

/-!
# Runs against any peer

In a run whose chunks all meet `BufferFits`, the receiving side is ready between two events until
the contact breaks, and `process_data` never ends the process. A byte behind the block with
`LAST_BLOCK` in a data segment ends it.
-/

namespace Dtn2.StreamConvergenceLayer

open Framework BundleProtocol Connection

/-! ## The conditions on a run -/

/-- What comes with an event meets the conditions. -/
def EventFits (env : Env) (c : Connection) : Event → Prop
  | .receive chunk => ∀ h : chunk.length ≤ c.recvbuf.tailbytes,
      BufferFits env { c with recvbuf := c.recvbuf.fill chunk h }
  | _ => True

/-- What the peer sends in a run meets the conditions. -/
def RunFits (env : Env) : Connection → List Event → Prop
  | _, [] => True
  | c, e :: es =>
      (c.contactBroken = none → EventFits env c e) ∧
        ∀ c' ∈ (c.step env e).toOption, RunFits env c' es

section Decide

variable (env : Env)

instance (c : Connection) : Decidable (NumberFits c) := inferInstanceAs (Decidable (_ → _))

instance (c : Connection) : Decidable (DataFits env c) :=
  inferInstanceAs (Decidable (∃ y ∈ c.incoming.getLast?, _))

instance (c : Connection) (flags : UInt8) : Decidable (SegmentFits env c flags) :=
  inferInstanceAs (Decidable (_ ∧ ∀ p ∈ SDNV.decode32 _, p.2 ≠ 0 → ∀ y ∈ c.incoming.getLast?, _))

instance (c : Connection) (b : UInt8) : Decidable (MessageFits env c b) :=
  inferInstanceAs (Decidable ((_ → _) ∧ (_ → ∀ r ∈ (c.openIncoming env (b &&& 0x0f)).toOption,
    r.2 = true → _)))

instance decidableLoopFits : ∀ fuel c, Decidable (LoopFits env fuel c)
  | 0, _ => inferInstanceAs (Decidable True)
  | fuel + 1, c =>
      have : DecidablePred (LoopFits env fuel) := decidableLoopFits fuel
      inferInstanceAs (Decidable (∀ b ∈ c.recvbuf.full.head?, c.contactBroken = none →
        MessageFits env c b ∧
          ∀ c' ∈ goesOn (c.handle env (b &&& 0xf0) (b &&& 0x0f)), LoopFits env fuel c'))

instance (c : Connection) : Decidable (BufferFits env c) := by
  unfold BufferFits
  infer_instance

instance (c : Connection) : (e : Event) → Decidable (EventFits env c e)
  | .receive chunk => inferInstanceAs (Decidable (∀ h : chunk.length ≤ c.recvbuf.tailbytes,
      BufferFits env { c with recvbuf := c.recvbuf.fill chunk h }))
  | .queueBundle _ | .sendPendingData | .writeReady | .cancelBundle _ | .pollTimeout _
  | .checkKeepalive _ | .breakContact _ => inferInstanceAs (Decidable True)

instance decidableRunFits : ∀ c es, Decidable (RunFits env c es)
  | _, [] => inferInstanceAs (Decidable True)
  | c, e :: es =>
      have : DecidablePred fun c => RunFits env c es := fun c => decidableRunFits c es
      inferInstanceAs (Decidable ((c.contactBroken = none → EventFits env c e) ∧
        ∀ c' ∈ (c.step env e).toOption, RunFits env c' es))

end Decide

section Steps

variable {env : Env} {c c' : Connection}

/-! ## Data on an open contact -/

theorem processData_processed (h : Ready env c) (hup : c.contactUp = true) (hfits : BufferFits env c) :
    Processed env (c.processData env) := by
  have hbuffer := hfits hup
  rw [processData]
  by_cases hempty : c.recvbuf.fullbytes = 0
  · have hnil : c.recvbuf.full = [] := List.eq_nil_of_length_eq_zero hempty
    rw [if_pos hempty]
    refine Or.inr ⟨h, ?_⟩
    rw [hnil]
    exact waits_nil
  rw [if_neg hempty, if_neg (by simp [hup])]
  by_cases htodo : c.recvSegmentTodo ≠ 0
  · rw [if_neg htodo] at hbuffer
    obtain ⟨hdata, hnext⟩ := hbuffer
    have hhandled := handleDataTodo_handled h htodo hdata
    rw [if_pos htodo]
    cases hresult : c.handleDataTodo env with
    | error s =>
        rw [hresult] at hhandled
        exact absurd hhandled id
    | ok r =>
        obtain ⟨c', ok⟩ := r
        rw [hresult] at hhandled hnext
        rw [Exec.ok_bind]
        cases ok with
        | false => exact hhandled
        | true =>
            dsimp only
            rw [if_pos rfl]
            apply processLoop_processed _ _ (Nat.succ_pos _) (fun _ => Nat.lt_succ_self _)
              (hnext c' rfl)
            exact hhandled.imp_right fun hdone => hdone.1
  · rw [if_pos (not_not.mp htodo)] at hbuffer
    rw [if_neg htodo]
    exact processLoop_processed _ (Or.inr h) (Nat.succ_pos _) (fun _ => Nat.lt_succ_self _) hbuffer

/-! ## Contact initiation -/

theorem survives_frame (h : Ready env c) {x : Exec Connection} (hframe : Frame c id x)
    (hx : x = .ok c') : Survives env c' := by
  by_cases hunbroken : c'.contactBroken = none
  · exact Or.inr (h.keeps (hframe c' hx) hunbroken)
  · exact Or.inl hunbroken

theorem handleContactInitiation_survives (h : Ready env c)
    (hok : c.handleContactInitiation env = .ok c') : Survives env c' := by
  rw [handleContactInitiation] at hok
  obtain ⟨_, -, hok⟩ := Exec.bind_eq_ok.mp hok
  dsimp only at hok
  split at hok
  · cases hok
    exact Or.inr h
  split at hok
  · exact survives_frame h (breakContact_frame env c .clError) hok
  split at hok
  · cases hok
    exact Or.inr h
  split at hok
  · cases hok
    exact Or.inr h
  split at hok
  · cases hok
    exact Or.inr h
  rw [acceptContact] at hok
  dsimp only at hok
  split at hok
  · have hread : Ready env { c with recvbuf := c.recvbuf.consume 8 } :=
      h.congr rfl rfl rfl rfl
    exact survives_frame hread (breakContact_frame env _ .clVersion) hok
  split at hok
  · cases hok
  split at hok
  · apply survives_frame _ (breakContact_frame env _ .clError) hok
    exact h.congr rfl rfl rfl rfl
  · cases hok
    exact Or.inr (h.congr rfl rfl rfl rfl)

/-! ## Events -/

theorem processData_keeps (h : Ready env c) (hfits : BufferFits env c)
    (hok : c.processData env = .ok c') : Survives env c' := by
  by_cases hup : c.contactUp = true
  · have hprocessed := processData_processed h hup hfits
    rw [hok] at hprocessed
    exact hprocessed.imp_right fun hdone => hdone.1
  rw [processData] at hok
  by_cases hempty : c.recvbuf.fullbytes = 0
  · rw [if_pos hempty] at hok
    cases hok
    exact Or.inr h
  · rw [if_neg hempty, if_pos (Bool.eq_false_iff.mpr hup)] at hok
    exact handleContactInitiation_survives h hok

theorem receive_survives (h : Ready env c) {chunk : Bytes} (hfits : EventFits env c (.receive chunk))
    (hok : c.receive env chunk = .ok c') : Survives env c' := by
  rw [receive] at hok
  by_cases hgone : chunk = []
  · rw [if_pos hgone] at hok
    exact survives_frame h (breakContact_frame env c .broken) hok
  rw [if_neg hgone] at hok
  by_cases hfit : chunk.length ≤ c.recvbuf.tailbytes
  · rw [dif_pos hfit] at hok
    have hfill : Ready env { c with recvbuf := c.recvbuf.fill chunk hfit } :=
      h.congr rfl rfl rfl rfl
    exact processData_keeps hfill (hfits hfit) hok
  · rw [dif_neg hfit] at hok
    cases hok
    exact Or.inr h

theorem step_survives (h : Survives env c) {e : Event}
    (hfits : c.contactBroken = none → EventFits env c e) (hok : c.step env e = .ok c') :
    Survives env c' := by
  by_cases hunbroken : c.contactBroken = none
  · have hready := h.resolve_left (not_not.mpr hunbroken)
    rw [step_of_up hunbroken] at hok
    by_cases hreceive : ∃ chunk, e = .receive chunk
    · obtain ⟨chunk, rfl⟩ := hreceive
      exact receive_survives hready (hfits hunbroken) hok
    · apply survives_frame hready (react_frame env c _) hok
      intro chunk he
      exact hreceive ⟨chunk, he⟩
  · left
    have hkept : (∃ x, e = .queueBundle x) ∨ c.step env e = .ok c := step_of_broken hunbroken e
    cases hkept with
    | inl hqueue =>
        obtain ⟨x, rfl⟩ := hqueue
        rw [step_queueBundle] at hok
        cases hok
        exact hunbroken
    | inr hstep =>
        rw [hstep] at hok
        cases hok
        exact hunbroken

theorem survives_run {es : List Event} (h : Survives env c) (hfits : RunFits env c es)
    (hok : c.run env es = .ok c') : Survives env c' := by
  induction es generalizing c with
  | nil =>
      cases hok
      exact h
  | cons e es ih =>
      rw [run] at hok
      obtain ⟨d, hstep, hrest⟩ := Exec.bind_eq_ok.mp hok
      rw [RunFits, hstep] at hfits
      exact ih (step_survives h hfits.1 hstep) (hfits.2 d rfl) hrest

end Steps

/-! ## Runs from the first state -/

section Runs

variable {env : Env} {params : StreamLinkParams} {sendbufLen recvbufLen : Nat} {link : LinkRef}
  {eid : Bytes}

theorem initiateContact_survives {c : Connection}
    (h : (Connection.new params sendbufLen recvbufLen link).initiateContact env eid = .ok c) :
    Survives env c := by
  obtain ⟨b, -, -, hroom, hsend⟩ := initiateContact_cases h
  apply survives_frame _ (sendData_frame env _) hsend
  exact {
    unbroken := rfl
    quiet := rfl
    room := le_trans (by decide : 2 ≤ 8) hroom
    parsing := fun y hy => by cases hy }

/-- In every state of a run whose messages meet the conditions, `process_data` takes the next bytes
of the peer without a fault. It breaks the contact, or what it leaves is the front of a message. -/
theorem processData_survives {c₀ c : Connection} {es : List Event} {chunk : Bytes}
    (hinit : (Connection.new params sendbufLen recvbufLen link).initiateContact env eid = .ok c₀)
    (hrun : c₀.run env es = .ok c) (hfits : RunFits env c₀ es) (hup : c.contactUp = true)
    (hunbroken : c.contactBroken = none) (hroom : chunk.length ≤ c.recvbuf.tailbytes)
    (hchunk : BufferFits env { c with recvbuf := c.recvbuf.fill chunk hroom }) :
    ∃ c', { c with recvbuf := c.recvbuf.fill chunk hroom }.processData env = .ok c' ∧
      (c'.contactBroken ≠ none ∨ Waits c'.recvbuf.full) := by
  have hready : Ready env c :=
    (survives_run (initiateContact_survives hinit) hfits hrun).resolve_left (not_not.mpr hunbroken)
  have hfill : Ready env { c with recvbuf := c.recvbuf.fill chunk hroom } :=
    hready.congr rfl rfl rfl rfl
  have hprocessed := processData_processed hfill hup hchunk
  cases hresult : { c with recvbuf := c.recvbuf.fill chunk hroom }.processData env with
  | error s =>
      rw [hresult] at hprocessed
      exact absurd hprocessed id
  | ok c' =>
      rw [hresult] at hprocessed
      exact ⟨c', rfl, hprocessed.imp_right fun hdone => hdone.2⟩

/-- The first of two chunks with a bundle, in the middle of its primary block. -/
theorem processData_survives_sample : ∃ c₀ c,
    (Connection.new .plain 100 100 ⟨true, [], []⟩).initiateContact .plain EndpointID.dtnNone =
      .ok c₀ ∧
    c₀.run .plain [.receive (contactHeader .plain .plain EndpointID.dtnNone)] = .ok c ∧
    ∃ h, ∃ c', { c with
        recvbuf := c.recvbuf.fill ([0x13, 29] ++ (XmitBundle.sample 1).bytes.take 12) h }.processData
      .plain = .ok c' ∧ (c'.contactBroken ≠ none ∨ Waits c'.recvbuf.full) := by
  have hrun : ∃ c₀ ∈ ((Connection.new .plain 100 100 ⟨true, [], []⟩).initiateContact .plain
      EndpointID.dtnNone).toOption,
      RunFits .plain c₀ [.receive (contactHeader .plain .plain EndpointID.dtnNone)] ∧
      ∃ c ∈ (c₀.run .plain
          [.receive (contactHeader .plain .plain EndpointID.dtnNone)]).toOption,
        c.contactUp = true ∧ c.contactBroken = none ∧
          ∃ h : ([0x13, 29] ++ (XmitBundle.sample 1).bytes.take 12).length ≤ c.recvbuf.tailbytes,
            BufferFits .plain { c with
              recvbuf := c.recvbuf.fill ([0x13, 29] ++ (XmitBundle.sample 1).bytes.take 12) h } := by
    decide +kernel
  obtain ⟨c₀, hc₀, hfits, c, hc, hup, hunbroken, hroom, hchunk⟩ := hrun
  rw [Exec.mem_toOption] at hc₀ hc
  exact ⟨c₀, c, hc₀, hc, hroom, processData_survives hc₀ hc hfits hup hunbroken hroom hchunk⟩

/-- A segment with a byte behind the block with `LAST_BLOCK` fails the assertion that the parser has
used the whole chunk. -/
theorem processData_not_survives : ∃ c₀ c,
    (Connection.new .plain 100 100 ⟨true, [], []⟩).initiateContact .plain EndpointID.dtnNone =
      .ok c₀ ∧
    c₀.run .plain [.receive (contactHeader .plain .plain EndpointID.dtnNone)] = .ok c ∧
    c.contactUp = true ∧ c.contactBroken = none ∧
    (c.receive .plain ([0x13, 30] ++ (XmitBundle.sample 1).bytes ++ [0])).Faults := by
  have hrun : ∃ c₀ ∈ ((Connection.new .plain 100 100 ⟨true, [], []⟩).initiateContact .plain
      EndpointID.dtnNone).toOption,
      ∃ c ∈ (c₀.run .plain
          [.receive (contactHeader .plain .plain EndpointID.dtnNone)]).toOption,
        c.contactUp = true ∧ c.contactBroken = none ∧
          (c.receive .plain ([0x13, 30] ++ (XmitBundle.sample 1).bytes ++ [0])).Faults := by
    decide +kernel
  obtain ⟨c₀, hc₀, c, hc, hrest⟩ := hrun
  rw [Exec.mem_toOption] at hc₀ hc
  exact ⟨c₀, c, hc₀, hc, hrest⟩

end Runs

end Dtn2.StreamConvergenceLayer
