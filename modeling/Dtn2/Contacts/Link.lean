import Dtn2.Bundling.Core
import Mathlib.Data.List.Nodup

/-!
# Links

A link has a queue of bundles that wait for it and a list of bundles in flight, and counts the bundles
and the bytes of both. The counters are 32 bits wide; lengths are not. An assertion that fails ends the
program: the functions below go on, so that they have every run of the program and some more.
-/

namespace Dtn2

/-- The counters wrap around. -/
def uintMod : Nat := 2 ^ 32

/-- `state_t`. -/
inductive LinkState where
  | unavailable
  | available
  | opening
  | open
deriving DecidableEq, Repr

/-- `Link`, as far as the forwarding of bundles needs it. -/
structure Link (B : Type) where
  state : LinkState
  isDeleted : Bool
  remoteEid : Bytes
  isReliable : Bool
  mtu : Nat
  qlimitBundlesHigh : Nat
  qlimitBytesHigh : Nat
  qlimitBundlesLow : Nat
  qlimitBytesLow : Nat
  queue : List B
  inflight : List B
  bundlesQueued : Nat
  bytesQueued : Nat
  bundlesInflight : Nat
  bytesInflight : Nat
deriving DecidableEq, Repr

namespace Link

variable {B : Type} [DecidableEq B]

omit [DecidableEq B] in
def isOpen (link : Link B) : Bool := decide (link.state = .open)

omit [DecidableEq B] in
def isAvailable (link : Link B) : Bool := !decide (link.state = .unavailable)

omit [DecidableEq B] in
def isOpening (link : Link B) : Bool := decide (link.state = .opening)

omit [DecidableEq B] in
def queueIsFull (link : Link B) : Bool :=
  decide (link.bundlesQueued > link.qlimitBundlesHigh) || decide (link.bytesQueued > link.qlimitBytesHigh)

omit [DecidableEq B] in
def queueHasSpace (link : Link B) : Bool :=
  decide (link.bundlesQueued < link.qlimitBundlesLow) && decide (link.bytesQueued < link.qlimitBytesLow)

def countDown (n : Nat) : Nat := (n + (uintMod - 1)) % uintMod

/-- A byte counter is left alone if it would become negative. -/
def bytesDown (bytes len : Nat) : Nat := if len ≤ bytes then bytes - len else bytes

def addToQueue (link : Link B) (b : B) (len : Nat) : Link B :=
  if b ∈ link.queue then link
  else
    { link with
      queue := link.queue ++ [b]
      bundlesQueued := (link.bundlesQueued + 1) % uintMod
      bytesQueued := (link.bytesQueued + len) % uintMod }

def delFromQueue (link : Link B) (b : B) (len : Nat) : Link B :=
  if b ∈ link.queue then
    { link with
      queue := link.queue.erase b
      bundlesQueued := countDown link.bundlesQueued
      bytesQueued := bytesDown link.bytesQueued len }
  else link

def addToInflight (link : Link B) (b : B) (len : Nat) : Link B :=
  if b ∈ link.inflight then link
  else
    { link with
      inflight := link.inflight ++ [b]
      bundlesInflight := (link.bundlesInflight + 1) % uintMod
      bytesInflight := (link.bytesInflight + len) % uintMod }

def delFromInflight (link : Link B) (b : B) (len : Nat) : Link B :=
  if b ∈ link.inflight then
    { link with
      inflight := link.inflight.erase b
      bundlesInflight := countDown link.bundlesInflight
      bytesInflight := bytesDown link.bytesInflight len }
  else link

/-- `open`, from `BundleActions::open_link`. The convergence layer reports later that the link is open. -/
def openLink (link : Link B) : Link B :=
  if link.isDeleted || link.isOpen || !link.isAvailable || link.isOpening then link
  else { link with state := .opening }

/-! ## What the lists leave alone -/

@[simp] theorem addToQueue_mtu (link : Link B) (b : B) (len : Nat) :
    (link.addToQueue b len).mtu = link.mtu := by
  rw [addToQueue]
  split <;> rfl

@[simp] theorem addToQueue_remoteEid (link : Link B) (b : B) (len : Nat) :
    (link.addToQueue b len).remoteEid = link.remoteEid := by
  rw [addToQueue]
  split <;> rfl

@[simp] theorem delFromQueue_mtu (link : Link B) (b : B) (len : Nat) :
    (link.delFromQueue b len).mtu = link.mtu := by
  rw [delFromQueue]
  split <;> rfl

@[simp] theorem addToInflight_mtu (link : Link B) (b : B) (len : Nat) :
    (link.addToInflight b len).mtu = link.mtu := by
  rw [addToInflight]
  split <;> rfl

@[simp] theorem delFromInflight_mtu (link : Link B) (b : B) (len : Nat) :
    (link.delFromInflight b len).mtu = link.mtu := by
  rw [delFromInflight]
  split <;> rfl

/-! ## The bundles of a link -/

omit [DecidableEq B] in
def Listed (link : Link B) (b : B) : Prop := b ∈ link.queue ∨ b ∈ link.inflight

omit [DecidableEq B] in
/-- No bundle is twice on a list. -/
def Once (link : Link B) : Prop := link.queue.Nodup ∧ link.inflight.Nodup

variable {link : Link B} {b c : B} {len : Nat}

theorem Listed.of_addToQueue (h : (link.addToQueue b len).Listed c) : link.Listed c ∨ c = b := by
  rw [addToQueue] at h
  split at h
  · exact Or.inl h
  · rcases h with hq | hi
    · rcases List.mem_append.mp hq with hq | hq
      · exact Or.inl (Or.inl hq)
      · exact Or.inr (List.mem_singleton.mp hq)
    · exact Or.inl (Or.inr hi)

theorem Listed.of_addToInflight (h : (link.addToInflight b len).Listed c) : link.Listed c ∨ c = b := by
  rw [addToInflight] at h
  split at h
  · exact Or.inl h
  · rcases h with hq | hi
    · exact Or.inl (Or.inl hq)
    · rcases List.mem_append.mp hi with hi | hi
      · exact Or.inl (Or.inr hi)
      · exact Or.inr (List.mem_singleton.mp hi)

theorem Listed.of_delFromQueue (h : (link.delFromQueue b len).Listed c) : link.Listed c := by
  rw [delFromQueue] at h
  split at h
  · exact h.imp List.mem_of_mem_erase id
  · exact h

theorem Listed.of_delFromInflight (h : (link.delFromInflight b len).Listed c) : link.Listed c := by
  rw [delFromInflight] at h
  split at h
  · exact h.imp id List.mem_of_mem_erase
  · exact h

theorem Once.addToQueue (h : link.Once) (b : B) (len : Nat) : (link.addToQueue b len).Once := by
  rw [Link.addToQueue]
  split
  · exact h
  · rename_i hb
    exact ⟨List.Nodup.concat hb h.1 |> (List.concat_eq_append ▸ ·), h.2⟩

theorem Once.addToInflight (h : link.Once) (b : B) (len : Nat) : (link.addToInflight b len).Once := by
  rw [Link.addToInflight]
  split
  · exact h
  · rename_i hb
    exact ⟨h.1, List.Nodup.concat hb h.2 |> (List.concat_eq_append ▸ ·)⟩

theorem Once.delFromQueue (h : link.Once) (b : B) (len : Nat) : (link.delFromQueue b len).Once := by
  rw [Link.delFromQueue]
  split
  · exact ⟨h.1.erase b, h.2⟩
  · exact h

theorem Once.delFromInflight (h : link.Once) (b : B) (len : Nat) :
    (link.delFromInflight b len).Once := by
  rw [Link.delFromInflight]
  split
  · exact ⟨h.1, h.2.erase b⟩
  · exact h

theorem Once.not_listed (h : link.Once) :
    ¬((link.delFromInflight b len).delFromQueue b len).Listed b := by
  have hi : b ∉ (link.delFromInflight b len).inflight := by
    rw [Link.delFromInflight]
    split
    · exact h.2.not_mem_erase
    · assumption
  have honce := h.delFromInflight b len
  rw [Link.delFromQueue]
  split
  · rintro (hq | hmem)
    · exact honce.1.not_mem_erase hq
    · exact hi hmem
  · rename_i hq
    rintro (hmem | hmem)
    · exact hq hmem
    · exact hi hmem

end Link

end Dtn2
