import Dtn2.Bundling.Sdnv
import Mathlib.Data.List.TakeWhile

/-!
# Execution, endpoint ids and scratch buffers

The functions of the node either return, return the error code `-1`, or end the process: an
`ASSERT` fails, an index leaves the memory it points into, a null pointer is followed, the code
calls `PANIC`, or a loop never ends. Assertions are kept in the places where the source has them.

The node is built on a support library whose sources are not part of the repository. What the
node relies on is collected in `Oasys`: how an endpoint id string is parsed and validated, how
much memory `ScratchBuffer::reserve` provides, and what memory holds before it is written.
-/

namespace Dtn2

/-- How a function can end the process instead of returning. -/
inductive Fault where
  | assertion
  | outOfBounds
  | nullPointer
  | panic
  | diverges
deriving DecidableEq, Repr

/-- The ways not to return a result: the error code `-1`, or a fault. -/
inductive Stop where
  | protocolError
  | fault (f : Fault)
deriving DecidableEq, Repr

abbrev Exec := Except Stop

def assertThat (p : Prop) [Decidable p] : Exec Unit :=
  if p then .ok () else .error (.fault .assertion)

/-- The run ended the process. -/
def Exec.Faults {α : Type} (x : Exec α) : Prop := ∃ f, x = .error (.fault f)

instance {α : Type} (x : Exec α) : Decidable x.Faults :=
  match x with
  | .ok _ => isFalse (by rintro ⟨f, h⟩; cases h)
  | .error .protocolError => isFalse (by rintro ⟨f, h⟩; cases h)
  | .error (.fault f) => isTrue ⟨f, rfl⟩

section Exec

variable {α β : Type}

@[simp] theorem assertThat_eq_ok (p : Prop) [Decidable p] (u : Unit) :
    assertThat p = .ok u ↔ p := by
  unfold assertThat
  split <;> simp_all

theorem assertThat_of {p : Prop} [Decidable p] (h : p) : assertThat p = .ok () := by
  simp [h]

theorem assertThat_of_not {p : Prop} [Decidable p] (h : ¬ p) :
    assertThat p = .error (.fault .assertion) := by
  unfold assertThat
  rw [if_neg h]

@[simp] theorem Exec.ok_bind (a : α) (f : α → Exec β) : ((.ok a : Exec α) >>= f) = f a := rfl

@[simp] theorem Exec.error_bind (s : Stop) (f : α → Exec β) :
    ((.error s : Exec α) >>= f) = .error s := rfl

theorem Exec.bind_eq_ok {x : Exec α} {f : α → Exec β} {b : β} :
    (x >>= f) = .ok b ↔ ∃ a, x = .ok a ∧ f a = .ok b := by
  cases x with
  | error s => simp
  | ok a => simp

theorem Exec.mem_toOption {x : Exec α} {a : α} : a ∈ x.toOption ↔ x = .ok a := by
  cases x with
  | error s => simp [Except.toOption]
  | ok b => simp [Except.toOption, eq_comm]

theorem Exec.assert_bind {p : Prop} [Decidable p] (h : p) (f : Unit → Exec β) :
    (assertThat p >>= f) = f () := by
  rw [assertThat_of h]
  rfl

theorem Exec.assert_bind_not {p : Prop} [Decidable p] (h : ¬ p) (f : Unit → Exec β) :
    (assertThat p >>= f) = .error (.fault .assertion) := by
  rw [assertThat_of_not h]
  rfl

theorem Exec.not_faults_ok (a : α) : ¬ Exec.Faults (.ok a : Exec α) := by
  rintro ⟨f, h⟩
  cases h

theorem Exec.not_faults_protocolError : ¬ Exec.Faults (.error .protocolError : Exec α) := by
  rintro ⟨f, h⟩
  cases h

theorem Exec.not_faults_bind {x : Exec α} {f : α → Exec β} (hx : ¬ x.Faults)
    (hf : ∀ a, x = .ok a → ¬ (f a).Faults) : ¬ (x >>= f).Faults := by
  cases x with
  | error s =>
      rintro ⟨g, h⟩
      exact hx ⟨g, by simpa using h⟩
  | ok a => exact hf a rfl

end Exec

/-- Subtraction of `size_t` values. -/
def sizeSub (a b : Nat) : Nat := (a + 2 ^ 64 - b % 2 ^ 64) % 2 ^ 64

theorem sizeSub_of_le {a b : Nat} (h : b ≤ a) (ha : a < 2 ^ 64) : sizeSub a b = a - b := by
  unfold sizeSub
  omega

/-- The conversion of a `size_t` to `int`. -/
def toInt (n : Nat) : Int := Int.bmod n (2 ^ 32)

theorem toInt_of_lt {n : Nat} (h : n < 2 ^ 31) : toInt n = n := by
  unfold toInt
  rw [Int.bmod_eq_of_le] <;> omega

theorem toInt_neg {n : Nat} (h : 2 ^ 31 ≤ n) (hlt : n < 2 ^ 32) : toInt n < 0 := by
  have hsub : Int.bmod (n : Int) (2 ^ 32) = (n : Int) - 2 ^ 32 := by
    rw [← Int.sub_bmod_right]
    apply Int.bmod_eq_of_le <;> omega
  unfold toInt
  omega

def ascii (cs : List Char) : Bytes := cs.map fun c => UInt8.ofNat c.toNat

/-- What `strlen` and `std::string(const char*)` see of a buffer: the bytes before the first NUL. -/
def cString (bs : Bytes) : Bytes := bs.takeWhile (· ≠ 0)

theorem cString_eq_self {str : Bytes} (h : 0 ∉ str) : cString str = str := by
  rw [cString, List.takeWhile_eq_self_iff]
  intro b hb
  have hne : b ≠ 0 := fun h0 => h (h0 ▸ hb)
  simpa using hne

/-- An endpoint id: its URI string and the result of validating it. -/
structure EndpointID where
  uri : Bytes
  valid : Bool
deriving DecidableEq, Repr

namespace EndpointID

def default : EndpointID := ⟨[], false⟩

def colon : UInt8 := 0x3a

/-- `uri_.scheme()`, the part of the string in front of the first colon. -/
def schemeStr (e : EndpointID) : Bytes := e.uri.takeWhile (· ≠ colon)

/-- `uri_.ssp()`, the part of the string behind the first colon. -/
def ssp (e : EndpointID) : Bytes := (e.uri.dropWhile (· ≠ colon)).tail

def dtnNone : Bytes := ascii ['d', 't', 'n', ':', 'n', 'o', 'n', 'e']

end EndpointID

/-- What the node uses of the support library. `assign` is `EndpointID::assign` on a string
(URI parsing and scheme validation), `grow cap n` the capacity of a scratch buffer of capacity
`cap` after `reserve(n)`, and `junk` the contents of memory that was never written. -/
structure Oasys where
  assign : Bytes → EndpointID
  grow : Nat → Nat → Nat
  le_grow : ∀ cap n, n ≤ grow cap n
  cap_le_grow : ∀ cap n, cap ≤ grow cap n
  junk : Nat → UInt8

/-- A small instance: a string is a valid endpoint id if it has a scheme and something behind the
colon, buffers grow to what is asked for, and new memory is zero. -/
def Oasys.plain : Oasys where
  assign bs := ⟨bs, decide (EndpointID.schemeStr ⟨bs, true⟩ ≠ [] ∧ EndpointID.ssp ⟨bs, true⟩ ≠ [])⟩
  grow cap n := max cap n
  le_grow cap n := Nat.le_max_right cap n
  cap_le_grow cap n := Nat.le_max_left cap n
  junk _ := 0

/-- A scratch buffer: the bytes up to `len()` and the remaining bytes of its memory. -/
structure ScratchBuffer where
  filled : Bytes
  spare : Bytes
deriving DecidableEq, Repr

namespace ScratchBuffer

def len (b : ScratchBuffer) : Nat := b.filled.length

/-- `buf_len()`, the size of the memory. -/
def bufLen (b : ScratchBuffer) : Nat := b.filled.length + b.spare.length

def nfree (b : ScratchBuffer) : Nat := b.spare.length

/-- A buffer with `n` bytes of memory and nothing in it. -/
def fresh (os : Oasys) (n : Nat) : ScratchBuffer := ⟨[], (List.range n).map os.junk⟩

/-- `reserve(n)`: the memory grows when it is smaller than `n`; its contents stay. -/
def reserve (os : Oasys) (b : ScratchBuffer) (n : Nat) : ScratchBuffer :=
  if b.bufLen < n then
    ⟨b.filled, b.spare ++
      (List.range (os.grow b.bufLen n - b.bufLen)).map fun i => os.junk (b.bufLen + i)⟩
  else b

/-- `memcpy(end(), bs, n)` followed by `set_len(len() + n)`. -/
def append (b : ScratchBuffer) (bs : Bytes) : Exec ScratchBuffer :=
  if bs.length ≤ b.nfree then .ok ⟨b.filled ++ bs, b.spare.drop bs.length⟩
  else .error (.fault .outOfBounds)

/-- `set_len(n)` for an `n` inside the filled part: the cut bytes stay in memory. -/
def shrink (b : ScratchBuffer) (n : Nat) : ScratchBuffer :=
  ⟨b.filled.take n, b.filled.drop n ++ b.spare⟩

/-- `set_len(n)` on a buffer whose memory starts with `bs` afterwards. -/
def write (b : ScratchBuffer) (bs : Bytes) (n : Nat) : Exec ScratchBuffer :=
  if bs.length ≤ b.bufLen then
    let memory := bs ++ (b.filled ++ b.spare).drop bs.length
    .ok ⟨memory.take n, memory.drop n⟩
  else .error (.fault .outOfBounds)

/-- The whole memory, filled part first. -/
def memory (b : ScratchBuffer) : Bytes := b.filled ++ b.spare

@[simp] theorem fresh_filled (os : Oasys) (n : Nat) : (fresh os n).filled = [] := rfl

@[simp] theorem fresh_nfree (os : Oasys) (n : Nat) : (fresh os n).nfree = n := by
  simp [fresh, nfree]

@[simp] theorem reserve_filled (os : Oasys) (b : ScratchBuffer) (n : Nat) :
    (b.reserve os n).filled = b.filled := by
  unfold reserve
  split <;> rfl

theorem le_bufLen_reserve (os : Oasys) (b : ScratchBuffer) (n : Nat) :
    n ≤ (b.reserve os n).bufLen := by
  unfold reserve
  split
  · have h := os.le_grow b.bufLen n
    have h' := os.cap_le_grow b.bufLen n
    simp only [bufLen, List.length_append, List.length_map, List.length_range] at *
    omega
  · omega

theorem nfree_le_reserve (os : Oasys) (b : ScratchBuffer) (n : Nat) :
    n - b.len ≤ (b.reserve os n).nfree := by
  have h := le_bufLen_reserve os b n
  have hf := reserve_filled os b n
  simp only [bufLen, len, nfree, hf] at *
  omega

theorem bufLen_le_reserve (os : Oasys) (b : ScratchBuffer) (n : Nat) :
    b.bufLen ≤ (b.reserve os n).bufLen := by
  unfold reserve
  split
  · simp only [bufLen, List.length_append]
    omega
  · exact le_refl _

@[simp] theorem shrink_filled (b : ScratchBuffer) (n : Nat) :
    (b.shrink n).filled = b.filled.take n := rfl

theorem append_eq_ok {b b' : ScratchBuffer} {bs : Bytes} :
    b.append bs = .ok b' ↔
      bs.length ≤ b.nfree ∧ b' = ⟨b.filled ++ bs, b.spare.drop bs.length⟩ := by
  unfold append
  split <;> simp_all [eq_comm]

theorem bufLen_append {b b' : ScratchBuffer} {bs : Bytes} (h : b.append bs = .ok b') :
    b'.bufLen = b.bufLen := by
  obtain ⟨hle, rfl⟩ := append_eq_ok.mp h
  simp only [bufLen, nfree, List.length_append, List.length_drop] at *
  omega

theorem append_of_le {b : ScratchBuffer} {bs : Bytes} (h : bs.length ≤ b.nfree) :
    b.append bs = .ok ⟨b.filled ++ bs, b.spare.drop bs.length⟩ := by
  unfold append
  rw [if_pos h]

end ScratchBuffer

end Dtn2
