import Dtn2.Bundling.Bundle

/-!
# Expiration times

`add_to_pending` schedules the expiration of a bundle. The time comes from the creation timestamp and
the lifetime, or from the clock, the lifetime and the age where there is no creation time or an age
block. Both are computed without signs and then taken for a `time_t`.
-/

namespace Dtn2

namespace Expiration

/-- `struct timeval`. -/
structure Timeval where
  sec : Int
  usec : Int
deriving DecidableEq, Repr

/-- An integer in the 64 bits of a `time_t`. -/
def timeT (x : Int) : Int :=
  if x % 18446744073709551616 < 9223372036854775808 then x % 18446744073709551616
  else x % 18446744073709551616 - 18446744073709551616

/-- An integer cut to a `u_int32_t`. -/
def toU32 (x : Int) : UInt32 := UInt32.ofNat (x % 4294967296).toNat

def timevalConversion : UInt32 := 946684800

def intMax : UInt64 := 2147483647

def getCurrentTime (now : Timeval) : Exec UInt32 := do
  assertThat (timevalConversion ≤ toU32 now.sec)
  pure (toU32 (now.sec - timevalConversion.toNat))

def findBlock (type : Nat) : List BlockInfo → Exec Bool
  | [] => pure false
  | block :: rest => do
      let own ← block.type
      if own = type ∨ block.owner.blockType = type then pure true else findBlock type rest

def createdSum (b : Bundle) : UInt64 :=
  timevalConversion.toUInt64 + b.creationTs.seconds + b.expiration

/-- The expiration time by the clock and the age, to which the time since the bundle was taken in is
added. -/
def agedSum (b : Bundle) (now : Timeval) (elapsedMs : UInt32) : Exec UInt64 := do
  let current ← getCurrentTime now
  pure ((timevalConversion + current).toUInt64 + b.expiration - b.age - (elapsedMs / 1000).toUInt64)

/-- The time of the timer, which is now if the expiration time has passed, and whether the bundle may be
routed. -/
def schedule (sum : UInt64) (now : Timeval) : Timeval × Bool :=
  let sec := timeT sum.toNat
  if 0 < timeT (sec - now.sec) then (⟨sec, now.usec⟩, true) else (now, false)

/-- The computation of `add_to_pending`. -/
def expirationTime (b : Bundle) (now : Timeval) (elapsedMs : UInt32) : Exec (Timeval × Bool) := do
  assertThat (createdSum b ≤ intMax)
  let ageBlockExists ← findBlock Processor.age.blockType b.recvBlocks.blocks
  let sum ←
    if b.creationTs.seconds = 0 ∨ ageBlockExists = true then agedSum b now elapsedMs
    else pure (createdSum b)
  pure (schedule sum now)

structure Pending where
  pending : List Bundle
  stored : List Bundle
  timers : List (Bundle × Timeval)
deriving DecidableEq, Repr

def addToPending (s : Pending) (b : Bundle) (addToStore : Bool) (now : Timeval) (elapsedMs : UInt32) :
    Exec (Pending × Bool) := do
  let r ← expirationTime b now elapsedMs
  pure (⟨s.pending ++ [b], if addToStore then s.stored ++ [b] else s.stored,
    s.timers ++ [(b, r.1)]⟩, r.2)

/-! ## Instants -/

def createdInstant (b : Bundle) : Int :=
  946684800 + (b.creationTs.seconds.toNat : Int) + b.expiration.toNat

/-- The time that the bundle expires at by its age, which has grown while it was here. -/
def agedInstant (b : Bundle) (now : Timeval) (elapsedMs : UInt32) : Int :=
  now.sec + (b.expiration.toNat : Int) - (b.age.toNat + elapsedMs.toNat / 1000)

theorem timeT_of_fits {x : Int} (hlow : -9223372036854775808 ≤ x) (hhigh : x < 9223372036854775808) :
    timeT x = x := by
  rw [timeT]
  by_cases hpos : x % 18446744073709551616 < 9223372036854775808
  · rw [if_pos hpos]
    omega
  · rw [if_neg hpos]
    omega

/-- A value is the same `time_t` whatever multiple of the modulus was taken off. -/
theorem timeT_emod (x : Int) : timeT (x % 18446744073709551616) = timeT x := by
  rw [timeT, timeT, Int.emod_emod_of_dvd _ (Int.dvd_refl _)]

theorem createdSum_toNat (b : Bundle) :
    ((createdSum b).toNat : Int) = createdInstant b % 18446744073709551616 := by
  have hconversion : timevalConversion.toUInt64.toNat = 946684800 := rfl
  rw [createdSum, UInt64.toNat_add, UInt64.toNat_add, hconversion, createdInstant]
  omega

theorem toU32_toNat (x : Int) : ((toU32 x).toNat : Int) = x % 4294967296 := by
  rw [toU32, UInt32.toNat_ofNat']
  omega

theorem agedSum_eq (b : Bundle) {now : Timeval} (elapsedMs : UInt32) (hlow : 946684800 ≤ now.sec)
    (hhigh : now.sec < 4294967296) : ∃ sum, agedSum b now elapsedMs = .ok sum ∧
      (sum.toNat : Int) = agedInstant b now elapsedMs % 18446744073709551616 := by
  have hnow := toU32_toNat now.sec
  have hconversion : timevalConversion.toNat = 946684800 := rfl
  have hclock : timevalConversion ≤ toU32 now.sec := by
    rw [UInt32.le_iff_toNat_le, hconversion]
    omega
  have hcurrent := toU32_toNat (now.sec - timevalConversion.toNat)
  rw [agedSum, getCurrentTime, Exec.assert_bind hclock]
  refine ⟨_, rfl, ?_⟩
  rw [hconversion] at hcurrent ⊢
  rw [UInt64.toNat_sub, UInt64.toNat_sub, UInt64.toNat_add, UInt32.toNat_toUInt64,
    UInt32.toNat_toUInt64, UInt32.toNat_add, UInt32.toNat_div, hconversion, agedInstant]
  have hthousand : (1000 : UInt32).toNat = 1000 := rfl
  rw [hthousand]
  have hage := b.age.toNat_lt
  have helapsed := elapsedMs.toNat_lt
  omega

/-- The timer is set for the instant if this is yet to come, and else for now. -/
def Scheduled (instant : Int) (now : Timeval) (r : Timeval × Bool) : Prop :=
  r = if now.sec < instant then (⟨instant, now.usec⟩, true) else (now, false)

theorem schedule_of_fits {instant : Int} (now : Timeval) {sum : UInt64}
    (hsum : (sum.toNat : Int) = instant % 18446744073709551616)
    (hlow : -9223372036854775808 ≤ instant) (hhigh : instant < 9223372036854775808)
    (hwhen : -9223372036854775808 ≤ instant - now.sec) (hnow : 0 ≤ now.sec) :
    Scheduled instant now (schedule sum now) := by
  rw [Scheduled, schedule, hsum, timeT_emod, timeT_of_fits hlow hhigh, timeT_of_fits hwhen (by omega)]
  by_cases hlt : now.sec < instant
  · rw [if_pos hlt, if_pos (by omega)]
  · rw [if_neg hlt, if_neg (by omega)]

/-! ## Adding a bundle -/

def Pending.added (s : Pending) (b : Bundle) (addToStore : Bool) (time : Timeval) : Pending :=
  ⟨s.pending ++ [b], if addToStore then s.stored ++ [b] else s.stored, s.timers ++ [(b, time)]⟩

def Ages (b : Bundle) (ageBlockExists : Bool) : Prop :=
  b.creationTs.seconds = 0 ∨ ageBlockExists = true

instance (b : Bundle) (ageBlockExists : Bool) : Decidable (Ages b ageBlockExists) :=
  inferInstanceAs (Decidable (_ ∨ _))

/-- The bundle is added, with a timer for the instant if this is yet to come, and else for now. -/
def Adds (s : Pending) (b : Bundle) (addToStore : Bool) (now : Timeval) (instant : Int)
    (r : Exec (Pending × Bool)) : Prop :=
  ∃ t, r = .ok (s.added b addToStore t.1, t.2) ∧ Scheduled instant now t

/-- Expiration times that an `int` holds are taken, and those that wrap around are left open. Where the
age counts, the clock is one of an unsigned `int` after 1999, and the bundle is not older than a
`time_t` can say. -/
structure Schedules (s : Pending) (b : Bundle) (addToStore : Bool) (now : Timeval)
    (elapsedMs : UInt32) (ageBlockExists : Bool) : Prop where
  tooLarge : 2147483647 < createdInstant b → createdInstant b < 18446744073709551616 →
    addToPending s b addToStore now elapsedMs = .error (.fault .assertion)
  created : createdInstant b ≤ 2147483647 → ¬Ages b ageBlockExists → 0 ≤ now.sec →
    now.sec < 9223372036854775808 →
      Adds s b addToStore now (createdInstant b) (addToPending s b addToStore now elapsedMs)
  aged : createdInstant b ≤ 2147483647 → Ages b ageBlockExists → 946684800 ≤ now.sec →
    now.sec < 4294967296 →
      b.age.toNat + elapsedMs.toNat / 1000 ≤ b.expiration.toNat + 9223372036854775808 →
        Adds s b addToStore now (agedInstant b now elapsedMs)
          (addToPending s b addToStore now elapsedMs)

theorem createdInstant_nonneg (b : Bundle) : 946684800 ≤ createdInstant b := by
  rw [createdInstant]
  omega

theorem createdSum_le_iff {b : Bundle} (h : createdInstant b < 18446744073709551616) :
    createdSum b ≤ intMax ↔ createdInstant b ≤ 2147483647 := by
  have hsum := createdSum_toNat b
  have hpos := createdInstant_nonneg b
  have hmax : intMax.toNat = 2147483647 := rfl
  rw [UInt64.le_iff_toNat_le, hmax]
  omega

/-- The instant of a bundle, and whether it is a `time_t`. -/
def instant (b : Bundle) (now : Timeval) (ageBlockExists : Bool) : Int :=
  if Ages b ageBlockExists then agedInstant b now 0 else createdInstant b

def Representable (x : Int) : Prop := -9223372036854775808 ≤ x ∧ x < 9223372036854775808

/-- The expiration is scheduled for the instant, without an abort. -/
def Total (s : Pending) (b : Bundle) (addToStore : Bool) (now : Timeval) (elapsedMs : UInt32)
    (ageBlockExists : Bool) : Prop :=
  ∃ time routable, addToPending s b addToStore now elapsedMs =
      .ok (s.added b addToStore time, routable) ∧
    (routable = true ↔ now.sec < instant b now ageBlockExists) ∧
    (Representable (instant b now ageBlockExists) →
      time.sec = instant b now ageBlockExists)

/-- A bundle of the second in which an `int` runs out, with a lifetime of a minute. -/
def late : Bundle := { Bundle.new 1 1200798848 with expiration := 60 }

end Expiration

end Dtn2
