/-!
# Lengths of time

A length of time is a number of nanoseconds. Clocks here count milliseconds, so what is timed ends
with the first tick at which its length has passed.
-/

namespace ParticleLedger

/-- A length of time. -/
structure Duration where
  nanos : Nat
  deriving DecidableEq

namespace Duration

def seconds (n : Nat) : Duration := ⟨n * 1000000000⟩

def millis (n : Nat) : Duration := ⟨n * 1000000⟩

/-- A bare number counts seconds. -/
instance (n : Nat) : OfNat Duration n := ⟨seconds n⟩

/-- The tick of a clock of milliseconds with which the time has passed. -/
def tick (d : Duration) : Nat :=
  (d.nanos + 999999) / 1000000

instance : LE Duration := ⟨fun a b => a.nanos ≤ b.nanos⟩

instance (a b : Duration) : Decidable (a ≤ b) :=
  inferInstanceAs (Decidable (a.nanos ≤ b.nanos))

instance : Min Duration := minOfLe

instance : Add Duration := ⟨fun a b => ⟨a.nanos + b.nanos⟩⟩

variable {a b : Duration}

theorem le_iff : a ≤ b ↔ a.nanos ≤ b.nanos := Iff.rfl

@[simp] theorem nanos_seconds (n : Nat) : (seconds n).nanos = n * 1000000000 := rfl

@[simp] theorem nanos_millis (n : Nat) : (millis n).nanos = n * 1000000 := rfl

@[simp] theorem nanos_min : (min a b).nanos = min a.nanos b.nanos := by
  rw [Nat.min_def]
  change (if a ≤ b then a else b).nanos = _
  split
  · next h => exact (if_pos (le_iff.1 h)).symm
  · next h => exact (if_neg (mt le_iff.2 h)).symm

/-- A time has passed by its tick, and not before. -/
theorem le_millis_iff {now : Nat} : a ≤ millis now ↔ a.tick ≤ now := by
  rw [le_iff, nanos_millis, tick]
  omega

end Duration

end ParticleLedger
