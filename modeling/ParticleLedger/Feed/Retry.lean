import ParticleLedger.Text.Duration

/-!
# When to connect again

After the `n`-th failure in a row a feed waits `n` squared seconds, up to a limit, and after a given
number of failures it gives up.

Main statements: `RetryPolicy.delay_eq` (the product never leaves the range of 64 bits) and
`RetryPolicy.delay_mono`.
-/

namespace ParticleLedger

/-- How often and when a feed connects again. -/
structure RetryPolicy where
  /-- The failures in a row after which it gives up. -/
  maxAttempts : UInt32
  /-- The longest wait. -/
  maxDelay : Duration
  deriving DecidableEq

namespace RetryPolicy

/-- The product, or the greatest number of 64 bits if the product is greater. -/
def saturatingMul (a b : UInt64) : UInt64 :=
  if a.toNat * b.toNat < UInt64.size then a * b else UInt64.ofNat (UInt64.size - 1)

/-- The wait after the `n`-th failure in a row. -/
def delay (p : RetryPolicy) (n : UInt32) : Duration :=
  min (.seconds (saturatingMul n.toUInt64 n.toUInt64).toNat) p.maxDelay

/-- Whether to connect again after `failures` failures in a row. -/
def shouldRetry (p : RetryPolicy) (failures : UInt32) : Bool :=
  failures < p.maxAttempts

theorem toNat_saturatingMul (n : UInt32) :
    (saturatingMul n.toUInt64 n.toUInt64).toNat = n.toNat * n.toNat := by
  have h : n.toNat * n.toNat < UInt64.size := by
    have := n.toNat_lt
    calc n.toNat * n.toNat ≤ (2 ^ 32 - 1) * (2 ^ 32 - 1) := Nat.mul_le_mul (by omega) (by omega)
      _ < UInt64.size := by decide
  have hw : n.toUInt64.toNat = n.toNat := UInt32.toNat_toUInt64 n
  rw [saturatingMul, hw, if_pos h, UInt64.toNat_mul, hw, Nat.mod_eq_of_lt h]

/-- The wait is the square of the number of failures, in seconds, or the limit, whichever is
less. -/
theorem delay_eq (p : RetryPolicy) (n : UInt32) :
    p.delay n = min (.seconds (n.toNat * n.toNat)) p.maxDelay := by
  rw [delay, toNat_saturatingMul]

/-- The wait does not get shorter as failures go on. -/
theorem delay_mono (p : RetryPolicy) {m n : UInt32} (h : m ≤ n) : p.delay m ≤ p.delay n := by
  rw [delay_eq, delay_eq, Duration.le_iff, Duration.nanos_min, Duration.nanos_min,
    Duration.nanos_seconds, Duration.nanos_seconds]
  have := Nat.mul_le_mul (UInt32.le_iff_toNat_le.1 h) (UInt32.le_iff_toNat_le.1 h)
  omega

/-- The wait is never longer than the limit. -/
theorem delay_le (p : RetryPolicy) (n : UInt32) : p.delay n ≤ p.maxDelay := by
  rw [delay_eq, Duration.le_iff, Duration.nanos_min]
  exact Nat.min_le_right _ _

/-- The diagnostic text. -/
def describe (p : RetryPolicy) : String :=
  "RetryPolicy \x7b max_attempts: " ++ toString p.maxAttempts.toNat ++ ", max_delay: "
    ++ Text.duration p.maxDelay ++ " \x7d"

end RetryPolicy

end ParticleLedger
