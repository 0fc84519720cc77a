import ParticleLedger.Error
import ParticleLedger.Feed.Retry

/-!
# Configuration

What can be set about a client: the name under which it reports itself, the debounce window of its
published states, and how its feeds connect again.
-/

namespace ParticleLedger

/-- How states are published. -/
structure ReducerConfig where
  /-- The debounce window in milliseconds. -/
  debounceMs : UInt64
  deriving DecidableEq

/-- How feeds connect again. -/
structure DeliveryConfig where
  maxRetryAttempts : UInt32
  maxRetryDelaySecs : UInt64
  deriving DecidableEq

/-- A configuration. -/
structure Config where
  serviceName : String
  serviceVersion : String
  reducer : ReducerConfig
  delivery : DeliveryConfig
  deriving DecidableEq

namespace Config

/-- What holds where nothing is set. -/
def standard : Config where
  serviceName := "radix-ledger-client"
  serviceVersion := "0.1.0"
  reducer := ⟨1000⟩
  delivery := ⟨10, 100⟩

/-- The debounce window in milliseconds. -/
def debounce (c : Config) : Nat :=
  c.reducer.debounceMs.toNat

/-- The retry policy of the feeds. -/
def retryPolicy (c : Config) : RetryPolicy :=
  ⟨c.delivery.maxRetryAttempts, .seconds c.delivery.maxRetryDelaySecs.toNat⟩

end Config

end ParticleLedger
