import ParticleLedger.Wallet.Error

/-!
# Event logging

A process has one place to which events are logged. It is set up once; a second attempt fails and
leaves the first in force.
-/

namespace ParticleLedger

/-- Whether event logging has been set up, and for which service. -/
structure Telemetry where
  service : Option String

namespace Telemetry

/-- Sets up event logging for a service. -/
def init (t : Telemetry) (service : String) : Except WalletError Telemetry :=
  match t.service with
  | none => .ok ⟨some service⟩
  | some _ => .error (.telemetry "a global default trace dispatcher has already been set")

end Telemetry

end ParticleLedger
