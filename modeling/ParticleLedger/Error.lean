import ParticleLedger.Token

/-!
# What can go wrong in the ledger core

An error is a cause; its wording is in one place, `LedgerError.message`. The causes that carry only
a text are those that come from outside the library.
-/

namespace ParticleLedger

/-- A state that no correct feed of atoms produces. -/
inductive Violation where
  /-- Two atoms wait for one particle, which only one of them can spend. -/
  | contendedParticle (blocked atom : AtomId) (particle : ParticleId)
  /-- An atom creates a particle that is there already. -/
  | recreatedParticle (atom : AtomId) (particle : ParticleId)
  /-- The observer of the address stopped at an earlier violation. -/
  | halted (address : Address) (reason : Violation)
  | reported (detail : String)
  deriving DecidableEq

/-- Why a transfer cannot be built. -/
inductive TransferFault where
  | zeroAmount
  /-- What is created and what is spent of the token differ. -/
  | unbalanced (token : TokenRef) (delta : Int)
  | reported (detail : String)
  deriving DecidableEq

/-- Why an atom is not valid. -/
inductive ValidationFault where
  | noTimestamp (atom : AtomId)
  | reported (detail : String)
  deriving DecidableEq

/-- Why signatures do not authorise an atom. -/
inductive AuthorizationFault where
  | missing (atom : AtomId) (owner : PublicKey)
  | invalid (atom : AtomId) (owner : PublicKey)
  /-- A signature was refused by the scheme. -/
  | refused (fault : SignatureFault)
  | reported (detail : String)
  deriving DecidableEq

/-- Why a configuration is refused. -/
inductive ConfigFault where
  /-- A setting is not a number of its range. -/
  | notANumber (name value : String)
  /-- A document is not a configuration. -/
  | malformed
  | reported (detail : String)
  deriving DecidableEq

/-- An error of the ledger core. -/
inductive LedgerError where
  | consistencyViolation (cause : Violation)
  | insufficientFunds (available requested : UInt64)
  | invalidTransfer (cause : TransferFault)
  | validation (cause : ValidationFault)
  | signature (cause : AuthorizationFault)
  | encoding (detail : String)
  | config (cause : ConfigFault)
  | io (detail : String)
  deriving DecidableEq

/-! ## Wording -/

def Violation.message : Violation → String
  | contendedParticle blocked atom particle =>
    "atoms " ++ blocked.hex ++ " and " ++ atom.hex ++ " both wait on particle " ++ particle.hex
  | recreatedParticle atom particle =>
    "atom " ++ atom.hex ++ " creates particle " ++ particle.hex ++ " which already exists"
  | halted address reason =>
    "reconciler for " ++ address.hex ++ " halted: Consistency violation: " ++ reason.message
  | reported detail => detail

def TransferFault.message : TransferFault → String
  | zeroAmount => "amount must be positive"
  | unbalanced token delta =>
    "transfer of " ++ token.display ++ " does not conserve value (delta " ++ toString delta ++ ")"
  | reported detail => detail

def ValidationFault.message : ValidationFault → String
  | noTimestamp atom => "atom " ++ atom.hex ++ " has no timestamp"
  | reported detail => detail

def AuthorizationFault.message : AuthorizationFault → String
  | missing atom owner => "atom " ++ atom.hex ++ " missing signature from " ++ owner.hex
  | invalid atom owner => "atom " ++ atom.hex ++ " has invalid signature from " ++ owner.hex
  | refused fault => "Verification failed: signature error: " ++ fault.message
  | reported detail => detail

def ConfigFault.message : ConfigFault → String
  | notANumber name value => name ++ " is not a valid number: " ++ value
  | malformed => "invalid document"
  | reported detail => detail

namespace LedgerError

/-- The text of an error. -/
def message : LedgerError → String
  | consistencyViolation cause => "Consistency violation: " ++ cause.message
  | insufficientFunds available requested =>
    "Insufficient funds: requested " ++ toString requested.toNat ++ " but only "
      ++ toString available.toNat ++ " available"
  | invalidTransfer cause => "Invalid transfer: " ++ cause.message
  | validation cause => "Validation error: " ++ cause.message
  | signature cause => "Signature verification failed: " ++ cause.message
  | encoding detail => "Encoding error: " ++ detail
  | config cause => "Configuration error: " ++ cause.message
  | io detail => "IO error: " ++ detail

/-- Whether the observer that met the error cannot go on. -/
def isFatal : LedgerError → Bool
  | consistencyViolation _ => true
  | _ => false

end LedgerError

end ParticleLedger
