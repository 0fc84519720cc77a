import ParticleLedger.Feed.Error

/-!
# What can go wrong in a wallet
-/

namespace ParticleLedger

/-- An error of a wallet. -/
inductive WalletError where
  | ledger (cause : LedgerError)
  | feed (cause : FeedError)
  /-- Nobody watches the address. -/
  | unknownAddress (address : Address)
  /-- Event logging could not be set up. -/
  | telemetry (detail : String)
  deriving DecidableEq

/-- The text of an error. -/
def WalletError.message : WalletError → String
  | ledger cause => cause.message
  | feed cause => cause.message
  | unknownAddress address => "Address " ++ address.hex ++ " is not watched"
  | telemetry detail => "Telemetry error: " ++ detail

end ParticleLedger
