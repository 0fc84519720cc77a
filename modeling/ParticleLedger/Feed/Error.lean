import ParticleLedger.Error
import ParticleLedger.Submission.Status

/-!
# What can go wrong in feeds and submissions
-/

namespace ParticleLedger

/-- An error of a feed or of a submission. -/
inductive FeedError where
  /-- A connection or a stream failed. -/
  | transport (detail : String)
  /-- The feed gave up connecting. -/
  | retriesExhausted (attempts : UInt32) (last : String)
  /-- The node refused the atom. -/
  | submission (atom : AtomId) (status : SubmissionStatus) (detail : String)
  /-- A stream ended without a final answer. -/
  | closed
  | ledger (cause : LedgerError)
  deriving DecidableEq

/-- The text of an error. -/
def FeedError.message : FeedError → String
  | transport detail => "Transport error: " ++ detail
  | retriesExhausted attempts last =>
    "Transport failed after " ++ toString attempts.toNat ++ " attempts: " ++ last
  | submission atom status detail =>
    "Submission of atom " ++ atom.hex ++ " ended with " ++ status.text ++ ": " ++ detail
  | closed => "Stream closed"
  | ledger cause => cause.message

end ParticleLedger
