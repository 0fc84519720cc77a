/-!
# Statuses of a submission

What a node reports about an atom that was handed to it. All statuses but the first two are final.
-/

namespace ParticleLedger

/-- What a node reports about a submitted atom. -/
inductive SubmissionStatus where
  /-- Handed to the node. -/
  | submitting
  /-- Taken by the node and not yet stored. -/
  | submitted
  | stored
  | failed
  /-- It spends a coin that another atom has spent. -/
  | collision
  /-- It is malformed or badly signed. -/
  | validationError
  | illegalState
  | unsuitablePeer
  | unknownError
  deriving DecidableEq

namespace SubmissionStatus

/-- Every status. -/
def all : List SubmissionStatus :=
  [submitting, submitted, stored, failed, collision, validationError, illegalState,
    unsuitablePeer, unknownError]

/-- Whether the status ends the submission. -/
def isTerminal : SubmissionStatus → Bool
  | submitting | submitted => false
  | _ => true

/-- Whether the atom got into the ledger. -/
def isStored (s : SubmissionStatus) : Bool :=
  s = stored

/-- The text of a status. -/
def text : SubmissionStatus → String
  | submitting => "SUBMITTING"
  | submitted => "SUBMITTED"
  | stored => "STORED"
  | failed => "FAILED"
  | collision => "COLLISION"
  | validationError => "VALIDATION_ERROR"
  | illegalState => "ILLEGAL_STATE"
  | unsuitablePeer => "UNSUITABLE_PEER"
  | unknownError => "UNKNOWN_ERROR"

/-- The status with a text. -/
def ofText? (s : String) : Option SubmissionStatus :=
  all.find? (·.text = s)

theorem ofText?_text (s : SubmissionStatus) : ofText? s.text = some s := by
  cases s <;> decide

end SubmissionStatus

/-- One report. -/
structure SubmissionUpdate where
  status : SubmissionStatus
  message : Option String
  deriving DecidableEq

end ParticleLedger
