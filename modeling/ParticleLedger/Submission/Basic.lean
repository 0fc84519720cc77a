import ParticleLedger.Feed.Error
import ParticleLedger.Poll

/-!
# Submissions

A submission records what a node reports about one atom. Its history begins with the hand-over, goes
on with the reports as they come, and closes with the first final one; if no final report comes, the
tracker adds one of its own. Readers go through the history from its beginning, whenever they start.

Main statements: `Submission.history_handle` (a history only grows) and
`Submission.handle_of_finished` (a submission that has finished stays as it is).
-/

namespace ParticleLedger

/-- How far the tracker of a submission is. -/
inductive TrackerPhase where
  /-- The atom is being handed over. -/
  | handingOver
  /-- The reports of the node are read. -/
  | following
  | finished
  deriving DecidableEq

/-- What a tracker can meet. -/
inductive TrackerEvent where
  /-- The submitter took the atom. -/
  | accepted
  /-- The submitter did not take the atom. -/
  | refused (cause : FeedError)
  | reported (update : SubmissionUpdate)
  /-- The reports end. -/
  | ended
  /-- The tracker dies without a word. -/
  | crashed
  deriving DecidableEq

/-- One atom on its way to the ledger. -/
structure Submission where
  atom : AtomId
  history : List SubmissionUpdate
  phase : TrackerPhase
  deriving DecidableEq

namespace Submission

/-- A submission that is about to hand over its atom. -/
def start (atom : AtomId) : Submission :=
  ⟨atom, [⟨.submitting, none⟩], .handingOver⟩

/-- Adds an update to the history. -/
def record (s : Submission) (update : SubmissionUpdate) (phase : TrackerPhase) : Submission :=
  { s with history := s.history ++ [update], phase }

/-- The submission after something happened. That the atom is being submitted is in every history
from the beginning, so reports that say so are passed over. Events that cannot happen change
nothing. -/
def handle (s : Submission) (e : TrackerEvent) : Submission :=
  match s.phase, e with
  | .handingOver, .accepted => { s with phase := .following }
  | .handingOver, .refused cause => s.record ⟨.failed, some cause.message⟩ .finished
  | .handingOver, .crashed => { s with phase := .finished }
  | .following, .reported update =>
    -- Passed over here, so that the history says it once.
    if update.status = .submitting then s
    else s.record update (if update.status.isTerminal then .finished else .following)
  | .following, .ended =>
    s.record ⟨.unknownError, some "status stream ended before a terminal status"⟩ .finished
  | .following, .crashed => { s with phase := .finished }
  | _, _ => s

/-- The submission after some events. -/
def handleAll (s : Submission) (events : List TrackerEvent) : Submission :=
  events.foldl handle s

/-- The latest status. -/
def status (s : Submission) : SubmissionStatus :=
  (s.history.getLast?.map (·.status)).getD .submitting

/-- Whether the history has been closed by a final status. -/
def closed (s : Submission) : Bool :=
  s.status.isTerminal

/-- A reader that has returned `cursor` updates asks for the next. -/
def next (s : Submission) (cursor : Nat) : Nat × Poll SubmissionUpdate :=
  match s.history[cursor]? with
  | some update => (cursor + 1, .ready update)
  | none => (cursor, if s.closed || s.phase = .finished then .ended else .pending)

/-- What a final update says about the atom. -/
def verdict (s : Submission) (update : SubmissionUpdate) : Except FeedError AtomId :=
  if update.status.isStored then .ok s.atom
  else .error (.submission s.atom update.status (update.message.getD ""))

/-- How the submission came out, if that is known. -/
def outcome (s : Submission) : Poll (Except FeedError AtomId) :=
  match s.history.find? (·.status.isTerminal) with
  | some update => .ready (s.verdict update)
  | none => if s.phase = .finished then .ready (.error .closed) else .pending

/-- A history only grows. -/
theorem history_handle (s : Submission) (e : TrackerEvent) :
    s.history <+: (s.handle e).history := by
  unfold handle
  split
  · exact List.prefix_refl _
  · exact List.prefix_append _ _
  · exact List.prefix_refl _
  · split
    · exact List.prefix_refl _
    · exact List.prefix_append _ _
  · exact List.prefix_append _ _
  · exact List.prefix_refl _
  · exact List.prefix_refl _

/-- A submission that has finished stays as it is. -/
theorem handle_of_finished {s : Submission} (h : s.phase = .finished) (e : TrackerEvent) :
    s.handle e = s := by
  unfold handle
  split <;> simp_all

end Submission

/-! ## A node played by hand -/

/-- A submission whose reports are put into a line before the tracker reads them. -/
structure SubmissionSession where
  submission : Submission
  /-- What the submitter answers when the atom is handed over. -/
  answer : TrackerEvent
  queue : List SubmissionUpdate
  /-- Whether more reports may come. -/
  more : Bool

namespace SubmissionSession

/-- A session that begins. -/
def start (atom : AtomId) (answer : TrackerEvent) : SubmissionSession :=
  ⟨.start atom, answer, [], true⟩

/-- Whether a report can be put: the line is open and its reader, if there has been one, is there
still. -/
def accepts (s : SubmissionSession) : Bool :=
  s.more && (s.answer ≠ .accepted || s.submission.phase ≠ .finished)

/-- Puts a report. -/
def put (s : SubmissionSession) (update : SubmissionUpdate) : SubmissionSession :=
  if s.accepts then { s with queue := s.queue ++ [update] } else s

/-- No more reports. -/
def hangUp (s : SubmissionSession) : SubmissionSession :=
  { s with more := false }

/-- Lets the tracker do all that it can. -/
def settle (s : SubmissionSession) : SubmissionSession :=
  let handed := s.submission.handle s.answer
  if handed.phase = .following then
    let followed := handed.handleAll (s.queue.map .reported)
    { s with submission := if s.more then followed else followed.handle .ended, queue := [] }
  else { s with submission := handed }

end SubmissionSession

end ParticleLedger
