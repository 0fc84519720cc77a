import ParticleLedger.Proofs.Submission.History
import ParticleLedger.Proofs.Submission.Reader

/-!
# A tracker and its readers

The tracker of a submission records updates in a watch channel and drops the channel when it has
finished. Readers come at any time. The steps of the tracker and those of the readers' calls are taken
in any order (`TrackedSubmission.step`).

Main statements: `TrackedSubmission.Sound.step` (what every step keeps), `submission_run` (the channel
holds the history that the tracker records), `Pursues.run` (a call gets on, whatever happens in
between), `look_ask_eq_next` (a call that nothing comes between) and `readers_exact`.
-/

namespace ParticleLedger

/-! ## The tracker and its readers -/

/-- The update that a submission records when something happens. -/
def Submission.recorded? (s : Submission) (e : TrackerEvent) : Option SubmissionUpdate :=
  (s.handle e).history[s.history.length]?

/-- A submission whose history is kept in a watch channel. -/
structure TrackedSubmission (w : WatchChannel (List SubmissionUpdate)) where
  atom : AtomId
  phase : TrackerPhase
  shared : w.Shared
  /-- What the receiver remembers that new readers are copied from. -/
  mark : w.Mark
  readers : List (HistoryReader w)

/-- What can happen. -/
inductive ReadingMove where
  /-- The tracker meets something. -/
  | meet (e : TrackerEvent)
  /-- The tracker, having finished, drops the channel. -/
  | leave
  /-- A reader comes. -/
  | enter
  | act (i : Nat) (a : ReaderAct)
  deriving DecidableEq

namespace TrackedSubmission

variable {w : WatchChannel (List SubmissionUpdate)}

def start (w : WatchChannel (List SubmissionUpdate)) (atom : AtomId) : TrackedSubmission w :=
  let channel := w.create (Submission.start atom).history
  ⟨atom, .handingOver, channel.1, channel.2, []⟩

/-- The submission as the tracker has it. -/
def submission (t : TrackedSubmission w) : Submission :=
  ⟨t.atom, w.value t.shared, t.phase⟩

/-- What happens next. Whatever the tracker does to the channel wakes the readers that sleep. -/
def step (t : TrackedSubmission w) : ReadingMove → TrackedSubmission w
  | .meet e =>
    let phase := (t.submission.handle e).phase
    match t.submission.recorded? e with
    | none => { t with phase }
    | some u =>
      { t with
        phase
        shared := w.modify (· ++ [u]) t.shared
        readers := t.readers.map .wake }
  | .leave =>
    if t.phase = .finished then
      { t with shared := w.drop t.shared, readers := t.readers.map .wake }
    else t
  | .enter => { t with readers := t.readers ++ [.fresh t.mark] }
  | .act i a => { t with readers := t.readers.modify i (·.act t.shared a) }

def run (t : TrackedSubmission w) (moves : List ReadingMove) : TrackedSubmission w :=
  moves.foldl step t

end TrackedSubmission

/-- What the tracker meets in some moves. -/
def ReadingMove.event? : ReadingMove → Option TrackerEvent
  | meet e => some e
  | _ => none

/-! ## What a tracker records -/

namespace Submission

variable {s : Submission} {e : TrackerEvent}

/-- The history grows by what is recorded. -/
theorem history_handle_eq (s : Submission) (e : TrackerEvent) :
    (s.handle e).history = s.history ++ (s.recorded? e).toList := by
  unfold recorded? handle
  split
  iterate 3 simp [record]
  · split <;> simp [record]
  iterate 3 simp [record]

theorem closed_eq (s : Submission) : s.closed = endsFinally s.history := by
  unfold closed status endsFinally
  cases s.history.getLast? <;> rfl

theorem recorded?_of_finished (h : s.phase = .finished) : s.recorded? e = none := by
  unfold recorded?
  rw [handle_of_finished h]
  simp

/-- As long as the tracker has not finished, the history does not end with a final update. -/
theorem Sealed.endsFinally_of_running (h : s.Sealed) (hrunning : s.phase ≠ .finished) :
    endsFinally s.history = false := by
  unfold endsFinally
  cases hlast : s.history.getLast? with
  | none => rfl
  | some u => exact h.isTerminal_of_running hrunning (List.mem_of_getLast? hlast)

/-- What finishes a submission is a final update, or the death of the tracker. -/
theorem endsFinally_or_crashed (hrunning : s.phase ≠ .finished)
    (hfinished : (s.handle e).phase = .finished) :
    endsFinally (s.handle e).history ∨ e = .crashed := by
  unfold handle at hfinished ⊢
  split at hfinished
  · contradiction
  · exact .inl (by simp [record, endsFinally_concat, SubmissionStatus.isTerminal])
  · exact .inr rfl
  · next u hphase =>
    by_cases hstatus : u.status = .submitting
    · simp [hstatus, hphase] at hfinished
    · by_cases hterminal : u.status.isTerminal
      · exact .inl (by simp [hstatus, record, endsFinally_concat, hterminal])
      · simp [hstatus, record, hterminal] at hfinished
  · exact .inl (by simp [record, endsFinally_concat, SubmissionStatus.isTerminal])
  · exact .inr rfl
  · exact absurd hfinished hrunning

theorem endsFinally_or_crashed_mem {atom : AtomId} {events : List TrackerEvent}
    (h : ((start atom).handleAll events).phase = .finished) :
    endsFinally ((start atom).handleAll events).history ∨ .crashed ∈ events := by
  induction events using List.reverseRecOn with
  | nil => contradiction
  | append_singleton events e ih =>
    rw [handleAll_append] at h ⊢
    by_cases hbefore : ((start atom).handleAll events).phase = .finished
    · rw [handleAll_of_finished hbefore]
      exact (ih hbefore).imp id (List.mem_append_left _)
    · rcases endsFinally_or_crashed hbefore h with hfinal | rfl
      · exact .inl hfinal
      · exact .inr (by simp)

end Submission

/-! ## What every step keeps of them all -/

/-- What is true of a tracked submission at any time. -/
structure TrackedSubmission.Sound {w : WatchChannel (List SubmissionUpdate)}
    (Knows : w.Shared → w.Mark → Bool → Prop) (t : TrackedSubmission w) : Prop where
  sealed : t.submission.Sealed
  finished : w.dropped t.shared → t.phase = .finished
  known : ∃ seen, Knows t.shared t.mark seen
  reads : ∀ r ∈ t.readers, Reads Knows t.shared r

namespace TrackedSubmission

variable {w : WatchChannel (List SubmissionUpdate)} {Knows : w.Shared → w.Mark → Bool → Prop}
  {t : TrackedSubmission w} {m : ReadingMove} {atom : AtomId}

theorem submission_start (hw : w.Lawful Knows) (atom : AtomId) :
    (start w atom).submission = .start atom := by
  show Submission.mk atom (w.value (w.create _).1) _ = _
  rw [hw.value_create]
  rfl

/-- The history goes through the channel, and is that of the submission. -/
theorem submission_step (hw : w.Lawful Knows) (t : TrackedSubmission w) (m : ReadingMove) :
    (t.step m).submission = t.submission.handleAll m.event?.toList := by
  cases m with
  | meet e =>
    have hhistory := Submission.history_handle_eq t.submission e
    have hatom : (t.submission.handle e).atom = t.atom := Submission.atom_handle _ e
    show (t.step (.meet e)).submission = t.submission.handle e
    rw [step]
    split
    · next hnone =>
      rw [hnone, Option.toList_none, List.append_nil] at hhistory
      cases hhandled : t.submission.handle e
      simp_all [submission]
    · next u hsome =>
      rw [hsome, Option.toList_some] at hhistory
      cases hhandled : t.submission.handle e
      simp_all [submission, hw.value_modify]
  | leave =>
    show (t.step .leave).submission = t.submission
    rw [step]
    split
    · simp [submission, hw.value_drop]
    · rfl
  | enter => rfl
  | act i a => rfl

theorem step_meet_of_none {e : TrackerEvent} (h : t.submission.recorded? e = none) :
    t.step (.meet e) = { t with phase := (t.submission.handle e).phase } := by
  simp [step, h]

theorem step_meet_of_some {e : TrackerEvent} {u : SubmissionUpdate}
    (h : t.submission.recorded? e = some u) :
    t.step (.meet e) =
      { t with
        phase := (t.submission.handle e).phase
        shared := w.modify (· ++ [u]) t.shared
        readers := t.readers.map .wake } := by
  simp [step, h]

/-- What is done with a reader leaves the others alone. -/
theorem getElem?_readers_act (t : TrackedSubmission w) (i j : Nat) (a : ReaderAct) :
    (t.step (.act j a)).readers[i]? =
      t.readers[i]?.map fun r => if j = i then r.act t.shared a else r := by
  rw [step, List.getElem?_modify]
  rfl

theorem length_readers_step (t : TrackedSubmission w) (m : ReadingMove) :
    (t.step m).readers.length = t.readers.length + if m == .enter then 1 else 0 := by
  cases m with
  | meet e =>
    cases h : t.submission.recorded? e with
    | none => simp [step_meet_of_none h]
    | some u => simp [step_meet_of_some h]
  | leave =>
    rw [step]
    split <;> simp
  | enter => simp [step]
  | act i a => simp [step]

namespace Sound

theorem start (hw : w.Lawful Knows) (atom : AtomId) : (start w atom).Sound Knows where
  sealed := by
    rw [submission_start hw]
    exact .start atom
  finished h := by
    rw [TrackedSubmission.start, hw.dropped_create] at h
    contradiction
  known := ⟨true, hw.knows_create _⟩
  reads r hr := absurd hr List.not_mem_nil

/-- While the tracker still records updates, the history is open and the channel is there. -/
theorem open_of_recorded (h : t.Sound Knows) {e : TrackerEvent} {u : SubmissionUpdate}
    (hrecorded : t.submission.recorded? e = some u) :
    endsFinally (w.value t.shared) = false ∧ w.dropped t.shared = false := by
  have hrunning : t.phase ≠ .finished := by
    intro hfinished
    rw [Submission.recorded?_of_finished hfinished] at hrecorded
    contradiction
  refine ⟨h.sealed.endsFinally_of_running hrunning, ?_⟩
  rw [← Bool.not_eq_true]
  exact fun hdropped => hrunning (h.finished hdropped)

theorem step (hw : w.Lawful Knows) (h : t.Sound Knows) (m : ReadingMove) :
    (t.step m).Sound Knows := by
  have hsealed : (t.step m).submission.Sealed := by
    rw [submission_step hw]
    exact h.sealed.handleAll _
  obtain ⟨seen, hknown⟩ := h.known
  cases m with
  | meet e =>
    cases hrecorded : t.submission.recorded? e with
    | none =>
      rw [step_meet_of_none hrecorded] at hsealed ⊢
      refine ⟨hsealed, fun hdropped => ?_, h.known, h.reads⟩
      have hfinished : t.submission.phase = .finished := h.finished hdropped
      show (t.submission.handle e).phase = .finished
      rw [Submission.handle_of_finished hfinished, hfinished]
    | some u =>
      obtain ⟨hopen, hthere⟩ := h.open_of_recorded hrecorded
      rw [step_meet_of_some hrecorded] at hsealed ⊢
      refine ⟨hsealed, fun hdropped => ?_, ⟨false, hw.knows_modify _ hknown⟩, fun r hr => ?_⟩
      · rw [hw.dropped_modify, hthere] at hdropped
        contradiction
      · obtain ⟨q, hq, rfl⟩ := List.mem_map.1 hr
        exact (h.reads q hq).modify hw u hopen hthere
  | leave =>
    rw [TrackedSubmission.step] at hsealed ⊢
    by_cases hfinished : t.phase = .finished
    · rw [if_pos hfinished] at hsealed ⊢
      refine ⟨hsealed, fun _ => hfinished, ⟨seen, hw.knows_drop hknown⟩, fun r hr => ?_⟩
      obtain ⟨q, hq, rfl⟩ := List.mem_map.1 hr
      exact (h.reads q hq).drop hw
    · rw [if_neg hfinished]
      exact h
  | enter =>
    refine ⟨hsealed, h.finished, h.known, fun r hr => ?_⟩
    rcases List.mem_append.1 hr with hr | hr
    · exact h.reads r hr
    · rw [List.mem_singleton.1 hr]
      exact .fresh hknown
  | act i a =>
    refine ⟨hsealed, h.finished, h.known, fun r hr => ?_⟩
    obtain ⟨j, hj⟩ := List.mem_iff_getElem?.1 hr
    rw [getElem?_readers_act] at hj
    obtain ⟨q, hq, rfl⟩ := Option.map_eq_some_iff.1 hj
    have hreads := h.reads q (List.mem_of_getElem? hq)
    by_cases hij : i = j
    · rw [if_pos hij]
      exact hreads.act hw a
    · rw [if_neg hij]
      exact hreads

theorem run (hw : w.Lawful Knows) (h : t.Sound Knows) (moves : List ReadingMove) :
    (t.run moves).Sound Knows := by
  induction moves generalizing t with
  | nil => exact h
  | cons m rest ih => exact ih (h.step hw m)

end Sound

/-- The readers are those who came. -/
theorem length_readers_run (t : TrackedSubmission w) (moves : List ReadingMove) :
    (t.run moves).readers.length = t.readers.length + moves.count .enter := by
  induction moves generalizing t with
  | nil => rfl
  | cons m rest ih =>
    show ((t.step m).run rest).readers.length = _
    rw [ih, List.count_cons, length_readers_step]
    omega

theorem submission_run (hw : w.Lawful Knows) (t : TrackedSubmission w) (moves : List ReadingMove) :
    (t.run moves).submission = t.submission.handleAll (moves.filterMap (·.event?)) := by
  induction moves generalizing t with
  | nil => rfl
  | cons m rest ih =>
    show ((t.step m).run rest).submission = _
    rw [ih, submission_step hw, ← Submission.handleAll_append, List.filterMap_cons]
    cases m.event? <;> rfl

end TrackedSubmission

/-! ## A call gets on, whatever happens in between -/

namespace Pursues

variable {w : WatchChannel (List SubmissionUpdate)} {Knows : w.Shared → w.Mark → Bool → Prop}
  {before : List (Option SubmissionUpdate)} {x : Option SubmissionUpdate} {r : HistoryReader w}
  {n : Nat} {t : TrackedSubmission w} {m : ReadingMove} {i : Nat}

/-- Whatever happens, short of giving the call up, the reader is as close to the answer as before,
and closer if it takes a step. -/
theorem step (hw : w.Lawful Knows) (hsound : t.Sound Knows) (hget : t.readers[i]? = some r)
    (h : Pursues t.shared before x n r) (hstay : m ≠ .act i .abandon) :
    ∃ r', (t.step m).readers[i]? = some r' ∧
      Pursues (t.step m).shared before x (if m = .act i .advance then n - 1 else n) r' := by
  cases m with
  | meet e =>
    rw [if_neg (by simp)]
    cases hrecorded : t.submission.recorded? e with
    | none =>
      rw [TrackedSubmission.step_meet_of_none hrecorded]
      exact ⟨r, hget, h⟩
    | some u =>
      -- What is due stays due while the history grows.
      have hopen := (hsound.open_of_recorded hrecorded).1
      rw [TrackedSubmission.step_meet_of_some hrecorded]
      refine ⟨r.wake, by simp [hget], h.wake fun hdue => ?_⟩
      rw [hw.value_modify]
      exact due_concat hdue hopen u
  | leave =>
    rw [if_neg (by simp), TrackedSubmission.step]
    split
    · refine ⟨r.wake, by simp [hget], h.wake ?_⟩
      rw [hw.value_drop]
      exact id
    · exact ⟨r, hget, h⟩
  | enter =>
    have hlt := (List.getElem?_eq_some_iff.1 hget).1
    rw [if_neg (by simp)]
    exact ⟨r, (List.getElem?_append_left hlt).trans hget, h⟩
  | act j a =>
    have hafter : (t.step (.act j a)).readers[i]? =
        some (if j = i then r.act t.shared a else r) := by
      rw [TrackedSubmission.getElem?_readers_act, hget, Option.map_some]
    refine ⟨_, hafter, ?_⟩
    show Pursues t.shared before x _ _
    by_cases hj : j = i
    · subst hj
      have hr := hsound.reads r (List.mem_of_getElem? hget)
      rw [if_pos rfl]
      cases a with
      | call => simpa using h.call
      | advance => simpa using h.advance hw hr
      | abandon => contradiction
    · simpa [hj] using h

theorem run (hw : w.Lawful Knows) (hsound : t.Sound Knows) (hget : t.readers[i]? = some r)
    (h : Pursues t.shared before x n r) {later : List ReadingMove}
    (hstay : .act i .abandon ∉ later) :
    ∃ r', (t.run later).readers[i]? = some r' ∧
      Pursues (t.run later).shared before x (n - later.count (.act i .advance)) r' := by
  induction later generalizing t n r with
  | nil => exact ⟨r, hget, h⟩
  | cons m rest ih =>
    rw [List.mem_cons, not_or] at hstay
    obtain ⟨q, hq, hnext⟩ := h.step hw hsound hget (Ne.symm hstay.1)
    obtain ⟨r', hr', hlast⟩ := ih (hsound.step hw m) hq hnext hstay.2
    refine ⟨r', hr', ?_⟩
    have hcount : (if m = .act i .advance then n - 1 else n) - rest.count (.act i .advance) =
        n - (m :: rest).count (.act i .advance) := by
      rw [List.count_cons]
      by_cases hm : m = .act i .advance
      · simp only [hm, if_true, beq_self_eq_true]
        omega
      · simp [hm]
    rwa [hcount] at hlast

/-- A call that is under way when something is due, or that begins then, gets to it. -/
theorem run_of_due (hw : w.Lawful Knows) (hsound : t.Sound Knows) (hget : t.readers[i]? = some r)
    (hdue : due (w.value t.shared) r.cursor = some x) {later : List ReadingMove}
    (hbusy : r.stage ≠ .idle ∨ later.head? = some (.act i .call))
    (hstay : .act i .abandon ∉ later) :
    ∃ r', (t.run later).readers[i]? = some r' ∧
      Pursues (t.run later).shared r.returned x (2 - later.count (.act i .advance)) r' := by
  have hr := hsound.reads r (List.mem_of_getElem? hget)
  rcases hbusy with hbusy | hcall
  · exact (of_due hr hdue hbusy).run hw hsound hget hstay
  · obtain ⟨rest, rfl⟩ := List.head?_eq_some_iff.1 hcall
    have hcalled : (t.step (.act i .call)).readers[i]? = some (r.act t.shared .call) := by
      rw [TrackedSubmission.getElem?_readers_act, hget, Option.map_some, if_pos rfl]
    have hnext := (of_due (hr.act hw .call) (by rwa [r.cursor_call]) r.stage_call_ne).run hw
      (hsound.step hw (.act i .call)) hcalled (fun hmem => hstay (List.mem_cons_of_mem _ hmem))
    rw [r.returned_call] at hnext
    rwa [List.count_cons_of_ne (by simp)]

end Pursues

/-! ## A call that nothing comes between -/

/-- A call that nothing comes between answers what the submission says to a reader at this place, if
the channel is dropped once the tracker has finished. -/
theorem look_ask_eq_next {w : WatchChannel (List SubmissionUpdate)}
    {Knows : w.Shared → w.Mark → Bool → Prop} (hw : w.Lawful Knows) {t : TrackedSubmission w}
    {r : HistoryReader w} (h : Reads Knows t.shared r) (hidle : r.stage = .idle)
    (hdropped : w.dropped t.shared ↔ t.phase = .finished) :
    let r' := ((r.act t.shared .call).act t.shared .advance).act t.shared .advance
    r'.cursor = (t.submission.next r.cursor).1 ∧
      match (t.submission.next r.cursor).2 with
      | .ready u => r'.stage = .idle ∧ r'.returned = r.returned ++ [some u]
      | .ended => r'.stage = .idle ∧ r'.returned = r.returned ++ [none]
      | .pending => r'.stage = .asleep ∧ r'.returned = r.returned := by
  let called : HistoryReader w := { r with stage := .looking }
  have hlook : (r.act t.shared .call).act t.shared .advance = called.look t.shared := by
    rw [← HistoryReader.advance_of_looking rfl]
    simp [HistoryReader.act, hidle, called]
  rw [hlook]
  cases hget : (w.value t.shared)[r.cursor]? with
  | some u =>
    rw [HistoryReader.look_of_some (r := called) hget, Submission.next_of_getElem? hget]
    exact ⟨rfl, rfl, rfl⟩
  | none =>
    have hnext : t.submission.next r.cursor =
        (r.cursor, if endsFinally (w.value t.shared) ∨ w.dropped t.shared then .ended
          else .pending) := by
      have hclosed : t.submission.closed = endsFinally (w.value t.shared) :=
        Submission.closed_eq t.submission
      have hphase : t.submission.phase = .finished ↔ w.dropped t.shared := hdropped.symm
      have hend : t.submission.history[r.cursor]? = none := hget
      simp [Submission.next, hend, hclosed, hphase]
    rw [HistoryReader.look_of_none (r := called) hget, hnext]
    by_cases hfinal : endsFinally (w.value t.shared)
    · rw [if_pos hfinal, if_pos (.inl hfinal)]
      exact ⟨rfl, rfl, rfl⟩
    · obtain ⟨seen, hknown⟩ := h.known
      have hseen := hw.changed_of_seen (hw.knows_see hknown)
      rw [if_neg hfinal, HistoryReader.advance_of_asking (.inl rfl), HistoryReader.ask, hseen]
      by_cases hgone : w.dropped t.shared
      · rw [if_pos hgone, if_pos (.inr hgone)]
        exact ⟨rfl, rfl, rfl⟩
      · rw [if_neg hgone, if_neg (by simp [hfinal, hgone])]
        exact ⟨rfl, rfl, rfl⟩

/-! ## The whole of it -/

namespace TrackedSubmission

/-- **Every reader sees the whole history.** Whatever the tracker meets, and however many readers
come, call, are run and give up, in any order: the channel holds the history that the tracker records,
and those who came are its readers. Each has returned the first updates of the history, one by one in
their order, and then nothing any more; and it has been told that there is nothing any more only after
it had returned the whole of a history that ends with a final update, unless the tracker died. A
reader does not sleep while there is something for it to return, and a call of it that is under way,
or that begins, returns that after two more of its steps, whatever happens in between. -/
theorem readers_exact (w : WatchChannel (List SubmissionUpdate))
    (Knows : w.Shared → w.Mark → Bool → Prop) (hw : w.Lawful Knows) (atom : AtomId)
    (moves : List ReadingMove) :
    let t := (start w atom).run moves
    let history := ((Submission.start atom).handleAll (moves.filterMap (·.event?))).history
    w.value t.shared = history ∧ t.readers.length = moves.count .enter ∧
    ∀ (i : Nat) (r : HistoryReader w), t.readers[i]? = some r →
      (∃ n, r.returned = (history.take r.cursor).map some ++ List.replicate n none ∧
        r.cursor ≤ history.length ∧
        (n ≠ 0 → r.cursor = history.length ∧ (endsFinally history ∨ .meet .crashed ∈ moves))) ∧
      ∀ x, due history r.cursor = some x → r.stage ≠ .asleep ∧
        ∀ later : List ReadingMove, r.stage ≠ .idle ∨ later.head? = some (.act i .call) →
          .act i .abandon ∉ later → 2 ≤ later.count (.act i .advance) →
            ∃ r', (t.run later).readers[i]? = some r' ∧ r.returned ++ [x] <+: r'.returned := by
  intro t history
  have hsound : t.Sound Knows := (Sound.start hw atom).run hw moves
  have hsubmission : t.submission =
      (Submission.start atom).handleAll (moves.filterMap (·.event?)) := by
    rw [submission_run hw, submission_start hw]
  have hvalue : w.value t.shared = history := congrArg Submission.history hsubmission
  refine ⟨hvalue, (length_readers_run _ moves).trans (Nat.zero_add _), fun i r hr => ?_⟩
  have hreads := hsound.reads r (List.mem_of_getElem? hr)
  refine ⟨?_, fun x hdue => ⟨fun hasleep => ?_, fun later hbusy hstay htwice => ?_⟩⟩
  · obtain ⟨n, hreturned, hend⟩ := hreads.told
    rw [hvalue] at hreturned hend
    refine ⟨n, hreturned, hvalue ▸ hreads.le_length, fun hn => ⟨(hend hn).1, ?_⟩⟩
    rcases Bool.or_eq_true _ _ ▸ (hend hn).2 with hfinal | hdropped
    · exact .inl hfinal
    · have hfinished : t.submission.phase = .finished := hsound.finished hdropped
      rw [hsubmission] at hfinished
      refine (Submission.endsFinally_or_crashed_mem hfinished).imp id fun hmem => ?_
      obtain ⟨m, hm, hevent⟩ := List.mem_filterMap.1 hmem
      cases m <;> simp_all [ReadingMove.event?]
  · rw [← hvalue] at hdue
    exact (hreads.not_seen_of_due hdue (.inr hasleep)).1 (hreads.asleep hasleep).1
  · rw [← hvalue] at hdue
    obtain ⟨r', hr', hlast⟩ := Pursues.run_of_due hw hsound hr hdue hbusy hstay
    rw [show 2 - later.count (.act i .advance) = 0 by omega] at hlast
    exact ⟨r', hr', hlast.answer⟩

/-- An update that is recorded after a reader has looked and before it asks for a change is what its
call returns. -/
theorem readers_exact_between_look_and_ask :
    let w := WatchChannel.counting (List SubmissionUpdate)
    let submitted : SubmissionUpdate := ⟨.submitted, none⟩
    let t := (start w ⟨⟨Vector.replicate 32 0⟩⟩).run
      [.enter, .act 0 .call, .act 0 .advance, .act 0 .call, .act 0 .advance,
        .meet .accepted, .meet (.reported submitted)]
    let later : List ReadingMove := [.act 0 .advance, .meet .ended, .act 0 .advance]
    w.Lawful WatchChannel.Numbered.Knows ∧
      ∃ r, (t.run later).readers[0]? = some r ∧
        [some ⟨.submitting, none⟩, some submitted] <+: r.returned := by
  intro w submitted t later
  have hw : w.Lawful WatchChannel.Numbered.Knows := WatchChannel.lawful_counting _
  have hnow := (readers_exact w WatchChannel.Numbered.Knows hw ⟨⟨Vector.replicate 32 0⟩⟩
    [.enter, .act 0 .call, .act 0 .advance, .act 0 .call, .act 0 .advance,
      .meet .accepted, .meet (.reported submitted)]).2.2 0
    ⟨(0 : Nat), 1, .asking, [some ⟨.submitting, none⟩]⟩ rfl
  exact ⟨hw, (hnow.2 (some submitted) rfl).2 later (.inl nofun) (by decide) (by decide)⟩

end TrackedSubmission

end ParticleLedger