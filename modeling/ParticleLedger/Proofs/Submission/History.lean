import Mathlib.Data.List.Induction
import ParticleLedger.Submission.Basic

/-!
# What a submission records

A submitter refuses an atom, or it takes the atom and reports on it, and at some time its reports
may end (`Conduct`). The history of the submission is the hand-over and what `Conduct.recorded`
says of the submitter: the reports up to the first final one, or a final update of the tracker's
own.

A caller who waits for the outcome goes through the history from its beginning (`await`). He may
call at any moment, find no final update and wait, and look again later, any number of times
(`Awaiting`); what he is told in the end depends on the first final update only.

Main statements: `Sealed.handle` (what every event keeps), `handleAll_reported` (what reports add to
a history), `await_eq_outcome` and `history_exact`.
-/

namespace ParticleLedger

namespace Submission

variable {s : Submission} {atom : AtomId} {u : SubmissionUpdate} {e : TrackerEvent}

/-! ## What every event keeps -/

/-- A history says once, at its beginning, that the atom is being submitted, and no update but the
last is final; with a final one the tracker has finished. -/
structure Sealed (s : Submission) : Prop where
  opening : ∃ rest, s.history = ⟨.submitting, none⟩ :: rest ∧ ∀ u ∈ rest, u.status ≠ .submitting
  open_before : ∀ u ∈ s.history.dropLast, u.status.isTerminal = false
  finished : ∀ u ∈ s.history, u.status.isTerminal → s.phase = .finished

namespace Sealed

theorem start (atom : AtomId) : (start atom).Sealed where
  opening := ⟨[], rfl, by simp⟩
  open_before u hu := absurd hu List.not_mem_nil
  finished u hu hterminal := by
    obtain rfl : u = ⟨.submitting, none⟩ := List.mem_singleton.1 hu
    contradiction

/-- Nothing final stands in the history of a tracker that has not finished. -/
theorem isTerminal_of_running (h : s.Sealed) (hrunning : s.phase ≠ .finished) (hu : u ∈ s.history) :
    u.status.isTerminal = false := by
  rw [← Bool.not_eq_true]
  intro hterminal
  exact hrunning (h.finished u hu hterminal)

/-- While the tracker has not finished it may record an update that does not repeat the hand-over,
if it finishes with a final one. -/
theorem record (h : s.Sealed) (hrunning : s.phase ≠ .finished) (hstatus : u.status ≠ .submitting)
    {phase : TrackerPhase} (hphase : u.status.isTerminal → phase = .finished) :
    (s.record u phase).Sealed where
  opening := by
    obtain ⟨rest, heq, hrest⟩ := h.opening
    refine ⟨rest ++ [u], ?_, ?_⟩
    · show s.history ++ [u] = _
      rw [heq, List.cons_append]
    · intro v hv
      rcases List.mem_append.1 hv with hv | hv
      · exact hrest v hv
      · rw [List.mem_singleton.1 hv]
        exact hstatus
  open_before v hv := by
    have hbefore : v ∈ s.history := by simpa [Submission.record] using hv
    exact h.isTerminal_of_running hrunning hbefore
  finished v hv hterminal := by
    rcases List.mem_append.1 hv with hv | hv
    · exact absurd (h.finished v hv hterminal) hrunning
    · rw [List.mem_singleton.1 hv] at hterminal
      exact hphase hterminal

theorem withPhase (h : s.Sealed) (hrunning : s.phase ≠ .finished) (phase : TrackerPhase) :
    ({ s with phase } : Submission).Sealed where
  opening := h.opening
  open_before := h.open_before
  finished u hu hterminal := absurd (h.finished u hu hterminal) hrunning

theorem handle (h : s.Sealed) (e : TrackerEvent) : (s.handle e).Sealed := by
  have hrunning : ∀ {phase : TrackerPhase}, s.phase = phase → phase ≠ .finished →
      s.phase ≠ .finished := fun heq hne => heq ▸ hne
  unfold Submission.handle
  split
  · next hphase => exact h.withPhase (hrunning hphase (by decide)) _
  · next hphase => exact h.record (hrunning hphase (by decide)) (by simp) fun _ => rfl
  · next hphase => exact h.withPhase (hrunning hphase (by decide)) _
  · next u hphase =>
    split
    · exact h
    · next hstatus =>
      refine h.record (hrunning hphase (by decide)) hstatus ?_
      intro hterminal
      rw [if_pos hterminal]
  · next hphase => exact h.record (hrunning hphase (by decide)) (by simp) fun _ => rfl
  · next hphase => exact h.withPhase (hrunning hphase (by decide)) _
  · exact h

theorem handleAll (h : s.Sealed) (events : List TrackerEvent) : (s.handleAll events).Sealed := by
  induction events generalizing s with
  | nil => exact h
  | cons e rest ih => exact ih (h.handle e)

/-- A final update is the last one. -/
theorem getLast?_of_terminal (h : s.Sealed) (hu : u ∈ s.history) (hterminal : u.status.isTerminal) :
    s.history.getLast? = some u := by
  have hne : s.history ≠ [] := List.ne_nil_of_mem hu
  have hsplit : u ∈ s.history.dropLast ++ [s.history.getLast hne] := by
    rwa [List.dropLast_concat_getLast hne]
  rcases List.mem_append.1 hsplit with hbefore | hlast
  · rw [h.open_before u hbefore] at hterminal
    contradiction
  · rw [List.getLast?_eq_some_getLast hne, List.mem_singleton.1 hlast]

end Sealed

theorem handleAll_append (first later : List TrackerEvent) :
    s.handleAll (first ++ later) = (s.handleAll first).handleAll later := by
  simp [handleAll]

theorem handleAll_of_finished (h : s.phase = .finished) (events : List TrackerEvent) :
    s.handleAll events = s := by
  induction events with
  | nil => rfl
  | cons e rest ih =>
    show (s.handle e).handleAll rest = s
    rw [handle_of_finished h, ih]

/-! ## What a submitter makes of a history -/

/-- What a submitter has done so far with the atom that was handed to it. -/
inductive Conduct where
  | silent
  | refusing (cause : FeedError)
  /-- It took the atom and has reported this; more may come. -/
  | reporting (reports : List SubmissionUpdate)
  /-- It took the atom and has reported this; the reports have ended. -/
  | leaving (reports : List SubmissionUpdate)

namespace Conduct

/-- What the tracker has met. -/
def events : Conduct → List TrackerEvent
  | silent => []
  | refusing cause => [.refused cause]
  | reporting reports => .accepted :: reports.map .reported
  | leaving reports => .accepted :: reports.map .reported ++ [.ended]

/-- The reports before the first final one, and this one. -/
def throughFinal (reports : List SubmissionUpdate) : List SubmissionUpdate :=
  reports.takeWhile (!·.status.isTerminal) ++ (reports.find? (·.status.isTerminal)).toList

/-- The reports that do not repeat the hand-over. -/
def news (reports : List SubmissionUpdate) : List SubmissionUpdate :=
  reports.filter (·.status ≠ .submitting)

/-- What the history says after the hand-over: the reports that do not repeat it, up to the first
final one; and if the submitter refused the atom, or left without a final report, the tracker's own
word on that. -/
def recorded : Conduct → List SubmissionUpdate
  | silent => []
  | refusing cause => [⟨.failed, some cause.message⟩]
  | reporting reports => throughFinal (news reports)
  | leaving reports =>
    throughFinal (news reports) ++
      if reports.any (·.status.isTerminal) then []
      else [⟨.unknownError, some "status stream ended before a terminal status"⟩]

end Conduct

open Conduct (throughFinal news)

/-- Reports continue the history of a tracker that follows them up to the first final one, with
which it finishes. -/
theorem handleAll_reported (h : s.phase = .following) (reports : List SubmissionUpdate) :
    s.handleAll (reports.map .reported) =
      { s with
        history := s.history ++ throughFinal (news reports)
        phase := if reports.any (·.status.isTerminal) then .finished else .following } := by
  induction reports generalizing s with
  | nil =>
    cases s
    simp_all [handleAll, news, throughFinal]
  | cons u rest ih =>
    show (s.handle (.reported u)).handleAll (rest.map .reported) = _
    by_cases hstatus : u.status = .submitting
    · have hkept : s.handle (.reported u) = s := by simp [handle, h, hstatus]
      have hopen : SubmissionStatus.submitting.isTerminal = false := rfl
      rw [hkept, ih h]
      simp [news, hstatus, hopen]
    · by_cases hterminal : u.status.isTerminal
      · have hlast : s.handle (.reported u) = s.record u .finished := by
          simp [handle, h, hstatus, hterminal]
        rw [hlast, handleAll_of_finished rfl]
        simp [record, news, throughFinal, hstatus, hterminal]
      · have hnext : s.handle (.reported u) = s.record u .following := by
          simp [handle, h, hstatus, hterminal]
        rw [hnext, ih rfl]
        simp [record, news, throughFinal, hstatus, hterminal]

theorem history_handleAll_events (atom : AtomId) (conduct : Conduct) :
    ((start atom).handleAll conduct.events).history =
      ⟨.submitting, none⟩ :: conduct.recorded := by
  have htaken : ∀ reports : List SubmissionUpdate,
      (start atom).handleAll (.accepted :: reports.map .reported) =
        ⟨atom, ⟨.submitting, none⟩ :: throughFinal (news reports),
          if reports.any (·.status.isTerminal) then .finished else .following⟩ := by
    intro reports
    show ((start atom).handle .accepted).handleAll (reports.map .reported) = _
    rw [handleAll_reported rfl]
    rfl
  cases conduct with
  | silent => rfl
  | refusing cause => rfl
  | reporting reports =>
    rw [Conduct.events, htaken]
    rfl
  | leaving reports =>
    rw [Conduct.events, handleAll_append, htaken]
    show (Submission.handle _ .ended).history = _
    by_cases hterminal : reports.any (·.status.isTerminal)
    · rw [if_pos hterminal, handle_of_finished rfl, Conduct.recorded, if_pos hterminal,
        List.append_nil]
    · rw [if_neg hterminal, Conduct.recorded, if_neg hterminal]
      rfl

/-! ## Waiting for the outcome -/

/-- A reader gets the update at its place, if there is one. -/
theorem next_of_getElem? {cursor : Nat} (h : s.history[cursor]? = some u) :
    s.next cursor = (cursor + 1, .ready u) := by
  simp [next, h]

theorem getElem?_of_next {cursor later : Nat} (h : s.next cursor = (later, .ready u)) :
    s.history[cursor]? = some u ∧ later = cursor + 1 := by
  cases hget : s.history[cursor]? with
  | none =>
    simp only [next, hget, Prod.mk.injEq] at h
    split at h <;> simp_all
  | some v =>
    rw [next_of_getElem? hget] at h
    cases h
    exact ⟨rfl, rfl⟩

theorem getElem?_of_next_ne {cursor later : Nat} {answer : Poll SubmissionUpdate}
    (h : s.next cursor = (later, answer)) (hanswer : ∀ u, answer ≠ .ready u) :
    s.history[cursor]? = none := by
  cases hget : s.history[cursor]? with
  | none => rfl
  | some u =>
    rw [next_of_getElem? hget] at h
    cases h
    exact absurd rfl (hanswer u)

/-- A caller who has looked at `cursor` updates goes on through the history: he passes over updates
that are not final, stops at a final one, and has to wait at the end of a history that is still
open. -/
def await (s : Submission) (cursor : Nat) : Nat × Poll (Except FeedError AtomId) :=
  match _h : s.next cursor with
  | (later, .ready update) =>
    if update.status.isTerminal then (later, .ready (s.verdict update)) else s.await later
  | (later, .pending) => (later, .pending)
  | (later, .ended) => (later, .ready (.error .closed))
  termination_by s.history.length - cursor
  decreasing_by
    obtain ⟨hget, rfl⟩ := getElem?_of_next _h
    have hlt := (List.getElem?_eq_some_iff.1 hget).1
    omega

/-- Every update that the caller has looked at is there and is not final. -/
structure Passed (s : Submission) (cursor : Nat) : Prop where
  le_length : cursor ≤ s.history.length
  open_before : ∀ u ∈ s.history.take cursor, u.status.isTerminal = false

namespace Passed

variable {cursor : Nat}

theorem zero (s : Submission) : s.Passed 0 :=
  ⟨Nat.zero_le _, by simp⟩

theorem succ (h : s.Passed cursor) (hget : s.history[cursor]? = some u)
    (hopen : u.status.isTerminal = false) : s.Passed (cursor + 1) where
  le_length := (List.getElem?_eq_some_iff.1 hget).1
  open_before v hv := by
    rw [List.take_add_one, hget] at hv
    rcases List.mem_append.1 hv with hv | hv
    · exact h.open_before v hv
    · rw [List.mem_singleton.1 hv]
      exact hopen

/-- What was looked at stays as it is while the history grows. -/
theorem handle (h : s.Passed cursor) (e : TrackerEvent) : (s.handle e).Passed cursor := by
  obtain ⟨added, hadded⟩ := history_handle s e
  refine ⟨?_, ?_⟩
  · rw [← hadded, List.length_append]
    exact Nat.le_add_right_of_le h.le_length
  · rw [← hadded, List.take_append_of_le_length h.le_length]
    exact h.open_before

/-- The first final update from the caller's place on is the first of the whole history. -/
theorem find?_of_terminal (h : s.Passed cursor) (hget : s.history[cursor]? = some u)
    (hterminal : u.status.isTerminal) :
    s.history.find? (·.status.isTerminal) = some u := by
  obtain ⟨hlt, rfl⟩ := List.getElem?_eq_some_iff.1 hget
  refine List.find?_eq_some_iff_getElem.2 ⟨hterminal, cursor, hlt, rfl, ?_⟩
  intro j hj
  have hmem : s.history[j] ∈ s.history.take cursor := by
    rw [List.mem_take_iff_getElem]
    exact ⟨j, by omega, rfl⟩
  rw [h.open_before _ hmem]
  rfl

theorem find?_of_end (h : s.Passed cursor) (hget : s.history[cursor]? = none) :
    s.history.find? (·.status.isTerminal) = none := by
  rw [List.find?_eq_none]
  intro u hu
  have htake : s.history.take cursor = s.history :=
    List.take_of_length_le (List.getElem?_eq_none_iff.1 hget)
  rw [h.open_before u (htake.symm ▸ hu)]
  exact Bool.false_ne_true

/-- At the end of an open history a reader has to wait, unless the tracker is gone. -/
theorem next_of_end (h : s.Passed cursor) (hget : s.history[cursor]? = none) :
    s.next cursor = (cursor, if s.phase = .finished then .ended else .pending) := by
  have hclosed : s.closed = false := by
    unfold closed status
    cases hlast : s.history.getLast? with
    | none => rfl
    | some u =>
      have hopen := List.find?_eq_none.1 (h.find?_of_end hget) u (List.mem_of_getLast? hlast)
      exact Bool.not_eq_true _ ▸ hopen
  simp [next, hget, hclosed]

end Passed

/-- Wherever a caller is who has passed over no final update, he learns how the submission came
out, as far as that is known; and as long as it is not known he has passed over no final update. -/
theorem await_eq_outcome {cursor : Nat} (h : s.Passed cursor) :
    (s.await cursor).2 = s.outcome ∧ (s.outcome = .pending → s.Passed (s.await cursor).1) := by
  fun_induction await s cursor with
  | case1 cursor later update hnext hterminal =>
    obtain ⟨hget, rfl⟩ := getElem?_of_next hnext
    have houtcome : s.outcome = .ready (s.verdict update) := by
      rw [outcome, h.find?_of_terminal hget hterminal]
    exact ⟨houtcome.symm, fun hpending => nomatch houtcome.symm.trans hpending⟩
  | case2 cursor later update hnext hopen ih =>
    obtain ⟨hget, rfl⟩ := getElem?_of_next hnext
    exact ih (h.succ hget (by simpa using hopen))
  | case3 cursor later hnext =>
    have hget := getElem?_of_next_ne hnext nofun
    rw [h.next_of_end hget] at hnext
    have hrunning : s.phase ≠ .finished := by
      intro hfinished
      rw [if_pos hfinished] at hnext
      cases hnext
    rw [if_neg hrunning] at hnext
    cases hnext
    have houtcome : s.outcome = .pending := by
      rw [outcome, h.find?_of_end hget]
      exact if_neg hrunning
    exact ⟨houtcome.symm, fun _ => h⟩
  | case4 cursor later hnext =>
    have hget := getElem?_of_next_ne hnext nofun
    rw [h.next_of_end hget] at hnext
    have hfinished : s.phase = .finished := by
      by_contra hrunning
      rw [if_neg hrunning] at hnext
      cases hnext
    have houtcome : s.outcome = .ready (.error .closed) := by
      rw [outcome, h.find?_of_end hget]
      exact if_pos hfinished
    exact ⟨houtcome.symm, fun hpending => nomatch houtcome.symm.trans hpending⟩

/-- A caller's way through the history of a submission while it goes on: what has happened so far,
and how many updates he has looked at. -/
inductive Awaiting (atom : AtomId) : List TrackerEvent → Nat → Prop
  /-- He may call at any time. -/
  | called (events : List TrackerEvent) : Awaiting atom events 0
  | meets {events : List TrackerEvent} {cursor : Nat} (e : TrackerEvent) :
    Awaiting atom events cursor → Awaiting atom (events ++ [e]) cursor
  /-- He goes on through the history, and has to wait. -/
  | asks {events : List TrackerEvent} {cursor later : Nat} :
    Awaiting atom events cursor →
    ((start atom).handleAll events).await cursor = (later, .pending) →
    Awaiting atom events later

theorem Awaiting.passed {events : List TrackerEvent} {cursor : Nat}
    (h : Awaiting atom events cursor) : ((start atom).handleAll events).Passed cursor := by
  induction h with
  | called events => exact .zero _
  | @meets events cursor e _ ih =>
    rw [handleAll_append]
    exact ih.handle e
  | asks _ hwait ih =>
    obtain ⟨hsaid, hpassed⟩ := await_eq_outcome ih
    rw [hwait] at hsaid hpassed
    exact hpassed hsaid.symm

theorem Awaiting.await_eq {events : List TrackerEvent} {cursor : Nat}
    (h : Awaiting atom events cursor) :
    (((start atom).handleAll events).await cursor).2 = ((start atom).handleAll events).outcome :=
  (await_eq_outcome h.passed).1

/-! ## The whole of it -/

theorem atom_handle (s : Submission) (e : TrackerEvent) : (s.handle e).atom = s.atom := by
  unfold handle
  split
  iterate 3 rfl
  · split <;> rfl
  iterate 3 rfl

theorem atom_handleAll (s : Submission) (events : List TrackerEvent) :
    (s.handleAll events).atom = s.atom := by
  induction events generalizing s with
  | nil => rfl
  | cons e rest ih => exact (ih (s.handle e)).trans (atom_handle s e)

/-- What is said to whoever waits once a final update is there. -/
theorem Sealed.outcome_of_terminal (h : s.Sealed) (hu : u ∈ s.history)
    (hterminal : u.status.isTerminal) : s.outcome = .ready (s.verdict u) := by
  obtain ⟨v, hfind⟩ : ∃ v, s.history.find? (·.status.isTerminal) = some v :=
    Option.isSome_iff_exists.1 (List.find?_isSome.2 ⟨u, hu, hterminal⟩)
  have hfinal := List.find?_some hfind
  have hsame := h.getLast?_of_terminal (List.mem_of_find?_eq_some hfind) hfinal
  rw [h.getLast?_of_terminal hu hterminal] at hsame
  cases hsame
  rw [outcome, hfind]

/-- **A history is exact.** Whatever the submitter does, the history is the hand-over followed by
what `Conduct.recorded` says. Whatever the tracker meets, the hand-over stands at the beginning
only and no update but the last is final; and a final update that is there is the latest status,
the history stays as it is from then on, and who waits for the outcome, whenever he called, is told
the atom's id if it was stored and the status and the message of the update if not. -/
theorem history_exact (atom : AtomId) :
    (∀ conduct : Conduct, ((start atom).handleAll conduct.events).history =
      ⟨.submitting, none⟩ :: conduct.recorded) ∧
    ∀ events : List TrackerEvent,
      let s := (start atom).handleAll events
      (∃ rest, s.history = ⟨.submitting, none⟩ :: rest ∧ ∀ u ∈ rest, u.status ≠ .submitting) ∧
      (∀ u ∈ s.history.dropLast, u.status.isTerminal = false) ∧
      ∀ u ∈ s.history, u.status.isTerminal →
        s.history.getLast? = some u ∧ s.status = u.status ∧
        (∀ later, s.handleAll later = s) ∧
        s.outcome = .ready (if u.status = .stored then .ok atom
          else .error (.submission atom u.status (u.message.getD ""))) ∧
        ∀ cursor, Awaiting atom events cursor → (s.await cursor).2 = s.outcome := by
  refine ⟨history_handleAll_events atom, ?_⟩
  intro events s
  have hsealed : s.Sealed := (Sealed.start atom).handleAll events
  refine ⟨hsealed.opening, hsealed.open_before, ?_⟩
  intro u hu hterminal
  have hlast := hsealed.getLast?_of_terminal hu hterminal
  have hatom : s.atom = atom := atom_handleAll (start atom) events
  refine ⟨hlast, ?_, ?_, ?_, ?_⟩
  · simp [status, hlast]
  · exact handleAll_of_finished (hsealed.finished u hu hterminal)
  · rw [hsealed.outcome_of_terminal hu hterminal]
    simp only [verdict, hatom, SubmissionStatus.isStored, decide_eq_true_eq]
  · intro cursor hcaller
    exact hcaller.await_eq

end Submission

end ParticleLedger
