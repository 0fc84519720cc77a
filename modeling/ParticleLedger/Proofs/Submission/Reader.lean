import ParticleLedger.Proofs.Watch
import ParticleLedger.Submission.Status

/-!
# A reader of a history

The history of a submission is kept in a watch channel, and a reader goes through it from the
beginning. A call marks the history as seen and looks at the reader's place in it; if there is nothing
there and the history is open, it asks the channel for a change, and sleeps if there is none. Between
two steps of a call anything may happen, and a call may be given up at any of its steps.

What carries the proofs is `Reads`: a reader that is about to ask for a change, or sleeps, has marked
the history as seen if it has returned all of it, and has not marked it if there is more. So a reader
never sleeps while there is something for it to return.

Main statements: `Reads.act`, `Reads.modify` and `Reads.drop` (what is true of a reader stays true,
whatever it does and whatever is done to the channel) and `Pursues.of_due` with `Pursues.advance` (a
call gets on).
-/

namespace ParticleLedger

/-! ## One reader -/

/-- A reader of a history that is kept in a watch channel. -/
structure HistoryReader (w : WatchChannel (List SubmissionUpdate)) where
  mark : w.Mark
  /-- How many updates have been returned. -/
  cursor : Nat
  stage : CallStage
  /-- What the calls have returned, in order. -/
  returned : List (Option SubmissionUpdate)

/-- Whether the last update of a history is final. -/
def endsFinally (history : List SubmissionUpdate) : Bool :=
  history.getLast?.any (·.status.isTerminal)

theorem endsFinally_concat (history : List SubmissionUpdate) (u : SubmissionUpdate) :
    endsFinally (history ++ [u]) = u.status.isTerminal := by
  simp [endsFinally]

namespace HistoryReader

variable {w : WatchChannel (List SubmissionUpdate)}

/-- A reader that has returned nothing. -/
def fresh (mark : w.Mark) : HistoryReader w :=
  ⟨mark, 0, .idle, []⟩

/-- The call ends. -/
def answer (r : HistoryReader w) (x : Option SubmissionUpdate) : HistoryReader w :=
  { r with stage := .idle, returned := r.returned ++ [x] }

/-- Marks the history as seen and looks at its own place in it. -/
def look (shared : w.Shared) (r : HistoryReader w) : HistoryReader w :=
  let r := { r with mark := w.see shared r.mark }
  match (w.value shared)[r.cursor]? with
  | some u => { r with cursor := r.cursor + 1 }.answer (some u)
  | none =>
    if endsFinally (w.value shared) then r.answer none
    else { r with stage := .asking }

/-- Asks the channel for a change. -/
def ask (shared : w.Shared) (r : HistoryReader w) : HistoryReader w :=
  match w.changed shared r.mark with
  | .ready mark => { r with mark, stage := .looking }
  | .ended => r.answer none
  | .pending => { r with stage := .asleep }

/-- The reader after something was done with it. -/
def act (shared : w.Shared) (r : HistoryReader w) : ReaderAct → HistoryReader w
  | .call => { r with stage := if r.stage = .idle then .looking else r.stage }
  | .advance =>
    match r.stage with
    | .idle => r
    | .looking => r.look shared
    -- A reader that is run although it was not woken asks again.
    | .asking | .asleep => r.ask shared
  | .abandon => { r with stage := .idle }

/-- The channel wakes a reader that sleeps; it will ask again. -/
def wake (r : HistoryReader w) : HistoryReader w :=
  { r with stage := if r.stage = .asleep then .asking else r.stage }

section Steps

variable {shared : w.Shared} {r : HistoryReader w} {u : SubmissionUpdate}

theorem look_of_some (h : (w.value shared)[r.cursor]? = some u) :
    r.look shared =
      { r with mark := w.see shared r.mark, cursor := r.cursor + 1 }.answer (some u) := by
  simp [look, h]

theorem look_of_none (h : (w.value shared)[r.cursor]? = none) :
    r.look shared =
      if endsFinally (w.value shared) then { r with mark := w.see shared r.mark }.answer none
      else { r with mark := w.see shared r.mark, stage := .asking } := by
  simp [look, h]

theorem advance_of_looking (h : r.stage = .looking) :
    r.act shared .advance = r.look shared := by
  simp [act, h]

theorem advance_of_asking (h : r.stage = .asking ∨ r.stage = .asleep) :
    r.act shared .advance = r.ask shared := by
  rcases h with h | h <;> simp [act, h]

end Steps

section Call

variable (r : HistoryReader w) {shared : w.Shared}

@[simp] theorem cursor_call : (r.act shared .call).cursor = r.cursor := rfl

@[simp] theorem returned_call : (r.act shared .call).returned = r.returned := rfl

theorem call_of_busy (h : r.stage ≠ .idle) : r.act shared .call = r := by
  simp [act, h]

/-- After it was called, a call is under way. -/
theorem stage_call_ne : (r.act shared .call).stage ≠ .idle := by
  unfold act
  cases r.stage <;> simp

end Call

section Wake

variable (r : HistoryReader w)

@[simp] theorem mark_wake : r.wake.mark = r.mark := rfl

@[simp] theorem cursor_wake : r.wake.cursor = r.cursor := rfl

@[simp] theorem returned_wake : r.wake.returned = r.returned := rfl

theorem stage_wake_ne : r.wake.stage ≠ .asleep := by
  unfold wake
  cases r.stage <;> simp

theorem asking_or_asleep_of_wake (h : r.wake.stage = .asking) :
    r.stage = .asking ∨ r.stage = .asleep := by
  unfold wake at h
  cases hstage : r.stage <;> simp_all

end Wake

end HistoryReader

/-! ## What every step keeps of a reader -/

/-- What a reader has returned: the first updates of the history, as many as its place says, and then
nothing any more; and it has been told so only at the end of a history that will not go on. -/
def Told (history : List SubmissionUpdate) (ended : Bool) (cursor : Nat)
    (returned : List (Option SubmissionUpdate)) : Prop :=
  ∃ n, returned = (history.take cursor).map some ++ List.replicate n none ∧
    (n ≠ 0 → cursor = history.length ∧ ended)

section Told

variable {history : List SubmissionUpdate} {ended : Bool} {cursor : Nat}
  {returned : List (Option SubmissionUpdate)} {u : SubmissionUpdate}

theorem Told.of_updates : Told history ended cursor ((history.take cursor).map some) :=
  ⟨0, by simp, by simp⟩

/-- Unless the reader is at the end of a history that will not go on, it has returned updates only. -/
theorem Told.eq_updates (h : Told history ended cursor returned)
    (hmore : ¬(cursor = history.length ∧ ended)) : returned = (history.take cursor).map some := by
  obtain ⟨n, rfl, hend⟩ := h
  have hn : n = 0 := Decidable.byContradiction fun hne => hmore (hend hne)
  simp [hn]

theorem Told.next (h : Told history ended cursor returned) (hget : history[cursor]? = some u) :
    Told history ended (cursor + 1) (returned ++ [some u]) := by
  obtain ⟨hlt, -⟩ := List.getElem?_eq_some_iff.1 hget
  have hsplit : (history.take cursor).map some ++ [some u] = (history.take (cursor + 1)).map some := by
    rw [List.take_add_one, hget]
    simp
  rw [h.eq_updates (by omega), hsplit]
  exact .of_updates

theorem Told.nothing (h : Told history ended cursor returned) (hcursor : cursor = history.length)
    (hended : ended) : Told history ended cursor (returned ++ [none]) := by
  obtain ⟨n, rfl, -⟩ := h
  refine ⟨n + 1, ?_, fun _ => ⟨hcursor, hended⟩⟩
  rw [List.append_assoc, List.replicate_succ']

/-- A history that has not ended may go on. -/
theorem Told.grow (h : Told history false cursor returned) (hle : cursor ≤ history.length)
    (ended : Bool) : Told (history ++ [u]) ended cursor returned := by
  have htake : (history ++ [u]).take cursor = history.take cursor :=
    List.take_append_of_le_length hle
  rw [h.eq_updates (by simp), ← htake]
  exact .of_updates

theorem Told.mono (h : Told history ended cursor returned) {ended' : Bool} (hended : ended → ended') :
    Told history ended' cursor returned := by
  obtain ⟨n, rfl, hend⟩ := h
  exact ⟨n, rfl, fun hn => ⟨(hend hn).1, hended (hend hn).2⟩⟩

end Told

/-- What is true of a reader at any time. If it is about to ask for a change, or sleeps, it has marked
the history as seen if it has returned all of it, and has not marked it if there is more. -/
structure Reads {w : WatchChannel (List SubmissionUpdate)} (Knows : w.Shared → w.Mark → Bool → Prop)
    (shared : w.Shared) (r : HistoryReader w) : Prop where
  le_length : r.cursor ≤ (w.value shared).length
  told : Told (w.value shared) (endsFinally (w.value shared) || w.dropped shared) r.cursor r.returned
  known : ∃ seen, Knows shared r.mark seen
  asking : r.stage = .asking ∨ r.stage = .asleep →
    Knows shared r.mark (r.cursor = (w.value shared).length) ∧
      (r.cursor = (w.value shared).length → endsFinally (w.value shared) = false)
  asleep : r.stage = .asleep → r.cursor = (w.value shared).length ∧ w.dropped shared = false

namespace Reads

variable {w : WatchChannel (List SubmissionUpdate)} {Knows : w.Shared → w.Mark → Bool → Prop}
  {shared : w.Shared} {r : HistoryReader w}

theorem fresh {mark : w.Mark} {seen : Bool} (hmark : Knows shared mark seen) :
    Reads Knows shared (.fresh mark) where
  le_length := Nat.zero_le _
  told := ⟨0, by simp [HistoryReader.fresh], by simp⟩
  known := ⟨seen, hmark⟩
  asking h := by simp [HistoryReader.fresh] at h
  asleep h := by simp [HistoryReader.fresh] at h

theorem look (hw : w.Lawful Knows) (h : Reads Knows shared r) :
    Reads Knows shared (r.look shared) := by
  obtain ⟨seen, hknown⟩ := h.known
  have hsee : Knows shared (w.see shared r.mark) true := hw.knows_see hknown
  cases hget : (w.value shared)[r.cursor]? with
  | some u =>
    have hlt := (List.getElem?_eq_some_iff.1 hget).1
    rw [HistoryReader.look_of_some hget]
    exact ⟨hlt, h.told.next hget, ⟨true, hsee⟩, nofun, nofun⟩
  | none =>
    have hend : r.cursor = (w.value shared).length :=
      Nat.le_antisymm h.le_length (List.getElem?_eq_none_iff.1 hget)
    rw [HistoryReader.look_of_none hget]
    split
    · next hfinal =>
      exact ⟨h.le_length, h.told.nothing hend (by simp [hfinal]), ⟨true, hsee⟩, nofun, nofun⟩
    · next hopen =>
      refine ⟨h.le_length, h.told, ⟨true, hsee⟩, fun _ => ⟨?_, fun _ => ?_⟩, nofun⟩
      · simpa [hend] using hsee
      · simpa using hopen

theorem ask (hw : w.Lawful Knows) (h : Reads Knows shared r)
    (hstage : r.stage = .asking ∨ r.stage = .asleep) : Reads Knows shared (r.ask shared) := by
  obtain ⟨hknows, hopen⟩ := h.asking hstage
  unfold HistoryReader.ask
  -- Who has returned everything is told to wait; who has not is sent back to look.
  by_cases hend : r.cursor = (w.value shared).length
  · rw [decide_eq_true hend] at hknows
    rw [hw.changed_of_seen hknows]
    cases hdropped : w.dropped shared with
    | true =>
      exact ⟨h.le_length, h.told.nothing hend (by simp [hdropped]), h.known, nofun, nofun⟩
    | false =>
      refine ⟨h.le_length, h.told, h.known, fun _ => ⟨?_, hopen⟩, fun _ => ⟨hend, hdropped⟩⟩
      simpa [hend] using hknows
  · rw [decide_eq_false hend] at hknows
    rw [hw.changed_of_unseen hknows]
    exact ⟨h.le_length, h.told, ⟨true, hw.knows_see hknows⟩, nofun, nofun⟩

/-- Whatever is done with the reader. -/
theorem act (hw : w.Lawful Knows) (h : Reads Knows shared r) (a : ReaderAct) :
    Reads Knows shared (r.act shared a) := by
  have hidle : ∀ stage, stage = .idle ∨ stage = .looking →
      Reads Knows shared { r with stage } := by
    rintro _ (rfl | rfl) <;> exact ⟨h.le_length, h.told, h.known, nofun, nofun⟩
  cases a with
  | call =>
    by_cases hstage : r.stage = .idle
    · rw [HistoryReader.act, if_pos hstage]
      exact hidle _ (.inr rfl)
    · rwa [r.call_of_busy hstage]
  | advance =>
    cases hstage : r.stage with
    | idle =>
      rw [HistoryReader.act, hstage]
      exact h
    | looking =>
      rw [HistoryReader.advance_of_looking hstage]
      exact h.look hw
    | asking =>
      rw [HistoryReader.advance_of_asking (.inl hstage)]
      exact h.ask hw (.inl hstage)
    | asleep =>
      rw [HistoryReader.advance_of_asking (.inr hstage)]
      exact h.ask hw (.inr hstage)
  | abandon => exact hidle _ (.inl rfl)

/-- The tracker records an update. -/
theorem modify (hw : w.Lawful Knows) (h : Reads Knows shared r) (u : SubmissionUpdate)
    (hopen : endsFinally (w.value shared) = false) (hthere : w.dropped shared = false) :
    Reads Knows (w.modify (· ++ [u]) shared) r.wake := by
  obtain ⟨seen, hknown⟩ := h.known
  have hunseen : Knows (w.modify (· ++ [u]) shared) r.mark false := hw.knows_modify _ hknown
  have hvalue : w.value (w.modify (· ++ [u]) shared) = w.value shared ++ [u] := hw.value_modify _ _
  have hlt : r.cursor < (w.value shared ++ [u]).length := by
    have := h.le_length
    simp only [List.length_append, List.length_singleton]
    omega
  refine ⟨?_, ?_, ⟨false, by simpa using hunseen⟩, fun _ => ?_,
    fun hstage => absurd hstage r.stage_wake_ne⟩
  · rw [hvalue, r.cursor_wake]
    exact Nat.le_of_lt hlt
  · have htold := h.told
    rw [hopen, hthere] at htold
    rw [hvalue, r.cursor_wake, r.returned_wake]
    exact htold.grow h.le_length _
  · rw [hvalue, r.cursor_wake, r.mark_wake, decide_eq_false (Nat.ne_of_lt hlt)]
    exact ⟨hunseen, fun heq => absurd heq (Nat.ne_of_lt hlt)⟩

/-- The tracker drops the channel. -/
theorem drop (hw : w.Lawful Knows) (h : Reads Knows shared r) :
    Reads Knows (w.drop shared) r.wake := by
  obtain ⟨seen, hknown⟩ := h.known
  refine ⟨?_, ?_, ⟨seen, by simpa using hw.knows_drop hknown⟩, fun hstage => ?_,
    fun hstage => absurd hstage r.stage_wake_ne⟩
  · rw [hw.value_drop, r.cursor_wake]
    exact h.le_length
  · rw [hw.value_drop, hw.dropped_drop, r.cursor_wake, r.returned_wake]
    exact h.told.mono (by simp)
  · have hasked := hstage.resolve_right r.stage_wake_ne
    rw [hw.value_drop, r.cursor_wake, r.mark_wake]
    obtain ⟨hknows, hopen⟩ := h.asking (r.asking_or_asleep_of_wake hasked)
    exact ⟨hw.knows_drop hknows, hopen⟩

end Reads

/-! ## A call gets on -/

/-- What the next call of a reader has to return, if that is known already. -/
def due (history : List SubmissionUpdate) (cursor : Nat) : Option (Option SubmissionUpdate) :=
  match history[cursor]? with
  | some u => some (some u)
  | none => if endsFinally history then some none else none

theorem due_concat {history : List SubmissionUpdate} {cursor : Nat} {x : Option SubmissionUpdate}
    (h : due history cursor = some x) (hopen : endsFinally history = false)
    (u : SubmissionUpdate) : due (history ++ [u]) cursor = some x := by
  unfold due at h ⊢
  cases hget : history[cursor]? with
  | none => simp [hget, hopen] at h
  | some v =>
    have hlt := (List.getElem?_eq_some_iff.1 hget).1
    rw [hget] at h
    rw [List.getElem?_append_left hlt, hget]
    exact h

section Pursues

variable {w : WatchChannel (List SubmissionUpdate)} {Knows : w.Shared → w.Mark → Bool → Prop}
  {shared : w.Shared} {before : List (Option SubmissionUpdate)} {x : Option SubmissionUpdate}
  {r : HistoryReader w} {n : Nat}

/-- A reader that had returned `before` when its call began has returned `x` next, or is about to,
after at most `n` more of its steps. -/
inductive Pursues (shared : w.Shared) (before : List (Option SubmissionUpdate))
    (x : Option SubmissionUpdate) : Nat → HistoryReader w → Prop
  | answered {n : Nat} {r : HistoryReader w} (h : before ++ [x] <+: r.returned) :
    Pursues shared before x n r
  | looking {n : Nat} {r : HistoryReader w} (hreturned : r.returned = before)
    (hdue : due (w.value shared) r.cursor = some x) (hstage : r.stage = .looking) :
    Pursues shared before x (n + 1) r
  | asking {n : Nat} {r : HistoryReader w} (hreturned : r.returned = before)
    (hdue : due (w.value shared) r.cursor = some x) (hstage : r.stage = .asking) :
    Pursues shared before x (n + 2) r

theorem HistoryReader.returned_look_prefix (r : HistoryReader w) :
    r.returned <+: (r.look shared).returned := by
  cases hget : (w.value shared)[r.cursor]? with
  | some u =>
    rw [look_of_some hget]
    exact List.prefix_append _ _
  | none =>
    rw [look_of_none hget]
    split
    · exact List.prefix_append _ _
    · exact List.prefix_refl _

theorem HistoryReader.returned_ask_prefix (r : HistoryReader w) :
    r.returned <+: (r.ask shared).returned := by
  unfold ask
  split
  · exact List.prefix_refl _
  · exact List.prefix_append _ _
  · exact List.prefix_refl _

/-- A reader takes back nothing that it has returned. -/
theorem HistoryReader.returned_act (shared : w.Shared) (r : HistoryReader w) (a : ReaderAct) :
    r.returned <+: (r.act shared a).returned := by
  cases a with
  | call => exact List.prefix_refl _
  | abandon => exact List.prefix_refl _
  | advance =>
    cases hstage : r.stage with
    | idle =>
      have hsame : (r.act shared .advance).returned = r.returned := by rw [act, hstage]
      exact hsame ▸ List.prefix_refl _
    | looking =>
      rw [advance_of_looking hstage]
      exact r.returned_look_prefix
    | asking =>
      rw [advance_of_asking (.inl hstage)]
      exact r.returned_ask_prefix
    | asleep =>
      rw [advance_of_asking (.inr hstage)]
      exact r.returned_ask_prefix

/-- Who looks at the history for something that is due finds it. -/
theorem HistoryReader.returned_look (hdue : due (w.value shared) r.cursor = some x) :
    (r.look shared).returned = r.returned ++ [x] := by
  unfold due at hdue
  cases hget : (w.value shared)[r.cursor]? with
  | some u =>
    rw [hget, Option.some_inj] at hdue
    rw [look_of_some hget, ← hdue]
    rfl
  | none =>
    rw [hget] at hdue
    by_cases hfinal : endsFinally (w.value shared)
    · simp only [hfinal, if_true, Option.some_inj] at hdue
      rw [look_of_none hget, if_pos hfinal, ← hdue]
      rfl
    · simp [hfinal] at hdue

/-- A reader does not wait for something that is due. -/
theorem Reads.not_seen_of_due (h : Reads Knows shared r)
    (hdue : due (w.value shared) r.cursor = some x)
    (hstage : r.stage = .asking ∨ r.stage = .asleep) :
    r.cursor ≠ (w.value shared).length ∧ Knows shared r.mark false := by
  obtain ⟨hknows, hopen⟩ := h.asking hstage
  have hmore : r.cursor ≠ (w.value shared).length := by
    intro hend
    have hget : (w.value shared)[r.cursor]? = none := List.getElem?_eq_none (Nat.le_of_eq hend.symm)
    simp [due, hget, hopen hend] at hdue
  rw [decide_eq_false hmore] at hknows
  exact ⟨hmore, hknows⟩

namespace Pursues

/-- A call that is under way when something is due is awake and returns it after two more of its
steps. -/
theorem of_due (h : Reads Knows shared r) (hdue : due (w.value shared) r.cursor = some x)
    (hbusy : r.stage ≠ .idle) : Pursues shared r.returned x 2 r := by
  cases hstage : r.stage with
  | idle => contradiction
  | looking => exact .looking rfl hdue hstage
  | asking => exact .asking rfl hdue hstage
  | asleep =>
    have hmore := (h.not_seen_of_due hdue (.inr hstage)).1
    exact absurd (h.asleep hstage).1 hmore

theorem advance (hw : w.Lawful Knows) (hr : Reads Knows shared r)
    (h : Pursues shared before x n r) :
    Pursues shared before x (n - 1) (r.act shared .advance) := by
  cases h with
  | answered h => exact .answered (h.trans (r.returned_act shared .advance))
  | looking hreturned hdue hstage =>
    apply answered
    have hfound : (r.act shared .advance).returned = before ++ [x] := by
      rw [HistoryReader.advance_of_looking hstage, HistoryReader.returned_look hdue, hreturned]
    exact hfound ▸ List.prefix_refl _
  | asking hreturned hdue hstage =>
    -- The update came after the look, so the history is not marked as seen.
    have hunseen := (hr.not_seen_of_due hdue (.inl hstage)).2
    rw [HistoryReader.advance_of_asking (.inl hstage), HistoryReader.ask,
      hw.changed_of_unseen hunseen]
    exact .looking hreturned hdue rfl

theorem call (h : Pursues shared before x n r) :
    Pursues shared before x n (r.act shared .call) := by
  cases h with
  | answered h => exact .answered (h.trans (r.returned_act shared .call))
  | looking hreturned hdue hstage =>
    rw [r.call_of_busy (by simp [hstage])]
    exact .looking hreturned hdue hstage
  | asking hreturned hdue hstage =>
    rw [r.call_of_busy (by simp [hstage])]
    exact .asking hreturned hdue hstage

theorem wake {shared' : w.Shared} (h : Pursues shared before x n r)
    (hkept : due (w.value shared) r.cursor = some x → due (w.value shared') r.cursor = some x) :
    Pursues shared' before x n r.wake := by
  cases h with
  | answered h => exact .answered h
  | looking hreturned hdue hstage =>
    exact .looking hreturned (hkept hdue) (by simp [HistoryReader.wake, hstage])
  | asking hreturned hdue hstage =>
    exact .asking hreturned (hkept hdue) (by simp [HistoryReader.wake, hstage])

/-- With no step left the answer has been given. -/
theorem answer (h : Pursues shared before x 0 r) : before ++ [x] <+: r.returned := by
  cases h with
  | answered h => exact h

end Pursues

end Pursues

end ParticleLedger
