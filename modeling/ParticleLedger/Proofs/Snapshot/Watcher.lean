import ParticleLedger.Proofs.Watch
import ParticleLedger.Snapshot.Published

/-!
# A reader of snapshots that waits

The snapshot published last is kept in a watch channel. The first call of a reader looks at what the
channel keeps, and returns it if there is anything; every other call, and the first one if there was
nothing, asks the channel for a change before it looks, and sleeps if there is none. Between two steps
of a call anything may happen. A call may be given up where it waits, but not between being told of a
change and looking.

What carries the proofs is `Watches`: unless it is about to look, a reader has marked what the channel
keeps as seen exactly if it has returned it. So a reader returns no snapshot twice, and does not sleep
while there is a newer one.

Main statements: `Watches.act`, `Watches.modify` and `Watches.drop` (what is true of a reader stays
true), `Nears.of_due` with `Nears.advance` (a call gets on) and `uninterrupted_eq_next`.
-/

namespace ParticleLedger

/-! ## Snapshots -/

/-- A snapshot as it is shared: its readers hold the same one, known by its number. -/
structure Snapshot (State : Type) where
  number : Nat
  state : State
  deriving DecidableEq

/-- The number of a snapshot that there may be; no snapshot has the number 0. -/
def Snapshot.numberOf {State : Type} (s : Option (Snapshot State)) : Nat :=
  s.elim 0 Snapshot.number

/-- What a publisher shows, with its number. -/
def Published.snapshot? {State : Type} (p : Published State) : Option (Snapshot State) :=
  p.latest.map (⟨p.version, ·⟩)

open Snapshot (numberOf)

/-! ## One reader -/

/-- A reader of snapshots that are kept in a watch channel. -/
structure SnapshotWatcher {State : Type} (w : WatchChannel (Option (Snapshot State))) where
  mark : w.Mark
  /-- Whether a call was ever begun. -/
  asked : Bool
  stage : CallStage
  /-- What the calls have returned, in order. -/
  returned : List (Option (Snapshot State))

namespace SnapshotWatcher

variable {State : Type} {w : WatchChannel (Option (Snapshot State))}

/-- A reader that has not asked yet. -/
def fresh (mark : w.Mark) : SnapshotWatcher w :=
  ⟨mark, false, .idle, []⟩

/-- The snapshots that have been returned. -/
def found (r : SnapshotWatcher w) : List (Snapshot State) :=
  r.returned.filterMap id

/-- The number of the snapshot returned last. -/
def last (r : SnapshotWatcher w) : Nat :=
  numberOf r.found.getLast?

/-- The call ends. -/
def answer (r : SnapshotWatcher w) (x : Option (Snapshot State)) : SnapshotWatcher w :=
  { r with stage := .idle, returned := r.returned ++ [x] }

/-- Marks what the channel keeps as seen, and returns it if there is anything. -/
def look (shared : w.Shared) (r : SnapshotWatcher w) : SnapshotWatcher w :=
  let r := { r with mark := w.see shared r.mark }
  match w.value shared with
  | some s => r.answer (some s)
  | none => { r with stage := .asking }

/-- Asks the channel for a change. -/
def ask (shared : w.Shared) (r : SnapshotWatcher w) : SnapshotWatcher w :=
  match w.changed shared r.mark with
  | .ready mark => { r with mark, stage := .looking }
  | .ended => r.answer none
  | .pending => { r with stage := .asleep }

/-- The reader after something was done with it. -/
def act (shared : w.Shared) (r : SnapshotWatcher w) : ReaderAct → SnapshotWatcher w
  | .call =>
    if r.stage = .idle then
      { r with asked := true, stage := if r.asked then .asking else .looking }
    else r
  | .advance =>
    match r.stage with
    | .idle => r
    | .looking => r.look shared
    -- A reader that is run although it was not woken asks again.
    | .asking | .asleep => r.ask shared
  -- Nothing is waited for before a look, so a call cannot be given up there.
  | .abandon => if r.stage = .looking then r else { r with stage := .idle }

/-- The channel wakes a reader that sleeps; it will ask again. -/
def wake (r : SnapshotWatcher w) : SnapshotWatcher w :=
  { r with stage := if r.stage = .asleep then .asking else r.stage }

/-- What there is to tell a reader, if anything: the newest snapshot if it has not returned that, and
else that there will be none, once there will be none. -/
def due (r : SnapshotWatcher w) (newest : Option (Snapshot State)) (dropped : Bool) :
    Option (Option (Snapshot State)) :=
  if r.last < numberOf newest then some newest
  else if dropped then some none
  else none

/-- What is left to be told a reader once there will be no newer snapshot, but for that. -/
def missing (r : SnapshotWatcher w) (newest : Option (Snapshot State)) :
    List (Option (Snapshot State)) :=
  if r.last < numberOf newest then [newest] else []

section Steps

variable {shared : w.Shared} {r : SnapshotWatcher w} {s : Snapshot State}

@[simp] theorem found_answer_some : (r.answer (some s)).found = r.found ++ [s] := by
  simp [found, answer]

@[simp] theorem found_answer_none : (r.answer none).found = r.found := by
  simp [found, answer]

@[simp] theorem last_answer_some : (r.answer (some s)).last = s.number := by
  simp [last, numberOf]

@[simp] theorem last_answer_none : (r.answer none).last = r.last := by
  simp [last]

theorem eq_of_due {newest : Option (Snapshot State)} {dropped : Bool}
    (h : r.due newest dropped = some (some s)) : newest = some s := by
  unfold due at h
  split at h
  · exact Option.some_inj.1 h
  · split at h <;> simp at h

theorem due_congr {r' : SnapshotWatcher w} (h : r'.returned = r.returned)
    {newest : Option (Snapshot State)} {dropped : Bool} :
    r'.due newest dropped = r.due newest dropped := by
  rw [due, due, last, last, found, found, h]

theorem missing_congr {r' : SnapshotWatcher w} (h : r'.returned = r.returned)
    (newest : Option (Snapshot State)) : r'.missing newest = r.missing newest := by
  rw [missing, missing, last, last, found, found, h]

/-- At the end a reader is told what is missing, and then that there is nothing any more. -/
theorem missing_of_due {r' : SnapshotWatcher w} {newest y : Option (Snapshot State)}
    (hdue : r.due newest true = some y) (h : r'.returned = r.returned ++ [y]) :
    r'.missing newest = [] ∧ (r.missing newest = [y] ∨ (r.missing newest = [] ∧ y = none)) := by
  have hfound : r'.found = r.found ++ y.toList := by
    rw [found, h, List.filterMap_append]
    cases y <;> rfl
  unfold due at hdue
  by_cases hnewer : r.last < numberOf newest
  · rw [if_pos hnewer, Option.some_inj] at hdue
    subst hdue
    have hlast : r'.last = numberOf newest := by
      cases newest with
      | none => contradiction
      | some s => simp [last, hfound, numberOf]
    exact ⟨if_neg (by omega), .inl (if_pos hnewer)⟩
  · rw [if_neg hnewer, if_pos rfl, Option.some_inj] at hdue
    subst hdue
    have hlast : r'.last = r.last := by simp [last, hfound]
    exact ⟨if_neg (by omega), .inr ⟨if_neg hnewer, rfl⟩⟩

theorem asked_answer (x : Option (Snapshot State)) : (r.answer x).asked = r.asked := rfl

/-- The snapshot returned last has the greatest number. -/
theorem le_last (h : r.found.Pairwise (·.number < ·.number)) (hs : s ∈ r.found) :
    s.number ≤ r.last := by
  unfold last
  cases hlast : r.found.getLast? with
  | none =>
    rw [List.getLast?_eq_none_iff.1 hlast] at hs
    contradiction
  | some x =>
    obtain ⟨init, hinit⟩ := List.getLast?_eq_some_iff.1 hlast
    rw [hinit, List.pairwise_append] at h
    rw [hinit] at hs
    rcases List.mem_append.1 hs with hs | hs
    · exact Nat.le_of_lt (h.2.2 s hs x (by simp))
    · rw [List.mem_singleton.1 hs]
      exact Nat.le_refl _

theorem look_of_some (h : w.value shared = some s) :
    r.look shared = { r with mark := w.see shared r.mark }.answer (some s) := by
  simp [look, h]

theorem look_of_none (h : w.value shared = none) :
    r.look shared = { r with mark := w.see shared r.mark, stage := .asking } := by
  simp [look, h]

theorem ask_of_unseen {Knows : w.Shared → w.Mark → Bool → Prop} (hw : w.Lawful Knows)
    (h : Knows shared r.mark false) :
    r.ask shared = { r with mark := w.see shared r.mark, stage := .looking } := by
  simp [ask, hw.changed_of_unseen h]

theorem ask_of_seen {Knows : w.Shared → w.Mark → Bool → Prop} (hw : w.Lawful Knows)
    (h : Knows shared r.mark true) :
    r.ask shared = if w.dropped shared then r.answer none else { r with stage := .asleep } := by
  rw [ask, hw.changed_of_seen h]
  cases w.dropped shared <;> rfl

theorem advance_of_idle (h : r.stage = .idle) : r.act shared .advance = r := by
  simp [act, h]

theorem advance_of_looking (h : r.stage = .looking) : r.act shared .advance = r.look shared := by
  simp [act, h]

theorem advance_of_asking (h : r.stage = .asking ∨ r.stage = .asleep) :
    r.act shared .advance = r.ask shared := by
  rcases h with h | h <;> simp [act, h]

theorem call_of_busy (h : r.stage ≠ .idle) : r.act shared .call = r := by
  simp [act, h]

theorem call_of_idle (h : r.stage = .idle) : r.act shared .call =
    { r with asked := true, stage := if r.asked then .asking else .looking } := by
  simp [act, h]

@[simp] theorem returned_call : (r.act shared .call).returned = r.returned := by
  rw [act]
  split <;> rfl

theorem stage_call_ne : (r.act shared .call).stage ≠ .idle := by
  rw [act]
  split
  · cases r.asked <;> simp
  · assumption

@[simp] theorem mark_wake : r.wake.mark = r.mark := rfl

@[simp] theorem returned_wake : r.wake.returned = r.returned := rfl

@[simp] theorem found_wake : r.wake.found = r.found := rfl

@[simp] theorem last_wake : r.wake.last = r.last := rfl

theorem stage_wake_ne : r.wake.stage ≠ .asleep := by
  unfold wake
  cases r.stage <;> simp

theorem stage_wake_eq_looking_iff : r.wake.stage = .looking ↔ r.stage = .looking := by
  unfold wake
  cases r.stage <;> simp

end Steps

end SnapshotWatcher

/-! ## What every step keeps of a reader -/

/-- What is true of a reader at any time. -/
structure Watches {State : Type} {w : WatchChannel (Option (Snapshot State))}
    (Knows : w.Shared → w.Mark → Bool → Prop) (shared : w.Shared) (r : SnapshotWatcher w) : Prop where
  /-- It has been told that there is nothing any more only at the end, after the last snapshot. -/
  told : ∃ n, r.returned = r.found.map some ++ List.replicate n none ∧
    (n ≠ 0 → w.dropped shared ∧ r.last = numberOf (w.value shared))
  increasing : r.found.Pairwise (·.number < ·.number)
  last_le : r.last ≤ numberOf (w.value shared)
  known : ∃ seen, Knows shared r.mark seen
  marked : r.stage ≠ .looking → Knows shared r.mark (r.last = numberOf (w.value shared))
  looking : r.stage = .looking → w.value shared = none ∨ r.last < numberOf (w.value shared)
  asleep : r.stage = .asleep →
    r.last = numberOf (w.value shared) ∧ w.dropped shared = false
  unasked : r.asked = false → r.found = [] ∧ r.stage = .idle

namespace Watches

variable {State : Type} {w : WatchChannel (Option (Snapshot State))}
  {Knows : w.Shared → w.Mark → Bool → Prop} {shared : w.Shared} {r : SnapshotWatcher w}

/-- A reader comes with the mark of one that has seen nothing. -/
theorem fresh {mark : w.Mark} (hmark : Knows shared mark (0 = numberOf (w.value shared))) :
    Watches Knows shared (.fresh mark) where
  told := ⟨0, by simp [SnapshotWatcher.fresh, SnapshotWatcher.found], by simp⟩
  increasing := .nil
  last_le := Nat.zero_le _
  known := ⟨_, hmark⟩
  marked _ := hmark
  looking := nofun
  asleep := nofun
  unasked _ := ⟨rfl, rfl⟩

/-- Unless all snapshots have been returned and there will be no more, only snapshots have been
returned. -/
theorem returned_eq (h : Watches Knows shared r)
    (hmore : ¬(w.dropped shared ∧ r.last = numberOf (w.value shared))) :
    r.returned = r.found.map some := by
  obtain ⟨n, hreturned, hend⟩ := h.told
  have hn : n = 0 := Decidable.byContradiction fun hne => hmore (hend hne)
  simpa [hn] using hreturned

theorem asked_of_busy (h : Watches Knows shared r) (hbusy : r.stage ≠ .idle) : r.asked ≠ false :=
  fun hnot => hbusy (h.unasked hnot).2

/-- Who looks and finds a snapshot returns it; it is newer than those before. -/
theorem look (hw : w.Lawful Knows) (h : Watches Knows shared r) (hstage : r.stage = .looking) :
    Watches Knows shared (r.look shared) := by
  obtain ⟨seen, hknown⟩ := h.known
  have hsee : Knows shared (w.see shared r.mark) true := hw.knows_see hknown
  have hasked : r.asked ≠ false := h.asked_of_busy (by simp [hstage])
  cases hvalue : w.value shared with
  | some s =>
    have hlt : r.last < s.number := by
      simpa [hvalue, numberOf] using h.looking hstage
    have hnumber : numberOf (w.value shared) = s.number := by rw [hvalue]; rfl
    have hreturned := h.returned_eq fun hend => by omega
    rw [SnapshotWatcher.look_of_some hvalue]
    refine ⟨⟨0, ?_, fun hne => absurd rfl hne⟩, ?_, ?_, ⟨true, hsee⟩, fun _ => ?_, nofun, nofun,
      fun hnot => absurd hnot hasked⟩
    · rw [SnapshotWatcher.found_answer_some, SnapshotWatcher.answer]
      simp only
      rw [hreturned]
      simp [SnapshotWatcher.found]
    · rw [SnapshotWatcher.found_answer_some]
      refine List.pairwise_append.2 ⟨h.increasing, List.pairwise_singleton _ _, fun x hx y hy => ?_⟩
      rw [List.mem_singleton.1 hy]
      exact Nat.lt_of_le_of_lt (r.le_last h.increasing hx) hlt
    · exact Nat.le_of_eq (by rw [SnapshotWatcher.last_answer_some, hnumber])
    · rw [SnapshotWatcher.last_answer_some, hnumber, decide_eq_true rfl]
      exact hsee
  | none =>
    have hzero : r.last = numberOf (w.value shared) := by
      have hle := h.last_le
      rw [hvalue] at hle ⊢
      exact Nat.le_zero.1 hle
    rw [SnapshotWatcher.look_of_none hvalue]
    refine ⟨h.told, h.increasing, h.last_le, ⟨true, hsee⟩, fun _ => ?_, nofun, nofun,
      fun hnot => absurd hnot hasked⟩
    show Knows shared (w.see shared r.mark) (r.last = numberOf (w.value shared))
    rw [decide_eq_true hzero]
    exact hsee

theorem ask (hw : w.Lawful Knows) (h : Watches Knows shared r)
    (hstage : r.stage = .asking ∨ r.stage = .asleep) : Watches Knows shared (r.ask shared) := by
  have hasked : r.asked ≠ false := h.asked_of_busy (by rcases hstage with h | h <;> simp [h])
  have hmarked : Knows shared r.mark (r.last = numberOf (w.value shared)) :=
    h.marked (by rcases hstage with h | h <;> simp [h])
  -- Who has returned the last snapshot is told to wait; who has not is sent to look.
  by_cases hend : r.last = numberOf (w.value shared)
  · rw [decide_eq_true hend] at hmarked
    rw [SnapshotWatcher.ask_of_seen hw hmarked]
    cases hdropped : w.dropped shared with
    | true =>
      obtain ⟨n, hreturned, -⟩ := h.told
      have hlast : (r.answer none).last = numberOf (w.value shared) := by
        rw [SnapshotWatcher.last_answer_none, hend]
      refine ⟨⟨n + 1, ?_, fun _ => ⟨hdropped, hlast⟩⟩, ?_, Nat.le_of_eq hlast, h.known, fun _ => ?_,
        nofun, nofun, fun hnot => absurd hnot hasked⟩
      · show r.returned ++ [none] = (r.answer none).found.map some ++ _
        rw [SnapshotWatcher.found_answer_none, List.replicate_succ', ← List.append_assoc,
          ← hreturned]
      · rw [if_pos rfl, SnapshotWatcher.found_answer_none]
        exact h.increasing
      · rw [if_pos rfl, hlast, decide_eq_true rfl]
        exact hmarked
    | false =>
      refine ⟨h.told, h.increasing, h.last_le, h.known, fun _ => ?_, nofun,
        fun _ => ⟨hend, hdropped⟩, fun hnot => absurd hnot hasked⟩
      show Knows shared r.mark (r.last = numberOf (w.value shared))
      rwa [decide_eq_true hend]
  · rw [decide_eq_false hend] at hmarked
    rw [SnapshotWatcher.ask_of_unseen hw hmarked]
    exact ⟨h.told, h.increasing, h.last_le, ⟨true, hw.knows_see hmarked⟩,
      fun hlooking => absurd rfl hlooking, fun _ => .inr (Nat.lt_of_le_of_ne h.last_le hend),
      nofun, fun hnot => absurd hnot hasked⟩

/-- A reader that returns something returns what there is to tell it. -/
theorem returned_act (hw : w.Lawful Knows) (h : Watches Knows shared r) (x : ReaderAct) :
    (r.act shared x).returned = r.returned ∨
      ∃ y, r.due (w.value shared) (w.dropped shared) = some y ∧
        (r.act shared x).returned = r.returned ++ [y] := by
  have hask (hstage : r.stage = .asking ∨ r.stage = .asleep) :
      (r.ask shared).returned = r.returned ∨
        ∃ y, r.due (w.value shared) (w.dropped shared) = some y ∧
          (r.ask shared).returned = r.returned ++ [y] := by
    have hmarked := h.marked (by rcases hstage with h | h <;> simp [h])
    by_cases hend : r.last = numberOf (w.value shared)
    · rw [decide_eq_true hend] at hmarked
      rw [SnapshotWatcher.ask_of_seen hw hmarked]
      split
      · next hdropped =>
        exact .inr ⟨none, by simp [SnapshotWatcher.due, hend, hdropped], rfl⟩
      · exact .inl rfl
    · rw [decide_eq_false hend] at hmarked
      rw [SnapshotWatcher.ask_of_unseen hw hmarked]
      exact .inl rfl
  cases x with
  | call => exact .inl SnapshotWatcher.returned_call
  | advance =>
    cases hstage : r.stage with
    | idle =>
      rw [SnapshotWatcher.advance_of_idle hstage]
      exact .inl rfl
    | looking =>
      rw [SnapshotWatcher.advance_of_looking hstage]
      cases hvalue : w.value shared with
      | none =>
        rw [SnapshotWatcher.look_of_none hvalue]
        exact .inl rfl
      | some s =>
        have hnewer := (h.looking hstage).resolve_left (by simp [hvalue])
        rw [SnapshotWatcher.look_of_some hvalue]
        rw [hvalue] at hnewer
        exact .inr ⟨some s, if_pos hnewer, rfl⟩
    | asking =>
      rw [SnapshotWatcher.advance_of_asking (.inl hstage)]
      exact hask (.inl hstage)
    | asleep =>
      rw [SnapshotWatcher.advance_of_asking (.inr hstage)]
      exact hask (.inr hstage)
  | abandon =>
    rw [SnapshotWatcher.act]
    split <;> exact .inl rfl

/-- What a reader finds is what the channel keeps at that moment. -/
theorem found_act (hw : w.Lawful Knows) (h : Watches Knows shared r) {x : ReaderAct}
    {s : Snapshot State} (hs : s ∈ (r.act shared x).found) :
    s ∈ r.found ∨ w.value shared = some s := by
  rcases h.returned_act hw x with hsame | ⟨y, hdue, hmore⟩
  · exact .inl (by rwa [SnapshotWatcher.found, hsame] at hs)
  · rw [SnapshotWatcher.found, hmore, List.filterMap_append, List.mem_append] at hs
    refine hs.imp id fun hs => ?_
    obtain ⟨z, hz, hzs⟩ := List.mem_filterMap.1 hs
    obtain rfl := List.mem_singleton.1 hz
    exact SnapshotWatcher.eq_of_due (hdue.trans (congrArg some hzs))

/-- A reader does not sleep while there is something to tell it. -/
theorem due_of_asleep (h : Watches Knows shared r) (hstage : r.stage = .asleep) :
    r.due (w.value shared) (w.dropped shared) = none := by
  obtain ⟨hend, hthere⟩ := h.asleep hstage
  simp [SnapshotWatcher.due, hend, hthere]

/-- Whatever is done with the reader. -/
theorem act (hw : w.Lawful Knows) (h : Watches Knows shared r)
    (hpositive : ∀ s, w.value shared = some s → 0 < s.number) (x : ReaderAct) :
    Watches Knows shared (r.act shared x) := by
  cases x with
  | call =>
    by_cases hstage : r.stage = .idle
    · have hmarked := h.marked (by simp [hstage])
      rw [SnapshotWatcher.call_of_idle hstage]
      cases hasked : r.asked with
      | true =>
        exact ⟨h.told, h.increasing, h.last_le, h.known, fun _ => hmarked, nofun, nofun, nofun⟩
      | false =>
        refine ⟨h.told, h.increasing, h.last_le, h.known, fun _ => hmarked, fun _ => ?_, nofun,
          nofun⟩
        cases hvalue : w.value shared with
        | none => exact .inl rfl
        | some s =>
          have hzero : r.last = 0 := by simp [SnapshotWatcher.last, (h.unasked hasked).1, numberOf]
          refine .inr ?_
          show r.last < s.number
          rw [hzero]
          exact hpositive s hvalue
    · rwa [SnapshotWatcher.call_of_busy hstage]
  | advance =>
    cases hstage : r.stage with
    | idle => rwa [SnapshotWatcher.advance_of_idle hstage]
    | looking =>
      rw [SnapshotWatcher.advance_of_looking hstage]
      exact h.look hw hstage
    | asking =>
      rw [SnapshotWatcher.advance_of_asking (.inl hstage)]
      exact h.ask hw (.inl hstage)
    | asleep =>
      rw [SnapshotWatcher.advance_of_asking (.inr hstage)]
      exact h.ask hw (.inr hstage)
  | abandon =>
    rw [SnapshotWatcher.act]
    split
    · exact h
    · next hstage =>
      exact ⟨h.told, h.increasing, h.last_le, h.known, fun _ => h.marked hstage, nofun, nofun,
        fun hnot => ⟨(h.unasked hnot).1, rfl⟩⟩

/-- A snapshot is published. -/
theorem modify (hw : w.Lawful Knows) (h : Watches Knows shared r) {s : Snapshot State}
    (hnewer : numberOf (w.value shared) < s.number) (hthere : w.dropped shared = false) :
    Watches Knows (w.modify (fun _ => some s) shared) r.wake := by
  obtain ⟨seen, hknown⟩ := h.known
  have hunseen := hw.knows_modify (fun _ => some s) hknown
  have hvalue : numberOf (w.value (w.modify (fun _ => some s) shared)) = s.number := by
    rw [hw.value_modify]
    rfl
  have hlt : r.wake.last < s.number := Nat.lt_of_le_of_lt h.last_le hnewer
  refine ⟨⟨0, ?_, fun hne => absurd rfl hne⟩, h.increasing, ?_, ⟨false, hunseen⟩, fun _ => ?_,
    fun _ => .inr ?_, fun hstage => absurd hstage r.stage_wake_ne, fun hnot => ?_⟩
  · have hreturned := h.returned_eq fun hend => by
      rw [hthere] at hend
      exact Bool.false_ne_true hend.1
    simpa using hreturned
  · rw [hvalue]
    exact Nat.le_of_lt hlt
  · rw [hvalue, decide_eq_false (Nat.ne_of_lt hlt)]
    exact hunseen
  · rwa [hvalue]
  · obtain ⟨hfound, hidle⟩ := h.unasked hnot
    exact ⟨hfound, by simp [SnapshotWatcher.wake, hidle]⟩

/-- The channel is dropped. -/
theorem drop (hw : w.Lawful Knows) (h : Watches Knows shared r) :
    Watches Knows (w.drop shared) r.wake := by
  obtain ⟨seen, hknown⟩ := h.known
  obtain ⟨n, hreturned, hend⟩ := h.told
  refine ⟨⟨n, hreturned, fun hn => ?_⟩, h.increasing, ?_, ⟨seen, hw.knows_drop hknown⟩,
    fun hstage => ?_, fun hstage => ?_, fun hstage => absurd hstage r.stage_wake_ne, fun hnot => ?_⟩
  · rw [hw.value_drop, hw.dropped_drop]
    exact ⟨rfl, (hend hn).2⟩
  · rw [hw.value_drop]
    exact h.last_le
  · rw [hw.value_drop]
    exact hw.knows_drop (h.marked (mt r.stage_wake_eq_looking_iff.2 hstage))
  · rw [hw.value_drop]
    exact h.looking (r.stage_wake_eq_looking_iff.1 hstage)
  · obtain ⟨hfound, hidle⟩ := h.unasked hnot
    exact ⟨hfound, by simp [SnapshotWatcher.wake, hidle]⟩

end Watches

/-! ## A call gets on -/

section Nears

variable {State : Type} {w : WatchChannel (Option (Snapshot State))}
  {Knows : w.Shared → w.Mark → Bool → Prop} {shared : w.Shared} {r : SnapshotWatcher w}
  {before n : Nat}

/-- A reader that had returned `before` answers when its call began has returned another, or is about
to, after at most `n` more of its steps. -/
inductive Nears (shared : w.Shared) (before : Nat) : Nat → SnapshotWatcher w → Prop
  | answered {n : Nat} {r : SnapshotWatcher w} (h : before < r.returned.length) :
    Nears shared before n r
  | looking {n : Nat} {r : SnapshotWatcher w} (hvalue : w.value shared ≠ none)
    (hlength : before ≤ r.returned.length) (hstage : r.stage = .looking) :
    Nears shared before (n + 1) r
  | asking {n : Nat} {r : SnapshotWatcher w} (hnewer : r.last ≠ numberOf (w.value shared))
    (hlength : before ≤ r.returned.length) (hstage : r.stage = .asking) :
    Nears shared before (n + 2) r
  /-- There has been no snapshot and there will be none. -/
  | lookingLate {n : Nat} {r : SnapshotWatcher w} (hvalue : w.value shared = none)
    (hdropped : w.dropped shared) (hlength : before ≤ r.returned.length)
    (hstage : r.stage = .looking) : Nears shared before (n + 2) r
  /-- All snapshots have been returned and there will be no more. -/
  | askingLate {n : Nat} {r : SnapshotWatcher w} (hend : r.last = numberOf (w.value shared))
    (hdropped : w.dropped shared) (hlength : before ≤ r.returned.length)
    (hstage : r.stage = .asking) : Nears shared before (n + 1) r

namespace Nears

/-- A call that is under way when there is something to tell ends after two more of its steps. -/
theorem of_due (h : Watches Knows shared r) (hbusy : r.stage ≠ .idle)
    (hdue : r.due (w.value shared) (w.dropped shared) ≠ none) :
    Nears shared r.returned.length 2 r := by
  have hdue : r.last ≠ numberOf (w.value shared) ∨ w.dropped shared := by
    unfold SnapshotWatcher.due at hdue
    split at hdue
    · next hnewer => exact .inl (Nat.ne_of_lt hnewer)
    · exact .inr (Decidable.byContradiction fun hthere => hdue (if_neg hthere))
  have hle := Nat.le_refl r.returned.length
  cases hstage : r.stage with
  | idle => contradiction
  | looking =>
    cases hvalue : w.value shared with
    | some s => exact .looking (by simp [hvalue]) hle hstage
    | none =>
      have hlast : r.last = numberOf (w.value shared) := by
        have hle := h.last_le
        rw [hvalue] at hle ⊢
        exact Nat.le_zero.1 hle
      exact .lookingLate hvalue (hdue.resolve_left (absurd hlast)) hle hstage
  | asking =>
    by_cases hend : r.last = numberOf (w.value shared)
    · exact .askingLate hend (hdue.resolve_left (absurd hend)) hle hstage
    · exact .asking hend hle hstage
  | asleep =>
    obtain ⟨hend, hthere⟩ := h.asleep hstage
    rcases hdue with hdue | hdue
    · exact absurd hend hdue
    · rw [hthere] at hdue
      contradiction

theorem answer (h : Nears shared before 0 r) : before < r.returned.length := by
  cases h
  assumption

theorem advance (hw : w.Lawful Knows) (hr : Watches Knows shared r)
    (h : Nears shared before n r) : Nears shared before (n - 1) (r.act shared .advance) := by
  cases h with
  | answered h =>
    refine .answered (Nat.lt_of_lt_of_le h ?_)
    rcases hr.returned_act hw .advance with hsame | ⟨y, -, hmore⟩
    · exact Nat.le_of_eq (by rw [hsame])
    · rw [hmore, List.length_append]
      exact Nat.le_add_right _ _
  | looking hvalue hlength hstage =>
    obtain ⟨s, hs⟩ := Option.ne_none_iff_exists'.1 hvalue
    rw [SnapshotWatcher.advance_of_looking hstage, SnapshotWatcher.look_of_some hs]
    exact .answered (by simpa [SnapshotWatcher.answer] using Nat.lt_succ_of_le hlength)
  | asking hnewer hlength hstage =>
    have hunseen := hr.marked (by simp [hstage])
    rw [decide_eq_false hnewer] at hunseen
    rw [SnapshotWatcher.advance_of_asking (.inl hstage), SnapshotWatcher.ask_of_unseen hw hunseen]
    have hvalue : w.value shared ≠ none := fun hnone => by
      have hle := hr.last_le
      rw [hnone] at hnewer hle
      exact hnewer (Nat.le_zero.1 hle)
    exact .looking hvalue hlength rfl
  | lookingLate hvalue hdropped hlength hstage =>
    rw [SnapshotWatcher.advance_of_looking hstage, SnapshotWatcher.look_of_none hvalue]
    have hend : r.last = numberOf (w.value shared) := by
      have hle := hr.last_le
      rw [hvalue] at hle ⊢
      exact Nat.le_zero.1 hle
    exact .askingLate hend hdropped hlength rfl
  | askingLate hend hdropped hlength hstage =>
    have hseen := hr.marked (by simp [hstage])
    rw [decide_eq_true hend] at hseen
    rw [SnapshotWatcher.advance_of_asking (.inl hstage), SnapshotWatcher.ask_of_seen hw hseen,
      if_pos hdropped]
    exact .answered (by simpa [SnapshotWatcher.answer] using Nat.lt_succ_of_le hlength)

theorem call (h : Nears shared before n r) : Nears shared before n (r.act shared .call) := by
  cases h with
  | answered h => exact .answered (by rwa [SnapshotWatcher.returned_call])
  | looking hvalue hlength hstage =>
    rw [SnapshotWatcher.call_of_busy (by simp [hstage])]
    exact .looking hvalue hlength hstage
  | asking hnewer hlength hstage =>
    rw [SnapshotWatcher.call_of_busy (by simp [hstage])]
    exact .asking hnewer hlength hstage
  | lookingLate hvalue hdropped hlength hstage =>
    rw [SnapshotWatcher.call_of_busy (by simp [hstage])]
    exact .lookingLate hvalue hdropped hlength hstage
  | askingLate hend hdropped hlength hstage =>
    rw [SnapshotWatcher.call_of_busy (by simp [hstage])]
    exact .askingLate hend hdropped hlength hstage

/-- Another snapshot is published. -/
theorem modify (hw : w.Lawful Knows) (hr : Watches Knows shared r) (h : Nears shared before n r)
    {s : Snapshot State} (hnewer : numberOf (w.value shared) < s.number)
    (hthere : w.dropped shared = false) :
    Nears (w.modify (fun _ => some s) shared) before n r.wake := by
  have hgone : ¬w.dropped shared := by simp [hthere]
  cases h with
  | answered h => exact .answered h
  | looking _ hlength hstage =>
    exact .looking (by simp [hw.value_modify]) hlength (r.stage_wake_eq_looking_iff.2 hstage)
  | asking _ hlength hstage =>
    refine .asking ?_ hlength (by simp [SnapshotWatcher.wake, hstage])
    have := hr.last_le
    simp only [hw.value_modify, r.last_wake, numberOf, Option.elim_some] at this hnewer ⊢
    omega
  | lookingLate _ hdropped => exact absurd hdropped hgone
  | askingLate _ hdropped => exact absurd hdropped hgone

theorem drop (hw : w.Lawful Knows) (h : Nears shared before n r) :
    Nears (w.drop shared) before n r.wake := by
  have hvalue := hw.value_drop shared
  cases h with
  | answered h => exact .answered h
  | looking hsome hlength hstage =>
    exact .looking (hvalue ▸ hsome) hlength (r.stage_wake_eq_looking_iff.2 hstage)
  | asking hnewer hlength hstage =>
    exact .asking (hvalue ▸ hnewer) hlength (by simp [SnapshotWatcher.wake, hstage])
  | lookingLate hnone _ hlength hstage =>
    exact .lookingLate (hvalue ▸ hnone) (hw.dropped_drop _) hlength
      (r.stage_wake_eq_looking_iff.2 hstage)
  | askingLate hend _ hlength hstage =>
    exact .askingLate (hvalue ▸ hend) (hw.dropped_drop _) hlength
      (by simp [SnapshotWatcher.wake, hstage])

end Nears

end Nears

/-! ## A call that nothing comes between -/

/-- A reader as it is between its calls. -/
def SnapshotWatcher.reader {State : Type} {w : WatchChannel (Option (Snapshot State))}
    (r : SnapshotWatcher w) : SnapshotReader :=
  ⟨r.last, r.asked⟩

/-- That a reader became another by a call with this answer. -/
def SnapshotWatcher.Answered {State : Type} {w : WatchChannel (Option (Snapshot State))}
    (r r' : SnapshotWatcher w) (version : Nat) : Poll State → Prop
  | .ready a => r'.stage = .idle ∧ r'.returned = r.returned ++ [some ⟨version, a⟩]
  | .ended => r'.stage = .idle ∧ r'.returned = r.returned ++ [none]
  | .pending => r'.stage = .asleep ∧ r'.returned = r.returned

section Uninterrupted

variable {State : Type} {w : WatchChannel (Option (Snapshot State))}
  {Knows : w.Shared → w.Mark → Bool → Prop} {shared : w.Shared} {r q : SnapshotWatcher w}
  {p : Published State} {a : State}

/-- Who has returned what the channel keeps and asks is told that there is nothing yet, or nothing any
more. -/
theorem answered_ask (hw : w.Lawful Knows) (hseen : Knows shared q.mark true)
    (hreturned : q.returned = r.returned) :
    (q.ask shared).reader = q.reader ∧
      r.Answered (q.ask shared) p.version (if w.dropped shared then .ended else .pending) := by
  rw [SnapshotWatcher.ask_of_seen hw hseen]
  cases w.dropped shared with
  | true => exact ⟨by simp [SnapshotWatcher.reader, SnapshotWatcher.asked_answer], rfl,
      congrArg (· ++ [none]) hreturned⟩
  | false => exact ⟨rfl, rfl, hreturned⟩

/-- Asking again does not help. -/
theorem advance_ask (hw : w.Lawful Knows) (hseen : Knows shared q.mark true) :
    (q.ask shared).act shared .advance = q.ask shared := by
  rw [SnapshotWatcher.ask_of_seen hw hseen]
  cases hdropped : w.dropped shared with
  | true => exact SnapshotWatcher.advance_of_idle rfl
  | false =>
    rw [if_neg nofun, SnapshotWatcher.advance_of_asking (.inr rfl)]
    exact (SnapshotWatcher.ask_of_seen hw hseen).trans (by rw [hdropped, if_neg nofun])

theorem answered_look (hthere : w.value shared = some ⟨p.version, a⟩) (hasked : q.asked)
    (hreturned : q.returned = r.returned) :
    (q.look shared).reader = ⟨p.version, true⟩ ∧
      r.Answered (q.look shared) p.version (.ready a) := by
  rw [SnapshotWatcher.look_of_some hthere]
  exact ⟨by simp [SnapshotWatcher.reader, SnapshotWatcher.asked_answer, hasked], rfl,
    congrArg (· ++ [_]) hreturned⟩

/-- A call that nothing comes between answers what a published value says to the reader, if the
channel keeps that value and is dropped once nothing will be published any more. -/
theorem uninterrupted_eq_next (hw : w.Lawful Knows) (h : Watches Knows shared r)
    (hidle : r.stage = .idle) (hvalue : w.value shared = p.snapshot?)
    (hdropped : w.dropped shared = p.stopped) :
    let r' := ((r.act shared .call).act shared .advance).act shared .advance
    r'.reader = (r.reader.next p).1 ∧ r.Answered r' p.version (r.reader.next p).2 := by
  have hmarked := h.marked (by simp [hidle])
  have hsame : p.latest = none → r.last = numberOf (w.value shared) := fun hlatest => by
    have hle := h.last_le
    rw [hvalue, Published.snapshot?, hlatest] at hle ⊢
    exact Nat.le_zero.1 hle
  have hthere : ∀ a, p.latest = some a → w.value shared = some ⟨p.version, a⟩ := fun a hlatest => by
    rw [hvalue, Published.snapshot?, hlatest]
    rfl
  -- The first call looks, the others ask.
  cases hasked : r.asked with
  | false =>
    let called : SnapshotWatcher w := { r with asked := true, stage := .looking }
    have hcalled : (r.act shared .call).act shared .advance = called.look shared := by
      rw [SnapshotWatcher.call_of_idle hidle, hasked]
      exact SnapshotWatcher.advance_of_looking rfl
    rw [hcalled]
    cases hlatest : p.latest with
    | some a =>
      have hnext : r.reader.next p = (⟨p.version, true⟩, .ready a) := by
        simp [SnapshotReader.next, hlatest, SnapshotWatcher.reader, hasked]
      have hlook := answered_look (r := r) (q := called) (hthere a hlatest) rfl rfl
      rw [hnext, SnapshotWatcher.advance_of_idle hlook.2.1]
      exact hlook
    | none =>
      have hnext : r.reader.next p =
          (⟨r.last, true⟩, if p.stopped then .ended else .pending) := by
        simp [SnapshotReader.next, hlatest, SnapshotWatcher.reader]
      have hnone : w.value shared = none := by simp [hvalue, Published.snapshot?, hlatest]
      rw [hnext, ← hdropped, SnapshotWatcher.look_of_none hnone,
        SnapshotWatcher.advance_of_asking (.inl rfl)]
      exact answered_ask hw (hw.knows_see hmarked) rfl
  | true =>
    let called : SnapshotWatcher w := { r with asked := true, stage := .asking }
    have hcalled : (r.act shared .call).act shared .advance = called.ask shared := by
      rw [SnapshotWatcher.call_of_idle hidle, hasked]
      exact SnapshotWatcher.advance_of_asking (.inl rfl)
    rw [hcalled]
    by_cases hend : r.last = numberOf (w.value shared)
    · have hnext : r.reader.next p =
          (⟨r.last, true⟩, if p.stopped then .ended else .pending) := by
        cases hlatest : p.latest with
        | some a =>
          have hseen : r.last = p.version := by rw [hend, hthere a hlatest]; rfl
          simp only [SnapshotReader.next, hlatest, SnapshotWatcher.reader, hasked, hseen,
            bne_self_eq_false, Bool.not_true, Bool.or_false, Bool.false_eq_true, if_false]
          split <;> rfl
        | none => simp [SnapshotReader.next, hlatest, SnapshotWatcher.reader]
      rw [decide_eq_true hend] at hmarked
      rw [hnext, ← hdropped, advance_ask (q := called) hw hmarked]
      exact answered_ask hw hmarked rfl
    · obtain ⟨a, hlatest⟩ := Option.ne_none_iff_exists'.1 (mt hsame hend)
      have hnewer : r.last ≠ p.version := fun heq => hend (by rw [hthere a hlatest]; exact heq)
      have hnext : r.reader.next p = (⟨p.version, true⟩, .ready a) := by
        simp [SnapshotReader.next, hlatest, SnapshotWatcher.reader, hnewer]
      rw [decide_eq_false hend] at hmarked
      rw [hnext, SnapshotWatcher.ask_of_unseen (r := called) hw hmarked,
        SnapshotWatcher.advance_of_looking rfl]
      exact answered_look (hthere a hlatest) rfl rfl

end Uninterrupted

end ParticleLedger
