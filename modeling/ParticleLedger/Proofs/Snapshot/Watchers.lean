import ParticleLedger.Proofs.Snapshot.Schedule
import ParticleLedger.Proofs.Snapshot.Watcher

/-!
# A fold and the readers of its snapshots

A fold puts each snapshot that it publishes in a watch channel and drops the channel when its source
has closed. Readers come at any time. The steps of the fold and those of the readers' calls are taken
in any order (`WatchedFold.step`).

Main statements: `TimedFold.published_after` (what a fold publishes in one step),
`WatchedFold.Sound.step` (what every step keeps), `Nears.run` (a call gets on, whatever happens in
between) and `WatchedFold.snapshots_exact`.
-/

namespace ParticleLedger

open Snapshot (numberOf)

/-! ## What a fold has published -/

namespace TimedFold

variable {State : Type} {r : Reducer State} {a : Address} {debounce : Nat} {c : TimedFold State}

/-- The snapshots that were published, numbered from 1. -/
def snapshots (c : TimedFold State) : List (Snapshot State) :=
  c.shown.mapIdx fun i p => ⟨i + 1, p.state⟩

/-- What is true of a fold at any time, whenever anything came. -/
structure Keeps (c : TimedFold State) : Prop where
  version_eq : c.fold.published.version = c.shown.length
  latest_eq : c.fold.published.latest = c.shown.getLast?.map (·.state)
  running_of_deadline : c.fold.deadline ≠ none → c.fold.running

theorem Keeps.start (r : Reducer State) (source now : Nat) : (start r source now).Keeps :=
  ⟨rfl, rfl, fun h => absurd rfl h⟩

/-- What is shown at last is the snapshot published last. -/
theorem Keeps.snapshot?_eq (h : c.Keeps) :
    c.fold.published.snapshot? = c.snapshots.getLast? := by
  rw [Published.snapshot?, h.latest_eq, h.version_eq, snapshots, List.getLast?_mapIdx,
    Option.map_map]
  cases hshown : c.shown with
  | nil => rfl
  | cons p rest => simp [Function.comp_def]

theorem shown_after (c : TimedFold State) (e : FoldEvent) :
    (c.after r a debounce e).shown = c.shown ++
      ((c.fold.shows (c.after r a debounce e).fold).map (⟨c.now, c.taken.length, ·⟩)).toList := by
  cases e with
  | arrives x =>
    rw [after]
    split
    · rfl
    · simp
  | closes =>
    rw [after]
    split
    · rfl
    · simp
  | expires => rfl
  | passes ms => simp [after]

/-- Either nothing is published, or the fold was running and its state is. -/
theorem published_after (h : c.Keeps) (e : FoldEvent) :
    let next := (c.after r a debounce e).fold
    (c.fold.shows next = none ∧ next.published.latest = c.fold.published.latest ∧
        next.published.version = c.fold.published.version) ∨
      (c.fold.shows next = some c.fold.state ∧ c.fold.running ∧
        next.published.latest = some c.fold.state ∧
        next.published.version = c.fold.published.version + 1) := by
  cases e with
  | arrives x =>
    rw [after]
    split
    · exact .inl ⟨StateFold.shows_receive .., by simp [become, StateFold.receive, *]⟩
    · exact .inl ⟨StateFold.shows_self, rfl, rfl⟩
  | closes =>
    rw [after]
    split
    · next hrunning =>
      have hshows := StateFold.shows_close hrunning
      cases hdue : c.fold.deadline with
      | none =>
        rw [if_pos hdue] at hshows
        refine .inl ⟨hshows, ?_⟩
        simp [become, StateFold.close_of_published hrunning hdue, Published.stop]
      | some due =>
        rw [if_neg (by simp [hdue])] at hshows
        refine .inr ⟨hshows, hrunning, ?_⟩
        simp [become, StateFold.close_of_deadline hrunning hdue, StateFold.publish,
          Published.publish, Published.stop]
    · exact .inl ⟨StateFold.shows_self, rfl, rfl⟩
  | expires =>
    rw [after, StateFold.advance]
    cases hdue : c.fold.deadline with
    | none => exact .inl ⟨StateFold.shows_self, rfl, rfl⟩
    | some due =>
      have hrunning := h.running_of_deadline (by simp [hdue])
      simp only
      split
      · exact .inr ⟨StateFold.shows_publish, hrunning, rfl, rfl⟩
      · exact .inl ⟨StateFold.shows_self, rfl, rfl⟩
  | passes ms => exact .inl ⟨StateFold.shows_self, rfl, rfl⟩

/-- Nothing happens to a fold any more when its source has closed. -/
theorem fold_after_of_stopped (h : c.Keeps) (hstopped : ¬c.fold.running) (e : FoldEvent) :
    (c.after r a debounce e).fold = c.fold := by
  have hdue : c.fold.deadline = none :=
    Decidable.byContradiction fun hdue => hstopped (h.running_of_deadline hdue)
  cases e with
  | arrives x => rw [after, if_neg hstopped]
  | closes => rw [after, if_neg hstopped]
  | expires => simp [after, become, StateFold.advance, hdue]
  | passes ms => rfl

theorem snapshots_after_of_some {e : FoldEvent} {s : State}
    (h : c.fold.shows (c.after r a debounce e).fold = some s) :
    (c.after r a debounce e).snapshots = c.snapshots ++ [⟨c.snapshots.length + 1, s⟩] := by
  have hshown := @shown_after _ r a debounce c e
  rw [h, Option.map_some, Option.toList_some] at hshown
  rw [snapshots, hshown, List.mapIdx_concat]
  simp [snapshots]

theorem snapshots_after_of_none {e : FoldEvent}
    (h : c.fold.shows (c.after r a debounce e).fold = none) :
    (c.after r a debounce e).snapshots = c.snapshots := by
  have hshown := @shown_after _ r a debounce c e
  rw [h, Option.map_none, Option.toList_none, List.append_nil] at hshown
  rw [snapshots, hshown, snapshots]

theorem running_of_deadline_after (h : c.Keeps) (e : FoldEvent) :
    (c.after r a debounce e).fold.deadline ≠ none → (c.after r a debounce e).fold.running := by
  cases e with
  | arrives x =>
    rw [after]
    split
    · next hrunning =>
      intro _
      rw [become, StateFold.receive, if_pos hrunning]
      exact hrunning
    · exact h.running_of_deadline
  | closes =>
    rw [after]
    split
    · next hrunning =>
      intro hdue
      cases hbefore : c.fold.deadline with
      | none => simp [become, StateFold.close_of_published hrunning hbefore, hbefore] at hdue
      | some due =>
        simp [become, StateFold.close_of_deadline hrunning hbefore, StateFold.publish] at hdue
    · exact h.running_of_deadline
  | expires =>
    rw [after, become, StateFold.advance]
    split
    · split
      · exact fun hdue => absurd rfl hdue
      · exact h.running_of_deadline
    · exact h.running_of_deadline
  | passes ms => exact h.running_of_deadline

theorem Keeps.after (h : c.Keeps) (e : FoldEvent) : (c.after r a debounce e).Keeps := by
  have hshown := @shown_after _ r a debounce c e
  rcases published_after h e with ⟨hshows, hlatest, hversion⟩ | ⟨hshows, -, hlatest, hversion⟩
  · rw [hshows, Option.map_none, Option.toList_none, List.append_nil] at hshown
    exact ⟨by rw [hversion, hshown, h.version_eq], by rw [hlatest, hshown, h.latest_eq],
      running_of_deadline_after h e⟩
  · rw [hshows, Option.map_some, Option.toList_some] at hshown
    exact ⟨by rw [hversion, hshown, h.version_eq, List.length_append, List.length_singleton],
      by rw [hlatest, hshown, List.getLast?_concat, Option.map_some],
      running_of_deadline_after h e⟩

/-- A snapshot's number is one that has been given out. -/
theorem number_of_mem {s : Snapshot State} (h : s ∈ c.snapshots) :
    0 < s.number ∧ s.number ≤ c.snapshots.length := by
  obtain ⟨i, hi, rfl⟩ := List.mem_mapIdx.1 h
  rw [snapshots, List.length_mapIdx]
  exact ⟨Nat.succ_pos i, hi⟩

theorem numberOf_getLast? (c : TimedFold State) :
    numberOf c.snapshots.getLast? = c.snapshots.length := by
  rw [snapshots, List.getLast?_mapIdx, List.length_mapIdx]
  cases hshown : c.shown with
  | nil => rfl
  | cons p rest => simp [numberOf, List.getLast?_cons]

end TimedFold

/-! ## The fold and its readers -/

/-- A fold whose snapshots are put in a watch channel. -/
structure WatchedFold {State : Type} (w : WatchChannel (Option (Snapshot State))) where
  timed : TimedFold State
  shared : w.Shared
  /-- What the receiver remembers that new readers are copied from. -/
  mark : w.Mark
  readers : List (SnapshotWatcher w)

/-- What can happen. -/
inductive WatchingMove where
  /-- Something happens to the fold. -/
  | fold (e : FoldEvent)
  /-- The fold, whose source has closed, drops the channel. -/
  | leave
  /-- A reader comes. -/
  | enter
  | act (i : Nat) (x : ReaderAct)
  deriving DecidableEq

/-- What happens to the fold in some moves. -/
def WatchingMove.event? : WatchingMove → Option FoldEvent
  | fold e => some e
  | _ => none

namespace WatchedFold

variable {State : Type} {w : WatchChannel (Option (Snapshot State))}

/-- A fold that has seen nothing of its source, and no readers. -/
def start (w : WatchChannel (Option (Snapshot State))) (r : Reducer State) (source now : Nat) :
    WatchedFold w :=
  let channel := w.create none
  ⟨.start r source now, channel.1, channel.2, []⟩

/-- What happens next. Whatever the fold does to the channel wakes the readers that sleep. -/
def step (r : Reducer State) (a : Address) (debounce : Nat) (t : WatchedFold w) :
    WatchingMove → WatchedFold w
  | .fold e =>
    let timed := t.timed.after r a debounce e
    match t.timed.fold.shows timed.fold with
    | none => { t with timed }
    | some s =>
      { t with
        timed
        shared := w.modify (fun _ => some ⟨timed.fold.publications, s⟩) t.shared
        readers := t.readers.map .wake }
  | .leave =>
    if t.timed.fold.running then t
    else { t with shared := w.drop t.shared, readers := t.readers.map .wake }
  | .enter => { t with readers := t.readers ++ [.fresh t.mark] }
  | .act i x => { t with readers := t.readers.modify i (·.act t.shared x) }

def run (r : Reducer State) (a : Address) (debounce : Nat) (t : WatchedFold w)
    (moves : List WatchingMove) : WatchedFold w :=
  moves.foldl (step r a debounce) t

/-- What is true of a fold and its readers at any time. -/
structure Sound (Knows : w.Shared → w.Mark → Bool → Prop) (t : WatchedFold w) : Prop where
  keeps : t.timed.Keeps
  value : w.value t.shared = t.timed.snapshots.getLast?
  closed : w.dropped t.shared → ¬t.timed.fold.running
  known : Knows t.shared t.mark (0 = numberOf (w.value t.shared))
  watches : ∀ q ∈ t.readers, Watches Knows t.shared q
  published : ∀ q ∈ t.readers, ∀ s ∈ q.found, s ∈ t.timed.snapshots

section Steps

variable {Knows : w.Shared → w.Mark → Bool → Prop} {r : Reducer State} {a : Address}
  {debounce : Nat} {t : WatchedFold w}

theorem step_fold_of_none {e : FoldEvent}
    (h : t.timed.fold.shows (t.timed.after r a debounce e).fold = none) :
    t.step r a debounce (.fold e) = { t with timed := t.timed.after r a debounce e } := by
  simp [step, h]

theorem step_fold_of_some {e : FoldEvent} {s : State}
    (h : t.timed.fold.shows (t.timed.after r a debounce e).fold = some s) :
    t.step r a debounce (.fold e) =
      { t with
        timed := t.timed.after r a debounce e
        shared := w.modify
          (fun _ => some ⟨(t.timed.after r a debounce e).fold.publications, s⟩) t.shared
        readers := t.readers.map .wake } := by
  simp [step, h]

/-- What is done with a reader leaves the others alone. -/
theorem getElem?_readers_act (t : WatchedFold w) (i j : Nat) (x : ReaderAct) :
    (t.step r a debounce (.act j x)).readers[i]? =
      t.readers[i]?.map fun q => if j = i then q.act t.shared x else q := by
  rw [step, List.getElem?_modify]
  rfl

theorem timed_step (t : WatchedFold w) (m : WatchingMove) :
    (t.step r a debounce m).timed = t.timed.run r a debounce m.event?.toList := by
  cases m with
  | fold e =>
    cases h : t.timed.fold.shows (t.timed.after r a debounce e).fold with
    | none =>
      rw [step_fold_of_none h]
      rfl
    | some s =>
      rw [step_fold_of_some h]
      rfl
  | leave =>
    rw [step]
    split <;> rfl
  | enter => rfl
  | act i x => rfl

theorem length_readers_step (t : WatchedFold w) (m : WatchingMove) :
    (t.step r a debounce m).readers.length =
      t.readers.length + if m == .enter then 1 else 0 := by
  cases m with
  | fold e =>
    cases h : t.timed.fold.shows (t.timed.after r a debounce e).fold with
    | none => simp [step_fold_of_none h]
    | some s => simp [step_fold_of_some h]
  | leave =>
    rw [step]
    split <;> simp
  | enter => simp [step]
  | act i x => simp [step]

end Steps

namespace Sound

variable {Knows : w.Shared → w.Mark → Bool → Prop} {r : Reducer State} {a : Address}
  {debounce : Nat} {t : WatchedFold w}

theorem start (hw : w.Lawful Knows) (r : Reducer State) (source now : Nat) :
    (start w r source now).Sound Knows where
  keeps := .start r source now
  value := hw.value_create none
  closed h := by
    rw [WatchedFold.start, hw.dropped_create] at h
    contradiction
  known := by
    show Knows (w.create none).1 _ (0 = numberOf (w.value (w.create none).1))
    rw [hw.value_create]
    exact hw.knows_create none
  watches q hq := absurd hq List.not_mem_nil
  published q hq := absurd hq List.not_mem_nil

theorem positive (h : t.Sound Knows) (s : Snapshot State) (hs : w.value t.shared = some s) :
    0 < s.number :=
  (TimedFold.number_of_mem (List.mem_of_getLast? (h.value.symm.trans hs))).1

theorem numberOf_value (h : t.Sound Knows) :
    numberOf (w.value t.shared) = t.timed.snapshots.length := by
  rw [h.value, TimedFold.numberOf_getLast?]

/-- A snapshot that is published is newer than the one that the channel keeps, and the channel is
there. -/
theorem of_shows (h : t.Sound Knows) {e : FoldEvent} {s : State}
    (hshows : t.timed.fold.shows (t.timed.after r a debounce e).fold = some s) :
    (t.timed.after r a debounce e).fold.publications = t.timed.snapshots.length + 1 ∧
      w.dropped t.shared = false := by
  rcases TimedFold.published_after h.keeps e with ⟨hnone, -⟩ | ⟨-, hrunning, -, hversion⟩
  · rw [hshows] at hnone
    contradiction
  · refine ⟨?_, ?_⟩
    · rw [StateFold.publications, hversion, h.keeps.version_eq, TimedFold.snapshots,
        List.length_mapIdx]
    · rw [← Bool.not_eq_true]
      exact fun hdropped => h.closed hdropped hrunning

theorem step (hw : w.Lawful Knows) (h : t.Sound Knows) (m : WatchingMove) :
    (t.step r a debounce m).Sound Knows := by
  cases m with
  | fold e =>
    cases hshows : t.timed.fold.shows (t.timed.after r a debounce e).fold with
    | none =>
      have hsnapshots := TimedFold.snapshots_after_of_none hshows
      rw [step_fold_of_none hshows]
      refine ⟨h.keeps.after e, h.value.trans (by rw [hsnapshots]), fun hdropped => ?_, h.known,
        h.watches, fun q hq s hs => hsnapshots ▸ h.published q hq s hs⟩
      rw [TimedFold.fold_after_of_stopped h.keeps (h.closed hdropped)]
      exact h.closed hdropped
    | some s =>
      obtain ⟨hnumber, hthere⟩ := h.of_shows hshows
      have hsnapshots := TimedFold.snapshots_after_of_some hshows
      have hnewer : numberOf (w.value t.shared) <
          (t.timed.after r a debounce e).fold.publications := by
        rw [hnumber, h.numberOf_value]
        exact Nat.lt_succ_self _
      rw [step_fold_of_some hshows]
      refine ⟨h.keeps.after e, ?_, fun hdropped => ?_, ?_, fun q hq => ?_, fun q hq x hx => ?_⟩
      · show w.value (w.modify _ _) = _
        rw [hw.value_modify, hsnapshots, List.getLast?_concat, hnumber]
      · rw [hw.dropped_modify, hthere] at hdropped
        contradiction
      · show Knows (w.modify _ _) t.mark (0 = numberOf (w.value (w.modify _ _)))
        rw [hw.value_modify, numberOf, Option.elim_some,
          decide_eq_false (Nat.ne_of_lt (Nat.zero_lt_of_lt hnewer))]
        exact hw.knows_modify _ h.known
      · obtain ⟨p, hp, rfl⟩ := List.mem_map.1 hq
        exact (h.watches p hp).modify hw hnewer hthere
      · obtain ⟨p, hp, rfl⟩ := List.mem_map.1 hq
        rw [hsnapshots]
        exact List.mem_append_left _ (h.published p hp x hx)
  | leave =>
    rw [WatchedFold.step]
    split
    · exact h
    · next hstopped =>
      refine ⟨h.keeps, ?_, fun _ => hstopped, ?_, fun q hq => ?_, fun q hq x hx => ?_⟩
      · rw [hw.value_drop]
        exact h.value
      · rw [hw.value_drop]
        exact hw.knows_drop h.known
      · obtain ⟨p, hp, rfl⟩ := List.mem_map.1 hq
        exact (h.watches p hp).drop hw
      · obtain ⟨p, hp, rfl⟩ := List.mem_map.1 hq
        exact h.published p hp x hx
  | enter =>
    refine ⟨h.keeps, h.value, h.closed, h.known, fun q hq => ?_, fun q hq x hx => ?_⟩
    · rcases List.mem_append.1 hq with hq | hq
      · exact h.watches q hq
      · rw [List.mem_singleton.1 hq]
        exact .fresh h.known
    · rcases List.mem_append.1 hq with hq | hq
      · exact h.published q hq x hx
      · rw [List.mem_singleton.1 hq] at hx
        contradiction
  | act i x =>
    have hreader : ∀ q ∈ (t.step r a debounce (.act i x)).readers,
        ∃ p ∈ t.readers, q = p ∨ q = p.act t.shared x := fun q hq => by
      obtain ⟨j, hj⟩ := List.mem_iff_getElem?.1 hq
      rw [getElem?_readers_act] at hj
      obtain ⟨p, hp, rfl⟩ := Option.map_eq_some_iff.1 hj
      refine ⟨p, List.mem_of_getElem? hp, ?_⟩
      by_cases hij : i = j
      · exact .inr (if_pos hij)
      · exact .inl (if_neg hij)
    refine ⟨h.keeps, h.value, h.closed, h.known, fun q hq => ?_, fun q hq s hs => ?_⟩
    · obtain ⟨p, hp, rfl | rfl⟩ := hreader q hq
      · exact h.watches q hp
      · exact (h.watches p hp).act hw h.positive x
    · obtain ⟨p, hp, rfl | rfl⟩ := hreader q hq
      · exact h.published q hp s hs
      · rcases (h.watches p hp).found_act hw hs with hs | hs
        · exact h.published p hp s hs
        · exact List.mem_of_getLast? (h.value.symm.trans hs)

theorem run (hw : w.Lawful Knows) (h : t.Sound Knows) (moves : List WatchingMove) :
    (t.run r a debounce moves).Sound Knows := by
  induction moves generalizing t with
  | nil => exact h
  | cons m rest ih => exact ih (h.step hw m)

end Sound

/-- The readers are those who came. -/
theorem length_readers_run {r : Reducer State} {a : Address} {debounce : Nat} (t : WatchedFold w)
    (moves : List WatchingMove) :
    (t.run r a debounce moves).readers.length = t.readers.length + moves.count .enter := by
  induction moves generalizing t with
  | nil => rfl
  | cons m rest ih =>
    show ((t.step r a debounce m).run r a debounce rest).readers.length = _
    rw [ih, List.count_cons, length_readers_step]
    omega

theorem timed_run {r : Reducer State} {a : Address} {debounce : Nat} (t : WatchedFold w)
    (moves : List WatchingMove) :
    (t.run r a debounce moves).timed = t.timed.run r a debounce (moves.filterMap (·.event?)) := by
  induction moves generalizing t with
  | nil => rfl
  | cons m rest ih =>
    show ((t.step r a debounce m).run r a debounce rest).timed = _
    rw [ih, timed_step, List.filterMap_cons]
    cases m.event? <;> rfl

section Readers

variable {Knows : w.Shared → w.Mark → Bool → Prop} {r : Reducer State} {a : Address}
  {debounce : Nat} {t : WatchedFold w} {q : SnapshotWatcher w} {i : Nat}

/-- In one step a reader returns nothing, or what there is to tell it at that moment. -/
theorem returned_step (hw : w.Lawful Knows) (h : t.Sound Knows) (hget : t.readers[i]? = some q)
    (m : WatchingMove) :
    ∃ q', (t.step r a debounce m).readers[i]? = some q' ∧
      (q'.returned = q.returned ∨
        ∃ y, q.due t.timed.snapshots.getLast? (w.dropped t.shared) = some y ∧
          q'.returned = q.returned ++ [y]) := by
  cases m with
  | fold e =>
    cases hshows : t.timed.fold.shows (t.timed.after r a debounce e).fold with
    | none =>
      rw [step_fold_of_none hshows]
      exact ⟨q, hget, .inl rfl⟩
    | some s =>
      rw [step_fold_of_some hshows]
      exact ⟨q.wake, by simp [hget], .inl rfl⟩
  | leave =>
    rw [step]
    split
    · exact ⟨q, hget, .inl rfl⟩
    · exact ⟨q.wake, by simp [hget], .inl rfl⟩
  | enter =>
    have hlt := (List.getElem?_eq_some_iff.1 hget).1
    exact ⟨q, (List.getElem?_append_left hlt).trans hget, .inl rfl⟩
  | act j x =>
    rw [getElem?_readers_act, hget]
    refine ⟨_, rfl, ?_⟩
    split
    · rw [← h.value]
      exact (h.watches q (List.mem_of_getElem? hget)).returned_act hw x
    · exact .inl rfl

/-- Once the channel is dropped, nothing is published any more. -/
theorem snapshots_step_of_dropped (hw : w.Lawful Knows) (h : t.Sound Knows)
    (hdropped : w.dropped t.shared) (m : WatchingMove) :
    w.dropped (t.step r a debounce m).shared ∧
      (t.step r a debounce m).timed.snapshots = t.timed.snapshots := by
  cases m with
  | fold e =>
    have hshows : t.timed.fold.shows (t.timed.after r a debounce e).fold = none := by
      rw [TimedFold.fold_after_of_stopped h.keeps (h.closed hdropped), StateFold.shows_self]
    rw [step_fold_of_none hshows]
    exact ⟨hdropped, TimedFold.snapshots_after_of_none hshows⟩
  | leave =>
    rw [step]
    split
    · exact ⟨hdropped, rfl⟩
    · exact ⟨hw.dropped_drop _, rfl⟩
  | enter => exact ⟨hdropped, rfl⟩
  | act j x => exact ⟨hdropped, rfl⟩

/-- Once the channel is dropped, a reader returns the last snapshot, if it has not, and nothing
else. -/
theorem returned_run_of_dropped (hw : w.Lawful Knows) (h : t.Sound Knows)
    (hget : t.readers[i]? = some q) (hdropped : w.dropped t.shared) (later : List WatchingMove) :
    ∃ q' n, (t.run r a debounce later).readers[i]? = some q' ∧
      q'.returned <+: q.returned ++ q.missing t.timed.snapshots.getLast? ++
        List.replicate n none := by
  induction later generalizing t q with
  | nil => exact ⟨q, 0, hget, by simp⟩
  | cons m rest ih =>
    obtain ⟨p, hp, hreturned⟩ := @returned_step _ _ _ r a debounce _ _ _ hw h hget m
    obtain ⟨hstill, hsnapshots⟩ := @snapshots_step_of_dropped _ _ _ r a debounce _ hw h hdropped m
    obtain ⟨q', n, hq', hlast⟩ := ih (h.step hw m) hp hstill
    rw [hsnapshots] at hlast
    rcases hreturned with hsame | ⟨y, hdue, hmore⟩
    · refine ⟨q', n, hq', ?_⟩
      rwa [hsame, SnapshotWatcher.missing_congr hsame] at hlast
    · rw [hdropped] at hdue
      obtain ⟨hnone, hy⟩ := SnapshotWatcher.missing_of_due hdue hmore
      rw [hnone, List.append_nil, hmore] at hlast
      rcases hy with hy | ⟨hy, rfl⟩
      · exact ⟨q', n, hq', by rwa [hy]⟩
      · refine ⟨q', n + 1, hq', ?_⟩
        rwa [hy, List.append_nil, List.replicate_succ, List.append_cons]

end Readers

end WatchedFold

/-! ## A call gets on, whatever happens in between -/

namespace Nears

variable {State : Type} {w : WatchChannel (Option (Snapshot State))}
  {Knows : w.Shared → w.Mark → Bool → Prop} {before n : Nat} {q : SnapshotWatcher w}
  {r : Reducer State} {a : Address} {debounce : Nat} {t : WatchedFold w} {m : WatchingMove} {i : Nat}

/-- Whatever happens, short of giving the call up, the reader is as close to an answer as before, and
closer if it takes a step. -/
theorem step (hw : w.Lawful Knows) (hsound : t.Sound Knows) (hget : t.readers[i]? = some q)
    (h : Nears t.shared before n q) (hstay : m ≠ .act i .abandon) :
    ∃ q', (t.step r a debounce m).readers[i]? = some q' ∧
      Nears (t.step r a debounce m).shared before (if m = .act i .advance then n - 1 else n) q' := by
  have hq := hsound.watches q (List.mem_of_getElem? hget)
  cases m with
  | fold e =>
    rw [if_neg nofun]
    cases hshows : t.timed.fold.shows (t.timed.after r a debounce e).fold with
    | none =>
      rw [WatchedFold.step_fold_of_none hshows]
      exact ⟨q, hget, h⟩
    | some s =>
      obtain ⟨hnumber, hthere⟩ := hsound.of_shows hshows
      rw [WatchedFold.step_fold_of_some hshows]
      refine ⟨q.wake, by simp [hget], h.modify hw hq ?_ hthere⟩
      rw [hnumber, hsound.numberOf_value]
      exact Nat.lt_succ_self _
  | leave =>
    rw [if_neg nofun, WatchedFold.step]
    split
    · exact ⟨q, hget, h⟩
    · exact ⟨q.wake, by simp [hget], h.drop hw⟩
  | enter =>
    have hlt := (List.getElem?_eq_some_iff.1 hget).1
    rw [if_neg nofun]
    exact ⟨q, (List.getElem?_append_left hlt).trans hget, h⟩
  | act j x =>
    rw [WatchedFold.getElem?_readers_act, hget, Option.map_some]
    refine ⟨_, rfl, ?_⟩
    show Nears t.shared before _ _
    by_cases hj : j = i
    · subst hj
      rw [if_pos rfl]
      cases x with
      | call => simpa using h.call
      | advance => simpa using h.advance hw hq
      | abandon => contradiction
    · simpa [hj] using h

theorem run (hw : w.Lawful Knows) (hsound : t.Sound Knows) (hget : t.readers[i]? = some q)
    (h : Nears t.shared before n q) {later : List WatchingMove} (hstay : .act i .abandon ∉ later) :
    ∃ q', (t.run r a debounce later).readers[i]? = some q' ∧
      Nears (t.run r a debounce later).shared before (n - later.count (.act i .advance)) q' := by
  induction later generalizing t n q with
  | nil => exact ⟨q, hget, h⟩
  | cons m rest ih =>
    rw [List.mem_cons, not_or] at hstay
    obtain ⟨p, hp, hnext⟩ := h.step hw hsound hget (Ne.symm hstay.1)
    obtain ⟨q', hq', hlast⟩ := ih (hsound.step hw m) hp hnext hstay.2
    refine ⟨q', hq', ?_⟩
    have hcount : (if m = .act i .advance then n - 1 else n) - rest.count (.act i .advance) =
        n - (m :: rest).count (.act i .advance) := by
      rw [List.count_cons]
      by_cases hm : m = .act i .advance
      · simp only [hm, if_true, beq_self_eq_true]
        omega
      · simp [hm]
    rwa [hcount] at hlast

/-- A call that is under way when there is something to tell, or that begins then, ends. -/
theorem run_of_due (hw : w.Lawful Knows) (hsound : t.Sound Knows) (hget : t.readers[i]? = some q)
    (hdue : q.due t.timed.snapshots.getLast? (w.dropped t.shared) ≠ none)
    {later : List WatchingMove} (hbusy : q.stage ≠ .idle ∨ later.head? = some (.act i .call))
    (hstay : .act i .abandon ∉ later) :
    ∃ q', (t.run r a debounce later).readers[i]? = some q' ∧
      Nears (t.run r a debounce later).shared q.returned.length
        (2 - later.count (.act i .advance)) q' := by
  have hq := hsound.watches q (List.mem_of_getElem? hget)
  rw [← hsound.value] at hdue
  rcases hbusy with hbusy | hcall
  · exact (of_due hq hbusy hdue).run hw hsound hget hstay
  · obtain ⟨rest, rfl⟩ := List.head?_eq_some_iff.1 hcall
    have hcalled : (t.step r a debounce (.act i .call)).readers[i]? =
        some (q.act t.shared .call) := by
      rw [WatchedFold.getElem?_readers_act, hget, Option.map_some, if_pos rfl]
    have hstill : (q.act t.shared .call).due (w.value t.shared) (w.dropped t.shared) ≠ none := by
      rwa [SnapshotWatcher.due_congr SnapshotWatcher.returned_call]
    have hdue' := of_due (hq.act hw hsound.positive .call) q.stage_call_ne hstill
    rw [q.returned_call] at hdue'
    rw [List.count_cons_of_ne (by simp)]
    exact hdue'.run hw (hsound.step hw (.act i .call)) hcalled
      (fun hmem => hstay (List.mem_cons_of_mem _ hmem))

end Nears

/-! ## The whole of it -/

namespace WatchedFold

variable {State : Type}

/-- **Readers of snapshots see no repetition and do not miss the last.** Whatever happens to a fold,
and however many readers come, call, are run and give up, in any order: the fold is as if nobody read,
the channel holds the snapshot published last, and it is dropped only once the source has closed.
Those who came are the readers. The snapshots that a reader has returned are published ones, each
newer than the one before. In one step it returns nothing, or what there is to tell it at that very
moment: the newest snapshot, unless it has returned that; or that there will be none, if the channel
is dropped. It does not sleep while there is something to tell it, and then a call of it that is under
way, or that begins, ends after two more of its steps, whatever happens in between. Once the channel
is dropped, the reader returns the last snapshot, unless it has, and after that only that there is
nothing. A reader that comes when something has been published returns the newest snapshot at its
first call. And a call that nothing comes between answers what the published value of the fold says
to the reader. -/
theorem snapshots_exact (w : WatchChannel (Option (Snapshot State)))
    (Knows : w.Shared → w.Mark → Bool → Prop) (hw : w.Lawful Knows) (r : Reducer State) (a : Address)
    (debounce source opened : Nat) (moves : List WatchingMove) :
    let t := (start w r source opened).run r a debounce moves
    let newest := t.timed.snapshots.getLast?
    let dropped := w.dropped t.shared
    t.timed = (TimedFold.start r source opened).run r a debounce (moves.filterMap (·.event?)) ∧
    w.value t.shared = newest ∧ (dropped → ¬t.timed.fold.running) ∧
    t.readers.length = moves.count .enter ∧
    (∀ (i : Nat) (q : SnapshotWatcher w), t.readers[i]? = some q →
      (q.found.Pairwise (·.number < ·.number) ∧ ∀ s ∈ q.found, s ∈ t.timed.snapshots) ∧
      (∀ m, ∃ q', (t.step r a debounce m).readers[i]? = some q' ∧
        (q'.returned = q.returned ∨
          ∃ y, q.due newest dropped = some y ∧ q'.returned = q.returned ++ [y])) ∧
      (q.due newest dropped ≠ none → q.stage ≠ .asleep ∧
        ∀ later : List WatchingMove, q.stage ≠ .idle ∨ later.head? = some (.act i .call) →
          .act i .abandon ∉ later → 2 ≤ later.count (.act i .advance) →
            ∃ q', (t.run r a debounce later).readers[i]? = some q' ∧
              q.returned.length < q'.returned.length) ∧
      (dropped → ∀ later, ∃ q' n, (t.run r a debounce later).readers[i]? = some q' ∧
        q'.returned <+: q.returned ++ q.missing newest ++ List.replicate n none) ∧
      (q.stage = .idle → dropped = !t.timed.fold.running →
        let published := t.timed.fold.published
        let q' := ((q.act t.shared .call).act t.shared .advance).act t.shared .advance
        q'.reader = (q.reader.next published).1 ∧
          q.Answered q' published.version (q.reader.next published).2)) ∧
    ∀ s, newest = some s → ∃ q,
      (t.run r a debounce [.enter, .act t.readers.length .call,
        .act t.readers.length .advance]).readers[t.readers.length]? = some q ∧
      q.returned = [some s] := by
  intro t newest dropped
  have h : t.Sound Knows := (Sound.start hw r source opened).run hw moves
  refine ⟨timed_run _ moves, h.value, h.closed,
    (length_readers_run _ moves).trans (Nat.zero_add _), fun i q hq => ?_, fun s hs => ?_⟩
  · have hwatches := h.watches q (List.mem_of_getElem? hq)
    refine ⟨⟨hwatches.increasing, h.published q (List.mem_of_getElem? hq)⟩,
      returned_step hw h hq, fun hdue => ⟨fun hasleep => hdue ?_, fun later hbusy hstay htwice => ?_⟩,
      returned_run_of_dropped hw h hq, fun hidle hdropped => ?_⟩
    · rw [show newest = w.value t.shared from h.value.symm]
      exact hwatches.due_of_asleep hasleep
    · obtain ⟨q', hq', hlast⟩ := Nears.run_of_due hw h hq hdue hbusy hstay
      rw [show 2 - later.count (.act i .advance) = 0 by omega] at hlast
      exact ⟨q', hq', hlast.answer⟩
    · exact uninterrupted_eq_next hw hwatches hidle (h.value.trans h.keeps.snapshot?_eq.symm)
        (hdropped.trans (Bool.not_not _))
  · -- Who comes has the mark of one that has seen nothing, and looks at its first call.
    let fresh : SnapshotWatcher w := .fresh t.mark
    let called : SnapshotWatcher w := { fresh with asked := true, stage := .looking }
    have hlook : called.look t.shared = { called with mark := w.see t.shared t.mark }.answer (some s) :=
      SnapshotWatcher.look_of_some (h.value.trans hs)
    have hentered : (t.step r a debounce .enter).readers[t.readers.length]? = some fresh := by
      simp [step, fresh]
    refine ⟨called.look t.shared, ?_, by rw [hlook]; rfl⟩
    show (((t.step r a debounce .enter).step r a debounce (.act t.readers.length .call)).step r a
      debounce (.act t.readers.length .advance)).readers[t.readers.length]? = _
    rw [getElem?_readers_act, getElem?_readers_act, hentered, Option.map_some, if_pos rfl,
      SnapshotWatcher.call_of_idle rfl, Option.map_some, if_pos rfl]
    exact congrArg some (SnapshotWatcher.advance_of_looking rfl)

/-- A reader that sleeps when the source closes with a snapshot outstanding returns that, and then is
told that there is nothing any more. -/
theorem snapshots_exact_closing :
    let w := WatchChannel.counting (Option (Snapshot Nat))
    let t := (start w Sample.counter 0 0).run Sample.counter Sample.address 1000
      [.fold (.arrives Sample.issue), .fold (.passes 1000), .fold .expires, .enter,
        .act 0 .call, .act 0 .advance, .fold (.arrives Sample.spend), .act 0 .call, .act 0 .advance,
        .fold .closes, .leave]
    w.Lawful WatchChannel.Numbered.Knows ∧ ∀ later, ∃ q n,
      (t.run Sample.counter Sample.address 1000 later).readers[0]? = some q ∧
        q.returned <+: [some ⟨1, 1⟩, some ⟨2, 2⟩] ++ List.replicate n none := by
  intro w t
  have hw : w.Lawful WatchChannel.Numbered.Knows := WatchChannel.lawful_counting _
  obtain ⟨-, -, -, -, hreaders, -⟩ :=
    snapshots_exact w WatchChannel.Numbered.Knows hw Sample.counter Sample.address 1000 0 0
      [.fold (.arrives Sample.issue), .fold (.passes 1000), .fold .expires, .enter,
        .act 0 .call, .act 0 .advance, .fold (.arrives Sample.spend), .act 0 .call, .act 0 .advance,
        .fold .closes, .leave]
  have hreturned : t.readers[0]?.map (·.returned) = some [some ⟨1, 1⟩] := by decide +kernel
  have hnewest : t.timed.snapshots.getLast? = some ⟨2, 2⟩ := by decide +kernel
  have hdropped : w.dropped t.shared := by decide +kernel
  simp only [t] at hdropped
  obtain ⟨q, hq, hfirst⟩ := Option.map_eq_some_iff.1 hreturned
  refine ⟨hw, fun later => ?_⟩
  obtain ⟨q', n, hq', hlast⟩ := (hreaders 0 q hq).2.2.2.1 hdropped later
  have hmissing : q.missing t.timed.snapshots.getLast? = [some ⟨2, 2⟩] := by
    rw [hnewest, SnapshotWatcher.missing, SnapshotWatcher.last, SnapshotWatcher.found, hfirst]
    rfl
  rw [hfirst, hmissing] at hlast
  exact ⟨q', n, hq', hlast⟩

end WatchedFold

end ParticleLedger
