import ParticleLedger.Proofs.Atom.Plain
import ParticleLedger.Snapshot.Fold

/-!
# When a fold publishes

Atoms come to a fold at any time, and its source may close at any time. Between such events time goes
on, but never past a deadline that has not been met; at the very time of a deadline whatever comes
then may come before it is met or after. `TimedFold` is a fold with the time and with a record: the
atoms taken in, when the source closed, and what was published.

A publication is planned (`TimedFold.Planned`) one debounce window after each atom that no other and
no closing follows within the window, and at the closing of the source if an atom came within the
window before it. What carries the proofs is `OnSchedule`: what has been published is what is planned,
but for the deadline that is still set.

Main statements: `OnSchedule.after` (one event), `OnSchedule.run` and `publishes_on_schedule`.
-/

namespace ParticleLedger

/-! ## Folds and time -/

/-- What can happen to a fold. -/
inductive FoldEvent where
  | arrives (atom : Atom)
  /-- The source closes. -/
  | closes
  /-- A deadline that has come is met. -/
  | expires
  /-- Some time passes, but none beyond the deadline. -/
  | passes (ms : Nat)
  deriving DecidableEq

/-- A snapshot that was published. -/
structure Publication (State : Type) where
  time : Nat
  /-- How many atoms had been taken in. -/
  atoms : Nat
  state : State
  deriving DecidableEq

/-- A fold at some time, with what has happened to it. -/
structure TimedFold (State : Type) where
  now : Nat
  fold : StateFold State
  /-- The atoms taken in, each with the time at which it came. -/
  taken : List (Nat × Atom)
  /-- When the source closed. -/
  closed : Option Nat
  shown : List (Publication State)

section Published

variable {State : Type}

/-- The state that a fold publishes when it becomes another. -/
def StateFold.shows (f next : StateFold State) : Option State :=
  if next.publications = f.publications then none else next.published.latest

variable {f : StateFold State}

@[simp] theorem StateFold.shows_self : f.shows f = none := if_pos rfl

@[simp] theorem StateFold.shows_receive (r : Reducer State) (a : Address) (debounce now : Nat)
    (x : Atom) : f.shows (f.receive r a debounce now x) = none := by
  unfold receive
  split <;> exact if_pos rfl

theorem StateFold.shows_publish : f.shows f.publish = some f.state :=
  if_neg (Nat.succ_ne_self _)

/-- A deadline that is still set lies ahead. -/
theorem StateFold.lt_of_deadline_advance {now due : Nat}
    (h : (f.advance now).deadline = some due) : now < due := by
  unfold advance at h
  split at h
  · next set hset =>
    split at h
    · contradiction
    · rw [hset, Option.some_inj] at h
      omega
  · next hnone =>
    rw [hnone] at h
    contradiction

theorem StateFold.close_of_published (hrunning : f.running) (hdue : f.deadline = none) :
    f.close = { f with published := f.published.stop } := by
  simp [close, hrunning, hdue]

theorem StateFold.close_of_deadline {due : Nat} (hrunning : f.running)
    (hdue : f.deadline = some due) :
    f.close = { f.publish with published := f.publish.published.stop } := by
  simp [close, hrunning, hdue]

theorem StateFold.shows_close (hrunning : f.running) :
    f.shows f.close = if f.deadline = none then none else some f.state := by
  cases hdue : f.deadline with
  | none => simp [close_of_published hrunning hdue, shows, publications, Published.stop]
  | some due =>
    simp [close_of_deadline hrunning hdue, shows, publications, publish, Published.publish,
      Published.stop]

end Published

namespace TimedFold

variable {State : Type}

/-- A fold that has seen nothing of its source. -/
def start (r : Reducer State) (source now : Nat) : TimedFold State :=
  ⟨now, .start r source, [], none, []⟩

/-- The fold becomes another, and what it publishes is recorded. -/
def become (c : TimedFold State) (next : StateFold State) : TimedFold State :=
  { c with
    fold := next
    shown := c.shown ++ ((c.fold.shows next).map (⟨c.now, c.taken.length, ·⟩)).toList }

/-- How far time gets in some milliseconds. -/
def reach (c : TimedFold State) (ms : Nat) : Nat :=
  c.fold.deadline.elim (c.now + ms) (min (c.now + ms))

/-- The fold after something happened to it. A source that has closed brings nothing more. -/
def after (r : Reducer State) (a : Address) (debounce : Nat) (c : TimedFold State) :
    FoldEvent → TimedFold State
  | .arrives x =>
    if c.fold.running then
      { c.become (c.fold.receive r a debounce c.now x) with taken := c.taken ++ [(c.now, x)] }
    else c
  | .closes => if c.fold.running then { c.become c.fold.close with closed := some c.now } else c
  | .expires => c.become (c.fold.advance c.now)
  | .passes ms => { c with now := c.reach ms }

/-- The fold after some events, one after another. -/
def run (r : Reducer State) (a : Address) (debounce : Nat) (c : TimedFold State)
    (events : List FoldEvent) : TimedFold State :=
  events.foldl (after r a debounce) c

/-! ## The schedule -/

/-- That a snapshot of the first `i` atoms is to be published at time `t`: one debounce window after
the last of them, if neither another atom nor the closing of the source comes within it; or at the
closing, if all the atoms are these and the last came within the window before it. -/
def Planned (debounce : Nat) (taken : List (Nat × Atom)) (closed : Option Nat) (t i : Nat) : Prop :=
  (∃ k x, i = k + 1 ∧ taken[k]? = some x ∧ t = x.1 + debounce ∧
    (∀ y, taken[k + 1]? = some y → t < y.1) ∧ ∀ closing, closed = some closing → t < closing) ∨
  (closed = some t ∧ i = taken.length ∧ ∃ x, taken.getLast? = some x ∧ t < x.1 + debounce)

/-- Neither an atom nor the closing of the source comes exactly at a deadline. -/
structure Untied (debounce : Nat) (taken : List (Nat × Atom)) (closed : Option Nat) : Prop where
  next_ne : ∀ k x y, taken[k]? = some x → taken[k + 1]? = some y → y.1 ≠ x.1 + debounce
  closing_ne : ∀ x closing, taken.getLast? = some x → closed = some closing →
    closing ≠ x.1 + debounce

/-- What is true of a fold at any time, if nothing came exactly at a deadline. -/
structure OnSchedule (r : Reducer State) (a : Address) (debounce : Nat) (c : TimedFold State) :
    Prop where
  state_eq : c.fold.state = r.foldAtoms a r.initial (c.taken.map (·.2))
  sorted : c.taken.Pairwise (·.1 ≤ ·.1)
  le_now : ∀ x ∈ c.taken, x.1 ≤ c.now
  /-- A deadline is set by the last atom, and is not over. -/
  deadline : ∀ due, c.fold.deadline = some due →
    c.closed = none ∧ c.now ≤ due ∧ ∃ x, c.taken.getLast? = some x ∧ due = x.1 + debounce
  /-- Without a deadline all is published. -/
  settled : ∀ x, c.fold.deadline = none → c.taken.getLast? = some x →
    c.fold.published.latest = some c.fold.state ∧ (c.closed = none → x.1 + debounce ≤ c.now)
  shown_iff : ∀ t i, (∃ p ∈ c.shown, p.time = t ∧ p.atoms = i) ↔
    Planned debounce c.taken c.closed t i ∧ c.fold.deadline ≠ some t
  shown_le : ∀ p ∈ c.shown, p.time ≤ c.now
  shown_state : ∀ p ∈ c.shown,
    p.state = r.foldAtoms a r.initial ((c.taken.take p.atoms).map (·.2))
  increasing : c.shown.Pairwise fun p q => p.time < q.time ∧ p.atoms < q.atoms

section Planned

variable {debounce now t i : Nat} {taken : List (Nat × Atom)} {x : Atom}

/-- Another atom leaves the plans whose time is over, and adds one of its own. -/
theorem planned_concat_iff (hle : ∀ y ∈ taken, y.1 ≤ now) :
    Planned debounce (taken ++ [(now, x)]) none t i ↔
      (Planned debounce taken none t i ∧ t < now) ∨ (t = now + debounce ∧ i = taken.length + 1) := by
  constructor
  · rintro (⟨k, y, rfl, hget, rfl, hnext, -⟩ | ⟨hnone, -⟩)
    · obtain ⟨hlt, -⟩ := List.getElem?_eq_some_iff.1 hget
      rw [List.length_append, List.length_singleton] at hlt
      by_cases hk : k < taken.length
      · rw [List.getElem?_append_left hk] at hget
        refine .inl ⟨.inl ⟨k, y, rfl, hget, rfl, fun z hz => hnext z ?_, nofun⟩, ?_⟩
        · rwa [List.getElem?_append_left (List.getElem?_eq_some_iff.1 hz).1]
        · by_cases hlast : k + 1 < taken.length
          · have hz := hnext taken[k + 1] (by rw [List.getElem?_append_left hlast]; simp)
            exact Nat.lt_of_lt_of_le hz (hle _ (List.getElem_mem hlast))
          · have hend : k + 1 = taken.length := by omega
            exact hnext (now, x) (by rw [hend]; simp)
      · have hend : k = taken.length := by omega
        subst hend
        rw [List.getElem?_concat_length, Option.some_inj] at hget
        exact .inr ⟨by rw [← hget], rfl⟩
    · contradiction
  · rintro (⟨⟨k, y, rfl, hget, rfl, hnext, -⟩ | ⟨hnone, -⟩, hover⟩ | ⟨rfl, rfl⟩)
    · have hk := (List.getElem?_eq_some_iff.1 hget).1
      refine .inl ⟨k, y, rfl, by rwa [List.getElem?_append_left hk], rfl, fun z hz => ?_, nofun⟩
      by_cases hlast : k + 1 < taken.length
      · rw [List.getElem?_append_left hlast] at hz
        exact hnext z hz
      · have hend : k + 1 = taken.length := by omega
        rw [hend, List.getElem?_concat_length, Option.some_inj] at hz
        rwa [← hz]
    · contradiction
    · refine .inl ⟨taken.length, (now, x), rfl, by simp, rfl, fun y hy => ?_, nofun⟩
      simp at hy

/-- The closing of the source leaves the plans whose time is over, and adds one for what came last,
if the window after it is not over. -/
theorem planned_closed_iff : Planned debounce taken (some now) t i ↔
    (Planned debounce taken none t i ∧ t < now) ∨
      (t = now ∧ i = taken.length ∧ ∃ y, taken.getLast? = some y ∧ now < y.1 + debounce) := by
  constructor
  · rintro (⟨k, y, hi, hget, ht, hnext, hclosing⟩ | ⟨hnow, hi, hlast⟩)
    · exact .inl ⟨.inl ⟨k, y, hi, hget, ht, hnext, nofun⟩, hclosing now rfl⟩
    · obtain rfl := Option.some_inj.1 hnow
      exact .inr ⟨rfl, hi, hlast⟩
  · rintro (⟨⟨k, y, hi, hget, ht, hnext, -⟩ | ⟨hnone, -⟩, hover⟩ | ⟨rfl, hi, hlast⟩)
    · refine .inl ⟨k, y, hi, hget, ht, hnext, fun closing hclosing => ?_⟩
      rwa [← Option.some_inj.1 hclosing]
    · contradiction
    · exact .inr ⟨rfl, hi, hlast⟩

/-- While the source is open, a plan is that of the last atom, or its time comes before that of
another atom. -/
theorem Planned.last_or_lt (h : Planned debounce taken none t i) :
    (∃ y, taken.getLast? = some y ∧ t = y.1 + debounce ∧ i = taken.length) ∨
      (i < taken.length ∧ ∃ y ∈ taken, t < y.1) := by
  obtain ⟨k, x, rfl, hget, rfl, hnext, -⟩ | ⟨hnone, -⟩ := h
  · have hk := (List.getElem?_eq_some_iff.1 hget).1
    by_cases hlast : k + 1 < taken.length
    · exact .inr ⟨hlast, _, List.getElem_mem hlast, hnext _ (List.getElem?_eq_getElem hlast)⟩
    · have hend : k = taken.length - 1 := by omega
      refine .inl ⟨x, ?_, rfl, by omega⟩
      rw [List.getLast?_eq_getElem?, ← hend, hget]
  · contradiction

/-- The last atom has its plan as long as the source is open. -/
theorem planned_last {y : Nat × Atom} (hlast : taken.getLast? = some y) :
    Planned debounce taken none (y.1 + debounce) taken.length := by
  rw [List.getLast?_eq_getElem?] at hlast
  have hlt := (List.getElem?_eq_some_iff.1 hlast).1
  refine .inl ⟨taken.length - 1, y, by omega, hlast, rfl, fun z hz => ?_, nofun⟩
  have := (List.getElem?_eq_some_iff.1 hz).1
  omega

end Planned

namespace OnSchedule

variable {r : Reducer State} {a : Address} {debounce : Nat} {c : TimedFold State} {t i : Nat}

theorem start (r : Reducer State) (a : Address) (debounce source now : Nat) :
    OnSchedule r a debounce (.start r source now) where
  state_eq := rfl
  sorted := .nil
  le_now := by simp [TimedFold.start]
  deadline := nofun
  settled := nofun
  shown_iff t i := by simp [TimedFold.start, Planned]
  shown_le := by simp [TimedFold.start]
  shown_state := by simp [TimedFold.start]
  increasing := .nil

theorem le_last (h : OnSchedule r a debounce c) {x y : Nat × Atom} (hx : x ∈ c.taken)
    (hlast : c.taken.getLast? = some y) : x.1 ≤ y.1 := by
  obtain ⟨init, hinit⟩ := List.getLast?_eq_some_iff.1 hlast
  have hsorted := h.sorted
  rw [hinit, List.pairwise_append] at hsorted
  rw [hinit] at hx
  rcases List.mem_append.1 hx with hx | hx
  · exact hsorted.2.2 x hx y (by simp)
  · exact Nat.le_of_eq (by rw [List.mem_singleton.1 hx])

/-- While the source is open, what is planned for the time of the deadline is a snapshot of all. -/
theorem planned_deadline_iff (h : OnSchedule r a debounce c) (hdue : c.fold.deadline = some t) :
    Planned debounce c.taken none t i ↔ i = c.taken.length := by
  obtain ⟨-, -, x, hlast, rfl⟩ := h.deadline t hdue
  constructor
  · intro hplanned
    rcases hplanned.last_or_lt with ⟨-, -, -, hi⟩ | ⟨-, y, hy, hlt⟩
    · exact hi
    · have := h.le_last hy hlast
      omega
  · rintro rfl
    exact planned_last hlast

/-- While the source is open, and unless now is a deadline, the plans that are met are those whose
time is over. -/
theorem met_iff (h : OnSchedule r a debounce c) (hopen : c.closed = none)
    (hne : ∀ x, c.taken.getLast? = some x → c.now ≠ x.1 + debounce)
    (hplanned : Planned debounce c.taken none t i) : c.fold.deadline ≠ some t ↔ t < c.now := by
  rcases hplanned.last_or_lt with ⟨x, hlast, rfl, -⟩ | ⟨-, y, hy, hlt⟩
  · have hapart := hne x hlast
    cases hdeadline : c.fold.deadline with
    | none =>
      have hover := (h.settled x hdeadline hlast).2 hopen
      simp only [ne_eq, reduceCtorEq, not_false_eq_true, true_iff]
      omega
    | some due =>
      obtain ⟨-, hle, z, hz, rfl⟩ := h.deadline due hdeadline
      obtain rfl := Option.some_inj.1 (hlast.symm.trans hz)
      simp only [ne_eq, not_true_eq_false, false_iff]
      omega
  · have hover := Nat.lt_of_lt_of_le hlt (h.le_now y hy)
    refine iff_of_true (fun hdue => ?_) hover
    obtain ⟨-, hle, -⟩ := h.deadline t hdue
    omega

/-- What has been published while a deadline is set was published before now, of fewer atoms. -/
theorem shown_earlier (h : OnSchedule r a debounce c) {due : Nat}
    (hdue : c.fold.deadline = some due) {p : Publication State} (hp : p ∈ c.shown) :
    p.time < c.now ∧ p.atoms < c.taken.length := by
  obtain ⟨hopen, -, x, hlast, rfl⟩ := h.deadline due hdue
  obtain ⟨hplanned, hne⟩ := (h.shown_iff p.time p.atoms).1 ⟨p, hp, rfl, rfl⟩
  rw [hopen] at hplanned
  rcases hplanned.last_or_lt with ⟨y, hy, htime, -⟩ | ⟨hatoms, y, hy, hlt⟩
  · obtain rfl := Option.some_inj.1 (hlast.symm.trans hy)
    exact absurd (htime ▸ hdue) hne
  · exact ⟨Nat.lt_of_lt_of_le hlt (h.le_now y hy), hatoms⟩

theorem arrives (h : OnSchedule r a debounce c) {x : Atom} (hrunning : c.fold.running)
    (hopen : c.closed = none)
    (hne : ∀ y, c.taken.getLast? = some y → c.now ≠ y.1 + debounce) :
    OnSchedule r a debounce (c.after r a debounce (.arrives x)) := by
  have hatoms : ∀ p ∈ c.shown, p.atoms ≤ c.taken.length := fun p hp => by
    have hplanned := ((h.shown_iff p.time p.atoms).1 ⟨p, hp, rfl, rfl⟩).1
    rw [hopen] at hplanned
    rcases hplanned.last_or_lt with ⟨-, -, -, hi⟩ | ⟨hlt, -⟩ <;> omega
  rw [after, if_pos hrunning, become, StateFold.shows_receive, StateFold.receive, if_pos hrunning]
  refine ⟨?_, ?_, ?_, ?_, nofun, fun t i => ?_, ?_, ?_, ?_⟩
  · simp [h.state_eq, Reducer.foldAtoms]
  · refine List.pairwise_append.2 ⟨h.sorted, List.pairwise_singleton _ _, fun y hy z hz => ?_⟩
    rw [List.mem_singleton.1 hz]
    exact h.le_now y hy
  · intro y hy
    rcases List.mem_append.1 hy with hy | hy
    · exact h.le_now y hy
    · exact Nat.le_of_eq (by rw [List.mem_singleton.1 hy])
  · rintro due hdue
    obtain rfl := Option.some_inj.1 hdue
    exact ⟨hopen, Nat.le_add_right _ _, (c.now, x), by simp, rfl⟩
  · have hbefore := h.shown_iff t i
    rw [hopen] at hbefore ⊢
    simp only [Option.map_none, Option.toList_none, List.append_nil]
    rw [hbefore, planned_concat_iff h.le_now]
    constructor
    · rintro ⟨hplanned, hmet⟩
      have hover := (h.met_iff hopen hne hplanned).1 hmet
      refine ⟨.inl ⟨hplanned, hover⟩, fun hdue => ?_⟩
      have := Option.some_inj.1 hdue
      omega
    · rintro ⟨⟨hplanned, hover⟩ | ⟨rfl, -⟩, hother⟩
      · exact ⟨hplanned, (h.met_iff hopen hne hplanned).2 hover⟩
      · contradiction
  · simpa using h.shown_le
  · intro p hp
    have hold : p ∈ c.shown := by simpa using hp
    rw [h.shown_state p hold]
    simp only
    rw [List.take_append_of_le_length (hatoms p hold)]
  · simpa using h.increasing

/-- The state of a fold with a deadline is published. -/
theorem concat_shown (h : OnSchedule r a debounce c) {due : Nat}
    (hdue : c.fold.deadline = some due) {shown : List (Publication State)}
    (hshown : shown = c.shown ++ [⟨c.now, c.taken.length, c.fold.state⟩]) :
    (∀ p ∈ shown, p.time ≤ c.now) ∧
      (∀ p ∈ shown, p.state = r.foldAtoms a r.initial ((c.taken.take p.atoms).map (·.2))) ∧
      (shown.Pairwise fun p q => p.time < q.time ∧ p.atoms < q.atoms) ∧
      ∀ t i, (∃ p ∈ shown, p.time = t ∧ p.atoms = i) ↔
        (Planned debounce c.taken none t i ∧ t ≠ due) ∨ (t = c.now ∧ i = c.taken.length) := by
  subst hshown
  refine ⟨fun p hp => ?_, fun p hp => ?_, ?_, fun t i => ?_⟩
  · rcases List.mem_append.1 hp with hp | hp
    · exact h.shown_le p hp
    · exact Nat.le_of_eq (by rw [List.mem_singleton.1 hp])
  · rcases List.mem_append.1 hp with hp | hp
    · exact h.shown_state p hp
    · rw [List.mem_singleton.1 hp, List.take_length]
      exact h.state_eq
  · refine List.pairwise_append.2 ⟨h.increasing, List.pairwise_singleton _ _, fun p hp q hq => ?_⟩
    rw [List.mem_singleton.1 hq]
    exact h.shown_earlier hdue hp
  · have hbefore := h.shown_iff t i
    rw [(h.deadline due hdue).1, hdue, ne_eq, Option.some_inj, eq_comm (a := due)] at hbefore
    rw [← ne_eq] at hbefore
    rw [← hbefore]
    simp only [List.mem_append, List.mem_singleton, or_and_right, exists_or, exists_eq_left,
      eq_comm]

theorem expires (h : OnSchedule r a debounce c) :
    OnSchedule r a debounce (c.after r a debounce .expires) := by
  have hstill : OnSchedule r a debounce (c.become c.fold) := by
    simpa [become] using h
  rw [after, StateFold.advance]
  cases hdue : c.fold.deadline with
  | none => exact hstill
  | some due =>
    simp only
    by_cases hcome : due ≤ c.now
    · obtain ⟨hopen, hle, x, hlast, hdue'⟩ := h.deadline due hdue
      have hadded : (c.become c.fold.publish).shown =
          c.shown ++ [⟨c.now, c.taken.length, c.fold.state⟩] := by
        simp [become, StateFold.shows_publish]
      obtain ⟨hshown_le, hshown_state, hincreasing, hshown_iff⟩ := h.concat_shown hdue hadded
      rw [if_pos hcome]
      refine ⟨h.state_eq, h.sorted, h.le_now, nofun, fun y _ hy => ?_,
        fun t i => ?_, hshown_le, hshown_state, hincreasing⟩
      · obtain rfl := Option.some_inj.1 (hlast.symm.trans hy)
        exact ⟨rfl, fun _ => hdue' ▸ hcome⟩
      · have hnow : due = c.now := Nat.le_antisymm hcome hle
        have hplanned := @h.planned_deadline_iff _ _ _ _ _ due i hdue
        show _ ↔ Planned debounce c.taken c.closed t i ∧ none ≠ some t
        rw [hshown_iff, hopen, ← hnow]
        by_cases ht : t = due
        · subst ht
          simp [hplanned]
        · simp [ht]
    · rw [if_neg hcome]
      exact hstill

theorem closes (h : OnSchedule r a debounce c) (hrunning : c.fold.running)
    (hopen : c.closed = none)
    (hne : ∀ y, c.taken.getLast? = some y → c.now ≠ y.1 + debounce) :
    OnSchedule r a debounce (c.after r a debounce .closes) := by
  have hmet : ∀ t i, Planned debounce c.taken none t i →
      (c.fold.deadline ≠ some t ↔ t < c.now) := fun t i => h.met_iff hopen hne
  have hshows := StateFold.shows_close hrunning
  rw [after, if_pos hrunning]
  cases hdue : c.fold.deadline with
  | none =>
    -- All is published already.
    rw [if_pos hdue] at hshows
    have hshown : (c.become c.fold.close).shown = c.shown := by simp [become, hshows]
    have hover : ¬∃ y, c.taken.getLast? = some y ∧ c.now < y.1 + debounce := by
      rintro ⟨y, hlast, hlt⟩
      have := (h.settled y hdue hlast).2 hopen
      omega
    have hclose := StateFold.close_of_published hrunning hdue
    refine ⟨?_, h.sorted, h.le_now, ?_, fun y _ hy => ⟨?_, nofun⟩, fun t i => ?_,
      hshown ▸ h.shown_le, hshown ▸ h.shown_state, hshown ▸ h.increasing⟩
    · simpa [become, hclose] using h.state_eq
    · simp [become, hclose, hdue]
    · simpa [become, hclose, Published.stop] using (h.settled y hdue hy).1
    · have hopens := hmet t i
      show (∃ p ∈ (c.become c.fold.close).shown, _) ↔
        Planned debounce c.taken (some c.now) t i ∧ c.fold.close.deadline ≠ some t
      rw [hdue] at hopens
      rw [hshown, h.shown_iff, hopen, hdue, planned_closed_iff, hclose, hdue]
      simp only [hover, and_false, or_false, ne_eq, reduceCtorEq, not_false_eq_true, and_true,
        true_iff] at hopens ⊢
      exact ⟨fun hplanned => ⟨hplanned, hopens hplanned⟩, And.left⟩
  | some due =>
    obtain ⟨-, hle, x, hlast, hdue'⟩ := h.deadline due hdue
    rw [if_neg (by simp [hdue])] at hshows
    have hadded : (c.become c.fold.close).shown =
        c.shown ++ [⟨c.now, c.taken.length, c.fold.state⟩] := by simp [become, hshows]
    obtain ⟨hshown_le, hshown_state, hincreasing, hshown_iff⟩ := h.concat_shown hdue hadded
    have hwithin : ∃ y, c.taken.getLast? = some y ∧ c.now < y.1 + debounce := by
      refine ⟨x, hlast, ?_⟩
      have := hne x hlast
      omega
    have hclose := StateFold.close_of_deadline hrunning hdue
    refine ⟨?_, h.sorted, h.le_now, ?_, fun y _ _ => ⟨?_, nofun⟩, fun t i => ?_, hshown_le,
      hshown_state, hincreasing⟩
    · simpa [become, hclose, StateFold.publish] using h.state_eq
    · simp [become, hclose, StateFold.publish]
    · simp [become, hclose, StateFold.publish, Published.publish, Published.stop]
    · have hopens := hmet t i
      show (∃ p ∈ (c.become c.fold.close).shown, _) ↔
        Planned debounce c.taken (some c.now) t i ∧ c.fold.close.deadline ≠ some t
      rw [hdue, ne_eq, Option.some_inj, eq_comm (a := due)] at hopens
      rw [hshown_iff, planned_closed_iff, hclose]
      simp only [hwithin, and_true, ne_eq, StateFold.publish, reduceCtorEq, not_false_eq_true]
      exact or_congr_left (and_congr_right hopens)

theorem passes (h : OnSchedule r a debounce c) (ms : Nat) :
    OnSchedule r a debounce (c.after r a debounce (.passes ms)) := by
  have hle : c.now ≤ c.reach ms := by
    unfold reach
    cases hdue : c.fold.deadline with
    | none => exact Nat.le_add_right _ _
    | some due =>
      have := (h.deadline due hdue).2.1
      simp only [Option.elim_some]
      omega
  refine ⟨h.state_eq, h.sorted, fun x hx => Nat.le_trans (h.le_now x hx) hle,
    fun due hdue => ?_, fun x hdue hlast => ?_, h.shown_iff,
    fun p hp => Nat.le_trans (h.shown_le p hp) hle, h.shown_state, h.increasing⟩
  · obtain ⟨hopen, -, hlast⟩ := h.deadline due hdue
    refine ⟨hopen, ?_, hlast⟩
    have hset : c.fold.deadline = some due := hdue
    simp only [after, reach, hset, Option.elim_some]
    omega
  · obtain ⟨hlatest, hover⟩ := h.settled x hdue hlast
    exact ⟨hlatest, fun hopen => Nat.le_trans (hover hopen) hle⟩

/-- One event, if it does not come exactly at a deadline. -/
theorem after (h : OnSchedule r a debounce c) (hopen : c.fold.running ↔ c.closed = none)
    (e : FoldEvent)
    (huntied : Untied debounce (c.after r a debounce e).taken (c.after r a debounce e).closed) :
    OnSchedule r a debounce (c.after r a debounce e) := by
  cases e with
  | arrives x =>
    by_cases hrunning : c.fold.running
    · refine h.arrives hrunning (hopen.1 hrunning) fun y hlast => ?_
      rw [TimedFold.after, if_pos hrunning] at huntied
      rw [List.getLast?_eq_getElem?] at hlast
      have hlt := (List.getElem?_eq_some_iff.1 hlast).1
      refine huntied.next_ne (c.taken.length - 1) y (c.now, x) ?_ ?_
      · rwa [List.getElem?_append_left hlt]
      · rw [show c.taken.length - 1 + 1 = c.taken.length by omega, List.getElem?_concat_length]
    · rwa [TimedFold.after, if_neg hrunning]
  | closes =>
    by_cases hrunning : c.fold.running
    · refine h.closes hrunning (hopen.1 hrunning) fun y hlast => ?_
      rw [TimedFold.after, if_pos hrunning] at huntied
      exact huntied.closing_ne y c.now hlast rfl
    · rwa [TimedFold.after, if_neg hrunning]
  | expires => exact h.expires
  | passes ms => exact h.passes ms

end OnSchedule

/-! ## Runs -/

section Runs

variable {r : Reducer State} {a : Address} {debounce : Nat} {c : TimedFold State}

theorem run_concat (events : List FoldEvent) (e : FoldEvent) :
    c.run r a debounce (events ++ [e]) = (c.run r a debounce events).after r a debounce e := by
  simp [run]

/-- A fold runs until its source closes. -/
theorem running_after_iff (h : c.fold.running ↔ c.closed = none) (e : FoldEvent) :
    (c.after r a debounce e).fold.running ↔ (c.after r a debounce e).closed = none := by
  cases e with
  | arrives x =>
    rw [after]
    split
    · next hrunning =>
      rw [become, StateFold.receive, if_pos hrunning]
      exact h
    · exact h
  | closes =>
    rw [after]
    split
    · next hrunning =>
      rw [become, StateFold.close, if_pos hrunning]
      simp [StateFold.running, Published.stop]
    · exact h
  | expires =>
    rw [after, become, StateFold.advance]
    split
    · split <;> exact h
    · exact h
  | passes ms => exact h

theorem running_run_iff (source now : Nat) (events : List FoldEvent) :
    let c := (start r source now).run r a debounce events
    c.fold.running ↔ c.closed = none := by
  induction events using List.reverseRecOn with
  | nil => simp [run, start, StateFold.start, StateFold.running, Published.nothing]
  | append_singleton events e ih =>
    rw [run_concat]
    exact running_after_iff ih e

/-- What came at no deadline before an event came at none at all. -/
theorem Untied.of_after (hopen : c.fold.running ↔ c.closed = none) {e : FoldEvent}
    (h : Untied debounce (c.after r a debounce e).taken (c.after r a debounce e).closed) :
    Untied debounce c.taken c.closed := by
  cases e with
  | arrives x =>
    rw [after] at h
    split at h
    · next hrunning =>
      refine ⟨fun k y z hy hz => h.next_ne k y z ?_ ?_, fun y closing _ hclosed => ?_⟩
      · rwa [List.getElem?_append_left (List.getElem?_eq_some_iff.1 hy).1]
      · rwa [List.getElem?_append_left (List.getElem?_eq_some_iff.1 hz).1]
      · rw [hopen.1 hrunning] at hclosed
        contradiction
    · exact h
  | closes =>
    rw [after] at h
    split at h
    · next hrunning =>
      refine ⟨h.next_ne, fun y closing _ hclosed => ?_⟩
      rw [hopen.1 hrunning] at hclosed
      contradiction
    · exact h
  | expires => exact h
  | passes ms => exact h

theorem OnSchedule.run (source now : Nat) (events : List FoldEvent)
    (huntied : let c := (TimedFold.start r source now).run r a debounce events
      Untied debounce c.taken c.closed) :
    OnSchedule r a debounce ((TimedFold.start r source now).run r a debounce events) := by
  induction events using List.reverseRecOn with
  | nil => exact .start r a debounce source now
  | append_singleton events e ih =>
    have hopen := @running_run_iff _ r a debounce source now events
    rw [run_concat] at huntied ⊢
    exact (ih (Untied.of_after hopen huntied)).after hopen e huntied

end Runs

end TimedFold

/-- **A fold publishes on schedule.** Atoms come to a fold and its source may close, at any times,
none of them exactly at a deadline, and all that can happen by now has happened. Then what has been
published is, in order, each once: for every atom that neither another atom nor the closing of the
source followed within the debounce window, at the end of the window, the fold of the atoms up to it;
and at the closing of the source, if the last atom came within the window before it, the fold of all
atoms. Each publication covers more atoms than the one before. Once the source has closed, what is
shown is the fold of all atoms, if there were any. -/
theorem StateFold.publishes_on_schedule {State : Type} (r : Reducer State) (a : Address)
    (debounce source opened : Nat) (events : List FoldEvent) :
    let c := (TimedFold.start r source opened).run r a debounce (events ++ [.expires])
    let folded i := r.foldAtoms a r.initial ((c.taken.take i).map (·.2))
    TimedFold.Untied debounce c.taken c.closed →
      (∀ t i s, ⟨t, i, s⟩ ∈ c.shown ↔
        TimedFold.Planned debounce c.taken c.closed t i ∧ t ≤ c.now ∧ s = folded i) ∧
      (c.shown.Pairwise fun p q => p.time < q.time ∧ p.atoms < q.atoms) ∧
      (c.closed ≠ none → c.taken ≠ [] →
        c.fold.published.latest = some (folded c.taken.length)) := by
  intro c folded huntied
  have h : TimedFold.OnSchedule r a debounce c := .run source opened _ huntied
  have hahead : ∀ t, c.fold.deadline = some t → c.now < t := by
    simp only [c, TimedFold.run_concat]
    exact fun t => lt_of_deadline_advance
  refine ⟨fun t i s => ⟨fun hp => ?_, ?_⟩, h.increasing, fun hclosed htaken => ?_⟩
  · exact ⟨((h.shown_iff t i).1 ⟨_, hp, rfl, rfl⟩).1, h.shown_le _ hp, h.shown_state _ hp⟩
  · rintro ⟨hplanned, hle, rfl⟩
    have hmet : c.fold.deadline ≠ some t := fun hdue => by
      have := hahead t hdue
      omega
    obtain ⟨p, hp, rfl, rfl⟩ := (h.shown_iff t i).2 ⟨hplanned, hmet⟩
    rwa [show folded p.atoms = p.state from (h.shown_state p hp).symm]
  · obtain ⟨x, hlast⟩ := Option.ne_none_iff_exists'.1 (mt List.getLast?_eq_none_iff.1 htaken)
    have hdue : c.fold.deadline = none := by
      cases hdue : c.fold.deadline with
      | none => rfl
      | some due => exact absurd (h.deadline due hdue).1 hclosed
    rw [(h.settled x hdue hlast).1, h.state_eq]
    simp only [folded, List.take_length]

namespace Sample

/-- Counts particles. -/
def counter : Reducer Nat := ⟨"counter", 0, fun n _ => n + 1⟩

/-- Two atoms within one window, a quiet time, and a third atom shortly before the closing. -/
def burst : List FoldEvent :=
  [.arrives issue, .passes 600, .arrives spend, .passes 5000, .expires, .passes 400,
    .arrives reissue, .passes 100, .closes]

end Sample

/-- Two atoms of a burst are published together, one window after the second, and the atom that comes
within the window before the closing is published then. -/
theorem StateFold.publishes_on_schedule_burst :
    let c := (TimedFold.start Sample.counter 0 0).run Sample.counter Sample.address 1000
      (Sample.burst ++ [.expires])
    TimedFold.Untied 1000 c.taken c.closed ∧ ⟨1600, 2, 2⟩ ∈ c.shown ∧
      c.fold.published.latest = some 3 := by
  intro c
  have htaken : c.taken = [(0, Sample.issue), (600, Sample.spend), (2000, Sample.reissue)] := by
    decide +kernel
  have hclosed : c.closed = some 2100 := by decide +kernel
  have hnow : c.now = 2100 := by decide +kernel
  have huntied : TimedFold.Untied 1000 c.taken c.closed := by
    rw [htaken, hclosed]
    refine ⟨fun k x y hx hy => ?_, ?_⟩
    · match k with
      | 0 | 1 =>
        cases hx
        cases hy
        simp
      | k + 2 => simp at hy
    · simp
  obtain ⟨hshown, -, hlatest⟩ :=
    publishes_on_schedule Sample.counter Sample.address 1000 0 0 Sample.burst huntied
  have hplanned : TimedFold.Planned 1000 c.taken c.closed 1600 2 := by
    rw [htaken, hclosed]
    exact .inl ⟨1, (600, Sample.spend), rfl, rfl, rfl, by simp, by simp⟩
  have hcome : 1600 ≤ c.now := by
    rw [hnow]
    omega
  refine ⟨huntied, (hshown 1600 2 2).2 ⟨hplanned, hcome, ?_⟩, ?_⟩
  · change 2 = Sample.counter.foldAtoms _ _ ((c.taken.take 2).map (·.2))
    rw [htaken]
    rfl
  · exact hlatest (by rw [hclosed]; nofun) (by rw [htaken]; nofun)

end ParticleLedger
