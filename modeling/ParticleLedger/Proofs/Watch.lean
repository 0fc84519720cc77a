import ParticleLedger.Poll

/-!
# Channels that keep the latest value

A watch channel has one sender, which changes the value that the channel keeps and is dropped at some
time, and any number of receivers. A receiver reads the value that is kept and marks it as seen, or
waits until there is a value that it has not marked. How a channel remembers what a receiver has
marked is its own affair: `WatchChannel.Lawful` says what its users rely on, and
`WatchChannel.counting` is a channel that numbers its values. Who uses a receiver does so in calls that
take several steps (`CallStage`), between which anything may happen.
-/

namespace ParticleLedger

/-- A channel that keeps the latest value. -/
structure WatchChannel (α : Type) where
  /-- What the sender and the receivers share. -/
  Shared : Type
  /-- What a receiver remembers. -/
  Mark : Type
  /-- A channel that keeps a value, and what its first receiver remembers. -/
  create : α → Shared × Mark
  value : Shared → α
  /-- The sender changes the value. -/
  modify : (α → α) → Shared → Shared
  /-- The sender is dropped. -/
  drop : Shared → Shared
  dropped : Shared → Bool
  /-- A receiver marks the value as seen. -/
  see : Shared → Mark → Mark
  /-- A receiver asks for a change: it is told that there is one and has marked the value as seen, or
  that there will be none, or it sleeps until the sender changes the value or is dropped. -/
  changed : Shared → Mark → Poll Mark

namespace WatchChannel

variable {α : Type}

/-- What the users of a channel rely on. `Knows shared mark seen` says that a receiver of the channel
remembers `mark`, and whether it has marked the value that is kept as seen. -/
structure Lawful (w : WatchChannel α) (Knows : w.Shared → w.Mark → Bool → Prop) : Prop where
  value_create : ∀ a, w.value (w.create a).1 = a
  value_modify : ∀ f shared, w.value (w.modify f shared) = f (w.value shared)
  value_drop : ∀ shared, w.value (w.drop shared) = w.value shared
  dropped_create : ∀ a, w.dropped (w.create a).1 = false
  dropped_modify : ∀ f shared, w.dropped (w.modify f shared) = w.dropped shared
  dropped_drop : ∀ shared, w.dropped (w.drop shared) = true
  /-- The value that a channel begins with counts as seen. -/
  knows_create : ∀ a, Knows (w.create a).1 (w.create a).2 true
  /-- Nobody has seen a value that was just put there. -/
  knows_modify : ∀ f {shared mark seen}, Knows shared mark seen → Knows (w.modify f shared) mark false
  knows_drop : ∀ {shared mark seen}, Knows shared mark seen → Knows (w.drop shared) mark seen
  knows_see : ∀ {shared mark seen}, Knows shared mark seen → Knows shared (w.see shared mark) true
  changed_of_unseen : ∀ {shared mark}, Knows shared mark false →
    w.changed shared mark = .ready (w.see shared mark)
  changed_of_seen : ∀ {shared mark}, Knows shared mark true →
    w.changed shared mark = if w.dropped shared then .ended else .pending

/-- What a channel shares that numbers its values. -/
structure Numbered (α : Type) where
  value : α
  number : Nat
  dropped : Bool

/-- A receiver that has marked the value as seen remembers its number, another one an earlier
number. -/
def Numbered.Knows (shared : Numbered α) (mark : Nat) (seen : Bool) : Prop :=
  if seen then mark = shared.number else mark < shared.number

/-- A channel that numbers its values. A receiver remembers the number of the value that it has marked
as seen. -/
def counting (α : Type) : WatchChannel α where
  Shared := Numbered α
  Mark := Nat
  create a := (⟨a, 0, false⟩, 0)
  value := Numbered.value
  modify f shared := { shared with value := f shared.value, number := shared.number + 1 }
  drop shared := { shared with dropped := true }
  dropped := Numbered.dropped
  see shared _ := shared.number
  changed shared mark :=
    if mark ≠ shared.number then .ready shared.number
    else if shared.dropped then .ended
    else .pending

theorem lawful_counting (α : Type) : (counting α).Lawful Numbered.Knows where
  value_create _ := rfl
  value_modify _ _ := rfl
  value_drop _ := rfl
  dropped_create _ := rfl
  dropped_modify _ _ := rfl
  dropped_drop _ := rfl
  knows_create _ := rfl
  knows_modify := by
    intro f shared mark seen h
    cases seen with
    | true => exact Nat.lt_succ_of_le (Nat.le_of_eq h)
    | false => exact Nat.lt_succ_of_lt h
  knows_drop h := h
  knows_see _ := rfl
  changed_of_unseen h := if_pos (Nat.ne_of_lt h)
  changed_of_seen h := if_neg (not_not_intro h)

end WatchChannel

/-! ## Calls of readers -/

/-- How far a call of a reader is. -/
inductive CallStage where
  /-- No call is under way. -/
  | idle
  /-- What the channel keeps is looked at next. -/
  | looking
  /-- The channel is asked for a change next. -/
  | asking
  /-- There was no change; nothing happens until the channel wakes the reader. -/
  | asleep
  deriving DecidableEq

/-- What can be done with a reader. -/
inductive ReaderAct where
  /-- A call begins, unless one is under way. -/
  | call
  /-- The call that is under way takes a step. -/
  | advance
  /-- The call that is under way is given up. -/
  | abandon
  deriving DecidableEq

end ParticleLedger
