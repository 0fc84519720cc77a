import Std.Data.ExtTreeMap

/-!
# Fan-out to subscribers

A broadcaster gives every subscriber an inbox. A message posted is put at the end of every inbox
that is open; each subscriber takes messages from the front of its own. Inboxes have no bound, and
closing one leaves the others alone.

Main statements: `inbox?_post`, `inbox?_subscribe`, `inbox?_unsubscribe` and `inbox?_take`, which
say what each operation does to each inbox.
-/

namespace ParticleLedger

open Std (ExtTreeMap)

/-- The inboxes of a broadcaster, by the number of the subscriber. -/
structure Broadcast (α : Type) where
  inboxes : ExtTreeMap Nat (List α)
  /-- How many subscribers there have been. -/
  opened : Nat

namespace Broadcast

variable {α : Type}

/-- No subscribers yet. -/
def empty : Broadcast α := ⟨∅, 0⟩

/-- The messages that wait for a subscriber, if its inbox is open. -/
def inbox? (b : Broadcast α) (id : Nat) : Option (List α) :=
  b.inboxes[id]?

/-- Opens an inbox; its number is `b.opened`. -/
def subscribe (b : Broadcast α) : Broadcast α :=
  ⟨b.inboxes.insert b.opened [], b.opened + 1⟩

/-- Closes an inbox. -/
def unsubscribe (b : Broadcast α) (id : Nat) : Broadcast α :=
  { b with inboxes := b.inboxes.erase id }

/-- Puts messages at the end of every open inbox. -/
def post (b : Broadcast α) (messages : List α) : Broadcast α :=
  { b with inboxes := b.inboxes.map fun _ inbox => inbox ++ messages }

/-- The broadcaster after a subscriber has taken its first `n` messages. -/
def take (b : Broadcast α) (id n : Nat) : Broadcast α :=
  { b with inboxes := b.inboxes.modify id (·.drop n) }

theorem inbox?_subscribe (b : Broadcast α) (id : Nat) :
    b.subscribe.inbox? id = if id = b.opened then some [] else b.inbox? id := by
  simp only [inbox?, subscribe, ExtTreeMap.getElem?_insert, Nat.compare_eq_eq]
  grind

theorem inbox?_unsubscribe (b : Broadcast α) (gone id : Nat) :
    (b.unsubscribe gone).inbox? id = if id = gone then none else b.inbox? id := by
  simp only [inbox?, unsubscribe, ExtTreeMap.getElem?_erase, Nat.compare_eq_eq]
  grind

theorem inbox?_post (b : Broadcast α) (messages : List α) (id : Nat) :
    (b.post messages).inbox? id = (b.inbox? id).map (· ++ messages) := by
  simp [inbox?, post, ExtTreeMap.getElem?_map]

theorem inbox?_take (b : Broadcast α) (taker n id : Nat) :
    (b.take taker n).inbox? id =
      if id = taker then (b.inbox? id).map (·.drop n) else b.inbox? id := by
  simp only [inbox?, take, ExtTreeMap.getElem?_modify, Nat.compare_eq_eq]
  grind

end Broadcast

end ParticleLedger
