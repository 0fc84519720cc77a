import Mathlib.Data.List.Nodup
import ParticleLedger.Broadcast

/-!
# Subscribers that go away unheard

Each subscriber has a conduit of its own, with a sending end and a receiving one. A subscriber that
lets its end go tells nobody: its conduit stays among those that are sent to until a message is
refused there, and only then is it forgotten. `Distributor.publish` is this walk over the conduits,
which sends and forgets at once.

A `Broadcast` shows nothing of it; there an inbox is closed at once. `Distributor.Shows` says that
the two are the same to every subscriber that is still there, and each operation keeps it.

Main statements: `Distributor.waiting?_change` (what an operation does to the conduits that are held
is all that subscribers see), the laws of the operations that follow from it,
`held_of_mem_publish`, and `Shows.subscribe`, `Shows.leave`, `Shows.receive` and `Shows.publish`.
-/

namespace ParticleLedger

variable {α : Type}

/-! ## One conduit -/

/-- The conduit of one subscriber, with both its ends. -/
structure Conduit (α : Type) where
  /-- The number of the subscriber. -/
  number : Nat
  /-- Whether the subscriber still holds its end. -/
  held : Bool
  /-- The messages that were sent and not received yet, the oldest first. -/
  waiting : List α

namespace Conduit

/-- Sends a message, which is refused if nobody holds the other end. -/
def send? (c : Conduit α) (message : α) : Option (Conduit α) :=
  if c.held then some { c with waiting := c.waiting ++ [message] } else none

/-- Sends messages one after another until one is refused. -/
def sendAll? (c : Conduit α) (messages : List α) : Option (Conduit α) :=
  messages.foldlM send? c

/-- A conduit that is held takes every message. -/
theorem sendAll?_of_held {c : Conduit α} (h : c.held = true) (messages : List α) :
    c.sendAll? messages = some { c with waiting := c.waiting ++ messages } := by
  induction messages generalizing c with
  | nil => simp [sendAll?]
  | cons m rest ih =>
    rw [sendAll?, List.foldlM_cons, send?, if_pos h]
    simpa [sendAll?] using ih (c := { c with waiting := c.waiting ++ [m] }) h

/-- A conduit that is not held refuses the first message. -/
theorem sendAll?_of_not_held {c : Conduit α} (h : c.held = false) {messages : List α}
    (hsome : messages ≠ []) : c.sendAll? messages = none := by
  obtain ⟨m, rest, rfl⟩ := List.exists_cons_of_ne_nil hsome
  simp [sendAll?, send?, h]

/-- A conduit takes some messages if it is held, and has them at the end of those that wait. -/
theorem sendAll?_eq_some_iff {c e : Conduit α} {messages : List α} (hsome : messages ≠ []) :
    c.sendAll? messages = some e ↔
      c.held = true ∧ { c with waiting := c.waiting ++ messages } = e := by
  cases hheld : c.held with
  | true => simp [sendAll?_of_held hheld, hheld]
  | false => simp [sendAll?_of_not_held hheld hsome]

end Conduit

/-! ## All conduits -/

/-- The conduits to which messages are sent. -/
structure Distributor (α : Type) where
  /-- The conduits, that of the oldest subscriber first. -/
  conduits : List (Conduit α)
  /-- How many subscribers there have been. -/
  opened : Nat
  number_lt : ∀ c ∈ conduits, c.number < opened
  ordered : conduits.Pairwise fun c d => c.number < d.number

namespace Distributor

variable {d : Distributor α} {id : Nat} {waiting : List α} {c e : Conduit α}

/-- No subscribers yet. -/
def empty : Distributor α := ⟨[], 0, by simp, .nil⟩

/-- Opens a conduit; its number is `d.opened`. -/
def subscribe (d : Distributor α) : Distributor α where
  conduits := d.conduits ++ [⟨d.opened, true, []⟩]
  opened := d.opened + 1
  number_lt c hc := by
    rcases List.mem_append.1 hc with hc | hc
    · exact Nat.lt_succ_of_lt (d.number_lt c hc)
    · rw [List.mem_singleton.1 hc]
      exact Nat.lt_succ_self _
  ordered := by
    refine List.pairwise_append.2 ⟨d.ordered, List.pairwise_singleton _ _, fun c hc e he => ?_⟩
    rw [List.mem_singleton.1 he]
    exact d.number_lt c hc

/-- Walks over the conduits and changes each of them, or forgets it. -/
def change (d : Distributor α) (f : Conduit α → Option (Conduit α))
    (hnumber : ∀ c e, f c = some e → e.number = c.number) : Distributor α where
  conduits := d.conduits.filterMap f
  opened := d.opened
  number_lt e he := by
    obtain ⟨c, hc, hfc⟩ := List.mem_filterMap.1 he
    rw [hnumber c e hfc]
    exact d.number_lt c hc
  ordered := d.ordered.filterMap f fun b c hlt b' hb c' hc => by
    rw [hnumber b b' hb, hnumber c c' hc]
    exact hlt

/-- A subscriber lets its end of the conduit go. -/
def leave (d : Distributor α) (gone : Nat) : Distributor α :=
  d.change (fun c => some { c with held := c.held && c.number != gone }) (by simp +contextual)

/-- A subscriber receives its next message, if there is one. -/
def receive (d : Distributor α) (taker : Nat) : Distributor α :=
  d.change
    (fun c => some { c with waiting := if c.number = taker then c.waiting.tail else c.waiting })
    (by simp +contextual)

/-- Sends messages to every conduit, and forgets those that refuse one. -/
def publish (d : Distributor α) (messages : List α) : Distributor α :=
  if hnone : messages = [] then d
  else d.change (·.sendAll? messages) fun c e h => by
    obtain ⟨-, rfl⟩ := (Conduit.sendAll?_eq_some_iff hnone).1 h
    rfl

@[simp] theorem opened_publish (d : Distributor α) (messages : List α) :
    (d.publish messages).opened = d.opened := by
  rw [publish]
  split <;> rfl

/-- The messages that wait for a subscriber, if it still holds its end. -/
def waiting? (d : Distributor α) (id : Nat) : Option (List α) :=
  (d.conduits.find? fun c => c.number = id && c.held).map (·.waiting)

/-! ## What subscribers see -/

/-- No two conduits have the same number. -/
theorem eq_of_number_eq (hc : c ∈ d.conduits) (he : e ∈ d.conduits) (h : c.number = e.number) :
    c = e := by
  have hdistinct : (d.conduits.map Conduit.number).Nodup :=
    List.pairwise_map.2 (d.ordered.imp Nat.ne_of_lt)
  exact List.inj_on_of_nodup_map hdistinct hc he h

theorem waiting?_eq_some_iff : d.waiting? id = some waiting ↔ ⟨id, true, waiting⟩ ∈ d.conduits := by
  rw [waiting?, Option.map_eq_some_iff]
  constructor
  · rintro ⟨c, hfind, rfl⟩
    have hc := List.mem_of_find?_eq_some hfind
    have hmatch := List.find?_some hfind
    simp only [Bool.and_eq_true, decide_eq_true_eq] at hmatch
    obtain ⟨rfl, hheld⟩ := hmatch
    rwa [← hheld]
  · intro hmem
    cases hfind : d.conduits.find? fun c => c.number = id && c.held with
    | none => simpa using List.find?_eq_none.1 hfind _ hmem
    | some c =>
      have hmatch := List.find?_some hfind
      simp only [Bool.and_eq_true, decide_eq_true_eq] at hmatch
      obtain rfl := eq_of_number_eq (List.mem_of_find?_eq_some hfind) hmem hmatch.1
      exact ⟨_, rfl, rfl⟩

theorem lt_opened_of_waiting? (h : d.waiting? id = some waiting) : id < d.opened :=
  d.number_lt _ (waiting?_eq_some_iff.1 h)

/-- Let a change not give anyone an end back. What it does to the conduits that are held is all that
subscribers see of it. -/
theorem waiting?_change {f : Conduit α → Option (Conduit α)}
    {hnumber : ∀ c e, f c = some e → e.number = c.number} {g : List α → Option (List α)}
    (hgone : ∀ c e, f c = some e → e.held = true → c.held = true)
    (hheld : ∀ before after,
      f ⟨id, true, before⟩ = some ⟨id, true, after⟩ ↔ g before = some after) :
    (d.change f hnumber).waiting? id = (d.waiting? id).bind g := by
  ext after
  rw [waiting?_eq_some_iff, change, List.mem_filterMap, Option.bind_eq_some_iff]
  constructor
  · rintro ⟨c, hc, hfc⟩
    have hname : c.number = id := (hnumber c _ hfc).symm
    have hthere : c.held = true := hgone c _ hfc rfl
    obtain ⟨number, held, before⟩ := c
    obtain rfl : number = id := hname
    obtain rfl : held = true := hthere
    exact ⟨before, waiting?_eq_some_iff.2 hc, (hheld before after).1 hfc⟩
  · rintro ⟨before, hbefore, hg⟩
    exact ⟨_, waiting?_eq_some_iff.1 hbefore, (hheld before after).2 hg⟩

theorem waiting?_empty : (empty : Distributor α).waiting? id = none := rfl

theorem waiting?_subscribe (d : Distributor α) (id : Nat) :
    d.subscribe.waiting? id = if id = d.opened then some [] else d.waiting? id := by
  ext waiting
  rw [waiting?_eq_some_iff, subscribe, List.mem_append, List.mem_singleton]
  by_cases hid : id = d.opened
  · subst hid
    have hunused : (⟨d.opened, true, waiting⟩ : Conduit α) ∉ d.conduits := fun hmem =>
      Nat.lt_irrefl _ (d.number_lt _ hmem)
    simp [hunused, eq_comm]
  · simp [hid, waiting?_eq_some_iff]

theorem waiting?_leave (d : Distributor α) (gone id : Nat) :
    (d.leave gone).waiting? id = if id = gone then none else d.waiting? id := by
  rw [leave, waiting?_change (g := fun waiting => if id = gone then none else some waiting)]
  · by_cases hid : id = gone <;> simp [hid]
  · simp +contextual
  · intro before after
    by_cases hid : id = gone <;> simp [hid]

theorem waiting?_receive (d : Distributor α) (taker id : Nat) :
    (d.receive taker).waiting? id =
      if id = taker then (d.waiting? id).map (·.drop 1) else d.waiting? id := by
  rw [receive, waiting?_change
    (g := fun waiting => some (if id = taker then waiting.drop 1 else waiting))]
  · by_cases hid : id = taker
    · simp only [if_pos hid]
      cases d.waiting? id <;> rfl
    · simp [hid]
  · simp +contextual
  · simp

theorem waiting?_publish (d : Distributor α) (messages : List α) (id : Nat) :
    (d.publish messages).waiting? id = (d.waiting? id).map (· ++ messages) := by
  rw [publish]
  split
  · next hnone => simp [hnone]
  · next hsome =>
    rw [waiting?_change (g := fun waiting => some (waiting ++ messages))]
    · cases d.waiting? id <;> rfl
    · intro c e h _
      exact ((Conduit.sendAll?_eq_some_iff hsome).1 h).1
    · intro before after
      simp [Conduit.sendAll?_eq_some_iff hsome]

/-- A conduit that has been let go is forgotten with the next message. -/
theorem held_of_mem_publish {messages : List α} (hsome : messages ≠ [])
    (h : c ∈ (d.publish messages).conduits) : c.held = true := by
  rw [publish, dif_neg hsome, change, List.mem_filterMap] at h
  obtain ⟨before, -, h⟩ := h
  obtain ⟨hheld, rfl⟩ := (Conduit.sendAll?_eq_some_iff hsome).1 h
  exact hheld

/-! ## Inboxes -/

/-- Every subscriber that holds its end finds in its conduit what waits in its inbox, and the
inboxes of the others are closed. -/
structure Shows (d : Distributor α) (b : Broadcast α) : Prop where
  opened_eq : d.opened = b.opened
  waiting?_eq : ∀ id, d.waiting? id = b.inbox? id

namespace Shows

variable {b : Broadcast α}

theorem empty : (Distributor.empty : Distributor α).Shows .empty :=
  ⟨rfl, fun id => by simp [waiting?_empty, Broadcast.empty, Broadcast.inbox?]⟩

theorem subscribe (h : d.Shows b) : d.subscribe.Shows b.subscribe where
  opened_eq := congrArg (· + 1) h.opened_eq
  waiting?_eq id := by
    rw [waiting?_subscribe, Broadcast.inbox?_subscribe, h.opened_eq, h.waiting?_eq]

theorem leave (h : d.Shows b) (gone : Nat) : (d.leave gone).Shows (b.unsubscribe gone) where
  opened_eq := h.opened_eq
  waiting?_eq id := by rw [waiting?_leave, Broadcast.inbox?_unsubscribe, h.waiting?_eq]

theorem receive (h : d.Shows b) (taker : Nat) : (d.receive taker).Shows (b.take taker 1) where
  opened_eq := h.opened_eq
  waiting?_eq id := by rw [waiting?_receive, Broadcast.inbox?_take, h.waiting?_eq]

theorem publish (h : d.Shows b) (messages : List α) :
    (d.publish messages).Shows (b.post messages) where
  opened_eq := (opened_publish d messages).trans h.opened_eq
  waiting?_eq id := by rw [waiting?_publish, Broadcast.inbox?_post, h.waiting?_eq]

end Shows

end Distributor

end ParticleLedger
