import ParticleLedger.Proofs.Feed.Delivery
import ParticleLedger.Proofs.Reconciler.History
import ParticleLedger.Wallet.Basic

/-!
# Runs of a wallet

The parts of a wallet take their steps in any order, and connections do what they like. A run is a
list of such steps (`Wallet.Event`); nothing is assumed of their order or of the times at which they
happen. What a run shows of an address on the way is collected beside it: the atoms that reached its
pump, those handed to its reconcilers, and those that its reconciler passed on.

The feeds, subscriptions and tasks of a wallet are its wiring. What a step can do to it is said once,
by `Wiring.Step`; what is invariant of the wiring is derived from that.

Main statements: `forwards_after` (all that a forwarding task can do), `step_after` (all that a step
can do to the wiring) and `collect_concat`.
-/

namespace ParticleLedger

open Std (ExtTreeMap)

namespace Wallet

/-- A step that a part of the wallet takes, or its user, or a connection. -/
inductive Event where
  | watch (a : Address)
  | unwatch (a : Address)
  | reap (task : Nat)
  | forward (task : Nat)
  | pump (now : Nat) (a : Address) (e : TransportEvent)
  | foldBalances (now : Nat) (a : Address)
  | foldDefinitions (now : Nat) (a : Address)
  | advance (now : Nat)

/-- The wallet after a step; a part that cannot take its step stays as it is. -/
def after (w : Wallet) : Event → Wallet
  | .watch a => w.watch a
  | .unwatch a => w.unwatch a
  | .reap task => w.reap task
  | .forward task => (w.forward task).getD w
  | .pump now a e => w.pump now a e
  | .foldBalances now a => (w.foldBalances now a).getD w
  | .foldDefinitions now a => (w.foldDefinitions now a).getD w
  | .advance now => w.advance now

/-- The wallet after some steps, one after another. -/
def run (w : Wallet) (events : List Event) : Wallet :=
  events.foldl after w

@[simp] theorem run_nil (w : Wallet) : w.run [] = w := rfl

theorem run_append (w : Wallet) (first later : List Event) :
    w.run (first ++ later) = (w.run first).run later := by
  simp [run]

theorem run_concat (w : Wallet) (events : List Event) (e : Event) :
    w.run (events ++ [e]) = (w.run events).after e := by
  simp [run]

/-- All that a run shows on the way of what `out` looks at. -/
def collect {β : Type} (out : Wallet → Event → List β) (w : Wallet) : List Event → List β
  | [] => []
  | e :: rest => out w e ++ (w.after e).collect out rest

theorem collect_concat {β : Type} (out : Wallet → Event → List β) (w : Wallet)
    (events : List Event) (e : Event) :
    w.collect out (events ++ [e]) = w.collect out events ++ out (w.run events) e := by
  induction events generalizing w with
  | nil => simp [collect]
  | cons first rest ih => simp [collect, run, ih]

/-! ## What a step shows of an address -/

/-- The atom that reaches the pump of an address. -/
def heard (a : Address) (w : Wallet) : Event → List Atom
  | .pump _ b e =>
    if b = a then (w.filter.feeds[a]?.bind (·.pump.heard? e)).toList else []
  | _ => []

/-- The address and the atom that a forwarding task would take next. -/
def taken? (w : Wallet) (task : Nat) : Option (Address × Atom) :=
  match w.tasks[task]? with
  | none => none
  | some t =>
    match (w.filter.next t.subscription).2 with
    | .ready (.ok x) => some (t.address, x)
    | _ => none

/-- The atom that is handed to the reconcilers of an address. -/
def handed (a : Address) (w : Wallet) : Event → List Atom
  | .forward task =>
    match w.taken? task with
    | some (b, x) => if b = a then [x] else []
    | none => []
  | _ => []

/-- What the reconciler of an address passes on. -/
def passedOn (a : Address) (w : Wallet) (e : Event) : List Atom :=
  match w.registry.get? (Registry.everything a) with
  | none => []
  | some r => r.emissions (w.handed a e)

theorem passedOn_of_handed {a : Address} {w : Wallet} {e : Event} (h : w.handed a e = []) :
    w.passedOn a e = [] := by
  unfold passedOn
  rw [h]
  cases w.registry.get? (Registry.everything a) <;> rfl

/-! ## Forwarding -/

/-- A task that can do nothing is not there, or waits for its feed. -/
theorem forward_eq_none_iff {w : Wallet} {task : Nat} : w.forward task = none ↔
    ∀ t, w.tasks[task]? = some t → (w.filter.next t.subscription).2 = .pending := by
  simp only [forward, Option.bind_eq_bind]
  cases ht : w.tasks[task]? with
  | none => simp
  | some t =>
    simp only [Option.bind_some, Option.some_inj, forall_eq']
    cases hnext : w.filter.next t.subscription with
    | mk f item =>
      cases item with
      | pending => simp
      | ended => simp
      | ready outcome =>
        cases outcome with
        | error cause => simp
        | ok x => cases hviolation : w.registry.violation? t.address x <;> simp [hviolation]

/-- All that a forwarding task can do: nothing, if nothing waits for it; pass on an atom; meet a
violation while it does so, and end; and end because the feed has. -/
inductive Forwards (w : Wallet) (task : Nat) : Option (Address × Atom) → Wallet → Prop
  | rests (hnone : w.forward task = none) : Forwards w task none w
  | passes {t : ForwardingTask} {x : Atom} (ht : w.tasks[task]? = some t)
      (hx : (w.filter.next t.subscription).2 = .ready (.ok x))
      (hok : w.registry.violation? t.address x = none) :
      Forwards w task (some (t.address, x))
        { w with
          filter := (w.filter.next t.subscription).1
          registry := w.registry.accept t.address x }
  | fails {t : ForwardingTask} {x : Atom} {cause : Violation} (ht : w.tasks[task]? = some t)
      (hx : (w.filter.next t.subscription).2 = .ready (.ok x))
      (hviolation : w.registry.violation? t.address x = some cause) :
      Forwards w task (some (t.address, x))
        ({ w with
          filter := (w.filter.next t.subscription).1
          registry := w.registry.accept t.address x }.finish task t)
  | ends {t : ForwardingTask} (ht : w.tasks[task]? = some t)
      (hend : ∀ x, (w.filter.next t.subscription).2 ≠ .ready (.ok x))
      (hmore : (w.filter.next t.subscription).2 ≠ .pending) :
      Forwards w task none ({ w with filter := (w.filter.next t.subscription).1 }.finish task t)

theorem forwards_after (w : Wallet) (task : Nat) :
    Forwards w task (w.taken? task) (w.after (.forward task)) := by
  have hrests := @forward_eq_none_iff w task
  simp only [after, forward, taken?, Option.bind_eq_bind]
  cases ht : w.tasks[task]? with
  | none => exact .rests (hrests.2 (by simp [ht]))
  | some t =>
    simp only [Option.bind_some]
    -- What the task asks for decides what it does.
    cases hnext : w.filter.next t.subscription with
    | mk f item =>
      have hf : f = (w.filter.next t.subscription).1 := by rw [hnext]
      have hitem : (w.filter.next t.subscription).2 = item := by rw [hnext]
      subst hf
      cases item with
      | pending => exact .rests (hrests.2 (by simp [ht, hitem]))
      | ended => exact .ends ht (by simp [hitem]) (by simp [hitem])
      | ready outcome =>
        cases outcome with
        | error cause => exact .ends ht (by simp [hitem]) (by simp [hitem])
        | ok x =>
          cases hviolation : w.registry.violation? t.address x with
          | none => simpa [hviolation] using Forwards.passes ht hitem hviolation
          | some cause => simpa [hviolation] using Forwards.fails ht hitem hviolation

/-- What is handed over was the first that a task of the address found in its subscription. -/
theorem exists_task_of_mem_handed {w : Wallet} {a : Address} {e : Event} {x : Atom}
    (h : x ∈ w.handed a e) : ∃ task t, e = .forward task ∧ w.tasks[task]? = some t ∧
      t.address = a ∧ (w.filter.next t.subscription).2 = .ready (.ok x) := by
  cases e with
  | forward task =>
    have hforwards := forwards_after w task
    simp only [handed] at h
    generalize w.taken? task = taken at hforwards h
    generalize w.after (.forward task) = w' at hforwards
    have hgiven : ∀ {t : ForwardingTask} {y : Atom}, w.tasks[task]? = some t →
        (w.filter.next t.subscription).2 = .ready (.ok y) → x ∈ (if t.address = a then [y] else []) →
        ∃ n t, Event.forward task = .forward n ∧ w.tasks[n]? = some t ∧ t.address = a ∧
          (w.filter.next t.subscription).2 = .ready (.ok x) := by
      intro t y ht hy hmem
      split at hmem
      · next haddress =>
        obtain rfl := List.mem_singleton.1 hmem
        exact ⟨task, t, rfl, ht, haddress, hy⟩
      · contradiction
    cases hforwards with
    | rests => contradiction
    | passes ht hy => exact hgiven ht hy h
    | fails ht hy => exact hgiven ht hy h
    | ends => contradiction
  | _ => contradiction

/-- Only a task of the address hands over atoms for it. -/
theorem handed_eq_nil {w : Wallet} {a : Address} {e : Event}
    (h : ∀ n t, e = .forward n → w.tasks[n]? = some t → t.address ≠ a) : w.handed a e = [] := by
  rw [List.eq_nil_iff_forall_not_mem]
  intro x hx
  obtain ⟨task, t, he, ht, haddress, -⟩ := exists_task_of_mem_handed hx
  exact h task t he ht haddress

/-- A forwarding task touches no fold. -/
theorem balances_after_forward (w : Wallet) (task : Nat) :
    (w.after (.forward task)).balances = w.balances := by
  have hforwards := forwards_after w task
  generalize w.taken? task = taken at hforwards
  generalize w.after (.forward task) = w' at hforwards ⊢
  cases hforwards <;> rfl

/-! ## The wiring -/

/-- The feeds and subscriptions of a wallet, and the tasks that read them. -/
structure Wiring where
  filter : DeliveryFilter
  tasks : ExtTreeMap Nat ForwardingTask
  handles : ExtTreeMap Address Nat
  spawned : Nat

def wiring (w : Wallet) : Wiring :=
  ⟨w.filter, w.tasks, w.handles, w.spawned⟩

namespace Wiring

/-- Whether the atoms of an address are being forwarded. -/
def watching (c : Wiring) (a : Address) : Bool :=
  c.handles[a]?.any c.tasks.contains

/-- All that a step of a wallet can do to its wiring. -/
inductive Step (c : Wiring) : Event → Wiring → Prop
  | stays {e : Event} : Step c e c
  | starts {a : Address} (hnew : c.watching a = false) :
      Step c (.watch a)
        ⟨c.filter.subscribe a, c.tasks.insert c.spawned ⟨a, c.filter.opened, false⟩,
          c.handles.insert a c.spawned, c.spawned + 1⟩
  | stops {a : Address} {n : Nat} (hn : c.handles[a]? = some n) :
      Step c (.unwatch a)
        ⟨c.filter, c.tasks.modify n fun t => { t with aborted := true }, c.handles.erase a,
          c.spawned⟩
  | reaps {n : Nat} {t : ForwardingTask} (ht : c.tasks[n]? = some t) (haborted : t.aborted) :
      Step c (.reap n)
        ⟨c.filter.unsubscribe t.subscription, c.tasks.erase n, c.handles, c.spawned⟩
  | reads {n : Nat} {t : ForwardingTask} (ht : c.tasks[n]? = some t) :
      Step c (.forward n) { c with filter := (c.filter.next t.subscription).1 }
  | ends {n : Nat} {t : ForwardingTask} (ht : c.tasks[n]? = some t) :
      Step c (.forward n)
        ⟨(c.filter.next t.subscription).1.unsubscribe t.subscription, c.tasks.erase n, c.handles,
          c.spawned⟩
  | meets {now : Nat} {a : Address} {met : TransportEvent} :
      Step c (.pump now a met) { c with filter := c.filter.handle now a met }

end Wiring

theorem step_after (w : Wallet) (e : Event) : w.wiring.Step e (w.after e).wiring := by
  cases e with
  | watch a =>
    cases hwatching : w.isWatching a with
    | true =>
      have hsame : w.after (.watch a) = w := by simp [after, watch, hwatching]
      rw [hsame]
      exact .stays
    | false =>
      simp only [after, watch, hwatching]
      exact .starts hwatching
  | unwatch a =>
    simp only [after, unwatch]
    cases hn : w.handles[a]? with
    | none => exact .stays
    | some n => exact .stops hn
  | reap n =>
    simp only [after, reap]
    cases ht : w.tasks[n]? with
    | none => exact .stays
    | some t =>
      simp only
      split
      · next haborted => exact @Wiring.Step.reaps w.wiring n t ht haborted
      · exact .stays
  | forward n =>
    have hforwards := forwards_after w n
    generalize w.taken? n = taken at hforwards
    generalize w.after (.forward n) = w' at hforwards
    cases hforwards with
    | rests => exact .stays
    | passes ht => exact .reads ht
    | fails ht => exact .ends ht
    | ends ht => exact .ends ht
  | pump now a met => exact .meets
  | foldBalances now a =>
    simp only [after, foldBalances]
    cases nextAtom? w.registry w.balances a <;> exact .stays
  | foldDefinitions now a =>
    simp only [after, foldDefinitions]
    cases nextAtom? w.registry w.definitions a <;> exact .stays
  | advance now => exact .stays

/-! ## Where tasks come from -/

namespace Wiring.Step

variable {c c' : Wiring} {a : Address} {e : Event} {n : Nat} {t : ForwardingTask}

/-- A task was there before, maybe not yet told to stop, or has just been started. -/
theorem task_origin (h : c.Step e c') (ht : c'.tasks[n]? = some t) :
    (∃ before, c.tasks[n]? = some before ∧ before.address = t.address ∧
      before.subscription = t.subscription) ∨
    ∃ a, e = .watch a ∧ c.watching a = false ∧ n = c.spawned ∧
      t = ⟨a, c.filter.opened, false⟩ := by
  have herase : ∀ {m : Nat}, (c.tasks.erase m)[n]? = some t → c.tasks[n]? = some t := by
    intro m hm
    rw [ExtTreeMap.getElem?_erase] at hm
    split at hm
    · contradiction
    · exact hm
  cases h with
  | starts hnew =>
    simp only [ExtTreeMap.getElem?_insert, Nat.compare_eq_eq] at ht
    by_cases hn : c.spawned = n
    · rw [if_pos hn] at ht
      exact .inr ⟨_, rfl, hnew, hn.symm, (Option.some_inj.1 ht).symm⟩
    · rw [if_neg hn] at ht
      exact .inl ⟨t, ht, rfl, rfl⟩
  | @stops _ m =>
    simp only [ExtTreeMap.getElem?_modify, Nat.compare_eq_eq] at ht
    by_cases hn : m = n
    · rw [if_pos hn, hn] at ht
      obtain ⟨before, hbefore, rfl⟩ := Option.map_eq_some_iff.1 ht
      exact .inl ⟨before, hbefore, rfl, rfl⟩
    · rw [if_neg hn] at ht
      exact .inl ⟨t, ht, rfl, rfl⟩
  | stays => exact .inl ⟨t, ht, rfl, rfl⟩
  | reaps => exact .inl ⟨t, herase ht, rfl, rfl⟩
  | reads => exact .inl ⟨t, ht, rfl, rfl⟩
  | ends => exact .inl ⟨t, herase ht, rfl, rfl⟩
  | meets => exact .inl ⟨t, ht, rfl, rfl⟩

/-- A handle was there before, or belongs to a task that has just been started. -/
theorem handle_origin (h : c.Step e c') (hn : c'.handles[a]? = some n) :
    c.handles[a]? = some n ∨ e = .watch a ∧ n = c.spawned := by
  cases h with
  | @starts b =>
    simp only [ExtTreeMap.getElem?_insert, Std.compare_eq_iff_eq] at hn
    by_cases hb : b = a
    · rw [if_pos hb, Option.some_inj] at hn
      exact .inr ⟨hb ▸ rfl, hn.symm⟩
    · rw [if_neg hb] at hn
      exact .inl hn
  | stops =>
    simp only [ExtTreeMap.getElem?_erase] at hn
    split at hn
    · contradiction
    · exact .inl hn
  | _ => exact .inl hn

theorem spawned_le (h : c.Step e c') : c.spawned ≤ c'.spawned := by
  cases h with
  | starts => exact Nat.le_succ _
  | _ => exact Nat.le_refl _

theorem opened_le (h : c.Step e c') : c.filter.opened ≤ c'.filter.opened := by
  cases h <;> simp

end Wiring.Step

end Wallet

end ParticleLedger
