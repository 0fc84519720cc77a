import ParticleLedger.Proofs.Reconciler.Registry
import ParticleLedger.Proofs.Wallet.Run

/-!
# The reconcilers of a wallet

A wallet has one reconciler for each address that it has ever watched. Atoms reach it from the
forwarding tasks of the address alone, so after any run it is what these have handed to it make of a
fresh one, its subscribers apart.

Main statements: `ledger_run`, `collect_passedOn_eq`, `view_run` and `records_run`.
-/

namespace ParticleLedger

open Std (ExtTreeMap)

/-! ## The reconciler of all tokens of an address -/

namespace Registry

variable {reg : Registry} {scope s : Scope} {a b : Address} {x : Atom}

/-! ### Nothing but accepting changes a reconciler -/

/-- The reconciler of an address without its subscribers; a fresh one if there is none yet. -/
def ledger (reg : Registry) (a : Address) : Reconciler :=
  ((reg.get? (everything a)).getD (.fresh (everything a))).alone

theorem ledger_of_get? {r : Reconciler} (h : reg.get? (everything a) = some r) :
    reg.ledger a = r.alone := by
  simp [ledger, h]

@[simp] theorem ledger_ensure : (reg.ensure scope).ledger a = reg.ledger a := by
  rw [ledger, get?_ensure]
  by_cases hs : everything a = scope
  · simp [hs, ledger]
  · simp [hs, ledger]

theorem ledger_modify {f : Reconciler → Reconciler} (hf : ∀ r, (f r).alone = r.alone) :
    (reg.modify scope f).ledger a = reg.ledger a := by
  rw [ledger, get?_modify, ledger]
  cases reg.get? (everything a) with
  | none => rfl
  | some r =>
    by_cases hs : everything a = scope
    · simp [hs, hf]
    · simp [hs]

@[simp] theorem ledger_subscribe : (reg.subscribe b).ledger a = reg.ledger a := by
  rw [subscribe, ledger_modify fun _ => Reconciler.alone_subscribe, ledger_ensure]

@[simp] theorem ledger_take {subscriber n : Nat} :
    (reg.take b subscriber n).ledger a = reg.ledger a :=
  ledger_modify fun _ => rfl

/-! ### Scopes -/

/-- Every reconciler has the scope under which it stands, which follows all tokens of an address. -/
def WellScoped (reg : Registry) : Prop :=
  ∀ s r, reg.get? s = some r → r.scope = s ∧ s.filter = .any

/-- The address has a reconciler. -/
def Knows (reg : Registry) (a : Address) : Prop :=
  (reg.get? (everything a)).isSome

theorem WellScoped.empty : Registry.empty.WellScoped := by
  intro s r h
  simp [get?, Registry.empty] at h

theorem WellScoped.ensure (h : reg.WellScoped) : (reg.ensure (everything a)).WellScoped := by
  intro s r hr
  rw [get?_ensure] at hr
  by_cases hs : s = everything a
  · rw [if_pos hs, Option.some_inj] at hr
    subst hs
    cases hold : reg.get? (everything a) with
    | none =>
      simp only [hold, Option.getD_none] at hr
      exact ⟨hr ▸ rfl, rfl⟩
    | some old =>
      simp only [hold, Option.getD_some] at hr
      exact h _ r (hr ▸ hold)
  · rw [if_neg hs] at hr
    exact h s r hr

theorem WellScoped.modify (h : reg.WellScoped) {f : Reconciler → Reconciler}
    (hf : ∀ r, (f r).scope = r.scope) : (reg.modify scope f).WellScoped := by
  intro s r hr
  rw [get?_modify] at hr
  obtain ⟨old, hold, rfl⟩ := Option.map_eq_some_iff.1 hr
  have hscope : (if s = scope then f old else old).scope = old.scope := by
    split
    · exact hf old
    · rfl
  rw [hscope]
  exact h s old hold

theorem WellScoped.subscribe (h : reg.WellScoped) : (reg.subscribe a).WellScoped :=
  h.ensure.modify fun _ => rfl

theorem WellScoped.take (h : reg.WellScoped) {subscriber n : Nat} :
    (reg.take a subscriber n).WellScoped :=
  h.modify fun _ => rfl

theorem WellScoped.accept (h : reg.WellScoped) : (reg.accept a x).WellScoped := by
  intro s r hr
  rw [get?_accept] at hr
  obtain ⟨old, hold, rfl⟩ := Option.map_eq_some_iff.1 hr
  have hscope : (if old.scope.address = a then (old.accept x).reconciler else old).scope =
      old.scope := by
    split
    · exact Reconciler.scope_accept
    · rfl
  rw [hscope]
  exact h s old hold

/-- Accepting an atom for an address offers it to the reconciler of this address and no other. -/
theorem WellScoped.get?_accept (h : reg.WellScoped) :
    (reg.accept b x).get? (everything a) =
      (reg.get? (everything a)).map fun r => if b = a then (r.accept x).reconciler else r := by
  rw [Registry.get?_accept]
  cases hr : reg.get? (everything a) with
  | none => rfl
  | some r =>
    have haddress : r.scope.address = a := by
      rw [(h _ r hr).1]
      rfl
    simp [haddress, eq_comm]

theorem WellScoped.ledger_accept (h : reg.WellScoped) (hknows : reg.Knows b) :
    (reg.accept b x).ledger a =
      if b = a then ((reg.ledger a).accept x).reconciler else reg.ledger a := by
  rw [ledger, h.get?_accept, ledger]
  by_cases hb : b = a
  · subst hb
    obtain ⟨r, hr⟩ := Option.isSome_iff_exists.1 hknows
    simp [hr, Reconciler.accept_alone]
  · simp [hb]

@[simp] theorem knows_ensure : (reg.ensure (everything b)).Knows a ↔ a = b ∨ reg.Knows a := by
  unfold Knows
  rw [get?_ensure]
  by_cases ha : a = b
  · simp [ha]
  · simp [ha, everything_inj]

@[simp] theorem knows_modify {f : Reconciler → Reconciler} :
    (reg.modify scope f).Knows a ↔ reg.Knows a := by
  simp [Knows, get?_modify]

@[simp] theorem knows_subscribe : (reg.subscribe b).Knows a ↔ a = b ∨ reg.Knows a := by
  rw [subscribe, knows_modify, knows_ensure]

@[simp] theorem knows_take {subscriber n : Nat} :
    (reg.take b subscriber n).Knows a ↔ reg.Knows a := knows_modify

@[simp] theorem knows_accept : (reg.accept b x).Knows a ↔ reg.Knows a := by
  simp [Knows, Registry.get?_accept]

end Registry

/-! ## The registry of a wallet -/

/-- Starting a fold does nothing to a registry but to subscribe. -/
theorem ReducerStore.snd_follow {State : Type} {P : Registry → Prop} {s : ReducerStore State}
    {reg : Registry} {a : Address} (h : P reg) (hsubscribe : P (reg.subscribe a)) :
    P (s.follow reg a).2 := by
  unfold follow
  split
  · exact h
  · exact hsubscribe

namespace Wallet

variable {w : Wallet} {a b : Address} {e : Event}

open Registry (everything)

/-- What every operation of a registry keeps is kept by every step, if it is kept where the step
hands an atom to the reconcilers. -/
theorem registry_after {P : Registry → Prop} (h : P w.registry)
    (hensure : ∀ reg b, P reg → P (reg.ensure (everything b)))
    (hsubscribe : ∀ reg b, P reg → P (reg.subscribe b))
    (htake : ∀ reg b subscriber n, P reg → P (reg.take b subscriber n))
    (haccept : ∀ task b x, e = .forward task → w.taken? task = some (b, x) →
      P (w.registry.accept b x)) :
    P (w.after e).registry := by
  have hfollow : ∀ {State : Type} (s : ReducerStore State) (reg : Registry) (b : Address),
      P reg → P (s.follow reg b).2 :=
    fun s reg b hreg => ReducerStore.snd_follow hreg (hsubscribe reg b hreg)
  cases e with
  | watch b =>
    simp only [after, watch]
    split
    · exact h
    · exact hfollow _ _ b (hfollow _ _ b (hensure _ b h))
  | unwatch b =>
    simp only [after, unwatch]
    split <;> exact h
  | reap m =>
    simp only [after, reap]
    split
    · exact h
    · split <;> exact h
  | forward m =>
    have hforwards := forwards_after w m
    generalize htaken : w.taken? m = taken at hforwards
    generalize w.after (.forward m) = w' at hforwards
    cases hforwards with
    | rests => exact h
    | passes => exact haccept m _ _ rfl htaken
    | fails => exact haccept m _ _ rfl htaken
    | ends => exact h
  | pump now b e => exact h
  | foldBalances now b =>
    simp only [after, foldBalances]
    cases nextAtom? w.registry w.balances b with
    | none => exact h
    | some next => exact htake _ b _ _ h
  | foldDefinitions now b =>
    simp only [after, foldDefinitions]
    cases nextAtom? w.registry w.definitions b with
    | none => exact h
    | some next => exact htake _ b _ _ h
  | advance now => exact h

/-- An address that has a reconciler keeps it. -/
theorem knows_after (h : w.registry.Knows a) : (w.after e).registry.Knows a :=
  @registry_after w e (·.Knows a) h (fun _ _ h => Registry.knows_ensure.2 (.inr h))
    (fun _ _ h => Registry.knows_subscribe.2 (.inr h)) (fun _ _ _ _ h => Registry.knows_take.2 h)
    (fun _ _ _ _ _ => Registry.knows_accept.2 h)

/-- Whatever is watched, or read by a task, has a reconciler. -/
structure Grounded (w : Wallet) : Prop where
  wellScoped : w.registry.WellScoped
  tasks_known : ∀ (n : Nat) (t : ForwardingTask), w.tasks[n]? = some t → w.registry.Knows t.address
  handles_known : ∀ (a : Address) (n : Nat), w.handles[a]? = some n → w.registry.Knows a

namespace Grounded

theorem create (scheme : SignatureScheme) (config : Config) :
    (Wallet.create scheme config).Grounded where
  wellScoped := .empty
  tasks_known n t h := by simp [Wallet.create] at h
  handles_known a n h := by simp [Wallet.create] at h

/-- An address that is watched has a reconciler. -/
theorem knows_watch (h : w.Grounded) : (w.watch a).registry.Knows a := by
  unfold watch
  split
  · next hwatching =>
    obtain ⟨n, hn, -⟩ := (Option.any_eq_true _ _).1 hwatching
    exact h.handles_known a n hn
  · have hfollow : ∀ {State : Type} (s : ReducerStore State) (reg : Registry),
        reg.Knows a → (s.follow reg a).2.Knows a :=
      fun s reg hreg => @ReducerStore.snd_follow _ (·.Knows a) s reg a hreg
        (Registry.knows_subscribe.2 (.inr hreg))
    exact hfollow _ _ (hfollow _ _ (Registry.knows_ensure.2 (.inl rfl)))

theorem after (h : w.Grounded) : (w.after e).Grounded where
  wellScoped := registry_after h.wellScoped (fun _ _ h => h.ensure) (fun _ _ h => h.subscribe)
    (fun _ _ _ _ h => h.take) (fun _ _ _ _ _ => h.wellScoped.accept)
  tasks_known n t ht := by
    rcases (step_after w e).task_origin ht with
      ⟨before, hbefore, haddress, -⟩ | ⟨a, rfl, -, -, rfl⟩
    · rw [← haddress]
      exact knows_after (h.tasks_known n before hbefore)
    · exact h.knows_watch
  handles_known a n hn := by
    rcases (step_after w e).handle_origin hn with hbefore | ⟨rfl, -⟩
    · exact knows_after (h.handles_known a n hbefore)
    · exact h.knows_watch

theorem run (h : w.Grounded) (events : List Event) : (w.run events).Grounded := by
  induction events using List.reverseRecOn with
  | nil => exact h
  | append_singleton events e ih =>
    rw [run_concat]
    exact ih.after

end Grounded

/-! ## The history of a reconciler -/

/-- A step hands the reconciler of an address the atoms that it shows to be handed to it, and does
nothing else to it. -/
theorem ledger_after (h : w.Grounded) : (w.after e).registry.ledger a =
    (w.registry.ledger a).acceptAll (w.handed a e) := by
  cases e with
  | forward task =>
    have hforwards := forwards_after w task
    simp only [handed]
    generalize w.taken? task = taken at hforwards
    generalize w.after (.forward task) = w' at hforwards
    have haccept : ∀ {t : ForwardingTask} (x : Atom), w.tasks[task]? = some t →
        (w.registry.accept t.address x).ledger a =
          (w.registry.ledger a).acceptAll (if t.address = a then [x] else []) := by
      intro t x ht
      rw [h.wellScoped.ledger_accept (h.tasks_known task t ht)]
      by_cases ha : t.address = a <;> simp [ha, Reconciler.acceptAll]
    cases hforwards with
    | rests => rfl
    | passes ht => exact haccept _ ht
    | fails ht => exact haccept _ ht
    | ends => rfl
  | _ =>
    refine @registry_after w _ (fun reg => reg.ledger a = w.registry.ledger a) rfl ?_ ?_ ?_ ?_
    · intro reg b hreg
      rw [Registry.ledger_ensure, hreg]
    · intro reg b hreg
      rw [Registry.ledger_subscribe, hreg]
    · intro reg b subscriber n hreg
      rw [Registry.ledger_take, hreg]
    · intro _ _ _ hforward
      contradiction

/-- What the reconciler passes on is what it passes on without its subscribers. -/
theorem passedOn_eq (h : w.Grounded) :
    w.passedOn a e = (w.registry.ledger a).emissions (w.handed a e) := by
  unfold passedOn
  cases hr : w.registry.get? (everything a) with
  | some r => rw [Registry.ledger_of_get? hr, Reconciler.emissions_alone]
  | none =>
    -- Only a task of the address hands it atoms, and then it has a reconciler.
    have hnone : w.handed a e = [] := by
      refine handed_eq_nil ?_
      rintro n t - ht rfl
      have hknows := h.tasks_known n t ht
      simp [Registry.Knows, hr] at hknows
    simp [hnone, Reconciler.emissions]

section Run

variable (scheme : SignatureScheme) (config : Config) (a : Address) (events : List Event)

/-- After any run the reconciler of an address, its subscribers apart, is what the atoms handed to
it make of a fresh one. -/
theorem ledger_run : ((create scheme config).run events).registry.ledger a =
    (Reconciler.fresh (everything a)).acceptAll ((create scheme config).collect (handed a) events) := by
  induction events using List.reverseRecOn with
  | nil => rfl
  | append_singleton events e ih =>
    rw [run_concat, collect_concat, ledger_after ((Grounded.create scheme config).run events), ih]
    simp [Reconciler.acceptAll]

/-- And it has passed on what that one passes on. -/
theorem collect_passedOn_eq : (create scheme config).collect (passedOn a) events =
    (Reconciler.fresh (everything a)).emissions
      ((create scheme config).collect (handed a) events) := by
  induction events using List.reverseRecOn with
  | nil => rfl
  | append_singleton events e ih =>
    rw [collect_concat, collect_concat, passedOn_eq ((Grounded.create scheme config).run events),
      ledger_run, ih, Reconciler.emissions_append]

end Run

/-- So it has the view of that one. -/
theorem view_run {scheme : SignatureScheme} {config : Config} {events : List Event} {r : Reconciler}
    (hr : ((create scheme config).run events).registry.get? (everything a) = some r) :
    r.view = ((Reconciler.fresh (everything a)).acceptAll
      ((create scheme config).collect (handed a) events)).view := by
  rw [← ledger_run, Registry.ledger_of_get? hr]
  rfl

/-- And it records what it has passed on. -/
theorem records_run {scheme : SignatureScheme} {config : Config} {events : List Event}
    {r : Reconciler}
    (hr : ((create scheme config).run events).registry.get? (everything a) = some r) :
    r.view.Records (everything a) ((create scheme config).collect (passedOn a) events) := by
  rw [view_run hr, collect_passedOn_eq]
  exact Reconciler.records_acceptAll _ _

end Wallet

end ParticleLedger
