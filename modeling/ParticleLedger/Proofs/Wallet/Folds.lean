import ParticleLedger.Proofs.Balance.Holdings
import ParticleLedger.Proofs.Wallet.Ledger

/-!
# What the folds of a wallet have taken in

Each fold of an address subscribes to the reconciler before the first atom can be passed on, and has
an inbox of its own. So what the fold of balances has taken in, and then what waits in its inbox, is
what the reconciler has passed on, and the published holdings are those after all of it once nothing
waits and no deadline is set.

Main statements: `StateFold.Took.receive`, `StateFold.Took.advance`, `Follows.latest_advance` and
`follows_run`.
-/

namespace ParticleLedger

open Std (ExtTreeMap)
open Registry (everything)

/-! ## One fold -/

/-- The fold of balances has taken in these atoms. It is open, and it shows what it holds unless it
waits for a deadline. -/
structure StateFold.Took (fold : StateFold Holdings) (a : Address) (taken : List Atom) : Prop where
  running : fold.running = true
  state_eq : fold.state = balanceReducer.foldAtoms a .none taken
  shown : taken ≠ [] → fold.deadline = none → fold.published.latest = some fold.state

namespace StateFold.Took

variable {fold : StateFold Holdings} {a : Address} {taken : List Atom} {now : Nat}

theorem start (source : Nat) : (StateFold.start balanceReducer source).Took a [] :=
  ⟨rfl, rfl, fun h => absurd rfl h⟩

/-- Taking in an atom sets a deadline. -/
theorem receive (h : fold.Took a taken) {debounce : Nat} {x : Atom} :
    (fold.receive balanceReducer a debounce now x).Took a (taken ++ [x]) := by
  rw [StateFold.receive, if_pos h.running]
  refine ⟨h.running, ?_, fun _ hnone => ?_⟩
  · rw [Holdings.foldAtoms_concat, ← h.state_eq]
  · simp at hnone

/-- A deadline that has come is met. -/
theorem advance (h : fold.Took a taken) : (fold.advance now).Took a taken := by
  unfold StateFold.advance
  cases fold.deadline with
  | none => exact h
  | some due =>
    simp only
    split
    · exact ⟨h.running, h.state_eq, fun _ _ => rfl⟩
    · exact h

/-- Once no deadline lies ahead, what the fold holds is what it shows. -/
theorem latest_advance (h : fold.Took a taken) (hdue : ∀ due, fold.deadline = some due → due ≤ now)
    (htaken : taken ≠ []) :
    (fold.advance now).published.latest = some (balanceReducer.foldAtoms a .none taken) := by
  unfold StateFold.advance
  cases hdeadline : fold.deadline with
  | none =>
    rw [← h.state_eq]
    exact h.shown htaken hdeadline
  | some due =>
    simp only [if_pos (hdue due hdeadline)]
    rw [← h.state_eq]
    rfl

end StateFold.Took

@[simp] theorem StateFold.source_advance {State : Type} (fold : StateFold State) (now : Nat) :
    (fold.advance now).source = fold.source := by
  unfold StateFold.advance
  split
  · split <;> rfl
  · rfl

@[simp] theorem StateFold.source_receive {State : Type} (fold : StateFold State) (r : Reducer State)
    (a : Address) (debounce now : Nat) (x : Atom) :
    (fold.receive r a debounce now x).source = fold.source := by
  unfold StateFold.receive
  split <;> rfl

/-! ## The folds of a store -/

namespace ReducerStore

variable {State : Type} {s : ReducerStore State} {reg : Registry} {a b : Address}

theorem get?_ensure (source : Nat) : (s.ensure b source).get? a =
    if a = b then some ((s.get? b).getD (.start s.reducer source)) else s.get? a := by
  simp only [get?, ensure, ExtTreeMap.getElem?_insertIfNew, Std.compare_eq_iff_eq,
    ExtTreeMap.mem_iff_isSome_getElem?]
  by_cases ha : a = b
  · subst ha
    cases s.folds[a]? <;> simp
  · simp [ha, Ne.symm ha]

theorem get?_receive (now : Nat) (x : Atom) : (s.receive now b x).get? a =
    (s.get? a).map fun f => if a = b then f.receive s.reducer b s.debounce now x else f := by
  simp only [get?, receive, ExtTreeMap.getElem?_modify, Std.compare_eq_iff_eq]
  by_cases ha : a = b
  · simp [ha]
  · simp [ha, Ne.symm ha]

theorem get?_advance (now : Nat) : (s.advance now).get? a = (s.get? a).map (·.advance now) := by
  simp [get?, advance, ExtTreeMap.getElem?_map]

/-- A fold that has been started is left alone. -/
theorem follow_of_some {f : StateFold State} (h : s.get? a = some f) :
    s.follow reg a = (s, reg) := by
  simp [follow, h]

/-- A fold that is started gets a subscription of its own. -/
theorem follow_of_none (h : s.get? a = none) :
    s.follow reg a = (s.ensure a (reg.nextSubscriber a), reg.subscribe a) := by
  simp [follow, h]

/-- Starting the fold of an address touches neither the folds nor the reconcilers of others. -/
theorem follow_other (h : a ≠ b) : (s.follow reg b).1.get? a = s.get? a ∧
    (s.follow reg b).2.get? (everything a) = reg.get? (everything a) := by
  have hne : everything a ≠ everything b := fun heq => h (Registry.everything_inj.1 heq)
  unfold follow
  split
  · exact ⟨rfl, rfl⟩
  · refine ⟨by rw [get?_ensure, if_neg h], ?_⟩
    rw [Registry.subscribe, Registry.get?_modify, Registry.get?_ensure, if_neg hne]
    simp [hne]

end ReducerStore

theorem Registry.inbox_of_get? {reg : Registry} {a : Address} {r : Reconciler} {source : Nat}
    {waiting : List Atom} (hr : reg.get? (everything a) = some r)
    (hinbox : r.subscribers.inbox? source = some waiting) : reg.inbox a source = waiting := by
  simp [Registry.inbox, hr, hinbox]

theorem Registry.inbox_take (reg : Registry) (a : Address) (source n : Nat) :
    (reg.take a source n).inbox a source = (reg.inbox a source).drop n := by
  unfold inbox take
  rw [get?_modify]
  cases reg.get? (everything a) with
  | none => simp
  | some r =>
    simp only [Option.map_some, if_true, Option.bind_some, Broadcast.inbox?_take]
    cases r.subscribers.inbox? source <;> simp

namespace Wallet

/-! ## The folds of an address -/

section NextAtom

variable {State : Type} {reg : Registry} {s : ReducerStore State} {a : Address} {f : StateFold State}

/-- A fold takes in the first atom in its inbox. -/
theorem nextAtom?_eq_some {source : Nat} {x : Atom} (hf : s.get? a = some f)
    (h : nextAtom? reg s a = some (source, x)) :
    source = f.source ∧ ∃ rest, reg.inbox a f.source = x :: rest := by
  simp only [nextAtom?, hf, Option.bind_eq_bind, Option.bind_some] at h
  cases hinbox : reg.inbox a f.source with
  | nil => simp [hinbox] at h
  | cons y rest =>
    obtain ⟨hsource, rfl⟩ : f.source = source ∧ y = x := by simpa [hinbox] using h
    exact ⟨hsource.symm, rest, rfl⟩

/-- A fold that can do nothing has not been started, or has taken in all that was passed on to it. -/
theorem nextAtom?_eq_none_iff : nextAtom? reg s a = none ↔
    ∀ f, s.get? a = some f → reg.inbox a f.source = [] := by
  simp only [nextAtom?, Option.bind_eq_bind]
  cases s.get? a with
  | none => simp
  | some f => cases hinbox : reg.inbox a f.source <;> simp [hinbox]

end NextAtom

/-- The folds of a new address get the first two subscriptions to its reconciler. -/
theorem watch_unknown {w : Wallet} {a : Address} (hnew : w.isWatching a = false)
    (hr : w.registry.get? (everything a) = none) (hbalances : w.balances.get? a = none)
    (hdefinitions : w.definitions.get? a = none) :
    (w.watch a).registry.get? (everything a) =
        some (Reconciler.fresh (everything a)).subscribe.subscribe ∧
      (w.watch a).balances.get? a = some (.start w.balances.reducer 0) ∧
      (w.watch a).definitions.get? a = some (.start w.definitions.reducer 1) := by
  have hfirst : (w.registry.ensure (everything a)).get? (everything a) =
      some (.fresh (everything a)) := by simp [Registry.get?_ensure, hr]
  have hsecond : ((w.registry.ensure (everything a)).subscribe a).get? (everything a) =
      some (Reconciler.fresh (everything a)).subscribe := by
    simp [Registry.get?_subscribe, hfirst]
  simp only [watch, hnew, Bool.false_eq_true, if_false, spawn,
    ReducerStore.follow_of_none hbalances, ReducerStore.follow_of_none hdefinitions]
  refine ⟨by simp [Registry.get?_subscribe, hsecond], ?_, ?_⟩
  · rw [ReducerStore.get?_ensure, if_pos rfl, hbalances, Registry.nextSubscriber, hfirst]
    rfl
  · rw [ReducerStore.get?_ensure, if_pos rfl, hdefinitions, Registry.nextSubscriber, hsecond]
    rfl

/-- What the reconciler of an address has passed on reaches the fold of balances: it has taken in
the first part of it, and the rest waits in its inbox. Before the address is known there is neither a
reconciler nor a fold. -/
inductive Follows (w : Wallet) (a : Address) (emitted : List Atom) : Prop
  | unknown (hr : w.registry.get? (everything a) = none) (hbalances : w.balances.get? a = none)
      (hdefinitions : w.definitions.get? a = none) (hnil : emitted = [])
  | known {r : Reconciler} {fold : StateFold Holdings} {other : StateFold TokenDefinitions}
      {taken waiting : List Atom} (hr : w.registry.get? (everything a) = some r)
      (hbalances : w.balances.get? a = some fold) (hdefinitions : w.definitions.get? a = some other)
      (hsources : other.source ≠ fold.source)
      (hinbox : r.subscribers.inbox? fold.source = some waiting) (htook : fold.Took a taken)
      (hemitted : emitted = taken ++ waiting)

namespace Follows

variable {w w' : Wallet} {a b : Address} {e : Event} {emitted : List Atom}

theorem congr (h : w.Follows a emitted)
    (hr : w'.registry.get? (everything a) = w.registry.get? (everything a))
    (hbalances : w'.balances.get? a = w.balances.get? a)
    (hdefinitions : w'.definitions.get? a = w.definitions.get? a) : w'.Follows a emitted := by
  cases h with
  | unknown h₁ h₂ h₃ hnil =>
    exact .unknown (hr.trans h₁) (hbalances.trans h₂) (hdefinitions.trans h₃) hnil
  | known h₁ h₂ h₃ hsources hinbox htook hemitted =>
    exact .known (hr.trans h₁) (hbalances.trans h₂) (hdefinitions.trans h₃) hsources hinbox htook
      hemitted

/-- Watching an address starts its reconciler and its folds together. -/
theorem watch (h : w.Follows a emitted) (hreducer : w.balances.reducer = balanceReducer) :
    (w.watch b).Follows a emitted := by
  cases hnew : w.isWatching b with
  | true => simpa [Wallet.watch, hnew] using h
  | false =>
    by_cases hb : a = b
    · subst hb
      cases h with
      | known hr hbalances hdefinitions hsources hinbox htook hemitted =>
        simp only [Wallet.watch, hnew, Bool.false_eq_true, if_false,
          ReducerStore.follow_of_some hbalances, ReducerStore.follow_of_some hdefinitions]
        refine .known ?_ hbalances hdefinitions hsources hinbox htook hemitted
        simp [spawn, Registry.get?_ensure, hr]
      | unknown hr hbalances hdefinitions hnil =>
        obtain ⟨hr', hbalances', hdefinitions'⟩ := watch_unknown hnew hr hbalances hdefinitions
        rw [hreducer] at hbalances'
        exact @known _ a emitted _ _ _ [] [] hr' hbalances' hdefinitions' (Nat.succ_ne_zero 0) rfl
          (.start 0) hnil
    · obtain ⟨hbalances, hfirst⟩ :=
        @ReducerStore.follow_other _ w.balances (w.registry.ensure (everything b)) _ _ hb
      obtain ⟨hdefinitions, hsecond⟩ := @ReducerStore.follow_other _ w.definitions
        (w.balances.follow (w.registry.ensure (everything b)) b).2 _ _ hb
      have hensured : (w.registry.ensure (everything b)).get? (everything a) =
          w.registry.get? (everything a) := by
        rw [Registry.get?_ensure, if_neg fun heq => hb (Registry.everything_inj.1 heq)]
      simp only [Wallet.watch, hnew, Bool.false_eq_true, if_false]
      exact h.congr (hsecond.trans (hfirst.trans hensured)) hbalances hdefinitions

/-- An atom that is handed over is posted to the inboxes of the folds, with all that it unblocks. -/
theorem accept (h : w.Follows a emitted) (hscoped : w.registry.WellScoped) {x : Atom}
    (hr : w'.registry = w.registry.accept b x) (hbalances : w'.balances = w.balances)
    (hdefinitions : w'.definitions = w.definitions) : w'.Follows a (emitted ++
      match w.registry.get? (everything a) with
      | none => []
      | some r => r.emissions (if b = a then [x] else [])) := by
  have hget := @Registry.WellScoped.get?_accept _ a b x hscoped
  rw [← hr] at hget
  cases h with
  | unknown hnone hfold hother hnil =>
    rw [hnone] at hget ⊢
    exact .unknown hget (hbalances ▸ hfold) (hdefinitions ▸ hother) (by simpa using hnil)
  | @known r fold other taken waiting hsome hfold hother hsources hinbox htook hemitted =>
    rw [hsome] at hget ⊢
    by_cases hb : b = a
    · simp only [if_pos hb, Option.map_some] at hget ⊢
      refine @known _ a _ _ fold other taken (waiting ++ (r.accept x).emitted) hget
        (hbalances ▸ hfold) (hdefinitions ▸ hother) hsources ?_ htook ?_
      · rw [Reconciler.inbox?_accept, hinbox, Option.map_some]
      · simp [Reconciler.emissions, hemitted]
    · simp only [if_neg hb, Option.map_some] at hget ⊢
      rw [Reconciler.emissions, List.append_nil]
      exact .known hget (hbalances ▸ hfold) (hdefinitions ▸ hother) hsources hinbox htook hemitted

/-- What a forwarding task hands over, the reconciler passes on to the folds. -/
theorem forward (h : w.Follows a emitted) (hscoped : w.registry.WellScoped) (n : Nat) :
    (w.after (.forward n)).Follows a (emitted ++ w.passedOn a (.forward n)) := by
  have hforwards := forwards_after w n
  simp only [passedOn, handed]
  generalize w.taken? n = taken at hforwards ⊢
  generalize w.after (.forward n) = w' at hforwards ⊢
  cases hforwards with
  | rests =>
    cases hr : w.registry.get? (everything a) <;> simpa [hr, Reconciler.emissions] using h
  | passes => exact h.accept hscoped rfl rfl rfl
  | fails => exact h.accept hscoped rfl rfl rfl
  | ends =>
    refine congr (w := w) ?_ rfl rfl rfl
    cases hr : w.registry.get? (everything a) <;> simpa [hr, Reconciler.emissions] using h

/-- The fold of balances takes in the first atom that waits. -/
theorem foldBalances (h : w.Follows a emitted) (hreducer : w.balances.reducer = balanceReducer)
    (now : Nat) : (w.after (.foldBalances now b)).Follows a emitted := by
  simp only [after, Wallet.foldBalances]
  cases hnext : nextAtom? w.registry w.balances b with
  | none => exact h
  | some next =>
    obtain ⟨source, x⟩ := next
    have hbalances := @ReducerStore.get?_receive _ w.balances a b now x
    have hget := @Registry.get?_modify w.registry (everything b) (everything a)
      fun r => { r with subscribers := r.subscribers.take source 1 }
    by_cases hb : a = b
    · subst hb
      cases h with
      | unknown hnone hfold => simp [nextAtom?, hfold] at hnext
      | @known r fold other taken waiting hsome hfold hother hsources hinbox htook hemitted =>
        obtain ⟨rfl, rest, hrest⟩ := nextAtom?_eq_some hfold hnext
        rw [Registry.inbox_of_get? hsome hinbox] at hrest
        subst hrest
        simp only [hsome, hfold, hreducer, if_true, Option.map_some] at hget hbalances
        refine .known hget hbalances hother ?_ ?_ htook.receive (by simpa using hemitted)
        · rwa [StateFold.source_receive]
        · rw [StateFold.source_receive, Broadcast.inbox?_take, if_pos rfl, hinbox]
          rfl
    · have hne : everything a ≠ everything b := fun heq => hb (Registry.everything_inj.1 heq)
      simp only [if_neg hb, if_neg hne, Option.map_id'] at hbalances hget
      exact h.congr hget hbalances rfl

/-- The fold of definitions reads an inbox of its own. -/
theorem foldDefinitions (h : w.Follows a emitted) (now : Nat) :
    (w.after (.foldDefinitions now b)).Follows a emitted := by
  simp only [after, Wallet.foldDefinitions]
  cases hnext : nextAtom? w.registry w.definitions b with
  | none => exact h
  | some next =>
    obtain ⟨source, x⟩ := next
    have hdefinitions := @ReducerStore.get?_receive _ w.definitions a b now x
    have hget := @Registry.get?_modify w.registry (everything b) (everything a)
      fun r => { r with subscribers := r.subscribers.take source 1 }
    by_cases hb : a = b
    · subst hb
      cases h with
      | unknown hnone hfold hother => simp [nextAtom?, hother] at hnext
      | @known r fold other taken waiting hsome hfold hother hsources hinbox htook hemitted =>
        obtain ⟨rfl, -⟩ := nextAtom?_eq_some hother hnext
        simp only [hsome, hother, if_true, Option.map_some] at hget hdefinitions
        refine .known hget hfold hdefinitions ?_ ?_ htook hemitted
        · rwa [StateFold.source_receive]
        · rw [Broadcast.inbox?_take, if_neg (Ne.symm hsources), hinbox]
    · have hne : everything a ≠ everything b := fun heq => hb (Registry.everything_inj.1 heq)
      simp only [if_neg hb, if_neg hne, Option.map_id'] at hdefinitions hget
      exact h.congr hget rfl hdefinitions

theorem advance (h : w.Follows a emitted) (now : Nat) : (w.advance now).Follows a emitted := by
  have hbalances := @ReducerStore.get?_advance _ w.balances a now
  have hdefinitions := @ReducerStore.get?_advance _ w.definitions a now
  cases h with
  | unknown hnone hfold hother hnil =>
    rw [hfold] at hbalances
    rw [hother] at hdefinitions
    exact .unknown hnone hbalances hdefinitions hnil
  | known hsome hfold hother hsources hinbox htook hemitted =>
    rw [hfold] at hbalances
    rw [hother] at hdefinitions
    refine .known hsome hbalances hdefinitions ?_ ?_ htook.advance hemitted
    · simpa using hsources
    · simpa using hinbox

/-- A step that hands nothing over keeps what has been passed on. -/
theorem of_quiet (h : (w.after e).Follows a emitted) (hquiet : w.handed a e = []) :
    (w.after e).Follows a (emitted ++ w.passedOn a e) := by
  rwa [passedOn_of_handed hquiet, List.append_nil]

/-- No step loses an atom between the reconciler and the fold, or reorders any. -/
theorem step (h : w.Follows a emitted) (hscoped : w.registry.WellScoped)
    (hreducer : w.balances.reducer = balanceReducer) (e : Event) :
    (w.after e).Follows a (emitted ++ w.passedOn a e) := by
  cases e with
  | watch b => exact of_quiet (h.watch hreducer) rfl
  | unwatch b =>
    refine of_quiet ?_ rfl
    simp only [after, Wallet.unwatch]
    split
    · exact h
    · exact h.congr rfl rfl rfl
  | reap n =>
    refine of_quiet ?_ rfl
    simp only [after, Wallet.reap]
    split
    · exact h
    · split
      · exact h.congr rfl rfl rfl
      · exact h
  | forward n => exact h.forward hscoped n
  | pump now b met => exact of_quiet (h.congr rfl rfl rfl) rfl
  | foldBalances now b => exact of_quiet (h.foldBalances hreducer now) rfl
  | foldDefinitions now b => exact of_quiet (h.foldDefinitions now) rfl
  | advance now => exact of_quiet (h.advance now) rfl

end Follows

theorem foldBalances_eq_none_iff {w : Wallet} {now : Nat} {a : Address} :
    w.foldBalances now a = none ↔
      ∀ fold, w.balances.get? a = some fold → w.registry.inbox a fold.source = [] := by
  rw [foldBalances, Option.map_eq_none_iff, nextAtom?_eq_none_iff]

/-- Once nothing waits for the fold of balances and no deadline lies ahead, it shows the holdings
after all that was passed on to it. -/
theorem Follows.latest_advance {w : Wallet} {a : Address} {emitted : List Atom} {now : Nat}
    (h : w.Follows a emitted) (hdone : w.foldBalances now a = none)
    (hquiet : ∀ fold due, w.balances.get? a = some fold → fold.deadline = some due → due ≤ now)
    (hsome : emitted ≠ []) : ((w.advance now).balances.published a).latest =
      some (balanceReducer.foldAtoms a .none emitted) := by
  cases h with
  | unknown _ _ _ hnil => exact absurd hnil hsome
  | @known r fold other taken waiting hr hbalances hdefinitions hsources hinbox htook hemitted =>
    have hwaiting : waiting = [] := by
      rw [← Registry.inbox_of_get? hr hinbox]
      exact foldBalances_eq_none_iff.1 hdone fold hbalances
    obtain rfl : emitted = taken := by rw [hemitted, hwaiting, List.append_nil]
    have hget : (w.advance now).balances.get? a = some (fold.advance now) :=
      (ReducerStore.get?_advance now).trans (by rw [hbalances, Option.map_some])
    rw [ReducerStore.published, hget]
    exact htook.latest_advance (hquiet fold · hbalances) hsome

/-- Taking in an atom leaves those behind it. -/
theorem inbox_after_foldBalances {w : Wallet} {a : Address} {fold : StateFold Holdings}
    (hfold : w.balances.get? a = some fold) (now : Nat) :
    ∃ fold', (w.after (.foldBalances now a)).balances.get? a = some fold' ∧
      (w.after (.foldBalances now a)).registry.inbox a fold'.source =
        (w.registry.inbox a fold.source).tail := by
  simp only [after, foldBalances]
  cases hnext : nextAtom? w.registry w.balances a with
  | none =>
    have hnone := nextAtom?_eq_none_iff.1 hnext fold hfold
    exact ⟨fold, hfold, by simp [hnone]⟩
  | some next =>
    obtain ⟨source, x⟩ := next
    obtain ⟨rfl, rest, hrest⟩ := nextAtom?_eq_some hfold hnext
    refine ⟨_, (ReducerStore.get?_receive now x).trans (by rw [hfold, Option.map_some]), ?_⟩
    simp only [Option.map_some, Option.getD_some, if_true, StateFold.source_receive]
    rw [Registry.inbox_take, List.drop_one]

/-- Taking in an atom sets the deadline anew. -/
theorem deadline_after_foldBalances {w : Wallet} {a : Address} {now : Nat}
    {fold' : StateFold Holdings}
    (h : (w.after (.foldBalances now a)).balances.get? a = some fold') :
    fold'.deadline = some (now + w.balances.debounce) ∨
      ∃ fold, w.balances.get? a = some fold ∧ fold'.deadline = fold.deadline := by
  simp only [after, foldBalances] at h
  cases hnext : nextAtom? w.registry w.balances a with
  | none =>
    simp only [hnext, Option.map_none, Option.getD_none] at h
    exact .inr ⟨fold', h, rfl⟩
  | some next =>
    simp only [hnext, Option.map_some, Option.getD_some, ReducerStore.get?_receive, if_true] at h
    obtain ⟨fold, hfold, rfl⟩ := Option.map_eq_some_iff.1 h
    unfold StateFold.receive
    split
    · exact .inl rfl
    · exact .inr ⟨fold, hfold, rfl⟩

/-- No step replaces the reducer. -/
theorem reducer_after {w : Wallet} {e : Event} :
    (w.after e).balances.reducer = w.balances.reducer := by
  cases e with
  | watch b =>
    have hfollow : ∀ (s : ReducerStore Holdings) (reg : Registry),
        (s.follow reg b).1.reducer = s.reducer := by
      intro s reg
      unfold ReducerStore.follow
      split <;> rfl
    simp only [after, watch]
    split
    · rfl
    · exact hfollow _ _
  | unwatch b =>
    simp only [after, unwatch]
    split <;> rfl
  | reap n =>
    simp only [after, reap]
    split
    · rfl
    · split <;> rfl
  | forward n => rw [balances_after_forward]
  | pump now b met => rfl
  | foldBalances now b =>
    simp only [after, foldBalances]
    cases nextAtom? w.registry w.balances b <;> rfl
  | foldDefinitions now b =>
    simp only [after, foldDefinitions]
    cases nextAtom? w.registry w.definitions b <;> rfl
  | advance now => rfl

/-- After any run, what the reconciler of an address has passed on has been taken in by the fold of
balances, or waits for it. -/
theorem follows_run (scheme : SignatureScheme) (config : Config) (a : Address)
    (events : List Event) : ((create scheme config).run events).Follows a
      ((create scheme config).collect (passedOn a) events) := by
  have hreducer : ∀ events : List Event,
      ((create scheme config).run events).balances.reducer = balanceReducer := by
    intro events
    induction events using List.reverseRecOn with
    | nil => rfl
    | append_singleton events e ih => rw [run_concat, reducer_after, ih]
  induction events using List.reverseRecOn with
  | nil => exact .unknown rfl rfl rfl rfl
  | append_singleton events e ih =>
    rw [run_concat, collect_concat]
    exact ih.step ((Grounded.create scheme config).run events).wellScoped (hreducer events) e

end Wallet

end ParticleLedger
