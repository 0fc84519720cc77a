import Mathlib.Data.Finset.Card
import Mathlib.Data.Nat.Choose.Basic
import ParticleLedger.Proofs.Reconciler.Containment
import ParticleLedger.Proofs.Reconciler.Waiting

/-!
# The work loop

`LedgerView.run` works through a list that has the next atom at its head. The loop behind it keeps a
stack with the next atom at its end: each round takes the last atom off, and puts what that atom
unblocked back in reversed order, so that the first of it comes next. `WorkLoop.round` is one round,
and `WorkLoop.EndsAfter` counts the rounds until the loop ends.

An atom can be taken out of the waiting ones, wait again for another coin and be taken out again.
That ends because only an atom that is applied takes others out, and with each one that is applied
there is one less on the stack and waiting together.

Main statements: `WorkLoop.endsAfter_run` (the loop ends, with what a run gives, after a bounded
number of rounds), `WorkLoop.EndsAfter.unique` and `accept_bounded`.
-/

namespace ParticleLedger

/-! ## Rounds -/

/-- The work loop between two rounds. -/
structure WorkLoop where
  view : LedgerView
  /-- The atoms to be worked through, the next one last. -/
  stack : List Atom
  /-- The atoms applied so far, in order. -/
  emitted : List Atom

namespace WorkLoop

/-- The loop before the first round. -/
def start (s : LedgerView) (a : Atom) : WorkLoop := ⟨s, [a], []⟩

/-- What a round comes to. -/
inductive Round where
  | goesOn (next : WorkLoop)
  | ends (outcome : Outcome)

/-- One round: takes the last atom off the stack and analyses it. -/
def round (scope : Scope) (l : WorkLoop) : Round :=
  match l.stack.getLast? with
  | none => .ends ⟨l.view, l.emitted, none⟩
  | some a =>
    let stack := l.stack.dropLast
    match l.view.analyse scope a with
    | .known => .goesOn { l with stack := stack }
    | .blocked after => .goesOn ⟨after, stack, l.emitted⟩
    | .refused cause => .ends ⟨l.view, l.emitted, some cause⟩
    | .applied after unblocked =>
      -- Reversed, so that the first of the unblocked atoms is the next one.
      .goesOn ⟨after, stack ++ unblocked.reverse, l.emitted ++ [a]⟩

/-- The loop takes so many atoms off its stack with a round that goes on, and ends in the next round
with the outcome. -/
inductive EndsAfter (scope : Scope) : WorkLoop → Nat → Outcome → Prop
  | last {l : WorkLoop} {o : Outcome} (h : l.round scope = .ends o) : EndsAfter scope l 0 o
  | step {l next : WorkLoop} {n : Nat} {o : Outcome} (h : l.round scope = .goesOn next)
      (later : EndsAfter scope next n o) : EndsAfter scope l (n + 1) o

variable {scope : Scope} {l : WorkLoop} {s : LedgerView} {a : Atom} {work emitted : List Atom}

/-- A loop ends in one way only. -/
theorem EndsAfter.unique {n m : Nat} {o p : Outcome} (hn : l.EndsAfter scope n o)
    (hm : l.EndsAfter scope m p) : n = m ∧ o = p := by
  induction hn generalizing m p with
  | last h =>
    cases hm with
    | last h' =>
      rw [h] at h'
      exact ⟨rfl, Round.ends.inj h'⟩
    | step h' _ =>
      rw [h] at h'
      contradiction
  | step h _ ih =>
    cases hm with
    | last h' =>
      rw [h] at h'
      contradiction
    | step h' later =>
      rw [h] at h'
      obtain rfl := Round.goesOn.inj h'
      obtain ⟨rfl, rfl⟩ := ih later
      exact ⟨rfl, rfl⟩

theorem round_nil : (WorkLoop.mk s [] emitted).round scope = .ends ⟨s, emitted, none⟩ := rfl

/-- A round in terms of the list of the work, which has the next atom at its head. -/
theorem round_reverse_cons : (WorkLoop.mk s (a :: work).reverse emitted).round scope =
    match s.analyse scope a with
    | .known => .goesOn ⟨s, work.reverse, emitted⟩
    | .blocked after => .goesOn ⟨after, work.reverse, emitted⟩
    | .refused cause => .ends ⟨s, emitted, some cause⟩
    | .applied after unblocked =>
      .goesOn ⟨after, (unblocked ++ work).reverse, emitted ++ [a]⟩ := by
  simp only [round, List.reverse_cons, List.getLast?_concat, List.dropLast_concat,
    List.reverse_append]

/-! ## The end of the loop -/

/-- The loop ends with what a run gives. Let `m` be the number of atoms on the stack and waiting
together: no more than `m.choose 2` rounds, and one for each atom on the stack, go on. -/
theorem endsAfter_run (scope : Scope) (s : LedgerView) (work emitted : List Atom) :
    ∃ n ≤ (s.pending.size + work.length).choose 2 + work.length,
      (WorkLoop.mk s work.reverse emitted).EndsAfter scope n
        { s.run scope work with emitted := emitted ++ (s.run scope work).emitted } := by
  -- A round lowers the bound: if the atom waits or is known, there is one less on the stack; if it
  -- is applied, `m` falls by one, and the stack may grow up to the new `m`.
  have hchoose : ∀ m : Nat, (m + 1).choose 2 = m + m.choose 2 := fun m => by
    rw [Nat.choose_succ_succ, Nat.choose_one_right]
  fun_induction LedgerView.run scope s work generalizing emitted with
  | case1 s => exact ⟨0, Nat.zero_le _, .last (by simp [round_nil])⟩
  | case2 s a work hknown ih =>
    obtain ⟨n, hn, hends⟩ := ih emitted
    refine ⟨n + 1, ?_, .step (by rw [round_reverse_cons, hknown]) hends⟩
    have hstep := hchoose (s.pending.size + work.length)
    simp only [List.length_cons, ← Nat.add_assoc]
    omega
  | case3 s a work after hblocked ih =>
    obtain ⟨n, hn, hends⟩ := ih emitted
    refine ⟨n + 1, ?_, .step (by rw [round_reverse_cons, hblocked]) hends⟩
    have hsize := LedgerView.size_analyse_blocked hblocked
    have hmono := Nat.choose_le_choose 2 (show after.pending.size + work.length ≤
      s.pending.size + (a :: work).length by simp only [List.length_cons]; omega)
    simp only [List.length_cons] at hmono ⊢
    omega
  | case4 s a work cause hrefused =>
    exact ⟨0, Nat.zero_le _, .last (by rw [round_reverse_cons, hrefused, List.append_nil])⟩
  | case5 s a work after unblocked happlied later ih =>
    obtain ⟨n, hn, hends⟩ := ih (emitted ++ [a])
    refine ⟨n + 1, ?_, .step (by rw [round_reverse_cons, happlied]) (by simpa using hends)⟩
    have hsize := LedgerView.size_analyse_applied happlied
    have hstep := hchoose (s.pending.size + work.length)
    simp only [List.length_cons, List.length_append, ← Nat.add_assoc] at hn ⊢
    rw [show after.pending.size + unblocked.length + work.length = s.pending.size + work.length by
      omega] at hn
    omega

end WorkLoop

/-! ## What one offer can pass on -/

namespace LedgerView

variable {scope : Scope} {s : LedgerView} {a : Atom}

/-- The names of the atoms that wait, each once. -/
def waitingIds (s : LedgerView) : Finset AtomId :=
  (s.pending.toList.map fun entry => entry.2.id).toFinset

theorem mem_waitingIds {id : AtomId} :
    id ∈ s.waitingIds ↔ ∃ (k : ParticleId) (b : Atom), s.pending[k]? = some b ∧ b.id = id := by
  simp only [waitingIds, List.mem_toFinset, List.mem_map, Prod.exists,
    Std.ExtTreeMap.mem_toList_iff_getElem?_eq_some]

/-- What an offer passes on is the atom that is offered, and some that waited. -/
theorem offered_or_waiting {e : Atom} (he : e ∈ (s.accept scope a).emitted) :
    e = a ∨ ∃ k : ParticleId, s.pending[k]? = some e := by
  have hstart : Drawn {x | x = a ∨ ∃ k : ParticleId, s.pending[k]? = some x} s [] [a] := by
    refine ⟨by simp, fun w hw => .inl (List.mem_singleton.1 hw), fun k b hb => .inr ⟨k, hb⟩⟩
  obtain ⟨_, hdrawn, -⟩ := (Drawn.workInvariant scope _).run hstart
  exact hdrawn.emitted_mem e he

/-- **An offer comes to an end, and its output is bounded.** Whatever the view, and also if atoms
wait for each other in a circle: with `p` entries waiting, the work loop takes at most
`(p + 1).choose 2 + 1` atoms off its stack, and then ends with the outcome of the offer. What is
passed on is the atom that is offered and some that waited, no name twice; so it is at most one more
than there are different atoms that waited, however often one of them had to wait again. -/
theorem accept_bounded (scope : Scope) (s : LedgerView) (a : Atom) :
    (∃ n ≤ (s.pending.size + 1).choose 2 + 1,
      (WorkLoop.start s a).EndsAfter scope n (s.accept scope a)) ∧
    (∀ e ∈ (s.accept scope a).emitted, e = a ∨ ∃ k : ParticleId, s.pending[k]? = some e) ∧
    ((s.accept scope a).emitted.map Atom.id).Nodup ∧
    (s.accept scope a).emitted.length ≤ s.waitingIds.card + 1 := by
  have hdistinct : ((s.accept scope a).emitted.map Atom.id).Nodup := by
    obtain ⟨left, hworks, -⟩ := works_run scope s [a]
    exact hworks.extends.distinct
  have hnames : ((s.accept scope a).emitted.map Atom.id).toFinset ⊆ insert a.id s.waitingIds := by
    intro id hid
    obtain ⟨e, he, rfl⟩ := List.mem_map.1 (List.mem_toFinset.1 hid)
    rw [Finset.mem_insert, mem_waitingIds]
    rcases offered_or_waiting he with rfl | ⟨k, hk⟩
    · exact .inl rfl
    · exact .inr ⟨k, e, hk, rfl⟩
  refine ⟨WorkLoop.endsAfter_run scope s [a] [], fun e => offered_or_waiting, hdistinct, ?_⟩
  calc (s.accept scope a).emitted.length
      = ((s.accept scope a).emitted.map Atom.id).toFinset.card := by
        rw [List.toFinset_card_of_nodup hdistinct, List.length_map]
    _ ≤ (insert a.id s.waitingIds).card := Finset.card_le_card hnames
    _ ≤ s.waitingIds.card + 1 := Finset.card_insert_le _ _

end LedgerView

/-! ## An atom that has to wait again -/

namespace Sample

open LedgerView (replay release)

/-- Five of a third token, owned by the account. -/
def silver : Coin := ⟨⟨address, "SILVER"⟩, 5, KeySet.single address.key, 3⟩

/-- Creates the coin and the silver one. -/
def mint : Atom := .unsigned [.consumable coin, .consumable silver] 6 none

/-- Spends the silver coin and creates the golden one. -/
def exchange : Atom := .unsigned [.consumer silver, .consumable gold] 7 none

/-- Spends the coin and the golden one. -/
def melt : Atom := .spending [coin, gold] 8

theorem ownedBy_silver : silver.ownedBy address :=
  Coin.ownedBy_single _ _ _ _

theorem relevant_silver : scope.relevant silver := by
  simpa [Scope.relevant, scope, TokenFilter.accepts] using ownedBy_silver

@[simp] theorem consumed_mint : scope.consumed mint = [] := rfl

@[simp] theorem creates_mint : scope.creates mint = [coin.id, silver.id] := by
  simp [Scope.creates, Scope.created, show mint.consumables = [coin, silver] from rfl,
    relevant_coin, relevant_silver]

@[simp] theorem consumed_exchange : scope.consumed exchange = [silver.id] := by
  simp [Scope.consumed, show exchange.consumers = [silver] from rfl, relevant_silver]

@[simp] theorem creates_exchange : scope.creates exchange = [gold.id] := by
  simp [Scope.creates, Scope.created, show exchange.consumables = [gold] from rfl, relevant_gold]

@[simp] theorem consumed_melt : scope.consumed melt = [coin.id, gold.id] :=
  Atom.consumed_spending (by simp [relevant_coin, relevant_gold])

@[simp] theorem creates_melt : scope.creates melt = [] := Atom.creates_spending

theorem leadingBytes_metals : silver.leadingByte = some 18 ∧ mint.leadingByte = some 105 ∧
    exchange.leadingByte = some 239 ∧ melt.leadingByte = some 218 := by
  decide +kernel

theorem leadingByte_silver : silver.leadingByte = some 18 := leadingBytes_metals.1

theorem leadingByte_mint : mint.leadingByte = some 105 := leadingBytes_metals.2.1

theorem leadingByte_exchange : exchange.leadingByte = some 239 := leadingBytes_metals.2.2.1

theorem leadingByte_melt : melt.leadingByte = some 218 := leadingBytes_metals.2.2.2

theorem distinct_metals : ([coin, gold, silver].map Coin.id).Nodup :=
  Coin.nodup_ids_of_leadingBytes (by
    simp [leadingByte_coin, leadingByte_gold, leadingByte_silver])

theorem distinct_metalwork : ([mint, exchange, melt].map Atom.id).Nodup :=
  Atom.nodup_ids_of_leadingBytes (by
    simp [leadingByte_mint, leadingByte_exchange, leadingByte_melt])

/-- One atom waits for the coin, and would miss the golden one next; another, which creates the
golden one, waits for the silver one. -/
def stalled : LedgerView :=
  { LedgerView.empty with
    pending := (LedgerView.empty.pending.insert coin.id melt).insert silver.id exchange }

/-- The view after an atom that fits. -/
def viewAfter (s : LedgerView) (a : Atom) : LedgerView :=
  ⟨replay scope s.unconsumed a, (release s.pending (scope.creates a)).1, s.applied.insert a.id⟩

theorem getElem?_viewAfter {s : LedgerView} {a : Atom} {k : ParticleId} :
    (viewAfter s a).pending[k]? = if k ∈ scope.creates a then none else s.pending[k]? :=
  LedgerView.getElem?_release s.pending (scope.creates a)

/-- The atom that waited for the coin waits again. -/
def stalledAgain : LedgerView :=
  { viewAfter stalled mint with
    pending := (viewAfter stalled mint).pending.insert gold.id melt }

theorem metals_ne : coin.id ≠ gold.id ∧ coin.id ≠ silver.id ∧ gold.id ≠ silver.id := by
  simpa [and_assoc] using distinct_metals

theorem metalwork_ne : mint.id ≠ exchange.id ∧ mint.id ≠ melt.id ∧ exchange.id ≠ melt.id := by
  simpa [and_assoc] using distinct_metalwork

theorem getElem?_stalled {k : ParticleId} : stalled.pending[k]? =
    if silver.id = k then some exchange else if coin.id = k then some melt else none := by
  simp [stalled, LedgerView.empty, Std.ExtTreeMap.getElem?_insert]

theorem analyse_mint :
    stalled.analyse scope mint = .applied (viewAfter stalled mint) [melt, exchange] := by
  obtain ⟨-, hcoin, -⟩ := metals_ne
  have hfits : scope.Fits stalled.unconsumed mint := by
    constructor <;> simp [stalled, LedgerView.empty, hcoin]
  have hreleased : (release stalled.pending (scope.creates mint)).2 = [melt, exchange] := by
    rw [LedgerView.release_of_nodup hfits.creates_nodup]
    simp [getElem?_stalled, hcoin.symm]
  rw [LedgerView.analyse_of_fits (by simp [stalled, LedgerView.empty]) hfits, hreleased]
  rfl

theorem mem_unconsumed_minted {k : ParticleId} :
    k ∈ (viewAfter stalled mint).unconsumed ↔ k = coin.id ∨ k = silver.id := by
  simp [viewAfter, stalled, LedgerView.empty, LedgerView.mem_replay]

theorem mem_applied_minted {id : AtomId} :
    id ∈ (viewAfter stalled mint).applied ↔ mint.id = id := by
  simp [viewAfter, stalled, LedgerView.empty]

/-- The golden coin is not there yet. -/
theorem analyse_melt : (viewAfter stalled mint).analyse scope melt = .blocked stalledAgain := by
  obtain ⟨hgold, hcoin, hsilver⟩ := metals_ne
  have hfree : (viewAfter stalled mint).pending[gold.id]? = none := by
    rw [getElem?_viewAfter, getElem?_stalled, if_neg hsilver.symm, if_neg hgold, ite_self]
  refine LedgerView.decides_iff.1 (.waits ?_ (LedgerView.missing?_eq_some_iff.2
    ⟨?_, [coin.id], [], consumed_melt, ?_⟩) hfree)
  · rw [mem_applied_minted]
    exact metalwork_ne.2.1
  · rw [mem_unconsumed_minted, not_or]
    exact ⟨hgold.symm, hsilver⟩
  · simp [mem_unconsumed_minted]

theorem analyse_exchange :
    stalledAgain.analyse scope exchange = .applied (viewAfter stalledAgain exchange) [melt] := by
  obtain ⟨hgold, hcoin, hsilver⟩ := metals_ne
  have hnew : exchange.id ∉ stalledAgain.applied := by
    rw [stalledAgain, mem_applied_minted]
    exact metalwork_ne.1
  have hfits : scope.Fits stalledAgain.unconsumed exchange := by
    constructor <;> simp [stalledAgain, mem_unconsumed_minted, hgold.symm, hsilver]
  have hreleased : (release stalledAgain.pending (scope.creates exchange)).2 = [melt] := by
    rw [LedgerView.release_of_nodup hfits.creates_nodup]
    simp [stalledAgain]
  rw [LedgerView.analyse_of_fits hnew hfits, hreleased]
  rfl

theorem analyse_melt_again : (viewAfter stalledAgain exchange).analyse scope melt =
    .applied (viewAfter (viewAfter stalledAgain exchange) melt) [] := by
  obtain ⟨hgold, hcoin, hsilver⟩ := metals_ne
  have hnew : melt.id ∉ (viewAfter stalledAgain exchange).applied := by
    rw [viewAfter, Std.ExtTreeSet.mem_insert, Std.compare_eq_iff_eq, stalledAgain,
      mem_applied_minted, not_or]
    exact ⟨metalwork_ne.2.2, metalwork_ne.2.1⟩
  have hthere : ∀ k, k ∈ (viewAfter stalledAgain exchange).unconsumed ↔
      k = gold.id ∨ (k = coin.id ∨ k = silver.id) ∧ k ≠ silver.id := by
    intro k
    rw [viewAfter, LedgerView.mem_replay, creates_exchange, consumed_exchange, stalledAgain,
      mem_unconsumed_minted, List.mem_singleton, List.mem_singleton]
  have hfits : scope.Fits (viewAfter stalledAgain exchange).unconsumed melt := by
    constructor <;> simp [hthere, hcoin]
  rw [LedgerView.analyse_of_fits hnew hfits]
  rfl

end Sample

namespace LedgerView

/-- Two atoms wait. One of them is released by the offer, has to wait for another coin, and is
released again by the other one: two rounds into the loop it waits, and in the end all three atoms
have been passed on, which is as many as there can be. -/
theorem accept_bounded_waiting_again :
    (∃ first second, (WorkLoop.start Sample.stalled Sample.mint).round Sample.scope =
        .goesOn first ∧ first.round Sample.scope = .goesOn second ∧
      Sample.stalled.pending[Sample.coin.id]? = some Sample.melt ∧
      first.stack = [Sample.exchange, Sample.melt] ∧
      second.view.pending[Sample.gold.id]? = some Sample.melt) ∧
    (Sample.stalled.accept Sample.scope Sample.mint).emitted =
      [Sample.mint, Sample.exchange, Sample.melt] ∧
    Sample.stalled.waitingIds.card + 1 = 3 := by
  have hemitted : (Sample.stalled.accept Sample.scope Sample.mint).emitted =
      [Sample.mint, Sample.exchange, Sample.melt] := by
    rw [accept, run_of_applied Sample.analyse_mint, List.append_nil,
      run_of_blocked Sample.analyse_melt, run_of_applied Sample.analyse_exchange, List.append_nil,
      run_of_applied Sample.analyse_melt_again, List.append_nil]
    simp [run]
  refine ⟨⟨⟨Sample.viewAfter Sample.stalled Sample.mint, [Sample.exchange, Sample.melt],
    [Sample.mint]⟩, ⟨Sample.stalledAgain, [Sample.exchange], [Sample.mint]⟩, ?_, ?_, ?_, rfl, ?_⟩,
    hemitted, ?_⟩
  · rw [WorkLoop.start, ← List.reverse_singleton, WorkLoop.round_reverse_cons, Sample.analyse_mint]
    rfl
  · rw [show [Sample.exchange, Sample.melt] = [Sample.melt, Sample.exchange].reverse from rfl,
      WorkLoop.round_reverse_cons, Sample.analyse_melt]
    rfl
  · rw [Sample.getElem?_stalled, if_neg Sample.metals_ne.2.1.symm, if_pos rfl]
  · exact Std.ExtTreeMap.getElem?_insert_self
  · obtain ⟨-, -, -, hbound⟩ := accept_bounded Sample.scope Sample.stalled Sample.mint
    have hnames : Sample.stalled.waitingIds ⊆ {Sample.exchange.id, Sample.melt.id} := by
      intro id hid
      obtain ⟨k, b, hb, rfl⟩ := mem_waitingIds.1 hid
      rw [Sample.getElem?_stalled] at hb
      rw [Finset.mem_insert, Finset.mem_singleton]
      split_ifs at hb
      · exact .inl (by rw [Option.some_inj.1 hb])
      · exact .inr (by rw [Option.some_inj.1 hb])
    have hcard := (Finset.card_le_card hnames).trans Finset.card_le_two
    rw [hemitted] at hbound
    have hthree : 3 ≤ Sample.stalled.waitingIds.card + 1 := hbound
    omega

end LedgerView

end ParticleLedger
