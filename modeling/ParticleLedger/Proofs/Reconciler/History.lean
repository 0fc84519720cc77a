import Mathlib.Data.List.Induction
import ParticleLedger.Proofs.Reconciler.Analysis

/-!
# What a reconciler has passed on

A reconciler is offered atoms one after another. Whatever they are, its view is at any time what the
atoms passed on so far make of an empty one (`LedgerView.Records`): each of them was passed on once,
each fitted the unspent coins that those before it left, and the unspent coins are the ones that
replaying all of them leaves.

Main statements: `records_acceptAll` (the view records the history, after any offers) and
`emission_safe` (what that says of the atoms passed on).
-/

namespace ParticleLedger

open Std (ExtTreeMap)

/-- An element of a list with one more at its end is the new one, or stood in the list before. -/
theorem concat_eq_append_cons_iff {α : Type} {history before after : List α} {a e : α} :
    history ++ [a] = before ++ e :: after ↔
      before = history ∧ e = a ∧ after = [] ∨
        ∃ rest, after = rest ++ [a] ∧ history = before ++ e :: rest := by
  constructor
  · intro heq
    rcases List.eq_nil_or_concat after with rfl | ⟨rest, last, rfl⟩
    · obtain ⟨rfl, hlast⟩ := List.append_inj' heq rfl
      exact .inl ⟨rfl, (List.singleton_inj.1 hlast).symm, rfl⟩
    · have heq' : history ++ [a] = (before ++ e :: rest) ++ [last] := by simpa using heq
      obtain ⟨rfl, hlast⟩ := List.append_inj' heq' rfl
      obtain rfl := List.singleton_inj.1 hlast
      exact .inr ⟨rest, by simp, rfl⟩
  · rintro (⟨rfl, rfl, rfl⟩ | ⟨rest, rfl, rfl⟩)
    · rfl
    · simp

/-! ## Replaying a history -/

namespace LedgerView

variable {scope : Scope} {k : ParticleId} {c : Coin}

/-- The unspent coins that some atoms leave, one after another, when there were none before. -/
def replayAll (scope : Scope) (history : List Atom) : ExtTreeMap ParticleId Coin :=
  history.foldl (replay scope) ∅

@[simp] theorem replayAll_nil : replayAll scope [] = ∅ := rfl

theorem replayAll_concat (history : List Atom) (a : Atom) :
    replayAll scope (history ++ [a]) = replay scope (replayAll scope history) a := by
  simp [replayAll]

/-- What is there after a history was created by one of its atoms. -/
theorem getElem?_replayAll {history : List Atom} (h : (replayAll scope history)[k]? = some c) :
    ∃ e ∈ history, (k, c) ∈ scope.created e := by
  induction history using List.reverseRecOn with
  | nil => simp at h
  | append_singleton history a ih =>
    rw [replayAll_concat] at h
    rcases getElem?_replay h with hcreated | ⟨-, -, hbefore⟩
    · exact ⟨a, by simp, hcreated⟩
    · obtain ⟨e, he, hcreated⟩ := ih hbefore
      exact ⟨e, by simp [he], hcreated⟩

/-- Every coin that is there after a history is relevant and stands under its own name. -/
theorem named_of_replayAll {history : List Atom} (h : (replayAll scope history)[k]? = some c) :
    c.id = k ∧ scope.relevant c := by
  obtain ⟨e, -, hcreated⟩ := getElem?_replayAll h
  obtain ⟨-, hrelevant, hid⟩ := Scope.mem_created.1 hcreated
  exact ⟨hid, hrelevant⟩

/-- A coin is there after a history if some atom creates it and no later one spends it. -/
theorem mem_replayAll_iff {history : List Atom} :
    k ∈ replayAll scope history ↔ ∃ before e after, history = before ++ e :: after ∧
      k ∈ scope.creates e ∧ ∀ x ∈ after, k ∉ scope.consumed x := by
  induction history using List.reverseRecOn with
  | nil => simp
  | append_singleton history a ih =>
    rw [replayAll_concat, mem_replay, ih]
    constructor
    · rintro (hcreates | ⟨⟨before, e, after, rfl, hcreates, hafter⟩, hkeep⟩)
      · exact ⟨history, a, [], rfl, hcreates, by simp⟩
      · refine ⟨before, e, after ++ [a], by simp, hcreates, ?_⟩
        simpa [or_imp, forall_and] using ⟨hafter, hkeep⟩
    · rintro ⟨before, e, after, heq, hcreates, hafter⟩
      rcases concat_eq_append_cons_iff.1 heq with ⟨-, rfl, -⟩ | ⟨rest, rfl, rfl⟩
      · exact .inl hcreates
      · exact .inr ⟨⟨before, e, rest, rfl, hcreates, fun x hx => hafter x (by simp [hx])⟩,
          hafter a (by simp)⟩

end LedgerView

/-- Every atom of the history fits the unspent coins that those before it leave. -/
def Scope.Orderly (scope : Scope) (history : List Atom) : Prop :=
  ∀ before e after, history = before ++ e :: after →
    scope.Fits (LedgerView.replayAll scope before) e

namespace Scope

variable {scope : Scope}

theorem Orderly.of_prefix {first history : List Atom} (h : scope.Orderly history)
    (hinit : first <+: history) : scope.Orderly first := by
  obtain ⟨later, rfl⟩ := hinit
  rintro before e after rfl
  exact h before e (after ++ later) (by simp)

theorem orderly_nil : scope.Orderly [] := by
  intro before e after h
  simp at h

theorem orderly_concat_iff {history : List Atom} {a : Atom} :
    scope.Orderly (history ++ [a]) ↔
      scope.Orderly history ∧ scope.Fits (LedgerView.replayAll scope history) a := by
  constructor
  · intro h
    exact ⟨h.of_prefix (List.prefix_append _ _), h history a [] rfl⟩
  · rintro ⟨hbefore, hlast⟩ before e after heq
    rcases concat_eq_append_cons_iff.1 heq with ⟨rfl, rfl, -⟩ | ⟨rest, -, rfl⟩
    · exact hlast
    · exact hbefore before e rest rfl

end Scope

/-! ## The view as a record of the history -/

/-- The view is what the atoms of the history, passed on in this order, make of an empty one. -/
structure LedgerView.Records (s : LedgerView) (scope : Scope) (history : List Atom) : Prop where
  applied_iff : ∀ id, id ∈ s.applied ↔ ∃ e ∈ history, e.id = id
  distinct : (history.map Atom.id).Nodup
  orderly : scope.Orderly history
  unconsumed_eq : s.unconsumed = replayAll scope history

namespace LedgerView.Records

variable {scope : Scope} {s s' : LedgerView} {history : List Atom} {a : Atom}

theorem empty : LedgerView.empty.Records scope [] where
  applied_iff id := by simp [LedgerView.empty]
  distinct := by simp
  orderly := Scope.orderly_nil
  unconsumed_eq := rfl

/-- An atom that waits leaves no trace in the history. -/
theorem blocked (h : s.Records scope history) (hs : s.analyse scope a = .blocked s') :
    s'.Records scope history := by
  obtain ⟨-, k, -, ⟨-, rfl⟩ | ⟨b, -, -, rfl⟩⟩ := analyse_eq_blocked hs
  · exact ⟨h.applied_iff, h.distinct, h.orderly, h.unconsumed_eq⟩
  · exact h

/-- An atom that is applied continues the history. -/
theorem applied {unblocked : List Atom} (h : s.Records scope history)
    (hs : s.analyse scope a = .applied s' unblocked) : s'.Records scope (history ++ [a]) := by
  obtain ⟨hnew, hfits, rfl, -⟩ := analyse_eq_applied hs
  have hunknown : ¬∃ e ∈ history, e.id = a.id := fun hx => hnew ((h.applied_iff a.id).2 hx)
  refine ⟨fun id => ?_, ?_, ?_, ?_⟩
  · simp only [Std.ExtTreeSet.mem_insert, Std.compare_eq_iff_eq, h.applied_iff, List.mem_append,
      List.mem_singleton, or_and_right, exists_or, exists_eq_left]
    exact or_comm
  · rw [List.map_append, List.nodup_append]
    refine ⟨h.distinct, by simp, ?_⟩
    rintro _ hx _ hy rfl
    obtain ⟨e, he, hid⟩ := List.mem_map.1 hx
    obtain rfl := List.mem_singleton.1 hy
    exact hunknown ⟨e, he, hid⟩
  · rw [Scope.orderly_concat_iff, ← h.unconsumed_eq]
    exact ⟨h.orderly, hfits⟩
  · rw [replayAll_concat, ← h.unconsumed_eq]

/-- No analysis breaks the record. -/
theorem workInvariant (scope : Scope) :
    WorkInvariant scope fun s history _ => s.Records scope history where
  known h _ := h
  blocked h hs := h.blocked hs
  applied h hs := h.applied hs

end LedgerView.Records

/-! ## Offers -/

namespace Reconciler

variable {r : Reconciler} {a : Atom}

/-- What a reconciler passes on while atoms are offered to it one after another, the atoms passed on
by an offer that ended in a violation included. -/
def emissions (r : Reconciler) : List Atom → List Atom
  | [] => []
  | a :: rest => (r.accept a).emitted ++ (r.accept a).reconciler.emissions rest

theorem acceptAll_concat (offered : List Atom) :
    r.acceptAll (offered ++ [a]) = ((r.acceptAll offered).accept a).reconciler := by
  simp [acceptAll]

theorem emissions_append (first later : List Atom) :
    r.emissions (first ++ later) = r.emissions first ++ (r.acceptAll first).emissions later := by
  induction first generalizing r with
  | nil => rfl
  | cons b rest ih => simp [emissions, acceptAll, ih]

theorem emissions_concat (offered : List Atom) :
    r.emissions (offered ++ [a]) =
      r.emissions offered ++ ((r.acceptAll offered).accept a).emitted := by
  simp [emissions_append, emissions]

/-- While no violation was met, an offer does what the view does. -/
theorem accept_of_running (h : r.halted = none) :
    r.accept a =
      { reconciler :=
          { r with
            view := (r.view.accept r.scope a).view
            halted := (r.view.accept r.scope a).violation
            subscribers := r.subscribers.post (r.view.accept r.scope a).emitted }
        emitted := (r.view.accept r.scope a).emitted
        error := (r.view.accept r.scope a).violation } := by
  simp [accept, h]

/-- After a violation every offer is refused and changes nothing. -/
theorem accept_of_halted {reason : Violation} (h : r.halted = some reason) :
    r.accept a = ⟨r, [], some (.halted r.scope.address reason)⟩ := by
  simp [accept, h]

@[simp] theorem scope_accept : (r.accept a).reconciler.scope = r.scope := by
  cases h : r.halted with
  | none => rw [accept_of_running h]
  | some reason => rw [accept_of_halted h]

@[simp] theorem scope_acceptAll (offered : List Atom) : (r.acceptAll offered).scope = r.scope := by
  induction offered using List.reverseRecOn with
  | nil => rfl
  | append_singleton offered a ih => rw [acceptAll_concat, scope_accept, ih]

/-- What an offer passes on is posted to every subscriber. -/
theorem inbox?_accept (r : Reconciler) (x : Atom) (subscriber : Nat) :
    (r.accept x).reconciler.subscribers.inbox? subscriber =
      (r.subscribers.inbox? subscriber).map (· ++ (r.accept x).emitted) := by
  cases h : r.halted with
  | none =>
    rw [accept_of_running h]
    exact Broadcast.inbox?_post _ _ _
  | some reason =>
    rw [accept_of_halted h]
    cases r.subscribers.inbox? subscriber <;> simp

/-- The listed coins of a token are those of a part of the unspent ones. -/
theorem snapshotFor_eq (r : Reconciler) (t : TokenRef) : r.snapshotFor t =
    (r.view.unconsumed.filter fun _ c => c.token = t).toList.map (·.2) := by
  rw [ExtTreeMap.toList_filter, snapshotFor, snapshot, List.filter_map]
  rfl

/-- One offer continues the history by what it passes on. -/
theorem records_accept {history : List Atom} (h : r.view.Records r.scope history) :
    (r.accept a).reconciler.view.Records r.scope (history ++ (r.accept a).emitted) := by
  cases hrun : r.halted with
  | none =>
    rw [accept_of_running hrun]
    obtain ⟨_, hrecords, -⟩ := (LedgerView.Records.workInvariant r.scope).run (s := r.view) h
    exact hrecords
  | some reason =>
    rw [accept_of_halted hrun]
    simpa using h

/-- After any offers the view records what has been passed on. -/
theorem records_acceptAll (scope : Scope) (offered : List Atom) :
    ((fresh scope).acceptAll offered).view.Records scope ((fresh scope).emissions offered) := by
  induction offered using List.reverseRecOn with
  | nil => exact LedgerView.Records.empty
  | append_singleton offered a ih =>
    rw [acceptAll_concat, emissions_concat]
    have hscope : ((fresh scope).acceptAll offered).scope = scope := scope_acceptAll offered
    have h := records_accept (r := (fresh scope).acceptAll offered) (a := a) (by rwa [hscope])
    rwa [hscope] at h

/-- Distinct atoms that each fit what those before them leave, offered in this order, are all passed
on as they come. -/
theorem emissions_of_orderly {scope : Scope} {history : List Atom}
    (horderly : scope.Orderly history) (hdistinct : (history.map Atom.id).Nodup) :
    (fresh scope).emissions history = history ∧
      ((fresh scope).acceptAll history).halted = none ∧
      ((fresh scope).acceptAll history).view.pending = ∅ := by
  induction history using List.reverseRecOn with
  | nil => exact ⟨rfl, rfl, rfl⟩
  | append_singleton history a ih =>
    obtain ⟨hbefore, hfits⟩ := Scope.orderly_concat_iff.1 horderly
    rw [List.map_append, List.nodup_append] at hdistinct
    obtain ⟨hpassed, hrun, hnone⟩ := ih hbefore hdistinct.1
    have hrecords := records_acceptAll scope history
    rw [hpassed] at hrecords
    have hnew : a.id ∉ ((fresh scope).acceptAll history).view.applied := by
      rw [hrecords.applied_iff]
      rintro ⟨e, he, hid⟩
      exact hdistinct.2.2 e.id (List.mem_map_of_mem he) a.id (by simp) hid
    rw [← hrecords.unconsumed_eq] at hfits
    have haccept := LedgerView.accept_of_fits hnew hfits hnone
    have hscope : ((fresh scope).acceptAll history).scope = scope := scope_acceptAll history
    rw [emissions_concat, acceptAll_concat, accept_of_running hrun, hscope, haccept, hpassed]
    exact ⟨rfl, rfl, rfl⟩

/-- Whatever is offered to a reconciler, it passes no atom on twice; each atom passed on spends
coins that those before it left unspent and creates coins that were not there, each once; and the
unspent coins are those that all of them leave, each relevant and under its own name. -/
theorem emission_safe (scope : Scope) (offered : List Atom) :
    let r := (fresh scope).acceptAll offered
    let emitted := (fresh scope).emissions offered
    (emitted.map Atom.id).Nodup ∧
    (∀ before e after, emitted = before ++ e :: after →
      (∀ k ∈ scope.consumed e, k ∈ LedgerView.replayAll scope before) ∧
      (∀ k ∈ scope.creates e, k ∉ LedgerView.replayAll scope before) ∧
      (scope.creates e).Nodup) ∧
    r.view.unconsumed = LedgerView.replayAll scope emitted ∧
    ∀ (k : ParticleId) (c : Coin), r.view.unconsumed[k]? = some c →
      c.id = k ∧ c.ownedBy scope.address ∧ scope.filter.accepts c.token := by
  intro r emitted
  have h : r.view.Records scope emitted := records_acceptAll scope offered
  refine ⟨h.distinct, ?_, h.unconsumed_eq, ?_⟩
  · intro before e after heq
    have hfits := h.orderly before e after heq
    exact ⟨hfits.spends_present, hfits.creates_absent, hfits.creates_nodup⟩
  · intro k c hk
    rw [h.unconsumed_eq] at hk
    obtain ⟨hid, hrelevant⟩ := LedgerView.named_of_replayAll hk
    exact ⟨hid, by simpa [Scope.relevant] using hrelevant⟩

end Reconciler

end ParticleLedger
