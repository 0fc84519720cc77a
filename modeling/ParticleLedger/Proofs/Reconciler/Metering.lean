import Mathlib.Algebra.Order.Ring.Int
import ParticleLedger.Proofs.MapSum
import ParticleLedger.Proofs.Reconciler.Containment
import ParticleLedger.Proofs.Reconciler.Registry

/-!
# What a registry counts

The reconcilers of a registry share one meter. It is never told a total: at each offer it adds the
number of atoms passed on, and moves its gauge by the change in the number of atoms that wait. It does
so at every offer, also at one that fails half-way and at one that is refused because the reconciler
has halted, and therefore agrees with the reconcilers at any time.

Main statements: `appliedLen_accept` (as many atoms become known as are passed on),
`Metered.acceptAt` (one offer), `Metered.act` (one action) and `meter_exact`.
-/

namespace ParticleLedger

/-! ## What becomes known -/

namespace LedgerView

/-- As many atoms become known as are passed on. -/
theorem appliedSizeInvariant (scope : Scope) (known : Nat) :
    WorkInvariant scope fun s emitted _ => s.applied.size = known + emitted.length where
  known h _ := h
  blocked h hs := by
    obtain ⟨-, k, -, ⟨-, rfl⟩ | ⟨b, -, -, rfl⟩⟩ := analyse_eq_blocked hs <;> exact h
  applied h hs := by
    obtain ⟨hnew, -, rfl, -⟩ := analyse_eq_applied hs
    rw [Std.ExtTreeSet.mem_iff_contains] at hnew
    rw [Std.ExtTreeSet.size_insert, if_neg hnew, h, List.length_append, List.length_singleton,
      Nat.add_assoc]

end LedgerView

namespace Reconciler

/-- The number of atoms that have been applied. -/
def appliedLen (r : Reconciler) : Nat :=
  r.view.applied.size

/-- Whether or not it fails, an offer passes on as many atoms as become known. -/
theorem appliedLen_accept (r : Reconciler) (x : Atom) :
    (r.accept x).reconciler.appliedLen = r.appliedLen + (r.accept x).emitted.length := by
  cases hrun : r.halted with
  | none =>
    rw [accept_of_running hrun]
    obtain ⟨_, hsize, -⟩ :=
      @WorkInvariant.run _ _ (LedgerView.appliedSizeInvariant r.scope r.view.applied.size)
        r.view [] [x] rfl
    exact hsize
  | some reason =>
    rw [accept_of_halted hrun]
    rfl

end Reconciler

namespace Registry

variable {reg : Registry} {scope : Scope} {a : Address} {x : Atom}

/-! ## The meter and the reconcilers -/

/-- How many atoms wait in all reconcilers together. -/
def waiting (reg : Registry) : Nat :=
  sumOver Reconciler.pendingLen reg.reconcilers

/-- How many atoms all reconcilers have applied together. -/
def applied (reg : Registry) : Nat :=
  sumOver Reconciler.appliedLen reg.reconcilers

/-- The meter shows what the reconcilers hold. -/
structure Metered (reg : Registry) : Prop where
  pending_eq : reg.meter.pending = reg.waiting
  emitted_eq : reg.meter.emitted = reg.applied

namespace Metered

theorem empty : Registry.empty.Metered where
  pending_eq := by simp [Registry.empty, waiting, Meter.zero]
  emitted_eq := by simp [Registry.empty, applied, Meter.zero]

/-- A reconciler that has seen nothing adds nothing. -/
theorem ensure (h : reg.Metered) : (reg.ensure scope).Metered where
  pending_eq := by
    have hfresh : (Reconciler.fresh scope).pendingLen = 0 := rfl
    exact h.pending_eq.trans (congrArg _ (sumOver_insertIfNew _ hfresh).symm)
  emitted_eq := by
    have hfresh : (Reconciler.fresh scope).appliedLen = 0 := rfl
    exact h.emitted_eq.trans (sumOver_insertIfNew _ hfresh).symm

/-- Subscribers have no part in what is counted. -/
theorem subscribe (h : reg.Metered) : (reg.subscribe a).Metered := by
  have hmade : (reg.ensure (everything a)).Metered := h.ensure
  obtain ⟨r, hr⟩ : ∃ r, (reg.ensure (everything a)).get? (everything a) = some r := by
    rw [get?_ensure, if_pos rfl]
    exact ⟨_, rfl⟩
  constructor
  · have hsum := sumOver_modify Reconciler.pendingLen Reconciler.subscribe hr
    have hsame : r.subscribe.pendingLen = r.pendingLen := rfl
    rw [hsame, Nat.add_left_cancel_iff] at hsum
    rw [waiting, Registry.subscribe, modify, hsum]
    exact hmade.pending_eq
  · have hsum := sumOver_modify Reconciler.appliedLen Reconciler.subscribe hr
    have hsame : r.subscribe.appliedLen = r.appliedLen := rfl
    rw [hsame, Nat.add_left_cancel_iff] at hsum
    rw [applied, Registry.subscribe, modify, hsum]
    exact hmade.emitted_eq

/-- An offer to one reconciler moves the meter by what it changes there. -/
theorem acceptAt (h : reg.Metered) : (reg.acceptAt scope x).Metered := by
  unfold Registry.acceptAt
  cases hr : reg.get? scope with
  | none => exact h
  | some r =>
    constructor
    · have hsum := sumOver_modify Reconciler.pendingLen (fun _ => (r.accept x).reconciler) hr
      have hpending := h.pending_eq
      have hlen : ∀ q : Reconciler, q.pendingLen = q.view.pending.size := fun _ => rfl
      rw [hlen, hlen] at hsum
      simp only [waiting, modify, Meter.count] at hpending ⊢
      omega
    · have hsum := sumOver_modify Reconciler.appliedLen (fun _ => (r.accept x).reconciler) hr
      have hemitted := h.emitted_eq
      have hsize := r.appliedLen_accept x
      simp only [applied, modify, Meter.count] at hemitted ⊢
      omega

/-- So does a round of offers, whichever of them fail. -/
theorem offerEach (h : reg.Metered) (x : Atom) (scopes : List Scope) :
    (reg.offerEach x scopes).registry.Metered := by
  induction scopes generalizing reg with
  | nil => exact h
  | cons scope rest ih =>
    rw [registry_offerEach_cons]
    exact ih h.acceptAt

end Metered

/-! ## Actions -/

/-- What is done with a registry: something is asked of it, or an atom is offered to one of its
reconcilers by somebody who holds that one. -/
inductive Action where
  | call (c : Call)
  | offer (scope : Scope) (x : Atom)

/-- The registry after an action. -/
def act (reg : Registry) : Action → Registry
  | .call c => (reg.call c).registry
  | .offer scope x => reg.acceptAt scope x

/-- The registry after some actions, one after another. -/
def actAll (reg : Registry) (actions : List Action) : Registry :=
  actions.foldl act reg

/-- No action lets the meter and the reconcilers drift apart. -/
theorem Metered.act (h : reg.Metered) (action : Action) : (reg.act action).Metered := by
  cases action with
  | call c =>
    cases c with
    | ensure scope => exact h.ensure
    | subscribe a => exact h.subscribe
    | accept order a x => exact h.offerEach x _
  | offer scope x => exact h.acceptAt

theorem metered_actAll (h : reg.Metered) (actions : List Action) :
    (reg.actAll actions).Metered := by
  induction actions generalizing reg with
  | nil => exact h
  | cons action rest ih => exact ih (h.act action)

/-- **The meter shows what the reconcilers hold.** Whatever is done with a registry that was empty,
whatever order its reconcilers are visited in, whichever offers meet a violation and whichever
reconcilers have halted: its gauge shows how many atoms wait in all reconcilers together, and its
counter how many atoms all of them have applied. -/
theorem meter_exact (actions : List Action) :
    let reg := empty.actAll actions
    let reconcilers := reg.reconcilers.toList.map (·.2)
    reg.meter.pending = (reconcilers.map Reconciler.pendingLen).sum ∧
      reg.meter.emitted = (reconcilers.map Reconciler.appliedLen).sum := by
  intro reg reconcilers
  have hmetered : reg.Metered := metered_actAll Metered.empty actions
  rw [List.map_map, List.map_map]
  exact ⟨hmetered.pending_eq, hmetered.emitted_eq⟩

end Registry

end ParticleLedger
