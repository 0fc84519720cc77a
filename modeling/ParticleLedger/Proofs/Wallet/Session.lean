import ParticleLedger.Proofs.Wallet.Run
import ParticleLedger.Wallet.Node

/-!
# What a session does to its wallet

A session lets the parts of its wallet do all that they can do, one after another, and lets time
pass. All of it is a run of the steps of `Wallet.Event`, in which nobody watches an address or stops
watching one. So what holds after every run of a wallet holds at all times of a session.

Main statements: `WalletSession.settle_reaches` and `WalletSession.advance_reaches`.
-/

namespace ParticleLedger

namespace Wallet

/-- What the user of a wallet does; all other steps its parts take of themselves. -/
def Event.isUser : Event → Bool
  | .watch _ | .unwatch _ => true
  | _ => false

/-- The parts of the one wallet can take steps that make it the other. -/
def Reaches (w w' : Wallet) : Prop :=
  ∃ events : List Event, (∀ e ∈ events, e.isUser = false) ∧ w' = w.run events

namespace Reaches

variable {w w' w'' : Wallet}

theorem refl (w : Wallet) : w.Reaches w :=
  ⟨[], by simp, rfl⟩

theorem trans (h : w.Reaches w') (h' : w'.Reaches w'') : w.Reaches w'' := by
  obtain ⟨first, hfirst, rfl⟩ := h
  obtain ⟨later, hlater, rfl⟩ := h'
  refine ⟨first ++ later, fun e he => ?_, (run_append w first later).symm⟩
  rcases List.mem_append.1 he with he | he
  · exact hfirst e he
  · exact hlater e he

theorem single {e : Event} (he : e.isUser = false) : w.Reaches (w.after e) :=
  ⟨[e], by simpa using he, rfl⟩

/-- Whatever each element of a list makes of a wallet, they make of it one after another. -/
theorem foldl {α : Type} {f : Wallet → α → Wallet}
    (h : ∀ (w : Wallet) (x : α), w.Reaches (f w x)) (xs : List α) (w : Wallet) :
    w.Reaches (xs.foldl f w) := by
  induction xs generalizing w with
  | nil => exact refl w
  | cons x rest ih => exact (h w x).trans (ih (f w x))

/-- A step that is taken as often as it can be. -/
theorem exhaust {step : Wallet → Option Wallet} (h : ∀ w w', step w = some w' → w.Reaches w')
    (fuel : Nat) (w : Wallet) : w.Reaches (WalletSession.exhaust step fuel w) := by
  induction fuel generalizing w with
  | zero => exact refl w
  | succ fuel ih =>
    unfold WalletSession.exhaust
    cases hstep : step w with
    | none => exact refl w
    | some w' => exact (h w w' hstep).trans (ih w')

end Reaches

/-! ## Pumps over a transport -/

section Pumps

variable {Net : Type} [Transport Net] {now : Nat}

/-- The pump of an address meets one thing after another. -/
theorem reaches_filter_run (w : Wallet) (a : Address) (fuel : Nat) (net : Net) :
    w.Reaches { w with filter := (w.filter.run now a fuel net).1 } := by
  induction fuel generalizing w net with
  | zero => exact .refl w
  | succ fuel ih =>
    unfold DeliveryFilter.run DeliveryFilter.step
    cases DeliveryFilter.nextEvent? now (w.filter.phase a) a net with
    | none => exact .refl w
    | some met =>
      obtain ⟨net', e⟩ := met
      have hfirst : w.Reaches (w.after (.pump now a e)) := .single rfl
      exact hfirst.trans (ih _ net')

theorem reaches_filter_settle (w : Wallet) (backlog : Nat) (net : Net) :
    w.Reaches { w with filter := (w.filter.settle now backlog net).1 } := by
  unfold DeliveryFilter.settle
  generalize w.filter.feeds.keys = keys
  -- The pumps take their turns over one transport, so the transport is part of what is folded.
  suffices h : ∀ w : Wallet, ∀ net : Net, w.Reaches { w with
      filter := (keys.foldl (fun (s : DeliveryFilter × Net) a =>
        s.1.run now a (DeliveryFilter.fuelFor s.1.policy backlog) s.2) (w.filter, net)).1 } from
    h w net
  induction keys with
  | nil => exact fun w _ => .refl w
  | cons a rest ih =>
    intro w net
    rw [List.foldl_cons]
    have hfirst : w.Reaches { w with filter := _ } :=
      @reaches_filter_run Net _ now w a (DeliveryFilter.fuelFor w.filter.policy backlog) net
    exact hfirst.trans (ih { w with filter := _ } _)

end Pumps

end Wallet

/-! ## Sessions -/

namespace WalletSession

variable {s : WalletSession}

open Wallet (Reaches)

theorem reaches_reap (w : Wallet) (task : Nat) : w.Reaches (w.reap task) :=
  @Reaches.single w (.reap task) rfl

theorem reaches_forwardAll (w : Wallet) (task : Nat) : w.Reaches (forwardAll w task) := by
  refine Reaches.exhaust (fun w w' h => ?_) _ w
  have hsame : w.after (.forward task) = w' := by simp [Wallet.after, h]
  exact hsame ▸ .single rfl

theorem reaches_foldAll (now : Nat) (w : Wallet) (a : Address) : w.Reaches (foldAll now w a) := by
  refine (Reaches.exhaust (fun w w' h => ?_) _ w).trans (Reaches.exhaust (fun w w' h => ?_) _ _)
  · have hsame : w.after (.foldBalances now a) = w' := by simp [Wallet.after, h]
    exact hsame ▸ .single rfl
  · have hsame : w.after (.foldDefinitions now a) = w' := by simp [Wallet.after, h]
    exact hsame ▸ .single rfl

/-- Handing atoms over to the node leaves the wallet alone. -/
theorem wallet_handOver (items : List (Nat × Atom)) :
    (items.foldl handOver s).wallet = s.wallet := by
  induction items generalizing s with
  | nil => rfl
  | cons item rest ih => rw [List.foldl_cons, ih, handOver]

/-- Whatever a wallet does by itself at one time is a run of steps of its parts. -/
theorem settle_reaches (s : WalletSession) : s.wallet.Reaches s.settle.wallet := by
  have hsent : s.wallet.Reaches (s.outbox.foldl handOver
      { s with wallet := s.wallet.tasks.keys.foldl Wallet.reap s.wallet }).wallet := by
    rw [wallet_handOver]
    exact .foldl reaches_reap _ _
  apply hsent.trans
  apply (@Wallet.reaches_filter_settle Node _ s.now _ _ _).trans
  apply (Reaches.foldl reaches_forwardAll _ _).trans
  apply (Reaches.foldl (reaches_foldAll s.now) _ _).trans
  exact @Reaches.single _ (.advance s.now) rfl

/-- So is whatever it does while time passes. -/
theorem advance_reaches (target : Nat) (s : WalletSession) :
    s.wallet.Reaches (s.advance target).wallet := by
  induction s using advance.induct target with
  | case1 s hdue =>
    rw [advance, hdue]
    exact .refl _
  | case2 s due hdue hlate ih =>
    rw [advance, hdue]
    simp only [dif_pos hlate]
    exact (settle_reaches { s with now := due }).trans ih
  | case3 s due hdue hlate =>
    rw [advance, hdue]
    simp only [dif_neg hlate]
    exact .refl _

end WalletSession

end ParticleLedger
