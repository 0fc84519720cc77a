import ParticleLedger.Config.Basic
import ParticleLedger.Feed.Filter
import ParticleLedger.Reconciler.Registry
import ParticleLedger.Snapshot.Store
import ParticleLedger.Metrics
import ParticleLedger.Transfer.Builder
import ParticleLedger.Wallet.Error

/-!
# Wallets

A wallet watches addresses. Atoms come in over the feed of an address, a forwarding task passes them
to the reconcilers of the address, and what these pass on is folded into balances and token
definitions. From the unspent coins of a watched address the wallet builds transfers.

The parts run side by side, so each step that one of them takes is a function of its own:
`Wallet.pump` for a feed, `Wallet.forward` and `Wallet.reap` for a forwarding task,
`Wallet.foldBalances` and `Wallet.foldDefinitions` for the folds. A task that is told to stop is
removed some time later, by `Wallet.reap`; only then does its subscription go. Until then it may go
on forwarding: a task that is running when it is told stops only when it next has to wait. Which tasks
are running is not recorded, so any of them may.
-/

namespace ParticleLedger

open Std (ExtTreeMap)

/-- The task that passes what a subscription receives to the reconcilers. -/
structure ForwardingTask where
  address : Address
  subscription : Nat
  /-- It has been told to stop, and may be removed at any time. -/
  aborted : Bool
  deriving DecidableEq

/-- A client of the ledger for a set of addresses. -/
structure Wallet where
  config : Config
  filter : DeliveryFilter
  registry : Registry
  balances : ReducerStore Holdings
  definitions : ReducerStore TokenDefinitions
  /-- The tasks that have not finished. -/
  tasks : ExtTreeMap Nat ForwardingTask
  /-- The task started last for each address, unless the address is no longer to be watched. -/
  handles : ExtTreeMap Address Nat
  /-- How many tasks there have been. -/
  spawned : Nat

/-- Starts the fold of an address over what its reconciler passes on, unless it has been started. -/
def ReducerStore.follow {State : Type} (s : ReducerStore State) (reg : Registry) (a : Address) :
    ReducerStore State × Registry :=
  if (s.get? a).isSome then (s, reg) else (s.ensure a (reg.nextSubscriber a), reg.subscribe a)

namespace Wallet

/-- A wallet that watches nothing. -/
def create (scheme : SignatureScheme) (config : Config) : Wallet where
  config := config
  filter := .empty config.retryPolicy (signatureValidator scheme)
  registry := .empty
  balances := .empty balanceReducer config.debounce
  definitions := .empty definitionReducer config.debounce
  tasks := ∅
  handles := ∅
  spawned := 0

/-! ## Watching -/

/-- Whether the atoms of an address are being forwarded. -/
def isWatching (w : Wallet) (a : Address) : Bool :=
  w.handles[a]?.any w.tasks.contains

/-- Starts the task that forwards the atoms of an address. -/
def spawn (w : Wallet) (a : Address) : Wallet :=
  { w with
    filter := w.filter.subscribe a
    tasks := w.tasks.insert w.spawned ⟨a, w.filter.opened, false⟩
    handles := w.handles.insert a w.spawned
    spawned := w.spawned + 1 }

/-- Watches an address, unless it is being watched. The folds subscribe before the first atom can be
passed on, so they miss none. -/
def watch (w : Wallet) (a : Address) : Wallet :=
  if w.isWatching a then w
  else
    let reg := w.registry.ensure (Registry.everything a)
    let (balances, reg) := w.balances.follow reg a
    let (definitions, registry) := w.definitions.follow reg a
    { w with registry, balances, definitions }.spawn a

/-- Stops watching an address. What is known of it is kept. -/
def unwatch (w : Wallet) (a : Address) : Wallet :=
  match w.handles[a]? with
  | none => w
  | some task =>
    { w with
      handles := w.handles.erase a
      tasks := w.tasks.modify task fun t => { t with aborted := true } }

/-! ## Steps of the parts -/

/-- A task ends, and its subscription goes. -/
def finish (w : Wallet) (task : Nat) (t : ForwardingTask) : Wallet :=
  { w with filter := w.filter.unsubscribe t.subscription, tasks := w.tasks.erase task }

/-- Removes a task that was told to stop. -/
def reap (w : Wallet) (task : Nat) : Wallet :=
  match w.tasks[task]? with
  | none => w
  | some t => if t.aborted then w.finish task t else w

/-- A task takes the next thing from its subscription, if there is one: an atom goes to the
reconcilers, and a violation there, like the end of the feed, ends the task. -/
def forward (w : Wallet) (task : Nat) : Option Wallet := do
  let t ← w.tasks[task]?
  match w.filter.next t.subscription with
  | (_, .pending) => none
  | (filter, .ready (.ok atom)) =>
    -- The atom has been taken from the inbox whatever comes of it.
    let accepted := { w with filter, registry := w.registry.accept t.address atom }
    if (w.registry.violation? t.address atom).isSome then some (accepted.finish task t)
    else some accepted
  | (filter, _) => some ({ w with filter }.finish task t)

/-- The pump of an address meets an event at time `now`. -/
def pump (w : Wallet) (now : Nat) (a : Address) (e : TransportEvent) : Wallet :=
  { w with filter := w.filter.handle now a e }

/-- The next atom that a fold of an address has to take in. -/
def nextAtom? {State : Type} (reg : Registry) (s : ReducerStore State) (a : Address) :
    Option (Nat × Atom) := do
  let fold ← s.get? a
  let atom ← (reg.inbox a fold.source).head?
  return (fold.source, atom)

/-- The balances of an address take in the next atom at time `now`, if there is one. -/
def foldBalances (w : Wallet) (now : Nat) (a : Address) : Option Wallet :=
  (nextAtom? w.registry w.balances a).map fun (source, atom) =>
    { w with
      registry := w.registry.take a source 1
      balances := w.balances.receive now a atom }

/-- The token definitions of an address take in the next atom at time `now`, if there is one. -/
def foldDefinitions (w : Wallet) (now : Nat) (a : Address) : Option Wallet :=
  (nextAtom? w.registry w.definitions a).map fun (source, atom) =>
    { w with
      registry := w.registry.take a source 1
      definitions := w.definitions.receive now a atom }

/-- Publishes the states whose deadlines have come by time `now`. -/
def advance (w : Wallet) (now : Nat) : Wallet :=
  { w with balances := w.balances.advance now, definitions := w.definitions.advance now }

/-- The earliest time for which a part waits. -/
def nextDue (w : Wallet) : Option Nat :=
  (w.filter.nextDue.toList ++ w.balances.nextDeadline.toList
    ++ w.definitions.nextDeadline.toList).min?

/-! ## Questions -/

/-- Whether an address has ever been watched. -/
def knows (w : Wallet) (a : Address) : Bool :=
  (w.registry.get? (Registry.everything a)).isSome

/-- A reader of what is published about an address. -/
def reader (w : Wallet) (a : Address) : Except WalletError SnapshotReader :=
  if w.knows a then .ok .fresh else .error (.unknownAddress a)

/-- The unspent coins of a token, as the reconciler of the address knows them now. -/
def unconsumed (w : Wallet) (a : Address) (t : TokenRef) : Except WalletError (List Coin) :=
  match w.registry.get? (Registry.everything a) with
  | none => .error (.unknownAddress a)
  | some r => .ok (r.snapshotFor t)

/-- What has been counted. -/
def metrics (w : Wallet) : Metrics where
  received := w.filter.counts.received
  duplicate := w.filter.counts.duplicate
  rejected := w.filter.counts.rejected
  emitted := w.registry.meter.emitted
  pending := w.registry.meter.pending
  publications := w.balances.publications + w.definitions.publications

/-- The diagnostic text. -/
def describe (w : Wallet) : String :=
  "RadixWallet \x7b service: " ++ Text.quoted w.config.serviceName ++ ", watched: "
    ++ toString w.handles.size ++ ", .. \x7d"

/-! ## Transfers -/

/-- Builds a transfer from the unspent coins of an address. -/
def build (w : Wallet) (nonces : Nonces) (now : Int) (a : Address) (b : TransferBuilder) :
    Except WalletError UnsignedAtom := do
  let coins ← w.unconsumed a b.token
  (b.build nonces now coins).mapError .ledger

/-- How many nonces building draws. -/
def drawn (w : Wallet) (a : Address) (b : TransferBuilder) : Nat :=
  match w.unconsumed a b.token with
  | .ok coins => b.drawn coins
  | .error _ => 0

/-- Builds and signs a plain transfer from the address of the signer. What comes out is to be
submitted. -/
def transfer (scheme : SignatureScheme) (w : Wallet) (nonces : Nonces) (now : Int) (signer : Seed)
    (token : TokenRef) (recipient : KeySet) (amount : UInt64) :
    Except WalletError Atom := do
  let unsigned ← w.build nonces now (scheme.address signer) (.plain token recipient amount)
  (unsigned.sign scheme signer).mapError .ledger

end Wallet

end ParticleLedger
