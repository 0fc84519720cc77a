import ParticleLedger.Feed.Transport
import ParticleLedger.Submission.Basic
import ParticleLedger.Wallet.Basic

/-!
# A node in memory, and a wallet connected to it

The node keeps the atoms that it has stored and the names of the particles that they spend. It
refuses an atom that spends a particle again, and one that its owners have not signed; any other
atom it stores, and sends to the open feeds of the addresses that it touches. A new feed begins with
what is stored. The node can be told to refuse connections, to be offline and to answer submissions
with given statuses.

`WalletSession` lets a wallet run over such a node while time goes by. Times are in milliseconds.
-/

namespace ParticleLedger

open Std (ExtTreeMap ExtTreeSet)

/-- Whether an address owns a particle of the atom. -/
def Atom.touches (atom : Atom) (a : Address) : Bool :=
  atom.particles.any (·.ownedBy a)

/-- A node in memory. -/
structure Node where
  stored : List Atom
  spent : ExtTreeSet ParticleId
  /-- The open feeds, each with the number of its line. -/
  feeds : List (Address × Nat)
  lines : Lines
  /-- How many more attempts of each address to connect are refused. -/
  refusals : ExtTreeMap Address Nat
  /-- The reason why the node is offline, if it is. -/
  offline : Option String
  /-- The statuses with which every submission is answered, if they are given. -/
  forced : Option (List SubmissionStatus)
  /-- How many attempts to connect there have been. -/
  calls : Nat

namespace Node

/-- A node that has stored nothing. -/
def empty : Node := ⟨[], ∅, [], .empty, ∅, none, none, 0⟩

/-- The lines of the feeds that are selected and have a reader. -/
def liveLines (alive : Nat → Bool) (selected : Address → Bool) (n : Node) : List Nat :=
  (n.feeds.filter fun (a, line) => selected a && alive line).map (·.2)

/-- Puts an item into some lines. -/
def send (n : Node) (lines : List Nat) (item : LineItem) : Node :=
  { n with lines := lines.foldl (fun ls line => ls.put line item) n.lines }

/-- Stores an atom, if it may be stored. A feed that turns out to have no reader is forgotten. -/
def store (scheme : SignatureScheme) (alive : Nat → Bool) (n : Node) (atom : Atom) :
    Node × SubmissionStatus :=
  -- A coin spent twice is noticed before the signatures are looked at.
  if atom.consumers.any fun c => n.spent.contains c.id then (n, .collision)
  else match atom.verifySignatures scheme with
    | .error _ => (n, .validationError)
    | .ok _ =>
      let n := n.send (n.liveLines alive atom.touches) (.ok atom)
      ({ n with
          spent := n.spent.insertMany (atom.consumers.map Coin.id)
          feeds := n.feeds.filter fun (a, line) => !atom.touches a || alive line
          stored := n.stored ++ [atom] }, .stored)

/-- Sends an atom to the feeds of an address as it is; also gives the number of feeds that
took it. -/
def inject (alive : Nat → Bool) (n : Node) (a : Address) (atom : Atom) : Node × Nat :=
  let lines := n.liveLines alive (· = a)
  (n.send lines (.ok atom), lines.length)

/-- Breaks the feeds of an address. -/
def breakFeeds (n : Node) (a : Address) : Node :=
  let lines := (n.feeds.filter (·.1 = a)).map (·.2)
  let n := n.send lines (.error (.transport "connection reset"))
  { n with
    lines := lines.foldl Lines.hangUp n.lines
    feeds := n.feeds.filter (·.1 ≠ a) }

/-- Refuses the next attempts of an address to connect. -/
def refuse (n : Node) (a : Address) (times : Nat) : Node :=
  { n with refusals := n.refusals.insert a times }

/-- An attempt of an address to connect. -/
def connect (a : Address) (n : Node) : Node × Except FeedError Nat :=
  let n := { n with calls := n.calls + 1 }
  let refusals := n.refusals.getD a 0
  if 0 < refusals then
    ({ n with refusals := n.refusals.insert a (refusals - 1) }, .error (.transport "node refused"))
  else
    let line := n.lines.opened
    ({ n with
        lines := n.lines.connect ((n.stored.filter (·.touches a)).map .ok)
        feeds := n.feeds ++ [(a, line)] }, .ok line)

instance : Transport Node where
  connect := connect
  take line n :=
    let (lines, item) := n.lines.take line
    ({ n with lines }, item)

/-- Takes an atom that is submitted, and answers with what its tracker meets. -/
def submit (scheme : SignatureScheme) (alive : Nat → Bool) (n : Node) (atom : Atom) :
    Node × List TrackerEvent :=
  -- Being offline wins over given statuses.
  match n.offline, n.forced with
  | some message, _ => (n, [.refused (.transport message)])
  | none, some statuses =>
    (n, .accepted :: statuses.map (fun s => .reported ⟨s, none⟩) ++ [.ended])
  | none, none =>
    let (n, status) := n.store scheme alive atom
    (n, .accepted ::
      [.submitting, .submitted, status].map (fun s => .reported ⟨s, none⟩) ++ [.ended])

/-- How many things can still happen on a feed, even one that connects once more. -/
def backlog (n : Node) : Nat :=
  n.lines.backlog + n.stored.length + 1

end Node

/-! ## A wallet connected to the node -/

/-- A wallet over a node, at some time. -/
structure WalletSession where
  scheme : SignatureScheme
  wallet : Wallet
  node : Node
  now : Nat
  submissions : ExtTreeMap Nat Submission
  /-- The atoms to be handed over, with the numbers of their submissions. -/
  outbox : List (Nat × Atom)

namespace WalletSession

/-- A new wallet over an empty node. -/
def create (scheme : SignatureScheme) (config : Config) : WalletSession :=
  ⟨scheme, .create scheme config, .empty, 0, ∅, []⟩

/-- Starts the submission of an atom; its number is `s.submissions.size`. -/
def submit (s : WalletSession) (atom : Atom) : WalletSession :=
  let n := s.submissions.size
  { s with
    submissions := s.submissions.insert n (.start atom.id)
    outbox := s.outbox ++ [(n, atom)] }

/-- Builds, signs and submits a plain transfer from the address of the signer; the answer is the number
of its submission. -/
def transfer (s : WalletSession) (nonces : Nonces) (now : Int) (signer : Seed) (token : TokenRef)
    (recipient : KeySet) (amount : UInt64) : WalletSession × Except WalletError Nat :=
  match s.wallet.transfer s.scheme nonces now signer token recipient amount with
  | .error cause => (s, .error cause)
  | .ok atom => (s.submit atom, .ok s.submissions.size)

/-- Hands an atom over to the node and lets the tracker of its submission read the answer. -/
def handOver (s : WalletSession) (item : Nat × Atom) : WalletSession :=
  let (node, events) := s.node.submit s.scheme s.wallet.filter.reading item.2
  { s with node, submissions := s.submissions.modify item.1 (·.handleAll events) }

/-- Takes a step as often as it can be taken, at most `fuel` times. -/
def exhaust {σ : Type} (step : σ → Option σ) : (fuel : Nat) → σ → σ
  | 0, s => s
  | fuel + 1, s =>
    match step s with
    | none => s
    | some s => exhaust step fuel s

/-- Lets a forwarding task pass on all that waits for it. -/
def forwardAll (w : Wallet) (task : Nat) : Wallet :=
  let waiting := (w.tasks[task]?.bind fun t => w.filter.subscriptions[t.subscription]?).map
    (·.inbox.length)
  exhaust (·.forward task) (waiting.getD 0 + 1) w

/-- Lets the folds of an address take in all that waits for them. -/
def foldAll (now : Nat) (w : Wallet) (a : Address) : Wallet :=
  let waiting := fun (source : Option Nat) => ((source.map (w.registry.inbox a)).getD []).length
  let w := exhaust (·.foldBalances now a) (waiting ((w.balances.get? a).map (·.source))) w
  exhaust (·.foldDefinitions now a) (waiting ((w.definitions.get? a).map (·.source))) w

/-- Lets all that can happen now happen: tasks that were told to stop go, atoms are handed over,
pumps read, atoms are forwarded and folded, and states that are due are published. -/
def settle (s : WalletSession) : WalletSession :=
  let reaped := { s with wallet := s.wallet.tasks.keys.foldl Wallet.reap s.wallet }
  let sent := { s.outbox.foldl handOver reaped with outbox := [] }
  -- What the node has sent in answer is read in the same instant.
  let (filter, node) := sent.wallet.filter.settle s.now sent.node.backlog sent.node
  let wallet := { sent.wallet with filter }
  let wallet := wallet.tasks.keys.foldl forwardAll wallet
  let wallet := wallet.balances.folds.keys.foldl (foldAll s.now) wallet
  { sent with wallet := wallet.advance s.now, node, now := s.now }

/-- Lets time pass up to `target`, stopping at every time for which something waits. -/
def advance (target : Nat) (s : WalletSession) : WalletSession :=
  match s.wallet.nextDue with
  | none => { s with now := target }
  | some due =>
    if _h : s.now < due ∧ due ≤ target then advance target (settle { s with now := due })
    else { s with now := target }
  termination_by target - s.now
  decreasing_by simp only [settle]; omega

end WalletSession

end ParticleLedger
