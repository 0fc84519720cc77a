import ParticleLedger.Atom.Basic
import ParticleLedger.Broadcast
import ParticleLedger.Bytes
import ParticleLedger.Canonical.Encoding
import ParticleLedger.Canonical.Value
import ParticleLedger.Config.Basic
import ParticleLedger.Config.Reading
import ParticleLedger.Digest
import ParticleLedger.Duration
import ParticleLedger.Ed25519.Curve
import ParticleLedger.Ed25519.Field
import ParticleLedger.Ed25519.Scheme
import ParticleLedger.Error
import ParticleLedger.Feed.Error
import ParticleLedger.Feed.Filter
import ParticleLedger.Feed.Pump
import ParticleLedger.Feed.Retry
import ParticleLedger.Feed.Scripted
import ParticleLedger.Feed.Transport
import ParticleLedger.Feed.Validation
import ParticleLedger.Hash.Sha2
import ParticleLedger.Interchange
import ParticleLedger.Json.Format
import ParticleLedger.Json.Parser
import ParticleLedger.Json.Printer
import ParticleLedger.Json.Value
import ParticleLedger.Key
import ParticleLedger.Metrics
import ParticleLedger.Order
import ParticleLedger.Particle
import ParticleLedger.Poll
import ParticleLedger.Proofs.Atom.Identity
import ParticleLedger.Proofs.Atom.Plain
import ParticleLedger.Proofs.Balance.Folding
import ParticleLedger.Proofs.Balance.Holdings
import ParticleLedger.Proofs.Balance.Spendable
import ParticleLedger.Proofs.Balance.Value
import ParticleLedger.Proofs.Canonical.Injectivity
import ParticleLedger.Proofs.Canonical.Record
import ParticleLedger.Proofs.Canonical.WriteOrder
import ParticleLedger.Proofs.Feed.Correspondence
import ParticleLedger.Proofs.Feed.Delivery
import ParticleLedger.Proofs.Feed.Exactness
import ParticleLedger.Proofs.Feed.Lifetime
import ParticleLedger.Proofs.Feed.Memory
import ParticleLedger.Proofs.Feed.Ownership
import ParticleLedger.Proofs.Feed.Reconnecting
import ParticleLedger.Proofs.Feed.Run
import ParticleLedger.Proofs.Feed.Sharing
import ParticleLedger.Proofs.Feed.Subscriber
import ParticleLedger.Proofs.Feed.Table
import ParticleLedger.Proofs.Hash.Evaluation
import ParticleLedger.Proofs.Interchange
import ParticleLedger.Proofs.Json.Reading
import ParticleLedger.Proofs.Json.RoundTrip
import ParticleLedger.Proofs.MapSum
import ParticleLedger.Proofs.Reconciler.Analysis
import ParticleLedger.Proofs.Reconciler.Containment
import ParticleLedger.Proofs.Reconciler.Convergence
import ParticleLedger.Proofs.Reconciler.Definitions
import ParticleLedger.Proofs.Reconciler.Distribution
import ParticleLedger.Proofs.Reconciler.History
import ParticleLedger.Proofs.Reconciler.Lineage
import ParticleLedger.Proofs.Reconciler.Metering
import ParticleLedger.Proofs.Reconciler.Narrowing
import ParticleLedger.Proofs.Reconciler.Pending
import ParticleLedger.Proofs.Reconciler.Reentry
import ParticleLedger.Proofs.Reconciler.Registry
import ParticleLedger.Proofs.Reconciler.Requeueing
import ParticleLedger.Proofs.Reconciler.Subscribers
import ParticleLedger.Proofs.Reconciler.Waiting
import ParticleLedger.Proofs.Reconciler.WorkLoop
import ParticleLedger.Proofs.Snapshot.Schedule
import ParticleLedger.Proofs.Snapshot.Watcher
import ParticleLedger.Proofs.Snapshot.Watchers
import ParticleLedger.Proofs.Submission.History
import ParticleLedger.Proofs.Submission.Reader
import ParticleLedger.Proofs.Submission.Readers
import ParticleLedger.Proofs.Transfer.Acceptance
import ParticleLedger.Proofs.Transfer.Authorisation
import ParticleLedger.Proofs.Transfer.Conservation
import ParticleLedger.Proofs.Transfer.Construction
import ParticleLedger.Proofs.Transfer.Selection
import ParticleLedger.Proofs.Transfer.Signing
import ParticleLedger.Proofs.Wallet.Channel
import ParticleLedger.Proofs.Wallet.Convergence
import ParticleLedger.Proofs.Wallet.Folds
import ParticleLedger.Proofs.Wallet.Ledger
import ParticleLedger.Proofs.Wallet.Payment
import ParticleLedger.Proofs.Wallet.Rewatch
import ParticleLedger.Proofs.Wallet.Run
import ParticleLedger.Proofs.Wallet.Session
import ParticleLedger.Proofs.Wallet.Signed
import ParticleLedger.Proofs.Watch
import ParticleLedger.Reconciler.Basic
import ParticleLedger.Reconciler.Registry
import ParticleLedger.Reconciler.View
import ParticleLedger.Reducer
import ParticleLedger.Snapshot.Fold
import ParticleLedger.Snapshot.Published
import ParticleLedger.Snapshot.Store
import ParticleLedger.Submission.Basic
import ParticleLedger.Submission.Status
import ParticleLedger.Text.Duration
import ParticleLedger.Text.Exposition
import ParticleLedger.Text.Printable
import ParticleLedger.Text.Quoted
import ParticleLedger.Token
import ParticleLedger.Toml.Document
import ParticleLedger.Toml.Node
import ParticleLedger.Toml.Scalar
import ParticleLedger.Toml.Text
import ParticleLedger.Transfer.Builder
import ParticleLedger.Transfer.Selection
import ParticleLedger.Wallet.Basic
import ParticleLedger.Wallet.Error
import ParticleLedger.Wallet.Node
import ParticleLedger.Wallet.Telemetry
