import ParticleLedger.Text.Exposition

/-!
# Metrics

Counters of what happens to atoms on their way from a feed to the published state, and the gauge of
atoms that wait. `Metrics.render` writes them in the text exposition format, ordered by name.
-/

namespace ParticleLedger

/-- Counts kept by one client. -/
structure Metrics where
  /-- Atoms delivered by feeds. -/
  received : Nat
  /-- Redelivered atoms that were dropped. -/
  duplicate : Nat
  /-- Atoms that validation dropped. -/
  rejected : Nat
  /-- Atoms emitted by reconcilers. -/
  emitted : Nat
  /-- Atoms that wait for a particle. -/
  pending : Int
  /-- Snapshots published. -/
  publications : Nat
  deriving DecidableEq

namespace Metrics

/-- Nothing has happened yet. -/
def zero : Metrics := ⟨0, 0, 0, 0, 0, 0⟩

/-- The sample of a counter, which keeps 64 bits and starts again at zero past the
greatest number. -/
def counterSample (n : Nat) : String :=
  Text.sample n.toUInt64.toNat

/-- The sample of a gauge, which keeps 64 bits with a sign. -/
def gaugeSample (n : Int) : String :=
  Text.signedSample n.toInt64.toInt

/-- One metric as it is exposed: name, explanation, kind and sample. -/
structure Family where
  name : String
  help : String
  kind : String
  value : String

def Family.render (f : Family) : String :=
  "# HELP " ++ f.name ++ " " ++ f.help ++ "\n# TYPE " ++ f.name ++ " " ++ f.kind ++ "\n"
    ++ f.name ++ " " ++ f.value ++ "\n"

/-- The metrics, ordered by name. -/
def families (m : Metrics) : List Family :=
  [⟨"radix_atoms_duplicate_total", "Redelivered atoms dropped by hash", "counter",
      counterSample m.duplicate⟩,
   ⟨"radix_atoms_emitted_total", "Atoms emitted in causal order", "counter",
      counterSample m.emitted⟩,
   ⟨"radix_atoms_pending", "Atoms waiting on a missing particle", "gauge",
      gaugeSample m.pending⟩,
   ⟨"radix_atoms_received_total", "Atoms delivered by the network feed", "counter",
      counterSample m.received⟩,
   ⟨"radix_atoms_rejected_total", "Atoms dropped by validation", "counter",
      counterSample m.rejected⟩,
   ⟨"radix_state_publications_total", "Debounced reducer snapshots published", "counter",
      counterSample m.publications⟩]

/-- The text exposition of all metrics. -/
def render (m : Metrics) : String :=
  String.join (m.families.map Family.render)

/-- The diagnostic text. -/
def describe (_ : Metrics) : String :=
  "Metrics \x7b .. \x7d"

end Metrics

end ParticleLedger
