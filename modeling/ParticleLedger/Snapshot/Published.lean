import ParticleLedger.Poll

/-!
# Published values and their readers

A publisher keeps the value published last and a version that counts the publications. A reader
remembers the version it returned last. Its first question is answered by the value that is there,
even one published before the reader came; later questions are answered by a newer one only. Once
the publisher has stopped, a reader still gets the last value if it has not returned it, and then
nothing.
-/

namespace ParticleLedger

/-- What a publisher shows. -/
structure Published (α : Type) where
  latest : Option α
  /-- How many values have been published. -/
  version : Nat
  /-- Nothing will be published any more. -/
  stopped : Bool
  deriving DecidableEq

namespace Published

variable {α : Type}

/-- Nothing published yet. -/
def nothing : Published α := ⟨none, 0, false⟩

/-- Publishes a value in place of the last. -/
def publish (p : Published α) (a : α) : Published α :=
  { p with latest := some a, version := p.version + 1 }

/-- Publishes no more. -/
def stop (p : Published α) : Published α :=
  { p with stopped := true }

end Published

/-- A reader of published values. -/
structure SnapshotReader where
  /-- The version returned last. -/
  seen : Nat
  /-- Whether the reader has asked before. -/
  asked : Bool
  deriving DecidableEq

namespace SnapshotReader

variable {α : Type}

/-- A reader that has not asked yet. -/
def fresh : SnapshotReader := ⟨0, false⟩

/-- Asks for the next value. -/
def next (r : SnapshotReader) (p : Published α) : SnapshotReader × Poll α :=
  match p.latest with
  | some a =>
    -- The first question is answered by whatever is there.
    if !r.asked || r.seen != p.version then (⟨p.version, true⟩, .ready a)
    else if p.stopped then (r, .ended)
    else (r, .pending)
  | none => ({ r with asked := true }, if p.stopped then .ended else .pending)

end SnapshotReader

end ParticleLedger
