import ParticleLedger.Atom.Basic

/-!
# What a reconciler knows

Atoms arrive in any order and more than once. A reconciler puts them into causal order for one
address and one choice of tokens: an atom is applied as soon as every coin of the address that it
spends is there, and waits under the first missing coin until then.

`LedgerView.analyse` says what becomes of one atom, and `LedgerView.run` works through an atom and
everything that it unblocks, depth first.

Main statements: `LedgerView.size_analyse_applied` (what an applied atom unblocks, it takes out of
the waiting atoms), from which it follows that the work ends.
-/

namespace ParticleLedger

open Std (ExtTreeMap ExtTreeSet)

/-- What a reconciler looks at: the coins of one address in the tokens of one filter. -/
structure Scope where
  address : Address
  filter : TokenFilter
  deriving DecidableEq

namespace Scope

/-- Whether the reconciler looks at the coin. -/
def relevant (scope : Scope) (c : Coin) : Bool :=
  c.ownedBy scope.address && scope.filter.accepts c.token

/-- The names of the relevant coins that an atom spends, in order. -/
def consumed (scope : Scope) (a : Atom) : List ParticleId :=
  (a.consumers.filter scope.relevant).map Coin.id

/-- The relevant coins that an atom creates, with their names, in order. -/
def created (scope : Scope) (a : Atom) : List (ParticleId × Coin) :=
  (a.consumables.filter scope.relevant).map fun c => (c.id, c)

variable {scope : Scope} {a : Atom} {k : ParticleId} {c : Coin}

/-- A name is listed as spent if a relevant coin that the atom spends has it. -/
theorem mem_consumed : k ∈ scope.consumed a ↔ ∃ c ∈ a.consumers, scope.relevant c ∧ c.id = k := by
  simp only [consumed, List.mem_map, List.mem_filter]
  constructor
  · rintro ⟨c, ⟨hc, hr⟩, rfl⟩
    exact ⟨c, hc, hr, rfl⟩
  · rintro ⟨c, hc, hr, rfl⟩
    exact ⟨c, ⟨hc, hr⟩, rfl⟩

/-- A coin is listed as created, under its own name, if it is relevant and the atom creates it. -/
theorem mem_created :
    (k, c) ∈ scope.created a ↔ c ∈ a.consumables ∧ scope.relevant c ∧ c.id = k := by
  simp only [created, List.mem_map, List.mem_filter, Prod.mk.injEq]
  constructor
  · rintro ⟨d, ⟨hd, hr⟩, rfl, rfl⟩
    exact ⟨hd, hr, rfl⟩
  · rintro ⟨hc, hr, rfl⟩
    exact ⟨c, ⟨hc, hr⟩, rfl, rfl⟩

end Scope

/-- What a reconciler knows. -/
structure LedgerView where
  /-- The relevant coins that were created and not spent since. -/
  unconsumed : ExtTreeMap ParticleId Coin
  /-- The atoms that wait, each under the coin that it misses. -/
  pending : ExtTreeMap ParticleId Atom
  /-- The names of the atoms that were applied. -/
  applied : ExtTreeSet AtomId
  deriving DecidableEq

/-- What becomes of an atom. -/
inductive Analysis where
  /-- It was applied before. -/
  | known
  /-- It misses a coin and waits. -/
  | blocked (after : LedgerView)
  /-- It contradicts what is known. -/
  | refused (cause : Violation)
  /-- It is applied, and the listed atoms no longer wait. -/
  | applied (after : LedgerView) (unblocked : List Atom)

/-- What a reconciler did with an atom and all that it unblocked. -/
structure Outcome where
  view : LedgerView
  /-- The atoms that were applied, in order. -/
  emitted : List Atom
  violation : Option Violation

namespace LedgerView

/-- Nothing seen yet. -/
def empty : LedgerView := ⟨∅, ∅, ∅⟩

/-! ## One atom -/

/-- The first relevant coin that an atom spends and that is not there. -/
def missing? (scope : Scope) (s : LedgerView) (a : Atom) : Option ParticleId :=
  (scope.consumed a).find? fun id => !s.unconsumed.contains id

/-- The first of the names that is there already or is listed twice. -/
def recreated? (s : LedgerView) : (seen : List ParticleId) → List ParticleId → Option ParticleId
  | _, [] => none
  | seen, id :: rest =>
    if s.unconsumed.contains id || seen.contains id then some id
    else recreated? s (id :: seen) rest

/-- Lets an atom wait for a coin, which only one atom may do. -/
def block (s : LedgerView) (a : Atom) (missing : ParticleId) : Analysis :=
  match s.pending[missing]? with
  | none => .blocked { s with pending := s.pending.insert missing a }
  | some other =>
    if other.id = a.id then .blocked s
    else .refused (.contendedParticle other.id a.id missing)

/-- Takes the atoms that wait for the listed coins out of the waiting ones. -/
def release (pending : ExtTreeMap ParticleId Atom) :
    List ParticleId → ExtTreeMap ParticleId Atom × List Atom
  | [] => (pending, [])
  | id :: rest =>
    match pending[id]? with
    | none => release pending rest
    | some waiting =>
      -- The atom may wait for another coin next; that is found out when its turn comes.
      let (pending, unblocked) := release (pending.erase id) rest
      (pending, waiting :: unblocked)

/-- The unspent coins after an atom: those that it spends are gone, those that it creates
are there. -/
def replay (scope : Scope) (unconsumed : ExtTreeMap ParticleId Coin) (a : Atom) :
    ExtTreeMap ParticleId Coin :=
  (scope.created a).foldl (fun m c => m.insert c.1 c.2)
    ((scope.consumed a).foldl (fun m id => m.erase id) unconsumed)

/-- Applies an atom that misses nothing. -/
def apply (scope : Scope) (s : LedgerView) (a : Atom) : Analysis :=
  let ids := (scope.created a).map (·.1)
  match s.recreated? [] ids with
  | some id => .refused (.recreatedParticle a.id id)
  | none =>
    let (pending, unblocked) := release s.pending ids
    .applied
      { unconsumed := replay scope s.unconsumed a
        pending := pending
        applied := s.applied.insert a.id }
      unblocked

/-- What becomes of an atom. -/
def analyse (scope : Scope) (s : LedgerView) (a : Atom) : Analysis :=
  if s.applied.contains a.id then .known
  else
    match s.missing? scope a with
    | some id => s.block a id
    | none => s.apply scope a

/-! ## Everything that follows -/

/-- Releasing takes out as many atoms as it lists. -/
theorem size_release (pending : ExtTreeMap ParticleId Atom) (ids : List ParticleId) :
    (release pending ids).1.size + (release pending ids).2.length = pending.size := by
  induction ids generalizing pending with
  | nil => rfl
  | cons id rest ih =>
    simp only [release]
    split
    · exact ih pending
    · next waiting h =>
      have hmem : id ∈ pending := ExtTreeMap.mem_iff_isSome_getElem?.2 (by simp [h])
      have hpos : 0 < pending.size := by
        have : pending.size ≠ 0 := fun hz => by
          rw [← ExtTreeMap.eq_empty_iff_size_eq_zero] at hz
          simp [hz] at h
        omega
      have := ih (pending.erase id)
      rw [ExtTreeMap.size_erase, if_pos (ExtTreeMap.contains_iff_mem.2 hmem)] at this
      simp only [List.length_cons]
      omega

/-- What an applied atom unblocks, it takes out of the waiting atoms. -/
theorem size_analyse_applied {scope : Scope} {s after : LedgerView} {a : Atom}
    {unblocked : List Atom}
    (h : s.analyse scope a = .applied after unblocked) :
    after.pending.size + unblocked.length = s.pending.size := by
  have hsize := size_release s.pending ((scope.created a).map (·.1))
  simp only [analyse, apply, block] at h
  split at h <;> try contradiction
  split at h
  · split at h <;> try contradiction
    split at h <;> contradiction
  · split at h <;> try contradiction
    cases h
    exact hsize

/-- An atom that waits adds at most itself to the waiting ones. -/
theorem size_analyse_blocked {scope : Scope} {s after : LedgerView} {a : Atom}
    (h : s.analyse scope a = .blocked after) : after.pending.size ≤ s.pending.size + 1 := by
  simp only [analyse, apply, block] at h
  split at h <;> try contradiction
  split at h
  · split at h
    · cases h
      exact ExtTreeMap.size_insert_le
    · split at h <;> try contradiction
      cases h
      omega
  · split at h <;> contradiction

/-- Works through a list of atoms, putting what one of them unblocks in front of the rest, and stops
at the first violation. -/
def run (scope : Scope) (s : LedgerView) : List Atom → Outcome
  | [] => ⟨s, [], none⟩
  | a :: work =>
    match _h : s.analyse scope a with
    | .known => run scope s work
    | .blocked after => run scope after work
    | .refused cause => ⟨s, [], some cause⟩
    | .applied after unblocked =>
      let later := run scope after (unblocked ++ work)
      { later with emitted := a :: later.emitted }
termination_by work => (s.pending.size + work.length, work.length)
decreasing_by
  -- A known atom leaves the work.
  · simp only [List.length_cons]
    apply Prod.Lex.left
    omega
  -- A blocked atom moves from the work to the atoms that wait, or leaves it.
  · have := size_analyse_blocked _h
    simp only [List.length_cons]
    rcases Nat.lt_or_ge (after.pending.size + work.length) (s.pending.size + (work.length + 1))
      with hlt | hge
    · exact Prod.Lex.left _ _ hlt
    · rw [show after.pending.size + work.length = s.pending.size + (work.length + 1) by omega]
      exact Prod.Lex.right _ (by omega)
  -- What an applied atom unblocks moves from the atoms that wait to the work.
  · have := size_analyse_applied _h
    simp only [List.length_cons, List.length_append]
    apply Prod.Lex.left
    omega

/-- Works through an atom and everything that it unblocks. -/
def accept (scope : Scope) (s : LedgerView) (a : Atom) : Outcome :=
  s.run scope [a]

end LedgerView

end ParticleLedger
