import ParticleLedger.Atom.Basic

/-!
# Validation of delivered atoms

A feed delivers only what its validator lets through. The usual one asks for a timestamp and for the
signatures of all owners of the coins that an atom spends.
-/

namespace ParticleLedger

/-- Decides whether an atom may be delivered. -/
abbrev AtomValidator := Atom → Except LedgerError Unit

/-- Asks for a timestamp and for the signatures of all owners. -/
def signatureValidator (scheme : SignatureScheme) : AtomValidator := fun a =>
  if a.timestamp = 0 then .error (.validation (.noTimestamp a.id)) else a.verifySignatures scheme

/-- Lets every atom through. -/
def lenientValidator : AtomValidator := fun _ => .ok ()

end ParticleLedger
