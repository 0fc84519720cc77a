import ParticleLedger.Config.Basic
import ParticleLedger.Toml.Document

/-!
# Where configurations come from

A configuration is read from a TOML document, from the bytes of a file that holds one, or from
environment variables. What is not set holds its standard value, and what is not known is passed
over.
-/

namespace ParticleLedger

open Toml (Node)

/-! ## Documents -/

namespace Toml.Node

/-- The text that a node is. -/
def text? : Node → Option String
  | .text s => some s
  | _ => none

/-- The count below a bound that a node is. -/
def count? (bound : Nat) : Node → Option Nat
  | .integer n => if 0 ≤ n ∧ n < bound then some n.toNat else none
  | _ => none

/-- The fields of a section that a node holds: the entries of a table, or the items of an array in
the order of the names. A date holds none. -/
def section? (names : List String) : Node → Option (List (String × Node))
  | .table _ entries => some entries
  | .array items => some (names.zip items)
  | .tables elements => some (names.zip elements)
  | .dateTime => some []
  | _ => none

end Toml.Node

/-- Reads a field of a section; one that is not set has a standard value. -/
def setting {α : Type} (fields : List (String × Node)) (name : String) (read : Node → Option α)
    (standard : α) : Option α :=
  match fields.lookup name with
  | none => some standard
  | some n => read n

def ReducerConfig.ofToml? (n : Node) : Option ReducerConfig := do
  let fields ← n.section? ["debounce_ms"]
  return ⟨UInt64.ofNat (← setting fields "debounce_ms" (·.count? UInt64.size)
    Config.standard.reducer.debounceMs.toNat)⟩

def DeliveryConfig.ofToml? (n : Node) : Option DeliveryConfig := do
  let standard := Config.standard.delivery
  let fields ← n.section? ["max_retry_attempts", "max_retry_delay_secs"]
  return ⟨UInt32.ofNat (← setting fields "max_retry_attempts" (·.count? UInt32.size)
      standard.maxRetryAttempts.toNat),
    UInt64.ofNat (← setting fields "max_retry_delay_secs" (·.count? UInt64.size)
      standard.maxRetryDelaySecs.toNat)⟩

namespace Config

/-- The configuration that a document is. -/
def ofToml? (n : Node) : Option Config := do
  let fields ← n.section? ["service_name", "service_version", "reducer", "delivery"]
  return ⟨← setting fields "service_name" Node.text? standard.serviceName,
    ← setting fields "service_version" Node.text? standard.serviceVersion,
    ← setting fields "reducer" ReducerConfig.ofToml? standard.reducer,
    ← setting fields "delivery" DeliveryConfig.ofToml? standard.delivery⟩

/-- Reads a configuration from the text of a document. -/
def ofText (text : String) : Except LedgerError Config :=
  match (Toml.parse? text).bind ofToml? with
  | some c => .ok c
  | none => .error (.config .malformed)

/-- Reads a configuration from the bytes of a file, if there is one. -/
def ofFile (content : Option Bytes) : Except LedgerError Config :=
  match content with
  | none => .error (.io "no such file")
  | some bs =>
    match Bytes.text? bs with
    | some text => ofText text
    | none => .error (.io "not text")

/-! ## Environment variables -/

/-- The number below a bound that a text writes: digits, with at most a plus before them. -/
def number? (bound : Nat) (text : String) : Option Nat :=
  -- A minus is refused even before zero, and so are blanks and separators.
  let digits := match text.toList with
    | '+' :: rest => rest
    | cs => cs
  let n := Nat.ofDigitChars 10 digits 0
  if !digits.isEmpty && digits.all Char.isDigit && n < bound then some n else none

/-- The value of a variable, if it is set. -/
def numberIn (env : List (String × String)) (name : String) (bound : Nat) (standard : Nat) :
    Except LedgerError Nat :=
  match env.lookup name with
  | none => .ok standard
  | some text =>
    match number? bound text with
    | some n => .ok n
    | none => .error (.config (.notANumber name text))

/-- Reads a configuration from environment variables, by name. The first that is not a number is
reported. -/
def ofEnvironment (env : List (String × String)) : Except LedgerError Config := do
  let debounce ← numberIn env "RADIX_DEBOUNCE_MS" UInt64.size standard.reducer.debounceMs.toNat
  let attempts ← numberIn env "RADIX_MAX_RETRY_ATTEMPTS" UInt32.size
    standard.delivery.maxRetryAttempts.toNat
  let delay ← numberIn env "RADIX_MAX_RETRY_DELAY_SECS" UInt64.size
    standard.delivery.maxRetryDelaySecs.toNat
  return { standard with
    reducer := ⟨UInt64.ofNat debounce⟩
    delivery := ⟨UInt32.ofNat attempts, UInt64.ofNat delay⟩ }

end Config

end ParticleLedger
