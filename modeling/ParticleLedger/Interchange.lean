import ParticleLedger.Atom.Basic
import ParticleLedger.Config.Basic
import ParticleLedger.Json.Format

/-!
# The types of the ledger as JSON

How identifiers, keys, tokens, particles, atoms and configurations are exchanged as JSON. Blocks of
bytes are arrays of counts, and records have their fields in the order in which they are written
here. The signatures of an atom are a map whose keys are public keys. These are written as arrays,
which cannot be the names of members.
-/

namespace ParticleLedger

open Json (Format Value)
open Std (ExtTreeMap)

/-! ## Bytes and names -/

/-- Thirty-two bytes as an array. -/
def Block32.format : Format Block32 :=
  .via (.list .byte) Vector.toList Block32.ofBytes?

def Digest.format : Format Digest :=
  .via Block32.format Digest.bytes fun b => some ⟨b⟩

def AtomId.format : Format AtomId :=
  .via Digest.format AtomId.digest fun d => some ⟨d⟩

def ParticleId.format : Format ParticleId :=
  .via Digest.format ParticleId.digest fun d => some ⟨d⟩

/-! ## Keys and signatures -/

def PublicKey.format : Format PublicKey :=
  .via Block32.format PublicKey.bytes fun b => some ⟨b⟩

def Address.format : Format Address where
  write a := do return .record [("key", ← PublicKey.format.write a.key)]
  read v := do
    let fs ← v.fields? ["key"]
    return ⟨← fs.required "key" PublicKey.format⟩

/-- Key sets as arrays; a key may be repeated when one is read. -/
def KeySet.format : Format KeySet :=
  .via (.list PublicKey.format) (·.toList) fun keys => some (KeySet.ofList keys)

/-- Byte strings as arrays of counts; a string stands for its bytes when one is read. -/
def Bytes.format : Format Bytes where
  write := (Format.list .byte).write
  read
    | .string units => some (Json.StringUnit.bytes units)
    | v => (Format.list .byte).read v

def Signature.format : Format Signature where
  write s := do return .record [("bytes", ← Bytes.format.write s.toList)]
  read v := do
    let fs ← v.fields? ["bytes"]
    Signature.ofBytes? (← fs.required "bytes" Bytes.format)

/-! ## Particles -/

def TokenRef.format : Format TokenRef where
  write t := do
    return .record [("issuer", ← Address.format.write t.issuer),
      ("symbol", ← Format.text.write t.symbol)]
  read v := do
    let fs ← v.fields? ["issuer", "symbol"]
    return ⟨← fs.required "issuer" Address.format, ← fs.required "symbol" .text⟩

def Coin.format : Format Coin where
  write c := do
    return .record [("token", ← TokenRef.format.write c.token),
      ("quantity", ← Format.word64.write c.quantity), ("owners", ← KeySet.format.write c.owners),
      ("nonce", ← Format.word64.write c.nonce)]
  read v := do
    let fs ← v.fields? ["token", "quantity", "owners", "nonce"]
    return ⟨← fs.required "token" TokenRef.format, ← fs.required "quantity" .word64,
      ← fs.required "owners" KeySet.format, ← fs.required "nonce" .word64⟩

def TokenDefinition.format : Format TokenDefinition where
  write d := do
    return .record [("token", ← TokenRef.format.write d.token),
      ("name", ← Format.text.write d.name),
      ("description", ← Format.text.write d.description),
      ("granularity", ← Format.word64.write d.granularity),
      ("owners", ← KeySet.format.write d.owners)]
  read v := do
    let fs ← v.fields? ["token", "name", "description", "granularity", "owners"]
    return ⟨← fs.required "token" TokenRef.format, ← fs.required "name" .text,
      ← fs.required "description" .text, ← fs.required "granularity" .word64,
      ← fs.required "owners" KeySet.format⟩

def UniqueId.format : Format UniqueId where
  write u := do
    return .record [("name", ← Format.text.write u.name),
      ("owners", ← KeySet.format.write u.owners),
      ("nonce", ← Format.word64.write u.nonce)]
  read v := do
    let fs ← v.fields? ["name", "owners", "nonce"]
    return ⟨← fs.required "name" .text, ← fs.required "owners" KeySet.format,
      ← fs.required "nonce" .word64⟩

/-- A value that is one case of several: an object whose only member is named for the case. -/
def caseOf? : Value → Option (String × Value)
  | .object [(name, v)] => (Json.StringUnit.text? name).map (·, v)
  | _ => none

/-- Spins by name; the name may also be the only member of an object, with null for its value. -/
def Spin.format : Format Spin where
  write
    | .up => some (.ofText "Up")
    | .down => some (.ofText "Down")
  read v := do
    let name ← match caseOf? v with
      | some (name, .null) => some name
      | some _ => none
      | none => v.text?
    if name = "Up" then some .up else if name = "Down" then some .down else none

/-- Particles as objects whose only member is named for the kind of particle. -/
def Particle.format : Format Particle where
  write
    | .consumable c => do return .record [("Consumable", ← Coin.format.write c)]
    | .consumer c => do return .record [("Consumer", ← Coin.format.write c)]
    | .tokenDefinition d => do
      return .record [("TokenDefinition", ← TokenDefinition.format.write d)]
    | .uniqueId u => do return .record [("UniqueId", ← UniqueId.format.write u)]
  read v := do
    let (name, body) ← caseOf? v
    if name = "Consumable" then (Coin.format.read body).map .consumable
    else if name = "Consumer" then (Coin.format.read body).map .consumer
    else if name = "TokenDefinition" then (TokenDefinition.format.read body).map .tokenDefinition
    else if name = "UniqueId" then (UniqueId.format.read body).map .uniqueId
    else none

/-! ## Atoms -/

def Payload.format : Format Payload where
  write p := do
    return .record [("data", ← (Format.list .byte).write p.data),
      ("protectors", ← (Format.list (.list .byte)).write p.protectors)]
  read v := do
    let fs ← v.fields? ["data", "protectors"]
    return ⟨← fs.required "data" (.list .byte),
      ← fs.defaulted "protectors" (.list (.list .byte)) []⟩

/-- The signatures of an atom by signer. -/
def signaturesFormat : Format (ExtTreeMap PublicKey Signature) :=
  .map PublicKey.format Signature.format

def Atom.format : Format Atom where
  write a := do
    return .record [("particles", ← (Format.list Particle.format).write a.particles),
      ("timestamp", ← Format.word64.write a.timestamp),
      ("payload", ← (Format.option Payload.format).write a.payload),
      ("signatures", ← signaturesFormat.write a.signatures)]
  read v := do
    let fs ← v.fields? ["particles", "timestamp", "payload", "signatures"]
    return ⟨← fs.required "particles" (.list Particle.format), ← fs.required "timestamp" .word64,
      ← fs.optional "payload" Payload.format, ← fs.defaulted "signatures" signaturesFormat ∅⟩

/-! ## Configurations -/

def ReducerConfig.format : Format ReducerConfig where
  write c := do return .record [("debounce_ms", ← Format.word64.write c.debounceMs)]
  read v := do
    let fs ← v.fields? ["debounce_ms"]
    return ⟨← fs.defaulted "debounce_ms" .word64 Config.standard.reducer.debounceMs⟩

def DeliveryConfig.format : Format DeliveryConfig where
  write c := do
    return .record [("max_retry_attempts", ← Format.word32.write c.maxRetryAttempts),
      ("max_retry_delay_secs", ← Format.word64.write c.maxRetryDelaySecs)]
  read v := do
    let standard := Config.standard.delivery
    let fs ← v.fields? ["max_retry_attempts", "max_retry_delay_secs"]
    return ⟨← fs.defaulted "max_retry_attempts" .word32 standard.maxRetryAttempts,
      ← fs.defaulted "max_retry_delay_secs" .word64 standard.maxRetryDelaySecs⟩

/-- Configurations; what is not set holds its standard value. -/
def Config.format : Format Config where
  write c := do
    return .record [("service_name", ← Format.text.write c.serviceName),
      ("service_version", ← Format.text.write c.serviceVersion),
      ("reducer", ← ReducerConfig.format.write c.reducer),
      ("delivery", ← DeliveryConfig.format.write c.delivery)]
  read v := do
    let standard := Config.standard
    let fs ← v.fields? ["service_name", "service_version", "reducer", "delivery"]
    return ⟨← fs.defaulted "service_name" .text standard.serviceName,
      ← fs.defaulted "service_version" .text standard.serviceVersion,
      ← fs.defaulted "reducer" ReducerConfig.format standard.reducer,
      ← fs.defaulted "delivery" DeliveryConfig.format standard.delivery⟩

end ParticleLedger
