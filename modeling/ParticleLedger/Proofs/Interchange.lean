import ParticleLedger.Interchange
import ParticleLedger.Proofs.Json.RoundTrip

/-!
# What survives being exchanged

Every value of the ledger can be written and is read back from what was written, except an atom that
carries signatures. Their map has public keys for its keys; a public key is written as an array, and
no array can be the name of a member, so such an atom cannot be written, and no text is read as one.

Main statements: `Particle.format_keeps`, `Atom.format_keeps`, `Atom.render?_eq_none` and
`exchange_exact`.
-/

namespace ParticleLedger

open Json (Format Value)
open Json.Format (keeps_text keeps_byte keeps_word64 keeps_list keeps_none
  keeps_some keeps_via keeps_record keeps_case keeps_map_empty write_map_eq_none
  eq_empty_of_read_map)

/-! ## Bytes, names and keys -/

theorem Block32.ofBytes?_toList (b : Block32) : Block32.ofBytes? b.toList = some b := by
  obtain ⟨⟨bs⟩, hlength⟩ := b
  exact dif_pos hlength

theorem Block32.format_keeps (b : Block32) : Block32.format.Keeps b :=
  keeps_via (keeps_list _ fun b _ => keeps_byte b) (Block32.ofBytes?_toList b)

theorem Digest.format_keeps (d : Digest) : Digest.format.Keeps d :=
  keeps_via (Block32.format_keeps d.bytes) rfl

theorem AtomId.format_keeps (a : AtomId) : AtomId.format.Keeps a :=
  keeps_via (Digest.format_keeps a.digest) rfl

theorem ParticleId.format_keeps (p : ParticleId) : ParticleId.format.Keeps p :=
  keeps_via (Digest.format_keeps p.digest) rfl

theorem PublicKey.format_keeps (k : PublicKey) : PublicKey.format.Keeps k :=
  keeps_via (Block32.format_keeps k.bytes) rfl

theorem KeySet.ofList_toList (s : KeySet) : KeySet.ofList s.toList = s := by
  refine Std.ExtTreeSet.ext_mem fun k => ?_
  simp [KeySet.ofList, Std.ExtTreeSet.mem_ofList]

theorem KeySet.format_keeps (s : KeySet) : KeySet.format.Keeps s :=
  keeps_via (keeps_list _ fun k _ => PublicKey.format_keeps k) (congrArg some s.ofList_toList)

theorem Address.format_keeps (a : Address) : Address.format.Keeps a := by
  obtain ⟨key, hwrite, hplain, hread⟩ := PublicKey.format_keeps a.key
  refine keeps_record [("key", key)] (by simp) (by simp [hplain]) ?_ fun v hfields => ?_
  · simp [format, hwrite]
  · simp only [List.map_cons, List.map_nil] at hfields
    simp [format, hfields, hread]

theorem Bytes.format_keeps (bs : Bytes) : Bytes.format.Keeps bs := by
  obtain ⟨v, hwrite, hplain, hread⟩ := keeps_list bs fun b _ => keeps_byte b
  refine ⟨v, hwrite, hplain, ?_⟩
  cases v with
  | string => simp [Format.list, Value.items?] at hread
  | _ => exact hread

theorem Signature.ofBytes?_toList (s : Signature) : Signature.ofBytes? s.toList = some s := by
  obtain ⟨⟨⟨bs⟩, hlength⟩⟩ := s
  exact dif_pos hlength

theorem Signature.format_keeps (s : Signature) : Signature.format.Keeps s := by
  obtain ⟨bs, hwrite, hplain, hread⟩ := Bytes.format_keeps s.toList
  refine keeps_record [("bytes", bs)] (by simp) (by simp [hplain]) ?_ fun v hfields => ?_
  · simp [format, hwrite]
  · simp only [List.map_cons, List.map_nil] at hfields
    simp [format, hfields, hread, ofBytes?_toList]

/-! ## Particles -/

theorem TokenRef.format_keeps (t : TokenRef) : TokenRef.format.Keeps t := by
  obtain ⟨issuer, hissuer, hissuerPlain, hissuerRead⟩ := Address.format_keeps t.issuer
  obtain ⟨symbol, hsymbol, hsymbolPlain, hsymbolRead⟩ := keeps_text t.symbol
  refine keeps_record [("issuer", issuer), ("symbol", symbol)] (by simp)
    (by simp [hissuerPlain, hsymbolPlain]) ?_ fun v hfields => ?_
  · simp [format, hissuer, hsymbol]
  · simp only [List.map_cons, List.map_nil] at hfields
    simp [format, hfields, hissuerRead, hsymbolRead]

theorem Coin.format_keeps (c : Coin) : Coin.format.Keeps c := by
  obtain ⟨token, htoken, htokenPlain, htokenRead⟩ := TokenRef.format_keeps c.token
  obtain ⟨quantity, hquantity, hquantityPlain, hquantityRead⟩ := keeps_word64 c.quantity
  obtain ⟨owners, howners, hownersPlain, hownersRead⟩ := KeySet.format_keeps c.owners
  obtain ⟨nonce, hnonce, hnoncePlain, hnonceRead⟩ := keeps_word64 c.nonce
  refine keeps_record
    [("token", token), ("quantity", quantity), ("owners", owners), ("nonce", nonce)] (by simp)
    (by simp [htokenPlain, hquantityPlain, hownersPlain, hnoncePlain]) ?_ fun v hfields => ?_
  · simp [format, htoken, hquantity, howners, hnonce]
  · simp only [List.map_cons, List.map_nil] at hfields
    simp [format, hfields, htokenRead, hquantityRead, hownersRead, hnonceRead]

theorem TokenDefinition.format_keeps (d : TokenDefinition) : TokenDefinition.format.Keeps d := by
  obtain ⟨token, htoken, htokenPlain, htokenRead⟩ := TokenRef.format_keeps d.token
  obtain ⟨name, hname, hnamePlain, hnameRead⟩ := keeps_text d.name
  obtain ⟨description, hdescription, hdescriptionPlain, hdescriptionRead⟩ :=
    keeps_text d.description
  obtain ⟨granularity, hgranularity, hgranularityPlain, hgranularityRead⟩ :=
    keeps_word64 d.granularity
  obtain ⟨owners, howners, hownersPlain, hownersRead⟩ := KeySet.format_keeps d.owners
  refine keeps_record [("token", token), ("name", name), ("description", description),
      ("granularity", granularity), ("owners", owners)] (by simp)
    (by simp [htokenPlain, hnamePlain, hdescriptionPlain, hgranularityPlain, hownersPlain]) ?_
    fun v hfields => ?_
  · simp [format, htoken, hname, hdescription, hgranularity, howners]
  · simp only [List.map_cons, List.map_nil] at hfields
    simp [format, hfields, htokenRead, hnameRead, hdescriptionRead, hgranularityRead, hownersRead]

theorem UniqueId.format_keeps (u : UniqueId) : UniqueId.format.Keeps u := by
  obtain ⟨name, hname, hnamePlain, hnameRead⟩ := keeps_text u.name
  obtain ⟨owners, howners, hownersPlain, hownersRead⟩ := KeySet.format_keeps u.owners
  obtain ⟨nonce, hnonce, hnoncePlain, hnonceRead⟩ := keeps_word64 u.nonce
  refine keeps_record [("name", name), ("owners", owners), ("nonce", nonce)] (by simp)
    (by simp [hnamePlain, hownersPlain, hnoncePlain]) ?_ fun v hfields => ?_
  · simp [format, hname, howners, hnonce]
  · simp only [List.map_cons, List.map_nil] at hfields
    simp [format, hfields, hnameRead, hownersRead, hnonceRead]

theorem Spin.format_keeps (s : Spin) : Spin.format.Keeps s := by
  have hname : ∀ name : String, caseOf? (.ofText name) = none ∧
      (Value.ofText name).text? = some name :=
    fun name => ⟨rfl, Json.StringUnit.text?_ofText name⟩
  cases s with
  | up => exact ⟨.ofText "Up", rfl, .text _, by simp [format, hname]⟩
  | down => exact ⟨.ofText "Down", rfl, .text _, by simp [format, hname]⟩

theorem caseOf?_record (name : String) (v : Value) :
    caseOf? (.record [(name, v)]) = some (name, v) := by
  simp [caseOf?, Value.record, Json.StringUnit.text?_ofText]

theorem Particle.format_keeps (p : Particle) : Particle.format.Keeps p := by
  cases p with
  | consumable c =>
    refine keeps_case "Consumable" (Coin.format_keeps c) (fun v hwrite => ?_) fun v hread => ?_
    · simp [format, hwrite]
    · simp [format, caseOf?_record, hread]
  | consumer c =>
    refine keeps_case "Consumer" (Coin.format_keeps c) (fun v hwrite => ?_) fun v hread => ?_
    · simp [format, hwrite]
    · simp [format, caseOf?_record, hread]
  | tokenDefinition d =>
    refine keeps_case "TokenDefinition" (TokenDefinition.format_keeps d) (fun v hwrite => ?_)
      fun v hread => ?_
    · simp [format, hwrite]
    · simp [format, caseOf?_record, hread]
  | uniqueId u =>
    refine keeps_case "UniqueId" (UniqueId.format_keeps u) (fun v hwrite => ?_) fun v hread => ?_
    · simp [format, hwrite]
    · simp [format, caseOf?_record, hread]

/-! ## Atoms -/

theorem Payload.format_keeps (p : Payload) : Payload.format.Keeps p := by
  have hbytes : ∀ bs : Bytes, (Format.list Format.byte).Keeps bs :=
    fun bs => keeps_list bs fun b _ => keeps_byte b
  obtain ⟨data, hdata, hdataPlain, hdataRead⟩ := hbytes p.data
  obtain ⟨protectors, hprotectors, hprotectorsPlain, hprotectorsRead⟩ :=
    keeps_list p.protectors fun bs _ => hbytes bs
  refine keeps_record [("data", data), ("protectors", protectors)] (by simp)
    (by simp [hdataPlain, hprotectorsPlain]) ?_ fun v hfields => ?_
  · simp [format, hdata, hprotectors]
  · simp only [List.map_cons, List.map_nil] at hfields
    simp [format, hfields, Json.Fields.defaulted, List.lookup_cons, hdataRead, hprotectorsRead]

/-- No public key can be the name of a member. -/
theorem PublicKey.name?_eq_none (k : PublicKey) :
    (PublicKey.format.write k).bind Value.name? = none := by
  change (((k.bytes.toList.mapM Format.byte.write).map Value.array).bind Value.name?) = none
  cases k.bytes.toList.mapM Format.byte.write <;> rfl

/-- No string is read as a public key. -/
theorem PublicKey.read_string (units : List Json.StringUnit) :
    PublicKey.format.read (.string units) = none := rfl

theorem Payload.write_ne_null (p : Payload) : Payload.format.write p ≠ some .null := by
  simp [format, Value.record, Option.bind_eq_some_iff]

/-- An atom without signatures survives. -/
theorem Atom.format_keeps {a : Atom} (h : a.signatures = ∅) : Atom.format.Keeps a := by
  have hpayload : (Format.option Payload.format).Keeps a.payload := by
    cases a.payload with
    | none => exact keeps_none
    | some p => exact keeps_some (Payload.format_keeps p) (Payload.write_ne_null p)
  obtain ⟨particles, hparticles, hparticlesPlain, hparticlesRead⟩ :=
    keeps_list a.particles fun p _ => Particle.format_keeps p
  obtain ⟨timestamp, htimestamp, htimestampPlain, htimestampRead⟩ := keeps_word64 a.timestamp
  obtain ⟨payload, hpayload, hpayloadPlain, hpayloadRead⟩ := hpayload
  obtain ⟨signatures, hsignatures, hsignaturesPlain, hsignaturesRead⟩ :
      signaturesFormat.Keeps a.signatures := by
    rw [h]
    exact keeps_map_empty
  refine keeps_record [("particles", particles), ("timestamp", timestamp), ("payload", payload),
      ("signatures", signatures)] (by simp)
    (by simp [hparticlesPlain, htimestampPlain, hpayloadPlain, hsignaturesPlain]) ?_
    fun v hfields => ?_
  · simp [format, hparticles, htimestamp, hpayload, hsignatures]
  · simp only [List.map_cons, List.map_nil] at hfields
    simp [format, hfields, Json.Fields.optional, Json.Fields.defaulted, List.lookup_cons,
      hparticlesRead, htimestampRead, hpayloadRead, hsignaturesRead]

/-- An atom with signatures cannot be written. -/
theorem Atom.render?_eq_none {a : Atom} (h : a.signatures ≠ ∅) : Atom.format.render? a = none := by
  have hsignatures : signaturesFormat.write a.signatures = none :=
    write_map_eq_none PublicKey.name?_eq_none h
  simp [Format.render?, format, hsignatures]

/-- No text is read as an atom with signatures. -/
theorem Atom.signatures_eq_empty_of_parse {a : Atom} {text : String}
    (h : Atom.format.parse? text = some a) : a.signatures = ∅ := by
  obtain ⟨v, -, h⟩ := Option.bind_eq_some_iff.1 h
  simp only [format, Option.bind_eq_bind, Option.bind_eq_some_iff] at h
  obtain ⟨fs, -, particles, -, timestamp, -, payload, -, signatures, hsignatures, hatom⟩ := h
  obtain rfl := Option.some.inj hatom
  simp only [Json.Fields.defaulted] at hsignatures
  split at hsignatures
  · exact eq_empty_of_read_map PublicKey.read_string hsignatures
  · exact (Option.some.inj hsignatures).symm

theorem Atom.exists_render?_iff (a : Atom) :
    (∃ text, Atom.format.render? a = some text) ↔ a.signatures = ∅ := by
  constructor
  · rintro ⟨text, hwrite⟩
    by_contra hsigned
    rw [render?_eq_none hsigned] at hwrite
    contradiction
  · intro h
    obtain ⟨text, hwrite, -⟩ := (Atom.format_keeps h).roundTrips
    exact ⟨text, hwrite⟩

theorem Atom.exists_parse?_iff (a : Atom) :
    (∃ text, Atom.format.parse? text = some a) ↔ a.signatures = ∅ := by
  constructor
  · rintro ⟨text, hread⟩
    exact signatures_eq_empty_of_parse hread
  · intro h
    obtain ⟨text, -, hread⟩ := (Atom.format_keeps h).roundTrips
    exact ⟨text, hread⟩

theorem Atom.roundTrips_iff (a : Atom) : Atom.format.RoundTrips a ↔ a.signatures = ∅ := by
  constructor
  · rintro ⟨text, hwrite, -⟩
    exact a.exists_render?_iff.1 ⟨text, hwrite⟩
  · intro h
    exact (Atom.format_keeps h).roundTrips

/-- Values of the other types make the round trip, whatever they are. An atom makes it exactly if it
has no signatures; with signatures it can neither be written nor be read. -/
theorem exchange_exact (digest : Digest) (atomId : AtomId) (particleId : ParticleId)
    (key : PublicKey) (address : Address) (keys : KeySet) (token : TokenRef) (coin : Coin)
    (definition : TokenDefinition) (uniqueId : UniqueId) (particle : Particle) (payload : Payload)
    (signature : Signature) (spin : Spin) (a : Atom) :
    Digest.format.RoundTrips digest ∧ AtomId.format.RoundTrips atomId ∧
      ParticleId.format.RoundTrips particleId ∧ PublicKey.format.RoundTrips key ∧
      Address.format.RoundTrips address ∧ KeySet.format.RoundTrips keys ∧
      TokenRef.format.RoundTrips token ∧ Coin.format.RoundTrips coin ∧
      TokenDefinition.format.RoundTrips definition ∧ UniqueId.format.RoundTrips uniqueId ∧
      Particle.format.RoundTrips particle ∧ Payload.format.RoundTrips payload ∧
      Signature.format.RoundTrips signature ∧ Spin.format.RoundTrips spin ∧
      (Atom.format.RoundTrips a ↔ a.signatures = ∅) ∧
      ((∃ text, Atom.format.render? a = some text) ↔ a.signatures = ∅) ∧
      ((∃ text, Atom.format.parse? text = some a) ↔ a.signatures = ∅) := by
  refine ⟨(Digest.format_keeps digest).roundTrips, (AtomId.format_keeps atomId).roundTrips,
    (ParticleId.format_keeps particleId).roundTrips, (PublicKey.format_keeps key).roundTrips,
    (Address.format_keeps address).roundTrips, (KeySet.format_keeps keys).roundTrips,
    (TokenRef.format_keeps token).roundTrips, (Coin.format_keeps coin).roundTrips,
    (TokenDefinition.format_keeps definition).roundTrips,
    (UniqueId.format_keeps uniqueId).roundTrips, (Particle.format_keeps particle).roundTrips,
    (Payload.format_keeps payload).roundTrips, (Signature.format_keeps signature).roundTrips,
    (Spin.format_keeps spin).roundTrips, ?_⟩
  exact ⟨a.roundTrips_iff, a.exists_render?_iff, a.exists_parse?_iff⟩

/-- One signature is enough: the atom cannot be written, and no text is read as it. -/
theorem signed_atom_not_exchanged :
    let a := (Atom.unsigned [] 5 none).withSignature ⟨Vector.replicate 32 1⟩
      ⟨Vector.replicate 64 0⟩
    Atom.format.render? a = none ∧ ∀ text, Atom.format.parse? text ≠ some a := by
  intro a
  have hsigned : a.signatures ≠ ∅ := Std.ExtTreeMap.insert_ne_empty
  exact ⟨Atom.render?_eq_none hsigned, fun text hread =>
    hsigned (Atom.signatures_eq_empty_of_parse hread)⟩

end ParticleLedger
