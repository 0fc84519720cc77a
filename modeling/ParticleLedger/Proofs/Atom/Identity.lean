import ParticleLedger.Proofs.Canonical.Record
import ParticleLedger.Proofs.Atom.Plain

/-!
# What a name is made of

The canonical bytes of an atom are those of its particles with their spins, its payload and its
timestamp. They determine all of these, and nothing else goes into them; the bytes of a particle
leave out whether it creates or spends its coin. All of this holds as long as nothing is too long to
be counted in four bytes.

Main statements: `Particle.canonical_eq_iff`, `Atom.canonical_eq_iff` (equal values mean equal
contents) and `Atom.canonicalBytes_determine`.
-/

namespace ParticleLedger

open Canonical (Value countLimit)
open Canonical.Value (record_inj serializer_inj record_withinRange)
open Std (ExtTreeSet)

/-! ## Equal values mean equal contents -/

theorem PublicKey.canonical_inj {k k' : PublicKey} (h : k.canonical = k'.canonical) : k = k' := by
  have hbytes : k.bytes = k'.bytes := Vector.toList_inj.1 (Value.bytes.inj h)
  cases k
  cases k'
  exact congrArg PublicKey.mk hbytes

theorem KeySet.canonical_inj {s s' : KeySet} (h : s.canonical = s'.canonical) : s = s' := by
  have hkeys : s.toList = s'.toList :=
    List.map_injective_iff.2 (fun _ _ => PublicKey.canonical_inj) (Value.list.inj h)
  exact ExtTreeSet.toList_inj.1 hkeys

theorem TokenRef.canonical_inj {t t' : TokenRef} (h : t.canonical = t'.canonical) : t = t' := by
  have hfields := record_inj h rfl (by simp)
  simp only [List.cons.injEq, Prod.mk.injEq, true_and, and_true, Value.text.injEq] at hfields
  obtain ⟨hissuer, hsymbol⟩ := hfields
  obtain ⟨⟨key⟩, symbol⟩ := t
  obtain ⟨⟨key'⟩, symbol'⟩ := t'
  obtain rfl : key = key' := PublicKey.canonical_inj hissuer
  obtain rfl : symbol = symbol' := hsymbol
  rfl

theorem Coin.canonical_inj {c c' : Coin} (h : c.canonical = c'.canonical) : c = c' := by
  have hfields := record_inj h rfl (by simp)
  simp only [List.cons.injEq, Prod.mk.injEq, true_and, and_true, Value.number.injEq] at hfields
  obtain ⟨hnonce, howners, hquantity, htoken⟩ := hfields
  obtain ⟨token, quantity, owners, nonce⟩ := c
  obtain ⟨token', quantity', owners', nonce'⟩ := c'
  obtain rfl : token = token' := TokenRef.canonical_inj htoken
  obtain rfl : owners = owners' := KeySet.canonical_inj howners
  obtain rfl : quantity = quantity' := hquantity
  obtain rfl : nonce = nonce' := hnonce
  rfl

theorem TokenDefinition.canonical_inj {d d' : TokenDefinition} (h : d.canonical = d'.canonical) :
    d = d' := by
  have hfields := record_inj h rfl (by simp)
  simp only [List.cons.injEq, Prod.mk.injEq, true_and, and_true, Value.number.injEq,
    Value.text.injEq] at hfields
  obtain ⟨hdescription, hgranularity, hname, howners, htoken⟩ := hfields
  obtain ⟨token, name, description, granularity, owners⟩ := d
  obtain ⟨token', name', description', granularity', owners'⟩ := d'
  obtain rfl : token = token' := TokenRef.canonical_inj htoken
  obtain rfl : owners = owners' := KeySet.canonical_inj howners
  obtain rfl : name = name' := hname
  obtain rfl : description = description' := hdescription
  obtain rfl : granularity = granularity' := hgranularity
  rfl

theorem UniqueId.canonical_inj {u u' : UniqueId} (h : u.canonical = u'.canonical) : u = u' := by
  have hfields := record_inj h rfl (by simp)
  simp only [List.cons.injEq, Prod.mk.injEq, true_and, and_true, Value.number.injEq,
    Value.text.injEq] at hfields
  obtain ⟨hname, hnonce, howners⟩ := hfields
  obtain ⟨name, owners, nonce⟩ := u
  obtain ⟨name', owners', nonce'⟩ := u'
  obtain rfl : owners = owners' := KeySet.canonical_inj howners
  obtain rfl : name = name' := hname
  obtain rfl : nonce = nonce' := hnonce
  rfl

theorem Payload.canonical_inj {p p' : Payload} (h : p.canonical = p'.canonical) : p = p' := by
  have hfields := record_inj h rfl (by simp)
  simp only [List.cons.injEq, Prod.mk.injEq, true_and, and_true, Value.bytes.injEq,
    Value.list.injEq] at hfields
  obtain ⟨hdata, hprotectors⟩ := hfields
  obtain ⟨data, protectors⟩ := p
  obtain ⟨data', protectors'⟩ := p'
  obtain rfl : data = data' := hdata
  obtain rfl : protectors = protectors' :=
    List.map_injective_iff.2 (fun _ _ => Value.bytes.inj) hprotectors
  rfl

/-! ## Kinds of bodies -/

/-- A coin is never described as a token is. -/
theorem Coin.canonical_ne_definition (c : Coin) (d : TokenDefinition) :
    c.canonical ≠ d.canonical := by
  intro h
  exact absurd (serializer_inj h (by simp [Value.serializerField]) (by simp [Value.serializerField]))
    (by decide)

theorem Coin.canonical_ne_uniqueId (c : Coin) (u : UniqueId) : c.canonical ≠ u.canonical := by
  intro h
  exact absurd (serializer_inj h (by simp [Value.serializerField]) (by simp [Value.serializerField]))
    (by decide)

theorem TokenDefinition.canonical_ne_uniqueId (d : TokenDefinition) (u : UniqueId) :
    d.canonical ≠ u.canonical := by
  intro h
  exact absurd (serializer_inj h (by simp [Value.serializerField]) (by simp [Value.serializerField]))
    (by decide)

theorem Spin.value_inj {s s' : Spin} (h : s.value = s'.value) : s = s' := by
  cases s with
  | up => cases s' with
    | up => rfl
    | down => exact absurd h (by decide)
  | down => cases s' with
    | up => exact absurd h (by decide)
    | down => rfl

namespace Particle

variable {p q : Particle}

/-- The particle that spends what this one creates, or creates what it spends. Only coins can be
spent. -/
def reversed : Particle → Particle
  | consumable c => consumer c
  | consumer c => consumable c
  | p => p

theorem canonical_reversed (p : Particle) : p.reversed.canonical = p.canonical := by
  cases p <;> rfl

/-- Particles have the same value exactly if they are the same but for creating or spending. -/
theorem canonical_eq_iff : p.canonical = q.canonical ↔ p = q ∨ p = q.reversed := by
  constructor
  · intro h
    cases p with
    | consumable c =>
      cases q with
      | consumable c' => exact .inl (congrArg consumable (Coin.canonical_inj h))
      | consumer c' => exact .inr (congrArg consumable (Coin.canonical_inj h))
      | tokenDefinition d => exact absurd h (c.canonical_ne_definition d)
      | uniqueId u => exact absurd h (c.canonical_ne_uniqueId u)
    | consumer c =>
      cases q with
      | consumable c' => exact .inr (congrArg consumer (Coin.canonical_inj h))
      | consumer c' => exact .inl (congrArg consumer (Coin.canonical_inj h))
      | tokenDefinition d => exact absurd h (c.canonical_ne_definition d)
      | uniqueId u => exact absurd h (c.canonical_ne_uniqueId u)
    | tokenDefinition d =>
      cases q with
      | consumable c => exact absurd h.symm (c.canonical_ne_definition d)
      | consumer c => exact absurd h.symm (c.canonical_ne_definition d)
      | tokenDefinition d' =>
        exact .inl (congrArg tokenDefinition (TokenDefinition.canonical_inj h))
      | uniqueId u => exact absurd h (d.canonical_ne_uniqueId u)
    | uniqueId u =>
      cases q with
      | consumable c => exact absurd h.symm (c.canonical_ne_uniqueId u)
      | consumer c => exact absurd h.symm (c.canonical_ne_uniqueId u)
      | tokenDefinition d => exact absurd h.symm (d.canonical_ne_uniqueId u)
      | uniqueId u' => exact .inl (congrArg uniqueId (UniqueId.canonical_inj h))
  · rintro (rfl | rfl)
    · rfl
    · exact canonical_reversed q

/-- Spins tell a particle from its reverse. -/
theorem eq_of_spin_reversed (h : q.reversed.spin = q.spin) : q.reversed = q := by
  cases q with
  | consumable c => contradiction
  | consumer c => contradiction
  | tokenDefinition d => rfl
  | uniqueId u => rfl

end Particle

namespace Atom

variable {a b : Atom}

/-- With its spin a particle is determined by its value. -/
theorem spunParticle_inj {p q : Particle} (h : spunParticle p = spunParticle q) : p = q := by
  have hfields := record_inj h rfl (by simp)
  simp only [List.cons.injEq, Prod.mk.injEq, true_and, and_true, Value.number.injEq] at hfields
  obtain ⟨hbody, hvalue⟩ := hfields
  have hspin : p.spin = q.spin := Spin.value_inj hvalue
  rcases Particle.canonical_eq_iff.1 hbody with heq | hreversed
  · exact heq
  · rw [hreversed] at hspin ⊢
    exact Particle.eq_of_spin_reversed hspin

/-- Atoms have the same value exactly if they have the same particles in the same order, the same
timestamp and the same payload, whatever their signatures are. -/
theorem canonical_eq_iff : a.canonical = b.canonical ↔
    a.particles = b.particles ∧ a.timestamp = b.timestamp ∧ a.payload = b.payload := by
  constructor
  · intro h
    have hfields := record_inj h rfl (by simp)
    simp only [List.cons.injEq, Prod.mk.injEq, true_and, and_true, Value.number.injEq,
      Value.list.injEq] at hfields
    obtain ⟨hparticles, hpayload, htimestamp⟩ := hfields
    refine ⟨List.map_injective_iff.2 (fun _ _ => spunParticle_inj) hparticles, htimestamp, ?_⟩
    cases hp : a.payload with
    | none =>
      cases hq : b.payload with
      | none => rfl
      | some q => simp [hp, hq, Value.ofOption, Payload.canonical, Value.record, Value.ofFields]
          at hpayload
    | some p =>
      cases hq : b.payload with
      | none => simp [hp, hq, Value.ofOption, Payload.canonical, Value.record, Value.ofFields]
          at hpayload
      | some q =>
        rw [hp, hq] at hpayload
        exact congrArg some (Payload.canonical_inj hpayload)
  · rintro ⟨hparticles, htimestamp, hpayload⟩
    rw [canonical, canonical, hparticles, htimestamp, hpayload]

end Atom

/-! ## What can be counted in four bytes -/

/-- The symbol of the token can be counted. -/
def TokenRef.WithinRange (t : TokenRef) : Prop :=
  (Bytes.utf8 t.symbol).length < countLimit

/-- The owners can be counted. -/
def KeySet.WithinRange (s : KeySet) : Prop :=
  s.size < countLimit

/-- What is of variable length in the coin can be counted. -/
structure Coin.WithinRange (c : Coin) : Prop where
  token : c.token.WithinRange
  owners : KeySet.WithinRange c.owners

/-- What is of variable length in the definition can be counted. -/
structure TokenDefinition.WithinRange (d : TokenDefinition) : Prop where
  token : d.token.WithinRange
  name : (Bytes.utf8 d.name).length < countLimit
  description : (Bytes.utf8 d.description).length < countLimit
  owners : KeySet.WithinRange d.owners

/-- What is of variable length in the claim can be counted. -/
structure UniqueId.WithinRange (u : UniqueId) : Prop where
  name : (Bytes.utf8 u.name).length < countLimit
  owners : KeySet.WithinRange u.owners

/-- What is of variable length in the body can be counted. -/
def Particle.WithinRange : Particle → Prop
  | .consumable c => c.WithinRange
  | .consumer c => c.WithinRange
  | .tokenDefinition d => d.WithinRange
  | .uniqueId u => u.WithinRange

/-- The data, the protectors and what each of them holds can be counted. -/
structure Payload.WithinRange (p : Payload) : Prop where
  data : p.data.length < countLimit
  protectors : p.protectors.length < countLimit
  protector : ∀ bs ∈ p.protectors, bs.length < countLimit

/-- The particles of the atom, and all that is of variable length in them and in the payload, can be
counted. Signatures do not matter. -/
structure Atom.WithinRange (a : Atom) : Prop where
  particles : a.particles.length < countLimit
  particle : ∀ p ∈ a.particles, p.WithinRange
  payload : ∀ p ∈ a.payload, p.WithinRange

theorem PublicKey.canonical_withinRange (k : PublicKey) : k.canonical.WithinRange := by
  have hlength : k.toList.length = 32 := by simp [toList]
  exact .bytes (by rw [hlength]; decide)

theorem KeySet.WithinRange.canonical {s : KeySet} (h : WithinRange s) :
    (KeySet.canonical s).WithinRange := by
  refine .list ?_ ?_
  · rw [List.length_map, ExtTreeSet.length_toList]
    exact h
  · intro v hv
    obtain ⟨k, -, rfl⟩ := List.mem_map.1 hv
    exact k.canonical_withinRange

theorem TokenRef.WithinRange.canonical {t : TokenRef} (h : t.WithinRange) :
    t.canonical.WithinRange := by
  exact record_withinRange (by simp [countLimit]) (by simp; decide)
    ⟨t.issuer.key.canonical_withinRange, .text h⟩

theorem Coin.WithinRange.canonical {c : Coin} (h : c.WithinRange) : c.canonical.WithinRange := by
  exact record_withinRange (by simp [countLimit]) (by simp; decide)
    ⟨.number, h.owners.canonical, .number, h.token.canonical⟩

theorem TokenDefinition.WithinRange.canonical {d : TokenDefinition} (h : d.WithinRange) :
    d.canonical.WithinRange := by
  exact record_withinRange (by simp [countLimit]) (by simp; decide)
    ⟨.text h.description, .number, .text h.name, h.owners.canonical, h.token.canonical⟩

theorem UniqueId.WithinRange.canonical {u : UniqueId} (h : u.WithinRange) :
    u.canonical.WithinRange := by
  exact record_withinRange (by simp [countLimit]) (by simp; decide)
    ⟨.text h.name, .number, h.owners.canonical⟩

theorem Particle.WithinRange.canonical {p : Particle} (h : p.WithinRange) :
    p.canonical.WithinRange := by
  cases p with
  | consumable c => exact Coin.WithinRange.canonical h
  | consumer c => exact Coin.WithinRange.canonical h
  | tokenDefinition d => exact TokenDefinition.WithinRange.canonical h
  | uniqueId u => exact UniqueId.WithinRange.canonical h

theorem Payload.WithinRange.canonical {p : Payload} (h : p.WithinRange) :
    p.canonical.WithinRange := by
  refine record_withinRange (by simp [countLimit]) (by simp; decide)
    ⟨.bytes h.data, .list (by simpa using h.protectors) ?_⟩
  intro v hv
  obtain ⟨bs, hbs, rfl⟩ := List.mem_map.1 hv
  exact .bytes (h.protector bs hbs)

theorem Atom.spunParticle_withinRange {p : Particle} (h : p.WithinRange) :
    (spunParticle p).WithinRange := by
  exact record_withinRange (by simp [countLimit]) (by simp; decide)
    ⟨h.canonical, .number⟩

theorem Atom.WithinRange.canonical {a : Atom} (h : a.WithinRange) : a.canonical.WithinRange := by
  refine record_withinRange (by simp [countLimit]) (by simp; decide)
    ⟨.list (by simpa using h.particles) ?_, ?_, .number⟩
  · intro v hv
    obtain ⟨p, hp, rfl⟩ := List.mem_map.1 hv
    exact spunParticle_withinRange (h.particle p hp)
  · cases hp : a.payload with
    | none => exact .none
    | some p => exact (h.payload p hp).canonical

/-! ## Names -/

/-- Within the range of counts the canonical bytes of atoms are equal exactly if their particles, in
order, their timestamps and their payloads are, whatever their signatures are; those of particles
exactly if they are the same but for creating or spending the same coin. So a coin, a definition of a
token and a claim of a name never share bytes. -/
theorem Atom.canonicalBytes_determine :
    (∀ a b : Atom, a.WithinRange → b.WithinRange →
      (a.canonicalBytes = b.canonicalBytes ↔
        a.particles = b.particles ∧ a.timestamp = b.timestamp ∧ a.payload = b.payload)) ∧
    (∀ p q : Particle, p.WithinRange → q.WithinRange →
      (p.canonical.encode = q.canonical.encode ↔ p = q ∨ p = q.reversed)) ∧
    ∀ (c : Coin) (d : TokenDefinition) (u : UniqueId),
      c.WithinRange → d.WithinRange → u.WithinRange →
      c.canonical.encode ≠ d.canonical.encode ∧ c.canonical.encode ≠ u.canonical.encode ∧
        d.canonical.encode ≠ u.canonical.encode := by
  have hbytes : ∀ {v w : Value}, v.WithinRange → w.WithinRange → (v.encode = w.encode ↔ v = w) := by
    intro v w hv hw
    constructor
    · intro h
      exact (Value.encode_append_inj (r := []) (s := []) hv hw (by rw [h])).1
    · exact congrArg Value.encode
  refine ⟨?_, ?_, ?_⟩
  · intro a b ha hb
    exact (hbytes ha.canonical hb.canonical).trans canonical_eq_iff
  · intro p q hp hq
    exact (hbytes hp.canonical hq.canonical).trans Particle.canonical_eq_iff
  · intro c d u hc hd hu
    refine ⟨?_, ?_, ?_⟩
    · intro h
      exact c.canonical_ne_definition d ((hbytes hc.canonical hd.canonical).1 h)
    · intro h
      exact c.canonical_ne_uniqueId u ((hbytes hc.canonical hu.canonical).1 h)
    · intro h
      exact d.canonical_ne_uniqueId u ((hbytes hd.canonical hu.canonical).1 h)

namespace Sample

/-- What is to be known about the token of the coin. -/
def definition : TokenDefinition := ⟨coin.token, "Rad", "", 1, coin.owners⟩

/-- A claim of a name by the owner of the coin. -/
def claim : UniqueId := ⟨"Rad", coin.owners, 1⟩

theorem owners_withinRange : KeySet.WithinRange coin.owners := by
  have hle : coin.owners.size ≤ 1 := ExtTreeSet.size_ofList_le
  exact Nat.lt_of_le_of_lt hle (by decide)

theorem coin_withinRange : coin.WithinRange :=
  ⟨show (Bytes.utf8 "XRD").length < countLimit by decide, owners_withinRange⟩

theorem definition_withinRange : definition.WithinRange :=
  ⟨coin_withinRange.token, by decide, by decide, owners_withinRange⟩

theorem claim_withinRange : claim.WithinRange :=
  ⟨by decide, owners_withinRange⟩

theorem creating_withinRange (timestamp : UInt64) :
    (Atom.creating coin timestamp).WithinRange where
  particles := (by decide : 1 < countLimit)
  particle p hp := by
    obtain rfl := List.mem_singleton.1 hp
    exact coin_withinRange
  payload p hp := by contradiction

end Sample

/-- Atoms that create one coin at different times have different bytes, creating the coin and spending
it share theirs, and neither has those of a definition or a claim. -/
theorem Atom.canonicalBytes_determine_coin :
    Sample.issue.WithinRange ∧ Sample.reissue.WithinRange ∧
      Sample.issue.canonicalBytes ≠ Sample.reissue.canonicalBytes ∧
      (Particle.consumable Sample.coin).canonical.encode =
        (Particle.consumer Sample.coin).canonical.encode ∧
      Sample.coin.canonical.encode ≠ Sample.definition.canonical.encode ∧
      Sample.definition.canonical.encode ≠ Sample.claim.canonical.encode := by
  obtain ⟨hatoms, hparticles, hkinds⟩ := canonicalBytes_determine
  have hissue : Sample.issue.WithinRange := Sample.creating_withinRange 1
  have hreissue : Sample.reissue.WithinRange := Sample.creating_withinRange 3
  refine ⟨hissue, hreissue, ?_, ?_, ?_⟩
  · intro h
    have htimestamp := ((hatoms _ _ hissue hreissue).1 h).2.1
    exact absurd htimestamp (by decide)
  · exact (hparticles (.consumable Sample.coin) (.consumer Sample.coin) Sample.coin_withinRange
      Sample.coin_withinRange).2 (.inr rfl)
  · obtain ⟨hdefinition, -, hclaim⟩ := hkinds _ _ _ Sample.coin_withinRange
      Sample.definition_withinRange Sample.claim_withinRange
    exact ⟨hdefinition, hclaim⟩

end ParticleLedger
