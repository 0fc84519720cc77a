import Mathlib.Data.List.Dedup
import ParticleLedger.Proofs.Transfer.Authorisation

/-!
# What signing with a list of signers comes to

The signers of a transfer sign one after another, and a later signature under a key takes the place
of an earlier one. So the list matters only through the last signer of each key. Whether the result
is accepted, and whose signature is missing if it is not, depends on the keys alone.

Main statements: `getElem?_withSignatures` (what stands under each key), `signAll_eq` (what signing
comes to, success or failure) and `signing_exact`.
-/

namespace ParticleLedger

namespace UnsignedAtom

variable {scheme : SignatureScheme} {u : UnsignedAtom} {signers others : List Seed} {seed : Seed}
  {key owner : PublicKey}

/-! ## The signature under a key -/

/-- The last of the signers who has the key. -/
def lastSigner? (scheme : SignatureScheme) (signers : List Seed) (key : PublicKey) : Option Seed :=
  signers.reverse.find? fun seed => scheme.publicKey seed = key

theorem lastSigner?_concat (signers : List Seed) (seed : Seed) :
    lastSigner? scheme (signers ++ [seed]) key =
      if scheme.publicKey seed = key then some seed else lastSigner? scheme signers key := by
  rw [lastSigner?, List.reverse_concat, List.find?_cons]
  by_cases hkey : scheme.publicKey seed = key
  · simp [hkey]
  · simp [hkey, lastSigner?]

theorem lastSigner?_eq_none_iff :
    lastSigner? scheme signers key = none ↔ key ∉ signers.map scheme.publicKey := by
  simp [lastSigner?]

theorem mem_of_lastSigner? (h : lastSigner? scheme signers key = some seed) :
    seed ∈ signers ∧ scheme.publicKey seed = key :=
  ⟨List.mem_reverse.1 (List.mem_of_find?_eq_some h), by simpa using List.find?_some h⟩

theorem exists_lastSigner? (h : key ∈ signers.map scheme.publicKey) :
    ∃ seed, lastSigner? scheme signers key = some seed := by
  rw [← Option.ne_none_iff_exists', Ne, lastSigner?_eq_none_iff]
  exact not_not_intro h

/-- Under a key stands what its last signer made, or else what stood there before. -/
theorem getElem?_withSignatures : (u.withSignatures scheme signers).signatures[key]? =
    ((lastSigner? scheme signers key).map fun seed => scheme.signId seed u.id).or
      u.atom.signatures[key]? := by
  induction signers using List.reverseRecOn with
  | nil => rfl
  | append_singleton before last ih =>
    rw [withSignatures_concat, lastSigner?_concat]
    show ((u.withSignatures scheme before).signatures.insert _ _)[key]? = _
    rw [Std.ExtTreeMap.getElem?_insert]
    by_cases hkey : scheme.publicKey last = key
    · simp [hkey]
    · simp [hkey, ih]

/-- An atom that nobody has signed is signed under the keys of the signers. -/
theorem mem_withSignatures_iff (hunsigned : u.atom.signatures = ∅) :
    key ∈ (u.withSignatures scheme signers).signatures ↔ key ∈ signers.map scheme.publicKey := by
  rw [Std.ExtTreeMap.mem_iff_isSome_getElem?, getElem?_withSignatures, hunsigned,
    Std.ExtTreeMap.getElem?_empty, Option.or_none, Option.isSome_map, ← Option.ne_none_iff_isSome,
    Ne, lastSigner?_eq_none_iff, not_not]

/-- It holds one signature for each different key. -/
theorem size_withSignatures (hunsigned : u.atom.signatures = ∅) :
    (u.withSignatures scheme signers).signatures.size =
      (signers.map scheme.publicKey).dedup.length := by
  rw [← Std.ExtTreeMap.length_keys]
  apply List.Perm.length_eq
  rw [List.perm_ext_iff_of_nodup Std.ExtTreeMap.nodup_keys (List.nodup_dedup _)]
  intro key
  rw [Std.ExtTreeMap.mem_keys, mem_withSignatures_iff hunsigned, List.mem_dedup]

/-! ## Success and failure -/

/-- The owners of what the atom spends, in the order in which their signatures are looked for. -/
def owners (u : UnsignedAtom) : List PublicKey :=
  u.atom.consumers.flatMap (·.owners.toList)

theorem mem_owners : owner ∈ u.owners ↔ ∃ c ∈ u.atom.consumers, owner ∈ c.owners := by
  simp [owners]

/-- The first owner who is not among the signers. -/
def absent? (scheme : SignatureScheme) (u : UnsignedAtom) (signers : List Seed) :
    Option PublicKey :=
  u.owners.find? fun owner => owner ∉ signers.map scheme.publicKey

theorem absent?_eq_none_iff : u.absent? scheme signers = none ↔
    ∀ c ∈ u.atom.consumers, ∀ owner ∈ c.owners, ∃ seed ∈ signers, scheme.publicKey seed = owner := by
  simp only [absent?, List.find?_eq_none, decide_not, Bool.not_eq_true', decide_eq_false_iff_not,
    not_not, List.mem_map, mem_owners]
  constructor
  · intro h c hc owner howner
    exact h owner ⟨c, hc, howner⟩
  · rintro h owner ⟨c, hc, howner⟩
    exact h c hc owner howner

/-- With a sound scheme, all that can be wrong with an owner is not to be among the signers. -/
theorem ownerFault?_withSignatures (hsound : scheme.Sound) (hunsigned : u.atom.signatures = ∅) :
    (u.withSignatures scheme signers).ownerFault? scheme owner =
      if owner ∈ signers.map scheme.publicKey then none else some (.missing u.id owner) := by
  by_cases howner : owner ∈ signers.map scheme.publicKey
  · rw [if_pos howner, Atom.ownerFault?_eq_none_iff, getElem?_withSignatures, id_withSignatures]
    obtain ⟨seed, hseed⟩ := exists_lastSigner? howner
    obtain ⟨-, rfl⟩ := mem_of_lastSigner? hseed
    exact ⟨scheme.signId seed u.id, by rw [hseed]; rfl, hsound seed u.id.digest.toList⟩
  · have hmissing : (u.withSignatures scheme signers).signatures[owner]? = none := by
      rw [getElem?_withSignatures, lastSigner?_eq_none_iff.2 howner, hunsigned]
      exact Std.ExtTreeMap.getElem?_empty
    rw [if_neg howner, Atom.ownerFault?, hmissing, id_withSignatures]

/-- What is wrong with the signatures is that the first absent owner has not signed. -/
theorem authorizationFault?_withSignatures (hsound : scheme.Sound)
    (hunsigned : u.atom.signatures = ∅) :
    (u.withSignatures scheme signers).authorizationFault? scheme =
      (u.absent? scheme signers).map fun owner => .missing u.id owner := by
  have hfault : (u.withSignatures scheme signers).ownerFault? scheme =
      Option.map (fun owner => .missing u.id owner) ∘
        Option.guard fun owner => owner ∉ signers.map scheme.publicKey := by
    funext owner
    rw [ownerFault?_withSignatures hsound hunsigned, Function.comp_apply, Option.guard]
    by_cases howner : owner ∈ signers.map scheme.publicKey <;> simp [howner]
  have howners : (u.withSignatures scheme signers).consumers = u.atom.consumers := by
    rw [withSignatures_eq]
    rfl
  rw [Atom.authorizationFault?, howners, hfault, ← List.map_findSome?, List.findSome?_guard]
  rfl

/-- Signing gives the atom with all signatures, unless an owner is absent, and then names the first
one who is. -/
theorem signAll_eq (hsound : scheme.Sound) (hunsigned : u.atom.signatures = ∅) :
    u.signAll scheme signers =
      match u.absent? scheme signers with
      | none => .ok (u.withSignatures scheme signers)
      | some owner => .error (.signature (.missing u.id owner)) := by
  simp only [signAll, Atom.verifySignatures, authorizationFault?_withSignatures hsound hunsigned]
  cases u.absent? scheme signers <;> rfl

theorem exists_signAll_iff (hsound : scheme.Sound) (hunsigned : u.atom.signatures = ∅) :
    (∃ atom, u.signAll scheme signers = .ok atom) ↔ u.absent? scheme signers = none := by
  rw [signAll_eq hsound hunsigned]
  cases u.absent? scheme signers <;> simp

/-! ## Other lists of signers -/

/-- Who is absent does not depend on how often and in which order the signers are listed. -/
theorem absent?_congr (h : ∀ seed, seed ∈ others ↔ seed ∈ signers) :
    u.absent? scheme others = u.absent? scheme signers := by
  have hkeys : ∀ owner,
      owner ∈ others.map scheme.publicKey ↔ owner ∈ signers.map scheme.publicKey := by
    simp [h]
  simp only [absent?, hkeys]

/-- Further signers do not make an owner absent. -/
theorem absent?_of_subset (hmore : signers ⊆ others) (h : u.absent? scheme signers = none) :
    u.absent? scheme others = none := by
  rw [absent?_eq_none_iff] at h ⊢
  intro c hc owner howner
  obtain ⟨seed, hseed, hkey⟩ := h c hc owner howner
  exact ⟨seed, hmore hseed, hkey⟩

/-- If signers with one key sign alike, the signatures do not depend on how often and in which order
the signers are listed. -/
theorem withSignatures_congr (h : ∀ seed, seed ∈ others ↔ seed ∈ signers)
    (halike : ∀ p ∈ signers, ∀ q ∈ signers, scheme.publicKey p = scheme.publicKey q →
      scheme.signId p u.id = scheme.signId q u.id) :
    u.withSignatures scheme others = u.withSignatures scheme signers := by
  have hsame : (u.withSignatures scheme others).signatures =
      (u.withSignatures scheme signers).signatures := by
    apply Std.ExtTreeMap.ext_getElem?
    intro key
    rw [getElem?_withSignatures, getElem?_withSignatures]
    congr 1
    by_cases hkey : key ∈ signers.map scheme.publicKey
    · have hkey' : key ∈ others.map scheme.publicKey := by simpa [h] using hkey
      obtain ⟨p, hp⟩ := exists_lastSigner? hkey'
      obtain ⟨q, hq⟩ := exists_lastSigner? hkey
      obtain ⟨hpmem, hpkey⟩ := mem_of_lastSigner? hp
      obtain ⟨hqmem, hqkey⟩ := mem_of_lastSigner? hq
      rw [hp, hq, Option.map_some, Option.map_some,
        halike p ((h p).1 hpmem) q hqmem (hpkey.trans hqkey.symm)]
    · have hkey' : key ∉ others.map scheme.publicKey := by simpa [h] using hkey
      rw [lastSigner?_eq_none_iff.2 hkey, lastSigner?_eq_none_iff.2 hkey']
  rw [withSignatures_eq, hsame, ← withSignatures_eq]

/-- **Signing succeeds exactly when every owner signs.** Let the scheme be sound and let nobody have
signed yet, as is so of whatever is built. The result has the name, the particles, the timestamp and
the payload of the atom, and one signature for each different key in the list, the one that the last
signer with this key made. How often and in which order the signers are listed makes no difference
to whether signing succeeds and to the error if it does not; nor does it to the signed atom, as long
as the signatures of listed signers who share a key are the same. Further signers do no harm. -/
theorem signing_exact (scheme : SignatureScheme) (u : UnsignedAtom) (signers : List Seed)
    (hsound : scheme.Sound) (hunsigned : u.atom.signatures = ∅) :
    ((∃ atom, u.signAll scheme signers = .ok atom) ↔ ∀ c ∈ u.atom.consumers, ∀ owner ∈ c.owners,
      ∃ seed ∈ signers, scheme.publicKey seed = owner) ∧
    (∀ atom, u.signAll scheme signers = .ok atom →
      atom.id = u.id ∧ atom.particles = u.atom.particles ∧
      atom.timestamp = u.atom.timestamp ∧ atom.payload = u.atom.payload ∧
      (∀ key, key ∈ atom.signatures ↔ ∃ seed ∈ signers, scheme.publicKey seed = key) ∧
      atom.signatures.size = (signers.map scheme.publicKey).dedup.length ∧
      ∀ key, atom.signatures[key]? =
        (lastSigner? scheme signers key).map fun seed => scheme.signId seed u.id) ∧
    (∀ others : List Seed, (∀ seed, seed ∈ others ↔ seed ∈ signers) →
      ((∃ atom, u.signAll scheme others = .ok atom) ↔ ∃ atom, u.signAll scheme signers = .ok atom) ∧
      (∀ e, u.signAll scheme others = .error e ↔ u.signAll scheme signers = .error e) ∧
      ((∀ p ∈ signers, ∀ q ∈ signers, scheme.publicKey p = scheme.publicKey q →
          scheme.signId p u.id = scheme.signId q u.id) →
        u.signAll scheme others = u.signAll scheme signers)) ∧
    ∀ more : List Seed, signers ⊆ more → (∃ atom, u.signAll scheme signers = .ok atom) →
      ∃ atom, u.signAll scheme more = .ok atom := by
  refine ⟨?_, ?_, ?_, ?_⟩
  · rw [exists_signAll_iff hsound hunsigned, absent?_eq_none_iff]
  · intro atom hsigned
    obtain ⟨rfl, -⟩ := signAll_eq_ok_iff.1 hsigned
    refine ⟨id_withSignatures, ?_, ?_, ?_, ?_, size_withSignatures hunsigned, ?_⟩
    · rw [withSignatures_eq]
    · rw [withSignatures_eq]
    · rw [withSignatures_eq]
    · intro key
      rw [mem_withSignatures_iff hunsigned, List.mem_map]
    · intro key
      rw [getElem?_withSignatures, hunsigned, Std.ExtTreeMap.getElem?_empty, Option.or_none]
  · intro others hsame
    have habsent : u.absent? scheme others = u.absent? scheme signers := absent?_congr hsame
    refine ⟨?_, ?_, ?_⟩
    · rw [exists_signAll_iff hsound hunsigned, exists_signAll_iff hsound hunsigned, habsent]
    · intro e
      rw [signAll_eq hsound hunsigned, signAll_eq hsound hunsigned, habsent]
      cases u.absent? scheme signers <;> simp
    · intro halike
      rw [signAll_eq hsound hunsigned, signAll_eq hsound hunsigned, habsent,
        withSignatures_congr hsame halike]
  · intro more hmore hsigned
    rw [exists_signAll_iff hsound hunsigned] at hsigned ⊢
    exact absent?_of_subset hmore hsigned

end UnsignedAtom

/-! ## A coin with two owners -/

namespace Sample

/-- The secret of the account, in a scheme whose keys are the secrets. -/
def accountSecret : Seed := Vector.replicate 32 1

/-- The secret of somebody else. -/
def partnerSecret : Seed := Vector.replicate 32 2

/-- A scheme whose keys are the secrets, and in which one signs by writing the key twice. -/
def plainKeys : SignatureScheme where
  publicKey seed := ⟨seed⟩
  sign seed _ := ⟨seed ++ seed⟩
  fault? key _ s := if s.bytes = key.bytes ++ key.bytes then none else some .mismatch

/-- Five of another token, which the account owns together with somebody else. -/
def pooled : Coin :=
  { gold with
    owners := .ofList [plainKeys.publicKey accountSecret, plainKeys.publicKey partnerSecret] }

/-- A transfer of the coin that spends the other one as well. -/
def jointPayment : UnsignedAtom := paid [.consumer pooled]

theorem build_jointPayment :
    (pay [.consumer pooled]).build (.countingFrom 0) 1000 [coin] = .ok jointPayment :=
  build_pay (by decide)

theorem sound_plainKeys : plainKeys.Sound := by
  intro seed message
  simp [SignatureScheme.verify, plainKeys]

theorem plainKeys_inj {p q : Seed} (h : plainKeys.publicKey p = plainKeys.publicKey q) : p = q :=
  congrArg PublicKey.bytes h

theorem mem_pooled {owner : PublicKey} : owner ∈ pooled.owners ↔
    owner = plainKeys.publicKey accountSecret ∨ owner = plainKeys.publicKey partnerSecret := by
  simp [pooled, KeySet.ofList]

/-- The two of them own all that is spent. -/
theorem owned_jointPayment : ∀ c ∈ jointPayment.atom.consumers, ∀ owner ∈ c.owners,
    ∃ seed ∈ [accountSecret, partnerSecret], plainKeys.publicKey seed = owner := by
  intro c hc owner howner
  have hcoins : c ∈ [coin, pooled] := hc
  rcases List.mem_pair.1 hcoins with rfl | rfl
  · rw [coin, KeySet.mem_single] at howner
    exact ⟨accountSecret, by simp, howner.symm⟩
  · rcases mem_pooled.1 howner with rfl | rfl
    · exact ⟨accountSecret, by simp, rfl⟩
    · exact ⟨partnerSecret, by simp, rfl⟩

end Sample

namespace UnsignedAtom

/-- A transfer spends a coin of the account and one that has a second owner. It is signed once both
have signed, whoever begins and however often, and not by the account alone. -/
theorem signing_exact_joint :
    (Sample.pay [.consumer Sample.pooled]).build (.countingFrom 0) 1000 [Sample.coin] =
        .ok Sample.jointPayment ∧
      Sample.plainKeys.Sound ∧ Sample.jointPayment.atom.signatures = ∅ ∧
      (∃ atom, Sample.jointPayment.signAll Sample.plainKeys
          [Sample.accountSecret, Sample.partnerSecret] = .ok atom ∧ atom.signatures.size = 2 ∧
        Sample.jointPayment.signAll Sample.plainKeys
          [Sample.partnerSecret, Sample.accountSecret, Sample.partnerSecret] = .ok atom) ∧
      ¬∃ atom, Sample.jointPayment.signAll Sample.plainKeys [Sample.accountSecret] = .ok atom := by
  have hunsigned : Sample.jointPayment.atom.signatures = ∅ := rfl
  refine ⟨Sample.build_jointPayment, Sample.sound_plainKeys, hunsigned, ?_, ?_⟩
  · obtain ⟨hsucceeds, hresult, hlists, -⟩ := signing_exact Sample.plainKeys Sample.jointPayment
      [Sample.accountSecret, Sample.partnerSecret] Sample.sound_plainKeys hunsigned
    obtain ⟨atom, hsigned⟩ := hsucceeds.2 Sample.owned_jointPayment
    obtain ⟨-, -, -, -, -, hsize, -⟩ := hresult atom hsigned
    obtain ⟨-, -, hsame⟩ := hlists
      [Sample.partnerSecret, Sample.accountSecret, Sample.partnerSecret] (by simp [or_comm])
    refine ⟨atom, hsigned, hsize.trans (by decide), ?_⟩
    rw [hsame fun p _ q _ hkey => by rw [Sample.plainKeys_inj hkey], hsigned]
  · obtain ⟨hsucceeds, -⟩ := signing_exact Sample.plainKeys Sample.jointPayment
      [Sample.accountSecret] Sample.sound_plainKeys hunsigned
    rw [hsucceeds]
    intro hall
    have hspent : Sample.pooled ∈ Sample.jointPayment.atom.consumers := by
      show Sample.pooled ∈ [Sample.coin, Sample.pooled]
      simp
    obtain ⟨seed, hseed, hkey⟩ := hall _ hspent (Sample.plainKeys.publicKey Sample.partnerSecret)
      (Sample.mem_pooled.2 (.inr rfl))
    rw [List.mem_singleton.1 hseed] at hkey
    exact absurd (Sample.plainKeys_inj hkey) (by decide)

end UnsignedAtom

end ParticleLedger
