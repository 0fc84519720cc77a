import ParticleLedger.Proofs.Feed.Exactness
import ParticleLedger.Proofs.Transfer.Conservation

/-!
# Whether a signed transfer gets through

A transfer takes its timestamp from the clock unless it is given one, and is signed by the owners of
what it spends. A feed asks for both: for a timestamp and for the signatures.

Signing leaves the name as it is, so the signatures are always what the feed asks for. The timestamp
is a signed count of milliseconds turned into an unsigned one: a count before the epoch becomes one,
a count of zero remains zero, and zero is how the feed says that there is none.

Who signs alone can sign only for coins that nobody else owns.

Main statements: `toNat_timestampOf`, `UnsignedAtom.signAll_eq_ok_iff`,
`UnsignedAtom.exists_signAll_of_covered`, `UnsignedAtom.owner_eq_of_sign` and
`TransferBuilder.signed_validated`.
-/

namespace ParticleLedger

/-! ## The timestamp -/

/-- A clock reading is its own timestamp from the epoch on, and counts as one before it. -/
theorem toNat_timestampOf (clock : Int64) :
    ((timestampOf clock.toInt).toNat : Int) = if clock.toInt < 0 then 1 else clock.toInt := by
  have hgreatest := clock.toInt_lt
  unfold timestampOf
  by_cases hbefore : clock.toInt < 0
  · simp [hbefore]
  · rw [if_neg hbefore, if_neg hbefore, UInt64.toNat_ofNat_of_lt' (by
      show clock.toInt.toNat < 2 ^ 64
      omega)]
    omega

/-- Only the reading zero has no timestamp. -/
theorem timestampOf_eq_zero_iff (clock : Int64) : timestampOf clock.toInt = 0 ↔ clock = 0 := by
  rw [← UInt64.toNat_inj, ← Int64.toInt_inj]
  show (timestampOf clock.toInt).toNat = 0 ↔ clock.toInt = 0
  have hstamp := toNat_timestampOf clock
  split at hstamp <;> omega

namespace TransferBuilder

variable {b : TransferBuilder} {nonces : Nonces} {now : Int} {coins : List Coin} {u : UnsignedAtom}

/-- The clock decides the timestamp and nothing else. -/
theorem build_at (h : b.build nonces now coins = .ok u) (later : Int) :
    b.build nonces later coins =
      .ok ⟨{ u.atom with timestamp := b.timestamp.getD (timestampOf later) }, u.selection⟩ := by
  obtain ⟨s, hs, rfl, hown⟩ := build_eq_ok_iff.1 h
  exact build_eq_ok_iff.2 ⟨s, hs, rfl, hown⟩

theorem timestamp_of_build (h : b.build nonces now coins = .ok u) :
    u.atom.timestamp = b.timestamp.getD (timestampOf now) := by
  obtain ⟨s, -, rfl, -⟩ := build_eq_ok_iff.1 h
  rfl

/-- What is built waits for all signatures. -/
theorem signatures_of_build (h : b.build nonces now coins = .ok u) : u.atom.signatures = ∅ := by
  obtain ⟨s, -, rfl, -⟩ := build_eq_ok_iff.1 h
  rfl

end TransferBuilder

/-! ## The signatures -/

theorem KeySet.mem_single {owner key : PublicKey} : owner ∈ KeySet.single key ↔ owner = key := by
  rw [eq_comm, ← Std.compare_eq_iff_eq (a := key)]
  simp [single, ofList, eq_comm]

namespace UnsignedAtom

variable {scheme : SignatureScheme} {u : UnsignedAtom} {signers : List Seed} {atom : Atom}

theorem withSignatures_concat (signers : List Seed) (seed : Seed) :
    u.withSignatures scheme (signers ++ [seed]) =
      (u.withSignatures scheme signers).withSignature (scheme.publicKey seed)
        (scheme.signId seed u.id) := by
  simp [withSignatures]

/-- Signing adds signatures and leaves the rest. -/
theorem withSignatures_eq : u.withSignatures scheme signers =
    { u.atom with signatures := (u.withSignatures scheme signers).signatures } := by
  induction signers using List.reverseRecOn with
  | nil => rfl
  | append_singleton before seed ih =>
    rw [withSignatures_concat, ih]
    rfl

theorem id_withSignatures : (u.withSignatures scheme signers).id = u.id := by
  rw [withSignatures_eq]
  rfl

/-- Under the key of every signer stands a signature of the name that one with this key made. -/
theorem exists_signature_of_signer {owner : PublicKey}
    (h : ∃ seed ∈ signers, scheme.publicKey seed = owner) :
    ∃ seed, scheme.publicKey seed = owner ∧
      (u.withSignatures scheme signers).signatures[owner]? = some (scheme.signId seed u.id) := by
  induction signers using List.reverseRecOn with
  | nil =>
    obtain ⟨seed, hseed, -⟩ := h
    contradiction
  | append_singleton before last ih =>
    rw [withSignatures_concat]
    by_cases hlast : scheme.publicKey last = owner
    · refine ⟨last, hlast, ?_⟩
      rw [hlast]
      exact Std.ExtTreeMap.getElem?_insert_self
    · have hbefore : ∃ seed ∈ before, scheme.publicKey seed = owner := by
        obtain ⟨seed, hseed, hkey⟩ := h
        rcases List.mem_append.1 hseed with hseed | hseed
        · exact ⟨seed, hseed, hkey⟩
        · rw [List.mem_singleton.1 hseed] at hkey
          contradiction
      obtain ⟨seed, hkey, hget⟩ := ih hbefore
      refine ⟨seed, hkey, ?_⟩
      show ((u.withSignatures scheme before).signatures.insert _ _)[owner]? = _
      rw [Std.ExtTreeMap.getElem?_insert, if_neg (by simpa using hlast), hget]

/-- What is signed is the atom with the signatures, if every owner of what it spends has signed. -/
theorem signAll_eq_ok_iff : u.signAll scheme signers = .ok atom ↔
    u.withSignatures scheme signers = atom ∧ atom.verifySignatures scheme = .ok () := by
  simp only [signAll]
  cases hverify : (u.withSignatures scheme signers).verifySignatures scheme with
  | error cause =>
    simp only [bind, Except.bind]
    constructor
    · intro h
      contradiction
    · rintro ⟨rfl, h⟩
      rw [hverify] at h
      contradiction
  | ok =>
    simp only [bind, Except.bind, pure, Except.pure, Except.ok.injEq]
    constructor
    · rintro rfl
      exact ⟨rfl, hverify⟩
    · rintro ⟨rfl, -⟩
      rfl

/-- Signing succeeds if all owners of what the atom spends are among the signers. -/
theorem exists_signAll_of_covered (hsound : scheme.Sound)
    (hcovered : ∀ c ∈ u.atom.consumers, ∀ owner ∈ c.owners,
      ∃ seed ∈ signers, scheme.publicKey seed = owner) :
    ∃ atom, u.signAll scheme signers = .ok atom := by
  refine ⟨u.withSignatures scheme signers, signAll_eq_ok_iff.2 ⟨rfl, ?_⟩⟩
  have hauthorised : (u.withSignatures scheme signers).authorizationFault? scheme = none := by
    rw [Atom.authorizationFault?_eq_none_iff, id_withSignatures]
    intro c hc owner howner
    rw [withSignatures_eq] at hc
    obtain ⟨seed, rfl, hget⟩ := exists_signature_of_signer (hcovered c hc owner howner)
    exact ⟨_, hget, hsound seed u.id.digest.toList⟩
  rw [Atom.verifySignatures, hauthorised]

/-- What is signed keeps its name and its timestamp, and all that a feed can find wrong with it is
that it has no timestamp. -/
theorem validated_of_signAll (h : u.signAll scheme signers = .ok atom) :
    atom.id = u.id ∧ atom.timestamp = u.atom.timestamp ∧
      signatureValidator scheme atom =
        if u.atom.timestamp = 0 then .error (.validation (.noTimestamp u.id)) else .ok () := by
  obtain ⟨rfl, hverify⟩ := signAll_eq_ok_iff.1 h
  have hid : (u.withSignatures scheme signers).id = u.id := id_withSignatures
  have htime : (u.withSignatures scheme signers).timestamp = u.atom.timestamp := by
    rw [withSignatures_eq]
  refine ⟨hid, htime, ?_⟩
  rw [signatureValidator, htime, hid, hverify]

/-! ### One signer -/

section Sign

variable {signer : Seed} {owner : PublicKey} {c : Coin}

/-- If one has signed, the signature of everybody else is missing. -/
theorem ownerFault?_of_other (hunsigned : u.atom.signatures = ∅)
    (hother : owner ≠ scheme.publicKey signer) :
    (u.withSignatures scheme [signer]).ownerFault? scheme owner = some (.missing u.id owner) := by
  have hmissing : (u.withSignatures scheme [signer]).signatures[owner]? = none := by
    show (u.atom.signatures.insert (scheme.publicKey signer) _)[owner]? = none
    rw [Std.ExtTreeMap.getElem?_insert, if_neg (by simpa using Ne.symm hother), hunsigned]
    exact Std.ExtTreeMap.getElem?_empty
  simp only [Atom.ownerFault?, hmissing, id_withSignatures]

/-- One signature is enough only if nobody else owns what is spent. -/
theorem owner_eq_of_sign (hunsigned : u.atom.signatures = ∅) (h : u.sign scheme signer = .ok atom)
    (hc : c ∈ u.atom.consumers) (howner : owner ∈ c.owners) : owner = scheme.publicKey signer := by
  obtain ⟨rfl, hverify⟩ := signAll_eq_ok_iff.1 h
  rw [Atom.verifySignatures_eq_ok_iff, Atom.authorizationFault?_eq_none_iff] at hverify
  by_contra hother
  have hfault := ownerFault?_of_other hunsigned hother
  rw [Atom.ownerFault?_eq_none_iff.2 (hverify c (by rwa [withSignatures_eq]) owner howner)] at hfault
  contradiction

/-- With a sound scheme it is enough then. -/
theorem exists_sign_of_alone (hsound : scheme.Sound)
    (halone : ∀ c ∈ u.atom.consumers, c.owners = KeySet.single (scheme.publicKey signer)) :
    ∃ atom, u.sign scheme signer = .ok atom := by
  apply exists_signAll_of_covered hsound
  intro c hc owner howner
  rw [halone c hc, KeySet.mem_single] at howner
  exact ⟨signer, List.mem_singleton_self _, howner.symm⟩

/-- With a sound scheme, if somebody else owns a coin that is spent, it is the signature of somebody
else that is missing. -/
theorem sign_of_shared (hsound : scheme.Sound) (hunsigned : u.atom.signatures = ∅)
    (hc : c ∈ u.atom.consumers) (howner : owner ∈ c.owners)
    (hother : owner ≠ scheme.publicKey signer) :
    ∃ d ∈ u.atom.consumers, ∃ absent ∈ d.owners, absent ≠ scheme.publicKey signer ∧
      u.sign scheme signer = .error (.signature (.missing u.id absent)) := by
  cases hfault : (u.withSignatures scheme [signer]).authorizationFault? scheme with
  | none =>
    have hsigned : u.sign scheme signer = .ok (u.withSignatures scheme [signer]) :=
      signAll_eq_ok_iff.2 ⟨rfl, Atom.verifySignatures_eq_ok_iff.2 hfault⟩
    exact absurd (owner_eq_of_sign hunsigned hsigned hc howner) hother
  | some fault =>
    obtain ⟨absent, hmem, habsent⟩ := List.exists_of_findSome?_eq_some hfault
    obtain ⟨d, hd, howns⟩ := List.mem_flatMap.1 hmem
    rw [withSignatures_eq] at hd
    -- The signature of the signer is in order.
    have hne : absent ≠ scheme.publicKey signer := by
      rintro rfl
      obtain ⟨seed, hkey, hget⟩ := @exists_signature_of_signer scheme u [signer]
        (scheme.publicKey signer) ⟨signer, List.mem_singleton_self _, rfl⟩
      have hvalid : scheme.verifyId (scheme.publicKey signer) u.id (scheme.signId seed u.id) := by
        rw [← hkey]
        exact hsound seed u.id.digest.toList
      rw [Atom.ownerFault?_eq_none_iff.2 ⟨_, hget, by rwa [id_withSignatures]⟩] at habsent
      contradiction
    obtain rfl : AuthorizationFault.missing u.id absent = fault :=
      Option.some_inj.1 ((ownerFault?_of_other hunsigned hne).symm.trans habsent)
    refine ⟨d, hd, absent, Std.ExtTreeSet.mem_toList.1 howns, hne, ?_⟩
    simp only [sign, signAll, Atom.verifySignatures, hfault]
    rfl

end Sign

end UnsignedAtom

/-! ## A transfer on its way into a feed -/

namespace Sample

/-- A secret; the trusting scheme gives its owner the account. -/
def secret : Seed := Vector.replicate 32 0

theorem sound_trusting : trusting.Sound := by
  intro seed message
  rfl

/-- Whoever signs owns the coin. -/
theorem covered_paid : ∀ c ∈ (paid []).atom.consumers, ∀ owner ∈ c.owners,
    ∃ seed ∈ [secret], trusting.publicKey seed = owner := by
  intro c hc owner howner
  have hcoin : c ∈ [coin] := hc
  rw [List.mem_singleton.1 hcoin] at howner
  exact ⟨secret, List.mem_singleton_self _, (KeySet.mem_single.1 howner).symm⟩

end Sample

namespace TransferBuilder

variable {b : TransferBuilder} {nonces : Nonces} {clock : Int64} {coins : List Coin}
  {u : UnsignedAtom}

/-- A transfer without a timestamp of its own is stamped with the clock reading, or with one before
the epoch. When it is signed its name stays as it is, and the feed takes it unless the clock stood
at zero, in which case it is refused for want of a timestamp. With a sound scheme, signing succeeds
whenever all owners of what is spent sign. -/
theorem signed_validated (scheme : SignatureScheme) (hclock : b.timestamp = none)
    (h : b.build nonces clock.toInt coins = .ok u) :
    (∀ signers atom, u.signAll scheme signers = .ok atom →
      atom.id = u.id ∧
      (atom.timestamp.toNat : Int) = (if clock.toInt < 0 then 1 else clock.toInt) ∧
      signatureValidator scheme atom =
        if clock = 0 then .error (.validation (.noTimestamp u.id)) else .ok ()) ∧
    (scheme.Sound → ∀ signers : List Seed,
      (∀ c ∈ u.atom.consumers, ∀ owner ∈ c.owners,
        ∃ seed ∈ signers, scheme.publicKey seed = owner) →
      ∃ atom, u.signAll scheme signers = .ok atom) := by
  have hstamp : u.atom.timestamp = timestampOf clock.toInt := by
    rw [timestamp_of_build h, hclock, Option.getD_none]
  refine ⟨?_, fun hsound signers => UnsignedAtom.exists_signAll_of_covered hsound⟩
  intro signers atom hsigned
  obtain ⟨hid, htime, hvalid⟩ := UnsignedAtom.validated_of_signAll hsigned
  refine ⟨hid, ?_, ?_⟩
  · rw [htime, hstamp]
    exact toNat_timestampOf clock
  · rw [hvalid, hstamp]
    simp only [timestampOf_eq_zero_iff]

/-- At one second after the epoch a transfer that its sender signs is let through. -/
theorem signed_validated_after_one_second :
    (Sample.pay []).build (.countingFrom 0) (1000 : Int64).toInt [Sample.coin] =
        .ok (Sample.paid []) ∧
      ∃ atom, (Sample.paid []).signAll Sample.trusting [Sample.secret] = .ok atom ∧
        signatureValidator Sample.trusting atom = .ok () := by
  have hbuilt : (Sample.pay []).build (.countingFrom 0) (1000 : Int64).toInt [Sample.coin] =
      .ok (Sample.paid []) := Sample.build_pay rfl
  obtain ⟨hvalidated, hsigns⟩ := signed_validated Sample.trusting rfl hbuilt
  obtain ⟨atom, hsigned⟩ := hsigns Sample.sound_trusting [Sample.secret] Sample.covered_paid
  exact ⟨hbuilt, atom, hsigned, (hvalidated _ atom hsigned).2.2⟩

/-- At the epoch itself the same transfer is built and signed, and is refused. -/
theorem signed_refused_at_epoch :
    Sample.trusting.Sound ∧ ∃ u atom,
      (Sample.pay []).timestamp = none ∧
      (Sample.pay []).build (.countingFrom 0) (0 : Int64).toInt [Sample.coin] = .ok u ∧
      u.signAll Sample.trusting [Sample.secret] = .ok atom ∧
      signatureValidator Sample.trusting atom = .error (.validation (.noTimestamp atom.id)) := by
  have hbuilt : (Sample.pay []).build (.countingFrom 0) (0 : Int64).toInt [Sample.coin] =
      .ok ⟨{ (Sample.paid []).atom with timestamp := 0 }, (Sample.paid []).selection⟩ :=
    build_at (Sample.build_pay rfl) _
  obtain ⟨atom, hsigned⟩ := UnsignedAtom.exists_signAll_of_covered
    (u := ⟨{ (Sample.paid []).atom with timestamp := 0 }, (Sample.paid []).selection⟩)
    Sample.sound_trusting Sample.covered_paid
  obtain ⟨hid, -, hvalid⟩ := UnsignedAtom.validated_of_signAll hsigned
  refine ⟨Sample.sound_trusting, _, atom, rfl, hbuilt, hsigned, ?_⟩
  rw [hvalid, hid]
  rfl

end TransferBuilder

end ParticleLedger
