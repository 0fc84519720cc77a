import ParticleLedger.Proofs.Transfer.Acceptance
import ParticleLedger.Proofs.Transfer.Authorisation
import ParticleLedger.Wallet.Node

/-!
# What a wallet pays with

A wallet pays out of the coins that it lists for the address of the signer, in the order of their
names, and signs with one key. A coin is listed if this key is among its owners, but it is spent only
if all of its owners sign. So what is paid out was the signer's alone; and a payment goes through just
if nobody else owns a coin of the shortest front of the list that covers the amount. Where a coin
stands in the list is up to its name, which whoever creates it can choose.

Main statements: `Wallet.transfer_eq_ok_iff`, `Wallet.paidAlone_of_transfer`,
`WalletSession.transfer_all_or_nothing` and `Wallet.transfer_succeeds_iff`.
-/

namespace ParticleLedger

open Coin (quantityAll ShortestCover)
open Registry (everything)
open Std (ExtTreeMap ExtTreeSet)

/-- A set has one member if everything in it is this member. -/
theorem KeySet.eq_single_of_forall {s : KeySet} {key : PublicKey} (hmem : key ∈ s)
    (hall : ∀ owner ∈ s, owner = key) : s = single key := by
  apply ExtTreeSet.ext_mem
  intro owner
  rw [mem_single]
  constructor
  · exact hall owner
  · rintro rfl
    exact hmem

theorem Reconciler.coinsOf_snapshotFor (r : Reconciler) (t : TokenRef) :
    coinsOf t (r.snapshotFor t) = r.snapshotFor t := by
  simp [coinsOf, snapshotFor]

/-! ## The parts of a transfer -/

namespace Wallet

variable {scheme : SignatureScheme} {w : Wallet} {nonces : Nonces} {now : Int} {signer : Seed}
  {token : TokenRef} {recipient : KeySet} {amount : UInt64} {coins : List Coin} {atom : Atom}

/-- A transfer is what becomes of the listed coins when it is built and signed. -/
theorem transfer_of_unconsumed (h : w.unconsumed (scheme.address signer) token = .ok coins) :
    w.transfer scheme nonces now signer token recipient amount =
      (((TransferBuilder.plain token recipient amount).build nonces now coins).bind
        (·.sign scheme signer)).mapError .ledger := by
  have hcoins : w.unconsumed (scheme.address signer)
      (TransferBuilder.plain token recipient amount).token = .ok coins := h
  simp only [transfer, build, hcoins, bind, Except.bind]
  cases (TransferBuilder.plain token recipient amount).build nonces now coins <;> rfl

theorem transfer_of_unknown {cause : WalletError}
    (h : w.unconsumed (scheme.address signer) token = .error cause) :
    w.transfer scheme nonces now signer token recipient amount = .error cause := by
  have hnone : w.unconsumed (scheme.address signer)
      (TransferBuilder.plain token recipient amount).token = .error cause := h
  simp only [transfer, build, hnone, bind, Except.bind]

/-- A transfer comes about if coins are listed, it can be built from them, and the signer can sign
it. -/
theorem transfer_eq_ok_iff :
    w.transfer scheme nonces now signer token recipient amount = .ok atom ↔
      ∃ coins u, w.unconsumed (scheme.address signer) token = .ok coins ∧
        (TransferBuilder.plain token recipient amount).build nonces now coins = .ok u ∧
        u.sign scheme signer = .ok atom := by
  cases hcoins : w.unconsumed (scheme.address signer) token with
  | error cause => simp [transfer_of_unknown hcoins]
  | ok coins =>
    rw [transfer_of_unconsumed hcoins]
    cases hbuild : (TransferBuilder.plain token recipient amount).build nonces now coins with
    | error cause => simp [Except.bind, Except.mapError, hbuild]
    | ok u =>
      cases hsign : u.sign scheme signer <;> simp [Except.bind, Except.mapError, hbuild, hsign]

/-- What a wallet lists for an address is what the reconciler of all its tokens lists, and that
records what it has passed on. -/
theorem exists_index_of_unconsumed {config : Config} {events : List Event} {a : Address}
    (h : ((create scheme config).run events).unconsumed a token = .ok coins) :
    ∃ r history, ((create scheme config).run events).registry.get? (everything a) = some r ∧
      r.view.Records (everything a) history ∧ coins = r.snapshotFor token := by
  cases hr : ((create scheme config).run events).registry.get? (everything a) with
  | none =>
    simp only [unconsumed, hr] at h
    contradiction
  | some r =>
    rw [unconsumed_of_get? hr] at h
    exact ⟨r, _, rfl, records_run hr, (Except.ok.inj h).symm⟩

end Wallet

/-! ## What is paid out -/

/-- An atom that pays an amount of a token out of coins that a reconciler has, all of which belong to
the holder of one key and nobody else. -/
structure Atom.PaidAlone (atom : Atom) (scheme : SignatureScheme) (r : Reconciler) (key : PublicKey)
    (token : TokenRef) (recipient : KeySet) (amount : UInt64) : Prop where
  /-- No coin is spent twice. -/
  spends_distinct : (atom.consumers.map Coin.id).Nodup
  /-- What is spent is unspent as far as the reconciler knows. -/
  spends_unspent : ∀ c ∈ atom.consumers, r.view.unconsumed[c.id]? = some c
  spends_token : ∀ c ∈ atom.consumers, c.token = token
  spends_alone : ∀ c ∈ atom.consumers, c.owners = KeySet.single key
  /-- The amount is created first, for the recipients; then there may be change, for the payer. -/
  creates : ∃ (paid : Coin) (change : Option Coin), atom.consumables = paid :: change.toList ∧
    paid.token = token ∧ paid.quantity = amount ∧ paid.owners = recipient ∧
    ∀ c ∈ change, c.token = token ∧ c.owners = KeySet.single key
  creates_something : ∀ c ∈ atom.consumables, 0 < c.quantity
  balanced : atom.isBalanced
  signed : atom.verifySignatures scheme = .ok ()

namespace Wallet

variable {scheme : SignatureScheme} {w : Wallet} {nonces : Nonces} {now : Int} {signer : Seed}
  {token : TokenRef} {recipient : KeySet} {amount : UInt64} {coins front : List Coin} {atom : Atom}
  {r : Reconciler} {history : List Atom}

/-- If a transfer comes about the signer alone pays for it. -/
theorem paidAlone_of_transfer
    (hr : w.registry.get? (everything (scheme.address signer)) = some r)
    (hrecords : r.view.Records (everything (scheme.address signer)) history)
    (h : w.transfer scheme nonces now signer token recipient amount = .ok atom) :
    atom.PaidAlone scheme r (scheme.publicKey signer) token recipient amount := by
  obtain ⟨coins, u, hcoins, hbuild, hsign⟩ := transfer_eq_ok_iff.1 h
  rw [unconsumed_of_get? hr] at hcoins
  obtain rfl := Except.ok.inj hcoins
  obtain ⟨hpositive, -, spent, hcover, rfl⟩ :=
    (TransferBuilder.build_eq_ok_iff_of_usual rfl).1 hbuild
  obtain ⟨paid, change, hpays⟩ := TransferBuilder.pays_of_build rfl rfl hbuild
  obtain ⟨hatom, hverify⟩ := UnsignedAtom.signAll_eq_ok_iff.1 hsign
  rw [UnsignedAtom.withSignatures_eq] at hatom
  have halone : ∀ c ∈ spent, c.owners = KeySet.single (scheme.publicKey signer) := by
    intro c hc
    have howned := (hpays.stored hrecords hc).2
    apply KeySet.eq_single_of_forall (Coin.ownedBy_iff.1 howned)
    intro owner howner
    apply UnsignedAtom.owner_eq_of_sign (TransferBuilder.signatures_of_build hbuild) hsign _ howner
    rw [hpays.consumers]
    exact hc
  -- Signing has added nothing but the signature.
  have hconsumers : atom.consumers = spent := by
    rw [← hatom]
    exact hpays.consumers
  have hconsumables : atom.consumables = paid :: change.toList := by
    rw [← hatom]
    exact hpays.consumables
  have hchange : ∀ c ∈ change, c.token = token ∧
      c.owners = KeySet.single (scheme.publicKey signer) := by
    intro c hc
    obtain ⟨d, hd, howners⟩ := hpays.change_owners c hc
    rw [← howners]
    exact ⟨hpays.change_token c hc, halone d hd⟩
  exact {
    spends_distinct := by
      rw [hconsumers]
      exact hpays.nodup_spent hrecords
    spends_unspent := by
      rw [hconsumers]
      intro c hc
      exact (hpays.stored hrecords hc).1
    spends_token := by
      rw [hconsumers]
      exact hpays.spent_token
    spends_alone := by
      rw [hconsumers]
      exact halone
    creates := ⟨paid, change, hconsumables, hpays.paid_token, hpays.paid_quantity,
      hpays.paid_owners, hchange⟩
    creates_something := by
      rw [← hatom]
      intro c hc
      apply TransferBuilder.quantity_pos_of_mem_created hpositive hcover
      rw [← TransferBuilder.consumables_chosen rfl nonces now spent]
      exact hc
    balanced := by
      rw [← hatom]
      exact TransferBuilder.isBalanced_of_build rfl rfl hbuild
    signed := hverify }

/-! ## Whether a transfer comes about -/

section Front

variable (hpositive : amount ≠ 0)
  (hcover : ShortestCover amount.toNat (r.snapshotFor token) front)
include hpositive hcover

/-- What is built from the list of a reconciler spends the shortest front that covers the amount. -/
theorem exists_build_of_cover (nonces : Nonces) (now : Int) (recipient : KeySet) : ∃ u,
    (TransferBuilder.plain token recipient amount).build nonces now (r.snapshotFor token) = .ok u ∧
      u.atom.consumers = front ∧ u.atom.signatures = ∅ := by
  let b := TransferBuilder.plain token recipient amount
  rw [← r.coinsOf_snapshotFor] at hcover
  have hbuild : b.build nonces now (r.snapshotFor token) = .ok ⟨_, _⟩ :=
    (TransferBuilder.build_eq_ok_iff_of_usual rfl).2 ⟨hpositive, rfl, front, hcover, rfl⟩
  exact ⟨_, hbuild, TransferBuilder.consumers_chosen rfl nonces now front,
    TransferBuilder.signatures_of_build hbuild⟩

variable (hsound : scheme.Sound)
  (hr : w.registry.get? (everything (scheme.address signer)) = some r)
include hsound hr

/-- A front that is the signer's alone can be paid out. -/
theorem exists_transfer_of_alone
    (halone : ∀ c ∈ front, c.owners = KeySet.single (scheme.publicKey signer)) :
    ∃ atom, w.transfer scheme nonces now signer token recipient amount = .ok atom := by
  obtain ⟨u, hbuild, rfl, -⟩ := exists_build_of_cover hpositive hcover nonces now recipient
  obtain ⟨atom, hsign⟩ := UnsignedAtom.exists_sign_of_alone hsound halone
  exact ⟨atom, transfer_eq_ok_iff.2 ⟨_, u, unconsumed_of_get? hr, hbuild, hsign⟩⟩

/-- Otherwise the signature of another owner is missing. -/
theorem transfer_of_shared (hrecords : r.view.Records (everything (scheme.address signer)) history)
    (hshared : ∃ c ∈ front, c.owners ≠ KeySet.single (scheme.publicKey signer)) :
    ∃ c ∈ front, ∃ absent ∈ c.owners, absent ≠ scheme.publicKey signer ∧ ∃ id,
      w.transfer scheme nonces now signer token recipient amount =
        .error (.ledger (.signature (.missing id absent))) := by
  obtain ⟨u, hbuild, rfl, hunsigned⟩ := exists_build_of_cover hpositive hcover nonces now recipient
  obtain ⟨c, hc, hne⟩ := hshared
  have howned : c.ownedBy (scheme.address signer) :=
    (Reconciler.stored_of_mem_snapshotFor hrecords (hcover.isPrefix.subset hc)).2
  -- The signer owns the coin, so it has another owner too.
  obtain ⟨owner, howner, hother⟩ : ∃ owner ∈ c.owners, owner ≠ scheme.publicKey signer := by
    by_contra hall
    push Not at hall
    exact hne (KeySet.eq_single_of_forall (Coin.ownedBy_iff.1 howned) hall)
  obtain ⟨d, hd, absent, habsent, hforeign, hsign⟩ :=
    UnsignedAtom.sign_of_shared hsound hunsigned hc howner hother
  refine ⟨d, hd, absent, habsent, hforeign, u.id, ?_⟩
  rw [transfer_of_unconsumed (unconsumed_of_get? hr), hbuild]
  show (u.sign scheme signer).mapError _ = _
  rw [hsign]
  rfl

end Front

end Wallet

/-! ## Deliveries to a wallet -/

namespace Sample

open Wallet (Event)

/-- The account is watched, an atom arrives for it, and is handed to its reconciler. -/
def delivery (atom : Atom) : List Event :=
  [.watch address, .pump 0 address (.connected 0), .pump 0 address (.arrived atom), .forward 0]

theorem sound_scheme : scheme.Sound := by
  intro seed message
  rfl

/-- An atom that fits alone and is handed over is what the reconciler of the account records. -/
theorem exists_index_of_delivery {atom : Atom}
    (hhanded : (Wallet.create scheme .standard).collect (Wallet.handed address) (delivery atom) = [atom])
    (horderly : scope.Orderly [atom]) : ∃ r,
      ((Wallet.create scheme .standard).run (delivery atom)).registry.get? (everything address) =
        some r ∧
      r.view.Records scope [atom] := by
  have hknows : ((Wallet.create scheme .standard).run (delivery atom)).registry.Knows address :=
    Wallet.knows_run List.mem_cons_self
  obtain ⟨r, hr⟩ := Option.isSome_iff_exists.1 hknows
  have hrecords := Wallet.records_run hr
  rw [Wallet.collect_passedOn_eq, hhanded] at hrecords
  rw [show everything address = scope from rfl,
    (Reconciler.emissions_of_orderly horderly (List.nodup_singleton _)).1] at hrecords
  exact ⟨r, hr, hrecords⟩

/-- Somebody else. -/
def other : PublicKey := ⟨Vector.replicate 32 2⟩

/-- One of the token of the coin, which the account owns together with somebody else. -/
def joint : Coin := ⟨coin.token, 1, KeySet.ofList [address.key, other], 2⟩

/-- Creates the joint coin and the coin of the account. -/
def fund : Atom := .unsigned [.consumable joint, .consumable coin] 1 none

theorem relevant_joint : scope.relevant joint := by
  decide +kernel

theorem created_fund : scope.created fund = [(joint.id, joint), (coin.id, coin)] := by
  simp [Scope.created, fund, Atom.unsigned, Atom.consumables, Particle.created?, relevant_joint,
    relevant_coin]

theorem compare_joint_coin : compare joint.id coin.id = .lt :=
  Coin.compare_id_of_leadingBytes (x := 0x21) (y := 0x6c) (by decide +kernel) (by decide +kernel)
    (by decide)

theorem joint_ne_coin : joint.id ≠ coin.id := by
  intro heq
  have hless := compare_joint_coin
  rw [heq, Std.ReflOrd.compare_self] at hless
  contradiction

theorem handed_issue : (Wallet.create scheme .standard).collect (Wallet.handed address)
    (delivery issue) = [issue] := by
  decide +kernel

theorem handed_fund : (Wallet.create scheme .standard).collect (Wallet.handed address)
    (delivery fund) = [fund] := by
  decide +kernel

theorem orderly_fund : scope.Orderly [fund] := by
  rw [show [fund] = [] ++ [fund] from rfl, Scope.orderly_concat_iff]
  refine ⟨Scope.orderly_nil, ?_⟩
  constructor
  · intro k hk
    contradiction
  · intro k _
    simp
  · rw [Scope.creates, created_fund]
    simpa using joint_ne_coin

theorem snapshotFor_of_issue {r : Reconciler} (h : r.view.Records scope [issue]) :
    r.snapshotFor coin.token = [coin] := by
  have hsame : r.view.unconsumed = holding.view.unconsumed :=
    h.unconsumed_eq.trans view_holding.2.2.1.unconsumed_eq.symm
  rw [← snapshotFor_holding, Reconciler.snapshotFor, Reconciler.snapshot, hsame]
  rfl

/-- The joint coin comes first. -/
theorem snapshotFor_of_fund {r : Reconciler} (h : r.view.Records scope [fund]) :
    r.snapshotFor coin.token = [joint, coin] := by
  have hunconsumed : r.view.unconsumed =
      (ExtTreeMap.insert (∅ : ExtTreeMap ParticleId Coin) joint.id joint).insert coin.id coin := by
    rw [h.unconsumed_eq]
    show LedgerView.replay scope ∅ fund = _
    rw [LedgerView.replay, created_fund]
    rfl
  have hlisted : r.view.unconsumed.toList = [(joint.id, joint), (coin.id, coin)] := by
    apply toList_eq_of_perm
    · rw [hunconsumed]
      have hfirst := toList_insert_perm (c := joint) (k := joint.id) (m := ∅) (by simp)
      rw [ExtTreeMap.toList_eq_nil_iff.2 rfl] at hfirst
      have hsecond := toList_insert_perm (c := coin) (k := coin.id)
        (m := ExtTreeMap.insert ∅ joint.id joint) (by simpa using joint_ne_coin)
      exact (hsecond.trans (hfirst.cons _)).trans (List.Perm.swap _ _ _)
    · simpa using compare_joint_coin
  rw [Reconciler.snapshotFor, Reconciler.snapshot, hlisted]
  rfl

theorem unconsumed_issue : ((Wallet.create scheme .standard).run (delivery issue)).unconsumed
    address coin.token = .ok [coin] := by
  obtain ⟨r, hr, hrecords⟩ := exists_index_of_delivery handed_issue orderly_issue
  rw [Wallet.unconsumed_of_get? hr, snapshotFor_of_issue hrecords]

theorem unconsumed_fund : ((Wallet.create scheme .standard).run (delivery fund)).unconsumed
    address coin.token = .ok [joint, coin] := by
  obtain ⟨r, hr, hrecords⟩ := exists_index_of_delivery handed_fund orderly_fund
  rw [Wallet.unconsumed_of_get? hr, snapshotFor_of_fund hrecords]

/-- Four of ten can be sent to somebody else. -/
theorem exists_transfer_of_issue (nonces : Nonces) (now : Int) : ∃ atom,
    ((Wallet.create scheme .standard).run (delivery issue)).transfer scheme nonces now secret
      coin.token stranger 4 = .ok atom := by
  obtain ⟨r, hr, hrecords⟩ := exists_index_of_delivery handed_issue orderly_issue
  have hcover : ShortestCover (4 : UInt64).toNat (r.snapshotFor coin.token) [coin] := by
    rw [snapshotFor_of_issue hrecords]
    exact Tally.shortestCover_walk (by decide)
  apply Wallet.exists_transfer_of_alone (by decide) hcover sound_scheme hr
  intro c hc
  rw [List.mem_singleton.1 hc]
  rfl

end Sample

/-! ## Transfers of a session -/

namespace WalletSession

variable {s : WalletSession} {config : Config} {events : List Wallet.Event}

/-- **A transfer is all or nothing.** Whatever a wallet has been through, a transfer leaves it as it
is. If it fails nothing is handed over, and the session is as before. If it comes about just one atom
is handed over: out of coins that are listed for the address of the signer, each spent once and all of
them the signer's alone, it pays the amount to the recipients and gives the rest back to the signer.
All that it creates holds something, it is balanced, and it carries the signatures that it needs. -/
theorem transfer_all_or_nothing
    (hreached : s.wallet = (Wallet.create s.scheme config).run events) (nonces : Nonces) (now : Int)
    (signer : Seed) (token : TokenRef) (recipient : KeySet) (amount : UInt64) :
    let after := (s.transfer nonces now signer token recipient amount).1
    let answer := (s.transfer nonces now signer token recipient amount).2
    after.wallet = s.wallet ∧
    (∀ cause, answer = .error cause → after = s) ∧
    ∀ n, answer = .ok n → ∃ (r : Reconciler) (atom : Atom),
      after = { s with
        submissions := s.submissions.insert n (.start atom.id)
        outbox := s.outbox ++ [(n, atom)] } ∧
      s.wallet.registry.get? (everything (s.scheme.address signer)) = some r ∧
      atom.PaidAlone s.scheme r (s.scheme.publicKey signer) token recipient amount := by
  intro after answer
  cases htransfer : s.wallet.transfer s.scheme nonces now signer token recipient amount with
  | error cause =>
    have hfailed : s.transfer nonces now signer token recipient amount = (s, .error cause) := by
      rw [transfer, htransfer]
    have hafter : after = s := congrArg Prod.fst hfailed
    have hanswer : answer = .error cause := congrArg Prod.snd hfailed
    refine ⟨by rw [hafter], fun _ _ => hafter, ?_⟩
    intro n hn
    rw [hanswer] at hn
    contradiction
  | ok atom =>
    have hsent : s.transfer nonces now signer token recipient amount =
        (s.submit atom, .ok s.submissions.size) := by
      rw [transfer, htransfer]
    have hafter : after = s.submit atom := congrArg Prod.fst hsent
    have hanswer : answer = .ok s.submissions.size := congrArg Prod.snd hsent
    rw [hafter, hanswer]
    refine ⟨rfl, ?_, ?_⟩
    · intro cause hcause
      contradiction
    · intro n hn
      obtain rfl := Except.ok.inj hn
      obtain ⟨coins, u, hcoins, -⟩ := Wallet.transfer_eq_ok_iff.1 htransfer
      rw [hreached] at hcoins
      obtain ⟨r, history, hr, hrecords, -⟩ := Wallet.exists_index_of_unconsumed hcoins
      rw [← hreached] at hr
      exact ⟨r, atom, rfl, hr, Wallet.paidAlone_of_transfer hr hrecords htransfer⟩

/-- Of ten that have arrived four are sent. -/
theorem transfer_all_or_nothing_part :
    let s : WalletSession :=
      ⟨Sample.scheme, (Wallet.create Sample.scheme .standard).run (Sample.delivery Sample.issue),
        .empty, 0, ∅, []⟩
    let after := (s.transfer (.countingFrom 0) 1000 Sample.secret Sample.coin.token
      Sample.stranger 4).1
    after.wallet = s.wallet ∧ ∃ atom, after.outbox = [(0, atom)] ∧
      atom.isBalanced ∧ atom.verifySignatures Sample.scheme = .ok () ∧
      ∀ c ∈ atom.consumers, c.owners = Sample.coin.owners := by
  intro s after
  obtain ⟨atom, hatom⟩ := Sample.exists_transfer_of_issue (.countingFrom 0) 1000
  have htransfer : s.wallet.transfer s.scheme (.countingFrom 0) 1000 Sample.secret
      Sample.coin.token Sample.stranger 4 = .ok atom := hatom
  have hsent : s.transfer (.countingFrom 0) 1000 Sample.secret Sample.coin.token
      Sample.stranger 4 = (s.submit atom, .ok 0) := by
    rw [transfer, htransfer]
    rfl
  obtain ⟨hwallet, -, hdone⟩ := transfer_all_or_nothing (s := s) rfl (.countingFrom 0) 1000
    Sample.secret Sample.coin.token Sample.stranger 4
  obtain ⟨r, sent, hafter, -, hpays⟩ := hdone 0 (by rw [hsent])
  refine ⟨hwallet, sent, ?_, hpays.balanced, hpays.signed, hpays.spends_alone⟩
  show WalletSession.outbox (s.transfer _ _ _ _ _ _).1 = _
  rw [hafter]
  rfl

end WalletSession

namespace Wallet

/-- **When a wallet can pay.** A transfer of a positive amount comes about just if some coins are
listed for the address of the signer and nobody else owns any of the shortest front of them that
covers the amount. So if all listed coins of the token are the signer's alone, the funds can be spent.
If only those that are the signer's alone cover the amount, the transfer can still fail: then somebody
else owns a coin of that front too, and it is their signature that is missing. -/
theorem transfer_succeeds_iff {scheme : SignatureScheme} (hsound : scheme.Sound) (config : Config)
    (events : List Event) (nonces : Nonces) (now : Int) (signer : Seed) (token : TokenRef)
    (recipient : KeySet) {amount : UInt64} (hpositive : 0 < amount) :
    let w := (create scheme config).run events
    let own := KeySet.single (scheme.publicKey signer)
    let outcome := w.transfer scheme nonces now signer token recipient amount
    ((∃ atom, outcome = .ok atom) ↔ ∃ coins front,
      w.unconsumed (scheme.address signer) token = .ok coins ∧
      ShortestCover amount.toNat coins front ∧ ∀ c ∈ front, c.owners = own) ∧
    ∀ coins, w.unconsumed (scheme.address signer) token = .ok coins →
      amount.toNat ≤ quantityAll (coins.filter (·.owners = own)) →
      ((∀ c ∈ coins, c.owners = own) → ∃ atom, outcome = .ok atom) ∧
      ((∃ atom, outcome = .ok atom) ∨ ∃ front, ShortestCover amount.toNat coins front ∧
        ∃ c ∈ front, ∃ absent ∈ c.owners, absent ≠ scheme.publicKey signer ∧ ∃ id,
          outcome = .error (.ledger (.signature (.missing id absent)))) := by
  intro w own outcome
  have hne : amount ≠ 0 := UInt64.pos_iff_ne_zero.1 hpositive
  have hpays : ∀ coins front, w.unconsumed (scheme.address signer) token = .ok coins →
      ShortestCover amount.toNat coins front → (∀ c ∈ front, c.owners = own) →
      ∃ atom, outcome = .ok atom := by
    intro coins front hcoins hcover halone
    obtain ⟨r, history, hr, -, rfl⟩ := exists_index_of_unconsumed hcoins
    exact exists_transfer_of_alone hne hcover hsound hr halone
  have hlacks : ∀ coins front, w.unconsumed (scheme.address signer) token = .ok coins →
      ShortestCover amount.toNat coins front → ¬(∀ c ∈ front, c.owners = own) →
      ∃ c ∈ front, ∃ absent ∈ c.owners, absent ≠ scheme.publicKey signer ∧ ∃ id,
        outcome = .error (.ledger (.signature (.missing id absent))) := by
    intro coins front hcoins hcover hshared
    push Not at hshared
    obtain ⟨r, history, hr, hrecords, rfl⟩ := exists_index_of_unconsumed hcoins
    exact transfer_of_shared hne hcover hsound hr hrecords hshared
  refine ⟨⟨?_, ?_⟩, ?_⟩
  · rintro ⟨atom, hatom⟩
    obtain ⟨coins, u, hcoins, hbuild, -⟩ := transfer_eq_ok_iff.1 hatom
    obtain ⟨-, -, front, hfront, -⟩ := (TransferBuilder.build_eq_ok_iff_of_usual rfl).1 hbuild
    have hcover : ShortestCover amount.toNat coins front := by
      obtain ⟨r, history, -, -, rfl⟩ := exists_index_of_unconsumed hcoins
      rw [← r.coinsOf_snapshotFor]
      exact hfront
    refine ⟨coins, front, hcoins, hcover, ?_⟩
    by_contra hshared
    obtain ⟨_, -, _, -, -, _, hfails⟩ := hlacks coins front hcoins hcover hshared
    rw [hatom] at hfails
    contradiction
  · rintro ⟨coins, front, hcoins, hcover, halone⟩
    exact hpays coins front hcoins hcover halone
  · intro coins hcoins hfunds
    have hcovered : amount.toNat ≤ quantityAll coins :=
      hfunds.trans (Coin.quantityAll_le_of_sublist List.filter_sublist)
    have hcover := Tally.shortestCover_walk hcovered
    constructor
    · intro hall
      apply hpays coins _ hcoins hcover
      intro c hc
      exact hall c (hcover.isPrefix.subset hc)
    · by_cases halone : ∀ c ∈ (Tally.start.walk amount.toNat coins).spent, c.owners = own
      · exact .inl (hpays coins _ hcoins hcover halone)
      · exact .inr ⟨_, hcover, hlacks coins _ hcoins hcover halone⟩

/-- Four of ten can be sent. -/
theorem transfer_succeeds_iff_part : Sample.scheme.Sound ∧ (0 : UInt64) < 4 ∧
    ∃ atom, ((create Sample.scheme .standard).run (Sample.delivery Sample.issue)).transfer
      Sample.scheme (.countingFrom 0) 1000 Sample.secret Sample.coin.token Sample.stranger 4 =
        .ok atom := by
  have hfour : (0 : UInt64) < 4 := by decide
  obtain ⟨hiff, -⟩ := transfer_succeeds_iff Sample.sound_scheme .standard
    (Sample.delivery Sample.issue) (.countingFrom 0) 1000 Sample.secret Sample.coin.token
    Sample.stranger hfour
  refine ⟨Sample.sound_scheme, hfour, hiff.2 ⟨[Sample.coin], [Sample.coin],
    Sample.unconsumed_issue, Tally.shortestCover_walk (by decide), ?_⟩⟩
  intro c hc
  rw [List.mem_singleton.1 hc]
  rfl

/-- Of eleven, ten are the signer's alone. Four cannot be sent: the joint coin has the first name, and
its other owner has not signed. -/
theorem joint_coin_blocks_transfer :
    let w := (create Sample.scheme .standard).run (Sample.delivery Sample.fund)
    let own := KeySet.single (Sample.scheme.publicKey Sample.secret)
    Sample.scheme.Sound ∧ ∃ coins,
      w.unconsumed (Sample.scheme.address Sample.secret) Sample.coin.token = .ok coins ∧
      (4 : UInt64).toNat ≤ quantityAll (coins.filter (·.owners = own)) ∧
      ∀ nonces now, ∃ id absent, absent ≠ Sample.scheme.publicKey Sample.secret ∧
        w.transfer Sample.scheme nonces now Sample.secret Sample.coin.token Sample.stranger 4 =
          .error (.ledger (.signature (.missing id absent))) := by
  intro w own
  obtain ⟨r, hr, hrecords⟩ := Sample.exists_index_of_delivery Sample.handed_fund Sample.orderly_fund
  refine ⟨Sample.sound_scheme, _, Sample.unconsumed_fund, by decide +kernel, ?_⟩
  intro nonces now
  have hcover : ShortestCover (4 : UInt64).toNat (r.snapshotFor Sample.coin.token)
      [Sample.joint, Sample.coin] := by
    rw [Sample.snapshotFor_of_fund hrecords]
    exact Tally.shortestCover_walk (by decide)
  have hshared : ∃ c ∈ [Sample.joint, Sample.coin], c.owners ≠ own :=
    ⟨Sample.joint, List.mem_cons_self, by decide +kernel⟩
  obtain ⟨c, -, absent, -, hother, id, hfails⟩ :=
    transfer_of_shared (by decide) hcover Sample.sound_scheme hr hrecords hshared
  exact ⟨id, absent, hother, hfails⟩

end Wallet

end ParticleLedger
