import ParticleLedger.Proofs.Reconciler.Containment
import ParticleLedger.Proofs.Reconciler.Distribution
import ParticleLedger.Proofs.Reconciler.Registry

/-!
# What subscribers receive

A reconciler is used by some that offer atoms and by some that subscribe, receive and leave again,
in any order. A subscriber receives what was passed on since it subscribed, with nothing left out,
nothing twice and nothing in another order. It makes no difference that one of the offers failed, nor
what the other subscribers do, some of whom may be gone while messages are still sent to them.

Main statements: `alone_run` and `collect_passes` (the reconciler does what the offers alone make it
do), `takes_append_waiting` and `collect_takes` (what a subscriber has received and what waits for
it are what was passed on), `SameFor.run_filter` and `SameFor.collect_filter` (the calls of the
others make no difference) and `subscriber_receives`.
-/

namespace ParticleLedger

/-- An offer that succeeds answers with what it has passed on. -/
theorem Accepted.emitted_eq_of_result {x : Accepted} {atoms : List Atom}
    (h : x.result = .ok atoms) : x.emitted = atoms := by
  unfold result at h
  cases herror : x.error with
  | none => simpa [herror] using h
  | some cause => simp [herror] at h

/-! ## Calls -/

/-- A reconciler, and the conduits to its subscribers. -/
structure SubscribedReconciler where
  reconciler : Reconciler
  distributor : Distributor Atom

namespace SubscribedReconciler

/-- What is done with a reconciler. -/
inductive Call where
  | subscribe
  | leave (subscriber : Nat)
  | receive (subscriber : Nat)
  | offer (a : Atom)

namespace Call

/-- The atom that the call offers. -/
def offered? : Call → Option Atom
  | offer a => some a
  | _ => none

/-- Whether a subscriber has a part in the call: it makes the call, or may be sent something. -/
def concerns (id : Nat) : Call → Bool
  | subscribe => false
  | leave subscriber => subscriber = id
  | receive subscriber => subscriber = id
  | offer _ => true

end Call

/-- The atoms that some calls offer, in order. -/
def offers (calls : List Call) : List Atom :=
  calls.filterMap Call.offered?

/-- A reconciler that has seen nothing. -/
def fresh (scope : Scope) : SubscribedReconciler :=
  ⟨.fresh scope, .empty⟩

/-- The reconciler and the conduits after a call. -/
def after (m : SubscribedReconciler) : Call → SubscribedReconciler
  | .subscribe => ⟨m.reconciler.subscribe, m.distributor.subscribe⟩
  | .leave id => ⟨m.reconciler.unsubscribe id, m.distributor.leave id⟩
  | .receive id =>
    ⟨{ m.reconciler with subscribers := m.reconciler.subscribers.take id 1 },
      m.distributor.receive id⟩
  | .offer a =>
    -- What was applied is sent whether or not the offer fails.
    ⟨(m.reconciler.accept a).reconciler, m.distributor.publish (m.reconciler.accept a).emitted⟩

/-- The reconciler and the conduits after some calls, one after another. -/
def run (m : SubscribedReconciler) (calls : List Call) : SubscribedReconciler :=
  calls.foldl after m

/-- All that some calls show on the way of what `out` looks at. -/
def collect {β : Type} (out : SubscribedReconciler → Call → List β) (m : SubscribedReconciler) :
    List Call → List β
  | [] => []
  | c :: rest => out m c ++ (m.after c).collect out rest

/-- The atoms that a call passes on. -/
def passes (m : SubscribedReconciler) : Call → List Atom
  | .offer a => (m.reconciler.accept a).emitted
  | _ => []

/-- The atoms that a subscriber receives with a call. -/
def takes (id : Nat) (m : SubscribedReconciler) : Call → List Atom
  | .receive taker => if taker = id then ((m.distributor.waiting? id).getD []).take 1 else []
  | _ => []

/-- What is answered to a call that offers an atom. -/
def answers (m : SubscribedReconciler) : Call → List (Except LedgerError (List Atom))
  | .offer a => [(m.reconciler.accept a).result]
  | _ => []

variable {m n : SubscribedReconciler} {c : Call} {calls : List Call} {id : Nat}

theorem run_append (m : SubscribedReconciler) (first later : List Call) :
    m.run (first ++ later) = (m.run first).run later := by
  simp [run]

/-! ## The conduits and the inboxes -/

/-- What subscribers find in the conduits and in the inboxes stays the same. -/
theorem shows_after (h : m.distributor.Shows m.reconciler.subscribers) (c : Call) :
    (m.after c).distributor.Shows (m.after c).reconciler.subscribers := by
  cases c with
  | subscribe => exact h.subscribe
  | leave gone => exact h.leave gone
  | receive taker => exact h.receive taker
  | offer a =>
    rw [after]
    cases hrun : m.reconciler.halted with
    | none =>
      rw [Reconciler.accept_of_running hrun]
      exact h.publish _
    | some reason =>
      rw [Reconciler.accept_of_halted hrun]
      exact h

theorem shows_run (h : m.distributor.Shows m.reconciler.subscribers) (calls : List Call) :
    (m.run calls).distributor.Shows (m.run calls).reconciler.subscribers := by
  induction calls generalizing m with
  | nil => exact h
  | cons c rest ih => exact ih (shows_after h c)

/-! ## What was passed on -/

/-- But for its subscribers, a call does to the reconciler what the atom does that it offers. -/
theorem alone_after (m : SubscribedReconciler) (c : Call) :
    (m.after c).reconciler.alone = (m.reconciler.acceptAll c.offered?.toList).alone := by
  cases c <;> rfl

/-- But for its subscribers, calls do to the reconciler what the atoms do that they offer. -/
theorem alone_run (m : SubscribedReconciler) (calls : List Call) :
    (m.run calls).reconciler.alone = (m.reconciler.acceptAll (offers calls)).alone := by
  induction calls generalizing m with
  | nil => rfl
  | cons c rest ih =>
    calc ((m.after c).run rest).reconciler.alone
        = ((m.after c).reconciler.acceptAll (offers rest)).alone := ih _
      _ = ((m.reconciler.acceptAll c.offered?.toList).acceptAll (offers rest)).alone := by
        rw [Reconciler.alone_acceptAll, alone_after, ← Reconciler.alone_acceptAll]
      _ = (m.reconciler.acceptAll (offers (c :: rest))).alone := by cases c <;> rfl

/-- What the reconciler passes on after some calls does not depend on its subscribers either. -/
theorem emissions_run (m : SubscribedReconciler) (calls : List Call) (atoms : List Atom) :
    (m.run calls).reconciler.emissions atoms =
      (m.reconciler.acceptAll (offers calls)).emissions atoms := by
  rw [← Reconciler.emissions_alone, alone_run, Reconciler.emissions_alone]

/-- What is passed on of the atoms that some calls offer, and then of those that later ones do. -/
theorem emissions_offers_append (m : SubscribedReconciler) (first later : List Call) :
    m.reconciler.emissions (offers (first ++ later)) = m.reconciler.emissions (offers first) ++
      (m.run first).reconciler.emissions (offers later) := by
  rw [emissions_run, offers, List.filterMap_append, Reconciler.emissions_append]
  rfl

/-- What calls pass on is what the reconciler passes on of the atoms that they offer. -/
theorem collect_passes (m : SubscribedReconciler) (calls : List Call) :
    m.collect passes calls = m.reconciler.emissions (offers calls) := by
  induction calls generalizing m with
  | nil => rfl
  | cons c rest ih =>
    have hfirst : m.passes c = m.reconciler.emissions (offers [c]) := by
      cases c with
      | offer a => exact (List.append_nil _).symm
      | _ => rfl
    rw [collect, ih, hfirst]
    exact (emissions_offers_append m [c] rest).symm

/-- The view records what the reconciler has passed on of the atoms that were offered. -/
theorem records_run (scope : Scope) (calls : List Call) :
    ((fresh scope).run calls).reconciler.view.Records scope
      ((Reconciler.fresh scope).emissions (offers calls)) := by
  have hview := congrArg Reconciler.view (alone_run (fresh scope) calls)
  have hrecords := Reconciler.records_acceptAll scope (offers calls)
  rwa [show ((Reconciler.fresh scope).acceptAll (offers calls)).view = _ from hview.symm]
    at hrecords

/-- What an offer passes on, all subscribers find behind what waits for them already. -/
theorem waiting?_offer (m : SubscribedReconciler) (a : Atom) (id : Nat) :
    (m.after (.offer a)).distributor.waiting? id =
      (m.distributor.waiting? id).map (· ++ (m.reconciler.accept a).emitted) :=
  Distributor.waiting?_publish _ _ _

/-- As long as a subscriber does not leave, what it receives with a call and what waits for it then
are what waited before and what the call passes on. -/
theorem takes_append_waiting {waiting : List Atom} (h : m.distributor.waiting? id = some waiting)
    (hstays : c ≠ .leave id) : ∃ left, (m.after c).distributor.waiting? id = some left ∧
      m.takes id c ++ left = waiting ++ m.passes c := by
  cases c with
  | subscribe =>
    have hold : id ≠ m.distributor.opened := Nat.ne_of_lt (Distributor.lt_opened_of_waiting? h)
    refine ⟨waiting, ?_, by simp [takes, passes]⟩
    rw [after, Distributor.waiting?_subscribe, if_neg hold, h]
  | leave gone =>
    have hid : id ≠ gone := fun heq => hstays (heq ▸ rfl)
    refine ⟨waiting, ?_, by simp [takes, passes]⟩
    rw [after, Distributor.waiting?_leave, if_neg hid, h]
  | receive taker =>
    rw [after, Distributor.waiting?_receive, h]
    by_cases hid : id = taker
    · subst hid
      refine ⟨waiting.drop 1, by simp, ?_⟩
      rw [takes, if_pos rfl, h, Option.getD_some, List.take_append_drop]
      exact (List.append_nil waiting).symm
    · exact ⟨waiting, by simp [hid], by simp [takes, passes, Ne.symm hid]⟩
  | offer a =>
    refine ⟨waiting ++ (m.reconciler.accept a).emitted, ?_, by simp [takes, passes]⟩
    rw [waiting?_offer, h, Option.map_some]

/-- What a subscriber that does not leave has received, and then what waits for it, are what waited
for it at first and what was passed on since. -/
theorem collect_takes {waiting : List Atom} (h : m.distributor.waiting? id = some waiting)
    (hstays : .leave id ∉ calls) : ∃ left, (m.run calls).distributor.waiting? id = some left ∧
      m.collect (takes id) calls ++ left = waiting ++ m.collect passes calls := by
  induction calls generalizing m waiting with
  | nil => exact ⟨waiting, h, by simp [collect]⟩
  | cons c rest ih =>
    obtain ⟨hc, hrest⟩ := not_or.1 (mt List.mem_cons.2 hstays)
    obtain ⟨between, hbetween, hfirst⟩ := takes_append_waiting h (Ne.symm hc)
    obtain ⟨left, hleft, hlater⟩ := ih hbetween hrest
    refine ⟨left, hleft, ?_⟩
    calc m.collect (takes id) (c :: rest) ++ left
        = m.takes id c ++ ((m.after c).collect (takes id) rest ++ left) := List.append_assoc _ _ _
      _ = (m.takes id c ++ between) ++ (m.after c).collect passes rest := by
        rw [hlater, List.append_assoc]
      _ = waiting ++ m.collect passes (c :: rest) := by rw [hfirst, List.append_assoc]; rfl

/-! ## The other subscribers -/

/-- Two states that a subscriber cannot tell apart: it finds the same in its conduit, and but for
its subscribers the reconciler is the same. -/
structure SameFor (id : Nat) (m n : SubscribedReconciler) : Prop where
  alone_eq : m.reconciler.alone = n.reconciler.alone
  waiting?_eq : m.distributor.waiting? id = n.distributor.waiting? id
  lt_opened : id < m.distributor.opened
  lt_opened' : id < n.distributor.opened

namespace SameFor

theorem refl (h : id < m.distributor.opened) : m.SameFor id m := ⟨rfl, rfl, h, h⟩

theorem trans {l : SubscribedReconciler} (h : l.SameFor id m) (h' : m.SameFor id n) :
    l.SameFor id n :=
  ⟨h.alone_eq.trans h'.alone_eq, h.waiting?_eq.trans h'.waiting?_eq, h.lt_opened, h'.lt_opened'⟩

/-- An offer does the same. -/
theorem accept_eq (h : m.SameFor id n) (a : Atom) :
    (m.reconciler.accept a).emitted = (n.reconciler.accept a).emitted ∧
    (m.reconciler.accept a).result = (n.reconciler.accept a).result ∧
    (m.reconciler.accept a).reconciler.alone = (n.reconciler.accept a).reconciler.alone := by
  have hsame := congrArg (Reconciler.accept · a) h.alone_eq
  simp only [Reconciler.accept_alone, Accepted.mk.injEq] at hsame
  obtain ⟨halone, hemitted, herror⟩ := hsame
  exact ⟨hemitted, by rw [Accepted.result, Accepted.result, hemitted, herror], halone⟩

theorem answers_eq (h : m.SameFor id n) (c : Call) : m.answers c = n.answers c := by
  cases c with
  | offer a => exact congrArg ([·]) (h.accept_eq a).2.1
  | _ => rfl

theorem takes_eq (h : m.SameFor id n) (c : Call) : m.takes id c = n.takes id c := by
  cases c with
  | receive taker => rw [takes, takes, h.waiting?_eq]
  | _ => rfl

end SameFor

theorem opened_le_after (m : SubscribedReconciler) (c : Call) :
    m.distributor.opened ≤ (m.after c).distributor.opened := by
  cases c with
  | subscribe => exact Nat.le_succ _
  | offer a => exact (Distributor.opened_publish _ _).ge
  | _ => exact Nat.le_refl _

/-- A call that does not concern a subscriber changes nothing for it. -/
theorem sameFor_of_not_concerns (hid : id < m.distributor.opened) (hc : c.concerns id = false) :
    (m.after c).SameFor id m := by
  refine ⟨?_, ?_, hid.trans_le (opened_le_after m c), hid⟩
  · cases c with
    | offer a => contradiction
    | _ => rfl
  · cases c with
    | subscribe => rw [after, Distributor.waiting?_subscribe, if_neg hid.ne]
    | leave gone =>
      have hne : id ≠ gone := fun heq => by simp [Call.concerns, heq] at hc
      rw [after, Distributor.waiting?_leave, if_neg hne]
    | receive taker =>
      have hne : id ≠ taker := fun heq => by simp [Call.concerns, heq] at hc
      rw [after, Distributor.waiting?_receive, if_neg hne]
    | offer a => contradiction

/-- The same call keeps two states the same for a subscriber. -/
theorem SameFor.after (h : m.SameFor id n) (c : Call) : (m.after c).SameFor id (n.after c) := by
  refine ⟨?_, ?_, h.lt_opened.trans_le (opened_le_after m c),
    h.lt_opened'.trans_le (opened_le_after n c)⟩
  · cases c with
    | offer a => exact (h.accept_eq a).2.2
    | _ => exact h.alone_eq
  · cases c with
    | subscribe =>
      simp only [SubscribedReconciler.after, Distributor.waiting?_subscribe, if_neg h.lt_opened.ne,
        if_neg h.lt_opened'.ne, h.waiting?_eq]
    | leave gone =>
      simp only [SubscribedReconciler.after, Distributor.waiting?_leave, h.waiting?_eq]
    | receive taker =>
      simp only [SubscribedReconciler.after, Distributor.waiting?_receive, h.waiting?_eq]
    | offer a => rw [waiting?_offer, waiting?_offer, h.waiting?_eq, (h.accept_eq a).1]

/-- The calls that do not concern a subscriber may as well not be made: what it finds in the end is
the same. -/
theorem SameFor.run_filter (h : m.SameFor id n) (calls : List Call) :
    (m.run calls).SameFor id (n.run (calls.filter (·.concerns id))) := by
  induction calls generalizing m n with
  | nil => exact h
  | cons c rest ih =>
    cases hc : c.concerns id with
    | true =>
      rw [List.filter_cons_of_pos hc]
      exact ih (h.after c)
    | false =>
      rw [List.filter_cons_of_neg (by simp [hc])]
      exact ih ((sameFor_of_not_concerns h.lt_opened hc).trans h)

/-- Neither do they make a difference to what the other calls show, if they show nothing. -/
theorem SameFor.collect_filter {β : Type} {out : SubscribedReconciler → Call → List β}
    (hsame : ∀ {m n}, m.SameFor id n → ∀ c, out m c = out n c)
    (hnone : ∀ m c, c.concerns id = false → out m c = []) (h : m.SameFor id n)
    (calls : List Call) :
    m.collect out calls = n.collect out (calls.filter (·.concerns id)) := by
  induction calls generalizing m n with
  | nil => rfl
  | cons c rest ih =>
    cases hc : c.concerns id with
    | true =>
      rw [List.filter_cons_of_pos hc, collect, collect, hsame h c, ih (h.after c)]
    | false =>
      rw [List.filter_cons_of_neg (by simp [hc]), collect, hnone m c hc, List.nil_append]
      exact ih ((sameFor_of_not_concerns h.lt_opened hc).trans h)

/-- Calls that differ in what the other subscribers do show the same. -/
theorem collect_eq_of_filter_eq {β : Type} {out : SubscribedReconciler → Call → List β}
    (hsame : ∀ {m n}, m.SameFor id n → ∀ c, out m c = out n c)
    (hnone : ∀ m c, c.concerns id = false → out m c = []) (hid : id < m.distributor.opened)
    {others : List Call} (h : others.filter (·.concerns id) = calls.filter (·.concerns id)) :
    m.collect out others = m.collect out calls := by
  have hfilter := (SameFor.refl hid).collect_filter hsame hnone
  rw [hfilter others, h, ← hfilter calls]

theorem takes_of_not_concerns (m : SubscribedReconciler) (c : Call)
    (hc : c.concerns id = false) : m.takes id c = [] := by
  cases c with
  | receive taker =>
    have hne : taker ≠ id := by simpa [Call.concerns] using hc
    exact if_neg hne
  | _ => rfl

theorem answers_of_not_concerns (m : SubscribedReconciler) (c : Call)
    (hc : c.concerns id = false) : m.answers c = [] := by
  cases c with
  | offer a => contradiction
  | _ => rfl

/-! ## What a subscriber receives -/

/-- **A subscriber receives what is passed on, and nothing else.** Whatever was done before, let
somebody subscribe, and let anything be done then, except that this subscriber leaves. What it has
received, and then what waits for it, are the atoms that the reconciler has passed on since, in the
same order. No name is among them twice, and they are the atoms applied since, whether or not an
offer failed. Any further offer sends to all subscribers what it passes on, and answers with just
that if it succeeds. And calls that differ in what the other subscribers do, such as in which of
them leave, make no difference to this one, nor to the answers. -/
theorem subscriber_receives (scope : Scope) (before calls : List Call)
    (hstays : .leave ((fresh scope).run before).distributor.opened ∉ calls) :
    let id := ((fresh scope).run before).distributor.opened
    let joined := ((fresh scope).run before).after .subscribe
    let m := joined.run calls
    let emitted := joined.reconciler.emissions (offers calls)
    (∃ waiting, m.distributor.waiting? id = some waiting ∧
      m.reconciler.subscribers.inbox? id = some waiting ∧
      joined.collect (takes id) calls ++ waiting = emitted) ∧
    ((emitted.map Atom.id).Nodup ∧
      ∀ name, name ∈ m.reconciler.view.applied ↔
        name ∈ joined.reconciler.view.applied ∨ ∃ e ∈ emitted, e.id = name) ∧
    (∀ a, let x := m.reconciler.accept a
      (∀ subscriber, (m.after (.offer a)).distributor.waiting? subscriber =
        (m.distributor.waiting? subscriber).map (· ++ x.emitted)) ∧
      ∀ atoms, x.result = .ok atoms → x.emitted = atoms) ∧
    ∀ others, others.filter (·.concerns id) = calls.filter (·.concerns id) →
      (joined.run others).distributor.waiting? id = m.distributor.waiting? id ∧
      joined.collect (takes id) others = joined.collect (takes id) calls ∧
      joined.collect answers others = joined.collect answers calls := by
  intro id joined m emitted
  have hopened : id < joined.distributor.opened := Nat.lt_succ_self _
  have hwaits : joined.distributor.waiting? id = some [] :=
    (Distributor.waiting?_subscribe _ id).trans (if_pos rfl)
  have hshows : m.distributor.Shows m.reconciler.subscribers :=
    shows_run (shows_after (shows_run (m := fresh scope) .empty before) .subscribe) calls
  have hjoined : (fresh scope).run (before ++ [.subscribe]) = joined := run_append _ _ _
  have hbefore := records_run scope (before ++ [.subscribe])
  have hrecords := records_run scope (before ++ [.subscribe] ++ calls)
  -- The history when the subscriber came, and what was passed on since.
  rw [run_append, show Reconciler.fresh scope = (fresh scope).reconciler from rfl,
    emissions_offers_append, hjoined] at hrecords
  rw [hjoined] at hbefore
  refine ⟨?_, ⟨?_, fun name => ?_⟩, fun a => ⟨waiting?_offer m a, fun atoms => ?_⟩,
    fun others heq => ⟨?_, ?_, ?_⟩⟩
  · obtain ⟨left, hleft, htakes⟩ := collect_takes hwaits hstays
    rw [collect_passes, List.nil_append] at htakes
    exact ⟨left, hleft, (hshows.waiting?_eq id).symm.trans hleft, htakes⟩
  · have hdistinct := hrecords.distinct
    rw [List.map_append, List.nodup_append] at hdistinct
    exact hdistinct.2.1
  · refine (hrecords.applied_iff name).trans ?_
    simp only [List.mem_append, or_and_right, exists_or]
    exact or_congr_left (hbefore.applied_iff name).symm
  · exact Accepted.emitted_eq_of_result
  · have hfilter := fun calls => ((SameFor.refl hopened).run_filter calls).waiting?_eq
    rw [hfilter others, heq, ← hfilter calls]
  · exact collect_eq_of_filter_eq SameFor.takes_eq takes_of_not_concerns hopened heq
  · exact collect_eq_of_filter_eq SameFor.answers_eq answers_of_not_concerns hopened heq

/-- Two subscribe. An atom is offered that has to wait, the first of the two leaves unheard, and
then an offer passes an atom on and fails: the second one receives the atom, and the conduit of the
first is forgotten. -/
theorem subscriber_receives_despite_failure :
    let joined := ((fresh Sample.scope).run [.subscribe]).after .subscribe
    let calls : List Call :=
      [.offer Sample.renew, .leave 0, .offer Sample.issue, .receive 1]
    .leave 1 ∉ calls ∧
    joined.collect answers calls = [.ok [], .error (.consistencyViolation
      (.recreatedParticle Sample.renew.id Sample.coin.id))] ∧
    joined.collect (takes 1) calls = [Sample.issue] ∧
    (joined.run calls).distributor.waiting? 1 = some [] ∧
    (joined.run calls).distributor.conduits.map Conduit.number = [1] := by
  intro joined calls
  have hstays : .leave 1 ∉ calls := by simp [calls]
  obtain ⟨⟨waiting, hwaiting, -, hreceived⟩, -⟩ :=
    subscriber_receives Sample.scope [.subscribe] calls hstays
  let m := joined.run [.offer Sample.renew, .leave 0]
  have hrenew : joined.reconciler.accept Sample.renew =
      ⟨{ joined.reconciler with
          view := Sample.waiting
          subscribers := joined.reconciler.subscribers.post [] }, [], none⟩ := by
    rw [Reconciler.accept_of_running rfl,
      show joined.reconciler.view.accept joined.reconciler.scope Sample.renew = _ from
        Sample.accept_renew]
    rfl
  have hissue : (m.reconciler.accept Sample.issue).emitted = [Sample.issue] ∧
      (m.reconciler.accept Sample.issue).error =
        some (.recreatedParticle Sample.renew.id Sample.coin.id) := by
    have hreconciler : m.reconciler =
        (joined.reconciler.accept Sample.renew).reconciler.unsubscribe 0 := rfl
    rw [hreconciler, hrenew, Reconciler.accept_of_running rfl]
    exact ⟨congrArg Outcome.emitted Sample.accept_issue,
      congrArg Outcome.violation Sample.accept_issue⟩
  obtain ⟨hsent, herror⟩ := hissue
  have hdistributor : (joined.run calls).distributor =
      (((joined.distributor.publish []).leave 0).publish [Sample.issue]).receive 1 := by
    show (((joined.distributor.publish (joined.reconciler.accept Sample.renew).emitted).leave
      0).publish (m.reconciler.accept Sample.issue).emitted).receive 1 = _
    rw [hrenew, hsent]
  have hemitted : joined.reconciler.emissions (offers calls) = [Sample.issue] := by
    rw [← collect_passes]
    show (joined.reconciler.accept Sample.renew).emitted ++
      ([] ++ ((m.reconciler.accept Sample.issue).emitted ++ ([] ++ []))) = _
    rw [hrenew, hsent]
    rfl
  have hleft : (joined.run calls).distributor.waiting? 1 = some [] := by
    rw [hdistributor]
    rfl
  have hnothing : waiting = [] := Option.some_inj.1 (hwaiting.symm.trans hleft)
  refine ⟨hstays, ?_, ?_, hleft, ?_⟩
  · show [(joined.reconciler.accept Sample.renew).result,
      (m.reconciler.accept Sample.issue).result] = _
    rw [hrenew, Accepted.result, Accepted.result, herror]
  · rw [hnothing, List.append_nil] at hreceived
    exact hreceived.trans hemitted
  · rw [hdistributor]
    rfl

end SubscribedReconciler

end ParticleLedger
