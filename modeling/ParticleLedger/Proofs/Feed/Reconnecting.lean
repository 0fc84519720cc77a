import Mathlib.Data.List.DropRight
import ParticleLedger.Feed.Transport

/-!
# When a pump connects again

A pump counts the losses of its connection and starts over with every atom, valid or not. The count
is that of the losses at the end of all that it met (`lossesInRow`), and it decides, together with
the policy, what each loss leads to: a wait, or the end. Nothing is assumed of what happens to the
pump and when, so the record of a pump (`PumpRecord`) covers whatever a transport does.

Main statements: `Pump.disconnect_of_last` and `Pump.disconnect_of_more` (what a loss leads to),
`PumpRecord.Exact.after` (the step), `PumpRecord.exact_afterAll` (the run) and
`PumpRecord.reconnects_exactly`.
-/

namespace ParticleLedger

/-! ## What a pump meets -/

/-- The losses in a row at the end of what was met: texts of losses, and atoms. -/
def lossesInRow (met : List (Except String Atom)) : Nat :=
  (met.rtakeWhile fun | .error _ => true | .ok _ => false).length

section LossesInRow

variable (met : List (Except String Atom))

theorem lossesInRow_loss (text : String) :
    lossesInRow (met ++ [.error text]) = lossesInRow met + 1 := by
  rw [lossesInRow, List.rtakeWhile_concat_pos _ _ _ rfl, List.length_append]
  rfl

/-- An atom ends a row of losses. -/
theorem lossesInRow_atom (a : Atom) : lossesInRow (met ++ [.ok a]) = 0 := by
  rw [lossesInRow, List.rtakeWhile_concat_neg _ _ _ (by simp)]
  rfl

end LossesInRow

/-- The losses in a row after which a pump gives up: what the policy says, but at least one. -/
def RetryPolicy.limit (policy : RetryPolicy) : Nat :=
  max 1 policy.maxAttempts.toNat

theorem RetryPolicy.limit_pos (policy : RetryPolicy) : 0 < policy.limit :=
  Nat.le_max_left 1 _

theorem RetryPolicy.limit_lt (policy : RetryPolicy) : policy.limit < UInt32.size :=
  Nat.max_lt.2 ⟨by decide, policy.maxAttempts.toNat_lt_size⟩

/-- The number of attempts and the text with which a feed says that it gave up. -/
def FeedEvent.givenUp? : FeedEvent → Option (Nat × String)
  | .exhausted attempts last => some (attempts.toNat, last)
  | .atom _ => none

namespace Pump

variable {policy : RetryPolicy} {validator : AtomValidator} {now : Nat} {p : Pump}
  {e : TransportEvent}

/-- What reaches a pump: an atom, or the text of the loss of its connection. -/
def met? (p : Pump) (e : TransportEvent) : Option (Except String Atom) :=
  match p.phase, e with
  | .connecting, .refused cause => some (.error cause.message)
  | .streaming _, .arrived a => some (.ok a)
  | .streaming _, .failed cause => some (.error cause.message)
  | .streaming _, .ended => some (.error "stream ended")
  | _, _ => none

/-- A pump loses its connection only while it runs. -/
theorem handle_of_loss {text : String} (h : p.met? e = some (.error text)) :
    p.running ∧ p.handle policy validator now e = p.disconnect policy now text := by
  obtain ⟨phase, failures, seen⟩ := p
  cases phase <;> cases e <;> simp_all [met?, running, handle]

/-- An atom that reaches a pump ends its row of failures, whatever becomes of the atom. -/
theorem handle_of_atom {a : Atom} (h : p.met? e = some (.ok a)) :
    let h := p.handle policy validator now e
    p.running ∧ h.pump.running ∧ h.pump.failures = 0 ∧ h.told.bind FeedEvent.givenUp? = none := by
  obtain ⟨phase, failures, seen⟩ := p
  cases phase with
  | streaming line =>
    cases e with
    | arrived a =>
      simp only [handle, take]
      cases Pump.verdict validator ⟨.streaming line, 0, seen⟩ a <;>
        simp [running, FeedEvent.givenUp?]
    | _ => simp [met?] at h
  | _ => cases e <;> simp [met?] at h

/-- What does not reach a pump as an atom or a loss leaves its row of failures alone. -/
theorem handle_of_nothing (h : p.met? e = none) :
    let h := p.handle policy validator now e
    h.pump.running = p.running ∧ h.pump.failures = p.failures ∧ h.told = none := by
  obtain ⟨phase, failures, seen⟩ := p
  cases phase with
  | waiting due =>
    cases e with
    | elapsed => by_cases hdue : due ≤ .millis now <;> simp [handle, hdue, running]
    | _ => exact ⟨rfl, rfl, rfl⟩
  | _ => cases e <;> simp_all [met?, handle, running]

/-- A pump that waits does nothing but connect when the wait is over. -/
theorem handle_of_waiting {due : Duration} (h : p.phase = .waiting due) :
    (p.handle policy validator now e).pump = { p with phase := .connecting } ∧ e = .elapsed ∧
        due ≤ .millis now ∨
      (p.handle policy validator now e).pump = p ∧ ¬(e = .elapsed ∧ due ≤ .millis now) := by
  obtain ⟨phase, failures, seen⟩ := p
  subst h
  cases e with
  | elapsed => by_cases hdue : due ≤ .millis now <;> simp [handle, hdue]
  | _ => exact .inr ⟨rfl, fun h => nomatch h.1⟩

/-- The counter does not overflow before the limit. -/
theorem toNat_failures_succ (h : p.failures.toNat < policy.limit) :
    (p.failures + 1).toNat = p.failures.toNat + 1 := by
  rw [UInt32.toNat_add, UInt32.toNat_one]
  exact Nat.mod_eq_of_lt (Nat.lt_of_le_of_lt h policy.limit_lt)

theorem shouldRetry_iff (h : p.failures.toNat < policy.limit) :
    policy.shouldRetry (p.failures + 1) ↔ p.failures.toNat + 1 ≠ policy.limit := by
  rw [RetryPolicy.shouldRetry, decide_eq_true_iff, UInt32.lt_iff_toNat_lt, toNat_failures_succ h]
  unfold RetryPolicy.limit at h ⊢
  omega

/-- The loss with which the row of failures comes to the limit is the last. -/
theorem disconnect_of_last {text : String} (h : p.failures.toNat + 1 = policy.limit) :
    p.disconnect policy now text =
      ⟨{ p with phase := .stopped, failures := p.failures + 1 },
        some (.exhausted (p.failures + 1) text), none⟩ := by
  have hretry := shouldRetry_iff (show p.failures.toNat < policy.limit by omega)
  rw [disconnect, if_neg (mt hretry.1 (not_not.2 h))]

/-- After any other loss the pump waits for as many seconds as the square of the row, but no longer
than the policy allows. -/
theorem disconnect_of_more {text : String} (h : p.failures.toNat + 1 < policy.limit) :
    let row := p.failures.toNat + 1
    p.disconnect policy now text =
      ⟨{ p with
          phase := .waiting (.millis now + min (.seconds (row * row)) policy.maxDelay)
          failures := p.failures + 1 }, none, none⟩ := by
  intro row
  have hlt : p.failures.toNat < policy.limit := by omega
  rw [disconnect, if_pos ((shouldRetry_iff hlt).2 h.ne), RetryPolicy.delay_eq,
    toNat_failures_succ hlt]

end Pump

section NextEvent

variable {Net : Type} [Transport Net] {now : Nat} {a : Address} {net : Net}

/-- A pump that waits can do nothing before the tick with which its wait is over. -/
theorem nextEvent?_waiting {due : Duration} :
    DeliveryFilter.nextEvent? now (.waiting due) a net =
      if due.tick ≤ now then some (net, .elapsed) else none := by
  simp only [DeliveryFilter.nextEvent?, Duration.le_millis_iff]

/-- A pump that is about to connect asks the transport for a connection. -/
theorem nextEvent?_connecting :
    (DeliveryFilter.nextEvent? now .connecting a net).map (·.1) =
      some (Transport.connect a net).1 := by
  rw [DeliveryFilter.nextEvent?]
  rcases Transport.connect a net with ⟨net', line | cause⟩ <;> rfl

end NextEvent

/-! ## Runs -/

/-- A pump, with all that it met and all that it said so far. -/
structure PumpRecord where
  pump : Pump
  met : List (Except String Atom)
  told : List FeedEvent

namespace PumpRecord

variable {policy : RetryPolicy} {validator : AtomValidator} {r : PumpRecord}

/-- A pump that is about to open its first connection. -/
def start : PumpRecord := ⟨.start, [], []⟩

/-- The record after something happens at some time. -/
def after (policy : RetryPolicy) (validator : AtomValidator) (r : PumpRecord)
    (happens : Nat × TransportEvent) : PumpRecord :=
  let h := r.pump.handle policy validator happens.1 happens.2
  ⟨h.pump, r.met ++ (r.pump.met? happens.2).toList, r.told ++ h.told.toList⟩

/-- The record after a script of what happens, and when. -/
def afterAll (policy : RetryPolicy) (validator : AtomValidator) (r : PumpRecord)
    (script : List (Nat × TransportEvent)) : PumpRecord :=
  script.foldl (after policy validator) r

/-- What the feed said about giving up. -/
def givenUp (r : PumpRecord) : List (Nat × String) :=
  r.told.filterMap FeedEvent.givenUp?

theorem givenUp_after (policy : RetryPolicy) (validator : AtomValidator) (r : PumpRecord)
    (now : Nat) (e : TransportEvent) : (r.after policy validator (now, e)).givenUp = r.givenUp ++
      ((r.pump.handle policy validator now e).told.bind FeedEvent.givenUp?).toList := by
  simp only [givenUp, after, List.filterMap_append]
  cases (r.pump.handle policy validator now e).told with
  | none => rfl
  | some event => cases event <;> rfl

/-- The counter is that of the losses in a row. A pump runs as long as these are below the limit,
and one that has stopped has said so once, with the text of the last loss. -/
structure Exact (policy : RetryPolicy) (r : PumpRecord) : Prop where
  failures_eq : r.pump.failures.toNat = lossesInRow r.met
  running_iff : r.pump.running ↔ lossesInRow r.met < policy.limit
  silent : r.pump.running → r.givenUp = []
  stopped : r.pump.running = false → lossesInRow r.met = policy.limit ∧
    ∃ text, r.met.getLast? = some (.error text) ∧ r.givenUp = [(policy.limit, text)]

namespace Exact

theorem start : PumpRecord.start.Exact policy where
  failures_eq := rfl
  running_iff := iff_of_true rfl policy.limit_pos
  silent _ := rfl
  stopped h := by simp [PumpRecord.start, Pump.start, Pump.running] at h

theorem of_running (hrunning : r.pump.running) (hsilent : r.givenUp = [])
    (hfailures : r.pump.failures.toNat = lossesInRow r.met)
    (hlt : r.pump.failures.toNat < policy.limit) : r.Exact policy where
  failures_eq := hfailures
  running_iff := iff_of_true hrunning (hfailures ▸ hlt)
  silent _ := hsilent
  stopped h := by simp [hrunning] at h

theorem of_stopped {text : String} (hstopped : r.pump.running = false)
    (hgivenUp : r.givenUp = [(policy.limit, text)]) (hlast : r.met.getLast? = some (.error text))
    (hfailures : r.pump.failures.toNat = lossesInRow r.met)
    (hlimit : r.pump.failures.toNat = policy.limit) : r.Exact policy where
  failures_eq := hfailures
  running_iff := iff_of_false (by simp [hstopped]) (by simp [← hfailures, hlimit])
  silent h := by simp [hstopped] at h
  stopped _ := ⟨hfailures.symm.trans hlimit, text, hlast, hgivenUp⟩

/-- What neither counts nor says anything leaves a record exact. -/
theorem of_same {q : PumpRecord} (h : r.Exact policy) (hmet : q.met = r.met)
    (hfailures : q.pump.failures = r.pump.failures) (hrunning : q.pump.running = r.pump.running)
    (hgivenUp : q.givenUp = r.givenUp) : q.Exact policy where
  failures_eq := by rw [hfailures, hmet, h.failures_eq]
  running_iff := by rw [hrunning, hmet, h.running_iff]
  silent := by
    rw [hrunning, hgivenUp]
    exact h.silent
  stopped := by
    rw [hrunning, hgivenUp, hmet]
    exact h.stopped

/-- The row of failures of a pump that runs is below the limit. -/
theorem failures_lt (h : r.Exact policy) (hrunning : r.pump.running) :
    r.pump.failures.toNat < policy.limit := by
  rw [h.failures_eq]
  exact h.running_iff.1 hrunning

/-- An exact record stays exact, whatever happens, and when. -/
theorem after (h : r.Exact policy) (happens : Nat × TransportEvent) :
    (r.after policy validator happens).Exact policy := by
  obtain ⟨now, e⟩ := happens
  have hgivenUp := r.givenUp_after policy validator now e
  have hmet' : (r.after policy validator (now, e)).met = r.met ++ (r.pump.met? e).toList := rfl
  have hpump : (r.after policy validator (now, e)).pump =
      (r.pump.handle policy validator now e).pump := rfl
  cases hmet : r.pump.met? e with
  | none =>
    obtain ⟨hrunning, hfailures, htold⟩ :=
      @Pump.handle_of_nothing policy validator now _ _ hmet
    rw [hmet, Option.toList_none, List.append_nil] at hmet'
    rw [htold, Option.bind_none, Option.toList_none, List.append_nil] at hgivenUp
    exact h.of_same hmet' hfailures hrunning hgivenUp
  | some item =>
    rw [hmet, Option.toList_some] at hmet'
    cases item with
    | ok a =>
      obtain ⟨hbefore, hrunning, hfailures, htold⟩ :=
        @Pump.handle_of_atom policy validator now _ _ _ hmet
      rw [htold, Option.toList_none, List.append_nil, h.silent hbefore] at hgivenUp
      rw [← hpump] at hrunning hfailures
      refine .of_running hrunning hgivenUp ?_ ?_
      · rw [hmet', lossesInRow_atom, hfailures]
        rfl
      · rw [hfailures]
        exact policy.limit_pos
    | error text =>
      obtain ⟨hbefore, hhandle⟩ := @Pump.handle_of_loss policy validator now _ _ _ hmet
      have hlt := h.failures_lt hbefore
      have hcount := Pump.toNat_failures_succ hlt
      -- The row was below the limit, so this loss takes it there or leaves it below.
      rw [hhandle] at hpump hgivenUp
      rw [h.silent hbefore, List.nil_append] at hgivenUp
      by_cases hlast : r.pump.failures.toNat + 1 = policy.limit
      · rw [Pump.disconnect_of_last hlast] at hpump hgivenUp
        refine @of_stopped policy _ text ?_ ?_ ?_ ?_ ?_
        · rw [hpump]
          rfl
        · rw [hgivenUp, ← hlast, ← hcount]
          rfl
        · rw [hmet', List.getLast?_concat]
        · rw [hpump, hmet', lossesInRow_loss, hcount, h.failures_eq]
        · rw [hpump, hcount, hlast]
      · have hmore : r.pump.failures.toNat + 1 < policy.limit := lt_of_le_of_ne hlt hlast
        rw [Pump.disconnect_of_more hmore] at hpump hgivenUp
        refine .of_running ?_ hgivenUp ?_ ?_
        · rw [hpump]
          rfl
        · rw [hpump, hmet', lossesInRow_loss, hcount, h.failures_eq]
        · rw [hpump, hcount]
          exact hmore

end Exact

/-- Every record is exact. -/
theorem exact_afterAll (policy : RetryPolicy) (validator : AtomValidator)
    (script : List (Nat × TransportEvent)) :
    (start.afterAll policy validator script).Exact policy := by
  induction script using List.reverseRecOn with
  | nil => exact .start
  | append_singleton script happens ih =>
    rw [afterAll, List.foldl_concat]
    exact ih.after happens

/-- **When a pump connects again, and when it gives up.** Let `n` be the losses in a row at the end
of all that a pump has met, whatever has happened to it. The counter shows `n`, and can take another
loss without an overflow as long as the pump runs, which it does as long as `n` is below the limit.
A loss gives the row `n + 1`: if that is the limit, the pump stops and says so, with the limit and
the text of this loss; if not, it says nothing and waits for `(n + 1) ^ 2` seconds, or for the
longest wait of the policy if that is less. Over any transport, it asks for the next connection with
the tick of the clock at which the wait is over, and does nothing before. A pump that has stopped
has said so once, and one that runs has not. The waits do not get shorter as failures go on and are
never longer than the policy says, and the square is never cut off. -/
theorem reconnects_exactly (policy : RetryPolicy) (validator : AtomValidator)
    (script : List (Nat × TransportEvent)) :
    let r := start.afterAll policy validator script
    let n := lossesInRow r.met
    (r.pump.failures.toNat = n ∧ (r.pump.running → r.pump.failures.toNat + 1 < UInt32.size)) ∧
    ((r.pump.running ↔ n < max 1 policy.maxAttempts.toNat) ∧ n ≤ max 1 policy.maxAttempts.toNat) ∧
    (r.pump.running → r.givenUp = []) ∧
    (r.pump.running = false → ∃ text, r.met.getLast? = some (.error text) ∧
      r.givenUp = [(max 1 policy.maxAttempts.toNat, text)]) ∧
    (∀ now e text, r.pump.met? e = some (.error text) →
      let h := r.pump.handle policy validator now e
      if n + 1 = max 1 policy.maxAttempts.toNat then
        h.pump.phase = .stopped ∧
          h.told.bind FeedEvent.givenUp? = some (max 1 policy.maxAttempts.toNat, text)
      else
        h.told = none ∧ h.pump.phase =
          .waiting (.millis now + min (.seconds ((n + 1) * (n + 1))) policy.maxDelay)) ∧
    (∀ due, r.pump.phase = .waiting due → ∀ now,
      (∀ e, let p := (r.pump.handle policy validator now e).pump
        p = { r.pump with phase := .connecting } ∧ e = .elapsed ∧ due ≤ .millis now ∨
          p = r.pump ∧ ¬(e = .elapsed ∧ due ≤ .millis now)) ∧
      ∀ (Net : Type) [Transport Net] (a : Address) (net : Net),
        DeliveryFilter.nextEvent? now (.waiting due) a net =
            (if due.tick ≤ now then some (net, .elapsed) else none) ∧
          (DeliveryFilter.nextEvent? now .connecting a net).map (·.1) =
            some (Transport.connect a net).1) ∧
    ((∀ j k : UInt32, j ≤ k → policy.delay j ≤ policy.delay k) ∧
      ∀ k : UInt32, policy.delay k ≤ policy.maxDelay ∧
        policy.delay k = min (.seconds (k.toNat * k.toNat)) policy.maxDelay ∧
        (RetryPolicy.saturatingMul k.toUInt64 k.toUInt64).toNat = k.toNat * k.toNat) := by
  intro r n
  have hr : r.Exact policy := exact_afterAll policy validator script
  refine ⟨⟨hr.failures_eq, ?fits⟩, ⟨hr.running_iff, ?bounded⟩, hr.silent, ?stopped, ?loss, ?waits,
    fun _ _ => policy.delay_mono,
    fun k => ⟨policy.delay_le k, policy.delay_eq k, RetryPolicy.toNat_saturatingMul k⟩⟩
  case fits =>
    intro hrunning
    have := hr.failures_lt hrunning
    have := policy.limit_lt
    omega
  case bounded =>
    cases hrunning : r.pump.running with
    | true => exact (hr.running_iff.1 hrunning).le
    | false => exact (hr.stopped hrunning).1.le
  case stopped => exact fun hstopped => (hr.stopped hstopped).2
  case loss =>
    intro now e text hmet h
    obtain ⟨hrunning, hhandle⟩ := @Pump.handle_of_loss policy validator now _ _ _ hmet
    have hlt := hr.failures_lt hrunning
    have hn : n = r.pump.failures.toNat := hr.failures_eq.symm
    have hh : h = r.pump.disconnect policy now text := hhandle
    split
    · next hlast =>
      rw [hn] at hlast
      rw [hh, Pump.disconnect_of_last hlast, ← hlast, ← Pump.toNat_failures_succ hlt]
      exact ⟨rfl, rfl⟩
    · next hmore =>
      rw [hn] at hmore
      rw [hh, hn, Pump.disconnect_of_more (lt_of_le_of_ne hlt hmore)]
      exact ⟨rfl, rfl⟩
  case waits =>
    intro due hdue now
    exact ⟨fun e => Pump.handle_of_waiting hdue,
      fun Net _ a net => ⟨nextEvent?_waiting, nextEvent?_connecting⟩⟩

/-- A pump that may never fail gives up with its first loss. -/
example (validator : AtomValidator) :
    (start.afterAll ⟨0, 60⟩ validator [(0, .refused (.transport "down"))]).givenUp =
      [(1, "Transport error: down")] := by
  rfl

end PumpRecord

end ParticleLedger
