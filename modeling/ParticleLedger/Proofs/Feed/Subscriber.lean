import Mathlib.Data.List.Nodup
import ParticleLedger.Proofs.Feed.Ownership

/-!
# What a subscription is handed

A feed says to its subscribers what it delivers and, when it gives up, that it did; behind that it
says nothing more. Each subscription has a queue of its own in which what its feed says waits, and
it is handed the front of the queue when it asks. So it is handed what its feed said, in that order
(`Serves`).

Main statements: `Serves.after`, `Serves.afterAll` and `Serves.collect_handed_next`.
-/

namespace ParticleLedger

/-! ## What a feed says -/

namespace FeedEvent

/-- What a subscriber is handed for an event. -/
def item : FeedEvent → Except FeedError Atom
  | .atom x => .ok x
  | .exhausted attempts last => .error (.retriesExhausted attempts last)

/-- What a feed may have said: atoms, and behind them, once it has stopped, that it gave up. -/
inductive Transcript : Bool → List FeedEvent → Prop
  | running (atoms : List Atom) : Transcript true (atoms.map .atom)
  | stopped (atoms : List Atom) (attempts : UInt32) (last : String) :
      Transcript false (atoms.map .atom ++ [.exhausted attempts last])

namespace Transcript

variable {running : Bool} {said rest : List FeedEvent} {x : Atom} {attempts : UInt32}
  {last : String}

theorem deliver (h : Transcript true said) (x : Atom) : Transcript true (said ++ [.atom x]) := by
  cases h with
  | running atoms => simpa using Transcript.running (atoms ++ [x])

theorem giveUp (h : Transcript true said) (attempts : UInt32) (last : String) :
    Transcript false (said ++ [.exhausted attempts last]) := by
  cases h with
  | running atoms => exact .stopped atoms attempts last

/-- Behind an atom of a feed that has stopped there is more. -/
theorem of_atom_suffix (h : Transcript running said) (hrest : .atom x :: rest <:+ said) :
    (rest.isEmpty && !running) = false := by
  cases h with
  | running => simp
  | stopped atoms attempts last =>
    obtain ⟨before, hbefore⟩ := hrest
    cases rest with
    | cons => rfl
    | nil =>
      have hlast := congrArg List.getLast? hbefore
      simp at hlast

/-- That a feed gave up is the last thing it says. -/
theorem of_exhausted_suffix (h : Transcript running said)
    (hrest : .exhausted attempts last :: rest <:+ said) : rest = [] ∧ running = false := by
  obtain ⟨before, hbefore⟩ := hrest
  cases h with
  | running atoms =>
    have hmem : FeedEvent.exhausted attempts last ∈ atoms.map FeedEvent.atom := by
      simp [← hbefore]
    simp at hmem
  | stopped atoms attempts' last' =>
    refine ⟨?_, rfl⟩
    rcases List.eq_nil_or_concat rest with hnil | ⟨init, final, rfl⟩
    · exact hnil
    · have hinit : before ++ .exhausted attempts last :: init = atoms.map FeedEvent.atom := by
        have hends : (before ++ .exhausted attempts last :: init) ++ [final] =
            atoms.map .atom ++ [.exhausted attempts' last'] := by simpa using hbefore
        exact (List.append_inj' hends rfl).1
      have hmem : FeedEvent.exhausted attempts last ∈ atoms.map FeedEvent.atom := by
        simp [← hinit]
      simp at hmem

end Transcript

end FeedEvent

open FeedEvent (Transcript)

namespace FeedTable

variable {T : FeedTable} {a b : Address} {id j m n now : Nat} {e : TransportEvent}
  {op : Operation} {ops : List Operation} {event : FeedEvent}
  {events rest : List FeedEvent}

/-- What a feed says to its subscribers. -/
def said (n : Nat) (T : FeedTable) : Operation → List FeedEvent
  | .meets now m e => if m = n then (T.told now n e).toList else []
  | _ => []

/-- What a subscription is handed. -/
def handed (j : Nat) (T : FeedTable) : Operation → List (Except FeedError Atom)
  | .next id =>
    if id = j then
      match (T.next j).2 with
      | .ready item => [item]
      | _ => []
    else []
  | _ => []

/-! ## What a subscription is handed -/

/-- A subscription holds the feed, which has said some events since the subscription came; of these
the rest waits. -/
structure Serves (T : FeedTable) (a : Address) (j n : Nat) (events rest : List FeedEvent) :
    Prop where
  holder : T.holders[j]? = some ⟨n, ⟨a, rest, rest.isEmpty && !T.runs n⟩⟩
  transcript : Transcript (T.runs n) events
  waits : rest <:+ events

namespace Serves

theorem place?_eq (h : T.Serves a j n events rest) : T.place? j = some (n, a) := by
  simp [place?, h.holder]

/-- What concerns neither the subscription nor whether its feed runs leaves all as it is. -/
theorem of_quiet (h : T.Serves a j n events rest) {T' : FeedTable}
    (hholder : T'.holders[j]? = T.holders[j]?) (hruns : T'.runs n = T.runs n) :
    T'.Serves a j n events rest :=
  ⟨by rw [hholder, hruns, h.holder], hruns ▸ h.transcript, h.waits⟩

/-- A new subscription has nothing waiting. -/
theorem subscribe (T : FeedTable) (a : Address) :
    (T.subscribe a).Serves a T.opened (T.feedFor a) [] [] where
  holder := by simp [getElem?_holders_subscribe, Subscription.fresh]
  transcript := by
    rw [runs_subscribe]
    simpa using Transcript.running []
  waits := List.suffix_rfl

/-- The answer to a subscription that asks. -/
theorem next_eq (h : T.Serves a j n events rest) : (T.next j).2 =
    match rest with
    | event :: _ => .ready event.item
    | [] => if T.runs n then .pending else .ended := by
  have hnext : (T.next j).2 = (Subscription.next ⟨a, rest, rest.isEmpty && !T.runs n⟩).2 := by
    simp [FeedTable.next, h.holder]
  rw [hnext]
  cases rest with
  | nil => cases hruns : T.runs n <;> simp [Subscription.next]
  | cons event rest => cases event <;> rfl

theorem handed_next (h : T.Serves a j n events rest) :
    T.handed j (.next j) = (rest.head?.map FeedEvent.item).toList := by
  simp only [handed, h.next_eq, if_true]
  cases rest with
  | nil => cases T.runs n <;> rfl
  | cons event rest => rfl

/-- Asking takes away what has waited longest. -/
theorem next (h : T.Serves a j n events rest) : (T.next j).1.Serves a j n events rest.tail where
  holder := by
    rw [getElem?_holders_next, if_pos rfl, h.holder, runs_next]
    cases rest with
    | nil => cases hruns : T.runs n <;> simp [Subscription.next]
    | cons event rest =>
      cases event with
      | atom x => simp [Subscription.next, h.transcript.of_atom_suffix h.waits]
      | exhausted attempts last =>
        obtain ⟨rfl, hruns⟩ := h.transcript.of_exhausted_suffix h.waits
        simp [Subscription.next, hruns]
  transcript := by
    rw [runs_next]
    exact h.transcript
  waits := (List.tail_suffix rest).trans h.waits

/-- What the feed says waits behind the rest. -/
theorem handle (h : T.Serves a j n events rest) (howned : T.Owned) :
    (T.handle now n e).Serves a j n (events ++ (T.told now n e).toList)
      (rest ++ (T.told now n e).toList) := by
  have hcount : (T.senders n).count j = 1 :=
    List.count_eq_one_of_mem (howned.nodup n) (howned.attached j n a h.place?_eq).1
  have hholder := @getElem?_holders_handle T j n now e
  cases htold : T.told now n e with
  | none =>
    rw [htold] at hholder
    have hruns : (T.handle now n e).runs n = T.runs n := by
      rw [Bool.eq_iff_iff, runs_handle]
      simp [GivesUp, htold]
    simpa using h.of_quiet hholder hruns
  | some event =>
    have hruns : T.runs n = true := runs_of_told htold
    rw [htold, h.holder] at hholder
    have htranscript := h.transcript
    rw [hruns] at htranscript
    refine ⟨?_, ?_, ?_⟩
    · rw [hholder]
      simp [hcount, hruns]
    · cases event with
      | atom x =>
        have hruns' : (T.handle now n e).runs n = true :=
          runs_handle.2 ⟨hruns, by simp [GivesUp, htold]⟩
        rw [hruns']
        exact htranscript.deliver x
      | exhausted attempts last =>
        have hruns' : (T.handle now n e).runs n = false := by
          rw [← Bool.not_eq_true, runs_handle]
          exact fun hgoes => hgoes.2 ⟨rfl, attempts, last, htold⟩
        rw [hruns']
        exact htranscript.giveUp attempts last
    · obtain ⟨before, hbefore⟩ := h.waits
      exact ⟨before, by simp [← hbefore]⟩

/-- What another feed says does not reach the subscription. -/
theorem handle_other (h : T.Serves a j n events rest) (howned : T.Owned) (hm : m ≠ n) :
    (T.handle now m e).Serves a j n events rest := by
  have hcount : (T.senders m).count j = 0 := by
    rw [List.count_eq_zero]
    intro hmem
    exact hm ((howned.sent j m hmem).2 n a h.place?_eq).symm
  have hruns : (T.handle now m e).runs n = T.runs n := by
    rw [Bool.eq_iff_iff, runs_handle]
    simp [hm]
  refine h.of_quiet ?_ hruns
  rw [getElem?_holders_handle]
  cases T.told now m e with
  | none => rfl
  | some event => simp [hcount]

/-- What an operation does to a subscription: what its feed says joins what waits, and what it is
handed leaves. -/
theorem after (h : T.Serves a j n events rest) (howned : T.Owned) (hheld : op ≠ .unsubscribe j) :
    ∃ rest', (T.after op).Serves a j n (events ++ T.said n op) rest' ∧
      (rest ++ T.said n op).map FeedEvent.item = T.handed j op ++ rest'.map FeedEvent.item := by
  have hlt : n < T.feeds.length := lt_of_address? (howned.attached j n a h.place?_eq).2
  cases op with
  | subscribe b =>
    have hruns : (T.subscribe b).runs n = T.runs n := by
      rw [Bool.eq_iff_iff]
      have hafter := @runs_after T n (.subscribe b) hlt
      simpa [Stops] using hafter
    refine ⟨rest, ?_, by simp [said, handed]⟩
    have hold := Nat.ne_of_lt (howned.numbered j _ h.place?_eq)
    simpa [said] using h.of_quiet (by rw [getElem?_holders_subscribe, if_neg hold]) hruns
  | unsubscribe id =>
    have hid : j ≠ id := fun hid => hheld (hid ▸ rfl)
    have hruns : (T.unsubscribe id).runs n = T.runs n := by
      rw [Bool.eq_iff_iff, runs_unsubscribe, and_iff_left_iff_imp]
      intro _ hsole
      exact hid ((holdersOf_eq_singleton_iff.1 hsole).2 j a h.place?_eq)
    refine ⟨rest, ?_, by simp [said, handed]⟩
    simpa [said] using h.of_quiet (by rw [getElem?_holders_unsubscribe, if_neg hid]) hruns
  | next id =>
    by_cases hid : id = j
    · subst hid
      refine ⟨rest.tail, by simpa [said] using h.next, ?_⟩
      rw [h.handed_next]
      cases rest <;> simp [said]
    · refine ⟨rest, ?_, by simp [said, handed, hid]⟩
      simpa [said] using h.of_quiet (by rw [getElem?_holders_next, if_neg (Ne.symm hid)]) runs_next
  | meets now m e =>
    by_cases hm : m = n
    · subst hm
      have htold : T.said m (.meets now m e) = (T.told now m e).toList := if_pos rfl
      rw [htold]
      exact ⟨_, h.handle howned, by simp [handed]⟩
    · refine ⟨rest, ?_, by simp [said, handed, hm]⟩
      simpa [said, hm] using h.handle_other howned hm

/-- While a subscription is held it has been handed, or keeps waiting, all that its feed said. -/
theorem afterAll (h : T.Serves a j n events rest) (howned : T.Owned)
    (hheld : .unsubscribe j ∉ ops) :
    ∃ rest', (T.afterAll ops).Serves a j n (events ++ T.collect (said n) ops) rest' ∧
      (rest ++ T.collect (said n) ops).map FeedEvent.item =
        T.collect (handed j) ops ++ rest'.map FeedEvent.item := by
  induction ops generalizing T events rest with
  | nil => exact ⟨rest, by simpa using h, by simp⟩
  | cons op ops ih =>
    simp only [List.mem_cons, not_or] at hheld
    obtain ⟨waiting, hfirst, hmoved⟩ := h.after howned (Ne.symm hheld.1)
    obtain ⟨rest', hrest', hlater⟩ := ih hfirst howned.after hheld.2
    refine ⟨rest', by simpa using hrest', ?_⟩
    rw [collect_cons, collect_cons, ← List.append_assoc, List.map_append, hmoved,
      List.append_assoc, ← List.map_append, hlater, List.append_assoc]

/-- Asked often enough, a subscription is handed all that waits. -/
theorem collect_handed_next (h : T.Serves a j n events rest) {k : Nat} (hk : rest.length ≤ k) :
    T.collect (handed j) (List.replicate k (.next j)) = rest.map FeedEvent.item := by
  induction k generalizing T rest with
  | zero =>
    obtain rfl := List.eq_nil_of_length_eq_zero (Nat.le_zero.1 hk)
    rfl
  | succ k ih =>
    have htail : rest.tail.length ≤ k := by
      rw [List.length_tail]
      omega
    have hlater := ih h.next htail
    rw [List.replicate_succ, collect_cons, h.handed_next, after_next, hlater]
    cases rest <;> simp

end Serves

end FeedTable

end ParticleLedger
