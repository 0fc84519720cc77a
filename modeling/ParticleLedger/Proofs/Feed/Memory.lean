import Mathlib.Data.List.Nodup
import ParticleLedger.Proofs.Feed.Run

/-!
# What a feed delivers of what it hears

A feed delivers, of the atoms that its pump hears on all its connections, those that are valid and
the first with their name to be so (`firstValid`): the names that the pump keeps are those of the
valid atoms it has heard, so an invalid copy stands in the way of nothing.

Main statements: `Remembers.after` and `Remembers.ofPump_delivered` (one operation),
`nodup_ids_firstValid` and `exists_firstValid` (what that means for names), and `Counted.afterAll`
(what is counted meanwhile).
-/

namespace ParticleLedger

open Std (ExtTreeMap ExtTreeSet)

/-! ## The first valid copies -/

/-- Of the atoms that are heard after those in `past`, the ones that are valid and the first with
their name to be so. -/
def firstValid (validator : AtomValidator) (past : List Atom) : List Atom → List Atom
  | [] => []
  | x :: rest =>
    if validator x = .ok () ∧ ∀ y ∈ past, validator y = .ok () → y.id ≠ x.id then
      x :: firstValid validator (past ++ [x]) rest
    else firstValid validator (past ++ [x]) rest

section FirstValid

variable {validator : AtomValidator} {past atoms : List Atom} {x : Atom}

theorem firstValid_append (later : List Atom) : firstValid validator past (atoms ++ later) =
    firstValid validator past atoms ++ firstValid validator (past ++ atoms) later := by
  induction atoms generalizing past with
  | nil => simp [firstValid]
  | cons x rest ih =>
    simp only [List.cons_append, firstValid, ih, List.append_assoc, List.nil_append]
    split <;> rfl

theorem firstValid_of_new (hvalid : validator x = .ok ())
    (hnew : ∀ y ∈ past, validator y = .ok () → y.id ≠ x.id) :
    firstValid validator past [x] = [x] := by
  simp only [firstValid, if_pos (And.intro hvalid hnew)]

theorem firstValid_of_dropped
    (hdropped : validator x = .ok () → ∃ y ∈ past, validator y = .ok () ∧ y.id = x.id) :
    firstValid validator past [x] = [] := by
  rw [firstValid, if_neg, firstValid]
  rintro ⟨hvalid, hnew⟩
  obtain ⟨y, hy, hyvalid, hid⟩ := hdropped hvalid
  exact hnew y hy hyvalid hid

/-- What is new has a name that no valid atom had before. -/
theorem id_ne_of_mem_firstValid (hx : x ∈ firstValid validator past atoms) :
    ∀ y ∈ past, validator y = .ok () → y.id ≠ x.id := by
  induction atoms generalizing past with
  | nil => contradiction
  | cons first rest ih =>
    have hlater : x ∈ firstValid validator (past ++ [first]) rest →
        ∀ y ∈ past, validator y = .ok () → y.id ≠ x.id :=
      fun hx y hy => ih hx y (List.mem_append_left _ hy)
    rw [firstValid] at hx
    split at hx
    · next hfirst =>
      rcases List.mem_cons.1 hx with rfl | hx
      · exact hfirst.2
      · exact hlater hx
    · exact hlater hx

/-- No name comes twice. -/
theorem nodup_ids_firstValid : ((firstValid validator past atoms).map Atom.id).Nodup := by
  induction atoms generalizing past with
  | nil => exact List.nodup_nil
  | cons first rest ih =>
    rw [firstValid]
    split
    · next hfirst =>
      rw [List.map_cons, List.nodup_cons]
      refine ⟨fun hmem => ?_, ih⟩
      obtain ⟨x, hx, hid⟩ := List.mem_map.1 hmem
      exact id_ne_of_mem_firstValid hx first (by simp) hfirst.1 hid.symm
    · exact ih

/-- Nothing valid is lost: a copy of it was there before, or is among the new ones. -/
theorem exists_firstValid (hx : x ∈ atoms) (hvalid : validator x = .ok ()) :
    (∃ y ∈ past, validator y = .ok () ∧ y.id = x.id) ∨
      ∃ y ∈ firstValid validator past atoms, y.id = x.id := by
  induction atoms generalizing past with
  | nil => contradiction
  | cons first rest ih =>
    have hhead : validator first = .ok () → (∃ y ∈ past, validator y = .ok () ∧ y.id = first.id) ∨
        ∃ y ∈ firstValid validator past (first :: rest), y.id = first.id := by
      intro hfirst
      by_cases hold : ∃ y ∈ past, validator y = .ok () ∧ y.id = first.id
      · exact .inl hold
      · have hnew : ∀ y ∈ past, validator y = .ok () → y.id ≠ first.id :=
          fun y hy hyvalid hid => hold ⟨y, hy, hyvalid, hid⟩
        rw [firstValid, if_pos ⟨hfirst, hnew⟩]
        exact .inr ⟨first, List.mem_cons_self, rfl⟩
    have htail : ∀ y ∈ firstValid validator (past ++ [first]) rest,
        y ∈ firstValid validator past (first :: rest) := by
      intro y hy
      rw [firstValid]
      split
      · exact List.mem_cons_of_mem _ hy
      · exact hy
    rcases List.mem_cons.1 hx with rfl | hx
    · exact hhead hvalid
    · rcases @ih (past ++ [first]) hx with ⟨y, hy, hyvalid, hid⟩ | ⟨y, hy, hid⟩
      · rcases List.mem_append.1 hy with hy | hy
        · exact .inl ⟨y, hy, hyvalid, hid⟩
        · obtain rfl := List.mem_singleton.1 hy
          exact hid ▸ hhead hyvalid
      · exact .inr ⟨y, htail y hy, hid⟩

end FirstValid

/-! ## One step of a pump -/

/-- The atom that a feed passes on. -/
def FeedEvent.atom? : FeedEvent → Option Atom
  | .atom x => some x
  | .exhausted _ _ => none

@[simp] theorem FeedEvent.atom?_atom (x : Atom) : FeedEvent.atom? (.atom x) = some x := rfl

@[simp] theorem FeedEvent.atom?_exhausted (attempts : UInt32) (last : String) :
    FeedEvent.atom? (.exhausted attempts last) = none := rfl

namespace Pump

variable {validator : AtomValidator} {p : Pump} {e : TransportEvent} {out : Handled}
  {past : List Atom}

/-- The names that the pump keeps are those of the valid atoms among some that it has heard. -/
def Remembers (validator : AtomValidator) (p : Pump) (past : List Atom) : Prop :=
  ∀ id, id ∈ p.seen ↔ ∃ x ∈ past, validator x = .ok () ∧ x.id = id

theorem remembers_opened (first : Nat) : (Feed.opened first).pump.Remembers validator [] := by
  simp [Remembers, Feed.opened, start]

theorem Remembers.of_seen_eq {q : Pump} (h : p.Remembers validator past) (hseen : q.seen = p.seen) :
    q.Remembers validator past := by
  rwa [Remembers, hseen]

/-- An atom that is invalid, or whose name is known, changes nothing. -/
theorem Remembers.concat_of_dropped {x : Atom} (h : p.Remembers validator past)
    (hdropped : x.id ∈ p.seen ∨ validator x ≠ .ok ()) : p.Remembers validator (past ++ [x]) := by
  intro id
  rw [h id]
  constructor
  · rintro ⟨y, hy, hvalid, hid⟩
    exact ⟨y, List.mem_append_left _ hy, hvalid, hid⟩
  · rintro ⟨y, hy, hvalid, hid⟩
    rcases List.mem_append.1 hy with hy | hy
    · exact ⟨y, hy, hvalid, hid⟩
    · obtain rfl := List.mem_singleton.1 hy
      rcases hdropped with hknown | hinvalid
      · exact hid ▸ (h y.id).1 hknown
      · exact absurd hvalid hinvalid

theorem Remembers.concat_of_delivered {x : Atom} {q : Pump} (h : p.Remembers validator past)
    (hvalid : validator x = .ok ()) (hseen : q.seen = p.seen.insert x.id) :
    q.Remembers validator (past ++ [x]) := by
  intro id
  rw [hseen, ExtTreeSet.mem_insert, h id, Std.compare_eq_iff_eq]
  constructor
  · rintro (hid | ⟨y, hy, hyvalid, hid⟩)
    · exact ⟨x, by simp, hvalid, hid⟩
    · exact ⟨y, List.mem_append_left _ hy, hyvalid, hid⟩
  · rintro ⟨y, hy, hyvalid, hid⟩
    rcases List.mem_append.1 hy with hy | hy
    · exact .inr ⟨y, hy, hyvalid, hid⟩
    · obtain rfl := List.mem_singleton.1 hy
      exact .inl hid

/-- The pump goes on remembering what it has heard. -/
theorem Does.remembers (h : p.Does validator e out) (hp : p.Remembers validator past) :
    out.pump.Remembers validator (past ++ (p.heard? e).toList) := by
  cases h with
  | silent _ hseen _ hdropped =>
    cases hheard : p.heard? e with
    | none => simpa using hp.of_seen_eq hseen
    | some x => exact (hp.concat_of_dropped (hdropped x hheard)).of_seen_eq hseen
  | delivers _ hheard _ hvalid hseen =>
    rw [hheard]
    exact hp.concat_of_delivered hvalid hseen
  | givesUp _ hseen _ _ hheard =>
    rw [hheard]
    simpa using hp.of_seen_eq hseen

/-- The pump passes on what is valid and the first with its name to be so. -/
theorem Does.told_eq_firstValid (h : p.Does validator e out) (hp : p.Remembers validator past) :
    out.told.toList.filterMap FeedEvent.atom? =
      firstValid validator past (p.heard? e).toList := by
  cases h with
  | silent htold _ _ hdropped =>
    rw [htold]
    cases hheard : p.heard? e with
    | none => rfl
    | some x =>
      refine (firstValid_of_dropped fun hvalid => ?_).symm
      rcases hdropped x hheard with hknown | hinvalid
      · exact (hp x.id).1 hknown
      · exact absurd hvalid hinvalid
  | @delivers x htold hheard hnew hvalid =>
    rw [htold, hheard]
    refine (firstValid_of_new hvalid fun y hy hyvalid hid => ?_).symm
    exact hnew ((hp x.id).2 ⟨y, hy, hyvalid, hid⟩)
  | givesUp htold _ _ _ hheard =>
    rw [htold, hheard]
    rfl

theorem verdict_eq_delivered_iff {x : Atom} :
    p.verdict validator x = .delivered ↔ x.id ∉ p.seen ∧ validator x = .ok () := by
  unfold verdict
  by_cases hknown : x.id ∈ p.seen
  · simp [hknown]
  · cases validator x <;> simp [hknown]

/-- There is a verdict on every atom that the pump hears, and on nothing else. -/
theorem verdict_handle (policy : RetryPolicy) (validator : AtomValidator) (now : Nat) (p : Pump)
    (e : TransportEvent) : (p.handle policy validator now e).verdict =
      (p.heard? e).map (p.verdict validator) := by
  have hdisconnect : ∀ last, (p.disconnect policy now last).verdict = none := by
    intro last
    simp only [disconnect]
    split <;> rfl
  have htake : ∀ x, (p.take validator x).verdict = some (p.verdict validator x) := by
    intro x
    have hsame : Pump.verdict validator { p with failures := 0 } x = p.verdict validator x := rfl
    simp only [take, hsame]
    cases p.verdict validator x <;> rfl
  obtain ⟨phase, failures, seen⟩ := p
  cases phase with
  | connecting => cases e <;> first | rfl | exact hdisconnect _
  | streaming line => cases e <;> first | rfl | exact hdisconnect _ | exact htake _
  | waiting due =>
    cases e with
    | elapsed =>
      simp only [handle]
      split <;> rfl
    | _ => rfl
  | stopped => rfl

end Pump

namespace DeliveryFilter

variable {f : DeliveryFilter} {a b : Address} {id now : Nat} {op : Operation}
  {e : TransportEvent} {past : List Atom}

/-- The atoms that a feed passes on to its subscribers. -/
def delivered (f : DeliveryFilter) (op : Operation) : List Atom :=
  (f.said op).filterMap FeedEvent.atom?

/-- The pump of the address keeps the names of the valid atoms among those heard. -/
def Remembers (f : DeliveryFilter) (a : Address) (past : List Atom) : Prop :=
  ∀ feed, f.feeds[a]? = some feed → feed.pump.Remembers f.validator past

namespace Remembers

theorem empty (policy : RetryPolicy) (validator : AtomValidator) :
    (DeliveryFilter.empty policy validator).Remembers a [] := by
  simp [Remembers, DeliveryFilter.empty]

/-- A subscription that joins a feed changes nothing; a new feed has heard nothing. -/
theorem subscribe (h : f.Remembers a past) :
    (f.subscribe b).Remembers a (if f.opens a (.subscribe b) then [] else past) := by
  intro feed hfeed
  rw [getElem?_feeds_subscribe] at hfeed
  rw [validator_subscribe]
  by_cases hb : a = b
  · subst hb
    rw [if_pos rfl, Option.some_inj] at hfeed
    subst hfeed
    unfold feedToJoin
    cases hold : f.feeds[a]? with
    | none => simpa [opens, hold] using Pump.remembers_opened _
    | some old =>
      by_cases hjoin : old.joinable
      · simpa [opens, hold, hjoin] using h old hold
      · simpa [opens, hold, hjoin] using Pump.remembers_opened _
  · rw [if_neg hb] at hfeed
    simpa [opens, Ne.symm hb] using h feed (Option.filter_eq_some_iff.1 hfeed).1

theorem unsubscribe (h : f.Remembers a past) : (f.unsubscribe id).Remembers a past := by
  intro feed hfeed
  rw [getElem?_feeds_unsubscribe] at hfeed
  rw [validator_unsubscribe]
  obtain ⟨old, hold, rfl⟩ := Option.map_eq_some_iff.1 hfeed
  split
  · exact (h old hold).of_seen_eq Feed.seen_pump_leave
  · exact h old hold

theorem handle (h : f.Remembers a past) :
    (f.handle now b e).Remembers a (past ++ f.ofPump a heard (.meets now b e)) := by
  intro feed hfeed
  rw [getElem?_feeds_handle] at hfeed
  rw [validator_handle]
  obtain ⟨old, hold, rfl⟩ := Option.map_eq_some_iff.1 hfeed
  by_cases hb : a = b
  · subst hb
    have hdoes := old.pump.does_handle f.policy f.validator now e
    have hheard : f.ofPump a heard (.meets now a e) = (old.pump.heard? e).toList := by
      simp [heard, hold]
    rw [if_pos rfl, hheard]
    exact hdoes.remembers (h old hold)
  · simpa [hb, Ne.symm hb] using h old hold

/-- The pump of an address remembers what its feed has heard. -/
theorem after (h : f.Remembers a past) : (f.after op).Remembers a
    (if f.opens a op then [] else past ++ f.ofPump a heard op) := by
  cases op with
  | subscribe b => simpa using h.subscribe
  | unsubscribe id => simpa [opens] using h.unsubscribe
  | next id =>
    intro feed hfeed
    rw [after_next, feeds_next] at hfeed
    simpa [opens] using h feed hfeed
  | meets now b e => exact h.handle

theorem afterAll (h : f.Remembers a past) (ops : List Operation) :
    (f.afterAll ops).Remembers a (f.history a past ops) := by
  induction ops generalizing f past with
  | nil => exact h
  | cons op rest ih => exact ih h.after

/-- What the feed of an address delivers is valid and the first with its name to be so. -/
theorem ofPump_delivered (h : f.Remembers a past) :
    f.ofPump a delivered op = firstValid f.validator past (f.ofPump a heard op) := by
  cases op with
  | meets now b e =>
    by_cases hb : b = a
    · subst hb
      cases hfeed : f.feeds[b]? with
      | none => simp [heard, delivered, said, hfeed, firstValid]
      | some feed =>
        have hdoes := feed.pump.does_handle f.policy f.validator now e
        have htold := hdoes.told_eq_firstValid (h feed hfeed)
        simpa [heard, delivered, said, hfeed] using htold
    · simp [hb, firstValid]
  | _ => simp [firstValid]

end Remembers

/-! ## What is counted -/

/-- The counts agree with what was heard and what was delivered. -/
structure Counted (n : DeliveryCounts) (arrived passed : List Atom) : Prop where
  received : n.received = arrived.length
  dropped : n.duplicate + n.rejected + passed.length = arrived.length

theorem Counted.handle {n : DeliveryCounts} {arrived passed : List Atom} (h : Counted n arrived passed)
    (policy : RetryPolicy) (validator : AtomValidator) (now : Nat) (p : Pump) (e : TransportEvent) :
    Counted ((p.handle policy validator now e).verdict.elim n n.count)
      (arrived ++ (p.heard? e).toList)
      (passed ++ (p.handle policy validator now e).told.toList.filterMap FeedEvent.atom?) := by
  have hdoes := p.does_handle policy validator now e
  rw [Pump.verdict_handle]
  generalize p.handle policy validator now e = out at hdoes
  obtain ⟨hreceived, hdropped⟩ := h
  cases hdoes with
  | silent htold _ _ hsilent =>
    rw [htold]
    cases hheard : p.heard? e with
    | none => exact ⟨by simpa using hreceived, by simpa using hdropped⟩
    | some x =>
      have hverdict : p.verdict validator x ≠ .delivered := by
        intro hdelivered
        obtain ⟨hnew, hvalid⟩ := Pump.verdict_eq_delivered_iff.1 hdelivered
        rcases hsilent x hheard with hknown | hinvalid
        · exact hnew hknown
        · exact hinvalid hvalid
      rw [Option.map_some, Option.elim_some]
      constructor
      · cases p.verdict validator x <;> simp [DeliveryCounts.count, hreceived]
      · cases hv : p.verdict validator x with
        | delivered => exact absurd hv hverdict
        | duplicate => simp [DeliveryCounts.count]; omega
        | rejected => simp [DeliveryCounts.count]; omega
  | @delivers x htold hheard hnew hvalid =>
    have hverdict : p.verdict validator x = .delivered :=
      Pump.verdict_eq_delivered_iff.2 ⟨hnew, hvalid⟩
    rw [htold, hheard, Option.map_some, hverdict]
    exact ⟨by simp [DeliveryCounts.count, hreceived],
      by simp [DeliveryCounts.count]; omega⟩
  | givesUp htold _ _ _ hheard =>
    rw [htold, hheard]
    exact ⟨by simpa using hreceived, by simpa [List.filterMap_cons] using hdropped⟩

theorem Counted.after {arrived passed : List Atom} (h : Counted f.counts arrived passed) :
    Counted (f.after op).counts (arrived ++ f.heard op) (passed ++ f.delivered op) := by
  cases op with
  | subscribe b =>
    have hsame : (f.subscribe b).counts = f.counts := rfl
    simpa [heard, delivered, said, hsame] using h
  | unsubscribe id =>
    have hsame : (f.unsubscribe id).counts = f.counts := by
      unfold unsubscribe
      cases f.subscriptions[id]? <;> rfl
    simpa [heard, delivered, said, hsame] using h
  | next id =>
    have hsame : (f.next id).1.counts = f.counts := by
      unfold next
      cases f.subscriptions[id]? <;> rfl
    simpa [heard, delivered, said, hsame] using h
  | meets now b e =>
    cases hfeed : f.feeds[b]? with
    | none => simpa [heard, delivered, said, hfeed, DeliveryFilter.handle] using h
    | some feed =>
      have hcounts : (f.handle now b e).counts =
          (feed.pump.handle f.policy f.validator now e).verdict.elim f.counts f.counts.count := by
        simp only [DeliveryFilter.handle, hfeed]
        cases (feed.pump.handle f.policy f.validator now e).told <;> rfl
      have hheard : f.heard (.meets now b e) = (feed.pump.heard? e).toList := by
        simp [heard, hfeed]
      have hsaid : f.said (.meets now b e) =
          (feed.pump.handle f.policy f.validator now e).told.toList := by
        simp [said, hfeed]
      rw [after_meets, hcounts, hheard, delivered, hsaid]
      exact h.handle f.policy f.validator now feed.pump e

theorem Counted.afterAll {arrived passed : List Atom} (h : Counted f.counts arrived passed)
    (ops : List Operation) : Counted (f.afterAll ops).counts (arrived ++ f.collect heard ops)
      (passed ++ f.collect delivered ops) := by
  induction ops generalizing f arrived passed with
  | nil => simpa using h
  | cons op rest ih => simpa using ih h.after

end DeliveryFilter

end ParticleLedger
