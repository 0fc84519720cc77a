import Mathlib.Data.Set.Card
import ParticleLedger.Proofs.MapSum
import ParticleLedger.Proofs.Reconciler.Pending
import ParticleLedger.Proofs.Reconciler.WorkLoop

/-!
# Atoms that wait twice

An atom waits under the first coin that it misses. Which coin that is may change while it waits: a
coin that it lists earlier may be spent by another atom. If it is offered again then, it is put under
that coin as well, and is counted twice from then on.

That is the only way: as long as every atom that is offered while it waits is found under the first
coin that it misses then, no name waits under two coins, and the number of entries is the number of
atoms that wait.

Main statements: `LedgerView.card_waitingIds_eq_iff` (what the number of entries counts),
`Apart.workInvariant` (a run over an atom that does not wait), `waitsOnce_accept` and its converse
`missing?_of_waitsOnce`, `waitsOnce_iff_reofferedInPlace` and `pendingLen_exact`.
-/

namespace ParticleLedger

namespace LedgerView

variable {scope : Scope} {s s' : LedgerView} {work unblocked : List Atom} {a : Atom}

/-! ## Counting what waits -/

/-- No name waits under two coins. -/
def WaitsOnce (s : LedgerView) : Prop :=
  ∀ (j k : ParticleId) (b c : Atom), s.pending[j]? = some b → s.pending[k]? = some c →
    b.id = c.id → j = k

theorem nodup_waiting_iff :
    (s.pending.toList.map fun entry => entry.2.id).Nodup ↔ s.WaitsOnce := by
  rw [List.nodup_map_iff_inj_on (nodup_toList _)]
  constructor
  · intro h j k b c hb hc hid
    have hj := Std.ExtTreeMap.mem_toList_iff_getElem?_eq_some.2 hb
    have hk := Std.ExtTreeMap.mem_toList_iff_getElem?_eq_some.2 hc
    exact (Prod.mk.inj (h _ hj _ hk hid)).1
  · rintro h ⟨j, b⟩ hj ⟨k, c⟩ hk hid
    have hb := Std.ExtTreeMap.mem_toList_iff_getElem?_eq_some.1 hj
    have hc := Std.ExtTreeMap.mem_toList_iff_getElem?_eq_some.1 hk
    obtain rfl := h j k b c hb hc hid
    rw [Option.some_inj.1 (hb.symm.trans hc)]

/-- There are at least as many entries as names that wait. -/
theorem card_waitingIds_le : s.waitingIds.card ≤ s.pending.size := by
  rw [waitingIds, ← Std.ExtTreeMap.length_toList,
    ← List.length_map fun entry : ParticleId × Atom => entry.2.id]
  exact List.toFinset_card_le _

/-- There are as many exactly if no name waits under two coins. -/
theorem card_waitingIds_eq_iff : s.pending.size = s.waitingIds.card ↔ s.WaitsOnce := by
  rw [← nodup_waiting_iff, waitingIds, ← Std.ExtTreeMap.length_toList,
    ← List.length_map fun entry : ParticleId × Atom => entry.2.id, eq_comm]
  exact Multiset.toFinset_card_eq_card_iff_nodup

/-! ## A run over an atom that does not wait -/

/-- No two of the atoms that wait and of those still to be worked through have one name. -/
structure Apart (s : LedgerView) (work : List Atom) : Prop where
  waits_once : s.WaitsOnce
  work_nodup : (work.map Atom.id).Nodup
  not_waiting : ∀ w ∈ work, ∀ (k : ParticleId) (b : Atom), s.pending[k]? = some b → b.id ≠ w.id

namespace Apart

theorem known (h : s.Apart (a :: work)) : s.Apart work where
  waits_once := h.waits_once
  work_nodup := (List.nodup_cons.1 h.work_nodup).2
  not_waiting w hw := h.not_waiting w (List.mem_cons_of_mem _ hw)

/-- An atom that has to wait leaves the work, and no other one there has its name. -/
theorem blocked (h : s.Apart (a :: work)) (hs : s.analyse scope a = .blocked s') :
    s'.Apart work := by
  obtain ⟨-, -, -, -, hfrom⟩ := pending_of_blocked hs
  have hother := h.not_waiting a List.mem_cons_self
  refine ⟨?_, h.known.work_nodup, ?_⟩
  · intro i j b c hb hc hid
    rcases hfrom i b hb with hb | ⟨rfl, hi⟩
    · rcases hfrom j c hc with hc | ⟨rfl, -⟩
      · exact h.waits_once i j b c hb hc hid
      · exact absurd hid (hother i b hb)
    · rcases hfrom j c hc with hc | ⟨rfl, hj⟩
      · exact absurd hid.symm (hother j c hc)
      · exact Option.some_inj.1 (hi.symm.trans hj)
  · intro w hw j b hb
    rcases hfrom j b hb with hb | ⟨rfl, -⟩
    · exact h.known.not_waiting w hw j b hb
    · intro hid
      exact (List.nodup_cons.1 h.work_nodup).1 (hid ▸ List.mem_map_of_mem hw)

/-- What is released leaves the waiting atoms when it joins the work. -/
theorem applied (h : s.Apart (a :: work)) (hs : s.analyse scope a = .applied s' unblocked) :
    s'.Apart (unblocked ++ work) := by
  obtain ⟨-, hfits, rfl, rfl⟩ := analyse_eq_applied hs
  have hreleased : ∀ w ∈ (release s.pending (scope.creates a)).2,
      ∃ k ∈ scope.creates a, s.pending[k]? = some w := fun w hw => (mem_release _ _).1 hw
  refine ⟨?_, ?_, ?_⟩
  · intro i j b c hb hc
    exact h.waits_once i j b c (getElem?_release_eq_some_iff.1 hb).2
      (getElem?_release_eq_some_iff.1 hc).2
  · rw [List.map_append, List.nodup_append]
    refine ⟨?_, h.known.work_nodup, ?_⟩
    · rw [release_of_nodup hfits.creates_nodup, List.map_filterMap]
      refine hfits.creates_nodup.filterMap fun i j id hi hj => ?_
      obtain ⟨b, hb, rfl⟩ := Option.map_eq_some_iff.1 hi
      obtain ⟨c, hc, hid⟩ := Option.map_eq_some_iff.1 hj
      exact h.waits_once i j b c hb hc hid.symm
    · intro id hid id' hid' heq
      obtain ⟨b, hb, rfl⟩ := List.mem_map.1 hid
      obtain ⟨w, hw, rfl⟩ := List.mem_map.1 hid'
      obtain ⟨k, -, hk⟩ := hreleased b hb
      exact h.known.not_waiting w hw k b hk heq
  · intro w hw k b hb
    obtain ⟨hk, hb⟩ := getElem?_release_eq_some_iff.1 hb
    rcases List.mem_append.1 hw with hw | hw
    · obtain ⟨j, hj, hwaits⟩ := hreleased w hw
      intro hid
      exact hk (h.waits_once k j b w hb hwaits hid ▸ hj)
    · exact h.known.not_waiting w hw k b hb

/-- No analysis lets a name wait twice, as long as none is worked through that waits. -/
theorem workInvariant (scope : Scope) : WorkInvariant scope fun s _ work => s.Apart work where
  known h _ := h.known
  blocked := blocked
  applied := applied

end Apart

end LedgerView

/-! ## One offer -/

namespace Reconciler

variable {r : Reconciler} {a b : Atom} {k : ParticleId}

/-- An offer lets no name wait twice, if the atom that is offered does not wait or waits for the
first coin that it misses. -/
theorem waitsOnce_accept (h : r.view.WaitsOnce)
    (hplace : ∀ (k : ParticleId) (b : Atom), r.view.pending[k]? = some b → b.id = a.id →
      r.view.missing? r.scope a = some k) :
    (r.accept a).reconciler.view.WaitsOnce := by
  cases hrun : r.halted with
  | some reason => rwa [accept_of_halted hrun]
  | none =>
    rw [accept_of_running hrun]
    show (r.view.run r.scope [a]).view.WaitsOnce
    by_cases hwaits : ∃ (k : ParticleId) (b : Atom), r.view.pending[k]? = some b ∧ b.id = a.id
    · -- Nothing changes: the atom is known already, or is found where it would be put.
      obtain ⟨k, b, hb, hid⟩ := hwaits
      have hsame : (r.view.run r.scope [a]).view = r.view := by
        by_cases hknown : a.id ∈ r.view.applied
        · rw [LedgerView.run_of_known (LedgerView.analyse_eq_known_iff.2 hknown), LedgerView.run]
        · have hblocked := LedgerView.decides_iff.1
            (.waitsAlready hknown (hplace k b hb hid) hb hid)
          rw [LedgerView.run_of_blocked hblocked, LedgerView.run]
      rwa [hsame]
    · have hapart : r.view.Apart [a] := by
        refine ⟨h, List.nodup_singleton _, fun w hw k b hb hid => hwaits ⟨k, b, hb, ?_⟩⟩
        rw [hid, List.mem_singleton.1 hw]
      obtain ⟨left, hleft, -⟩ :=
        @WorkInvariant.run _ _ (LedgerView.Apart.workInvariant r.scope) r.view [] [a] hapart
      exact hleft.waits_once

/-- If an atom that waits is offered, misses a coin, and no name waits twice afterwards, then it
waited for the first coin that it misses. -/
theorem missing?_of_waitsOnce (hb : r.view.pending[k]? = some b) (hid : b.id = a.id)
    (hnew : a.id ∉ r.view.applied) (hmiss : ∃ j, r.view.missing? r.scope a = some j)
    (hrun : (r.accept a).reconciler.halted = none)
    (h : (r.accept a).reconciler.view.WaitsOnce) : r.view.missing? r.scope a = some k := by
  obtain ⟨j, hj⟩ := hmiss
  have hbefore : r.halted = none := by
    cases hhalted : r.halted with
    | none => rfl
    | some reason =>
      rw [accept_of_halted hhalted, hhalted] at hrun
      contradiction
  rw [accept_of_running hbefore] at hrun h
  suffices hjk : j = k by rw [hj, hjk]
  cases hthere : r.view.pending[j]? with
  | none =>
    rw [LedgerView.accept_of_missing hnew hj hthere] at h
    have hjk : j ≠ k := by
      rintro rfl
      rw [hb] at hthere
      contradiction
    refine h j k a b ?_ ?_ hid.symm
    · exact Std.ExtTreeMap.getElem?_insert_self
    · show (r.view.pending.insert j a)[k]? = some b
      rw [Std.ExtTreeMap.getElem?_insert, if_neg (by simpa using hjk), hb]
  | some c =>
    by_cases hown : c.id = a.id
    · have hblocked := LedgerView.decides_iff.1 (.waitsAlready hnew hj hthere hown)
      rw [LedgerView.accept, LedgerView.run_of_blocked hblocked, LedgerView.run] at h
      exact h j k c b hthere hb (hown.trans hid.symm)
    · have hrefused := LedgerView.decides_iff.1 (.contends hnew hj hthere hown)
      rw [LedgerView.accept, LedgerView.run_of_refused hrefused] at hrun
      contradiction

end Reconciler

/-! ## Offers one after another -/

namespace Scope

open Reconciler (fresh)

variable {scope : Scope} {offered first : List Atom} {T : Set Atom}

/-- Whenever an atom is offered while it waits, it is waiting for the first coin that it misses. -/
def ReofferedInPlace (scope : Scope) (offered : List Atom) : Prop :=
  ∀ (before : List Atom) (a : Atom) (after : List Atom), offered = before ++ a :: after →
    ∀ (k : ParticleId) (b : Atom), ((fresh scope).acceptAll before).view.pending[k]? = some b →
      b.id = a.id → ((fresh scope).acceptAll before).view.missing? scope a = some k

/-- No coin is spent by two of the atoms. -/
def Unrivalled (scope : Scope) (S : Set Atom) : Prop :=
  ∀ a ∈ S, ∀ b ∈ S, ∀ k ∈ scope.consumed a, k ∈ scope.consumed b → a = b

theorem ReofferedInPlace.of_prefix (h : scope.ReofferedInPlace offered)
    (hinit : first <+: offered) : scope.ReofferedInPlace first := by
  obtain ⟨later, rfl⟩ := hinit
  rintro before a after rfl
  exact h before a (after ++ later) (by simp)

/-- If every atom that is offered again is found in its place, no name waits twice. -/
theorem ReofferedInPlace.waitsOnce (h : scope.ReofferedInPlace offered) :
    ((fresh scope).acceptAll offered).view.WaitsOnce := by
  induction offered using List.reverseRecOn with
  | nil =>
    intro j k b c hb
    simp [Reconciler.acceptAll, fresh, LedgerView.empty] at hb
  | append_singleton offered a ih =>
    have hbefore := ih (h.of_prefix (List.prefix_append _ _))
    rw [Reconciler.acceptAll_concat]
    refine Reconciler.waitsOnce_accept hbefore fun k b hb hid => ?_
    rw [show ((fresh scope).acceptAll offered).scope = scope from Reconciler.scope_acceptAll _]
    exact h offered a [] rfl k b hb hid

/-- That is the only way, if names tell the atoms apart. -/
theorem waitsOnce_iff_reofferedInPlace (hnames : (bareAtoms offered).InjOn Atom.id)
    (hrun : ((fresh scope).acceptAll offered).halted = none) :
    (∀ first, first <+: offered → ((fresh scope).acceptAll first).view.WaitsOnce) ↔
      scope.ReofferedInPlace offered := by
  constructor
  · rintro h before a after rfl k b hb hid
    have hinit : before <+: before ++ a :: after := List.prefix_append _ _
    have hnext : before ++ [a] <+: before ++ a :: after := ⟨after, by simp⟩
    have hunsent := Reconciler.unsent_acceptAll (Reconciler.running_of_front hinit hrun)
    have hsub : bareAtoms before ⊆ bareAtoms (before ++ a :: after) :=
      Set.image_mono fun x hx => List.mem_append_left _ hx
    have hbare : b.bare = a.bare :=
      hnames (hsub ⟨b, hunsent.kept.waiting_mem k b hb, rfl⟩) ⟨a, by simp, rfl⟩ hid
    have hnew := hunsent.waiting_new (hnames.mono hsub) hb
    obtain ⟨hk, hmissing⟩ := hunsent.kept.waiting_missing k b hb
    rw [Atom.consumed_eq_of_bare hbare] at hk
    have hscope : ((fresh scope).acceptAll before).scope = scope := Reconciler.scope_acceptAll _
    have hmiss : ∃ j, ((fresh scope).acceptAll before).view.missing? scope a = some j := by
      rw [← Option.ne_none_iff_exists', Ne, LedgerView.missing?_eq_none_iff]
      exact fun hall => hmissing (hall k hk)
    have hrunNext := Reconciler.running_of_front hnext hrun
    have hafter := h _ hnext
    rw [Reconciler.acceptAll_concat] at hrunNext hafter
    have hplace := Reconciler.missing?_of_waitsOnce hb hid (hid ▸ hnew)
      (by rw [hscope]; exact hmiss) hrunNext hafter
    rwa [hscope] at hplace
  · intro h first hinit
    exact (h.of_prefix hinit).waitsOnce

/-! ### When every atom is found in its place -/

/-- An atom that is offered for the first time does not wait yet. -/
theorem reofferedInPlace_of_nodup (hdistinct : (offered.map Atom.id).Nodup)
    (hrun : ((fresh scope).acceptAll offered).halted = none) :
    scope.ReofferedInPlace offered := by
  rintro before a after rfl k b hb hid
  have hinit : before <+: before ++ a :: after := List.prefix_append _ _
  have hunsent := Reconciler.unsent_acceptAll (Reconciler.running_of_front hinit hrun)
  have hmem : b ∈ before := hunsent.kept.waiting_mem k b hb
  rw [List.map_append, List.nodup_append] at hdistinct
  exact absurd hid (hdistinct.2.2 b.id (List.mem_map_of_mem hmem) a.id (by simp))

/-- All atoms come from `T`, and each that waits does so for the first coin that it misses. -/
structure Queued (scope : Scope) (T : Set Atom) (s : LedgerView) (emitted work : List Atom) :
    Prop where
  drawn : Drawn T s emitted work
  waiting_first : ∀ (k : ParticleId) (b : Atom), s.pending[k]? = some b →
    s.missing? scope b = some k

/-- Without rivals the coins that an atom found there stay there, so it goes on waiting for the
first coin that it misses. -/
theorem Queued.workInvariant (hfree : scope.Unrivalled (Atom.bare '' T)) :
    WorkInvariant scope (scope.Queued T) where
  known h _ := ⟨h.drawn.known, h.waiting_first⟩
  blocked h hs := ⟨h.drawn.blocked hs, fun _ _ hb =>
    LedgerView.missing?_of_blocked hs h.waiting_first hb⟩
  applied {s emitted a work s' unblocked} h hs := by
    refine ⟨h.drawn.applied hs, fun k b hb => ?_⟩
    obtain ⟨-, hfits, rfl, -⟩ := LedgerView.analyse_eq_applied hs
    obtain ⟨hk, hb⟩ := LedgerView.getElem?_release_eq_some_iff.1 hb
    have hmiss := h.waiting_first k b hb
    refine LedgerView.missing?_of_applied hs hmiss hk fun j hjb hja => ?_
    have hbare : b.bare = a.bare := hfree _ ⟨b, h.drawn.waiting_mem k b hb, rfl⟩ _
      ⟨a, h.drawn.work_mem a List.mem_cons_self, rfl⟩ j hjb hja
    -- The atom that is applied misses nothing, so it is no copy of the one that waits.
    have hka := LedgerView.mem_consumed_of_missing? hmiss
    rw [Atom.consumed_eq_of_bare hbare] at hka
    exact LedgerView.not_mem_of_missing? hmiss (hfits.spends_present k hka)

/-- If no two different atoms spend one coin, an atom that is offered again is found in place. -/
theorem reofferedInPlace_of_unrivalled (hnames : (bareAtoms offered).InjOn Atom.id)
    (hfree : scope.Unrivalled (bareAtoms offered)) : scope.ReofferedInPlace offered := by
  rintro before a after rfl k b hb hid
  have hempty : scope.Queued {x | x ∈ before ++ a :: after} .empty [] [] :=
    ⟨⟨by simp, by simp, by simp [LedgerView.empty]⟩, by simp [LedgerView.empty]⟩
  obtain ⟨-, left, hqueued, -⟩ :=
    @WorkInvariant.acceptAll scope {x | x ∈ before ++ a :: after}
      (fun _ => scope.Queued {x | x ∈ before ++ a :: after})
      (fun _ => Queued.workInvariant hfree) hempty
      (fun h ha => ⟨⟨h.drawn.emitted_mem, by simpa using ha, h.drawn.waiting_mem⟩,
        h.waiting_first⟩)
      before fun x hx => List.mem_append_left _ hx
  have hbare : b.bare = a.bare :=
    hnames ⟨b, hqueued.drawn.waiting_mem k b hb, rfl⟩ ⟨a, by simp, rfl⟩ hid
  have hmiss := hqueued.waiting_first k b hb
  unfold LedgerView.missing? at hmiss ⊢
  rwa [← Atom.consumed_eq_of_bare hbare]

end Scope

/-! ## The number of entries -/

namespace Reconciler

variable {scope : Scope} {offered : List Atom}

/-- While no violation was met, the names that wait are those of the atoms that were offered and not
passed on. -/
theorem ncard_unsent (hnames : (bareAtoms offered).InjOn Atom.id)
    (hrun : ((fresh scope).acceptAll offered).halted = none) :
    (bareAtoms offered \ bareAtoms ((fresh scope).emissions offered)).ncard =
      ((fresh scope).acceptAll offered).view.waitingIds.card := by
  have hunsent := unsent_acceptAll hrun
  have himage : Atom.id '' (bareAtoms offered \ bareAtoms ((fresh scope).emissions offered)) =
      ((fresh scope).acceptAll offered).view.waitingIds := by
    ext id
    rw [Finset.mem_coe, LedgerView.mem_waitingIds]
    constructor
    · rintro ⟨_, ⟨⟨a, ha, rfl⟩, hnot⟩, rfl⟩
      obtain ⟨k, b, hb, hbare⟩ := hunsent.exists_waiting hnames ha ha hnot
      exact ⟨k, b, hb, Atom.id_eq_of_bare hbare⟩
    · rintro ⟨k, b, hb, rfl⟩
      have hmem : b ∈ offered := hunsent.kept.waiting_mem k b hb
      exact ⟨b.bare, ⟨⟨b, hmem, rfl⟩, hunsent.waiting_unsent k b hb⟩, rfl⟩
  rw [← Set.ncard_coe_finset, ← himage, (hnames.mono Set.sdiff_subset).ncard_image]

/-- **What the number of entries counts.** As long as no violation is met and names tell the offered
atoms apart: at any time there are at least as many entries as atoms that were offered and not passed
on, and as many exactly if no name waits under two coins. That is so at all times exactly if every
atom that is offered while it waits is found under the first coin that it misses then; and that is so
if no atom is offered twice, and if no two different atoms spend one coin. -/
theorem pendingLen_exact (scope : Scope) (offered : List Atom)
    (hnames : (bareAtoms offered).InjOn Atom.id)
    (hrun : ((fresh scope).acceptAll offered).halted = none) :
    let r := fun first => (fresh scope).acceptAll first
    let unsent := fun first => bareAtoms first \ bareAtoms ((fresh scope).emissions first)
    (∀ first, first <+: offered → (unsent first).ncard ≤ (r first).pendingLen ∧
      ((r first).pendingLen = (unsent first).ncard ↔ (r first).view.WaitsOnce)) ∧
    ((∀ first, first <+: offered → (r first).view.WaitsOnce) ↔
      scope.ReofferedInPlace offered) ∧
    ((offered.map Atom.id).Nodup ∨ scope.Unrivalled (bareAtoms offered) →
      scope.ReofferedInPlace offered) := by
  intro r unsent
  refine ⟨fun first hinit => ?_, Scope.waitsOnce_iff_reofferedInPlace hnames hrun, ?_⟩
  · have hsub : bareAtoms first ⊆ bareAtoms offered := Set.image_mono fun x hx => hinit.subset hx
    rw [show (unsent first).ncard = _ from
      ncard_unsent (hnames.mono hsub) (running_of_front hinit hrun)]
    exact ⟨LedgerView.card_waitingIds_le, LedgerView.card_waitingIds_eq_iff⟩
  · rintro (hdistinct | hfree)
    · exact Scope.reofferedInPlace_of_nodup hdistinct hrun
    · exact Scope.reofferedInPlace_of_unrivalled hnames hfree

end Reconciler

/-! ## An atom that is offered again too late -/

namespace Sample

open LedgerView (replay)

/-- The view after the coin was created. -/
def issued : LedgerView := ⟨replay scope ∅ issue, ∅, LedgerView.empty.applied.insert issue.id⟩

/-- An atom that spends the coin and the golden one, which is not there, waits for the latter. -/
def meltWaits : LedgerView :=
  { issued with pending := issued.pending.insert gold.id melt }

/-- The coin is spent by another atom. -/
def coinSpent : LedgerView :=
  ⟨replay scope meltWaits.unconsumed spend, meltWaits.pending, meltWaits.applied.insert spend.id⟩

/-- The atom that waits has been offered again, and waits for the coin as well. -/
def meltWaitsTwice : LedgerView :=
  { coinSpent with pending := coinSpent.pending.insert coin.id melt }

theorem distinct_meltdown : ([issue, melt, spend].map Atom.id).Nodup :=
  Atom.nodup_ids_of_leadingBytes (by simp [leadingByte_issue, leadingByte_melt, leadingByte_spend])

theorem meltdown_ne : issue.id ≠ melt.id ∧ issue.id ≠ spend.id ∧ melt.id ≠ spend.id := by
  simpa [and_assoc] using distinct_meltdown

theorem mem_unconsumed_issued {k : ParticleId} : k ∈ issued.unconsumed ↔ k = coin.id := by
  simp [issued, LedgerView.mem_replay]

theorem accept_first : LedgerView.empty.accept scope issue = ⟨issued, [issue], none⟩ :=
  LedgerView.accept_of_fits (by simp [LedgerView.empty])
    (by constructor <;> simp [LedgerView.empty]) rfl

theorem accept_melt : issued.accept scope melt = ⟨meltWaits, [], none⟩ := by
  refine LedgerView.accept_of_missing ?_ (LedgerView.missing?_eq_some_iff.2
    ⟨?_, [coin.id], [], consumed_melt, ?_⟩) (by simp [issued])
  · simpa [issued, LedgerView.empty] using meltdown_ne.1
  · rw [mem_unconsumed_issued]
    exact coin_id_ne_gold_id.symm
  · simp [mem_unconsumed_issued]

theorem accept_spend : meltWaits.accept scope spend = ⟨coinSpent, [spend], none⟩ := by
  refine LedgerView.accept_of_unawaited ?_ ?_ (by simp)
  · simpa [meltWaits, issued, LedgerView.empty] using meltdown_ne.2.1
  · constructor <;> simp [meltWaits, mem_unconsumed_issued]

theorem accept_melt_again : coinSpent.accept scope melt = ⟨meltWaitsTwice, [], none⟩ := by
  refine LedgerView.accept_of_missing ?_ (LedgerView.missing?_eq_some_iff.2
    ⟨?_, [], [gold.id], consumed_melt, by simp⟩) ?_
  · obtain ⟨hissue, -, hspend⟩ := meltdown_ne
    simpa [coinSpent, meltWaits, issued, LedgerView.empty] using ⟨hspend.symm, hissue⟩
  · simp [coinSpent, LedgerView.mem_replay]
  · simp [coinSpent, meltWaits, issued, coin_id_ne_gold_id.symm]

end Sample

namespace Reconciler

/-- A reconciler of a scope that has met no violation has come to a view. -/
structure At (r : Reconciler) (scope : Scope) (s : LedgerView) : Prop where
  scope_eq : r.scope = scope
  view_eq : r.view = s
  running : r.halted = none

/-- An offer that meets no violation takes it to the next view, and passes on what the view does. -/
theorem At.accept {r : Reconciler} {scope : Scope} {s s' : LedgerView} {a : Atom}
    {sent : List Atom} (h : r.At scope s) (hs : s.accept scope a = ⟨s', sent, none⟩) :
    (r.accept a).reconciler.At scope s' ∧ (r.accept a).emitted = sent := by
  rw [accept_of_running h.running, h.scope_eq, h.view_eq, hs]
  exact ⟨⟨rfl, rfl, rfl⟩, rfl⟩

/-- The coin was created, an atom that spends it waits for another coin, and the coin is spent. -/
theorem at_meltdown :
    ((fresh Sample.scope).acceptAll [Sample.issue, Sample.melt, Sample.spend]).At Sample.scope
        Sample.coinSpent ∧
      (fresh Sample.scope).emissions [Sample.issue, Sample.melt, Sample.spend] =
        [Sample.issue, Sample.spend] := by
  have hstart : (fresh Sample.scope).At Sample.scope .empty := ⟨rfl, rfl, rfl⟩
  obtain ⟨hissued, hfirst⟩ := hstart.accept Sample.accept_first
  obtain ⟨hwaits, hsecond⟩ := hissued.accept Sample.accept_melt
  obtain ⟨hspent, hthird⟩ := hwaits.accept Sample.accept_spend
  refine ⟨hspent, ?_⟩
  rw [emissions, emissions, emissions, emissions, hfirst, hsecond, hthird]
  rfl

/-- An atom waits for a coin, and another one that it spends is spent by a rival. No atom is offered
twice, so the number of entries is the number of atoms that wait. -/
theorem pendingLen_exact_rival :
    let offered := [Sample.issue, Sample.melt, Sample.spend]
    let r := (fresh Sample.scope).acceptAll offered
    (bareAtoms offered).InjOn Atom.id ∧ r.halted = none ∧
      r.pendingLen = (bareAtoms offered \ bareAtoms ((fresh Sample.scope).emissions offered)).ncard ∧
      Sample.scope.ReofferedInPlace offered := by
  intro offered r
  have hnames : (bareAtoms offered).InjOn Atom.id := injOn_id_bareAtoms Sample.distinct_meltdown
  have hrun : r.halted = none := at_meltdown.1.running
  obtain ⟨hcount, hplace, hdistinct⟩ := pendingLen_exact Sample.scope offered hnames hrun
  have hin : Sample.scope.ReofferedInPlace offered := hdistinct (.inl Sample.distinct_meltdown)
  have honce := hplace.2 hin offered (List.prefix_refl _)
  exact ⟨hnames, hrun, (hcount offered (List.prefix_refl _)).2.2 honce, hin⟩

/-- The atom that waits is offered again after the rival: it waits under both coins, and is counted
twice, though it is the only one that has not been passed on. -/
theorem waiting_atom_counted_twice :
    let offered := [Sample.issue, Sample.melt, Sample.spend, Sample.melt]
    let r := (fresh Sample.scope).acceptAll offered
    r.halted = none ∧ (bareAtoms offered).InjOn Atom.id ∧
      r.view.pending[Sample.coin.id]? = some Sample.melt ∧
      r.view.pending[Sample.gold.id]? = some Sample.melt ∧ Sample.coin.id ≠ Sample.gold.id ∧
      r.pendingLen = 2 ∧
      (bareAtoms offered \ bareAtoms ((fresh Sample.scope).emissions offered)).ncard = 1 := by
  intro offered r
  obtain ⟨hbefore, hpassed⟩ := at_meltdown
  obtain ⟨hafter, hnothing⟩ := hbefore.accept Sample.accept_melt_again
  have hr : r.At Sample.scope Sample.meltWaitsTwice := hafter
  have hemitted : (fresh Sample.scope).emissions offered = [Sample.issue, Sample.spend] := by
    rw [show offered = [Sample.issue, Sample.melt, Sample.spend] ++ [Sample.melt] from rfl,
      emissions_concat, hpassed, hnothing, List.append_nil]
  have hbare : bareAtoms offered = bareAtoms [Sample.issue, Sample.melt, Sample.spend] := by
    ext x
    simp [bareAtoms, offered]
    tauto
  have hnames : (bareAtoms offered).InjOn Atom.id :=
    hbare ▸ injOn_id_bareAtoms Sample.distinct_meltdown
  have hissue : Sample.issue.bare ≠ Sample.melt.bare :=
    fun h => Sample.meltdown_ne.1 (Atom.id_eq_of_bare h)
  have hspend : Sample.melt.bare ≠ Sample.spend.bare :=
    fun h => Sample.meltdown_ne.2.2 (Atom.id_eq_of_bare h)
  have hunsent : bareAtoms offered \ bareAtoms [Sample.issue, Sample.spend] =
      {Sample.melt.bare} := by
    rw [hbare]
    ext x
    simp only [bareAtoms, List.mem_cons, List.not_mem_nil, or_false, Set.mem_sdiff, Set.mem_image,
      Set.mem_ofPred_eq, exists_eq_or_imp, exists_eq_left, Set.mem_singleton_iff]
    grind
  have hsize : Sample.meltWaitsTwice.pending.size = 2 := by
    simp [Sample.meltWaitsTwice, Sample.coinSpent, Sample.meltWaits, Sample.issued,
      Std.ExtTreeMap.size_insert, Sample.coin_id_ne_gold_id.symm]
  refine ⟨hr.running, hnames, ?_, ?_, Sample.coin_id_ne_gold_id, ?_, ?_⟩
  · rw [hr.view_eq]
    exact Std.ExtTreeMap.getElem?_insert_self
  · rw [hr.view_eq]
    show ((Sample.issued.pending.insert Sample.gold.id Sample.melt).insert Sample.coin.id
      Sample.melt)[Sample.gold.id]? = some Sample.melt
    rw [Std.ExtTreeMap.getElem?_insert, if_neg (by simpa using Sample.coin_id_ne_gold_id),
      Std.ExtTreeMap.getElem?_insert_self]
  · rw [pendingLen, hr.view_eq, hsize]
  · rw [hemitted, hunsent, Set.ncard_singleton]

end Reconciler

end ParticleLedger
