import Mathlib.Logic.Relation
import ParticleLedger.Proofs.Reconciler.Convergence
import ParticleLedger.Reducer

/-!
# Which definition of a token is kept

Of the definitions of a token the one that is passed on last is kept. A reconciler fixes the order
of two atoms only if one of them depends on the other, so which definition is passed on last may
depend on the order of delivery.

Main statements: `getElem?_foldAtoms` (the definition kept), `ConflictFree.orderly_iff` and
`exists_delivery` (the orders in which atoms free of conflicts are passed on are the causal ones),
`Causal.exists_lastDefiner` with `Causal.exists_reordering` (who may have the last word on a token),
and `definitions_converge_iff`.
-/

namespace ParticleLedger

open Std (ExtTreeMap)

/-! ## What is kept -/

/-- The definition of a token that a particle carries. -/
def Particle.defines? (t : TokenRef) : Particle → Option TokenDefinition
  | .tokenDefinition d => if d.token = t then some d else none
  | _ => none

/-- The last definition of a token that an atom carries. -/
def Atom.defines? (t : TokenRef) (a : Atom) : Option TokenDefinition :=
  (a.particles.filterMap (·.defines? t)).getLast?

@[simp] theorem Atom.defines?_bare (t : TokenRef) (a : Atom) : a.bare.defines? t = a.defines? t := rfl

/-- What a list says last, one of its elements says, and those after it say nothing. -/
theorem exists_last_of_getLast? {α β : Type} {f : α → Option β} {l : List α} {b : β}
    (h : (l.filterMap f).getLast? = some b) :
    ∃ before x after, l = before ++ x :: after ∧ f x = some b ∧ ∀ y ∈ after, f y = none := by
  rw [List.getLast?_filterMap, List.findSome?_eq_some_iff] at h
  obtain ⟨after, x, before, hl, hx, hafter⟩ := h
  refine ⟨before.reverse, x, after.reverse, ?_, hx, by simpa using hafter⟩
  rw [List.reverse_eq_iff] at hl
  simpa using hl

namespace TokenDefinitions

variable {t : TokenRef}

theorem getElem?_after (known : TokenDefinitions) (p : Particle) :
    (known.after p)[t]? = (p.defines? t).or known[t]? := by
  cases p with
  | tokenDefinition d =>
    rw [after, ExtTreeMap.getElem?_insert, Particle.defines?]
    by_cases h : d.token = t <;> simp [h]
  | consumable c => rfl
  | consumer c => rfl
  | uniqueId u => rfl

/-- What is kept after a list of things that each may define the token. -/
theorem getElem?_foldl {α : Type} {f : α → Option TokenDefinition}
    {step : TokenDefinitions → α → TokenDefinitions}
    (h : ∀ known x, (step known x)[t]? = (f x).or known[t]?) (l : List α)
    (known : TokenDefinitions) :
    (l.foldl step known)[t]? = (l.filterMap f).getLast?.or known[t]? := by
  induction l using List.reverseRecOn with
  | nil => rfl
  | append_singleton l x ih =>
    rw [List.foldl_append, List.foldl_cons, List.foldl_nil, h, ih, List.filterMap_append,
      List.getLast?_append]
    cases hx : f x <;> simp [hx]

end TokenDefinitions

/-- The definition kept is the last one that is folded in. -/
theorem getElem?_foldAtoms (a : Address) (atoms : List Atom) (t : TokenRef) :
    (definitionReducer.foldAtoms a ∅ atoms)[t]? =
      (atoms.filterMap (·.defines? t)).getLast? := by
  have hatom : ∀ (known : TokenDefinitions) (x : Atom),
      (definitionReducer.foldAtom a known x)[t]? = (x.defines? t).or known[t]? := by
    intro known x
    rw [Reducer.foldAtom, Atom.events, List.foldl_map]
    exact TokenDefinitions.getElem?_foldl (fun known p => known.getElem?_after p) x.particles known
  rw [Reducer.foldAtoms, TokenDefinitions.getElem?_foldl hatom]
  simp

/-! ## Causal orders -/

namespace Scope

variable {scope : Scope} {S A : Set Atom} {history : List Atom} {x y : Atom} {t : TokenRef}

/-- The first atom spends a coin that the second creates. -/
def SpendsFrom (scope : Scope) (x y : Atom) : Prop :=
  ∃ k ∈ scope.consumed x, k ∈ scope.creates y

/-- No atom spends from itself or from a later one, and all that is spent is created. -/
structure Causal (scope : Scope) (history : List Atom) : Prop where
  forward : scope.NoRevival history
  not_self : ∀ e ∈ history, ¬scope.SpendsFrom e e
  created : ∀ e ∈ history, ∀ k ∈ scope.consumed e, ∃ x ∈ history, k ∈ scope.creates x

/-- Who spends from an atom of the history stands after it. -/
theorem Causal.mem_after {before after : List Atom} (h : scope.Causal (before ++ x :: after))
    (hy : y ∈ before ++ x :: after) (hspends : scope.SpendsFrom y x) : y ∈ after := by
  rcases List.mem_append.1 hy with hy | hy
  · obtain ⟨k, hk, hcreated⟩ := hspends
    exact absurd hcreated ((List.pairwise_append.1 h.forward).2.2 y hy x List.mem_cons_self k hk)
  · rcases List.mem_cons.1 hy with rfl | hy
    · exact absurd hspends (h.not_self y (by simp))
    · exact hy

/-- Distinct atoms free of conflicts fit what those before them leave exactly if their order is
causal. -/
theorem ConflictFree.orderly_iff (hfree : scope.ConflictFree S) (hS : ∀ e ∈ history, e.bare ∈ S)
    (hdistinct : (history.map Atom.id).Nodup) : scope.Orderly history ↔ scope.Causal history := by
  constructor
  · intro h
    refine ⟨hfree.noRevival hS hdistinct h, fun e he => ?_, fun e he k hk => h.exists_creates he hk⟩
    obtain ⟨before, after, rfl⟩ := List.append_of_mem he
    rintro ⟨k, hk, hcreated⟩
    exact (h before e after rfl).not_creates hk hcreated
  · rintro h before e after rfl
    have hnew : ∀ x ∈ before, x.id ≠ e.id := fun x hx =>
      (List.pairwise_append.1 (List.pairwise_map.1 hdistinct)).2.2 x hx e List.mem_cons_self
    refine ⟨fun k hk => ?_, fun k hk hpresent => ?_, hfree.creates_nodup e.bare (hS e (by simp))⟩
    · -- The coin was created before, and nobody else spends it.
      obtain ⟨x, hx, hkx⟩ := h.created e (by simp) k hk
      have hbefore : x ∈ before := by
        rcases List.mem_append.1 hx with hx | hx
        · exact hx
        · rcases List.mem_cons.1 hx with rfl | hx
          · exact absurd ⟨k, hk, hkx⟩ (h.not_self x (by simp))
          · have hlater := (List.pairwise_append.1 h.forward).2.1
            exact absurd hkx ((List.pairwise_cons.1 hlater).1 x hx k hk)
      obtain ⟨first, rest, rfl⟩ := List.append_of_mem hbefore
      refine LedgerView.mem_replayAll_iff.2 ⟨first, x, rest, rfl, hkx, fun y hy hky => ?_⟩
      exact hnew y (by simp [hy]) (Atom.id_eq_of_bare
        (hfree.spent_by_one _ (hS y (by simp [hy])) _ (hS e (by simp)) k hky hk))
    · obtain ⟨first, x, rest, rfl, hkx, -⟩ := LedgerView.mem_replayAll_iff.1 hpresent
      exact hnew x (by simp) (Atom.id_eq_of_bare
        (hfree.created_by_one _ (hS x (by simp)) _ (hS e (by simp)) k hkx hk))

/-- A causal order may be split: first what does not depend on some atoms, then the rest. -/
theorem Causal.split (h : scope.Causal history) (late : Atom → Bool)
    (hlate : ∀ x ∈ history, ∀ y ∈ history, late y → scope.SpendsFrom x y → late x) :
    scope.Causal (history.filter (!late ·) ++ history.filter late) := by
  have hmem : ∀ e, e ∈ history.filter (!late ·) ++ history.filter late ↔ e ∈ history := by
    intro e
    cases hl : late e <;> simp [hl]
  refine ⟨?_, fun e he => h.not_self e ((hmem e).1 he), fun e he k hk => ?_⟩
  · refine List.pairwise_append.2
      ⟨h.forward.filter _, h.forward.filter _, fun x hx y hy k hk hcreated => ?_⟩
    rw [List.mem_filter] at hx hy
    have hlx := hlate x hx.1 y hy.1 hy.2 ⟨k, hk, hcreated⟩
    simp [hlx] at hx
  · obtain ⟨x, hx, hkx⟩ := h.created e ((hmem e).1 he) k hk
    exact ⟨x, (hmem x).2 hx, hkx⟩

/-! ## Who may have the last word -/

/-- In every causal order of `A` the second atom comes after the first. -/
def Precedes (scope : Scope) (A : Set Atom) : Atom → Atom → Prop :=
  Relation.TransGen fun x y => y ∈ A ∧ scope.SpendsFrom y x

/-- The atom defines the token, and none that depends on it, directly or not, does so again. -/
structure LastDefiner (scope : Scope) (A : Set Atom) (t : TokenRef) (x : Atom) : Prop where
  mem : x ∈ A
  defines : x.defines? t ≠ none
  unrivalled : ∀ y, scope.Precedes A x y → y.defines? t = none

/-- In a causal order, what depends on an atom stands after it. -/
theorem Causal.exists_after {before after : List Atom} (h : scope.Causal (before ++ x :: after))
    (hy : scope.Precedes (bareAtoms (before ++ x :: after)) x.bare y) :
    ∃ z ∈ after, z.bare = y := by
  induction hy with
  | single hstep =>
    obtain ⟨⟨z, hz, rfl⟩, hspends⟩ := hstep
    exact ⟨z, h.mem_after hz hspends, rfl⟩
  | tail _ hstep ih =>
    obtain ⟨z, hz, rfl⟩ := ih
    obtain ⟨⟨v, hv, rfl⟩, hspends⟩ := hstep
    obtain ⟨between, rest, rfl⟩ := List.append_of_mem hz
    have hsplit : before ++ x :: (between ++ z :: rest) = (before ++ x :: between) ++ z :: rest := by
      simp
    rw [hsplit] at h
    have hmem : v ∈ (before ++ x :: between) ++ z :: rest := hsplit ▸ hv
    have hlater : v ∈ rest := h.mem_after hmem hspends
    exact ⟨v, by simp [hlater], rfl⟩

/-- In a causal order, the last atom that defines a token is one of those that may be. -/
theorem Causal.exists_lastDefiner (h : scope.Causal history) {d : TokenDefinition}
    (hd : (history.filterMap (·.defines? t)).getLast? = some d) :
    ∃ before x after, history = before ++ x :: after ∧ x.defines? t = some d ∧
      (∀ y ∈ after, y.defines? t = none) ∧ scope.LastDefiner (bareAtoms history) t x.bare := by
  obtain ⟨before, x, after, rfl, hx, hafter⟩ := exists_last_of_getLast? hd
  refine ⟨before, x, after, rfl, hx, hafter, ⟨⟨x, by simp, rfl⟩, by simp [hx], fun y hy => ?_⟩⟩
  obtain ⟨z, hz, rfl⟩ := h.exists_after hy
  exact hafter z hz

/-- Of two atoms that may be the last to define a token, neither depends on the other. -/
theorem LastDefiner.not_precedes {A : Set Atom} (hx : scope.LastDefiner A t x)
    (hy : scope.LastDefiner A t y) : ¬scope.Precedes A x y :=
  fun h => hy.defines (hx.unrivalled y h)

open Classical in
/-- Each of those who may define a token last does so in some causal order. -/
theorem Causal.exists_reordering (h : scope.Causal history)
    (hx : scope.LastDefiner (bareAtoms history) t x) :
    ∃ reordered : List Atom, reordered.Perm history ∧ scope.Causal reordered ∧
      (reordered.filterMap (·.defines? t)).getLast? = x.defines? t := by
  -- All that depends on the atom comes last, and nothing of that defines the token again.
  let late : Atom → Bool := fun y => y.bare = x ∨ scope.Precedes (bareAtoms history) x y.bare
  have hlate : ∀ y ∈ history, ∀ z ∈ history, late z → scope.SpendsFrom y z → late y := by
    intro y hy z hz hz' hspends
    have hstep : y.bare ∈ bareAtoms history ∧ scope.SpendsFrom y.bare z.bare :=
      ⟨⟨y, hy, rfl⟩, hspends⟩
    rcases of_decide_eq_true hz' with heq | hbefore
    · exact decide_eq_true (.inr (.single (heq ▸ hstep)))
    · exact decide_eq_true (.inr (.tail hbefore hstep))
  refine ⟨_, List.perm_append_comm.trans (List.filter_append_perm late history),
    h.split late hlate, ?_⟩
  obtain ⟨⟨e, he, rfl⟩, hdefines, hunrivalled⟩ := hx
  have hlast : ((history.filter late).filterMap (·.defines? t)).getLast? = e.bare.defines? t := by
    cases hd : ((history.filter late).filterMap (·.defines? t)).getLast? with
    | none =>
      have hnone := List.filterMap_eq_nil_iff.1 (List.getLast?_eq_none_iff.1 hd) e
        (List.mem_filter.2 ⟨he, decide_eq_true (.inl rfl)⟩)
      exact hnone.symm
    | some d =>
      obtain ⟨y, hy, hyd⟩ := List.mem_filterMap.1 (List.mem_of_getLast? hd)
      rcases of_decide_eq_true (List.mem_filter.1 hy).2 with heq | hafter
      · rw [← heq]
        exact hyd.symm
      · have hnone : y.defines? t = none := hunrivalled y.bare hafter
        rw [hnone] at hyd
        contradiction
  obtain ⟨d, hd⟩ := Option.ne_none_iff_exists'.1 hdefines
  rw [List.filterMap_append, List.getLast?_append, hlast, hd]
  rfl

end Scope

/-! ## Orders of delivery -/

namespace Reconciler

variable {scope : Scope} {S : Set Atom} {delivered : List Atom} {t : TokenRef} {x : Atom}

/-- The definitions that are kept after some deliveries. -/
def definitions (scope : Scope) (delivered : List Atom) : TokenDefinitions :=
  definitionReducer.foldAtoms scope.address ∅ ((fresh scope).emissions delivered)

theorem getElem?_definitions (scope : Scope) (delivered : List Atom) (t : TokenRef) :
    (definitions scope delivered)[t]? =
      (((fresh scope).emissions delivered).filterMap (·.defines? t)).getLast? :=
  getElem?_foldAtoms ..

/-- The order in which atoms free of conflicts are passed on is causal. -/
theorem causal_emissions (hnames : S.InjOn Atom.id) (hfree : scope.ConflictFree S)
    (hS : ∀ d ∈ delivered, d.bare ∈ S) : scope.Causal ((fresh scope).emissions delivered) := by
  have h := (settling_acceptAll hnames hfree hS).2
  exact (hfree.orderly_iff h.waiting.emitted_mem h.records.distinct).1 h.records.orderly

/-- What has been passed on in the end does not depend on the order of delivery. -/
theorem bareAtoms_emissions_eq {other : List Atom} (hnames : S.InjOn Atom.id)
    (hfree : scope.ConflictFree S) (hS : bareAtoms delivered = S) (hother : bareAtoms other = S) :
    bareAtoms ((fresh scope).emissions other) = bareAtoms ((fresh scope).emissions delivered) := by
  have hleast : ∀ l, bareAtoms l = S → IsLeast {A | A ⊆ S ∧ scope.CausallyClosed S A}
      (bareAtoms ((fresh scope).emissions l)) := fun l hl =>
    (settling_acceptAll hnames hfree fun d hd => hl ▸ ⟨d, hd, rfl⟩).2.isLeast_emitted hnames hfree hl
  exact (hleast other hother).unique (hleast delivered hS)

/-- The tokens that are known are those that some atom passed on defines. -/
theorem mem_definitions_iff : t ∈ definitions scope delivered ↔
    ∃ x ∈ bareAtoms ((fresh scope).emissions delivered), x.defines? t ≠ none := by
  rw [ExtTreeMap.mem_iff_isSome_getElem?, getElem?_definitions, Option.isSome_iff_ne_none, ne_eq,
    List.getLast?_eq_none_iff, List.filterMap_eq_nil_iff]
  simp [bareAtoms]

/-- The definition kept is that of the atom passed on last of those that define the token. -/
theorem exists_last_of_definitions (hnames : S.InjOn Atom.id) (hfree : scope.ConflictFree S)
    (hS : bareAtoms delivered = S) {d : TokenDefinition}
    (hd : (definitions scope delivered)[t]? = some d) :
    ∃ before x after, (fresh scope).emissions delivered = before ++ x :: after ∧
      x.defines? t = some d ∧ (∀ y ∈ after, y.defines? t = none) ∧
      scope.LastDefiner (bareAtoms ((fresh scope).emissions delivered)) t x.bare := by
  have hmem : ∀ e ∈ delivered, e.bare ∈ S := fun e he => hS ▸ ⟨e, he, rfl⟩
  rw [getElem?_definitions] at hd
  exact (causal_emissions hnames hfree hmem).exists_lastDefiner hd

/-- What is passed on is passed on in any causal order, for some order of delivery. -/
theorem exists_delivery {reordered : List Atom} (hnames : S.InjOn Atom.id)
    (hfree : scope.ConflictFree S) (hS : bareAtoms delivered = S)
    (hperm : reordered.Perm ((fresh scope).emissions delivered)) (hcausal : scope.Causal reordered) :
    ∃ other, bareAtoms other = S ∧ (fresh scope).emissions other = reordered := by
  have hmem : ∀ d ∈ delivered, d.bare ∈ S := fun d hd => hS ▸ ⟨d, hd, rfl⟩
  have h := (settling_acceptAll hnames hfree hmem).2
  have hin : ∀ e ∈ reordered, e.bare ∈ S := fun e he => h.waiting.emitted_mem e (hperm.mem_iff.1 he)
  have hdistinct : (reordered.map Atom.id).Nodup :=
    (hperm.map Atom.id).nodup_iff.2 h.records.distinct
  have hpassed : (fresh scope).emissions reordered = reordered :=
    (emissions_of_orderly ((hfree.orderly_iff hin hdistinct).2 hcausal) hdistinct).1
  have hother : bareAtoms (reordered ++ delivered) = S := by
    refine Set.Subset.antisymm ?_ ?_
    · rintro _ ⟨e, he, rfl⟩
      rcases List.mem_append.1 he with he | he
      · exact hin e he
      · exact hmem e he
    · rw [← hS]
      rintro _ ⟨e, he, rfl⟩
      exact ⟨e, List.mem_append_right _ he, rfl⟩
  refine ⟨reordered ++ delivered, hother, ?_⟩
  -- All that is passed on has been by then.
  have hall := bareAtoms_emissions_eq hnames hfree hS hother
  have honce := (records_acceptAll scope (reordered ++ delivered)).distinct
  rw [emissions_append, hpassed] at hall honce ⊢
  rw [List.map_append, List.nodup_append] at honce
  suffices hnone : ((fresh scope).acceptAll reordered).emissions delivered = [] by
    rw [hnone, List.append_nil]
  refine List.eq_nil_iff_forall_not_mem.2 fun e he => ?_
  have hagain : e.bare ∈ bareAtoms ((fresh scope).emissions delivered) :=
    hall ▸ ⟨e, List.mem_append_right _ he, rfl⟩
  obtain ⟨y, hy, hbare⟩ := hagain
  exact honce.2.2 y.id (List.mem_map_of_mem (hperm.mem_iff.2 hy)) e.id (List.mem_map_of_mem he)
    (Atom.id_eq_of_bare hbare)

/-- Each of those who may have the last word on a token has it in some order of delivery. -/
theorem exists_delivery_of_lastDefiner (hnames : S.InjOn Atom.id) (hfree : scope.ConflictFree S)
    (hS : bareAtoms delivered = S)
    (hx : scope.LastDefiner (bareAtoms ((fresh scope).emissions delivered)) t x) :
    ∃ other, bareAtoms other = S ∧ (definitions scope other)[t]? = x.defines? t := by
  have hmem : ∀ d ∈ delivered, d.bare ∈ S := fun d hd => hS ▸ ⟨d, hd, rfl⟩
  obtain ⟨reordered, hperm, hcausal, hlast⟩ :=
    (causal_emissions hnames hfree hmem).exists_reordering hx
  obtain ⟨other, hother, hpassed⟩ := exists_delivery hnames hfree hS hperm hcausal
  exact ⟨other, hother, by rw [getElem?_definitions, hpassed, hlast]⟩

end Reconciler

/-! ## Two definitions of one token -/

namespace Sample

/-- A definition of the token of the coin. -/
def naming (name : String) : TokenDefinition :=
  ⟨coin.token, name, "", 1, KeySet.single address.key⟩

/-- Defines the token and creates the coin. -/
def found : Atom := .unsigned [.tokenDefinition (naming "Radix"), .consumable coin] 10 none

/-- Defines the token otherwise. -/
def rival : Atom := .unsigned [.tokenDefinition (naming "Rads")] 9 none

/-- Spends the coin and defines the token otherwise. -/
def rename : Atom := .unsigned [.consumer coin, .tokenDefinition (naming "Rads")] 11 none

@[simp] theorem consumed_rival : scope.consumed rival = [] := rfl

@[simp] theorem creates_rival : scope.creates rival = [] := rfl

@[simp] theorem consumed_found : scope.consumed found = [] := rfl

theorem consumables_found : found.consumables = [coin] := rfl

theorem consumers_rename : rename.consumers = [coin] := rfl

@[simp] theorem creates_found : scope.creates found = [coin.id] := by
  simp [Scope.creates, Scope.created, consumables_found, relevant_coin]

@[simp] theorem consumed_rename : scope.consumed rename = [coin.id] := by
  simp [Scope.consumed, consumers_rename, relevant_coin]

@[simp] theorem creates_rename : scope.creates rename = [] := rfl

theorem leadingBytes_definitions : rival.leadingByte = some 203 ∧
    found.leadingByte = some 112 ∧ rename.leadingByte = some 59 := by
  decide +kernel

theorem leadingByte_rival : rival.leadingByte = some 203 := leadingBytes_definitions.1

theorem leadingByte_found : found.leadingByte = some 112 := leadingBytes_definitions.2.1

theorem leadingByte_rename : rename.leadingByte = some 59 := leadingBytes_definitions.2.2

theorem distinct_rival : ([found, rival].map Atom.id).Nodup :=
  Atom.nodup_ids_of_leadingBytes (by simp [leadingByte_found, leadingByte_rival])

theorem distinct_rename : ([found, rename].map Atom.id).Nodup :=
  Atom.nodup_ids_of_leadingBytes (by simp [leadingByte_found, leadingByte_rename])

/-- Each of the two may be passed on before the other. -/
theorem orderly_rival : scope.Orderly [found, rival] ∧ scope.Orderly [rival, found] := by
  rw [show [found, rival] = ([] ++ [found]) ++ [rival] from rfl,
    show [rival, found] = ([] ++ [rival]) ++ [found] from rfl]
  simp only [Scope.orderly_concat_iff]
  refine ⟨⟨⟨Scope.orderly_nil, ?_⟩, ?_⟩, ⟨Scope.orderly_nil, ?_⟩, ?_⟩ <;>
    constructor <;> simp [LedgerView.replayAll, LedgerView.mem_replay]

end Sample

/-! ## The whole of it -/

namespace Reconciler

variable {scope : Scope}

theorem bareAtoms_pair {a b : Atom} : bareAtoms [a, b] = {a.bare, b.bare} := by
  ext x
  simp [bareAtoms, eq_comm]

/-- Two atoms may define a token differently and be independent of each other. Then the one that is
passed on last has the last word, and as neither has to wait, the order of delivery decides which
one that is. -/
theorem definitions_depend_on_order :
    ¬∀ (a : Address) (S : Set Atom) (first second : List Atom), S.InjOn Atom.id →
      (Scope.mk a .any).ConflictFree S → bareAtoms first = S → bareAtoms second = S →
      definitions ⟨a, .any⟩ first = definitions ⟨a, .any⟩ second := by
  intro h
  have hsame : definitions Sample.scope [Sample.found, Sample.rival] =
      definitions Sample.scope [Sample.rival, Sample.found] := by
    refine h Sample.address {Sample.found, Sample.rival} _ _ ?_ ?_ bareAtoms_pair ?_
    · have hnames := injOn_id_bareAtoms Sample.distinct_rival
      rwa [bareAtoms_pair] at hnames
    · show Sample.scope.ConflictFree _
      refine ⟨?_, ?_, ?_⟩ <;> simp
    · exact bareAtoms_pair.trans (Set.pair_comm _ _)
  have hpassed := (emissions_of_orderly Sample.orderly_rival.1 Sample.distinct_rival).1
  have hpassed' := (emissions_of_orderly Sample.orderly_rival.2
    (List.nodup_reverse.2 Sample.distinct_rival)).1
  have hknown := congrArg (·[Sample.coin.token]?) hsame
  simp only [getElem?_definitions, hpassed, hpassed'] at hknown
  exact absurd hknown (by decide)

/-- Whatever the order in which atoms free of conflicts are delivered, and however often: the same
atoms are passed on, and the tokens that are known in the end are those that some of these define.
The definition of a token is that of the atom passed on last of those that define it, and none that
depends on this one defines the token. All orders of delivery end with the same definitions exactly
if the atoms that may so have the last word on a token agree; no two of these depend on each
other. -/
theorem definitions_converge_iff (scope : Scope) (delivered : List Atom)
    (hnames : (bareAtoms delivered).InjOn Atom.id)
    (hfree : scope.ConflictFree (bareAtoms delivered)) :
    let S := bareAtoms delivered
    let A := bareAtoms ((fresh scope).emissions delivered)
    IsLeast {A | A ⊆ S ∧ scope.CausallyClosed S A} A ∧
    (∀ other, bareAtoms other = S → ∀ t,
      (t ∈ definitions scope other ↔ ∃ x ∈ A, x.defines? t ≠ none) ∧
      ∀ d, (definitions scope other)[t]? = some d →
        ∃ before x after, (fresh scope).emissions other = before ++ x :: after ∧
          x.defines? t = some d ∧ (∀ y ∈ after, y.defines? t = none) ∧
          scope.LastDefiner A t x.bare) ∧
    ((∀ first second, bareAtoms first = S → bareAtoms second = S →
        definitions scope first = definitions scope second) ↔
      ∀ t x y, scope.LastDefiner A t x → scope.LastDefiner A t y →
        x.defines? t = y.defines? t) ∧
    ∀ t x y, scope.LastDefiner A t x → scope.LastDefiner A t y → ¬scope.Precedes A x y := by
  intro S A
  have hA : ∀ other, bareAtoms other = S → bareAtoms ((fresh scope).emissions other) = A :=
    fun other hother => bareAtoms_emissions_eq hnames hfree rfl hother
  refine ⟨?_, fun other hother t => ⟨?_, fun d hd => ?_⟩,
    ⟨fun hsame t x y hx hy => ?_, fun hagree first second hfirst hsecond => ?_⟩,
    fun t x y hx hy => hx.not_precedes hy⟩
  · exact (settling_acceptAll hnames hfree fun d hd => ⟨d, hd, rfl⟩).2.isLeast_emitted hnames hfree
      rfl
  · rw [mem_definitions_iff, hA other hother]
  · rw [← hA other hother]
    exact exists_last_of_definitions hnames hfree hother hd
  · obtain ⟨first, hfirst, hx⟩ := exists_delivery_of_lastDefiner hnames hfree rfl hx
    obtain ⟨second, hsecond, hy⟩ := exists_delivery_of_lastDefiner hnames hfree rfl hy
    rw [← hx, ← hy, hsame first second hfirst hsecond]
  · -- Both orders know the same tokens, and who has the last word in one agrees with who has it in
    -- the other.
    have hsub : ∀ first second, bareAtoms first = S → bareAtoms second = S →
        ∀ (t : TokenRef) (d : TokenDefinition), (definitions scope first)[t]? = some d →
          (definitions scope second)[t]? = some d := by
      intro first second hfirst hsecond t d hd
      obtain ⟨-, x, -, -, hxd, -, hx⟩ := exists_last_of_definitions hnames hfree hfirst hd
      have hknown : t ∈ definitions scope second := by
        rw [mem_definitions_iff, hA second hsecond, ← hA first hfirst]
        exact ⟨x.bare, hx.mem, hx.defines⟩
      obtain ⟨d', hd'⟩ := Option.isSome_iff_exists.1 (ExtTreeMap.mem_iff_isSome_getElem?.1 hknown)
      obtain ⟨-, y, -, -, hyd, -, hy⟩ := exists_last_of_definitions hnames hfree hsecond hd'
      rw [hA first hfirst] at hx
      rw [hA second hsecond] at hy
      have hsame : x.defines? t = y.defines? t := hagree t x.bare y.bare hx hy
      rw [hd', ← hyd, ← hsame, hxd]
    exact ExtTreeMap.ext_getElem? fun t => Option.ext fun d =>
      ⟨hsub first second hfirst hsecond t d, hsub second first hsecond hfirst t d⟩

/-- A definition that comes with the spending of a coin is kept rather than the one that came with the
coin, in whatever order they are delivered. -/
theorem definitions_converge_iff_rename :
    let S := bareAtoms [Sample.found, Sample.rename]
    S.InjOn Atom.id ∧ Sample.scope.ConflictFree S ∧
      (∀ first second, bareAtoms first = S → bareAtoms second = S →
        definitions Sample.scope first = definitions Sample.scope second) ∧
      ∀ delivered, bareAtoms delivered = S →
        (definitions Sample.scope delivered)[Sample.coin.token]? = some (Sample.naming "Rads") := by
  intro S
  have hnames : S.InjOn Atom.id := injOn_id_bareAtoms Sample.distinct_rename
  have hfree : Sample.scope.ConflictFree S := by
    rw [show S = {Sample.found, Sample.rename} from bareAtoms_pair]
    refine ⟨?_, ?_, ?_⟩ <;> simp
  obtain ⟨⟨⟨hsub, hclosed⟩, -⟩, hkept, hiff, -⟩ :=
    definitions_converge_iff Sample.scope [Sample.found, Sample.rename] hnames hfree
  -- Only the second atom may have the last word: it depends on the first.
  have hlast : ∀ t x, Sample.scope.LastDefiner
      (bareAtoms ((fresh Sample.scope).emissions [Sample.found, Sample.rename])) t x →
      x = Sample.rename := by
    intro t x hx
    have hmem : x ∈ S := hsub hx.mem
    rw [show S = {Sample.found, Sample.rename} from bareAtoms_pair] at hmem
    rcases hmem with rfl | rfl
    · have hrename := hclosed Sample.rename ⟨Sample.rename, by simp, rfl⟩ fun k hk =>
        ⟨Sample.found, hx.mem, by simpa using hk⟩
      have hnone := hx.unrivalled Sample.rename
        (.single ⟨hrename, Sample.coin.id, by simp, by simp⟩)
      by_cases ht : Sample.coin.token = t
      · simp [Atom.defines?, Particle.defines?, Sample.rename, Atom.unsigned, Sample.naming, ht]
          at hnone
      · exact absurd (by simp [Atom.defines?, Particle.defines?, Sample.found, Atom.unsigned,
          Sample.naming, ht]) hx.defines
    · rfl
  refine ⟨hnames, hfree, hiff.2 fun t x y hx hy => ?_, fun delivered hdelivered => ?_⟩
  · rw [hlast t x hx, hlast t y hy]
  · obtain ⟨hknown, hdefinition⟩ := hkept delivered hdelivered Sample.coin.token
    have hfound := hclosed Sample.found ⟨Sample.found, by simp, rfl⟩ (by simp)
    obtain ⟨d, hd⟩ := Option.isSome_iff_exists.1 (ExtTreeMap.mem_iff_isSome_getElem?.1
      (hknown.2 ⟨Sample.found, hfound, by decide⟩))
    obtain ⟨-, x, -, -, hx, -, hmay⟩ := hdefinition d hd
    rw [← Atom.defines?_bare, hlast _ _ hmay] at hx
    rw [hd, ← hx]
    rfl

end Reconciler

end ParticleLedger
