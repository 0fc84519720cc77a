import Mathlib.Data.List.Nodup
import Mathlib.Data.List.TakeWhile
import ParticleLedger.Proofs.Reconciler.History
import ParticleLedger.Reconciler.Registry

/-!
# A registry and its reconcilers

The reconcilers of a registry do not know of each other. Those of an address are offered an atom one
after another, in the order in which the registry happens to visit them (`VisitOrder`), and none is
passed over because an earlier one has failed. So whatever the order is at each call, a registered
reconciler is what the atoms delivered for its address since it was first asked for make of a
reconciler that stands alone.

Main statements: `get?_offerEach` (what a round does to each reconciler), `registry_acceptIn` (every
order leads to the same registry), `alone_callAll` and `registry_refines`.
-/

namespace ParticleLedger

open Std (ExtTreeMap)

/-! ## Reconcilers without their subscribers -/

namespace Reconciler

variable {r : Reconciler} {a : Atom}

/-- The reconciler without its subscribers, who have no part in what it does. -/
def alone (r : Reconciler) : Reconciler :=
  { r with subscribers := .empty }

theorem alone_subscribe : r.subscribe.alone = r.alone := rfl

/-- Without its subscribers a reconciler does the same. -/
theorem accept_alone : r.alone.accept a =
    { r.accept a with reconciler := (r.accept a).reconciler.alone } := by
  cases h : r.halted with
  | none =>
    rw [accept_of_running h, accept_of_running (show r.alone.halted = none from h)]
    have hpost : ∀ messages : List Atom, Broadcast.empty.post messages = .empty := by
      intro messages
      simp [Broadcast.post, Broadcast.empty]
    simp [alone, hpost]
  | some reason =>
    rw [accept_of_halted h, accept_of_halted (show r.alone.halted = some reason from h)]
    rfl

theorem alone_acceptAll (atoms : List Atom) :
    (r.acceptAll atoms).alone = r.alone.acceptAll atoms := by
  induction atoms generalizing r with
  | nil => rfl
  | cons a rest ih =>
    rw [acceptAll, acceptAll, List.foldl_cons, List.foldl_cons, accept_alone]
    exact ih

theorem emissions_alone (atoms : List Atom) : r.alone.emissions atoms = r.emissions atoms := by
  induction atoms generalizing r with
  | nil => rfl
  | cons a rest ih => rw [emissions, emissions, accept_alone, ih]

end Reconciler

/-! ## What the operations of a registry do -/

namespace Registry

variable {reg : Registry} {scope s : Scope} {a b : Address} {x : Atom}

theorem get?_ensure : (reg.ensure scope).get? s =
    if s = scope then some ((reg.get? scope).getD (.fresh scope)) else reg.get? s := by
  simp only [get?, ensure, ExtTreeMap.getElem?_insertIfNew, Std.compare_eq_iff_eq,
    ExtTreeMap.mem_iff_isSome_getElem?]
  by_cases hs : s = scope
  · subst hs
    cases reg.reconcilers[s]? <;> simp
  · simp [hs, Ne.symm hs]

theorem get?_modify (f : Reconciler → Reconciler) : (reg.modify scope f).get? s =
    (reg.get? s).map fun r => if s = scope then f r else r := by
  simp only [get?, modify, ExtTreeMap.getElem?_modify, Std.compare_eq_iff_eq]
  by_cases hs : s = scope
  · simp [hs]
  · simp [hs, Ne.symm hs]

theorem get?_accept : (reg.accept a x).get? s =
    (reg.get? s).map fun r => if r.scope.address = a then (r.accept x).reconciler else r := by
  simp [get?, accept, ExtTreeMap.getElem?_map]

theorem get?_acceptAt : (reg.acceptAt scope x).get? s =
    (reg.get? s).map fun r => if s = scope then (r.accept x).reconciler else r := by
  unfold acceptAt
  cases hr : reg.get? scope with
  | none =>
    by_cases hs : s = scope
    · simp [hs, hr]
    · simp [hs]
  | some r =>
    show (reg.modify scope fun _ => (r.accept x).reconciler).get? s = _
    rw [get?_modify]
    by_cases hs : s = scope
    · simp [hs, hr]
    · simp [hs]

theorem everything_inj : everything a = everything b ↔ a = b := by
  simp [everything]

theorem get?_subscribe (reg : Registry) (a : Address) :
    (reg.subscribe a).get? (everything a) =
      some ((reg.get? (everything a)).getD (.fresh (everything a))).subscribe := by
  rw [subscribe, get?_modify, get?_ensure, if_pos rfl, Option.map_some, if_pos rfl]

/-- Asking for a reconciler replaces none that is there. -/
theorem get?_ensure_of_some {r : Reconciler} (h : reg.get? s = some r) :
    (reg.ensure scope).get? s = some r := by
  rw [get?_ensure]
  by_cases hs : s = scope
  · rw [if_pos hs, ← hs, h, Option.getD_some]
  · rw [if_neg hs, h]

/-! ## One reconciler after another -/

/-- What came of offering an atom to some reconcilers. -/
structure Round where
  registry : Registry
  /-- The atoms passed on, in order, each with the scope of the reconciler that passed it on. -/
  emitted : List (Scope × Atom)
  /-- The first violation met. -/
  error : Option Violation

/-- An order in which a registry visits its reconcilers. -/
structure VisitOrder where
  arrange : List Scope → List Scope
  perm : ∀ scopes, (arrange scopes).Perm scopes

namespace Round

/-- Nothing, or the first violation. -/
def result (d : Round) : Except LedgerError Unit :=
  match d.error with
  | none => .ok ()
  | some cause => .error (.consistencyViolation cause)

/-- The atoms that the reconciler of a scope passed on. -/
def passedOn (d : Round) (scope : Scope) : List Atom :=
  d.emitted.filterMap fun e => if e.1 = scope then some e.2 else none

end Round

/-- Offers an atom to the reconcilers of some scopes, one after another, whatever comes of it at each
of them. -/
def offerEach (reg : Registry) (x : Atom) : List Scope → Round
  | [] => ⟨reg, [], none⟩
  | scope :: rest =>
    let later := (reg.acceptAt scope x).offerEach x rest
    match reg.get? scope with
    | none => later
    | some r =>
      { later with
        emitted := (r.accept x).emitted.map (scope, ·) ++ later.emitted
        error := (r.accept x).error.or later.error }

/-- The scopes of the reconcilers of an address. -/
def scopesOf (reg : Registry) (a : Address) : List Scope :=
  reg.reconcilers.keys.filter (·.address = a)

/-- Offers an atom to every reconciler of an address, in the order in which they are visited. -/
def acceptIn (reg : Registry) (order : VisitOrder) (a : Address) (x : Atom) : Round :=
  reg.offerEach x (order.arrange (reg.scopesOf a))

section Round

variable {scopes : List Scope}

theorem registry_offerEach_cons : (reg.offerEach x (scope :: scopes)).registry =
    ((reg.acceptAt scope x).offerEach x scopes).registry := by
  rw [offerEach]
  cases reg.get? scope <;> rfl

/-- What comes later in a round finds its reconcilers as they were. -/
theorem get?_acceptAt_of_mem (h : scope ∉ scopes) (hs : s ∈ scopes) :
    (reg.acceptAt scope x).get? s = reg.get? s := by
  have hne : s ≠ scope := fun heq => h (heq ▸ hs)
  rw [get?_acceptAt]
  simp [hne]

/-- A round offers the atom to the reconcilers of its scopes, once, and to no other. -/
theorem get?_offerEach (h : scopes.Nodup) : (reg.offerEach x scopes).registry.get? s =
    (reg.get? s).map fun r => if s ∈ scopes then (r.accept x).reconciler else r := by
  induction scopes generalizing reg with
  | nil => simp [offerEach]
  | cons scope rest ih =>
    obtain ⟨hscope, hrest⟩ := List.nodup_cons.1 h
    rw [registry_offerEach_cons, ih hrest, get?_acceptAt, Option.map_map]
    refine congrArg (Option.map · _) (funext fun r => ?_)
    by_cases hs : s = scope
    · simp [hs, hscope]
    · simp [hs]

/-- The error of a round is the first that one of its reconcilers returns. -/
theorem error_offerEach (h : scopes.Nodup) : (reg.offerEach x scopes).error =
    scopes.findSome? fun s => (reg.get? s).bind fun r => (r.accept x).error := by
  induction scopes generalizing reg with
  | nil => rfl
  | cons scope rest ih =>
    obtain ⟨hscope, hrest⟩ := List.nodup_cons.1 h
    have hlater : ((reg.acceptAt scope x).offerEach x rest).error =
        rest.findSome? fun s => (reg.get? s).bind fun r => (r.accept x).error := by
      rw [ih hrest, ← List.head?_filterMap, ← List.head?_filterMap]
      refine congrArg List.head? (List.filterMap_congr fun s hs => ?_)
      rw [get?_acceptAt_of_mem hscope hs]
    rw [offerEach, List.findSome?_cons]
    cases hr : reg.get? scope with
    | none => exact hlater
    | some r =>
      show (r.accept x).error.or _ = _
      rw [hlater, Option.bind_some]
      cases (r.accept x).error <;> rfl

/-- Each reconciler of a round passes on what it passes on when the atom is offered to it. -/
theorem passedOn_offerEach (h : scopes.Nodup) : (reg.offerEach x scopes).passedOn s =
    if s ∈ scopes then ((reg.get? s).map fun r => (r.accept x).emitted).getD [] else [] := by
  induction scopes generalizing reg with
  | nil => rfl
  | cons scope rest ih =>
    obtain ⟨hscope, hrest⟩ := List.nodup_cons.1 h
    have hlater : ((reg.acceptAt scope x).offerEach x rest).passedOn s =
        if s ∈ rest then ((reg.get? s).map fun r => (r.accept x).emitted).getD [] else [] := by
      rw [ih hrest]
      by_cases hs : s ∈ rest
      · rw [if_pos hs, if_pos hs, get?_acceptAt_of_mem hscope hs]
      · rw [if_neg hs, if_neg hs]
    rw [offerEach]
    cases hr : reg.get? scope with
    | none =>
      refine hlater.trans ?_
      by_cases hs : s = scope
      · simp [hs, hr]
      · simp [hs]
    | some r =>
      have hsplit : ∀ later : Round,
          ({ later with
              emitted := (r.accept x).emitted.map (scope, ·) ++ later.emitted
              error := (r.accept x).error.or later.error } : Round).passedOn s =
            (if scope = s then (r.accept x).emitted else []) ++ later.passedOn s := by
        intro later
        by_cases hs : scope = s
        · simp [Round.passedOn, hs, List.filterMap_map]
        · simp [Round.passedOn, hs, List.filterMap_map]
      refine (hsplit _).trans ?_
      rw [hlater]
      by_cases hs : scope = s
      · subst hs
        simp [hscope, hr]
      · simp [hs, Ne.symm hs]

/-- A round counts what each of its reconcilers does. -/
theorem meter_offerEach (h : scopes.Nodup) : (reg.offerEach x scopes).registry.meter =
    (scopes.filterMap reg.get?).foldl (fun m r => m.count r (r.accept x)) reg.meter := by
  induction scopes generalizing reg with
  | nil => rfl
  | cons scope rest ih =>
    obtain ⟨hscope, hrest⟩ := List.nodup_cons.1 h
    have hlater : rest.filterMap (reg.acceptAt scope x).get? = rest.filterMap reg.get? :=
      List.filterMap_congr fun s hs => get?_acceptAt_of_mem hscope hs
    rw [registry_offerEach_cons, ih hrest, hlater, acceptAt]
    cases hr : reg.get? scope with
    | none => simp [hr]
    | some r => simp [hr]

end Round

/-! ### The order does not matter -/

theorem mem_scopesOf : s ∈ reg.scopesOf a ↔ (reg.get? s).isSome ∧ s.address = a := by
  rw [scopesOf, List.mem_filter, ExtTreeMap.mem_keys, ExtTreeMap.mem_iff_isSome_getElem?,
    decide_eq_true_eq, get?]

theorem nodup_scopesOf : (reg.scopesOf a).Nodup :=
  List.Nodup.filter _ ExtTreeMap.nodup_keys

theorem mem_arrange (order : VisitOrder) :
    s ∈ order.arrange (reg.scopesOf a) ↔ (reg.get? s).isSome ∧ s.address = a := by
  rw [(order.perm _).mem_iff, mem_scopesOf]

theorem nodup_arrange (order : VisitOrder) : (order.arrange (reg.scopesOf a)).Nodup :=
  (order.perm _).nodup_iff.2 nodup_scopesOf

/-- If every reconciler has the scope under which it stands, those of an address stand under the
scopes of the address. -/
theorem ofAddress_eq (hkeyed : ∀ s r, reg.get? s = some r → r.scope = s) :
    reg.ofAddress a = (reg.scopesOf a).filterMap reg.get? := by
  have hentries : ∀ entries : List (Scope × Reconciler),
      (∀ e ∈ entries, reg.get? e.1 = some e.2) →
      (entries.map (·.2)).filter (·.scope.address = a) =
        ((entries.map (·.1)).filter (·.address = a)).filterMap reg.get? := by
    intro entries
    induction entries with
    | nil => intro _; rfl
    | cons e rest ih =>
      intro hget
      have hhead := hget e List.mem_cons_self
      have hrest := ih fun e he => hget e (List.mem_cons_of_mem _ he)
      have hscope : e.2.scope = e.1 := hkeyed _ _ hhead
      by_cases ha : e.1.address = a
      · simp [hscope, ha, hhead, hrest]
      · simp [hscope, ha, hrest]
  rw [ofAddress, scopesOf, ← ExtTreeMap.map_fst_toList_eq_keys]
  exact hentries _ fun e he => ExtTreeMap.mem_toList_iff_getElem?_eq_some.1 he

/-- Whatever the order in which the reconcilers of an address are visited, the registry is the same
afterwards. -/
theorem registry_acceptIn (hkeyed : ∀ s r, reg.get? s = some r → r.scope = s) (order : VisitOrder) :
    (reg.acceptIn order a x).registry = reg.accept a x := by
  have hreconcilers : (reg.acceptIn order a x).registry.reconcilers =
      (reg.accept a x).reconcilers := by
    apply ExtTreeMap.ext_getElem?
    intro s
    show (reg.acceptIn order a x).registry.get? s = (reg.accept a x).get? s
    rw [acceptIn, get?_offerEach (nodup_arrange order), get?_accept]
    cases hr : reg.get? s with
    | none => rfl
    | some r => simp [mem_arrange, hr, hkeyed s r hr]
  have hmeter : (reg.acceptIn order a x).registry.meter = (reg.accept a x).meter := by
    rw [acceptIn, meter_offerEach (nodup_arrange order)]
    show _ = (reg.ofAddress a).foldl _ reg.meter
    rw [ofAddress_eq hkeyed]
    refine ((order.perm _).filterMap _).foldl_eq' ?_ _
    intro r _ q _ m
    simp only [Meter.count, Meter.mk.injEq]
    omega
  generalize (reg.acceptIn order a x).registry = after at *
  cases after
  exact congrArg₂ Registry.mk hreconcilers hmeter

/-! ## Calls -/

/-- What users of a registry ask of it. -/
inductive Call where
  /-- For the reconciler of a scope, which is made unless there is one. -/
  | ensure (scope : Scope)
  /-- For the atoms of an address from now on. -/
  | subscribe (a : Address)
  /-- To take an atom for an address, visiting the reconcilers in some order. -/
  | accept (order : VisitOrder) (a : Address) (x : Atom)

namespace Call

/-- After the call there is a reconciler of the scope, whether or not there was one. -/
def creates (scope : Scope) : Call → Bool
  | ensure s => s = scope
  | subscribe a => everything a = scope
  | accept .. => false

/-- The atom that the call brings for an address. -/
def atomFor? (a : Address) : Call → Option Atom
  | accept _ b x => if b = a then some x else none
  | _ => none

end Call

/-- What comes of a call. -/
def call (reg : Registry) : Call → Round
  | .ensure scope => ⟨reg.ensure scope, [], none⟩
  | .subscribe a => ⟨reg.subscribe a, [], none⟩
  | .accept order a x => reg.acceptIn order a x

/-- The registry after some calls, one after another. -/
def callAll (reg : Registry) (calls : List Call) : Registry :=
  calls.foldl (fun reg c => (reg.call c).registry) reg

/-- What the reconciler of a scope passes on while calls are made. -/
def passedOn (reg : Registry) (scope : Scope) : List Call → List Atom
  | [] => []
  | c :: rest => (reg.call c).passedOn scope ++ (reg.call c).registry.passedOn scope rest

/-- There is a reconciler of the scope, and nothing has been offered to it. -/
def HoldsFresh (reg : Registry) (scope : Scope) : Prop :=
  (reg.get? scope).map Reconciler.alone = some (.fresh scope)

/-- The atoms brought for the address of a scope since its reconciler was first asked for. -/
def delivered (scope : Scope) (calls : List Call) : List Atom :=
  (calls.dropWhile (!·.creates scope)).filterMap (·.atomFor? scope.address)

section Calls

variable {calls : List Call} {c : Call}

theorem callAll_concat : reg.callAll (calls ++ [c]) = ((reg.callAll calls).call c).registry := by
  simp [callAll]

theorem passedOn_concat : reg.passedOn scope (calls ++ [c]) =
    reg.passedOn scope calls ++ ((reg.callAll calls).call c).passedOn scope := by
  induction calls generalizing reg with
  | nil => simp [passedOn, callAll]
  | cons d rest ih => simp [passedOn, ih, callAll]

/-- Before the reconciler of a scope is asked for there is nothing to be delivered to it. -/
theorem dropWhile_creates_eq_nil_iff :
    calls.dropWhile (!·.creates scope) = [] ↔ calls.any (·.creates scope) = false := by
  simp [List.dropWhile_eq_nil_iff]

/-- A call that asks for a reconciler brings no atom. -/
theorem atomFor?_of_creates (h : c.creates scope) : c.atomFor? a = none := by
  cases c with
  | ensure s => rfl
  | subscribe b => rfl
  | accept order b x => contradiction

theorem delivered_concat : delivered scope (calls ++ [c]) = delivered scope calls ++
    if calls.any (·.creates scope) then (c.atomFor? scope.address).toList else [] := by
  unfold delivered
  rw [List.dropWhile_append]
  cases h : calls.any (·.creates scope) with
  | false =>
    rw [dropWhile_creates_eq_nil_iff.2 h]
    cases hc : c.creates scope with
    | false => simp [hc]
    | true => simp [hc, atomFor?_of_creates hc]
  | true =>
    have hsome : calls.dropWhile (!·.creates scope) ≠ [] := by
      rw [Ne, dropWhile_creates_eq_nil_iff, h]
      decide
    rw [if_neg (by simpa using hsome), List.filterMap_append]
    cases hatom : c.atomFor? scope.address <;> simp [hatom]

/-- A call does to the reconciler of a scope what the atom does that it brings for its address; it
makes the reconciler if it asks for it. -/
theorem alone_call : ((reg.call c).registry.get? scope).map Reconciler.alone =
    if c.creates scope then some (((reg.get? scope).map Reconciler.alone).getD (.fresh scope))
    else ((reg.get? scope).map Reconciler.alone).map
      (·.acceptAll (c.atomFor? scope.address).toList) := by
  cases c with
  | ensure s =>
    show ((reg.ensure s).get? scope).map _ = _
    rw [get?_ensure]
    by_cases hs : s = scope
    · subst hs
      cases reg.get? s <;> simp [Call.creates, Reconciler.alone, Reconciler.fresh]
    · simp [Call.creates, Call.atomFor?, hs, Ne.symm hs, Reconciler.acceptAll, Function.comp_def]
  | subscribe b =>
    show ((reg.subscribe b).get? scope).map _ = _
    rw [subscribe, get?_modify, get?_ensure]
    by_cases hs : everything b = scope
    · subst hs
      cases reg.get? (everything b) <;>
        simp [Call.creates, Reconciler.alone, Reconciler.fresh, Reconciler.subscribe]
    · simp [Call.creates, Call.atomFor?, hs, Ne.symm hs, Reconciler.acceptAll, Function.comp_def]
  | accept order b x =>
    show ((reg.acceptIn order b x).registry.get? scope).map _ = _
    rw [acceptIn, get?_offerEach (nodup_arrange order)]
    cases hr : reg.get? scope with
    | none => simp [Call.creates]
    | some r =>
      by_cases hb : scope.address = b
      · simp [Call.creates, Call.atomFor?, mem_arrange, hr, hb, Reconciler.acceptAll,
          Reconciler.accept_alone]
      · simp [Call.creates, Call.atomFor?, mem_arrange, hr, hb, Ne.symm hb, Reconciler.acceptAll]

/-- The reconciler of a scope passes on during a call what it passes on when the atom that the call
brings for its address is offered to it. -/
theorem passedOn_call : (reg.call c).passedOn scope =
    (((reg.get? scope).map Reconciler.alone).map
      (·.emissions (c.atomFor? scope.address).toList)).getD [] := by
  have hnothing : (((reg.get? scope).map Reconciler.alone).map (·.emissions [])).getD [] = [] := by
    cases reg.get? scope <;> rfl
  cases c with
  | ensure s => exact hnothing.symm
  | subscribe b => exact hnothing.symm
  | accept order b x =>
    show (reg.acceptIn order b x).passedOn scope = _
    rw [acceptIn, passedOn_offerEach (nodup_arrange order)]
    cases hr : reg.get? scope with
    | none => simp
    | some r =>
      by_cases hb : scope.address = b
      · simp [Call.atomFor?, mem_arrange, hr, hb, Reconciler.accept_alone, Reconciler.emissions]
      · simp [Call.atomFor?, mem_arrange, hr, hb, Ne.symm hb, Reconciler.emissions]

/-- While calls are made, a reconciler that is there is offered the atoms brought for its address. -/
theorem alone_callAll_of_some {r : Reconciler} (h : (reg.get? scope).map Reconciler.alone = some r)
    (calls : List Call) :
    ((reg.callAll calls).get? scope).map Reconciler.alone =
        some (r.acceptAll (calls.filterMap (·.atomFor? scope.address))) ∧
      reg.passedOn scope calls = r.emissions (calls.filterMap (·.atomFor? scope.address)) := by
  induction calls using List.reverseRecOn with
  | nil => exact ⟨h, rfl⟩
  | append_singleton calls c ih =>
    obtain ⟨hview, hpassed⟩ := ih
    rw [callAll_concat, alone_call, passedOn_concat, passedOn_call, hview, hpassed,
      List.filterMap_append]
    constructor
    · cases hc : c.creates scope with
      | false => cases hatom : c.atomFor? scope.address <;> simp [Reconciler.acceptAll, hatom]
      | true => simp [atomFor?_of_creates hc]
    · cases hatom : c.atomFor? scope.address <;>
        simp [Reconciler.emissions_append, Reconciler.emissions, hatom]

/-- A reconciler of a registry, its subscribers apart, is what the atoms delivered to it make of a
fresh one. -/
theorem alone_callAll (scope : Scope) (calls : List Call) :
    ((empty.callAll calls).get? scope).map Reconciler.alone =
      if calls.any (·.creates scope) then
        some ((Reconciler.fresh scope).acceptAll (delivered scope calls))
      else none := by
  induction calls using List.reverseRecOn with
  | nil => simp [callAll, empty, get?]
  | append_singleton calls c ih =>
    rw [callAll_concat, alone_call, ih, delivered_concat, List.any_append]
    cases hbefore : calls.any (·.creates scope) with
    | false =>
      have hnothing : delivered scope calls = [] := by
        rw [delivered, dropWhile_creates_eq_nil_iff.2 hbefore, List.filterMap_nil]
      cases hc : c.creates scope <;> simp [hc, hnothing, Reconciler.acceptAll]
    | true =>
      cases hc : c.creates scope with
      | false => simp [Reconciler.acceptAll]
      | true => simp [atomFor?_of_creates hc]

/-- And it has passed on what that one passes on. -/
theorem passedOn_callAll (scope : Scope) (calls : List Call) :
    empty.passedOn scope calls = (Reconciler.fresh scope).emissions (delivered scope calls) := by
  induction calls using List.reverseRecOn with
  | nil => rfl
  | append_singleton calls c ih =>
    rw [passedOn_concat, passedOn_call, alone_callAll, ih, delivered_concat]
    cases hbefore : calls.any (·.creates scope) with
    | false => simp
    | true => simp [Reconciler.emissions_append]

/-- As long as no atom was brought for the address, the reconcilers asked for are fresh. -/
theorem holdsFresh_callAll (hcreated : calls.any (·.creates scope))
    (hquiet : ∀ c ∈ calls, c.atomFor? scope.address = none) :
    (empty.callAll calls).HoldsFresh scope := by
  have hnothing : delivered scope calls = [] :=
    List.filterMap_eq_nil_iff.2 fun c hc => hquiet c ((List.dropWhile_sublist _).subset hc)
  rw [HoldsFresh, alone_callAll, if_pos hcreated, hnothing]
  rfl

/-- Every reconciler of a registry has the scope under which it stands. -/
theorem scope_of_get?_callAll {r : Reconciler} (h : (empty.callAll calls).get? scope = some r) :
    r.scope = scope := by
  have halone := alone_callAll scope calls
  rw [h, Option.map_some] at halone
  cases hcreated : calls.any (·.creates scope) with
  | false => simp [hcreated] at halone
  | true =>
    rw [hcreated, if_pos rfl, Option.some_inj] at halone
    show r.alone.scope = scope
    rw [halone]
    exact Reconciler.scope_acceptAll _

end Calls

/-! ## The whole of it -/

/-- A round fails if one of the reconcilers that it visits does. -/
theorem result_acceptIn (order : VisitOrder) :
    (∃ e, (reg.acceptIn order a x).result = .error e) ↔
      ∃ s r, reg.get? s = some r ∧ s.address = a ∧ ∃ e, (r.accept x).result = .error e := by
  have hround : (∃ e, (reg.acceptIn order a x).result = .error e) ↔
      (reg.acceptIn order a x).error.isSome := by
    unfold Round.result
    cases (reg.acceptIn order a x).error <;> simp
  have haccepted : ∀ d : Accepted, (∃ e, d.result = .error e) ↔ d.error.isSome := by
    intro d
    unfold Accepted.result
    cases d.error <;> simp
  rw [hround, acceptIn, error_offerEach (nodup_arrange order), List.findSome?_isSome_iff]
  simp only [haccepted, mem_arrange]
  constructor
  · rintro ⟨s, ⟨-, ha⟩, hfails⟩
    obtain ⟨cause, hcause⟩ := Option.isSome_iff_exists.1 hfails
    obtain ⟨r, hr, herror⟩ := Option.bind_eq_some_iff.1 hcause
    exact ⟨s, r, hr, ha, by rw [herror]; rfl⟩
  · rintro ⟨s, r, hr, ha, herror⟩
    exact ⟨s, ⟨by rw [hr]; rfl, ha⟩, by rwa [hr, Option.bind_some]⟩

/-- **A registry is its reconcilers side by side.** Whatever is asked of it, in whatever order it
visits its reconcilers at each call: asking for a reconciler replaces none; the reconciler of a scope
is there once it has been asked for, is what the atoms delivered for its address since then make of a
fresh one, and has passed on what that one passes on. And an atom that it takes next for an address
is offered to every reconciler of the address and to no other, whichever of them fail; the call fails
if one of them does; and the registry is the same afterwards whatever the order. -/
theorem registry_refines (calls : List Call) :
    let reg := empty.callAll calls
    (∀ scope other r, reg.get? scope = some r → (reg.ensure other).get? scope = some r) ∧
    (∀ scope, (reg.get? scope).map Reconciler.alone =
      if calls.any (·.creates scope) then
        some ((Reconciler.fresh scope).acceptAll (delivered scope calls))
      else none) ∧
    (∀ scope, empty.passedOn scope calls =
      (Reconciler.fresh scope).emissions (delivered scope calls)) ∧
    ∀ (order : VisitOrder) (a : Address) (x : Atom),
      (∀ scope, (reg.acceptIn order a x).registry.get? scope =
        (reg.get? scope).map fun r =>
          if scope.address = a then (r.accept x).reconciler else r) ∧
      ((∃ e, (reg.acceptIn order a x).result = .error e) ↔
        ∃ scope r, reg.get? scope = some r ∧ scope.address = a ∧
          ∃ e, (r.accept x).result = .error e) ∧
      (reg.acceptIn order a x).registry = reg.accept a x := by
  intro reg
  refine ⟨fun scope other r => get?_ensure_of_some, fun scope => alone_callAll scope calls,
    fun scope => passedOn_callAll scope calls, fun order a x => ⟨?_, ?_, ?_⟩⟩
  · intro scope
    rw [acceptIn, get?_offerEach (nodup_arrange order)]
    cases hr : reg.get? scope with
    | none => rfl
    | some r => simp [mem_arrange, hr]
  · exact result_acceptIn order
  · exact registry_acceptIn (fun s r => scope_of_get?_callAll) order

end Registry

end ParticleLedger
