import NgIndex.Analysis.Component
import NgIndex.Analysis.Controller
import NgIndex.Analysis.Directive
import NgIndex.Analysis.Route

/-!
# Analyses as compositions of searches

Almost everything that the analyses of scripts do is put together from searches for values: one step
after another, where the action of a search may search in turn.  Apart from that they only ask for
the root of the project.  What holds of searches and is kept by putting steps together holds of
every analysis that is made in this way.

The search for the factory of a directive calls itself, so it is not of this kind; what it does
apart from calling itself is.
-/

namespace NgIndex
namespace Lookup

open Script

/-- Steps, taken while a module is looked at, that are put together from searches. -/
inductive Composed : {α : Type} → Module → Lookup α → Prop
  | pure {α : Type} {m : Module} (a : α) : Composed m (Pure.pure a)
  | bind {α β : Type} {m : Module} {step : Lookup α} {next : α → Lookup β} :
      Composed m step → (∀ a, Composed m (next a)) → Composed m (step >>= next)
  | root {α : Type} {m : Module} {next : Path → Lookup α} :
      (∀ root, Composed m (next root)) → Composed m (do next (← read).root)
  | follow {α : Type} {m : Module} {c : Cursor} {visit : Visit α} :
      (∀ m c, Composed m (visit m c)) → Composed m (Lookup.follow m c visit)

section Composed

variable {α β : Type} {m : Module}

theorem Composed.mapM {xs : List α} {step : α → Lookup β} (h : ∀ x, Composed m (step x)) :
    Composed m (xs.mapM step) := by
  induction xs with
  | nil => exact .pure []
  | cons x xs ih =>
      rw [List.mapM_cons]
      exact (h x).bind fun y => ih.bind fun ys => .pure (y :: ys)

theorem Composed.string? (c : Cursor) : Composed m (Lookup.string? m c) :=
  .follow fun m target => .pure (m.literalAt? target)

end Composed

end Lookup

namespace Analysis

open Script Lookup

/-! ### Templates and controllers in settings -/

theorem composed_addressedTemplate? (m : Module) (table : Table) :
    Composed m (addressedTemplate? m table) := by
  unfold addressedTemplate?
  cases table.get? "templateUrl" with
  | none => exact .pure none
  | some site =>
      refine (Composed.string? site).bind fun address => ?_
      cases address with
      | none => exact .pure none
      | some address =>
          exact .root fun root => .pure
            (some ({ path := root.push (Path.normalizeTemplate address)
                     span := site.span } : Template))

theorem composed_template? (m : Module) (table : Table) : Composed m (template? m table) := by
  unfold template?
  refine (composed_addressedTemplate? m table).bind fun template => ?_
  cases template with
  | some template => exact .pure (some template)
  | none =>
      cases (table.get? "template").map Cursor.unwrap with
      | none => exact .pure none
      | some site =>
          simp only
          cases importedTemplate? m site with
          | some template => exact .pure (some template)
          | none => exact .follow fun m target => .pure (templateAt? m target)

theorem composed_controllerOf (m : Module) (value : Option Cursor) :
    Composed m (controllerOf m value) := by
  unfold controllerOf
  cases value.map lastOfList with
  | none => exact .pure _
  | some site =>
      refine (Composed.string? site).bind fun text => ?_
      cases text with
      | some text => exact .pure (linkOfText text)
      | none =>
          simp only
          split
          · exact .pure _
          · exact .pure _

theorem composed_link (m : Module) (table : Table) : Composed m (link m table) := by
  unfold link
  refine (composed_controllerOf m (table.get? "controller")).bind fun link => ?_
  cases table.get? "controllerAs" with
  | none => exact .pure link
  | some site =>
      refine (Composed.string? site).bind fun name => ?_
      cases name with
      | some name => exact .pure _
      | none => exact .pure link

/-! ### Components -/

theorem composed_binding? (m : Module) (name : String) (value : Cursor) :
    Composed m (binding? m name value) := by
  unfold binding?
  refine (Composed.string? value).bind fun raw => ?_
  cases raw with
  | none => exact .pure none
  | some raw => exact .pure _

theorem composed_bindingsOf (m : Module) (object : Cursor) : Composed m (bindingsOf m object) := by
  unfold bindingsOf
  refine Composed.bind (.mapM fun entry => ?_) fun _ => .pure _
  exact composed_binding? m entry.1 entry.2

theorem composed_bindings (m : Module) (table : Table) : Composed m (bindings m table) := by
  unfold bindings
  cases table.get? "bindings" with
  | none => exact .pure []
  | some site =>
      refine Composed.bind (.follow fun m target => ?_) fun found => .pure _
      split
      · exact (composed_bindingsOf m target).bind fun bindings => .pure (some bindings)
      · exact .pure none

theorem composed_componentOf (m : Module) (table : Table) (name : String) (path : Path)
    (span : Span) : Composed m (componentOf m table name path span) :=
  (composed_bindings m table).bind fun _ => (composed_template? m table).bind fun _ =>
    (composed_link m table).bind fun _ => .pure _

theorem composed_componentAt (registration : Registration) (m : Module) (c : Cursor) :
    Composed m (componentAt registration m c) := by
  unfold componentAt
  cases Table.ofNode? m c with
  | none => exact .pure _
  | some table => exact (composed_componentOf m table _ _ _).bind fun _ => .pure _

theorem composed_componentFrom (registration : Registration) (m : Module) (c : Cursor) :
    Composed m (componentFrom registration m c) := by
  unfold componentFrom
  split
  · exact composed_componentAt registration m c
  · cases c.child? .constructor with
    | none => exact .pure _
    | some constructor =>
        refine Composed.bind (.follow fun m target => ?_) fun found => .pure _
        split
        · exact (composed_componentAt registration m target).bind fun _ => .pure _
        · exact .pure none

theorem composed_registered (m : Module) (name configuration : Cursor) :
    Composed m (registered m name configuration) := by
  unfold registered
  refine (Composed.string? name).bind fun text => ?_
  cases text with
  | none => exact .pure _
  | some text =>
      refine Composed.bind (.follow fun m target => ?_) fun found => .pure _
      exact (composed_componentFrom _ m target).bind fun _ => .pure _

theorem composed_componentsOf (m : Module) (calls : List (Cursor × Cursor)) :
    Composed m (componentsOf m calls) := by
  induction calls with
  | nil => exact .pure _
  | cons call rest ih =>
      refine (composed_registered m call.1 call.2).bind fun component => ?_
      cases component with
      | error error => exact .pure _
      | ok component =>
          refine ih.bind fun components => ?_
          cases components with
          | error error => exact .pure _
          | ok components => exact .pure _

theorem composed_components (m : Module) : Composed m (components m) :=
  composed_componentsOf m (componentCalls m)

/-! ### Controllers -/

theorem composed_controllerRegistration? (m : Module) (call : Call) :
    Composed m (controllerRegistration? m call) := by
  unfold controllerRegistration?
  split
  · refine (Composed.string? _).bind fun name => ?_
    cases name with
    | none => exact .pure none
    | some name => exact .pure _
  · exact .pure none

theorem composed_controllers (m : Module) : Composed m (controllers m) := by
  unfold controllers controllerRegistrations
  refine Composed.bind (Composed.bind (.mapM fun event => ?_) fun _ => .pure _) fun _ => .pure _
  split
  · exact composed_controllerRegistration? m _
  · exact .pure none

/-! ### Routes -/

theorem composed_componentTemplate? (m : Module) (table : Table) :
    Composed m (componentTemplate? m table) := by
  unfold componentTemplate?
  cases table.get? "component" with
  | none => exact .pure none
  | some site => exact (Composed.string? site).bind fun _ => .pure _

theorem composed_routeTemplate? (m : Module) (table : Table) :
    Composed m (routeTemplate? m table) := by
  unfold routeTemplate?
  refine (composed_template? m table).bind fun template => ?_
  cases template with
  | some template => exact .pure (some template)
  | none => exact composed_componentTemplate? m table

theorem composed_routeOf (m : Module) (levels : Nat) (table : Table) (name : String) (path : Path)
    (span : Span) : Composed m (routeOf m levels table name path span) := by
  induction levels generalizing table name path span with
  | zero =>
      exact (composed_routeTemplate? m table).bind fun _ =>
        (composed_link m table).bind fun _ => .pure _
  | succ levels ih =>
      refine (composed_routeTemplate? m table).bind fun _ => (composed_link m table).bind fun _ =>
        Composed.bind (.mapM fun entry => ?_) fun _ => .pure _
      refine (Composed.string? entry.2).bind fun component => ?_
      cases component with
      | some component => exact .pure _
      | none =>
          simp only
          cases object? m entry.2 with
          | none => exact .pure none
          | some object => exact (ih _ _ _ _).bind fun _ => .pure _

theorem composed_namedRoute? (m : Module) (name configuration : Cursor) :
    Composed m (namedRoute? m name configuration) := by
  unfold namedRoute?
  refine (Composed.string? name).bind fun text => ?_
  cases text with
  | none => exact .pure none
  | some text =>
      refine .follow fun target site => ?_
      cases Table.ofNode? target site with
      | none => exact .pure none
      | some table => exact (composed_routeOf target viewLevels table _ _ _).bind fun _ => .pure _

theorem composed_selfNamedRoute? (m : Module) (configuration : Cursor) :
    Composed m (selfNamedRoute? m configuration) := by
  refine .follow fun m target => ?_
  cases Table.ofNode? m target with
  | none => exact .pure none
  | some table =>
      simp only
      cases table.get? "name" with
      | none => exact .pure none
      | some site =>
          refine (Composed.string? site).bind fun name => ?_
          cases name with
          | none => exact .pure none
          | some name => exact (composed_routeOf m viewLevels table _ _ _).bind fun _ => .pure _

theorem composed_registeredRoute? (m : Module) (call : Call) :
    Composed m (registeredRoute? m call) := by
  unfold registeredRoute?
  split
  · exact composed_namedRoute? m _ _
  · exact composed_selfNamedRoute? m _
  · exact .pure none

theorem composed_routes (m : Module) : Composed m (routes m) :=
  (Composed.mapM fun call => composed_registeredRoute? m call).bind fun _ => .pure _

/-! ### Directives -/

theorem composed_restrictOf (m : Module) (table : Table) : Composed m (restrictOf m table) := by
  unfold restrictOf
  cases table.get? "restrict" with
  | none => exact .pure _
  | some site =>
      refine (Composed.string? site).bind fun text => ?_
      cases text with
      | some text => exact .pure _
      | none => exact .pure _

theorem composed_classDirective (m : Module) (owner name : Cursor) :
    Composed m (classDirective m owner name) :=
  (composed_restrictOf m _).bind fun _ => .pure _

theorem composed_classDirectives (m : Module) : Composed m (classDirectives m) := by
  refine Composed.bind (.mapM fun event => ?_) fun _ => .pure _
  split
  · next site =>
      cases site.child? .name with
      | none => exact .pure none
      | some name => exact (composed_classDirective m site name).bind fun _ => .pure _
  · exact .pure none

theorem composed_classFactory (origin : Path) (m : Module) (reference : Cursor) :
    Composed m (classFactory origin m reference) := by
  unfold classFactory
  simp only
  split
  · exact .pure none
  · split
    · exact .pure _
    · refine .follow fun m target => ?_
      split
      · exact (composed_classDirective m target _).bind fun _ => .pure _
      · exact .pure none

theorem composed_functionFactory (origin : Path) (m : Module) (function : Cursor) :
    Composed m (functionFactory origin m function) := by
  unfold functionFactory
  cases returned? function with
  | none => exact .pure none
  | some value =>
      simp only
      split
      · refine .follow fun m c => ?_
        unfold objectFactory
        split
        · exact .pure none
        · exact (composed_restrictOf m _).bind fun _ => .pure _
      · cases value.child? .constructor with
        | none => exact .pure none
        | some constructor => exact composed_classFactory origin m constructor

theorem composed_callFactory (origin : Path) (m : Module) (call : Cursor) :
    Composed m (callFactory origin m call) := by
  unfold callFactory
  cases call.child? .function with
  | none => exact .pure none
  | some callee =>
      simp only
      split
      · exact .pure none
      · cases callee.child? .object with
        | none => exact .pure none
        | some object => exact composed_classFactory origin m object.unwrap

end Analysis
end NgIndex
