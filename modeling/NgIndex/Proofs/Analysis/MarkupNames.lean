import NgIndex.Index.Sources
import NgIndex.Proofs.Analysis.Isolated
import NgIndex.Proofs.Index.Buffers

/-!
# Names in markup

Every component and every directive that is read from a script has the kebab case of its own name as
its name in markup, wherever its configuration or its factory has been found.
-/

namespace NgIndex

open Script Lookup

/-- A component whose name in markup is that of its name. -/
def Component.IsNamed (component : Component) : Prop :=
  component.htmlName = Text.kebab component.name

/-- A directive whose name in markup is that of its name. -/
def Directive.IsNamed (directive : Directive) : Prop :=
  directive.htmlName = Text.kebab directive.name

namespace Lookup

/-- What a search answers its action has answered at some place. -/
theorem exists_visited_of_follow {α : Type} {scene : Scene} {session : Session} {m : Module}
    {c : Cursor} {visit : Visit α} {answer : α} (hvisit : ∀ m c, Composed m (visit m c))
    (hchain : session.chain ≠ []) (h : (follow m c visit scene session).1 = some answer) :
    ∃ (target : Module) (site : Cursor) (later : Session), later.chain ≠ [] ∧
      (visit target site scene later).1 = some answer := by
  -- A search does not come to places where no file is being looked into, so these do not count.
  let answered (t : Terminal) : Option α :=
    if t.place.chain = [] then none
    else answerAt scene t.place.chain (visit t.place.script t.site)
  have hvisits : VisitGives scene visit answered := by
    intro t ht
    simp only [answered, if_neg ht]
    exact (hvisit t.place.script t.site).gives scene ht
  have hplace : (⟨session.chain, m⟩ : Place).chain ≠ [] := hchain
  rw [(follow_gives hvisits hplace c session rfl).1] at h
  obtain ⟨t, -, hanswer⟩ := List.exists_of_findSome?_eq_some h
  simp only [answered] at hanswer
  split at hanswer
  · cases hanswer
  · next ht => exact ⟨t.place.script, t.site, { chain := t.place.chain }, ht, hanswer⟩

end Lookup

namespace Analysis

/-! ### Components -/

/-- An outcome that is no component, or one with the name in markup of its name. -/
def IsNamedOutcome (outcome : Except Unsupported (Option Component)) : Prop :=
  ∀ component, outcome = .ok (some component) → component.IsNamed

variable {scene : Scene} {session : Session}

theorem isNamed_componentOf (m : Module) (table : Table) (name : String) (path : Path)
    (span : Span) : (componentOf m table name path span scene session).1.IsNamed := by
  unfold componentOf
  rw [bind_run, bind_run, bind_run]
  rfl

theorem isNamedOutcome_componentAt (registration : Registration) (m : Module) (c : Cursor) :
    IsNamedOutcome (componentAt registration m c scene session).1 := by
  unfold componentAt
  cases Table.ofNode? m c with
  | none => exact fun _ hnone => nomatch hnone
  | some table =>
      intro component h
      dsimp only at h
      rw [bind_run] at h
      obtain rfl := Option.some.inj (Except.ok.inj h)
      exact isNamed_componentOf m table _ _ _

/-- What a search leads to, or nothing. -/
theorem isNamedOutcome_getD {found : Option (Except Unsupported (Option Component))}
    (h : ∀ outcome, found = some outcome → IsNamedOutcome outcome) :
    IsNamedOutcome (found.getD (.ok none)) := by
  cases found with
  | none => exact fun _ hnone => nomatch hnone
  | some outcome => exact h outcome rfl

theorem isNamedOutcome_componentFrom (hchain : session.chain ≠ []) (registration : Registration)
    (m : Module) (c : Cursor) :
    IsNamedOutcome (componentFrom registration m c scene session).1 := by
  unfold componentFrom
  split
  · exact isNamedOutcome_componentAt registration m c
  · cases c.child? .constructor with
    | none => exact fun _ hnone => nomatch hnone
    | some constructor =>
        refine isNamedOutcome_getD fun outcome houtcome => ?_
        obtain ⟨target, site, later, -, hvisited⟩ := exists_visited_of_follow (fun m target => by
          split
          · exact (composed_componentAt registration m target).bind fun _ => .pure _
          · exact .pure none) hchain houtcome
        split at hvisited
        · obtain rfl := Option.some.inj hvisited
          exact isNamedOutcome_componentAt registration target site
        · cases hvisited

theorem isNamedOutcome_registered (hchain : session.chain ≠ []) (m : Module)
    (name configuration : Cursor) :
    IsNamedOutcome (registered m name configuration scene session).1 := by
  have hname : (string? m name scene session).2.chain ≠ [] := by
    rwa [((Composed.string? name).gives scene hchain session rfl).2]
  unfold registered
  rw [bind_run]
  cases (string? m name scene session).1 with
  | none => exact fun _ hnone => nomatch hnone
  | some text =>
      refine isNamedOutcome_getD fun outcome houtcome => ?_
      obtain ⟨target, site, later, hlater, hvisited⟩ := exists_visited_of_follow
        (fun m target => (composed_componentFrom _ m target).bind fun _ => .pure _) hname houtcome
      obtain rfl := Option.some.inj hvisited
      exact isNamedOutcome_componentFrom hlater _ target site

theorem isNamed_of_mem_components {path : Path} {text : String} {component : Component}
    (h : component ∈ (Source.components.parse scene path text).entities) : component.IsNamed := by
  let m := Module.ofText path text
  have hparsed : (Source.components.parse scene path text).entities =
      (collected ((componentCalls m).map (registeredAt scene m))).toOption.getD [] := by
    rw [← (componentsOf_gives scene m (componentCalls m) (.start path) rfl).1]
    exact congrArg Prod.fst (Source.supportedComponents_run m scene (.start path))
  rw [hparsed] at h
  cases hcollected : collected ((componentCalls m).map (registeredAt scene m)) with
  | error error =>
      rw [hcollected] at h
      cases h
  | ok components =>
      rw [hcollected] at h
      obtain ⟨-, rfl⟩ := collected_eq_ok_iff.mp hcollected
      obtain ⟨call, -, hcall⟩ := List.mem_filterMap.mp h
      have hchain : ({ chain := [m.path.key] } : Session).chain ≠ [] := List.cons_ne_nil _ _
      have hnamed : IsNamedOutcome (registeredAt scene m call) :=
        isNamedOutcome_registered hchain m call.1 call.2
      refine hnamed component ?_
      unfold componentOfCall? at hcall
      cases hanswer : registeredAt scene m call with
      | error error =>
          rw [hanswer] at hcall
          cases hcall
      | ok made =>
          rw [hanswer] at hcall
          exact congrArg Except.ok hcall

/-! ### Directives -/

theorem isNamed_of_directiveOf {m : Module} {classes : List Directive} {name : String}
    {site : Cursor} {factory : Factory} {directive : Directive}
    (h : directiveOf m classes name site factory = some directive) : directive.IsNamed := by
  cases factory with
  | ownClass className =>
      obtain ⟨found, -, rfl⟩ := Option.map_eq_some_iff.mp h
      rfl
  | otherClass found =>
      obtain rfl := Option.some.inj h
      rfl
  | object restrict =>
      obtain rfl := Option.some.inj h
      rfl

theorem isNamed_of_registeredDirective? {m : Module} {classes : List Directive} {call : Call}
    {directive : Directive}
    (h : (registeredDirective? m classes call scene session).1 = some directive) :
    directive.IsNamed := by
  revert h
  fun_cases registeredDirective? m classes call with
  | case1 site factory =>
      rw [bind_run]
      cases (string? m site scene session).1 with
      | none => exact nofun
      | some name =>
          intro h
          obtain ⟨factory, -, hfactory⟩ := Option.bind_eq_some_iff.mp h
          exact isNamed_of_directiveOf hfactory
  | case2 => exact nofun

theorem isNamed_of_mem_directives {path : Path} {text : String} {directive : Directive}
    (h : directive ∈ (Source.directives.parse scene path text).entities) : directive.IsNamed := by
  let m := Module.ofText path text
  have hmem : directive ∈ answerAlone scene m (directives m) := h
  rw [answerAlone_directives] at hmem
  obtain ⟨event, -, hevent⟩ := List.mem_filterMap.mp (List.mem_filter.mp hmem).1
  cases event with
  | call call => exact isNamed_of_registeredDirective? hevent
  | _ => cases hevent

end Analysis
end NgIndex
