import NgIndex.Proofs.Analysis.Unsupported
import NgIndex.Proofs.Lookup.Isolated

/-!
# Registrations do not see each other

All registrations of a script are resolved in one session.  Whatever is put together from searches
is isolated, and so is the search for the factory of a directive, which calls itself.  So each
registration leaves the chain as it was found, and its result is the one that it has alone in a
session that was just started.
-/

namespace NgIndex

open Script Lookup

theorem Lookup.Composed.isolated {α : Type} {m : Module} {step : Lookup α} (h : Composed m step)
    (scene : Scene) {chain : List String} (hchain : chain ≠ []) : Isolated scene chain step := by
  induction h generalizing chain with
  | pure a => exact .pure scene chain a
  | bind _ _ hstep hnext => exact (hstep hchain).bind fun a => hnext a hchain
  | root _ hnext => exact .read (hnext scene.root hchain)
  | follow _ hvisit => exact .follow hchain fun m c _ hchain => hvisit m c hchain

namespace Analysis

/-! ### The search for a factory -/

section Factory

variable {scene : Scene} {origin : Path}

/-- The search for a factory inside one module is isolated if what it does in other modules is. -/
theorem factoryAt_isolated {deeper : Visit (Except Endless Factory)}
    (hdeeper : IsolatedVisit scene deeper) (lists : Nat) :
    IsolatedVisit scene (factoryAt origin deeper lists) := by
  induction lists with
  | zero => exact fun _ _ chain _ => .pure scene chain _
  | succ lists ih =>
      intro m c chain hchain
      simp only [factoryAt]
      split
      · cases c.items.getLast? with
        | none => exact .pure scene chain none
        | some last =>
            refine .follow hchain fun target site chain hchain => ?_
            -- The last item is in this module, where one list fewer may follow, or in another one.
            split
            · exact ih target site chain hchain
            · exact hdeeper target site chain hchain
      · split
        · exact ((composed_callFactory origin m c).isolated scene hchain).bind
            fun _ => .pure scene chain _
        · split
          · exact ((composed_functionFactory origin m c).isolated scene hchain).bind
              fun _ => .pure scene chain _
          · exact .pure scene chain none

theorem factoryWithin_isolated (modules : Nat) :
    IsolatedVisit scene (factoryWithin origin modules) := by
  induction modules with
  | zero => exact fun _ _ chain _ => .pure scene chain _
  | succ modules ih =>
      exact fun m c chain hchain => factoryAt_isolated ih (listLimit m) m c chain hchain

theorem concluded_isolated (chain : List String) (found : Option (Except Endless Factory)) :
    Isolated scene chain (concluded found) := by
  match found with
  | some (.ok factory) => exact .pure scene chain (some factory)
  | some (.error _) => exact (Isolated.giveUp scene chain).bind fun _ => .pure scene chain none
  | none => exact .pure scene chain none

theorem factory?_isolated (m : Module) (c : Cursor) {chain : List String} (hchain : chain ≠ []) :
    Isolated scene chain (factory? m c) :=
  .read ((Isolated.follow hchain (factoryWithin_isolated _)).bind (concluded_isolated chain))

end Factory

/-! ### Registrations -/

/-- What is done to resolve one registration of a script.  A directive is made with the help of the
directives of all classes. -/
inductive IsRegistration (m : Module) : {α : Type} → Lookup α → Prop
  | component (name configuration : Cursor) : IsRegistration m (registered m name configuration)
  | directive (classes : List Directive) (call : Call) :
      IsRegistration m (registeredDirective? m classes call)
  | route (call : Call) : IsRegistration m (registeredRoute? m call)
  | controller (call : Call) : IsRegistration m (controllerRegistration? m call)

section Registration

variable {α : Type} (scene : Scene) {m : Module} {chain : List String}

theorem registeredDirective?_isolated (classes : List Directive) (call : Call)
    (hchain : chain ≠ []) : Isolated scene chain (registeredDirective? m classes call) := by
  unfold registeredDirective?
  split
  · next site factory _ _ =>
      refine ((Composed.string? (m := m) site).isolated scene hchain).bind fun name => ?_
      cases name with
      | none => exact .pure scene chain none
      | some name => exact (factory?_isolated m factory hchain).bind fun _ => .pure scene chain _
  · exact .pure scene chain none

theorem IsRegistration.isolated {step : Lookup α} (h : IsRegistration m step)
    (hchain : chain ≠ []) : Isolated scene chain step := by
  cases h with
  | component name configuration =>
      exact (composed_registered m name configuration).isolated scene hchain
  | directive classes call => exact registeredDirective?_isolated scene classes call hchain
  | route call => exact (composed_registeredRoute? m call).isolated scene hchain
  | controller call => exact (composed_controllerRegistration? m call).isolated scene hchain

end Registration

/-! ### All registrations of a script -/

/-- What a step answers in a session that was just started. -/
def answerAlone {α : Type} (scene : Scene) (m : Module) (step : Lookup α) : α :=
  (step scene (.start m.path)).1

/-- What the calls among the events of a script give. -/
def answersOfCalls {β : Type} (m : Module) (answer : Call → Option β) : List β :=
  m.events.filterMap fun event =>
    match event with
    | .call call => answer call
    | _ => none

section Alone

variable {α β γ : Type} (scene : Scene) (m : Module)

theorem Isolated.gives {step : Lookup α} (h : Isolated scene [m.path.key] step) :
    Gives scene [m.path.key] step (answerAlone scene m step) := by
  obtain ⟨answer, _, hstep⟩ := h
  intro session hchain
  obtain ⟨hanswer, -, hend, -⟩ := hstep session hchain
  obtain ⟨halone, -⟩ := hstep (.start m.path) rfl
  exact ⟨hanswer.trans halone.symm, hend⟩

theorem answerAlone_eq {step : Lookup α} {answer : α} (h : Gives scene [m.path.key] step answer) :
    answerAlone scene m step = answer :=
  (h (.start m.path) rfl).1

/-- What is done for one call after the other answers what each of them answers alone. -/
theorem gives_answersOfCalls (finish : List β → γ) {resolve : Call → Lookup (Option β)}
    (h : ∀ call, Isolated scene [m.path.key] (resolve call)) :
    Gives scene [m.path.key]
      (do
        let found ← m.events.mapM fun event =>
          match event with
          | .call call => resolve call
          | _ => pure none
        return finish (found.filterMap id))
      (finish (answersOfCalls m fun call => answerAlone scene m (resolve call))) := by
  have hevents : Gives scene [m.path.key]
      (m.events.mapM fun event =>
        match event with
        | .call call => resolve call
        | _ => pure none)
      (m.events.map fun event =>
        match event with
        | .call call => answerAlone scene m (resolve call)
        | _ => none) := by
    refine gives_mapM fun event => ?_
    cases event with
    | call call => exact Isolated.gives scene m (h call)
    | _ => exact .pure _ _ none
  refine hevents.bind ?_
  rw [List.filterMap_map, Function.id_comp]
  exact .pure scene [m.path.key] _

theorem answerAlone_components :
    answerAlone scene m (components m) = collected ((componentCalls m).map fun call =>
      answerAlone scene m (registered m call.1 call.2)) :=
  answerAlone_eq scene m (componentsOf_gives scene m (componentCalls m))

theorem answerAlone_routes :
    answerAlone scene m (routes m) = (stateCalls m).filterMap fun call =>
      answerAlone scene m (registeredRoute? m call) :=
  routes_start scene m

theorem answerAlone_controllers :
    answerAlone scene m (controllers m) =
      (answersOfCalls m fun call => answerAlone scene m (controllerRegistration? m call)).foldl
        register (declaredControllers m) := by
  have hregistrations := gives_answersOfCalls scene m id fun call =>
    (IsRegistration.controller (m := m) call).isolated scene (List.cons_ne_nil _ _)
  exact answerAlone_eq scene m (hregistrations.bind (.pure _ _ _))

theorem answerAlone_directives :
    let classes := answerAlone scene m (classDirectives m)
    answerAlone scene m (directives m) =
      (answersOfCalls m fun call =>
        answerAlone scene m (registeredDirective? m classes call)).filter fun directive =>
          !directive.name.isEmpty := by
  intro classes
  have hclasses : Gives scene [m.path.key] (classDirectives m) classes :=
    Isolated.gives scene m ((composed_classDirectives m).isolated scene (List.cons_ne_nil _ _))
  have hcalls := gives_answersOfCalls scene m
    (List.filter fun directive : Directive => !directive.name.isEmpty) fun call =>
      (IsRegistration.directive (m := m) classes call).isolated scene (List.cons_ne_nil _ _)
  exact answerAlone_eq scene m (hclasses.bind hcalls)

end Alone

end Analysis

open Analysis

/-- **Registrations of one file are resolved independently.**  Whatever a registration leads to, it
leaves the chain of files as it was found.  On the way the files that were being looked into still
are, no file is on the chain twice, and nothing that was loaded or missed is forgotten.  Whatever
else has been recorded before, its result is the one it has alone in a session that was just
started, and it is given up just if it is then.  So the components, controllers, directives and
routes of a script are made from what its registrations answer alone. -/
theorem registrations_resolved_alone (scene : Scene) (origin : Path) (text : String) :
    let m := Module.ofText origin text
    let classes := answerAlone scene m (classDirectives m)
    (∀ {α : Type} {step : Lookup α}, IsRegistration m step →
      (∀ session : Session, session.chain ≠ [] →
        (step scene session).2.chain = session.chain ∧
        session.Keeps (step scene session).2 ∧
        (session.chain.Nodup → Throughout scene
          (fun later => later.chain.Nodup ∧ session.Keeps later ∧
            Session.Above session.chain later) step session)) ∧
      ∀ session : Session, session.chain = [origin.key] →
        (step scene session).1 = answerAlone scene m step ∧
        (step scene session).2.gaveUp =
          (session.gaveUp || (step scene (.start origin)).2.gaveUp)) ∧
    answerAlone scene m (components m) = collected ((componentCalls m).map fun call =>
      answerAlone scene m (registered m call.1 call.2)) ∧
    answerAlone scene m (controllers m) =
      (answersOfCalls m fun call => answerAlone scene m (controllerRegistration? m call)).foldl
        register (declaredControllers m) ∧
    answerAlone scene m (directives m) =
      (answersOfCalls m fun call =>
        answerAlone scene m (registeredDirective? m classes call)).filter (fun directive =>
          !directive.name.isEmpty) ∧
    answerAlone scene m (routes m) = (stateCalls m).filterMap fun call =>
      answerAlone scene m (registeredRoute? m call) := by
  intro m classes
  refine ⟨fun {α step} hstep => ⟨fun session hchain => ?_, fun session hsession => ?_⟩,
    answerAlone_components scene m, answerAlone_controllers scene m,
    answerAlone_directives scene m, answerAlone_routes scene m⟩
  · obtain ⟨_, _, hisolated⟩ := hstep.isolated scene hchain
    obtain ⟨-, -, hend, hon⟩ := hisolated session rfl
    exact ⟨hend, hon.keeps.last.1, fun hnodup => hon.keeps.nodup hnodup⟩
  · obtain ⟨answer, gaveUp, hisolated⟩ := hstep.isolated scene (List.cons_ne_nil origin.key [])
    obtain ⟨hanswer, hgaveUp, -⟩ := hisolated session hsession
    obtain ⟨halone, hgaveUpAlone, -⟩ := hisolated (.start origin) rfl
    have hsame : gaveUp = (step scene (.start origin)).2.gaveUp := by
      rw [hgaveUpAlone]
      rfl
    exact ⟨hanswer.trans halone.symm, by rw [hgaveUp, hsame]⟩

/-! ### A circle, a module that is not there and a component after them -/

namespace Shared

def origin : Path :=
  ⟨"/main.ts"⟩

/-- The name of the first component is passed to and fro between two scripts, and the settings of
the second come from a module that does not exist. -/
def text : String :=
  "import \x7b n \x7d from './a'; import \x7b o \x7d from './lost'; x.component(n, \x7b\x7d); " ++
    "x.component('card', o); x.component('menu', \x7b\x7d)"

def script : Module :=
  .ofText origin text

def scene : Scene where
  root := ⟨"/"⟩
  files := { buffers := [("/a.ts", "export \x7b n \x7d from './b'"),
    ("/b.ts", "export \x7b n \x7d from './a'")] }

/-- The session in which the first two registrations have been resolved. -/
def before : Session :=
  (componentsOf script ((componentCalls script).take 2) scene (.start origin)).2

theorem before_records : ((componentCalls script).drop 2).length = 1 ∧
    before.chain = [origin.key] ∧ before.dependencies = [⟨"/a.ts"⟩, ⟨"/b.ts"⟩] ∧
    before.missed.contains "/lost.ts" = true := by
  decide +kernel

end Shared

open Shared in
/-- After a circle and a module that was missed, the third registration is resolved as if it were
the only one, and it puts no file on the chain twice. -/
theorem third_registration_resolved_alone :
    ((componentCalls script).drop 2).length = 1 ∧ before.chain = [origin.key] ∧
      before.dependencies = [⟨"/a.ts"⟩, ⟨"/b.ts"⟩] ∧ before.missed.contains "/lost.ts" = true ∧
      ∀ call ∈ (componentCalls script).drop 2,
        (registered script call.1 call.2 scene before).1 =
          answerAlone scene script (registered script call.1 call.2) ∧
        (registered script call.1 call.2 scene before).2.chain = before.chain ∧
        Throughout scene
          (fun later => later.chain.Nodup ∧ before.Keeps later ∧
            Session.Above before.chain later) (registered script call.1 call.2) before := by
  obtain ⟨hthird, hchain, hloaded, hmissed⟩ := before_records
  refine ⟨hthird, hchain, hloaded, hmissed, fun call _ => ?_⟩
  obtain ⟨hregistration, -⟩ := registrations_resolved_alone scene origin text
  obtain ⟨hany, halone⟩ := hregistration (.component call.1 call.2)
  obtain ⟨hend, -, hon⟩ := hany before (by rw [hchain]; exact List.cons_ne_nil _ _)
  exact ⟨(halone before hchain).1, hend, hon (by rw [hchain]; exact List.nodup_singleton _)⟩

end NgIndex
