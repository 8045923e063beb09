import NgIndex.Entity.Controller
import NgIndex.Text.Kebab

/-!
# Components, templates and controller references

A component is registered under a name and has bindings, a template and a reference to a
controller.  Routes have the latter two as well.  A reference names a controller by its registered
name or by its class; which controller that is, is known only after linking.
-/

namespace NgIndex

/-- A template: the file at the path, or the inline text if there is one. -/
structure Template where
  path : Path
  span : Span
  body : Option String := none
  deriving DecidableEq, Repr, Inhabited

/-- Whether a template is written inline. -/
def Template.isInline (template : Template) : Bool :=
  template.body.isSome

/-- The name under which a template sees its controller when none is given. -/
def defaultAlias : String := "$ctrl"

/-- A reference to a controller by its registered name or else by its class. -/
structure ControllerLink where
  controllerName : Option String := none
  controllerClassName : Option String := none
  controllerAs : String := defaultAlias
  controller : Option LinkedController := none
  deriving DecidableEq, Repr, Inhabited

namespace ControllerLink

/-- Whether a controller is referred to at all. -/
def hasReference (link : ControllerLink) : Bool :=
  link.controllerName.isSome || link.controllerClassName.isSome

/-- The controller of a set that a reference means. -/
def target? (link : ControllerLink) (set : ControllerSet) : Option LinkedController :=
  match link.controllerName, link.controllerClassName with
  | some name, _ => set.byName? name
  | none, some className => set.byClassName? className
  | none, none => none

/-- The reference resolved against a set of controllers. -/
def resolve (link : ControllerLink) (set : ControllerSet) : ControllerLink :=
  { link with controller := link.target? set }

end ControllerLink

/-- A binding of a component. -/
structure Binding where
  name : String
  htmlName : String
  type : String
  span : Span
  deriving DecidableEq, Repr, Inhabited

/-- The binding with a name, whose name in markup follows from it. -/
def Binding.named (name type : String) (span : Span) : Binding :=
  ⟨name, Text.kebab name, type, span⟩

/-- A registered component. -/
structure Component where
  name : String
  htmlName : String
  path : Path
  span : Span
  bindings : List Binding := []
  template : Option Template := none
  link : ControllerLink := {}
  deriving DecidableEq, Repr, Inhabited

/-- Which places a jump to the definition of a component leads to. -/
structure DefinitionParts where
  component : Bool := true
  template : Bool := true
  controller : Bool := true
  deriving DecidableEq, Repr, Inhabited

namespace Component

/-- The binding with the given name, in either spelling. -/
def binding? (component : Component) (name : String) : Option Binding :=
  component.bindings.find? fun b => b.name == name || b.htmlName == name

/-- The component with its controller reference resolved. -/
def resolve (component : Component) (set : ControllerSet) : Component :=
  { component with link := component.link.resolve set }

/-- The places that a jump to the definition leads to. -/
def definitionTargets (component : Component) (parts : DefinitionParts) : List (Path × Span) :=
  (if parts.component then [(component.path, component.span)] else []) ++
    (if parts.template then component.template.toList.map fun t => (t.path, t.span) else []) ++
    (if parts.controller then
      component.link.controller.toList.map fun c => (c.controller.path, c.controller.span)
    else [])

end Component
end NgIndex
