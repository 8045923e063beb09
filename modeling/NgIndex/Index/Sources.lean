import NgIndex.Analysis.Component
import NgIndex.Analysis.Controller
import NgIndex.Analysis.Directive
import NgIndex.Analysis.Route
import NgIndex.Index.Cache
import NgIndex.Markup.Reference

/-!
# The kinds of entities

How controllers, components, directives, routes and references in markup are read from files and
linked.  Controllers are linked to their base classes; components and routes are linked to
controllers.
-/

namespace NgIndex
namespace Source

/-- Reads a script with a step of the analysis.  The paths that it came to need are watched. -/
def parseScript {α : Type} (analysis : Script.Module → Lookup (List α)) (scene : Scene)
    (path : Path) (text : String) : Parsed α :=
  let (entities, session) := (analysis (.ofText path text) scene).run (.start path)
  { entities, watched := session.watched }

/-- Controllers. -/
def controllers : Source Controller LinkedController where
  kind := "controller"
  accepts := Path.isScript
  parse := parseScript Analysis.controllers
  link _ entities := Controller.link entities

/-- The components of a script; none if one of them has a configuration that is not supported. -/
def supportedComponents (m : Script.Module) : Lookup (List Component) := do
  match ← Analysis.components m with
  | .ok components => return components
  | .error _ => return []

/-- Components. -/
def components : Source Component Component where
  kind := "component"
  accepts := Path.isScript
  parse := parseScript supportedComponents
  link set entities := entities.map fun component => component.resolve set

/-- Directives. -/
def directives : Source Directive Directive where
  kind := "directive"
  accepts := Path.isScript
  parse := parseScript Analysis.directives
  link _ entities := entities

/-- Routes. -/
def routes : Source Route Route where
  kind := "route"
  accepts := Path.isScript
  parse := parseScript Analysis.routes
  link set entities := entities.map (Route.resolve set)

/-- References in markup. -/
def html : Source HtmlReference HtmlReference where
  kind := "html"
  accepts := Path.isMarkup
  parse _ path text := { entities := Markup.references path text }
  link _ entities := entities

end Source
end NgIndex
