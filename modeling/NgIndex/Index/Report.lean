import NgIndex.Entity.Encoding
import NgIndex.Index.Project

/-!
# Reports

The contents of an index as JSON: for each kind of entity the list of its entities.  The members of
objects are written in the order of their names.
-/

namespace NgIndex
namespace EntityKind

/-- All kinds, in the order in which they are reported. -/
def all : List EntityKind :=
  [.components, .controllers, .directives, .routes, .html]

/-- The name of a kind in reports. -/
def name : EntityKind → String
  | .controllers => "controllers"
  | .components => "components"
  | .directives => "directives"
  | .routes => "routes"
  | .html => "html"

/-- The kind of a name. -/
def ofName? (name : String) : Option EntityKind :=
  all.find? fun kind => kind.name == name

end EntityKind

namespace Project

/-- The entities of a kind. -/
def entities (project : Project) : EntityKind → List Json
  | .controllers => project.controllers.snapshot.map fun linked => linked.controller.toJson
  | .components => project.components.snapshot.map Component.toJson
  | .directives => project.directives.snapshot.map Directive.toJson
  | .routes => project.routes.snapshot.map Route.toJson
  | .html => project.html.snapshot.map HtmlReference.toJson

/-- The entities of several kinds. -/
def report (project : Project) (kinds : List EntityKind) : Json :=
  (Json.object (kinds.map fun kind => (kind.name, .array (project.entities kind)))).sorted

end Project
end NgIndex
