import NgIndex.Entity.Directive
import NgIndex.Entity.HtmlReference
import NgIndex.Entity.Route
import NgIndex.Json

/-!
# The JSON form of entities

How components, controllers, directives, routes and references are written.  A template and a base
class that are absent are written as `null`; other absent parts are left out.  Base classes that
were found by linking are not written.
-/

namespace NgIndex

/-- A member with a name, left out where there is no value. -/
def Json.optionalMember (name : String) (value : Option Json) : List (String × Json) :=
  value.toList.map fun json => (name, json)

/-- The JSON form of a path. -/
def Path.toJson (path : Path) : Json :=
  .string path.text

/-- The JSON form of a span. -/
def Span.toJson (span : Span) : Json :=
  .object [("start_line", .nat span.startLine), ("start_col", .nat span.startColumn),
    ("end_line", .nat span.endLine), ("end_col", .nat span.endColumn)]

/-- The JSON form of a parameter. -/
def Parameter.toJson (parameter : Parameter) : Json :=
  .object [("name", .string parameter.name), ("type", .string parameter.type)]

/-- The JSON form of a member. -/
def Member.toJson (member : Member) : Json :=
  let common : List (String × Json) :=
    [("name", .string member.name), ("returnType", .string member.returnType),
      ("isPublic", .bool member.isPublic), ("span", member.span.toJson)]
  match member.form with
  | .property => .object (("kind", .string "property") :: common)
  | .method parameters =>
      .object (("kind", .string "method") :: common ++
        [("parameters", .array (parameters.map Parameter.toJson))])

/-- The members of the JSON form of a controller. -/
def Controller.jsonMembers (controller : Controller) : List (String × Json) :=
  [("name", .string controller.name), ("className", .string controller.className),
    ("path", controller.path.toJson), ("span", controller.span.toJson),
    ("baseClassName", .stringOrNull controller.baseClassName),
    ("members", .array (controller.members.map Member.toJson))]

/-- The JSON form of a controller. -/
def Controller.toJson (controller : Controller) : Json :=
  .object controller.jsonMembers

/-- The JSON form of a template. -/
def Template.toJson (template : Template) : Json :=
  .object ([("path", template.path.toJson), ("span", template.span.toJson)] ++
    Json.optionalMember "body" (template.body.map .string))

/-- The JSON form of a template that may be absent. -/
def Template.toJsonOrNull : Option Template → Json
  | some template => template.toJson
  | none => .null

/-- The members that a controller reference adds to the entity that has it. -/
def ControllerLink.jsonMembers (link : ControllerLink) : List (String × Json) :=
  Json.optionalMember "controllerName" (link.controllerName.map .string) ++
    Json.optionalMember "controllerClassName" (link.controllerClassName.map .string) ++
    [("controllerAs", .string link.controllerAs)] ++
    Json.optionalMember "controller" (link.controller.map fun linked => linked.controller.toJson)

/-- The JSON form of a binding. -/
def Binding.toJson (binding : Binding) : Json :=
  .object [("name", .string binding.name), ("htmlName", .string binding.htmlName),
    ("type", .string binding.type), ("span", binding.span.toJson)]

/-- The JSON form of a component. -/
def Component.toJson (component : Component) : Json :=
  .object ([("name", .string component.name), ("htmlName", .string component.htmlName),
    ("path", component.path.toJson), ("span", component.span.toJson),
    ("bindings", .array (component.bindings.map Binding.toJson)),
    ("template", Template.toJsonOrNull component.template)] ++ component.link.jsonMembers)

/-- The JSON form of a directive. -/
def Directive.toJson (directive : Directive) : Json :=
  .object ([("name", .string directive.name), ("htmlName", .string directive.htmlName)] ++
    Json.optionalMember "className" (directive.className.map .string) ++
    [("restrict", .string directive.restrict.letters), ("path", directive.path.toJson),
      ("span", directive.span.toJson)])

mutual

/-- The JSON form of a route; its views are left out if there are none. -/
def Route.toJson : Route → Json
  | ⟨name, path, span, template, link, views⟩ =>
      .object ([("name", .string name), ("path", path.toJson), ("span", span.toJson),
        ("template", Template.toJsonOrNull template)] ++ link.jsonMembers ++
        Json.optionalMember "views"
          (if views.isEmpty then none else some (.array (Route.listToJson views))))

/-- The JSON forms of routes. -/
def Route.listToJson : List Route → List Json
  | [] => []
  | route :: rest => route.toJson :: Route.listToJson rest

end

/-- The name of a use in markup. -/
def ReferenceKind.label : ReferenceKind → String
  | .element => "element"
  | .attribute => "attribute"

/-- The JSON form of a reference. -/
def HtmlReference.toJson (reference : HtmlReference) : Json :=
  .object [("name", .string reference.name), ("kind", .string reference.kind.label),
    ("path", reference.path.toJson), ("span", reference.span.toJson)]

end NgIndex
