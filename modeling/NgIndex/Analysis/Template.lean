import NgIndex.Entity.Component
import NgIndex.Lookup.Follow

/-!
# Templates and controller references in settings

What a table of settings says about a template and a controller.  Components, routes and the views
of routes share these settings.
-/

namespace NgIndex
namespace Analysis

open Script Lookup

/-- The template that an expression stands for: a text written inline, or a file that is loaded by
the function for it. -/
def templateAt? (m : Module) (c : Cursor) : Option Template :=
  match m.literalAt? c with
  | some body => some { path := m.path, span := c.span, body := some body }
  | none => do
      guard (c.kind == .call)
      let callee ← c.child? .function
      guard (m.textAt callee == "require")
      let arguments ← c.child? .arguments
      let specifier ← m.literalAt? (← arguments.named.head?)
      return { path := m.directory.joinRelative specifier, span := c.span }

/-- The file of markup that a name is imported from. -/
def importedTemplate? (m : Module) (c : Cursor) : Option Template := do
  guard (c.kind == .identifier)
  let binding ← m.importOf? (m.textAt c)
  guard (Path.mk binding.source).isMarkup
  return { path := m.directory.joinRelative binding.source, span := c.span }

/-- The template at an address below the project root. -/
def addressedTemplate? (m : Module) (table : Table) : Lookup (Option Template) := do
  match table.get? "templateUrl" with
  | none => return none
  | some site => do
      match ← string? m site with
      | none => return none
      | some address =>
          let path := (← read).root.push (Path.normalizeTemplate address)
          return some { path, span := site.span }

/-- The template of a table of settings.  An address that is known goes before anything else. -/
def template? (m : Module) (table : Table) : Lookup (Option Template) := do
  match ← addressedTemplate? m table with
  | some template => return some template
  | none =>
      match (table.get? "template").map Cursor.unwrap with
      | none => return none
      | some site =>
          match importedTemplate? m site with
          | some template => return some template
          | none => follow m site fun m target => pure (templateAt? m target)

/-- The inline template that consists of the tag of a component. -/
def tagTemplate (m : Module) (componentName : String) (c : Cursor) : Template :=
  { path := m.path, span := c.span, body := some ("<" ++ Text.kebab componentName ++ " />") }

/-- The last part of a list of dependencies; any other value as it is. -/
def lastOfList (c : Cursor) : Cursor :=
  let c := c.unwrap
  if c.kind != .array then c
  else (c.items.getLast?.map Cursor.unwrap).getD c

/-- A text cut at the first ` as ` in it. -/
def splitAlias? : List Char → Option (List Char × List Char)
  | [] => none
  | ' ' :: 'a' :: 's' :: ' ' :: rest => some ([], rest)
  | c :: rest => (splitAlias? rest).map fun (front, back) => (c :: front, back)

/-- The reference that a text makes: the name of a controller, and its alias if there is one. -/
def linkOfText (text : String) : ControllerLink :=
  match splitAlias? text.toList with
  | some (name, other) =>
      { controllerName := some (Text.trim (String.ofList name))
        controllerAs := Text.trim (String.ofList other) }
  | none => { controllerName := some text }

/-- The reference of a value to a controller.  A text names a registered controller; a name that
stands for no text names a class. -/
def controllerOf (m : Module) (value : Option Cursor) : Lookup ControllerLink := do
  match value.map lastOfList with
  | none => return {}
  | some site => do
      match ← string? m site with
      | some text => return linkOfText text
      | none =>
          if site.kind == .identifier then return { controllerClassName := some (m.textAt site) }
          else return {}

/-- The controller reference of a table of settings. -/
def link (m : Module) (table : Table) : Lookup ControllerLink := do
  let link ← controllerOf m (table.get? "controller")
  match table.get? "controllerAs" with
  | none => return link
  | some site => do
      match ← string? m site with
      | some name => return { link with controllerAs := name }
      | none => return link

end Analysis
end NgIndex
