import NgIndex.Analysis.Template
import NgIndex.Entity.BindingType
import NgIndex.Script.Event

/-!
# Components of a script

Components are registered by calls with a name and a configuration.  The configuration is an
object, a class or an instance of a class, here or in another module.  Anything else that can be
reached is an error, and one such registration fails the whole script.
-/

namespace NgIndex
namespace Analysis

open Script Lookup

/-- A configuration that is neither an object nor a class nor an instance of one. -/
structure Unsupported where
  path : Path
  /-- The line of the configuration, counted from one. -/
  line : Nat
  deriving DecidableEq, Repr

/-- The wording of the error. -/
def Unsupported.message (error : Unsupported) : String :=
  "unsupported component configuration in " ++ error.path.text ++ " at line " ++
    toString error.line

/-- The error at a place. -/
def Unsupported.of (m : Module) (c : Cursor) : Unsupported :=
  ⟨m.path, c.node.start.line + 1⟩

/-- Where and under which name a component is registered. -/
structure Registration where
  origin : Path
  name : String
  nameSpan : Span

/-- The binding that an entry of a table declares. -/
def binding? (m : Module) (name : String) (value : Cursor) : Lookup (Option Binding) := do
  match ← string? m value with
  | none => return none
  | some raw =>
      let (type, other) := splitBindingType raw
      let key := (value.parent?.filter fun parent => parent.kind == .pair).bind fun pair =>
        pair.child? .key
      return some (.named (other.getD name) type (key.getD value).span)

/-- The bindings that an object declares. -/
def bindingsOf (m : Module) (object : Cursor) : Lookup (List Binding) := do
  let bindings ← (Table.ofObject m object).entries.mapM fun (name, value) => binding? m name value
  return bindings.filterMap id

/-- The bindings of a table of settings. -/
def bindings (m : Module) (table : Table) : Lookup (List Binding) := do
  match table.get? "bindings" with
  | none => return []
  | some site => do
      let found ← follow m site fun m target =>
        if target.kind == .object then do return some (← bindingsOf m target) else pure none
      return found.getD []

/-- The component that a table of settings describes. -/
def componentOf (m : Module) (table : Table) (name : String) (path : Path) (span : Span) :
    Lookup Component := do
  let bindings ← bindings m table
  let template ← template? m table
  let link ← link m table
  return { name, htmlName := Text.kebab name, path, span, bindings, template, link }

/-- Where a component is defined: where it is registered if the configuration is in the same file,
else the name of the class or the object. -/
def placeOf (m : Module) (c : Cursor) (registration : Registration) : Path × Span :=
  if m.path.same registration.origin then (registration.origin, registration.nameSpan)
  else (m.path, ((c.child? .name).getD c).span)

/-- The component with an object or a class as its configuration. -/
def componentAt (registration : Registration) (m : Module) (c : Cursor) :
    Lookup (Except Unsupported (Option Component)) := do
  match Table.ofNode? m c with
  | none => return .error (.of m c)
  | some table =>
      let (path, span) := placeOf m c registration
      return .ok (some (← componentOf m table registration.name path span))

/-- The component with what a configuration leads to.  An instance of a class that is not found
leaves the component out. -/
def componentFrom (registration : Registration) (m : Module) (c : Cursor) :
    Lookup (Except Unsupported (Option Component)) := do
  if c.kind != .construct then componentAt registration m c
  else
    match c.child? .constructor with
    | none => return .error (.of m c)
    | some constructor => do
        let found ← follow m constructor fun m target =>
          if target.node.isClass then do return some (← componentAt registration m target)
          else pure none
        return found.getD (.ok none)

/-- The component that a call with two arguments registers, if the name is known and the
configuration leads anywhere. -/
def registered (m : Module) (name configuration : Cursor) :
    Lookup (Except Unsupported (Option Component)) := do
  match ← string? m name with
  | none => return .ok none
  | some text => do
      let registration : Registration := ⟨m.path, text, name.span⟩
      let found ← follow m configuration fun m target => do
        return some (← componentFrom registration m target)
      return found.getD (.ok none)

/-- The calls that register components, with their two arguments. -/
def componentCalls (m : Module) : List (Cursor × Cursor) :=
  m.events.filterMap fun event =>
    match event with
    | .call call =>
        match call.isMethod "component", call.arguments with
        | true, [name, configuration] => some (name, configuration)
        | _, _ => none
    | _ => none

/-- The components of the given registrations, up to the first that fails. -/
def componentsOf (m : Module) :
    List (Cursor × Cursor) → Lookup (Except Unsupported (List Component))
  | [] => return .ok []
  | (name, configuration) :: rest => do
      match ← registered m name configuration with
      | .error error => return .error error
      | .ok component => do
          match ← componentsOf m rest with
          | .error error => return .error error
          | .ok components => return .ok (component.toList ++ components)

/-- The components of a script. -/
def components (m : Module) : Lookup (Except Unsupported (List Component)) :=
  componentsOf m (componentCalls m)

end Analysis
end NgIndex
