import NgIndex.Entity.Directive
import NgIndex.Lookup.Follow
import NgIndex.Script.Event

/-!
# Directives of a script

Directives are registered by calls with a name and a factory.  A factory is a function that returns
an object or an instance of a class, a call of a method of a class, or a list with a factory at its
end.  Lists may stand for lists in turn, and a list that leads back to itself has no end; the search
for a factory is bounded and is given up if it comes to the bound.
-/

namespace NgIndex
namespace Analysis

open Script Lookup

/-- What a factory makes directives from. -/
inductive Factory where
  /-- A class of the script that registers the directive. -/
  | ownClass (name : String)
  /-- A class of another script, as a directive that has no name yet. -/
  | otherClass (directive : Directive)
  /-- An object with the given use. -/
  | object (restrict : Restrict)

/-- A search for a factory that goes on and on. -/
structure Endless where
  deriving DecidableEq, Repr

/-- The use that a table of settings allows. -/
def restrictOf (m : Module) (table : Table) : Lookup Restrict := do
  match table.get? "restrict" with
  | none => return .either
  | some site => do
      match ← string? m site with
      | some text => return .ofText text
      | none => return .either

/-- The directive that a class makes, without a name. -/
def classDirective (m : Module) (owner name : Cursor) : Lookup Directive := do
  let restrict ← restrictOf m (Table.ofClass m owner)
  return {
    name := ""
    htmlName := ""
    className := some (m.textAt name)
    restrict
    path := m.path
    span := name.span }

/-- The classes of a script as directives without a name. -/
def classDirectives (m : Module) : Lookup (List Directive) := do
  let found ← m.events.mapM fun event =>
    match event with
    | .classDeclaration site =>
        match site.child? .name with
        | some name => do return some (← classDirective m site name)
        | none => pure none
    | _ => pure none
  return found.filterMap id

/-- The expression that a function returns: the body of an arrow function, or what the first return
among the statements of the body gives. -/
def returned? (function : Cursor) : Option Cursor := do
  let body ← function.child? .body
  if body.kind != .block then return body.unwrap
  let statement ← body.named.find? fun statement => statement.kind == .returnStatement
  let value ← statement.named.head?
  guard (value.kind != .comment)
  return value.unwrap

/-- The factory that a name of a class makes. -/
def classFactory (origin : Path) (m : Module) (reference : Cursor) : Lookup (Option Factory) := do
  if reference.kind != .identifier then return none
  let name := m.textAt reference
  let isOwn := (m.declarationOf? name reference).any fun declaration => declaration.node.isClass
  if isOwn && m.path.same origin then return some (.ownClass name)
  follow m reference fun m target =>
    match target.node.isClass, target.child? .name with
    | true, some name => do return some (.otherClass (← classDirective m target name))
    | _, _ => pure none

/-- The factory that returns an object. -/
def objectFactory (m : Module) (c : Cursor) : Lookup (Option Factory) := do
  if c.kind != .object then return none
  return some (.object (← restrictOf m (Table.ofObject m c)))

/-- The factory that a function is. -/
def functionFactory (origin : Path) (m : Module) (function : Cursor) :
    Lookup (Option Factory) := do
  match returned? function with
  | none => return none
  | some value =>
      if value.kind != .construct then follow m value objectFactory
      else
        match value.child? .constructor with
        | some constructor => classFactory origin m constructor
        | none => return none

/-- The factory that a call of a method of a class gives. -/
def callFactory (origin : Path) (m : Module) (call : Cursor) : Lookup (Option Factory) := do
  match call.child? .function with
  | none => return none
  | some callee =>
      if callee.kind != .member then return none
      match callee.child? .object with
      | some object => classFactory origin m object.unwrap
      | none => return none

/-- A bound for the number of lists of one module on the way to a factory: where none is passed
twice, each of them is another place in the script. -/
def listLimit (m : Module) : Nat :=
  m.root.preOrder.length

/-- The factory at the end of a search.  `lists` bounds how many lists of the module lead from one
to the next; where a list leads into another module the search goes on with `deeper`. -/
def factoryAt (origin : Path) (deeper : Visit (Except Endless Factory)) :
    Nat → Visit (Except Endless Factory)
  | 0, _, _ => return some (.error {})
  | lists + 1, m, c => do
      if c.kind == .array then
        match c.items.getLast? with
        | some last =>
            follow m last fun target site =>
              if target.path == m.path then factoryAt origin deeper lists target site
              else deeper target site
        | none => return none
      else if c.kind == .call then return (← callFactory origin m c).map Except.ok
      else if c.node.isFunction then return (← functionFactory origin m c).map Except.ok
      else return none

/-- The factory at the end of a search that may lead through several modules; `modules` bounds how
many are looked into at the same time. -/
def factoryWithin (origin : Path) : Nat → Visit (Except Endless Factory)
  | 0, _, _ => return some (.error {})
  | modules + 1, m, c => factoryAt origin (factoryWithin origin modules) (listLimit m) m c

/-- The outcome of a search for a factory; a search that goes on and on is given up. -/
def concluded : Option (Except Endless Factory) → Lookup (Option Factory)
  | some (.ok factory) => return some factory
  | some (.error _) => do
      giveUp
      return none
  | none => return none

/-- The factory that an expression stands for. -/
def factory? (m : Module) (c : Cursor) : Lookup (Option Factory) := do
  concluded (← follow m c (factoryWithin m.path (importLimit (← read).files m.path)))

/-- The directive that a factory makes under a name.  Of several classes of one name the first is
taken. -/
def directiveOf (m : Module) (classes : List Directive) (name : String) (site : Cursor) :
    Factory → Option Directive
  | .ownClass className =>
      (classes.find? fun directive => directive.className == some className).map fun directive =>
        directive.rename name
  | .otherClass directive => some (directive.rename name)
  | .object restrict =>
      some { name, htmlName := Text.kebab name, restrict, path := m.path, span := site.span }

/-- The directive that a call registers. -/
def registeredDirective? (m : Module) (classes : List Directive) (call : Call) :
    Lookup (Option Directive) := do
  match call.isMethod "directive", call.arguments with
  | true, [site, factory] => do
      match ← string? m site with
      | none => return none
      | some name => do
          let factory ← factory? m factory
          return factory.bind (directiveOf m classes name site)
  | _, _ => return none

/-- The directives of a script.  A directive without a name is left out. -/
def directives (m : Module) : Lookup (List Directive) := do
  let classes ← classDirectives m
  let found ← m.events.mapM fun event =>
    match event with
    | .call call => registeredDirective? m classes call
    | _ => pure none
  return (found.filterMap id).filter fun directive => !directive.name.isEmpty

end Analysis
end NgIndex
