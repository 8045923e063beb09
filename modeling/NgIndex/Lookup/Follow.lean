import NgIndex.Lookup.Export
import NgIndex.Lookup.Session
import NgIndex.Script.Table

/-!
# Following values

An expression is followed from names to their declarations, from properties to the tables that hold
them, and from imported names into other modules, until something is reached that cannot be followed
further: a literal, an object, a class, a function.  What is reached is handed to an action, and the
search goes on as long as the action has no answer and there are other places to look.

Two bounds make the search end.  Inside one module a value is followed for a fixed number of steps.
Each time a module is entered the count starts again, but a module that is being looked into is not
entered a second time.
-/

namespace NgIndex
namespace Lookup

open Script

/-- What is done with the end of a search. -/
abbrev Visit (α : Type) := Module → Cursor → Lookup (Option α)

/-- How to look for what a module, named by a specifier, exports under a name.  With `exactly` only
that name counts; otherwise what the module gives away without a name will do. -/
abbrev Reach (α : Type) :=
  (importer : Module) → (specifier name : String) → (exactly : Bool) → Visit α → Lookup (Option α)

/-- The number of steps for which a value is followed inside one module. -/
def stepLimit : Nat :=
  17

/-- The name to look for in the module that an imported name comes from.  Where the module as a
whole is imported, a property of it is the name. -/
def exportName (imported : Imported) (property : Option String) : String :=
  match imported, property with
  | .named name, _ => name
  | .whole, some property => property
  | .whole, none => defaultName
  | .default, _ => defaultName

/-- Follows a declaration: the value of a variable, or else the declaration itself is the end. -/
def followDeclarationWith {α : Type} (follow : Module → Cursor → Visit α → Lookup (Option α))
    (m : Module) (declaration : Cursor) (visit : Visit α) : Lookup (Option α) :=
  if declaration.kind == .declarator then
    match declaration.child? .value with
    | some value => follow m value visit
    | none => pure none
  else visit m declaration

/-- The import of a module as a whole that an expression names. -/
def wholeImport? (m : Module) (object : Cursor) : Option Import := do
  guard (object.kind == .identifier)
  let name := m.textAt object
  guard (m.declarationOf? name object).isNone
  let binding ← m.importOf? name
  guard (binding.imported == .whole)
  return binding

/-- Follows a value for a number of steps. -/
def followSteps {α : Type} (reach : Reach α) :
    Nat → Module → Cursor → Visit α → Lookup (Option α)
  | 0, _, _, _ => pure none
  | steps + 1, m, c, visit =>
      let c := c.unwrap
      if c.kind == .identifier || c.kind == .shorthand then
        let name := m.textAt c
        match m.declarationOf? name c with
        | some declaration =>
            followDeclarationWith (followSteps reach steps) m declaration visit
        | none =>
            match m.importOf? name with
            | some binding =>
                reach m binding.source (exportName binding.imported none) false visit
            | none => pure none
      else if c.kind == .member then
        match c.child? .object, c.child? .property with
        | some object, some property =>
            let object := object.unwrap
            let property := m.textAt property
            if object.kind == .this then
              match c.enclosingClass?.bind fun owner => (Table.ofClass m owner).get? property with
              | some value => followSteps reach steps m value visit
              | none => pure none
            else
              match wholeImport? m object with
              | some binding =>
                  reach m binding.source (exportName binding.imported property) false visit
              | none =>
                  followSteps reach steps m object fun m target =>
                    match (Table.ofNode? m target).bind fun table => table.get? property with
                    | some value => followSteps reach steps m value visit
                    | none => pure none
        | _, _ => pure none
      else visit m c

/-- Follows a declaration with all steps still to go. -/
def followDeclaration {α : Type} (reach : Reach α) (m : Module) (declaration : Cursor)
    (visit : Visit α) : Lookup (Option α) :=
  followDeclarationWith (followSteps reach stepLimit) m declaration visit

/-- Follows a name that a module declares or imports at its top level. -/
def followTopLevel {α : Type} (reach : Reach α) (m : Module) (name : String) (visit : Visit α) :
    Lookup (Option α) :=
  match m.topLevel? name with
  | some declaration => followDeclaration reach m declaration visit
  | none =>
      match m.importOf? name with
      | some binding => reach m binding.source (exportName binding.imported none) false visit
      | none => pure none

/-- Looks where an export statement says. -/
def followOffer {α : Type} (reach : Reach α) (m : Module) (name : String) (visit : Visit α) :
    Offer → Lookup (Option α)
  | .nothing => pure none
  | .declared site _ => visit m site
  | .declarator site => followDeclaration reach m site visit
  | .value none => pure none
  | .value (some site) => followSteps reach stepLimit m site visit
  | .ownName target => followTopLevel reach m target visit
  | .passed source target => reach m source target true visit
  | .everything source => reach m source name true visit

/-- Looks for a name among export statements. -/
def searchExports {α : Type} (reach : Reach α) (m : Module) (name : String) (visit : Visit α) :
    List Cursor → Lookup (Option α)
  | [] => pure none
  | statement :: rest => do
      let offer := m.offer name statement
      match ← followOffer reach m name visit offer with
      | some answer => return some answer
      | none => if offer.settles then return none else searchExports reach m name visit rest

/-- Looks for what a module exports under a name. -/
def followExport {α : Type} (reach : Reach α) (m : Module) (name : String) (exactly : Bool)
    (visit : Visit α) : Lookup (Option α) := do
  match ← searchExports reach m name visit m.exports with
  | some answer => return some answer
  | none =>
      if exactly || name == defaultName then return none
      else searchExports reach m defaultName visit m.exports

/-- Looks into other modules; `limit` bounds how many are looked into at the same time.  A search
that comes to the bound is given up. -/
def reachWithin {α : Type} : Nat → Reach α
  | 0, _, _, _, _, _ => do
      giveUp
      return none
  | limit + 1, importer, specifier, name, exactly, visit =>
      withModule importer.directory specifier fun m =>
        followExport (reachWithin limit) m name exactly visit

/-- A bound for the number of modules that are looked into at the same time.  A path that is found
starts with a part of the path of the module it is looked for from.  The rest of it names a file
that exists, or is one of the endings of modules; so there are no more such paths than parts times
files and endings. -/
def importLimit (files : Files) (start : Path) : Nat :=
  (files.count + moduleSuffixes.length) * (start.parts.length + 2) + 1

/-- Follows a value and hands what is reached to an action, until the action has an answer. -/
def follow {α : Type} (m : Module) (c : Cursor) (visit : Visit α) : Lookup (Option α) := do
  followSteps (reachWithin (importLimit (← read).files m.path)) stepLimit m c visit

/-- The text that an expression stands for, if it does not have to be run to tell. -/
def string? (m : Module) (c : Cursor) : Lookup (Option String) :=
  follow m c fun m target => pure (m.literalAt? target)

/-- Follows an expression to an object of the same script.  All names and properties passed on the
way share one number of steps; the rest of it is given with the object.  `fuel` is no less than the
number of steps. -/
def objectWithin (m : Module) : (fuel steps : Nat) → Cursor → Option (Cursor × Nat)
  | fuel + 1, steps + 1, c =>
      let c := c.unwrap
      match c.kind with
      | .object => some (c, steps)
      | .identifier => do
          let declaration ← m.declarationOf? (m.textAt c) c
          objectWithin m fuel steps (← declaration.child? .value)
      | .member => do
          let object ← c.child? .object
          let property ← c.child? .property
          let (target, left) ← objectWithin m fuel steps object
          objectWithin m fuel left (← (Table.ofObject m target).get? (m.textAt property))
      | _ => none
  | _, _, _ => none

/-- The object of the same script that an expression stands for. -/
def object? (m : Module) (c : Cursor) : Option Cursor :=
  (objectWithin m 16 16 c).map Prod.fst

end Lookup
end NgIndex
