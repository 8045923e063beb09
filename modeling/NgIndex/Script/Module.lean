import NgIndex.Script.Cursor
import NgIndex.Script.Parse

/-!
# Scripts as modules

A script that has been read, with an index of the names it declares and imports.  A declaration
reaches as far as the innermost block, or the script as a whole, that surrounds it.  Where a name is
declared several times in sight of its use, the innermost scope wins, and in one scope the last
declaration.
-/

namespace NgIndex
namespace Script

/-- What an imported name stands for in the module it comes from. -/
inductive Imported where
  /-- What the module gives away without a name. -/
  | default
  /-- What the module gives away under a name. -/
  | named (name : String)
  /-- The module as a whole. -/
  | whole
  deriving DecidableEq, Repr

/-- Where an imported name comes from. -/
structure Import where
  source : String
  imported : Imported
  deriving DecidableEq, Repr

/-- A declared name, the scope it reaches, and the place of the declaration. -/
structure Declaration where
  name : String
  scope : Cursor
  site : Cursor
  deriving Repr

/-- The part of a text that a node covers. -/
def textOf (text : String) (c : Cursor) : String :=
  Text.slice text c.node.start.byte c.node.stop.byte

/-- The characters between the quotes of a text in quotes. -/
def unquoted (text : String) : String :=
  Text.slice text 1 (text.utf8ByteSize - 1)

/-- The contents of a string, or of a template without substitutions. -/
def literal? (text : String) (c : Cursor) : Option String :=
  match c.kind with
  | .string => some (unquoted (textOf text c))
  | .template =>
      if c.named.any fun child => child.kind == .substitution then none
      else some (unquoted (textOf text c))
  | _ => none

/-! ### The index of names -/

/-- Whether a node declares a name that can be looked up. -/
def declares (kind : Kind) : Bool :=
  match kind with
  | .declarator => true
  | .classDeclaration => true
  | .abstractClassDeclaration => true
  | .functionDeclaration => true
  | .generatorDeclaration => true
  | _ => false

/-- The declaration at a place. -/
def declarationAt? (text : String) (c : Cursor) : Option Declaration := do
  guard (declares c.kind)
  let name ← c.child? .name
  guard (name.kind == .identifier)
  return { name := textOf text name, scope := ← c.scope?, site := c }

/-- The names that the parts of an import take from a module. -/
def importsOfClause (text : String) (source : String) (clause : Cursor) :
    List (String × Import) :=
  clause.named.flatMap fun child =>
    match child.kind with
    | .identifier => [(textOf text child, { source, imported := .default })]
    | .namespaceImport =>
        child.named.head?.toList.map fun name => (textOf text name, { source, imported := .whole })
    | .namedImports =>
        child.named.filterMap fun specifier => do
          guard (specifier.kind == .importSpecifier)
          let name ← specifier.child? .name
          let taken := (specifier.child? .newName).getD name
          return (textOf text taken, { source, imported := .named (textOf text name) })
    | _ => []

/-- The names that an import brings in. -/
def importsAt (text : String) (c : Cursor) : List (String × Import) :=
  if c.kind != .importStatement then []
  else
    c.named.flatMap fun child =>
      match child.kind with
      | .importClause =>
          match (c.child? .source).bind (literal? text) with
          | none => []
          | some source => importsOfClause text source child
      | .importRequire =>
          match (child.child? .source).bind (literal? text),
            child.named.head?.filter fun name => name.kind == .identifier with
          | some source, some name => [(textOf text name, { source, imported := .whole })]
          | _, _ => []
      | _ => []

/-- A script that has been read. -/
structure Module where
  path : Path
  text : String
  dialect : Dialect
  root : Cursor
  declarations : List Declaration
  imports : List (String × Import)

namespace Module

/-- Reads a script. -/
def ofText (path : Path) (text : String) : Module :=
  let dialect := Dialect.ofPath path
  let root : Cursor := { node := parse dialect text }
  let places := root.preOrder
  { path
    text
    dialect
    root
    declarations := places.filterMap (declarationAt? text)
    imports := places.flatMap (importsAt text) }

/-- The directory that holds the script. -/
def directory (m : Module) : Path :=
  m.path.directory

/-- The text of a node. -/
def textAt (m : Module) (c : Cursor) : String :=
  textOf m.text c

/-- The contents of a string, or of a template without substitutions. -/
def literalAt? (m : Module) (c : Cursor) : Option String :=
  literal? m.text c

/-- Of the declarations given, the last among those whose scope starts last. -/
def innermost? : List Declaration → Option Declaration
  | [] => none
  | first :: rest =>
      some (rest.foldl (fun best next =>
        if best.scope.node.start.byte ≤ next.scope.node.start.byte then next else best) first)

/-- The declaration that a name refers to at a place. -/
def declarationOf? (m : Module) (name : String) (site : Cursor) : Option Cursor :=
  let inSight := m.declarations.filter fun declaration =>
    declaration.name == name && declaration.scope.encloses site
  (innermost? inSight).map fun declaration => declaration.site

/-- The declaration of a name that is in sight everywhere in the script. -/
def topLevel? (m : Module) (name : String) : Option Cursor :=
  m.declarationOf? name m.root

/-- The import that brings in a name; a later import takes the place of an earlier one. -/
def importOf? (m : Module) (name : String) : Option Import :=
  (m.imports.reverse.find? fun binding => binding.1 == name).map Prod.snd

/-- The name of a property, unless it is computed. -/
def propertyName? (m : Module) (key : Cursor) : Option String :=
  match key.kind with
  | .propertyName => some (m.textAt key)
  | .privateName => some (m.textAt key)
  | .identifier => some (m.textAt key)
  | .number => some (m.textAt key)
  | .string => m.literalAt? key
  | _ => none

end Module
end Script
end NgIndex
