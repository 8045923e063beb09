import NgIndex.Script.Module

/-!
# Tables of settings

An object or a class read as a table from names to expressions.  The table of a class holds the
fields that have a value, and after them what the constructor assigns to `this`.  A name that is
written twice keeps its place and takes the later value.
-/

namespace NgIndex
namespace Script

/-- Names with the expressions last written to them, in the order in which the names first
appear. -/
structure Table where
  /-- The object or class that the table describes. -/
  origin : Cursor
  entries : List (String × Cursor)

namespace Table

/-- Writes a value to a name. -/
def set (name : String) (value : Cursor) : List (String × Cursor) → List (String × Cursor)
  | [] => [(name, value)]
  | (other, old) :: rest =>
      if other == name then (other, value) :: rest else (other, old) :: set name value rest

/-- The table of a list of writes. -/
def ofWrites (origin : Cursor) (writes : List (String × Cursor)) : Table :=
  { origin
    entries := writes.foldl (fun entries (name, value) => set name value entries) [] }

/-- What a property of an object writes. -/
def propertyWrite? (m : Module) (property : Cursor) : Option (String × Cursor) :=
  match property.kind with
  | .pair => do
      let key ← (property.child? .key).bind m.propertyName?
      return (key, ← property.child? .value)
  | .shorthand => some (m.textAt property, property)
  | .method => do
      let key ← (property.child? .name).bind m.propertyName?
      return (key, property)
  | _ => none

/-- The table of an object. -/
def ofObject (m : Module) (object : Cursor) : Table :=
  ofWrites object (object.named.filterMap (propertyWrite? m))

/-- What a field of a class writes. -/
def fieldWrite? (m : Module) (member : Cursor) : Option (String × Cursor) := do
  guard (member.kind == .field)
  let name ← member.child? (if m.dialect.hasTypes then .name else .property)
  return (← m.propertyName? name, ← member.child? .value)

/-- The body of the first constructor in the body of a class. -/
def constructorBody? (m : Module) (body : Cursor) : Option Cursor := do
  let first ← body.named.find? fun member =>
    member.kind == .method && (member.child? .name).any fun name =>
      m.textAt name == "constructor"
  first.child? .body

/-- What a statement writes to a property of `this`. -/
def thisWrite? (m : Module) (statement : Cursor) : Option (String × Cursor) := do
  guard (statement.kind == .expressionStatement)
  let assignment ← statement.named.head?
  guard (assignment.kind == .assignment)
  let left ← assignment.child? .left
  guard (left.kind == .member)
  let object ← left.child? .object
  guard (object.kind == .this)
  return (m.textAt (← left.child? .property), ← assignment.child? .right)

/-- The writes of a class: its fields, then the statements of its constructor. -/
def classWrites (m : Module) (body : Cursor) : List (String × Cursor) :=
  let fields := body.named.filterMap (fieldWrite? m)
  let statements := (constructorBody? m body).toList.flatMap Cursor.named
  fields ++ statements.filterMap (thisWrite? m)

/-- The table of a class. -/
def ofClass (m : Module) (owner : Cursor) : Table :=
  ofWrites owner ((owner.child? .body).toList.flatMap (classWrites m))

/-- The table of an object, of a class, or of an instance of a class of the same script. -/
def ofNode? (m : Module) (c : Cursor) : Option Table :=
  let c := c.unwrap
  match c.kind with
  | .object => some (ofObject m c)
  | .construct => do
      let constructor ← c.child? .constructor
      guard (constructor.kind == .identifier)
      let owner ← m.declarationOf? (m.textAt constructor) constructor
      guard owner.node.isClass
      return ofClass m owner
  | _ => if c.node.isClass then some (ofClass m c) else none

/-- The expression under a name. -/
def get? (table : Table) (name : String) : Option Cursor :=
  (table.entries.find? fun entry => entry.1 == name).map Prod.snd

/-- Whether there is an expression under a name. -/
def contains (table : Table) (name : String) : Bool :=
  (table.get? name).isSome

/-- Whether the table describes a class. -/
def isClass (table : Table) : Bool :=
  table.origin.node.isClass

end Table
end Script
end NgIndex
