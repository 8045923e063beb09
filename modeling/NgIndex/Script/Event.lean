import NgIndex.Script.Module
import NgIndex.Script.Traversal

/-!
# Calls, classes, functions and assignments

The nodes of a script that registrations are made of, in the order in which they are visited:
children before their parents, so that the calls of a chain come in the order in which they are
written.
-/

namespace NgIndex
namespace Script

/-- A call.  If a property of an object is called, the object and the name of the property are
given. -/
structure Call where
  site : Cursor
  callee : Cursor
  object : Option Cursor
  method : Option String
  arguments : List Cursor

namespace Call

/-- The call at a place.  Comments are no arguments. -/
def at? (m : Module) (c : Cursor) : Option Call := do
  guard (c.kind == .call)
  let callee ← c.child? .function
  let isMember := callee.kind == .member
  return {
    site := c
    callee
    object := if isMember then callee.child? .object else none
    method := if isMember then (callee.child? .property).map m.textAt else none
    arguments := (c.child? .arguments).toList.flatMap Cursor.items }

/-- Whether a property of the given name is called. -/
def isMethod (call : Call) (name : String) : Bool :=
  call.method == some name

end Call

/-- A node that registrations are made of. -/
inductive Event where
  | call (call : Call)
  | classDeclaration (site : Cursor)
  | functionDeclaration (site : Cursor)
  | assignment (site left right : Cursor)

namespace Event

/-- The event at a place. -/
def at? (m : Module) (c : Cursor) : Option Event :=
  match c.kind with
  | .call => (Call.at? m c).map Event.call
  | .classDeclaration => some (.classDeclaration c)
  | .abstractClassDeclaration => some (.classDeclaration c)
  | .functionDeclaration => some (.functionDeclaration c)
  | .assignment => do return .assignment c (← c.child? .left) (← c.child? .right)
  | _ => none

end Event

namespace Module

/-- Handles the event at a place; other places pass unnoticed. -/
def dispatch {μ : Type → Type} [Monad μ] (m : Module) (handle : Event → μ Unit) (c : Cursor) :
    μ Unit :=
  match Event.at? m c with
  | some event => handle event
  | none => pure ()

/-- Handles the events of a script in order, up to the first that fails. -/
def handleEvents {μ : Type → Type} [Monad μ] (m : Module) (handle : Event → μ Unit) : μ Unit :=
  m.root.walk (m.dispatch handle)

/-- The events of a script in order. -/
def events (m : Module) : List Event :=
  let record (event : Event) : StateM (List Event) Unit := modify (event :: ·)
  (((m.handleEvents record).run []).2).reverse

end Module
end Script
end NgIndex
