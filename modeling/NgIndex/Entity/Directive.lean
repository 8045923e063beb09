import NgIndex.Path
import NgIndex.Span
import NgIndex.Text.Kebab

/-!
# Directives

A directive is registered under a name and may be used as an element, as an attribute, or as
either.
-/

namespace NgIndex

/-- How a directive may be used. -/
inductive Restrict where
  | element
  | attribute
  | either
  deriving DecidableEq, Repr, Inhabited

namespace Restrict

/-- The use that a text of letters allows.  Letters other than `E` and `A` do not count, and a text
with neither of them allows both. -/
def ofText (text : String) : Restrict :=
  match text.toList.contains 'E', text.toList.contains 'A' with
  | true, false => .element
  | false, true => .attribute
  | _, _ => .either

/-- The letters of a use. -/
def letters : Restrict → String
  | .element => "E"
  | .attribute => "A"
  | .either => "EA"

/-- Whether use as an element is allowed. -/
def allowsElement : Restrict → Bool
  | .attribute => false
  | _ => true

/-- Whether use as an attribute is allowed. -/
def allowsAttribute : Restrict → Bool
  | .element => false
  | _ => true

end Restrict

/-- A registered directive, with the name of its class if it is made from one. -/
structure Directive where
  name : String
  htmlName : String
  className : Option String := none
  restrict : Restrict := .either
  path : Path
  span : Span
  deriving DecidableEq, Repr, Inhabited

/-- The directive under another name. -/
def Directive.rename (directive : Directive) (name : String) : Directive :=
  { directive with name, htmlName := Text.kebab name }

end NgIndex
