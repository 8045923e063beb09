import NgIndex.Path
import NgIndex.Span

/-!
# References in markup

A place in a markup file where a custom element or a custom attribute is used.
-/

namespace NgIndex

/-- How a name is used in markup. -/
inductive ReferenceKind where
  | element
  | attribute
  deriving DecidableEq, Repr, Inhabited

/-- The use of a name in markup. -/
structure HtmlReference where
  name : String
  kind : ReferenceKind
  path : Path
  span : Span
  deriving DecidableEq, Repr, Inhabited

end NgIndex
