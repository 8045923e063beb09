import NgIndex.Pattern

/-!
# Binding types

A binding is declared by a text of marks and, optionally, the name of the attribute that it is
bound to.
-/

namespace NgIndex

/-- The pattern of binding declarations: marks, as few as possible and all in one line, and word
characters up to the end of the text, as many as possible. -/
def bindingPattern : Pattern :=
  .seq (.look .textStart)
    (.seq (.group 1 (.many false (.chars (.compl (.single '\n')))))
      (.seq (.optional (.group 2 (.oneOrMore (.chars .word)))) (.look .textEnd)))

/-- Splits a binding declaration into its marks and its name.  A text that is none is all marks. -/
def splitBindingType (raw : String) : String × Option String :=
  match bindingPattern.captures? raw with
  | some groups => ((groups.lookup 1).getD "", groups.lookup 2)
  | none => (raw, none)

end NgIndex
