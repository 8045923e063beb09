import NgIndex.Path

/-!
# Dialects of scripts

The language of a script follows from the extension of its file.
-/

namespace NgIndex

/-- The language of a script. -/
inductive Dialect where
  /-- TypeScript, with type assertions in angle brackets. -/
  | typeScript
  /-- TypeScript with markup expressions. -/
  | tsx
  /-- JavaScript with markup expressions. -/
  | javaScript
  deriving DecidableEq, Repr, Inhabited

namespace Dialect

/-- The dialect of the file at a path. -/
def ofPath (path : Path) : Dialect :=
  match path.lowerExtension? with
  | some "ts" => .typeScript
  | some "mts" => .typeScript
  | some "cts" => .typeScript
  | some "tsx" => .tsx
  | _ => .javaScript

/-- The name of a dialect. -/
def name : Dialect → String
  | .typeScript => "TypeScript"
  | .tsx => "Tsx"
  | .javaScript => "JavaScript"

/-- Whether type annotations are part of the dialect. -/
def hasTypes : Dialect → Bool
  | .javaScript => false
  | _ => true

/-- Whether markup expressions are part of the dialect. -/
def hasMarkup : Dialect → Bool
  | .typeScript => false
  | _ => true

end Dialect
end NgIndex
