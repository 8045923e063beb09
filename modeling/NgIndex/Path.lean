import NgIndex.Text.Blank
import NgIndex.Text.Casing

/-!
# Slash separated paths

A path is a text whose parts are separated by slashes.  Nothing is normalised when a path is made
or joined; only the reading of its components passes over empty parts and parts that are a single
dot.  A dot at the very front of a relative path is a component of its own.  No operation of this
module looks at a file system.
-/

namespace NgIndex

/-- A slash separated path, kept as it is spelled. -/
structure Path where
  text : String
  deriving DecidableEq, Repr, Inhabited

namespace Path

/-- What a path is made of. -/
inductive Component where
  | root
  | current
  | parent
  | normal (name : String)
  deriving DecidableEq, Repr, Inhabited

/-- The part that a component adds to the spelling of a path. -/
def Component.spelling : Component → String
  | .root => "/"
  | .current => "."
  | .parent => ".."
  | .normal name => name

/-- Whether a path starts at the root. -/
def isAbsolute (p : Path) : Bool :=
  p.text.toList.head? == some '/'

/-- A part that contributes no component inside a path. -/
def isIdle (part : List Char) : Bool :=
  part == [] || part == ['.']

/-- The parts of a path after the root slash, if it has one. -/
def parts (p : Path) : List (List Char) :=
  (if p.isAbsolute then p.text.toList.drop 1 else p.text.toList).splitOn '/'

/-- Whether a relative path starts with a part that is a single dot. -/
def startsAtCurrent (p : Path) : Bool :=
  !p.isAbsolute && p.parts.head? == some ['.']

/-- The component that a part stands for. -/
def componentOfPart (part : List Char) : Component :=
  if part == ['.', '.'] then .parent else .normal (String.ofList part)

/-- The components of a path, from the front. -/
def components (p : Path) : List Component :=
  let body := (p.parts.filter fun part => !isIdle part).map componentOfPart
  if p.isAbsolute then .root :: body
  else if p.startsAtCurrent then .current :: body
  else body

/-- Parts put together with slashes between them. -/
def spellParts (ps : List (List Char)) : List Char :=
  List.intercalate ['/'] ps

/-- The parts without idle parts at the end. -/
def dropIdleEnd (ps : List (List Char)) : List (List Char) :=
  Text.dropTrailing isIdle ps

/-- The parts without their last component, or `none` if they hold no component. -/
def withoutLast? (ps : List (List Char)) : Option (List (List Char)) :=
  match dropIdleEnd ps with
  | [] => none
  | kept => some (dropIdleEnd kept.dropLast)

/-- The path without its last component.  The root and the empty path have no parent. -/
def parent? (p : Path) : Option Path :=
  if p.isAbsolute then
    (withoutLast? p.parts).map fun ps => ⟨String.ofList ('/' :: spellParts ps)⟩
  else if p.startsAtCurrent then
    match withoutLast? p.parts.tail with
    | some ps => some ⟨String.ofList (spellParts (['.'] :: ps))⟩
    | none => some ⟨""⟩
  else
    (withoutLast? p.parts).map fun ps => ⟨String.ofList (spellParts ps)⟩

/-- The directory that holds a file; empty if there is none. -/
def directory (p : Path) : Path :=
  p.parent?.getD ⟨""⟩

/-- The path without its last component; the root and the empty path are kept. -/
def pop (p : Path) : Path :=
  p.parent?.getD p

/-- Appends a path.  An absolute one takes the place of what was there. -/
def push (p : Path) (next : String) : Path :=
  if (Path.mk next).isAbsolute then ⟨next⟩
  else if p.text == "" || p.text.toList.getLast? == some '/' then ⟨p.text ++ next⟩
  else ⟨p.text ++ "/" ++ next⟩

/-- One component of a relative path applied to a directory. -/
def step (p : Path) : Component → Path
  | .current => p
  | .parent => p.pop
  | other => p.push other.spelling

/-- A relative path applied to a directory, with dots and double dots folded away. -/
def joinRelative (directory : Path) (relative : String) : Path :=
  (Path.mk relative).components.foldl step directory

/-- The last component, if it is a name. -/
def fileName? (p : Path) : Option String :=
  match p.components.getLast? with
  | some (.normal name) => some name
  | _ => none

/-- What follows the last dot of the file name.  A dot at the very front does not count. -/
def extension? (p : Path) : Option String :=
  match p.fileName? with
  | none => none
  | some name =>
      let reversed := name.toList.reverse
      match reversed.dropWhile (· != '.') with
      | [] => none
      | [_] => none
      | _ :: _ :: _ => some (String.ofList (reversed.takeWhile (· != '.')).reverse)

/-- The extension with its ASCII letters in lower case. -/
def lowerExtension? (p : Path) : Option String :=
  p.extension?.map Text.lowerAscii

/-- Parts without the first `n` components among them. -/
def dropComponents : Nat → List (List Char) → List (List Char)
  | 0, ps => ps
  | _ + 1, [] => []
  | n + 1, part :: ps => if isIdle part then dropComponents (n + 1) ps else dropComponents n ps

/-- The spelling of what follows the first components of a path. -/
def spellAfter (n : Nat) (ps : List (List Char)) : Path :=
  ⟨String.ofList (spellParts (dropIdleEnd ((dropComponents n ps).dropWhile isIdle)))⟩

/-- The path relative to a base, or `none` if it does not start with the components of the base. -/
def relativeTo? (p base : Path) : Option Path :=
  let count := base.components.length
  if !base.components.isPrefixOf p.components then none
  else if count == 0 then
    if p.isAbsolute then some ⟨String.ofList ('/' :: spellParts (dropIdleEnd p.parts))⟩
    else if p.startsAtCurrent then
      some ⟨String.ofList (spellParts (['.'] :: dropIdleEnd p.parts.tail))⟩
    else some ⟨String.ofList (spellParts (dropIdleEnd p.parts))⟩
  else if p.isAbsolute then some (spellAfter (count - 1) p.parts)
  else if p.startsAtCurrent then some (spellAfter (count - 1) p.parts.tail)
  else some (spellAfter count p.parts)

/-- The spelling by which files are told apart: backslashes count as slashes, and case is
ignored. -/
def key (p : Path) : String :=
  Text.lower (String.ofList (p.text.toList.map fun c => if c == '\\' then '/' else c))

/-- Whether two paths name the same file. -/
def same (a b : Path) : Bool :=
  a.key == b.key

/-- The rank of a component among components of other kinds. -/
def Component.rank : Component → Nat
  | .root => 0
  | .current => 1
  | .parent => 2
  | .normal _ => 3

/-- The order of components: by kind, and names by their characters. -/
def Component.le (a b : Component) : Bool :=
  match a, b with
  | .normal x, .normal y => decide (x ≤ y)
  | _, _ => decide (a.rank ≤ b.rank)

/-- The order of lists of components, by the first one that differs. -/
def componentsLe : List Component → List Component → Bool
  | [], _ => true
  | _ :: _, [] => false
  | a :: as, b :: bs => if a == b then componentsLe as bs else a.le b

/-- The order of paths, component by component. -/
def le (a b : Path) : Bool :=
  componentsLe a.components b.components

/-- Whether a file holds markup. -/
def isMarkup (p : Path) : Bool :=
  match p.lowerExtension? with
  | some extension => ["html", "htm"].contains extension
  | none => false

/-- Whether a file holds a script. -/
def isScript (p : Path) : Bool :=
  match p.lowerExtension? with
  | some extension => ["ts", "tsx", "js", "jsx", "mjs", "cjs"].contains extension
  | none => false

/-- Repeatedly removes `../` from the front. -/
def dropUps : List Char → List Char
  | '.' :: '.' :: '/' :: rest => dropUps rest
  | cs => cs

/-- Repeatedly removes `./` from the front. -/
def dropHeres : List Char → List Char
  | '.' :: '/' :: rest => dropHeres rest
  | cs => cs

/-- The path below the project root that a template address names: the query is cut off, and
leading steps upwards, steps to the same place and slashes are removed, in this order. -/
def normalizeTemplate (address : String) : String :=
  let path := address.toList.takeWhile (· != '?')
  String.ofList ((dropHeres (dropUps path)).dropWhile (· == '/'))

end Path
end NgIndex
