import NgIndex.Text.Blank
import NgIndex.Text.Casing
import NgIndex.Text.Folding
import NgIndex.Text.Word

/-!
# Regular expressions

Expressions, and whether one matches somewhere in a text.  Only this question is asked of them, so
an expression has no capture groups and repetition is neither greedy nor lazy.  Matching a part of
an expression gives the list of all places where it may end.
-/

namespace NgIndex

/-- A set of characters. -/
inductive CharSet where
  | range (first last : Char)
  | digit
  | word
  | blank
  | upper
  | lower
  | none
  | all
  | union (a b : CharSet)
  | inter (a b : CharSet)
  | compl (a : CharSet)
  deriving Repr, Inhabited

namespace CharSet

/-- A single character. -/
def single (c : Char) : CharSet :=
  .range c c

/-- The characters of the first set that are not in the second. -/
def minus (a b : CharSet) : CharSet :=
  .inter a (.compl b)

/-- The characters in exactly one of two sets. -/
def exclusive (a b : CharSet) : CharSet :=
  .union (a.minus b) (b.minus a)

/-- Membership.  With `fold`, ranges contain a character if they contain one that is equal to it
up to case. -/
def mem (fold : Bool) (c : Char) : CharSet → Bool
  | .range first last =>
      if fold then (Text.caseVariants c).any fun d => first ≤ d && d ≤ last
      else first ≤ c && c ≤ last
  | .digit => Text.isDigit c
  | .word => Text.isWord c
  | .blank => Text.isBlank c
  | .upper => Text.isUppercase c || (fold && (Text.caseVariants c).any Text.isUppercase)
  | .lower =>
      (Text.isCased c && !Text.isUppercase c) ||
        (fold && (Text.caseVariants c).any fun d => Text.isCased d && !Text.isUppercase d)
  | .none => false
  | .all => true
  | .union a b => a.mem fold c || b.mem fold c
  | .inter a b => a.mem fold c && b.mem fold c
  | .compl a => !a.mem fold c

end CharSet

/-- A condition on a place in a text. -/
inductive Regex.Look where
  | textStart
  | textEnd
  | lineStart
  | lineEnd
  | wordBoundary
  | wordInside
  | wordStart
  | wordEnd
  deriving DecidableEq, Repr

/-- A regular expression. -/
inductive Regex where
  | empty
  | chars (fold : Bool) (set : CharSet)
  | look (condition : Regex.Look)
  | seq (a b : Regex)
  | alt (a b : Regex)
  | many (a : Regex)
  deriving Repr, Inhabited

namespace Regex

/-- A place in a text: the character before it and the characters after it. -/
structure Place where
  before : Option Char
  after : List Char

/-- Whether a condition holds at a place. -/
def Look.holds (condition : Look) (place : Place) : Bool :=
  let wordBefore := place.before.any Text.isWord
  let wordAfter := place.after.head?.any Text.isWord
  match condition with
  | .textStart => place.before.isNone
  | .textEnd => place.after.isEmpty
  | .lineStart => place.before.isNone || place.before == some '\n'
  | .lineEnd => place.after.isEmpty || place.after.head? == some '\n'
  | .wordBoundary => wordBefore != wordAfter
  | .wordInside => wordBefore == wordAfter
  | .wordStart => !wordBefore && wordAfter
  | .wordEnd => wordBefore && !wordAfter

/-- Places without those that repeat an earlier one. -/
def distinct : List Place → List Place
  | [] => []
  | place :: more =>
      let more := distinct more
      if more.any fun other => other.after.length == place.after.length then more
      else place :: more

/-- The places reached from the given ones by any number of steps that move forward; `fuel` bounds
the number of steps. -/
def closure (step : Place → List Place) : Nat → List Place → List Place
  | 0, places => places
  | fuel + 1, places =>
      let forward := places.flatMap fun place =>
        (step place).filter fun next => next.after.length < place.after.length
      if forward.isEmpty then places
      else distinct (places ++ closure step fuel (distinct forward))

/-- The places where an expression that starts at a place may end. -/
def ends : Regex → Place → List Place
  | .empty, place => [place]
  | .chars fold set, place =>
      match place.after with
      | c :: rest => if set.mem fold c then [⟨some c, rest⟩] else []
      | [] => []
  | .look condition, place => if condition.holds place then [place] else []
  | .seq a b, place => distinct ((a.ends place).flatMap b.ends)
  | .alt a b, place => distinct (a.ends place ++ b.ends place)
  | .many a, place => closure a.ends (place.after.length + 1) [place]

/-- The place itself and all later places of a text. -/
def placesFrom (before : Option Char) : List Char → List Place
  | [] => [⟨before, []⟩]
  | c :: rest => ⟨before, c :: rest⟩ :: placesFrom (some c) rest

/-- Whether an expression matches somewhere in a text. -/
def isMatch (regex : Regex) (text : String) : Bool :=
  (placesFrom none text.toList).any fun place => !(regex.ends place).isEmpty

/-- An expression `n` times. -/
def times (a : Regex) : Nat → Regex
  | 0 => .empty
  | n + 1 => .seq a (times a n)

/-- An expression at most `n` times. -/
def upTo (a : Regex) : Nat → Regex
  | 0 => .empty
  | n + 1 => .alt .empty (.seq a (upTo a n))

end Regex
end NgIndex
