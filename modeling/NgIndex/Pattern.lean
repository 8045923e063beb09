import NgIndex.Regex

/-!
# Patterns with groups

Regular expressions whose groups are asked for.  A text may match such a pattern in several ways, and
the groups depend on the way, so a pattern also says which way it prefers: the first of two
alternatives, and as many or as few repetitions as possible.  Matching a pattern at a place gives the
list of all ways in this order.  A search starts at the front of the text and takes the first way at
the first place where there is one.
-/

namespace NgIndex

/-- A regular expression with numbered groups. -/
inductive Pattern where
  | empty
  | chars (set : CharSet)
  | look (condition : Regex.Look)
  | seq (a b : Pattern)
  /-- Preferably the first of two patterns. -/
  | alt (a b : Pattern)
  /-- A pattern any number of times: as often as possible if it is greedy, else as seldom. -/
  | many (greedy : Bool) (a : Pattern)
  | group (number : Nat) (a : Pattern)
  deriving Repr, Inhabited

namespace Pattern

/-- How far a text has been matched, and what the groups hold that were passed on the way, the newest
first. -/
structure Progress where
  place : Regex.Place
  groups : List (Nat × String) := []

/-- The text between two places. -/
def Progress.textTo (start stop : Progress) : String :=
  String.ofList (start.place.after.take (start.place.after.length - stop.place.after.length))

/-- The ways to repeat a step.  A step that does not move forward is not repeated, so that `fuel` need
not be more than the number of characters left. -/
def repeated (greedy : Bool) (step : Progress → List Progress) : Nat → Progress → List Progress
  | 0, start => [start]
  | fuel + 1, start =>
      let forward := (step start).filter fun next =>
        next.place.after.length < start.place.after.length
      let further := forward.flatMap (repeated greedy step fuel)
      if greedy then further ++ [start] else start :: further

/-- The ways to match a pattern, in order of preference. -/
def ways : Pattern → Progress → List Progress
  | .empty, start => [start]
  | .chars set, start =>
      match start.place.after with
      | c :: rest => if set.mem false c then [{ start with place := ⟨some c, rest⟩ }] else []
      | [] => []
  | .look condition, start => if condition.holds start.place then [start] else []
  | .seq a b, start => (a.ways start).flatMap b.ways
  | .alt a b, start => a.ways start ++ b.ways start
  | .many greedy a, start => repeated greedy a.ways start.place.after.length start
  | .group number a, start =>
      (a.ways start).map fun stop =>
        { stop with groups := (number, start.textTo stop) :: stop.groups }

/-- What the groups of a pattern hold after the first match in a text. -/
def captures? (pattern : Pattern) (text : String) : Option (List (Nat × String)) :=
  (Regex.placesFrom none text.toList).findSome? fun place =>
    (pattern.ways { place }).head?.map Progress.groups

/-- A pattern that may be left out. -/
def optional (a : Pattern) : Pattern :=
  .alt a .empty

/-- A pattern once or more often, as often as possible. -/
def oneOrMore (a : Pattern) : Pattern :=
  .seq a (.many true a)

end Pattern
end NgIndex
