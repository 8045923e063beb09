import NgIndex.Script.MarkupRules
import NgIndex.Script.StatementRules

/-!
# Reading scripts

The grammar as a whole.  Goals are tied to their rules with a bound on how deeply goals may stand
inside each other.  Between two goals that read no text in between there are at most a handful of
others, so a bound in the length of the text is never reached.

The tree of a script holds the statements from its front on; what follows a statement that cannot be
read is left out.
-/

namespace NgIndex
namespace Script

/-- The rule of a goal. -/
def Goal.rule : Goal → Rule Node
  | .statement => Rule.statement
  | .block => Rule.block
  | .classBody => Rule.classBody
  | .expression => Rule.expression
  | .single => Rule.single
  | .consequent => Rule.consequent
  | .binary level => Rule.binary level
  | .unary => Rule.unary
  | .pattern => Rule.pattern
  | .type => Rule.type
  | .markup => Rule.markup

/-- Answers a goal; `depth` bounds the nesting of goals. -/
def solve (dialect : Dialect) : Nat → Goal → StateT Input Option Node
  | 0, _ => failure
  | depth + 1, goal => goal.rule { dialect, solve := solve dialect depth }

/-- A bound for the nesting of goals in a text. -/
def nesting (length : Nat) : Nat :=
  8 * length + 16

/-- The line at the very front of a script that names the program to run it with. -/
def interpreterLine : Rule Node := do
  match (← get).rest with
  | '#' :: '!' :: rest =>
      Rule.leaf .comment (2 + (rest.takeWhile fun c => !isLineEnd c).length)
  | _ => failure

/-- The statements of a script, up to the first that cannot be read. -/
def statements : Rule (List Node) := do
  let front ← Rule.optList interpreterLine
  let statements ← Rule.many (Rule.goal .statement)
  Rule.skip
  return front ++ statements

/-- The tree of a script.  It starts at the first token or comment and goes on to the end of the
text. -/
def parse (dialect : Dialect) (text : String) : Node :=
  let cs := text.toList
  let env : Env := { dialect, solve := solve dialect (nesting cs.length) }
  let stop := ({} : Position).after cs
  match statements env { rest := cs } with
  | none => { kind := .program, start := stop, stop }
  | some (statements, input) =>
      let nodes := input.comments.reverse.foldl (fun nodes comment =>
        Node.insertAmong comment nodes) statements
      let start := (nodes.head?.map fun node => node.start).getD stop
      { kind := .program, start, stop, children := nodes }

end Script
end NgIndex
