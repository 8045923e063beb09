import NgIndex.Script.ParameterRules

/-!
# Markup inside scripts

The rules for markup expressions, in the dialects that have them.  Only the expressions inside
braces matter to the index; elements, attributes and text share one kind each.  Names of opening
and closing tags are not compared.
-/

namespace NgIndex
namespace Script
namespace Rule

/-- A word of a name in markup, which may hold hyphens. -/
def markupWord : Rule Node := do
  let cs ← ahead
  check (cs.head?.any isNameStart)
  skip
  leaf .identifier (cs.takeWhile fun c => isNamePart c || c == '-').length

/-- A name in markup: words with points or a colon between them. -/
def markupName : Rule Node := do
  let first ← markupWord
  let more ← many do return [← glyph '.' <|> glyph ':', ← markupWord]
  return .branch .markup (first :: more.flatten)

/-- An expression in braces, or braces alone. -/
def markupExpression : Rule Node := do
  let opening ← glyph '{'
  let inside ← optList (spread <|> goal .expression)
  return .branch .markupExpression (opening :: inside ++ [← glyph '}'])

/-- A string in markup, where a backslash is an ordinary character. -/
def markupString : Rule Node := do
  match ← ahead with
  | quote :: rest => do
      check (quote == '"' || quote == '\'')
      check (rest.contains quote)
      skip
      leaf .string ((rest.takeWhile (· != quote)).length + 2)
  | [] => failure

/-- An attribute: an expression in braces, or a name with a value if there is one. -/
def markupAttribute : Rule Node := do
  let named : Rule Node := do
    let name ← markupName
    let value ← opt do
      return [← glyph '=', ← markupString <|> markupExpression <|> goal .markup]
    return .branch .markup (name :: value.getD [])
  markupExpression <|> named

/-- Text between tags. -/
def markupText : Rule Node := do
  let length := ((← get).rest.takeWhile fun c => !(['<', '>', '{', '}'].contains c)).length
  check (length != 0)
  leaf .markupText length

/-- A tag with what it surrounds.  A pair of tags may have no name, but a tag that closes itself has
one. -/
def markup : Rule Node := do
  let opening ← glyph '<'
  let name ← optList markupName
  let types ← optList typeArguments
  let attributes ← many markupAttribute
  let closed : Rule (List Node) := do
    check !name.isEmpty
    return [← glyph '/', ← glyph '>']
  let surrounding : Rule (List Node) := do
    let bracket ← glyph '>'
    let children ← many (markupText <|> markupExpression <|> goal .markup)
    let front := [← glyph '<', ← glyph '/']
    let name ← optList markupName
    return bracket :: children ++ front ++ name ++ [← glyph '>']
  return .branch .markup (opening :: name ++ types ++ attributes ++ (← closed <|> surrounding))

end Rule
end Script
end NgIndex
