import NgIndex.Script.ExpressionRules
import NgIndex.Script.TypeRules

/-!
# Bodies of classes

The rules for members of classes.  A word such as `static` or `get` modifies a member only if the
member's name follows on the same line; otherwise the word is itself a name.  In the typed dialects
decorators of a method stand before it in the body of the class, while those of a field belong to
the field; in the untyped dialect they belong to both.
-/

namespace NgIndex
namespace Script
namespace Rule

/-- Whether a name or a star follows on the same line, so that the word before it modifies it. -/
def modifies : Rule Bool := do
  let cs ← ahead
  return !(← newlineAhead) && (startsPropertyName cs || cs.head? == some '*')

/-- A word that modifies a member. -/
def memberModifier : Rule Node := do
  let word ← nextWord
  let modifier ←
    if ["public", "private", "protected"].contains word then wordAs .accessibility word
    else if word == "override" then wordAs .override word
    else oneOf ["declare", "static", "readonly", "abstract", "accessor", "async", "get", "set"]
  check (← modifies)
  return modifier

/-- A word that modifies a member in the untyped dialect.  The words `static get` at the end of a
line modify a member on the next one. -/
def plainModifier : Rule Node := do
  let staticGet : Rule Node := do
    let cs ← ahead
    check (wordAt cs == "static".toList)
    let gap := (cs.drop 6).takeWhile isSpace
    let after := cs.drop (6 + gap.length)
    check (!gap.isEmpty && wordAt after == "get".toList)
    let tail := (after.drop 3).takeWhile isSpace
    check (tail.contains '\n')
    let whole := 6 + gap.length + 3 + tail.length
    skip
    leaf .token whole
  let single : Rule Node := do
    let word ← oneOf ["static", "async", "get", "set"]
    check (← modifies)
    return word
  staticGet <|> single

/-- Statements that run once with the class. -/
def staticBlock : Rule Node := do
  return .branch .staticBlock [← keyword "static", ← functionBody]

/-- A member of a class in the untyped dialect. -/
def plainMemberOfClass : Rule (List Node) := do
  let decorators ← many decorator
  let modifiers ← many plainModifier
  let star ← optList (punct "*")
  let name ← propertyName
  let method : Rule (List Node) := do
    let parameters ← formalParameters
    return [.branch .method
      (decorators ++ modifiers ++ star ++ [name.as .name, parameters, ← functionBody])]
  let field : Rule (List Node) := do
    let value ← opt initializer
    let node := Node.branch .field (decorators ++ modifiers ++ name.as .property :: value.getD [])
    return node :: (← semicolon value.isSome)
  method <|> field

/-- The end of a member that has no body. -/
def bodilessEnd (operand : Bool) : Rule (List Node) := do
  if ← nextIs "," then return [← punct ","]
  semicolon operand

/-- A member of a class in a typed dialect. -/
def typedMemberOfClass : Rule (List Node) := do
  let decorators ← many decorator
  let modifiers ← many memberModifier
  let star ← optList (punct "*")
  let indexed : Rule (List Node) := do
    let index ← bracketedIndex
    let mark ← opt optionalMark
    let type ← optList typeClause
    let node := Node.branch .indexSignature (modifiers ++ index ++ mark.getD [] ++ type)
    return decorators ++ node :: (← bodilessEnd false)
  let named : Rule (List Node) := do
    let name ← propertyName
    let mark ← optList (punct "?" <|> punct "!")
    let front := modifiers ++ star ++ name.as .name :: mark
    let method : Rule (List Node) := do
      let signature ← callSignature
      let defined : Rule (List Node) := do
        return [.branch .method (front ++ signature ++ [← functionBody])]
      let declared : Rule (List Node) := do
        return .branch .methodSignature (front ++ signature) :: (← bodilessEnd false)
      return decorators ++ (← defined <|> declared)
    let field : Rule (List Node) := do
      let type ← optList typeClause
      let value ← opt initializer
      let node := Node.branch .field
        (decorators ++ front ++ type.map (·.as .type) ++ value.getD [])
      return node :: (← bodilessEnd value.isSome)
    method <|> field
  indexed <|> named

/-- The body of a class. -/
def classBody : Rule Node := do
  let opening ← punct "\x7b"
  let member := if ← typed then typedMemberOfClass else plainMemberOfClass
  let idle : Rule (List Node) := do
    return [← punct ";"]
  let static : Rule (List Node) := do
    return [← staticBlock]
  let members ← many (idle <|> static <|> member)
  return .branch .classBody (opening :: members.flatten ++ [← punct "\x7d"])

end Rule
end Script
end NgIndex
