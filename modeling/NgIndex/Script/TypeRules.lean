import NgIndex.Script.ParameterRules

/-!
# Types

The rules for types in typed dialects.  The tree keeps no difference between forms of types, with
one exception: a module named inside a type is a call, as it is in an expression.
-/

namespace NgIndex
namespace Script
namespace Rule

/-- The import of a module inside a type. -/
def importedType : Rule Node := do
  let word ← wordAs .importWord "import"
  let call := Node.branch .call [word.as .function, (← arguments).as .arguments]
  iterate plainMember call

/-- What the type of a value is asked of. -/
def typeQuery : Rule Node := do
  let word ← keyword "typeof"
  let indexed (object : Node) : Rule Node := do
    check !(← newlineAhead)
    let opening ← punct "["
    absent (punct "]")
    return .branch .subscript [object.as .object, opening, ← goal .type, ← punct "]"]
  let optional (object : Node) : Rule Node := do
    let mark ← punct "?."
    return .branch .member [object.as .object, mark, (← anyWord .propertyName).as .property]
  let base ← importedType <|> wordAs .this "this" <|> identifier
  let subject ← iterate (fun object => plainMember object <|> optional object <|> indexed object)
    base
  let types ← optList do
    check !(← newlineAhead)
    typeArguments
  return .branch .type (word :: subject :: types)

/-- A named type with its arguments. -/
def namedType : Rule Node := do
  let name ← anyWord .identifier
  let segments ← many do return [← punct ".", ← anyWord .identifier]
  let types ← optList do
    check !(← newlineAhead)
    typeArguments
  return .branch .type (name :: segments.flatten ++ types)

/-- A number with a sign, as a type. -/
def signedNumber : Rule Node := do
  return .branch .type [← punct "-" <|> punct "+", ← number]

/-- A tuple element: a type with an optional label, mark or spread. -/
def tupleElement : Rule Node := do
  let points ← optList (punct "...")
  let label ← opt do
    let name ← anyWord .identifier
    let mark ← optList (punct "?")
    return name :: mark ++ [← punct ":"]
  let type ← goal .type
  let mark ← optList (punct "?")
  return .branch .type (points ++ label.getD [] ++ type :: mark)

/-- The end of a member of an object type. -/
def memberEnd : Rule (List Node) := do
  if ← nextIs "," then return [← punct ","]
  semicolon false

/-- An index signature or the clause of a mapped type, in brackets. -/
def bracketedIndex : Rule (List Node) := do
  let opening ← punct "["
  let name ← anyWord .identifier
  let link ← punct ":" <|> keyword "in"
  let type ← goal .type
  let renamed ← opt do return [← keyword "as", ← goal .type]
  return opening :: name :: link :: type :: renamed.getD [] ++ [← punct "]"]

/-- A mark for an optional or mandatory member, possibly with a sign. -/
def optionalMark : Rule (List Node) := do
  let sign ← optList (punct "-" <|> punct "+")
  return sign ++ [← punct "?"]

/-- An index signature, as a member of a class or of an object type. -/
def indexSignature : Rule Node := do
  let sign ← optList (punct "-" <|> punct "+")
  let modifiers ← many (oneOf ["readonly", "static"])
  let index ← bracketedIndex
  let mark ← opt optionalMark
  let type ← optList typeClause
  return .branch .indexSignature (sign ++ modifiers ++ index ++ mark.getD [] ++ type)

/-- A member of an object type with a name. -/
def namedTypeMember : Rule Node := do
  let modifiers ← many do
    let word ← oneOf
      ["readonly", "get", "set", "async", "static", "public", "private", "protected", "override"]
    check !(← newlineAhead)
    check (match (← ahead) with
      | c :: _ => isNameStart c || c == '[' || c == '"' || c.toNat == 39 || c.isDigit || c == '#'
      | [] => false)
    return word
  let name ← propertyName
  let mark ← opt optionalMark
  let signature ← opt callSignature
  let type ← optList typeClause
  return .branch .typeMember (modifiers ++ name :: mark.getD [] ++ signature.getD [] ++ type)

/-- A member of an object type. -/
def typeMember : Rule Node := do
  let constructed : Rule Node := do
    let word ← optList (keyword "abstract")
    let new ← keyword "new"
    return .branch .typeMember (word ++ new :: (← callSignature))
  let called : Rule Node := do
    return .branch .typeMember (← callSignature)
  constructed <|> called <|> indexSignature <|> namedTypeMember

/-- A type in braces: a record of members. -/
def objectType : Rule Node := do
  let opening ← punct "\x7b"
  let members ← many do
    let idle ← many (punct ";" <|> punct ",")
    let member ← typeMember
    return idle ++ member :: (← memberEnd)
  let idle ← many (punct ";" <|> punct ",")
  return .branch .type (opening :: members.flatten ++ idle ++ [← punct "\x7d"])

/-- A type without operators. -/
def primaryType : Rule Node := do
  match ← ahead with
  | '(' :: _ => return .branch .type [← punct "(", ← goal .type, ← punct ")"]
  | '{' :: _ => objectType
  | '[' :: _ => do
      let opening ← punct "["
      let elements ← commaSeparated tupleElement
      return .branch .type (opening :: elements ++ [← punct "]"])
  | '"' :: _ => string
  | '\'' :: _ => string
  | '-' :: _ => signedNumber
  | '+' :: _ => signedNumber
  | '*' :: _ => punct "*"
  | '?' :: _ => return .branch .type [← punct "?", ← goal .type]
  | c :: _ =>
      if c.toNat == 96 then templateOf (goal .type)
      else if c.isDigit then number
      else
        match ← nextWord with
        | "typeof" => typeQuery
        | "import" => importedType
        | "this" => wordAs .type "this"
        | _ => namedType
  | [] => failure

/-- A type with what may follow it in brackets. -/
def postfixType : Rule Node := do
  let base ← primaryType
  let bracketed (type : Node) : Rule Node := do
    check !(← newlineAhead)
    let opening ← punct "["
    let index ← optList (goal .type)
    return .branch .type (type :: opening :: index ++ [← punct "]"])
  iterate bracketed base

/-- A type with operators before it. -/
def operatorType : Rule Node := do
  let operator : Rule Node := do
    let word ← oneOf ["keyof", "unique", "readonly", "infer", "asserts", "abstract"]
    check !(← newlineAhead)
    check (match (← ahead) with
      | c :: _ =>
          isNameStart c || ['(', '{', '[', '"', '-'].contains c || c.toNat == 39 ||
            c.toNat == 96
      | [] => false)
    return word
  let operators ← many operator
  let type ← postfixType
  let bound ← opt do
    check !operators.isEmpty
    let word ← keyword "extends"
    let type ← postfixType
    absent (punct "?")
    return [word, type]
  return if operators.isEmpty then type
    else .branch .type (operators ++ type :: bound.getD [])

/-- A function type or a constructor type. -/
def functionType : Rule Node := do
  let words : Rule (List Node) := do
    let word ← optList (keyword "abstract")
    return word ++ [← keyword "new"]
  let front ← opt words
  let types ← optList typeParameters
  let parameters ← formalParameters
  let arrow ← punct "=>"
  let result ← predicate <|> goal .type
  return .branch .type (front.getD [] ++ types ++ [parameters, arrow, result])

/-- Types joined by intersection and union signs. -/
def unionType : Rule Node := do
  let sign := punct "|" <|> punct "&"
  let front ← optList sign
  let first ← functionType <|> operatorType
  let more ← many do return [← sign, ← functionType <|> operatorType]
  return if front.isEmpty && more.isEmpty then first
    else .branch .type (front ++ first :: more.flatten)

/-- A type.  A condition makes a conditional type only if both its results follow. -/
def type : Rule Node := do
  let first ← functionType <|> unionType
  let condition ← opt do
    check !(← newlineAhead)
    let word ← keyword "extends"
    let bound ← unionType
    let mark ← punct "?"
    let positive ← goal .type
    let colon ← punct ":"
    return [word, bound, mark, positive, colon, ← goal .type]
  return match condition with
    | none => first
    | some rest => .branch .type (first :: rest)

end Rule
end Script
end NgIndex
