import NgIndex.Script.ClassRules
import NgIndex.Script.ModuleRules

/-!
# Statements

The rules for statements and declarations.  Words such as `type` or `declare` start a declaration
only where a declaration follows; elsewhere they are names, and the statement is an expression.
-/

namespace NgIndex
namespace Script
namespace Rule

/-- Statements in braces. -/
def block : Rule Node := do
  let opening ← punct "\x7b"
  let statements ← many (goal .statement)
  return .branch .block (opening :: statements ++ [← punct "\x7d"])

/-! ### Variables -/

/-- One variable with its type and value. -/
def declarator : Rule Node := do
  let name ← goal .pattern
  let mark ← optList do
    check (← typed)
    punct "!"
  let type ← optList typeClause
  let value ← opt initializer
  return .branch .declarator
    (name.as .name :: mark ++ type.map (·.as .type) ++ value.getD [])

/-- Whether the last variable of a declaration has a value. -/
def endsInValue (declarators : List Node) : Bool :=
  declarators.getLast?.any fun last => (last.child? .value).isSome

/-- The declaration of variables, up to its last variable. -/
def variableList : Rule (Kind × List Node) := do
  let kind := if (← nextWord) == "var" then Kind.varDeclaration else .lexicalDeclaration
  let word ← oneOf ["var", "let", "const"]
  return (kind, word :: (← commaSeparated1 declarator))

/-- The declaration of variables. -/
def variableDeclaration : Rule Node := do
  let (kind, parts) ← variableList
  return .branch kind (parts ++ (← semicolon (endsInValue parts)))

/-! ### Functions and classes -/

/-- A function with a name, or the signature of one. -/
def functionDeclaration : Rule Node := do
  let async ← optList asyncWord
  let word ← keyword "function"
  let star ← optList (punct "*")
  let name ← identifier
  let signature ← callSignature
  let front := async ++ word :: star ++ name.as .name :: signature
  let defined : Rule Node := do
    let kind := if star.isEmpty then Kind.functionDeclaration else .generatorDeclaration
    return .branch kind (front ++ [← functionBody])
  let declared : Rule Node := do
    check (← typed)
    return .branch .functionSignature (front ++ (← semicolon false))
  defined <|> declared

/-- A class with a name, after its decorators. -/
def classDeclarationWith (decorators : List Node) : Rule Node := do
  let mark ← optList do
    check (← typed)
    keyword "abstract"
  let word ← keyword "class"
  let name ← identifier
  let kind := if mark.isEmpty then Kind.classDeclaration else .abstractClassDeclaration
  return .branch kind (decorators ++ mark ++ word :: name.as .name :: (← classTail))

/-- A class with a name. -/
def classDeclaration : Rule Node := do
  classDeclarationWith (← many decorator)

/-! ### Declarations of typed dialects -/

/-- A member of an enumeration. -/
def enumMember : Rule Node := do
  let name ← propertyName
  let value ← opt initializer
  return .branch .enumMember (name.as .name :: value.getD [])

/-- An enumeration. -/
def enumDeclaration : Rule Node := do
  let mark ← optList (keyword "const")
  let word ← keyword "enum"
  let name ← identifier
  let opening ← punct "\x7b"
  let members ← commaSeparated enumMember
  let body := Node.branch .enumBody (opening :: members ++ [← punct "\x7d"])
  return .branch .enumDeclaration (mark ++ [word, name.as .name, body.as .body])

/-- An interface. -/
def interfaceDeclaration : Rule Node := do
  let word ← keyword "interface"
  let name ← identifier
  let types ← optList typeParameters
  let bases ← opt do
    let word ← keyword "extends"
    return word :: (← commaSeparated1 (goal .type))
  let body ← objectType
  return .branch .interfaceDeclaration
    (word :: name.as .name :: types ++ bases.getD [] ++ [body.as .body])

/-- Another name for a type. -/
def typeAlias : Rule Node := do
  let word ← keyword "type"
  let name ← identifier
  let types ← optList typeParameters
  let sign ← punct "="
  let value ← goal .type
  return .branch .typeAlias
    (word :: name.as .name :: types ++ sign :: value.as .value :: (← semicolon false))

/-- A namespace. -/
def namespaceBlock : Rule Node := do
  let word ← keyword "namespace"
  check !(← newlineAhead)
  let name ← qualifiedName
  return .branch .namespaceBlock [word, name.as .name, ← functionBody]

/-- A module by name or by text, with its contents if they are given. -/
def moduleBlock : Rule Node := do
  let word ← keyword "module"
  check !(← newlineAhead)
  let name ← string <|> qualifiedName
  let body ← optList functionBody
  let ending ← if body.isEmpty then semicolon false else pure []
  return .branch .moduleBlock (word :: name.as .name :: body ++ ending)

/-- What a declaration may be apart from those that other programs make. -/
def ownDeclaration : Rule Node := do
  let typed ← typed
  match ← nextWord with
  | "var" => variableDeclaration
  | "let" => variableDeclaration
  | "const" => (do check typed; enumDeclaration) <|> variableDeclaration
  | "function" => functionDeclaration
  | "async" => functionDeclaration
  | "class" => classDeclaration
  | word => do
      if (← nextIs "@") then classDeclaration
      else
        check typed
        match word with
        | "abstract" => classDeclaration
        | "enum" => enumDeclaration
        | "interface" => interfaceDeclaration
        | "type" => typeAlias
        | "namespace" => namespaceBlock
        | "module" => moduleBlock
        | "import" => importAlias
        | _ => failure

/-- A declaration of something that other programs make. -/
def ambient : Rule Node := do
  check (← typed)
  let word ← keyword "declare"
  check !(← newlineAhead)
  let shared : Rule Node := do
    return .branch .moduleBlock [← keyword "global", ← functionBody]
  return .branch .ambient [word, ← shared <|> ownDeclaration]

/-- A declaration. -/
def declaration : Rule Node := do
  if (← nextWord) == "declare" then ambient else ownDeclaration

/-! ### Exports -/

/-- What a module gives away without a name. -/
def exportDefault : Rule (List Node) := do
  let word ← keyword "default"
  let declared : Rule (List Node) := do
    return [word, (← declaration).as .declaration]
  let valued : Rule (List Node) := do
    let value ← goal .single
    return word :: value.as .value :: (← semicolon true)
  declared <|> valued

/-- The exports of typed dialects that assign or name the module as a whole. -/
def exportAssignment : Rule (List Node) := do
  check (← typed)
  let assigned : Rule (List Node) := do
    return [← punct "=", ← goal .expression] ++ (← semicolon true)
  let shared : Rule (List Node) := do
    return [← keyword "as", ← keyword "namespace", ← identifier] ++ (← semicolon false)
  assigned <|> shared

/-- An export, after decorators of the class that is exported. -/
def exportStatementWith (decorators : List Node) : Rule Node := do
  let word ← keyword "export"
  let declared : Rule (List Node) := do
    return [(← declaration).as .declaration]
  let content ← exportDefault <|> exportAssignment <|> exportList <|> declared
  return .branch .exportStatement (decorators ++ word :: content)

/-! ### Control flow -/

/-- A statement as the body of another. -/
def bodyStatement : Rule Node := do
  return (← goal .statement).as .body

/-- A choice. -/
def ifStatement : Rule Node := do
  let front := [← keyword "if", ← parenthesized, ← goal .statement]
  let other ← optList do
    return .branch .elseClause [← keyword "else", ← goal .statement]
  return .branch .ifStatement (front ++ other)

/-- A case of a choice between values. -/
def switchCase : Rule Node := do
  let tested : Rule (List Node) := do
    return [← keyword "case", ← goal .expression]
  let otherwise : Rule (List Node) := do
    return [← keyword "default"]
  let front ← tested <|> otherwise
  let colon ← punct ":"
  return .branch .switchCase (front ++ colon :: (← many (goal .statement)))

/-- A choice between values. -/
def switchStatement : Rule Node := do
  let front := [← keyword "switch", ← parenthesized]
  let opening ← punct "\x7b"
  let cases ← many switchCase
  let body := Node.branch .switchBody (opening :: cases ++ [← punct "\x7d"])
  return .branch .switchStatement (front ++ [body.as .body])

/-- An empty statement. -/
def emptyStatement : Rule Node := do
  return .branch .emptyStatement [← punct ";"]

/-- The head of a loop over the parts of a value, without its opening parenthesis. -/
def forInHead : Rule (List Node) := do
  let declared : Rule (List Node) := do
    let word ← oneOf ["var", "let", "const"]
    let name ← goal .pattern
    return [word, name.as .left]
  let assigned : Rule (List Node) := do
    return [(assignable (← goal .unary)).as .left]
  let front ← declared <|> assigned
  let word ← oneOf ["in", "of"]
  return front ++ [word, (← goal .expression).as .right]

/-- The head of a loop with a start, a test and a step, without its opening parenthesis. -/
def forHead : Rule (List Node) := do
  let empty : Rule (List Node) := do
    return [← emptyStatement]
  let declared : Rule (List Node) := do
    let (kind, parts) ← variableList
    return [.branch kind (parts ++ [← punct ";"])]
  let valued : Rule (List Node) := do
    return [← goal .expression, ← punct ";"]
  let start ← empty <|> declared <|> valued
  let test ← empty <|> valued
  let step ← optList (goal .expression)
  return start ++ test ++ step

/-- A loop with a head in parentheses. -/
def forStatement : Rule Node := do
  let word ← keyword "for"
  let wait ← optList (keyword "await")
  let opening ← punct "("
  let loop (kind : Kind) (head : Rule (List Node)) : Rule Node := do
    let head ← head
    let closing ← punct ")"
    return .branch kind (word :: wait ++ opening :: head ++ [closing, ← bodyStatement])
  loop .forInStatement forInHead <|> loop .forStatement forHead

/-- A loop with its test first. -/
def whileStatement : Rule Node := do
  return .branch .whileStatement [← keyword "while", ← parenthesized, ← bodyStatement]

/-- A loop with its test last. -/
def doStatement : Rule Node := do
  let front := [← keyword "do", ← bodyStatement, ← keyword "while", ← parenthesized]
  return .branch .doStatement (front ++ (← optList (punct ";")))

/-- What runs when something is thrown. -/
def catchClause : Rule Node := do
  let word ← keyword "catch"
  let caught ← opt do
    let opening ← punct "("
    let name ← goal .pattern
    let type ← optList typeClause
    return opening :: name.as .parameter :: type ++ [← punct ")"]
  return .branch .catchClause (word :: caught.getD [] ++ [← functionBody])

/-- Statements that may throw. -/
def tryStatement : Rule Node := do
  let front := [← keyword "try", ← functionBody]
  let caught ← optList catchClause
  let last ← optList do
    return .branch .finallyClause [← keyword "finally", ← functionBody]
  return .branch .tryStatement (front ++ caught ++ last)

/-- Statements that look up names in an object. -/
def withStatement : Rule Node := do
  return .branch .withStatement [← keyword "with", ← parenthesized, ← bodyStatement]

/-- Whether a statement ends here. -/
def atEnd : Rule Bool := do
  return (← nextIs ";") || endsStatement (← dialect) false (← get).rest

/-- The end of a loop or of one of its turns. -/
def jumpStatement : Rule Node := do
  let word ← oneOf ["break", "continue", "debugger"]
  let label ← if ← atEnd then pure [] else optList identifier
  return .branch .jumpStatement (word :: label ++ (← semicolon false))

/-- The end of a function, with its result if there is one. -/
def returnStatement : Rule Node := do
  let word ← keyword "return"
  if ← atEnd then return .branch .returnStatement (word :: (← semicolon false))
  let value ← goal .expression
  return .branch .returnStatement (word :: value :: (← semicolon true))

/-- A statement that throws. -/
def throwStatement : Rule Node := do
  let front := [← keyword "throw", ← goal .expression]
  return .branch .throwStatement (front ++ (← semicolon true))

/-- A statement with a label. -/
def labeledStatement : Rule Node := do
  let front := [← identifier, ← punct ":"]
  return .branch .labeledStatement (front ++ [← bodyStatement])

/-- An expression as a statement.  A namespace counts as an expression here. -/
def expressionStatement : Rule Node := do
  let named : Rule Node := do
    check (← typed)
    return .branch .expressionStatement [← namespaceBlock]
  let valued : Rule Node := do
    let value ← goal .expression
    return .branch .expressionStatement (value :: (← semicolon true))
  named <|> valued

/-- A declaration, or an expression where no declaration follows. -/
def declarationOrExpression : Rule Node := do
  if (← nextWord) == "namespace" then expressionStatement
  else declaration <|> labeledStatement <|> expressionStatement

/-- A class or an export with decorators. -/
def decorated : Rule Node := do
  let decorators ← many decorator
  exportStatementWith decorators <|> classDeclarationWith decorators

/-- A statement. -/
def statement : Rule Node := do
  match ← nextOperator with
  | "\x7b" => block
  | ";" => emptyStatement
  | "@" => decorated <|> expressionStatement
  | _ =>
      match ← nextWord with
      | "if" => ifStatement
      | "switch" => switchStatement
      | "for" => forStatement
      | "while" => whileStatement
      | "do" => doStatement
      | "try" => tryStatement
      | "with" => withStatement
      | "break" => jumpStatement
      | "continue" => jumpStatement
      | "debugger" => jumpStatement
      | "return" => returnStatement
      | "throw" => throwStatement
      | "export" => exportStatementWith []
      | "import" => importStatement <|> importAlias <|> expressionStatement
      | _ => declarationOrExpression

end Rule
end Script
end NgIndex
