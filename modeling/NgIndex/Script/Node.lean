import NgIndex.Span
import NgIndex.Text.Edit

/-!
# Trees of scripts

The tree of a script: nodes with a kind, the role they play in their parent, the range of text from
their first to their last token, and their children in the order of the text.  Keywords and
punctuation are children like all others, of the kind `token`; what a token is follows from its
text.  A comment is a child of the innermost node that has tokens on both sides of it.

Forms that the index never asks about share a kind: all forms of types are `type`, all members of
object types are `typeMember`, and operators are `operation`.
-/

namespace NgIndex
namespace Script

/-- What a node is. -/
inductive Kind where
  | token
  | comment
  | program
  -- statements
  | block
  | emptyStatement
  | expressionStatement
  | varDeclaration
  | lexicalDeclaration
  | declarator
  | ifStatement
  | elseClause
  | switchStatement
  | switchBody
  | switchCase
  | forStatement
  | forInStatement
  | whileStatement
  | doStatement
  | tryStatement
  | catchClause
  | finallyClause
  | withStatement
  | jumpStatement
  | returnStatement
  | throwStatement
  | labeledStatement
  -- modules
  | importStatement
  | importClause
  | namespaceImport
  | namedImports
  | importSpecifier
  | importRequire
  | importAlias
  | exportStatement
  | exportClause
  | exportSpecifier
  | namespaceExport
  | attributes
  -- functions and classes
  | functionDeclaration
  | generatorDeclaration
  | functionSignature
  | functionExpression
  | generatorExpression
  | arrowFunction
  | parameters
  | requiredParameter
  | optionalParameter
  | accessibility
  | override
  | decorator
  | classDeclaration
  | abstractClassDeclaration
  | classExpression
  | heritage
  | extendsClause
  | implementsClause
  | classBody
  | staticBlock
  | field
  | method
  | methodSignature
  | indexSignature
  -- patterns
  | objectPattern
  | arrayPattern
  | restPattern
  | defaultPattern
  | pairPattern
  | shorthandPattern
  -- other declarations
  | enumDeclaration
  | enumBody
  | enumMember
  | interfaceDeclaration
  | typeAlias
  | moduleBlock
  | namespaceBlock
  | ambient
  -- types
  | type
  | typeMember
  | typeClause
  | typeArguments
  | typeParameters
  -- expressions
  | identifier
  | undefined
  | this
  | super
  | importWord
  | propertyName
  | privateName
  | computedName
  | number
  | string
  | template
  | fragment
  | escape
  | substitution
  | regex
  | literal
  | array
  | object
  | pair
  | shorthand
  | spread
  | parenthesized
  | sequence
  | call
  | arguments
  | construct
  | member
  | subscript
  | optionalChain
  | metaProperty
  | nonNull
  | asExpression
  | satisfiesExpression
  | typeAssertion
  | instantiation
  | assignment
  | compoundAssignment
  | ternary
  | operation
  -- markup inside scripts
  | markup
  | markupText
  | markupExpression
  deriving DecidableEq, Repr, Inhabited

/-- The role of a node in its parent. -/
inductive Field where
  | function
  | arguments
  | object
  | property
  | name
  | body
  | parameters
  | parameter
  | left
  | right
  | value
  | key
  | pattern
  | type
  | returnType
  | constructor
  | source
  | declaration
  | newName
  deriving DecidableEq, Repr, Inhabited

/-- A node of the tree of a script. -/
structure Node where
  kind : Kind
  role : Option Field := none
  start : Position
  stop : Position
  children : List Node := []
  deriving Repr, Inhabited

namespace Node

/-- Whether a node is more than a keyword or punctuation. -/
def isNamed (node : Node) : Bool :=
  node.kind != .token

/-- The span of a node. -/
def span (node : Node) : Span :=
  .between node.start node.stop

/-- The node in a role. -/
def as (node : Node) (role : Field) : Node :=
  { node with role := some role }

/-- A node of another kind with the same children. -/
def withKind (node : Node) (kind : Kind) : Node :=
  { node with kind }

/-- The node with the given children, from the start of the first to the end of the last. -/
def branch (kind : Kind) (children : List Node) : Node :=
  { kind
    start := (children.head?.map fun child => child.start).getD {}
    stop := (children.getLast?.map fun child => child.stop).getD {}
    children }

/-- The first child in a role. -/
def child? (node : Node) (role : Field) : Option Node :=
  node.children.find? fun child => child.role == some role

/-- The children that are more than keywords and punctuation. -/
def named (node : Node) : List Node :=
  node.children.filter isNamed

/-- Whether the node declares or expresses a class. -/
def isClass (node : Node) : Bool :=
  match node.kind with
  | .classDeclaration => true
  | .abstractClassDeclaration => true
  | .classExpression => true
  | _ => false

/-- Whether the node is a function whose result can be looked at.  Generator expressions are
not. -/
def isFunction (node : Node) : Bool :=
  match node.kind with
  | .functionDeclaration => true
  | .functionExpression => true
  | .arrowFunction => true
  | .generatorDeclaration => true
  | _ => false

mutual

/-- Puts a comment into the innermost node that surrounds it. -/
def insert (node comment : Node) : Node :=
  match node with
  | ⟨kind, role, start, stop, children⟩ =>
      ⟨kind, role, start, stop, insertAmong comment children⟩

/-- Puts a comment among children: into the child that surrounds it, or before the first child that
comes after it. -/
def insertAmong (comment : Node) : List Node → List Node
  | [] => [comment]
  | child :: rest =>
      if comment.stop.byte ≤ child.start.byte then comment :: child :: rest
      else if comment.start.byte < child.stop.byte then child.insert comment :: rest
      else child :: insertAmong comment rest

end

end Node
end Script
end NgIndex
