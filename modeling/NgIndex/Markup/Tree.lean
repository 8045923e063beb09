import NgIndex.Markup.Element

/-!
# The tree of markup

Markup as a tree of nodes: elements with the tags that open them and the elements inside, tags with
their names and attributes.  Only names have a text.  A node of several parts extends from the start
of the first to the end of the last; signs of punctuation are no parts.
-/

namespace NgIndex
namespace Markup

/-- What a node is. -/
inductive Kind where
  | document
  | element
  | startTag
  | selfClosingTag
  | endTag
  | tagName
  | attribute
  | attributeName
  | other
  deriving DecidableEq, Repr, Inhabited

/-- A node of the tree of markup. -/
structure Node where
  kind : Kind
  /-- The text of a name. -/
  text : String := ""
  start : Position
  stop : Position
  children : List Node := []
  deriving Repr, Inhabited

namespace Node

/-- The span of a node. -/
def span (node : Node) : Span :=
  .between node.start node.stop

/-- Whether a node is a tag that opens an element. -/
def isOpening (node : Node) : Bool :=
  node.kind == .startTag || node.kind == .selfClosingTag

/-- The node of a name. -/
def ofWord (kind : Kind) (word : Word) : Node :=
  { kind, text := word.text, start := word.start, stop := word.stop }

/-- The node with the given parts. -/
def branch (kind : Kind) (children : List Node) : Node :=
  { kind
    start := (children.head?.map fun child => child.start).getD {}
    stop := (children.getLast?.map fun child => child.stop).getD {}
    children }

/-- The node of an attribute. -/
def ofAttribute (word : Word) : Node :=
  let name := ofWord .attributeName word
  { name with kind := .attribute, text := "", children := [name] }

/-- The node of a tag that opens an element. -/
def ofTag (tag : Tag) : Node :=
  branch (if tag.closed then .selfClosingTag else .startTag)
    (ofWord .tagName tag.name :: tag.attributes.map ofAttribute)

mutual

/-- The node of an element. -/
def ofElement : Element → Node
  | ⟨tag, children⟩ => branch .element (ofTag tag :: ofElements children)

/-- The nodes of several elements. -/
def ofElements : List Element → List Node
  | [] => []
  | element :: rest => ofElement element :: ofElements rest

end

mutual

/-- The number of nodes in a tree. -/
def count : Node → Nat
  | ⟨_, _, _, _, children⟩ => countAll children + 1

/-- The number of nodes in several trees. -/
def countAll : List Node → Nat
  | [] => 0
  | node :: rest => node.count + countAll rest

end

end Node

/-- The tree of a text. -/
def tree (text : String) : Node :=
  .branch .document (Node.ofElements (elements text))

end Markup
end NgIndex
