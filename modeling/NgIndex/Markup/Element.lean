import NgIndex.Markup.Tag

/-!
# Elements of markup

The tree of elements that a sequence of tags describes.  Some elements never have contents, and
some end where another begins: a list item at the next one, a paragraph at a heading.  A closing tag
ends all elements up to the innermost one of its name; if there is none, it is passed over.
-/

namespace NgIndex
namespace Markup

/-- An element: the tag that opens it and the elements inside it. -/
structure Element where
  tag : Tag
  children : List Element := []
  deriving Repr, Inhabited

/-- The elements that never have contents. -/
def voidElements : List String :=
  ["area", "base", "basefont", "bgsound", "br", "col", "command", "embed", "frame", "hr", "image",
    "img", "input", "isindex", "keygen", "link", "menuitem", "meta", "nextid", "param", "source",
    "track", "wbr"]

/-- The elements that end a paragraph. -/
def paragraphEnds : List String :=
  ["address", "article", "aside", "blockquote", "details", "div", "dl", "fieldset", "figcaption",
    "figure", "footer", "form", "h1", "h2", "h3", "h4", "h5", "h6", "header", "hr", "main", "nav",
    "ol", "p", "pre", "section"]

/-- Whether an element may stand directly inside another; if not, the other ends. -/
def mayContain (outer inner : String) : Bool :=
  match outer with
  | "li" => inner != "li"
  | "dt" => !(["dt", "dd"].contains inner)
  | "dd" => !(["dt", "dd"].contains inner)
  | "p" => !paragraphEnds.contains inner
  | "colgroup" => inner == "col"
  | "rb" => !(["rb", "rt", "rp"].contains inner)
  | "rt" => !(["rb", "rt", "rp"].contains inner)
  | "rp" => !(["rb", "rt", "rp"].contains inner)
  | "optgroup" => inner != "optgroup"
  | "tr" => inner != "tr"
  | "td" => !(["td", "th", "tr"].contains inner)
  | "th" => !(["td", "th", "tr"].contains inner)
  | _ => true

/-- An element that is still open: its tag and the elements inside it, newest first. -/
structure Frame where
  tag : Tag
  inside : List Element := []

/-- The name by which elements are compared. -/
def Tag.key (tag : Tag) : String :=
  Text.lowerAscii tag.name.text

/-- The open elements, innermost first, and the finished ones outside of them, newest first. -/
structure Builder where
  frames : List Frame := []
  finished : List Element := []

namespace Builder

/-- Adds a finished element inside the innermost open one. -/
def add (frames : List Frame) (finished : List Element) (element : Element) : Builder :=
  match frames with
  | [] => { frames := [], finished := element :: finished }
  | frame :: rest =>
      { frames := { frame with inside := element :: frame.inside } :: rest, finished }

/-- Ends open elements as long as a test says so.  What is pending goes inside the innermost open
element. -/
def endWhile (test : Tag → Bool) (finished : List Element) :
    List Element → List Frame → Builder
  | pending, [] => { frames := [], finished := pending ++ finished }
  | pending, frame :: rest =>
      let inside := pending ++ frame.inside
      if test frame.tag then
        endWhile test finished [{ tag := frame.tag, children := inside.reverse }] rest
      else { frames := { frame with inside } :: rest, finished }

/-- Ends the innermost element. -/
def endInnermost (builder : Builder) : Builder :=
  match builder.frames with
  | [] => builder
  | frame :: rest =>
      add rest builder.finished { tag := frame.tag, children := frame.inside.reverse }

/-- Handles an opening tag. -/
def openTag (builder : Builder) (tag : Tag) : Builder :=
  let name := tag.key
  let builder :=
    endWhile (fun outer => !mayContain outer.key name) builder.finished [] builder.frames
  if tag.closed || voidElements.contains name then
    add builder.frames builder.finished { tag }
  else { builder with frames := { tag } :: builder.frames }

/-- Handles a closing tag. -/
def closeTag (builder : Builder) (name : String) : Builder :=
  if builder.frames.any fun frame => frame.tag.key == name then
    endInnermost (endWhile (fun tag => tag.key != name) builder.finished [] builder.frames)
  else builder

/-- Handles a tag. -/
def step (builder : Builder) : Token → Builder
  | .opening tag => builder.openTag tag
  | .closing name => builder.closeTag name

/-- The finished elements in order, after all open ones have been ended. -/
def finish (builder : Builder) : List Element :=
  (endWhile (fun _ => true) builder.finished [] builder.frames).finished.reverse

end Builder

/-- The elements of a text. -/
def elements (text : String) : List Element :=
  ((tokens text).foldl Builder.step {}).finish

end Markup
end NgIndex
