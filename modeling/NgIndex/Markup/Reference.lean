import NgIndex.Entity.HtmlReference
import NgIndex.Markup.Tree

/-!
# Custom elements and attributes in markup

The places in a text of markup where elements and attributes are used that are not part of the
standard.  Names are compared in lower case and without the marks `data-` and `x-` at their front.
-/

namespace NgIndex
namespace Markup

/-- The attributes of the standard. -/
def standardAttributes : List String :=
  ["accesskey", "autocapitalize", "autocomplete", "autofocus", "class", "contenteditable", "dir",
    "draggable", "enterkeyhint", "hidden", "id", "inert", "inputmode", "is", "itemid", "itemprop",
    "itemref", "itemscope", "itemtype", "lang", "nonce", "part", "popover", "role", "slot",
    "spellcheck", "style", "tabindex", "title", "translate", "accept", "action", "align", "allow",
    "alt", "async", "autoplay", "border", "charset", "checked", "cite", "cols", "colspan",
    "content", "controls", "coords", "crossorigin", "data", "datetime", "decoding", "default",
    "defer", "disabled", "download", "enctype", "for", "form", "headers", "height", "high", "href",
    "hreflang", "kind", "label", "list", "loading", "loop", "low", "max", "maxlength", "media",
    "method", "min", "minlength", "multiple", "muted", "name", "novalidate", "open", "pattern",
    "placeholder", "poster", "preload", "readonly", "rel", "required", "reversed", "rows",
    "rowspan", "sandbox", "scope", "selected", "shape", "size", "sizes", "span", "src", "srcdoc",
    "srclang", "srcset", "start", "step", "summary", "target", "type", "usemap", "value", "width",
    "wrap", "xmlns", "viewbox", "onblur", "onchange", "onclick", "ondblclick", "onerror",
    "onfocus", "oninput", "onkeydown", "onkeypress", "onkeyup", "onload", "onmousedown",
    "onmouseenter", "onmouseleave", "onmousemove", "onmouseout", "onmouseover", "onmouseup",
    "onreset", "onresize", "onscroll", "onselect", "onsubmit", "onwheel"]

/-- The elements of the standard and of the languages for graphics and formulas inside it. -/
def standardElements : List String :=
  ["html", "head", "body", "base", "link", "meta", "style", "title", "script", "noscript",
    "template", "slot", "address", "article", "aside", "footer", "header", "h1", "h2", "h3", "h4",
    "h5", "h6", "hgroup", "main", "nav", "section", "search", "blockquote", "dd", "div", "dl",
    "dt", "figcaption", "figure", "hr", "li", "menu", "ol", "p", "pre", "ul", "a", "abbr", "b",
    "bdi", "bdo", "br", "cite", "code", "data", "dfn", "em", "i", "kbd", "mark", "q", "rp", "rt",
    "ruby", "s", "samp", "small", "span", "strong", "sub", "sup", "time", "u", "var", "wbr", "del",
    "ins", "area", "audio", "canvas", "embed", "iframe", "img", "map", "object", "picture",
    "portal", "source", "track", "video", "param", "caption", "col", "colgroup", "table", "tbody",
    "td", "tfoot", "th", "thead", "tr", "button", "datalist", "fieldset", "form", "input", "label",
    "legend", "meter", "optgroup", "option", "output", "progress", "select", "selectedcontent",
    "textarea", "details", "dialog", "summary", "acronym", "applet", "basefont", "big", "blink",
    "center", "dir", "font", "frame", "frameset", "marquee", "nobr", "noembed", "noframes",
    "plaintext", "rb", "rtc", "strike", "tt", "xmp", "image", "svg", "g", "defs", "symbol", "use",
    "switch", "foreignobject", "desc", "metadata", "path", "rect", "circle", "ellipse", "line",
    "polyline", "polygon", "text", "tspan", "textpath", "lineargradient", "radialgradient", "stop",
    "pattern", "clippath", "mask", "marker", "filter", "view", "animate", "animatemotion",
    "animatetransform", "set", "mpath", "fecolormatrix", "fecomposite", "feblend", "feflood",
    "fegaussianblur", "feoffset", "femerge", "femergenode", "feimage", "femorphology",
    "feturbulence", "fedisplacementmap", "fedropshadow", "fetile", "fecomponenttransfer",
    "fefunca", "fefuncb", "fefuncg", "fefuncr", "fediffuselighting", "fespecularlighting",
    "fedistantlight", "fepointlight", "fespotlight", "feconvolvematrix", "math", "mi", "mn", "mo",
    "ms", "mtext", "mrow", "mfrac", "msqrt", "mroot", "msub", "msup", "msubsup", "munder", "mover",
    "munderover", "mtable", "mtr", "mtd", "mspace", "mpadded", "mphantom", "menclose", "semantics",
    "annotation"]

/-- The name that a use in markup stands for. -/
def plainName (text : String) : String :=
  let name := (Text.lowerAscii text).toList
  if "data-".toList.isPrefixOf name then String.ofList (name.drop 5)
  else if "x-".toList.isPrefixOf name then String.ofList (name.drop 2)
  else String.ofList name

/-- Whether a name is that of a custom element. -/
def isCustomElement (name : String) : Bool :=
  !standardElements.contains name

/-- Whether a name is that of a custom attribute.  Attributes for accessibility, those that belong
to the framework, and names with other signs than hyphens are not. -/
def isCustomAttribute (name : String) : Bool :=
  let cs := name.toList
  !cs.isEmpty && !"aria-".toList.isPrefixOf cs && !"ng-".toList.isPrefixOf cs &&
    (cs.all fun c => c.isAlphanum || c == '-') &&
    (cs.contains '-' || !standardAttributes.contains name)

/-- The use of an element by the name of a tag. -/
def elementReference? (path : Path) (name : Node) : Option HtmlReference :=
  let plain := plainName name.text
  if isCustomElement plain then
    some { name := plain, kind := .element, path, span := name.span }
  else none

/-- The use of an attribute by its name. -/
def attributeReference? (path : Path) (name : Node) : Option HtmlReference :=
  let plain := plainName name.text
  if isCustomAttribute plain then
    some { name := plain, kind := .attribute, path, span := name.span }
  else none

/-- The use in a part of a tag: in its name, or in the name that an attribute starts with. -/
def partReference? (path : Path) (part : Node) : Option HtmlReference :=
  match part.kind with
  | .tagName => elementReference? path part
  | .attribute =>
      (part.children.head?.filter fun name => name.kind == .attributeName).bind
        (attributeReference? path)
  | _ => none

/-- The uses in a tag that opens an element. -/
def tagReferences (path : Path) (tag : Node) : List HtmlReference :=
  tag.children.filterMap (partReference? path)

namespace Node

/-- Puts the children of a node on a stack, the last child first, so that the first child comes to
the top, which is the front. -/
def pushChildren (node : Node) (stack : List Node) : List Node :=
  node.children.reverse.foldl (fun stack child => child :: stack) stack

theorem pushChildren_eq (node : Node) (stack : List Node) :
    node.pushChildren stack = node.children ++ stack := by
  simp [pushChildren]

theorem count_eq (node : Node) : node.count = countAll node.children + 1 := by
  cases node
  rw [count]

theorem countAll_append (nodes more : List Node) :
    countAll (nodes ++ more) = countAll nodes + countAll more := by
  induction nodes with
  | nil => rw [List.nil_append, countAll, Nat.zero_add]
  | cons node rest ih => rw [List.cons_append, countAll, countAll, ih, Nat.add_assoc]

end Node

/-- The uses in the trees on a stack, after those found so far.  The node on top is taken from the
stack and its children take its place. -/
def collect (path : Path) (stack : List Node) (found : List HtmlReference) : List HtmlReference :=
  match stack with
  | [] => found
  | node :: rest =>
      let found := if node.isOpening then found ++ tagReferences path node else found
      collect path (node.pushChildren rest) found
termination_by Node.countAll stack
decreasing_by
  rw [Node.pushChildren_eq, Node.countAll_append, Node.countAll, Node.count_eq]
  omega

/-- The custom elements and attributes used in a tree of markup. -/
def treeReferences (path : Path) (tree : Node) : List HtmlReference :=
  collect path [tree] []

/-- The custom elements and attributes used in a text of markup, in the order of the text. -/
def references (path : Path) (text : String) : List HtmlReference :=
  treeReferences path (tree text)

end Markup
end NgIndex
