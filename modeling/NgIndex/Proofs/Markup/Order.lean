import Mathlib.Data.Prod.Lex
import NgIndex.Markup.Tree
import NgIndex.Proofs.Tree

/-!
# Trees of markup in the order of the text

A tree of markup is in order if the children of each node follow each other in the text, do not
overlap and stand inside the node.  Places are compared by lines, and by columns within a line.
-/

namespace NgIndex

/-- The place of a position among all others: by lines, and by columns within a line. -/
def Position.point (p : Position) : ℕ ×ₗ ℕ :=
  toLex (p.line, p.column)

/-- Where a span starts. -/
def Span.startPoint (s : Span) : ℕ ×ₗ ℕ :=
  toLex (s.startLine, s.startColumn)

namespace Markup
namespace Node

/-- Whether a node is the name of a tag or of an attribute. -/
def isName (node : Node) : Bool :=
  node.kind == .tagName || node.kind == .attributeName

/-- The node at an address in a tree. -/
abbrev at? (node : Node) (address : List Nat) : Option Node :=
  Tree.nodeAt? Node.children node address

/-- Nodes that follow each other between two places. -/
def Row (low : ℕ ×ₗ ℕ) : List Node → ℕ ×ₗ ℕ → Prop
  | [], high => low ≤ high
  | node :: rest, high =>
      low ≤ node.start.point ∧ node.start.point ≤ node.stop.point ∧ Row node.stop.point rest high

/-- A tree whose nodes have their children in the order of the text, without overlaps. -/
def InOrder (tree : Node) : Prop :=
  Tree.Everywhere Node.children
    (fun node => Row node.start.point node.children node.stop.point) tree

/-- What the grammar of markup says of a node.  A name is not empty, and there is no opening tag
below an opening tag. -/
structure Regular (node : Node) : Prop where
  named : node.isName = true → node.start.point < node.stop.point
  single : node.isOpening = true → ∀ child ∈ node.children,
    Tree.Everywhere Node.children (fun inner => inner.isOpening = false) child

/-- A tree that the grammar of markup allows. -/
def IsMarkup (tree : Node) : Prop :=
  Tree.Everywhere Node.children Regular tree

variable {node : Node} {nodes : List Node} {low high : ℕ ×ₗ ℕ}

theorem inOrder_iff :
    node.InOrder ↔
      Row node.start.point node.children node.stop.point ∧ ∀ child ∈ node.children, child.InOrder :=
  Tree.everywhere_iff Node.children

theorem isMarkup_iff :
    node.IsMarkup ↔ node.Regular ∧ ∀ child ∈ node.children, child.IsMarkup :=
  Tree.everywhere_iff Node.children

theorem sizeOf_lt_of_mem_children (node : Node) :
    ∀ child ∈ node.children, sizeOf child < sizeOf node := by
  obtain ⟨kind, text, start, stop, children⟩ := node
  intro child hchild
  have hlt : sizeOf child < sizeOf children := List.sizeOf_lt_of_mem hchild
  simp only [mk.sizeOf_spec]
  omega

/-! ### Rows -/

theorem Row.low_le_high (h : Row low nodes high) : low ≤ high := by
  induction nodes generalizing low with
  | nil => exact h
  | cons node rest ih => exact h.1.trans (h.2.1.trans (ih h.2.2))

theorem Row.append {middle : ℕ ×ₗ ℕ} {others : List Node} (h : Row low nodes middle)
    (hothers : Row middle others high) : Row low (nodes ++ others) high := by
  induction nodes generalizing low with
  | nil =>
      cases others with
      | nil => exact le_trans h hothers
      | cons other rest => exact ⟨le_trans h hothers.1, hothers.2⟩
  | cons node rest ih => exact ⟨h.1, h.2.1, ih h.2.2⟩

/-- A row ends where its last node does. -/
theorem Row.to_last {last : Node} (h : Row low nodes high) (hlast : nodes.getLast? = some last) :
    Row low nodes last.stop.point ∧ last.stop.point ≤ high := by
  induction nodes generalizing low with
  | nil => cases hlast
  | cons node rest ih =>
      obtain ⟨hlow, hnode, hrest⟩ := h
      cases rest with
      | nil =>
          cases hlast
          exact ⟨⟨hlow, hnode, le_rfl⟩, hrest⟩
      | cons next rest =>
          rw [List.getLast?_cons_cons] at hlast
          exact ⟨⟨hlow, hnode, (ih hrest hlast).1⟩, (ih hrest hlast).2⟩

/-- A node made of a row stands where the row does. -/
theorem Row.branch (kind : Kind) (h : Row low nodes high) (hne : nodes ≠ []) :
    Row low [.branch kind nodes] high ∧
      Row (Node.branch kind nodes).start.point nodes (Node.branch kind nodes).stop.point := by
  obtain ⟨first, rest, rfl⟩ := List.exists_cons_of_ne_nil hne
  have hlast := List.getLast?_eq_some_getLast hne
  have hstop : (Node.branch kind (first :: rest)).stop = ((first :: rest).getLast hne).stop := by
    simp [Node.branch, hlast]
  obtain ⟨hlow, hfirst, hrest⟩ := h
  have hown : Row first.start.point (first :: rest) high := ⟨le_rfl, hfirst, hrest⟩
  obtain ⟨hrow, hhigh⟩ := hown.to_last hlast
  rw [← hstop] at hrow hhigh
  exact ⟨⟨hlow, hrow.low_le_high, hhigh⟩, hrow⟩

end Node
end Markup
end NgIndex
