import NgIndex.Script.Node

/-!
# Places in the tree of a script

A cursor is a node together with the nodes around it, the innermost first.  From a cursor one can go
down to the children and up to what surrounds the node, so a cursor carries all that a lookup needs
to know about a place.
-/

namespace NgIndex
namespace Script

/-- A node and the nodes that surround it, innermost first. -/
structure Cursor where
  node : Node
  above : List Node := []
  deriving Repr, Inhabited

namespace Cursor

/-- What the node is. -/
def kind (c : Cursor) : Kind :=
  c.node.kind

/-- The span of the node. -/
def span (c : Cursor) : Span :=
  c.node.span

/-- The children of the node. -/
def children (c : Cursor) : List Cursor :=
  c.node.children.map fun child => ⟨child, c.node :: c.above⟩

/-- The children that are more than keywords and punctuation. -/
def named (c : Cursor) : List Cursor :=
  c.children.filter fun child => child.node.isNamed

/-- The named children that are no comments. -/
def items (c : Cursor) : List Cursor :=
  c.named.filter fun child => child.kind != .comment

/-- The first child in a role. -/
def child? (c : Cursor) (role : Field) : Option Cursor :=
  c.children.find? fun child => child.node.role == some role

/-- The node that directly surrounds this one. -/
def parent? (c : Cursor) : Option Cursor :=
  match c.above with
  | [] => none
  | node :: above => some ⟨node, above⟩

/-- The innermost of the given surrounding nodes that passes a test. -/
def nearest? (test : Node → Bool) : List Node → Option Cursor
  | [] => none
  | node :: above => if test node then some ⟨node, above⟩ else nearest? test above

/-- The innermost surrounding node that passes a test. -/
def enclosing? (c : Cursor) (test : Node → Bool) : Option Cursor :=
  nearest? test c.above

/-- The innermost class around the node. -/
def enclosingClass? (c : Cursor) : Option Cursor :=
  c.enclosing? Node.isClass

/-- Whether a node bounds the reach of the names declared inside it. -/
def isScope (node : Node) : Bool :=
  node.kind == .block || node.kind == .program

/-- The innermost scope around the node. -/
def scope? (c : Cursor) : Option Cursor :=
  c.enclosing? isScope

/-- Whether the range of the node holds the range of another. -/
def encloses (c site : Cursor) : Bool :=
  c.node.start.byte ≤ site.node.start.byte && site.node.stop.byte ≤ c.node.stop.byte

/-! ### Wrapped expressions -/

/-- Which of the named children a wrapper stands for: parentheses, conversions and assertions stand
for the expression inside them. -/
def wrapped? : Kind → Option Nat
  | .asExpression => some 0
  | .satisfiesExpression => some 0
  | .nonNull => some 0
  | .parenthesized => some 0
  | .typeAssertion => some 1
  | _ => none

mutual

/-- The expression inside all wrappers around it. -/
def unwrapNode (above : List Node) (node : Node) : Cursor :=
  match node with
  | ⟨kind, role, start, stop, children⟩ =>
      let self : Node := ⟨kind, role, start, stop, children⟩
      match wrapped? kind with
      | none => ⟨self, above⟩
      | some index => (unwrapAt (self :: above) index children).getD ⟨self, above⟩

/-- The expression inside the named child of the given number. -/
def unwrapAt (above : List Node) (index : Nat) (nodes : List Node) : Option Cursor :=
  match nodes with
  | [] => none
  | node :: rest =>
      if node.kind == .token then unwrapAt above index rest
      else
        match index with
        | 0 => some (unwrapNode above node)
        | index + 1 => unwrapAt above index rest

end

/-- The expression inside all wrappers around it. -/
def unwrap (c : Cursor) : Cursor :=
  unwrapNode c.above c.node

/-! ### Sizes -/

theorem sizeOf_child_lt {c child : Cursor} {role : Field} (h : c.child? role = some child) :
    sizeOf child.node < sizeOf c.node := by
  obtain ⟨node, hnode, rfl⟩ := List.mem_map.mp (List.mem_of_find?_eq_some h)
  obtain ⟨⟨kind, role, start, stop, children⟩, above⟩ := c
  have hlt : sizeOf node < sizeOf children := List.sizeOf_lt_of_mem hnode
  simp only [Node.mk.sizeOf_spec]
  omega

mutual

/-- What is inside wrappers is no larger than what is around it. -/
theorem sizeOf_unwrapNode_le (above : List Node) (node : Node) :
    sizeOf (unwrapNode above node).node ≤ sizeOf node := by
  obtain ⟨kind, role, start, stop, children⟩ := node
  rw [unwrapNode]
  split
  · exact Nat.le_refl _
  · next index _ =>
      cases hinner : unwrapAt (⟨kind, role, start, stop, children⟩ :: above) index children with
      | none => exact Nat.le_refl _
      | some inner =>
          have hle := sizeOf_unwrapAt_le _ index children hinner
          simp only [Option.getD_some, Node.mk.sizeOf_spec]
          omega

theorem sizeOf_unwrapAt_le (above : List Node) (index : Nat) (nodes : List Node) {c : Cursor}
    (h : unwrapAt above index nodes = some c) : sizeOf c.node ≤ sizeOf nodes := by
  match nodes, index with
  | [], _ => cases h
  | node :: rest, index =>
      rw [unwrapAt.eq_def] at h
      simp only [List.cons.sizeOf_spec] at h ⊢
      split at h
      · have hle := sizeOf_unwrapAt_le above index rest h
        omega
      · split at h
        · have hle := sizeOf_unwrapNode_le above node
          rw [← Option.some.inj h]
          omega
        · have hle := sizeOf_unwrapAt_le above _ rest h
          omega

end

theorem sizeOf_unwrap_le (c : Cursor) : sizeOf c.unwrap.node ≤ sizeOf c.node :=
  sizeOf_unwrapNode_le c.above c.node

/-! ### All places -/

mutual

/-- All places in a tree, parents before their children and from left to right. -/
def preOrderNode (above : List Node) (node : Node) : List Cursor :=
  match node with
  | ⟨kind, role, start, stop, children⟩ =>
      let self : Node := ⟨kind, role, start, stop, children⟩
      ⟨self, above⟩ :: preOrderNodes (self :: above) children

/-- All places in several trees, one tree after another. -/
def preOrderNodes (above : List Node) (nodes : List Node) : List Cursor :=
  match nodes with
  | [] => []
  | node :: rest => preOrderNode above node ++ preOrderNodes above rest

end

/-- All places in a tree, parents before their children and from left to right. -/
def preOrder (c : Cursor) : List Cursor :=
  preOrderNode c.above c.node

end Cursor
end Script
end NgIndex
