import NgIndex.Script.Cursor

/-!
# Going through the tree of a script

A traversal stands at one node at a time and moves to the first child, to the next node on the right
or to the node around it.  It goes down to a leaf and visits it; from there it goes to the right, and
down again, and up where nothing is left on the right.  A node is visited when the traversal is about
to leave it to the right or upwards.
-/

namespace NgIndex
namespace Script

namespace Node

mutual

/-- The number of nodes in a tree. -/
def count : Node → Nat
  | ⟨_, _, _, _, children⟩ => countAll children + 1

/-- The number of nodes in several trees. -/
def countAll : List Node → Nat
  | [] => 0
  | node :: rest => node.count + countAll rest

end

theorem count_eq (node : Node) : node.count = countAll node.children + 1 := by
  cases node
  rw [count]

end Node

/-- Where a traversal stands: at a node with the nodes that follow it on the right. -/
structure Traversal where
  node : Node
  later : List Node := []
  /-- The nodes around this one, innermost first, each with the nodes that follow it, up to the node
  that the traversal began with. -/
  around : List (Node × List Node) := []
  /-- What surrounds the node that the traversal began with. -/
  outside : List Node := []

namespace Traversal

/-- The place where the traversal stands. -/
def site (t : Traversal) : Cursor :=
  ⟨t.node, t.around.map Prod.fst ++ t.outside⟩

/-- The traversal at the first child, if the node has children. -/
def firstChild? (t : Traversal) : Option Traversal :=
  match t.node.children with
  | [] => none
  | child :: later => some { t with node := child, later, around := (t.node, t.later) :: t.around }

/-- The traversal at the next node on the right, if there is one. -/
def nextSibling? (t : Traversal) : Option Traversal :=
  match t.later with
  | [] => none
  | next :: later => some { t with node := next, later }

/-- The traversal at the node around this one, unless it stands where it began. -/
def parent? (t : Traversal) : Option Traversal :=
  match t.around with
  | [] => none
  | (node, later) :: around => some { t with node, later, around }

/-! ### How much is left -/

/-- The number of nodes around a node and on the right of these. -/
def countAround : List (Node × List Node) → Nat
  | [] => 0
  | (_, later) :: around => 1 + Node.countAll later + countAround around

/-- The number of nodes still to be visited, where those below the node have been. -/
def pending (t : Traversal) : Nat :=
  1 + Node.countAll t.later + countAround t.around

/-- The number of nodes still to be visited, where those below the node have not been. -/
def ahead (t : Traversal) : Nat :=
  t.node.count + Node.countAll t.later + countAround t.around

theorem ahead_eq_of_firstChild? {t child : Traversal} (h : t.firstChild? = some child) :
    child.ahead = t.ahead ∧ child.node.count < t.node.count := by
  have hcount := t.node.count_eq
  unfold firstChild? at h
  split at h
  · cases h
  · next first later hchildren =>
      obtain rfl := Option.some.inj h
      rw [hchildren, Node.countAll] at hcount
      simp only [ahead, countAround]
      omega

theorem pending_eq_of_firstChild? {t : Traversal} (h : t.firstChild? = none) :
    t.pending = t.ahead := by
  have hcount := t.node.count_eq
  unfold firstChild? at h
  split at h
  · next hchildren =>
      rw [hchildren, Node.countAll] at hcount
      simp only [pending, ahead]
      omega
  · cases h

theorem ahead_lt_of_nextSibling? {t next : Traversal} (h : t.nextSibling? = some next) :
    next.ahead < t.pending := by
  unfold nextSibling? at h
  split at h
  · cases h
  · next first later hlater =>
      obtain rfl := Option.some.inj h
      simp only [ahead, pending, hlater, Node.countAll]
      omega

theorem pending_lt_of_parent? {t parent : Traversal} (h : t.parent? = some parent) :
    parent.pending < t.pending := by
  unfold parent? at h
  split at h
  · cases h
  · next node later around haround =>
      obtain rfl := Option.some.inj h
      simp only [pending, haround, countAround]
      omega

/-! ### The traversal -/

/-- Goes down to the first leaf. -/
def descend (t : Traversal) : Traversal :=
  match _ : t.firstChild? with
  | some child => child.descend
  | none => t
termination_by t.node.count
decreasing_by exact (ahead_eq_of_firstChild? ‹_›).2

theorem pending_descend (t : Traversal) : t.descend.pending = t.ahead := by
  fun_induction descend t with
  | case1 t child hchild ih => rw [ih, (ahead_eq_of_firstChild? hchild).1]
  | case2 t hleaf => exact pending_eq_of_firstChild? hleaf

/-- Visits the node where the traversal stands and all that come after it. -/
def walk {m : Type → Type} [Monad m] (visit : Cursor → m Unit) (t : Traversal) : m Unit := do
  visit t.site
  match _ : t.nextSibling? with
  | some next => walk visit next.descend
  | none =>
      match _ : t.parent? with
      | some parent => walk visit parent
      | none => pure ()
termination_by t.pending
decreasing_by
  · rw [pending_descend]
    exact ahead_lt_of_nextSibling? ‹_›
  · exact pending_lt_of_parent? ‹_›

end Traversal

/-- Visits all nodes of a tree, children before their parents and from left to right. -/
def Cursor.walk {m : Type → Type} [Monad m] (visit : Cursor → m Unit) (c : Cursor) : m Unit :=
  let start : Traversal := { node := c.node, outside := c.above }
  start.descend.walk visit

end Script
end NgIndex
