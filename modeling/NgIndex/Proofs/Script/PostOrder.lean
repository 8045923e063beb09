import NgIndex.Script.Event

/-!
# The order in which places are visited

A traversal moves from node to node, but it can be said beforehand which places it will come to: the
node it stands at, then everything on the right of that node, then the node around it, and so on
outwards.  So the traversal of a tree visits all its places, children before their parents and from
left to right.
-/

namespace NgIndex
namespace Script

namespace Cursor

/-! ### Children before their parents -/

mutual

/-- All places in a tree, children before their parents and from left to right. -/
def postOrderNode (above : List Node) (node : Node) : List Cursor :=
  match node with
  | ⟨kind, role, start, stop, children⟩ =>
      let self : Node := ⟨kind, role, start, stop, children⟩
      postOrderNodes (self :: above) children ++ [⟨self, above⟩]

/-- All places in several trees, one tree after another. -/
def postOrderNodes (above : List Node) (nodes : List Node) : List Cursor :=
  match nodes with
  | [] => []
  | node :: rest => postOrderNode above node ++ postOrderNodes above rest

end

/-- All places in a tree, children before their parents and from left to right. -/
def postOrder (c : Cursor) : List Cursor :=
  postOrderNode c.above c.node

theorem postOrderNode_eq (above : List Node) (node : Node) :
    postOrderNode above node = postOrderNodes (node :: above) node.children ++ [⟨node, above⟩] := by
  cases node
  rw [postOrderNode]

theorem postOrderNodes_eq_flatMap (above : List Node) (nodes : List Node) :
    postOrderNodes above nodes = nodes.flatMap (postOrderNode above) := by
  induction nodes with
  | nil => rw [postOrderNodes, List.flatMap_nil]
  | cons node rest ih => rw [postOrderNodes, ih, List.flatMap_cons]

theorem postOrder_eq (c : Cursor) : c.postOrder = c.children.flatMap postOrder ++ [c] := by
  rw [postOrder, postOrderNode_eq, postOrderNodes_eq_flatMap, children, List.flatMap_map]
  rfl

mutual

theorem perm_postOrderNode (above : List Node) (node : Node) :
    (postOrderNode above node).Perm (preOrderNode above node) := by
  obtain ⟨kind, role, start, stop, children⟩ := node
  rw [postOrderNode, preOrderNode]
  exact (List.perm_append_singleton _ _).trans ((perm_postOrderNodes _ children).cons _)

theorem perm_postOrderNodes (above : List Node) (nodes : List Node) :
    (postOrderNodes above nodes).Perm (preOrderNodes above nodes) := by
  match nodes with
  | [] =>
      rw [postOrderNodes, preOrderNodes]
  | node :: rest =>
      rw [postOrderNodes, preOrderNodes]
      exact (perm_postOrderNode above node).append (perm_postOrderNodes above rest)

end

theorem perm_postOrder (c : Cursor) : c.postOrder.Perm c.preOrder :=
  perm_postOrderNode c.above c.node

end Cursor

open Cursor

/-! ### Where a traversal will come to -/

namespace Traversal

/-- The nodes around a node and what is on the right of them, in the order of the traversal. -/
def placesAround (outside : List Node) : List (Node × List Node) → List Cursor
  | [] => []
  | (node, later) :: around =>
      let above := around.map Prod.fst ++ outside
      ⟨node, above⟩ :: (postOrderNodes above later ++ placesAround outside around)

/-- The places still to be visited, where those below the node have been. -/
def placesPending (t : Traversal) : List Cursor :=
  t.site :: (postOrderNodes t.site.above t.later ++ placesAround t.outside t.around)

/-- The places still to be visited, where those below the node have not been. -/
def placesAhead (t : Traversal) : List Cursor :=
  t.site.postOrder ++ (postOrderNodes t.site.above t.later ++ placesAround t.outside t.around)

theorem placesAhead_of_firstChild? {t child : Traversal} (h : t.firstChild? = some child) :
    child.placesAhead = t.placesAhead := by
  unfold firstChild? at h
  split at h
  · cases h
  · next first later hchildren =>
      obtain rfl := Option.some.inj h
      rw [placesAhead, placesAhead, postOrder, postOrder, postOrderNode_eq t.site.above, placesAround]
      change _ = (postOrderNodes _ t.node.children ++ _) ++ _
      rw [hchildren, postOrderNodes]
      simp [site]

theorem placesPending_of_firstChild? {t : Traversal} (h : t.firstChild? = none) :
    t.placesPending = t.placesAhead := by
  unfold firstChild? at h
  split at h
  · next hchildren =>
      rw [placesPending, placesAhead, postOrder, postOrderNode_eq]
      change _ = (postOrderNodes _ t.node.children ++ _) ++ _
      rw [hchildren, postOrderNodes]
      rfl
  · cases h

theorem placesPending_descend (t : Traversal) : t.descend.placesPending = t.placesAhead := by
  fun_induction descend t with
  | case1 t child hchild ih => rw [ih, placesAhead_of_firstChild? hchild]
  | case2 t hleaf => exact placesPending_of_firstChild? hleaf

theorem placesPending_of_nextSibling? {t next : Traversal} (h : t.nextSibling? = some next) :
    t.placesPending = t.site :: next.placesAhead := by
  unfold nextSibling? at h
  split at h
  · cases h
  · next first later hlater =>
      obtain rfl := Option.some.inj h
      rw [placesPending, hlater, postOrderNodes, List.append_assoc]
      rfl

theorem placesPending_of_parent? {t parent : Traversal} (hlast : t.nextSibling? = none)
    (h : t.parent? = some parent) : t.placesPending = t.site :: parent.placesPending := by
  have hlater : t.later = [] := by
    unfold nextSibling? at hlast
    split at hlast
    · assumption
    · cases hlast
  unfold parent? at h
  split at h
  · cases h
  · next node later around haround =>
      obtain rfl := Option.some.inj h
      rw [placesPending, hlater, postOrderNodes, haround]
      rfl

theorem placesPending_of_end {t : Traversal} (hlast : t.nextSibling? = none)
    (h : t.parent? = none) : t.placesPending = [t.site] := by
  have hlater : t.later = [] := by
    unfold nextSibling? at hlast
    split at hlast
    · assumption
    · cases hlast
  have haround : t.around = [] := by
    unfold parent? at h
    split at h
    · assumption
    · cases h
  rw [placesPending, hlater, postOrderNodes, haround]
  rfl

/-- A traversal visits the places still to be visited one after another. -/
theorem walk_eq_forM {μ : Type → Type} [Monad μ] [LawfulMonad μ] (visit : Cursor → μ Unit)
    (t : Traversal) : t.walk visit = forM t.placesPending visit := by
  fun_induction walk visit t with
  | case1 t ihright ihup =>
      split
      · next next hnext =>
          rw [placesPending_of_nextSibling? hnext, List.forM_cons, ihright next hnext,
            placesPending_descend]
      · next hlast =>
          split
          · next parent hparent =>
              rw [placesPending_of_parent? hlast hparent, List.forM_cons, ihup parent hparent]
          · next hend => rw [placesPending_of_end hlast hend, List.forM_cons, List.forM_nil]

end Traversal

theorem Cursor.walk_eq_forM {μ : Type → Type} [Monad μ] [LawfulMonad μ] (visit : Cursor → μ Unit)
    (c : Cursor) : c.walk visit = forM c.postOrder visit := by
  rw [walk, Traversal.walk_eq_forM, Traversal.placesPending_descend, Traversal.placesAhead]
  rw [postOrderNodes, Traversal.placesAround, List.append_nil, List.append_nil]
  rfl

/-! ### Events -/

namespace Module

variable {m : Module}

/-- The step that puts the event at a place in front of a list. -/
def recordAt (m : Module) : Cursor → StateM (List Event) Unit :=
  m.dispatch fun event => modify (event :: ·)

theorem forM_recordAt (places : List Cursor) (events : List Event) :
    (forM places (recordAt m)).run events =
      ((), (places.filterMap (Event.at? m)).reverse ++ events) := by
  induction places generalizing events with
  | nil => rfl
  | cons c rest ih =>
      rw [List.forM_cons]
      change (forM rest (recordAt m)).run ((recordAt m c).run events).2 = _
      rw [ih]
      unfold recordAt dispatch
      cases hevent : Event.at? m c with
      | none =>
          rw [List.filterMap_cons_none hevent]
          rfl
      | some event =>
          rw [List.filterMap_cons_some hevent, List.reverse_cons, List.append_assoc]
          rfl

/-- The events of a script are those at its places, children before their parents. -/
theorem events_eq (m : Module) : m.events = m.root.postOrder.filterMap (Event.at? m) := by
  have hwalk : m.root.walk (recordAt m) = forM m.root.postOrder (recordAt m) :=
    walk_eq_forM (recordAt m) m.root
  change ((m.root.walk (recordAt m)).run []).2.reverse = _
  rw [hwalk, forM_recordAt, List.append_nil, List.reverse_reverse]

end Module

end Script
end NgIndex
