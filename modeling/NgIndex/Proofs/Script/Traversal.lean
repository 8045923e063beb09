import NgIndex.Proofs.Script.Ranges
import NgIndex.Proofs.Tree

/-!
# Every place is visited once

A traversal comes to every place of a tree once, children before their parents and from left to
right, and ends at the root.  If a visit fails, the traversal fails with it and comes to no place
after that.  So of two calls one inside the other the inner one is handled first.

Places are told apart here by their addresses.  In a tree in order no two places are equal, so there
each node has its event just once.
-/

namespace NgIndex
namespace Script

namespace Cursor

theorem mem_postOrder_iff {root c : Cursor} : c ∈ root.postOrder ↔ Within root c :=
  (perm_postOrder root).mem_iff.trans mem_preOrder_iff

/-! ### No place twice -/

theorem Within.length_le {outer inner : Cursor} (h : Within outer inner) :
    outer.above.length ≤ inner.above.length := by
  induction h with
  | refl => exact Nat.le_refl _
  | tail _ hchild ih =>
      obtain ⟨node, -, rfl⟩ := List.mem_map.mp hchild
      exact Nat.le_succ_of_le ih

mutual

theorem nodup_preOrderNode (above : List Node) (node : Node) (h : node.Tidy) :
    (preOrderNode above node).Nodup := by
  obtain ⟨kind, role, start, stop, children⟩ := node
  rw [preOrderNode]
  refine List.nodup_cons.mpr ⟨fun hmem => ?_,
    nodup_preOrderNodes _ children h.row fun _ hchild => (h.part hchild).tidy⟩
  -- More surrounds what is below a node than the node itself.
  obtain ⟨child, -, hwithin⟩ := within_of_mem_preOrderNodes _ children hmem
  exact absurd hwithin.length_le (Nat.not_succ_le_self _)

theorem nodup_preOrderNodes (above : List Node) (nodes : List Node) {low high : Nat}
    (hrow : Row low nodes high) (htidy : ∀ node ∈ nodes, node.Tidy) :
    (preOrderNodes above nodes).Nodup := by
  match nodes with
  | [] =>
      rw [preOrderNodes]
      exact .nil
  | node :: rest =>
      obtain ⟨-, hfull, hrest⟩ := hrow
      have hnode := htidy node List.mem_cons_self
      have htail := fun other h => htidy other (List.mem_cons_of_mem node h)
      rw [preOrderNodes]
      refine List.nodup_append.mpr ⟨nodup_preOrderNode above node hnode,
        nodup_preOrderNodes above rest hrest htail, ?_⟩
      rintro c hc c' hc' rfl
      -- A place in both would end before it starts.
      have hwithin := within_of_mem_preOrderNode above node hc
      obtain ⟨other, hother, hwithin'⟩ := within_of_mem_preOrderNodes above rest hc'
      have hstop := (hwithin.range hnode).2
      have hstart := (hwithin'.range (htail other hother)).1
      have hnext := hrest.low_le hother
      by_cases hself : c = ⟨node, above⟩
      · subst hself
        simp only at hstart
        omega
      · have hinner := hwithin.full hnode hself
        simp only at hstop hstart
        omega

end

/-! ### Any tree and any visit -/

theorem sizeOf_lt_of_mem_children {c child : Cursor} (h : child ∈ c.children) :
    sizeOf child.node < sizeOf c.node := by
  obtain ⟨node, hnode, rfl⟩ := List.mem_map.mp h
  obtain ⟨⟨kind, role, start, stop, children⟩, above⟩ := c
  have hlt : sizeOf node < sizeOf children := List.sizeOf_lt_of_mem hnode
  simp only [Node.mk.sizeOf_spec]
  omega

theorem exists_lists_postOrder (root : Cursor) :
    ∃ addresses, Tree.Lists Tree.Closes (Tree.nodeAt? children root) addresses root.postOrder :=
  Tree.exists_lists_of_beneath (fun _ _ => sizeOf_lt_of_mem_children) postOrder_eq root

theorem getLast?_postOrder (root : Cursor) : root.postOrder.getLast? = some root := by
  rw [postOrder_eq, List.getLast?_concat]

/-- What is below a place is visited right before it. -/
theorem Within.postOrder_infix {root c : Cursor} (h : Within root c) :
    c.postOrder <:+: root.postOrder := by
  induction h using Relation.ReflTransGen.head_induction_on with
  | refl => exact List.infix_refl _
  | @head parent child hchild _ ih =>
      obtain ⟨before, after, hsplit⟩ := List.append_of_mem hchild
      refine ih.trans ⟨before.flatMap postOrder, after.flatMap postOrder ++ [parent], ?_⟩
      rw [postOrder_eq parent, hsplit]
      simp

/-- A place is visited before those around it. -/
theorem exists_postOrder_eq {root outer child inner : Cursor} (houter : Within root outer)
    (hchild : child ∈ outer.children) (hinner : Within child inner) :
    ∃ front middle back, root.postOrder = front ++ inner :: (middle ++ outer :: back) := by
  have hmem : inner ∈ outer.children.flatMap postOrder :=
    List.mem_flatMap.mpr ⟨child, hchild, mem_postOrder_iff.mpr hinner⟩
  obtain ⟨before, middle, hbelow⟩ := List.append_of_mem hmem
  obtain ⟨front, back, hroot⟩ := houter.postOrder_infix
  refine ⟨front ++ before, middle, back, ?_⟩
  rw [← hroot, postOrder_eq outer, hbelow]
  simp

section Visits

variable {σ ε : Type}

/-- A visit that also takes down where it has been. -/
def noting (visit : Cursor → ExceptT ε (StateM σ) Unit) (c : Cursor) :
    ExceptT ε (StateM (σ × List Cursor)) Unit :=
  .mk fun (s, seen) =>
    let (outcome, s') := (visit c).run s
    (outcome, (s', seen ++ [c]))

/-- The visit of one place after another: each finds the state that the ones before have left, and
after one that fails there are no more. -/
theorem forM_cons_run (visit : Cursor → ExceptT ε (StateM σ) Unit) (c : Cursor)
    (rest : List Cursor) (s : σ) :
    (forM (c :: rest) visit : ExceptT ε (StateM σ) Unit).run s =
      match (visit c).run s with
      | (.ok _, s') => (forM rest visit : ExceptT ε (StateM σ) Unit).run s'
      | (.error e, s') => (.error e, s') := by
  have hbind : (visit c >>= fun _ => forM rest visit : ExceptT ε (StateM σ) Unit).run s =
      ExceptT.bindCont (fun _ => forM rest visit) ((visit c).run s).1 ((visit c).run s).2 := rfl
  rw [List.forM_cons, hbind]
  cases (visit c).run s with
  | mk outcome s' =>
      cases outcome with
      | ok => rfl
      | error e => rfl

/-- Visits come to all places, or to those up to the first at which the visit fails. -/
theorem forM_noting_cases (visit : Cursor → ExceptT ε (StateM σ) Unit) (places seen : List Cursor)
    (s : σ) :
    (∃ s', (forM places visit : ExceptT ε (StateM σ) Unit).run s = (.ok (), s') ∧
      (forM places (noting visit) : ExceptT ε (StateM (σ × List Cursor)) Unit).run (s, seen) =
        (.ok (), (s', seen ++ places))) ∨
      ∃ front c back e s₁ s', places = front ++ c :: back ∧
        (forM front visit : ExceptT ε (StateM σ) Unit).run s = (.ok (), s₁) ∧
        (visit c).run s₁ = (.error e, s') ∧
        (forM places visit : ExceptT ε (StateM σ) Unit).run s = (.error e, s') ∧
        (forM places (noting visit) : ExceptT ε (StateM (σ × List Cursor)) Unit).run (s, seen) =
          (.error e, (s', seen ++ (front ++ [c]))) := by
  induction places generalizing s seen with
  | nil => exact .inl ⟨s, rfl, by rw [List.append_nil]; rfl⟩
  | cons c rest ih =>
      have hnoting : (noting visit c).run (s, seen) =
          (((visit c).run s).1, (((visit c).run s).2, seen ++ [c])) := rfl
      simp only [forM_cons_run, hnoting]
      cases hvisit : (visit c).run s with
      | mk outcome s' =>
          cases outcome with
          | error e =>
              exact .inr ⟨[], c, rest, e, s, s', rfl, rfl, hvisit, rfl, rfl⟩
          | ok =>
              rcases ih (seen ++ [c]) s' with ⟨t, hrun, hnoted⟩ |
                ⟨front, d, back, e, s₁, t, hsplit, hfront, hfails, hrun, hnoted⟩
              · rw [List.append_assoc] at hnoted
                exact .inl ⟨t, hrun, hnoted⟩
              · rw [List.append_assoc] at hnoted
                refine .inr ⟨c :: front, d, back, e, s₁, t, congrArg (c :: ·) hsplit, ?_, hfails,
                  hrun, hnoted⟩
                rw [forM_cons_run, hvisit]
                exact hfront

end Visits

end Cursor

open Cursor

/-- What a call is made of. -/
theorem Call.of_at? {m : Module} {c : Cursor} {call : Call} (h : Call.at? m c = some call) :
    c.kind = .call ∧ call.site = c ∧ c.child? .function = some call.callee ∧
      call.object = (if call.callee.kind == .member then call.callee.child? .object else none) ∧
      call.method = if call.callee.kind == .member then
        (call.callee.child? .property).map m.textAt else none := by
  obtain ⟨_, hguard, h⟩ := Option.bind_eq_some_iff.mp h
  obtain ⟨callee, hcallee, h⟩ := Option.bind_eq_some_iff.mp h
  obtain rfl := Option.some.inj h
  refine ⟨?_, rfl, hcallee, rfl, rfl⟩
  simpa using (Option.guard_eq_some' _).mp hguard

theorem eventAt?_eq_call_iff {m : Module} {c : Cursor} {call : Call} :
    Event.at? m c = some (.call call) ↔ Call.at? m c = some call := by
  constructor
  · intro h
    unfold Event.at? at h
    split at h
    · simpa using h
    all_goals simp [Option.bind_eq_some_iff] at h
  · intro h
    simp [Event.at?, (Call.of_at? h).1, h]

namespace Module

variable {m : Module}

/-- Of two calls, one inside the object of the other, the inner one comes first. -/
theorem exists_events_eq {c object d : Cursor} {outer inner : Call} (hc : Within m.root c)
    (houter : Call.at? m c = some outer) (hobject : outer.object = some object)
    (hd : Within object d) (hinner : Call.at? m d = some inner) :
    ∃ front middle back, m.events = front ++ .call inner :: (middle ++ .call outer :: back) := by
  obtain ⟨-, -, hcallee, hmember, -⟩ := Call.of_at? houter
  rw [hobject] at hmember
  split at hmember
  · have hwithin : Within outer.callee d := (within_of_child? hmember.symm).trans hd
    obtain ⟨front, middle, back, hplaces⟩ :=
      exists_postOrder_eq hc (List.mem_of_find?_eq_some hcallee) hwithin
    refine ⟨front.filterMap (Event.at? m), middle.filterMap (Event.at? m),
      back.filterMap (Event.at? m), ?_⟩
    rw [events_eq, hplaces, List.filterMap_append,
      List.filterMap_cons_some (eventAt?_eq_call_iff.mpr hinner), List.filterMap_append,
      List.filterMap_cons_some (eventAt?_eq_call_iff.mpr houter)]
  · cases hmember

/-- **A traversal comes to every place once, children before their parents.**  It visits the places
in the order in which all children of a place come from left to right before the place itself; there
every address of the tree is met once, and the root is the last.  For any visit, which may change a
state and may fail, the traversal does to the state what visiting the places of this order does.
Either all visits succeed and these are the places it has been to; or it fails as the first visit
that fails does, and that was the last place it has been to.  So of two calls of which one stands
inside the object of the other the inner one is met first. -/
theorem traversal_visits_places_once {σ ε : Type} (m : Module)
    (visit : Cursor → ExceptT ε (StateM σ) Unit) (s : σ) :
    (∃ addresses,
      Tree.Lists Tree.Closes (Tree.nodeAt? children m.root) addresses m.root.postOrder) ∧
      m.root.postOrder.getLast? = some m.root ∧
      ((∃ s', (m.root.walk visit).run s = (.ok (), s') ∧
        (m.root.walk (noting visit)).run (s, []) = (.ok (), (s', m.root.postOrder))) ∨
        ∃ front c back e s₁ s', m.root.postOrder = front ++ c :: back ∧
          (forM front visit : ExceptT ε (StateM σ) Unit).run s = (.ok (), s₁) ∧
          (visit c).run s₁ = (.error e, s') ∧
          (m.root.walk visit).run s = (.error e, s') ∧
          (m.root.walk (noting visit)).run (s, []) = (.error e, (s', front ++ [c]))) ∧
      ∀ (c object d : Cursor) (outer inner : Call), Within m.root c →
        Call.at? m c = some outer → outer.object = some object → Within object d →
        Call.at? m d = some inner →
        ∃ front middle back,
          m.events = front ++ .call inner :: (middle ++ .call outer :: back) := by
  refine ⟨exists_lists_postOrder m.root, getLast?_postOrder m.root, ?_,
    fun c object d outer inner => exists_events_eq⟩
  have hcases := forM_noting_cases visit m.root.postOrder [] s
  rw [walk_eq_forM, walk_eq_forM]
  simpa only [List.nil_append] using hcases

/-- In a chain the calls are met in the order in which they are written. -/
example : ((ofText ⟨"/routes.js"⟩ "app.state('a').run(2).go();").events.filterMap fun event =>
      match event with
      | .call call => call.method
      | _ => none) = ["state", "run", "go"] := by
  decide +kernel

end Module

end Script
end NgIndex
