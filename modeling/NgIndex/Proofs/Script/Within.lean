import Mathlib.Data.Option.Basic
import Mathlib.Logic.Relation
import NgIndex.Lookup.Export
import NgIndex.Proofs.Script.PostOrder
import NgIndex.Script.Table

/-!
# Places inside a script

Wherever one goes from a place in the tree of a script, down to children, up to what surrounds it,
to the declaration of a name, to the value of a property or to what is exported, one stays in the
same tree.  As the tree has finitely many places, there are no more of them than its traversal
lists.
-/

namespace NgIndex
namespace Script

namespace Cursor

/-- A place that is reached from another by going down to children. -/
def Within : Cursor → Cursor → Prop :=
  Relation.ReflTransGen fun parent child => child ∈ parent.children

theorem Within.refl (c : Cursor) : Within c c :=
  Relation.ReflTransGen.refl

theorem Within.trans {a b c : Cursor} (h : Within a b) (h' : Within b c) : Within a c :=
  Relation.ReflTransGen.trans h h'

theorem within_of_mem_children {c child : Cursor} (h : child ∈ c.children) : Within c child :=
  .single h

theorem within_child (node : Node) (above : List Node) {child : Node} (h : child ∈ node.children) :
    Within ⟨node, above⟩ ⟨child, node :: above⟩ :=
  within_of_mem_children (List.mem_map_of_mem h)

theorem within_of_mem_named {c child : Cursor} (h : child ∈ c.named) : Within c child :=
  within_of_mem_children ((List.mem_filter.mp h).1)

theorem within_of_mem_items {c child : Cursor} (h : child ∈ c.items) : Within c child :=
  within_of_mem_named ((List.mem_filter.mp h).1)

theorem within_of_child? {c child : Cursor} {role : Field} (h : c.child? role = some child) :
    Within c child :=
  within_of_mem_children (List.mem_of_find?_eq_some h)

/-- What surrounds a place and is not around the whole tree is in the tree. -/
theorem Within.nearest? {root c owner : Cursor} {test : Node → Bool} (h : Within root c)
    (hroot : root.above = []) (howner : Cursor.nearest? test c.above = some owner) :
    Within root owner := by
  induction h with
  | refl =>
      rw [hroot] at howner
      cases howner
  | @tail parent child hparent hchild ih =>
      -- Around the child there is its parent, and then what is around the parent.
      obtain ⟨node, -, rfl⟩ := List.mem_map.mp hchild
      rw [Cursor.nearest?] at howner
      split at howner
      · obtain rfl := Option.some.inj howner
        exact hparent
      · exact ih howner

/-! ### Wrapped expressions -/

mutual

theorem within_unwrapNode (above : List Node) (node : Node) :
    Within ⟨node, above⟩ (unwrapNode above node) := by
  obtain ⟨kind, role, start, stop, children⟩ := node
  rw [unwrapNode]
  split
  · exact .refl _
  · next index _ =>
      cases hinner : unwrapAt (⟨kind, role, start, stop, children⟩ :: above) index children with
      | none => exact .refl _
      | some inner =>
          obtain ⟨child, hchild, hwithin⟩ := within_unwrapAt _ index children hinner
          exact (within_child ⟨kind, role, start, stop, children⟩ above hchild).trans hwithin

theorem within_unwrapAt (above : List Node) (index : Nat) (nodes : List Node) {c : Cursor}
    (h : unwrapAt above index nodes = some c) : ∃ node ∈ nodes, Within ⟨node, above⟩ c := by
  match nodes, index with
  | [], _ => cases h
  | node :: rest, index =>
      rw [unwrapAt.eq_def] at h
      simp only at h
      split at h
      · obtain ⟨other, hother, hwithin⟩ := within_unwrapAt above index rest h
        exact ⟨other, List.mem_cons_of_mem _ hother, hwithin⟩
      · split at h
        · obtain rfl := Option.some.inj h
          exact ⟨node, List.mem_cons_self, within_unwrapNode above node⟩
        · obtain ⟨other, hother, hwithin⟩ := within_unwrapAt above _ rest h
          exact ⟨other, List.mem_cons_of_mem _ hother, hwithin⟩

end

theorem within_unwrap (c : Cursor) : Within c c.unwrap :=
  within_unwrapNode c.above c.node

/-- What has no wrapper around it stands for itself. -/
theorem unwrap_of_wrapped?_eq_none {c : Cursor} (h : wrapped? c.kind = none) : c.unwrap = c := by
  obtain ⟨⟨kind, role, start, stop, children⟩, above⟩ := c
  rw [unwrap, unwrapNode]
  split
  · rfl
  · next hsome =>
      rw [show wrapped? kind = none from h] at hsome
      cases hsome

mutual

theorem unwrap_unwrapNode (above : List Node) (node : Node) :
    (unwrapNode above node).unwrap = unwrapNode above node := by
  obtain ⟨kind, role, start, stop, children⟩ := node
  cases hwrapped : wrapped? kind with
  | none =>
      have hself : unwrapNode above ⟨kind, role, start, stop, children⟩ =
          ⟨⟨kind, role, start, stop, children⟩, above⟩ := by
        simp [unwrapNode, hwrapped]
      rw [hself]
      exact hself
  | some index =>
      cases hinner : unwrapAt (⟨kind, role, start, stop, children⟩ :: above) index children with
      | none =>
          have hself : unwrapNode above ⟨kind, role, start, stop, children⟩ =
              ⟨⟨kind, role, start, stop, children⟩, above⟩ := by
            simp [unwrapNode, hwrapped, hinner]
          rw [hself]
          exact hself
      | some inner =>
          have hnode : unwrapNode above ⟨kind, role, start, stop, children⟩ = inner := by
            simp [unwrapNode, hwrapped, hinner]
          rw [hnode]
          exact unwrap_unwrapAt _ index children hinner

theorem unwrap_unwrapAt (above : List Node) (index : Nat) (nodes : List Node) {c : Cursor}
    (h : unwrapAt above index nodes = some c) : c.unwrap = c := by
  match nodes, index with
  | [], _ => cases h
  | node :: rest, index =>
      rw [unwrapAt.eq_def] at h
      simp only at h
      split at h
      · exact unwrap_unwrapAt above index rest h
      · split at h
        · obtain rfl := Option.some.inj h
          exact unwrap_unwrapNode above node
        · exact unwrap_unwrapAt above _ rest h

end

theorem unwrap_unwrap (c : Cursor) : c.unwrap.unwrap = c.unwrap :=
  unwrap_unwrapNode c.above c.node

/-! ### Traversal -/

mutual

theorem within_of_mem_preOrderNode (above : List Node) (node : Node) {c : Cursor}
    (h : c ∈ preOrderNode above node) : Within ⟨node, above⟩ c := by
  obtain ⟨kind, role, start, stop, children⟩ := node
  rw [preOrderNode] at h
  rcases List.mem_cons.mp h with rfl | hbelow
  · exact .refl _
  · obtain ⟨child, hchild, hwithin⟩ := within_of_mem_preOrderNodes _ children hbelow
    exact (within_child ⟨kind, role, start, stop, children⟩ above hchild).trans hwithin

theorem within_of_mem_preOrderNodes (above : List Node) (nodes : List Node) {c : Cursor}
    (h : c ∈ preOrderNodes above nodes) : ∃ node ∈ nodes, Within ⟨node, above⟩ c := by
  match nodes with
  | [] =>
      rw [preOrderNodes] at h
      cases h
  | node :: rest =>
      rw [preOrderNodes] at h
      rcases List.mem_append.mp h with hnode | hrest
      · exact ⟨node, List.mem_cons_self, within_of_mem_preOrderNode above node hnode⟩
      · obtain ⟨other, hother, hwithin⟩ := within_of_mem_preOrderNodes above rest hrest
        exact ⟨other, List.mem_cons_of_mem _ hother, hwithin⟩

end

theorem preOrderNode_subset {above : List Node} {node : Node} {nodes : List Node}
    (h : node ∈ nodes) : preOrderNode above node ⊆ preOrderNodes above nodes := by
  induction nodes with
  | nil => cases h
  | cons first rest ih =>
      rw [preOrderNodes]
      rcases List.mem_cons.mp h with rfl | hrest
      · exact List.subset_append_left _ _
      · exact List.subset_append_of_subset_right _ (ih hrest)

theorem preOrder_subset_of_mem_children {c child : Cursor} (h : child ∈ c.children) :
    child.preOrder ⊆ c.preOrder := by
  obtain ⟨⟨kind, role, start, stop, children⟩, above⟩ := c
  obtain ⟨node, hnode, rfl⟩ := List.mem_map.mp h
  rw [preOrder, preOrder, preOrderNode.eq_def above]
  exact List.subset_cons_of_subset _ (preOrderNode_subset hnode)

theorem self_mem_preOrder (c : Cursor) : c ∈ c.preOrder := by
  obtain ⟨⟨kind, role, start, stop, children⟩, above⟩ := c
  rw [preOrder, preOrderNode]
  exact List.mem_cons_self

/-- The traversal of a tree lists the places in it. -/
theorem mem_preOrder_iff {root c : Cursor} : c ∈ root.preOrder ↔ Within root c := by
  constructor
  · exact within_of_mem_preOrderNode root.above root.node
  · intro h
    induction h using Relation.ReflTransGen.head_induction_on with
    | refl => exact self_mem_preOrder c
    | head hchild _ ih => exact preOrder_subset_of_mem_children hchild ih

end Cursor

open Cursor

/-! ### Tables -/

namespace Table

theorem mem_set {name : String} {value : Cursor} {entries : List (String × Cursor)}
    {entry : String × Cursor} (h : entry ∈ set name value entries) :
    entry.2 = value ∨ entry ∈ entries := by
  induction entries with
  | nil =>
      obtain rfl := List.mem_singleton.mp h
      exact .inl rfl
  | cons first rest ih =>
      rw [set] at h
      split at h
      · rcases List.mem_cons.mp h with rfl | hrest
        · exact .inl rfl
        · exact .inr (List.mem_cons_of_mem _ hrest)
      · rcases List.mem_cons.mp h with rfl | hrest
        · exact .inr List.mem_cons_self
        · exact (ih hrest).imp_right (List.mem_cons_of_mem _)

/-- What a table holds has been written to it. -/
theorem exists_write_of_get? {origin : Cursor} {writes : List (String × Cursor)} {name : String}
    {value : Cursor} (h : (ofWrites origin writes).get? name = some value) :
    ∃ write ∈ writes, write.2 = value := by
  obtain ⟨entry, hentry, rfl⟩ := Option.map_eq_some_iff.mp h
  have hmem := List.mem_of_find?_eq_some hentry
  have hfold : ∀ (entries : List (String × Cursor)),
      entry ∈ writes.foldl (fun entries write => set write.1 write.2 entries) entries →
        entry ∈ entries ∨ ∃ write ∈ writes, write.2 = entry.2 := by
    clear h hentry hmem
    induction writes with
    | nil => exact fun entries h => .inl h
    | cons write rest ih =>
        intro entries h
        rcases ih _ h with hset | ⟨later, hlater, heq⟩
        · rcases mem_set hset with heq | hold
          · exact .inr ⟨write, List.mem_cons_self, heq.symm⟩
          · exact .inl hold
        · exact .inr ⟨later, List.mem_cons_of_mem _ hlater, heq⟩
  rcases hfold [] hmem with hnil | hwrite
  · cases hnil
  · exact hwrite

theorem within_of_propertyWrite? {m : Module} {property : Cursor} {write : String × Cursor}
    (h : propertyWrite? m property = some write) : Within property write.2 := by
  unfold propertyWrite? at h
  split at h
  · simp only [Option.bind_eq_bind, Option.bind_eq_some_iff, Option.pure_def] at h
    obtain ⟨key, -, value, hvalue, hwrite⟩ := h
    obtain rfl := Option.some.inj hwrite
    exact within_of_child? hvalue
  · obtain rfl := Option.some.inj h
    exact .refl _
  · simp only [Option.bind_eq_bind, Option.bind_eq_some_iff, Option.pure_def] at h
    obtain ⟨key, -, hwrite⟩ := h
    obtain rfl := Option.some.inj hwrite
    exact .refl _
  · cases h

theorem within_of_get?_ofObject {m : Module} {object value : Cursor} {name : String}
    (h : (ofObject m object).get? name = some value) : Within object value := by
  obtain ⟨write, hwrite, rfl⟩ := exists_write_of_get? h
  obtain ⟨property, hproperty, hwrite⟩ := List.mem_filterMap.mp hwrite
  exact (within_of_mem_named hproperty).trans (within_of_propertyWrite? hwrite)

theorem within_of_fieldWrite? {m : Module} {field : Cursor} {write : String × Cursor}
    (h : fieldWrite? m field = some write) : Within field write.2 := by
  simp only [fieldWrite?, Option.bind_eq_bind, Option.bind_eq_some_iff, Option.pure_def] at h
  obtain ⟨-, -, -, -, name, -, value, hvalue, hwrite⟩ := h
  obtain rfl := Option.some.inj hwrite
  exact within_of_child? hvalue

theorem within_of_thisWrite? {m : Module} {statement : Cursor} {write : String × Cursor}
    (h : thisWrite? m statement = some write) : Within statement write.2 := by
  simp only [thisWrite?, Option.bind_eq_bind, Option.bind_eq_some_iff, Option.pure_def] at h
  obtain ⟨-, -, assignment, hassignment, -, -, left, -, -, -, object, -, -, -, property, -, value,
    hvalue, hwrite⟩ := h
  obtain rfl := Option.some.inj hwrite
  have hmem := List.mem_of_mem_head? hassignment
  exact (within_of_mem_named hmem).trans (within_of_child? hvalue)

theorem within_of_constructorBody? {m : Module} {body inner : Cursor}
    (h : constructorBody? m body = some inner) : Within body inner := by
  simp only [constructorBody?, Option.bind_eq_bind, Option.bind_eq_some_iff] at h
  obtain ⟨first, hfirst, hinner⟩ := h
  exact (within_of_mem_named (List.mem_of_find?_eq_some hfirst)).trans (within_of_child? hinner)

theorem within_of_get?_ofClass {m : Module} {owner value : Cursor} {name : String}
    (h : (ofClass m owner).get? name = some value) : Within owner value := by
  obtain ⟨write, hwrite, rfl⟩ := exists_write_of_get? h
  obtain ⟨body, hbody, hwrite⟩ := List.mem_flatMap.mp hwrite
  refine (within_of_child? (Option.mem_toList.mp hbody)).trans ?_
  -- A field is written where it is declared, or by a statement of the constructor.
  rcases List.mem_append.mp hwrite with hfield | hthis
  · obtain ⟨field, hfield, hwrite⟩ := List.mem_filterMap.mp hfield
    exact (within_of_mem_named hfield).trans (within_of_fieldWrite? hwrite)
  · obtain ⟨statement, hstatement, hwrite⟩ := List.mem_filterMap.mp hthis
    obtain ⟨inner, hinner, hstatement⟩ := List.mem_flatMap.mp hstatement
    have hbody := within_of_constructorBody? (Option.mem_toList.mp hinner)
    exact (hbody.trans (within_of_mem_named hstatement)).trans (within_of_thisWrite? hwrite)

end Table

/-! ### Names, exports and calls -/

/-- Where an offer says to look in the same script. -/
def Offer.site? : Offer → Option Cursor
  | .declared site _ => some site
  | .declarator site => some site
  | .value site => site
  | _ => none

namespace Module

/-- A script whose declarations are places in its tree. -/
structure Whole (m : Module) : Prop where
  above : m.root.above = []
  declarations : ∀ declaration ∈ m.declarations, Within m.root declaration.site

theorem whole_ofText (path : Path) (text : String) : (ofText path text).Whole where
  above := rfl
  declarations := by
    intro declaration h
    obtain ⟨c, hc, hdeclaration⟩ := List.mem_filterMap.mp h
    simp only [declarationAt?, Option.bind_eq_bind, Option.bind_eq_some_iff,
      Option.pure_def] at hdeclaration
    obtain ⟨-, -, name, -, -, -, scope, -, hsite⟩ := hdeclaration
    obtain rfl := Option.some.inj hsite
    exact mem_preOrder_iff.mp hc

theorem mem_of_innermost? {declarations : List Declaration} {declaration : Declaration}
    (h : innermost? declarations = some declaration) : declaration ∈ declarations := by
  cases declarations with
  | nil => cases h
  | cons first rest =>
      obtain rfl := Option.some.inj h
      clear h
      induction rest generalizing first with
      | nil => exact List.mem_cons_self
      | cons next rest ih =>
          rw [List.foldl_cons]
          split
          · exact List.mem_cons_of_mem _ (ih next)
          · rcases List.mem_cons.mp (ih first) with heq | hrest
            · rw [heq]
              exact List.mem_cons_self
            · exact List.mem_cons_of_mem _ (List.mem_cons_of_mem _ hrest)

variable {m : Module}

theorem Whole.within_declarationOf? (hm : m.Whole) {name : String} {site declaration : Cursor}
    (h : m.declarationOf? name site = some declaration) : Within m.root declaration := by
  obtain ⟨found, hfound, rfl⟩ := Option.map_eq_some_iff.mp h
  have hmem := mem_of_innermost? hfound
  exact hm.declarations found (List.mem_filter.mp hmem).1

theorem Whole.within_ofNode? (hm : m.Whole) {c value : Cursor} {table : Table} {name : String}
    (hc : Within m.root c) (htable : Table.ofNode? m c = some table)
    (hvalue : table.get? name = some value) : Within m.root value := by
  have hunwrap := hc.trans (within_unwrap c)
  unfold Table.ofNode? at htable
  simp only at htable
  split at htable
  · obtain rfl := Option.some.inj htable
    exact hunwrap.trans (Table.within_of_get?_ofObject hvalue)
  · -- An instance has the table of its class, which stands elsewhere in the script.
    simp only [Option.bind_eq_bind, Option.bind_eq_some_iff, Option.pure_def] at htable
    obtain ⟨constructor, -, -, -, owner, howner, -, -, htable⟩ := htable
    obtain rfl := Option.some.inj htable
    exact (hm.within_declarationOf? howner).trans (Table.within_of_get?_ofClass hvalue)
  · split at htable
    · obtain rfl := Option.some.inj htable
      exact hunwrap.trans (Table.within_of_get?_ofClass hvalue)
    · cases htable

theorem within_of_declarationOffer {declaration site : Cursor} {name : String}
    (h : (m.declarationOffer declaration name).site? = some site) : Within declaration site := by
  unfold declarationOffer at h
  simp only at h
  split at h
  · split at h
    · next declarator hfind =>
        obtain rfl := Option.some.inj h
        exact within_of_mem_named (List.mem_of_find?_eq_some hfind)
    · cases h
  · split at h
    · split at h
      · obtain rfl := Option.some.inj h
        exact .refl _
      · cases h
    · cases h

theorem site?_listOffer (m : Module) (statement : Cursor) (name : String) :
    (m.listOffer statement name).site? = none := by
  unfold listOffer
  simp only
  split
  · split
    · rfl
    · rfl
    · rfl
  · split
    · split
      · rfl
      · rfl
    · rfl

theorem within_of_offer {statement site : Cursor} {name : String}
    (h : (m.offer name statement).site? = some site) : Within statement site := by
  unfold offer at h
  simp only at h
  split at h
  · next declaration hdeclaration =>
      refine (within_of_child? hdeclaration).trans ?_
      split at h
      · exact within_of_declarationOffer h
      · split at h
        · obtain rfl := Option.some.inj h
          exact .refl _
        · cases h
  · split at h
    · rw [site?_listOffer] at h
      cases h
    · split at h
      · cases h
      · rw [Offer.site?] at h
        split at h
        · next value hvalue =>
            obtain rfl := Option.some.inj h
            exact within_of_child? hvalue
        · exact within_of_mem_items (List.mem_of_mem_head? h)

theorem within_of_mem_exports {statement : Cursor} (h : statement ∈ m.exports) :
    Within m.root statement :=
  within_of_mem_named (List.mem_filter.mp h).1

theorem within_of_mem_arguments {c argument : Cursor} {call : Call}
    (hcall : Call.at? m c = some call) (h : argument ∈ call.arguments) : Within c argument := by
  simp only [Call.at?, Option.bind_eq_bind, Option.bind_eq_some_iff, Option.pure_def] at hcall
  obtain ⟨-, -, callee, -, hcall⟩ := hcall
  obtain rfl := Option.some.inj hcall
  obtain ⟨list, hlist, hmem⟩ := List.mem_flatMap.mp h
  exact (within_of_child? (Option.mem_toList.mp hlist)).trans (within_of_mem_items hmem)

/-- The events of a script are found at places in it. -/
theorem exists_within_of_mem_events {event : Event} (h : event ∈ m.events) :
    ∃ c, Within m.root c ∧ Event.at? m c = some event := by
  rw [events_eq] at h
  obtain ⟨c, hc, hevent⟩ := List.mem_filterMap.mp h
  exact ⟨c, mem_preOrder_iff.mp ((perm_postOrder m.root).mem_iff.mp hc), hevent⟩

theorem within_of_mem_events {call : Call} {argument : Cursor} (h : Event.call call ∈ m.events)
    (hargument : argument ∈ call.arguments) : Within m.root argument := by
  obtain ⟨c, hc, hevent⟩ := exists_within_of_mem_events h
  unfold Event.at? at hevent
  split at hevent
  · obtain ⟨found, hfound, heq⟩ := Option.map_eq_some_iff.mp hevent
    obtain rfl := Event.call.inj heq
    exact hc.trans (within_of_mem_arguments hfound hargument)
  all_goals simp [Option.bind_eq_some_iff] at hevent

end Module

end Script
end NgIndex
