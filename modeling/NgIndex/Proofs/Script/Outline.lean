import Mathlib.Data.List.Forall2
import Mathlib.Data.List.Zip
import NgIndex.Proofs.Script.Scope
import NgIndex.Proofs.Script.Traversal

/-!
# Trees that differ in comments

The outline of a tree is what is left of it without its comments and without the places of its
nodes: the kinds and roles of the nodes and the texts of those that have no parts.  In two trees
with the same outline each node has its twin, and whatever goes from node to node by kinds and
roles leads from twins to twins.  Comments get in the way only where a child is taken by its
number.
-/

namespace NgIndex
namespace Script

/-! ### Lists one by one -/

section Lists

variable {α β γ δ : Type} {R : α → β → Prop} {P : γ → δ → Prop} {xs : List α} {ys : List β}

theorem forall₂_find? {p : α → Bool} {q : β → Bool} (h : List.Forall₂ R xs ys)
    (hpq : ∀ x y, R x y → p x = q y) : Option.Rel R (xs.find? p) (ys.find? q) := by
  induction h with
  | nil => exact .none
  | @cons x y xs ys hxy _ ih =>
      rw [List.find?_cons, List.find?_cons, hpq x y hxy]
      cases q y with
      | true => exact .some hxy
      | false => exact ih

theorem forall₂_findSome? {f : α → Option γ} {g : β → Option δ} (h : List.Forall₂ R xs ys)
    (hfg : ∀ x y, R x y → Option.Rel P (f x) (g y)) :
    Option.Rel P (xs.findSome? f) (ys.findSome? g) := by
  induction h with
  | nil => exact .none
  | @cons x y xs ys hxy _ ih =>
      rw [List.findSome?_cons, List.findSome?_cons]
      have hhead := hfg x y hxy
      cases hf : f x with
      | none =>
          cases hg : g y with
          | none => exact ih
          | some b =>
              rw [hf, hg] at hhead
              cases hhead
      | some a =>
          cases hg : g y with
          | none =>
              rw [hf, hg] at hhead
              cases hhead
          | some b => rwa [hf, hg] at hhead

theorem forall₂_flatMap {f : α → List γ} {g : β → List δ} (h : List.Forall₂ R xs ys)
    (hfg : ∀ x ∈ xs, ∀ y, R x y → List.Forall₂ P (f x) (g y)) :
    List.Forall₂ P (xs.flatMap f) (ys.flatMap g) := by
  induction h with
  | nil => exact .nil
  | @cons x y xs ys hxy _ ih =>
      rw [List.flatMap_cons, List.flatMap_cons]
      refine List.rel_append (hfg x List.mem_cons_self y hxy) (ih fun z hz => ?_)
      exact hfg z (List.mem_cons_of_mem x hz)

theorem forall₂_getElem? (h : List.Forall₂ R xs ys) (i : Nat) :
    Option.Rel R xs[i]? ys[i]? := by
  induction h generalizing i with
  | nil => exact .none
  | cons hxy _ ih =>
      cases i with
      | zero => exact .some hxy
      | succ i => exact ih i

theorem forall₂_head? (h : List.Forall₂ R xs ys) : Option.Rel R xs.head? ys.head? := by
  cases h with
  | nil => exact .none
  | cons hxy _ => exact .some hxy

theorem forall₂_getLast? (h : List.Forall₂ R xs ys) : Option.Rel R xs.getLast? ys.getLast? := by
  rw [List.getLast?_eq_head?_reverse, List.getLast?_eq_head?_reverse]
  exact forall₂_head? (List.rel_reverse h)

theorem exists_right_of_mem (h : List.Forall₂ R xs ys) {x : α} (hx : x ∈ xs) :
    ∃ y ∈ ys, R x y := by
  induction h with
  | nil => cases hx
  | cons hxy _ ih =>
      rcases List.mem_cons.mp hx with rfl | hmem
      · exact ⟨_, List.mem_cons_self, hxy⟩
      · obtain ⟨y, hy, hxy⟩ := ih hmem
        exact ⟨y, List.mem_cons_of_mem _ hy, hxy⟩

theorem exists_left_of_mem (h : List.Forall₂ R xs ys) {y : β} (hy : y ∈ ys) :
    ∃ x ∈ xs, R x y :=
  exists_right_of_mem (R := flip R) h.flip hy

theorem exists_split {front back : List α} {x : α} (h : List.Forall₂ R (front ++ x :: back) ys) :
    ∃ front' y back', ys = front' ++ y :: back' ∧ List.Forall₂ R front front' ∧ R x y := by
  induction front generalizing ys with
  | nil =>
      cases h with
      | cons hxy _ => exact ⟨[], _, _, rfl, .nil, hxy⟩
  | cons first front ih =>
      cases h with
      | cons hfirst hrest =>
          obtain ⟨front', y, back', rfl, hfront, hxy⟩ := ih hrest
          exact ⟨_ :: front', y, back', rfl, .cons hfirst hfront, hxy⟩

theorem rel_cases {a : Option α} {b : Option β} (h : Option.Rel R a b) :
    a = none ∧ b = none ∨ ∃ x y, a = some x ∧ b = some y ∧ R x y := by
  cases h with
  | none => exact .inl ⟨rfl, rfl⟩
  | some hxy => exact .inr ⟨_, _, rfl, rfl, hxy⟩

theorem rel_refl {R : α → α → Prop} (hR : ∀ x, R x x) (a : Option α) : Option.Rel R a a := by
  cases a with
  | none => exact .none
  | some x => exact .some (hR x)

theorem rel_eq_iff {a b : Option α} : Option.Rel Eq a b ↔ a = b := by
  constructor
  · intro h
    rcases rel_cases h with ⟨rfl, rfl⟩ | ⟨x, y, rfl, rfl, rfl⟩
    all_goals rfl
  · rintro rfl
    exact rel_refl (fun _ => rfl) a

theorem rel_toList {a : Option γ} {b : Option δ} (h : Option.Rel P a b) :
    List.Forall₂ P a.toList b.toList := by
  cases h with
  | none => exact .nil
  | some hab => exact .cons hab .nil

theorem rel_guard {f : Unit → Option γ} {g : Unit → Option δ} {p : Prop} [Decidable p]
    (h : p → Option.Rel P (f ()) (g ())) : Option.Rel P (guard p >>= f) (guard p >>= g) := by
  by_cases hp : p
  · simpa [hp] using h hp
  · simp only [hp, guard_false]
    exact .none

theorem rel_bind {f : α → Option γ} {g : β → Option δ} {a : Option α} {b : Option β}
    (h : Option.Rel R a b) (hfg : ∀ x y, R x y → Option.Rel P (f x) (g y)) :
    Option.Rel P (a.bind f) (b.bind g) := by
  cases h with
  | none => exact .none
  | some hxy => exact hfg _ _ hxy

end Lists

/-! ### Outlines -/

/-- A comment that stands beside other nodes: it plays no role and has no parts. -/
def Node.isRemark (node : Node) : Bool :=
  node.kind == .comment && node.role.isNone && node.children.isEmpty

/-- The text of a node if it can be read off the node as a whole: if it has no parts, or is a
template without substitutions. -/
def Node.ownText? (text : String) (node : Node) : Option String :=
  let isPlainTemplate := node.kind == .template &&
    !node.children.any fun child => child.kind == .substitution
  if node.children.isEmpty || isPlainTemplate then
    some (Text.slice text node.start.byte node.stop.byte)
  else none

/-- What is left of some nodes, one after another, without comments and places. -/
inductive Outline where
  | none
  | node (kind : Kind) (role : Option Field) (text : Option String) (parts rest : Outline)
  deriving DecidableEq, Repr

mutual

/-- The outline of a node and of what comes after it. -/
def outlineNode (text : String) (node : Node) (rest : Outline) : Outline :=
  match node with
  | ⟨kind, role, start, stop, children⟩ =>
      let self : Node := ⟨kind, role, start, stop, children⟩
      if self.isRemark then rest
      else .node kind role (self.ownText? text) (outline text children) rest

/-- The outline of some nodes of a text. -/
def outline (text : String) (nodes : List Node) : Outline :=
  match nodes with
  | [] => .none
  | node :: rest => outlineNode text node (outline text rest)

end

/-- Nodes of two texts that agree, whatever comments stand beside their parts. -/
structure Node.Agrees (text text' : String) (node node' : Node) : Prop where
  kind : node.kind = node'.kind
  role : node.role = node'.role
  ownText : node.kind ≠ .program → node.ownText? text = node'.ownText? text'
  parts : outline text node.children = outline text' node'.children

theorem outline_cons (text : String) (node : Node) (rest : List Node) :
    outline text (node :: rest) =
      if node.isRemark then outline text rest
      else .node node.kind node.role (node.ownText? text) (outline text node.children)
        (outline text rest) := by
  obtain ⟨kind, role, start, stop, children⟩ := node
  rw [outline, outlineNode]

theorem outline_filter (text : String) (nodes : List Node) :
    outline text (nodes.filter fun node => !node.isRemark) = outline text nodes := by
  induction nodes with
  | nil => rfl
  | cons node rest ih =>
      rw [outline_cons]
      by_cases hremark : node.isRemark = true
      · rw [List.filter_cons_of_neg (by simp [hremark]), if_pos hremark, ih]
      · rw [List.filter_cons_of_pos (by simp [hremark]), if_neg hremark, outline_cons,
          if_neg hremark, ih]

/-- In lists with the same outline the nodes agree one by one. -/
theorem agrees_of_outline {text text' : String} {nodes nodes' : List Node}
    (h : outline text nodes = outline text' nodes') :
    List.Forall₂ (Node.Agrees text text') (nodes.filter fun node => !node.isRemark)
      (nodes'.filter fun node => !node.isRemark) := by
  rw [← outline_filter, ← outline_filter text' nodes'] at h
  have hplain (nodes : List Node) : ∀ node ∈ nodes.filter (fun node => !node.isRemark),
      node.isRemark = false := fun node hnode => by simpa using (List.mem_filter.mp hnode).2
  have hbare := hplain nodes
  have hbare' := hplain nodes'
  generalize nodes.filter (fun node => !node.isRemark) = bare at h hbare
  generalize nodes'.filter (fun node => !node.isRemark) = bare' at h hbare'
  induction bare generalizing bare' with
  | nil =>
      cases bare' with
      | nil => exact .nil
      | cons node' rest' =>
          rw [outline_cons, if_neg (by simp [hbare' node' List.mem_cons_self])] at h
          cases h
  | cons node rest ih =>
      rw [outline_cons, if_neg (by simp [hbare node List.mem_cons_self])] at h
      cases bare' with
      | nil => cases h
      | cons node' rest' =>
          rw [outline_cons, if_neg (by simp [hbare' node' List.mem_cons_self])] at h
          obtain ⟨hkind, hrole, htext, hparts, hrest⟩ := Outline.node.inj h
          refine .cons ⟨hkind, hrole, fun _ => htext, hparts⟩ (ih ?_ _ hrest ?_)
          · exact fun other hother => hbare other (List.mem_cons_of_mem _ hother)
          · exact fun other hother => hbare' other (List.mem_cons_of_mem _ hother)

namespace Cursor

/-- The children that are no comments beside others. -/
def parts (c : Cursor) : List Cursor :=
  c.children.filter fun child => !child.node.isRemark

theorem mem_children_of_mem_parts {c part : Cursor} (h : part ∈ c.parts) : part ∈ c.children :=
  (List.mem_filter.mp h).1

theorem map_node_parts (c : Cursor) :
    c.parts.map Cursor.node = c.node.children.filter fun node => !node.isRemark := by
  rw [parts, children, List.filter_map, List.map_map]
  simp [Function.comp_def]

theorem kind_of_isRemark {c : Cursor} (h : c.node.isRemark = true) : c.kind = .comment := by
  simp only [Node.isRemark, Bool.and_eq_true, beq_iff_eq] at h
  exact h.1.1

theorem role_of_isRemark {c : Cursor} (h : c.node.isRemark = true) : c.node.role = none := by
  simp only [Node.isRemark, Bool.and_eq_true] at h
  simpa using h.1.2

/-- The named children that are no comments beside others. -/
def namedParts (c : Cursor) : List Cursor :=
  c.parts.filter fun child => child.node.isNamed

theorem namedParts_eq (c : Cursor) :
    c.namedParts = c.named.filter fun child => !child.node.isRemark :=
  List.filter_comm _ _ _

section NamedParts

variable {α : Type} {f : Cursor → Option α}

/-- What makes nothing of comments makes of the named children what it makes of the parts. -/
theorem filterMap_named (hcomment : ∀ d : Cursor, d.kind = .comment → f d = none) (c : Cursor) :
    c.named.filterMap f = c.namedParts.filterMap f := by
  rw [namedParts_eq, List.filterMap_filter]
  refine List.filterMap_congr fun d _ => ?_
  by_cases hremark : d.node.isRemark = true
  · rw [if_neg (by simp [hremark]), hcomment d (kind_of_isRemark hremark)]
  · rw [if_pos (by simp [hremark])]

theorem flatMap_named {f : Cursor → List α} (hcomment : ∀ d : Cursor, d.kind = .comment → f d = [])
    (c : Cursor) : c.named.flatMap f = c.namedParts.flatMap f := by
  rw [namedParts_eq]
  induction c.named with
  | nil => rfl
  | cons d rest ih =>
      by_cases hremark : d.node.isRemark = true
      · rw [List.filter_cons_of_neg (by simp [hremark]), List.flatMap_cons,
          hcomment d (kind_of_isRemark hremark), ih, List.nil_append]
      · rw [List.filter_cons_of_pos (by simp [hremark]), List.flatMap_cons, List.flatMap_cons, ih]

theorem find?_named {p : Cursor → Bool} (hcomment : ∀ d : Cursor, d.kind = .comment → p d = false)
    (c : Cursor) : c.named.find? p = c.namedParts.find? p := by
  rw [namedParts_eq, List.find?_filter]
  congr 1
  funext d
  rw [Bool.eq_iff_iff]
  by_cases hremark : d.node.isRemark = true
  · simp [hcomment d (kind_of_isRemark hremark)]
  · simp [hremark]

theorem items_eq (c : Cursor) :
    c.items = c.namedParts.filter fun child => child.kind != .comment := by
  rw [namedParts_eq, items, List.filter_filter]
  refine List.filter_congr fun d _ => ?_
  by_cases hremark : d.node.isRemark = true
  · simp [kind_of_isRemark hremark]
  · simp [hremark]

end NamedParts

/-! ### Traversals -/

/-- An order of all places in trees: a place comes before what is below it, or after it. -/
def Traverses (order : Cursor → List Cursor) (isFirst : Bool) : Prop :=
  ∀ c, order c = (if isFirst then [c] else []) ++ c.children.flatMap order ++
    (if isFirst then [] else [c])

theorem traverses_preOrder : Traverses preOrder true := by
  intro c
  have hnodes (above : List Node) (nodes : List Node) :
      preOrderNodes above nodes = nodes.flatMap fun node => preOrderNode above node := by
    induction nodes with
    | nil => rw [preOrderNodes, List.flatMap_nil]
    | cons node rest ih => rw [preOrderNodes, ih, List.flatMap_cons]
  obtain ⟨⟨kind, role, start, stop, children⟩, above⟩ := c
  rw [preOrder, preOrderNode, hnodes, Cursor.children, List.flatMap_map]
  simp [preOrder]

theorem traverses_postOrder : Traverses postOrder false := by
  intro c
  simp [postOrder_eq c]

theorem children_of_isRemark {c : Cursor} (h : c.node.isRemark = true) : c.children = [] := by
  simp only [Node.isRemark, Bool.and_eq_true, List.isEmpty_iff] at h
  rw [children, h.2, List.map_nil]

/-- What makes nothing of a comment makes nothing of the tree of one. -/
theorem flatMap_children {α : Type} {f : Cursor → List α}
    (hremark : ∀ d : Cursor, d.node.isRemark = true → f d = []) (c : Cursor) :
    c.children.flatMap f = c.parts.flatMap f := by
  rw [parts]
  induction c.children with
  | nil => rfl
  | cons d rest ih =>
      by_cases h : d.node.isRemark = true
      · rw [List.filter_cons_of_neg (by simp [h]), List.flatMap_cons, hremark d h, ih,
          List.nil_append]
      · rw [List.filter_cons_of_pos (by simp [h]), List.flatMap_cons, List.flatMap_cons, ih]

end Cursor

open Cursor

/-! ### Twins -/

/-- Places that come to each other in scripts whose trees have the same outline. -/
inductive Twin (m m' : Module) : Cursor → Cursor → Prop
  | root : Twin m m' m.root m'.root
  | part {c c' d d' : Cursor} : Twin m m' c c' → (d, d') ∈ c.parts.zip c'.parts → Twin m m' d d'

section Twin

variable {m m' : Module} {root c c' d d' : Cursor}

theorem Twin.within (h : Twin m m' c c') : Within m.root c ∧ Within m'.root c' := by
  induction h with
  | root => exact ⟨.refl _, .refl _⟩
  | part _ hmem ih =>
      obtain ⟨hleft, hright⟩ := List.of_mem_zip hmem
      exact ⟨.tail ih.1 (mem_children_of_mem_parts hleft),
        .tail ih.2 (mem_children_of_mem_parts hright)⟩

theorem Twin.symm (h : Twin m m' c c') : Twin m' m c' c := by
  induction h with
  | root => exact .root
  | @part c c' d d' _ hmem ih =>
      refine .part ih ?_
      rw [← List.zip_swap]
      exact List.mem_map.mpr ⟨(d, d'), hmem, rfl⟩

theorem nodup_parts (h : c.node.Tidy) : c.parts.Nodup := by
  have hrow := row_children h
  have hpairs : c.children.Pairwise fun a b => a.node.stop.byte ≤ b.node.start.byte :=
    List.pairwise_map.mp hrow.pairwise
  refine ((hpairs.imp_of_mem fun {a b} ha _ hle => ?_).filter _ : c.parts.Pairwise (· ≠ ·))
  rintro rfl
  have hfull := hrow.lt (List.mem_map_of_mem ha)
  omega

theorem parent_eq_of_mem_children {a b : Cursor} (ha : c ∈ a.children) (hb : c ∈ b.children) :
    a = b := by
  obtain ⟨node, -, rfl⟩ := List.mem_map.mp ha
  obtain ⟨node', -, heq⟩ := List.mem_map.mp hb
  obtain ⟨hnode, habove⟩ := List.cons.inj (congrArg Cursor.above heq)
  cases a
  cases b
  simp_all

theorem ne_root_of_mem_children (h : Within root c) (hd : d ∈ c.children) : d ≠ root := by
  rintro rfl
  have hlength := h.length_le
  obtain ⟨node, -, rfl⟩ := List.mem_map.mp hd
  exact absurd hlength (Nat.not_succ_le_self _)

/-- Of two places around a third one is inside the other. -/
theorem within_or_within {a b : Cursor} (ha : Within a c) (hb : Within b c) :
    Within a b ∨ Within b a := by
  have hparent : Relator.RightUnique
      (Function.swap fun parent child : Cursor => child ∈ parent.children) :=
    fun _ _ _ hleft hright => parent_eq_of_mem_children hleft hright
  have htotal := Relation.ReflTransGen.total_of_right_unique hparent
    (Relation.reflTransGen_swap.mpr ha) (Relation.reflTransGen_swap.mpr hb)
  exact htotal.symm.imp Relation.reflTransGen_swap.mp Relation.reflTransGen_swap.mp

theorem snd_eq_of_mem_zip {α β : Type} {xs : List α} {ys : List β} (h : xs.Nodup) {x : α}
    {y y' : β} (hy : (x, y) ∈ xs.zip ys) (hy' : (x, y') ∈ xs.zip ys) : y = y' := by
  induction xs generalizing ys with
  | nil => cases hy
  | cons first xs ih =>
      cases ys with
      | nil => cases hy
      | cons second ys =>
          obtain ⟨hfirst, hrest⟩ := List.nodup_cons.mp h
          rw [List.zip_cons_cons] at hy hy'
          rcases List.mem_cons.mp hy with heq | hmem
          · obtain ⟨rfl, rfl⟩ := Prod.mk.inj heq
            rcases List.mem_cons.mp hy' with heq' | hmem'
            · exact (Prod.mk.inj heq').2.symm
            · exact absurd (List.of_mem_zip hmem').1 hfirst
          · rcases List.mem_cons.mp hy' with heq' | hmem'
            · obtain ⟨rfl, rfl⟩ := Prod.mk.inj heq'
              exact absurd (List.of_mem_zip hmem).1 hfirst
            · exact ih hrest hmem hmem'

/-- A place has one twin. -/
theorem Twin.right_unique (hroot : m.root.node.Tidy) (h : Twin m m' c d)
    (h' : Twin m m' c d') : d = d' := by
  induction h generalizing d' with
  | root =>
      cases h' with
      | root => rfl
      | part hparent hmem =>
          have hchild := mem_children_of_mem_parts (List.of_mem_zip hmem).1
          exact absurd rfl (ne_root_of_mem_children hparent.within.1 hchild)
  | part hparent hmem ih =>
      have hchild := mem_children_of_mem_parts (List.of_mem_zip hmem).1
      cases h' with
      | root => exact absurd rfl (ne_root_of_mem_children hparent.within.1 hchild)
      | part hparent' hmem' =>
          have hchild' := mem_children_of_mem_parts (List.of_mem_zip hmem').1
          obtain rfl := parent_eq_of_mem_children hchild hchild'
          obtain rfl := ih hparent'
          exact snd_eq_of_mem_zip (nodup_parts (hparent.within.1.tidy hroot)) hmem hmem'

/-- Of two places one is inside the other just if their twins are. -/
theorem Twin.within_of (hroot : m.root.node.Tidy) {s s' : Cursor} (hs : Twin m m' s s')
    (hc : Twin m m' c c') (h : Within s c) : Within s' c' := by
  induction hc with
  | root =>
      have hup := hs.within.1
      have hsame : s = m.root := by
        rcases Relation.ReflTransGen.cases_tail h with heq | ⟨parent, hparent, hchild⟩
        · exact heq.symm
        · exact absurd rfl (ne_root_of_mem_children (hup.trans hparent) hchild)
      subst hsame
      rw [Twin.right_unique hroot hs .root]
      exact .refl _
  | part hparent hmem ih =>
      rcases Relation.ReflTransGen.cases_tail h with heq | ⟨parent, hwithin, hchild⟩
      · subst heq
        rw [Twin.right_unique hroot hs (.part hparent hmem)]
        exact .refl _
      · obtain rfl := parent_eq_of_mem_children hchild
          (mem_children_of_mem_parts (List.of_mem_zip hmem).1)
        exact (ih hwithin).tail (mem_children_of_mem_parts (List.of_mem_zip hmem).2)

end Twin

namespace Module

/-- Scripts of one path whose trees have the same outline. -/
structure SameOutline (m m' : Module) : Prop where
  isRead : m.IsRead
  isRead' : m'.IsRead
  path : m.path = m'.path
  same : outline m.text m.root.node.children = outline m'.text m'.root.node.children

theorem IsRead.kind_root {m : Module} (h : m.IsRead) : m.root.node.kind = .program := by
  obtain ⟨path, text, rfl⟩ := h
  change (parse (Dialect.ofPath path) text).kind = .program
  unfold parse
  dsimp only
  split
  · rfl
  · rfl

theorem IsRead.role_root {m : Module} (h : m.IsRead) : m.root.node.role = none := by
  obtain ⟨path, text, rfl⟩ := h
  change (parse (Dialect.ofPath path) text).role = none
  unfold parse
  dsimp only
  split
  · rfl
  · rfl

namespace SameOutline

variable {m m' : Module} {c c' : Cursor}

theorem symm (h : SameOutline m m') : SameOutline m' m :=
  ⟨h.isRead', h.isRead, h.path.symm, h.same.symm⟩

/-- The parts of places that agree do so one by one. -/
theorem parts_agree (h : outline m.text c.node.children = outline m'.text c'.node.children) :
    List.Forall₂ (fun d d' : Cursor => d.node.Agrees m.text m'.text d'.node) c.parts c'.parts := by
  have hnodes := agrees_of_outline h
  rw [← map_node_parts, ← map_node_parts, List.forall₂_map_left_iff,
    List.forall₂_map_right_iff] at hnodes
  exact hnodes

variable (h : SameOutline m m')

include h

theorem agrees (hc : Twin m m' c c') : c.node.Agrees m.text m'.text c'.node := by
  induction hc with
  | root =>
      have hkind := h.isRead.kind_root
      refine ⟨hkind.trans h.isRead'.kind_root.symm,
        h.isRead.role_root.trans h.isRead'.role_root.symm, fun hne => absurd hkind hne, h.same⟩
  | part _ hmem ih => exact (List.forall₂_iff_zip.mp (parts_agree ih.parts)).2 hmem

theorem kind (hc : Twin m m' c c') : c.kind = c'.kind :=
  (h.agrees hc).kind

theorem role (hc : Twin m m' c c') : c.node.role = c'.node.role :=
  (h.agrees hc).role

theorem isClass (hc : Twin m m' c c') : c.node.isClass = c'.node.isClass := by
  unfold Node.isClass
  rw [(h.agrees hc).kind]

theorem isFunction (hc : Twin m m' c c') : c.node.isFunction = c'.node.isFunction := by
  unfold Node.isFunction
  rw [(h.agrees hc).kind]

theorem isScope (hc : Twin m m' c c') : Cursor.isScope c.node = Cursor.isScope c'.node := by
  rw [Cursor.isScope, Cursor.isScope, (h.agrees hc).kind]

/-- The parts of twins are twins one by one. -/
theorem parts (hc : Twin m m' c c') :
    List.Forall₂ (Twin m m') c.parts c'.parts :=
  List.forall₂_iff_zip.mpr ⟨(parts_agree (h.agrees hc).parts).length_eq, fun hmem => .part hc hmem⟩

theorem child? (hc : Twin m m' c c') (role : Field) :
    Option.Rel (Twin m m') (c.child? role) (c'.child? role) := by
  have hparts (c : Cursor) :
      c.child? role = c.parts.find? fun child => child.node.role == some role := by
    rw [Cursor.child?, Cursor.parts, List.find?_filter]
    congr 1
    funext child
    rw [Bool.eq_iff_iff]
    by_cases hremark : child.node.isRemark = true
    · simp [role_of_isRemark hremark]
    · simp [hremark]
  rw [hparts, hparts]
  refine forall₂_find? (h.parts hc) fun d d' hd => ?_
  rw [h.role hd]

theorem namedParts (hc : Twin m m' c c') :
    List.Forall₂ (Twin m m') c.namedParts c'.namedParts := by
  refine List.rel_filter (fun d d' hd => ?_) (h.parts hc)
  simp only [Node.isNamed, (h.agrees hd).kind]

theorem items (hc : Twin m m' c c') : List.Forall₂ (Twin m m') c.items c'.items := by
  rw [items_eq, items_eq]
  refine List.rel_filter (fun d d' hd => ?_) (h.namedParts hc)
  simp only [h.kind hd]

/-- Every place that is no comment has a twin. -/
theorem exists_twin (hc : Within m.root c) (hplain : c.node.isRemark = false) :
    ∃ c', Twin m m' c c' := by
  induction hc with
  | refl => exact ⟨m'.root, .root⟩
  | @tail c d _ hd ih =>
      have hbelow : c.node.isRemark = false := by
        by_contra hremark
        rw [children_of_isRemark (by simpa using hremark)] at hd
        cases hd
      obtain ⟨c', hc'⟩ := ih hbelow
      have hpart : d ∈ c.parts := List.mem_filter.mpr ⟨hd, by simp [hplain]⟩
      obtain ⟨d', -, htwin⟩ := exists_right_of_mem (h.parts hc') hpart
      exact ⟨d', htwin⟩

/-! #### What is around a place -/

theorem parent? (hc : Twin m m' c c') : Option.Rel (Twin m m') c.parent? c'.parent? := by
  cases hc with
  | root =>
      rw [Cursor.parent?, Cursor.parent?, h.isRead.whole.above, h.isRead'.whole.above]
      exact .none
  | part hparent hmem =>
      obtain ⟨hleft, hright⟩ := List.of_mem_zip hmem
      obtain ⟨node, -, rfl⟩ := List.mem_map.mp (mem_children_of_mem_parts hleft)
      obtain ⟨node', -, rfl⟩ := List.mem_map.mp (mem_children_of_mem_parts hright)
      exact .some hparent

theorem nearest? {test : Node → Bool} (htest : ∀ node node', node.kind = node'.kind →
    test node = test node') (hc : Twin m m' c c') :
    Option.Rel (Twin m m') (Cursor.nearest? test c.above) (Cursor.nearest? test c'.above) := by
  induction hc with
  | root =>
      rw [h.isRead.whole.above, h.isRead'.whole.above]
      exact .none
  | @part c c' d d' hparent hmem ih =>
      obtain ⟨hleft, hright⟩ := List.of_mem_zip hmem
      obtain ⟨node, -, rfl⟩ := List.mem_map.mp (mem_children_of_mem_parts hleft)
      obtain ⟨node', -, rfl⟩ := List.mem_map.mp (mem_children_of_mem_parts hright)
      rw [Cursor.nearest?, Cursor.nearest?, htest _ _ (h.agrees hparent).kind]
      split
      · exact .some hparent
      · exact ih

theorem scope? (hc : Twin m m' c c') : Option.Rel (Twin m m') c.scope? c'.scope? := by
  refine h.nearest? (fun node node' hkind => ?_) hc
  rw [Cursor.isScope, Cursor.isScope, hkind]

theorem enclosingClass? (hc : Twin m m' c c') :
    Option.Rel (Twin m m') c.enclosingClass? c'.enclosingClass? := by
  refine h.nearest? (fun node node' hkind => ?_) hc
  rw [Node.isClass, Node.isClass, hkind]

/-! #### All places -/

section Traversal

variable {α β : Type} {P : α → β → Prop} {order : Cursor → List Cursor} {isFirst : Bool}
  (horder : Traverses order isFirst)

include horder

/-- What makes nothing of comments makes of all places in two trees with the same outline what it
makes of twins, one after another. -/
theorem flatMap_order {f : Cursor → List α} {g : Cursor → List β}
    (hfg : ∀ d d', Twin m m' d d' → List.Forall₂ P (f d) (g d'))
    (hf : ∀ d : Cursor, d.node.isRemark = true → f d = [])
    (hg : ∀ d : Cursor, d.node.isRemark = true → g d = []) (hc : Twin m m' c c') :
    List.Forall₂ P ((order c).flatMap f) ((order c').flatMap g) := by
  induction hsize : sizeOf c.node using Nat.strong_induction_on generalizing c c' with
  | _ size ih =>
      have hnothing {γ : Type} {k : Cursor → List γ}
          (hk : ∀ d : Cursor, d.node.isRemark = true → k d = []) (d : Cursor)
          (hd : d.node.isRemark = true) : (order d).flatMap k = [] := by
        rw [horder, children_of_isRemark hd]
        cases isFirst with
        | true => simp [hk d hd]
        | false => simp [hk d hd]
      have hbelow : List.Forall₂ P (c.parts.flatMap fun d => (order d).flatMap f)
          (c'.parts.flatMap fun d => (order d).flatMap g) := by
        refine forall₂_flatMap (h.parts hc) fun d hd d' htwin => ?_
        have hless := sizeOf_lt_of_mem_children (mem_children_of_mem_parts hd)
        exact ih _ (hsize ▸ hless) htwin rfl
      rw [horder, horder c', List.flatMap_append, List.flatMap_append, List.flatMap_append,
        List.flatMap_append, List.flatMap_assoc, List.flatMap_assoc,
        flatMap_children (hnothing hf), flatMap_children (hnothing hg)]
      have hself : List.Forall₂ P ([c].flatMap f) ([c'].flatMap g) := by
        rw [List.flatMap_singleton, List.flatMap_singleton]
        exact hfg c c' hc
      cases isFirst with
      | true => exact List.rel_append (List.rel_append hself hbelow) .nil
      | false => exact List.rel_append (List.rel_append .nil hbelow) hself

theorem filterMap_order {f : Cursor → Option α} {g : Cursor → Option β}
    (hfg : ∀ d d', Twin m m' d d' → Option.Rel P (f d) (g d'))
    (hf : ∀ d : Cursor, d.node.isRemark = true → f d = none)
    (hg : ∀ d : Cursor, d.node.isRemark = true → g d = none) (hc : Twin m m' c c') :
    List.Forall₂ P ((order c).filterMap f) ((order c').filterMap g) := by
  rw [List.filterMap_eq_flatMap_toList, List.filterMap_eq_flatMap_toList]
  refine h.flatMap_order horder (fun d d' hd => ?_) (fun d hd => ?_) (fun d hd => ?_) hc
  · exact rel_toList (hfg d d' hd)
  · rw [hf d hd, Option.toList_none]
  · rw [hg d hd, Option.toList_none]

end Traversal

end SameOutline
end Module
end Script
end NgIndex
