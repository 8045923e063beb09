import Mathlib.Data.List.Forall2
import Mathlib.Data.List.Nodup
import NgIndex.Markup.Reference
import NgIndex.Proofs.Markup.Reading

/-!
# References in the order of the document

Markup is searched with a stack of nodes that are still to be looked at.  Taking a node off the stack
and putting its children in its place goes through the tree from the front, each node before those
below it.

A tag is looked into when it is taken off, before its own parts are.  This does no harm to the order,
since no opening tag stands below another: what is found in a tag lies between what was found before
it and all that comes after it.  So the references come with growing positions, and there is one for
each name in an opening tag that is custom.
-/

namespace NgIndex
namespace Markup

open Node

variable {path : Path} {tree node name part : Node} {reference : HtmlReference}

/-! ### The order in which nodes are taken off the stack -/

namespace Node

mutual

/-- All nodes of a tree, parents before their children and from left to right. -/
def preOrder : Node → List Node
  | ⟨kind, text, start, stop, children⟩ =>
      ⟨kind, text, start, stop, children⟩ :: preOrderAll children

/-- All nodes of several trees, one tree after another. -/
def preOrderAll : List Node → List Node
  | [] => []
  | node :: rest => node.preOrder ++ preOrderAll rest

end

theorem preOrderAll_eq_flatMap (nodes : List Node) : preOrderAll nodes = nodes.flatMap preOrder := by
  induction nodes with
  | nil => rw [preOrderAll, List.flatMap_nil]
  | cons node rest ih => rw [preOrderAll, ih, List.flatMap_cons]

theorem preOrder_eq (node : Node) : node.preOrder = node :: node.children.flatMap preOrder := by
  cases node
  rw [preOrder, preOrderAll_eq_flatMap]

end Node

/-- The uses that are found where a node is taken off the stack. -/
def usesIn (path : Path) (node : Node) : List HtmlReference :=
  if node.isOpening then tagReferences path node else []

/-- The uses in a tree, node by node. -/
def usesOf (path : Path) (tree : Node) : List HtmlReference :=
  tree.preOrder.flatMap (usesIn path)

theorem usesOf_eq (path : Path) (node : Node) :
    usesOf path node = usesIn path node ++ node.children.flatMap (usesOf path) := by
  rw [usesOf, preOrder_eq, List.flatMap_cons, List.flatMap_assoc]
  rfl

/-- The trees on the stack are searched from its top, each to its end before the next. -/
theorem collect_eq (path : Path) (stack : List Node) (found : List HtmlReference) :
    collect path stack found = found ++ stack.flatMap (usesOf path) := by
  fun_induction collect path stack found with
  | case1 found => rw [List.flatMap_nil, List.append_nil]
  | case2 found node rest found' ih =>
      have hfound : found' = found ++ usesIn path node := by
        unfold usesIn
        split <;> simp [found', *]
      rw [ih, hfound, pushChildren_eq, List.flatMap_append, List.flatMap_cons, usesOf_eq path node,
        List.append_assoc, List.append_assoc]

theorem treeReferences_eq (path : Path) (tree : Node) :
    treeReferences path tree = usesOf path tree := by
  rw [treeReferences, collect_eq, List.nil_append, List.flatMap_singleton]

/-! ### Positions -/

/-- References with growing positions from one place up to another. -/
def Rising (low high : ℕ ×ₗ ℕ) (references : List HtmlReference) : Prop :=
  (∀ reference ∈ references,
    low ≤ reference.span.startPoint ∧ reference.span.startPoint < high) ∧
    references.Pairwise fun a b => a.span.startPoint < b.span.startPoint

theorem rising_nil (low high : ℕ ×ₗ ℕ) : Rising low high [] :=
  ⟨fun _ h => absurd h List.not_mem_nil, .nil⟩

theorem Rising.mono {low high low' high' : ℕ ×ₗ ℕ} {references : List HtmlReference}
    (h : Rising low high references) (hlow : low' ≤ low) (hhigh : high ≤ high') :
    Rising low' high' references :=
  ⟨fun reference hmem => ⟨hlow.trans (h.1 reference hmem).1, (h.1 reference hmem).2.trans_le hhigh⟩,
    h.2⟩

theorem Rising.append {low middle high : ℕ ×ₗ ℕ} {references more : List HtmlReference}
    (h : Rising low middle references) (hmore : Rising middle high more) (hlow : low ≤ middle)
    (hhigh : middle ≤ high) : Rising low high (references ++ more) := by
  refine ⟨fun reference hmem => ?_, List.pairwise_append.mpr ⟨h.2, hmore.2, ?_⟩⟩
  · rcases List.mem_append.mp hmem with hmem | hmem
    · exact (h.mono le_rfl hhigh).1 reference hmem
    · exact (hmore.mono hlow le_rfl).1 reference hmem
  · intro a ha b hb
    exact (h.1 a ha).2.trans_le (hmore.1 b hb).1

/-- What rises inside each node of a row rises along the row. -/
theorem Node.Row.rising {low high : ℕ ×ₗ ℕ} {nodes : List Node} (h : Row low nodes high)
    {f : Node → List HtmlReference}
    (hf : ∀ node ∈ nodes, Rising node.start.point node.stop.point (f node)) :
    Rising low high (nodes.flatMap f) := by
  induction nodes generalizing low with
  | nil => exact rising_nil low high
  | cons node rest ih =>
      obtain ⟨hlow, hnode, hrest⟩ := h
      rw [List.flatMap_cons]
      exact ((hf node List.mem_cons_self).mono hlow le_rfl).append
        (ih hrest fun other hother => hf other (List.mem_cons_of_mem _ hother))
        (hlow.trans hnode) hrest.low_le_high

/-! ### What is found in a tag -/

theorem elementReference?_eq_some_iff :
    elementReference? path name = some reference ↔
      isCustomElement (plainName name.text) = true ∧
        reference = { name := plainName name.text, kind := .element, path, span := name.span } := by
  unfold elementReference?
  dsimp only
  split
  · next hcustom => rw [Option.some_inj, and_iff_right hcustom, eq_comm]
  · next hcustom => simp [hcustom]

theorem attributeReference?_eq_some_iff :
    attributeReference? path name = some reference ↔
      isCustomAttribute (plainName name.text) = true ∧
        reference =
          { name := plainName name.text, kind := .attribute, path, span := name.span } := by
  unfold attributeReference?
  dsimp only
  split
  · next hcustom => rw [Option.some_inj, and_iff_right hcustom, eq_comm]
  · next hcustom => simp [hcustom]

theorem partReference?_eq_some_iff :
    partReference? path part = some reference ↔
      part.kind = .tagName ∧ elementReference? path part = some reference ∨
        part.kind = .attribute ∧ ∃ name, part.children[0]? = some name ∧
          name.kind = .attributeName ∧ attributeReference? path name = some reference := by
  unfold partReference?
  split
  · next hkind => simp [hkind]
  · next hkind =>
      simp only [hkind, Option.bind_eq_some_iff, Option.filter_eq_some_iff, beq_iff_eq,
        List.head?_eq_getElem?, and_assoc, true_and, reduceCtorEq, false_and, false_or]
  · next hname hattribute =>
      have hneither : part.kind ≠ .tagName ∧ part.kind ≠ .attribute := ⟨hname, hattribute⟩
      simp [hneither]

/-- The span of a use is that of a name in the part, and there is something of the name there. -/
theorem rising_partReference? (hmarkup : part.IsMarkup) (horder : part.InOrder) :
    Rising part.start.point part.stop.point (partReference? path part).toList := by
  cases hfound : partReference? path part with
  | none => exact rising_nil _ _
  | some reference =>
      suffices part.start.point ≤ reference.span.startPoint ∧
          reference.span.startPoint < part.stop.point by
        refine ⟨fun other hother => ?_, List.pairwise_singleton _ _⟩
        rwa [List.mem_singleton.mp hother]
      obtain ⟨hkind, huse⟩ | ⟨-, name, hname, hkind, huse⟩ := partReference?_eq_some_iff.mp hfound
      · obtain ⟨-, rfl⟩ := elementReference?_eq_some_iff.mp huse
        exact ⟨le_rfl, hmarkup.self.named (by simp [isName, hkind])⟩
      · obtain ⟨-, rfl⟩ := attributeReference?_eq_some_iff.mp huse
        obtain ⟨rest, hchildren⟩ : ∃ rest, part.children = name :: rest := by
          cases hparts : part.children with
          | nil => simp [hparts] at hname
          | cons first rest => simpa [hparts] using hname
        have hrow := horder.self
        rw [hchildren] at hrow
        have hmem : name ∈ part.children := hchildren ▸ List.mem_cons_self
        have hlt := ((isMarkup_iff.mp hmarkup).2 name hmem).self.named (by simp [isName, hkind])
        exact ⟨hrow.1, hlt.trans_le hrow.2.2.low_le_high⟩

theorem usesOf_eq_nil
    (h : Tree.Everywhere Node.children (fun inner => inner.isOpening = false) node) :
    usesOf path node = [] := by
  induction node using Tree.induction_on_children sizeOf_lt_of_mem_children with
  | step node ih =>
      obtain ⟨hopening, hchildren⟩ := (Tree.everywhere_iff _).mp h
      rw [usesOf_eq, usesIn, hopening, List.flatMap_eq_nil_iff.mpr fun child hchild =>
        ih child hchild (hchildren child hchild)]
      rfl

/-- The uses in a tree come in the order of the text. -/
theorem rising_usesOf (path : Path) (hmarkup : node.IsMarkup) (horder : node.InOrder) :
    Rising node.start.point node.stop.point (usesOf path node) := by
  induction node using Tree.induction_on_children sizeOf_lt_of_mem_children with
  | step node ih =>
      obtain ⟨hregular, hmarkups⟩ := isMarkup_iff.mp hmarkup
      obtain ⟨hrow, horders⟩ := inOrder_iff.mp horder
      rw [usesOf_eq, usesIn]
      split
      -- Of an opening tag only the tag itself counts: there is no use below its parts.
      · next hopening =>
          rw [List.flatMap_eq_nil_iff.mpr fun child hchild =>
              usesOf_eq_nil (hregular.single hopening child hchild), List.append_nil,
            tagReferences, List.filterMap_eq_flatMap_toList]
          exact hrow.rising fun child hchild =>
            rising_partReference? (hmarkups child hchild) (horders child hchild)
      · exact hrow.rising fun child hchild =>
          ih child hchild (hmarkups child hchild) (horders child hchild)

/-! ### One reference for each custom name -/

/-- The use at an address in a tree.  There stands the name of an opening tag, or the name that an
attribute of an opening tag starts with, and it is custom. -/
inductive UsedAt (path : Path) (tree : Node) : List Nat → HtmlReference → Prop where
  | tagName {address : List Nat} {index : Nat} {tag name : Node} :
      tree.at? address = some tag → tag.isOpening = true →
      tag.children[index]? = some name → name.kind = .tagName →
      isCustomElement (plainName name.text) = true →
      UsedAt path tree (address ++ [index])
        { name := plainName name.text, kind := .element, path, span := name.span }
  | attributeName {address : List Nat} {index : Nat} {tag part name : Node} :
      tree.at? address = some tag → tag.isOpening = true →
      tag.children[index]? = some part → part.kind = .attribute →
      part.children[0]? = some name → name.kind = .attributeName →
      isCustomAttribute (plainName name.text) = true →
      UsedAt path tree (address ++ [index, 0])
        { name := plainName name.text, kind := .attribute, path, span := name.span }

/-- The address of the name in a part of a tag. -/
def nameIn (part : Node) : List Nat :=
  if part.kind = .tagName then [] else [0]

theorem usedAt_iff {address : List Nat} :
    UsedAt path tree address reference ↔
      ∃ place index tag part, tree.at? place = some tag ∧ tag.isOpening = true ∧
        tag.children[index]? = some part ∧ partReference? path part = some reference ∧
          address = place ++ index :: nameIn part := by
  constructor
  · intro h
    cases h with
    | @tagName place index tag name htag hopening hname hkind hcustom =>
        refine ⟨place, index, tag, name, htag, hopening, hname, ?_, by simp [nameIn, hkind]⟩
        exact partReference?_eq_some_iff.mpr
          (.inl ⟨hkind, elementReference?_eq_some_iff.mpr ⟨hcustom, rfl⟩⟩)
    | @attributeName place index tag part name htag hopening hattribute hkind hname hnamed
        hcustom =>
        refine ⟨place, index, tag, part, htag, hopening, hattribute, ?_,
          by simp [nameIn, hkind]⟩
        exact partReference?_eq_some_iff.mpr
          (.inr ⟨hkind, name, hname, hnamed, attributeReference?_eq_some_iff.mpr ⟨hcustom, rfl⟩⟩)
  · rintro ⟨place, index, tag, part, htag, hopening, hpart, huse, rfl⟩
    obtain ⟨hkind, huse⟩ | ⟨hkind, name, hname, hnamed, huse⟩ :=
      partReference?_eq_some_iff.mp huse
    · obtain ⟨hcustom, rfl⟩ := elementReference?_eq_some_iff.mp huse
      rw [nameIn, if_pos hkind]
      exact .tagName htag hopening hpart hkind hcustom
    · obtain ⟨hcustom, rfl⟩ := attributeReference?_eq_some_iff.mp huse
      rw [nameIn, if_neg (by simp [hkind])]
      exact .attributeName htag hopening hpart hkind hname hnamed hcustom

/-- A use at an address is the use of the name there. -/
theorem UsedAt.exists_name {address : List Nat} (h : UsedAt path tree address reference) :
    ∃ name, tree.at? address = some name ∧ reference.span = name.span := by
  cases h with
  | @tagName _ _ _ name htag _ hname =>
      refine ⟨name, ?_, rfl⟩
      simp [Node.at?, Tree.nodeAt?_append, Tree.nodeAt?, htag, hname]
  | @attributeName _ _ _ _ name htag _ hattribute _ hname =>
      refine ⟨name, ?_, rfl⟩
      simp [Node.at?, Tree.nodeAt?_append, Tree.nodeAt?, htag, hattribute, hname]

section Listing

variable {κ σ α β : Type} {R : α → β → Prop}

/-- Results that are listed by the places they come from, without leaving out a place where there
should be one. -/
def Listed (R : α → β → Prop) (needed : α → Prop) (results : List β) : Prop :=
  ∃ places, List.Forall₂ R places results ∧ ∀ place, needed place → place ∈ places

/-- Items are gone through by their keys, each with results of its own. -/
theorem listed_flatMap {keys : List κ} {item? : κ → Option σ} {items : List σ}
    (hitems : items.map some = keys.map item?) {needed : κ → α → Prop} {results : σ → List β}
    (h : ∀ key item, item? key = some item → Listed R (needed key) (results item)) :
    Listed R (fun place => ∃ key ∈ keys, needed key place) (items.flatMap results) := by
  induction keys generalizing items with
  | nil =>
      rw [List.map_nil, List.map_eq_nil_iff] at hitems
      rw [hitems]
      exact ⟨[], .nil, fun _ ⟨_, hkey, _⟩ => absurd hkey List.not_mem_nil⟩
  | cons key rest ih =>
      obtain ⟨item, others, rfl, hitem, hothers⟩ := List.map_eq_cons_iff.mp hitems
      obtain ⟨places, hplaces, hneeded⟩ := h key item hitem.symm
      obtain ⟨more, hmore, hrest⟩ := ih hothers
      refine ⟨places ++ more, List.rel_append hplaces hmore, ?_⟩
      rintro place ⟨owner, howner, hplace⟩
      rcases List.mem_cons.mp howner with rfl | howner
      · exact List.mem_append_left _ (hneeded place hplace)
      · exact List.mem_append_right _ (hrest place ⟨owner, howner, hplace⟩)

theorem Listed.mono {needed more : α → Prop} {results : List β} (h : Listed R more results)
    (hneeded : ∀ place, needed place → more place) : Listed R needed results :=
  h.imp fun _ ⟨hplaces, hmore⟩ => ⟨hplaces, fun place hplace => hmore place (hneeded place hplace)⟩

end Listing

theorem listed_tagReferences {place : List Nat} {tag : Node} (htag : tree.at? place = some tag)
    (hopening : tag.isOpening = true) :
    Listed (UsedAt path tree)
      (fun address => ∃ index part reference, tag.children[index]? = some part ∧
        partReference? path part = some reference ∧ address = place ++ index :: nameIn part)
      (tagReferences path tag) := by
  have hparts : tag.children.map some =
      (List.range tag.children.length).map fun index => tag.children[index]? := by
    refine List.ext_getElem (by simp) fun index _ _ => ?_
    simp
  have hpart (index : Nat) (part : Node) (hpart : tag.children[index]? = some part) :
      Listed (UsedAt path tree)
        (fun address => ∃ part reference, tag.children[index]? = some part ∧
          partReference? path part = some reference ∧ address = place ++ index :: nameIn part)
        (partReference? path part).toList := by
    cases hfound : partReference? path part with
    | none =>
        refine ⟨[], .nil, ?_⟩
        rintro _ ⟨other, reference, hother, hreference, -⟩
        cases hpart.symm.trans hother
        cases hfound.symm.trans hreference
    | some reference =>
        refine ⟨[place ++ index :: nameIn part], .cons ?_ .nil, ?_⟩
        · exact usedAt_iff.mpr ⟨place, index, tag, part, htag, hopening, hpart, hfound, rfl⟩
        · rintro _ ⟨other, _, hother, -, rfl⟩
          cases hpart.symm.trans hother
          exact List.mem_singleton_self _
  rw [tagReferences, List.filterMap_eq_flatMap_toList]
  refine (listed_flatMap hparts hpart).mono ?_
  rintro address ⟨index, part, reference, hpart, hreference, haddress⟩
  exact ⟨index, List.mem_range.mpr (List.getElem?_eq_some_iff.mp hpart).1, part, reference, hpart,
    hreference, haddress⟩

/-- The uses in a tree are listed by their addresses, and none is left out. -/
theorem listed_usesOf (path : Path) (tree : Node) :
    Listed (UsedAt path tree) (fun address => ∃ reference, UsedAt path tree address reference)
      (usesOf path tree) := by
  obtain ⟨places, hplaces⟩ := Tree.exists_lists_of_above sizeOf_lt_of_mem_children preOrder_eq tree
  have hnode (place : List Nat) (node : Node) (hnode : tree.at? place = some node) :
      Listed (UsedAt path tree)
        (fun address => ∃ index tag part reference, tree.at? place = some tag ∧
          tag.isOpening = true ∧ tag.children[index]? = some part ∧
          partReference? path part = some reference ∧ address = place ++ index :: nameIn part)
        (usesIn path node) := by
    rw [usesIn]
    split
    · next hopening =>
        refine (listed_tagReferences hnode hopening).mono ?_
        rintro address ⟨index, tag, part, reference, htag, -, hpart⟩
        cases hnode.symm.trans htag
        exact ⟨index, part, reference, hpart⟩
    · next hopening =>
        refine ⟨[], .nil, ?_⟩
        rintro _ ⟨_, tag, _, _, htag, htagOpening, -⟩
        cases hnode.symm.trans htag
        exact absurd htagOpening hopening
  refine (listed_flatMap hplaces.found hnode).mono ?_
  rintro address ⟨reference, huse⟩
  obtain ⟨place, index, tag, part, htag, hrest⟩ := usedAt_iff.mp huse
  exact ⟨place, (hplaces.complete place).mpr (by simp [htag]), index, tag, part, reference, htag,
    hrest⟩

/-- References with growing positions stand at different addresses. -/
theorem nodup_of_pairwise {addresses : List (List Nat)} {references : List HtmlReference}
    (h : List.Forall₂ (UsedAt path tree) addresses references)
    (hrising : references.Pairwise fun a b => a.span.startPoint < b.span.startPoint) :
    addresses.Nodup := by
  -- An address gives the position of its name, so one that came twice would repeat a position.
  let start? (address : List Nat) : Option (ℕ ×ₗ ℕ) :=
    (tree.at? address).map fun name => name.span.startPoint
  have hstarts : addresses.map start? =
      references.map fun reference => some reference.span.startPoint := by
    clear hrising
    induction h with
    | nil => rfl
    | cons huse _ ih =>
        obtain ⟨name, hname, hspan⟩ := huse.exists_name
        rw [List.map_cons, List.map_cons, ih, hspan]
        simp only [start?, hname, Option.map_some]
  refine List.Nodup.of_map start? ?_
  rw [hstarts]
  exact List.pairwise_map.mpr (hrising.imp fun hlt hsame => hlt.ne (Option.some.inj hsame))

/-- Whatever the text, the uses found in it come in its order. -/
theorem pairwise_references (path : Path) (text : String) :
    (references path text).Pairwise fun a b => a.span.startPoint < b.span.startPoint := by
  obtain ⟨horder, hmarkup⟩ := tree_inOrder_and_isMarkup text
  rw [references, treeReferences_eq]
  exact (rising_usesOf path hmarkup horder).2

/-- References come in the order of the document, each once.  In a tree that is in order they have
strictly growing positions, and they are the custom names of its opening tags: each comes from an
address of its own at which there is one, and no such address is left out. -/
theorem references_in_document_order (path : Path) (tree : Node) (hmarkup : tree.IsMarkup)
    (horder : tree.InOrder) :
    ((treeReferences path tree).Pairwise fun a b => a.span.startPoint < b.span.startPoint) ∧
      ∃ addresses : List (List Nat), addresses.Nodup ∧
        List.Forall₂ (UsedAt path tree) addresses (treeReferences path tree) ∧
        ∀ address reference, UsedAt path tree address reference → address ∈ addresses := by
  rw [treeReferences_eq]
  have hrising := (rising_usesOf path hmarkup horder).2
  obtain ⟨addresses, hlisted, hcomplete⟩ := listed_usesOf path tree
  exact ⟨hrising, addresses, nodup_of_pairwise hlisted hrising, hlisted,
    fun address reference huse => hcomplete address ⟨reference, huse⟩⟩

/-- Tags inside each other, with a custom attribute between two custom elements. -/
def nestedTags : String :=
  "<my-app><b x-tip id='a'><data-hint/></b></my-app>"

theorem references_in_nested_tags :
    (Markup.tree nestedTags).IsMarkup ∧ (Markup.tree nestedTags).InOrder ∧
      (references ⟨"/page.html"⟩ nestedTags).map
          (fun reference => (reference.name, reference.span.startPoint)) =
        [("my-app", toLex (0, 1)), ("tip", toLex (0, 11)), ("hint", toLex (0, 25))] ∧
      ((references ⟨"/page.html"⟩ nestedTags).Pairwise fun a b =>
        a.span.startPoint < b.span.startPoint) ∧
      ∃ addresses : List (List Nat), addresses.Nodup ∧
        List.Forall₂ (UsedAt ⟨"/page.html"⟩ (Markup.tree nestedTags)) addresses
          (references ⟨"/page.html"⟩ nestedTags) ∧
        ∀ address reference, UsedAt ⟨"/page.html"⟩ (Markup.tree nestedTags) address reference →
          address ∈ addresses := by
  obtain ⟨horder, hmarkup⟩ := tree_inOrder_and_isMarkup nestedTags
  exact ⟨hmarkup, horder, by decide +kernel,
    references_in_document_order ⟨"/page.html"⟩ _ hmarkup horder⟩

end Markup
end NgIndex
