import NgIndex.Proofs.Script.Outline
import NgIndex.Proofs.Text.Edit

/-!
# Where names are words

Wherever the text of a node is read as a name, the node is a word, and words have no parts.  So what
is read as a name has nothing in it that could be a comment.  The one exception is the name of a
method, which may be an expression in brackets: such a name starts with its bracket, so it is not
taken for the name of the constructor.

All this follows from how the tree of a script is read, whatever its text.
-/

namespace NgIndex
namespace Script

/-! ### Names in brackets -/

/-- What is left of a whole text has a character where the text has it. -/
theorem Input.Shows.head?_slice {text : String} {c : Char} {start stop : Nat}
    (h : Input.Shows { rest := text.toList } c start) (hfull : start < stop) :
    (Text.slice text start stop).toList.head? = some c := by
  obtain ⟨passed, rest, htext, rfl⟩ := h
  refine Text.head?_slice htext ?_ hfull
  have hbyte := Text.byte_after (String.ofList passed)
  rw [String.toList_ofList, String.utf8ByteSize_ofList] at hbyte
  exact hbyte

theorem Cursor.Within.bracketed {input : Input} {outer inner : Cursor}
    (h : Cursor.Within outer inner) (houter : outer.node.Bracketed input) :
    inner.node.Bracketed input := by
  induction h with
  | refl => exact houter
  | tail _ hchild ih =>
      obtain ⟨node, hnode, rfl⟩ := List.mem_map.mp hchild
      exact ih.child hnode

/-! ### Children with roles -/

namespace Cursor

variable {root c child : Cursor}

theorem Within.shaped (h : Within root c) (hroot : root.node.Tidy) : c.node.Shaped :=
  (h.tidy hroot).shaped

/-- What stands in a role is what the node admits there. -/
theorem admits_child? (h : c.node.Shaped) {kind : Kind} (hkind : c.kind = kind) {role : Field}
    (hchild : c.child? role = some child) : kind.admits (some role) child.kind = true := by
  obtain ⟨node, hnode, rfl⟩ := List.mem_map.mp (List.mem_of_find?_eq_some hchild)
  exact h.admits_role hkind hnode (by simpa using List.find?_some hchild)

/-- What an import of a whole module has beside its keywords and comments is a word. -/
theorem isWord_of_mem_namedParts (h : c.node.Tidy) (hkind : c.kind = .namespaceImport)
    (hchild : child ∈ c.namedParts) : child.kind.isWord = true := by
  obtain ⟨hpart, hnamed⟩ := List.mem_filter.mp hchild
  obtain ⟨hmem, hplain⟩ := List.mem_filter.mp hpart
  obtain ⟨node, hnode, rfl⟩ := List.mem_map.mp hmem
  have hadmits : Kind.namespaceImport.admits node.role node.kind = true :=
    hkind ▸ h.shaped.admits node hnode
  cases hrole : node.role with
  | some role =>
      rw [hrole] at hadmits
      cases hadmits
  | none =>
      rw [hrole] at hadmits
      have hleaf : node.kind.isLeaf = true := hadmits
      have hchildren : node.children = [] := (h.part hnode).tidy.shaped.leaf hleaf
      -- Keywords have no name of their own, and a comment without a role stands beside the others.
      simp only [Kind.isLeaf, Bool.or_eq_true, beq_iff_eq] at hleaf
      rcases hleaf with (htoken | hcomment) | hword
      · simp [Node.isNamed, htoken] at hnamed
      · simp [Node.isRemark, hcomment, hrole, hchildren] at hplain
      · exact hword

end Cursor

namespace Module

open Cursor

/-- Words have no parts, and where the text of a node is read as a name the node is a word, or an
expression in brackets that names a method. -/
structure Legible (m : Module) : Prop where
  word : ∀ c ∈ m.root.preOrder, c.kind.isWord = true → c.node.children = []
  property : ∀ c ∈ m.root.preOrder, c.kind = .member → ∀ child ∈ c.child? .property,
    child.kind.isWord = true
  method : ∀ c ∈ m.root.preOrder, c.kind = .method → ∀ child ∈ c.child? .name,
    child.kind.isWord = true ∨ m.textAt child ≠ "constructor"
  imported : ∀ c ∈ m.root.preOrder, c.kind = .importSpecifier → ∀ role ∈ [.name, .newName],
    ∀ child ∈ c.child? role, child.kind.isWord = true
  owner : ∀ c ∈ m.root.preOrder, c.node.isClass = true → ∀ child ∈ c.child? .name,
    child.kind.isWord = true
  whole : ∀ c ∈ m.root.preOrder, c.kind = .namespaceImport → ∀ child ∈ c.namedParts,
    child.kind.isWord = true

variable {m : Module}

/-- A name in brackets is not read as the name of the constructor. -/
theorem IsRead.textAt_computedName (h : m.IsRead) {c : Cursor} (hc : Within m.root c)
    (hkind : c.kind = .computedName) : m.textAt c ≠ "constructor" := by
  have hfull : c.node.start.byte < c.node.stop.byte := by
    refine hc.full h.tidy fun hroot => ?_
    rw [hroot, Cursor.kind, h.kind_root] at hkind
    cases hkind
  obtain ⟨path, text, rfl⟩ := h
  have hbracketed := hc.bracketed (bracketed_parse (Dialect.ofPath path) text)
  have hhead := (hbracketed.opening hkind).head?_slice hfull
  intro htext
  rw [show Text.slice text c.node.start.byte c.node.stop.byte = "constructor" from htext] at hhead
  exact absurd hhead (by decide)

/-- In every script that has been read, names are words. -/
theorem IsRead.legible (h : m.IsRead) : m.Legible := by
  have hshaped {c : Cursor} (hc : c ∈ m.root.preOrder) : c.node.Shaped :=
    (mem_preOrder_iff.mp hc).shaped h.tidy
  refine ⟨fun c hc hword => ?_, fun c hc hkind child hchild => ?_, fun c hc hkind child hchild => ?_,
    fun c hc hkind role hrole child hchild => ?_, fun c hc hclass child hchild => ?_,
    fun c hc hkind child hchild => ?_⟩
  · exact (hshaped hc).leaf (Bool.or_eq_true_iff.mpr (.inr hword))
  · exact admits_child? (hshaped hc) hkind hchild
  · have hadmits := admits_child? (hshaped hc) hkind hchild
    refine (Bool.or_eq_true_iff.mp hadmits).imp_right fun hcomputed => ?_
    have hwithin := (mem_preOrder_iff.mp hc).trans (within_of_child? hchild)
    exact h.textAt_computedName hwithin (beq_iff_eq.mp hcomputed)
  · have hadmits := admits_child? (hshaped hc) hkind hchild
    rcases (by simpa using hrole : role = .name ∨ role = .newName) with rfl | rfl
    · exact hadmits
    · exact hadmits
  · unfold Node.isClass at hclass
    split at hclass
    · next hkind => exact admits_child? (hshaped hc) hkind hchild
    · next hkind => exact admits_child? (hshaped hc) hkind hchild
    · next hkind => exact admits_child? (hshaped hc) hkind hchild
    · cases hclass
  · exact isWord_of_mem_namedParts ((mem_preOrder_iff.mp hc).tidy h.tidy) hkind hchild

end Module
end Script
end NgIndex
