import Mathlib.Data.List.Induction
import NgIndex.Proofs.Script.Ranges

/-!
# The innermost scope

Of the declarations of a name in sight the one whose scope starts last is taken, and the last of
those.  A scope inside another one starts after it if the other one is a block, since a block starts
with its brace.  The script as a whole has no brace: it starts where its first token does, and if
that is the brace of a block, the block starts no later than the script.  This is the one case in
which an inner scope does not win.
-/

namespace NgIndex
namespace Script

open Cursor

/-! ### What encloses what -/

namespace Cursor

variable {root outer inner c owner : Cursor}

theorem test_of_nearest? {test : Node → Bool} {above : List Node}
    (h : nearest? test above = some owner) : test owner.node = true := by
  induction above with
  | nil => cases h
  | cons node above ih =>
      rw [nearest?] at h
      split at h
      · next htest =>
          obtain rfl := Option.some.inj h
          exact htest
      · exact ih h

/-- What is inside a block starts after it. -/
theorem start_lt_of_block (houter : outer.node.Tidy) (hblock : outer.kind = .block)
    (h : Within outer inner) (hne : inner ≠ outer) (htoken : inner.kind ≠ .token) :
    outer.node.start.byte < inner.node.start.byte := by
  obtain rfl | ⟨child, hchild, hinner⟩ := Relation.ReflTransGen.cases_head h
  · exact absurd rfl hne
  have htidy := (part_of_mem_children houter hchild).tidy
  obtain ⟨opening, hopening, hkind, hstart⟩ := houter.shaped.block hblock
  obtain ⟨rest, hchildren⟩ := List.head?_eq_some_iff.mp hopening
  obtain ⟨node, hnode, rfl⟩ := List.mem_map.mp hchild
  have hrow := houter.row
  rw [hchildren] at hrow hnode
  obtain ⟨-, hfull, hrest⟩ := hrow
  rcases List.mem_cons.mp hnode with rfl | hnode
  · -- The brace itself has nothing inside it.
    exfalso
    obtain rfl | ⟨below, hbelow, -⟩ := Relation.ReflTransGen.cases_head hinner
    · exact htoken hkind
    · rw [children, htidy.shaped.leaf (by rw [hkind]; rfl)] at hbelow
      cases hbelow
  · have hle := hrest.low_le hnode
    have hinside := (Within.range hinner htidy).1
    simp only at hinside
    omega

end Cursor

/-! ### Declarations -/

namespace Declaration

/-- A declaration of a name that is in sight at a place. -/
def InSight (name : String) (site : Cursor) (declaration : Declaration) : Prop :=
  declaration.name = name ∧ declaration.scope.encloses site = true

/-- A declaration that is indexed in the scope around its place. -/
structure Placed (m : Module) (declaration : Declaration) : Prop where
  scope : declaration.site.scope? = some declaration.scope
  within : Within m.root declaration.scope
  isScope : isScope declaration.scope.node = true

end Declaration

theorem scope?_of_declarationAt? {text : String} {c : Cursor} {declaration : Declaration}
    (h : declarationAt? text c = some declaration) :
    declaration.site = c ∧ c.scope? = some declaration.scope := by
  simp only [declarationAt?, Option.bind_eq_bind, Option.bind_eq_some_iff, Option.pure_def] at h
  obtain ⟨-, -, name, -, -, -, scope, hscope, hdeclaration⟩ := h
  obtain rfl := Option.some.inj hdeclaration
  exact ⟨rfl, hscope⟩

namespace Module

/-- Whether a script has been read from a text. -/
def IsRead (m : Module) : Prop :=
  ∃ path text, m = .ofText path text

theorem IsRead.tidy {m : Module} (h : m.IsRead) : m.root.node.Tidy := by
  obtain ⟨path, text, rfl⟩ := h
  exact tidy_ofText path text

theorem IsRead.whole {m : Module} (h : m.IsRead) : m.Whole := by
  obtain ⟨path, text, rfl⟩ := h
  exact whole_ofText path text

theorem placed_ofText (path : Path) (text : String) :
    ∀ declaration ∈ (ofText path text).declarations, declaration.Placed (ofText path text) := by
  intro declaration h
  obtain ⟨c, hc, hdeclaration⟩ := List.mem_filterMap.mp h
  obtain ⟨rfl, hscope⟩ := scope?_of_declarationAt? hdeclaration
  have hwithin := mem_preOrder_iff.mp hc
  exact ⟨hscope, hwithin.nearest? rfl hscope, test_of_nearest? hscope⟩

theorem IsRead.placed {m : Module} (h : m.IsRead) :
    ∀ declaration ∈ m.declarations, declaration.Placed m := by
  obtain ⟨path, text, rfl⟩ := h
  exact placed_ofText path text

/-! ### The declaration that is taken -/

/-- The declaration that is taken starts the reach of its scope no earlier than those before it, and
later than those after it. -/
theorem exists_of_innermost? {declarations : List Declaration} {found : Declaration}
    (h : innermost? declarations = some found) :
    ∃ front rest, declarations = front ++ found :: rest ∧
      (∀ other ∈ front, other.scope.node.start.byte ≤ found.scope.node.start.byte) ∧
      ∀ other ∈ rest, other.scope.node.start.byte < found.scope.node.start.byte := by
  cases declarations with
  | nil => cases h
  | cons first later =>
      obtain rfl := Option.some.inj h
      clear h
      -- The last declaration takes the place of the best one before it, or it does not.
      induction later using List.reverseRecOn with
      | nil => exact ⟨[], [], rfl, by simp, by simp⟩
      | append_singleton later next ih =>
          obtain ⟨front, rest, hsplit, hfront, hrest⟩ := ih
          rw [List.foldl_append, List.foldl_cons, List.foldl_nil]
          split
          · next hle =>
              refine ⟨first :: later, [], by simp, fun other hother => ?_, by simp⟩
              rw [hsplit] at hother
              rcases List.mem_append.mp hother with hother | hother
              · exact Nat.le_trans (hfront other hother) hle
              rcases List.mem_cons.mp hother with rfl | hother
              · exact hle
              · exact Nat.le_trans (Nat.le_of_lt (hrest other hother)) hle
          · next hlt =>
              refine ⟨front, rest ++ [next], ?_, hfront, fun other hother => ?_⟩
              · rw [← List.cons_append, hsplit, List.append_assoc, List.cons_append]
              · rcases List.mem_append.mp hother with hother | hother
                · exact hrest other hother
                · obtain rfl := List.mem_singleton.mp hother
                  exact Nat.lt_of_not_le hlt

variable {m : Module} {name : String} {site : Cursor}

theorem inSight_iff {declaration : Declaration} :
    (declaration.name == name && declaration.scope.encloses site) = true ↔
      declaration.InSight name site := by
  simp [Declaration.InSight]

theorem declarationOf?_eq_none_iff : m.declarationOf? name site = none ↔
    ∀ declaration ∈ m.declarations, ¬ declaration.InSight name site := by
  have hnone (declarations : List Declaration) :
      innermost? declarations = none ↔ declarations = [] := by
    cases declarations <;> simp [innermost?]
  simp only [declarationOf?, Option.map_eq_none_iff, hnone, List.filter_eq_nil_iff, inSight_iff]

/-- The declaration that a name refers to, with those indexed before and after it. -/
theorem exists_of_declarationOf? {found : Cursor} (h : m.declarationOf? name site = some found) :
    ∃ front declaration rest, m.declarations = front ++ declaration :: rest ∧
      declaration.site = found ∧ declaration.InSight name site ∧
      (∀ other ∈ m.declarations, other.InSight name site →
        other.scope.node.start.byte ≤ declaration.scope.node.start.byte) ∧
      ∀ other ∈ rest, other.InSight name site →
        other.scope.node.start.byte < declaration.scope.node.start.byte := by
  obtain ⟨declaration, hinnermost, rfl⟩ := Option.map_eq_some_iff.mp h
  obtain ⟨before, after, hsplit, hbefore, hafter⟩ := exists_of_innermost? hinnermost
  obtain ⟨front, later, hdeclarations, hfront, hlater⟩ := List.filter_eq_append_iff.mp hsplit
  obtain ⟨skipped, rest, rfl, hskipped, hself, hrest⟩ := List.filter_eq_cons_iff.mp hlater
  have hlast : ∀ other ∈ rest, other.InSight name site →
      other.scope.node.start.byte < declaration.scope.node.start.byte := by
    intro other hother hsight
    refine hafter other ?_
    rw [← hrest]
    exact List.mem_filter.mpr ⟨hother, inSight_iff.mpr hsight⟩
  refine ⟨front ++ skipped, declaration, rest, ?_, rfl, inSight_iff.mp hself, ?_, hlast⟩
  · rw [hdeclarations, List.append_assoc]
  · intro other hother hsight
    rw [hdeclarations] at hother
    rcases List.mem_append.mp hother with hother | hother
    · refine hbefore other ?_
      rw [← hfront]
      exact List.mem_filter.mpr ⟨hother, inSight_iff.mpr hsight⟩
    rcases List.mem_append.mp hother with hother | hother
    · exact absurd (inSight_iff.mpr hsight) (hskipped other hother)
    rcases List.mem_cons.mp hother with rfl | hother
    · exact Nat.le_refl _
    · exact Nat.le_of_lt (hlast other hother hsight)

end Module

namespace Declaration

/-- A declaration whose scope is inside the scope of another and is not the same. -/
def Inside (outer declaration : Declaration) : Prop :=
  Within outer.scope declaration.scope ∧ declaration.scope ≠ outer.scope

/-- A declaration in a block that stands at the very front of a script. -/
def AtFront (m : Module) (declaration : Declaration) : Prop :=
  declaration.scope ≠ m.root ∧
    declaration.scope.node.start.byte = m.root.node.start.byte

variable {m : Module} {declaration other : Declaration}

/-- A scope is a block, or the script as a whole. -/
theorem Placed.kind (h : declaration.Placed m) (hroot : m.root.node.Tidy) :
    declaration.scope.kind = .block ∨ declaration.scope = m.root := by
  have hkind : declaration.scope.kind = .block ∨ declaration.scope.kind = .program := by
    have hscope := h.isScope
    simp only [Cursor.isScope, Bool.or_eq_true, beq_iff_eq] at hscope
    exact hscope
  refine hkind.imp_right fun hprogram => ?_
  by_contra hne
  exact h.within.kind_ne_program hroot hne hprogram

/-- A scope starts after the one it is inside of, except for a block at the front of a script. -/
theorem Placed.lt_or_atFront (h : declaration.Placed m) (hother : other.Placed m)
    (hroot : m.root.node.Tidy) (hinside : other.Inside declaration) :
    other.scope.node.start.byte < declaration.scope.node.start.byte ∨
      other.scope = m.root ∧ declaration.AtFront m := by
  obtain ⟨hwithin, hne⟩ := hinside
  have htoken : declaration.scope.kind ≠ .token := by
    intro htoken
    have hscope := h.isScope
    rw [Cursor.isScope, show declaration.scope.node.kind = .token from htoken] at hscope
    cases hscope
  rcases hother.kind hroot with hblock | hwhole
  · exact .inl (start_lt_of_block (hother.within.tidy hroot) hblock hwithin hne htoken)
  · have hstart := (hwithin.range (hother.within.tidy hroot)).1
    rw [hwhole] at hstart hne ⊢
    rcases Nat.lt_or_ge m.root.node.start.byte declaration.scope.node.start.byte with hlt | hge
    · exact .inl hlt
    · exact .inr ⟨rfl, hne, Nat.le_antisymm hge hstart⟩

end Declaration
end Script

open Script Script.Cursor

/-- **The innermost scope wins.**  A name refers to nothing where none of its declarations is in
sight.  Otherwise it refers to a declaration in sight, the last one indexed in its scope.  No scope
of another declaration in sight is inside this one, with one exception: the script as a whole wins
against a block that stands at its very front.  What is in sight follows from ranges of text, but
ranges follow the tree: a scope encloses what is inside it, and besides only what is around it and
has the same range. -/
theorem innermost_scope_wins_iff (path : Path) (text name : String) (site : Cursor) :
    let m := Module.ofText path text
    (Within m.root site → ∀ declaration ∈ m.declarations,
      declaration.scope.encloses site = true ↔
        Within declaration.scope site ∨ Within site declaration.scope ∧
          site.node.start.byte = declaration.scope.node.start.byte ∧
          site.node.stop.byte = declaration.scope.node.stop.byte) ∧
    (m.declarationOf? name site = none ↔
      ∀ declaration ∈ m.declarations, ¬ declaration.InSight name site) ∧
    ∀ found, m.declarationOf? name site = some found →
      ∃ front declaration rest, m.declarations = front ++ declaration :: rest ∧
        declaration.site = found ∧ found.scope? = some declaration.scope ∧
        declaration.InSight name site ∧
        (∀ later ∈ rest, later.name = name → later.scope ≠ declaration.scope) ∧
        ((∀ other ∈ m.declarations, other.InSight name site → ¬ declaration.Inside other) ↔
          ¬ (declaration.scope = m.root ∧
            ∃ other ∈ m.declarations, other.InSight name site ∧ other.AtFront m)) := by
  intro m
  have hroot : m.root.node.Tidy := Module.tidy_ofText path text
  have hplaced : ∀ declaration ∈ m.declarations, declaration.Placed m :=
    Module.placed_ofText path text
  refine ⟨fun hsite declaration hmem => encloses_iff hroot (hplaced _ hmem).within hsite,
    Module.declarationOf?_eq_none_iff, fun found hfound => ?_⟩
  obtain ⟨front, declaration, rest, hsplit, rfl, hsight, hmax, hlast⟩ :=
    Module.exists_of_declarationOf? hfound
  have hself : declaration.Placed m := hplaced _ (by rw [hsplit]; simp)
  refine ⟨front, declaration, rest, hsplit, rfl, hself.scope, hsight, ?_, ?_⟩
  · -- A later one in the same scope would be in sight too and start no earlier.
    intro later hlater hname hscope
    have hlt := hlast later hlater ⟨hname, hscope ▸ hsight.2⟩
    rw [hscope] at hlt
    exact Nat.lt_irrefl _ hlt
  constructor
  · rintro hinnermost ⟨hwhole, other, hother, hothersight, hne, -⟩
    refine hinnermost other hother hothersight ⟨?_, ?_⟩
    · rw [hwhole]
      exact (hplaced other hother).within
    · rwa [hwhole]
  · intro hnone other hother hothersight hinside
    rcases (hplaced other hother).lt_or_atFront hself hroot hinside with hlt | ⟨hwhole, hfront⟩
    · have hle := hmax other hother hothersight
      omega
    · exact hnone ⟨hwhole, other, hother, hothersight, hfront⟩

/-! ### A block behind and a block at the front of a script -/

namespace Shadow

/-- A script with a block that declares a name once more. -/
def behind : Module :=
  .ofText ⟨"/a.js"⟩ "const x = 1; \x7b const x = 2; x; \x7d"

/-- The same with the block at the front. -/
def ahead : Module :=
  .ofText ⟨"/a.js"⟩ "\x7b const x = 1; x; \x7d const x = 2"

/-- The statement that uses the name. -/
def use (m : Module) : Cursor :=
  (m.root.preOrder.find? fun c => c.kind == .expressionStatement).getD m.root

end Shadow

/-- The declaration in the block is taken for the use in the block, and no scope in sight is inside
the block. -/
theorem shadowing_innermost_scope_wins :
    ∃ found, Shadow.behind.declarationOf? "x" (Shadow.use Shadow.behind) = some found ∧
      Shadow.behind.textAt found = "x = 2" ∧
      ∃ declaration ∈ Shadow.behind.declarations, declaration.site = found ∧
        ∀ other ∈ Shadow.behind.declarations,
          other.InSight "x" (Shadow.use Shadow.behind) → ¬ declaration.Inside other := by
  obtain ⟨htext, hblock, hprogram⟩ :
      (Shadow.behind.declarationOf? "x" (Shadow.use Shadow.behind)).map Shadow.behind.textAt =
        some "x = 2" ∧
      (∀ declaration ∈ Shadow.behind.declarations,
        Shadow.behind.textAt declaration.site = "x = 2" → declaration.scope.kind = .block) ∧
      Shadow.behind.root.kind = .program := by
    decide +kernel
  obtain ⟨found, hfound, hx⟩ := Option.map_eq_some_iff.mp htext
  obtain ⟨-, -, hsome⟩ := innermost_scope_wins_iff ⟨"/a.js"⟩
    "const x = 1; \x7b const x = 2; x; \x7d" "x" (Shadow.use Shadow.behind)
  obtain ⟨front, declaration, rest, hsplit, rfl, -, -, -, hiff⟩ := hsome found hfound
  have hmem : declaration ∈ Shadow.behind.declarations := by
    rw [show Shadow.behind.declarations = front ++ declaration :: rest from hsplit]
    simp
  refine ⟨declaration.site, hfound, hx, declaration, hmem, rfl, hiff.mpr ?_⟩
  rintro ⟨hwhole, -⟩
  have hkind := hblock declaration hmem hx
  rw [hwhole] at hkind
  exact absurd (hkind.symm.trans hprogram) (by decide)

/-- The block at the front of the script declares the name for the use inside it, but the
declaration behind the block is taken. -/
theorem block_at_front_does_not_win :
    ∃ declaration ∈ Shadow.ahead.declarations, ∃ inner ∈ Shadow.ahead.declarations,
      Shadow.ahead.declarationOf? "x" (Shadow.use Shadow.ahead) = some declaration.site ∧
        inner.InSight "x" (Shadow.use Shadow.ahead) ∧ declaration.Inside inner := by
  obtain ⟨htext, hwhole, inner, hinner, hname, hencloses, hblock⟩ :
      (Shadow.ahead.declarationOf? "x" (Shadow.use Shadow.ahead)).map Shadow.ahead.textAt =
        some "x = 2" ∧
      (∀ declaration ∈ Shadow.ahead.declarations,
        Shadow.ahead.textAt declaration.site = "x = 2" → declaration.scope.kind = .program) ∧
      ∃ inner ∈ Shadow.ahead.declarations, inner.name = "x" ∧
        inner.scope.encloses (Shadow.use Shadow.ahead) = true ∧ inner.scope.kind = .block := by
    decide +kernel
  have hplaced := Module.placed_ofText ⟨"/a.js"⟩ "\x7b const x = 1; x; \x7d const x = 2"
  have hroot := Module.tidy_ofText ⟨"/a.js"⟩ "\x7b const x = 1; x; \x7d const x = 2"
  obtain ⟨found, hfound, hx⟩ := Option.map_eq_some_iff.mp htext
  obtain ⟨front, declaration, rest, hsplit, rfl, -⟩ := Module.exists_of_declarationOf? hfound
  have hmem : declaration ∈ Shadow.ahead.declarations := by
    rw [hsplit]
    simp
  have hprogram := hwhole declaration hmem hx
  have hscope : declaration.scope = Shadow.ahead.root := by
    refine ((hplaced declaration hmem).kind hroot).resolve_left fun hkind => ?_
    rw [hkind] at hprogram
    cases hprogram
  refine ⟨declaration, hmem, inner, hinner, hfound, ⟨hname, hencloses⟩, ?_, fun heq => ?_⟩
  · rw [hscope]
    exact (hplaced inner hinner).within
  · rw [heq, hprogram] at hblock
    cases hblock

end NgIndex
