import Mathlib.Data.List.Pairwise
import NgIndex.Proofs.Script.Parsed
import NgIndex.Proofs.Script.Within

/-!
# Ranges of places

In a tree in order the range of a place says where it stands: what is below it stands inside its
range, and of two places of which neither is below the other one ends before the other starts.  Only
the root may be empty.
-/

namespace NgIndex
namespace Script
namespace Cursor

variable {root outer inner a b c : Cursor}

/-! ### Going down -/

theorem part_of_mem_children (h : outer.node.Tidy) (hinner : inner ∈ outer.children) :
    inner.node.Part := by
  obtain ⟨node, hnode, rfl⟩ := List.mem_map.mp hinner
  exact h.part hnode

theorem row_children (h : c.node.Tidy) :
    Row c.node.start.byte (c.children.map Cursor.node) c.node.stop.byte := by
  have hnodes : c.children.map Cursor.node = c.node.children := by
    simp [children, Function.comp_def]
  rw [hnodes]
  exact h.row

/-- One of two places ends before the other starts. -/
def Apart (a b : Cursor) : Prop :=
  a.node.stop.byte ≤ b.node.start.byte ∨ b.node.stop.byte ≤ a.node.start.byte

instance : Std.Symm Apart :=
  ⟨fun _ _ => Or.symm⟩

theorem apart_of_mem_children (h : c.node.Tidy) (ha : a ∈ c.children) (hb : b ∈ c.children)
    (hne : a ≠ b) : Apart a b := by
  have hpairs := List.pairwise_map.mp (row_children h).pairwise
  have hapart : c.children.Pairwise Apart := hpairs.imp Or.inl
  exact hapart.forall ha hb hne

theorem Within.tidy (h : Within outer inner) (houter : outer.node.Tidy) : inner.node.Tidy := by
  induction h with
  | refl => exact houter
  | tail _ hchild ih => exact (part_of_mem_children ih hchild).tidy

/-- Below a place there is no script as a whole. -/
theorem Within.kind_ne_program (h : Within outer inner) (houter : outer.node.Tidy)
    (hne : inner ≠ outer) : inner.kind ≠ .program := by
  cases h with
  | refl => exact absurd rfl hne
  | tail hparent hchild => exact (part_of_mem_children (Within.tidy hparent houter) hchild).kind

/-- What is below a place stands inside its range. -/
theorem Within.range (h : Within outer inner) (houter : outer.node.Tidy) :
    outer.node.start.byte ≤ inner.node.start.byte ∧
      inner.node.stop.byte ≤ outer.node.stop.byte := by
  induction h with
  | refl => exact ⟨Nat.le_refl _, Nat.le_refl _⟩
  | tail hparent hchild ih =>
      have hrow := row_children (Within.tidy hparent houter)
      have hmem := List.mem_map_of_mem (f := Cursor.node) hchild
      exact ⟨Nat.le_trans ih.1 (hrow.low_le hmem), Nat.le_trans (hrow.le_high hmem) ih.2⟩

/-- What is below a place is not empty. -/
theorem Within.full (h : Within outer inner) (houter : outer.node.Tidy) (hne : inner ≠ outer) :
    inner.node.start.byte < inner.node.stop.byte := by
  cases h with
  | refl => exact absurd rfl hne
  | tail hparent hchild =>
      exact (row_children (Within.tidy hparent houter)).lt (List.mem_map_of_mem hchild)

/-! ### Nested or apart -/

/-- Of two places in a tree one is below the other, or they are apart. -/
theorem nested_or_apart (hroot : root.node.Tidy) (ha : Within root a) (hb : Within root b) :
    Within a b ∨ Within b a ∨ Apart a b := by
  induction ha using Relation.ReflTransGen.head_induction_on with
  | refl => exact .inl hb
  | @head root child hchild ha ih =>
      rcases Relation.ReflTransGen.cases_head hb with rfl | ⟨other, hother, hb⟩
      · exact .inr (.inl (.head hchild ha))
      have hleft := (part_of_mem_children hroot hchild).tidy
      have hright := (part_of_mem_children hroot hother).tidy
      by_cases hsame : child = other
      · exact ih hleft (hsame ▸ hb)
      · obtain ⟨hstart, hstop⟩ := Within.range ha hleft
        obtain ⟨hstart', hstop'⟩ := Within.range hb hright
        refine .inr (.inr ((apart_of_mem_children hroot hchild hother hsame).imp ?_ ?_))
        · exact fun hle => Nat.le_trans hstop (Nat.le_trans hle hstart')
        · exact fun hle => Nat.le_trans hstop' (Nat.le_trans hle hstart)

/-- A scope encloses what is inside it, and beyond that only what has the same range. -/
theorem encloses_iff (hroot : root.node.Tidy) (houter : Within root outer)
    (hinner : Within root inner) :
    outer.encloses inner = true ↔ Within outer inner ∨
      Within inner outer ∧ inner.node.start.byte = outer.node.start.byte ∧
        inner.node.stop.byte = outer.node.stop.byte := by
  have hbytes : outer.encloses inner = true ↔ outer.node.start.byte ≤ inner.node.start.byte ∧
      inner.node.stop.byte ≤ outer.node.stop.byte := by
    simp [encloses]
  rw [hbytes]
  constructor
  · rintro ⟨hstart, hstop⟩
    by_cases hwhole : outer = root
    · exact .inl (hwhole ▸ hinner)
    have hfull := houter.full hroot hwhole
    have hup (hup : Within inner outer) : Within inner outer ∧
        inner.node.start.byte = outer.node.start.byte ∧
          inner.node.stop.byte = outer.node.stop.byte := by
      have hrange := hup.range (hinner.tidy hroot)
      exact ⟨hup, by omega, by omega⟩
    rcases nested_or_apart hroot houter hinner with hdown | hwithin | hapart
    · exact .inl hdown
    · exact .inr (hup hwithin)
    · -- A place that is enclosed and apart is empty, and only the root may be.
      have hempty : inner = root := by
        by_contra hne
        have hinnerFull := hinner.full hroot hne
        rcases hapart with hle | hle
        · omega
        · omega
      exact .inr (hup (hempty ▸ houter))
  · rintro (hdown | ⟨-, hstart, hstop⟩)
    · exact hdown.range (houter.tidy hroot)
    · exact ⟨Nat.le_of_eq hstart.symm, Nat.le_of_eq hstop⟩

/-! ### Children with roles -/

theorem filterMap_role_children (c : Cursor) :
    c.children.filterMap (fun child => child.node.role) = c.node.roles := by
  rw [children, List.filterMap_map]
  rfl

/-- Two children that are the only ones with a role. -/
structure Pair (c : Cursor) (role role' : Field) (a b : Cursor) : Prop where
  left : c.child? role = some a
  right : c.child? role' = some b
  only_left : ∀ child ∈ c.children, child.node.role = some role → child = a
  only_right : ∀ child ∈ c.children, child.node.role = some role' → child = b
  ends : a.node.stop.byte ≤ b.node.start.byte

theorem exists_pair {role role' : Field} (h : c.node.Tidy) (hroles : c.node.roles = [role, role'])
    (hne : role ≠ role') : ∃ a b, Pair c role role' a b := by
  rw [← filterMap_role_children] at hroles
  obtain ⟨front, a, tail, hchildren, hfront, ha, htail⟩ := List.filterMap_eq_cons_iff.mp hroles
  obtain ⟨middle, b, rest, rfl, hmiddle, hb, hnil⟩ := List.filterMap_eq_cons_iff.mp htail
  have hrest := List.filterMap_eq_nil_iff.mp hnil
  have hpairs : c.children.Pairwise fun a b => a.node.stop.byte ≤ b.node.start.byte :=
    List.pairwise_map.mp (row_children h).pairwise
  rw [hchildren] at hpairs
  have hcases (child : Cursor) (hchild : child ∈ c.children) :
      child.node.role = none ∨ child = a ∨ child = b := by
    rw [hchildren] at hchild
    simp only [List.mem_append, List.mem_cons] at hchild
    rcases hchild with hmem | rfl | hmem | rfl | hmem
    · exact .inl (hfront child hmem)
    · exact .inr (.inl rfl)
    · exact .inl (hmiddle child hmem)
    · exact .inr (.inr rfl)
    · exact .inl (hrest child hmem)
  refine ⟨a, b, ?_, ?_, fun child hchild hrole => ?_, fun child hchild hrole => ?_, ?_⟩
  · refine List.find?_eq_some_iff_append.mpr ⟨by simp [ha], front, _, hchildren, fun x hx => ?_⟩
    simp [hfront x hx]
  · refine List.find?_eq_some_iff_append.mpr ⟨by simp [hb], front ++ a :: middle, rest,
      by rw [hchildren, List.append_assoc, List.cons_append], fun x hx => ?_⟩
    rcases List.mem_append.mp hx with hx | hx
    · simp [hfront x hx]
    · rcases List.mem_cons.mp hx with rfl | hx
      · simp [ha, hne]
      · simp [hmiddle x hx]
  · rcases hcases child hchild with hnone | rfl | rfl
    · rw [hnone] at hrole
      cases hrole
    · rfl
    · exact absurd (Option.some.inj (hrole.symm.trans hb)) hne
  · rcases hcases child hchild with hnone | rfl | rfl
    · rw [hnone] at hrole
      cases hrole
    · exact absurd (Option.some.inj (ha.symm.trans hrole)) hne
    · rfl
  · have hafter := (List.pairwise_append.mp hpairs).2.1
    exact List.rel_of_pairwise_cons hafter (by simp)

end Cursor

/-- The tree of a script that has been read is in order. -/
theorem Module.tidy_ofText (path : Path) (text : String) : (ofText path text).root.node.Tidy :=
  tidy_parse (Dialect.ofPath path) text

end Script
end NgIndex
