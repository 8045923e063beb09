import Mathlib.Data.Prod.Lex
import Mathlib.Data.String.Basic
import NgIndex.Proofs.Path

/-!
# Paths below a folder

Names are pushed onto the path of a folder, however that path is spelled: a slash or a dot at its
end does no harm.  The names are then the last components of the path, and relative to the folder
the path is spelled by its names with slashes between them.

Paths are put in order by their components.  The order is total, and two paths are equal in it only
if they have the same components.
-/

namespace NgIndex
namespace Path

/-- The relative path that goes down by names. -/
def ofNames (names : List String) : Path :=
  ⟨"/".intercalate names⟩

theorem ofNames_eq (names : List String) :
    ofNames names = ⟨String.ofList (spellParts (names.map String.toList))⟩ := by
  apply eq_mk_of_toList
  rw [ofNames, String.toList_intercalate]
  rfl

/-! ### Names pushed onto any path -/

theorem push_of_slash {p : Path} {cs : List Char} (htext : p.text.toList = cs ++ ['/'])
    {name : String} (hname : IsName name) :
    p.push name = ⟨String.ofList (cs ++ '/' :: name.toList)⟩ := by
  unfold push
  rw [hname.isAbsolute, if_neg Bool.false_ne_true, if_pos (by simp [htext])]
  apply eq_mk_of_toList
  simp [htext]

/-- Nothing pushed onto a path makes it empty. -/
theorem text_push_ne_empty {p : Path} (h : p.text ≠ "") (next : String) :
    (p.push next).text ≠ "" := by
  unfold push
  split
  · next habsolute =>
      rintro (rfl : next = "")
      cases habsolute
  · split
    · simp [h]
    · simp

theorem text_below_ne_empty {p : Path} (h : p.text ≠ "") (names : List String) :
    (p.below names).text ≠ "" := by
  induction names generalizing p with
  | nil => exact h
  | cons name rest ih => exact ih (text_push_ne_empty h name)

/-- A name pushed onto a path that ends in a slash. -/
theorem Readable.push_slash {front : Front} {init : List (List Char)}
    (h : Readable front (init ++ [[]])) {name : String} (hname : IsName name) :
    (spelled front (init ++ [[]])).push name = spelled front (init ++ [name.toList]) := by
  have hgrown {more : List (List Char)} (hmore : more ≠ []) (part : List Char) :
      spellParts (more ++ [part]) = spellParts more ++ '/' :: part :=
    spellParts_concat hmore part
  cases front with
  | bare =>
      have hinit : init ≠ [] := by
        rintro rfl
        exact (h.head rfl [] (by simp)).1 rfl
      have htext : (spelled .bare (init ++ [[]])).text.toList = spellParts init ++ ['/'] := by
        simp [spelled, hgrown hinit]
      rw [push_of_slash htext hname, ← hgrown hinit]
      rfl
  | root =>
      cases init with
      | nil =>
          have htext : (spelled .root [[]]).text.toList = [] ++ ['/'] := rfl
          rw [List.nil_append, push_of_slash htext hname]
          simp [spelled, spellParts]
      | cons first rest =>
          have htext : (spelled .root (first :: rest ++ [[]])).text.toList =
              '/' :: spellParts (first :: rest) ++ ['/'] := by
            rw [spelled, hgrown (List.cons_ne_nil _ _), String.toList_ofList, List.cons_append]
          rw [push_of_slash htext hname, List.cons_append, ← hgrown (List.cons_ne_nil _ _)]
          rfl
  | current =>
      have htext : (spelled .current (init ++ [[]])).text.toList =
          spellParts (['.'] :: init) ++ ['/'] := by
        simp only [spelled, ← List.cons_append, hgrown (List.cons_ne_nil _ _),
          String.toList_ofList]
      rw [push_of_slash htext hname, ← hgrown (List.cons_ne_nil _ _)]
      rfl

/-- The parts that count. -/
def counting (ps : List (List Char)) : List (List Char) :=
  ps.filter fun part => !isIdle part

/-- A name pushed onto a path stands after parts that count as those of the path do. -/
theorem Readable.exists_push {front : Front} {ps : List (List Char)} (h : Readable front ps)
    {name : String} (hname : IsName name) :
    ∃ qs, Readable front (qs ++ [name.toList]) ∧ counting qs = counting ps ∧
      (spelled front ps).push name = spelled front (qs ++ [name.toList]) := by
  rcases List.eq_nil_or_concat ps with rfl | ⟨init, last, rfl⟩
  · exact ⟨[], h.concat hname, rfl, push_front front hname⟩
  · rw [List.concat_eq_append] at h ⊢
    by_cases hlast : last = []
    · subst hlast
      have hinit : Readable front init := h.of_front (List.prefix_append _ _)
      refine ⟨init, hinit.concat hname, ?_, h.push_slash hname⟩
      simp [counting, isIdle]
    · exact ⟨init ++ [last], h.concat hname, rfl, h.push_concat hlast hname⟩

theorem Readable.below_spelled {front : Front} {ps : List (List Char)} (h : Readable front ps)
    (hps : dropIdleEnd ps = ps) {names : List String} (hnames : ∀ name ∈ names, IsName name) :
    Readable front (ps ++ names.map String.toList) ∧
      (spelled front ps).below names = spelled front (ps ++ names.map String.toList) := by
  induction names generalizing ps with
  | nil =>
      rw [List.map_nil, List.append_nil]
      exact ⟨h, rfl⟩
  | cons name rest ih =>
      have hname := hnames name List.mem_cons_self
      have hrest := ih (h.concat hname) (dropIdleEnd_concat_name ps hname)
        fun other hother => hnames other (List.mem_cons_of_mem _ hother)
      rw [← h.push_spelled hps hname] at hrest
      rw [List.map_cons, List.append_cons]
      exact hrest

/-- Names pushed onto a path stand after parts that count as those of the path do. -/
theorem Readable.exists_below {front : Front} {ps : List (List Char)} (h : Readable front ps)
    {names : List String} (hnames : ∀ name ∈ names, IsName name) (hne : names ≠ []) :
    ∃ qs, Readable front (qs ++ names.map String.toList) ∧ counting qs = counting ps ∧
      (spelled front ps).below names = spelled front (qs ++ names.map String.toList) := by
  obtain ⟨name, rest, rfl⟩ := List.exists_cons_of_ne_nil hne
  have hname := hnames name List.mem_cons_self
  obtain ⟨qs, hread, hcounting, hpush⟩ := h.exists_push hname
  obtain ⟨hall, hbelow⟩ := hread.below_spelled (dropIdleEnd_concat_name qs hname)
    fun other hother => hnames other (List.mem_cons_of_mem _ hother)
  rw [← List.append_cons, ← List.map_cons] at hall hbelow
  rw [← hpush] at hbelow
  exact ⟨qs, hall, hcounting, hbelow⟩

/-! ### Paths relative to the folder -/

theorem dropWhile_dropComponents (qs rest : List (List Char)) :
    (dropComponents (counting qs).length (qs ++ rest)).dropWhile isIdle =
      rest.dropWhile isIdle := by
  induction qs with
  | nil => rw [List.nil_append, counting, List.filter_nil, List.length_nil, dropComponents]
  | cons part qs ih =>
      by_cases hidle : isIdle part = true
      · have hsame : counting (part :: qs) = counting qs := by simp [counting, hidle]
        rw [hsame, ← ih, List.cons_append]
        cases (counting qs).length with
        | zero => rw [dropComponents, dropComponents, List.dropWhile_cons_of_pos hidle]
        | succ n => rw [dropComponents, if_pos hidle]
      · have hmore : counting (part :: qs) = part :: counting qs := by simp [counting, hidle]
        rw [hmore, List.length_cons, List.cons_append, dropComponents, if_neg hidle, ih]

section Below

variable {names : List String} (hnames : ∀ name ∈ names, IsName name)

include hnames

theorem dropIdleEnd_names : dropIdleEnd (names.map String.toList) = names.map String.toList := by
  rcases List.eq_nil_or_concat names with rfl | ⟨init, last, rfl⟩
  · rfl
  · rw [List.concat_eq_append] at hnames ⊢
    rw [List.map_append, List.map_singleton, dropIdleEnd_concat_name _ (hnames last (by simp))]

theorem dropWhile_names :
    (names.map String.toList).dropWhile isIdle = names.map String.toList := by
  cases names with
  | nil => rfl
  | cons name rest =>
      rw [List.map_cons, List.dropWhile_cons_of_neg (by simp [(hnames name (by simp)).counts])]

theorem spellAfter_names (qs : List (List Char)) :
    spellAfter (counting qs).length (qs ++ names.map String.toList) = ofNames names := by
  rw [spellAfter, dropWhile_dropComponents, dropWhile_names hnames, dropIdleEnd_names hnames,
    ofNames_eq]

theorem components_names :
    (counting (names.map String.toList)).map componentOfPart = names.map .normal := by
  induction names with
  | nil => rfl
  | cons name rest ih =>
      have hname := hnames name List.mem_cons_self
      have hrest := ih fun other hother => hnames other (List.mem_cons_of_mem _ hother)
      unfold counting at hrest ⊢
      rw [List.map_cons, List.filter_cons_of_pos (by simp [hname.counts]), List.map_cons, hrest]
      simp [componentOfPart, hname.notUp]

/-- The names pushed onto a path are its last components. -/
theorem components_below (p : Path) :
    (p.below names).components = p.components ++ names.map .normal := by
  by_cases hne : names = []
  · subst hne
    simp [below]
  · obtain ⟨front, ps, hread, rfl⟩ := exists_spelled p
    obtain ⟨qs, hall, hcounting, hbelow⟩ := hread.exists_below hnames hne
    have hnamed := components_names hnames
    unfold counting at hcounting hnamed
    rw [hbelow, hall.components_spelled, hread.components_spelled, List.filter_append, hcounting,
      List.map_append, hnamed, List.append_assoc]

theorem isAbsolute_below (p : Path) : (p.below names).isAbsolute = p.isAbsolute := by
  by_cases hne : names = []
  · rw [hne]
    rfl
  · obtain ⟨front, ps, hread, rfl⟩ := exists_spelled p
    obtain ⟨qs, hall, -, hbelow⟩ := hread.exists_below hnames hne
    rw [hbelow, hall.isAbsolute_spelled, hread.isAbsolute_spelled]

/-- Relative to a folder, what lies below it is spelled by its names. -/
theorem relativeTo?_below (p : Path) (hne : names ≠ []) :
    (p.below names).relativeTo? p = some (ofNames names) := by
  have hstarts : p.components.isPrefixOf (p.below names).components = true := by
    rw [List.isPrefixOf_iff_prefix, components_below hnames]
    exact List.prefix_append _ _
  obtain ⟨front, ps, hread, rfl⟩ := exists_spelled p
  obtain ⟨qs, hall, hcounting, hbelow⟩ := hread.exists_below hnames hne
  have hcount : (spelled front ps).components.length =
      front.components.length + (counting qs).length := by
    rw [hread.components_spelled, hcounting, List.length_append, List.length_map]
    rfl
  have hparts : readParts (qs ++ names.map String.toList) = qs ++ names.map String.toList :=
    if_neg (by simp [hne])
  unfold relativeTo?
  rw [hstarts, hcount, hbelow, hall.isAbsolute_spelled, hall.startsAtCurrent_spelled,
    hall.parts_spelled]
  cases front with
  | root => simp [Front.components, hparts, spellAfter_names hnames]
  | current => simp [Front.components, spellAfter_names hnames]
  | bare =>
      have hfew (hnone : counting qs = []) : qs = [] := by
        cases qs with
        | nil => rfl
        | cons first rest =>
            -- Without a front the first part counts.
            obtain ⟨hempty, hdot⟩ := hall.head rfl first (by simp)
            simp [counting, isIdle, hempty, hdot] at hnone
      by_cases hnone : counting qs = []
      · obtain rfl := hfew hnone
        simp [Front.components, counting, readParts, hne, dropIdleEnd_names hnames, ofNames_eq]
      · simp [Front.components, hparts, spellAfter_names hnames, hnone]

end Below

/-! ### The order of paths -/

/-- What components are compared by: first their kind, then their name. -/
def Component.sortKey : Component → ℕ ×ₗ String
  | .normal name => toLex (3, name)
  | other => toLex (other.rank, "")

theorem Component.sortKey_injective : Function.Injective Component.sortKey := by
  intro a b h
  cases a <;> cases b <;> simp_all [sortKey, rank]

theorem Component.le_iff {a b : Component} : a.le b = true ↔ a.sortKey ≤ b.sortKey := by
  cases a <;> cases b <;> simp [Component.le, sortKey, rank, Prod.Lex.toLex_le_toLex]

theorem Component.eq_of_le {a b : Component} (hab : a.le b = true) (hba : b.le a = true) :
    a = b :=
  sortKey_injective (le_antisymm (le_iff.mp hab) (le_iff.mp hba))

theorem componentsLe_cons {x y : Component} {a b : List Component} :
    componentsLe (x :: a) (y :: b) = true ↔
      x = y ∧ componentsLe a b = true ∨ x ≠ y ∧ x.le y = true := by
  rw [componentsLe]
  by_cases h : x = y
  · simp [h]
  · simp [h]

theorem componentsLe_total (a b : List Component) :
    componentsLe a b = true ∨ componentsLe b a = true := by
  induction a generalizing b with
  | nil => exact .inl (by rw [componentsLe])
  | cons x a ih =>
      cases b with
      | nil => exact .inr (by rw [componentsLe])
      | cons y b =>
          rw [componentsLe_cons, componentsLe_cons]
          by_cases h : x = y
          · exact (ih b).imp (fun hle => .inl ⟨h, hle⟩) fun hle => .inl ⟨h.symm, hle⟩
          · rw [Component.le_iff, Component.le_iff]
            exact (le_total x.sortKey y.sortKey).imp (fun hle => .inr ⟨h, hle⟩)
              fun hle => .inr ⟨Ne.symm h, hle⟩

theorem componentsLe_trans {a b c : List Component} (hab : componentsLe a b = true)
    (hbc : componentsLe b c = true) : componentsLe a c = true := by
  induction a generalizing b c with
  | nil => rw [componentsLe]
  | cons x a ih =>
      cases b with
      | nil => simp [componentsLe] at hab
      | cons y b =>
          cases c with
          | nil => simp [componentsLe] at hbc
          | cons z c =>
              rw [componentsLe_cons] at hab hbc ⊢
              rcases hab with ⟨rfl, hab⟩ | ⟨hxy, hab⟩
              · exact hbc.imp (fun h => ⟨h.1, ih hab h.2⟩) id
              · rcases hbc with ⟨rfl, -⟩ | ⟨hyz, hbc⟩
                · exact .inr ⟨hxy, hab⟩
                · refine .inr ⟨?_, ?_⟩
                  · rintro rfl
                    exact hxy (Component.eq_of_le hab hbc)
                  · rw [Component.le_iff] at hab hbc ⊢
                    exact le_trans hab hbc

theorem eq_of_componentsLe {a b : List Component} (hab : componentsLe a b = true)
    (hba : componentsLe b a = true) : a = b := by
  induction a generalizing b with
  | nil =>
      cases b with
      | nil => rfl
      | cons y b => simp [componentsLe] at hba
  | cons x a ih =>
      cases b with
      | nil => simp [componentsLe] at hab
      | cons y b =>
          rw [componentsLe_cons] at hab hba
          rcases hab with ⟨rfl, hab⟩ | ⟨hxy, hab⟩
          · rcases hba with ⟨-, hba⟩ | ⟨hxx, -⟩
            · rw [ih hab hba]
            · exact absurd rfl hxx
          · rcases hba with ⟨rfl, -⟩ | ⟨-, hba⟩
            · exact absurd rfl hxy
            · exact absurd (Component.eq_of_le hab hba) hxy

protected theorem le_total (a b : Path) : a.le b = true ∨ b.le a = true :=
  componentsLe_total _ _

protected theorem le_trans {a b c : Path} (hab : a.le b = true) (hbc : b.le c = true) :
    a.le c = true :=
  componentsLe_trans hab hbc

end Path
end NgIndex
