import Mathlib.Data.List.TakeWhile
import NgIndex.Analysis.Component
import NgIndex.Proofs.Lookup.Session
import NgIndex.Proofs.Path.Below

/-!
# Addresses of templates

An address names a template below the root of the project.  Its query is cut off, and what it starts
with is removed: first steps upwards, then steps to the same place, then slashes.  Each of the three
is removed once and for all, so one that stands behind another of a later kind is kept.

Whether an address comes out clean is told by the order of what it starts with.  Whether the path of
the template leaves the root at once is another question: an address that does nothing but go up
does, although nothing at its front is out of order.
-/

namespace NgIndex
namespace Path

/-! ### What an address starts with -/

/-- A piece at the front of an address that names nothing. -/
inductive Lead where
  | up
  | here
  | slash
  deriving DecidableEq, Repr

namespace Lead

def spelling : Lead → List Char
  | up => ['.', '.', '/']
  | here => ['.', '/']
  | slash => ['/']

/-- When a piece is removed. -/
def rank : Lead → Nat
  | up => 0
  | here => 1
  | slash => 2

@[simp] theorem up_rank_le (lead : Lead) : up.rank ≤ lead.rank :=
  Nat.zero_le _

@[simp] theorem here_rank_le_iff {lead : Lead} : here.rank ≤ lead.rank ↔ lead ≠ up := by
  cases lead <;> decide

@[simp] theorem slash_rank_le_iff {lead : Lead} : slash.rank ≤ lead.rank ↔ lead = slash := by
  cases lead <;> decide

end Lead

/-- The pieces that a text starts with, up to the first name. -/
def leads : List Char → List Lead
  | '.' :: '.' :: '/' :: rest => .up :: leads rest
  | '.' :: '/' :: rest => .here :: leads rest
  | '/' :: rest => .slash :: leads rest
  | _ => []

/-- A text that starts with steps upwards, then steps to the same place, then slashes. -/
def InOrder (cs : List Char) : Prop :=
  (leads cs).Pairwise fun a b => a.rank ≤ b.rank

instance (cs : List Char) : Decidable (InOrder cs) :=
  inferInstanceAs (Decidable (List.Pairwise _ _))

theorem head?_leads (cs : List Char) (lead : Lead) :
    (leads cs).head? = some lead ↔ lead.spelling <+: cs := by
  fun_cases leads cs with
  | case1 rest => cases lead <;> simp [Lead.spelling]
  | case2 rest => cases lead <;> simp [Lead.spelling]
  | case3 rest => cases lead <;> simp [Lead.spelling]
  | case4 _ hup hhere hslash =>
      refine iff_of_false (fun h => nomatch h) ?_
      rintro ⟨rest, rfl⟩
      cases lead with
      | up => exact hup rest rfl
      | here => exact hhere rest rfl
      | slash => exact hslash rest rfl

theorem leads_eq_nil_iff {cs : List Char} :
    leads cs = [] ↔ ∀ lead : Lead, ¬ lead.spelling <+: cs := by
  simp only [← head?_leads]
  cases leads cs with
  | nil => simp
  | cons lead rest => simp

/-! ### What is left of an address -/

/-- What is left when the pieces at the front are removed kind by kind. -/
def dropLeads (cs : List Char) : List Char :=
  (dropHeres (dropUps cs)).dropWhile (· == '/')

/-- The pieces that are left. -/
def leftLeads (pieces : List Lead) : List Lead :=
  ((pieces.dropWhile (· == .up)).dropWhile (· == .here)).dropWhile (· == .slash)

/-- Where a text does not start with a piece, removing the piece does nothing. -/
theorem dropWhile_leads {cs : List Char} {lead : Lead} (h : ¬ lead.spelling <+: cs) :
    (leads cs).dropWhile (· == lead) = leads cs := by
  cases hleads : leads cs with
  | nil => rfl
  | cons first rest =>
      refine List.dropWhile_cons_of_neg fun hsame => h ?_
      rw [← head?_leads, hleads, List.head?_cons, eq_of_beq hsame]

theorem leads_dropUps (cs : List Char) :
    leads (dropUps cs) = (leads cs).dropWhile (· == .up) := by
  fun_induction dropUps cs with
  | case1 rest ih => simpa [leads] using ih
  | case2 cs hup =>
      refine (dropWhile_leads ?_).symm
      rintro ⟨rest, rfl⟩
      exact hup rest rfl

theorem leads_dropHeres (cs : List Char) :
    leads (dropHeres cs) = (leads cs).dropWhile (· == .here) := by
  fun_induction dropHeres cs with
  | case1 rest ih => simpa [leads] using ih
  | case2 cs hhere =>
      refine (dropWhile_leads ?_).symm
      rintro ⟨rest, rfl⟩
      exact hhere rest rfl

theorem leads_dropSlashes (cs : List Char) :
    leads (cs.dropWhile (· == '/')) = (leads cs).dropWhile (· == .slash) := by
  induction cs with
  | nil => rfl
  | cons c cs ih =>
      by_cases hc : c = '/'
      · subst hc
        simpa [leads] using ih
      · rw [List.dropWhile_cons_of_neg (by simpa using hc)]
        refine (dropWhile_leads fun hprefix => ?_).symm
        exact hc (List.cons_prefix_cons.mp hprefix).1.symm

theorem leads_dropLeads (cs : List Char) : leads (dropLeads cs) = leftLeads (leads cs) := by
  rw [dropLeads, leads_dropSlashes, leads_dropHeres, leads_dropUps, leftLeads]

theorem leftLeads_suffix (pieces : List Lead) : leftLeads pieces <:+ pieces :=
  (List.dropWhile_suffix _).trans ((List.dropWhile_suffix _).trans (List.dropWhile_suffix _))

/-- Behind the first slash all have to be slashes. -/
theorem dropWhile_slash_eq_nil_iff (pieces : List Lead) : pieces.dropWhile (· == .slash) = [] ↔
    (∀ lead ∈ pieces, lead = .slash) ∧ pieces.Pairwise fun a b => a.rank ≤ b.rank := by
  induction pieces with
  | nil => simp
  | cons lead rest ih =>
      cases lead with
      | up => simp
      | here => simp
      | slash => simpa using ih

/-- Behind the first step to the same place no step upwards may stand. -/
theorem dropWhile_here_slash_eq_nil_iff (pieces : List Lead) :
    (pieces.dropWhile (· == .here)).dropWhile (· == .slash) = [] ↔
      (∀ lead ∈ pieces, lead ≠ .up) ∧ pieces.Pairwise fun a b => a.rank ≤ b.rank := by
  induction pieces with
  | nil => simp
  | cons lead rest ih =>
      cases lead with
      | up => simp
      | here => simpa using ih
      | slash =>
          change rest.dropWhile (· == .slash) = [] ↔ _
          rw [dropWhile_slash_eq_nil_iff]
          constructor
          · rintro ⟨hall, hordered⟩
            refine ⟨?_, by simpa using ⟨hall, hordered⟩⟩
            rintro lead hlead rfl
            rcases List.mem_cons.mp hlead with hlead | hlead
            · cases hlead
            · cases hall _ hlead
          · rintro ⟨-, hordered⟩
            simpa using hordered

/-- Nothing is left of pieces just if they are in order. -/
theorem leftLeads_eq_nil_iff (pieces : List Lead) :
    leftLeads pieces = [] ↔ pieces.Pairwise fun a b => a.rank ≤ b.rank := by
  induction pieces with
  | nil => simp [leftLeads]
  | cons lead rest ih =>
      cases lead with
      | up => simpa [leftLeads] using ih
      | here => simpa [leftLeads] using dropWhile_here_slash_eq_nil_iff rest
      | slash => simpa [leftLeads] using dropWhile_slash_eq_nil_iff rest

theorem leftLeads_eq_self_iff (pieces : List Lead) : leftLeads pieces = pieces ↔ pieces = [] := by
  refine ⟨fun h => ?_, fun h => by rw [h]; rfl⟩
  cases pieces with
  | nil => rfl
  | cons lead rest =>
      -- The first piece is removed, and with it the length goes down.
      have hsuffix : leftLeads (lead :: rest) <:+ rest := by
        cases lead with
        | up => exact leftLeads_suffix rest
        | here =>
            change (rest.dropWhile (· == .here)).dropWhile (· == .slash) <:+ rest
            exact (List.dropWhile_suffix _).trans (List.dropWhile_suffix _)
        | slash =>
            change rest.dropWhile (· == .slash) <:+ rest
            exact List.dropWhile_suffix _
      have hlength := hsuffix.length_le
      rw [h, List.length_cons] at hlength
      omega

theorem dropLeads_of_leads_eq_nil {cs : List Char} (h : leads cs = []) : dropLeads cs = cs := by
  have hnone := leads_eq_nil_iff.mp h
  have hups : dropUps cs = cs := by
    fun_cases dropUps cs with
    | case1 rest => exact absurd ⟨rest, rfl⟩ (hnone .up)
    | case2 => rfl
  have hheres : dropHeres cs = cs := by
    fun_cases dropHeres cs with
    | case1 rest => exact absurd ⟨rest, rfl⟩ (hnone .here)
    | case2 => rfl
  have hslashes : cs.dropWhile (· == '/') = cs := by
    cases cs with
    | nil => rfl
    | cons c rest =>
        refine List.dropWhile_cons_of_neg fun hc => hnone .slash ?_
        exact ⟨rest, by rw [eq_of_beq hc]; rfl⟩
  rw [dropLeads, hups, hheres, hslashes]

/-- Removing the pieces again does nothing just if none are left. -/
theorem dropLeads_eq_self_iff (cs : List Char) : dropLeads cs = cs ↔ leads cs = [] := by
  refine ⟨fun h => ?_, dropLeads_of_leads_eq_nil⟩
  rw [← leftLeads_eq_self_iff, ← leads_dropLeads, h]

/-- An address without its query. -/
def beforeQuery (address : String) : List Char :=
  address.toList.takeWhile (· != '?')

theorem toList_normalizeTemplate (address : String) :
    (normalizeTemplate address).toList = dropLeads (beforeQuery address) :=
  String.toList_ofList

theorem dropUps_suffix (cs : List Char) : dropUps cs <:+ cs := by
  fun_induction dropUps cs with
  | case1 rest ih => exact ih.trans (List.suffix_append ['.', '.', '/'] rest)
  | case2 cs hup => exact List.suffix_refl cs

theorem dropHeres_suffix (cs : List Char) : dropHeres cs <:+ cs := by
  fun_induction dropHeres cs with
  | case1 rest ih => exact ih.trans (List.suffix_append ['.', '/'] rest)
  | case2 cs hhere => exact List.suffix_refl cs

theorem no_query_normalizeTemplate (address : String) :
    '?' ∉ (normalizeTemplate address).toList := by
  rw [toList_normalizeTemplate]
  intro hmem
  have hsuffix : dropLeads (beforeQuery address) <:+ beforeQuery address :=
    (List.dropWhile_suffix _).trans ((dropHeres_suffix _).trans (dropUps_suffix _))
  have hkept := List.mem_takeWhile_imp (hsuffix.subset hmem)
  cases hkept

theorem beforeQuery_normalizeTemplate (address : String) :
    beforeQuery (normalizeTemplate address) = (normalizeTemplate address).toList := by
  refine List.takeWhile_eq_self_iff.mpr fun c hc => ?_
  rw [bne_iff_ne]
  rintro rfl
  exact no_query_normalizeTemplate address hc

theorem normalizeTemplate_normalizeTemplate_iff (address : String) :
    normalizeTemplate (normalizeTemplate address) = normalizeTemplate address ↔
      InOrder (beforeQuery address) := by
  rw [← String.toList_inj, toList_normalizeTemplate (normalizeTemplate address),
    beforeQuery_normalizeTemplate, toList_normalizeTemplate, dropLeads_eq_self_iff,
    leads_dropLeads, leftLeads_eq_nil_iff]
  rfl

theorem slash_not_prefix_normalizeTemplate (address : String) :
    ¬ Lead.slash.spelling <+: (normalizeTemplate address).toList := by
  rw [toList_normalizeTemplate, ← head?_leads, leads_dropLeads, leftLeads]
  intro h
  have hhead := List.head?_dropWhile_not (· == Lead.slash)
    (((leads (beforeQuery address)).dropWhile (· == .up)).dropWhile (· == .here))
  rw [h] at hhead
  cases hhead

/-- An address comes out without a step at its front just if what it starts with is in order. -/
theorem normalizeTemplate_clean_iff (address : String) :
    (¬ Lead.up.spelling <+: (normalizeTemplate address).toList ∧
      ¬ Lead.here.spelling <+: (normalizeTemplate address).toList) ↔
      InOrder (beforeQuery address) := by
  rw [InOrder, ← leftLeads_eq_nil_iff, ← leads_dropLeads, leads_eq_nil_iff,
    ← toList_normalizeTemplate]
  constructor
  · rintro ⟨hup, hhere⟩ lead
    cases lead with
    | up => exact hup
    | here => exact hhere
    | slash => exact slash_not_prefix_normalizeTemplate address
  · intro hnone
    exact ⟨hnone .up, hnone .here⟩

/-! ### Paths that leave a folder at once -/

/-- The components of a path that lead anywhere. -/
def moves (p : Path) : List Component :=
  p.components.filter (· != .current)

/-- A path that goes on from a folder with a step upwards. -/
def LeavesAtOnce (folder path : Path) : Prop :=
  ∃ rest, path.moves = folder.moves ++ .parent :: rest

/-- The parts of a text that count. -/
def countingParts (cs : List Char) : List (List Char) :=
  counting (cs.splitOn '/')

theorem splitOn_append_slash (cs ds : List Char) :
    (cs ++ '/' :: ds).splitOn '/' = cs.splitOn '/' ++ ds.splitOn '/' :=
  List.splitOnP_append_cons cs ds (beq_self_eq_true '/')

theorem countingParts_append_slash (cs ds : List Char) :
    countingParts (cs ++ '/' :: ds) = countingParts cs ++ countingParts ds := by
  rw [countingParts, splitOn_append_slash, counting, List.filter_append]
  rfl

theorem countingParts_slash_cons (cs : List Char) :
    countingParts ('/' :: cs) = countingParts cs :=
  countingParts_append_slash [] cs

theorem filter_map_componentOfPart (ps : List (List Char)) :
    (ps.map componentOfPart).filter (· != .current) = ps.map componentOfPart := by
  refine List.filter_eq_self.mpr fun component hcomponent => ?_
  obtain ⟨part, -, rfl⟩ := List.mem_map.mp hcomponent
  unfold componentOfPart
  split
  · rfl
  · rfl

/-- Where a path goes is told by whether it is absolute and by the parts of its text. -/
theorem moves_eq (p : Path) :
    p.moves = (if p.isAbsolute then [.root] else []) ++
      (countingParts p.text.toList).map componentOfPart := by
  have hparts : counting p.parts = countingParts p.text.toList := by
    unfold parts
    cases habsolute : p.isAbsolute with
    | false => rfl
    | true =>
        rw [isAbsolute, beq_iff_eq, List.head?_eq_some_iff] at habsolute
        obtain ⟨rest, hrest⟩ := habsolute
        rw [hrest, countingParts_slash_cons]
        rfl
  change List.filter _ (components p) = _
  unfold components
  rw [← hparts, counting]
  split
  · exact congrArg (Component.root :: ·) (filter_map_componentOfPart _)
  · split
    · exact filter_map_componentOfPart _
    · exact filter_map_componentOfPart _

theorem isAbsolute_push {p : Path} {next : String} (hnext : (Path.mk next).isAbsolute = false) :
    (p.push next).isAbsolute = p.isAbsolute := by
  unfold push
  rw [hnext, if_neg Bool.false_ne_true]
  cases htext : p.text.toList with
  | nil =>
      have hempty : p.text = "" := String.toList_eq_nil_iff.mp htext
      simp only [isAbsolute] at hnext ⊢
      simp [hempty, hnext]
  | cons c cs =>
      split
      · simp [isAbsolute, htext]
      · simp [isAbsolute, htext]

theorem countingParts_push {p : Path} {next : String}
    (hnext : (Path.mk next).isAbsolute = false) :
    countingParts (p.push next).text.toList =
      countingParts p.text.toList ++ countingParts next.toList := by
  unfold push
  rw [hnext, if_neg Bool.false_ne_true]
  split
  · next hend =>
      rcases Bool.or_eq_true_iff.mp hend with hempty | hslash
      · simp [eq_of_beq hempty, countingParts, counting, isIdle]
      · obtain ⟨init, hinit⟩ := List.getLast?_eq_some_iff.mp (eq_of_beq hslash)
        have hplain : countingParts (init ++ ['/']) = countingParts init := by
          rw [countingParts_append_slash]
          exact List.append_nil _
        rw [String.toList_append, hinit, hplain, List.append_assoc]
        exact countingParts_append_slash init next.toList
  · simp [countingParts_append_slash]

theorem moves_push {p : Path} {next : String} (hnext : (Path.mk next).isAbsolute = false) :
    (p.push next).moves = p.moves ++ (Path.mk next).moves := by
  rw [moves_eq, moves_eq p, moves_eq ⟨next⟩, hnext, isAbsolute_push hnext,
    countingParts_push hnext, List.map_append, List.append_assoc]
  rfl

theorem componentOfPart_eq_parent_iff {part : List Char} :
    componentOfPart part = .parent ↔ part = ['.', '.'] := by
  unfold componentOfPart
  by_cases hup : part = ['.', '.']
  · simp [hup]
  · simp [hup]

/-- A relative path leaves the folder that it is pushed onto if its first part that counts is a step
upwards. -/
theorem leavesAtOnce_push_iff {folder : Path} {next : String}
    (hnext : (Path.mk next).isAbsolute = false) :
    LeavesAtOnce folder (folder.push next) ↔
      (countingParts next.toList).head? = some ['.', '.'] := by
  unfold LeavesAtOnce
  simp only [moves_push hnext, List.append_cancel_left_eq]
  rw [moves_eq, hnext]
  cases countingParts next.toList with
  | nil => simp
  | cons part rest => simp [componentOfPart_eq_parent_iff]

/-! ### Addresses that go up again -/

/-- A text that does nothing but go up, or that goes up once more after the steps upwards at its
front, before anything is named. -/
def ClimbsAgain (cs : List Char) : Prop :=
  let rest := (cs.splitOn '/').dropWhile (· == ['.', '.'])
  rest = [] ∨ (counting rest).head? = some ['.', '.']

instance (cs : List Char) : Decidable (ClimbsAgain cs) :=
  inferInstanceAs (Decidable (_ ∨ _))

theorem splitOn_up (cs : List Char) :
    ('.' :: '.' :: '/' :: cs).splitOn '/' = ['.', '.'] :: cs.splitOn '/' :=
  splitOn_append_slash ['.', '.'] cs

theorem countingParts_dropHeres (cs : List Char) :
    countingParts (dropHeres cs) = countingParts cs := by
  fun_induction dropHeres cs with
  | case1 rest ih =>
      rw [ih]
      exact (countingParts_append_slash ['.'] rest).symm
  | case2 cs hhere => rfl

theorem countingParts_dropSlashes (cs : List Char) :
    countingParts (cs.dropWhile (· == '/')) = countingParts cs := by
  induction cs with
  | nil => rfl
  | cons c cs ih =>
      by_cases hc : c = '/'
      · subst hc
        rw [List.dropWhile_cons_of_pos (by simp), ih, countingParts_slash_cons]
      · rw [List.dropWhile_cons_of_neg (by simpa using hc)]

/-- What is left of a text without the steps upwards at its front starts with one just if the text
goes up again. -/
theorem head?_countingParts_dropUps (cs : List Char) :
    (countingParts (dropUps cs)).head? = some ['.', '.'] ↔ ClimbsAgain cs := by
  unfold ClimbsAgain
  fun_induction dropUps cs with
  | case1 rest ih =>
      rw [splitOn_up]
      exact ih
  | case2 cs hup =>
      rw [countingParts]
      cases hsplit : cs.splitOn '/' with
      | nil => exact absurd hsplit (List.splitOn_ne_nil '/' cs)
      | cons first others =>
          by_cases hfirst : first = ['.', '.']
          · -- A step upwards that was not removed is the last part.
            cases others with
            | nil => simp [hfirst, counting, isIdle]
            | cons second rest =>
                have hwhole : List.intercalate ['/'] (cs.splitOn '/') = cs :=
                  List.intercalate_splitOn '/'
                rw [hsplit, hfirst] at hwhole
                exact absurd hwhole.symm (hup _)
          · simp [hfirst]

theorem isAbsolute_normalizeTemplate (address : String) :
    (Path.mk (normalizeTemplate address)).isAbsolute = false := by
  have hslash := slash_not_prefix_normalizeTemplate address
  unfold isAbsolute
  cases hname : (normalizeTemplate address).toList with
  | nil => rfl
  | cons c cs =>
      rw [hname] at hslash
      have hc : c ≠ '/' := by
        rintro rfl
        exact hslash ⟨cs, rfl⟩
      simpa using hc

/-- The path of a template leaves the root at once just if its address goes up again. -/
theorem leavesAtOnce_normalizeTemplate_iff (root : Path) (address : String) :
    LeavesAtOnce root (root.push (normalizeTemplate address)) ↔
      ClimbsAgain (beforeQuery address) := by
  rw [leavesAtOnce_push_iff (isAbsolute_normalizeTemplate address), toList_normalizeTemplate,
    dropLeads, countingParts_dropSlashes, countingParts_dropHeres, head?_countingParts_dropUps]

end Path

/-! ### The template of an address -/

open Script Lookup

theorem Analysis.template?_of_address {m : Module} {table : Table} {site : Cursor} {scene : Scene}
    {session : Session} {address : String} (hsite : table.get? "templateUrl" = some site)
    (haddress : (string? m site scene session).1 = some address) :
    (template? m table scene session).1 =
      some { path := scene.root.push (Path.normalizeTemplate address), span := site.span } := by
  have haddressed : (addressedTemplate? m table scene session).1 =
      some { path := scene.root.push (Path.normalizeTemplate address), span := site.span } := by
    unfold addressedTemplate?
    rw [hsite]
    simp only
    rw [bind_run, haddress]
    rfl
  unfold template?
  rw [bind_run, haddressed]
  rfl

open NgIndex.Path in
/-- **Addresses of templates are cleaned as far as their front is in order.**  Of every address the
query is gone, and no slash is left at the front.  No step is left there either, and cleaning once
more changes nothing, just if the steps upwards come first, the steps to the same place after them,
and the slashes last.  The path of the template, which is the one that settings with the address
have, leaves the root at once just if the address does nothing but go up, or goes up again after the
steps upwards at its front. -/
theorem template_addresses_clean_iff_in_order (root : Path) (address : String) :
    let name := normalizeTemplate address
    '?' ∉ name.toList ∧ ¬ Lead.slash.spelling <+: name.toList ∧
      ((¬ Lead.up.spelling <+: name.toList ∧ ¬ Lead.here.spelling <+: name.toList) ↔
        InOrder (beforeQuery address)) ∧
      (normalizeTemplate name = name ↔ InOrder (beforeQuery address)) ∧
      (LeavesAtOnce root (root.push name) ↔ ClimbsAgain (beforeQuery address)) ∧
      ∀ (m : Module) (table : Table) (site : Cursor) (scene : Scene) (session : Session),
        scene.root = root → table.get? "templateUrl" = some site →
        (string? m site scene session).1 = some address →
        (Analysis.template? m table scene session).1 =
          some { path := root.push name, span := site.span } := by
  refine ⟨no_query_normalizeTemplate address, slash_not_prefix_normalizeTemplate address,
    normalizeTemplate_clean_iff address, normalizeTemplate_normalizeTemplate_iff address,
    leavesAtOnce_normalizeTemplate_iff root address, ?_⟩
  rintro m table site scene session rfl hsite haddress
  exact Analysis.template?_of_address hsite haddress

/-! ### An address in order and one that is not -/

namespace Addressed

def scene : Scene where
  root := ⟨"/app"⟩
  files := {}

/-- A script that registers a component whose template has an address with a front in order. -/
def script : Module :=
  .ofText ⟨"/app/main.js"⟩ "x.component('card', \x7b templateUrl: '../.././/card.html?v=1' \x7d)"

/-- The settings of the component. -/
def settings? : Option Table :=
  (Analysis.componentCalls script).head?.map fun call => Table.ofObject script call.2

/-- The text that the settings hold as the address. -/
theorem address_eq : (settings?.bind fun table => (table.get? "templateUrl").map fun site =>
    (string? script site scene (.start script.path)).1) = some (some "../.././/card.html?v=1") := by
  decide +kernel

end Addressed

open Addressed in
/-- Steps upwards, a step to the same place and a slash are all removed, and the template is found
below the root. -/
theorem ordered_address_clean :
    ∃ table site, settings? = some table ∧ table.get? "templateUrl" = some site ∧
      (string? script site scene (.start script.path)).1 = some "../.././/card.html?v=1" ∧
      (Analysis.template? script table scene (.start script.path)).1 =
        some { path := ⟨"/app/card.html"⟩, span := site.span } ∧
      ¬ Path.LeavesAtOnce scene.root ⟨"/app/card.html"⟩ := by
  obtain ⟨table, htable, hsite⟩ := Option.bind_eq_some_iff.mp address_eq
  obtain ⟨site, hsite, haddress⟩ := Option.map_eq_some_iff.mp hsite
  obtain ⟨-, -, -, -, hleaves, htemplate⟩ :=
    template_addresses_clean_iff_in_order scene.root "../.././/card.html?v=1"
  have hpath : scene.root.push (Path.normalizeTemplate "../.././/card.html?v=1") =
      ⟨"/app/card.html"⟩ := by
    decide +kernel
  rw [hpath] at hleaves
  have hclean := htemplate script table site scene (.start script.path) rfl hsite haddress
  rw [hpath] at hclean
  exact ⟨table, site, htable, hsite, haddress, hclean, hleaves.not.mpr (by decide +kernel)⟩

/-- A step upwards behind a step to the same place is kept.  It stands at the front of what comes
out, cleaning once more removes it, and the path of the template leaves the root.  So does the path
for an address that is a single step upwards. -/
theorem mixed_address_not_clean :
    Path.normalizeTemplate "./../card.html" = "../card.html" ∧
      Path.Lead.up.spelling <+: (Path.normalizeTemplate "./../card.html").toList ∧
      Path.normalizeTemplate (Path.normalizeTemplate "./../card.html") = "card.html" ∧
      Path.LeavesAtOnce ⟨"/app"⟩ (Path.push ⟨"/app"⟩ (Path.normalizeTemplate "./../card.html")) ∧
      Path.LeavesAtOnce ⟨"/app"⟩ (Path.push ⟨"/app"⟩ (Path.normalizeTemplate "..")) := by
  refine ⟨by decide +kernel, by decide +kernel, by decide +kernel, ?_, ?_⟩
  · exact (Path.leavesAtOnce_normalizeTemplate_iff _ _).mpr (by decide +kernel)
  · exact (Path.leavesAtOnce_normalizeTemplate_iff _ _).mpr (by decide +kernel)

end NgIndex
