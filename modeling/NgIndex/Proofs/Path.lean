import Mathlib.Data.List.Induction
import NgIndex.Path

/-!
# Paths by front and parts

Every path is spelled by a front and a list of parts.  In this form it can be read off what the
parent and the components of a path are.  A path that ends in a part that counts is tidy: a name
that is pushed onto it is what its parent takes away again.  Directories of files are tidy.
-/

namespace NgIndex
namespace Path

/-! ### Parts that count -/

theorem dropIdleEnd_concat (ps : List (List Char)) (part : List Char) :
    dropIdleEnd (ps ++ [part]) = if isIdle part then dropIdleEnd ps else ps ++ [part] := by
  unfold dropIdleEnd Text.dropTrailing
  rw [List.reverse_append, List.reverse_singleton, List.singleton_append, List.dropWhile_cons]
  split
  · rfl
  · simp

theorem dropIdleEnd_idem (ps : List (List Char)) :
    dropIdleEnd (dropIdleEnd ps) = dropIdleEnd ps := by
  induction ps using List.reverseRecOn with
  | nil => rfl
  | append_singleton ps part ih =>
      rw [dropIdleEnd_concat]
      by_cases h : isIdle part = true
      · rw [if_pos h, ih]
      · rw [if_neg h, dropIdleEnd_concat, if_neg h]

theorem dropIdleEnd_prefix_self (ps : List (List Char)) : dropIdleEnd ps <+: ps := by
  induction ps using List.reverseRecOn with
  | nil => exact List.prefix_refl _
  | append_singleton ps part ih =>
      rw [dropIdleEnd_concat]
      split
      · exact ih.trans (List.prefix_append _ _)
      · exact List.prefix_refl _

theorem withoutLast?_of_dropIdleEnd_eq_nil {ps : List (List Char)} (h : dropIdleEnd ps = []) :
    withoutLast? ps = none := by
  simp [withoutLast?, h]

theorem withoutLast?_concat (ps : List (List Char)) {part : List Char} (h : isIdle part = false) :
    withoutLast? (ps ++ [part]) = some (dropIdleEnd ps) := by
  have hkept : dropIdleEnd (ps ++ [part]) = ps ++ [part] := by
    rw [dropIdleEnd_concat, if_neg (by simp [h])]
  unfold withoutLast?
  rw [hkept]
  split
  · next hnil => simp at hnil
  · rw [List.dropLast_concat]

/-- Parts either do not count at all, or there is a last one that counts. -/
theorem dropIdleEnd_eq_nil_or_concat (ps : List (List Char)) :
    dropIdleEnd ps = [] ∨
      ∃ front last, dropIdleEnd ps = front ++ [last] ∧ isIdle last = false := by
  induction ps using List.reverseRecOn with
  | nil => exact .inl rfl
  | append_singleton ps part ih =>
      rw [dropIdleEnd_concat]
      by_cases h : isIdle part = true
      · rwa [if_pos h]
      · rw [if_neg h]
        exact .inr ⟨ps, part, rfl, by simpa using h⟩

theorem withoutLast?_dropIdleEnd (ps : List (List Char)) :
    withoutLast? (dropIdleEnd ps) = withoutLast? ps := by
  unfold withoutLast?
  rw [dropIdleEnd_idem]

/-! ### Fronts -/

/-- What stands before the parts of a path: nothing, a dot, or the slash of the root. -/
inductive Front where
  | bare
  | current
  | root
  deriving DecidableEq, Repr

/-- The components that a front stands for. -/
def Front.components : Front → List Component
  | .bare => []
  | .current => [.current]
  | .root => [.root]

/-- The path with a front and parts. -/
def spelled : Front → List (List Char) → Path
  | .bare, ps => ⟨String.ofList (spellParts ps)⟩
  | .current, ps => ⟨String.ofList (spellParts (['.'] :: ps))⟩
  | .root, ps => ⟨String.ofList ('/' :: spellParts ps)⟩

/-- Parts that are read again as they were spelled.  Without a front the first part has to show
that it is none. -/
structure Readable (front : Front) (ps : List (List Char)) : Prop where
  noSlash : ∀ part ∈ ps, '/' ∉ part
  head : front = .bare → ∀ part ∈ ps.head?, part ≠ [] ∧ part ≠ ['.']

theorem readable_nil (front : Front) : Readable front [] :=
  ⟨fun _ hpart => absurd hpart List.not_mem_nil, fun _ _ hpart => by simp at hpart⟩

theorem Readable.of_front {front : Front} {ps qs : List (List Char)} (h : Readable front ps)
    (hqs : qs <+: ps) : Readable front qs where
  noSlash part hpart := h.noSlash part (hqs.subset hpart)
  head hfront part hpart := by
    obtain ⟨rest, rfl⟩ := hqs
    refine h.head hfront part ?_
    cases qs with
    | nil => simp at hpart
    | cons first others => simpa using hpart

/-- The parts of a path as they are read; a path without any has one that is empty. -/
def readParts (ps : List (List Char)) : List (List Char) :=
  if ps = [] then [[]] else ps

theorem splitOn_spellParts {ps : List (List Char)} (h : ∀ part ∈ ps, '/' ∉ part) :
    (spellParts ps).splitOn '/' = readParts ps := by
  unfold readParts
  split
  · next hps =>
      subst hps
      rfl
  · next hps => exact List.splitOn_intercalate '/' h hps

theorem dropIdleEnd_readParts (ps : List (List Char)) :
    dropIdleEnd (readParts ps) = dropIdleEnd ps := by
  unfold readParts
  split
  · next hps =>
      subst hps
      rfl
  · rfl

theorem filter_readParts (ps : List (List Char)) :
    ((readParts ps).filter fun part => !isIdle part) = ps.filter fun part => !isIdle part := by
  unfold readParts
  split
  · next hps =>
      subst hps
      rfl
  · rfl

section Reading

variable {front : Front} {ps : List (List Char)}

theorem Readable.isAbsolute_spelled (h : Readable front ps) :
    (spelled front ps).isAbsolute = decide (front = .root) := by
  cases front with
  | root => simp [spelled, isAbsolute]
  | current =>
      cases ps with
      | nil => simp [spelled, isAbsolute, spellParts]
      | cons first rest => simp [spelled, isAbsolute, spellParts]
  | bare =>
      cases ps with
      | nil => simp [spelled, isAbsolute, spellParts]
      | cons first rest =>
          have hfirst := h.noSlash first List.mem_cons_self
          cases first with
          | nil => exact absurd rfl (h.head rfl [] (by simp)).1
          | cons c cs =>
              have hc : c ≠ '/' := fun hc => hfirst (hc ▸ List.mem_cons_self)
              cases rest with
              | nil => simp [spelled, isAbsolute, spellParts, hc]
              | cons second others => simp [spelled, isAbsolute, spellParts, hc]

theorem Readable.parts_spelled (h : Readable front ps) :
    (spelled front ps).parts = if front = .current then ['.'] :: ps else readParts ps := by
  unfold parts
  rw [h.isAbsolute_spelled]
  cases front with
  | root => simpa [spelled] using splitOn_spellParts h.noSlash
  | bare => simpa [spelled] using splitOn_spellParts h.noSlash
  | current =>
      have hdot : ∀ part ∈ ['.'] :: ps, '/' ∉ part := by
        intro part hpart
        rcases List.mem_cons.mp hpart with rfl | hpart
        · decide
        · exact h.noSlash part hpart
      simpa [spelled, readParts] using splitOn_spellParts hdot

theorem Readable.startsAtCurrent_spelled (h : Readable front ps) :
    (spelled front ps).startsAtCurrent = decide (front = .current) := by
  unfold startsAtCurrent
  rw [h.isAbsolute_spelled, h.parts_spelled]
  cases front with
  | root => rfl
  | current => rfl
  | bare =>
      cases ps with
      | nil => rfl
      | cons first rest =>
          have hfirst : first ≠ ['.'] := (h.head rfl first (by simp)).2
          simp [readParts, hfirst]

theorem Readable.components_spelled (h : Readable front ps) :
    (spelled front ps).components =
      front.components ++ (ps.filter fun part => !isIdle part).map componentOfPart := by
  unfold components
  rw [h.isAbsolute_spelled, h.startsAtCurrent_spelled, h.parts_spelled]
  cases front with
  | root => simp [Front.components, filter_readParts]
  | bare => simp [Front.components, filter_readParts]
  | current =>
      have hdot : isIdle ['.'] = true := rfl
      simp [Front.components, hdot]

theorem Readable.parent?_spelled (h : Readable front ps) :
    (spelled front ps).parent? =
      match withoutLast? ps with
      | some qs => some (spelled front qs)
      | none => if front = .current then some ⟨""⟩ else none := by
  have hread : withoutLast? (readParts ps) = withoutLast? ps := by
    unfold withoutLast?
    rw [dropIdleEnd_readParts]
  unfold parent?
  rw [h.isAbsolute_spelled, h.startsAtCurrent_spelled, h.parts_spelled]
  cases front with
  | root =>
      simp only [decide_true, if_true, reduceCtorEq, if_false, hread]
      cases withoutLast? ps with
      | none => rfl
      | some qs => rfl
  | bare =>
      simp only [reduceCtorEq, decide_false, Bool.false_eq_true, if_false, hread]
      cases withoutLast? ps with
      | none => rfl
      | some qs => rfl
  | current =>
      simp only [reduceCtorEq, decide_false, decide_true, Bool.false_eq_true, if_false, if_true,
        List.tail_cons]
      cases withoutLast? ps with
      | none => rfl
      | some qs => rfl

end Reading

theorem not_mem_of_mem_splitOn {cs part : List Char} (h : part ∈ cs.splitOn '/') :
    '/' ∉ part := by
  induction cs generalizing part with
  | nil =>
      rw [List.splitOn_nil, List.mem_singleton] at h
      rw [h]
      exact List.not_mem_nil
  | cons c cs ih =>
      rw [List.splitOn_cons_eq_if_modifyHead] at h
      split at h
      · rcases List.mem_cons.mp h with rfl | h
        · exact List.not_mem_nil
        · exact ih h
      · next hc =>
          cases hsplit : cs.splitOn '/' with
          | nil => exact absurd hsplit (List.splitOn_ne_nil _ _)
          | cons first rest =>
              rw [hsplit, List.modifyHead_cons] at h
              rw [hsplit] at ih
              rcases List.mem_cons.mp h with rfl | h
              · intro hmem
                rcases List.mem_cons.mp hmem with hslash | hmem
                · exact hc (by simp [← hslash])
                · exact ih List.mem_cons_self hmem
              · exact ih (List.mem_cons_of_mem _ h)

theorem eq_mk_of_toList {p : Path} {cs : List Char} (h : p.text.toList = cs) :
    p = ⟨String.ofList cs⟩ := by
  rw [← h, String.ofList_toList]

/-- Every path has a front and parts that are read again as they are spelled. -/
theorem exists_spelled (p : Path) : ∃ front ps, Readable front ps ∧ p = spelled front ps := by
  cases htext : p.text.toList with
  | nil =>
      refine ⟨.bare, [], ⟨fun _ h => absurd h List.not_mem_nil, fun _ _ h => by simp at h⟩, ?_⟩
      exact eq_mk_of_toList htext
  | cons c cs =>
      by_cases hc : c = '/'
      · subst hc
        refine ⟨.root, cs.splitOn '/', ⟨fun _ => not_mem_of_mem_splitOn, fun h => nomatch h⟩, ?_⟩
        rw [eq_mk_of_toList htext, spelled, spellParts, List.intercalate_splitOn]
      · obtain ⟨first, rest, hsplit⟩ :
            ∃ first rest, (c :: cs).splitOn '/' = (c :: first) :: rest := by
          rw [List.splitOn_cons_eq_if_modifyHead, if_neg (by simpa using hc)]
          cases hsplit : cs.splitOn '/' with
          | nil => exact absurd hsplit (List.splitOn_ne_nil _ _)
          | cons first rest => exact ⟨first, rest, rfl⟩
        have hslash : ∀ part ∈ (c :: first) :: rest, '/' ∉ part :=
          fun part hpart => not_mem_of_mem_splitOn (hsplit ▸ hpart)
        have hwhole : p = ⟨String.ofList (spellParts ((c :: first) :: rest))⟩ := by
          rw [← hsplit, spellParts, List.intercalate_splitOn]
          exact eq_mk_of_toList htext
        by_cases hdot : c :: first = ['.']
        · rw [hdot] at hwhole hslash
          exact ⟨.current, rest, ⟨fun part h => hslash part (List.mem_cons_of_mem _ h),
            fun h => nomatch h⟩, hwhole⟩
        · refine ⟨.bare, (c :: first) :: rest, ⟨hslash, ?_⟩, hwhole⟩
          rintro - part hpart
          rw [List.head?_cons, Option.mem_some_iff] at hpart
          rw [← hpart]
          exact ⟨List.cons_ne_nil _ _, hdot⟩

/-! ### Tidy paths -/

/-- A path whose last part counts, or that has a front alone. -/
def Tidy (p : Path) : Prop :=
  ∃ front ps, Readable front ps ∧ dropIdleEnd ps = ps ∧ p = spelled front ps

/-- A name of a file or folder. -/
structure IsName (name : String) : Prop where
  noSlash : '/' ∉ name.toList
  counts : isIdle name.toList = false
  notUp : name.toList ≠ ['.', '.']

instance (name : String) : Decidable (IsName name) :=
  decidable_of_iff
    ('/' ∉ name.toList ∧ isIdle name.toList = false ∧ name.toList ≠ ['.', '.'])
    ⟨fun h => ⟨h.1, h.2.1, h.2.2⟩, fun h => ⟨h.noSlash, h.counts, h.notUp⟩⟩

theorem tidy_empty : Tidy ⟨""⟩ :=
  ⟨.bare, [], readable_nil .bare, rfl, rfl⟩

theorem filter_dropIdleEnd (ps : List (List Char)) :
    ((dropIdleEnd ps).filter fun part => !isIdle part) = ps.filter fun part => !isIdle part := by
  induction ps using List.reverseRecOn with
  | nil => rfl
  | append_singleton ps part ih =>
      rw [dropIdleEnd_concat]
      by_cases h : isIdle part = true
      · rw [if_pos h, ih]
        simp [h]
      · rw [if_neg h]

theorem Readable.parent?_cases {front : Front} {ps : List (List Char)} {q : Path}
    (hread : Readable front ps) (h : (spelled front ps).parent? = some q) :
    (front = .current ∧ q = ⟨""⟩) ∨
      ∃ init last, dropIdleEnd ps = init ++ [last] ∧ isIdle last = false ∧
        q = spelled front (dropIdleEnd init) := by
  rw [hread.parent?_spelled] at h
  rcases dropIdleEnd_eq_nil_or_concat ps with hnil | ⟨init, last, hlast, hcounts⟩
  · rw [withoutLast?_of_dropIdleEnd_eq_nil hnil] at h
    by_cases hfront : front = .current
    · simp only [hfront, if_true] at h
      exact .inl ⟨hfront, (Option.some.inj h).symm⟩
    · simp only [hfront, if_false] at h
      cases h
  · rw [← withoutLast?_dropIdleEnd, hlast, withoutLast?_concat init hcounts] at h
    exact .inr ⟨init, last, hlast, hcounts, (Option.some.inj h).symm⟩

theorem Readable.dropIdleEnd_init {front : Front} {ps init : List (List Char)} {last : List Char}
    (hread : Readable front ps) (hlast : dropIdleEnd ps = init ++ [last]) :
    Readable front (dropIdleEnd init) := by
  have hinit : init <+: dropIdleEnd ps := hlast ▸ List.prefix_append init [last]
  exact hread.of_front
    ((dropIdleEnd_prefix_self init).trans (hinit.trans (dropIdleEnd_prefix_self ps)))

theorem tidy_of_parent? {p q : Path} (h : p.parent? = some q) : Tidy q := by
  obtain ⟨front, ps, hread, rfl⟩ := exists_spelled p
  rcases hread.parent?_cases h with ⟨-, rfl⟩ | ⟨init, last, hlast, -, rfl⟩
  · exact tidy_empty
  · exact ⟨front, _, hread.dropIdleEnd_init hlast, dropIdleEnd_idem _, rfl⟩

theorem tidy_directory (p : Path) : Tidy p.directory := by
  unfold directory
  cases h : p.parent? with
  | none => exact tidy_empty
  | some q => exact tidy_of_parent? h

theorem Tidy.pop {p : Path} (h : Tidy p) : Tidy p.pop := by
  unfold Path.pop
  cases hparent : p.parent? with
  | none => exact h
  | some q => exact tidy_of_parent? hparent

/-- A parent has fewer components. -/
theorem length_components_lt_of_parent? {p q : Path} (h : p.parent? = some q) :
    q.components.length < p.components.length := by
  obtain ⟨front, ps, hread, rfl⟩ := exists_spelled p
  rw [hread.components_spelled]
  rcases hread.parent?_cases h with ⟨rfl, rfl⟩ | ⟨init, last, hlast, hcounts, rfl⟩
  · simp [Front.components, components, parts, isAbsolute, startsAtCurrent, isIdle]
  · rw [(hread.dropIdleEnd_init hlast).components_spelled, filter_dropIdleEnd,
      ← filter_dropIdleEnd ps, hlast]
    simp [hcounts]

/-! ### Names pushed onto tidy paths -/

theorem spellParts_concat {ps : List (List Char)} (h : ps ≠ []) (part : List Char) :
    spellParts (ps ++ [part]) = spellParts ps ++ '/' :: part := by
  induction ps with
  | nil => exact absurd rfl h
  | cons first rest ih =>
      cases rest with
      | nil => simp [spellParts]
      | cons second others =>
          have htail := ih (List.cons_ne_nil _ _)
          unfold spellParts at htail ⊢
          simp only [List.cons_append, List.intercalate_cons_cons] at htail ⊢
          rw [htail]
          simp

theorem getLast?_spellParts_concat (init : List (List Char)) {last : List Char} (h : last ≠ []) :
    (spellParts (init ++ [last])).getLast? = last.getLast? := by
  cases init with
  | nil => simp [spellParts]
  | cons first rest =>
      rw [spellParts_concat (List.cons_ne_nil _ _), List.getLast?_append,
        List.getLast?_cons_of_ne_nil h, List.getLast?_eq_some_getLast h]
      rfl

theorem IsName.ne_nil {name : String} (h : IsName name) : name.toList ≠ [] := by
  intro hnil
  have hcounts := h.counts
  rw [hnil] at hcounts
  cases hcounts

theorem IsName.isAbsolute {name : String} (h : IsName name) :
    (Path.mk name).isAbsolute = false := by
  unfold Path.isAbsolute
  cases hname : name.toList with
  | nil => rfl
  | cons c cs =>
      have hc : c ≠ '/' := fun hc => h.noSlash (by simp [hname, hc])
      simp [hc]

theorem push_of_text {p : Path} {cs : List Char} (htext : p.text.toList = cs) (hcs : cs ≠ [])
    (hend : cs.getLast? ≠ some '/') {name : String} (hname : IsName name) :
    p.push name = ⟨String.ofList (cs ++ '/' :: name.toList)⟩ := by
  have hempty : p.text ≠ "" := by
    intro hempty
    rw [hempty] at htext
    exact hcs htext.symm
  unfold push
  rw [hname.isAbsolute, if_neg Bool.false_ne_true, if_neg (by simp [hempty, htext, hend])]
  apply eq_mk_of_toList
  simp [htext]

theorem Readable.concat {front : Front} {ps : List (List Char)} (h : Readable front ps)
    {name : String} (hname : IsName name) : Readable front (ps ++ [name.toList]) where
  noSlash part hpart := by
    rcases List.mem_append.mp hpart with hpart | hpart
    · exact h.noSlash part hpart
    · rw [List.mem_singleton.mp hpart]
      exact hname.noSlash
  head hfront part hpart := by
    cases ps with
    | nil =>
        rw [List.nil_append, List.head?_cons, Option.mem_some_iff] at hpart
        rw [← hpart]
        refine ⟨hname.ne_nil, fun hdot => ?_⟩
        have hcounts := hname.counts
        rw [hdot] at hcounts
        cases hcounts
    | cons first rest => exact h.head hfront part (by simpa using hpart)

/-- A name pushed onto a front alone. -/
theorem push_front (front : Front) {name : String} (hname : IsName name) :
    (spelled front []).push name = spelled front [name.toList] := by
  cases front with
  | bare =>
      unfold push
      rw [hname.isAbsolute]
      simp [spelled, spellParts]
  | root =>
      unfold push
      rw [hname.isAbsolute]
      apply eq_mk_of_toList
      simp [spelled, spellParts]
  | current =>
      have htext : (spelled .current []).text.toList = ['.'] := rfl
      rw [push_of_text htext (by simp) (by simp) hname]
      simp [spelled, spellParts]

/-- A name pushed onto a path that does not end in a slash. -/
theorem Readable.push_concat {front : Front} {init : List (List Char)} {last : List Char}
    (h : Readable front (init ++ [last])) (hne : last ≠ []) {name : String} (hname : IsName name) :
    (spelled front (init ++ [last])).push name =
      spelled front (init ++ [last] ++ [name.toList]) := by
  -- The spelling does not end in a slash, so one is put in front of the name.
  have hend (more : List (List Char)) :
      (spellParts (more ++ [last])).getLast? ≠ some '/' := by
    rw [getLast?_spellParts_concat _ hne]
    intro hslash
    exact h.noSlash last (by simp) (List.mem_of_getLast? hslash)
  have hnil (more : List (List Char)) : spellParts (more ++ [last]) ≠ [] := by
    intro hnil
    have hlast := getLast?_spellParts_concat more hne
    rw [hnil, List.getLast?_nil] at hlast
    exact hne (List.getLast?_eq_none_iff.mp hlast.symm)
  have hgrown (more : List (List Char)) :
      spellParts (more ++ [last] ++ [name.toList]) =
        spellParts (more ++ [last]) ++ '/' :: name.toList :=
    spellParts_concat (by simp) _
  cases front with
  | bare =>
      have htext : (spelled .bare (init ++ [last])).text.toList =
          spellParts (init ++ [last]) := by
        simp [spelled]
      rw [push_of_text htext (hnil init) (hend init) hname, ← hgrown init]
      rfl
  | root =>
      have htext : (spelled .root (init ++ [last])).text.toList =
          '/' :: spellParts (init ++ [last]) := by
        simp [spelled]
      have hlast : ('/' :: spellParts (init ++ [last])).getLast? ≠ some '/' := by
        rw [List.getLast?_cons_of_ne_nil (hnil init)]
        exact hend init
      rw [push_of_text htext (List.cons_ne_nil _ _) hlast hname, List.cons_append, ← hgrown init]
      rfl
  | current =>
      have htext : (spelled .current (init ++ [last])).text.toList =
          spellParts ((['.'] :: init) ++ [last]) := by
        simp [spelled]
      rw [push_of_text htext (hnil _) (hend _) hname, ← hgrown (['.'] :: init)]
      rfl

theorem Readable.push_spelled {front : Front} {ps : List (List Char)} (h : Readable front ps)
    (hps : dropIdleEnd ps = ps) {name : String} (hname : IsName name) :
    (spelled front ps).push name = spelled front (ps ++ [name.toList]) := by
  rcases dropIdleEnd_eq_nil_or_concat ps with hnil | ⟨init, last, hlast, hcounts⟩
  · rw [hps] at hnil
    subst hnil
    exact push_front front hname
  · rw [hps] at hlast
    subst hlast
    refine h.push_concat ?_ hname
    rintro rfl
    cases hcounts

theorem dropIdleEnd_concat_name (ps : List (List Char)) {name : String} (hname : IsName name) :
    dropIdleEnd (ps ++ [name.toList]) = ps ++ [name.toList] := by
  rw [dropIdleEnd_concat, hname.counts]
  rfl

theorem Tidy.push {p : Path} (h : Tidy p) {name : String} (hname : IsName name) :
    Tidy (p.push name) := by
  obtain ⟨front, ps, hread, hps, rfl⟩ := h
  exact ⟨front, _, hread.concat hname, dropIdleEnd_concat_name ps hname,
    hread.push_spelled hps hname⟩

/-- The parent takes away the name that was pushed last. -/
theorem Tidy.parent?_push {p : Path} (h : Tidy p) {name : String} (hname : IsName name) :
    (p.push name).parent? = some p := by
  obtain ⟨front, ps, hread, hps, rfl⟩ := h
  rw [hread.push_spelled hps hname, (hread.concat hname).parent?_spelled,
    withoutLast?_concat ps hname.counts, hps]

/-- The path with names pushed onto it one after another. -/
def below (p : Path) (names : List String) : Path :=
  names.foldl push p

@[simp] theorem below_nil (p : Path) : p.below [] = p := rfl

theorem below_concat (p : Path) (names : List String) (name : String) :
    p.below (names ++ [name]) = (p.below names).push name := by
  rw [below, List.foldl_append]
  rfl

theorem Tidy.below {p : Path} {names : List String} (h : Tidy p)
    (hnames : ∀ name ∈ names, IsName name) : Tidy (p.below names) := by
  induction names generalizing p with
  | nil => exact h
  | cons name rest ih =>
      exact ih (h.push (hnames name List.mem_cons_self))
        fun other hother => hnames other (List.mem_cons_of_mem _ hother)

/-! ### Endings -/

/-- What may be put at the end of a path so that a name stays a name. -/
def IsEnding (ending : String) : Prop :=
  ending = "" ∨ '/' ∉ ending.toList ∧ 2 < ending.toList.length

theorem counts_of_two_lt_length {part : List Char} (h : 2 < part.length) :
    isIdle part = false ∧ part ≠ ['.', '.'] := by
  match part, h with
  | _ :: _ :: _ :: _, _ => simp [isIdle]

theorem isName_of_two_lt_length {name : String} (hslash : '/' ∉ name.toList)
    (hlength : 2 < name.toList.length) : IsName name :=
  ⟨hslash, (counts_of_two_lt_length hlength).1, (counts_of_two_lt_length hlength).2⟩

theorem IsName.append {name ending : String} (hname : IsName name) (hending : IsEnding ending) :
    IsName (name ++ ending) := by
  rcases hending with rfl | ⟨hslash, hlength⟩
  · rwa [String.append_empty]
  · apply isName_of_two_lt_length
    · rw [String.toList_append, List.mem_append]
      rintro (h | h)
      · exact hname.noSlash h
      · exact hslash h
    · rw [String.toList_append, List.length_append]
      omega

theorem push_append {p : Path} {name : String} (hname : IsName name) {ending : String}
    (hending : IsEnding ending) :
    (⟨(p.push name).text ++ ending⟩ : Path) = p.push (name ++ ending) := by
  unfold push
  rw [hname.isAbsolute, (hname.append hending).isAbsolute]
  simp only [Bool.false_eq_true, if_false]
  split
  · rw [String.append_assoc]
  · rw [String.append_assoc]

theorem spellParts_concat_append (init : List (List Char)) (last ending : List Char) :
    spellParts (init ++ [last ++ ending]) = spellParts (init ++ [last]) ++ ending := by
  cases init with
  | nil => simp [spellParts]
  | cons first rest =>
      rw [spellParts_concat (List.cons_ne_nil _ _), spellParts_concat (List.cons_ne_nil _ _)]
      simp

theorem spelled_append (front : Front) (init : List (List Char)) (last : List Char)
    (ending : String) :
    (⟨(spelled front (init ++ [last])).text ++ ending⟩ : Path) =
      spelled front (init ++ [last ++ ending.toList]) := by
  cases front with
  | bare =>
      rw [spelled, spelled, spellParts_concat_append, String.ofList_append, String.ofList_toList]
  | root =>
      rw [spelled, spelled, spellParts_concat_append, ← List.cons_append, String.ofList_append,
        String.ofList_toList]
  | current =>
      have hparts := spellParts_concat_append (['.'] :: init) last ending.toList
      rw [List.cons_append, List.cons_append] at hparts
      rw [spelled, spelled, hparts, String.ofList_append, String.ofList_toList]

theorem Tidy.directory_push {p : Path} (h : Tidy p) {name : String} (hname : IsName name) :
    (p.push name).directory = p := by
  unfold directory
  rw [h.parent?_push hname, Option.getD_some]

/-- An ending after a front alone.  After a dot it makes a hidden name, which lies where the dot
does. -/
theorem directory_append_front (front : Front) {ending : String} (hslash : '/' ∉ ending.toList)
    (hlength : 2 < ending.toList.length) :
    (Path.mk ((spelled front []).text ++ ending)).directory = spelled front [] ∨
      (Path.mk ((spelled front []).text ++ ending)).directory = (spelled front []).directory := by
  have hname : IsName ending := isName_of_two_lt_length hslash hlength
  have hjoined (hfront : front ≠ .current) :
      (⟨(spelled front []).text ++ ending⟩ : Path) = (spelled front []).push ending := by
    unfold Path.push
    rw [hname.isAbsolute]
    cases front with
    | bare => rfl
    | root => rfl
    | current => exact absurd rfl hfront
  cases front with
  | bare =>
      rw [hjoined (by decide)]
      exact .inl (Tidy.directory_push ⟨.bare, [], readable_nil _, rfl, rfl⟩ hname)
  | root =>
      rw [hjoined (by decide)]
      exact .inl (Tidy.directory_push ⟨.root, [], readable_nil _, rfl, rfl⟩ hname)
  | current =>
      -- The dot becomes part of a name, so the path is read without a front.
      have hdotted : IsName ("." ++ ending) := by
        apply isName_of_two_lt_length
        · simpa using hslash
        · rw [String.toList_append, List.length_append]
          omega
      have hpush : (⟨(spelled .current []).text ++ ending⟩ : Path) =
          (⟨""⟩ : Path).push ("." ++ ending) := by
        unfold Path.push
        rw [hdotted.isAbsolute]
        simp [spelled, spellParts]
      rw [hpush, tidy_empty.directory_push hdotted]
      exact .inr rfl

/-- An ending after a name gives another name in the same directory. -/
theorem Readable.directory_append {front : Front} {init : List (List Char)} {last : List Char}
    (h : Readable front (init ++ [last])) (hcounts : isIdle last = false) {ending : String}
    (hslash : '/' ∉ ending.toList) (hlength : 2 < ending.toList.length) :
    (Path.mk ((spelled front (init ++ [last])).text ++ ending)).directory =
      (spelled front (init ++ [last])).directory := by
  have hlong : 2 < (last ++ ending.toList).length := by
    rw [List.length_append]
    omega
  have hname : IsName (String.ofList (last ++ ending.toList)) := by
    apply isName_of_two_lt_length
    · rw [String.toList_ofList, List.mem_append]
      rintro (hmem | hmem)
      · exact h.noSlash last (by simp) hmem
      · exact hslash hmem
    · rwa [String.toList_ofList]
  have hinit : Readable front init := h.of_front (List.prefix_append _ _)
  have hread : Readable front (init ++ [last ++ ending.toList]) := by
    simpa using hinit.concat hname
  unfold directory
  rw [spelled_append, h.parent?_spelled, hread.parent?_spelled, withoutLast?_concat init hcounts,
    withoutLast?_concat init (counts_of_two_lt_length hlong).1]

/-- A path with an ending lies where the path does, or directly in it. -/
theorem Tidy.directory_append {p : Path} (h : Tidy p) {ending : String}
    (hending : IsEnding ending) :
    (Path.mk (p.text ++ ending)).directory = p ∨
      (Path.mk (p.text ++ ending)).directory = p.directory := by
  rcases hending with rfl | ⟨hslash, hlength⟩
  · rw [String.append_empty]
    exact .inr rfl
  · obtain ⟨front, ps, hread, hps, rfl⟩ := h
    rcases dropIdleEnd_eq_nil_or_concat ps with hnil | ⟨init, last, hlast, hcounts⟩
    · rw [hps] at hnil
      subst hnil
      exact directory_append_front front hslash hlength
    · rw [hps] at hlast
      subst hlast
      exact .inr (hread.directory_append hcounts hslash hlength)

/-! ### Components of relative paths -/

theorem isName_of_mem_components {p : Path} {name : String} (h : .normal name ∈ p.components) :
    IsName name := by
  obtain ⟨front, ps, hread, rfl⟩ := exists_spelled p
  rw [hread.components_spelled] at h
  rcases List.mem_append.mp h with h | h
  · cases front with
    | bare => simp [Front.components] at h
    | current => simp [Front.components] at h
    | root => simp [Front.components] at h
  · obtain ⟨part, hpart, hcomponent⟩ := List.mem_map.mp h
    obtain ⟨hmem, hcounts⟩ := List.mem_filter.mp hpart
    unfold componentOfPart at hcomponent
    split at hcomponent
    · cases hcomponent
    · next hup =>
        cases hcomponent
        refine ⟨?_, ?_, ?_⟩
        · rw [String.toList_ofList]
          exact hread.noSlash part hmem
        · rw [String.toList_ofList]
          simpa using hcounts
        · rw [String.toList_ofList]
          simpa using hup

theorem root_not_mem_components {p : Path} (h : p.isAbsolute = false) : .root ∉ p.components := by
  obtain ⟨front, ps, hread, rfl⟩ := exists_spelled p
  rw [hread.isAbsolute_spelled] at h
  rw [hread.components_spelled, List.mem_append]
  rintro (hroot | hroot)
  · cases front with
    | bare => simp [Front.components] at hroot
    | current => simp [Front.components] at hroot
    | root => simp at h
  · obtain ⟨part, -, hcomponent⟩ := List.mem_map.mp hroot
    unfold componentOfPart at hcomponent
    split at hcomponent
    · cases hcomponent
    · cases hcomponent

theorem length_components_le (p : Path) : p.components.length ≤ p.parts.length + 1 := by
  have hbody : ((p.parts.filter fun part => !isIdle part).map componentOfPart).length ≤
      p.parts.length := by
    rw [List.length_map]
    exact List.length_filter_le _ _
  unfold components
  split
  · exact Nat.succ_le_succ hbody
  · split
    · exact Nat.succ_le_succ hbody
    · exact Nat.le_succ_of_le hbody

end Path
end NgIndex
