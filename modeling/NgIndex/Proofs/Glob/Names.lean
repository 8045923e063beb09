import NgIndex.Proofs.Glob.Match
import NgIndex.Proofs.Path.Below
import NgIndex.Proofs.Text.Bytes

/-!
# Glob patterns on paths of names

The bytes of a path that is spelled by names are those of the names with slashes between them.  Any
directories at the front of a pattern stand for the first few names, and the rest of the pattern is
matched against the names that are left.  For the common patterns this comes to a condition on
single names: on the last one, on one in front of it or on any of them.
-/

namespace NgIndex
namespace Glob

open Text (encode)

/-! ### Parts and slashes -/

/-- Parts with slashes between them. -/
def joined (parts : List (List UInt8)) : List UInt8 :=
  [slash].intercalate parts

theorem joined_singleton (part : List UInt8) : joined [part] = part :=
  List.intercalate_singleton

theorem joined_cons {rest : List (List UInt8)} (hrest : rest ≠ []) (part : List UInt8) :
    joined (part :: rest) = part ++ slash :: joined rest := by
  unfold joined
  rw [List.intercalate_cons_of_ne_nil hrest]
  simp

theorem joined_append {init rest : List (List UInt8)} (hinit : init ≠ []) (hrest : rest ≠ []) :
    joined (init ++ rest) = joined init ++ slash :: joined rest := by
  induction init with
  | nil => exact absurd rfl hinit
  | cons part init ih =>
      by_cases hlast : init = []
      · rw [hlast, List.singleton_append, joined_cons hrest, joined_singleton]
      · rw [List.cons_append, joined_cons (by simp [hrest]), ih hlast, joined_cons hlast,
          List.append_assoc, List.cons_append]

/-- What holds no slash does not reach past one. -/
theorem prefix_of_slash_not_mem {bs front back : List UInt8} (hbs : slash ∉ bs)
    (h : bs <+: front ++ slash :: back) : bs <+: front := by
  rcases List.prefix_or_prefix_of_prefix h (List.prefix_append front _) with hle | ⟨more, rfl⟩
  · exact hle
  · cases more with
    | nil => simp
    | cons b more =>
        obtain ⟨rfl, -⟩ := List.cons_prefix_cons.mp ((List.prefix_append_right_inj front).mp h)
        exact absurd (List.mem_append_right front List.mem_cons_self) hbs

theorem suffix_of_slash_not_mem {bs front back : List UInt8} (hbs : slash ∉ bs)
    (h : bs <:+ front ++ slash :: back) : bs <:+ back := by
  rw [← List.reverse_prefix] at h ⊢
  have hreverse : bs.reverse <+: back.reverse ++ slash :: front.reverse := by simpa using h
  exact prefix_of_slash_not_mem (by rwa [List.mem_reverse]) hreverse

section Parts

variable {parts : List (List UInt8)} (hparts : ∀ part ∈ parts, slash ∉ part) (hne : parts ≠ [])

include hparts hne

theorem splitOn_joined : (joined parts).splitOn slash = parts :=
  List.splitOn_intercalate slash hparts hne

/-- What stands in front of a slash and what stands behind it are parts of their own. -/
theorem eq_append_of_joined_eq {front rest : List UInt8}
    (h : front ++ slash :: rest = joined parts) :
    parts = front.splitOn slash ++ rest.splitOn slash := by
  rw [← splitOn_joined hparts hne, ← h, List.splitOn_append_cons_self]

/-- Any directories take the first few parts. -/
theorem spellsAll_leading_iff {tokens : List Token} :
    SpellsAll (.leading :: tokens) (joined parts) ↔
      ∃ init rest, parts = init ++ rest ∧ rest ≠ [] ∧ SpellsAll tokens (joined rest) := by
  rw [SpellsAll]
  constructor
  · rintro ⟨_, text, hfront, htext, hall⟩
    rw [Token.Spells] at hfront
    rcases hfront with rfl | ⟨front, rfl⟩
    · rw [List.nil_append] at hall
      exact ⟨[], parts, rfl, hne, hall ▸ htext⟩
    · rw [List.append_assoc, List.singleton_append] at hall
      have hback : joined (text.splitOn slash) = text := List.intercalate_splitOn slash
      exact ⟨_, _, eq_append_of_joined_eq hparts hne hall, List.splitOn_ne_nil _ _,
        hback.symm ▸ htext⟩
  · rintro ⟨init, rest, rfl, hrest, hspells⟩
    by_cases hinit : init = []
    · subst hinit
      exact ⟨[], joined rest, .inl rfl, hspells, rfl⟩
    · refine ⟨joined init ++ [slash], joined rest, .inr ⟨_, rfl⟩, hspells, ?_⟩
      rw [joined_append hinit hrest, List.append_assoc, List.singleton_append]

end Parts

/-! ### Fixed characters -/

/-- A pattern that starts with fixed characters. -/
theorem spellsAll_literals_iff {cs : List Char} {tokens : List Token} {text : List UInt8} :
    SpellsAll (cs.map .literal ++ tokens) text ↔
      ∃ rest, encode cs ++ rest = text ∧ SpellsAll tokens rest := by
  induction cs generalizing text with
  | nil => simp
  | cons c cs ih =>
      rw [List.map_cons, List.cons_append, SpellsAll]
      simp only [Token.Spells, ih]
      constructor
      · rintro ⟨_, _, rfl, ⟨rest, rfl, hrest⟩, rfl⟩
        exact ⟨rest, List.append_assoc _ _ _, hrest⟩
      · rintro ⟨rest, rfl, hrest⟩
        exact ⟨_, _, rfl, ⟨rest, rfl, hrest⟩, (List.append_assoc _ _ _).symm⟩

theorem spellsAll_fixed_iff {cs : List Char} {text : List UInt8} :
    SpellsAll (cs.map .literal) text ↔ encode cs = text := by
  rw [← List.append_nil (cs.map _), spellsAll_literals_iff]
  simp [SpellsAll]

/-- A star in front of fixed characters: the text ends in them. -/
theorem spellsAll_ending_iff {cs : List Char} {text : List UInt8} :
    SpellsAll (.star :: cs.map .literal) text ↔ encode cs <:+ text := by
  rw [SpellsAll]
  simp only [Token.Spells, spellsAll_fixed_iff, true_and, exists_eq_left']
  rfl

theorem spellsAll_beginning_iff {cs : List Char} {text : List UInt8} :
    SpellsAll (cs.map .literal ++ [.star]) text ↔ encode cs <+: text := by
  rw [spellsAll_literals_iff]
  simp [SpellsAll, Token.Spells, List.IsPrefix]

/-- A slash and what follows it count as any bytes too. -/
theorem spellsAll_star_of_trailing {cs : List Char} {text : List UInt8}
    (h : SpellsAll (cs.map .literal ++ [.star, .trailing]) text) :
    SpellsAll (cs.map .literal ++ [.star]) text := by
  obtain ⟨rest, htext, -⟩ := spellsAll_literals_iff.mp h
  exact spellsAll_literals_iff.mpr ⟨rest, htext, rest, [], trivial, rfl, List.append_nil _⟩

/-! ### Conditions on parts -/

section Parts

variable {parts : List (List UInt8)} (hparts : ∀ part ∈ parts, slash ∉ part) (hne : parts ≠ [])

include hparts hne

/-- Any directories and a name: the name is that of the last part. -/
theorem spellsAll_name_iff {cs : List Char} (hcs : slash ∉ encode cs) :
    SpellsAll (.leading :: cs.map .literal) (joined parts) ↔
      parts.getLast? = some (encode cs) := by
  rw [spellsAll_leading_iff hparts hne, List.getLast?_eq_some_iff]
  simp only [spellsAll_fixed_iff]
  constructor
  · rintro ⟨init, rest, rfl, hrest, htext⟩
    have hsplit := splitOn_joined
      (fun part hpart => hparts part (List.mem_append_right _ hpart)) hrest
    rw [← htext, List.splitOn_eq_singleton hcs] at hsplit
    exact ⟨init, by rw [hsplit]⟩
  · rintro ⟨init, rfl⟩
    exact ⟨init, [encode cs], rfl, List.cons_ne_nil _ _, (joined_singleton _).symm⟩

/-- Any directories, a name and all below it: the name is that of a part before the last one. -/
theorem spellsAll_below_iff {cs : List Char} (hcs : slash ∉ encode cs) :
    SpellsAll (.leading :: (cs.map .literal ++ [.trailing])) (joined parts) ↔
      encode cs ∈ parts.dropLast := by
  rw [spellsAll_leading_iff hparts hne]
  constructor
  · rintro ⟨init, rest, rfl, hrest, hspells⟩
    obtain ⟨_, htext, _, _, ⟨back, rfl⟩, rfl, rfl⟩ := spellsAll_literals_iff.mp hspells
    rw [List.append_nil] at htext
    -- The slash behind the name ends a part, so the name is a part of its own.
    have hsplit := eq_append_of_joined_eq
      (fun part hpart => hparts part (List.mem_append_right _ hpart)) hrest htext
    rw [List.splitOn_eq_singleton hcs, List.singleton_append] at hsplit
    rw [hsplit, List.dropLast_append_of_ne_nil (List.cons_ne_nil _ _),
      List.dropLast_cons_of_ne_nil (List.splitOn_ne_nil _ _)]
    simp
  · intro hmem
    obtain ⟨init, more, hdrop⟩ := List.append_of_mem hmem
    have hall := List.dropLast_append_getLast hne
    rw [hdrop, List.append_assoc, List.cons_append] at hall
    have htext : SpellsAll [.trailing] (slash :: joined (more ++ [parts.getLast hne])) :=
      ⟨_, [], ⟨_, rfl⟩, rfl, List.append_nil _⟩
    exact ⟨init, _, hall.symm, List.cons_ne_nil _ _,
      spellsAll_literals_iff.mpr ⟨_, (joined_cons (by simp) _).symm, htext⟩⟩

/-- Any directories and what begins with fixed characters: some part begins with them. -/
theorem spellsAll_beginnings_iff {cs : List Char} (hcs : slash ∉ encode cs) :
    SpellsAll (.leading :: (cs.map .literal ++ [.star])) (joined parts) ↔
      ∃ part ∈ parts, encode cs <+: part := by
  rw [spellsAll_leading_iff hparts hne]
  simp only [spellsAll_beginning_iff]
  constructor
  · rintro ⟨init, rest, rfl, hrest, hfront⟩
    obtain ⟨part, more, rfl⟩ := List.exists_cons_of_ne_nil hrest
    refine ⟨part, by simp, ?_⟩
    by_cases hmore : more = []
    · rwa [hmore, joined_singleton] at hfront
    · rw [joined_cons hmore] at hfront
      exact prefix_of_slash_not_mem hcs hfront
  · rintro ⟨part, hpart, hfront⟩
    obtain ⟨init, more, rfl⟩ := List.append_of_mem hpart
    refine ⟨init, part :: more, rfl, List.cons_ne_nil _ _, hfront.trans ?_⟩
    by_cases hmore : more = []
    · subst hmore
      exact ⟨[], by rw [List.append_nil, joined_singleton]⟩
    · rw [joined_cons hmore]
      exact List.prefix_append _ _

/-- Any directories and what ends in fixed characters: the last part ends in them. -/
theorem spellsAll_endings_iff {cs : List Char} (hcs : slash ∉ encode cs) :
    SpellsAll (.leading :: .star :: cs.map .literal) (joined parts) ↔
      ∃ last, parts.getLast? = some last ∧ encode cs <:+ last := by
  rw [spellsAll_leading_iff hparts hne]
  simp only [spellsAll_ending_iff, List.getLast?_eq_some_iff]
  constructor
  · rintro ⟨init, rest, rfl, hrest, hend⟩
    obtain ⟨more, last, rfl⟩ := List.eq_nil_or_concat' rest |>.resolve_left hrest
    refine ⟨last, ⟨init ++ more, (List.append_assoc _ _ _).symm⟩, ?_⟩
    by_cases hmore : more = []
    · rwa [hmore, List.nil_append, joined_singleton] at hend
    · rw [joined_append hmore (List.cons_ne_nil _ _), joined_singleton] at hend
      exact suffix_of_slash_not_mem hcs hend
  · rintro ⟨last, ⟨init, rfl⟩, hend⟩
    exact ⟨init, [last], rfl, List.cons_ne_nil _ _, by rwa [joined_singleton]⟩

end Parts

/-! ### Conditions on names -/

theorem slash_not_mem_encode {cs : List Char} (h : '/' ∉ cs) : slash ∉ encode cs := by
  intro hmem
  obtain ⟨c, hc, hslash⟩ := List.mem_flatMap.mp hmem
  have hsingle := Text.utf8EncodeChar_of_mem (by decide) hslash
  rw [Text.utf8EncodeChar_injective (d := '/') hsingle] at hc
  exact h hc

theorem encode_spellParts (ps : List (List Char)) :
    encode (Path.spellParts ps) = joined (ps.map encode) := by
  induction ps with
  | nil => rfl
  | cons part ps ih =>
      by_cases hps : ps = []
      · subst hps
        simp [Path.spellParts, joined_singleton]
      · have hslash : String.utf8EncodeChar '/' = [slash] := rfl
        have hspell : Path.spellParts (part :: ps) = part ++ '/' :: Path.spellParts ps := by
          simp [Path.spellParts, List.intercalate_cons_of_ne_nil hps]
        rw [List.map_cons, joined_cons (by simpa using hps), ← ih, hspell, Text.encode_append,
          Text.encode_cons, hslash, List.singleton_append]

theorem bytesOf_ofNames (names : List String) :
    bytesOf (Path.ofNames names).text = joined (names.map bytesOf) := by
  have hbytes := encode_spellParts (names.map String.toList)
  rw [List.map_map] at hbytes
  rw [Path.ofNames_eq, bytesOf, String.toList_ofList]
  exact hbytes

theorem bytesOf_injective : Function.Injective bytesOf :=
  fun _ _ h => String.toList_inj.mp (Text.encode_injective h)

section Names

variable {names : List String} (hnames : ∀ name ∈ names, Path.IsName name)

include hnames

theorem slash_not_mem_map_bytesOf : ∀ part ∈ names.map bytesOf, slash ∉ part := by
  intro part hpart
  obtain ⟨name, hname, rfl⟩ := List.mem_map.mp hpart
  exact slash_not_mem_encode (hnames name hname).noSlash

variable (hne : names ≠ [])

include hne

theorem endsInParent_ofNames : endsInParent (Path.ofNames names).text = false := by
  have hslash : ∀ part ∈ names.map String.toList, '/' ∉ part := by
    intro part hpart
    obtain ⟨name, hname, rfl⟩ := List.mem_map.mp hpart
    exact (hnames name hname).noSlash
  obtain ⟨init, last, rfl⟩ := (List.eq_nil_or_concat' names).resolve_left hne
  have hlast := (hnames last (by simp)).notUp
  rw [endsInParent, Path.ofNames_eq, String.toList_ofList, Path.spellParts,
    List.splitOn_intercalate '/' hslash (by simp)]
  simpa using hlast

/-- A path of names is matched just if the pattern stands for the names with slashes between
them. -/
theorem isMatch_ofNames_iff {glob : Glob} (hglob : glob.tokens ≠ [.leading]) :
    glob.isMatch (Path.ofNames names).text = true ↔
      SpellsAll glob.tokens (joined (names.map bytesOf)) := by
  rw [isMatch_iff, bytesOf_ofNames, endsInParent_ofNames hnames hne]
  simp [hglob]

variable (pattern : String)

/-- Any directories and a name match just if the path ends in the name. -/
theorem isMatch_name_iff {name : String} (hname : Path.IsName name) :
    isMatch ⟨pattern, .leading :: name.toList.map .literal⟩ (Path.ofNames names).text = true ↔
      names.getLast? = some name := by
  rw [isMatch_ofNames_iff hnames hne (by simpa using hname.ne_nil),
    spellsAll_name_iff (slash_not_mem_map_bytesOf hnames) (by simpa using hne)
      (slash_not_mem_encode hname.noSlash), List.getLast?_map]
  exact (Option.map_injective bytesOf_injective).eq_iff (b := some name)

/-- Any directories, a name and all below it match just if the name comes before the last one. -/
theorem isMatch_below_iff {name : String} (hname : Path.IsName name) :
    isMatch ⟨pattern, .leading :: (name.toList.map .literal ++ [.trailing])⟩
      (Path.ofNames names).text = true ↔ name ∈ names.dropLast := by
  rw [isMatch_ofNames_iff hnames hne (by simp),
    spellsAll_below_iff (slash_not_mem_map_bytesOf hnames) (by simpa using hne)
      (slash_not_mem_encode hname.noSlash), ← List.map_dropLast]
  exact List.mem_map_of_injective bytesOf_injective

/-- Any directories and what begins with fixed characters match just if a name begins with them. -/
theorem isMatch_beginnings_iff {cs : List Char} (hcs : '/' ∉ cs) :
    isMatch ⟨pattern, .leading :: (cs.map .literal ++ [.star])⟩
      (Path.ofNames names).text = true ↔ ∃ name ∈ names, cs <+: name.toList := by
  rw [isMatch_ofNames_iff hnames hne (by simp),
    spellsAll_beginnings_iff (slash_not_mem_map_bytesOf hnames) (by simpa using hne)
      (slash_not_mem_encode hcs)]
  simp only [List.mem_map, exists_exists_and_eq_and]
  exact exists_congr fun name => and_congr_right fun _ => Text.encode_prefix_iff

/-- Where all below what begins with fixed characters is matched, some name begins with them. -/
theorem exists_beginning_of_isMatch {cs : List Char} (hcs : '/' ∉ cs)
    (h : isMatch ⟨pattern, .leading :: (cs.map .literal ++ [.star, .trailing])⟩
      (Path.ofNames names).text = true) : ∃ name ∈ names, cs <+: name.toList := by
  rw [isMatch_ofNames_iff hnames hne (by simp),
    spellsAll_leading_iff (slash_not_mem_map_bytesOf hnames) (by simpa using hne)] at h
  obtain ⟨init, rest, hparts, hrest, hspells⟩ := h
  rw [← isMatch_beginnings_iff hnames hne pattern hcs, isMatch_ofNames_iff hnames hne (by simp),
    spellsAll_leading_iff (slash_not_mem_map_bytesOf hnames) (by simpa using hne)]
  exact ⟨init, rest, hparts, hrest, spellsAll_star_of_trailing hspells⟩

/-- Any directories and what ends in a dot and fixed characters match just if the last name ends in
them. -/
theorem isMatch_endings_iff {cs : List Char} (hcs : '/' ∉ cs) :
    isMatch ⟨pattern, .leading :: .star :: ('.' :: cs).map .literal⟩
      (Path.ofNames names).text = true ↔
      ∃ last, names.getLast? = some last ∧ '.' :: cs <:+ last.toList := by
  rw [isMatch_ofNames_iff hnames hne (by simp),
    spellsAll_endings_iff (slash_not_mem_map_bytesOf hnames) (by simpa using hne)
      (slash_not_mem_encode (by simpa using hcs)), List.getLast?_map]
  simp only [Option.map_eq_some_iff, exists_exists_and_eq_and]
  have hdot : String.utf8EncodeChar '.' = [0x2e] := rfl
  exact exists_congr fun last =>
    and_congr_right fun _ => Text.encode_suffix_iff (by decide) hdot

end Names

end Glob
end NgIndex
