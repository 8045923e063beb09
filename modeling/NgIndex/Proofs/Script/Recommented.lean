import NgIndex.Proofs.Script.Legible

/-!
# What comments do not change in a script

Two scripts that differ in comments have the same outline.  What is read off them by way of
children with roles is then the same as well: the names they declare and import, what a name refers
to at a place, the tables of objects and classes, and the calls.  This holds as long as no comment
stands before a child that is taken by its number, and as long as comments do not change whether a
block stands at the very front.  What is read as a name is a word in every script, so nothing has to
be asked of the names.
-/

namespace NgIndex
namespace Script

open Cursor

/-- The number of the named child that is taken from a node of a kind. -/
def numbered? (kind : Kind) : Option Nat :=
  match kind with
  | .returnStatement => some 0
  | .expressionStatement => some 0
  | .namespaceImport => some 0
  | .importRequire => some 0
  | kind => wrapped? kind

namespace Module

/-- No comment stands where a child is taken by its number, or before it. -/
def Clear (m : Module) : Prop :=
  ∀ c ∈ m.root.preOrder, ∀ index ∈ numbered? c.kind, ∀ child ∈ c.named.take (index + 1),
    child.node.isRemark = false

instance (m : Module) : Decidable m.Clear :=
  inferInstanceAs (Decidable (∀ c ∈ m.root.preOrder, ∀ index ∈ numbered? c.kind,
    ∀ child ∈ c.named.take (index + 1), child.node.isRemark = false))

/-- Scripts that differ in comments only, none of which stands where a child is taken by its
number, or makes a difference to whether a block stands at the very front.  That their names are
words is not among this: it is so in every script that has been read. -/
structure Recommented (m m' : Module) : Prop extends SameOutline m m' where
  clear : m.Clear
  clear' : m'.Clear
  front : ∀ s s', Twin m m' s s' → s.kind = .block →
    (s.node.start.byte = m.root.node.start.byte ↔ s'.node.start.byte = m'.root.node.start.byte)

namespace Recommented

variable {m m' : Module} {c c' s s' : Cursor}

theorem symm (h : Recommented m m') : Recommented m' m where
  toSameOutline := h.toSameOutline.symm
  clear := h.clear'
  clear' := h.clear
  front s s' hs hblock := (h.front s' s hs.symm ((h.kind hs.symm).trans hblock)).symm

variable (h : Recommented m m')

include h

theorem legible : m.Legible :=
  h.isRead.legible

theorem legible' : m'.Legible :=
  h.isRead'.legible

/-! ### Children that are taken by their number -/

theorem getElem?_named {index : Nat} (hindex : numbered? c.kind = some index)
    (hc : Twin m m' c c') : Option.Rel (Twin m m') c.named[index]? c'.named[index]? := by
  have htaken {m : Module} (hclear : m.Clear) {c : Cursor} (hwithin : Within m.root c)
      (hindex : numbered? c.kind = some index) : c.named[index]? = c.namedParts[index]? := by
    have hplain := hclear c (mem_preOrder_iff.mpr hwithin) index hindex
    rw [namedParts_eq, ← List.take_append_drop (index + 1) c.named, List.filter_append]
    have hkept : (c.named.take (index + 1)).filter (fun child => !child.node.isRemark) =
        c.named.take (index + 1) :=
      List.filter_eq_self.mpr fun child hchild => by simp [hplain child hchild]
    rw [hkept]
    rcases Nat.lt_or_ge index (c.named.take (index + 1)).length with hlt | hge
    · rw [List.getElem?_append_left hlt, List.getElem?_append_left hlt]
    · -- If there are not that many children, there are none behind them either.
      have hdrop : c.named.drop (index + 1) = [] := by
        rw [List.length_take] at hge
        exact List.drop_eq_nil_of_le (by omega)
      rw [hdrop, List.filter_nil]
  rw [htaken h.clear hc.within.1 hindex,
    htaken h.clear' hc.within.2 (h.kind hc ▸ hindex)]
  exact forall₂_getElem? (h.namedParts hc) index

/-- A first child that is taken by its number is no comment. -/
theorem mem_namedParts_of_head? {child : Cursor} (hc : Within m.root c)
    (hindex : numbered? c.kind = some 0) (hchild : c.named.head? = some child) :
    child ∈ c.namedParts := by
  obtain ⟨rest, hnamed⟩ := List.head?_eq_some_iff.mp hchild
  have hplain := h.clear c (mem_preOrder_iff.mpr hc) 0 hindex child (by simp [hnamed])
  rw [namedParts_eq]
  exact List.mem_filter.mpr ⟨by simp [hnamed], by simp [hplain]⟩

theorem head?_named (hindex : numbered? c.kind = some 0) (hc : Twin m m' c c') :
    Option.Rel (Twin m m') c.named.head? c'.named.head? := by
  rw [List.head?_eq_getElem?, List.head?_eq_getElem?]
  exact h.getElem?_named hindex hc

end Recommented
end Module

namespace Cursor

theorem unwrapAt_eq (above : List Node) (index : Nat) (nodes : List Node) :
    unwrapAt above index nodes =
      (nodes.filter Node.isNamed)[index]?.map fun node => unwrapNode above node := by
  induction nodes generalizing index with
  | nil => rw [unwrapAt.eq_def, List.filter_nil, List.getElem?_nil, Option.map_none]
  | cons node rest ih =>
      rw [unwrapAt.eq_def]
      simp only
      by_cases htoken : (node.kind == .token) = true
      · rw [if_pos htoken, ih, List.filter_cons_of_neg (by simp_all [Node.isNamed])]
      · rw [if_neg htoken, List.filter_cons_of_pos (by simp_all [Node.isNamed])]
        cases index with
        | zero => rfl
        | succ index => exact ih index

/-- What stands in wrappers, one wrapper at a time. -/
theorem unwrap_eq (c : Cursor) :
    c.unwrap = match wrapped? c.kind with
      | none => c
      | some index => (c.named[index]?.map unwrap).getD c := by
  obtain ⟨⟨kind, role, start, stop, children⟩, above⟩ := c
  rw [unwrap, unwrapNode]
  simp only [Cursor.kind]
  cases wrapped? kind with
  | none => rfl
  | some index =>
      simp only [unwrapAt_eq]
      have hnamed : (⟨⟨kind, role, start, stop, children⟩, above⟩ : Cursor).named =
          (children.filter Node.isNamed).map fun node =>
            ⟨node, ⟨kind, role, start, stop, children⟩ :: above⟩ := by
        rw [named, Cursor.children, List.filter_map]
        rfl
      rw [hnamed, List.getElem?_map, Option.map_map]
      rfl

/-- The contents of a template are read off its text. -/
theorem literal?_template {text : String} {c : Cursor} (h : c.kind = .template) :
    literal? text c = (c.node.ownText? text).map unquoted := by
  have hany : (c.named.any fun child => child.kind == .substitution) =
      c.node.children.any fun child => child.kind == .substitution := by
    rw [named, Cursor.children, List.any_filter, List.any_map]
    congr 1
    funext node
    by_cases hsubstitution : node.kind = .substitution
    · simp [Cursor.kind, Node.isNamed, hsubstitution]
    · simp [Cursor.kind, hsubstitution]
  unfold literal? Node.ownText?
  simp only [h, hany, show c.node.kind = .template from h]
  cases hchildren : c.node.children with
  | nil => rfl
  | cons first rest =>
      simp only [List.isEmpty_cons, Bool.false_or, beq_self_eq_true, Bool.true_and]
      split
      · next hsubstitution => simp [hsubstitution]
      · next hsubstitution =>
          simp only [Bool.not_eq_true] at hsubstitution
          simp [hsubstitution, textOf]

end Cursor

/-! ### Tables of twins -/

section Tables

variable {m m' : Module} {c c' : Cursor}

/-- One name with values that come to each other. -/
def TwinEntry (m m' : Module) (entry entry' : String × Cursor) : Prop :=
  entry.1 = entry'.1 ∧ Twin m m' entry.2 entry'.2

theorem rel_set {name : String} (hc : Twin m m' c c') {entries entries' : List (String × Cursor)}
    (hentries : List.Forall₂ (TwinEntry m m') entries entries') :
    List.Forall₂ (TwinEntry m m') (Table.set name c entries) (Table.set name c' entries') := by
  induction hentries with
  | nil => exact .cons ⟨rfl, hc⟩ .nil
  | @cons entry entry' rest rest' hentry hrest ih =>
      obtain ⟨other, value⟩ := entry
      obtain ⟨other', value'⟩ := entry'
      obtain ⟨rfl, hvalue⟩ : other = other' ∧ Twin m m' value value' := hentry
      rw [Table.set, Table.set]
      split
      · exact .cons ⟨rfl, hc⟩ hrest
      · exact .cons ⟨rfl, hvalue⟩ ih

theorem rel_get? {table table' : Table} (name : String)
    (htable : List.Forall₂ (TwinEntry m m') table.entries table'.entries) :
    Option.Rel (Twin m m') (table.get? name) (table'.get? name) := by
  have hfind : Option.Rel (TwinEntry m m') (table.entries.find? fun entry => entry.1 == name)
      (table'.entries.find? fun entry => entry.1 == name) :=
    forall₂_find? htable fun entry entry' hentry => by rw [hentry.1]
  rw [Table.get?, Table.get?]
  rcases rel_cases hfind with ⟨hleft, hright⟩ | ⟨entry, entry', hleft, hright, hentry⟩
  · rw [hleft, hright]
    exact .none
  · rw [hleft, hright]
    exact .some hentry.2

theorem rel_ofWrites (origin origin' : Cursor) {writes writes' : List (String × Cursor)}
    (hwrites : List.Forall₂ (TwinEntry m m') writes writes') :
    List.Forall₂ (TwinEntry m m') (Table.ofWrites origin writes).entries
      (Table.ofWrites origin' writes').entries := by
  refine List.rel_foldl (fun entries entries' hentries write write' hwrite => ?_) .nil hwrites
  obtain ⟨name, value⟩ := write
  obtain ⟨name', value'⟩ := write'
  obtain ⟨rfl, hvalue⟩ : name = name' ∧ Twin m m' value value' := hwrite
  exact rel_set hvalue hentries

/-- What is written under a name that two properties share. -/
theorem rel_write {key key' : Option String} {value value' : Option Cursor} (hkey : key = key')
    (hvalue : Option.Rel (Twin m m') value value') :
    Option.Rel (TwinEntry m m') (do return (← key, ← value)) (do return (← key', ← value')) := by
  subst hkey
  cases key with
  | none => exact .none
  | some key =>
      cases hvalue with
      | none => exact .none
      | some htwin => exact .some ⟨rfl, htwin⟩

end Tables

/-- Calls that come to each other, part by part. -/
structure TwinCall (m m' : Module) (call call' : Call) : Prop where
  site : Twin m m' call.site call'.site
  callee : Twin m m' call.callee call'.callee
  object : Option.Rel (Twin m m') call.object call'.object
  method : call.method = call'.method
  arguments : List.Forall₂ (Twin m m') call.arguments call'.arguments

theorem TwinCall.isMethod {m m' : Module} {call call' : Call} (h : TwinCall m m' call call')
    (name : String) : call.isMethod name = call'.isMethod name := by
  rw [Call.isMethod, Call.isMethod, h.method]

namespace Module
namespace Recommented

variable {m m' : Module} {c c' s s' : Cursor} (h : Recommented m m')

include h

theorem unwrap (hc : Twin m m' c c') : Twin m m' c.unwrap c'.unwrap := by
  induction hsize : sizeOf c.node using Nat.strong_induction_on generalizing c c' with
  | _ size ih =>
      rw [unwrap_eq c, unwrap_eq c', ← h.kind hc]
      cases hwrapped : wrapped? c.kind with
      | none => exact hc
      | some index =>
          have hindex : numbered? c.kind = some index := by
            unfold numbered?
            split
            all_goals simp_all [wrapped?]
          have hchild := h.getElem?_named hindex hc
          simp only
          rcases rel_cases hchild with ⟨hleft, hright⟩ | ⟨child, child', hleft, hright, htwin⟩
          · rw [hleft, hright]
            exact hc
          · rw [hleft, hright]
            have hmem := (List.mem_filter.mp (List.mem_of_getElem? hleft)).1
            exact ih _ (hsize ▸ sizeOf_lt_of_mem_children hmem) htwin rfl

/-! ### Texts -/

theorem textAt_leaf (hc : Twin m m' c c') (hkind : c.kind ≠ .program)
    (hchildren : c.node.children = []) : m.textAt c = m'.textAt c' := by
  have htext := (h.agrees hc).ownText hkind
  have hself : c.node.ownText? m.text = some (m.textAt c) := by
    simp [Node.ownText?, hchildren, textAt, textOf]
  rw [hself] at htext
  unfold Node.ownText? at htext
  simp only at htext
  split at htext
  · exact Option.some.inj htext
  · cases htext

theorem textAt (hc : Twin m m' c c') (hword : c.kind.isWord = true) :
    m.textAt c = m'.textAt c' := by
  refine h.textAt_leaf hc ?_ (h.legible.word c (mem_preOrder_iff.mpr hc.within.1) hword)
  intro hkind
  rw [hkind] at hword
  cases hword

theorem textOf (hc : Twin m m' c c') (hword : c.kind.isWord = true) :
    textOf m.text c = Script.textOf m'.text c' :=
  h.textAt hc hword

theorem literalAt? (hc : Twin m m' c c') : m.literalAt? c = m'.literalAt? c' := by
  have hkind := h.kind hc
  by_cases htemplate : c.kind = .template
  · rw [Module.literalAt?, Module.literalAt?, literal?_template htemplate,
      literal?_template (hkind ▸ htemplate), (h.agrees hc).ownText (by simp_all [Cursor.kind])]
  · unfold Module.literalAt? literal?
    rw [← hkind]
    split
    · next hstring => rw [h.textOf hc (by rw [hstring]; rfl)]
    · next htemplate' => exact absurd htemplate' htemplate
    · rfl

theorem propertyName? (hc : Twin m m' c c') : m.propertyName? c = m'.propertyName? c' := by
  have hword := h.textAt hc
  unfold Module.propertyName?
  rw [← h.kind hc]
  split
  case h_5 => exact h.literalAt? hc
  case h_6 => rfl
  all_goals
    next hkind =>
      rw [hword (by rw [hkind]; rfl)]

/-! ### Declarations and imports -/

omit h in
/-- Declarations of one name at places that come to each other, with such scopes. -/
structure TwinDeclaration (m m' : Module) (declaration declaration' : Declaration) : Prop where
  name : declaration.name = declaration'.name
  scope : Twin m m' declaration.scope declaration'.scope
  isScope : isScope declaration.scope.node = true
  site : Twin m m' declaration.site declaration'.site

theorem declarationAt? (hc : Twin m m' c c') :
    Option.Rel (TwinDeclaration m m') (declarationAt? m.text c)
      (Script.declarationAt? m'.text c') := by
  unfold Script.declarationAt?
  rw [← h.kind hc]
  refine rel_guard fun _ => rel_bind (h.child? hc .name) fun name name' hname => ?_
  rw [← h.kind hname]
  refine rel_guard fun hidentifier => ?_
  rcases rel_cases (h.scope? hc) with ⟨hleft, hright⟩ | ⟨scope, scope', hleft, hright, hscope⟩
  · rw [hleft, hright]
    exact .none
  · rw [hleft, hright]
    have hkind : name.kind = .identifier := by simpa using hidentifier
    exact .some ⟨h.textAt hname (by rw [hkind]; rfl), hscope, test_of_nearest? hleft, hc⟩

theorem declarations : List.Forall₂ (TwinDeclaration m m') m.declarations m'.declarations := by
  have hlist {m : Module} (hread : m.IsRead) :
      m.declarations = m.root.preOrder.filterMap (Script.declarationAt? m.text) := by
    obtain ⟨path, text, rfl⟩ := hread
    rfl
  have hremark (text : String) (d : Cursor) (hd : d.node.isRemark = true) :
      Script.declarationAt? text d = none := by
    simp [Script.declarationAt?, kind_of_isRemark hd, declares]
  rw [hlist h.isRead, hlist h.isRead']
  exact h.filterMap_order traverses_preOrder (fun d d' => h.declarationAt?) (hremark _) (hremark _)
    .root

theorem bind_literalAt? {a b : Option Cursor} (hab : Option.Rel (Twin m m') a b) :
    a.bind m.literalAt? = b.bind m'.literalAt? := by
  cases hab with
  | none => rfl
  | some htwin => exact h.literalAt? htwin

/-- What makes nothing of comments and the same of twins makes the same of the named children. -/
theorem flatMap_named {α : Type} {f g : Cursor → List α} (hfg : ∀ d d', Twin m m' d d' → f d = g d')
    (hf : ∀ d : Cursor, d.kind = .comment → f d = [])
    (hg : ∀ d : Cursor, d.kind = .comment → g d = []) (hc : Twin m m' c c') :
    c.named.flatMap f = c'.named.flatMap g := by
  rw [Cursor.flatMap_named hf, Cursor.flatMap_named hg, ← List.forall₂_eq_eq_eq]
  refine forall₂_flatMap (h.namedParts hc) fun d _ d' hd => ?_
  rw [hfg d d' hd, List.forall₂_eq_eq_eq]

theorem importSpecifier (source : String) (hc : Twin m m' c c') :
    ((do
      guard (c.kind == .importSpecifier)
      let name ← c.child? .name
      let taken := (c.child? .newName).getD name
      return (Script.textOf m.text taken,
        { source, imported := .named (Script.textOf m.text name) }) :
          Option (String × Import))) = (do
      guard (c'.kind == .importSpecifier)
      let name ← c'.child? .name
      let taken := (c'.child? .newName).getD name
      return (Script.textOf m'.text taken,
        { source, imported := .named (Script.textOf m'.text name) })) := by
  rw [← h.kind hc]
  by_cases hkind : c.kind = .importSpecifier
  · have hword := h.legible.imported c (mem_preOrder_iff.mpr hc.within.1) hkind
    have htext {role : Field} {name name' : Cursor} (hrole : role ∈ [.name, .newName])
        (hchild : c.child? role = some name) (hname : Twin m m' name name') :
        Script.textOf m.text name = Script.textOf m'.text name' :=
      h.textOf hname (hword role hrole name hchild)
    rcases rel_cases (h.child? hc .name) with ⟨hleft, hright⟩ | ⟨name, name', hleft, hright, hname⟩
    · simp [hleft, hright]
    rcases rel_cases (h.child? hc .newName) with
      ⟨hleft', hright'⟩ | ⟨other, other', hleft', hright', hother⟩
    · simp [hleft, hright, hleft', hright', htext (by simp) hleft hname]
    · simp [hleft, hright, hleft', hright', htext (by simp) hleft hname,
        htext (by simp) hleft' hother]
  · simp [hkind]

theorem importsOfClause (source : String) (hc : Twin m m' c c') :
    importsOfClause m.text source c = Script.importsOfClause m'.text source c' := by
  refine h.flatMap_named (fun d d' hd => ?_) (fun d hd => by simp [hd]) (fun d hd => by simp [hd])
    hc
  rw [← h.kind hd]
  split
  · next hkind => rw [h.textOf hd (by rw [hkind]; rfl)]
  · next hkind =>
      have hindex : numbered? d.kind = some 0 := by
        rw [hkind]
        rfl
      rcases rel_cases (h.head?_named hindex hd) with
        ⟨hleft, hright⟩ | ⟨name, name', hleft, hright, hname⟩
      · rw [hleft, hright]
        rfl
      · have hpart := h.mem_namedParts_of_head? hd.within.1 hindex hleft
        have hword := h.legible.whole d (mem_preOrder_iff.mpr hd.within.1) hkind name hpart
        rw [hleft, hright]
        simp [h.textOf hname hword]
  · rw [List.filterMap_eq_flatMap_toList, List.filterMap_eq_flatMap_toList]
    refine h.flatMap_named (fun e e' he => ?_) (fun e he => by simp [he])
      (fun e he => by simp [he]) hd
    rw [h.importSpecifier source he]
  · rfl

theorem importsAt (hc : Twin m m' c c') : importsAt m.text c = Script.importsAt m'.text c' := by
  unfold Script.importsAt
  rw [← h.kind hc]
  split
  · rfl
  · refine h.flatMap_named (fun d d' hd => ?_) (fun d hd => by simp [hd]) (fun d hd => by simp [hd])
      hc
    rw [← h.kind hd]
    split
    · have hsource := h.bind_literalAt? (h.child? hc .source)
      change (c.child? .source).bind (literal? m.text) =
        (c'.child? .source).bind (literal? m'.text) at hsource
      rw [hsource]
      cases (c'.child? .source).bind (literal? m'.text) with
      | none => rfl
      | some source => exact h.importsOfClause source hd
    · next hkind =>
        have hsource := h.bind_literalAt? (h.child? hd .source)
        change (d.child? .source).bind (literal? m.text) =
          (d'.child? .source).bind (literal? m'.text) at hsource
        rw [hsource]
        rcases rel_cases (h.head?_named (by rw [hkind]; rfl) hd) with
          ⟨hleft, hright⟩ | ⟨name, name', hleft, hright, hname⟩
        · rw [hleft, hright]
          cases (d'.child? .source).bind (literal? m'.text) with
          | none => rfl
          | some source => rfl
        · rw [hleft, hright, Option.filter_some, Option.filter_some, h.kind hname]
          by_cases hidentifier : name'.kind = .identifier
          · have hword : name.kind.isWord = true := by
              rw [h.kind hname, hidentifier]
              rfl
            cases (d'.child? .source).bind (literal? m'.text) with
            | none => simp
            | some source => simp [hidentifier, h.textOf hname hword]
          · simp [hidentifier]
    · rfl

theorem imports : m.imports = m'.imports := by
  have hlist {m : Module} (hread : m.IsRead) :
      m.imports = m.root.preOrder.flatMap (Script.importsAt m.text) := by
    obtain ⟨path, text, rfl⟩ := hread
    rfl
  have hremark (text : String) (d : Cursor) (hd : d.node.isRemark = true) :
      Script.importsAt text d = [] := by
    simp [Script.importsAt, kind_of_isRemark hd]
  rw [hlist h.isRead, hlist h.isRead', ← List.forall₂_eq_eq_eq]
  refine h.flatMap_order traverses_preOrder (fun d d' hd => ?_) (hremark _) (hremark _) .root
  rw [List.forall₂_eq_eq_eq]
  exact h.importsAt hd

theorem importOf? (name : String) : m.importOf? name = m'.importOf? name := by
  rw [Module.importOf?, Module.importOf?, h.imports]

/-! ### What a name refers to -/

theorem block_or_root (hs : Within m.root s) (hscope : Cursor.isScope s.node = true) :
    s.kind = .block ∨ s = m.root := by
  have hkind : s.kind = .block ∨ s.kind = .program := by
    simp only [Cursor.isScope, Bool.or_eq_true, beq_iff_eq] at hscope
    exact hscope
  refine hkind.imp_right fun hprogram => ?_
  by_contra hne
  exact hs.kind_ne_program h.isRead.tidy hne hprogram

/-- A scope encloses a word just if the word is inside it. -/
theorem encloses_iff_within (hs : Within m.root s) (hscope : Cursor.isScope s.node = true)
    (hc : Twin m m' c c') (hword : c.kind.isWord = true) :
    s.encloses c = true ↔ Within s c := by
  rw [encloses_iff h.isRead.tidy hs hc.within.1]
  refine or_iff_left ?_
  rintro ⟨hup, -⟩
  have hchildren := h.legible.word c (mem_preOrder_iff.mpr hc.within.1) hword
  rcases Relation.ReflTransGen.cases_head hup with rfl | ⟨child, hchild, -⟩
  · rcases h.block_or_root hs hscope with hblock | hroot
    · rw [hblock] at hword
      cases hword
    · have hkind : c.kind = .program := by
        rw [hroot]
        exact h.isRead.kind_root
      rw [hkind] at hword
      cases hword
  · rw [Cursor.children, hchildren] at hchild
    cases hchild

theorem encloses (hs : Twin m m' s s') (hscope : Cursor.isScope s.node = true)
    (hc : Twin m m' c c') (hword : c.kind.isWord = true) : s.encloses c = s'.encloses c' := by
  have hscope' : Cursor.isScope s'.node = true := (h.isScope hs).symm.trans hscope
  rw [Bool.eq_iff_iff, h.encloses_iff_within hs.within.1 hscope hc hword,
    h.symm.encloses_iff_within hs.within.2 hscope' hc.symm (h.kind hc ▸ hword)]
  constructor
  · exact hs.within_of h.isRead.tidy hc
  · exact hs.symm.within_of h.isRead'.tidy hc.symm

/-- Of two scopes around a place, one starts no later than the other just if its twin does. -/
theorem start_le {t t' : Cursor} (hs : Twin m m' s s') (hscope : Cursor.isScope s.node = true)
    (ht : Twin m m' t t') (hscope' : Cursor.isScope t.node = true) (hsc : Within s c)
    (htc : Within t c) (hle : s.node.start.byte ≤ t.node.start.byte) :
    s'.node.start.byte ≤ t'.node.start.byte := by
  have htidy := h.isRead.tidy
  have htidy' := h.isRead'.tidy
  have hnested : Within s t ∨ Within t s := within_or_within hsc htc
  rcases hnested with hst | hts
  · exact ((hs.within_of htidy ht hst).range (hs.within.2.tidy htidy')).1
  by_cases hsame : s = t
  · subst hsame
    rw [Twin.right_unique htidy hs ht]
  have hge := (hts.range (ht.within.1.tidy htidy)).1
  rcases h.block_or_root hs.within.1 hscope with hblock | hroot
  · have htoken : s.kind ≠ .token := by simp [hblock]
    rcases h.block_or_root ht.within.1 hscope' with hblock' | hroot'
    · have hlt := start_lt_of_block (ht.within.1.tidy htidy) hblock' hts hsame htoken
      omega
    · -- The other scope is the whole script, and the block stands at its front.
      subst hroot'
      rw [← Twin.right_unique htidy .root ht]
      exact Nat.le_of_eq ((h.front s s' hs hblock).mp (Nat.le_antisymm hle hge))
  · subst hroot
    have htop : t = m.root := by
      rcases Relation.ReflTransGen.cases_tail hts with heq | ⟨parent, hparent, hchild⟩
      · exact heq.symm
      · exact absurd rfl (ne_root_of_mem_children (ht.within.1.trans hparent) hchild)
    exact absurd htop.symm hsame

theorem innermost? {declarations declarations' : List Declaration} (hc : Twin m m' c c')
    (hlist : List.Forall₂ (fun declaration declaration' => Within declaration.scope c ∧
      TwinDeclaration m m' declaration declaration') declarations declarations') :
    Option.Rel (TwinDeclaration m m') (innermost? declarations)
      (Module.innermost? declarations') := by
  cases hlist with
  | nil => exact .none
  | @cons first first' rest rest' hfirst hrest =>
      let Both (declaration declaration' : Declaration) : Prop :=
        Within declaration.scope c ∧ TwinDeclaration m m' declaration declaration'
      let better (best next : Declaration) : Declaration :=
        if best.scope.node.start.byte ≤ next.scope.node.start.byte then next else best
      suffices hstep : ∀ ⦃best best'⦄, Both best best' → ∀ ⦃next next'⦄, Both next next' →
          Both (better best next) (better best' next') by
        have hfold : Both (rest.foldl better first) (rest'.foldl better first') :=
          List.rel_foldl hstep hfirst hrest
        exact .some hfold.2
      rintro best best' ⟨hbest, htwin⟩ next next' ⟨hnext, htwin'⟩
      have hiff : best.scope.node.start.byte ≤ next.scope.node.start.byte ↔
          best'.scope.node.start.byte ≤ next'.scope.node.start.byte := by
        constructor
        · exact h.start_le htwin.scope htwin.isScope htwin'.scope htwin'.isScope hbest hnext
        · exact h.symm.start_le htwin.scope.symm ((h.isScope htwin.scope).symm.trans htwin.isScope)
            htwin'.scope.symm ((h.isScope htwin'.scope).symm.trans htwin'.isScope)
            (htwin.scope.within_of h.isRead.tidy hc hbest)
            (htwin'.scope.within_of h.isRead.tidy hc hnext)
      simp only [better, hiff]
      split
      · exact ⟨hnext, htwin'⟩
      · exact ⟨hbest, htwin⟩

/-- What a word refers to does not depend on comments. -/
theorem declarationOf? (name : String) (hc : Twin m m' c c') (hword : c.kind.isWord = true) :
    Option.Rel (Twin m m') (m.declarationOf? name c) (m'.declarationOf? name c') := by
  have hsight : List.Forall₂ (TwinDeclaration m m')
      (m.declarations.filter fun declaration =>
        declaration.name == name && declaration.scope.encloses c)
      (m'.declarations.filter fun declaration =>
        declaration.name == name && declaration.scope.encloses c') := by
    refine List.rel_filter (fun declaration declaration' htwin => ?_) h.declarations
    simp only [htwin.name, h.encloses htwin.scope htwin.isScope hc hword]
  have hwithin : ∀ declaration ∈ m.declarations.filter (fun declaration =>
      declaration.name == name && declaration.scope.encloses c),
      Within declaration.scope c := by
    intro declaration hmem
    obtain ⟨hdeclaration, htest⟩ := List.mem_filter.mp hmem
    have hplaced := h.isRead.placed declaration hdeclaration
    have hencloses := (Bool.and_eq_true_iff.mp htest).2
    exact (h.encloses_iff_within hplaced.within hplaced.isScope hc hword).mp hencloses
  have hfound := h.innermost? hc ((List.forall₂_and_left _ _).mpr ⟨hwithin, hsight⟩)
  rw [Module.declarationOf?, Module.declarationOf?]
  rcases rel_cases hfound with ⟨hleft, hright⟩ | ⟨d, d', hleft, hright, htwin⟩
  · rw [hleft, hright]
    exact .none
  · rw [hleft, hright]
    exact .some htwin.site

/-! ### Tables -/

theorem dialect : m.dialect = m'.dialect := by
  have hdialect {m : Module} (hread : m.IsRead) : m.dialect = Dialect.ofPath m.path := by
    obtain ⟨path, text, rfl⟩ := hread
    rfl
  rw [hdialect h.isRead, hdialect h.isRead', h.path]

theorem bind_propertyName? {a b : Option Cursor} (hab : Option.Rel (Twin m m') a b) :
    a.bind m.propertyName? = b.bind m'.propertyName? := by
  cases hab with
  | none => rfl
  | some htwin => exact h.propertyName? htwin

theorem propertyWrite? (hc : Twin m m' c c') :
    Option.Rel (TwinEntry m m') (Table.propertyWrite? m c) (Table.propertyWrite? m' c') := by
  unfold Table.propertyWrite?
  rw [← h.kind hc]
  split
  · exact rel_write (h.bind_propertyName? (h.child? hc .key)) (h.child? hc .value)
  · next hkind => exact .some ⟨h.textAt hc (by rw [hkind]; rfl), hc⟩
  · exact rel_write (h.bind_propertyName? (h.child? hc .name)) (.some hc)
  · exact .none

theorem ofObject (hc : Twin m m' c c') :
    List.Forall₂ (TwinEntry m m') (Table.ofObject m c).entries (Table.ofObject m' c').entries := by
  have hcomment (m : Module) (d : Cursor) (hd : d.kind = .comment) :
      Table.propertyWrite? m d = none := by
    simp [Table.propertyWrite?, hd]
  refine rel_ofWrites c c' ?_
  rw [filterMap_named (hcomment m), filterMap_named (hcomment m')]
  exact List.rel_filterMap (fun d d' hd => h.propertyWrite? hd) (h.namedParts hc)

theorem fieldWrite? (hc : Twin m m' c c') :
    Option.Rel (TwinEntry m m') (Table.fieldWrite? m c) (Table.fieldWrite? m' c') := by
  unfold Table.fieldWrite?
  rw [← h.kind hc, ← h.dialect]
  refine rel_guard fun _ => rel_bind (h.child? hc _) fun name name' hname => ?_
  exact rel_write (h.propertyName? hname) (h.child? hc .value)

/-- The name of the property that is accessed. -/
theorem property (hc : Twin m m' c c') (hkind : c.kind = .member) :
    (c.child? .property).map m.textAt = (c'.child? .property).map m'.textAt := by
  rcases rel_cases (h.child? hc .property) with
    ⟨hleft, hright⟩ | ⟨name, name', hleft, hright, hname⟩
  · rw [hleft, hright]
    rfl
  · have hword := h.legible.property c (mem_preOrder_iff.mpr hc.within.1) hkind name hleft
    rw [hleft, hright, Option.map_some, Option.map_some, h.textAt hname hword]

theorem thisWrite? (hc : Twin m m' c c') :
    Option.Rel (TwinEntry m m') (Table.thisWrite? m c) (Table.thisWrite? m' c') := by
  unfold Table.thisWrite?
  rw [← h.kind hc]
  refine rel_guard fun hkind => ?_
  have hindex : numbered? c.kind = some 0 := by
    rw [show c.kind = .expressionStatement by simpa using hkind]
    rfl
  refine rel_bind (h.head?_named hindex hc) fun assignment assignment' hassignment => ?_
  rw [← h.kind hassignment]
  refine rel_guard fun _ => rel_bind (h.child? hassignment .left) fun left left' hleft => ?_
  rw [← h.kind hleft]
  refine rel_guard fun hmember => rel_bind (h.child? hleft .object) fun object object' hobject => ?_
  rw [← h.kind hobject]
  refine rel_guard fun _ => ?_
  have hname := h.property hleft (by simpa using hmember)
  rcases rel_cases (h.child? hleft .property) with
    ⟨hnone, hnone'⟩ | ⟨property, property', hsome, hsome', -⟩
  · rw [hnone, hnone']
    exact .none
  · rw [hsome, hsome'] at hname
    rw [hsome, hsome']
    exact rel_write hname (h.child? hassignment .right)

theorem constructorBody? (hc : Twin m m' c c') :
    Option.Rel (Twin m m') (Table.constructorBody? m c) (Table.constructorBody? m' c') := by
  unfold Table.constructorBody?
  rw [find?_named (fun d hd => by simp [hd]), find?_named (fun d hd => by simp [hd])]
  refine rel_bind (forall₂_find? (h.namedParts hc) fun d d' hd => ?_)
    fun first first' hfirst => h.child? hfirst .body
  rw [← h.kind hd]
  by_cases hkind : d.kind = .method
  · rcases rel_cases (h.child? hd .name) with ⟨hnone, hnone'⟩ | ⟨name, name', hsome, hsome', hname⟩
    · rw [hnone, hnone']
      rfl
    rw [hsome, hsome', Option.any_some, Option.any_some]
    by_cases hword : name.kind.isWord = true
    · rw [h.textAt hname hword]
    · have hother : m.textAt name ≠ "constructor" :=
        (h.legible.method d (mem_preOrder_iff.mpr hd.within.1) hkind name hsome).resolve_left hword
      have hother' : m'.textAt name' ≠ "constructor" :=
        (h.legible'.method d' (mem_preOrder_iff.mpr hd.within.2) (h.kind hd ▸ hkind) name'
          hsome').resolve_left (h.kind hname ▸ hword)
      rw [beq_false_of_ne hother, beq_false_of_ne hother']
  · rw [beq_false_of_ne hkind, Bool.false_and, Bool.false_and]

theorem classWrites (hc : Twin m m' c c') :
    List.Forall₂ (TwinEntry m m') (Table.classWrites m c) (Table.classWrites m' c') := by
  have hfield (m : Module) (d : Cursor) (hd : d.kind = .comment) :
      Table.fieldWrite? m d = none := by
    simp [Table.fieldWrite?, hd]
  have hthis (m : Module) (d : Cursor) (hd : d.kind = .comment) : Table.thisWrite? m d = none := by
    simp [Table.thisWrite?, hd]
  unfold Table.classWrites
  dsimp only
  refine List.rel_append ?_ ?_
  · rw [filterMap_named (hfield m), filterMap_named (hfield m')]
    exact List.rel_filterMap (fun d d' hd => h.fieldWrite? hd) (h.namedParts hc)
  · rw [List.filterMap_flatMap, List.filterMap_flatMap]
    refine forall₂_flatMap (rel_toList (h.constructorBody? hc)) fun body _ body' hbody => ?_
    rw [filterMap_named (hthis m), filterMap_named (hthis m')]
    exact List.rel_filterMap (fun d d' hd => h.thisWrite? hd) (h.namedParts hbody)

theorem ofClass (hc : Twin m m' c c') :
    List.Forall₂ (TwinEntry m m') (Table.ofClass m c).entries (Table.ofClass m' c').entries :=
  rel_ofWrites c c' (forall₂_flatMap (rel_toList (h.child? hc .body)) fun _ _ _ hbody =>
    h.classWrites hbody)

theorem ofNode? (hc : Twin m m' c c') :
    Option.Rel (fun table table' : Table =>
      List.Forall₂ (TwinEntry m m') table.entries table'.entries)
      (Table.ofNode? m c) (Table.ofNode? m' c') := by
  have hunwrap := h.unwrap hc
  unfold Table.ofNode?
  dsimp only
  rw [← h.kind hunwrap, ← h.isClass hunwrap]
  split
  · exact .some (h.ofObject hunwrap)
  · refine rel_bind (h.child? hunwrap .constructor) fun constructor constructor' hconstructor => ?_
    rw [← h.kind hconstructor]
    refine rel_guard fun hkind => ?_
    have hword : constructor.kind.isWord = true := by
      rw [show constructor.kind = .identifier by simpa using hkind]
      rfl
    rw [← h.textAt hconstructor hword]
    refine rel_bind (h.declarationOf? _ hconstructor hword) fun owner owner' howner => ?_
    rw [← h.isClass howner]
    exact rel_guard fun _ => .some (h.ofClass howner)
  · split
    · exact .some (h.ofClass hunwrap)
    · exact .none

/-! ### Calls -/

theorem callAt? (hc : Twin m m' c c') :
    Option.Rel (TwinCall m m') (Call.at? m c) (Call.at? m' c') := by
  unfold Call.at?
  rw [← h.kind hc]
  refine rel_guard fun _ => rel_bind (h.child? hc .function) fun callee callee' hcallee => ?_
  refine .some ⟨hc, hcallee, ?_, ?_, ?_⟩
  · rw [← h.kind hcallee]
    split
    · exact h.child? hcallee .object
    · exact .none
  · rw [← h.kind hcallee]
    split
    · next hmember => exact h.property hcallee (by simpa using hmember)
    · rfl
  · exact forall₂_flatMap (rel_toList (h.child? hc .arguments)) fun _ _ _ hd => h.items hd

end Recommented
end Module
end Script
end NgIndex
