import NgIndex.Proofs.Lookup.Terminals
import NgIndex.Proofs.Script.Recommented

/-!
# Searches in scripts that differ in comments

A search goes from names to declarations and from properties to tables, and comments change neither.
So in two scripts that differ in comments, searches that start at twins come to the same ends one
after another: to twins in the scripts themselves, and in other scripts to the very same places,
since nothing there leads back.  What is read off the ends is then the same as well.
-/

namespace NgIndex
namespace Lookup

open Script Script.Cursor

/-- Ends of searches in two scripts that differ in comments: twins there, or the same end in another
script. -/
inductive TwinEnd (chain : List String) (m m' : Module) : Terminal → Terminal → Prop
  | elsewhere (t : Terminal) : TwinEnd chain m m' t t
  | here {c c' : Cursor} (htwin : Twin m m' c c') :
      TwinEnd chain m m' ⟨⟨chain, m⟩, c⟩ ⟨⟨chain, m'⟩, c'⟩

/-- Turns in two scripts that differ in comments: to twins there, or into the same module. -/
inductive TwinTurn (m m' : Module) : Turn → Turn → Prop
  | nowhere : TwinTurn m m' .nowhere .nowhere
  | ends {c c' : Cursor} (htwin : Twin m m' c c') : TwinTurn m m' (.ends c) (.ends c')
  | onward {c c' : Cursor} (htwin : Twin m m' c c') : TwinTurn m m' (.onward c) (.onward c')
  | outside (specifier name : String) (exactly : Bool) :
      TwinTurn m m' (.outside specifier name exactly) (.outside specifier name exactly)
  | inward {c c' : Cursor} (htwin : Twin m m' c c') (property : String) :
      TwinTurn m m' (.inward c property) (.inward c' property)

section Search

variable {scene : Scene} {chain : List String} {m m' : Module} {c c' : Cursor} {t t' : Terminal}
  {reached : Reached}

theorem forall₂_twinEnd_refl (ends : List Terminal) :
    List.Forall₂ (TwinEnd chain m m') ends ends :=
  List.forall₂_same.mpr fun t _ => .elsewhere t

variable (h : m.Recommented m')

include h

theorem TwinEnd.kind (ht : TwinEnd chain m m' t t') : t.site.kind = t'.site.kind := by
  cases ht with
  | elsewhere t => rfl
  | here htwin => exact h.kind htwin

theorem TwinEnd.isClass (ht : TwinEnd chain m m' t t') :
    t.site.node.isClass = t'.site.node.isClass := by
  cases ht with
  | elsewhere t => rfl
  | here htwin => exact h.isClass htwin

theorem TwinEnd.literalAt? (ht : TwinEnd chain m m' t t') :
    t.place.script.literalAt? t.site = t'.place.script.literalAt? t'.site := by
  cases ht with
  | elsewhere t => rfl
  | here htwin => exact h.literalAt? htwin

/-- The import of a module as a whole that an expression names does not depend on comments. -/
theorem wholeImport?_twin (hc : Twin m m' c c') : wholeImport? m c = wholeImport? m' c' := by
  unfold wholeImport?
  rw [← h.kind hc]
  by_cases hkind : c.kind = .identifier
  · have hword : c.kind.isWord = true := by
      rw [hkind]
      rfl
    have hdeclared : (m.declarationOf? (m.textAt c) c).isNone =
        (m'.declarationOf? (m.textAt c) c').isNone := by
      rcases rel_cases (h.declarationOf? (m.textAt c) hc hword) with
        ⟨hleft, hright⟩ | ⟨d, d', hleft, hright, -⟩
      · rw [hleft, hright]
      · rw [hleft, hright, Option.isNone_some, Option.isNone_some]
    dsimp only
    rw [← h.textAt hc hword, hdeclared, h.importOf?]
  · simp [hkind]

namespace Turn

omit h in
theorem ofValue?_twin {value value' : Option Cursor} (hvalue : Option.Rel (Twin m m') value value') :
    TwinTurn m m' (ofValue? value) (ofValue? value') := by
  cases hvalue with
  | none => exact .nowhere
  | some htwin => exact .onward htwin

theorem ofDeclaration_twin (hc : Twin m m' c c') :
    TwinTurn m m' (ofDeclaration c) (ofDeclaration c') := by
  unfold ofDeclaration
  rw [← h.kind hc]
  split
  · exact ofValue?_twin (h.child? hc .value)
  · exact .ends hc

theorem ofName_twin (name : String) (hc : Twin m m' c c') (hword : c.kind.isWord = true) :
    TwinTurn m m' (ofName m name c) (ofName m' name c') := by
  unfold ofName
  rw [← h.importOf?]
  rcases rel_cases (h.declarationOf? name hc hword) with
    ⟨hleft, hright⟩ | ⟨declaration, declaration', hleft, hright, hdeclaration⟩
  · rw [hleft, hright]
    cases m.importOf? name with
    | none => exact .nowhere
    | some binding => exact .outside _ _ _
  · rw [hleft, hright]
    exact ofDeclaration_twin h hdeclaration

theorem ofMember_twin {object object' : Cursor} (hc : Twin m m' c c')
    (hobject : Twin m m' object object') (property : String) :
    TwinTurn m m' (ofMember m c object property) (ofMember m' c' object' property) := by
  unfold ofMember
  rw [← h.kind hobject, ← wholeImport?_twin h hobject]
  split
  · exact ofValue?_twin (rel_bind (h.enclosingClass? hc) fun _ _ howner =>
      rel_get? property (h.ofClass howner))
  · cases wholeImport? m object with
    | some binding => exact .outside _ _ _
    | none => exact .inward hobject property

/-- At twins a search does the same. -/
theorem ofExpression_twin (hc : Twin m m' c c') :
    TwinTurn m m' (ofExpression m c) (ofExpression m' c') := by
  have hunwrap := h.unwrap hc
  unfold ofExpression ofPlain
  generalize c.unwrap = d at hunwrap
  generalize c'.unwrap = d' at hunwrap
  rw [← h.kind hunwrap]
  split
  · next hname =>
      have hword : d.kind.isWord = true := by
        rcases (Bool.or_eq_true _ _).mp hname with hkind | hkind
        all_goals
          rw [beq_iff_eq.mp hkind]
          rfl
      rw [← h.textAt hunwrap hword]
      exact ofName_twin h _ hunwrap hword
  · split
    · next hmember =>
        have hproperty := h.property hunwrap (by simpa using hmember)
        rcases rel_cases (h.child? hunwrap .object) with
          ⟨hleft, hright⟩ | ⟨object, object', hleft, hright, hobject⟩
        · rw [hleft, hright]
          exact .nowhere
        rcases rel_cases (h.child? hunwrap .property) with
          ⟨hleft', hright'⟩ | ⟨name, name', hleft', hright', -⟩
        · rw [hleft, hright, hleft', hright']
          exact .nowhere
        rw [hleft', hright', Option.map_some, Option.map_some] at hproperty
        rw [hleft, hright, hleft', hright']
        dsimp only
        rw [← Option.some.inj hproperty]
        exact ofMember_twin h hunwrap (h.unwrap hobject) _
    · exact .ends hunwrap

/-- Turns that agree come to the same ends, if searches do that start at twins. -/
theorem terminalsWith_twin {terminals : Place → Cursor → List Terminal}
    (hterminals : ∀ {c c' : Cursor}, Twin m m' c c' →
      List.Forall₂ (TwinEnd chain m m') (terminals ⟨chain, m⟩ c) (terminals ⟨chain, m'⟩ c'))
    (hreached : ∀ specifier name exactly,
      reached ⟨chain, m⟩ specifier name exactly = reached ⟨chain, m'⟩ specifier name exactly)
    {turn turn' : Turn} (hturn : TwinTurn m m' turn turn') :
    List.Forall₂ (TwinEnd chain m m') (turn.terminalsWith terminals reached ⟨chain, m⟩)
      (turn'.terminalsWith terminals reached ⟨chain, m'⟩) := by
  cases hturn with
  | nowhere => exact .nil
  | ends htwin => exact .cons (.here htwin) .nil
  | onward htwin => exact hterminals htwin
  | outside specifier name exactly =>
      rw [terminalsWith, hreached]
      exact forall₂_twinEnd_refl _
  | inward htwin property =>
      refine forall₂_flatMap (hterminals htwin) fun t _ t' ht => ?_
      cases ht with
      | elsewhere t => exact forall₂_twinEnd_refl _
      | here hsite =>
          have hvalue : Option.Rel (Twin m m') (propertyOf? m _ property)
              (propertyOf? m' _ property) :=
            rel_bind (h.ofNode? hsite) fun _ _ htable => rel_get? property htable
          dsimp only
          rcases rel_cases hvalue with ⟨hnone, hnone'⟩ | ⟨value, value', hsome, hsome', hvalue⟩
          · rw [hnone, hnone']
            exact .nil
          · rw [hsome, hsome']
            exact hterminals hvalue

end Turn

/-- Searches that start at twins come to the same ends. -/
theorem stepTerminals_twin (hreached : ∀ specifier name exactly,
      reached ⟨chain, m⟩ specifier name exactly = reached ⟨chain, m'⟩ specifier name exactly)
    (steps : Nat) (hc : Twin m m' c c') :
    List.Forall₂ (TwinEnd chain m m') (stepTerminals reached steps ⟨chain, m⟩ c)
      (stepTerminals reached steps ⟨chain, m'⟩ c') := by
  induction steps generalizing c c' with
  | zero => exact .nil
  | succ steps ih =>
      rw [stepTerminals_succ, stepTerminals_succ]
      exact Turn.terminalsWith_twin h ih hreached (Turn.ofExpression_twin h hc)

theorem entered?_eq (scene : Scene) (specifier : String) :
    Place.entered? scene ⟨chain, m⟩ specifier = Place.entered? scene ⟨chain, m'⟩ specifier := by
  have hdirectory : m.directory = m'.directory := by
    rw [Module.directory, Module.directory, h.path]
  unfold Place.entered? Place.enter
  simp only [hdirectory]

theorem reachedWithin_eq (scene : Scene) (limit : Nat) (specifier name : String) (exactly : Bool) :
    reachedWithin scene limit ⟨chain, m⟩ specifier name exactly =
      reachedWithin scene limit ⟨chain, m'⟩ specifier name exactly := by
  cases limit with
  | zero => rfl
  | succ limit => rw [reachedWithin, reachedWithin, entered?_eq h]

/-- Searches that start at twins end at twins, or outside of the scripts at the same places. -/
theorem terminals_twin (scene : Scene) (chain : List String) (hc : Twin m m' c c') :
    List.Forall₂ (TwinEnd chain m m') (terminals scene ⟨chain, m⟩ c)
      (terminals scene ⟨chain, m'⟩ c') := by
  unfold terminals
  rw [← h.path]
  exact stepTerminals_twin h (reachedWithin_eq h scene _) stepLimit hc

/-- The text that an expression stands for does not depend on comments. -/
theorem findSome?_literalAt?_twin (scene : Scene) (chain : List String) (hc : Twin m m' c c') :
    ((terminals scene ⟨chain, m⟩ c).findSome? fun t => t.place.script.literalAt? t.site) =
      (terminals scene ⟨chain, m'⟩ c').findSome? fun t => t.place.script.literalAt? t.site := by
  refine rel_eq_iff.mp (forall₂_findSome? (terminals_twin h scene chain hc) fun t t' ht => ?_)
  exact rel_eq_iff.mpr (ht.literalAt? h)

end Search

end Lookup
end NgIndex
