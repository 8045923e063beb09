import NgIndex.Lookup.Follow

/-!
# One step of a search

Wherever a search is, it does one of five things next.  It comes to its end, it goes on to a value in
the same script, it goes into another module, it goes to an object and from there on to a property,
or there is nowhere to go.  Which of these it does depends on the script and on what it looks at,
and neither on its action nor on the number of steps that are left.

So what is shown of searches is shown of these five turns.  The cases that lead to a turn are told
apart here: at an expression, at a declaration, and at what an export statement offers.
-/

namespace NgIndex
namespace Lookup

open Script

/-- What a search does next. -/
inductive Turn where
  /-- There is nowhere to go. -/
  | nowhere
  /-- The search has come to something that cannot be followed further. -/
  | ends (site : Cursor)
  /-- The search goes on to a value in the same script. -/
  | onward (value : Cursor)
  /-- The search goes into the module with a specifier, to what is exported under a name. -/
  | outside (specifier name : String) (exactly : Bool)
  /-- The search goes to an object, and from there on to a property. -/
  | inward (object : Cursor) (property : String)

/-- Whether an expression is a name of its own or in a property. -/
def isName (kind : Kind) : Bool :=
  kind == .identifier || kind == .shorthand

theorem not_isName_of_member {kind : Kind} (h : kind = .member) : isName kind = false := by
  rw [h]
  rfl

/-- The value that a property has in what a search has come to. -/
def propertyOf? (m : Module) (target : Cursor) (property : String) : Option Cursor :=
  (Table.ofNode? m target).bind fun table => table.get? property

namespace Turn

/-! ### Telling the turns apart -/

/-- The turn to a value, if there is one. -/
def ofValue? : Option Cursor → Turn
  | some value => .onward value
  | none => .nowhere

/-- The turn at a declaration. -/
def ofDeclaration (declaration : Cursor) : Turn :=
  if declaration.kind == .declarator then .ofValue? (declaration.child? .value)
  else .ends declaration

/-- The turn at an imported name that stands by itself. -/
def ofImport? : Option Import → Turn
  | some binding => .outside binding.source (exportName binding.imported none) false
  | none => .nowhere

/-- The turn at a name that is used at a site. -/
def ofName (m : Module) (name : String) (site : Cursor) : Turn :=
  match m.declarationOf? name site with
  | some declaration => .ofDeclaration declaration
  | none => .ofImport? (m.importOf? name)

/-- The turn at an access to a property. -/
def ofMember (m : Module) (c object : Cursor) (property : String) : Turn :=
  if object.kind == .this then
    .ofValue? (c.enclosingClass?.bind fun owner => (Table.ofClass m owner).get? property)
  else
    match wholeImport? m object with
    | some binding => .outside binding.source (exportName binding.imported (some property)) false
    | none => .inward object property

/-- The turn at an expression without wrappers. -/
def ofPlain (m : Module) (c : Cursor) : Turn :=
  if c.kind == .identifier || c.kind == .shorthand then .ofName m (m.textAt c) c
  else if c.kind == .member then
    match c.child? .object, c.child? .property with
    | some object, some property => .ofMember m c object.unwrap (m.textAt property)
    | _, _ => .nowhere
  else .ends c

/-- The turn at an expression. -/
def ofExpression (m : Module) (c : Cursor) : Turn :=
  .ofPlain m c.unwrap

/-- The turn at what an export statement offers under a name. -/
def ofOffer (m : Module) (name : String) : Offer → Turn
  | .nothing => .nowhere
  | .declared site _ => .ends site
  | .declarator site => .ofDeclaration site
  | .value site => .ofValue? site
  | .ownName target => .ofName m target m.root
  | .passed source target => .outside source target true
  | .everything source => .outside source name true

section Expression

variable {m : Module} {c object property : Cursor}

theorem ofExpression_of_isName (hname : isName c.unwrap.kind = true) :
    ofExpression m c = ofName m (m.textAt c.unwrap) c.unwrap :=
  if_pos hname

theorem ofExpression_of_member (hmember : c.unwrap.kind = .member)
    (hobject : c.unwrap.child? .object = some object)
    (hproperty : c.unwrap.child? .property = some property) :
    ofExpression m c = ofMember m c.unwrap object.unwrap (m.textAt property) := by
  simp [ofExpression, ofPlain, hmember, hobject, hproperty]

theorem ofExpression_of_plain (hname : isName c.unwrap.kind = false)
    (hmember : c.unwrap.kind ≠ .member) : ofExpression m c = .ends c.unwrap :=
  (if_neg (Bool.eq_false_iff.mp hname)).trans (if_neg (by simpa using hmember))

end Expression

section Name

variable {m : Module} {name : String} {site declaration : Cursor}

theorem ofName_of_declared (h : m.declarationOf? name site = some declaration) :
    ofName m name site = ofDeclaration declaration := by
  rw [ofName, h]

theorem ofName_of_undeclared (h : m.declarationOf? name site = none) :
    ofName m name site = ofImport? (m.importOf? name) := by
  rw [ofName, h]

theorem ofDeclaration_of_declarator (h : declaration.kind = .declarator) :
    ofDeclaration declaration = ofValue? (declaration.child? .value) :=
  if_pos (by simpa using h)

theorem ofDeclaration_of_ne_declarator (h : declaration.kind ≠ .declarator) :
    ofDeclaration declaration = .ends declaration :=
  if_neg (by simpa using h)

end Name

section Member

variable {m : Module} {c object : Cursor} {property : String}

theorem ofMember_of_this (h : object.kind = .this) :
    ofMember m c object property =
      ofValue? (c.enclosingClass?.bind fun owner => (Table.ofClass m owner).get? property) :=
  if_pos (by simpa using h)

theorem ofMember_of_wholeImport? {binding : Import} (h : object.kind ≠ .this)
    (hwhole : wholeImport? m object = some binding) :
    ofMember m c object property =
      .outside binding.source (exportName binding.imported (some property)) false := by
  rw [ofMember, if_neg (by simpa using h), hwhole]

theorem ofMember_of_ne_this (h : object.kind ≠ .this) (hwhole : wholeImport? m object = none) :
    ofMember m c object property = .inward object property := by
  rw [ofMember, if_neg (by simpa using h), hwhole]

end Member

/-! ### Going where a turn leads -/

/-- Goes where a turn leads. -/
def followWith {α : Type} (follow : Module → Cursor → Visit α → Lookup (Option α)) (reach : Reach α)
    (m : Module) (visit : Visit α) : Turn → Lookup (Option α)
  | .nowhere => pure none
  | .ends site => visit m site
  | .onward value => follow m value visit
  | .outside specifier name exactly => reach m specifier name exactly visit
  | .inward object property =>
      follow m object fun m target =>
        match propertyOf? m target property with
        | some value => follow m value visit
        | none => pure none

end Turn

section Follow

variable {α : Type} (reach : Reach α) (m : Module) (visit : Visit α)

theorem followDeclarationWith_eq (follow : Module → Cursor → Visit α → Lookup (Option α))
    (declaration : Cursor) :
    followDeclarationWith follow m declaration visit =
      (Turn.ofDeclaration declaration).followWith follow reach m visit := by
  unfold followDeclarationWith Turn.ofDeclaration
  split
  · cases declaration.child? .value with
    | none => rfl
    | some value => rfl
  · rfl

/-- A search that has steps left goes where its turn leads. -/
theorem followSteps_succ (steps : Nat) (c : Cursor) :
    followSteps reach (steps + 1) m c visit =
      (Turn.ofExpression m c).followWith (followSteps reach steps) reach m visit := by
  rw [followSteps, Turn.ofExpression]
  generalize c.unwrap = c
  simp only [Turn.ofPlain]
  split
  · rw [Turn.ofName]
    cases m.declarationOf? (m.textAt c) c with
    | some declaration => exact followDeclarationWith_eq reach m visit _ declaration
    | none =>
        cases m.importOf? (m.textAt c) with
        | some binding => rfl
        | none => rfl
  · split
    · cases c.child? .object with
      | none => rfl
      | some object =>
          cases c.child? .property with
          | none => rfl
          | some property =>
              simp only [Turn.ofMember]
              split
              · cases c.enclosingClass?.bind fun owner =>
                    (Table.ofClass m owner).get? (m.textAt property) with
                | some value => rfl
                | none => rfl
              · cases wholeImport? m object.unwrap with
                | some binding => rfl
                | none => rfl
    · rfl

/-- What an export statement offers is looked for where the turn at the offer leads. -/
theorem followOffer_eq (name : String) (offer : Offer) :
    followOffer reach m name visit offer =
      (Turn.ofOffer m name offer).followWith (followSteps reach stepLimit) reach m visit := by
  have hdeclaration := followDeclarationWith_eq reach m visit (followSteps reach stepLimit)
  cases offer with
  | nothing => rfl
  | declared site settles => rfl
  | declarator site => exact hdeclaration site
  | value site =>
      cases site with
      | none => rfl
      | some site => rfl
  | ownName target =>
      rw [followOffer, followTopLevel, Turn.ofOffer, Turn.ofName, Module.topLevel?]
      cases m.declarationOf? target m.root with
      | some declaration => exact hdeclaration declaration
      | none =>
          cases m.importOf? target with
          | some binding => rfl
          | none => rfl
  | passed source target => rfl
  | everything source => rfl

end Follow

end Lookup
end NgIndex
