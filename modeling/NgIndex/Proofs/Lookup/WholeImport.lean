import NgIndex.Proofs.Lookup.SameScript

/-!
# Properties of an imported module

Where a module is imported as a whole, a property of its name is looked for among the names that the
module exports.  A module that gives away a value without a name exports no names, so the search
falls back to the value.  There the property is forgotten: `x.p` leads to the object that is given
away, and not into it.

Where the same value is imported by itself, the object is found first and the property is looked up
in it.  So what a property of an imported name means depends on how the name is imported.
-/

namespace NgIndex
namespace Lookup

open Script

/-! ### Both sides of an import -/

/-- An export statement that gives away a value without a name. -/
structure GivesAway (m : Module) (statement value : Cursor) : Prop where
  unnamed : (m.hasToken statement "default" || m.hasToken statement "=") = true
  undeclared : statement.child? .declaration = none
  value : (statement.child? .value).or statement.items.head? = some value

/-- An expression that is a property of a name which is imported and not declared. -/
structure AsksImport (m : Module) (c object property : Cursor) (binding : Import) : Prop where
  member : c.unwrap.kind = .member
  object_eq : c.unwrap.child? .object = some object
  property_eq : c.unwrap.child? .property = some property
  name : object.unwrap.kind = .identifier
  undeclared : m.declarationOf? (m.textAt object.unwrap) object.unwrap = none
  imported : m.importOf? (m.textAt object.unwrap) = some binding

section Exports

variable {m : Module} {statement value : Cursor} {name : String}

theorem GivesAway.offer_default (h : GivesAway m statement value) :
    m.offer defaultName statement = .value (some value) := by
  have hvalue := h.value
  unfold Module.offer
  simp only [h.undeclared, h.unnamed]
  cases hfield : statement.child? .value with
  | some site =>
      rw [hfield, Option.some_or] at hvalue
      exact congrArg Offer.value hvalue
  | none =>
      rw [hfield, Option.none_or] at hvalue
      exact congrArg Offer.value hvalue

theorem GivesAway.offer_eq_nothing (h : GivesAway m statement value) (hname : name ≠ defaultName) :
    m.offer name statement = .nothing := by
  unfold Module.offer
  simp only [h.undeclared, h.unnamed]
  simp [hname]

variable {place : Place}

theorem searchTerminals_singleton (reached : Reached) (name : String) (statement : Cursor) :
    searchTerminals reached place name [statement] =
      offerTerminals reached place name (place.script.offer name statement) := by
  rw [searchTerminals, searchTerminals, ite_self, List.append_nil]

/-- Whatever name is asked for, a module that gives away nothing but a value leads to the value. -/
theorem exportTerminals_eq_of_givesAway (reached : Reached) (name : String)
    (hexports : place.script.exports = [statement])
    (hgives : GivesAway place.script statement value) :
    exportTerminals reached place name false = stepTerminals reached stepLimit place value := by
  have hdefault : searchTerminals reached place defaultName place.script.exports =
      stepTerminals reached stepLimit place value := by
    rw [hexports, searchTerminals_singleton, hgives.offer_default, offerTerminals]
  by_cases hname : name = defaultName
  · subst hname
    simp [exportTerminals, hdefault]
  · rw [exportTerminals, hdefault, hexports, searchTerminals_singleton,
      hgives.offer_eq_nothing hname]
    simp [offerTerminals, hname]

end Exports

section Imports

variable {m : Module} {place : Place} {c object property : Cursor} {binding : Import}
  {reached : Reached}

theorem AsksImport.object_ne_this (h : AsksImport m c object property binding) :
    object.unwrap.kind ≠ .this := by
  rw [h.name]
  decide

theorem AsksImport.wholeImport?_whole (h : AsksImport m c object property binding)
    (hwhole : binding.imported = .whole) : wholeImport? m object.unwrap = some binding := by
  simp [wholeImport?, h.name, h.undeclared, h.imported, hwhole]

theorem AsksImport.wholeImport?_value (h : AsksImport m c object property binding)
    (hvalue : binding.imported ≠ .whole) : wholeImport? m object.unwrap = none := by
  simp [wholeImport?, h.name, h.undeclared, h.imported, hvalue]

/-- The imported name by itself. -/
theorem AsksImport.stepTerminals_object (h : AsksImport place.script c object property binding)
    (steps : Nat) :
    stepTerminals reached (steps + 1) place object =
      reached place binding.source (exportName binding.imported none) false := by
  have hname : isName object.unwrap.kind = true := by
    rw [h.name]
    rfl
  rw [stepTerminals_succ, Turn.ofExpression_of_isName hname, Turn.ofName_of_undeclared h.undeclared,
    h.imported]
  rfl

/-- A property of a module that is imported as a whole. -/
theorem AsksImport.stepTerminals_whole (h : AsksImport place.script c object property binding)
    (hwhole : binding.imported = .whole) (steps : Nat) :
    stepTerminals reached (steps + 1) place c =
      reached place binding.source (place.script.textAt property) false := by
  rw [stepTerminals_succ, Turn.ofExpression_of_member h.member h.object_eq h.property_eq,
    Turn.ofMember_of_wholeImport? h.object_ne_this (h.wholeImport?_whole hwhole), hwhole]
  rfl

/-- A property of a value that is imported by itself. -/
theorem AsksImport.stepTerminals_value (h : AsksImport place.script c object property binding)
    (hvalue : binding.imported ≠ .whole) (steps : Nat) :
    stepTerminals reached (steps + 2) place c =
      (reached place binding.source (exportName binding.imported none) false).flatMap fun target =>
        match (Table.ofNode? target.place.script target.site).bind fun table =>
            table.get? (place.script.textAt property) with
        | some value => stepTerminals reached (steps + 1) target.place value
        | none => [] := by
  rw [stepTerminals_succ, Turn.ofExpression_of_member h.member h.object_eq h.property_eq,
    Turn.ofMember_of_ne_this h.object_ne_this (h.wholeImport?_value hvalue), Turn.terminalsWith,
    stepTerminals_unwrap, h.stepTerminals_object]
  rfl

end Imports

/-! ### An object that is given away -/

/-- A script asks for a property of an imported name, and the module that the name comes from gives
away nothing but an object with this property. -/
structure AsksObject (scene : Scene) (place : Place) (c : Cursor) (binding : Import)
    (entered : Place) (target found : Cursor) : Prop where
  asks : ∃ object property, AsksImport place.script c object property binding ∧
    (Table.ofObject entered.script target).get? (place.script.textAt property) = some found
  entered_eq : Place.entered? scene place binding.source = some entered
  gives : ∃ statement value way, entered.script.exports = [statement] ∧
    GivesAway entered.script statement value ∧ Leads entered.script value way target ∧
    way.depth ≤ stepLimit
  object : target.kind = .object

section Asked

variable {scene : Scene} {place entered : Place} {c target found last : Cursor} {binding : Import}
  {way : Way}

/-- Whatever name is asked for, the module leads to the object. -/
theorem AsksObject.reachedWithin_eq (h : AsksObject scene place c binding entered target found)
    (limit : Nat) (name : String) :
    reachedWithin scene (limit + 1) place binding.source name false = [⟨entered, target⟩] := by
  obtain ⟨statement, value, way, hexports, hgives, hleads, hdepth⟩ := h.gives
  simp only [reachedWithin, h.entered_eq]
  rw [exportTerminals_eq_of_givesAway _ name hexports hgives, hleads.stepTerminals_eq hdepth]

/-- A property of the module as a whole leads to the object. -/
theorem AsksObject.terminals_whole (h : AsksObject scene place c binding entered target found)
    (hwhole : binding.imported = .whole) : terminals scene place c = [⟨entered, target⟩] := by
  obtain ⟨object, property, hasks, -⟩ := h.asks
  rw [terminals, stepLimit, hasks.stepTerminals_whole hwhole, importLimit, h.reachedWithin_eq]

/-- A property of what the module gives away leads where the value of the property leads. -/
theorem AsksObject.terminals_default (h : AsksObject scene place c binding entered target found)
    (hdefault : binding.imported = .default) (hleads : Leads entered.script found way last)
    (hdepth : way.depth < stepLimit) : terminals scene place c = [⟨entered, last⟩] := by
  obtain ⟨object, property, hasks, hfound⟩ := h.asks
  rw [terminals, stepLimit, hasks.stepTerminals_value (by simp [hdefault]), importLimit,
    h.reachedWithin_eq, List.flatMap_singleton]
  simp only [ofNode?_of_object h.object, Option.bind_some, hfound]
  exact hleads.stepTerminals_eq (Nat.le_of_lt_succ hdepth)

/-- A literal is not an object. -/
theorem literalAt?_of_object (m : Module) (h : target.kind = .object) :
    m.literalAt? target = none := by
  simp [Module.literalAt?, literal?, h]

end Asked

end Lookup

open Script Lookup

/-- **Where a property of an imported module leads.**  A module gives away nothing but an object,
and a script asks for a property of it by an imported name.  If the module is imported as a whole,
the search comes to the object and to nothing else: there is no text, whatever the value of the
property is.  If what the module gives away is imported, the search comes to where the value of the
property leads. -/
theorem property_of_import_leads (scene : Scene) {place entered : Place} {c target found : Cursor}
    {binding : Import} (hchain : place.chain ≠ [])
    (h : AsksObject scene place c binding entered target found) :
    let ComesTo (last : Cursor) : Prop :=
      ∀ (α : Type) (visit : Visit α) (answer : Terminal → Option α),
        VisitGives scene visit answer →
        Gives scene place.chain (follow place.script c visit) (answer ⟨entered, last⟩)
    (binding.imported = .whole →
      (∀ last, ComesTo last ↔ last = target) ∧
        Gives scene place.chain (string? place.script c) none) ∧
    (binding.imported = .default →
      ∀ last way, Leads entered.script found way last → way.depth < stepLimit →
        ComesTo last ∧ Gives scene place.chain (string? place.script c)
          (entered.script.literalAt? last)) := by
  intro ComesTo
  have hcomes {last : Cursor} (hlast : terminals scene place c = [⟨entered, last⟩]) :
      ComesTo last := by
    intro α visit answer hvisit
    have hfollow := follow_gives hvisit hchain c
    rwa [hlast, List.findSome?_singleton] at hfollow
  have hstring {last : Cursor} (hlast : ComesTo last) :
      Gives scene place.chain (string? place.script c) (entered.script.literalAt? last) :=
    hlast String _ (fun t => t.place.script.literalAt? t.site) fun _ _ => .pure scene _ _
  constructor
  · intro hwhole
    have htarget := hcomes (h.terminals_whole hwhole)
    refine ⟨fun last => ⟨fun hlast => ?_, fun hlast => hlast ▸ htarget⟩, ?_⟩
    · -- An action that answers where it is applied tells the two ends apart.
      have hsite : VisitGives scene (fun _ target => pure (some target)) fun t => some t.site :=
        fun _ _ => .pure scene _ _
      exact Option.some.inj ((hlast _ _ _ hsite).answer_eq (htarget _ _ _ hsite))
    · rw [← literalAt?_of_object entered.script h.object]
      exact hstring htarget
  · intro hdefault last way hleads hdepth
    have hlast := hcomes (h.terminals_default hdefault hleads hdepth)
    exact ⟨hlast, hstring hlast⟩

/-! ### A module that gives away an object with a text -/

namespace Required

def origin : Path :=
  ⟨"/main.ts"⟩

/-- A module that gives away an object. -/
def given : Module :=
  .ofText ⟨"/m.ts"⟩ "export = \x7b p: 'y' \x7d"

def scene : Scene where
  root := ⟨"/"⟩
  files := { buffers := [("/m.ts", given.text)] }

/-- A script that imports the module as a whole. -/
def whole : Place :=
  .first origin "import x = require('./m'); x.p"

/-- A script that imports what the module gives away. -/
def value : Place :=
  .first origin "import x from './m'; x.p"

/-- The property that is asked for. -/
def use (place : Place) : Cursor :=
  (place.script.root.preOrder.find? fun c => c.kind == .member).getD place.script.root

end Required

/-- The value of the property is a text, but the property leads to the object. -/
theorem required_property_of_import_leads :
    Required.whole.chain ≠ [] ∧ ∃ entered target found,
      AsksObject Required.scene Required.whole (Required.use Required.whole) ⟨"./m", .whole⟩
        entered target found ∧
      entered.script.literalAt? found = some "y" ∧
      Gives Required.scene Required.whole.chain
        (string? Required.whole.script (Required.use Required.whole)) none := by
  have hchain : Required.whole.chain ≠ [] := List.cons_ne_nil _ _
  obtain ⟨⟨hmember, object, hobject, property, hproperty, hname, hundeclared, himported, hp⟩,
      entered, hentered, hlength, statement, hhead, hunnamed, hdeclaration, hfield, target, htarget,
      hkind, found, hfound, htext⟩ :
      ((Required.use Required.whole).unwrap.kind = .member ∧
        ∃ object ∈ (Required.use Required.whole).unwrap.child? .object,
        ∃ property ∈ (Required.use Required.whole).unwrap.child? .property,
          object.unwrap.kind = .identifier ∧
          Required.whole.script.declarationOf? (Required.whole.script.textAt object.unwrap)
            object.unwrap = none ∧
          Required.whole.script.importOf? (Required.whole.script.textAt object.unwrap) =
            some ⟨"./m", .whole⟩ ∧
          Required.whole.script.textAt property = "p") ∧
      ∃ entered ∈ Place.entered? Required.scene Required.whole "./m",
        entered.script.exports.length = 1 ∧ ∃ statement ∈ entered.script.exports.head?,
        (entered.script.hasToken statement "default" ||
          entered.script.hasToken statement "=") = true ∧
        statement.child? .declaration = none ∧ statement.child? .value = none ∧
        ∃ target ∈ statement.items.head?, target.kind = .object ∧
        ∃ found ∈ (Table.ofObject entered.script target).get? "p",
          entered.script.literalAt? found = some "y" := by
    decide +kernel
  have hexports : entered.script.exports = [statement] := by
    obtain ⟨only, honly⟩ := List.length_eq_one_iff.mp hlength
    rw [honly] at hhead ⊢
    rw [Option.some.inj hhead]
  have hself := unwrap_of_object hkind
  have hleads : Leads entered.script target .here target := by
    have h : Leads entered.script target .here target.unwrap :=
      .here (by rw [hself, hkind]; rfl) (by rw [hself, hkind]; decide)
    rwa [hself] at h
  have hasks : AsksObject Required.scene Required.whole (Required.use Required.whole)
      ⟨"./m", .whole⟩ entered target found :=
    ⟨⟨object, property, ⟨hmember, hobject, hproperty, hname, hundeclared, himported⟩, hp ▸ hfound⟩,
      hentered, ⟨statement, target, .here, hexports,
        ⟨hunnamed, hdeclaration, by rw [hfield]; exact htarget⟩, hleads, by decide⟩, hkind⟩
  exact ⟨hchain, entered, target, found, hasks, htext,
    ((property_of_import_leads Required.scene hchain hasks).1 rfl).2⟩

/-- The property of the module as a whole leads to the object and has no text.  In the module
itself, and where the object is imported, the property has a text. -/
theorem property_of_whole_import_has_no_text :
    ((terminals Required.scene Required.whole (Required.use Required.whole)).map fun t =>
        t.place.script.textAt t.site) = ["\x7b p: 'y' \x7d"] ∧
    (string? Required.whole.script (Required.use Required.whole) Required.scene
      (.start Required.origin)).1 = none ∧
    ((Required.given.root.preOrder.filter fun c => c.kind == .object).map fun object =>
      ((Table.ofObject Required.given object).get? "p").map fun found =>
        (string? Required.given found Required.scene (.start Required.given.path)).1) =
      [some (some "y")] ∧
    (string? Required.value.script (Required.use Required.value) Required.scene
      (.start Required.origin)).1 = some "y" := by
  decide +kernel

end NgIndex
