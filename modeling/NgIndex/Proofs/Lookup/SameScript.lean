import NgIndex.Proofs.Lookup.Terminals
import NgIndex.Proofs.Script.Ranges

/-!
# Two searches in a script without imports

An object can be looked for in two ways.  The general search follows names, the properties of
objects, classes and instances, and `this`.  The search for an object of the same script goes the
same way as long as it leads through variables and objects only, and all of its steps are counted
together, while the general search counts those that are taken one inside the other.

So there is one way from an expression to its end.  The search for an object agrees with the general
search where this way leads through variables and objects and is short enough.
-/

namespace NgIndex
namespace Lookup

open Script Script.Cursor

/-! ### The way from an expression to its end -/

/-- A way that has been gone. -/
structure Way where
  /-- The number of steps one inside the other. -/
  depth : Nat
  /-- The number of all steps. -/
  steps : Nat
  /-- Whether the way leads through variables and objects only. -/
  plain : Bool

namespace Way

/-- The way that is at its end. -/
def here : Way :=
  ⟨1, 1, true⟩

/-- One step before a way. -/
def before (way : Way) (plain : Bool) : Way :=
  ⟨way.depth + 1, way.steps + 1, plain && way.plain⟩

/-- The step from a property: the way from the object, and then the way from the value. -/
def through (object value : Way) (plain : Bool) : Way :=
  ⟨max object.depth value.depth + 1, object.steps + value.steps + 1,
    plain && object.plain && value.plain⟩

end Way

/-- In a script without imports an expression leads to an end by a way. -/
inductive Leads (m : Module) : Cursor → Way → Cursor → Prop
  | here {c : Cursor} (hname : isName c.unwrap.kind = false) (hmember : c.unwrap.kind ≠ .member) :
      Leads m c .here c.unwrap
  | declared {c declaration : Cursor} (hname : isName c.unwrap.kind = true)
      (hdeclaration : m.declarationOf? (m.textAt c.unwrap) c.unwrap = some declaration)
      (hkind : declaration.kind ≠ .declarator) :
      Leads m c ⟨1, 1, false⟩ declaration
  | bound {c declaration value last : Cursor} {way : Way}
      (hname : isName c.unwrap.kind = true)
      (hdeclaration : m.declarationOf? (m.textAt c.unwrap) c.unwrap = some declaration)
      (hkind : declaration.kind = .declarator) (hvalue : declaration.child? .value = some value)
      (h : Leads m value way last) :
      Leads m c (way.before (c.unwrap.kind == .identifier)) last
  | ofThis {c object property value last : Cursor} {way : Way} (hmember : c.unwrap.kind = .member)
      (hobject : c.unwrap.child? .object = some object)
      (hproperty : c.unwrap.child? .property = some property)
      (hthis : object.unwrap.kind = .this)
      (hvalue : (c.unwrap.enclosingClass?.bind fun owner =>
        (Table.ofClass m owner).get? (m.textAt property)) = some value)
      (h : Leads m value way last) : Leads m c (way.before false) last
  | property {c object property target value last : Cursor} {way way' : Way}
      (hmember : c.unwrap.kind = .member) (hobject : c.unwrap.child? .object = some object)
      (hproperty : c.unwrap.child? .property = some property)
      (hthis : object.unwrap.kind ≠ .this) (h : Leads m object way target)
      (hvalue : ((Table.ofNode? m target).bind fun table => table.get? (m.textAt property)) =
        some value)
      (h' : Leads m value way' last) :
      Leads m c (way.through way' (target.kind == .object)) last

section Leads

variable {m : Module} {c last last' : Cursor} {way way' : Way}

/-- There is at most one way. -/
theorem Leads.unique (h : Leads m c way last) (h' : Leads m c way' last') :
    way = way' ∧ last = last' := by
  -- The kind of the expression and what it refers to decide how a way goes on, so the other way
  -- takes the same step, and the hypotheses are about the same rest.
  induction h generalizing way' last' with
  | here hname hmember =>
      cases h' with
      | here => exact ⟨rfl, rfl⟩
      | declared hname' => simp [hname] at hname'
      | bound hname' => simp [hname] at hname'
      | ofThis hmember' => exact absurd hmember' hmember
      | property hmember' => exact absurd hmember' hmember
  | declared hname hdeclaration hkind =>
      cases h' with
      | here hname' => simp [hname] at hname'
      | declared _ hdeclaration' =>
          exact ⟨rfl, Option.some.inj (hdeclaration.symm.trans hdeclaration')⟩
      | bound _ hdeclaration' hkind' =>
          rw [Option.some.inj (hdeclaration.symm.trans hdeclaration')] at hkind
          exact absurd hkind' hkind
      | ofThis hmember => simp [not_isName_of_member hmember] at hname
      | property hmember => simp [not_isName_of_member hmember] at hname
  | bound hname hdeclaration hkind hvalue h ih =>
      cases h' with
      | here hname' => simp [hname] at hname'
      | declared _ hdeclaration' hkind' =>
          rw [Option.some.inj (hdeclaration.symm.trans hdeclaration')] at hkind
          exact absurd hkind hkind'
      | bound _ hdeclaration' _ hvalue' h' =>
          obtain rfl := Option.some.inj (hdeclaration.symm.trans hdeclaration')
          obtain rfl := Option.some.inj (hvalue.symm.trans hvalue')
          obtain ⟨rfl, rfl⟩ := ih h'
          exact ⟨rfl, rfl⟩
      | ofThis hmember => simp [not_isName_of_member hmember] at hname
      | property hmember => simp [not_isName_of_member hmember] at hname
  | ofThis hmember hobject hproperty hthis hvalue h ih =>
      cases h' with
      | here _ hmember' => exact absurd hmember hmember'
      | declared hname => simp [not_isName_of_member hmember] at hname
      | bound hname => simp [not_isName_of_member hmember] at hname
      | ofThis _ _ hproperty' _ hvalue' h' =>
          obtain rfl := Option.some.inj (hproperty.symm.trans hproperty')
          obtain rfl := Option.some.inj (hvalue.symm.trans hvalue')
          obtain ⟨rfl, rfl⟩ := ih h'
          exact ⟨rfl, rfl⟩
      | property _ hobject' _ hthis' =>
          obtain rfl := Option.some.inj (hobject.symm.trans hobject')
          exact absurd hthis hthis'
  | property hmember hobject hproperty hthis h hvalue h₂ ih ih₂ =>
      cases h' with
      | here _ hmember' => exact absurd hmember hmember'
      | declared hname => simp [not_isName_of_member hmember] at hname
      | bound hname => simp [not_isName_of_member hmember] at hname
      | ofThis _ hobject' _ hthis' =>
          obtain rfl := Option.some.inj (hobject.symm.trans hobject')
          exact absurd hthis' hthis
      | property _ hobject' hproperty' _ h' hvalue' h₂' =>
          obtain rfl := Option.some.inj (hobject.symm.trans hobject')
          obtain rfl := Option.some.inj (hproperty.symm.trans hproperty')
          obtain ⟨rfl, rfl⟩ := ih h'
          obtain rfl := Option.some.inj (hvalue.symm.trans hvalue')
          obtain ⟨rfl, rfl⟩ := ih₂ h₂'
          exact ⟨rfl, rfl⟩

/-- An expression that leads to an object is not `this`. -/
theorem Leads.kind_ne_this (h : Leads m c way last) (hobject : last.kind = .object) :
    c.unwrap.kind ≠ .this := by
  intro hthis
  cases h with
  | here =>
      rw [hthis] at hobject
      cases hobject
  | declared hname =>
      rw [hthis] at hname
      cases hname
  | bound hname =>
      rw [hthis] at hname
      cases hname
  | ofThis hmember =>
      rw [hthis] at hmember
      cases hmember
  | property hmember =>
      rw [hthis] at hmember
      cases hmember

/-- Fewer steps are inside one another than there are in all. -/
theorem Leads.depth_le_steps (h : Leads m c way last) : way.depth ≤ way.steps := by
  induction h with
  | here => exact Nat.le_refl _
  | declared => exact Nat.le_refl _
  | bound _ _ _ _ _ ih => exact Nat.succ_le_succ ih
  | ofThis _ _ _ _ _ _ ih => exact Nat.succ_le_succ ih
  | property _ _ _ _ _ _ _ ih ih' =>
      simp only [Way.through]
      omega

end Leads

/-! ### The general search -/

section Search

variable {reached : Reached} {place : Place} {c last : Cursor} {way : Way} {steps : Nat}

theorem stepTerminals_unwrap (steps : Nat) (c : Cursor) :
    stepTerminals reached steps place c.unwrap = stepTerminals reached steps place c := by
  cases steps with
  | zero => rfl
  | succ steps =>
      rw [stepTerminals_succ, stepTerminals_succ, Turn.ofExpression, Turn.ofExpression,
        unwrap_unwrap]

/-- A name that leads to something in its own script does not stand for another module. -/
theorem Leads.wholeImport?_eq_none {m : Module} (h : Leads m c way last) :
    wholeImport? m c.unwrap = none := by
  have hdeclared {declaration : Cursor}
      (hdeclaration : m.declarationOf? (m.textAt c.unwrap) c.unwrap = some declaration) :
      wholeImport? m c.unwrap = none := by
    simp [wholeImport?, hdeclaration]
  have hkind (hname : isName c.unwrap.kind = false) : wholeImport? m c.unwrap = none := by
    rw [isName, Bool.or_eq_false_iff] at hname
    simp [wholeImport?, hname.1]
  cases h with
  | here hname => exact hkind hname
  | declared _ hdeclaration => exact hdeclared hdeclaration
  | bound _ hdeclaration => exact hdeclared hdeclaration
  | ofThis hmember => exact hkind (not_isName_of_member hmember)
  | property hmember => exact hkind (not_isName_of_member hmember)

/-- The way is gone to its end if it does not have too many steps inside one another. -/
theorem Leads.stepTerminals_eq (h : Leads place.script c way last) (hdepth : way.depth ≤ steps) :
    stepTerminals reached steps place c = [⟨place, last⟩] := by
  induction h generalizing steps with
  | here hname hmember =>
      obtain ⟨steps, rfl⟩ := Nat.exists_eq_add_of_le' (show 1 ≤ steps from hdepth)
      rw [stepTerminals_succ, Turn.ofExpression_of_plain hname hmember]
      rfl
  | declared hname hdeclaration hkind =>
      obtain ⟨steps, rfl⟩ := Nat.exists_eq_add_of_le' (show 1 ≤ steps from hdepth)
      rw [stepTerminals_succ, Turn.ofExpression_of_isName hname,
        Turn.ofName_of_declared hdeclaration, Turn.ofDeclaration_of_ne_declarator hkind]
      rfl
  | bound hname hdeclaration hkind hvalue h ih =>
      obtain ⟨steps, rfl⟩ := Nat.exists_eq_add_of_le' (Nat.le_trans (Nat.le_add_left 1 _) hdepth)
      rw [stepTerminals_succ, Turn.ofExpression_of_isName hname,
        Turn.ofName_of_declared hdeclaration, Turn.ofDeclaration_of_declarator hkind, hvalue]
      exact ih (Nat.le_of_succ_le_succ hdepth)
  | ofThis hmember hobject hproperty hthis hvalue h ih =>
      obtain ⟨steps, rfl⟩ := Nat.exists_eq_add_of_le' (Nat.le_trans (Nat.le_add_left 1 _) hdepth)
      rw [stepTerminals_succ, Turn.ofExpression_of_member hmember hobject hproperty,
        Turn.ofMember_of_this hthis, hvalue]
      exact ih (Nat.le_of_succ_le_succ hdepth)
  | property hmember hobject hproperty hthis h hvalue h' ih ih' =>
      obtain ⟨steps, rfl⟩ := Nat.exists_eq_add_of_le' (Nat.le_trans (Nat.le_add_left 1 _) hdepth)
      have hboth := Nat.max_le.mp (Nat.le_of_succ_le_succ hdepth)
      rw [stepTerminals_succ, Turn.ofExpression_of_member hmember hobject hproperty,
        Turn.ofMember_of_ne_this hthis h.wholeImport?_eq_none, Turn.terminalsWith,
        stepTerminals_unwrap, ih hboth.1, List.flatMap_singleton, propertyOf?, hvalue]
      exact ih' hboth.2

/-! ### What a turn says about the way -/

/-- What a turn says about the ways from an expression: the end of one is here, or the ways go on
where the turn leads. -/
def Turn.LeadsFrom (m : Module) (c : Cursor) : Turn → Prop
  | .nowhere => True
  | .ends site => ∃ plain, Leads m c ⟨1, 1, plain⟩ site
  | .onward value =>
      ∀ {way last}, Leads m value way last → ∃ plain, Leads m c (way.before plain) last
  | .outside _ _ _ => m.imports ≠ []
  | .inward object property =>
      ∃ site : Cursor, site.unwrap = object ∧ ∀ {way way' target value last},
        Leads m site way target → propertyOf? m target property = some value →
        Leads m value way' last → ∃ plain, Leads m c (way.through way' plain) last

namespace Turn

variable {m : Module} {declaration : Cursor}

theorem leadsFrom_ofDeclaration (hname : isName c.unwrap.kind = true)
    (hdeclaration : m.declarationOf? (m.textAt c.unwrap) c.unwrap = some declaration) :
    (ofDeclaration declaration).LeadsFrom m c := by
  by_cases hkind : declaration.kind = .declarator
  · rw [ofDeclaration_of_declarator hkind]
    cases hvalue : declaration.child? .value with
    | none => exact trivial
    | some value => exact fun h => ⟨_, .bound hname hdeclaration hkind hvalue h⟩
  · rw [ofDeclaration_of_ne_declarator hkind]
    exact ⟨_, .declared hname hdeclaration hkind⟩

theorem leadsFrom_ofName (hname : isName c.unwrap.kind = true) :
    (ofName m (m.textAt c.unwrap) c.unwrap).LeadsFrom m c := by
  cases hdeclaration : m.declarationOf? (m.textAt c.unwrap) c.unwrap with
  | some declaration =>
      rw [ofName_of_declared hdeclaration]
      exact leadsFrom_ofDeclaration hname hdeclaration
  | none =>
      rw [ofName_of_undeclared hdeclaration]
      cases himport : m.importOf? (m.textAt c.unwrap) with
      | none => exact trivial
      | some binding =>
          intro hnone
          simp [Module.importOf?, hnone] at himport

theorem leadsFrom_ofMember {object property : Cursor} (hmember : c.unwrap.kind = .member)
    (hobject : c.unwrap.child? .object = some object)
    (hproperty : c.unwrap.child? .property = some property) :
    (ofMember m c.unwrap object.unwrap (m.textAt property)).LeadsFrom m c := by
  by_cases hthis : object.unwrap.kind = .this
  · rw [ofMember_of_this hthis]
    cases hvalue : c.unwrap.enclosingClass?.bind fun owner =>
        (Table.ofClass m owner).get? (m.textAt property) with
    | none => exact trivial
    | some value => exact fun h => ⟨_, .ofThis hmember hobject hproperty hthis hvalue h⟩
  · cases hwhole : wholeImport? m object.unwrap with
    | none =>
        rw [ofMember_of_ne_this hthis hwhole]
        exact ⟨object, rfl, fun h hvalue h' =>
          ⟨_, .property hmember hobject hproperty hthis h hvalue h'⟩⟩
    | some binding =>
        rw [ofMember_of_wholeImport? hthis hwhole]
        intro hnone
        simp [wholeImport?, Module.importOf?, hnone] at hwhole

theorem leadsFrom_ofExpression (m : Module) (c : Cursor) : (ofExpression m c).LeadsFrom m c := by
  cases hname : isName c.unwrap.kind with
  | true =>
      rw [ofExpression_of_isName hname]
      exact leadsFrom_ofName hname
  | false =>
      by_cases hmember : c.unwrap.kind = .member
      · cases hobject : c.unwrap.child? .object with
        | none => simp [ofExpression, ofPlain, hmember, hobject, LeadsFrom]
        | some object =>
            cases hproperty : c.unwrap.child? .property with
            | none => simp [ofExpression, ofPlain, hmember, hobject, hproperty, LeadsFrom]
            | some property =>
                rw [ofExpression_of_member hmember hobject hproperty]
                exact leadsFrom_ofMember hmember hobject hproperty
      · rw [ofExpression_of_plain hname hmember]
        exact ⟨_, .here hname hmember⟩

end Turn

/-- Whatever the search comes to is the end of the way. -/
theorem exists_leads_of_mem_stepTerminals (himports : place.script.imports = []) {t : Terminal}
    (h : t ∈ stepTerminals reached steps place c) :
    t.place = place ∧ ∃ way : Way, way.depth ≤ steps ∧ Leads place.script c way t.site := by
  induction steps generalizing c t with
  | zero => cases h
  | succ steps ih =>
      have hfrom := Turn.leadsFrom_ofExpression place.script c
      rw [stepTerminals_succ] at h
      cases hturn : Turn.ofExpression place.script c with
      | nowhere =>
          rw [hturn] at h
          cases h
      | ends site =>
          rw [hturn] at h hfrom
          obtain rfl := List.mem_singleton.mp h
          obtain ⟨plain, hleads⟩ := hfrom
          exact ⟨rfl, _, Nat.succ_le_succ (Nat.zero_le _), hleads⟩
      | onward value =>
          rw [hturn] at h hfrom
          obtain ⟨hplace, way, hdepth, hvalue⟩ := ih h
          obtain ⟨plain, hleads⟩ := hfrom hvalue
          exact ⟨hplace, _, Nat.succ_le_succ hdepth, hleads⟩
      | outside specifier name exactly =>
          rw [hturn] at hfrom
          exact absurd himports hfrom
      | inward object property =>
          rw [hturn] at h hfrom
          obtain ⟨site, rfl, hfrom⟩ := hfrom
          obtain ⟨target, htarget, ht⟩ := List.mem_flatMap.mp h
          rw [stepTerminals_unwrap] at htarget
          obtain ⟨hplace, way, hdepth, hobject⟩ := ih htarget
          rw [hplace] at ht
          split at ht
          · next value hvalue =>
              obtain ⟨hplace', way', hdepth', hleads'⟩ := ih ht
              obtain ⟨plain, hleads⟩ := hfrom hobject hvalue hleads'
              exact ⟨hplace', _, Nat.succ_le_succ (Nat.max_le.mpr ⟨hdepth, hdepth'⟩), hleads⟩
          · cases ht

end Search

/-! ### The search for an object -/

/-- A script in which only the declarations of variables have a value. -/
def OnlyVariables (m : Module) : Prop :=
  ∀ {name : String} {site declaration value : Cursor},
    m.declarationOf? name site = some declaration →
    declaration.child? .value = some value → declaration.kind = .declarator

theorem onlyVariables_ofText (path : Path) (text : String) : OnlyVariables (.ofText path text) := by
  intro name site declaration value hdeclaration hvalue
  obtain ⟨found, hfound, rfl⟩ := Option.map_eq_some_iff.mp hdeclaration
  have hmem := (List.mem_filter.mp (Module.mem_of_innermost? hfound)).1
  obtain ⟨c, hc, hat⟩ := List.mem_filterMap.mp hmem
  simp only [declarationAt?, Option.bind_eq_bind, Option.bind_eq_some_iff, Option.pure_def] at hat
  obtain ⟨_, hguard, name, -, -, -, scope, -, hsame⟩ := hat
  obtain rfl := Option.some.inj hsame
  have hdeclares : declares c.kind = true := by simpa using (Option.guard_eq_some' _).mp hguard
  by_contra hkind
  -- Whatever else declares a name has no part that is its value.
  have hdefinition : c.kind.isDefinition = true := by
    revert hdeclares hkind
    cases c.kind <;> simp [declares, Kind.isDefinition]
  have htidy := (mem_preOrder_iff.mp hc).tidy (Module.tidy_ofText path text)
  refine htidy.shaped.definition hdefinition ?_
  rw [← filterMap_role_children]
  exact List.mem_filterMap.mpr ⟨value, List.mem_of_find?_eq_some hvalue, by
    simpa using List.find?_some hvalue⟩

theorem unwrap_of_object {target : Cursor} (h : target.kind = .object) : target.unwrap = target :=
  unwrap_of_wrapped?_eq_none (by rw [h]; rfl)

theorem ofNode?_of_object {m : Module} {target : Cursor} (h : target.kind = .object) :
    Table.ofNode? m target = some (Table.ofObject m target) := by
  simp [Table.ofNode?, unwrap_of_object h, h]

section Object

variable {m : Module} {c last : Cursor} {way : Way} {fuel steps left : Nat}

/-- A way through variables and objects is gone by the search for an object if it has no more steps
than may be taken. -/
theorem Leads.objectWithin_eq (h : Leads m c way last) (hplain : way.plain = true)
    (hobject : last.kind = .object) (hfuel : way.steps + left ≤ fuel) :
    objectWithin m fuel (way.steps + left) c = some (last, left) := by
  induction h generalizing fuel left with
  | @here c hname hmember =>
      obtain ⟨fuel, rfl⟩ := Nat.exists_eq_add_of_le' (show 1 ≤ fuel from by
        simp only [Way.here] at hfuel; omega)
      rw [show Way.here.steps + left = left + 1 from Nat.add_comm 1 left, objectWithin]
      simp only [hobject]
  | declared => cases hplain
  | @bound c declaration value last way hname hdeclaration hkind hvalue h ih =>
      simp only [Way.before, Bool.and_eq_true, beq_iff_eq] at hplain hfuel ⊢
      obtain ⟨fuel, rfl⟩ := Nat.exists_eq_add_of_le' (show 1 ≤ fuel by omega)
      rw [Nat.add_right_comm, objectWithin]
      simp only [hplain.1, hdeclaration, hvalue, Option.bind_eq_bind, Option.bind_some]
      exact ih hplain.2 hobject (by omega)
  | ofThis => cases hplain
  | @property c object property target value last way way' hmember hsite hproperty _ _ hvalue _ ih
      ih' =>
      simp only [Way.through, Bool.and_eq_true, beq_iff_eq] at hplain hfuel ⊢
      obtain ⟨⟨htarget, hplainObject⟩, hplainValue⟩ := hplain
      obtain ⟨fuel, rfl⟩ := Nat.exists_eq_add_of_le' (show 1 ≤ fuel by omega)
      rw [ofNode?_of_object htarget, Option.bind_some] at hvalue
      rw [Nat.add_right_comm, Nat.add_assoc way.steps, objectWithin]
      simp only [hmember, hsite, hproperty, Option.bind_eq_bind, Option.bind_some]
      rw [ih hplainObject htarget (by omega)]
      simp only [Option.bind_some, hvalue]
      exact ih' hplainValue hobject (by omega)

/-- The search for an object goes ways through variables and objects, and counts all steps. -/
theorem exists_leads_of_objectWithin (hm : OnlyVariables m)
    (h : objectWithin m fuel steps c = some (last, left)) :
    last.kind = .object ∧
      ∃ way, Leads m c way last ∧ way.plain = true ∧ way.steps + left = steps := by
  induction fuel generalizing steps c last left with
  | zero => simp [objectWithin] at h
  | succ fuel ih =>
      cases steps with
      | zero => simp [objectWithin] at h
      | succ steps =>
          rw [objectWithin] at h
          simp only at h
          split at h
          · next hkind =>
              obtain ⟨rfl, rfl⟩ := Prod.mk.inj (Option.some.inj h)
              refine ⟨hkind, .here, .here (by rw [hkind]; rfl) (by rw [hkind]; decide), rfl, ?_⟩
              exact Nat.add_comm 1 steps
          · next hkind =>
              simp only [Option.bind_eq_bind, Option.bind_eq_some_iff] at h
              obtain ⟨declaration, hdeclaration, value, hvalue, h⟩ := h
              obtain ⟨hobject, way, hleads, hplain, rfl⟩ := ih h
              refine ⟨hobject, _, .bound (by rw [hkind]; rfl) hdeclaration
                (hm hdeclaration hvalue) hvalue hleads, ?_, ?_⟩
              · simp [Way.before, hkind, hplain]
              · exact Nat.add_right_comm _ _ _
          · next hkind =>
              simp only [Option.bind_eq_bind, Option.bind_eq_some_iff] at h
              obtain ⟨object, hsite, property, hproperty, ⟨target, middle⟩, htarget, value, hvalue,
                h⟩ := h
              -- The value of the property is looked for with what the object has left.
              obtain ⟨htargetObject, way, hleads, hplain, rfl⟩ := ih htarget
              obtain ⟨hobject, way', hleads', hplain', rfl⟩ := ih h
              refine ⟨hobject, _, .property hkind hsite hproperty
                (hleads.kind_ne_this htargetObject) hleads ?_ hleads', ?_, ?_⟩
              · rw [ofNode?_of_object htargetObject, Option.bind_some, hvalue]
              · simp [Way.through, htargetObject, hplain, hplain']
              · simp only [Way.through]
                omega
          · cases h

end Object

/-! ### The ends of both searches -/

/-- What the general search comes to in a script that is analysed. -/
def endOf? (scene : Scene) (m : Module) (c : Cursor) : Option Cursor :=
  (follow m c (fun _ target => pure (some target)) scene (.start m.path)).1

section Ends

variable {path : Path} {text : String} {c last : Cursor}

theorem endOf?_eq (scene : Scene) (c : Cursor) :
    endOf? scene (.ofText path text) c =
      (terminals scene (.first path text) c).head?.map Terminal.site := by
  have hvisit : VisitGives scene (fun _ target => pure (some target)) fun t => some t.site :=
    fun t _ => .pure scene _ (some t.site)
  have hchain : (Place.first path text).chain ≠ [] := List.cons_ne_nil _ _
  refine (follow_gives hvisit hchain c (.start path) rfl).1.trans ?_
  cases terminals scene (.first path text) c with
  | nil => rfl
  | cons t ts => rfl

/-- The general search comes to the end of every way that is not too deep, and to nothing else. -/
theorem endOf?_eq_some_iff (scene : Scene) (himports : (Module.ofText path text).imports = []) :
    endOf? scene (.ofText path text) c = some last ↔
      ∃ way, Leads (.ofText path text) c way last ∧ way.depth ≤ stepLimit := by
  rw [endOf?_eq, terminals]
  constructor
  · intro h
    obtain ⟨t, ht, rfl⟩ := Option.map_eq_some_iff.mp h
    obtain ⟨-, way, hdepth, hleads⟩ :=
      exists_leads_of_mem_stepTerminals himports (List.mem_of_mem_head? ht)
    exact ⟨way, hleads, hdepth⟩
  · rintro ⟨way, hleads, hdepth⟩
    have hleads : Leads (Place.first path text).script c way last := hleads
    rw [hleads.stepTerminals_eq hdepth]
    rfl

/-- The search for an object comes to the end of every short way through variables and objects. -/
theorem object?_eq_some_iff :
    object? (.ofText path text) c = some last ↔ last.kind = .object ∧
      ∃ way, Leads (.ofText path text) c way last ∧ way.plain = true ∧ way.steps ≤ 16 := by
  rw [object?]
  constructor
  · intro h
    obtain ⟨⟨found, left⟩, hfound, rfl⟩ := Option.map_eq_some_iff.mp h
    obtain ⟨hobject, way, hleads, hplain, hsteps⟩ :=
      exists_leads_of_objectWithin (onlyVariables_ofText path text) hfound
    exact ⟨hobject, way, hleads, hplain, by omega⟩
  · rintro ⟨hobject, way, hleads, hplain, hsteps⟩
    obtain ⟨left, hleft⟩ := Nat.exists_eq_add_of_le hsteps
    have hfound := hleads.objectWithin_eq hplain hobject (Nat.le_of_eq hleft.symm)
    rw [← hleft] at hfound
    rw [hfound]
    rfl

end Ends

end Lookup

open Script Lookup

/-- **When the search for an object agrees with the general search.**  In a script without imports,
what the search for an object finds, the general search comes to as well.  Where the general search
comes to an object, there is one way to it, and the search for an object finds it if and only if the
way leads through variables and objects only and has at most sixteen steps, all of them counted. -/
theorem object_search_agrees_iff (scene : Scene) {path : Path} {text : String}
    (himports : (Module.ofText path text).imports = []) (c last : Cursor) :
    let m := Module.ofText path text
    (object? m c = some last → endOf? scene m c = some last ∧ last.kind = .object) ∧
    (endOf? scene m c = some last → last.kind = .object →
      ∃ way, Leads m c way last ∧ (∀ other end', Leads m c other end' → other = way) ∧
        (object? m c = some last ↔ way.plain = true ∧ way.steps ≤ 16)) := by
  intro m
  constructor
  · intro h
    obtain ⟨hobject, way, hleads, -, hsteps⟩ := object?_eq_some_iff.mp h
    have hdepth : way.depth ≤ stepLimit :=
      Nat.le_trans hleads.depth_le_steps (Nat.le_succ_of_le hsteps)
    exact ⟨(endOf?_eq_some_iff scene himports).mpr ⟨way, hleads, hdepth⟩, hobject⟩
  · intro hend hobject
    obtain ⟨way, hleads, -⟩ := (endOf?_eq_some_iff scene himports).mp hend
    refine ⟨way, hleads, fun other end' hother => (hother.unique hleads).1, ?_⟩
    refine object?_eq_some_iff.trans ⟨?_, fun hway => ⟨hobject, way, hleads, hway⟩⟩
    rintro ⟨-, other, hother, hway⟩
    rwa [(hother.unique hleads).1] at hway

/-! ### A property with a value and one without -/

namespace Properties

/-- A script with an object in which a property has a value. -/
def valued : Module :=
  .ofText ⟨"/a.js"⟩ "const a = \x7b b: \x7b\x7d \x7d; a.b"

/-- A script with an object in which a property takes its value from the variable of its name. -/
def named : Module :=
  .ofText ⟨"/a.js"⟩ "const b = \x7b\x7d; const a = \x7b b \x7d; a.b"

def scene : Scene where
  root := ⟨"/"⟩
  files := {}

/-- The property that is asked for. -/
def use (m : Module) : Cursor :=
  (m.root.preOrder.find? fun c => c.kind == .member).getD m.root

end Properties

/-- Both searches come to the object that is the value of the property. -/
theorem valued_object_search_agrees :
    Properties.valued.imports = [] ∧
      ∃ last, object? Properties.valued (Properties.use Properties.valued) = some last ∧
        endOf? Properties.scene Properties.valued (Properties.use Properties.valued) = some last ∧
        last.kind = .object := by
  obtain ⟨himports, hsome⟩ : Properties.valued.imports = [] ∧
      (object? Properties.valued (Properties.use Properties.valued)).isSome = true := by
    decide +kernel
  obtain ⟨last, hlast⟩ := Option.isSome_iff_exists.mp hsome
  exact ⟨himports, last, hlast,
    (object_search_agrees_iff Properties.scene himports _ last).1 hlast⟩

/-- The general search comes to an object where the search for an object finds none. -/
theorem named_object_search_disagrees :
    Properties.named.imports = [] ∧
      object? Properties.named (Properties.use Properties.named) = none ∧
      (endOf? Properties.scene Properties.named (Properties.use Properties.named)).map
        (fun last => (last.kind, Properties.named.textAt last)) = some (.object, "\x7b\x7d") := by
  decide +kernel

end NgIndex
