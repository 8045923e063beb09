import NgIndex.Proofs.Analysis.Circle
import NgIndex.Proofs.Analysis.Unsupported
import NgIndex.Proofs.Script.Scope

/-!
# Directives that are made from classes

A function that returns an instance of a class makes directives, and so does a method of a class
that is called.  The class is named, and the innermost scope decides which declaration the name
refers to.  If that is a class of the script that registers the directive, only the name is kept;
the class is looked up again among all classes of the script, and the first one of that name is
described, whatever scope it stands in.  So the directive describes the class that its factory
refers to if and only if no other class of the same name comes before it.
-/

namespace NgIndex

open Script Script.Cursor Lookup Relation

namespace Analysis

/-! ### The end that a search takes its factory from -/

variable {scene : Scene} {origin : Path}

/-- The search for the factory that an expression stands for comes to an end: it is the first of
the candidates that anything comes of, or of those tried for a list that has been come to. -/
def LeadsTo (scene : Scene) (place : Place) (c : Cursor) (t : Terminal) : Prop :=
  ∃ first, Tried scene place.script.path (terminals scene place c) first ∧
    ReflTransGen (Tries scene place.script.path) first t

/-- An end that is a factory by itself. -/
structure Makes (scene : Scene) (origin : Path) (t : Terminal) (factory : Factory) : Prop where
  kind : t.site.kind ≠ .array
  own : ownFactory? scene origin t = some factory

section Ends

variable {first t : Terminal} {factory : Factory}

theorem Fruitless.not_circling (h : Fruitless scene origin t) : ¬ Circling scene origin t := by
  induction h with
  | other hkind _ =>
      intro hcircling
      obtain ⟨_, ⟨harray, -⟩, -⟩ := hcircling.exists_tries
      exact hkind harray
  | list _ _ ih =>
      intro hcircling
      obtain ⟨t', ⟨-, htried⟩, hcircling'⟩ := hcircling.exists_tries
      exact ih t' htried.mem hcircling'

/-- Something comes of whatever leads to a factory. -/
theorem Makes.not_fruitless (h : Makes scene origin t factory)
    (hleads : ReflTransGen (Tries scene origin) first t) : ¬ Fruitless scene origin first := by
  induction hleads using ReflTransGen.head_induction_on with
  | refl =>
      intro hfruitless
      cases hfruitless with
      | other _ hnone =>
          rw [h.own] at hnone
          cases hnone
      | list harray _ => exact h.kind harray
  | head htries _ ih =>
      intro hfruitless
      cases hfruitless with
      | other hkind _ => exact hkind htries.1
      | list _ hall => exact ih (hall _ htries.2.mem)

/-- Of several candidates only one is tried that anything comes of. -/
theorem Tried.unique {candidates : List Terminal} {t t' : Terminal}
    (h : Tried scene origin candidates t) (h' : Tried scene origin candidates t')
    (ht : ¬ Fruitless scene origin t) (ht' : ¬ Fruitless scene origin t') : t = t' := by
  obtain ⟨before, after, rfl, hbefore⟩ := h
  obtain ⟨before', after', heq, hbefore'⟩ := h'
  rcases List.append_eq_append_iff.mp heq with ⟨skipped, rfl, hrest⟩ | ⟨skipped, rfl, hrest⟩
  all_goals cases skipped with
  | nil =>
      obtain ⟨hsame, -⟩ := List.cons.inj hrest
      first | exact hsame | exact hsame.symm
  | cons other skipped =>
      obtain ⟨rfl, -⟩ := List.cons.inj hrest
      first
        | exact absurd (hbefore' _ (by simp)) ht
        | exact absurd (hbefore _ (by simp)) ht'

/-- What leads to a factory does not lead into a circle. -/
theorem Makes.not_circling (h : Makes scene origin t factory)
    (hleads : ReflTransGen (Tries scene origin) first t) : ¬ Circling scene origin first := by
  induction hleads using ReflTransGen.head_induction_on with
  | refl =>
      intro hcircling
      obtain ⟨_, ⟨harray, -⟩, -⟩ := hcircling.exists_tries
      exact h.kind harray
  | head htries hrest ih =>
      intro hcircling
      obtain ⟨other, hother, hcircling'⟩ := hcircling.exists_tries
      obtain rfl := htries.2.unique hother.2 (h.not_fruitless hrest)
        fun hfruitless => hfruitless.not_circling hcircling'
      exact ih hcircling'

/-- An answer that is a factory, unless a bound is met. -/
def OkUnlessEndless (factory : Factory) (answer : Option (Except Endless Factory)) : Prop :=
  answer = some (.ok factory) ∨ answer = some (.error {})

theorem Tried.okUnlessEndless {answer : Terminal → Option (Except Endless Factory)}
    {candidates : List Terminal} (h : Tried scene origin candidates t)
    (hjudges : Judges scene origin answer) (hanswer : OkUnlessEndless factory (answer t)) :
    OkUnlessEndless factory (candidates.findSome? answer) := by
  rcases hanswer with hok | herror
  · obtain ⟨before, after, rfl, hbefore⟩ := h
    rw [List.findSome?_append, List.findSome?_cons, hok]
    cases hfound : before.findSome? answer with
    | none => exact .inl rfl
    | some found =>
        obtain ⟨other, hother, hanswer⟩ := List.exists_of_findSome?_eq_some hfound
        cases found with
        | error e => exact .inr rfl
        | ok wrong => exact absurd hanswer (hjudges.ne_ok other wrong (hbefore other hother))
  · exact .inr ((hjudges.findSome?_eq_error_iff candidates).mpr ⟨t, h, herror⟩)

theorem Makes.factoryFrom (h : Makes scene origin t factory)
    {deeper : Terminal → Option (Except Endless Factory)} (hjudges : Judges scene origin deeper)
    (hdeeper : ∀ first, ReflTransGen (Tries scene origin) first t →
      OkUnlessEndless factory (deeper first)) (lists : Nat)
    (hleads : ReflTransGen (Tries scene origin) first t) :
    OkUnlessEndless factory (factoryFrom scene origin deeper lists first) := by
  induction lists generalizing first with
  | zero => exact .inr rfl
  | succ lists ih =>
      rw [Analysis.factoryFrom]
      rcases hleads.cases_head with rfl | ⟨next, ⟨harray, htried⟩, hrest⟩
      · rw [if_neg (by simpa using h.kind), h.own]
        exact .inl rfl
      · have hinner := (judges_factoryFrom hjudges lists).ite hjudges fun t' =>
          t'.place.script.path == first.place.script.path
        rw [if_pos (by simpa using harray)]
        apply htried.okUnlessEndless hinner
        split
        · exact ih hrest
        · exact hdeeper next hrest

theorem Makes.factoryFromWithin (h : Makes scene origin t factory) (modules : Nat)
    (hleads : ReflTransGen (Tries scene origin) first t) :
    OkUnlessEndless factory (factoryFromWithin scene origin modules first) := by
  induction modules generalizing first with
  | zero => exact .inr rfl
  | succ modules ih =>
      exact h.factoryFrom (judges_factoryFromWithin modules) (fun _ => ih) _ hleads

end Ends

section Search

variable {place : Place}

/-- The outcome of the search for a factory. -/
theorem factory?_gives (hchain : place.chain ≠ []) (c : Cursor) :
    Gives scene place.chain (factory? place.script c)
      (((terminals scene place c).findSome? (factoryFromWithin scene place.script.path
        (importLimit scene.files place.script.path))).bind Except.toOption) := by
  have hconcluded (found : Option (Except Endless Factory)) :
      Gives scene place.chain (concluded found) (found.bind Except.toOption) := by
    match found with
    | none => exact .pure _ _ none
    | some (.ok factory) => exact .pure _ _ (some factory)
    | some (.error e) => exact fun _ hsession => ⟨rfl, hsession⟩
  have hsearch : Gives scene place.chain _ _ :=
    (follow_gives (factoryWithin_gives place.script.path
      (importLimit scene.files place.script.path)) hchain c).bind (hconcluded _)
  intro session hsession
  rw [factory?_run]
  exact hsearch session hsession

/-- A search that comes to a factory has it as its outcome. -/
theorem LeadsTo.factory?_gives {c : Cursor} {t : Terminal} {factory : Factory}
    (h : LeadsTo scene place c t) (hplace : Sound place) (hc : Within place.script.root c)
    (hmakes : Makes scene place.script.path t factory) :
    Gives scene place.chain (factory? place.script c) (some factory) := by
  obtain ⟨first, htried, hleads⟩ := h
  have hgives : Gives scene place.chain (factory? place.script c) _ :=
    Analysis.factory?_gives (List.ne_nil_of_mem hplace.on_chain) c
  have hanswer := htried.okUnlessEndless (judges_factoryFromWithin _)
    (hmakes.factoryFromWithin (importLimit scene.files place.script.path) hleads)
  rcases hanswer with hok | herror
  · rwa [hok] at hgives
  · obtain ⟨other, hother, hcircling⟩ :=
      (findSome?_factoryFromWithin_eq_error_iff hplace hc).mp herror
    obtain rfl := htried.unique hother (hmakes.not_fruitless hleads)
      fun hfruitless => hfruitless.not_circling hcircling
    exact absurd hcircling (hmakes.not_circling hleads)

end Search

/-! ### A place in the script that registers, or in another one -/

/-- The place that a search starts at, or one in another file that it comes to from there. -/
structure HereOrElsewhere (start place : Place) : Prop where
  isRead : place.script.IsRead
  on_chain : start.script.path.key ∈ place.chain
  or : place = start ∨ place.script.path.same start.script.path = false

theorem HereOrElsewhere.whole {start place : Place} (h : HereOrElsewhere start place) :
    place.script.Whole :=
  h.isRead.whole

theorem HereOrElsewhere.chain_ne_nil {start place : Place} (h : HereOrElsewhere start place) :
    place.chain ≠ [] :=
  List.ne_nil_of_mem h.on_chain

theorem hereOrElsewhere_first (origin : Path) (text : String) :
    HereOrElsewhere (.first origin text) (.first origin text) :=
  ⟨⟨origin, text, rfl⟩, List.mem_cons_self, .inl rfl⟩

theorem places_hereOrElsewhere (scene : Scene) (start : Place) :
    Places (.still scene start.script) (HereOrElsewhere start) where
  chain_ne_nil _ hplace := hplace.chain_ne_nil
  enter place _ path text hplace _ _ _ hfresh := by
    refine ⟨⟨path, text, rfl⟩, List.mem_cons_of_mem _ hplace.on_chain, .inr ?_⟩
    -- The file that the search starts in is being looked into, so it is not entered again.
    have hother : path.key ≠ start.script.path.key := by
      intro hkey
      rw [hkey] at hfresh
      exact hfresh hplace.on_chain
    exact beq_eq_false_iff_ne.mpr hother

theorem LeadsTo.inside {start : Place} {c : Cursor} {t : Terminal} (h : LeadsTo scene start c t)
    (hstart : HereOrElsewhere start start) (hc : Within start.script.root c) :
    Inside (HereOrElsewhere start) t := by
  obtain ⟨first, htried, hleads⟩ := h
  have hplaces := places_hereOrElsewhere scene start
  have hwhole (place : Place) (hplace : HereOrElsewhere start place) := hplace.whole
  induction hleads with
  | refl => exact terminals_inside hplaces hwhole hstart hc first htried.mem
  | tail _ htries ih =>
      have hmem := htries.2.mem
      unfold listTerminals at hmem
      split at hmem
      · next last hlast =>
          have hwithin := ih.within.trans (within_of_mem_items (List.mem_of_getLast? hlast))
          exact terminals_inside hplaces hwhole ih.allowed hwithin _ hmem
      · cases hmem

/-! ### Classes as factories -/

/-- What names the class of a factory: the constructor of what a function returns, or the object of
a call of a method. -/
def classReference? (c : Cursor) : Option Cursor :=
  if c.kind == .call then
    (c.child? .function).bind fun callee =>
      if callee.kind == .member then (callee.child? .object).map Cursor.unwrap else none
  else if c.node.isFunction then
    (returned? c).bind fun value =>
      if value.kind == .construct then value.child? .constructor else none
  else none

/-- A factory that refers to a class by a name, with the declaration that is in scope there. -/
structure RefersTo (m : Module) (c reference owner : Cursor) : Prop where
  refers : classReference? c = some reference
  identifier : reference.kind = .identifier
  inScope : m.declarationOf? (m.textAt reference) reference = some owner
  isClass : owner.node.isClass = true

/-- Whether a class that can be referred to is declared at a place. -/
def declaresClass (c : Cursor) : Bool :=
  c.kind == .classDeclaration || c.kind == .abstractClassDeclaration

/-- Whether a class is declared at a place under a name. -/
def declaresClassNamed (m : Module) (name : String) (c : Cursor) : Bool :=
  declaresClass c && (c.child? .name).any fun site => m.textAt site == name

/-- The first class declaration of a name in a script, children before their parents. -/
def firstClass? (m : Module) (name : String) : Option Cursor :=
  m.root.postOrder.find? (declaresClassNamed m name)

/-- The unnamed directive of a class. -/
def directiveOfClass (scene : Scene) (place : Place) (owner name : Cursor) : Directive :=
  answerAt scene place.chain (classDirective place.script owner name)

section ClassFactory

variable {place : Place} {m : Module} {c reference owner : Cursor}

theorem classDirective_gives (hchain : place.chain ≠ []) (owner name : Cursor) :
    Gives scene place.chain (classDirective place.script owner name)
      { name := ""
        htmlName := ""
        className := some (place.script.textAt name)
        restrict := answerAt scene place.chain
          (restrictOf place.script (Table.ofClass place.script owner))
        path := place.script.path
        span := name.span } :=
  ((composed_restrictOf place.script _).gives scene hchain).bind (.pure _ _ _)

theorem directiveOfClass_eq (hchain : place.chain ≠ []) (owner name : Cursor) :
    directiveOfClass scene place owner name =
      { name := ""
        htmlName := ""
        className := some (place.script.textAt name)
        restrict := answerAt scene place.chain
          (restrictOf place.script (Table.ofClass place.script owner))
        path := place.script.path
        span := name.span } :=
  (classDirective_gives hchain owner name).answerAt.answer_eq
    (classDirective_gives hchain owner name)

theorem RefersTo.kind (h : RefersTo m c reference owner) : c.kind ≠ .array := by
  intro harray
  have hrefers := h.refers
  have hfunction : c.node.isFunction = false := by
    simp only [Node.isFunction, show c.node.kind = .array from harray]
  simp [classReference?, harray, hfunction] at hrefers

/-- The class that is in scope is declared under the name. -/
theorem RefersTo.declared (h : RefersTo m c reference owner) (hread : m.IsRead) :
    Within m.root owner ∧ owner.kind ≠ .declarator ∧
      declaresClassNamed m (m.textAt reference) owner = true := by
  obtain ⟨path, text, hm⟩ := hread
  obtain ⟨front, declaration, rest, hsplit, rfl, hsight, -, -⟩ :=
    Module.exists_of_declarationOf? h.inScope
  have hmem : declaration ∈ m.declarations := by simp [hsplit]
  rw [hm] at hmem
  obtain ⟨site, hsite, hdeclaration⟩ := List.mem_filterMap.mp hmem
  simp only [declarationAt?, Option.bind_eq_bind, Option.bind_eq_some_iff, Option.pure_def]
    at hdeclaration
  obtain ⟨_, hguard, name, hname, -, -, scope, -, heq⟩ := hdeclaration
  obtain rfl := Option.some.inj heq
  have hdeclares : declares site.kind = true := by simpa using (Option.guard_eq_some' _).mp hguard
  have hclass := h.isClass
  have htext : textOf text name = m.textAt reference := hsight.1
  have hkind : site.kind ≠ .declarator ∧ declaresClass site = true := by
    simp only [Node.isClass] at hclass
    simp only [declaresClass, Cursor.kind] at hdeclares ⊢
    split at hclass
    all_goals simp_all [declares]
  refine ⟨?_, hkind.1, ?_⟩
  · rw [hm]
    exact mem_preOrder_iff.mp hsite
  · have hsame : m.textAt name = m.textAt reference := by
      rw [← htext, hm]
      rfl
    simp [declaresClassNamed, hkind.2, hname, hsame]

/-- A factory that refers to something is what the reference makes. -/
theorem ownFactory?_of_classReference? {t : Terminal}
    (h : classReference? t.site = some reference) :
    ownFactory? scene origin t =
      answerAt scene t.place.chain (classFactory origin t.place.script reference) := by
  unfold ownFactory? callFactory functionFactory
  unfold classReference? at h
  by_cases hcall : (t.site.kind == .call) = true
  · rw [if_pos hcall] at h
    rw [if_pos hcall]
    obtain ⟨callee, hcallee, hobject⟩ := Option.bind_eq_some_iff.mp h
    split at hobject
    · next hmember =>
        obtain ⟨object, hchild, rfl⟩ := Option.map_eq_some_iff.mp hobject
        have hother : ¬ (callee.kind != .member) = true := by simpa using hmember
        simp only [hcallee, if_neg hother, hchild]
    · cases hobject
  · rw [if_neg hcall] at h
    rw [if_neg hcall]
    by_cases hfunction : t.site.node.isFunction = true
    · rw [if_pos hfunction] at h
      rw [if_pos hfunction]
      obtain ⟨value, hvalue, hconstructor⟩ := Option.bind_eq_some_iff.mp h
      split at hconstructor
      · next hconstruct =>
          have hother : ¬ (value.kind != .construct) = true := by simpa using hconstruct
          simp only [hvalue, if_neg hother, hconstructor]
      · cases hconstructor
    · rw [if_neg hfunction] at h
      cases h

/-- In the script that registers, a factory keeps the name of its class and nothing else. -/
theorem RefersTo.makes_ownClass {t : Terminal}
    (h : RefersTo t.place.script t.site reference owner)
    (hown : t.place.script.path.same origin = true) :
    Makes scene origin t (.ownClass (t.place.script.textAt reference)) := by
  refine ⟨h.kind, ?_⟩
  have hkind : ¬ (reference.kind != .identifier) = true := by simp [h.identifier]
  have hboth : (((t.place.script.declarationOf? (t.place.script.textAt reference) reference).any
      fun declaration => declaration.node.isClass) && t.place.script.path.same origin) = true := by
    simp [h.inScope, h.isClass, hown]
  rw [ownFactory?_of_classReference? h.refers]
  unfold classFactory
  simp only [if_neg hkind, if_pos hboth]
  rfl

/-- The factory of a class that the search for one ends at. -/
def otherClassAt? (scene : Scene) (t : Terminal) : Option Factory :=
  if t.site.node.isClass then
    (t.site.child? .name).map fun name => .otherClass (directiveOfClass scene t.place t.site name)
  else none

theorem otherClass_visitGives (scene : Scene) :
    VisitGives scene (fun m target =>
        match target.node.isClass, target.child? .name with
        | true, some name => do return some (.otherClass (← classDirective m target name))
        | _, _ => pure none)
      (otherClassAt? scene) := by
  intro t ht
  unfold otherClassAt?
  dsimp only
  split
  · next name hclass hname =>
      rw [if_pos hclass, hname]
      exact ((composed_classDirective t.place.script t.site name).gives scene ht).bind
        (.pure _ _ _)
  · next hno =>
      cases hclass : t.site.node.isClass with
      | false => exact .pure _ _ none
      | true =>
          cases hname : t.site.child? .name with
          | none => exact .pure _ _ none
          | some name => exact absurd hname (hno name hclass)

/-- In another script, a factory describes the class that is in scope. -/
theorem RefersTo.makes_otherClass {t : Terminal}
    (h : RefersTo t.place.script t.site reference owner) (hread : t.place.script.IsRead)
    (hchain : t.place.chain ≠ []) (hother : t.place.script.path.same origin = false) :
    ∃ name, owner.child? .name = some name ∧
      Makes scene origin t (.otherClass (directiveOfClass scene t.place owner name)) := by
  obtain ⟨-, hvariable, hdeclares⟩ := h.declared hread
  obtain ⟨name, hname, -⟩ := (Option.any_eq_true _ _).mp (Bool.and_eq_true_iff.mp hdeclares).2
  refine ⟨name, hname, h.kind, ?_⟩
  have hkind : ¬ (reference.kind != .identifier) = true := by simp [h.identifier]
  have hterminals : terminals scene t.place reference = [⟨t.place, owner⟩] := by
    have hunwrap : reference.unwrap = reference :=
      unwrap_of_wrapped?_eq_none (by rw [h.identifier]; rfl)
    have hname : isName reference.unwrap.kind = true := by
      rw [hunwrap, h.identifier]
      rfl
    rw [terminals_eq, Turn.ofExpression_of_isName hname, hunwrap,
      Turn.ofName_of_declared h.inScope, Turn.ofDeclaration_of_ne_declarator hvariable]
    rfl
  have hgives : Gives scene t.place.chain (classFactory origin t.place.script reference)
      (some (.otherClass (directiveOfClass scene t.place owner name))) := by
    have hfollow := follow_gives (otherClass_visitGives scene) hchain reference
    rw [hterminals, List.findSome?_singleton, otherClassAt?, if_pos h.isClass, hname,
      Option.map_some] at hfollow
    unfold classFactory
    simp only [if_neg hkind, hother, Bool.and_false, Bool.false_eq_true, if_false]
    exact hfollow
  rw [ownFactory?_of_classReference? h.refers]
  exact hgives.answerAt.answer_eq hgives

end ClassFactory

/-! ### The directives of a script -/

section Directives

variable {m : Module}

/-- The unnamed directive of the class declaration at a place, if there is one. -/
def classDirectiveAt? (scene : Scene) (m : Module) (c : Cursor) : Option Directive :=
  if declaresClass c then (c.child? .name).map fun name => directiveOfClass scene (homeOf m) c name
  else none

/-- The unnamed directives of the classes of a script, children before their parents. -/
def classesOf (scene : Scene) (m : Module) : List Directive :=
  m.root.postOrder.filterMap (classDirectiveAt? scene m)

/-- The directive of the class that an event declares. -/
def classOfEvent? (scene : Scene) (m : Module) : Event → Option Directive
  | .classDeclaration site =>
      (site.child? .name).map fun name => directiveOfClass scene (homeOf m) site name
  | _ => none

theorem classDirectives_gives (scene : Scene) (m : Module) :
    Gives scene [m.path.key] (classDirectives m) (classesOf scene m) := by
  have hplace (c : Cursor) :
      (Event.at? m c).bind (classOfEvent? scene m) = classDirectiveAt? scene m c := by
    unfold Event.at? classDirectiveAt? declaresClass
    split
    · next hkind =>
        rw [if_neg (by simp [hkind])]
        cases Call.at? m c with
        | none => rfl
        | some call => rfl
    · next hkind =>
        rw [if_pos (by simp [hkind]), Option.bind_some]
        rfl
    · next hkind =>
        rw [if_pos (by simp [hkind]), Option.bind_some]
        rfl
    · next hkind =>
        rw [if_neg (by simp [hkind]), Option.bind_some]
        rfl
    · next hkind =>
        rw [if_neg (by simp [hkind])]
        cases c.child? .left with
        | none => rfl
        | some left =>
            cases c.child? .right with
            | none => rfl
            | some right => rfl
    · next hclass habstract => rw [if_neg (by simp_all), Option.bind_none]
  have hanswers : m.events.filterMap (classOfEvent? scene m) = classesOf scene m := by
    rw [Module.events_eq, List.filterMap_filterMap, classesOf]
    exact List.filterMap_congr fun c _ => hplace c
  -- The events are handled one after another, and those of other kinds have no answer.
  have hevents : Gives scene [m.path.key] (classDirectives m)
      ((m.events.map (classOfEvent? scene m)).filterMap id) := by
    refine (gives_mapM fun event => ?_).bind (.pure _ _ _)
    cases event with
    | classDeclaration site =>
        dsimp only [classOfEvent?]
        cases site.child? .name with
        | none => exact .pure _ _ none
        | some name =>
            exact ((composed_classDirective m site name).gives scene (chain_homeOf m)).bind
              (.pure _ _ _)
    | _ => exact .pure _ _ none
  rwa [List.filterMap_map, Function.id_comp, hanswers] at hevents

/-- The directive that a call registers, if it does. -/
def directiveOfCall? (scene : Scene) (m : Module) (call : Call) : Option Directive :=
  match call.isMethod "directive", call.arguments with
  | true, [site, factory] =>
      (answerAt scene [m.path.key] (string? m site)).bind fun name =>
        (answerAt scene [m.path.key] (factory? m factory)).bind
          (directiveOf m (classesOf scene m) name site)
  | _, _ => none

/-- The directive that an event registers, if it does. -/
def directiveOfEvent? (scene : Scene) (m : Module) : Event → Option Directive
  | .call call => directiveOfCall? scene m call
  | _ => none

theorem registeredDirective?_gives (scene : Scene) (m : Module) (call : Call) :
    Gives scene [m.path.key] (registeredDirective? m (classesOf scene m) call)
      (directiveOfCall? scene m call) := by
  unfold registeredDirective? directiveOfCall?
  generalize call.arguments = arguments
  cases call.isMethod "directive" with
  | false => exact .pure _ _ none
  | true =>
      match arguments with
      | [] | [_] | _ :: _ :: _ :: _ => exact .pure _ _ none
      | [site, factory] =>
          have hname : Gives scene [m.path.key] (string? m site)
              (answerAt scene [m.path.key] (string? m site)) :=
            (string?_gives (chain_homeOf m) site).answerAt
          have hfactory : Gives scene [m.path.key] (factory? m factory)
              (answerAt scene [m.path.key] (factory? m factory)) :=
            (factory?_gives (chain_homeOf m) factory).answerAt
          refine hname.bind ?_
          dsimp only
          cases answerAt scene [m.path.key] (string? m site) with
          | none => exact .pure _ _ none
          | some name => exact hfactory.bind (.pure _ _ _)

/-- The directives of a script are those of its calls, in their order. -/
theorem directives_start (scene : Scene) (m : Module) :
    (directives m scene (.start m.path)).1 =
      (m.events.filterMap (directiveOfEvent? scene m)).filter fun directive =>
        !directive.name.isEmpty := by
  have hgives : Gives scene [m.path.key] (directives m)
      (((m.events.map (directiveOfEvent? scene m)).filterMap id).filter fun directive =>
        !directive.name.isEmpty) := by
    refine (classDirectives_gives scene m).bind ((gives_mapM fun event => ?_).bind (.pure _ _ _))
    cases event with
    | call call => exact registeredDirective?_gives scene m call
    | _ => exact .pure _ _ none
  rw [(hgives (.start m.path) rfl).1, List.filterMap_map, Function.id_comp]

/-- The first class of a name is the one whose directive is found under the name. -/
theorem find?_classesOf (scene : Scene) {name : String} {first : Cursor}
    (h : firstClass? m name = some first) :
    ∃ site, first.child? .name = some site ∧
      (classesOf scene m).find? (fun directive => directive.className == some name) =
        some (directiveOfClass scene (homeOf m) first site) := by
  have htest (c : Cursor) : ((classDirectiveAt? scene m c).any fun directive =>
      directive.className == some name) = declaresClassNamed m name c := by
    unfold classDirectiveAt? declaresClassNamed
    cases declaresClass c with
    | false => rfl
    | true =>
        cases c.child? .name with
        | none => rfl
        | some site =>
            rw [if_pos rfl, Option.map_some, Option.any_some, Option.any_some, Bool.true_and,
              directiveOfClass_eq (chain_homeOf m)]
            rfl
  have hfirst : declaresClassNamed m name first = true := by
    unfold firstClass? at h
    exact List.find?_some h
  obtain ⟨hclass, hname⟩ := Bool.and_eq_true_iff.mp hfirst
  obtain ⟨site, hsite, -⟩ := (Option.any_eq_true _ _).mp hname
  refine ⟨site, hsite, ?_⟩
  rw [classesOf, List.find?_filterMap]
  simp only [htest]
  rw [show m.root.postOrder.find? (fun c => declaresClassNamed m name c) = some first from h,
    Option.bind_some, classDirectiveAt?, if_pos hclass, hsite, Option.map_some]

/-- A call that registers a directive under a name that can be told. -/
structure NamesDirective (scene : Scene) (m : Module) (call : Call) (name : String)
    (factory : Cursor) : Prop where
  event : .call call ∈ m.events
  method : call.isMethod "directive" = true
  arguments : ∃ site, call.arguments = [site, factory] ∧
    answerAt scene [m.path.key] (string? m site) = some name

/-- A directive with the file, the name, its span and the use that a class has. -/
structure Describes (scene : Scene) (place : Place) (owner : Cursor) (directive : Directive) :
    Prop where
  path : directive.path = place.script.path
  name : ∃ site, owner.child? .name = some site ∧ directive.span = site.span ∧
    directive.className = some (place.script.textAt site)
  restrict : directive.restrict = answerAt scene place.chain
    (restrictOf place.script (Table.ofClass place.script owner))

theorem describes_rename {place : Place} {owner site : Cursor} (hchain : place.chain ≠ [])
    (hsite : owner.child? .name = some site) (name : String) :
    Describes scene place owner ((directiveOfClass scene place owner site).rename name) := by
  rw [directiveOfClass_eq hchain]
  exact ⟨rfl, ⟨site, hsite, rfl, rfl⟩, rfl⟩

theorem NamesDirective.directiveOfEvent? {call : Call} {name : String} {c : Cursor}
    {factory : Factory} (h : NamesDirective scene m call name c)
    (hfactory : Gives scene [m.path.key] (factory? m c) (some factory)) :
    ∃ site, directiveOfEvent? scene m (.call call) =
      directiveOf m (classesOf scene m) name site factory := by
  obtain ⟨site, harguments, hname⟩ := h.arguments
  refine ⟨site, ?_⟩
  rw [Analysis.directiveOfEvent?, directiveOfCall?, h.method, harguments]
  simp only [hname, hfactory.answerAt.answer_eq hfactory, Option.bind_some]

end Directives

end Analysis

open Analysis

/-- **A class directive describes the class in scope just if that comes first.**  The directives of
a script are those of its calls, in their order.  If the factory of a call refers to a class, the
call registers a directive.  Where the factory is in another file, the directive describes the class
that is in scope there.  Where it is in the script that registers it, the directive describes the
first class of that name in the script, children before their parents, and this is the class in
scope if and only if no class of that name comes before it. -/
theorem class_directive_in_scope_iff {scene : Scene} {origin : Path} {text : String} {call : Call}
    {name : String} {factory reference owner : Cursor} {t : Terminal}
    (h : NamesDirective scene (.ofText origin text) call name factory)
    (hleads : LeadsTo scene (.first origin text) factory t)
    (hrefers : RefersTo t.place.script t.site reference owner) :
    let m := Module.ofText origin text
    let class? := declaresClassNamed t.place.script (t.place.script.textAt reference)
    (directives m scene (.start origin)).1 =
      (m.events.filterMap (directiveOfEvent? scene m)).filter (fun directive =>
        !directive.name.isEmpty) ∧
    Within t.place.script.root owner ∧ class? owner = true ∧
    ∃ described directive, directiveOfEvent? scene m (.call call) = some directive ∧
      directive.name = name ∧ Describes scene t.place described directive ∧
      (t.place.script.path.same origin = false ∧ described = owner ∨
        t.place = .first origin text ∧ m.root.postOrder.find? class? = some described ∧
          (described = owner ↔ ∃ front back, m.root.postOrder = front ++ owner :: back ∧
            ∀ other ∈ front, class? other = false)) := by
  intro m class?
  have hcall : Within m.root factory := by
    obtain ⟨site, harguments, -⟩ := h.arguments
    exact Module.within_of_mem_events h.event (by simp [harguments])
  have hstart : Sound (.first origin text) := sound_first origin text
  obtain ⟨hplace, -⟩ := hleads.inside (hereOrElsewhere_first origin text) hcall
  obtain ⟨hwithin, -, hclass⟩ := hrefers.declared hplace.isRead
  refine ⟨directives_start scene m, hwithin, hclass, ?_⟩
  rcases hplace.or with hhere | helsewhere
  · -- In the script itself the call keeps the name alone, and the first class of that name is taken.
    obtain ⟨place, c⟩ := t
    obtain rfl : place = .first origin text := hhere
    obtain ⟨described, hdescribed⟩ := Option.isSome_iff_exists.mp
      (List.find?_isSome.mpr ⟨owner, mem_postOrder_iff.mpr hwithin, hclass⟩)
    have hfirst : firstClass? m (m.textAt reference) = some described := hdescribed
    obtain ⟨site, hsite, hfound⟩ := find?_classesOf scene hfirst
    have hmakes : Makes scene origin _ (.ownClass (m.textAt reference)) :=
      hrefers.makes_ownClass (beq_self_eq_true _)
    obtain ⟨other, hdirective⟩ :=
      h.directiveOfEvent? (hleads.factory?_gives hstart hcall hmakes)
    rw [directiveOf, hfound, Option.map_some] at hdirective
    refine ⟨described, _, hdirective, rfl, describes_rename (List.cons_ne_nil _ _) hsite name,
      .inr ⟨rfl, hdescribed, ?_⟩⟩
    obtain ⟨-, front, back, hsplit, hfront⟩ := List.find?_eq_some_iff_append.mp hdescribed
    constructor
    · rintro rfl
      exact ⟨front, back, hsplit, fun other hother => by simpa using hfront other hother⟩
    · rintro ⟨front, back, hsplit, hfront⟩
      have howner : m.root.postOrder.find? class? = some owner :=
        List.find?_eq_some_iff_append.mpr
          ⟨hclass, front, back, hsplit, fun other hother => by simp [hfront other hother]⟩
      exact Option.some.inj (hdescribed.symm.trans howner)
  · obtain ⟨site, hsite, hmakes⟩ :=
      hrefers.makes_otherClass hplace.isRead hplace.chain_ne_nil helsewhere
    obtain ⟨other, hdirective⟩ :=
      h.directiveOfEvent? (hleads.factory?_gives hstart hcall hmakes)
    exact ⟨owner, _, hdirective, rfl, describes_rename hplace.chain_ne_nil hsite name,
      .inl ⟨helsewhere, rfl⟩⟩

/-! ### A class of its own and a class behind another one -/

namespace SameName

def origin : Path :=
  ⟨"/main.js"⟩

def scene : Scene where
  root := ⟨"/"⟩
  files := {}

def alone : Module :=
  .ofText origin "class C \x7b restrict = 'A' \x7d; x.directive('d', () => new C())"

/-- A block ahead of the class declares another class of the same name. -/
def behind : Module :=
  .ofText origin
    "\x7b class C \x7b restrict = 'E' \x7d \x7d class C \x7b\x7d; x.directive('d', () => new C())"

/-- The name in the constructor call of a script. -/
def use? (m : Module) : Option Cursor :=
  (m.root.preOrder.find? fun c => c.kind == .construct).bind fun c => c.child? .constructor

/-- The class that is in scope there. -/
def inScope? (m : Module) : Option Cursor :=
  (use? m).bind fun reference => m.declarationOf? (m.textAt reference) reference

/-- Whether a call registers a directive with a function that refers to a class. -/
def refersToClass (m : Module) : Event → Bool
  | .call call =>
      match call.isMethod "directive", call.arguments with
      | true, [site, factory] =>
          answerAt scene [m.path.key] (string? m site) == some "d" &&
            (terminals scene (homeOf m) factory).head?.any fun t =>
              (classReference? t.site).any fun reference =>
                reference.kind == .identifier &&
                  (t.place.script.declarationOf? (t.place.script.textAt reference)
                    reference).any fun owner => owner.node.isClass
      | _, _ => false
  | _ => false

theorem exists_of_refersToClass {m : Module} {event : Event} (hevent : event ∈ m.events)
    (h : refersToClass m event = true) :
    ∃ call factory t reference owner, event = .call call ∧
      NamesDirective scene m call "d" factory ∧ LeadsTo scene (homeOf m) factory t ∧
      RefersTo t.place.script t.site reference owner := by
  unfold refersToClass at h
  split at h
  · next call =>
      split at h
      · next site factory hmethod harguments =>
          obtain ⟨hname, hany⟩ := Bool.and_eq_true_iff.mp h
          obtain ⟨t, ht, hany⟩ := (Option.any_eq_true _ _).mp hany
          obtain ⟨reference, hreference, hboth⟩ := (Option.any_eq_true _ _).mp hany
          obtain ⟨hkind, hany⟩ := Bool.and_eq_true_iff.mp hboth
          obtain ⟨owner, howner, hclass⟩ := (Option.any_eq_true _ _).mp hany
          obtain ⟨rest, hterminals⟩ := List.head?_eq_some_iff.mp ht
          refine ⟨call, factory, t, reference, owner, rfl,
            ⟨hevent, hmethod, site, harguments, by simpa using hname⟩, ⟨t, ?_, .refl⟩,
            ⟨hreference, by simpa using hkind, howner, hclass⟩⟩
          exact ⟨[], rest, hterminals, fun other hother => nomatch hother⟩
      · cases h
  · cases h

end SameName

open SameName

/-- With one class of the name, the directive describes the class in scope. -/
theorem alone_class_directive_in_scope :
    ∃ call factory t reference owner directive, NamesDirective scene alone call "d" factory ∧
      LeadsTo scene (homeOf alone) factory t ∧ RefersTo t.place.script t.site reference owner ∧
      directiveOfEvent? scene alone (.call call) = some directive ∧
      Describes scene t.place owner directive := by
  obtain ⟨⟨event, hevent, hrefers⟩, hone⟩ :
      (∃ event ∈ alone.events, refersToClass alone event = true) ∧
        (alone.root.postOrder.filter declaresClass).length = 1 := by
    decide +kernel
  obtain ⟨call, factory, t, reference, owner, rfl, hnames, hleads, hrefers⟩ :=
    exists_of_refersToClass hevent hrefers
  obtain ⟨-, hwithin, hclass, described, directive, hdirective, -, hdescribes, hwhich⟩ :=
    class_directive_in_scope_iff hnames hleads hrefers
  refine ⟨call, factory, t, reference, owner, directive, hnames, hleads, hrefers, hdirective, ?_⟩
  rcases hwhich with ⟨-, rfl⟩ | ⟨hplace, hfirst, -⟩
  · exact hdescribes
  · obtain ⟨single, hsingle⟩ := List.length_eq_one_iff.mp hone
    have hsame {c : Cursor} (hc : c ∈ alone.root.postOrder)
        (h : declaresClassNamed t.place.script (t.place.script.textAt reference) c = true) :
        c = single := by
      have hmem : c ∈ alone.root.postOrder.filter declaresClass :=
        List.mem_filter.mpr ⟨hc, (Bool.and_eq_true_iff.mp h).1⟩
      rw [hsingle] at hmem
      exact List.mem_singleton.mp hmem
    rw [hplace] at hwithin
    have howner : owner = single := hsame (mem_postOrder_iff.mpr hwithin) hclass
    have hdescribed : described = single :=
      hsame (List.mem_of_find?_eq_some hfirst) (List.find?_some hfirst)
    rwa [howner, ← hdescribed]

/-- The directive has the use and the span of the class in the block, and the class in scope has
others. -/
theorem class_in_block_described :
    ((directives behind scene (.start origin)).1.map fun directive =>
        (directive.name, directive.className, directive.restrict)) =
      [("d", some "C", .element)] ∧
    ((inScope? behind).map fun owner => answerAt scene [origin.key]
      (restrictOf behind (Table.ofClass behind owner))) = some .either ∧
    ∀ directive ∈ (directives behind scene (.start origin)).1,
      ((inScope? behind).bind fun owner => (owner.child? .name).map Cursor.span) ≠
        some directive.span := by
  decide +kernel

end NgIndex
