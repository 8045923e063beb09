import NgIndex.Proofs.Analysis.Chain
import NgIndex.Proofs.Lookup.Inside

/-!
# Configurations that are not supported

The configuration of a component is followed to the first thing that cannot be followed further.
An object, a class or a constructor call will do; anything else that is reached is an error, and the
first error among the registrations of a script is all that its analysis answers.

Where nothing is reached there is no error.  A name that nothing declares or imports, a module that
is not found or is being looked into already, and a constructor call whose class is not found leave
the component out, and the other components are kept.
-/

namespace NgIndex

open Script Script.Cursor Lookup

/-! ### What a search ends at -/

namespace Script

theorem Kind.stands_of_isDeclaration {kind : Kind} (h : kind.isDeclaration = true) :
    wrapped? kind = none ∧ leadsOn kind = false := by
  constructor
  · unfold wrapped?
    split
    all_goals first | rfl | cases h
  · simp only [leadsOn, List.contains_eq_mem, decide_eq_false_iff_not]
    intro hmem
    simp only [List.mem_cons, List.not_mem_nil, or_false] at hmem
    rcases hmem with rfl | rfl | rfl
    all_goals cases h

/-- What a name can be declared by, apart from variables, is among the declarations. -/
theorem isDeclaration_of_declares {kind : Kind} (h : declares kind = true)
    (hkind : kind ≠ .declarator) : kind.isDeclaration = true := by
  unfold declares at h
  split at h
  · exact absurd rfl hkind
  all_goals first | rfl | cases h

/-- A constructor call names what is constructed. -/
theorem Cursor.exists_constructor {c : Cursor} (htidy : c.node.Tidy) (hkind : c.kind = .construct) :
    ∃ constructor, c.child? .constructor = some constructor := by
  obtain ⟨node, hnode, hrole⟩ := List.mem_filterMap.mp (htidy.shaped.construct hkind)
  have hmem : (⟨node, c.node :: c.above⟩ : Cursor) ∈ c.children := List.mem_map_of_mem hnode
  have hsome : (c.child? .constructor).isSome = true := by
    simp only [child?, List.find?_isSome]
    exact ⟨_, hmem, by simp [hrole]⟩
  exact Option.isSome_iff_exists.mp hsome

/-- What an export statement offers as declared is a declaration. -/
theorem Module.isDeclaration_of_offer {m : Module} {name : String} {statement site : Cursor}
    {settles : Bool} (htidy : statement.node.Tidy) (hkind : statement.kind = .exportStatement)
    (h : m.offer name statement = .declared site settles) : site.kind.isDeclaration = true := by
  -- Lists and values are offered otherwise, so this is what the statement itself declares.
  have hchild : statement.child? .declaration = some site := by
    unfold offer at h
    simp only at h
    split at h
    · next declaration hdeclaration =>
        rw [hdeclaration]
        split at h
        · unfold declarationOffer at h
          simp only at h
          split at h
          · split at h
            · cases h
            · cases h
          · split at h
            · split at h
              · rw [(Offer.declared.inj h).1]
              · cases h
            · cases h
        · split at h
          · rw [(Offer.declared.inj h).1]
          · cases h
    · split at h
      · have hnone := m.site?_listOffer statement name
        rw [h] at hnone
        cases hnone
      · split at h
        · cases h
        · cases h
  have hmem := List.mem_of_find?_eq_some hchild
  obtain ⟨node, hnode, rfl⟩ := List.mem_map.mp hmem
  exact htidy.shaped.admits_role hkind hnode (by simpa using List.find?_some hchild)

end Script

namespace Lookup

/-- Something that stands for itself: nothing is wrapped around it, and it does not lead
elsewhere. -/
structure StandsAlone (_ : Module) (c : Cursor) : Prop where
  unwrap : c.unwrap = c
  kind : leadsOn c.kind = false

theorem standsAlone_of_isDeclaration {m : Module} {c : Cursor}
    (h : c.kind.isDeclaration = true) : StandsAlone m c := by
  obtain ⟨hwrapped, hleads⟩ := Kind.stands_of_isDeclaration h
  exact ⟨unwrap_of_wrapped?_eq_none hwrapped, hleads⟩

theorem ending_ofText (path : Path) (text : String) :
    Ending (.ofText path text) StandsAlone where
  whole := Module.whole_ofText path text
  unwrapped c _ hkind := ⟨unwrap_unwrap c, hkind⟩
  declared declaration hmem hkind := by
    obtain ⟨c, -, hdeclaration⟩ := List.mem_filterMap.mp hmem
    simp only [declarationAt?, Option.bind_eq_bind, Option.bind_eq_some_iff,
      Option.pure_def] at hdeclaration
    obtain ⟨_, hguard, name, -, -, -, scope, -, hsite⟩ := hdeclaration
    obtain rfl := Option.some.inj hsite
    have hdeclares : declares c.kind = true := by simpa using (Option.guard_eq_some' _).mp hguard
    exact standsAlone_of_isDeclaration (isDeclaration_of_declares hdeclares hkind)
  offered statement hmem name site settles hoffer := by
    have hwithin := Module.within_of_mem_exports hmem
    have htidy := hwithin.tidy (Module.tidy_ofText path text)
    have hkind : statement.kind = .exportStatement := by
      simpa using (List.mem_filter.mp hmem).2
    exact standsAlone_of_isDeclaration (Module.isDeclaration_of_offer htidy hkind hoffer)

/-- A place in a script that has been read. -/
structure Read (place : Place) : Prop where
  chain : place.chain ≠ []
  tidy : place.script.root.node.Tidy
  ending : Ending place.script StandsAlone

theorem read_ofText (path : Path) (text : String) {chain : List String} (hchain : chain ≠ []) :
    Read ⟨chain, .ofText path text⟩ :=
  ⟨hchain, Module.tidy_ofText path text, ending_ofText path text⟩

theorem places_read (scene : Scene) (home : Module) : Places (.still scene home) Read where
  chain_ne_nil _ hplace := hplace.chain
  enter place _ path text _ _ _ _ _ := read_ofText path text (List.cons_ne_nil path.key place.chain)

/-- What a search in a script that has been read ends at. -/
theorem terminals_standAlone (scene : Scene) {place : Place} {c : Cursor} (hplace : Read place)
    (hc : Within place.script.root c) :
    ∀ t ∈ terminals scene place c, EndsInside Read StandsAlone t :=
  terminals_endsInside (places_read scene place.script) (fun _ h => h.ending) hplace hc

/-- A name that nothing in the script declares and that no module which can be entered is to
give. -/
structure Unresolved (scene : Scene) (place : Place) (c : Cursor) : Prop where
  kind : c.unwrap.kind = .identifier
  declaration : place.script.declarationOf? (place.script.textAt c.unwrap) c.unwrap = none
  importing : ∀ binding, place.script.importOf? (place.script.textAt c.unwrap) = some binding →
    Place.entered? scene place binding.source = none

theorem reachedWithin_eq_nil {scene : Scene} {place : Place} {specifier : String}
    (h : Place.entered? scene place specifier = none) (limit : Nat) (name : String)
    (exactly : Bool) : reachedWithin scene limit place specifier name exactly = [] := by
  cases limit with
  | zero => rfl
  | succ limit => rw [reachedWithin, h]

/-- Such a name leads nowhere. -/
theorem Unresolved.terminals_eq_nil {scene : Scene} {place : Place} {c : Cursor}
    (h : Unresolved scene place c) : terminals scene place c = [] := by
  have hname : isName c.unwrap.kind = true := by
    rw [h.kind]
    rfl
  rw [terminals_eq, Turn.ofExpression_of_isName hname, Turn.ofName_of_undeclared h.declaration]
  cases himport : place.script.importOf? (place.script.textAt c.unwrap) with
  | none => rfl
  | some binding => exact reachedWithin_eq_nil (h.importing binding himport) _ _ _

end Lookup

namespace Analysis

/-! ### One configuration -/

/-- An object, a class or a constructor call. -/
def Configures (t : Terminal) : Prop :=
  t.site.kind = .object ∨ t.site.node.isClass = true ∨ t.site.kind = .construct

section Configuration

variable {scene : Scene} {registration : Registration} {t : Terminal}

theorem unwrap_of_isClass {c : Cursor} (h : c.node.isClass = true) : c.unwrap = c := by
  apply unwrap_of_wrapped?_eq_none
  unfold wrapped?
  split
  all_goals first | rfl | simp_all [Node.isClass, Cursor.kind]

theorem ofNode?_of_isClass {m : Module} {c : Cursor} (h : c.node.isClass = true) :
    Table.ofNode? m c = some (Table.ofClass m c) := by
  unfold Table.ofNode?
  simp only [unwrap_of_isClass h]
  split
  · next hkind => simp_all [Node.isClass, Cursor.kind]
  · next hkind => simp_all [Node.isClass, Cursor.kind]
  · rw [if_pos h]

theorem ofNode?_of_object {m : Module} {c : Cursor} (hunwrap : c.unwrap = c)
    (h : c.kind = .object) : Table.ofNode? m c = some (Table.ofObject m c) := by
  unfold Table.ofNode?
  simp only [hunwrap, h]

theorem ofNode?_eq_none {m : Module} {c : Cursor} (hunwrap : c.unwrap = c)
    (hobject : c.kind ≠ .object) (hclass : c.node.isClass ≠ true)
    (hconstruct : c.kind ≠ .construct) : Table.ofNode? m c = none := by
  unfold Table.ofNode?
  rw [hunwrap]
  dsimp only
  split
  · next hkind => exact absurd hkind hobject
  · next hkind => exact absurd hkind hconstruct
  · exact if_neg hclass

theorem componentOf_gives (scene : Scene) {chain : List String} (hchain : chain ≠ [])
    (m : Module) (table : Table) (name : String) (path : Path) (span : Span) :
    Gives scene chain (componentOf m table name path span)
      { name, htmlName := Text.kebab name, path, span
        bindings := answerAt scene chain (bindings m table)
        template := answerAt scene chain (template? m table)
        link := answerAt scene chain (link m table) } :=
  ((composed_bindings m table).gives scene hchain).bind
    (((composed_template? m table).gives scene hchain).bind
      (((composed_link m table).gives scene hchain).bind (.pure _ _ _)))

/-- With a table of settings there is a component under the registered name. -/
theorem exists_componentAt (registration : Registration) {chain : List String}
    (hchain : chain ≠ []) {m : Module} {c : Cursor} {table : Table}
    (h : Table.ofNode? m c = some table) :
    ∃ component, answerAt scene chain (componentAt registration m c) = .ok (some component) ∧
      component.name = registration.name := by
  unfold componentAt
  rw [h]
  generalize placeOf m c registration = place
  obtain ⟨path, span⟩ := place
  obtain ⟨component, hcomponent, hname⟩ : ∃ component, Gives scene chain
      (componentOf m table registration.name path span) component ∧
      component.name = registration.name :=
    ⟨_, componentOf_gives scene hchain m table _ _ _, rfl⟩
  have hat : Gives scene chain
      (do return .ok (some (← componentOf m table registration.name path span)) :
        Lookup (Except Unsupported (Option Component))) (.ok (some component)) :=
    hcomponent.bind (.pure scene chain (Except.ok (some component)))
  exact ⟨component, hat.answerAt.answer_eq hat, hname⟩

theorem componentAtEnd_eq_componentAt (hkind : t.site.kind ≠ .construct) :
    componentAtEnd scene registration t =
      answerAt scene t.place.chain (componentAt registration t.place.script t.site) := by
  unfold componentAtEnd componentFrom
  rw [if_pos (by simpa using hkind)]

/-- An object or a class makes a component. -/
theorem exists_componentAtEnd_of_table (ht : EndsInside Read StandsAlone t)
    (h : t.site.kind = .object ∨ t.site.node.isClass = true) :
    ∃ component, componentAtEnd scene registration t = .ok (some component) ∧
      component.name = registration.name := by
  have hkind : t.site.kind ≠ .construct := by
    rintro hconstruct
    rcases h with hobject | hclass
    · rw [hconstruct] at hobject
      cases hobject
    · simp_all [Node.isClass, Cursor.kind]
  rw [componentAtEnd_eq_componentAt hkind]
  rcases h with hobject | hclass
  · exact exists_componentAt registration ht.allowed.chain
      (ofNode?_of_object ht.ends.unwrap hobject)
  · exact exists_componentAt registration ht.allowed.chain (ofNode?_of_isClass hclass)

/-- Anything but an object, a class or a constructor call is an error. -/
theorem componentAtEnd_of_not_configures (ht : EndsInside Read StandsAlone t)
    (h : ¬ Configures t) :
    componentAtEnd scene registration t = .error (.of t.place.script t.site) := by
  simp only [Configures, not_or] at h
  obtain ⟨hobject, hclass, hconstruct⟩ := h
  rw [componentAtEnd_eq_componentAt hconstruct]
  unfold componentAt
  rw [ofNode?_eq_none ht.ends.unwrap hobject hclass hconstruct]
  rfl

/-- The classes that a constructor call leads to. -/
def constructedClasses (scene : Scene) (t : Terminal) : List Terminal :=
  match t.site.child? .constructor with
  | none => []
  | some constructor =>
      (terminals scene t.place constructor).filter fun target => target.site.node.isClass

/-- A constructor call makes the component of the first class that it leads to, if there is one. -/
theorem componentAtEnd_of_construct (ht : EndsInside Read StandsAlone t)
    (hkind : t.site.kind = .construct) :
    componentAtEnd scene registration t =
      match (constructedClasses scene t).head? with
      | none => .ok none
      | some target =>
          answerAt scene target.place.chain
            (componentAt registration target.place.script target.site) := by
  have htidy := ht.within.tidy ht.allowed.tidy
  obtain ⟨constructor, hconstructor⟩ := exists_constructor htidy hkind
  have hvisit : VisitGives scene
      (fun m target => if target.node.isClass then do
          return some (← componentAt registration m target)
        else pure none)
      (fun target => if target.site.node.isClass then
          some (answerAt scene target.place.chain
            (componentAt registration target.place.script target.site))
        else none) := by
    intro target htarget
    dsimp only
    split
    · exact ((composed_componentAt registration target.place.script target.site).gives scene
        htarget).bind (.pure _ _ _)
    · exact .pure _ _ none
  have hgives : Gives scene t.place.chain (componentFrom registration t.place.script t.site)
      (((terminals scene t.place constructor).findSome? fun target =>
        if target.site.node.isClass then
          some (answerAt scene target.place.chain
            (componentAt registration target.place.script target.site))
        else none).getD (.ok none)) := by
    unfold componentFrom
    rw [if_neg (by simp [hkind]), hconstructor]
    exact (follow_gives hvisit ht.allowed.chain constructor).bind (.pure _ _ _)
  have hclasses : constructedClasses scene t =
      (terminals scene t.place constructor).filter fun target => target.site.node.isClass := by
    rw [constructedClasses, hconstructor]
  rw [componentAtEnd, hgives.answerAt.answer_eq hgives, hclasses]
  -- The first answer along the terminals is that of the first class among them.
  generalize terminals scene t.place constructor = targets
  induction targets with
  | nil => rfl
  | cons target rest ih =>
      rw [List.findSome?_cons]
      cases hclass : target.site.node.isClass with
      | true => simp [List.filter_cons_of_pos, hclass]
      | false => simpa [List.filter_cons_of_neg, hclass] using ih

theorem componentAtEnd_of_construct_nil (ht : EndsInside Read StandsAlone t)
    (hkind : t.site.kind = .construct) (hnone : constructedClasses scene t = []) :
    componentAtEnd scene registration t = .ok none := by
  rw [componentAtEnd_of_construct ht hkind, hnone]
  rfl

theorem exists_componentAtEnd_of_construct (ht : EndsInside Read StandsAlone t)
    (hkind : t.site.kind = .construct) (hsome : constructedClasses scene t ≠ []) :
    ∃ component, componentAtEnd scene registration t = .ok (some component) ∧
      component.name = registration.name := by
  obtain ⟨target, hhead⟩ := Option.isSome_iff_exists.mp (List.isSome_head?.mpr hsome)
  have hmem := List.mem_of_mem_head? hhead
  unfold constructedClasses at hmem
  split at hmem
  · cases hmem
  · next constructor hconstructor =>
      obtain ⟨htarget, hclass⟩ := List.mem_filter.mp hmem
      have hwithin := ht.within.trans (within_of_child? hconstructor)
      have hchain := (terminals_standAlone scene ht.allowed hwithin target htarget).allowed.chain
      rw [componentAtEnd_of_construct ht hkind, hhead]
      exact exists_componentAt registration hchain (ofNode?_of_isClass hclass)

/-- A configuration makes a component, unless it is a constructor call that leads to no class. -/
theorem exists_componentAtEnd (ht : EndsInside Read StandsAlone t) (h : Configures t)
    (hsome : t.site.kind = .construct → constructedClasses scene t ≠ []) :
    ∃ component, componentAtEnd scene registration t = .ok (some component) ∧
      component.name = registration.name := by
  rcases h with hobject | hclass | hconstruct
  · exact exists_componentAtEnd_of_table ht (.inl hobject)
  · exact exists_componentAtEnd_of_table ht (.inr hclass)
  · exact exists_componentAtEnd_of_construct ht hconstruct (hsome hconstruct)

end Configuration

/-! ### One registration -/

/-- The place that the analysis of a script starts at. -/
def homeOf (m : Module) : Place :=
  ⟨[m.path.key], m⟩

theorem chain_homeOf (m : Module) : (homeOf m).chain ≠ [] :=
  List.cons_ne_nil _ _

/-- The name that a registration gives, if it can be told. -/
def registeredName? (scene : Scene) (m : Module) (call : Cursor × Cursor) : Option String :=
  answerAt scene [m.path.key] (string? m call.1)

/-- What the configuration of a registration leads to first. -/
def firstTerminal? (scene : Scene) (m : Module) (call : Cursor × Cursor) : Option Terminal :=
  (terminals scene (homeOf m) call.2).head?

/-- The answer for a registration. -/
def registeredAt (scene : Scene) (m : Module) (call : Cursor × Cursor) :
    Except Unsupported (Option Component) :=
  answerAt scene [m.path.key] (registered m call.1 call.2)

/-- The component that a registration makes. -/
def componentOfCall? (scene : Scene) (m : Module) (call : Cursor × Cursor) : Option Component :=
  (registeredAt scene m call).toOption.join

/-- A registration under a known name whose configuration is not supported. -/
structure Rejects (scene : Scene) (m : Module) (call : Cursor × Cursor) (t : Terminal) : Prop where
  name : registeredName? scene m call ≠ none
  first : firstTerminal? scene m call = some t
  unsupported : ¬ Configures t

/-- A registration that makes no component: its name cannot be told, its configuration leads
nowhere, or to a constructor call that leads to no class. -/
def LeftOut (scene : Scene) (m : Module) (call : Cursor × Cursor) : Prop :=
  registeredName? scene m call = none ∨ firstTerminal? scene m call = none ∨
    ∃ t, firstTerminal? scene m call = some t ∧ t.site.kind = .construct ∧
      constructedClasses scene t = []

section Registration

variable {scene : Scene} {m : Module} {call : Cursor × Cursor}

theorem Rejects.unique {t other : Terminal} (h : Rejects scene m call t)
    (h' : Rejects scene m call other) : t = other :=
  Option.some.inj (h.first.symm.trans h'.first)

theorem not_leftOut {t : Terminal} (hname : registeredName? scene m call ≠ none)
    (hfirst : firstTerminal? scene m call = some t)
    (hsome : t.site.kind = .construct → constructedClasses scene t ≠ []) :
    ¬ LeftOut scene m call := by
  rintro (hunnamed | hnowhere | ⟨other, hother, hkind, hnone⟩)
  · exact hname hunnamed
  · rw [hfirst] at hnowhere
    cases hnowhere
  · obtain rfl := Option.some.inj (hfirst.symm.trans hother)
    exact hsome hkind hnone

theorem Rejects.not_leftOut {t : Terminal} (h : Rejects scene m call t) :
    ¬ LeftOut scene m call :=
  Analysis.not_leftOut h.name h.first fun hkind => absurd (.inr (.inr hkind)) h.unsupported

theorem registeredName?_gives (scene : Scene) (m : Module) (call : Cursor × Cursor) :
    Gives scene [m.path.key] (string? m call.1) (registeredName? scene m call) :=
  (string?_gives (chain_homeOf m) call.1).answerAt

theorem registeredAt_of_unnamed (h : registeredName? scene m call = none) :
    registeredAt scene m call = .ok none := by
  have hname := registeredName?_gives scene m call
  rw [h] at hname
  have hgives : Gives scene [m.path.key] (registered m call.1 call.2) (.ok none) :=
    hname.bind (.pure _ _ _)
  exact hgives.answerAt.answer_eq hgives

/-- With a known name, what the configuration leads to first decides. -/
theorem registeredAt_of_name {name : String} (h : registeredName? scene m call = some name) :
    registeredAt scene m call =
      match firstTerminal? scene m call with
      | none => .ok none
      | some t => componentAtEnd scene ⟨m.path, name, call.1.span⟩ t := by
  have hname := registeredName?_gives scene m call
  rw [h] at hname
  have hgives : Gives scene [m.path.key] (registered m call.1 call.2)
      (((terminals scene (homeOf m) call.2).findSome? fun t =>
        some (componentAtEnd scene ⟨m.path, name, call.1.span⟩ t)).getD (.ok none)) :=
    registered_gives (chain_homeOf m) hname call.2
  rw [registeredAt, firstTerminal?, hgives.answerAt.answer_eq hgives]
  cases terminals scene (homeOf m) call.2 with
  | nil => rfl
  | cons t rest => rfl

variable (hm : Read (homeOf m)) (hcall : Within m.root call.2)

include hm hcall

theorem endsInside_of_firstTerminal? {t : Terminal} (h : firstTerminal? scene m call = some t) :
    EndsInside Read StandsAlone t :=
  terminals_standAlone scene hm hcall t (List.mem_of_mem_head? h)

/-- The answer for a registration, in all cases. -/
theorem registeredAt_cases :
    (∃ t, Rejects scene m call t ∧
      registeredAt scene m call = .error (.of t.place.script t.site)) ∨
    (LeftOut scene m call ∧ registeredAt scene m call = .ok none) ∨
    (¬ LeftOut scene m call ∧ (∀ t, ¬ Rejects scene m call t) ∧ ∃ component,
      registeredAt scene m call = .ok (some component) ∧
      registeredName? scene m call = some component.name) := by
  cases hname : registeredName? scene m call with
  | none =>
      right; left
      exact ⟨.inl hname, registeredAt_of_unnamed hname⟩
  | some name =>
      have hanswer := registeredAt_of_name hname
      cases hfirst : firstTerminal? scene m call with
      | none =>
          right; left
          rw [hfirst] at hanswer
          exact ⟨.inr (.inl hfirst), hanswer⟩
      | some t =>
          rw [hfirst] at hanswer
          have ht := endsInside_of_firstTerminal? hm hcall hfirst
          by_cases hconfigures : Configures t
          · right
            by_cases hconstruct : t.site.kind = .construct ∧ constructedClasses scene t = []
            · left
              obtain ⟨hkind, hnone⟩ := hconstruct
              exact ⟨.inr (.inr ⟨t, hfirst, hkind, hnone⟩),
                hanswer.trans (componentAtEnd_of_construct_nil ht hkind hnone)⟩
            · right
              have hsome := not_and.mp hconstruct
              obtain ⟨component, hcomponent, hsame⟩ := exists_componentAtEnd ht hconfigures hsome
              refine ⟨not_leftOut (by simp [hname]) hfirst hsome, fun other hother => ?_, component,
                hanswer.trans hcomponent, congrArg some hsame.symm⟩
              obtain rfl := Option.some.inj (hfirst.symm.trans hother.first)
              exact hother.unsupported hconfigures
          · left
            exact ⟨t, ⟨by simp [hname], hfirst, hconfigures⟩,
              hanswer.trans (componentAtEnd_of_not_configures ht hconfigures)⟩

theorem registeredAt_eq_error_iff {error : Unsupported} :
    registeredAt scene m call = .error error ↔
      ∃ t, Rejects scene m call t ∧ error = .of t.place.script t.site := by
  rcases registeredAt_cases hm hcall with ⟨t, ht, hanswer⟩ | ⟨hleft, hanswer⟩ |
    ⟨-, hrejects, component, hanswer, -⟩
  · rw [hanswer]
    constructor
    · intro heq
      exact ⟨t, ht, (Except.error.inj heq).symm⟩
    · rintro ⟨other, hother, rfl⟩
      rw [ht.unique hother]
  · rw [hanswer]
    refine iff_of_false nofun ?_
    rintro ⟨t, ht, -⟩
    exact ht.not_leftOut hleft
  · rw [hanswer]
    refine iff_of_false nofun ?_
    rintro ⟨t, ht, -⟩
    exact hrejects t ht

theorem registeredAt_ne_error_iff :
    (∀ error, registeredAt scene m call ≠ .error error) ↔ ∀ t, ¬ Rejects scene m call t := by
  constructor
  · intro h t ht
    exact h _ ((registeredAt_eq_error_iff hm hcall).mpr ⟨t, ht, rfl⟩)
  · intro h error herror
    obtain ⟨t, ht, -⟩ := (registeredAt_eq_error_iff hm hcall).mp herror
    exact h t ht

/-- A registration makes no component if it is left out or not supported. -/
theorem componentOfCall?_eq_none_iff :
    componentOfCall? scene m call = none ↔
      LeftOut scene m call ∨ ∃ t, Rejects scene m call t := by
  rcases registeredAt_cases hm hcall with ⟨t, ht, hanswer⟩ | ⟨hleft, hanswer⟩ |
    ⟨hleft, hrejects, component, hanswer, -⟩
  · rw [componentOfCall?, hanswer]
    exact iff_of_true rfl (.inr ⟨t, ht⟩)
  · rw [componentOfCall?, hanswer]
    exact iff_of_true rfl (.inl hleft)
  · rw [componentOfCall?, hanswer]
    refine iff_of_false nofun ?_
    rintro (hleft' | ⟨t, ht⟩)
    · exact hleft hleft'
    · exact hrejects t ht

theorem registeredName?_of_componentOfCall? {component : Component}
    (h : componentOfCall? scene m call = some component) :
    registeredName? scene m call = some component.name := by
  unfold componentOfCall? at h
  rcases registeredAt_cases hm hcall with ⟨t, -, hanswer⟩ | ⟨-, hanswer⟩ |
    ⟨-, -, made, hanswer, hname⟩
  · rw [hanswer] at h
    cases h
  · rw [hanswer] at h
    cases h
  · rw [hanswer] at h
    obtain rfl := Option.some.inj h
    exact hname

end Registration

/-! ### The registrations of a script -/

/-- The two arguments of the call at a place, if it registers a component. -/
def componentCallAt? (m : Module) (c : Cursor) : Option (Cursor × Cursor) :=
  (Call.at? m c).bind fun call =>
    match call.isMethod "component", call.arguments with
    | true, [name, configuration] => some (name, configuration)
    | _, _ => none

/-- Answers up to the first error. -/
def collected : List (Except Unsupported (Option Component)) → Except Unsupported (List Component)
  | [] => .ok []
  | .error error :: _ => .error error
  | .ok component :: rest => (collected rest).map (component.toList ++ ·)

section Calls

variable {scene : Scene} {m : Module} {calls : List (Cursor × Cursor)}

/-- The calls that register components, children before their parents. -/
theorem componentCalls_eq (m : Module) :
    componentCalls m = m.root.postOrder.filterMap (componentCallAt? m) := by
  rw [componentCalls, Module.events_eq, List.filterMap_filterMap]
  congr 1
  funext c
  unfold componentCallAt?
  cases hcall : Call.at? m c with
  | some call =>
      rw [eventAt?_eq_call_iff.mpr hcall]
      rfl
  | none =>
      cases hevent : Event.at? m c with
      | none => rfl
      | some event =>
          cases event with
          | call call =>
              rw [eventAt?_eq_call_iff, hcall] at hevent
              cases hevent
          | _ => rfl

theorem within_of_mem_componentCalls {call : Cursor × Cursor} (h : call ∈ componentCalls m) :
    Within m.root call.2 := by
  obtain ⟨event, hevent, hcall⟩ := List.mem_filterMap.mp h
  cases event with
  | call found =>
      dsimp only at hcall
      split at hcall
      · next name configuration _ harguments =>
          obtain rfl := Option.some.inj hcall
          exact Module.within_of_mem_events hevent (by simp [harguments])
      · cases hcall
  | _ => cases hcall

theorem componentsOf_gives (scene : Scene) (m : Module) (calls : List (Cursor × Cursor)) :
    Gives scene [m.path.key] (componentsOf m calls)
      (collected (calls.map (registeredAt scene m))) := by
  induction calls with
  | nil => exact .pure _ _ _
  | cons call rest ih =>
      have hcall : Gives scene [m.path.key] (registered m call.1 call.2)
          (registeredAt scene m call) :=
        (composed_registered m call.1 call.2).gives scene (chain_homeOf m)
      refine hcall.bind ?_
      rw [List.map_cons]
      cases registeredAt scene m call with
      | error error => exact .pure _ _ _
      | ok component =>
          refine ih.bind ?_
          rw [collected]
          cases collected (rest.map (registeredAt scene m)) with
          | error error => exact .pure _ _ _
          | ok components => exact .pure _ _ _

/-- The first error is the answer. -/
theorem collected_eq_error_iff_find? {answers : List (Except Unsupported (Option Component))}
    {error : Unsupported} : collected answers = .error error ↔
      answers.find? (fun answer => !answer.isOk) = some (.error error) := by
  induction answers with
  | nil => exact iff_of_false nofun nofun
  | cons answer rest ih =>
      cases answer with
      | error found =>
          rw [collected, List.find?_cons_of_pos rfl, Option.some.injEq, Except.error.injEq,
            Except.error.injEq]
      | ok component =>
          rw [collected, List.find?_cons_of_neg (by simp [Except.isOk, Except.toBool]), ← ih]
          cases collected rest with
          | error found => rfl
          | ok components => exact iff_of_false nofun nofun

/-- Without an error, the answer is what was made. -/
theorem collected_of_forall_isOk {answers : List (Except Unsupported (Option Component))}
    (h : ∀ answer ∈ answers, answer.isOk = true) :
    collected answers = .ok (answers.filterMap fun answer => answer.toOption.join) := by
  induction answers with
  | nil => rfl
  | cons answer rest ih =>
      obtain ⟨hanswer, hrest⟩ := List.forall_mem_cons.mp h
      cases answer with
      | error found => cases hanswer
      | ok component =>
          rw [collected, ih hrest, List.filterMap_cons]
          cases component with
          | none => rfl
          | some component => rfl

theorem isOk_registeredAt_iff {call : Cursor × Cursor} :
    (registeredAt scene m call).isOk = true ↔ ∀ e, registeredAt scene m call ≠ .error e := by
  cases registeredAt scene m call with
  | error found => exact iff_of_false nofun fun h => h found rfl
  | ok component => exact iff_of_true rfl nofun

/-- The answer is the error of the first call that has one. -/
theorem collected_eq_error_iff {error : Unsupported} :
    collected (calls.map (registeredAt scene m)) = .error error ↔
      ∃ before call after, calls = before ++ call :: after ∧
        (∀ other ∈ before, ∀ e, registeredAt scene m other ≠ .error e) ∧
        registeredAt scene m call = .error error := by
  rw [collected_eq_error_iff_find?, List.find?_map, Option.map_eq_some_iff]
  constructor
  · rintro ⟨call, hfind, hcall⟩
    obtain ⟨-, before, after, hsplit, hbefore⟩ := List.find?_eq_some_iff_append.mp hfind
    refine ⟨before, call, after, hsplit, fun other hother => ?_, hcall⟩
    exact isOk_registeredAt_iff.mp (by simpa using hbefore other hother)
  · rintro ⟨before, call, after, rfl, hbefore, hcall⟩
    refine ⟨call, List.find?_eq_some_iff_append.mpr ⟨?_, before, after, rfl, ?_⟩, hcall⟩
    · simp [hcall, Except.isOk, Except.toBool]
    · intro other hother
      simpa using isOk_registeredAt_iff.mpr (hbefore other hother)

/-- Without an error, the components are those that the calls make. -/
theorem collected_eq_ok_iff {components : List Component} :
    collected (calls.map (registeredAt scene m)) = .ok components ↔
      (∀ call ∈ calls, ∀ e, registeredAt scene m call ≠ .error e) ∧
        components = calls.filterMap (componentOfCall? scene m) := by
  by_cases hnone : ∀ call ∈ calls, ∀ e, registeredAt scene m call ≠ .error e
  · have hok : ∀ answer ∈ calls.map (registeredAt scene m), answer.isOk = true :=
      List.forall_mem_map.mpr fun call hcall => isOk_registeredAt_iff.mpr (hnone call hcall)
    rw [collected_of_forall_isOk hok, List.filterMap_map, Except.ok.injEq]
    exact ⟨fun heq => ⟨hnone, heq.symm⟩, fun ⟨_, heq⟩ => heq.symm⟩
  · refine iff_of_false (fun hcollected => hnone fun call hcall => ?_) fun h => hnone h.1
    -- A call with an error makes for an error of the whole.
    rw [← isOk_registeredAt_iff]
    by_contra herror
    have hfind : ((calls.map (registeredAt scene m)).find? fun answer => !answer.isOk).isSome := by
      rw [List.find?_isSome]
      exact ⟨_, List.mem_map_of_mem hcall, by simpa using herror⟩
    obtain ⟨answer, hanswer⟩ := Option.isSome_iff_exists.mp hfind
    cases answer with
    | ok component => cases List.find?_some hanswer
    | error found =>
        rw [collected_eq_error_iff_find?.mpr hanswer] at hcollected
        cases hcollected

end Calls

end Analysis

open Analysis

/-- **The analysis of components fails exactly on unsupported configurations.**  It answers an error
if and only if there is a call with two arguments that registers a component under a name that can
be told, and what the configuration leads to first is no object, no class and no constructor call.
The error is that of the first such call, children before their parents, and it names the file and
the line of what was reached.  Otherwise the answer is the list of the components that the calls
make.  A call makes none if its name cannot be told, if its configuration leads nowhere, and if it
leads to a constructor call that leads to no class; none of this is an error.  What is reached is
never a name or an access to a property, and a name that nothing declares, or that comes from a
module that cannot be entered, leads nowhere. -/
theorem components_fail_iff (scene : Scene) (origin : Path) (text : String) :
    let m := Module.ofText origin text
    let answer := (components m scene (.start origin)).1
    componentCalls m = m.root.postOrder.filterMap (componentCallAt? m) ∧
    (∀ error, answer = .error error ↔
      ∃ before call after t, componentCalls m = before ++ call :: after ∧
        (∀ other ∈ before, ∀ t, ¬ Rejects scene m other t) ∧ Rejects scene m call t ∧
        error = ⟨t.place.script.path, t.site.node.start.line + 1⟩) ∧
    (∀ found, answer = .ok found ↔
      (∀ call ∈ componentCalls m, ∀ t, ¬ Rejects scene m call t) ∧
        found = (componentCalls m).filterMap (componentOfCall? scene m)) ∧
    (∀ call ∈ componentCalls m,
      (componentOfCall? scene m call = none ↔
        LeftOut scene m call ∨ ∃ t, Rejects scene m call t) ∧
      (LeftOut scene m call → ∀ t, ¬ Rejects scene m call t) ∧
      (∀ component, componentOfCall? scene m call = some component →
        registeredName? scene m call = some component.name) ∧
      ∀ t, firstTerminal? scene m call = some t → leadsOn t.site.kind = false) ∧
    ∀ place c, Unresolved scene place c → terminals scene place c = [] := by
  intro m answer
  have hm : Read (homeOf m) := read_ofText origin text (List.cons_ne_nil _ _)
  have hanswer : answer = collected ((componentCalls m).map (registeredAt scene m)) :=
    (componentsOf_gives scene m (componentCalls m) (.start origin) rfl).1
  have hwithin {call : Cursor × Cursor} (hcall : call ∈ componentCalls m) : Within m.root call.2 :=
    within_of_mem_componentCalls hcall
  have hfine {call : Cursor × Cursor} (hcall : call ∈ componentCalls m) :
      (∀ error, registeredAt scene m call ≠ .error error) ↔ ∀ t, ¬ Rejects scene m call t :=
    registeredAt_ne_error_iff hm (hwithin hcall)
  refine ⟨componentCalls_eq m, fun error => ?_, fun found => ?_, fun call hcall => ?_,
    fun place c h => h.terminals_eq_nil⟩
  · rw [hanswer, collected_eq_error_iff]
    constructor
    · rintro ⟨before, call, after, hsplit, hbefore, herror⟩
      have hcall : call ∈ componentCalls m := by simp [hsplit]
      obtain ⟨t, ht, rfl⟩ := (registeredAt_eq_error_iff hm (hwithin hcall)).mp herror
      refine ⟨before, call, after, t, hsplit, fun other hother => ?_, ht, rfl⟩
      have hmem : other ∈ componentCalls m := by simp [hsplit, hother]
      exact (hfine hmem).mp (hbefore other hother)
    · rintro ⟨before, call, after, t, hsplit, hbefore, ht, rfl⟩
      have hcall : call ∈ componentCalls m := by simp [hsplit]
      refine ⟨before, call, after, hsplit, fun other hother => ?_, ?_⟩
      · have hmem : other ∈ componentCalls m := by simp [hsplit, hother]
        exact (hfine hmem).mpr (hbefore other hother)
      · exact (registeredAt_eq_error_iff hm (hwithin hcall)).mpr ⟨t, ht, rfl⟩
  · rw [hanswer, collected_eq_ok_iff]
    exact and_congr_left fun _ => forall₂_congr fun call hcall => hfine hcall
  · refine ⟨componentOfCall?_eq_none_iff hm (hwithin hcall), fun hleft t ht => ht.not_leftOut hleft,
      fun component hmade => registeredName?_of_componentOfCall? hm (hwithin hcall) hmade,
      fun t ht => (endsInside_of_firstTerminal? hm (hwithin hcall) ht).ends.kind⟩

/-- A name that is not declared is passed over, and the text after it is an error. -/
example : ((components (.ofText ⟨"/a.js"⟩ "x.component('a', b);\nx.component('b', 'c');")
    { root := ⟨"/"⟩, files := {} } (.start ⟨"/a.js"⟩)).1.map List.length) =
      .error ⟨⟨"/a.js"⟩, 2⟩ := by
  decide +kernel

end NgIndex
