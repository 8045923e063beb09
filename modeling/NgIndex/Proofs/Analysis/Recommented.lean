import NgIndex.Proofs.Analysis.ClassFactories
import NgIndex.Proofs.Lookup.Recommented

/-!
# Registrations in scripts that differ in comments

Components, directives and routes are registered by calls, and comments do not change which calls
there are, what their arguments stand for and where the searches for configurations and factories
end.  So in two scripts that differ in comments the same names are registered, one after another, as
long as no comment stands where a child is taken by its number.  A comment at such a place is taken
for what it stands before.
-/

namespace NgIndex

open Script Script.Cursor Lookup Relation

theorem Script.Module.IsRead.read {m : Module} (h : m.IsRead) {chain : List String}
    (hchain : chain ≠ []) : Read ⟨chain, m⟩ := by
  obtain ⟨path, text, rfl⟩ := h
  exact read_ofText path text hchain

namespace Analysis

/-! ### Components -/

/-- What a registration comes to: nothing if its configuration is not supported, and else the name
of the component that it makes, if it does. -/
def outcome (answer : Except Unsupported (Option Component)) : Option (Option String) :=
  answer.toOption.map (Option.map Component.name)

open Classical in
theorem outcome_registeredAt {scene : Scene} {m : Module} {call : Cursor × Cursor}
    (hm : Read (homeOf m)) (hcall : Within m.root call.2) :
    outcome (registeredAt scene m call) =
      if ∃ t, Rejects scene m call t then none
      else if LeftOut scene m call then some none
      else some (registeredName? scene m call) := by
  have hcases := @registeredAt_cases scene m call hm hcall
  rcases hcases with
    ⟨t, ht, hanswer⟩ | ⟨hout, hanswer⟩ | ⟨hin, hnot, component, hanswer, hname⟩
  · rw [if_pos ⟨t, ht⟩, hanswer]
    rfl
  · have hnot : ¬ ∃ t, Rejects scene m call t := fun ⟨t, ht⟩ => ht.not_leftOut hout
    rw [if_neg hnot, if_pos hout, hanswer]
    rfl
  · rw [if_neg (not_exists.mpr hnot), if_neg hin, hanswer, hname]
    rfl

/-- The names of the components are those that the registrations come to. -/
theorem collected_names {answers answers' : List (Except Unsupported (Option Component))}
    (h : List.Forall₂ (fun answer answer' => outcome answer = outcome answer') answers answers') :
    (collected answers).toOption.map (List.map Component.name) =
      (collected answers').toOption.map (List.map Component.name) := by
  induction h with
  | nil => rfl
  | @cons answer answer' rest rest' hanswer _ ih =>
      cases answer with
      | error error =>
          cases answer' with
          | error error' => rfl
          | ok component' => cases hanswer
      | ok component =>
          cases answer' with
          | error error' => cases hanswer
          | ok component' =>
              have hname : component.map Component.name = component'.map Component.name :=
                Option.some.inj hanswer
              have hlist : component.toList.map Component.name =
                  component'.toList.map Component.name := by
                rw [← Option.toList_map, ← Option.toList_map, hname]
              have hfound (component : Option Component)
                  (found : Except Unsupported (List Component)) :
                  (found.map (component.toList ++ ·)).toOption.map (List.map Component.name) =
                    (found.toOption.map (List.map Component.name)).map
                      (component.toList.map Component.name ++ ·) := by
                cases found with
                | error error => rfl
                | ok components => exact congrArg some List.map_append
              rw [collected, collected, hfound, hfound, hlist, ih]

/-! ### Steps that agree -/

/-- Steps whose answers come to each other. -/
def Agrees {α β : Type} (scene : Scene) (chain : List String) (P : α → β → Prop)
    (step : Lookup α) (step' : Lookup β) : Prop :=
  ∃ a b, Gives scene chain step a ∧ Gives scene chain step' b ∧ P a b

section Agrees

variable {α β : Type} {scene : Scene} {chain : List String} {P : α → β → Prop}
  {step : Lookup α} {step' : Lookup β}

theorem Agrees.pure {a : α} {b : β} (h : P a b) :
    Agrees scene chain P (Pure.pure a) (Pure.pure b) :=
  ⟨a, b, .pure scene chain a, .pure scene chain b, h⟩

theorem Agrees.answerAt (h : Agrees scene chain P step step') :
    P (answerAt scene chain step) (Lookup.answerAt scene chain step') := by
  obtain ⟨a, b, ha, hb, hab⟩ := h
  rwa [ha.answerAt.answer_eq ha, hb.answerAt.answer_eq hb]

/-- Searches that start at twins agree if their actions do at the ends. -/
theorem Agrees.follow {m m' : Module} (h : m.Recommented m') (hchain : chain ≠ [])
    {visit : Visit α} {visit' : Visit β} {answer : Terminal → Option α}
    {answer' : Terminal → Option β} (hvisit : VisitGives scene visit answer)
    (hvisit' : VisitGives scene visit' answer')
    (hends : ∀ t t', TwinEnd chain m m' t t' → Option.Rel P (answer t) (answer' t'))
    {c c' : Cursor} (hc : Twin m m' c c') :
    Agrees scene chain (Option.Rel P) (follow m c visit) (Lookup.follow m' c' visit') := by
  have hleft : (⟨chain, m⟩ : Place).chain ≠ [] := hchain
  have hright : (⟨chain, m'⟩ : Place).chain ≠ [] := hchain
  refine ⟨_, _, follow_gives hvisit hleft c, follow_gives hvisit' hright c', ?_⟩
  exact forall₂_findSome? (terminals_twin h scene chain hc) hends

end Agrees

/-! ### What the search for a factory finds -/

section Search

variable {scene : Scene} {origin : Path} {factory : Factory}

/-- Ends that lead to a factory, if they have it as their answer. -/
def Finds (scene : Scene) (origin : Path) (factory : Factory)
    (answer : Terminal → Option (Except Endless Factory)) : Prop :=
  ∀ first, answer first = some (.ok factory) →
    ∃ t, ReflTransGen (Tries scene origin) first t ∧ Makes scene origin t factory

theorem Finds.exists_tried {answer : Terminal → Option (Except Endless Factory)}
    (h : Finds scene origin factory answer) (hjudges : Judges scene origin answer)
    {candidates : List Terminal} (hanswer : candidates.findSome? answer = some (.ok factory)) :
    ∃ first t, Tried scene origin candidates first ∧ ReflTransGen (Tries scene origin) first t ∧
      Makes scene origin t factory := by
  obtain ⟨before, first, after, heq, hfirst, hbefore⟩ := List.findSome?_eq_some_iff.mp hanswer
  obtain ⟨t, hleads, hmakes⟩ := h first hfirst
  exact ⟨first, t, ⟨before, after, heq, fun t ht => hjudges.fruitless t (hbefore t ht)⟩, hleads,
    hmakes⟩

theorem finds_factoryFrom {deeper : Terminal → Option (Except Endless Factory)}
    (hjudges : Judges scene origin deeper) (hdeeper : Finds scene origin factory deeper)
    (lists : Nat) : Finds scene origin factory (factoryFrom scene origin deeper lists) := by
  induction lists with
  | zero => exact fun first h => nomatch h
  | succ lists ih =>
      intro first hanswer
      rw [factoryFrom] at hanswer
      by_cases harray : first.site.kind = .array
      · rw [if_pos (by simpa using harray)] at hanswer
        have hinner : Finds scene origin factory fun t =>
            if t.place.script.path == first.place.script.path then
              factoryFrom scene origin deeper lists t
            else deeper t := by
          intro t ht
          dsimp only at ht
          split at ht
          · exact ih t ht
          · exact hdeeper t ht
        obtain ⟨next, t, htried, hleads, hmakes⟩ := hinner.exists_tried
          ((judges_factoryFrom hjudges lists).ite hjudges _) hanswer
        exact ⟨t, .head ⟨harray, htried⟩ hleads, hmakes⟩
      · rw [if_neg (by simpa using harray)] at hanswer
        obtain ⟨made, hown, hmade⟩ := Option.map_eq_some_iff.mp hanswer
        obtain rfl := Except.ok.inj hmade
        exact ⟨first, .refl, harray, hown⟩

theorem finds_factoryFromWithin (modules : Nat) :
    Finds scene origin factory (factoryFromWithin scene origin modules) := by
  induction modules with
  | zero => exact fun first h => nomatch h
  | succ modules ih =>
      intro first
      exact finds_factoryFrom (judges_factoryFromWithin modules) ih _ first

/-- The search for a factory has one as its outcome just if it leads to what makes it. -/
theorem factory?_eq_some_iff {place : Place} {c : Cursor} (hplace : Sound place)
    (hc : Within place.script.root c) :
    answerAt scene place.chain (factory? place.script c) = some factory ↔
      ∃ t, LeadsTo scene place c t ∧ Makes scene place.script.path t factory := by
  constructor
  · have hgives : Gives scene place.chain (factory? place.script c) _ :=
      factory?_gives (List.ne_nil_of_mem hplace.on_chain) c
    rw [hgives.answerAt.answer_eq hgives]
    intro hanswer
    obtain ⟨found, hfound, hok⟩ := Option.bind_eq_some_iff.mp hanswer
    cases found with
    | error e => cases hok
    | ok made =>
        obtain rfl := Option.some.inj hok
        obtain ⟨first, t, htried, hleads, hmakes⟩ :=
          (finds_factoryFromWithin _).exists_tried (judges_factoryFromWithin _) hfound
        exact ⟨t, ⟨first, htried, hleads⟩, hmakes⟩
  · rintro ⟨t, hleads, hmakes⟩
    have hgives := hleads.factory?_gives hplace hc hmakes
    exact hgives.answerAt.answer_eq hgives

end Search

section Twins

variable {scene : Scene} {chain : List String} {m m' : Module} {c c' : Cursor} {t t' : Terminal}
  (h : m.Recommented m')

include h

theorem homeOf_eq : homeOf m' = ⟨[m.path.key], m'⟩ := by
  rw [homeOf, h.path]

/-- The text that an expression stands for does not depend on comments. -/
theorem agrees_string? (scene : Scene) (hchain : chain ≠ []) (hc : Twin m m' c c') :
    Agrees scene chain Eq (string? m c) (string? m' c') := by
  have hgives (m : Module) (c : Cursor) : Gives scene chain (string? m c)
      ((terminals scene ⟨chain, m⟩ c).findSome? fun t => t.place.script.literalAt? t.site) := by
    have hplace : (⟨chain, m⟩ : Place).chain ≠ [] := hchain
    exact string?_gives hplace c
  exact ⟨_, _, hgives m c, hgives m' c', findSome?_literalAt?_twin h scene chain hc⟩

/-! ### Calls -/

section Events

variable {α β : Type} {P : α → β → Prop}

omit h in
theorem flatMap_events {f : Event → List α}
    (hf : ∀ event, f event = [] ∨ ∃ call, event = .call call) (m : Module) :
    m.events.flatMap f = m.root.postOrder.flatMap fun c =>
      (Call.at? m c).toList.flatMap fun call => f (.call call) := by
  rw [Module.events_eq, List.filterMap_eq_flatMap_toList, List.flatMap_assoc]
  congr 1
  funext c
  cases hcall : Call.at? m c with
  | some call =>
      rw [eventAt?_eq_call_iff.mpr hcall, Option.toList_some, Option.toList_some,
        List.flatMap_singleton, List.flatMap_singleton]
  | none =>
      cases hevent : Event.at? m c with
      | none => rfl
      | some event =>
          rw [Option.toList_some, List.flatMap_singleton]
          rcases hf event with hnothing | ⟨call, rfl⟩
          · exact hnothing
          · rw [eventAt?_eq_call_iff, hcall] at hevent
            cases hevent

/-- What makes the same of calls that come to each other, and nothing of other events, makes the
same of all events. -/
theorem flatMap_events_twin {f : Event → List α} {g : Event → List β}
    (hf : ∀ event, f event = [] ∨ ∃ call, event = .call call)
    (hg : ∀ event, g event = [] ∨ ∃ call, event = .call call)
    (hfg : ∀ call call', TwinCall m m' call call' →
      List.Forall₂ P (f (.call call)) (g (.call call'))) :
    List.Forall₂ P (m.events.flatMap f) (m'.events.flatMap g) := by
  have hremark (m : Module) (d : Cursor) (hd : d.node.isRemark = true) : Call.at? m d = none := by
    simp [Call.at?, kind_of_isRemark hd]
  rw [flatMap_events hf, flatMap_events hg]
  refine h.flatMap_order traverses_postOrder (fun d d' hd => ?_) (fun d hd => ?_) (fun d hd => ?_)
    .root
  · exact forall₂_flatMap (rel_toList (h.callAt? hd)) fun call _ call' hcall => hfg call call' hcall
  · rw [hremark m d hd, Option.toList_none, List.flatMap_nil]
  · rw [hremark m' d hd, Option.toList_none, List.flatMap_nil]

theorem filterMap_events_twin {f : Event → Option α} {g : Event → Option β}
    (hf : ∀ event, f event = none ∨ ∃ call, event = .call call)
    (hg : ∀ event, g event = none ∨ ∃ call, event = .call call)
    (hfg : ∀ call call', TwinCall m m' call call' →
      Option.Rel P (f (.call call)) (g (.call call'))) :
    List.Forall₂ P (m.events.filterMap f) (m'.events.filterMap g) := by
  rw [List.filterMap_eq_flatMap_toList, List.filterMap_eq_flatMap_toList]
  refine flatMap_events_twin h (fun event => ?_) (fun event => ?_) fun call call' hcall => ?_
  · exact (hf event).imp_left fun hnone => by rw [hnone, Option.toList_none]
  · exact (hg event).imp_left fun hnone => by rw [hnone, Option.toList_none]
  · exact rel_toList (hfg call call' hcall)

end Events

/-! ### Components -/

/-- Registrations with twins for names and configurations. -/
abbrev TwinPair (m m' : Module) (call call' : Cursor × Cursor) : Prop :=
  Twin m m' call.1 call'.1 ∧ Twin m m' call.2 call'.2

section Components

variable {call call' : Cursor × Cursor} (hcall : TwinPair m m' call call')

omit h in
theorem TwinPair.symm (hcall : TwinPair m m' call call') : TwinPair m' m call' call :=
  ⟨hcall.1.symm, hcall.2.symm⟩

include hcall

theorem registeredName?_twin : registeredName? scene m call = registeredName? scene m' call' := by
  rw [registeredName?, registeredName?, ← h.path]
  exact (agrees_string? h scene (List.cons_ne_nil _ _) hcall.1).answerAt

theorem firstTerminal?_twin (scene : Scene) :
    Option.Rel (TwinEnd [m.path.key] m m') (firstTerminal? scene m call)
      (firstTerminal? scene m' call') := by
  rw [firstTerminal?, firstTerminal?, homeOf_eq h]
  exact forall₂_head? (terminals_twin h scene _ hcall.2)

omit hcall in
theorem constructedClasses_twin (scene : Scene) (ht : TwinEnd chain m m' t t') :
    List.Forall₂ (TwinEnd chain m m') (constructedClasses scene t)
      (constructedClasses scene t') := by
  cases ht with
  | elsewhere t => exact forall₂_twinEnd_refl _
  | here htwin =>
      unfold constructedClasses
      rcases rel_cases (h.child? htwin .constructor) with
        ⟨hleft, hright⟩ | ⟨constructor, constructor', hleft, hright, hconstructor⟩
      · rw [hleft, hright]
        exact .nil
      · rw [hleft, hright]
        refine List.rel_filter (fun target target' htarget => ?_)
          (terminals_twin h scene _ hconstructor)
        simp only [htarget.isClass h]

theorem exists_rejects_twin : (∃ t, Rejects scene m call t) → ∃ t, Rejects scene m' call' t := by
  rintro ⟨t, ht⟩
  rcases rel_cases (firstTerminal?_twin h hcall scene) with
    ⟨hleft, -⟩ | ⟨first, first', hleft, hright, hfirst⟩
  · rw [ht.first] at hleft
    cases hleft
  · obtain rfl := Option.some.inj (ht.first.symm.trans hleft)
    refine ⟨first', registeredName?_twin h hcall ▸ ht.name, hright, ?_⟩
    rw [Configures, ← hfirst.kind h, ← hfirst.isClass h]
    exact ht.unsupported

theorem leftOut_twin (hleft : LeftOut scene m call) : LeftOut scene m' call' := by
  rcases hleft with hunnamed | hnowhere | ⟨t, ht, hkind, hnone⟩
  · exact .inl (registeredName?_twin h hcall ▸ hunnamed)
  · rcases rel_cases (firstTerminal?_twin h hcall scene) with
      ⟨-, hright⟩ | ⟨first, first', hleft, -, -⟩
    · exact .inr (.inl hright)
    · rw [hnowhere] at hleft
      cases hleft
  · rcases rel_cases (firstTerminal?_twin h hcall scene) with
      ⟨hleft, -⟩ | ⟨first, first', hleft, hright, hfirst⟩
    · rw [ht] at hleft
      cases hleft
    · obtain rfl := Option.some.inj (ht.symm.trans hleft)
      have hclasses := constructedClasses_twin h scene hfirst
      rw [hnone] at hclasses
      refine .inr (.inr ⟨first', hright, hfirst.kind h ▸ hkind, ?_⟩)
      exact List.forall₂_nil_left_iff.mp hclasses

theorem outcome_twin :
    outcome (registeredAt scene m call) = outcome (registeredAt scene m' call') := by
  have hrejects : (∃ t, Rejects scene m call t) ↔ ∃ t, Rejects scene m' call' t :=
    ⟨exists_rejects_twin h hcall, exists_rejects_twin h.symm hcall.symm⟩
  have hleft : LeftOut scene m call ↔ LeftOut scene m' call' :=
    ⟨leftOut_twin h hcall, leftOut_twin h.symm hcall.symm⟩
  rw [outcome_registeredAt (h.isRead.read (List.cons_ne_nil _ _)) hcall.2.within.1,
    outcome_registeredAt (h.isRead'.read (List.cons_ne_nil _ _)) hcall.2.within.2]
  rw [registeredName?_twin h hcall]
  classical exact if_congr hrejects rfl (if_congr hleft rfl rfl)

end Components

theorem componentCalls_twin :
    List.Forall₂ (TwinPair m m') (componentCalls m) (componentCalls m') := by
  refine filterMap_events_twin h (fun event => ?_) (fun event => ?_) fun call call' hcall => ?_
  · cases event with
    | call call => exact .inr ⟨call, rfl⟩
    | _ => exact .inl rfl
  · cases event with
    | call call => exact .inr ⟨call, rfl⟩
    | _ => exact .inl rfl
  · dsimp only
    rw [← hcall.isMethod]
    have harguments := hcall.arguments
    generalize call.arguments = arguments at harguments
    generalize call'.arguments = arguments' at harguments
    cases call.isMethod "component" with
    | false => exact .none
    | true =>
        exact match harguments with
          | .nil => .none
          | .cons _ .nil => .none
          | .cons hname (.cons hconfiguration .nil) => .some ⟨hname, hconfiguration⟩
          | .cons _ (.cons _ (.cons _ _)) => .none

/-- The names of the components do not depend on comments. -/
theorem components_twin (scene : Scene) :
    (components m scene (.start m.path)).1.toOption.map (List.map Component.name) =
      (components m' scene (.start m'.path)).1.toOption.map (List.map Component.name) := by
  have hanswer (m : Module) : (components m scene (.start m.path)).1 =
      collected ((componentCalls m).map (registeredAt scene m)) :=
    (componentsOf_gives scene m (componentCalls m) (.start m.path) rfl).1
  rw [hanswer, hanswer]
  refine collected_names ?_
  rw [List.forall₂_map_left_iff, List.forall₂_map_right_iff]
  exact (componentCalls_twin h).imp fun call call' hcall => outcome_twin h hcall

/-! ### Factories -/

/-- Factories of one kind, with the same name of a class. -/
inductive Alike : Factory → Factory → Prop
  | ownClass (name : String) : Alike (.ownClass name) (.ownClass name)
  | otherClass (directive directive' : Directive) :
      Alike (.otherClass directive) (.otherClass directive')
  | object (restrict restrict' : Restrict) : Alike (.object restrict) (.object restrict')

omit h in
theorem Alike.refl (factory : Factory) : Alike factory factory := by
  cases factory with
  | ownClass name => exact .ownClass name
  | otherClass directive => exact .otherClass directive directive
  | object restrict => exact .object restrict restrict

section Factories

variable {origin : Path} (hchain : chain ≠ [])

theorem returned?_twin (hc : Twin m m' c c') :
    Option.Rel (Twin m m') (returned? c) (returned? c') := by
  unfold returned?
  refine rel_bind (h.child? hc .body) fun body body' hbody => ?_
  rw [← h.kind hbody]
  split
  · exact .some (h.unwrap hbody)
  · have hstatement : Option.Rel (Twin m m')
        (body.named.find? fun statement => statement.kind == .returnStatement)
        (body'.named.find? fun statement => statement.kind == .returnStatement) := by
      rw [find?_named (fun d hd => by simp [hd]), find?_named (fun d hd => by simp [hd])]
      exact forall₂_find? (h.namedParts hbody) fun d d' hd => by rw [h.kind hd]
    rcases rel_cases hstatement with ⟨hleft, hright⟩ | ⟨statement, statement', hleft, hright, htwin⟩
    · rw [hleft, hright]
      exact .none
    · have hkind : statement.kind = .returnStatement := by simpa using List.find?_some hleft
      simp only [hleft, hright, Option.bind_eq_bind, Option.bind_some]
      refine rel_bind (h.head?_named (by rw [hkind]; rfl) htwin) fun value value' hvalue => ?_
      rw [← h.kind hvalue]
      exact rel_guard fun _ => .some (h.unwrap hvalue)

theorem otherClassAt?_twin (ht : TwinEnd chain m m' t t') :
    Option.Rel Alike (otherClassAt? scene t) (otherClassAt? scene t') := by
  cases ht with
  | elsewhere t => exact rel_refl .refl _
  | here htwin =>
      unfold otherClassAt?
      rw [← h.isClass htwin]
      split
      · rcases rel_cases (h.child? htwin .name) with
          ⟨hleft, hright⟩ | ⟨name, name', hleft, hright, -⟩
        · rw [hleft, hright]
          exact .none
        · rw [hleft, hright]
          exact .some (.otherClass _ _)
      · exact .none

include hchain

/-- What names a class makes the same factory. -/
theorem classFactory_twin (hc : Twin m m' c c') :
    Agrees scene chain (Option.Rel Alike) (classFactory origin m c)
      (classFactory origin m' c') := by
  unfold classFactory
  rw [← h.kind hc, ← h.path]
  split
  · exact .pure .none
  · next hkind =>
      have hword : c.kind.isWord = true := by
        rw [show c.kind = .identifier by simpa using hkind]
        rfl
      have hown : ((m.declarationOf? (m.textAt c) c).any fun owner => owner.node.isClass) =
          (m'.declarationOf? (m.textAt c) c').any fun owner => owner.node.isClass := by
        rcases rel_cases (h.declarationOf? (m.textAt c) hc hword) with
          ⟨hleft, hright⟩ | ⟨owner, owner', hleft, hright, howner⟩
        · rw [hleft, hright]
        · rw [hleft, hright, Option.any_some, Option.any_some, h.isClass howner]
      dsimp only
      rw [← h.textAt hc hword, hown]
      split
      · exact .pure (.some (.ownClass _))
      · exact .follow h hchain (otherClass_visitGives scene) (otherClass_visitGives scene)
          (fun t t' => otherClassAt?_twin h) hc

theorem callFactory_twin (hc : Twin m m' c c') :
    Agrees scene chain (Option.Rel Alike) (callFactory origin m c) (callFactory origin m' c') := by
  unfold callFactory
  rcases rel_cases (h.child? hc .function) with
    ⟨hleft, hright⟩ | ⟨callee, callee', hleft, hright, hcallee⟩
  · rw [hleft, hright]
    exact .pure .none
  simp only [hleft, hright, ← h.kind hcallee]
  split
  · exact .pure .none
  · rcases rel_cases (h.child? hcallee .object) with
      ⟨hnone, hnone'⟩ | ⟨object, object', hsome, hsome', hobject⟩
    · rw [hnone, hnone']
      exact .pure .none
    · rw [hsome, hsome']
      exact classFactory_twin h hchain (h.unwrap hobject)

omit h hchain in
/-- The factory of an object that a search for one ends at. -/
def objectFactoryAt? (scene : Scene) (t : Terminal) : Option Factory :=
  if t.site.kind = .object then
    some (.object (answerAt scene t.place.chain
      (restrictOf t.place.script (Table.ofObject t.place.script t.site))))
  else none

omit h hchain in
theorem objectFactory_visitGives (scene : Scene) :
    VisitGives scene objectFactory (objectFactoryAt? scene) := by
  intro t ht
  unfold objectFactory objectFactoryAt?
  by_cases hkind : t.site.kind = .object
  · rw [if_neg (by simp [hkind]), if_pos hkind]
    exact ((composed_restrictOf t.place.script _).gives scene ht).bind (.pure _ _ _)
  · rw [if_pos (by simpa using hkind), if_neg hkind]
    exact .pure _ _ none

omit hchain in
theorem objectFactoryAt?_twin (ht : TwinEnd chain m m' t t') :
    Option.Rel Alike (objectFactoryAt? scene t) (objectFactoryAt? scene t') := by
  unfold objectFactoryAt?
  rw [ht.kind h]
  split
  · exact .some (.object _ _)
  · exact .none

theorem functionFactory_twin (hc : Twin m m' c c') :
    Agrees scene chain (Option.Rel Alike) (functionFactory origin m c)
      (functionFactory origin m' c') := by
  unfold functionFactory
  rcases rel_cases (returned?_twin h hc) with
    ⟨hleft, hright⟩ | ⟨value, value', hleft, hright, hvalue⟩
  · rw [hleft, hright]
    exact .pure .none
  simp only [hleft, hright, ← h.kind hvalue]
  split
  · exact .follow h hchain (objectFactory_visitGives scene) (objectFactory_visitGives scene)
      (fun t t' => objectFactoryAt?_twin h) hvalue
  · rcases rel_cases (h.child? hvalue .constructor) with
      ⟨hnone, hnone'⟩ | ⟨constructor, constructor', hsome, hsome', hconstructor⟩
    · rw [hnone, hnone']
      exact .pure .none
    · rw [hsome, hsome']
      exact classFactory_twin h hchain hconstructor

theorem ownFactory?_twin (scene : Scene) (origin : Path) (ht : TwinEnd chain m m' t t') :
    Option.Rel Alike (ownFactory? scene origin t) (ownFactory? scene origin t') := by
  cases ht with
  | elsewhere t => exact rel_refl .refl _
  | here htwin =>
      unfold ownFactory?
      rw [← h.kind htwin, ← h.isFunction htwin]
      split
      · exact (callFactory_twin h hchain htwin).answerAt
      · split
        · exact (functionFactory_twin h hchain htwin).answerAt
        · exact .none

omit hchain in
theorem listTerminals_twin (ht : TwinEnd chain m m' t t') :
    List.Forall₂ (TwinEnd chain m m') (listTerminals scene t) (listTerminals scene t') := by
  cases ht with
  | elsewhere t => exact forall₂_twinEnd_refl _
  | here htwin =>
      unfold listTerminals
      rcases rel_cases (forall₂_getLast? (h.items htwin)) with
        ⟨hleft, hright⟩ | ⟨last, last', hleft, hright, hlast⟩
      · rw [hleft, hright]
        exact .nil
      · rw [hleft, hright]
        exact terminals_twin h scene chain hlast

theorem fruitless_twin (ht : TwinEnd chain m m' t t') (hfruitless : Fruitless scene origin t) :
    Fruitless scene origin t' := by
  induction hfruitless generalizing t' with
  | other hkind hnone =>
      have hown := ownFactory?_twin h hchain scene origin ht
      rw [hnone] at hown
      refine .other (ht.kind h ▸ hkind) ?_
      rcases rel_cases hown with ⟨-, hright⟩ | ⟨_, _, hleft, -, -⟩
      · exact hright
      · cases hleft
  | list harray _ ih =>
      refine .list (ht.kind h ▸ harray) fun next' hnext' => ?_
      obtain ⟨next, hnext, htwin⟩ := exists_left_of_mem (listTerminals_twin h ht) hnext'
      exact ih next hnext htwin

theorem tried_twin {ends ends' : List Terminal}
    (hends : List.Forall₂ (TwinEnd chain m m') ends ends') (htried : Tried scene origin ends t) :
    ∃ t', TwinEnd chain m m' t t' ∧ Tried scene origin ends' t' := by
  obtain ⟨before, after, rfl, hbefore⟩ := htried
  obtain ⟨before', t', after', rfl, hfront, ht⟩ := exists_split hends
  refine ⟨t', ht, before', after', rfl, fun other' hother' => ?_⟩
  obtain ⟨other, hother, htwin⟩ := exists_left_of_mem hfront hother'
  exact fruitless_twin h hchain htwin (hbefore other hother)

/-- The search for a factory leads to twins. -/
theorem leadsTo_twin (hc : Twin m m' c c') (hleads : LeadsTo scene ⟨chain, m⟩ c t) :
    ∃ t', TwinEnd chain m m' t t' ∧ LeadsTo scene ⟨chain, m'⟩ c' t' := by
  obtain ⟨first, htried, hleads⟩ := hleads
  obtain ⟨first', hfirst, htried'⟩ := tried_twin h hchain (terminals_twin h scene chain hc) htried
  have hpath : m.path = m'.path := h.path
  suffices hend : ∃ t', TwinEnd chain m m' t t' ∧ ReflTransGen (Tries scene m'.path) first' t' by
    obtain ⟨t', ht, hleads'⟩ := hend
    exact ⟨t', ht, first', hpath ▸ htried', hleads'⟩
  induction hleads with
  | refl => exact ⟨first', hfirst, .refl⟩
  | tail _ htries ih =>
      obtain ⟨u', hu, hleads'⟩ := ih
      obtain ⟨t', ht, htried''⟩ := tried_twin h hchain (listTerminals_twin h hu) htries.2
      exact ⟨t', ht, hleads'.tail ⟨hu.kind h ▸ htries.1, hpath ▸ htried''⟩⟩

theorem makes_twin {factory : Factory} (ht : TwinEnd chain m m' t t')
    (hmakes : Makes scene origin t factory) :
    ∃ factory', Alike factory factory' ∧ Makes scene origin t' factory' := by
  have hown := ownFactory?_twin h hchain scene origin ht
  rcases rel_cases hown with ⟨hleft, -⟩ | ⟨found, found', hleft, hright, halike⟩
  · rw [hmakes.own] at hleft
    cases hleft
  · obtain rfl := Option.some.inj (hmakes.own.symm.trans hleft)
    exact ⟨found', halike, ht.kind h ▸ hmakes.kind, hright⟩

end Factories

theorem exists_alike {factory : Factory} (hc : Twin m m' c c')
    (hfactory : answerAt scene [m.path.key] (factory? m c) = some factory) :
    ∃ factory', answerAt scene [m'.path.key] (factory? m' c') = some factory' ∧
      Alike factory factory' := by
  have hchain := chain_homeOf m
  have hplace : Sound (homeOf m) := ⟨List.mem_cons_self, h.isRead.whole⟩
  have hplace' : Sound (homeOf m') := ⟨List.mem_cons_self, h.isRead'.whole⟩
  obtain ⟨t, hleads, hmakes⟩ := (factory?_eq_some_iff hplace hc.within.1).mp hfactory
  obtain ⟨t', ht, hleads'⟩ := leadsTo_twin h hchain hc hleads
  obtain ⟨factory', halike, hmakes'⟩ := makes_twin h hchain ht hmakes
  refine ⟨factory', ?_, halike⟩
  refine (factory?_eq_some_iff hplace' hc.within.2).mpr ⟨t', ?_, ?_⟩
  · rwa [homeOf_eq h]
  · have hpath : m.path = m'.path := h.path
    exact hpath ▸ hmakes'

/-- The factories of twins are alike. -/
theorem factory?_twin (scene : Scene) (hc : Twin m m' c c') :
    Option.Rel Alike (answerAt scene [m.path.key] (factory? m c))
      (answerAt scene [m'.path.key] (factory? m' c')) := by
  cases hfound : answerAt scene [m.path.key] (factory? m c) with
  | some factory =>
      obtain ⟨factory', hfound', halike⟩ := exists_alike h hc hfound
      rw [hfound']
      exact .some halike
  | none =>
      cases hfound' : answerAt scene [m'.path.key] (factory? m' c') with
      | none => exact .none
      | some factory' =>
          obtain ⟨factory, hother, -⟩ := exists_alike h.symm hc.symm hfound'
          rw [hfound] at hother
          cases hother

/-! ### Directives -/

/-- The classes of twins come one after another under the same names. -/
theorem classesOf_twin (scene : Scene) :
    List.Forall₂ (fun directive directive' : Directive =>
      directive.className = directive'.className) (classesOf scene m) (classesOf scene m') := by
  have hremark (m : Module) (d : Cursor) (hd : d.node.isRemark = true) :
      classDirectiveAt? scene m d = none := by
    simp [classDirectiveAt?, declaresClass, kind_of_isRemark hd]
  refine h.filterMap_order traverses_postOrder (fun d d' hd => ?_) (hremark m) (hremark m') .root
  unfold classDirectiveAt? declaresClass
  rw [← h.kind hd]
  split
  · next hclass =>
      have hisClass : d.node.isClass = true := by
        rcases (Bool.or_eq_true _ _).mp hclass with hkind | hkind
        all_goals
          rw [Node.isClass, show d.node.kind = _ from beq_iff_eq.mp hkind]
      rcases rel_cases (h.child? hd .name) with
        ⟨hleft, hright⟩ | ⟨name, name', hleft, hright, hname⟩
      · rw [hleft, hright]
        exact .none
      · have hword := h.legible.owner d (mem_preOrder_iff.mpr hd.within.1) hisClass name hleft
        rw [hleft, hright, Option.map_some, Option.map_some,
          directiveOfClass_eq (chain_homeOf m), directiveOfClass_eq (chain_homeOf m')]
        exact .some (congrArg some (h.textAt hname hword))
  · exact .none

theorem directiveOf_twin {factory factory' : Factory} (hfactory : Alike factory factory')
    (name : String) (site site' : Cursor) :
    Option.Rel (fun directive directive' : Directive => directive.name = directive'.name)
      (directiveOf m (classesOf scene m) name site factory)
      (directiveOf m' (classesOf scene m') name site' factory') := by
  cases hfactory with
  | ownClass className =>
      have hfound : Option.Rel _ ((classesOf scene m).find? _) ((classesOf scene m').find? _) :=
        forall₂_find? (p := fun directive => directive.className == some className)
          (q := fun directive => directive.className == some className) (classesOf_twin h scene)
          fun directive directive' hname => by rw [hname]
      rw [directiveOf, directiveOf]
      rcases rel_cases hfound with ⟨hleft, hright⟩ | ⟨found, found', hleft, hright, -⟩
      · rw [hleft, hright]
        exact .none
      · rw [hleft, hright]
        exact .some rfl
  | otherClass directive directive' => exact .some rfl
  | object restrict restrict' => exact .some rfl

theorem directiveOfCall?_twin {call call' : Call} (hcall : TwinCall m m' call call') :
    Option.Rel (fun directive directive' : Directive => directive.name = directive'.name)
      (directiveOfCall? scene m call) (directiveOfCall? scene m' call') := by
  unfold directiveOfCall?
  rw [← hcall.isMethod]
  have harguments := hcall.arguments
  generalize call.arguments = arguments at harguments
  generalize call'.arguments = arguments' at harguments
  cases call.isMethod "directive" with
  | false => exact .none
  | true =>
      match harguments with
      | .nil => exact .none
      | .cons _ .nil => exact .none
      | .cons (b := site') hsite (.cons hfactory .nil) =>
          have hname := (agrees_string? h scene (chain_homeOf m) hsite).answerAt
          have hmade := factory?_twin h scene hfactory
          rw [homeOf, ← rel_eq_iff] at hname
          dsimp only at hname ⊢
          rw [← h.path] at hmade ⊢
          refine rel_bind hname ?_
          rintro name _ rfl
          exact rel_bind hmade fun factory factory' halike => directiveOf_twin h halike name _ _
      | .cons _ (.cons _ (.cons _ _)) => exact .none

/-- The names of the directives do not depend on comments. -/
theorem directives_twin (scene : Scene) :
    (directives m scene (.start m.path)).1.map Directive.name =
      (directives m' scene (.start m'.path)).1.map Directive.name := by
  have hcalls (m : Module) (event : Event) :
      directiveOfEvent? scene m event = none ∨ ∃ call, event = .call call := by
    cases event with
    | call call => exact .inr ⟨call, rfl⟩
    | _ => exact .inl rfl
  rw [directives_start, directives_start, ← List.forall₂_eq_eq_eq, List.forall₂_map_left_iff,
    List.forall₂_map_right_iff]
  refine List.rel_filter (fun directive directive' hname => by simp only [hname]) ?_
  exact filterMap_events_twin h (hcalls m) (hcalls m') fun call call' hcall =>
    directiveOfCall?_twin h hcall

/-! ### Routes -/

theorem isChained_twin (hc : Twin m m' c c') : isChained m c = isChained m' c' := by
  unfold isChained
  rcases rel_cases (h.parent? hc) with ⟨hleft, hright⟩ | ⟨callee, callee', hleft, hright, hcallee⟩
  · rw [hleft, hright]
  · have houter : (callee.parent?.any fun outer => outer.kind == .call) =
        callee'.parent?.any fun outer => outer.kind == .call := by
      rcases rel_cases (h.parent? hcallee) with
        ⟨hnone, hnone'⟩ | ⟨outer, outer', hsome, hsome', hout⟩
      · rw [hnone, hnone']
      · rw [hsome, hsome', Option.any_some, Option.any_some, h.kind hout]
    rw [hleft, hright]
    dsimp only
    rw [← h.role hc, ← h.kind hcallee, ← h.role hcallee, houter]
    by_cases hkind : callee.kind = .member
    · have hproperty := congrArg (Option.any (· == stateMethod)) (h.property hcallee hkind)
      rw [Option.any_map, Option.any_map] at hproperty
      exact congrArg _ hproperty
    · rw [beq_false_of_ne hkind]
      simp

theorem innerCall?_twin {call call' : Call} (hcall : TwinCall m m' call call') :
    Option.Rel (TwinCall m m') (innerCall? m call) (innerCall? m' call') := by
  unfold innerCall?
  refine rel_bind hcall.object fun object object' hobject => ?_
  refine rel_bind (h.callAt? (h.unwrap hobject)) fun inner inner' hinner => ?_
  rw [← hinner.isMethod]
  exact rel_guard fun _ => .some hinner

theorem callChain_twin {call call' : Call} (hcall : TwinCall m m' call call') :
    List.Forall₂ (TwinCall m m') (callChain m call) (callChain m' call') := by
  have htail {m : Module} {call : Call} : callChain m call = call ::
      (innerCall? m call).toList.flatMap (callChain m) := by
    rw [← tail_callChain, ← callChain_eq_cons]
  fun_induction callChain m call generalizing call' with
  | case1 call inner hinner ih =>
      obtain ⟨inner', hinner', htwin⟩ : ∃ inner', innerCall? m' call' = some inner' ∧
          TwinCall m m' inner inner' := by
        rcases rel_cases (innerCall?_twin h hcall) with
          ⟨hleft, -⟩ | ⟨found, found', hleft, hright, htwin⟩
        · rw [hinner] at hleft
          cases hleft
        · obtain rfl := Option.some.inj (hinner.symm.trans hleft)
          exact ⟨found', hright, htwin⟩
      rw [htail (m := m'), hinner', Option.toList_some, List.flatMap_singleton]
      exact .cons hcall (ih htwin)
  | case2 call hnone =>
      have hnone' : innerCall? m' call' = none := by
        rcases rel_cases (innerCall?_twin h hcall) with
          ⟨-, hright⟩ | ⟨found, found', hleft, hright, htwin⟩
        · exact hright
        · rw [hnone] at hleft
          cases hleft
      rw [htail (m := m'), hnone', Option.toList_none, List.flatMap_nil]
      exact .cons hcall .nil

theorem stateCalls_twin : List.Forall₂ (TwinCall m m') (stateCalls m) (stateCalls m') := by
  refine flatMap_events_twin h (fun event => ?_) (fun event => ?_) fun call call' hcall => ?_
  · cases event with
    | call call => exact .inr ⟨call, rfl⟩
    | _ => exact .inl rfl
  · cases event with
    | call call => exact .inr ⟨call, rfl⟩
    | _ => exact .inl rfl
  · dsimp only
    unfold chainAt
    rw [← hcall.isMethod, ← isChained_twin h hcall.site]
    split
    · exact .nil
    · exact List.rel_reverse (callChain_twin h hcall)

omit h in
/-- A route has the name that it is made with. -/
theorem name_answerAt_routeOf (scene : Scene) (chain : List String) (m : Module) (levels : Nat)
    (table : Table) (name : String) (path : Path) (span : Span) :
    (answerAt scene chain (routeOf m levels table name path span)).name = name := by
  unfold routeOf answerAt
  cases levels with
  | zero => rfl
  | succ levels => rfl

/-- Routes of one name. -/
abbrev SameName (route route' : Route) : Prop :=
  route.name = route'.name

theorem routeAt?_twin (ht : TwinEnd chain m m' t t') (name : String) (path path' : Path)
    (span span' : Span) :
    Option.Rel SameName (routeAt? scene name path span t) (routeAt? scene name path' span' t') := by
  have hname (t : Terminal) (table : Table) (path : Path) (span : Span) :
      (answerAt scene t.place.chain
        (routeOf t.place.script viewLevels table name path span)).name = name :=
    name_answerAt_routeOf scene _ _ _ _ _ _ _
  have hsame (table table' : Table) :
      Option.Rel SameName
        (some (answerAt scene t.place.chain
          (routeOf t.place.script viewLevels table name path span)))
        (some (answerAt scene t'.place.chain
          (routeOf t'.place.script viewLevels table' name path' span'))) :=
    .some ((hname t table path span).trans (hname t' table' path' span').symm)
  unfold routeAt?
  cases ht with
  | elsewhere t =>
      cases Table.ofNode? t.place.script t.site with
      | none => exact .none
      | some table => exact hsame table table
  | here htwin =>
      rcases rel_cases (h.ofNode? htwin) with ⟨hleft, hright⟩ | ⟨table, table', hleft, hright, -⟩
      · simp only [hleft, hright]
        exact .none
      · simp only [hleft, hright]
        exact hsame table table'

theorem selfNamedRouteAt?_twin (hchain : chain ≠ []) (ht : TwinEnd chain m m' t t') :
    Option.Rel SameName (selfNamedRouteAt? scene t) (selfNamedRouteAt? scene t') := by
  cases ht with
  | elsewhere t => exact rel_refl (R := SameName) (fun _ => rfl) _
  | here htwin =>
      refine rel_bind (h.ofNode? htwin) fun table table' htable => ?_
      refine rel_bind (rel_get? "name" htable) fun site site' hsite => ?_
      have hname := rel_eq_iff.mpr (agrees_string? h scene hchain hsite).answerAt
      refine rel_bind hname ?_
      rintro name _ rfl
      exact routeAt?_twin h (.here htwin) name _ _ _ _

theorem registeredRoute?_twin {call call' : Call} (hcall : TwinCall m m' call call')
    (hchain : chain ≠ []) :
    Agrees scene chain (Option.Rel SameName) (registeredRoute? m call)
      (registeredRoute? m' call') := by
  have hleft : (⟨chain, m⟩ : Place).chain ≠ [] := hchain
  have hright : (⟨chain, m'⟩ : Place).chain ≠ [] := hchain
  unfold registeredRoute?
  have harguments := hcall.arguments
  generalize call.arguments = arguments at harguments
  generalize call'.arguments = arguments' at harguments
  match harguments with
  | .nil => exact .pure .none
  | .cons hconfiguration .nil =>
      refine ⟨_, _, selfNamedRoute?_gives hleft _, selfNamedRoute?_gives hright _, ?_⟩
      exact forall₂_findSome? (terminals_twin h scene chain hconfiguration) fun t t' =>
        selfNamedRouteAt?_twin h hchain
  | .cons hname (.cons hconfiguration .nil) =>
      obtain ⟨text, _, htext, htext', rfl⟩ := agrees_string? h scene hchain hname
      cases text with
      | none => exact ⟨none, none, htext.bind (.pure _ _ _), htext'.bind (.pure _ _ _), .none⟩
      | some text =>
          refine ⟨_, _, namedRoute?_gives hleft htext _, namedRoute?_gives hright htext' _, ?_⟩
          exact forall₂_findSome? (terminals_twin h scene chain hconfiguration) fun t t' ht =>
            routeAt?_twin h ht text _ _ _ _
  | .cons _ (.cons _ (.cons _ _)) => exact .pure .none

/-- The names of the routes do not depend on comments. -/
theorem routes_twin (scene : Scene) :
    (routes m scene (.start m.path)).1.map Route.name =
      (routes m' scene (.start m'.path)).1.map Route.name := by
  rw [routes_start, routes_start, ← List.forall₂_eq_eq_eq, List.forall₂_map_left_iff,
    List.forall₂_map_right_iff]
  refine List.rel_filterMap (fun call call' hcall => ?_) (stateCalls_twin h)
  rw [routeAt, routeAt, ← h.path]
  exact (registeredRoute?_twin h hcall (List.cons_ne_nil _ _)).answerAt

end Twins

end Analysis

open Analysis

/-- **Comments do not matter unless one stands where a child is taken by its number.**  If two
scripts differ in comments only, each place of one that is no comment has one twin in the other.  If
in both no comment stands where a child is taken by its number, and comments make no difference to
whether a block stands at the very front, then an expression and its twin stand for the same text,
and the scripts register components, directives and routes with the same names, one after another.
Components fail to be registered in one of them if they do in the other.  Beyond that nothing is
asked of the two texts: that what is read as a name is a word, without room for a comment in it,
follows from how scripts are read. -/
theorem resolution_without_comments (scene : Scene) {path : Path} {text text' : String}
    (h : (Module.ofText path text).Recommented (.ofText path text')) :
    let m := Module.ofText path text
    let m' := Module.ofText path text'
    (∀ c, Within m.root c → c.node.isRemark = false → ∃! c', Twin m m' c c') ∧
    (∀ c c', Twin m m' c c' → ∀ session session' : Session, session.chain ≠ [] →
      session'.chain = session.chain →
      (string? m c scene session).1 = (string? m' c' scene session').1) ∧
    (components m scene (.start path)).1.toOption.map (List.map Component.name) =
      (components m' scene (.start path)).1.toOption.map (List.map Component.name) ∧
    (directives m scene (.start path)).1.map Directive.name =
      (directives m' scene (.start path)).1.map Directive.name ∧
    (routes m scene (.start path)).1.map Route.name =
      (routes m' scene (.start path)).1.map Route.name := by
  intro m m'
  refine ⟨fun c hc hplain => ?_, fun c c' hc session session' hchain hsame => ?_,
    components_twin h scene, directives_twin h scene, routes_twin h scene⟩
  · obtain ⟨c', hc'⟩ := h.exists_twin hc hplain
    exact ⟨c', hc', fun d hd => Twin.right_unique h.isRead.tidy hd hc'⟩
  · obtain ⟨answer, _, hleft, hright, rfl⟩ := agrees_string? h scene hchain hc
    rw [(hleft session rfl).1, (hright session' hsame).1]

/-! ### A comment that makes no difference and one that does -/

namespace Remarks

def origin : Path :=
  ⟨"/main.js"⟩

def scene : Scene where
  root := ⟨"/"⟩
  files := {}

/-- A component with a name in parentheses. -/
def plain : Module :=
  .ofText origin "x.component(('a'), \x7b\x7d)"

/-- Comments in front of everything, between arguments and behind the name. -/
def harmless : Module :=
  .ofText origin "/* 1 */ x.component(('a' /* 2 */), /* 3 */ \x7b\x7d)"

/-- A comment before the name. -/
def harmful : Module :=
  .ofText origin "x.component((/* 1 */ 'a'), \x7b\x7d)"

/-- The names of the components that a script registers. -/
def names (m : Module) : Option (List String) :=
  (components m scene (.start origin)).1.toOption.map (List.map Component.name)

end Remarks

open Remarks

theorem recommented_harmless : plain.Recommented harmless := by
  have hclear : ∀ m ∈ [plain, harmless], m.Clear := by
    decide +kernel
  have hblock : ∀ c ∈ plain.root.preOrder, c.kind ≠ .block := by
    decide +kernel
  refine ⟨⟨⟨_, _, rfl⟩, ⟨_, _, rfl⟩, rfl, by decide +kernel⟩, hclear _ List.mem_cons_self,
    hclear _ (List.mem_cons_of_mem _ List.mem_cons_self), fun s s' hs hkind => ?_⟩
  exact absurd hkind (hblock s (mem_preOrder_iff.mpr hs.within.1))

/-- Comments elsewhere leave the name of the component as it is. -/
theorem harmless_comments_keep_names :
    plain.Recommented harmless ∧ names harmless = some ["a"] := by
  obtain ⟨-, -, hnames, -, -⟩ := resolution_without_comments scene recommented_harmless
  have hplain : names plain = some ["a"] := by decide +kernel
  exact ⟨recommented_harmless, hnames.symm.trans hplain⟩

/-- A comment before the name hides it, and the component is not registered. -/
theorem comment_before_name_hides_it :
    outline plain.text plain.root.node.children =
      outline harmful.text harmful.root.node.children ∧
    names plain = some ["a"] ∧ names harmful = some [] ∧
    ∃ c c', Twin plain harmful c c' ∧
      (string? plain c scene (.start origin)).1 = some "a" ∧
      (string? harmful c' scene (.start origin)).1 = none := by
  have htwin : ∀ p ∈ plain.root.parts.zip harmful.root.parts, ∀ q ∈ p.1.parts.zip p.2.parts,
      ∀ r ∈ q.1.parts.zip q.2.parts, ∀ s ∈ r.1.parts.zip r.2.parts,
      Twin plain harmful s.1 s.2 := fun p hp q hq r hr s hs =>
    .part (.part (.part (.part .root hp) hq) hr) hs
  obtain ⟨hsame, hnames, hnames', p, hp, q, hq, r, hr, s, hs, hleft, hright⟩ :
      outline plain.text plain.root.node.children =
        outline harmful.text harmful.root.node.children ∧
      names plain = some ["a"] ∧ names harmful = some [] ∧
      ∃ p ∈ plain.root.parts.zip harmful.root.parts, ∃ q ∈ p.1.parts.zip p.2.parts,
        ∃ r ∈ q.1.parts.zip q.2.parts, ∃ s ∈ r.1.parts.zip r.2.parts,
          (string? plain s.1 scene (.start origin)).1 = some "a" ∧
          (string? harmful s.2 scene (.start origin)).1 = none := by
    decide +kernel
  exact ⟨hsame, hnames, hnames', s.1, s.2, htwin p hp q hq r hr s hs, hleft, hright⟩

end NgIndex
