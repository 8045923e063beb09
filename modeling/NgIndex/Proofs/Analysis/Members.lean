import NgIndex.Proofs.Analysis.Registrations
import NgIndex.Proofs.Entity.Members
import NgIndex.Proofs.Overwriting
import NgIndex.Proofs.Script.Outline

/-!
# Members of classes and functions

A class declares members part by part.  Of several members of one name the first is kept, except that
a parameter of the constructor is not compared with what is there already.  So the names of the members
differ unless a parameter repeats the name of an earlier declaration.

A function makes members by assigning to `this`, and an assignment takes the place of an earlier one
to the same name, so that these names always differ.
-/

namespace NgIndex

open Script

namespace Analysis

/-! ### Members of classes -/

/-- A member that a class declares. -/
structure MemberDeclaration where
  /-- Whether the member is declared as a parameter of the constructor. -/
  ofParameter : Bool
  member : Member

namespace MemberDeclaration

def name (d : MemberDeclaration) : String :=
  d.member.name

/-- The members so far, and one more unless it has the name of another and is no parameter. -/
def keep (members : List Member) (d : MemberDeclaration) : List Member :=
  if d.ofParameter then members ++ [d.member] else LinkedController.addMember members d.member

end MemberDeclaration

open MemberDeclaration

/-- The members that a part of the body of a class declares. -/
def declaredAt (m : Module) (part : Cursor) : List MemberDeclaration :=
  match part.kind with
  | .method =>
      if isConstructor m part then
        let parameters := (part.child? .parameters).toList.flatMap Cursor.named
        (parameters.filterMap (parameterMember? m)).map (MemberDeclaration.mk true)
      else (methodMember? m part).toList.map (MemberDeclaration.mk false)
  | .methodSignature => (methodMember? m part).toList.map (MemberDeclaration.mk false)
  | .field => (fieldMember? m part).toList.map (MemberDeclaration.mk false)
  | _ => []

/-- The members that a class declares, in the order in which they stand in its body. -/
def memberDeclarations (m : Module) (owner : Cursor) : List MemberDeclaration :=
  (owner.child? .body).toList.flatMap fun body => body.named.flatMap (declaredAt m)

theorem foldl_keep_parameters (members parameters : List Member) :
    (parameters.map (MemberDeclaration.mk true)).foldl keep members = members ++ parameters := by
  induction parameters generalizing members with
  | nil => simp
  | cons member rest ih => rw [List.map_cons, List.foldl_cons, ih, keep, if_pos rfl]; simp

theorem foldl_keep_toList (members : List Member) (member : Option Member) :
    (member.toList.map (MemberDeclaration.mk false)).foldl keep members =
      member.toList.foldl LinkedController.addMember members := by
  cases member <;> rfl

theorem addClassMember_eq_foldl_keep (m : Module) (members : List Member) (part : Cursor) :
    addClassMember m members part = (declaredAt m part).foldl keep members := by
  unfold addClassMember declaredAt
  cases part.kind with
  | method =>
      by_cases hconstructor : isConstructor m part = true
      · simp only [hconstructor, if_true]
        exact (foldl_keep_parameters members _).symm
      · simp only [hconstructor]
        exact (foldl_keep_toList members _).symm
  | methodSignature => exact (foldl_keep_toList members _).symm
  | field => exact (foldl_keep_toList members _).symm
  | _ => rfl

theorem classMembers_eq_foldl_keep (m : Module) (owner : Cursor) :
    (owner.child? .body).elim [] (classMembers m) = (memberDeclarations m owner).foldl keep [] := by
  unfold memberDeclarations
  cases owner.child? .body with
  | none => rfl
  | some body =>
      rw [Option.elim_some, Option.toList_some, List.flatMap_singleton, List.foldl_flatMap,
        classMembers]
      exact congrArg (fun add => body.named.foldl add [])
        (funext₂ (addClassMember_eq_foldl_keep m))

/-- Of the declarations of one name, the members that are kept: the first one, and the later ones
that are parameters. -/
def keptOf : List MemberDeclaration → List Member
  | [] => []
  | first :: later => first.member :: (later.filter ofParameter).map member

theorem keptOf_concat (declared : List MemberDeclaration) (d : MemberDeclaration) :
    keptOf (declared ++ [d]) =
      if declared = [] ∨ d.ofParameter = true then keptOf declared ++ [d.member]
      else keptOf declared := by
  cases declared with
  | nil => rfl
  | cons first later =>
      cases hparameter : d.ofParameter <;> simp [keptOf, hparameter]

/-- Which of the declared members are kept. -/
structure Kept (declared : List MemberDeclaration) (members : List Member) : Prop where
  /-- Members stand in the order of their declarations. -/
  inOrder : members.Sublist (declared.map member)
  ofName : ∀ n, (members.filter fun member => member.name == n) =
    keptOf (declared.filter fun d => d.name == n)
  /-- The names differ if and only if no parameter has the name of an earlier declaration. -/
  distinct_iff : (members.map Member.name).Nodup ↔
    declared.Pairwise fun d later => later.ofParameter = true → d.name ≠ later.name

section Kept

variable {declared : List MemberDeclaration} {members : List Member}

theorem Kept.nil : Kept [] [] :=
  ⟨.slnil, fun _ => rfl, by simp⟩

theorem Kept.mem_names_iff (h : Kept declared members) {n : String} :
    n ∈ members.map Member.name ↔ n ∈ declared.map name := by
  have hmembers : n ∈ members.map Member.name ↔
      (members.filter fun member => member.name == n) ≠ [] := by
    simp [List.filter_eq_nil_iff]
  have hdeclared : n ∈ declared.map name ↔ (declared.filter fun d => d.name == n) ≠ [] := by
    simp [List.filter_eq_nil_iff]
  rw [hmembers, hdeclared, h.ofName]
  cases declared.filter fun d => d.name == n <;> simp [keptOf]

theorem keep_eq (members : List Member) (d : MemberDeclaration) :
    keep members d =
      if d.ofParameter = true ∨ d.name ∉ members.map Member.name then members ++ [d.member]
      else members := by
  cases hparameter : d.ofParameter with
  | true => simp [keep, hparameter]
  | false =>
      by_cases hname : d.name ∈ members.map Member.name
      · rw [if_neg (by simpa using hname), keep, hparameter, if_neg Bool.false_ne_true,
          LinkedController.addMember_of_mem members hname]
      · rw [if_pos (.inr hname), keep, hparameter, if_neg Bool.false_ne_true,
          LinkedController.addMember_of_not_mem members hname]

theorem Kept.filter_eq_nil_iff (h : Kept declared members) {n : String} :
    (declared.filter fun d => d.name == n) = [] ↔ n ∉ members.map Member.name := by
  rw [h.mem_names_iff]
  simp [List.filter_eq_nil_iff]

/-- The declarations of a name, with one more declaration. -/
theorem filter_concat (declared : List MemberDeclaration) (d : MemberDeclaration) (n : String) :
    ((declared ++ [d]).filter fun e => e.name == n) =
      (declared.filter fun e => e.name == n) ++ if d.name == n then [d] else [] := by
  rw [List.filter_append, List.filter_cons, List.filter_nil]

/-- With one more declaration, the parameters still have names of their own if they had them before
and the new one is not a parameter of a name that is kept. -/
theorem Kept.pairwise_concat_iff (h : Kept declared members) (d : MemberDeclaration) :
    ((declared ++ [d]).Pairwise fun d later => later.ofParameter = true → d.name ≠ later.name) ↔
      (members.map Member.name).Nodup ∧
        (d.ofParameter = true → d.name ∉ members.map Member.name) := by
  rw [List.pairwise_append, ← h.distinct_iff, h.mem_names_iff, List.mem_map, not_exists]
  simp only [List.pairwise_singleton, List.mem_singleton, forall_eq, not_and, true_and]
  exact and_congr_right fun _ => ⟨fun h hd e he => h e he hd, fun h e he hd => h hd e he⟩

/-- A parameter, or the first declaration of its name, is kept. -/
theorem Kept.step_of_kept (h : Kept declared members) {d : MemberDeclaration}
    (hkept : d.ofParameter = true ∨ d.name ∉ members.map Member.name) :
    Kept (declared ++ [d]) (members ++ [d.member]) := by
  refine ⟨?_, fun n => ?_, ?_⟩
  · rw [List.map_append]
    exact h.inOrder.append (.refl _)
  · have hlast : ([d.member].filter fun member => member.name == n) =
        if d.name == n then [d.member] else [] := List.filter_cons
    rw [List.filter_append, hlast, filter_concat, h.ofName]
    split
    · next hn =>
        obtain rfl := eq_of_beq hn
        rw [keptOf_concat, if_pos (hkept.symm.imp_left h.filter_eq_nil_iff.mpr)]
    · rw [List.append_nil, List.append_nil]
  · rw [h.pairwise_concat_iff, List.map_append, List.map_singleton, List.nodup_append_comm,
      List.singleton_append, List.nodup_cons]
    constructor
    · exact fun ⟨hnew, hdistinct⟩ => ⟨hdistinct, fun _ => hnew⟩
    · exact fun ⟨hdistinct, hnew⟩ => ⟨hkept.elim hnew id, hdistinct⟩

/-- Any other declaration is dropped. -/
theorem Kept.step_of_dropped (h : Kept declared members) {d : MemberDeclaration}
    (hdropped : ¬ (d.ofParameter = true ∨ d.name ∉ members.map Member.name)) :
    Kept (declared ++ [d]) members := by
  obtain ⟨hparameter, hname⟩ := not_or.mp hdropped
  refine ⟨?_, fun n => ?_, ?_⟩
  · rw [List.map_append]
    exact h.inOrder.trans (List.sublist_append_left _ _)
  · rw [filter_concat, h.ofName]
    split
    · next hn =>
        obtain rfl := eq_of_beq hn
        rw [keptOf_concat, if_neg (not_or.mpr ⟨mt h.filter_eq_nil_iff.mp hname, hparameter⟩)]
    · rw [List.append_nil]
  · rw [h.pairwise_concat_iff]
    exact (and_iff_left fun h => absurd h hparameter).symm

/-- One more declaration is kept if it is a parameter or the first of its name. -/
theorem Kept.step (h : Kept declared members) (d : MemberDeclaration) :
    Kept (declared ++ [d]) (keep members d) := by
  rw [keep_eq]
  split
  · next hkept => exact h.step_of_kept hkept
  · next hdropped => exact h.step_of_dropped hdropped

theorem kept_foldl_keep (declared : List MemberDeclaration) :
    Kept declared (declared.foldl keep []) := by
  induction declared using List.reverseRecOn with
  | nil => exact .nil
  | append_singleton declared d ih =>
      rw [List.foldl_concat]
      exact ih.step d

end Kept

theorem kept_classController? {m : Module} {owner : Cursor} {c : Controller}
    (h : classController? m owner = some c) : Kept (memberDeclarations m owner) c.members := by
  obtain ⟨name, -, hname⟩ := Option.bind_eq_some_iff.mp h
  obtain ⟨-, -, hmade⟩ := Option.bind_eq_some_iff.mp hname
  obtain rfl := Option.some.inj hmade
  exact (classMembers_eq_foldl_keep m owner).symm ▸ kept_foldl_keep (memberDeclarations m owner)

/-! ### Members of functions -/

/-- The members that a function makes by assignments, in the order in which they stand in its
body. -/
def assignedMembers (m : Module) (function : Cursor) : List Member :=
  (function.child? .body).toList.flatMap fun body => body.named.filterMap (assignedMember? m)

theorem written_setMember (members : List Member) (member : Member) :
    Written Member.name member members (setMember member members) := by
  refine written_of_search (setMember member) rfl (fun old rest hold => ?_)
    (fun other rest hother => ?_) members
  · rw [setMember, if_pos (by simpa using hold)]
  · rw [setMember, if_neg (by simpa using hother)]

theorem overwritten_functionController? {m : Module} {function : Cursor} {c : Controller}
    (h : functionController? m function = some c) :
    Overwritten Member.name (assignedMembers m function) c.members := by
  obtain ⟨name, -, hname⟩ := Option.bind_eq_some_iff.mp h
  obtain ⟨-, -, hmade⟩ := Option.bind_eq_some_iff.mp hname
  obtain rfl := Option.some.inj hmade
  change Overwritten _ _ ((function.child? .body).elim [] (functionMembers m))
  unfold assignedMembers
  cases function.child? .body with
  | none => exact .nil
  | some body =>
      rw [Option.elim_some, Option.toList_some, List.flatMap_singleton]
      exact overwritten_foldl written_setMember _

/-! ### Controllers of a script -/

/-- A controller with the members that its declaration gives it. -/
inductive HasDeclaredMembers (m : Module) (c : Controller) : Prop
  | ofClass (owner : Cursor) (declared : Controller) :
      Event.classDeclaration owner ∈ m.events → classController? m owner = some declared →
      declared.Names c → Kept (memberDeclarations m owner) c.members → HasDeclaredMembers m c
  | ofFunction (function : Cursor) (declared : Controller) :
      Event.functionDeclaration function ∈ m.events →
      functionController? m function = some declared → declared.Names c →
      Overwritten Member.name (assignedMembers m function) c.members → HasDeclaredMembers m c

/-- A registration does not change what a controller is declared with. -/
theorem exists_declared_of_mem_foldl_register {declared : List Controller}
    {registrations : List (String × String)} {c : Controller}
    (h : c ∈ registrations.foldl register declared) :
    ∃ original ∈ declared, original.Names c := by
  obtain ⟨renamed, copies, heq, hderived⟩ := derived_foldl declared registrations
  rw [heq] at h
  rcases List.mem_append.mp h with hrenamed | hcopy
  · exact exists_left_of_mem hderived.named hrenamed
  · obtain ⟨original, hfind, hnames⟩ := hderived.copied c hcopy
    exact ⟨original, List.mem_of_find?_eq_some hfind, hnames⟩

end Analysis

open Analysis

/-- **Which members a controller has.**  A controller of a script comes from a class or a function of
the script.  That of a class has, of all members declared under one name, the first one and the later
ones that are parameters of the constructor, in the order of the declarations; so its names differ if
and only if no parameter has the name of an earlier declaration.  That of a function has for each name
that is assigned to `this` the last assignment, in the order of the first ones, and its names always
differ. -/
theorem controllers_have_declared_members (m : Module) (scene : Scene) (session : Session) :
    ∀ c ∈ (controllers m scene session).1, HasDeclaredMembers m c := by
  intro c hc
  obtain ⟨declared, hdeclared, hnames⟩ := exists_declared_of_mem_foldl_register hc
  obtain ⟨event, hevent, hmade⟩ := List.mem_filterMap.mp hdeclared
  have hmembers : c.members = declared.members := by rw [hnames]
  cases event with
  | classDeclaration owner =>
      exact .ofClass owner declared hevent hmade hnames (hmembers ▸ kept_classController? hmade)
  | functionDeclaration function =>
      exact .ofFunction function declared hevent hmade hnames
        (hmembers ▸ overwritten_functionController? hmade)
  | _ => simp at hmade

/-! ### A field and a parameter of one name -/

namespace Repeated

def origin : Path :=
  ⟨"/a.ts"⟩

def scene : Scene where
  root := ⟨"/"⟩
  files := {}

def apart : Module :=
  .ofText origin "class C \x7b get x() \x7b\x7d set x(v) \x7b\x7d constructor(public y) \x7b\x7d \x7d"

def repeated : Module :=
  .ofText origin "class C \x7b static x = 1; constructor(public x) \x7b\x7d \x7d"

/-- The names of the members of each controller. -/
def names (m : Module) : List (List String) :=
  (controllers m scene (.start origin)).1.map fun c => c.members.map Member.name

end Repeated

open Repeated

/-- What reads and what sets a value are one member. -/
theorem accessor_controller_has_declared_members :
    ∃ c ∈ (controllers apart scene (.start origin)).1, c.members.map Member.name = ["x", "y"] ∧
      HasDeclaredMembers apart c := by
  have hnames : names apart = [["x", "y"]] := by decide +kernel
  have hmem : ["x", "y"] ∈ names apart := hnames ▸ List.mem_singleton_self _
  obtain ⟨c, hc, hmembers⟩ := List.mem_map.mp hmem
  exact ⟨c, hc, hmembers, controllers_have_declared_members apart scene (.start origin) c hc⟩

/-- A parameter of the constructor is kept beside the field of its name. -/
theorem parameter_repeats_member :
    names repeated = [["x", "x"]] ∧
      ¬ ∀ c ∈ (controllers repeated scene (.start origin)).1, (c.members.map Member.name).Nodup := by
  have hnames : names repeated = [["x", "x"]] := by decide +kernel
  refine ⟨hnames, fun hall => ?_⟩
  have hmem : ["x", "x"] ∈ names repeated := hnames ▸ List.mem_singleton_self _
  obtain ⟨c, hc, hmembers⟩ := List.mem_map.mp hmem
  have hdistinct := hall c hc
  rw [hmembers] at hdistinct
  exact absurd hdistinct (by decide)

end NgIndex
