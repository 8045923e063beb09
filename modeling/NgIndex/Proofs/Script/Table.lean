import NgIndex.Proofs.Overwriting
import NgIndex.Script.Table

/-!
# What a table holds

The table of an object or a class is written name by name: the properties of an object in order, the
fields of a class that have a value, and after them what the statements of its constructor assign to
`this`.  A later write to a name takes the place of the earlier one.
-/

namespace NgIndex
namespace Script
namespace Table

theorem written_set (name : String) (value : Cursor) (entries : List (String × Cursor)) :
    Written Prod.fst (name, value) entries (set name value entries) := by
  refine written_of_search (set name value) rfl ?_ ?_ entries
  · rintro ⟨other, old⟩ rest rfl
    rw [set, if_pos (beq_self_eq_true other)]
  · rintro ⟨other, old⟩ rest hother
    rw [set, if_neg (by simpa using hother)]

/-- A table that holds what has been written to each name last, in the order in which the names
first appear. -/
structure LastWritten (writes : List (String × Cursor)) (table : Table) : Prop where
  entries : Overwritten Prod.fst writes table.entries
  get?_eq_some_iff : ∀ name value,
    table.get? name = some value ↔ IsLastWrite Prod.fst writes (name, value)
  get?_eq_none_iff : ∀ name, table.get? name = none ↔ name ∉ writes.map Prod.fst

theorem lastWritten_ofWrites (origin : Cursor) (writes : List (String × Cursor)) :
    LastWritten writes (ofWrites origin writes) := by
  have hentries : Overwritten Prod.fst writes (ofWrites origin writes).entries :=
    overwritten_foldl (fun entries (name, value) => written_set name value entries) writes
  refine ⟨hentries, fun name value => ?_, fun name => ?_⟩
  · rw [get?, Option.map_eq_some_iff]
    constructor
    · rintro ⟨⟨_, _⟩, hfind, rfl⟩
      obtain ⟨rfl, hlast⟩ := hentries.find?_eq_some_iff.mp hfind
      exact hlast
    · exact fun hlast => ⟨(name, value), hentries.find?_eq_some_iff.mpr ⟨rfl, hlast⟩, rfl⟩
  · rw [get?, Option.map_eq_none_iff]
    exact hentries.find?_eq_none_iff

/-! ### Constructors -/

/-- A method that is named as a constructor is. -/
def IsConstructor (m : Module) (member : Cursor) : Prop :=
  member.kind = .method ∧ ∃ name, member.child? .name = some name ∧ m.textAt name = "constructor"

/-- The statements directly in the first constructor in the body of a class. -/
inductive ConstructorStatements (m : Module) (body : Cursor) : List Cursor → Prop
  | none : (∀ member ∈ body.named, ¬ IsConstructor m member) → ConstructorStatements m body []
  | first (front : List Cursor) (constructor : Cursor) (back : List Cursor) :
      body.named = front ++ constructor :: back →
      (∀ member ∈ front, ¬ IsConstructor m member) → IsConstructor m constructor →
      ConstructorStatements m body ((constructor.child? .body).toList.flatMap Cursor.named)

theorem constructorStatements_constructorBody? (m : Module) (body : Cursor) :
    ConstructorStatements m body ((constructorBody? m body).toList.flatMap Cursor.named) := by
  have hconstructor : ∀ member : Cursor,
      (member.kind == .method && (member.child? .name).any fun name =>
        m.textAt name == "constructor") = true ↔ IsConstructor m member := by
    intro member
    simp [IsConstructor, Option.any_eq_true]
  rw [constructorBody?]
  cases hfind : body.named.find? _ with
  | none =>
      rw [List.find?_eq_none] at hfind
      exact .none fun member hmember => (hconstructor member).not.mp (hfind member hmember)
  | some first =>
      obtain ⟨hfirst, front, back, hnamed, hfront⟩ := List.find?_eq_some_iff_append.mp hfind
      refine .first front first back hnamed (fun member hmember => ?_)
        ((hconstructor first).mp hfirst)
      rw [← hconstructor, Bool.not_eq_true, ← Bool.not_eq_true']
      exact hfront member hmember

end Table

open Table

/-- **Tables hold the last write of each name, where the name is first seen.**  The writes of an
object are its properties in order; those of a class are the fields with a value in order, and after
them the assignments to `this` directly in its first constructor.  The names in the table differ, are
those that are written to, stand in the order of their first writes and have the values of their last
ones; looking up a name gives this value, and nothing if and only if the name is not written to. -/
theorem tables_hold_last_writes (m : Module) :
    (∀ object, LastWritten (object.named.filterMap (propertyWrite? m)) (ofObject m object)) ∧
    ∀ owner,
      (owner.child? .body = none → (ofClass m owner).entries = []) ∧
      ∀ body, owner.child? .body = some body →
        ∃ statements, ConstructorStatements m body statements ∧
          LastWritten (body.named.filterMap (fieldWrite? m) ++ statements.filterMap (thisWrite? m))
            (ofClass m owner) := by
  refine ⟨fun object => lastWritten_ofWrites object _, fun owner => ⟨fun hbody => ?_, ?_⟩⟩
  · rw [ofClass, hbody]
    rfl
  · intro body hbody
    refine ⟨_, constructorStatements_constructorBody? m body, ?_⟩
    rw [ofClass, hbody, Option.toList_some, List.flatMap_singleton]
    exact lastWritten_ofWrites owner (classWrites m body)

namespace Overridden

def script : Module :=
  .ofText ⟨"/a.ts"⟩ ("class A \x7b template = 'declared'; restrict = 'E'; " ++
    "constructor() \x7b this.template = 'assigned'; this.scope = 1; f.template = 2 \x7d \x7d")

/-- The class. -/
def owner : Cursor :=
  (script.root.preOrder.find? fun c => c.node.isClass).getD script.root

end Overridden

/-- A field that the constructor assigns to keeps its place. -/
theorem overridden_table_holds_last_writes :
    (∃ body statements, Overridden.owner.child? .body = some body ∧
      ConstructorStatements Overridden.script body statements ∧
      LastWritten (body.named.filterMap (fieldWrite? Overridden.script) ++
        statements.filterMap (thisWrite? Overridden.script))
          (ofClass Overridden.script Overridden.owner)) ∧
    ((ofClass Overridden.script Overridden.owner).entries.map fun (name, value) =>
        (name, Overridden.script.textAt value)) =
      [("template", "'assigned'"), ("restrict", "'E'"), ("scope", "1")] := by
  have hentries : (Overridden.owner.child? .body).isSome = true ∧
      ((ofClass Overridden.script Overridden.owner).entries.map fun (name, value) =>
        (name, Overridden.script.textAt value)) =
          [("template", "'assigned'"), ("restrict", "'E'"), ("scope", "1")] := by
    decide +kernel
  obtain ⟨body, hbody⟩ := Option.isSome_iff_exists.mp hentries.1
  obtain ⟨statements, hstatements, htable⟩ :=
    ((tables_hold_last_writes Overridden.script).2 Overridden.owner).2 body hbody
  exact ⟨⟨body, statements, hbody, hstatements, htable⟩, hentries.2⟩

end Script
end NgIndex
