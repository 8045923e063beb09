import NgIndex.Path
import NgIndex.Regex
import NgIndex.Span

/-!
# Controllers

A controller is a class or a function that holds the state of a view.  Classes inherit members
from base classes, which are named in the declaration and found only when all controllers of a
project are known.  A controller together with the base classes that were found is a linked
controller; its bases stand nearest first.
-/

namespace NgIndex

/-- The type of what has no type annotation. -/
def anyType : String := "any"

/-- A parameter of a method. -/
structure Parameter where
  name : String
  type : String
  deriving DecidableEq, Repr, Inhabited

/-- Whether a member is read or called. -/
inductive MemberForm where
  | property
  | method (parameters : List Parameter)
  deriving DecidableEq, Repr, Inhabited

/-- A member of a controller. -/
structure Member where
  name : String
  returnType : String
  isPublic : Bool
  span : Span
  form : MemberForm
  deriving DecidableEq, Repr, Inhabited

/-- Whether a member is a method. -/
def Member.isMethod (member : Member) : Bool :=
  match member.form with
  | .property => false
  | .method _ => true

/-- A controller.  Its name is the one under which it is registered, or the name of the class if it
is not. -/
structure Controller where
  name : String
  className : String
  path : Path
  span : Span
  baseClassName : Option String := none
  members : List Member := []
  deriving DecidableEq, Repr, Inhabited

/-- A controller with its base classes, nearest first. -/
structure LinkedController where
  controller : Controller
  bases : List Controller := []
  deriving DecidableEq, Repr, Inhabited

namespace LinkedController

/-- Whether the class or one of its bases has the given name. -/
def isInstanceOf (linked : LinkedController) (className : String) : Bool :=
  (linked.controller :: linked.bases).any fun c => c.className == className

/-- The number of base classes that members are inherited from. -/
def inheritanceLimit : Nat := 33

/-- Members followed by one more, unless its name is taken. -/
def addMember (members : List Member) (member : Member) : List Member :=
  if members.any fun m => m.name == member.name then members else members ++ [member]

/-- The own members and those inherited from the nearest bases.  A name that a nearer class defines
hides the same name of a farther one. -/
def allMembers (linked : LinkedController) : List Member :=
  ((linked.bases.take inheritanceLimit).flatMap fun base => base.members).foldl addMember
    linked.controller.members

end LinkedController

/-- The linked controllers found so far, by class name; the first one of a class is kept. -/
abbrev LinkMemo := List (String × LinkedController)

namespace Controller

/-- Whether two controllers have the same registered name and path. -/
def sameEntry (a b : Controller) : Bool :=
  a.name == b.name && a.path.components == b.path.components

/-- The controller of a class name; of several, the last one. -/
def lastOfClass? (controllers : List Controller) (className : String) : Option Controller :=
  controllers.reverse.find? fun c => c.className == className

/-- A memo that also holds the given result, unless the class is known already. -/
def remember (memo : LinkMemo) (linked : LinkedController) : LinkMemo :=
  if memo.any fun entry => entry.1 == linked.controller.className then memo
  else memo ++ [(linked.controller.className, linked)]

/-- The result for a controller that was linked before. -/
def remembered? (memo : LinkMemo) (controller : Controller) : Option LinkedController :=
  match memo.find? fun entry => entry.1 == controller.className with
  | some (_, linked) => if linked.controller.sameEntry controller then some linked else none
  | none => none

/-- Links one controller.  `visiting` holds the names of the classes that are being linked; a base
among them is left out, which ends a cycle.  `fuel` bounds the length of the chain. -/
def linkOne (controllers : List Controller) :
    Nat → List String → LinkMemo → Controller → LinkedController × LinkMemo
  | 0, _, memo, controller => (⟨controller, []⟩, memo)
  | fuel + 1, visiting, memo, controller =>
      match remembered? memo controller with
      | some linked => (linked, memo)
      | none =>
          let visiting := controller.className :: visiting
          let base? := (controller.baseClassName.filter fun name => !visiting.contains name).bind
            (lastOfClass? controllers)
          let (bases, memo) :=
            match base? with
            | none => ([], memo)
            | some base =>
                let (linked, memo) := linkOne controllers fuel visiting memo base
                (linked.controller :: linked.bases, memo)
          let result : LinkedController := ⟨controller, bases⟩
          (result, remember memo result)

/-- Links controllers one after another. -/
def linkAll (controllers : List Controller) :
    LinkMemo → List Controller → List LinkedController
  | _, [] => []
  | memo, controller :: rest =>
      let (linked, memo) := linkOne controllers (controllers.length + 1) [] memo controller
      linked :: linkAll controllers memo rest

/-- Finds the base classes of every controller of a list among the controllers of the list. -/
def link (controllers : List Controller) : List LinkedController :=
  linkAll controllers [] controllers

end Controller

/-- The controllers that references are resolved against. -/
structure ControllerSet where
  controllers : List LinkedController := []
  deriving DecidableEq, Repr, Inhabited

namespace ControllerSet

/-- The first controller registered under a name. -/
def byName? (set : ControllerSet) (name : String) : Option LinkedController :=
  set.controllers.find? fun linked => linked.controller.name == name

/-- The first controller of a class name. -/
def byClassName? (set : ControllerSet) (className : String) : Option LinkedController :=
  set.controllers.find? fun linked => linked.controller.className == className

end ControllerSet

/-- Which members of a controller are shown. -/
structure MemberFilter where
  publicOnly : Bool := false
  excluded : Option Regex := none

namespace MemberFilter

/-- Whether a member is shown. -/
def shows (filter : MemberFilter) (member : Member) : Bool :=
  (!filter.publicOnly || member.isPublic) &&
    !(filter.excluded.any fun regex => regex.isMatch member.name)

/-- The members of a controller that are shown, inherited ones included. -/
def visibleMembers (filter : MemberFilter) (linked : LinkedController) : List Member :=
  linked.allMembers.filter filter.shows

end MemberFilter
end NgIndex
