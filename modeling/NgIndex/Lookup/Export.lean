import NgIndex.Script.Module

/-!
# What a module exports under a name

An export statement either has nothing to do with a name, or says where to look for what is exported
under it.  Some statements settle the question: whatever is found there, or not found, is the
answer.  After the others the search goes on if nothing is found.
-/

namespace NgIndex
namespace Script

/-- The name of what a module gives away without a name. -/
def defaultName : String :=
  "default"

/-- Where an export statement says to look for a name. -/
inductive Offer where
  /-- Nowhere; the statement exports other names. -/
  | nothing
  /-- At a declaration of this module. -/
  | declared (site : Cursor) (settles : Bool)
  /-- At the value of a variable that is declared by the statement. -/
  | declarator (site : Cursor)
  /-- At a value; none if the statement gives none. -/
  | value (site : Option Cursor)
  /-- At what a name of this module stands for. -/
  | ownName (name : String)
  /-- At what another module exports under a name. -/
  | passed (source name : String)
  /-- At what another module exports under the same name, if it does. -/
  | everything (source : String)

/-- Whether the search for a name ends at a statement even if nothing is found there. -/
def Offer.settles : Offer → Bool
  | .nothing => false
  | .declared _ settles => settles
  | .declarator _ => false
  | .value _ => true
  | .ownName _ => true
  | .passed _ _ => true
  | .everything _ => false

namespace Module

/-- Whether a keyword or sign is among the direct parts of a node. -/
def hasToken (m : Module) (c : Cursor) (text : String) : Bool :=
  c.children.any fun child => child.kind == .token && m.textAt child == text

/-- The name that is exported under another, in a list of exports. -/
def specifierTarget? (m : Module) (clause : Cursor) (name : String) : Option String :=
  clause.named.findSome? fun specifier => do
    guard (specifier.kind == .exportSpecifier)
    let target ← specifier.child? .name
    let exported := (specifier.child? .newName).getD target
    guard ((m.literalAt? exported).getD (m.textAt exported) == name)
    return m.textAt target

/-- What an exported declaration offers under a name. -/
def declarationOffer (m : Module) (declaration : Cursor) (name : String) : Offer :=
  if declaration.kind == .lexicalDeclaration || declaration.kind == .varDeclaration then
    let isOf (declarator : Cursor) : Bool :=
      declarator.kind == .declarator &&
        (declarator.child? .name).any fun declared => m.textAt declared == name
    match declaration.named.find? isOf with
    | some declarator => .declarator declarator
    | none => .nothing
  else
    match declaration.child? .name with
    | some declared =>
        if m.textAt declared == name then .declared declaration false else .nothing
    | none => .nothing

/-- What a list of exports, or an export of all names of another module, offers under a name. -/
def listOffer (m : Module) (statement : Cursor) (name : String) : Offer :=
  let source := (statement.child? .source).bind m.literalAt?
  match statement.named.find? fun child => child.kind == .exportClause with
  | some clause =>
      match m.specifierTarget? clause name, source with
      | none, _ => .nothing
      | some target, some source => .passed source target
      | some target, none => .ownName target
  | none =>
      match source with
      | some source => if name == defaultName then .nothing else .everything source
      | none => .nothing

/-- What an export statement offers under a name. -/
def offer (m : Module) (name : String) (statement : Cursor) : Offer :=
  let isDefault := m.hasToken statement "default" || m.hasToken statement "="
  match statement.child? .declaration with
  | some declaration =>
      if !isDefault then m.declarationOffer declaration name
      else if name == defaultName then .declared declaration true
      else .nothing
  | none =>
      if !isDefault then m.listOffer statement name
      else if name != defaultName then .nothing
      else .value (match statement.child? .value with
        | some value => some value
        | none => statement.items.head?)

/-- The export statements of a module. -/
def exports (m : Module) : List Cursor :=
  m.root.named.filter fun statement => statement.kind == .exportStatement

end Module
end Script
end NgIndex
