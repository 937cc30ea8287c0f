/-
  What a relation of a program describes, and the keyword that introduces it.
-/
import StaticControl.Text.Basic

set_option autoImplicit false

namespace StaticControl

/-- What a relation describes. -/
inductive RelationKind where
  /-- not specified -/
  | undefined
  /-- constraints on the parameters of a program -/
  | context
  /-- the iterations of a statement -/
  | domain
  /-- the schedule of a statement -/
  | scattering
  /-- a read access -/
  | read
  /-- a write access -/
  | write
  /-- a possible write access -/
  | mayWrite
  deriving DecidableEq, Repr, Inhabited

namespace RelationKind

/-- All kinds of relations. -/
def all : List RelationKind :=
  [.undefined, .context, .domain, .scattering, .read, .write, .mayWrite]

/-- The keyword that introduces a relation of the kind. -/
def keyword : RelationKind → String
  | undefined => "UNDEFINED"
  | context => "CONTEXT"
  | domain => "DOMAIN"
  | scattering => "SCATTERING"
  | read => "READ"
  | write => "WRITE"
  | mayWrite => "MAY_WRITE"

/-- The kind that a keyword introduces. -/
def ofKeyword? (t : Text) : Option RelationKind :=
  all.find? fun kind => kind.keyword.toList == t

/-- Whether the relation describes a memory access. -/
def isAccess : RelationKind → Bool
  | read | write | mayWrite => true
  | _ => false

/-- Whether the access may change memory. -/
def isWrite : RelationKind → Bool
  | write | mayWrite => true
  | _ => false

/-- The title of a section that holds relations of the kind. -/
def title : RelationKind → String
  | undefined => "Relation"
  | context => "Context"
  | domain => "Domain"
  | scattering => "Scattering"
  | read | write | mayWrite => "Access"

/-- Keywords tell the kinds apart. -/
theorem ofKeyword?_keyword (kind : RelationKind) :
    ofKeyword? kind.keyword.toList = some kind := by
  cases kind <;> decide

end RelationKind

end StaticControl
