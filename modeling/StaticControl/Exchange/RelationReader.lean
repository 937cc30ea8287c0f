/-
  Reading relations.

  A disjunction is the keyword of its kind, the number of its parts if there is
  more than one, and the parts.  A part is a header, the rows of its matrix, and
  its extensions after the keyword `EXTENSIONS` if it has any.  The tags of a
  scattering relation are inferred as soon as its rows are known.
-/
import StaticControl.Disjunction
import StaticControl.Exchange.Block
import StaticControl.Exchange.Header
import StaticControl.Exchange.Matrix
import StaticControl.Relation.Classify

set_option autoImplicit false

namespace StaticControl

/-- The keyword in front of the extensions of a relation. -/
def extensionsKeyword : Text := "EXTENSIONS"

namespace Reader

/-- The header on the next content line. -/
def readHeader (kind : RelationKind) : Read Header := do
  let line ← expectLine "relation header"
  match Header.ofTokens kind (← get).hint line.tokens with
  | .ok header =>
    if line.tokens.length = 2 then note (.shortHeader line kind ⟨header.rows, header.layout⟩)
    return header
  | .error cause => failAt cause line

/-- The extensions of a relation, if its keyword comes next. -/
def readRelationExtensions : Read Extensions := do
  match ← peek with
  | none => return []
  | some line =>
    if line.keyword = extensionsKeyword then
      let _ ← next
      readCounted "number of relation extensions"
    else return []

/-- The relation of a header and its rows, with the tags of its kind. -/
def assemble (kind : RelationKind) (p : Precision) (header : Header) (rows : List Row) : Relation :=
  let r : Relation := { Relation.blank kind p 0 header.layout with rows := rows }
  if kind = .scattering then r.inferTags else r

/-- One part of a disjunction. -/
def readPart (kind : RelationKind) : Read Relation := do
  let header ← readHeader kind
  let rows ← readRows header.layout.columns header.rows
  let p := (← get).precision
  let extensions ← readRelationExtensions
  let r := assemble kind p header rows
  note (.relation kind r.extent)
  return { r with extensions := extensions }

/-- The number of parts, which is 1 if it is not given. -/
def readPartCount (kind : RelationKind) : Read Nat := do
  match ← peek with
  | none => return 1
  | some line =>
    match line.singleInteger? with
    | none => return 1
    | some n =>
      if n < 1 then failAt (.noParts kind) line
      else
        let _ ← next
        return n.toNat

/-- The given number of parts of `total`, after those that were read. -/
def readParts (kind : RelationKind) (total : Nat) : Nat → Disjunction → Read Disjunction
  | 0, d => return d
  | left + 1, d => do
    setPosition (some ⟨total - (left + 1), total⟩)
    let part ← readPart kind
    readParts kind total left (← ofChecked (d.push part))

/-- The kind whose keyword is on the next content line. -/
def readKind : Read RelationKind := do
  let line ← expectLine "relation type"
  match RelationKind.ofKeyword? line.keyword with
  | some kind => return kind
  | none => failAt .unknownKind line

/-- The next disjunction. -/
def readDisjunction : Read Disjunction := do
  setPosition none
  let kind ← readKind
  let total ← readPartCount kind
  let d ← readParts kind total total .empty
  setPosition none
  return d

end Reader

end StaticControl
