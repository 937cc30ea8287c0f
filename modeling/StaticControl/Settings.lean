/-
  Settings of reading and printing, and the default precision.

  The environment may name a default precision.  A `Defaults` settles the default
  once: an explicit choice, else the environment, else 64 bits; as soon as a
  relation is built from it, it cannot change any more.  It also hands out
  identifiers, each one once.
-/
import StaticControl.Precision.Selection
import StaticControl.Relation.Basic

set_option autoImplicit false

namespace StaticControl

/-! ## Settings -/

/-- How texts are read and printed. -/
structure Settings where
  /-- the precision of relations that are read, if not the default -/
  precision : Option Precision
  /-- whether rows are printed with their affine expression -/
  comments : Bool
  /-- the number of parameters that short headers outside a program assume -/
  legacyParameters : Option Nat
  deriving DecidableEq, Repr

namespace Settings

/-- The default precision, comments, and no assumption about parameters. -/
def standard : Settings := ⟨none, true, none⟩

instance : Inhabited Settings := ⟨standard⟩

/-- The settings with a precision. -/
def withPrecision (s : Settings) (p : Precision) : Settings := { s with precision := some p }

/-- The standard settings, with the precision that the environment names.  A
value of blanks names none. -/
def ofEnvironment (value : Option Text) : Except ConfigFault Settings :=
  match value with
  | none => .ok standard
  | some t =>
    if Text.isBlankLine t then .ok standard
    else do return standard.withPrecision (← Precision.select t)

end Settings

/-! ## Default precision -/

/-- What is settled about the default precision, and the next identifier. -/
structure Defaults where
  precision : Option Precision
  frozen : Bool
  nextId : Nat
  deriving DecidableEq, Repr, Inhabited

namespace Defaults

/-- Nothing is settled. -/
def initial : Defaults := ⟨none, false, 0⟩

/-- An explicit default precision, which may still change. -/
def ofPrecision (p : Precision) : Defaults := ⟨some p, false, 0⟩

/-- Another default precision, unless relations depend on the present one. -/
def setPrecision (d : Defaults) (p : Precision) : Except ConfigFault Defaults :=
  if d.frozen = true ∧ d.precision ≠ some p then .error (.frozen (d.precision.getD .double))
  else .ok { d with precision := some p }

/-- The default precision that an environment settles if nothing else does. -/
def settle (d : Defaults) (environment : Option Text) : Except ConfigFault Precision :=
  match d.precision with
  | some p => .ok p
  | none => do return (← Settings.ofEnvironment environment).precision.getD .double

/-- The default precision, which is settled from now on. -/
def resolve (d : Defaults) (environment : Option Text) : Except ConfigFault (Precision × Defaults) := do
  let p ← d.settle environment
  return (p, { d with precision := some p, frozen := true })

/-- A fresh identifier. -/
def takeId (d : Defaults) : Nat × Defaults := (d.nextId, { d with nextId := d.nextId + 1 })

/-- A relation of zeros at the default precision, with a fresh identifier. -/
def relation (d : Defaults) (environment : Option Text) (kind : RelationKind) (rows : Nat)
    (layout : Layout) : Except ConfigFault ((Nat × Relation) × Defaults) := do
  let (p, d) ← d.resolve environment
  let (id, d) := d.takeId
  return ((id, .blank kind p rows layout), d)

end Defaults

end StaticControl
