import SchemaMigration.History.Basic
import SchemaMigration.Limit
import SchemaMigration.Migration.Catalog
/-! # Plans

A plan is made by comparing the scripts of a directory with the migrations that have been
applied. It says which scripts run and in which order: those that revert first, then those
that apply. Every script that a plan needs is found before the plan is made. -/
namespace SchemaMigration

/-- What a plan is for. -/
inductive Aim where
  | apply
  | revert
  | redo
  deriving DecidableEq, Repr

/-- The word that an operator is asked with. -/
def Aim.title : Aim → String
  | .apply => "Apply"
  | .revert => "Revert"
  | .redo => "Redo"

/-- The scripts of a run. -/
structure Plan where
  aim : Aim
  /-- The scripts that revert; they run first. -/
  downs : List MigrationFile
  /-- The scripts that apply. -/
  ups : List MigrationFile
  deriving DecidableEq, Repr

namespace Plan

/-- The scripts in the order in which they run. -/
def steps (p : Plan) : List MigrationFile := p.downs ++ p.ups

/-- Whether nothing is to be done. -/
def isEmpty (p : Plan) : Bool := p.downs.isEmpty && p.ups.isEmpty

/-- What the operator is asked before a plan is carried out. -/
def question (p : Plan) : String :=
  let lines := p.downs.map (fun f => "  - " ++ f.version)
    ++ p.ups.map (fun f => "  + " ++ f.version)
  s!"{p.aim.title} {max p.ups.length p.downs.length} migration(s):\n" ++ "\n".intercalate lines
    ++ "\nContinue?"

/-- The scripts of the versions that have not been applied, ascending. -/
def pending (c : Catalog) (applied : List Applied) : List MigrationFile :=
  c.ups.filter fun f => !applied.any fun a => a.version == f.version

/-- The script of a version. -/
def script (c : Catalog) (direction : Direction) (a : Applied) :
    Except Failure MigrationFile :=
  match c.get? a.version direction with
  | some f => .ok f
  | none => .error (.migrationNotFound a.version)

/-- The scripts of migrations, in their order. -/
def scripts (c : Catalog) (direction : Direction) (applied : List Applied) :
    Except Failure (List MigrationFile) :=
  applied.mapM (script c direction)

/-- Applies what is pending, up to a limit. -/
def forward (c : Catalog) (applied : List Applied) (limit : Limit) : Plan :=
  ⟨.apply, [], limit.truncate (pending c applied)⟩

/-- Reverts migrations in their order. -/
def back (c : Catalog) (applied : List Applied) : Except Failure Plan := do
  return ⟨.revert, ← scripts c .down applied, []⟩

/-- Reverts migrations in their order and applies them again in the opposite order. -/
def again (c : Catalog) (applied : List Applied) : Except Failure Plan := do
  let downs ← scripts c .down applied
  let ups ← scripts c .up applied.reverse
  return ⟨.redo, downs, ups⟩

/-- Moves to a version. One that has been applied is reached by reverting what was applied
after it, and another one by applying what is pending up to it. -/
def moveTo (c : Catalog) (applied : List Applied) (version : String) : Except Failure Plan :=
  if applied.any fun a => a.version == version then
    back c (applied.takeWhile fun a => a.version != version)
  else if (c.get? version .up).isNone then .error (.migrationNotFound version)
  else .ok ⟨.apply, [], (pending c applied).filter fun f => !(version < f.version)⟩

end Plan

end SchemaMigration
