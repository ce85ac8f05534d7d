import SchemaMigration.Migration.Source
import SchemaMigration.Plan
import SchemaMigration.Text.Blank
/-! # The migrator

A migrator carries out plans: it runs the statements of each script and records the
migration after its last statement. A failure ends the run; what has been done stays, and
the failure says how much that is. -/
namespace SchemaMigration

/-- Who is told of the statements that run. -/
inductive Level where
  | info
  | debug
  deriving DecidableEq, Repr

/-- What a run did. -/
structure Summary where
  /-- The versions reverted, in order. -/
  reverted : List String
  /-- The versions applied, in order. -/
  applied : List String
  /-- Whether the operator said no. -/
  declined : Bool
  deriving DecidableEq, Repr

namespace Summary

/-- A run that did nothing. -/
def empty : Summary := ⟨[], [], false⟩

/-- Whether nothing ran. -/
def isEmpty (s : Summary) : Bool := s.reverted.isEmpty && s.applied.isEmpty

/-- Adds a script that has run. -/
def add (s : Summary) (f : MigrationFile) : Summary :=
  match f.direction with
  | .up => { s with applied := s.applied ++ [f.version] }
  | .down => { s with reverted := s.reverted ++ [f.version] }

end Summary

/-- What migrations are run with. -/
structure Migrator (σ : Type) where
  history : History σ
  /-- The directory of the scripts. -/
  directory : String
  /-- Whether only the most talkative level is told of statements. -/
  compact : Bool
  /-- Asks the operator, if there is one to ask. -/
  prompter : Option (String → Action σ Bool)
  /-- Tells of a statement that is about to run. -/
  journal : Level → String → Action σ Unit

namespace Migrator

variable {σ : Type}

/-- Makes the history table unless it exists. -/
def ensureTable (m : Migrator σ) (ctx : Context σ) : Action σ Unit := do
  unless ← m.history.isCreated ctx do
    m.history.create ctx

/-- The applied migrations, none when there is no table. -/
def applied (m : Migrator σ) (ctx : Context σ) (limit : Limit) : Action σ (List Applied) := do
  if ← m.history.isCreated ctx then m.history.list ctx limit.toNumber else return []

/-- Runs a statement of a script. -/
def runStatement (m : Migrator σ) (ctx : Context σ) (statement : String) : Action σ Unit := do
  m.journal (if m.compact then .debug else .info) (Text.squeezed statement)
  m.history.exec ctx statement []

/-- Runs the statements of a script, in one transaction when it is safe. -/
def runScript (m : Migrator σ) (ctx : Context σ) (safely : Bool) (statements : List String) :
    Action σ Unit :=
  if safely || m.history.alwaysSafe then
    m.history.transaction ctx fun inner => statements.forM (m.runStatement inner)
  else statements.forM (m.runStatement ctx)

/-- Notes in the history that a script has run. -/
def note (m : Migrator σ) (ctx : Context σ) (direction : Direction) (version : String) :
    Action σ Unit :=
  match direction with
  | .up => m.history.insert ctx version
  | .down => m.history.remove ctx version

/-- Runs a script and records it. -/
def execute (m : Migrator σ) (files : Files) (ctx : Context σ) (f : MigrationFile) :
    Action σ Unit := do
  let statements ← .ofExcept (f.statements files)
  m.runScript ctx f.safely statements
  m.note ctx f.direction f.version

/-- Runs the scripts that are left of a plan; so many have run before. -/
def proceed (m : Migrator σ) (files : Files) (ctx : Context σ) (total : Nat) :
    Nat → Summary → List MigrationFile → Action σ Summary
  | _, summary, [] => return summary
  | done, summary, f :: rest => do
    Action.mapFailure (.migrationFailed f.version done total) (m.execute files ctx f)
    m.proceed files ctx total (done + 1) (summary.add f) rest

/-- Asks whether a plan may be carried out; without an operator it may. -/
def confirm (m : Migrator σ) (p : Plan) : Action σ Bool :=
  match m.prompter with
  | some ask => ask p.question
  | none => return true

/-- Carries out a plan, if there is anything to do and the operator agrees. -/
def run (m : Migrator σ) (files : Files) (ctx : Context σ) (p : Plan) : Action σ Summary := do
  if p.isEmpty then return .empty
  if ← m.confirm p then
    m.proceed files ctx p.steps.length 0 .empty p.steps
  else return { Summary.empty with declined := true }

/-- All applied migrations, from a table that is made unless it exists. -/
def allApplied (m : Migrator σ) (ctx : Context σ) : Action σ (List Applied) := do
  m.ensureTable ctx
  m.history.list ctx 0

/-- The plan to apply pending migrations, ascending. -/
def planUp (m : Migrator σ) (files : Files) (ctx : Context σ) (limit : Limit) :
    Action σ Plan := do
  let applied ← m.allApplied ctx
  let catalog ← .ofExcept (files.catalog m.directory)
  return Plan.forward catalog applied limit

/-- The plan to revert the migrations applied last. -/
def planDown (m : Migrator σ) (files : Files) (ctx : Context σ) (limit : Limit) :
    Action σ Plan := do
  let applied ← m.applied ctx limit
  if applied.isEmpty then return ⟨.revert, [], []⟩
  let catalog ← .ofExcept (files.catalog m.directory)
  .ofExcept (Plan.back catalog applied)

/-- The plan to revert the migrations applied last and to apply them again. -/
def planRedo (m : Migrator σ) (files : Files) (ctx : Context σ) (limit : Limit) :
    Action σ Plan := do
  let applied ← m.applied ctx limit
  if applied.isEmpty then return ⟨.redo, [], []⟩
  let catalog ← .ofExcept (files.catalog m.directory)
  .ofExcept (Plan.again catalog applied)

/-- The plan to move the schema to a version. -/
def planMove (m : Migrator σ) (files : Files) (ctx : Context σ) (version : String) :
    Action σ Plan := do
  .ofExcept (Version.validate version)
  let applied ← m.allApplied ctx
  let catalog ← .ofExcept (files.catalog m.directory)
  .ofExcept (Plan.moveTo catalog applied version)

/-- Applies pending migrations, ascending. -/
def up (m : Migrator σ) (files : Files) (ctx : Context σ) (limit : Limit) :
    Action σ Summary := do
  m.run files ctx (← m.planUp files ctx limit)

/-- Reverts the migrations applied last. -/
def down (m : Migrator σ) (files : Files) (ctx : Context σ) (limit : Limit) :
    Action σ Summary := do
  m.run files ctx (← m.planDown files ctx limit)

/-- Reverts the migrations applied last and applies them again. -/
def redo (m : Migrator σ) (files : Files) (ctx : Context σ) (limit : Limit) :
    Action σ Summary := do
  m.run files ctx (← m.planRedo files ctx limit)

/-- Moves the schema to a version. -/
def moveTo (m : Migrator σ) (files : Files) (ctx : Context σ) (version : String) :
    Action σ Summary := do
  m.run files ctx (← m.planMove files ctx version)

/-- The scripts that have not been applied, ascending. -/
def pending (m : Migrator σ) (files : Files) (ctx : Context σ) (limit : Limit) :
    Action σ (List MigrationFile) := do
  let applied ← m.applied ctx .all
  let catalog ← .ofExcept (files.catalog m.directory)
  return limit.truncate (Plan.pending catalog applied)

/-- Applies a script that is given as a text, and records it. -/
def upgrade (m : Migrator σ) (ctx : Context σ) (version script : String) (safely : Bool) :
    Action σ Unit := do
  if ← m.history.contains ctx version then throw (.migrationAlreadyExists version)
  let statements ← .ofExcept (Script.statements script)
  m.runScript ctx safely statements
  m.history.insert ctx version

/-- Reverts a migration with a script that is given as a text, and forgets it. -/
def downgrade (m : Migrator σ) (ctx : Context σ) (version script : String) (safely : Bool) :
    Action σ Unit := do
  unless ← m.history.contains ctx version do throw (.appliedMigrationNotFound version)
  let statements ← .ofExcept (Script.statements script)
  m.runScript ctx safely statements
  m.history.remove ctx version

end Migrator

end SchemaMigration
