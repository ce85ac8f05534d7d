import SchemaMigration.History.Choice
import SchemaMigration.Number.Reading
import SchemaMigration.Text.Cut
/-! # Parameters of the command line

A parameter is given by an option before the name of the command, or else by a variable of the
environment. Its value is checked where it is given, and one that is given twice is
refused. -/
namespace SchemaMigration.CommandLine

/-- What can be set for a run. -/
inductive Parameter where
  | dsn
  | directory
  | table
  | cluster
  | replicated
  | compact
  | interactive
  | attempts
  | verbose
  deriving DecidableEq, Repr

namespace Parameter

/-- All parameters. -/
def all : List Parameter :=
  [dsn, directory, table, cluster, replicated, compact, interactive, attempts, verbose]

/-- The name that stands after two dashes. -/
def longName : Parameter → String
  | dsn => "dsn"
  | directory => "migrationPath"
  | table => "migrationTable"
  | cluster => "clusterName"
  | replicated => "replicated"
  | compact => "compact"
  | interactive => "interactive"
  | attempts => "maxConnAttempts"
  | verbose => "verbose"

/-- The letter that stands after one dash. -/
def letter? : Parameter → Option Char
  | dsn => some 'd'
  | directory => some 'p'
  | table => some 't'
  | cluster => some 'n'
  | replicated => some 'r'
  | compact => some 'c'
  | interactive => some 'i'
  | attempts => none
  | verbose => some 'v'

/-- The variable of the environment that stands in for the option. -/
def environmentName? : Parameter → Option String
  | dsn => some "DSN"
  | directory => some "MIGRATION_PATH"
  | table => some "MIGRATION_TABLE"
  | cluster => some "MIGRATION_CLUSTER_NAME"
  | replicated => some "MIGRATION_REPLICATED"
  | compact => some "COMPACT"
  | interactive => some "INTERACTIVE"
  | attempts => some "MAX_CONNECTION_ATTEMPTS"
  | verbose => none

/-- Whether the option stands for itself, without a value. -/
def isFlag : Parameter → Bool
  | replicated | compact | interactive | verbose => true
  | dsn | directory | table | cluster | attempts => false

/-- The parameter with a long name. -/
def ofLongName? (name : String) : Option Parameter := all.find? fun p => p.longName == name

/-- The parameter with a letter. -/
def ofLetter? (c : Char) : Option Parameter := all.find? fun p => p.letter? == some c

end Parameter

/-- The words for yes. -/
def yesWords : List String := ["y", "yes", "t", "true", "on", "1"]

/-- The words for no. -/
def noWords : List String := ["n", "no", "f", "false", "off", "0"]

/-- Reads a yes or a no, in any case. -/
def readTruth? (text : String) : Option Bool :=
  if yesWords.contains (Text.lower text) then some true
  else if noWords.contains (Text.lower text) then some false
  else none

/-- Reads a number of attempts, which has 32 bits. -/
def readAttempts? (text : String) : Option Int32 :=
  match Number.readSigned? text.toList with
  | some n =>
    if -(Nat.pow 2 31 : Int) ≤ n ∧ n < Nat.pow 2 31 then some (Int32.ofInt n) else none
  | none => none

/-- Whether a text can be the value of a parameter. -/
def Parameter.accepts (p : Parameter) (text : String) : Bool :=
  match p with
  | .dsn | .table | .cluster => true
  | .directory => !text.isEmpty
  | .attempts => (readAttempts? text).isSome
  | .replicated | .compact | .interactive | .verbose => (readTruth? text).isSome

/-- Why a command line is refused. -/
inductive Misuse where
  | unknownOption (word : String)
  | unknownCommand (word : String)
  | unexpected (word : String)
  | valueMissing (p : Parameter)
  | valueRefused (p : Parameter) (text : String)
  | repeated (p : Parameter)
  | operandMissing (command : String)
  deriving DecidableEq, Repr

/-- The wording of a misuse. -/
def Misuse.message : Misuse → String
  | unknownOption word => "unexpected argument '" ++ word ++ "' found"
  | unknownCommand word => "unrecognized subcommand '" ++ word ++ "'"
  | unexpected word => "unexpected argument '" ++ word ++ "' found"
  | valueMissing p => "a value is required for '--" ++ p.longName ++ "' but none was supplied"
  | valueRefused p text => "invalid value '" ++ text ++ "' for '--" ++ p.longName ++ "'"
  | repeated p => "the argument '--" ++ p.longName ++ "' cannot be used multiple times"
  | operandMissing command => "'" ++ command ++ "' needs an argument"

/-- The values that parameters have been given, each parameter at most once. -/
structure Given where
  values : List (Parameter × String)
  once : (values.map (·.1)).Nodup

namespace Given

/-- Nothing has been given. -/
def empty : Given := ⟨[], .nil⟩

/-- The value that a parameter has been given. -/
def value? (g : Given) (p : Parameter) : Option String :=
  (g.values.find? fun v => v.1 == p).map (·.2)

/-- Gives a parameter its value. -/
def add (g : Given) (p : Parameter) (text : String) : Except Misuse Given :=
  if h : p ∈ g.values.map (·.1) then .error (.repeated p)
  else if p.accepts text then .ok ⟨(p, text) :: g.values, List.nodup_cons.mpr ⟨h, g.once⟩⟩
  else .error (.valueRefused p text)

/-- Gives a parameter the value of its variable, if it has none yet and the variable is
set. -/
def inherit (environment : List (String × String)) (g : Given) (p : Parameter) :
    Except Misuse Given :=
  match g.value? p, p.environmentName?.bind fun name => environment.lookup name with
  | none, some text => g.add p text
  | _, _ => .ok g

/-- Gives every parameter the value of its variable. -/
def complete (environment : List (String × String)) (g : Given) : Except Misuse Given :=
  Parameter.all.foldlM (inherit environment) g

end Given

/-- What a run is set to. -/
structure Settings where
  dsn : String
  /-- The directory of the scripts. -/
  directory : String
  options : Dialect.Options
  /-- Whether statements are shown at the most talkative level only. -/
  compact : Bool
  /-- Whether the operator is asked. -/
  interactive : Bool
  /-- The number of attempts to connect. -/
  attempts : Int32
  /-- Whether the most talkative level is shown. -/
  verbose : Bool
  deriving DecidableEq, Repr

namespace Settings

/-- Whether a flag is set. -/
def flag (g : Given) (p : Parameter) : Bool := ((g.value? p).bind readTruth?).getD false

/-- The settings that follow from what has been given. -/
def ofGiven (g : Given) : Settings where
  dsn := (g.value? .dsn).getD ""
  directory := (g.value? .directory).getD "migrations"
  options := {
    table := (g.value? .table).getD Dialect.Options.standard.table
    cluster := (g.value? .cluster).getD Dialect.Options.standard.cluster
    replicated := flag g .replicated }
  compact := flag g .compact
  interactive := flag g .interactive
  attempts := ((g.value? .attempts).bind readAttempts?).getD 1
  verbose := flag g .verbose

end Settings

end SchemaMigration.CommandLine
