import SchemaMigration.Text.Printable
import SchemaMigration.Text.Utf8
/-! # Failures

Every operation of the library fails with a `Failure`, which names the cause. Wrappers say
what was going on when the cause arose. The wording is fixed here, in one function for each
cause: `message` for one failure, and `chain` for a failure with the texts of its sources. -/
namespace SchemaMigration

/-- The products that a migration history can live in. -/
inductive Driver where
  | clickHouse
  | postgres
  | mySql
  | tarantool
  deriving DecidableEq, Repr

namespace Driver

/-- The canonical scheme of a driver. -/
def name : Driver → String
  | clickHouse => "clickhouse"
  | postgres => "postgres"
  | mySql => "mysql"
  | tarantool => "tarantool"

/-- The scheme of two letters. -/
def shortName : Driver → String
  | clickHouse => "ch"
  | postgres => "pg"
  | mySql => "my"
  | tarantool => "tt"

end Driver

/-- Why a data source name is refused. -/
inductive DsnFault where
  | empty
  | noScheme (raw : String)
  | emptyScheme (raw : String)
  | credentials (fault : Text.Utf8.Fault)
  | noHosts (raw : String)
  | port (host : String)
  deriving DecidableEq, Repr

def DsnFault.message : DsnFault → String
  | empty => "empty DSN"
  | noScheme raw => "missing driver prefix in " ++ raw
  | emptyScheme raw => "missing driver in " ++ raw
  | credentials fault => fault.message
  | noHosts raw => "empty host list in " ++ raw
  | port host => "invalid port in host " ++ host

/-- Why an identifier is refused. -/
inductive IdentifierFault where
  | character (c : Char)
  | tooLong (length limit : Nat)
  deriving DecidableEq, Repr

def IdentifierFault.message : IdentifierFault → String
  | character c => "invalid character '" ++ c.toString ++ "'"
  | tooLong length limit => s!"length {length} exceeds {limit}"

/-- Why arguments do not fit a statement. -/
inductive BindFault where
  | missing (given : Nat)
  | unused (placeholders given : Nat)
  | tooLarge (n : UInt64)
  | tuple (product : String)
  deriving DecidableEq, Repr

def BindFault.message : BindFault → String
  | missing given => s!"expected more than {given} arguments for query"
  | unused placeholders given =>
    s!"query has {placeholders} placeholders but {given} arguments were given"
  | tooLarge n => s!"{n} does not fit a PostgreSQL bigint"
  | tuple product => s!"tuples cannot be bound as {product} parameters"

/-- How data on a connection breaks its protocol. -/
inductive ProtocolFault where
  | rowWidth (cells columns : Nat)
  | lengthMarker (marker : UInt8)
  | header (found : String)
  | body (found : String)
  | sync (found expected : UInt64)
  | data (found : String)
  | shortGreeting
  | saltText
  | shortSalt
  | requestSize
  | malformed
  deriving DecidableEq, Repr

/-- A byte as two hexadecimal digits. -/
def hexByte (b : UInt8) : String :=
  let digit (n : Nat) : Char := if n < 10 then Char.ofNat (48 + n) else Char.ofNat (87 + n)
  String.ofList [digit (b.toNat / 16), digit (b.toNat % 16)]

def ProtocolFault.message : ProtocolFault → String
  | rowWidth cells columns => s!"row has {cells} cells, expected {columns}"
  | lengthMarker marker => "unexpected length marker 0x" ++ hexByte marker
  | header found => "response header is not a map: " ++ found
  | body found => "response body is not a map: " ++ found
  | sync found expected => s!"response sync {found} does not match request {expected}"
  | data found => "eval returned non-array data: " ++ found
  | shortGreeting => "short greeting"
  | saltText => "invalid greeting salt"
  | shortSalt => "greeting salt too short"
  | requestSize => "request too large"
  | malformed => "malformed value"

/-- How reading or writing goes wrong outside the library. -/
inductive IoFault where
  | notFound
  | notDirectory
  | isDirectory
  | alreadyThere
  | tooManyLinks
  | nameTooLong
  | zeroInPath
  | notText (fault : Text.Utf8.Fault)
  | lineNotText
  | endOfStream
  | refused
  | unreachable
  deriving DecidableEq, Repr

def IoFault.message : IoFault → String
  | notFound => "No such file or directory (os error 2)"
  | notDirectory => "Not a directory (os error 20)"
  | isDirectory => "Is a directory (os error 21)"
  | alreadyThere => "File exists (os error 17)"
  | tooManyLinks => "Too many levels of symbolic links (os error 40)"
  | nameTooLong => "File name too long (os error 36)"
  | zeroInPath => "file name contained an unexpected NUL byte"
  | notText fault => fault.message
  | lineNotText => "stream did not contain valid UTF-8"
  | endOfStream => "early eof"
  | refused => "Connection refused (os error 111)"
  | unreachable => "Network is unreachable (os error 101)"

/-- An exception that ClickHouse answers with. -/
structure Exception where
  code : Int
  /-- The symbolic name, empty when none is reported. -/
  name : String
  message : String
  deriving DecidableEq, Repr

def Exception.display (e : Exception) : String := s!"code {e.code} ({e.name}): {e.message}"

/-- An error that a PostgreSQL or MySQL server reports. -/
inductive ServerReport where
  | postgres (severity code message : String) (detail internalQuery : Option String)
  | mySql (number : Nat) (state : Option String) (message : String)
  deriving DecidableEq, Repr

def ServerReport.message : ServerReport → String
  | postgres _ _ message _ _ => message
  | mySql number state message =>
    match state with
    | some state => s!"{number} ({state}): {message}"
    | none => s!"{number}: {message}"

/-- Why a text is no number of a type. -/
inductive NumberFault where
  | empty
  | digit
  | tooLarge
  deriving DecidableEq, Repr

def NumberFault.message : NumberFault → String
  | empty => "cannot parse integer from empty string"
  | digit => "invalid digit found in string"
  | tooLarge => "number too large to fit in target type"

/-- Why a connection cannot be made as it is described. -/
inductive LoginFault where
  | noHost
  | port
  | address
  | hostCharacter
  | notText (fault : Text.Utf8.Fault)
  | number (fault : NumberFault)
  | ipAddress
  | security (word : String)
  | characterSet (name : String)
  | collation (name : String)
  deriving DecidableEq, Repr

/-- The text of a fault, and then the texts of its sources. -/
def LoginFault.chain : LoginFault → String × List String
  | noHost => ("empty host", [])
  | port => ("invalid port number", [])
  | address => ("invalid IPv6 address", [])
  | hostCharacter => ("invalid domain character", [])
  | notText fault => (fault.message, [])
  | number fault => (fault.message, [])
  | ipAddress => ("invalid IP address syntax", [])
  | security word =>
    let cause := "unknown value " ++ String.ofList (Text.inspect word.toList) ++ " for `ssl_mode`"
    ("error with configuration: " ++ cause, [cause])
  | characterSet name => ("unsupported MySQL charset: " ++ name, [])
  | collation name => ("unsupported MySQL collation: " ++ name, [])

/-- What a PostgreSQL or MySQL connection fails with. -/
inductive DatabaseFault where
  | server (report : ServerReport)
  | rowNotFound
  | communication (cause : IoFault)
  | login (fault : LoginFault)
  | insecure
  | columnType (column : String)
  | argumentCount (expected given : Nat)
  | argumentRange
  | poolClosed
  deriving DecidableEq, Repr

/-- The text of a fault, and then the texts of its sources. -/
def DatabaseFault.chain : DatabaseFault → String × List String
  | server report =>
    ("error returned from database: " ++ report.message, [report.message])
  | rowNotFound =>
    ("no rows returned by a query that expected to return at least one row", [])
  | communication cause =>
    ("error communicating with database: " ++ cause.message, [cause.message])
  | login fault =>
    let (text, sources) := fault.chain
    ("error with configuration: " ++ text, text :: sources)
  | insecure =>
    let cause := "server does not support TLS"
    ("error occurred while attempting to establish a TLS connection: " ++ cause, [cause])
  | columnType column => ("error occurred while decoding column " ++ column, [])
  | argumentCount expected given =>
    (s!"encountered unexpected or invalid data: prepared statement expected {expected} parameters"
      ++ s!" but {given} parameters were provided", [])
  | argumentRange =>
    let cause := "date out of range"
    ("error occurred while encoding a value: " ++ cause, [cause])
  | poolClosed => ("attempted to acquire a connection on a closed pool", [])

/-- What a server reports, in one shape for all products. -/
structure Report where
  /-- The product's own code as a text. -/
  code : String
  severity : String
  message : String
  details : String
  /-- The statement that the server names, or the one that was sent. -/
  query : String
  deriving DecidableEq, Repr

def Report.display (r : Report) : String := s!"{r.severity} {r.code}: {r.message}"

/-- Why an operation fails. -/
inductive Failure where
  | invalidDsn (fault : DsnFault)
  | unsupportedDriver (name : String)
  | invalidIdentifier (name : String) (fault : IdentifierFault)
  | invalidMigrationName (name : String)
  | invalidVersion (version : String)
  | invalidLimit (text : String)
  | duplicateMigration (version path : String)
  | migrationAlreadyExists (version : String)
  | appliedMigrationNotFound (version : String)
  | migrationNotFound (version : String)
  | transactionAlreadyOpened
  | noTransaction
  | transactionAlreadyClosed
  | nilValue (destination : String)
  | notScalar (destination : String)
  | conversion (source destination : String)
  | arity (expected got : Nat)
  | noRows
  | unsupported (capability : String)
  | bind (fault : BindFault)
  | unclosedBlock
  | statementTooLarge (limit : Nat)
  | file (path : String) (fault : IoFault)
  | io (fault : IoFault)
  | database (fault : DatabaseFault)
  | http
  | exception (exception : Exception)
  | tarantool (code : Nat) (message : String)
  | protocol (fault : ProtocolFault)
  | driver (message : String)
  /-- A server's error in the common shape, with the error itself as its cause. -/
  | server (report : Report) (cause : Failure)
  | cancelled
  /-- A transaction whose body failed could not be rolled back. -/
  | rollback (cause failed : Failure)
  | commit (cause : Failure)
  | migrationFailed (version : String) (done total : Nat) (cause : Failure)
  | serialization
  | config (message : String)
  deriving Repr

namespace Failure

/-- The wording of a failure. -/
def message : Failure → String
  | invalidDsn fault => "invalid DSN: " ++ fault.message
  | unsupportedDriver name => "unsupported driver: " ++ name
  | invalidIdentifier name fault => "invalid identifier '" ++ name ++ "': " ++ fault.message
  | invalidMigrationName name =>
    "invalid migration name '" ++ name ++ "': only [A-Za-z0-9_] allowed"
  | invalidVersion version => "invalid migration version '" ++ version ++ "'"
  | invalidLimit text =>
    "invalid limit '" ++ text ++ "': expected a positive integer or 'all'"
  | duplicateMigration version path =>
    "duplicate migration file for version " ++ version ++ ": " ++ path
  | migrationAlreadyExists version => "migration " ++ version ++ " already exists"
  | appliedMigrationNotFound version => "applied migration " ++ version ++ " not found"
  | migrationNotFound version => "migration " ++ version ++ " not found"
  | transactionAlreadyOpened => "transaction already opened"
  | noTransaction => "no transaction in context"
  | transactionAlreadyClosed => "transaction already closed"
  | nilValue destination => "nil value cannot be scanned into " ++ destination
  | notScalar destination => "value must be a scalar to be scanned into " ++ destination
  | conversion source destination => "cannot convert " ++ source ++ " into " ++ destination
  | arity expected got => s!"expected {expected} destination arguments in scan, not {got}"
  | noRows => "no rows in result set"
  | unsupported capability => capability ++ " is not supported by this driver"
  | bind fault => "bind error: " ++ fault.message
  | unclosedBlock => "unclosed block: a $$ block must be closed and terminated by ';'"
  | statementTooLarge limit => s!"statement exceeds the {limit} byte limit"
  | file path fault => "failed to read migration file '" ++ path ++ "': " ++ fault.message
  | io fault => "IO error: " ++ fault.message
  | database fault => "Database error: " ++ fault.chain.1
  | http => "HTTP error: error sending request"
  | exception e => "ClickHouse exception: " ++ e.display
  | tarantool code message => s!"tarantool error {code}: {message}"
  | protocol fault => "protocol error: " ++ fault.message
  | driver message => "driver error: " ++ message
  | server report _ => report.display
  | cancelled => "operation cancelled"
  | rollback cause failed => cause.message ++ " (rollback failed: " ++ failed.message ++ ")"
  | commit cause => "commit failed: " ++ cause.message
  | migrationFailed version done total cause =>
    s!"migration {version} failed ({done} of {total} applied): " ++ cause.message
  | serialization => "Serialization error: invalid document"
  | config message => "configuration error: " ++ message

/-- The texts of the sources of a failure, nearest first. -/
def sources : Failure → List String
  | file _ fault => [fault.message]
  | io fault => [fault.message]
  | database fault => fault.chain.1 :: fault.chain.2
  | exception e => [e.display]
  | server _ cause => cause.message :: cause.sources
  | rollback cause _ => cause.message :: cause.sources
  | commit cause => cause.message :: cause.sources
  | migrationFailed _ _ _ cause => cause.message :: cause.sources
  | _ => []

/-- The wording of a failure, followed by that of each of its sources. -/
def chain (f : Failure) : String := ": ".intercalate (f.message :: f.sources)

/-- The server's report that a failure is or wraps. -/
def report? : Failure → Option Report
  | server report _ => some report
  | migrationFailed _ _ _ cause => cause.report?
  | commit cause => cause.report?
  | rollback cause _ => cause.report?
  | _ => none

variable {α : Type} {r : Except Failure α}

/-- What is no failure and has a property. -/
theorem ok_of_any {p : α → Prop} [DecidablePred p]
    (h : r.toOption.any (fun x => decide (p x)) = true) : ∃ x, r = .ok x ∧ p x := by
  cases r with
  | error f => cases h
  | ok x => exact ⟨x, rfl, of_decide_eq_true h⟩

theorem ok_of_toOption {x : α} (h : r.toOption = some x) : r = .ok x := by
  cases r with
  | error f => cases h
  | ok _ => exact congrArg Except.ok (Option.some.inj h)

end Failure

end SchemaMigration
