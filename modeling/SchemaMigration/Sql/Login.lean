import SchemaMigration.Dsn
import SchemaMigration.MySql.CharacterSet
import SchemaMigration.Sql.Url
/-! # Logins

Where a pool connects, and as whom, is read from the URL of the first host and from the
options of its query, of which a later one counts more than an earlier one. Both products can
be reached over a socket that an option names. PostgreSQL takes everything from options too,
and what no one names from the variables of the process. -/
namespace SchemaMigration.Sql

/-- Where a pool connects, and as whom. -/
structure Login where
  user : String
  database : Option String
  /-- The path of a socket. -/
  socket : Option String
  /-- The host with its port, for when there is no socket. -/
  host : String
  /-- What keeps a connection from being made, although the server is there. -/
  obstacle : Option DatabaseFault
  deriving DecidableEq, Repr

namespace Login

/-- The user of a process, as which PostgreSQL is asked when no user is named, and the user
that MySQL knows best. -/
def superuser : String := "root"

/-- A text, or nothing when it is empty. -/
def given (s : String) : Option String := if s.isEmpty then none else some s

/-- Reads a number below a bound. -/
def readBelow (bound : Nat) (s : String) : Except LoginFault Nat :=
  if s.isEmpty then .error (.number .empty)
  else match Number.readUnsigned? s.toList with
    | some n => if n < bound then .ok n else .error (.number .tooLarge)
    | none => .error (.number .digit)

/-- Undoes percent coding. -/
def decoded (cs : List Char) : Except LoginFault String :=
  match Text.Percent.decode cs with
  | .ok cs => .ok (String.ofList cs)
  | .error fault => .error (.notText fault)

/-- The location that the URL of the first host leads to. -/
def locationOf (d : Dsn) : Except LoginFault Location :=
  Location.read (!d.username.isEmpty) (d.locationText d.primary)

/-- The database that the path of a URL names. -/
def databaseOf (l : Location) : Except LoginFault (Option String) := do
  let path := l.path.dropWhile (· == '/')
  if path.isEmpty then return none else return some (← decoded path)

/-- What an option of PostgreSQL may change. -/
structure Postgres where
  user : String
  database : Option String
  port : Nat
  directory : Option String
  host : String
  /-- Whether only a secured connection will do. -/
  secured : Bool
  deriving DecidableEq, Repr

namespace Postgres

/-- Reads how much a connection is secured, and whether it has to be. -/
def readSecurity (word : String) : Except LoginFault Bool :=
  let w := Text.lower word
  if w ∈ ["disable", "allow", "prefer"] then .ok false
  else if w ∈ ["require", "verify-ca", "verify-full"] then .ok true
  else .error (.security word)

/-- Where the process connects when nothing is named. -/
def standard (environment : List (String × String)) : Postgres :=
  let lookUp (name : String) := (environment.find? fun v => v.1 == name).map (·.2)
  { user := (lookUp "PGUSER").getD superuser
    database := lookUp "PGDATABASE"
    port := ((lookUp "PGPORT").bind fun s => (readBelow 65536 s).toOption).getD 5432
    directory := none
    host := (lookUp "PGHOSTADDR" <|> lookUp "PGHOST").getD "localhost"
    secured := ((lookUp "PGSSLMODE").bind fun s => (readSecurity s).toOption).getD false }

/-- Takes the host of a URL; one that begins with a slash is the directory of a socket. -/
def withHost (p : Postgres) (host : List Char) : Except LoginFault Postgres := do
  if host.isEmpty then return p
  else if (Text.Percent.unescape (Text.Utf8.encode host)).head? = some 47 then
    return { p with directory := some (← decoded host) }
  else return { p with host := String.ofList host }

/-- Takes an option. -/
def withOption (p : Postgres) (option : List Char × List Char) : Except LoginFault Postgres := do
  let value := String.ofList option.2
  let key := String.ofList option.1
  if key = "sslmode" ∨ key = "ssl-mode" then return { p with secured := ← readSecurity value }
  else if key = "statement-cache-capacity" then
    let _ ← readBelow (Nat.pow 2 64) value
    return p
  else if key = "host" then
    if value.startsWith "/" then return { p with directory := some value }
    else return { p with host := value }
  else if key = "hostaddr" then
    if Address.isAddress option.2 then return { p with host := value } else throw .ipAddress
  else if key = "port" then return { p with port := ← readBelow 65536 value }
  else if key = "dbname" then return { p with database := some value }
  else if key = "user" then return { p with user := value }
  else return p

/-- Where a data source name leads. -/
def read (environment : List (String × String)) (d : Dsn) : Except LoginFault Postgres := do
  let l ← locationOf d
  let p ← (standard environment).withHost l.host
  let p := { p with
    port := l.port.getD p.port
    user := (given d.username).getD p.user
    database := (← databaseOf l) <|> p.database }
  l.query.foldlM withOption p

end Postgres

/-- What an option of MySQL may change. -/
structure MySql where
  socket : Option String
  characterSet : String
  collation : Option String
  /-- Whether only a secured connection will do. -/
  secured : Bool
  deriving DecidableEq, Repr

namespace MySql

/-- Reads how much a connection is secured, and whether it has to be. -/
def readSecurity (word : String) : Except LoginFault Bool :=
  let w := Text.lower word
  if w ∈ ["disabled", "preferred"] then .ok false
  else if w ∈ ["required", "verify_ca", "verify_identity"] then .ok true
  else .error (.security word)

/-- What counts when nothing is named. -/
def standard : MySql := ⟨none, "utf8mb4", none, false⟩

/-- Takes an option. -/
def withOption (m : MySql) (option : List Char × List Char) : Except LoginFault MySql := do
  let value := String.ofList option.2
  let key := String.ofList option.1
  if key = "sslmode" ∨ key = "ssl-mode" then return { m with secured := ← readSecurity value }
  else if key = "charset" then return { m with characterSet := value }
  else if key = "collation" then return { m with collation := some value }
  else if key = "statement-cache-capacity" then
    let _ ← readBelow (Nat.pow 2 64) value
    return m
  else if key = "socket" then return { m with socket := some value }
  else return m

/-- What keeps a connection from being made. -/
def obstacle (m : MySql) : Option DatabaseFault :=
  if !SchemaMigration.MySql.characterSets.contains m.characterSet then
    some (.login (.characterSet m.characterSet))
  else match m.collation.filter fun name => !SchemaMigration.MySql.isCollation name with
    | some name => some (.login (.collation name))
    | none => if m.secured then some .insecure else none

end MySql

/-- A host with its port. -/
def hostText (host : String) (port : Nat) : String := s!"{host}:{port}"

/-- A fault as a failure. -/
def failed {α : Type} (r : Except LoginFault α) : Except Failure α :=
  r.mapError fun fault => .database (.login fault)

/-- The login of PostgreSQL, given the variables of the process. -/
def ofPostgres (environment : List (String × String)) (d : Dsn) : Except Failure Login := do
  let p ← failed (Postgres.read environment d)
  return {
    user := p.user
    database := p.database
    socket := p.directory.map fun directory => s!"{directory}/.s.PGSQL.{p.port}"
    host := hostText p.host p.port
    obstacle := if p.secured then some .insecure else none }

/-- The login of MySQL. -/
def ofMySql (d : Dsn) : Except Failure Login := do
  let l ← failed (locationOf d)
  let database ← failed (databaseOf l)
  let m ← failed (l.query.foldlM MySql.withOption MySql.standard)
  return {
    user := (given d.username).getD superuser
    database
    socket := m.socket
    host := hostText (String.ofList l.host) (l.port.getD 3306)
    obstacle := m.obstacle }

end Login

end SchemaMigration.Sql
