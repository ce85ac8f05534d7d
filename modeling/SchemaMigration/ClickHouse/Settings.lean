import SchemaMigration.Dsn
/-! # Settings of a ClickHouse connection

The endpoints are the hosts of the data source name and then those of its option
`alt_hosts`, in the order in which they are tried. A part that the name leaves empty is
taken from an option, and then from the standard. -/
namespace SchemaMigration.ClickHouse

/-- The settings of a connection. -/
structure Settings where
  /-- The base URL of each host; there is at least one. -/
  first : String
  others : List String
  database : String
  username : String
  password : String
  deriving DecidableEq, Repr

namespace Settings

/-- All endpoints in order. -/
def endpoints (s : Settings) : List String := s.first :: s.others

/-- The endpoint of a number; a number too large is that of the last one. -/
def endpoint (s : Settings) (index : Nat) : String :=
  (s.endpoints[index]?).getD (s.others.getLastD s.first)

/-- A text, or another one when it is empty. -/
def orElse (s : String) (standard : String) : String := if s.isEmpty then standard else s

/-- The base URL of a host. -/
def baseUrl (secure : Bool) (host : String) : Except Failure String := do
  let (name, port) ← splitHostPort host (if secure then 8443 else 8123)
  return (if secure then "https" else "http") ++ "://" ++ name ++ ":" ++ toString port

/-- Whether the option `secure` is switched on. -/
def isSecure (d : Dsn) : Bool := d.option? "secure" = some "true" || d.option? "secure" = some "1"

/-- The hosts of the option `alt_hosts`. -/
def alternatives (d : Dsn) : List String :=
  match d.option? "alt_hosts" with
  | some hosts => Dsn.readHosts hosts.toList
  | none => []

/-- Reads the settings from a data source name. -/
def ofDsn (d : Dsn) : Except Failure Settings := do
  let secure := isSecure d
  let first ← baseUrl secure d.primary
  let others ← (d.others ++ alternatives d).mapM (baseUrl secure)
  return {
    first, others
    database := orElse d.database ((d.option? "database").getD "default")
    username := orElse d.username ((d.option? "username").getD "default")
    password := orElse d.password ((d.option? "password").getD "") }

end Settings

end SchemaMigration.ClickHouse
