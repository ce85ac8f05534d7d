import SchemaMigration.Text.Blank
/-! # Addresses of stand-ins

Each server of a script has a host with a port, the directory of a socket, or the path of a
socket. Data source names refer to them by their numbers. -/
namespace SchemaMigration.Scripted

/-- How a server is reached. -/
inductive Access where
  | network
  | directory
  | socket
  deriving DecidableEq, Repr

/-- The address of the server with a number. -/
def address (access : Access) (n : Nat) : String :=
  match access with
  | .network => s!"127.0.0.1:{40000 + n}"
  | .directory => s!"/sockets/{n}"
  | .socket => s!"/sockets/{n}/server.sock"

/-- The path of the socket of the server with a number. -/
def socketPath (access : Access) (n : Nat) : String :=
  match access with
  | .directory => address access n ++ "/.s.PGSQL.5432"
  | _ => address access n

/-- A text with the numbers of servers in braces replaced by their addresses. -/
def place (access : Access) (servers : Nat) (s : String) : String :=
  (List.range servers).foldl (fun s n => s.replace s!"\x7b{n}\x7d" (address access n)) s

/-- The number of the server with an address. -/
def find? (access : Access) (servers : Nat) (found : String) : Option Nat :=
  (List.range servers).find? fun n => address access n == found

/-- A path without the steps that lead nowhere, except at its end. -/
def straight (path : String) : String :=
  match (Text.pieces (· == '/') path.toList).reverse with
  | [] => path
  | last :: front =>
    let steps := front.reverse.filter fun step => !step.isEmpty && step != ['.']
    String.ofList ((if path.startsWith "/" then ['/'] else []) ++
      ['/'].intercalate (steps ++ [last]))

/-- The number of the server with a socket. -/
def findSocket? (access : Access) (servers : Nat) (path : String) : Option Nat :=
  (List.range servers).find? fun n => socketPath access n == straight path

end SchemaMigration.Scripted
