import SchemaMigration.Failure
import SchemaMigration.Sql.Address
import SchemaMigration.Text.Percent
/-! # Where a URL leads

What follows the credentials of a URL is a host, a port, a path and a query; a number sign
ends all of them. Tabs and line ends are skipped wherever they stand, and so is everything
up to the space at the end. Dots stand for steps in a path, and are carried out when it is
read. -/
namespace SchemaMigration.Sql

/-- Where a URL leads. -/
structure Location where
  /-- Empty when the URL names no host. -/
  host : List Char
  port : Option Nat
  path : List Char
  /-- The options of the query, in order. -/
  query : List (List Char × List Char)
  deriving DecidableEq, Repr

namespace Location

open Text

/-- The characters that are skipped wherever they stand. -/
def isSkipped (c : Char) : Bool := c == '\t' || c == '\n' || c == '\r'

/-- The text that counts. -/
def essential (cs : List Char) : List Char :=
  (dropEndWhile (fun c => c.toNat ≤ 0x20) cs).filter fun c => !isSkipped c

/-- A text in two before the first character of a class. -/
def cutBefore (p : Char → Bool) (cs : List Char) : List Char × List Char :=
  (cs.takeWhile fun c => !p c, cs.dropWhile fun c => !p c)

/-- A host and what follows it, which begins with the first colon outside of brackets. The
first argument says whether a bracket is open. -/
def cutHost : Bool → List Char → List Char × List Char
  | _, [] => ([], [])
  | inside, c :: cs =>
    if c = ':' ∧ !inside then ([], c :: cs)
    else
      let (host, rest) := cutHost (if c = '[' then true else if c = ']' then false else inside) cs
      (c :: host, rest)

/-- The characters that no host may hold. -/
def isForbidden (c : Char) : Bool :=
  c.toNat = 0 || c ∈ [' ', '#', '/', ':', '<', '>', '?', '@', '[', '\\', ']', '^', '|']

/-- Refuses what is no host. What begins with a bracket is an address of version six. -/
def checkHost (host : List Char) : Except LoginFault Unit :=
  match host with
  | '[' :: rest =>
    if rest.getLast? = some ']' ∧ Address.isVersion6 rest.dropLast then .ok () else .error .address
  | _ => if host.any isForbidden then .error .hostCharacter else .ok ()

/-- A port and what follows it: the end, or a backslash, with which the path begins. -/
def readPort (cs : List Char) : Except LoginFault (Option Nat × List Char) :=
  let digits := cs.takeWhile Number.isDigit
  let rest := cs.dropWhile Number.isDigit
  let n := Number.digitsValue digits
  if n < 65536 ∧ (rest.isEmpty ∨ rest.head? = some '\\') then
    .ok (if digits.isEmpty then none else some n, rest)
  else .error .port

/-- Whether a segment of a path is a dot, which may be percent coded. -/
def isDot (segment : List Char) : Bool :=
  segment ∈ [['.'], ['%', '2', 'e'], ['%', '2', 'E']]

/-- Whether a segment of a path is two dots. -/
def isDoubleDot (segment : List Char) : Bool :=
  match segment with
  | '.' :: rest => isDot rest
  | a :: b :: c :: rest => isDot [a, b, c] && isDot rest
  | _ => false

/-- Whether a segment begins with the letter of a drive, which a step back does not leave. -/
def isDrive : List Char → Bool
  | c :: d :: rest =>
    c.isAlpha && (d == ':' || d == '|') && (rest.isEmpty || rest.head? == some '\\')
  | _ => false

/-- A path up to its last slash. -/
def upToSlash (path : List Char) : List Char :=
  path.reverse.dropWhile (· != '/') |>.reverse

/-- A path that ends in a slash, one step back. The first slash stays. -/
def stepBack (path : List Char) : List Char :=
  let front := path.dropLast
  if '/' ∈ front ∧ !isDrive (front.reverse.takeWhile (· != '/')).reverse then upToSlash front
  else path

/-- A path with one more segment, behind which a slash may follow. -/
def addSegment (path segment : List Char) (slash : Bool) : List Char :=
  if isDoubleDot segment then stepBack path
  else if isDot segment then path
  else path ++ segment ++ if slash then ['/'] else []

/-- A path with all segments of a text. -/
def addSegments : List Char → List (List Char) → List Char
  | path, [] => path
  | path, [segment] => addSegment path segment false
  | path, segment :: rest => addSegments (addSegment path segment true) rest

/-- Reads a path, which begins with a slash even where the text does not. -/
def readPath : List Char → List Char
  | [] => []
  | c :: cs => addSegments ['/'] (pieces (· == '/') (if c = '/' then cs else c :: cs))

/-- Reads what follows the credentials of a URL; where there are credentials, there is a
host. -/
def read (credentials : Bool) (text : List Char) : Except LoginFault Location := do
  let (whole, _) := cutBefore (· == '#') (essential text)
  let (front, query) := cutBefore (· == '?') whole
  let (authority, path) := cutBefore (· == '/') front
  let (host, rest) := cutHost false authority
  if host.isEmpty ∧ (credentials ∨ !rest.isEmpty) then throw .noHost
  checkHost host
  let (port, rest) ← readPort (rest.drop 1)
  return ⟨host, port, readPath (rest ++ path), Percent.readForm (query.drop 1)⟩

end Location

end SchemaMigration.Sql
