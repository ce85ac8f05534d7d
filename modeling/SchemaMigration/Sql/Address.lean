import SchemaMigration.Number.Reading
import SchemaMigration.Text.Blank
import SchemaMigration.Text.Cut
/-! # Addresses of the internet protocol

An address of version four is four numbers below 256. One of version six is eight groups of
hexadecimal digits, of which a double colon may stand for one or more that are zero, and the
last two groups may be written as an address of version four. -/
namespace SchemaMigration.Sql.Address

open Text

/-- Whether a text is a number below 256 without zeros in front. -/
def isOctet (cs : List Char) : Bool :=
  match Number.readDigits? cs with
  | some n => n < 256 && (cs.length == 1 || cs.head? != some '0')
  | none => false

/-- Whether a text is an address of version four. -/
def isVersion4 (cs : List Char) : Bool :=
  let parts := pieces (· == '.') cs
  parts.length == 4 && parts.all isOctet

/-- Whether a character is a hexadecimal digit. -/
def isHexDigit (c : Char) : Bool :=
  ('0' ≤ c && c ≤ '9') || ('a' ≤ c && c ≤ 'f') || ('A' ≤ c && c ≤ 'F')

/-- Whether a text is one group: one to four hexadecimal digits. -/
def isGroup (cs : List Char) : Bool := !cs.isEmpty && cs.length ≤ 4 && cs.all isHexDigit

/-- The number of groups in a text that colons part, none of them written as version four. -/
def groups? (cs : List Char) : Option Nat :=
  if cs.isEmpty then some 0
  else
    let parts := pieces (· == ':') cs
    if parts.all isGroup then some parts.length else none

/-- The number of groups in a text whose last two may be written as version four. -/
def lastGroups? (cs : List Char) : Option Nat :=
  match groups? cs with
  | some n => some n
  | none =>
    match cutLast ':' cs with
    | some (front, last) =>
      if isVersion4 last && !front.isEmpty then (groups? front).map (· + 2) else none
    | none => if isVersion4 cs then some 2 else none

/-- Whether a text is an address of version six. -/
def isVersion6 (cs : List Char) : Bool :=
  match cutAt [':', ':'] cs with
  | none => lastGroups? cs == some 8
  | some (front, back) =>
    match groups? front, lastGroups? back with
    | some n, some m => n + m ≤ 7
    | _, _ => false

/-- Whether a text is an address of either version. -/
def isAddress (cs : List Char) : Bool := isVersion4 cs || isVersion6 cs

end SchemaMigration.Sql.Address
