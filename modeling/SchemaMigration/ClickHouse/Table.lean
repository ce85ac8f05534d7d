import SchemaMigration.Json.Document
import SchemaMigration.Rows
import SchemaMigration.Text.Cut
/-! # Answers with rows

An answer is a document with the names and types of the columns and with the rows. A cell
becomes a value by the type of its column: wrappers around a type are taken off, numbers may
be written as strings, and a cell that does not fit its type is taken as it is. -/
namespace SchemaMigration.ClickHouse

open Json Number Text

/-- A column of an answer. -/
structure Column where
  name : String
  type : String

/-- The forms of an object's fields with given names, or of an array's items in this order.
Other fields are left out; a field that is given twice, or is missing, is refused. -/
def fields? (names : List String) : Form → Option (List Form)
  | .array items => if items.length = names.length then some items else none
  | .object fields => do
    let keyed ← fields.mapM fun (key, form) => (Piece.text? key).map fun key => (key, form)
    names.mapM fun name =>
      match keyed.filter (fun entry => entry.1 == name) with
      | [(_, form)] => some form
      | _ => none
  | _ => none

/-- The items of an array. -/
def items? : Form → Option (List Form)
  | .array items => some items
  | _ => none

/-- The text of a string. -/
def text? : Form → Option String
  | .string pieces => Piece.text? pieces
  | _ => none

/-- Reads a column. -/
def column? (form : Form) : Option Column := do
  match ← fields? ["name", "type"] form with
  | [name, type] => return ⟨← text? name, ← text? type⟩
  | _ => none

/-- The containers around a cell: the document, the rows and the row. -/
def cellDepth : Nat := 3

/-- Reads columns and cells. -/
def table? (cs : List Char) : Option (List Column × List (List Json)) := do
  let form ← Form.read? cs
  match ← fields? ["meta", "data"] form with
  | [columns, rows] =>
    let columns ← (← items? columns).mapM column?
    let rows ← (← items? rows).mapM fun row => do
      (← items? row).mapM (ofForm? (maxDepth - cellDepth))
    return (columns, rows)
  | _ => none

/-- The type inside a wrapper. -/
def unwrap? (wrapper type : List Char) : Option (List Char) := do
  let rest ← dropStart? wrapper type
  let rest ← dropStart? ['('] rest
  dropEnd? [')'] rest

theorem unwrap?_length {wrapper type inner : List Char} (h : unwrap? wrapper type = some inner) :
    inner.length < type.length := by
  simp only [unwrap?, Bind.bind, Option.bind_eq_some_iff] at h
  obtain ⟨rest, h₁, rest', h₂, h₃⟩ := h
  have l₁ := dropStart?_length_le h₁
  have l₂ := dropStart?_length h₂
  have pos : 0 < rest.length := by
    rcases rest with _ | ⟨c, r⟩
    · simp [dropStart?] at h₂
    · simp
  simp only [dropEnd?, Option.map_eq_some_iff] at h₃
  obtain ⟨r, h₃, rfl⟩ := h₃
  have l₃ := dropStart?_length_le h₃
  simp only [List.length_reverse, List.length_singleton] at *
  omega

mutual

/-- The value of a cell whose type says nothing. -/
def untyped : Json → Value
  | .null => .null
  | .bool b => .bool b
  | .number n =>
    match n.toUnsigned? with
    | some n => .uint n
    | none =>
      match n.toSigned? with
      | some n => .int n
      | none => .float n.toDouble
  | .string s => .text s
  | .array items => .tuple (untypedAll items)
  | .object fields => .text (Json.compact (.object fields))

/-- The values of cells whose type says nothing. -/
def untypedAll : List Json → List Value
  | [] => []
  | item :: items => untyped item :: untypedAll items

end

/-- An unsigned number of 64 bits, written as a number or in a string. -/
def unsignedCell? : Json → Option UInt64
  | .number n => n.toUnsigned?
  | .string s =>
    match readUnsigned? s.toList with
    | some n => if n < Nat.pow 2 64 then some (UInt64.ofNat n) else none
    | none => none
  | _ => none

/-- A signed number of 64 bits, written as a number or in a string. -/
def signedCell? : Json → Option Int64
  | .number n => n.toSigned?
  | .string s =>
    match readSigned? s.toList with
    | some n => if -(Nat.pow 2 63 : Int) ≤ n ∧ n < Nat.pow 2 63 then some (Int64.ofInt n) else none
    | none => none
  | _ => none

/-- A floating-point number, written as a number or in a string. -/
def floatCell? : Json → Option Double
  | .number n => some n.toDouble
  | .string s => readDouble? s.toList
  | _ => none

/-- The value of a cell of a type without wrappers. -/
def plainCell (type : List Char) (cell : Json) : Value :=
  let typed : Option Value :=
    if "UInt".toList.isPrefixOf type then (unsignedCell? cell).map .uint
    else if "Int".toList.isPrefixOf type then (signedCell? cell).map .int
    else if "Float".toList.isPrefixOf type then (floatCell? cell).map .float
    else none
  typed.getD (untyped cell)

/-- The type inside one of the wrappers that change no value. -/
def transparent? (type : List Char) : Option (List Char) :=
  match unwrap? "Nullable".toList type with
  | some inner => some inner
  | none => unwrap? "LowCardinality".toList type

theorem transparent?_length {type inner : List Char} (h : transparent? type = some inner) :
    inner.length < type.length := by
  unfold transparent? at h
  split at h
  · rename_i h'
    simp only [Option.some.injEq] at h
    exact h ▸ unwrap?_length h'
  · exact unwrap?_length h

/-- The value of a cell of a type. -/
def convert (type : List Char) (cell : Json) : Value :=
  match _h : transparent? type with
  | some inner => convert inner cell
  | none =>
    match cell with
    | .null => .null
    | cell =>
      match _h' : unwrap? "Array".toList type with
      | some inner =>
        match cell with
        | .array items => .tuple (items.map fun item => convert inner item)
        | other => untyped other
      | none => plainCell type cell
termination_by type.length
decreasing_by
  · exact transparent?_length _h
  · exact unwrap?_length _h'

/-- The values of a row, which must have a cell for each column. -/
def convertRow (columns : List Column) (row : List Json) : Except Failure (List Value) :=
  if row.length = columns.length then
    .ok (List.zipWith (fun cell (c : Column) => convert c.type.toList cell) row columns)
  else .error (.protocol (.rowWidth row.length columns.length))

/-- Reads an answer. An empty one has no rows. -/
def readTable (body : String) : Except Failure Rows :=
  let cs := body.toList
  if (trim cs).isEmpty then .ok .empty
  else match table? cs with
    | none => .error .serialization
    | some (columns, rows) => do
      let rows ← rows.mapM (convertRow columns)
      return Rows.ofRows (columns.map (·.name)) rows

end SchemaMigration.ClickHouse
