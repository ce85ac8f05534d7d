import SchemaMigration.Failure
import SchemaMigration.Text.Blank
/-! # Scripts

A script is a sequence of statements, each ended by a semicolon; the last one may lack it.
Two dollar signs open and close a block, and a semicolon inside a block ends nothing. A
script arrives in chunks and is read one statement at a time: the scanner holds the bytes
since the last cut, and what follows a statement in its chunk is kept for the next call. A
statement is the text between two cuts without blanks at its ends; empty ones are dropped.
The first fault ends the script. -/
namespace SchemaMigration.Script

/-- The most bytes between two cuts. -/
def maxStatementSize : Nat := 10 * 1024 * 1024

/-- The bytes that the scanner knows: the semicolon and the dollar sign. -/
def semicolon : UInt8 := 59
def dollar : UInt8 := 36

/-- The scanner between two bytes. -/
structure Scanner where
  /-- The bytes since the last cut, last first. -/
  held : List UInt8
  /-- How many they are. -/
  size : Nat
  /-- Inside a block. -/
  inBlock : Bool
  /-- A block was opened since the last cut. -/
  sawBlock : Bool
  /-- The last byte is a dollar sign that is not yet part of a pair. -/
  afterDollar : Bool

namespace Scanner

/-- The scanner after a cut. -/
def start : Scanner := ⟨[], 0, false, false, false⟩

/-- The text held, without blanks at its ends. -/
def text (s : Scanner) : Except Failure (List Char) :=
  match Text.Utf8.decode s.held.reverse with
  | .ok cs => .ok (Text.trim cs)
  | .error fault => .error (.io (.notText fault))

/-- Holds one more byte. -/
def hold (s : Scanner) (b : UInt8) : Scanner := { s with held := b :: s.held, size := s.size + 1 }

/-- The statement held, at a cut; none when it is empty. -/
def cut (limit : Nat) (s : Scanner) : Except Failure (Option String) :=
  if limit < s.size then .error (.statementTooLarge limit)
  else match s.text with
    | .error f => .error f
    | .ok cs => .ok (if cs.isEmpty then none else some (String.ofList cs))

/-- The last statement, at the end of a script. A block must be closed, and its statement
ended. -/
def finish (s : Scanner) : Except Failure (Option String) :=
  if s.inBlock then .error .unclosedBlock
  else match s.text with
    | .error f => .error f
    | .ok cs =>
      if cs.isEmpty then .ok none
      else if s.sawBlock then .error .unclosedBlock
      else .ok (some (String.ofList cs))

/-- Takes one byte; none when the byte is a cut. -/
def byte (s : Scanner) (b : UInt8) : Option Scanner :=
  if b = dollar then
    if s.afterDollar then
      some { s.hold b with inBlock := !s.inBlock, sawBlock := true, afterDollar := false }
    else some { s.hold b with afterDollar := true }
  else if b = semicolon ∧ !s.inBlock then none
  else some { s.hold b with afterDollar := false }

/-- How far one chunk leads. -/
inductive Advance where
  /-- The chunk is used up. -/
  | held (s : Scanner)
  /-- A statement, and what follows it in the chunk. -/
  | found (statement : String) (rest : List UInt8)
  | failed (f : Failure)

/-- Takes the bytes of a chunk up to the end of a statement that is not empty. -/
def advance (limit : Nat) (s : Scanner) : List UInt8 → Advance
  | [] => .held s
  | b :: rest =>
    match s.byte b with
    | some s => advance limit s rest
    | none =>
      match s.cut limit with
      | .error f => .failed f
      | .ok none => advance limit start rest
      | .ok (some statement) => .found statement rest

end Scanner

/-- A script that is being read: the chunks that are left, or nothing once it has ended. -/
inductive Reading where
  | left (chunks : List (List UInt8))
  | ended

/-- Reads on to the next statement. What is held after a chunk must not exceed the limit. -/
def nextFrom (limit : Nat) (s : Scanner) :
    List (List UInt8) → Option (Except Failure String) × Reading
  | [] =>
    match s.finish with
    | .error f => (some (.error f), .ended)
    | .ok none => (none, .ended)
    | .ok (some statement) => (some (.ok statement), .ended)
  | chunk :: chunks =>
    match s.advance limit chunk with
    | .held s =>
      if limit < s.size then (some (.error (.statementTooLarge limit)), .ended)
      else nextFrom limit s chunks
    | .found statement rest => (some (.ok statement), .left (rest :: chunks))
    | .failed f => (some (.error f), .ended)

/-- The next statement of a script or its fault, and none once it has ended. -/
def next (limit : Nat) : Reading → Option (Except Failure String) × Reading
  | .left chunks => nextFrom limit .start chunks
  | .ended => (none, .ended)

/-- The number of bytes that are left. -/
def Reading.size : Reading → Nat
  | .left chunks => chunks.flatten.length + 1
  | .ended => 0

theorem Scanner.advance_found_length {limit : Nat} {s : Scanner} {bytes rest : List UInt8}
    {statement : String} (h : s.advance limit bytes = .found statement rest) :
    rest.length < bytes.length := by
  induction bytes generalizing s with
  | nil => simp [advance] at h
  | cons b bs ih =>
    rw [advance] at h
    split at h
    · exact Nat.lt_succ_of_lt (ih h)
    · split at h
      · simp at h
      · exact Nat.lt_succ_of_lt (ih h)
      · injection h with _ hrest
        rw [← hrest]
        exact Nat.lt_succ_self _

theorem nextFrom_size {limit : Nat} {s : Scanner} {chunks : List (List UInt8)}
    {a : Except Failure String} {r : Reading} (h : nextFrom limit s chunks = (some a, r)) :
    r.size < (Reading.left chunks).size := by
  induction chunks generalizing s with
  | nil =>
    rw [nextFrom] at h
    split at h
    · obtain ⟨_, rfl⟩ := Prod.mk.inj h
      simp [Reading.size]
    · simp at h
    · obtain ⟨_, rfl⟩ := Prod.mk.inj h
      simp [Reading.size]
  | cons chunk chunks ih =>
    rw [nextFrom] at h
    split at h
    · split at h
      · obtain ⟨_, rfl⟩ := Prod.mk.inj h
        simp [Reading.size]
      · have := ih h
        simp only [Reading.size, List.flatten_cons, List.length_append] at this ⊢
        omega
    · rename_i hfound
      have := Scanner.advance_found_length hfound
      obtain ⟨_, rfl⟩ := Prod.mk.inj h
      simp only [Reading.size, List.flatten_cons, List.length_append]
      omega
    · obtain ⟨_, rfl⟩ := Prod.mk.inj h
      simp [Reading.size]

theorem next_size {limit : Nat} {r r' : Reading} {a : Except Failure String}
    (h : next limit r = (some a, r')) : r'.size < r.size := by
  cases r with
  | left chunks => exact nextFrom_size h
  | ended => simp [next] at h

/-- What a script consists of: its statements up to the fault that ended it, if any. -/
structure Scanned where
  statements : List String
  failure : Option Failure

/-- Reads to the end of a script; `found` holds the statements read before, last first. -/
def scanFrom (limit : Nat) (found : List String) (r : Reading) : Scanned :=
  match h : next limit r with
  | (none, _) => ⟨found.reverse, none⟩
  | (some (.error f), _) => ⟨found.reverse, some f⟩
  | (some (.ok statement), r') =>
    have := next_size h
    scanFrom limit (statement :: found) r'
termination_by r.size

/-- Scans a script that arrives in chunks. -/
def scan (limit : Nat) (chunks : List (List UInt8)) : Scanned := scanFrom limit [] (.left chunks)

/-- All statements of a script, or its fault. -/
def Scanned.all (s : Scanned) : Except Failure (List String) :=
  match s.failure with
  | some f => .error f
  | none => .ok s.statements

/-- The statements of a script that is held as a text. -/
def statements (script : String) : Except Failure (List String) :=
  (scan maxStatementSize [Text.Utf8.encodeString script]).all

/-- Chunks on the way, last first: those that are full, the bytes of the one that is not, last
first, and the room that it has left. -/
structure Filling where
  full : List (List UInt8)
  current : List UInt8
  room : Nat

/-- Adds a byte; a chunk without room is full. -/
def Filling.add (size : Nat) (f : Filling) (b : UInt8) : Filling :=
  match f.room with
  | 0 => ⟨f.current.reverse :: f.full, [b], size - 1⟩
  | room + 1 => ⟨f.full, b :: f.current, room⟩

/-- The chunks in order. -/
def Filling.chunks (f : Filling) : List (List UInt8) :=
  (if f.current.isEmpty then f.full else f.current.reverse :: f.full).reverse

/-- Bytes in chunks of a size; the last one may be shorter. -/
def chunksOf (size : Nat) (bytes : List UInt8) : List (List UInt8) :=
  if size = 0 then [bytes] else (bytes.foldl (Filling.add size) ⟨[], [], size⟩).chunks

/-- How many bytes of a file are read at once. -/
def bufferSize : Nat := 8 * 1024

/-- The statements of a script that is read from a file. -/
def fileStatements (bytes : List UInt8) : Except Failure (List String) :=
  (scan maxStatementSize (chunksOf bufferSize bytes)).all

end SchemaMigration.Script
