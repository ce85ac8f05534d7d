import SchemaMigration.Text.Blank
import SchemaMigration.Text.Cut
/-! # The sections of a statement

A statement consists of code, of quoted text and of comments. Quoted text begins with one of
three quotes and ends with the same one, and a backslash in it takes the next character
along. A comment runs from two dashes to the end of the line, or from a slash and a star to
a star and a slash. What is never closed runs to the end. The sections in order are the
statement. -/
namespace SchemaMigration.ClickHouse

open Text

/-- What a section is. -/
inductive SectionKind where
  | code
  | quoted
  | comment
  deriving DecidableEq, Repr

/-- A section of a statement. -/
structure Section where
  kind : SectionKind
  text : List Char
  deriving DecidableEq, Repr

namespace Section

/-- The three quotes: the apostrophe, the double quote and the grave accent. -/
def isQuote (c : Char) : Bool := c.toNat == 0x27 || c.toNat == 0x22 || c.toNat == 0x60

/-- Quoted text after its opening quote, and what follows it; `seen` holds the characters
passed, last first. -/
def takeQuoted (quote : Char) (seen : List Char) : List Char → List Char × List Char
  | [] => (seen.reverse, [])
  | '\\' :: c :: cs => takeQuoted quote (c :: '\\' :: seen) cs
  | c :: cs =>
    if c = quote then ((c :: seen).reverse, cs) else takeQuoted quote (c :: seen) cs

/-- A comment to the end of its line, after the two dashes, and what follows it. -/
def takeLine (cs : List Char) : List Char × List Char :=
  (cs.takeWhile (· != '\n'), cs.dropWhile (· != '\n'))

/-- A comment between slashes, after its opener, and what follows it. -/
def takeBlock (cs : List Char) : List Char × List Char :=
  match cutAt ['*', '/'] cs with
  | some (inside, after) => (inside ++ ['*', '/'], after)
  | none => (cs, [])

/-- The section that is not code at the start of a text, and what follows it. -/
def opening? : List Char → Option (Section × List Char)
  | '-' :: '-' :: cs =>
    let (text, rest) := takeLine cs
    some (⟨.comment, '-' :: '-' :: text⟩, rest)
  | '/' :: '*' :: cs =>
    let (text, rest) := takeBlock cs
    some (⟨.comment, '/' :: '*' :: text⟩, rest)
  | c :: cs =>
    if isQuote c then
      let (text, rest) := takeQuoted c [] cs
      some (⟨.quoted, c :: text⟩, rest)
    else none
  | [] => none

theorem takeQuoted_length (quote : Char) (seen cs : List Char) :
    (takeQuoted quote seen cs).2.length ≤ cs.length := by
  fun_induction takeQuoted quote seen cs with
  | case1 => simp
  | case2 seen c cs ih => simp only [List.length_cons]; omega
  | case3 => simp
  | case4 seen c cs _ _ ih => simp only [List.length_cons]; omega

theorem takeLine_length (cs : List Char) : (takeLine cs).2.length ≤ cs.length := by
  simp only [takeLine]
  exact (List.dropWhile_sublist _).length_le

theorem takeBlock_length (cs : List Char) : (takeBlock cs).2.length ≤ cs.length := by
  unfold takeBlock
  split
  · rename_i h
    exact cutAt_length h
  · simp

theorem opening?_length {cs rest : List Char} {s : Section} (h : opening? cs = some (s, rest)) :
    rest.length < cs.length := by
  unfold opening? at h
  split at h
  · rename_i cs
    have := takeLine_length cs
    simp only [Option.some.injEq, Prod.mk.injEq] at h
    simp only [List.length_cons, ← h.2]
    omega
  · rename_i cs
    have := takeBlock_length cs
    simp only [Option.some.injEq, Prod.mk.injEq] at h
    simp only [List.length_cons, ← h.2]
    omega
  · rename_i c cs _ _
    split at h
    · have := takeQuoted_length c [] cs
      simp only [Option.some.injEq, Prod.mk.injEq] at h
      simp only [List.length_cons, ← h.2]
      omega
    · simp at h
  · simp at h

/-- The section of code that was passed, if there is any. -/
def ofCode (code : List Char) : List Section := if code.isEmpty then [] else [⟨.code, code⟩]

/-- The sections of a text; `done` holds the sections passed and `code` the characters of
code since, both last first. -/
def cut (done : List Section) (code : List Char) (cs : List Char) : List Section :=
  match _h : opening? cs with
  | some (s, rest) => cut (s :: (ofCode code.reverse ++ done)) [] rest
  | none =>
    match cs with
    | [] => (ofCode code.reverse ++ done).reverse
    | c :: cs => cut done (c :: code) cs
termination_by cs.length
decreasing_by
  · exact opening?_length _h
  · simp

/-- The sections of a statement. -/
def all (cs : List Char) : List Section := cut [] [] cs

/-- The statement that sections make up. -/
def join (sections : List Section) : List Char := sections.flatMap (·.text)

end Section

end SchemaMigration.ClickHouse
