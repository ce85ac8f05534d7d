/-! # Blank characters

The white space of a text is what Unicode calls `White_Space`. Trimming and the cut
into words are defined over lists of characters, so that both read as ordinary list
operations. -/
namespace SchemaMigration.Text

/-- The characters with the Unicode property `White_Space`. -/
def isBlank (c : Char) : Bool :=
  let n := c.toNat
  (9 ≤ n && n ≤ 13) || n == 0x20 || n == 0x85 || n == 0xA0 || n == 0x1680
    || (0x2000 ≤ n && n ≤ 0x200A) || n == 0x2028 || n == 0x2029 || n == 0x202F
    || n == 0x205F || n == 0x3000

/-- Drops characters of the class `p` at the end. -/
def dropEndWhile (p : Char → Bool) (cs : List Char) : List Char :=
  (cs.reverse.dropWhile p).reverse

/-- Drops blanks at both ends. -/
def trim (cs : List Char) : List Char :=
  dropEndWhile isBlank (cs.dropWhile isBlank)

/-- Cuts at every character of the class `p`; the cut characters are left out, so the
pieces are one more than the cuts. -/
def pieces (p : Char → Bool) (cs : List Char) : List (List Char) :=
  cs.foldr
    (fun c rest =>
      if p c then [] :: rest
      else match rest with
        | [] => [[c]]
        | w :: ws => (c :: w) :: ws)
    [[]]

/-- Where nothing is cut there is one piece. -/
theorem pieces_of_forall {p : Char → Bool} {cs : List Char} (h : ∀ c ∈ cs, p c = false) :
    pieces p cs = [cs] := by
  induction cs with
  | nil => rfl
  | cons c cs ih =>
    have hrest : pieces p cs = [cs] := ih fun d hd => h d (List.mem_cons_of_mem _ hd)
    rw [pieces] at hrest ⊢
    rw [List.foldr_cons, hrest, h c List.mem_cons_self]
    rfl

/-- The maximal runs of characters that are not blank. -/
def words (cs : List Char) : List (List Char) :=
  (pieces isBlank cs).filter (fun w => !w.isEmpty)

/-- The words of a text with one space between neighbours. -/
def squeeze (cs : List Char) : List Char :=
  [' '].intercalate (words cs)

/-- `trim` on strings. -/
def trimmed (s : String) : String := String.ofList (trim s.toList)

/-- `squeeze` on strings. -/
def squeezed (s : String) : String := String.ofList (squeeze s.toList)

end SchemaMigration.Text
