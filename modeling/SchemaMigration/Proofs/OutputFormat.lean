import SchemaMigration.ClickHouse.Binding
import SchemaMigration.Proofs.StatementSections
import SchemaMigration.Proofs.TextCutting
/-! # The output format behind a statement

The output format is put behind what is left of a statement when the comments, the white space and
the semicolons at its end are cut off.  That it is code there, and nothing else of the statement
has changed, rests on two facts.  A cut through the sections of a text leaves those in front of it
as they are if what is put in its place begins with the same character (`all_front`); and code in
front of which nothing opens stays code if it is cut short before a space (`Plain.take`).
So no ending of a statement takes the output format into a comment or a quoted text, as long as
every quoted text of the statement is closed (`withFormat_in_code`). -/
namespace SchemaMigration.ClickHouse

open Section Text

namespace Section

/-! ### Code in front of which nothing opens -/

/-- No section opens inside the code in front of the text. -/
def Plain : List Char → List Char → Prop
  | [], _ => True
  | c :: code, rest => opening? (c :: (code ++ rest)) = none ∧ Plain code rest

/-- Whether a character opens a section depends on the one behind it alone. -/
theorem opening?_congr {c : Char} {xs ys : List Char} (h : xs.head? = ys.head?) :
    opening? (c :: xs) = none ↔ opening? (c :: ys) = none := by
  rw [opening?_eq_none_iff, opening?_eq_none_iff, h]

theorem head?_append_congr {xs ys : List Char} (front : List Char) (h : xs.head? = ys.head?) :
    (front ++ xs).head? = (front ++ ys).head? := by
  rw [List.head?_append, List.head?_append, h]

namespace Plain

theorem all_append {code rest : List Char} (h : Plain code rest) :
    all (code ++ rest) = putCode code (all rest) := by
  induction code with
  | nil => exact (putCode_nil _).symm
  | cons c code ih => rw [List.cons_append, all_of_code h.1, ih h.2, putCode_putCode]; rfl

/-- The code stays what it is in front of what begins with the same character. -/
theorem congr {code xs ys : List Char} (hhead : xs.head? = ys.head?) (h : Plain code xs) :
    Plain code ys := by
  induction code with
  | nil => trivial
  | cons c code ih => exact ⟨(opening?_congr (head?_append_congr code hhead)).mp h.1, ih h.2⟩

/-- Behind code that is cut short, a character that begins no mark opens nothing. -/
theorem take {code back rest more : List Char} {d : Char} (hd : isInert d)
    (h : Plain (code ++ back) rest) (hstar : d ≠ '*') : Plain code (d :: more) := by
  induction code with
  | nil => trivial
  | cons c code ih =>
    refine ⟨?_, ih h.2⟩
    have hopen : opening? (c :: (code ++ back ++ rest)) = none := h.1
    cases code with
    | nil =>
      obtain ⟨-, hminus, -⟩ := isInert_iff.mp hd
      obtain ⟨hquote, -, -⟩ := opening?_eq_none_iff.mp hopen
      exact opening?_eq_none_iff.mpr ⟨hquote, fun _ hc => hminus (Option.some.inj hc),
        fun _ hc => hstar (Option.some.inj hc)⟩
    | cons e code =>
      have hhead : (e :: code ++ d :: more).head? = (e :: code ++ back ++ rest).head? := rfl
      exact (opening?_congr hhead).mpr hopen

end Plain

/-! ### Sections read back from the front -/

theorem putCode_of_head {code : List Char} (hcode : code ≠ []) {sections : List Section}
    (h : ∀ s ∈ sections.head?, s.kind ≠ .code) :
    putCode code sections = ⟨.code, code⟩ :: sections := by
  cases sections with
  | nil => exact ofCode_of_ne_nil hcode
  | cons s rest =>
    rw [putCode, if_neg (h s rfl), ofCode_of_ne_nil hcode]
    rfl

/-- A first section that is no code opens at the start. -/
theorem opening?_of_all {cs : List Char} {s : Section} {rest : List Section}
    (h : all cs = s :: rest) (hs : s.kind ≠ .code) :
    ∃ more, opening? cs = some (s, more) ∧ all more = rest := by
  cases hopen : opening? cs with
  | some p =>
    rw [all_of_opening hopen] at h
    obtain ⟨rfl, rfl⟩ := List.cons.inj h
    exact ⟨_, rfl, rfl⟩
  | none =>
    cases cs with
    | nil => rw [all_nil] at h; cases h
    | cons c cs =>
      obtain ⟨text, others, hcode⟩ := putCode_eq_cons (List.cons_ne_nil c []) (all cs)
      rw [all_of_code hopen, hcode] at h
      exact absurd ((congrArg kind (List.cons.inj h).1).symm) hs

/-- A first section that is code runs up to where the next section opens. -/
theorem plain_of_all {cs text : List Char} {rest : List Section}
    (h : all cs = ⟨.code, text⟩ :: rest) :
    ∃ more, cs = text ++ more ∧ Plain text more ∧ all more = rest ∧ text ≠ [] ∧
      ∀ s ∈ rest.head?, s.kind ≠ .code := by
  induction cs generalizing text with
  | nil => rw [all_nil] at h; cases h
  | cons c cs ih =>
    cases hopen : opening? (c :: cs) with
    | some p =>
      rw [all_of_opening hopen] at h
      exact absurd (congrArg kind (List.cons.inj h).1) (kind_of_opening hopen)
    | none =>
      rw [all_of_code hopen] at h
      by_cases hnext : ∀ s ∈ (all cs).head?, s.kind ≠ .code
      · rw [putCode_of_head (List.cons_ne_nil c []) hnext] at h
        obtain ⟨htext, rfl⟩ := List.cons.inj h
        cases htext
        exact ⟨cs, rfl, ⟨hopen, trivial⟩, rfl, List.cons_ne_nil c [], hnext⟩
      · -- the code goes on behind the character
        cases hall : all cs with
        | nil => exact absurd (by rw [hall]; exact nofun) hnext
        | cons s others =>
          obtain ⟨kind, code⟩ := s
          obtain rfl : kind = .code := by
            by_contra hkind
            exact hnext (by rw [hall]; rintro s ⟨⟩; exact hkind)
          rw [hall, putCode, if_pos rfl] at h
          obtain ⟨htext, rfl⟩ := List.cons.inj h
          cases htext
          obtain ⟨more, rfl, hplain, hmore, -, hhead⟩ := ih hall
          exact ⟨more, rfl, ⟨hopen, hplain⟩, hmore, List.cons_ne_nil c code, hhead⟩

/-- The last sections of a text are all the sections of what they make up. -/
theorem all_join_of_append {cs : List Char} {before after : List Section}
    (h : all cs = before ++ after) : all (join after) = after := by
  induction before generalizing cs with
  | nil =>
    rw [List.nil_append] at h
    rw [← h, join_all]
  | cons s before ih =>
    by_cases hs : s.kind = .code
    · obtain ⟨kind, text⟩ := s
      cases hs
      obtain ⟨more, -, -, hmore, -, -⟩ := plain_of_all h
      exact ih hmore
    · obtain ⟨more, -, hmore⟩ := opening?_of_all h hs
      exact ih hmore

theorem kind_ne_of_head? {xs ys : List Section} (h : xs.head?.map kind = ys.head?.map kind)
    (hys : ∀ s ∈ ys.head?, s.kind ≠ .code) : ∀ s ∈ xs.head?, s.kind ≠ .code := by
  intro s hs hkind
  rw [Option.mem_def.mp hs, Option.map_some, eq_comm, Option.map_eq_some_iff] at h
  obtain ⟨s', hs', hsame⟩ := h
  exact hys s' hs' (hsame.trans hkind)

theorem replaces_of_head? {xs ys : List Char} (h : xs.head? = ys.head?) : Replaces xs ys := by
  refine ⟨?_, fun hline => h.trans hline⟩
  rintro rfl
  exact List.head?_eq_none_iff.mp h

/-- The sections in front of a cut stay what they are if what is put in the place of the others
begins with the same character, in a section of the same kind. -/
theorem all_front {cs more : List Char} {before after : List Section}
    (h : all cs = before ++ after) (hhead : more.head? = (join after).head?)
    (hkind : (all more).head?.map kind = after.head?.map kind) :
    all (join before ++ more) = before ++ all more := by
  -- a section ends where it did if the one character behind it is the same
  induction before generalizing cs with
  | nil => rfl
  | cons s before ih =>
    rw [List.cons_append] at h
    have hbehind : (join before ++ more).head? = (join (before ++ after)).head? := by
      rw [join, join, List.flatMap_append]
      exact head?_append_congr _ hhead
    by_cases hs : s.kind = .code
    · obtain ⟨kind, text⟩ := s
      cases hs
      obtain ⟨rest, -, hplain, hrest, htext, hnext⟩ := plain_of_all h
      have hnext' : ∀ s ∈ (before ++ all more).head?, s.kind ≠ .code := by
        cases before with
        | nil => exact kind_ne_of_head? hkind hnext
        | cons => exact hnext
      have hplain' : Plain text (join before ++ more) :=
        hplain.congr (by rw [hbehind, ← hrest, join_all])
      calc all (join (⟨.code, text⟩ :: before) ++ more)
          = all (text ++ (join before ++ more)) := congrArg all (List.append_assoc ..)
        _ = putCode text (before ++ all more) := by rw [hplain'.all_append, ih hrest]
        _ = ⟨.code, text⟩ :: (before ++ all more) := putCode_of_head htext hnext'
    · obtain ⟨rest, hopen, hrest⟩ := opening?_of_all h hs
      have hreplaces : Replaces (join before ++ more) rest :=
        replaces_of_head? (by rw [hbehind, ← hrest, join_all])
      calc all (join (s :: before) ++ more)
          = all (s.text ++ (join before ++ more)) := congrArg all (List.append_assoc ..)
        _ = s :: (before ++ all more) := by
          rw [all_of_opening (opening?_replace hopen hreplaces), ih hrest]

/-! ### Quoted texts that are closed -/

/-- Whether a text ends with the first quote that no backslash takes along. -/
def closes (quote : Char) : List Char → Bool
  | [] => false
  | '\\' :: _ :: cs => closes quote cs
  | c :: cs => if c = quote then cs.isEmpty else closes quote cs

/-- Whether a quoted text ends with the quote that it begins with. -/
def isClosed (s : Section) : Bool :=
  match s.text with
  | [] => false
  | quote :: cs => closes quote cs

theorem takeQuoted_of_closes {quote : Char} (hquote : quote ≠ '\\') {cs : List Char}
    (h : closes quote cs) (seen more : List Char) :
    takeQuoted quote seen (cs ++ more) = (seen.reverse ++ cs, more) := by
  fun_induction closes quote cs generalizing seen with
  | case1 => cases h
  | case2 c cs ih =>
    rw [List.cons_append, List.cons_append, takeQuoted, ih h]
    simp
  | case3 cs hpair =>
    obtain rfl := List.isEmpty_iff.mp h
    rw [List.singleton_append, takeQuoted, if_pos rfl, List.reverse_cons]
    exact fun _ _ hslash => absurd hslash hquote
  | case4 c cs hpair hc ih =>
    rw [List.cons_append, takeQuoted, if_neg hc, ih h]
    · simp
    -- a closed text does not end with a backslash
    · intro d ds hslash hds
      cases cs with
      | nil => cases h
      | cons e es => exact hpair e es hslash rfl

/-- A closed text ends with its quote. -/
theorem eq_concat_of_closes {quote : Char} {cs : List Char} (h : closes quote cs) :
    ∃ front, cs = front ++ [quote] := by
  fun_induction closes quote cs with
  | case1 => cases h
  | case2 c cs ih =>
    obtain ⟨front, rfl⟩ := ih h
    exact ⟨'\\' :: c :: front, rfl⟩
  | case3 cs hpair =>
    obtain rfl := List.isEmpty_iff.mp h
    exact ⟨[], rfl⟩
  | case4 c cs hpair hc ih =>
    obtain ⟨front, rfl⟩ := ih h
    exact ⟨c :: front, rfl⟩

/-- A quoted text that is closed opens in the same way in front of any text, and ends with a
quote. -/
theorem opening?_of_isClosed {cs rest : List Char} {s : Section}
    (h : opening? cs = some (s, rest)) (hkind : s.kind = .quoted) (hclosed : s.isClosed) :
    (∀ more, opening? (s.text ++ more) = some (s, more)) ∧
      ∃ front quote, s.text = front ++ [quote] ∧ isQuote quote := by
  obtain ⟨tail, -, rfl, -⟩ | ⟨tail, -, rfl, -⟩ | ⟨quote, tail, hquote, -, rfl, -⟩ :=
    opening?_cases h
  · cases hkind
  · cases hkind
  · have hcloses : closes quote (takeQuoted quote [] tail).1 := hclosed
    refine ⟨fun more => ?_, ?_⟩
    · show opening? (quote :: ((takeQuoted quote [] tail).1 ++ more)) = _
      rw [opening?_quoted hquote,
        takeQuoted_of_closes (ne_backslash_of_isQuote hquote) hcloses [] more]
      rfl
    · obtain ⟨front, hfront⟩ := eq_concat_of_closes hcloses
      exact ⟨quote :: front, quote, congrArg (quote :: ·) hfront, hquote⟩

end Section

/-! ### What a statement means to the server -/

theorem isTerminator_of_isQuote {c : Char} (h : isQuote c) : isTerminator c = false := by
  simp only [isQuote, Bool.or_eq_true, beq_iff_eq] at h
  have hmark : c = Char.ofNat 0x27 ∨ c = Char.ofNat 0x22 ∨ c = Char.ofNat 0x60 := by
    rcases h with (h | h) | h
    · exact .inl (by rw [← h, Char.ofNat_toNat])
    · exact .inr (.inl (by rw [← h, Char.ofNat_toNat]))
    · exact .inr (.inr (by rw [← h, Char.ofNat_toNat]))
  rcases hmark with rfl | rfl | rfl <;> decide

/-- A section that means nothing is a comment, or code of white space and semicolons. -/
theorem Section.of_not_isMeaningful {s : Section} (h : s.isMeaningful = false) :
    s.kind = .comment ∨ (s.kind = .code ∧ ∀ c ∈ s.text, isTerminator c) := by
  obtain ⟨kind, text⟩ := s
  cases kind with
  | code => exact .inr ⟨rfl, by simpa [isMeaningful] using h⟩
  | quoted => cases h
  | comment => exact .inl rfl

/-- What is left when the end of a list is dropped: nothing, or all up to the last item that is
not dropped. -/
theorem dropWhile_reverse_cases {α : Type} (p : α → Bool) (xs : List α) :
    (xs.reverse.dropWhile p = [] ∧ ∀ x ∈ xs, p x) ∨
      ∃ before last after, xs = before ++ last :: after ∧ p last = false ∧ (∀ x ∈ after, p x) ∧
        xs.reverse.dropWhile p = last :: before.reverse := by
  have hsplit : xs.reverse.takeWhile p ++ xs.reverse.dropWhile p = xs.reverse :=
    List.takeWhile_append_dropWhile
  have hhead := List.head?_dropWhile_not p xs.reverse
  have hskipped : ∀ x ∈ xs.reverse.takeWhile p, p x := fun x hx => List.mem_takeWhile_imp hx
  generalize xs.reverse.takeWhile p = skipped at hsplit hskipped
  cases hkept : xs.reverse.dropWhile p with
  | nil =>
    rw [hkept, List.append_nil] at hsplit
    subst hsplit
    exact .inl ⟨rfl, fun x hx => hskipped x (List.mem_reverse.mpr hx)⟩
  | cons last front =>
    rw [hkept] at hsplit hhead
    refine .inr ⟨front.reverse, last, skipped.reverse, ?_, by simpa using hhead,
      fun x hx => hskipped x (List.mem_reverse.mp hx), by rw [List.reverse_reverse]⟩
    rw [← List.reverse_reverse xs, ← hsplit]
    simp

/-- Something is left of a section that means something when terminators are dropped at its end,
and all of it if it is quoted text. -/
theorem Section.dropEndWhile_of_isMeaningful {s : Section} (h : s.isMeaningful)
    (hquoted : s.kind = .quoted → ∃ front quote, s.text = front ++ [quote] ∧ isQuote quote) :
    dropEndWhile isTerminator s.text ≠ [] ∧
      (s.kind = .quoted → dropEndWhile isTerminator s.text = s.text) := by
  obtain ⟨kind, text⟩ := s
  cases kind with
  | code =>
    refine ⟨fun hnil => ?_, nofun⟩
    obtain ⟨back, htext, hback⟩ := dropEndWhile_parts isTerminator text
    obtain ⟨c, hc, hmeans⟩ := List.any_eq_true.mp h
    rw [hnil, List.nil_append] at htext
    rw [hback c (htext ▸ hc)] at hmeans
    cases hmeans
  | quoted =>
    obtain ⟨front, quote, rfl, hquote⟩ := hquoted rfl
    have hlast : dropEndWhile isTerminator [quote] = [quote] := by
      rw [dropEndWhile, List.reverse_singleton,
        List.dropWhile_cons_of_neg (by simp [isTerminator_of_isQuote hquote])]
      rfl
    have hkept : dropEndWhile isTerminator (front ++ [quote]) = front ++ [quote] := by
      rw [dropEndWhile_append front (by rw [hlast]; exact List.cons_ne_nil quote []), hlast]
    exact ⟨by simp [hkept], fun _ => hkept⟩
  | comment => cases h

/-! ### The statement with its output format -/

/-- What the name of the output format is put behind a statement with. -/
def formatClause : List Char := " FORMAT JSONCompact".toList

theorem withFormat_toList (sql : String) :
    (withFormat sql).toList = meaningfulPart sql.toList ++ formatClause := by
  rw [withFormat, String.toList_append, String.toList_ofList]
  rfl

theorem formatClause_eq_cons : ∃ rest, formatClause = ' ' :: rest := ⟨_, rfl⟩

theorem all_formatClause : all formatClause = [⟨.code, formatClause⟩] := by
  have hinert : ∀ c ∈ formatClause, isInert c := List.all_eq_true.mp (by decide +kernel)
  obtain ⟨rest, hrest⟩ := formatClause_eq_cons
  have hne : formatClause ≠ [] := by rw [hrest]; exact List.cons_ne_nil _ _
  rw [(StaysCode.of_isInert hinert).all_eq, ofCode_of_ne_nil hne]

/-- Behind code that is cut short, the clause goes on with the code. -/
theorem all_code_formatClause {cs text trail : List Char} {rest : List Section}
    (h : all cs = ⟨.code, text ++ trail⟩ :: rest) :
    all (text ++ formatClause) = [⟨.code, text ++ formatClause⟩] := by
  obtain ⟨more, -, hplain, -⟩ := plain_of_all h
  obtain ⟨tail, htail⟩ := formatClause_eq_cons
  have hplain' : Plain text formatClause := htail ▸ hplain.take (by decide) (by decide)
  rw [hplain'.all_append, all_formatClause]
  rfl

/-- What is put behind the beginning of a section leaves the sections in front of it. -/
theorem all_before {cs text trail more : List Char} {before after : List Section}
    {last : Section} (h : all cs = before ++ last :: after) (htext : last.text = text ++ trail)
    (hne : text ≠ []) (hkind : (all (text ++ more)).head?.map kind = some last.kind) :
    all (join before ++ text ++ more) = before ++ all (text ++ more) := by
  obtain ⟨c, cs', rfl⟩ := List.exists_cons_of_ne_nil hne
  have hhead : (c :: cs' ++ more).head? = (join (last :: after)).head? := by
    rw [join, List.flatMap_cons, htext]
    rfl
  rw [List.append_assoc]
  exact all_front h hhead hkind

/-- A statement that means something is kept up to a point in its last section that does. -/
theorem meaningfulPart_of_last {cs : List Char} {before : List Section} {last : Section}
    (h : (all cs).reverse.dropWhile (fun s => !s.isMeaningful) = last :: before.reverse)
    (hlast : dropEndWhile isTerminator last.text ≠ []) :
    meaningfulPart cs = join before ++ dropEndWhile isTerminator last.text := by
  have hjoin : join (before ++ [last]) = join before ++ last.text := by
    rw [join, List.flatMap_append, List.flatMap_singleton]
    rfl
  rw [meaningfulPart, h, List.reverse_cons, List.reverse_reverse, hjoin,
    dropEndWhile_append _ hlast]

/-- The statement is kept up to the end of `text`, behind the sections `kept`.  What is cut off is
the rest of the code there and whole sections that mean nothing, and the clause becomes code in the
place of them. -/
structure Kept (cs : List Char) (kept : List Section) (text trail : List Char)
    (dropped : List Section) : Prop where
  sections : all cs = kept ++ ofCode (text ++ trail) ++ dropped
  trail : ∀ c ∈ trail, isTerminator c
  dropped : ∀ s ∈ dropped, s.isMeaningful = false
  part : meaningfulPart cs = join kept ++ text
  clause : all (join kept ++ text ++ formatClause) = kept ++ [⟨.code, text ++ formatClause⟩]

namespace Kept

variable {cs : List Char} {before after : List Section} {last : Section}

theorem of_none (hpart : meaningfulPart cs = []) (hnone : ∀ s ∈ all cs, s.isMeaningful = false) :
    Kept cs [] [] [] (all cs) where
  sections := by simp [ofCode]
  trail := List.forall_mem_nil _
  dropped := hnone
  part := hpart
  clause := all_formatClause

/-- Behind a quoted text that is closed, the clause is a section of its own. -/
theorem of_quoted (h : all cs = before ++ last :: after) (hkind : last.kind = .quoted)
    (hclosed : last.isClosed) (hafter : ∀ s ∈ after, s.isMeaningful = false)
    (hpart : (all cs).reverse.dropWhile (fun s => !s.isMeaningful) = last :: before.reverse)
    (hlast : last.isMeaningful) : Kept cs (before ++ [last]) [] [] after := by
  have hcode : last.kind ≠ .code := by
    rw [hkind]
    rintro ⟨⟩
  obtain ⟨more, hopen, -⟩ := opening?_of_all (all_join_of_append h) hcode
  obtain ⟨hreopen, hquote⟩ := opening?_of_isClosed hopen hkind hclosed
  obtain ⟨hne, hwhole⟩ := dropEndWhile_of_isMeaningful hlast fun _ => hquote
  have hmeaning := meaningfulPart_of_last hpart hne
  rw [hwhole hkind] at hmeaning hne
  have hall : all (last.text ++ formatClause) = [last, ⟨.code, formatClause⟩] := by
    rw [all_of_opening (hreopen _), all_formatClause]
  have hfront := all_before h (List.append_nil _).symm hne (by rw [hall]; rfl)
  have hjoin : join (before ++ [last]) = join before ++ last.text := by simp [join]
  refine ⟨?_, List.forall_mem_nil _, hafter, ?_, ?_⟩
  · rw [h]
    simp [ofCode]
  · rw [hmeaning, hjoin, List.append_nil]
  · rw [List.append_nil, hjoin, hfront, hall]
    simp

/-- Behind code, the clause goes on with it. -/
theorem of_code (h : all cs = before ++ last :: after) (hkind : last.kind = .code)
    (hafter : ∀ s ∈ after, s.isMeaningful = false)
    (hpart : (all cs).reverse.dropWhile (fun s => !s.isMeaningful) = last :: before.reverse)
    (hlast : last.isMeaningful) : ∃ text trail, Kept cs before text trail after := by
  obtain ⟨hne, -⟩ := dropEndWhile_of_isMeaningful hlast fun hquoted => by
    rw [hkind] at hquoted
    cases hquoted
  have hmeaning := meaningfulPart_of_last hpart hne
  obtain ⟨trail, htext, htrail⟩ := dropEndWhile_parts isTerminator last.text
  generalize dropEndWhile isTerminator last.text = text at hne hmeaning htext
  obtain rfl : last = ⟨.code, text ++ trail⟩ := by rw [← hkind, ← htext]
  have hall := all_code_formatClause (all_join_of_append h)
  have hfront := all_before h rfl hne (by rw [hall]; rfl)
  refine ⟨text, trail, ?_, htrail, hafter, hmeaning, ?_⟩
  · rw [h, ofCode_of_ne_nil (by simp [hne])]
    simp
  · rw [hfront, hall]

/-- The parts of a statement are the statement. -/
theorem toList_eq {kept dropped : List Section} {text trail : List Char}
    (h : Kept cs kept text trail dropped) :
    cs = join kept ++ text ++ (trail ++ join dropped) := by
  calc cs = join (kept ++ ofCode (text ++ trail) ++ dropped) := by rw [← h.sections, join_all]
    _ = join kept ++ join (ofCode (text ++ trail)) ++ join dropped := by
      simp only [join, List.flatMap_append]
    _ = join kept ++ text ++ (trail ++ join dropped) := by
      rw [join_ofCode]
      simp only [List.append_assoc]

end Kept

theorem exists_kept {cs : List Char}
    (hclosed : ∀ s ∈ all cs, s.kind = .quoted → s.isClosed) :
    ∃ kept text trail dropped, Kept cs kept text trail dropped := by
  rcases dropWhile_reverse_cases (fun s => !s.isMeaningful) (all cs) with
    ⟨hpart, hnone⟩ | ⟨before, last, after, hsections, hlast, hafter, hpart⟩
  · have hempty : meaningfulPart cs = [] := by
      rw [meaningfulPart, hpart]
      rfl
    exact ⟨_, _, _, _, Kept.of_none hempty fun s hs => by simpa using hnone s hs⟩
  have hafter : ∀ s ∈ after, s.isMeaningful = false := fun s hs => by simpa using hafter s hs
  have hlast : last.isMeaningful := by simpa using hlast
  have hin : last ∈ all cs := by simp [hsections]
  cases hkind : last.kind with
  | code =>
    obtain ⟨text, trail, hkept⟩ := Kept.of_code hsections hkind hafter hpart hlast
    exact ⟨_, _, _, _, hkept⟩
  | quoted =>
    exact ⟨_, _, _, _, Kept.of_quoted hsections hkind (hclosed last hin hkind) hafter hpart hlast⟩
  | comment =>
    rw [isMeaningful, hkind] at hlast
    cases hlast

/-- The output format is never taken into a comment or a quoted text.  A statement whose quoted
texts are all closed is kept up to a point behind which it has whole comments, white space and
semicolons only: the clause is put there, and it goes on with the code that ends there, or is a
section of code of its own.  The sections in front stay as they are. -/
theorem withFormat_in_code {sql : String}
    (hclosed : ∀ s ∈ all sql.toList, s.kind = .quoted → s.isClosed) :
    ∃ kept text trail dropped,
      all sql.toList = kept ++ ofCode (text ++ trail) ++ dropped ∧
      (∀ c ∈ trail, isTerminator c) ∧
      (∀ s ∈ dropped, s.kind = .comment ∨ (s.kind = .code ∧ ∀ c ∈ s.text, isTerminator c)) ∧
      sql.toList = join kept ++ text ++ (trail ++ join dropped) ∧
      (withFormat sql).toList = join kept ++ text ++ formatClause ∧
      all (withFormat sql).toList = kept ++ [⟨.code, text ++ formatClause⟩] := by
  obtain ⟨kept, text, trail, dropped, h⟩ := exists_kept hclosed
  have hformat : (withFormat sql).toList = join kept ++ text ++ formatClause := by
    rw [withFormat_toList, h.part]
  exact ⟨kept, text, trail, dropped, h.sections, h.trail,
    fun s hs => of_not_isMeaningful (h.dropped s hs), h.toList_eq, hformat, hformat ▸ h.clause⟩

theorem withFormat_in_code_comments :
    (∀ s ∈ all "SELECT '--;' /* a */ ; -- b\n/* open".toList, s.kind = .quoted → s.isClosed) ∧
      ∃ kept text, all (withFormat "SELECT '--;' /* a */ ; -- b\n/* open").toList =
        kept ++ [⟨.code, text ++ formatClause⟩] := by
  have hclosed : ∀ s ∈ all "SELECT '--;' /* a */ ; -- b\n/* open".toList,
      s.kind = .quoted → s.isClosed := by decide +kernel
  obtain ⟨kept, text, -, -, -, -, -, -, -, hall⟩ := withFormat_in_code hclosed
  exact ⟨hclosed, kept, text, hall⟩

/-- A quoted text that is left open takes the clause. -/
example : all (withFormat "SELECT 'a").toList =
    [⟨.code, "SELECT ".toList⟩, ⟨.quoted, "'a FORMAT JSONCompact".toList⟩] := by decide +kernel

end SchemaMigration.ClickHouse
