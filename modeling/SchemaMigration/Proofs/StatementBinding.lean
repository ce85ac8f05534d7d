import Mathlib.Data.List.Chain
import SchemaMigration.Proofs.LiteralSections
/-! # The sections of a statement with arguments

A statement with arguments is a row of pieces: the characters of the query's code, the query's
other sections as they are, and the literals of the arguments in the place of the placeholders
(`pieces`).  Its sections are those of its pieces one after another, with neighbouring code
joined, so no literal changes what the query is made of, unless one that begins with a minus is
put directly behind a minus of the query: the two then begin a comment
(`bind_sections_iff`, `minus_opens_comment`). -/
namespace SchemaMigration.ClickHouse

open Section

/-- A part of a statement with arguments. -/
inductive Piece where
  /-- A section of the query, or a character of its code. -/
  | kept (s : Section)
  /-- What is written for an argument. -/
  | literal (text : List Char)
  deriving DecidableEq, Repr

namespace Piece

/-- The characters of a piece. -/
def text : Piece → List Char
  | kept s => s.text
  | literal text => text

/-- The sections of a piece alone. -/
def sections : Piece → List Section
  | kept s => [s]
  | literal text => all text

def kept? : Piece → Option Section
  | kept s => some s
  | literal _ => none

def literal? : Piece → Option (List Char)
  | kept _ => none
  | literal text => some text

/-- Whether a piece and the next one begin a comment between them. -/
def meets : Piece → Piece → Bool
  | kept s, literal text => s = ⟨.code, ['-']⟩ && text.head? = some '-'
  | _, _ => false

end Piece

/-- What a character of code becomes, and the literals that are left. -/
def codePiece (left : List (List Char)) (c : Char) : Piece × List (List Char) :=
  match left with
  | [] => (.kept ⟨.code, [c]⟩, [])
  | l :: rest => if c = '?' then (.literal l, rest) else (.kept ⟨.code, [c]⟩, l :: rest)

/-- What code becomes, and the literals that are left. -/
def codePieces (left : List (List Char)) : List Char → List Piece × List (List Char)
  | [] => ([], left)
  | c :: cs =>
    let (p, left) := codePiece left c
    let (ps, left) := codePieces left cs
    (p :: ps, left)

/-- The pieces of a statement, whose placeholders take the literals in order. -/
def pieces : List (List Char) → List Section → List Piece
  | _, [] => []
  | left, s :: rest =>
    if s.kind = .code then
      let (ps, left) := codePieces left s.text
      ps ++ pieces left rest
    else .kept s :: pieces left rest

/-- The text of pieces in order. -/
def textOf (ps : List Piece) : List Char := ps.flatMap Piece.text

/-- The sections of pieces in order. -/
def sectionsOf (ps : List Piece) : List Section := merge (ps.flatMap Piece.sections)

/-- No piece begins a comment together with the next one. -/
def Apart (ps : List Piece) : Prop := ps.IsChain fun p q => p.meets q = false

instance (ps : List Piece) : Decidable (Apart ps) :=
  inferInstanceAs (Decidable (ps.IsChain fun p q => p.meets q = false))

/-! ### A statement is its pieces -/

theorem codePiece_placeholder (l : List Char) (left : List (List Char)) :
    codePiece (l :: left) '?' = (.literal l, left) := rfl

theorem codePiece_kept {left : List (List Char)} {c : Char} (h : c = '?' → left = []) :
    codePiece left c = (.kept ⟨.code, [c]⟩, left) := by
  cases left with
  | nil => rfl
  | cons l left => exact if_neg fun hc => nomatch h hc

/-- A character of code is a placeholder that takes the first literal, or it is kept. -/
theorem codePiece_cases (left : List (List Char)) (c : Char) :
    (∃ l rest, left = l :: rest ∧ c = '?' ∧ codePiece left c = (.literal l, rest)) ∨
      codePiece left c = (.kept ⟨.code, [c]⟩, left) := by
  by_cases hkept : c = '?' → left = []
  · exact .inr (codePiece_kept hkept)
  · obtain ⟨rfl, hleft⟩ := Classical.not_imp.mp hkept
    obtain ⟨l, rest, rfl⟩ := List.exists_cons_of_ne_nil hleft
    exact .inl ⟨l, rest, rfl, rfl, rfl⟩

theorem codePieces_cons (left : List (List Char)) (c : Char) (cs : List Char) :
    codePieces left (c :: cs) =
      ((codePiece left c).1 :: (codePieces (codePiece left c).2 cs).1,
        (codePieces (codePiece left c).2 cs).2) := rfl

theorem fillCode_eq (left : List (List Char)) (cs : List Char) :
    fillCode left cs = (textOf (codePieces left cs).1, (codePieces left cs).2) := by
  fun_induction fillCode left cs with
  | case1 left => rfl
  | case2 l left cs out left' h ih =>
    obtain ⟨hout, hleft⟩ := Prod.mk.inj (h.symm.trans ih)
    rw [codePieces_cons, codePiece_placeholder, hout, hleft]
    rfl
  | case3 left c cs hplace out left' h ih =>
    have hkept : c = '?' → left = [] := fun hc => by
      cases left with
      | nil => rfl
      | cons l left => exact (hplace l left rfl hc).elim
    obtain ⟨hout, hleft⟩ := Prod.mk.inj (h.symm.trans ih)
    rw [codePieces_cons, codePiece_kept hkept, hout, hleft]
    rfl

theorem fill_eq (left : List (List Char)) (sections : List Section) :
    fill left sections = textOf (pieces left sections) := by
  induction sections generalizing left with
  | nil => rfl
  | cons s rest ih =>
    by_cases hs : s.kind = .code
    · rw [fill, if_pos hs, pieces, if_pos hs, fillCode_eq]
      show textOf _ ++ fill _ rest = _
      rw [ih, textOf, textOf, textOf, List.flatMap_append]
    · rw [fill, if_neg hs, pieces, if_neg hs, ih]
      rfl

/-- The placeholders of code take the first literals, and leave the others. -/
theorem codePieces_literals (left : List (List Char)) (cs : List Char) :
    (codePieces left cs).1.filterMap Piece.literal? = left.take (cs.count '?') ∧
      (codePieces left cs).2 = left.drop (cs.count '?') := by
  induction cs generalizing left with
  | nil => exact ⟨(List.take_zero).symm, (List.drop_zero).symm⟩
  | cons c cs ih =>
    rw [codePieces_cons]
    by_cases hc : c = '?'
    · subst hc
      rw [List.count_cons_self]
      cases left with
      | nil =>
        obtain ⟨hfirst, hrest⟩ := ih []
        rw [List.take_nil] at hfirst ⊢
        rw [List.drop_nil] at hrest ⊢
        exact ⟨hfirst, hrest⟩
      | cons l left =>
        rw [codePiece_placeholder, List.take_succ_cons, List.drop_succ_cons]
        exact ⟨congrArg (l :: ·) (ih left).1, (ih left).2⟩
    · rw [codePiece_kept fun h => absurd h hc, List.count_cons_of_ne hc]
      exact ih left

theorem placeholders_cons (s : Section) (rest : List Section) :
    placeholders (s :: rest) = (if s.kind = .code then s.text.count '?' else 0) +
      placeholders rest := by
  unfold placeholders
  by_cases hs : s.kind = .code
  · rw [List.filter_cons_of_pos (by simpa using hs), List.flatMap_cons, List.count_append,
      if_pos hs]
  · rw [List.filter_cons_of_neg (by simpa using hs), if_neg hs, Nat.zero_add]

theorem pieces_literals (left : List (List Char)) (sections : List Section) :
    (pieces left sections).filterMap Piece.literal? = left.take (placeholders sections) := by
  induction sections generalizing left with
  | nil => exact (List.take_zero).symm
  | cons s rest ih =>
    rw [placeholders_cons, pieces]
    by_cases hs : s.kind = .code
    · obtain ⟨hfirst, hleft⟩ := codePieces_literals left s.text
      rw [if_pos hs, if_pos hs, List.filterMap_append, hfirst, ih, hleft, List.take_add]
    · rw [if_neg hs, if_neg hs, Nat.zero_add]
      exact ih left

theorem codePieces_kept (left : List (List Char)) (cs : List Char) {s : Section}
    (h : s ∈ (codePieces left cs).1.filterMap Piece.kept?) : s.kind = .code := by
  induction cs generalizing left with
  | nil => cases h
  | cons c cs ih =>
    rw [codePieces_cons] at h
    obtain ⟨l, rest, -, -, hp⟩ | hp := codePiece_cases left c
    · rw [hp] at h
      exact ih _ h
    · rw [hp] at h
      rcases List.mem_cons.mp h with rfl | h
      · rfl
      · exact ih _ h

/-- The sections of the query that are not code are kept as they are, in order. -/
theorem pieces_kept (left : List (List Char)) (sections : List Section) :
    ((pieces left sections).filterMap Piece.kept?).filter (·.kind ≠ .code) =
      sections.filter (·.kind ≠ .code) := by
  induction sections generalizing left with
  | nil => rfl
  | cons s rest ih =>
    rw [pieces]
    by_cases hs : s.kind = .code
    · have hcode :
          ((codePieces left s.text).1.filterMap Piece.kept?).filter (·.kind ≠ .code) = [] :=
        List.filter_eq_nil_iff.mpr fun s' hs' => by simpa using codePieces_kept left s.text hs'
      rw [if_pos hs, List.filter_cons_of_neg (by simpa using hs), List.filterMap_append,
        List.filter_append, hcode, ih]
      rfl
    · rw [if_neg hs, List.filter_cons_of_pos (by simpa using hs), ← ih left]
      exact List.filter_cons_of_pos (by simpa using hs)

/-! ### The sections of pieces -/

theorem pieces_opening {cs rest : List Char} {s : Section} (h : opening? cs = some (s, rest))
    (left : List (List Char)) : pieces left (all cs) = .kept s :: pieces left (all rest) := by
  rw [all_of_opening h, pieces, if_neg (kind_of_opening h)]

/-- A character of code is the first piece, whatever code follows it. -/
theorem pieces_putCode (left : List (List Char)) (c : Char) (sections : List Section) :
    pieces left (putCode [c] sections) =
      (codePiece left c).1 :: pieces (codePiece left c).2 sections := by
  cases sections with
  | nil => rfl
  | cons s rest =>
    by_cases hs : s.kind = .code
    · rw [putCode, if_pos hs, pieces, if_pos rfl, pieces, if_pos hs]
      rfl
    · rw [putCode, if_neg hs]
      rfl

theorem pieces_code {c : Char} {cs : List Char} (h : opening? (c :: cs) = none)
    (left : List (List Char)) : pieces left (all (c :: cs)) =
      (codePiece left c).1 :: pieces (codePiece left c).2 (all cs) := by
  rw [all_of_code h, pieces_putCode]

/-- A statement begins as its query does, or with a literal. -/
theorem head_pieces (left : List (List Char)) (cs : List Char) :
    ((textOf (pieces left (all cs))).head? = cs.head? ∧
        ∀ q ∈ (pieces left (all cs)).head?, q.literal? = none) ∨
      ∃ l ps, l ∈ left ∧ pieces left (all cs) = .literal l :: ps := by
  cases hopen : opening? cs with
  | some p =>
    obtain ⟨s, rest⟩ := p
    obtain ⟨c, text, hs⟩ : ∃ c text, s.text = c :: text := by
      obtain ⟨_, _, rfl, _⟩ | ⟨_, _, rfl, _⟩ | ⟨_, _, _, _, rfl, _⟩ := opening?_cases hopen <;>
        exact ⟨_, _, rfl⟩
    have htext : textOf (.kept s :: pieces left (all rest)) =
        c :: (text ++ textOf (pieces left (all rest))) := by
      rw [textOf, List.flatMap_cons, Piece.text, hs]
      rfl
    refine .inl ⟨?_, ?_⟩
    · rw [pieces_opening hopen, htext, ← append_of_opening hopen, hs]
      rfl
    · rw [pieces_opening hopen]
      rintro q ⟨⟩
      rfl
  | none =>
    cases cs with
    | nil =>
      rw [all_nil]
      exact .inl ⟨rfl, nofun⟩
    | cons c cs =>
      rw [pieces_code hopen]
      obtain ⟨l, rest, rfl, -, hp⟩ | hp := codePiece_cases left c
      · rw [hp]
        exact .inr ⟨l, _, List.mem_cons_self, rfl⟩
      · rw [hp]
        refine .inl ⟨rfl, ?_⟩
        rintro q ⟨⟩
        rfl

theorem meets_literal {c : Char} {text : List Char} :
    (Piece.kept ⟨.code, [c]⟩).meets (.literal text) = false ↔ c = '-' → text.head? ≠ some '-' := by
  simp [Piece.meets]

theorem meets_of_literal?_eq_none {q : Piece} (h : q.literal? = none) (p : Piece) :
    p.meets q = false := by
  cases q with
  | kept s => cases p <;> rfl
  | literal text => cases h

/-- A character of code opens something in front of the pieces behind it only if it is a minus that
meets the minus of a literal. -/
theorem opening?_cons_pieces {left : List (List Char)}
    (hleft : ∀ l ∈ left, ∃ c rest, l = c :: rest ∧ c ≠ '*') {c : Char} {cs : List Char}
    (h : opening? (c :: cs) = none) :
    opening? (c :: textOf (pieces left (all cs))) = none ↔
      ∀ q ∈ (pieces left (all cs)).head?, (Piece.kept ⟨.code, [c]⟩).meets q = false := by
  obtain ⟨hquote, hminus, hslash⟩ := opening?_eq_none_iff.mp h
  rw [opening?_eq_none_iff]
  rcases head_pieces left cs with ⟨hhead, hkept⟩ | ⟨l, ps, hl, hps⟩
  · rw [hhead]
    exact ⟨fun _ q hq => meets_of_literal?_eq_none (hkept q hq) _,
      fun _ => ⟨hquote, hminus, hslash⟩⟩
  · obtain ⟨d, rest, rfl, hd⟩ := hleft l hl
    have hstar : (textOf (pieces left (all cs))).head? = some d := by
      rw [hps]
      rfl
    rw [hstar, hps]
    constructor
    · rintro ⟨-, hmeet, -⟩ q ⟨⟩
      exact meets_literal.mpr hmeet
    · intro hapart
      exact ⟨hquote, meets_literal.mp (hapart _ rfl), fun _ => by simpa using hd⟩

theorem apart_cons {p : Piece} {ps : List Piece} :
    Apart (p :: ps) ↔ (∀ q ∈ ps.head?, p.meets q = false) ∧ Apart ps := List.isChain_cons

theorem meets_of_kind_ne {s : Section} (h : s.kind ≠ .code) (q : Piece) :
    (Piece.kept s).meets q = false := by
  cases q with
  | kept s' => rfl
  | literal text =>
    have hs : s ≠ ⟨.code, ['-']⟩ := by
      rintro rfl
      exact h rfl
    simp [Piece.meets, hs]

/-- A statement stands in the place of its query behind a section: it ends with it, and it goes on
with the end of a line if the query does. -/
theorem replaces_pieces (left : List (List Char)) (cs : List Char) :
    Replaces (textOf (pieces left (all cs))) cs := by
  constructor
  · rintro rfl
    rw [all_nil]
    rfl
  · intro hline
    obtain ⟨rest, rfl⟩ := List.head?_eq_some_iff.mp hline
    have hkept : '\n' = '?' → left = [] := fun hc => absurd hc (by decide)
    rw [pieces_code (opening?_of_isInert (by decide) rest), codePiece_kept hkept]
    rfl

/-- A section of the query stays one, so what stands behind it decides. -/
theorem all_opening_iff {cs rest : List Char} {s : Section} (h : opening? cs = some (s, rest))
    {ps : List Piece} (hps : Replaces (textOf ps) rest) :
    all (textOf (.kept s :: ps)) = sectionsOf (.kept s :: ps) ↔
      all (textOf ps) = sectionsOf ps := by
  have htext : all (textOf (.kept s :: ps)) = s :: all (textOf ps) :=
    all_of_opening (opening?_replace h hps)
  have hsections : sectionsOf (.kept s :: ps) = s :: sectionsOf ps :=
    put_of_ne (kind_of_opening h) _
  rw [htext, hsections, List.cons.injEq, and_iff_right rfl]

/-- A literal brings its own sections, so what stands behind it decides. -/
theorem all_literal_iff {l : List Char} (h : StandsAlone l) (ps : List Piece) :
    all (textOf (.literal l :: ps)) = sectionsOf (.literal l :: ps) ↔
      all (textOf ps) = sectionsOf ps := by
  have htext : all (textOf (.literal l :: ps)) = merge (all l ++ all (textOf ps)) := h _
  have hsections : sectionsOf (.literal l :: ps) =
      merge (all l ++ ps.flatMap Piece.sections) := rfl
  rw [htext, hsections, merge_append_inj, merge_all, ← sectionsOf]

/-- A character of code stays code exactly if nothing opens with it. -/
theorem all_code_iff (c : Char) (ps : List Piece) :
    all (textOf (.kept ⟨.code, [c]⟩ :: ps)) = sectionsOf (.kept ⟨.code, [c]⟩ :: ps) ↔
      opening? (c :: textOf ps) = none ∧ all (textOf ps) = sectionsOf ps := by
  have hsections : sectionsOf (.kept ⟨.code, [c]⟩ :: ps) = putCode [c] (sectionsOf ps) := rfl
  show all (c :: textOf ps) = _ ↔ _
  cases hopen : opening? (c :: textOf ps) with
  | none =>
    rw [all_of_code hopen, hsections, ← merge_all (textOf _), sectionsOf, putCode_merge_inj,
      merge_all, and_iff_right rfl]
  | some p =>
    -- what opens here is no code, but the pieces begin with code
    obtain ⟨text, more, hcode⟩ := putCode_eq_cons (List.cons_ne_nil c []) (sectionsOf ps)
    rw [all_of_opening hopen, hsections, hcode]
    refine iff_of_false (fun heq => ?_) fun happly => nomatch happly.1
    have hkind := kind_of_opening hopen
    rw [(List.cons.inj heq).1] at hkind
    exact hkind rfl

/-- A statement has the sections of its pieces exactly if no two of them begin a comment. -/
theorem all_textOf_iff {left : List (List Char)} (halone : ∀ l ∈ left, StandsAlone l)
    (hhead : ∀ l ∈ left, ∃ c rest, l = c :: rest ∧ c ≠ '*') (cs : List Char) :
    all (textOf (pieces left (all cs))) = sectionsOf (pieces left (all cs)) ↔
      Apart (pieces left (all cs)) := by
  induction cs using sections_induction generalizing left with
  | nil =>
    rw [all_nil]
    exact ⟨fun _ => List.isChain_nil, fun _ => all_nil⟩
  | opening cs s rest h ih =>
    have hmeets : ∀ q ∈ (pieces left (all rest)).head?, (Piece.kept s).meets q = false :=
      fun q _ => meets_of_kind_ne (kind_of_opening h) q
    rw [pieces_opening h, all_opening_iff h (replaces_pieces left rest), ih halone hhead,
      apart_cons, and_iff_right hmeets]
  | code c cs h ih =>
    rw [pieces_code h]
    obtain ⟨l, rest, rfl, -, hp⟩ | hp := codePiece_cases left c
    · have hrest := ih (fun l' hl' => halone l' (List.mem_cons_of_mem _ hl'))
        fun l' hl' => hhead l' (List.mem_cons_of_mem _ hl')
      have hmeets : ∀ q ∈ (pieces rest (all cs)).head?, (Piece.literal l).meets q = false :=
        fun _ _ => rfl
      rw [hp, all_literal_iff (halone l List.mem_cons_self), hrest, apart_cons,
        and_iff_right hmeets]
    · rw [hp, all_code_iff, apart_cons, opening?_cons_pieces hhead h, ih halone hhead]

/-! ### Statements with arguments -/

theorem fillCode_nil (cs : List Char) : fillCode [] cs = (cs, []) := by
  induction cs with
  | nil => rfl
  | cons c cs ih => rw [fillCode, ih]; exact nofun

theorem fill_nil (sections : List Section) : fill [] sections = join sections := by
  induction sections with
  | nil => rfl
  | cons s rest ih =>
    by_cases hs : s.kind = .code
    · rw [fill, if_pos hs, fillCode_nil]
      exact congrArg (s.text ++ ·) ih
    · rw [fill, if_neg hs]
      exact congrArg (s.text ++ ·) ih

theorem length_literals (vs : List Value) : (literals vs).length = vs.length := by
  induction vs with
  | nil => rfl
  | cons v vs ih => exact congrArg (· + 1) ih

/-- A statement that takes its arguments has its query filled in with the literals of all of
them. -/
theorem bind_ok {query sql : String} {args : List Value} (h : bind query args = .ok sql) :
    sql.toList = fill (literals args) (all query.toList) ∧
      (literals args).take (placeholders (all query.toList)) = literals args := by
  unfold bind at h
  by_cases hempty : args.isEmpty
  · rw [if_pos hempty] at h
    cases h
    rw [List.isEmpty_iff.mp hempty, literals, fill_nil, join_all]
    exact ⟨rfl, List.take_nil⟩
  · rw [if_neg hempty] at h
    by_cases hfew : args.length < placeholders (all query.toList)
    · rw [if_pos hfew] at h
      cases h
    by_cases hmany : placeholders (all query.toList) < args.length
    · rw [if_neg hfew, if_pos hmany] at h
      cases h
    rw [if_neg hfew, if_neg hmany] at h
    cases h
    refine ⟨String.toList_ofList, List.take_of_length_le ?_⟩
    rw [length_literals]
    omega

/-- A quoted text or comment of pieces is a piece of its own or in a literal. -/
theorem of_mem_sectionsOf {ps : List Piece} {s : Section} (h : s ∈ sectionsOf ps)
    (hkind : s.kind ≠ .code) :
    s ∈ (ps.filterMap Piece.kept?).filter (·.kind ≠ .code) ∨
      ∃ l ∈ ps.filterMap Piece.literal?, s ∈ all l := by
  have hmem : s ∈ (ps.flatMap Piece.sections).filter (·.kind ≠ .code) := by
    rw [← filter_merge, ← sectionsOf]
    exact List.mem_filter.mpr ⟨h, by simpa using hkind⟩
  obtain ⟨p, hp, hsp⟩ := List.mem_flatMap.mp (List.mem_filter.mp hmem).1
  cases p with
  | kept s' =>
    obtain rfl : s = s' := List.mem_singleton.mp hsp
    exact .inl (List.mem_filter.mpr
      ⟨List.mem_filterMap.mpr ⟨_, hp, rfl⟩, by simpa using hkind⟩)
  | literal l => exact .inr ⟨l, List.mem_filterMap.mpr ⟨_, hp, rfl⟩, hsp⟩

/-- A statement with arguments is a row of pieces: what the query is made of, with the literals of
the arguments in order in the place of its placeholders.  Its sections are those of the pieces
exactly if no piece begins a comment together with the next one; then each quoted text and each
comment in it is one of the query or lies inside the literal of an argument. -/
theorem bind_sections_iff {query sql : String} {args : List Value}
    (h : bind query args = .ok sql) :
    let ps := pieces (literals args) (all query.toList)
    textOf ps = sql.toList ∧
      ps.filterMap Piece.literal? = literals args ∧
      (ps.filterMap Piece.kept?).filter (·.kind ≠ .code) =
        (all query.toList).filter (·.kind ≠ .code) ∧
      (all sql.toList = sectionsOf ps ↔ Apart ps) ∧
      (Apart ps → ∀ s ∈ all sql.toList, s.kind ≠ .code →
        s ∈ all query.toList ∨ ∃ l ∈ literals args, s ∈ all l) := by
  intro ps
  obtain ⟨hsql, htake⟩ := bind_ok h
  have htext : textOf ps = sql.toList := by rw [hsql, fill_eq]
  have hliteral : ps.filterMap Piece.literal? = literals args := by rw [pieces_literals, htake]
  have hkept := pieces_kept (literals args) (all query.toList)
  have hiff : all sql.toList = sectionsOf ps ↔ Apart ps := by
    rw [← htext]
    refine all_textOf_iff (literals_standAlone args) (fun l hl => ?_) query.toList
    obtain ⟨v, -, rfl⟩ := mem_literals hl
    exact literal_head v
  refine ⟨htext, hliteral, hkept, hiff, fun hapart s hs hkind => ?_⟩
  rw [hiff.mpr hapart] at hs
  rcases of_mem_sectionsOf hs hkind with hin | hin
  · rw [hkept] at hin
    exact .inl (List.mem_filter.mp hin).1
  · exact .inr (hliteral ▸ hin)

theorem bind_sections_iff_quotes :
    bind "SELECT '?', ? -- ?" [.text "'; --"] = .ok "SELECT '?', '\\'; --' -- ?" ∧
      Apart (pieces (literals [.text "'; --"]) (all "SELECT '?', ? -- ?".toList)) ∧
      ∀ s ∈ all "SELECT '?', '\\'; --' -- ?".toList, s.kind ≠ .code →
        s ∈ all "SELECT '?', ? -- ?".toList ∨ ∃ l ∈ literals [.text "'; --"], s ∈ all l := by
  have hbind : bind "SELECT '?', ? -- ?" [.text "'; --"] = .ok "SELECT '?', '\\'; --' -- ?" :=
    (bind_of_count (by simp) (by decide +kernel)).trans (congrArg _ (by decide +kernel))
  have hapart : Apart (pieces (literals [.text "'; --"]) (all "SELECT '?', ? -- ?".toList)) := by
    decide +kernel
  exact ⟨hbind, hapart, (bind_sections_iff hbind).2.2.2.2 hapart⟩

/-- Not every statement with arguments keeps to its query: a negative number behind a minus begins
a comment with it. -/
theorem minus_opens_comment :
    ¬ ∀ (query sql : String) (args : List Value), bind query args = .ok sql →
      ∀ s ∈ all sql.toList, s.kind ≠ .code →
        s ∈ all query.toList ∨ ∃ l ∈ literals args, s.text <:+: l := by
  intro h
  have hbind : bind "SELECT 1 -?" [.int (-5)] = .ok "SELECT 1 --5" :=
    (bind_of_count (by simp) (by decide +kernel)).trans (congrArg _ (by decide +kernel))
  have hcomment : ⟨.comment, "--5".toList⟩ ∈ all "SELECT 1 --5".toList := by decide +kernel
  rcases h _ _ _ hbind _ hcomment (by decide) with hquery | ⟨l, hl, hinside⟩
  · exact absurd hquery (by decide +kernel)
  · obtain rfl : l = "-5".toList := by
      have : literals [.int (-5)] = ["-5".toList] := by decide +kernel
      rw [this] at hl
      exact List.mem_singleton.mp hl
    exact absurd hinside (by decide +kernel)

end SchemaMigration.ClickHouse
