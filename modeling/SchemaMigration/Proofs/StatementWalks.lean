import Mathlib.Data.List.Infix
import SchemaMigration.ClickHouse.Walk
import SchemaMigration.Proofs.BytePositions
import SchemaMigration.Proofs.SectionForms
/-! # Walks over statements

A statement is walked byte by byte, but its sections are made of characters.  At a position between
two characters the walk finds what opens there (`sight_of_opening`), and where that ends is again
such a position.  Inside a character all bytes are `0x80` or more: nothing opens there, and neither
a quote nor a backslash stands there (`run_high`, `quotedEnd_high`).  So a walk is always at an end
when its slices are those of the sections, and it makes no cut inside a character
(`slices_parted`). -/
namespace SchemaMigration.ClickHouse.Walk

open Text Utf8

variable {bytes high more : List UInt8} {i : Nat} {cs rest : List Char} {c : Char} {s : Section}

/-! ### Quotes -/

theorem isQuote_byte (h : c.toNat < 0x80) : isQuote (byte c) = Section.isQuote c := by
  have hsame {n : Nat} (hn : n < 256) : (byte c == n.toUInt8) = (c.toNat == n) := by
    rw [Bool.eq_iff_iff, beq_iff_eq, beq_iff_eq, ← UInt8.toNat_inj, toNat_byte h, toNat_toUInt8 hn]
  show (byte c == Nat.toUInt8 0x27 || byte c == Nat.toUInt8 0x22 || byte c == Nat.toUInt8 0x60) = _
  rw [hsame (by decide), hsame (by decide), hsame (by decide)]
  rfl

theorem lt_of_isQuote (h : Section.isQuote c) : c.toNat < 0x80 := by
  simp only [Section.isQuote, Bool.or_eq_true, beq_iff_eq] at h
  omega

theorem byte_ne_backslash (hlow : c.toNat < 0x80) (h : c ≠ '\\') : byte c ≠ backslash :=
  mt (byte_inj (a := '\\') (by decide) hlow).mp h

/-! ### Where quoted texts end -/

theorem quotedEnd_of_length_le {quote : UInt8} (h : bytes.length ≤ i) :
    quotedEnd bytes quote i = bytes.length := by
  rw [quotedEnd, dif_neg (Nat.not_lt.mpr h)]

/-- What is done at a byte. -/
theorem quotedEnd_at {quote b : UInt8} (h : bytes[i]? = some b) :
    quotedEnd bytes quote i =
      if b = backslash then quotedEnd bytes quote (i + 2)
      else if b = quote then i + 1 else quotedEnd bytes quote (i + 1) := by
  obtain ⟨hi, hb⟩ := List.getElem?_eq_some_iff.mp h
  rw [quotedEnd, dif_pos hi, hb]

theorem quotedEnd_backslash {quote : UInt8} (h : bytes[i]? = some backslash) :
    quotedEnd bytes quote i = quotedEnd bytes quote (i + 2) := by
  rw [quotedEnd_at h, if_pos rfl]

theorem quotedEnd_close {quote : UInt8} (hslash : quote ≠ backslash)
    (h : bytes[i]? = some quote) : quotedEnd bytes quote i = i + 1 := by
  rw [quotedEnd_at h, if_neg hslash, if_pos rfl]

theorem quotedEnd_pass {quote b : UInt8} (hslash : b ≠ backslash) (hclose : b ≠ quote)
    (h : bytes[i]? = some b) : quotedEnd bytes quote i = quotedEnd bytes quote (i + 1) := by
  rw [quotedEnd_at h, if_neg hslash, if_neg hclose]

/-- Bytes inside characters are passed. -/
theorem quotedEnd_high {quote : UInt8} (hquote : quote < 0x80) (hhigh : ∀ d ∈ high, 0x80 ≤ d)
    (h : bytes.drop i = high ++ more) :
    quotedEnd bytes quote i = quotedEnd bytes quote (i + high.length) := by
  have hpass (i : Nat) (d : UInt8) (hbyte : bytes[i]? = some d) (hd : 0x80 ≤ d) :
      quotedEnd bytes quote i = quotedEnd bytes quote (i + 1) :=
    quotedEnd_pass (ne_of_high (by decide) hd) (ne_of_high hquote hd) hbyte
  exact eq_across hpass hhigh h

/-- The end of a quoted text is the position of what follows it. -/
theorem quotedEnd_stands {quote : Char} (hquote : quote.toNat < 0x80) (hslash : quote ≠ '\\')
    (seen : List Char) (h : Stands bytes i cs) :
    Stands bytes (quotedEnd bytes (byte quote) i) (Section.takeQuoted quote seen cs).2 := by
  fun_induction Section.takeQuoted quote seen cs generalizing i with
  | case1 seen =>
    have hend : bytes.length ≤ i := h.length.ge
    rw [quotedEnd_of_length_le hend]
    exact .finish bytes
  | case2 seen c cs ih =>
    -- the backslash may take along the first byte of a character; its others are passed
    obtain ⟨hbyte, htail⟩ := h.step (by decide)
    obtain ⟨b, high, hb, -, hhigh⟩ := encodeChar_eq_cons c
    obtain ⟨-, hbehind⟩ := drop_eq_cons (htail.behind.trans (encode_cons_of_bytes hb cs))
    have hpassed : Stands bytes (i + 2 + high.length) cs := by
      have hpassed := htail.tail
      rwa [hb, List.length_cons, Nat.add_assoc, Nat.add_comm high.length,
        ← Nat.add_assoc 1, ← Nat.add_assoc] at hpassed
    rw [quotedEnd_backslash hbyte,
      quotedEnd_high (byte_lt hquote) (le_of_isContinuation hhigh) hbehind]
    exact ih hpassed
  | case3 seen cs hpair =>
    obtain ⟨hbyte, htail⟩ := h.step hquote
    rw [quotedEnd_close (byte_ne_backslash hquote hslash) hbyte]
    exact htail
  | case4 seen c cs hpair hc ih =>
    by_cases hlow : c.toNat < 0x80
    · obtain ⟨hbyte, htail⟩ := h.step hlow
      by_cases hback : c = '\\'
      -- the last byte of the statement is a backslash, so the walk ends behind the statement
      · have hcs : cs = [] := by
          cases cs with
          | nil => rfl
          | cons d ds => exact (hpair d ds hback rfl).elim
        subst hcs hback
        have hend : bytes.length ≤ i + 2 := Nat.le_succ_of_le htail.length.ge
        rw [quotedEnd_backslash hbyte, quotedEnd_of_length_le hend, Section.takeQuoted]
        exact .finish bytes
      · rw [quotedEnd_pass (byte_ne_backslash hlow hback) (mt (byte_inj hquote hlow).mp hc) hbyte]
        exact ih htail
    · have hbehind : bytes.drop i = encodeChar c ++ encode cs := h.behind
      rw [quotedEnd_high (byte_lt hquote) (le_of_mem_encodeChar hlow) hbehind]
      exact ih h.tail

/-! ### Where comments end -/

/-- A comment to the end of its line ends at the first line end behind it. -/
theorem line_stands (h : Stands bytes i cs) :
    Stands bytes ((find? [newline] (encode cs)).elim bytes.length (i + ·))
      (Section.takeLine cs).2 := by
  have hmark : [newline] = encode ['\n'] := rfl
  have hlow : ∀ d ∈ ['\n'], d.toNat < 0x80 := List.forall_mem_singleton.mpr (by decide)
  rw [hmark]
  rcases find?_encode_cases hlow [] cs with
    ⟨hcut, hfind⟩ | ⟨before, after, n, hcut, hfind, hlength⟩
  · have hnone : '\n' ∉ cs := mt (List.singleton_infix_iff _ _).mpr
      (Section.not_infix_of_cutAtFrom hcut)
    have hline : (Section.takeLine cs).2 = [] :=
      List.dropWhile_eq_nil_iff.mpr fun d hd => bne_iff_ne.mpr fun heq => hnone (heq ▸ hd)
    rw [hfind, hline]
    exact .finish bytes
  · obtain ⟨t, -, rfl, hfirst⟩ := Section.cutAtFrom_first (List.cons_ne_nil _ _) hcut
    rw [List.dropLast_singleton, List.append_nil, List.singleton_infix_iff] at hfirst
    rw [List.append_assoc, List.singleton_append] at h hlength hfind ⊢
    have hrun : ∀ d ∈ t, (d != '\n') = true := fun d hd =>
      bne_iff_ne.mpr (ne_of_mem_of_not_mem hd hfirst)
    have hline : (Section.takeLine (t ++ '\n' :: after)).2 = '\n' :: after :=
      (span_append_cons hrun rfl after).2
    have hbehind : (encode ('\n' :: after)).length = (encode after).length + 1 := rfl
    have hone : (encode ['\n']).length = 1 := rfl
    have hend := h.length
    rw [hfind, hline]
    refine h.move ?_
    rw [Option.elim]
    omega

/-- Any other comment ends behind the first mark that closes it. -/
theorem block_stands (h : Stands bytes (i + 2) cs) :
    Stands bytes ((find? [star, slash] (encode cs)).elim bytes.length (i + · + 4))
      (Section.takeBlock cs).2 := by
  have hmark : [star, slash] = encode ['*', '/'] := rfl
  have hlow : ∀ d ∈ ['*', '/'], d.toNat < 0x80 :=
    List.forall_mem_cons.mpr ⟨by decide, List.forall_mem_singleton.mpr (by decide)⟩
  rw [hmark]
  rcases find?_encode_cases hlow [] cs with
    ⟨hcut, hfind⟩ | ⟨before, after, n, hcut, hfind, hlength⟩
  · have hblock : (Section.takeBlock cs).2 = [] := by simp only [Section.takeBlock, cutAt, hcut]
    rw [hfind, hblock]
    exact .finish bytes
  · have hblock : (Section.takeBlock cs).2 = after := by simp only [Section.takeBlock, cutAt, hcut]
    obtain ⟨t, -, rfl, -⟩ := Section.cutAtFrom_first (List.cons_ne_nil _ _) hcut
    have htwo : (encode ['*', '/']).length = 2 := rfl
    have hend := h.length
    rw [hfind, hblock]
    refine h.move ?_
    rw [Option.elim]
    omega

/-! ### What opens at a position -/

/-- Where a section opens, the walk finds it, and its end is the position of what follows it. -/
theorem sight_of_opening (h : Stands bytes i cs) (hopen : Section.opening? cs = some (s, rest)) :
    ∃ b stop, bytes[i]? = some b ∧ sight bytes i b = some (.opens s.kind stop) ∧
      Stands bytes stop rest := by
  obtain ⟨tail, rfl, rfl, rfl⟩ | ⟨tail, rfl, rfl, rfl⟩ | ⟨quote, tail, hquote, rfl, rfl, rfl⟩ :=
    Section.opening?_cases hopen
  · obtain ⟨hbyte, htail⟩ := h.step (by decide)
    obtain ⟨hnext, -⟩ := htail.step (by decide)
    have hstop := line_stands h
    rw [Section.takeLine_cons_ne (by decide), Section.takeLine_cons_ne (by decide)] at hstop
    refine ⟨dash, _, hbyte, ?_, hstop⟩
    rw [sight, if_neg (by decide), if_pos ⟨rfl, hnext⟩, h.slice?_rest]
    rfl
  · obtain ⟨hbyte, htail⟩ := h.step (by decide)
    obtain ⟨hnext, hbehind⟩ := htail.step (by decide)
    refine ⟨slash, _, hbyte, ?_, block_stands hbehind⟩
    rw [sight, if_neg (by decide), if_neg fun hline => absurd hline.1 (by decide),
      if_pos ⟨rfl, hnext⟩, hbehind.slice?_rest]
    rfl
  · have hlow := lt_of_isQuote hquote
    obtain ⟨hbyte, htail⟩ := h.step hlow
    have hstop := quotedEnd_stands hlow (Section.ne_backslash_of_isQuote hquote) [] htail
    refine ⟨byte quote, _, hbyte, ?_, hstop⟩
    rw [sight, if_pos (by rw [isQuote_byte hlow, hquote])]

/-- Any other character below `0x80` is code to the walk too. -/
theorem sight_of_code (h : Stands bytes i (c :: cs)) (hlow : c.toNat < 0x80)
    (hopen : Section.opening? (c :: cs) = none) : sight bytes i (byte c) = some .code := by
  obtain ⟨hquote, hminus, hslash⟩ := Section.opening?_eq_none_iff.mp hopen
  obtain ⟨-, htail⟩ := h.step hlow
  have hnext {d : Char} (hd : d.toNat < 0x80) :
      bytes[i + 1]? = some (byte d) → cs.head? = some d := by
    rw [htail.getElem?]
    exact (head?_encode_eq_some_iff hd).mp
  have hline : ¬(byte c = dash ∧ bytes[i + 1]? = some dash) := fun ⟨hc, hd⟩ =>
    hminus ((byte_inj (a := '-') (by decide) hlow).mp hc) (hnext (d := '-') (by decide) hd)
  have hblock : ¬(byte c = slash ∧ bytes[i + 1]? = some star) := fun ⟨hc, hd⟩ =>
    hslash ((byte_inj (a := '/') (by decide) hlow).mp hc) (hnext (d := '*') (by decide) hd)
  rw [sight, if_neg (by rw [isQuote_byte hlow, hquote]; exact Bool.false_ne_true), if_neg hline,
    if_neg hblock]

theorem sight_high {d : UInt8} (hd : 0x80 ≤ d) : sight bytes i d = some .code := by
  have hquote : ¬isQuote d := by
    simp only [isQuote, Bool.or_eq_true, beq_iff_eq, not_or]
    exact ⟨⟨ne_of_high (by decide) hd, ne_of_high (by decide) hd⟩, ne_of_high (by decide) hd⟩
  rw [sight, if_neg hquote, if_neg fun hline => ne_of_high (by decide) hd hline.1,
    if_neg fun hblock => ne_of_high (by decide) hd hblock.1]

/-! ### Walks -/

/-- A section as it is cut out of the bytes of a statement. -/
def sliced (s : Section) : Slice := ⟨s.kind, encode s.text⟩

theorem codeBetween_stands {j : Nat} {code : List Char} (h : Stands bytes i (code ++ cs))
    (hj : Stands bytes j cs) :
    codeBetween bytes i j = some ((Section.ofCode code).map sliced) := by
  have hi := h.length
  have hlength := hj.length
  rw [encode_append, List.length_append] at hi
  by_cases hcode : code = []
  · subst hcode
    have hsame : ¬i < j := by
      rw [encode, List.flatMap_nil, List.length_nil] at hi
      omega
    rw [codeBetween, if_neg hsame]
    rfl
  · have hpos := length_encode_pos hcode
    rw [codeBetween, if_pos (by omega), h.slice? hj, Section.ofCode_of_ne_nil hcode]
    rfl

theorem run_of_turn {w w' : Walk} {b : UInt8} (hbyte : bytes[w.pos]? = some b)
    (hturn : turn bytes w b = some w') : run bytes w = run bytes w' := by
  rw [run, hbyte]
  show (turn bytes w b).bind _ = _
  rw [hturn]
  rfl

theorem turn_of_code {w : Walk} {b : UInt8} (h : sight bytes w.pos b = some .code) :
    turn bytes w b = some { w with pos := w.pos + 1 } := by
  rw [turn, h]
  rfl

/-- Inside a character the walk goes on to its end. -/
theorem run_high {done : List Slice} {start : Nat} (hhigh : ∀ d ∈ high, 0x80 ≤ d)
    (h : bytes.drop i = high ++ more) :
    run bytes ⟨done, start, i⟩ = run bytes ⟨done, start, i + high.length⟩ := by
  have hpass (i : Nat) (d : UInt8) (hbyte : bytes[i]? = some d) (hd : 0x80 ≤ d) :
      run bytes ⟨done, start, i⟩ = run bytes ⟨done, start, i + 1⟩ :=
    run_of_turn hbyte (turn_of_code (sight_high hd))
  exact eq_across (f := fun i => run bytes ⟨done, start, i⟩) hpass hhigh h

/-- One turn at a section that is not code: the code in front of it is cut out, and the section. -/
theorem turn_of_opening (done : List Slice) {start : Nat} {code : List Char}
    (hstart : Stands bytes start (code ++ cs)) (h : Stands bytes i cs)
    (hopen : Section.opening? cs = some (s, rest)) :
    ∃ b stop, bytes[i]? = some b ∧ Stands bytes stop rest ∧
      turn bytes ⟨done, start, i⟩ b =
        some ⟨done ++ (Section.ofCode code).map sliced ++ [sliced s], stop, stop⟩ := by
  obtain ⟨b, stop, hbyte, hsight, hstop⟩ := sight_of_opening h hopen
  refine ⟨b, stop, hbyte, hstop, ?_⟩
  have hcode := codeBetween_stands hstart h
  rw [← Section.append_of_opening hopen] at h
  rw [turn, hsight]
  show (codeBetween bytes start i).bind _ = _
  rw [hcode]
  show (Utf8.slice? bytes i stop).map _ = _
  rw [h.slice? hstop]
  rfl

/-- A walk ends with the slices of the sections that are left, if it stands in front of them. -/
theorem run_stands {done : List Slice} {start : Nat} {code : List Char}
    (hstart : Stands bytes start (code ++ cs)) (h : Stands bytes i cs) :
    run bytes ⟨done, start, i⟩ =
      some (done ++ (Section.putCode code (Section.all cs)).map sliced) := by
  induction cs using Section.sections_induction generalizing done start i code with
  | nil =>
    have hend : bytes[i]? = none := List.getElem?_eq_none h.length.ge
    rw [run, hend, Section.all_nil]
    show (codeBetween bytes start bytes.length).map _ = _
    rw [codeBetween_stands hstart (.finish bytes)]
    rfl
  | opening cs s rest hopen ih =>
    obtain ⟨b, stop, hbyte, hstop, hturn⟩ := turn_of_opening done hstart h hopen
    have hnone : Stands bytes stop ([] ++ rest) := hstop
    rw [run_of_turn hbyte hturn, ih hnone hstop, Section.putCode_nil,
      Section.all_of_opening hopen, Section.putCode, if_neg (Section.kind_of_opening hopen)]
    simp
  | code c cs hopen ih =>
    have hstart' : Stands bytes start ((code ++ [c]) ++ cs) := by
      rwa [List.append_assoc]
    rw [Section.all_of_code hopen, Section.putCode_putCode, ← ih hstart' h.tail]
    by_cases hlow : c.toNat < 0x80
    · rw [run_of_turn (h.step hlow).1 (turn_of_code (sight_of_code h hlow hopen)),
        encodeChar_ascii hlow]
      rfl
    · exact run_high (le_of_mem_encodeChar hlow) h.behind

/-! ### The slices of a statement -/

theorem flatMap_bytes_sliced (sections : List Section) :
    (sections.map sliced).flatMap (·.bytes) = encode (Section.join sections) := by
  rw [List.flatMap_map, Section.join, encode, List.flatMap_assoc]
  rfl

theorem slices_eq (statement : String) :
    slices statement = some ((Section.all statement.toList).map sliced) := by
  have hstart : Stands (encodeString statement) 0 ([] ++ statement.toList) := .start _
  rw [slices, run_stands hstart hstart, Section.putCode_nil, List.nil_append]

/-- **The walk over a statement ends, and it cuts between characters only.**  It has slices, which
it has not if it goes on for ever or makes a cut anywhere else.  In order they are the bytes of the
statement, and they are those of its sections: none is empty, no two neighbours are code, and each
has one of the forms of a section. -/
theorem slices_parted (statement : String) :
    ∃ sections, slices statement = some (sections.map sliced) ∧
      (∀ i, isBoundary (encodeString statement) i = true ↔
        ∃ front back, statement.toList = front ++ back ∧ i = (encode front).length) ∧
      (sections.map sliced).flatMap (·.bytes) = encodeString statement ∧
      sections = Section.all statement.toList ∧ Section.Parted statement.toList sections := by
  have hparted := Section.parted_all statement.toList
  refine ⟨_, slices_eq statement, fun i => isBoundary_iff, ?_, rfl, hparted⟩
  rw [flatMap_bytes_sliced, hparted.joined, encodeString]

/-- A backslash takes a character along, and the mark that opens a comment does not close it. -/
example : slices "'\\é'--é\n/*/" =
    some [⟨.quoted, encodeString "'\\é'"⟩, ⟨.comment, encodeString "--é"⟩,
      ⟨.code, encodeString "\n"⟩, ⟨.comment, encodeString "/*/"⟩] := by
  rw [slices_eq]
  decide +kernel

end SchemaMigration.ClickHouse.Walk
