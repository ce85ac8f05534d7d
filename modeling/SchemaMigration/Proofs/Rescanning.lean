import SchemaMigration.Proofs.StatementSegments
import SchemaMigration.Proofs.TextCoding
/-! # Scanning a script again

The statements of a script, each with a semicolon behind it, are a script that has the same
statements.  What lies between two cuts is whole: its blocks are closed, and every semicolon in it
stands in a block (`segmentsFrom_covered`).  It stays whole when blanks are dropped at its ends, as
no dollar sign goes with them (`Whole.of_blanks`).  So the scanner cuts the joined script at the
semicolons that join it and nowhere else (`outcomes_whole`); a lone dollar sign at the end of a
statement finds no partner, since a semicolon comes between. -/
namespace SchemaMigration.Script

open Text

variable {limit : Nat} {seen segment front back rest : List UInt8}

/-! ### Pairs -/

theorem pairs_append_left (h : dollar ∉ front) (segment : List UInt8) :
    pairs (front ++ segment) = pairs segment := by
  induction front with
  | nil => rfl
  | cons b front ih =>
    obtain ⟨hb, hfront⟩ := not_or.mp (mt List.mem_cons.mpr h)
    rw [List.cons_append, ← ih hfront]
    rcases front ++ segment with _ | ⟨c, rest⟩
    · rfl
    · rw [pairs, if_neg fun hpair => hb hpair.1.symm]

theorem pairs_append_right (h : dollar ∉ back) (segment : List UInt8) :
    pairs (segment ++ back) = pairs segment := by
  induction back generalizing segment with
  | nil => rw [List.append_nil]
  | cons b back ih =>
    obtain ⟨hb, hback⟩ := not_or.mp (mt List.mem_cons.mpr h)
    rw [List.append_cons, ih hback, pairs_append, if_neg fun hpair => hb hpair.1.symm,
      Nat.add_zero]

/-! ### Whole segments -/

/-- Every semicolon stands in a block. -/
def Covered (segment : List UInt8) : Prop :=
  ∀ before after, segment = before ++ semicolon :: after → ¬Even (pairs before)

/-- All blocks are closed, and every semicolon stands in one. -/
structure Whole (segment : List UInt8) : Prop where
  closed : Even (pairs segment)
  covered : Covered segment

theorem covered_nil : Covered [] := fun before after h => absurd h (by simp)

theorem Covered.concat {b : UInt8} (h : Covered seen) (hb : ¬(b = semicolon ∧ Even (pairs seen))) :
    Covered (seen ++ [b]) := by
  intro before after heq
  rcases List.eq_nil_or_concat after with rfl | ⟨after, c, rfl⟩
  · obtain ⟨rfl, hlast⟩ := List.append_inj' heq rfl
    exact fun heven => hb ⟨List.singleton_inj.mp hlast, heven⟩
  · rw [List.concat_eq_append, ← List.cons_append, ← List.append_assoc] at heq
    exact h before after (List.append_inj' heq rfl).1

/-- What lies between two cuts is whole, and what follows the last one has no cut in it. -/
theorem segmentsFrom_covered (h : Covered seen) (bytes : List UInt8) :
    (∀ segment ∈ (segmentsFrom seen bytes).1, Whole segment) ∧
      Covered (segmentsFrom seen bytes).2 := by
  induction bytes generalizing seen with
  | nil => exact ⟨nofun, h⟩
  | cons b bytes ih =>
    rw [segmentsFrom]
    split
    · rename_i hcut
      obtain ⟨hsegments, hlast⟩ := ih covered_nil
      exact ⟨List.forall_mem_cons.mpr ⟨⟨hcut.2, h⟩, hsegments⟩, hlast⟩
    · rename_i hhold
      exact ih (h.concat hhold)

/-- Bytes without a cut are held. -/
theorem segmentsFrom_hold (seen : List UInt8) {bytes : List UInt8}
    (h : ∀ before after, bytes = before ++ semicolon :: after → ¬Even (pairs (seen ++ before)))
    (rest : List UInt8) :
    segmentsFrom seen (bytes ++ rest) = segmentsFrom (seen ++ bytes) rest := by
  induction bytes generalizing seen with
  | nil => rw [List.nil_append, List.append_nil]
  | cons b bytes ih =>
    have hhold : ¬(b = semicolon ∧ Even (pairs seen)) := by
      rintro ⟨rfl, heven⟩
      exact h [] bytes rfl (by rwa [List.append_nil])
    rw [List.cons_append, segmentsFrom, if_neg hhold, ih, ← List.append_cons]
    intro before after heq
    rw [← List.append_cons]
    exact h (b :: before) after (by rw [heq, List.cons_append])

/-- A whole segment is cut out at the semicolon behind it. -/
theorem outcomes_whole (h : Whole segment) {statement : String}
    (hjudge : judge limit segment = some (.ok statement)) (rest : List UInt8) :
    outcomes limit (segment ++ semicolon :: rest) = .ok statement :: outcomes limit rest := by
  have hheld : outcomes limit (segment ++ semicolon :: rest) =
      outcomesFrom limit segment (semicolon :: rest) := by
    have hhold : segmentsFrom [] (segment ++ semicolon :: rest) =
        segmentsFrom ([] ++ segment) (semicolon :: rest) :=
      segmentsFrom_hold [] h.covered _
    rw [outcomes, outcomesFrom, outcomesFrom, hhold, List.nil_append]
  rw [hheld, outcomesFrom_cut ⟨rfl, h.closed⟩, hjudge]

/-- A segment stays whole when bytes that are no dollar signs are dropped at its ends. -/
theorem Whole.of_blanks (h : Whole (front ++ segment ++ back)) (hfront : dollar ∉ front)
    (hback : dollar ∉ back) : Whole segment := by
  refine ⟨?_, fun before after heq heven => ?_⟩
  · rw [← pairs_append_left hfront, ← pairs_append_right hback]
    exact h.closed
  · rw [← pairs_append_left hfront] at heven
    exact h.covered (front ++ before) (after ++ back) (by simp [heq]) heven

/-! ### Segments of a text -/

/-- A text is cut between characters. -/
theorem segmentsFrom_encode (ds cs : List Char) :
    (∀ segment ∈ (segmentsFrom (Utf8.encode ds) (Utf8.encode cs)).1,
        ∃ es, segment = Utf8.encode es) ∧
      ∃ es, (segmentsFrom (Utf8.encode ds) (Utf8.encode cs)).2 = Utf8.encode es := by
  induction cs generalizing ds with
  | nil => exact ⟨nofun, ds, rfl⟩
  | cons c cs ih =>
    have hsingle : Utf8.encode (c :: cs) = Utf8.encode [c] ++ Utf8.encode cs :=
      Utf8.encode_append [c] cs
    by_cases hcut : c = ';' ∧ Even (pairs (Utf8.encode ds))
    · obtain ⟨rfl, heven⟩ := hcut
      obtain ⟨hsegments, hlast⟩ := ih []
      rw [Utf8.encode_cons_ascii (by decide), segmentsFrom, if_pos ⟨rfl, heven⟩]
      exact ⟨List.forall_mem_cons.mpr ⟨⟨ds, rfl⟩, hsegments⟩, hlast⟩
    · -- no byte of the character ends the segment, or it would be the semicolon
      rw [hsingle, segmentsFrom_hold, ← Utf8.encode_append]
      · exact ih (ds ++ [c])
      · intro before after heq heven
        have hmem : semicolon ∈ Utf8.encode [c] := by simp [heq]
        have hc : c = ';' :=
          (List.mem_singleton.mp (Utf8.mem_of_mem_encode hmem (by decide))).symm
        have hbefore : before = [] := by
          rw [hc] at heq
          have hlength := congrArg List.length heq
          rw [List.length_append, List.length_cons] at hlength
          exact List.length_eq_zero_iff.mp (by
            change 1 = _ at hlength
            omega)
        rw [hbefore, List.append_nil] at heven
        exact hcut ⟨hc, heven⟩

theorem dollar_notMem_blanks {cs : List Char} (h : ∀ c ∈ cs, isBlank c = true) :
    dollar ∉ Utf8.encode cs := fun hmem =>
  absurd (h _ (Utf8.mem_of_mem_encode hmem (by decide))) (by decide)

/-- A statement that is cut out of a script wherever it stands with a semicolon behind it. -/
structure Settled (limit : Nat) (statement : String) : Prop where
  whole : Whole (Utf8.encodeString statement)
  judged : judge limit (Utf8.encodeString statement) = some (.ok statement)

/-- The statement of a whole segment is settled. -/
theorem settled_of_judge {cs : List Char} {statement : String} (h : Whole (Utf8.encode cs))
    (hjudge : judge limit (Utf8.encode cs) = some (.ok statement)) : Settled limit statement := by
  rw [judge, Utf8.decode_encode] at hjudge
  split at hjudge
  · cases hjudge
  · rename_i hsize
    dsimp only at hjudge
    split at hjudge
    · cases hjudge
    · rename_i hne
      cases hjudge
      obtain ⟨front, back, hcs, hfront, hback⟩ := trim_parts cs
      have hbytes : Utf8.encode cs =
          Utf8.encode front ++ Utf8.encode (trim cs) ++ Utf8.encode back := by
        rw [← Utf8.encode_append, ← Utf8.encode_append, ← hcs]
      have htext : Utf8.encodeString (String.ofList (trim cs)) = Utf8.encode (trim cs) := by
        rw [Utf8.encodeString, String.toList_ofList]
      rw [hbytes] at h hsize
      refine ⟨htext ▸ h.of_blanks (dollar_notMem_blanks hfront) (dollar_notMem_blanks hback), ?_⟩
      rw [htext, judge, Utf8.decode_encode, if_neg]
      · dsimp only
        rw [trim_trim, if_neg hne]
      · simp only [List.length_append] at hsize
        omega

theorem judge_of_judgeLast {statement : String}
    (h : judgeLast limit segment = some (.ok statement)) :
    Even (pairs segment) ∧ judge limit segment = some (.ok statement) := by
  rw [judgeLast] at h
  split at h
  · cases h
  · rename_i hsize
    split at h
    · cases h
    · rename_i heven
      refine ⟨not_not.mp heven, ?_⟩
      rw [judge, if_neg hsize]
      split at h
      · cases h
      · split at h
        · cases h
        · exact h

theorem mem_of_mem_untilFault {a : Except Failure String} {results : List (Except Failure String)}
    (h : a ∈ untilFault results) : a ∈ results := by
  induction results with
  | nil => exact h
  | cons first results ih =>
    rcases first with f | statement
    · exact List.mem_cons.mpr (.inl (List.mem_singleton.mp h))
    · rcases List.mem_cons.mp h with rfl | h
      · exact List.mem_cons_self
      · exact List.mem_cons_of_mem _ (ih h)

/-- All statements of a text are settled. -/
theorem settled_of_mem_outcomes {cs : List Char} {statement : String}
    (h : .ok statement ∈ outcomes limit (Utf8.encode cs)) : Settled limit statement := by
  obtain ⟨hwhole, hcovered⟩ := segmentsFrom_covered covered_nil (Utf8.encode cs)
  obtain ⟨htexts, hlastText⟩ := segmentsFrom_encode [] cs
  rcases List.mem_append.mp (mem_of_mem_untilFault h) with h | h
  · obtain ⟨segment, hsegment, hjudge⟩ := List.mem_filterMap.mp h
    obtain ⟨es, rfl⟩ := htexts segment hsegment
    exact settled_of_judge (hwhole _ hsegment) hjudge
  · obtain ⟨hclosed, hjudge⟩ := judge_of_judgeLast (Option.mem_toList.mp h)
    obtain ⟨es, hes⟩ := hlastText
    change (segmentsFrom [] (Utf8.encode cs)).2 = Utf8.encode es at hes
    rw [hes] at hclosed hcovered hjudge
    exact settled_of_judge ⟨hclosed, hcovered⟩ hjudge

/-! ### Joined statements -/

/-- Statements as a script, with a semicolon behind each. -/
def joined (statements : List String) : String :=
  String.ofList (statements.flatMap fun statement => statement.toList ++ [';'])

theorem encodeString_joined_cons (statement : String) (statements : List String) :
    Utf8.encodeString (joined (statement :: statements)) =
      Utf8.encodeString statement ++ semicolon :: Utf8.encodeString (joined statements) := by
  rw [joined, Utf8.encodeString, String.toList_ofList, List.flatMap_cons, List.append_assoc,
    Utf8.encode_append, List.singleton_append, Utf8.encode_cons_ascii (by decide), joined,
    Utf8.encodeString, Utf8.encodeString, String.toList_ofList]
  rfl

theorem outcomes_joined {statements : List String} (h : ∀ s ∈ statements, Settled limit s) :
    outcomes limit (Utf8.encodeString (joined statements)) = statements.map .ok := by
  induction statements with
  | nil =>
    show outcomes limit [] = []
    rw [outcomes, outcomesFrom_nil, judgeLast, List.length_nil, if_neg (Nat.not_lt_zero limit)]
    rfl
  | cons statement statements ih =>
    obtain ⟨hfirst, hrest⟩ := List.forall_mem_cons.mp h
    rw [encodeString_joined_cons, outcomes_whole hfirst.whole hfirst.judged, ih hrest,
      List.map_cons]

/-- A script has statements when no result is a fault. -/
theorem mapM_id_ok_iff {results : List (Except Failure String)} {statements : List String} :
    results.mapM id = .ok statements ↔ results = statements.map .ok := by
  induction results generalizing statements with
  | nil =>
    cases statements with
    | nil => exact ⟨fun _ => rfl, fun _ => rfl⟩
    | cons statement statements => exact ⟨nofun, nofun⟩
  | cons first results ih =>
    rw [List.mapM_cons]
    constructor
    · intro h
      cases first with
      | error f => cases h
      | ok statement =>
        cases hrest : results.mapM id with
        | error f =>
          rw [hrest] at h
          cases h
        | ok others =>
          rw [hrest] at h
          cases h
          rw [ih.mp hrest]
          rfl
    · intro h
      cases statements with
      | nil => cases h
      | cons statement statements =>
        obtain ⟨rfl, hrest⟩ := List.cons.inj h
        rw [ih.mpr hrest]
        rfl

/-- **Scanning is stable.**  The statements of a script, each with a semicolon behind it, are what
the joined script is scanned into, in whatever chunks the two arrive. -/
theorem scan_joined {script : String} {chunks again : List (List UInt8)} {statements : List String}
    (hchunks : chunks.flatten = Utf8.encodeString script)
    (h : (scan limit chunks).all = .ok statements)
    (hagain : again.flatten = Utf8.encodeString (joined statements)) :
    (scan limit again).all = .ok statements := by
  rw [scan_all, mapM_id_ok_iff, hchunks] at h
  rw [scan_all, mapM_id_ok_iff, hagain]
  refine outcomes_joined fun statement hstatement => ?_
  have hmem : .ok statement ∈ outcomes limit (Utf8.encode script.toList) := by
    rw [← Utf8.encodeString, h]
    exact List.mem_map_of_mem hstatement
  exact settled_of_mem_outcomes hmem

/-- **Statements that were found in a text are found again where they are joined.** -/
theorem statements_joined {script : String} {found : List String}
    (h : statements script = .ok found) : statements (joined found) = .ok found :=
  scan_joined List.flatten_singleton h List.flatten_singleton

/-- So it is with a block that holds a semicolon, a dollar sign at the end of a statement, letters
of more than one byte and blanks between. -/
theorem statements_joined_of_blocks :
    statements " $$a;b$$ $; ;ü$\n;$é" = .ok ["$$a;b$$ $", "ü$", "$é"] ∧
      statements "$$a;b$$ $;ü$;$é;" = .ok ["$$a;b$$ $", "ü$", "$é"] := by
  have hscanned : statements " $$a;b$$ $; ;ü$\n;$é" = .ok ["$$a;b$$ $", "ü$", "$é"] := by
    rw [statements, scan_all]
    rfl
  have hjoined : joined ["$$a;b$$ $", "ü$", "$é"] = "$$a;b$$ $;ü$;$é;" := by decide
  exact ⟨hscanned, hjoined ▸ statements_joined hscanned⟩

end SchemaMigration.Script
