import Mathlib.Data.List.DropRight
import SchemaMigration.Proofs.TextReading
import SchemaMigration.Text.Cut
/-! # Cutting and joining

A text that is cut at a separator gives back what was joined by it, as long as the separator stands
in none of the parts where the cut looks for it: before the first one (`cutFirst_append`,
`cutAt_append`), behind the last one (`cutLast_append`), or nowhere (`pieces_intercalate`).
Trimming takes away blanks at both ends and nothing else (`trim_parts`), so that a trimmed text
stays as it is (`trim_trim`). -/
namespace SchemaMigration.Text

variable {sep : Char} {cs before after : List Char}

theorem cutFirst_of_not_mem (h : sep ∉ cs) : cutFirst sep cs = none := by
  rcases cutFirst_cases sep cs with ⟨hnone, -⟩ | ⟨before, after, -, hcs, -⟩
  · exact hnone
  · exact absurd (by simp [hcs]) h

/-- A text is cut at the last separator, if there is one. -/
theorem cutLast_cases (sep : Char) (cs : List Char) :
    (cutLast sep cs = none ∧ sep ∉ cs) ∨
      ∃ before after, cutLast sep cs = some (before, after) ∧ cs = before ++ sep :: after ∧
        sep ∉ after := by
  rcases cutFirst_cases sep cs.reverse with ⟨hnone, hnot⟩ | ⟨back, front, hsome, hcs, hnot⟩
  · exact .inl ⟨by rw [cutLast, hnone]; rfl, by simpa using hnot⟩
  · refine .inr ⟨front.reverse, back.reverse, by rw [cutLast, hsome]; rfl, ?_, by simpa using hnot⟩
    rw [← List.reverse_reverse cs, hcs]
    simp

theorem cutLast_append (h : sep ∉ after) :
    cutLast sep (before ++ sep :: after) = some (before, after) := by
  have hreverse : (before ++ sep :: after).reverse = after.reverse ++ sep :: before.reverse := by
    simp
  rw [cutLast, hreverse, cutFirst_append fun c hc => by rintro rfl; simp_all]
  simp

theorem cutLast_of_not_mem (h : sep ∉ cs) : cutLast sep cs = none := by
  rw [cutLast, cutFirst_of_not_mem (by simpa using h)]
  rfl

/-- A text is cut at a fragment whose first character does not stand before it. -/
theorem cutAt_append {more : List Char} (h : sep ∉ before) :
    cutAt (sep :: more) (before ++ (sep :: more ++ after)) = some (before, after) := by
  have hfrom (seen : List Char) :
      cutAtFrom (sep :: more) seen (before ++ (sep :: more ++ after)) =
        some (seen.reverse ++ before, after) := by
    induction before generalizing seen with
    | nil =>
      rw [List.nil_append, List.cons_append, cutAtFrom]
      simp
    | cons c before ih =>
      obtain ⟨hc, hbefore⟩ := not_or.mp (mt List.mem_cons.mpr h)
      have hpre : (sep :: more).isPrefixOf (c :: (before ++ (sep :: more ++ after))) = false := by
        simp [List.isPrefixOf, hc]
      rw [List.cons_append, cutAtFrom, hpre, if_neg Bool.false_ne_true, ih hbefore,
        List.reverse_cons, List.append_assoc, List.singleton_append]
  simpa [cutAt] using hfrom []

/-- A run of characters of one kind ends where a character of another kind begins. -/
theorem span_append {p : Char → Bool} {run rest : List Char} (hrun : ∀ c ∈ run, p c = true)
    (hrest : ∀ c ∈ rest.head?, p c = false) :
    (run ++ rest).takeWhile p = run ∧ (run ++ rest).dropWhile p = rest := by
  rw [List.takeWhile_append_of_pos hrun, List.dropWhile_append_of_pos hrun]
  cases rest with
  | nil => exact ⟨List.append_nil run, rfl⟩
  | cons c rest =>
    have hc : ¬p c = true := Bool.eq_false_iff.mp (hrest c rfl)
    rw [List.takeWhile_cons_of_neg hc, List.dropWhile_cons_of_neg hc]
    exact ⟨List.append_nil run, rfl⟩

theorem span_append_cons {p : Char → Bool} {run : List Char} {c : Char}
    (hrun : ∀ d ∈ run, p d = true) (hc : p c = false) (rest : List Char) :
    (run ++ c :: rest).takeWhile p = run ∧ (run ++ c :: rest).dropWhile p = c :: rest :=
  span_append hrun fun d hd => by
    rw [List.head?_cons, Option.mem_some_iff] at hd
    rwa [← hd]

theorem dropStart?_eq_some_iff {part rest : List Char} :
    dropStart? part cs = some rest ↔ cs = part ++ rest := by
  rw [dropStart?]
  split
  · rename_i hpart
    obtain ⟨rest', rfl⟩ := List.isPrefixOf_iff_prefix.mp hpart
    rw [List.drop_left, Option.some_inj, List.append_cancel_left_eq]
  · rename_i hpart
    have hapart : cs ≠ part ++ rest := by
      rintro rfl
      exact hpart (List.isPrefixOf_iff_prefix.mpr (List.prefix_append _ _))
    exact iff_of_false (Option.some_ne_none rest).symm hapart

theorem dropStart?_append (part rest : List Char) : dropStart? part (part ++ rest) = some rest :=
  dropStart?_eq_some_iff.mpr rfl

/-- A text that begins with other words does not begin with these. -/
theorem dropStart?_of_apart {part lead : List Char} (hlead : lead.isPrefixOf part = false)
    (hpart : part.isPrefixOf lead = false) (rest : List Char) :
    dropStart? part (lead ++ rest) = none := by
  rw [dropStart?, if_neg]
  intro hfound
  rw [List.isPrefixOf_iff_prefix] at hfound
  rcases List.prefix_or_prefix_of_prefix hfound (List.prefix_append _ _) with h | h
  · rw [List.isPrefixOf_iff_prefix.mpr h] at hpart
    cases hpart
  · rw [List.isPrefixOf_iff_prefix.mpr h] at hlead
    cases hlead

/-! ### Pieces -/

theorem pieces_ne_nil (p : Char → Bool) (cs : List Char) : pieces p cs ≠ [] := by
  cases cs with
  | nil => exact List.cons_ne_nil _ _
  | cons c cs =>
    rw [pieces, List.foldr_cons]
    split
    · exact List.cons_ne_nil _ _
    · split <;> exact List.cons_ne_nil _ _

theorem pieces_cons (p : Char → Bool) (c : Char) (cs : List Char) :
    pieces p (c :: cs) =
      if p c then [] :: pieces p cs else (pieces p cs).modifyHead (c :: ·) := by
  obtain ⟨w, ws, hw⟩ := List.exists_cons_of_ne_nil (pieces_ne_nil p cs)
  rw [hw]
  rw [pieces] at hw ⊢
  rw [List.foldr_cons, hw]
  rfl

/-- Cutting into pieces is the splitting of a list. -/
theorem pieces_eq_splitOnP (p : Char → Bool) (cs : List Char) : pieces p cs = cs.splitOnP p := by
  induction cs with
  | nil => rfl
  | cons c cs ih => rw [pieces_cons, List.splitOnP_cons_eq_if_modifyHead, ih]

/-- Pieces that hold no separator are found again where they were joined by one. -/
theorem pieces_intercalate {parts : List (List Char)} (h : ∀ part ∈ parts, sep ∉ part)
    (hne : parts ≠ []) : pieces (· == sep) ([sep].intercalate parts) = parts := by
  rw [pieces_eq_splitOnP, ← List.splitOn_eq_splitOnP, List.splitOn_intercalate sep h hne]

theorem mem_intercalate {parts : List (List Char)} {c : Char} (h : c ∈ [sep].intercalate parts) :
    c = sep ∨ ∃ part ∈ parts, c ∈ part := by
  induction parts with
  | nil => cases h
  | cons part parts ih =>
    cases parts with
    | nil =>
      rw [List.intercalate_singleton] at h
      exact .inr ⟨part, List.mem_cons_self, h⟩
    | cons next parts =>
      rw [List.intercalate_cons_cons, List.mem_append, List.mem_append, List.mem_singleton] at h
      rcases h with (h | h) | h
      · exact .inr ⟨part, List.mem_cons_self, h⟩
      · exact .inl h
      · exact (ih h).imp_right fun ⟨w, hw, hc⟩ => ⟨w, List.mem_cons_of_mem part hw, hc⟩

theorem of_mem_pieces {p : Char → Bool} {part : List Char} (h : part ∈ pieces p cs) :
    ∀ c ∈ part, c ∈ cs ∧ p c = false := by
  induction cs generalizing part with
  | nil =>
    rw [List.mem_singleton.mp h]
    exact nofun
  | cons d cs ih =>
    have hrest {part : List Char} (h : part ∈ pieces p cs) :
        ∀ c ∈ part, c ∈ d :: cs ∧ p c = false := fun c hc =>
       (ih h c hc).imp_left (List.mem_cons_of_mem d)
    rw [pieces_cons] at h
    split at h
    · rcases List.mem_cons.mp h with rfl | h
      · exact nofun
      · exact hrest h
    · rename_i hd
      obtain ⟨w, ws, hw⟩ := List.exists_cons_of_ne_nil (pieces_ne_nil p cs)
      rw [hw, List.modifyHead_cons] at h
      rcases List.mem_cons.mp h with rfl | h
      · intro c hc
        rcases List.mem_cons.mp hc with rfl | hc
        · exact ⟨List.mem_cons_self, Bool.eq_false_iff.mpr hd⟩
        · exact hrest (hw ▸ List.mem_cons_self) c hc
      · exact hrest (hw ▸ List.mem_cons_of_mem w h)

/-! ### Trimming -/

theorem dropEndWhile_parts (p : Char → Bool) (cs : List Char) :
    ∃ back, cs = dropEndWhile p cs ++ back ∧ ∀ c ∈ back, p c = true := by
  refine ⟨(cs.reverse.takeWhile p).reverse, ?_, fun c hc => ?_⟩
  · rw [dropEndWhile, ← List.reverse_append, List.takeWhile_append_dropWhile, List.reverse_reverse]
  · exact List.mem_takeWhile_imp (List.mem_reverse.mp hc)

/-- What is kept of the last part of a text is the last part of what is kept. -/
theorem dropEndWhile_append {p : Char → Bool} (front : List Char)
    (h : dropEndWhile p cs ≠ []) : dropEndWhile p (front ++ cs) = front ++ dropEndWhile p cs := by
  have hkept : cs.reverse.dropWhile p ≠ [] := fun hnil => h (by rw [dropEndWhile, hnil]; rfl)
  rw [dropEndWhile, List.reverse_append, List.dropWhile_append, if_neg (by simpa using hkept),
    List.reverse_append, List.reverse_reverse, dropEndWhile]

theorem dropEndWhile_dropEndWhile (p : Char → Bool) (cs : List Char) :
    dropEndWhile p (dropEndWhile p cs) = dropEndWhile p cs := by
  rw [dropEndWhile, dropEndWhile, List.reverse_reverse, List.dropWhile_idempotent]

/-- What is dropped at the ends of a text is blank. -/
theorem trim_parts (cs : List Char) :
    ∃ front back, cs = front ++ trim cs ++ back ∧ (∀ c ∈ front, isBlank c = true) ∧
      ∀ c ∈ back, isBlank c = true := by
  obtain ⟨back, hback, hblank⟩ := dropEndWhile_parts isBlank (cs.dropWhile isBlank)
  refine ⟨cs.takeWhile isBlank, back, ?_, fun c hc => List.mem_takeWhile_imp hc, hblank⟩
  rw [List.append_assoc, trim, ← hback, List.takeWhile_append_dropWhile]

/-- Blanks around a text that neither begins nor ends with one are what trimming drops. -/
theorem trim_of_edges {front back : List Char} (hfront : ∀ c ∈ front, isBlank c = true)
    (hback : ∀ c ∈ back, isBlank c = true) (hfirst : ∀ c ∈ cs.head?, isBlank c = false)
    (hlast : ∀ c ∈ cs.getLast?, isBlank c = false) : trim (front ++ cs ++ back) = cs := by
  rw [List.append_assoc, trim, List.dropWhile_append_of_pos hfront]
  cases cs with
  | nil =>
    rw [List.nil_append, List.dropWhile_eq_nil_iff.mpr hback]
    rfl
  | cons c cs =>
    have hc : isBlank c = false := hfirst c rfl
    have hkept : (c :: cs).reverse.dropWhile isBlank = (c :: cs).reverse := by
      obtain ⟨d, ds, hd⟩ := List.exists_cons_of_ne_nil
        (List.reverse_eq_nil_iff.not.mpr (List.cons_ne_nil c cs))
      have hlast' : isBlank d = false := hlast d (by rw [← List.head?_reverse, hd]; rfl)
      rw [hd, List.dropWhile_cons_of_neg (by simp [hlast'])]
    rw [List.cons_append, List.dropWhile_cons_of_neg (by simp [hc]), ← List.cons_append,
      dropEndWhile, List.reverse_append,
      List.dropWhile_append_of_pos fun d hd => hback d (List.mem_reverse.mp hd), hkept,
      List.reverse_reverse]

/-- Blanks around a text without blanks are what trimming drops. -/
theorem trim_of_solid {front back : List Char} (hfront : ∀ c ∈ front, isBlank c = true)
    (hback : ∀ c ∈ back, isBlank c = true) (h : ∀ c ∈ cs, isBlank c = false) :
    trim (front ++ cs ++ back) = cs :=
  trim_of_edges hfront hback (fun c hc => h c (List.mem_of_mem_head? hc))
    fun c hc => h c (List.mem_of_mem_getLast? hc)

theorem trim_trim (cs : List Char) : trim (trim cs) = trim cs := by
  have hfront : (trim cs).dropWhile isBlank = trim cs := by
    obtain ⟨back, hback, -⟩ := dropEndWhile_parts isBlank (cs.dropWhile isBlank)
    rw [← trim] at hback
    cases htrim : trim cs with
    | nil => rfl
    | cons c rest =>
      -- the first character is the first that was not dropped
      have hhead := List.head?_dropWhile_not isBlank cs
      rw [hback, htrim] at hhead
      exact List.dropWhile_cons_of_neg (by simpa using hhead)
  rw [trim, hfront, trim, dropEndWhile_dropEndWhile]

theorem mem_of_mem_trim {c : Char} (h : c ∈ trim cs) : c ∈ cs := by
  obtain ⟨front, back, hcs, -, -⟩ := trim_parts cs
  rw [hcs]
  simp [h]

end SchemaMigration.Text
