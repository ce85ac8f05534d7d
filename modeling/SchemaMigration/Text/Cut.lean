/-! # Cutting a text at a separator

The first or the last character of a class, or the first occurrence of a fragment,
divides a text into what stands before and what stands after it. -/
namespace SchemaMigration.Text

/-- The text before and after the first character equal to `sep`. -/
def cutFirst (sep : Char) (cs : List Char) : Option (List Char × List Char) :=
  match cs.dropWhile (· != sep) with
  | [] => none
  | _ :: after => some (cs.takeWhile (· != sep), after)

theorem cutFirst_cons (sep c : Char) (cs : List Char) :
    cutFirst sep (c :: cs) =
      if c = sep then some ([], cs) else (cutFirst sep cs).map fun (before, after) =>
        (c :: before, after) := by
  by_cases h : c = sep
  · rw [cutFirst, List.dropWhile_cons_of_neg (by simp [h]),
      List.takeWhile_cons_of_neg (by simp [h]), if_pos h]
  · rw [cutFirst, cutFirst, List.dropWhile_cons_of_pos (by simpa using h),
      List.takeWhile_cons_of_pos (by simpa using h), if_neg h]
    cases cs.dropWhile (· != sep) <;> rfl

/-- A text is cut at the first separator, if there is one. -/
theorem cutFirst_cases (sep : Char) (cs : List Char) :
    (cutFirst sep cs = none ∧ sep ∉ cs) ∨
      ∃ before after, cutFirst sep cs = some (before, after) ∧ cs = before ++ sep :: after ∧
        sep ∉ before := by
  induction cs with
  | nil => exact .inl ⟨rfl, List.not_mem_nil⟩
  | cons c cs ih =>
    rw [cutFirst_cons]
    split
    · rename_i hsep
      exact .inr ⟨[], cs, rfl, by rw [hsep, List.nil_append], List.not_mem_nil⟩
    · rename_i hsep
      rcases ih with ⟨hnone, hnot⟩ | ⟨before, after, hsome, hparts, hnot⟩
      · refine .inl ⟨by rw [hnone]; rfl, ?_⟩
        rw [List.mem_cons, not_or]
        exact ⟨Ne.symm hsep, hnot⟩
      · refine .inr ⟨c :: before, after, by rw [hsome]; rfl, by rw [hparts, List.cons_append], ?_⟩
        rw [List.mem_cons, not_or]
        exact ⟨Ne.symm hsep, hnot⟩

/-- A text is cut where a separator stands that has none before it. -/
theorem cutFirst_append {sep : Char} {before after : List Char} (h : ∀ c ∈ before, c ≠ sep) :
    cutFirst sep (before ++ sep :: after) = some (before, after) := by
  have hbefore : ∀ c ∈ before, (c != sep) = true := fun c hc => bne_iff_ne.mpr (h c hc)
  rw [cutFirst, List.dropWhile_append_of_pos hbefore, List.takeWhile_append_of_pos hbefore,
    List.dropWhile_cons_of_neg (by simp), List.takeWhile_cons_of_neg (by simp), List.append_nil]

/-- The text before and after the last character equal to `sep`. -/
def cutLast (sep : Char) (cs : List Char) : Option (List Char × List Char) :=
  (cutFirst sep cs.reverse).map fun (after, before) => (before.reverse, after.reverse)

/-- The text before and after the first occurrence of `sep`, searched from the front;
`seen` holds what was passed, last character first. -/
def cutAtFrom (sep : List Char) (seen : List Char) : List Char → Option (List Char × List Char)
  | [] => if sep.isEmpty then some (seen.reverse, []) else none
  | c :: cs =>
    if sep.isPrefixOf (c :: cs) then some (seen.reverse, (c :: cs).drop sep.length)
    else cutAtFrom sep (c :: seen) cs

/-- The text before and after the first occurrence of `sep`. -/
def cutAt (sep cs : List Char) : Option (List Char × List Char) := cutAtFrom sep [] cs

theorem cutAtFrom_length {sep seen cs before after : List Char}
    (h : cutAtFrom sep seen cs = some (before, after)) : after.length ≤ cs.length := by
  induction cs generalizing seen with
  | nil =>
    simp only [cutAtFrom] at h
    split at h <;> simp_all
  | cons c cs ih =>
    simp only [cutAtFrom] at h
    split at h
    · obtain ⟨-, rfl⟩ : _ ∧ _ := by simpa using h
      simp
    · have := ih h
      simp only [List.length_cons]
      omega

theorem cutAt_length {sep cs before after : List Char} (h : cutAt sep cs = some (before, after)) :
    after.length ≤ cs.length :=
  cutAtFrom_length h

/-- Whether `part` occurs in `cs`. -/
def occursIn (part cs : List Char) : Bool := (cutAt part cs).isSome

/-- Whether the text `part` occurs in the text `s`. -/
def contains (s part : String) : Bool := occursIn part.toList s.toList

/-- `cs` without the leading `part`, if it starts with it. -/
def dropStart? (part cs : List Char) : Option (List Char) :=
  if part.isPrefixOf cs then some (cs.drop part.length) else none

theorem dropStart?_length {part cs rest : List Char} (h : dropStart? part cs = some rest) :
    rest.length = cs.length - part.length := by
  simp only [dropStart?] at h
  split at h
  · simp only [Option.some.injEq] at h
    simp [← h]
  · simp at h

theorem dropStart?_length_le {part cs rest : List Char} (h : dropStart? part cs = some rest) :
    rest.length ≤ cs.length := by
  have := dropStart?_length h
  omega

/-- `cs` without the closing `part`, if it ends with it. -/
def dropEnd? (part cs : List Char) : Option (List Char) :=
  (dropStart? part.reverse cs.reverse).map List.reverse

/-- The lower-case form of the letters `A` to `Z`; all else is kept. -/
def lower (s : String) : String := String.ofList (s.toList.map Char.toLower)

end SchemaMigration.Text
