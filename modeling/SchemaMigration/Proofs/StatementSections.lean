import SchemaMigration.ClickHouse.Section
/-! # How the sections of a statement join

`Section.all` cuts a statement with two accumulators.  Here the cut is read from the front: what
opens a section is that section followed by the sections of the rest (`all_of_opening`), and any
other character is code that joins the code behind it (`all_of_code`).  So the sections of a text
that is put together of parts can be found part by part, as long as no section opens in one part
and ends in the next: a text that *stays code* is one piece of code whatever follows it
(`StaysCode`), and a text that *stands alone* has its own sections whatever follows it
(`StandsAlone`). -/
namespace SchemaMigration.ClickHouse.Section

/-! ### Sections in front of others -/

/-- Puts code in front of sections: it joins the code that they begin with. -/
def putCode (code : List Char) : List Section → List Section
  | [] => ofCode code
  | s :: rest =>
    if s.kind = .code then ⟨.code, code ++ s.text⟩ :: rest else ofCode code ++ s :: rest

/-- Puts a section in front of others. -/
def put (s : Section) (sections : List Section) : List Section :=
  if s.kind = .code then putCode s.text sections else s :: sections

/-- Sections in order, with neighbouring code joined and empty code left out. -/
def merge (sections : List Section) : List Section := sections.foldr put []

@[simp] theorem merge_nil : merge [] = [] := rfl

@[simp] theorem merge_cons (s : Section) (rest : List Section) :
    merge (s :: rest) = put s (merge rest) := rfl

theorem ofCode_of_ne_nil {code : List Char} (h : code ≠ []) : ofCode code = [⟨.code, code⟩] := by
  rw [ofCode, if_neg (by simpa using h)]

theorem put_of_ne {s : Section} (h : s.kind ≠ .code) (sections : List Section) :
    put s sections = s :: sections := if_neg h

theorem put_of_code {s : Section} (h : s.kind = .code) (sections : List Section) :
    put s sections = putCode s.text sections := if_pos h

@[simp] theorem putCode_nil (sections : List Section) : putCode [] sections = sections := by
  cases sections with
  | nil => rfl
  | cons s rest =>
    by_cases hs : s.kind = .code
    · obtain ⟨kind, text⟩ := s
      cases hs
      rfl
    · rw [putCode, if_neg hs]
      rfl

/-- Code that is put in front piece by piece is put in front as one. -/
theorem putCode_putCode (a b : List Char) (sections : List Section) :
    putCode a (putCode b sections) = putCode (a ++ b) sections := by
  by_cases hb : b = []
  · rw [hb, putCode_nil, List.append_nil]
  have hab : a ++ b ≠ [] := fun h => hb (List.append_eq_nil_iff.mp h).2
  cases sections with
  | nil =>
    rw [putCode, putCode, ofCode_of_ne_nil hb, ofCode_of_ne_nil hab]
    rfl
  | cons s rest =>
    by_cases hs : s.kind = .code
    · rw [putCode, if_pos hs, putCode, if_pos rfl, putCode, if_pos hs, List.append_assoc]
    · rw [putCode, if_neg hs, putCode, if_neg hs, ofCode_of_ne_nil hb, ofCode_of_ne_nil hab]
      rfl

/-- A section that is put in front of some sections stands in front of what follows them too. -/
theorem foldr_put_put (s : Section) (sections rest : List Section) :
    (put s sections).foldr put rest = put s (sections.foldr put rest) := by
  by_cases hs : s.kind = .code
  · rw [put_of_code hs, put_of_code hs]
    by_cases htext : s.text = []
    · rw [htext, putCode_nil, putCode_nil]
    cases sections with
    | nil =>
      rw [putCode, ofCode_of_ne_nil htext]
      rfl
    | cons s' sections =>
      by_cases hs' : s'.kind = .code
      · rw [putCode, if_pos hs', List.foldr_cons, List.foldr_cons, put_of_code rfl,
          put_of_code hs', putCode_putCode]
      · rw [putCode, if_neg hs', ofCode_of_ne_nil htext]
        rfl
  · rw [put_of_ne hs, put_of_ne hs, List.foldr_cons, put_of_ne hs]

/-- Sections that are joined before others are appended come out the same. -/
theorem merge_merge_append (xs ys : List Section) : merge (merge xs ++ ys) = merge (xs ++ ys) := by
  induction xs with
  | nil => rfl
  | cons s xs ih =>
    calc merge (put s (merge xs) ++ ys)
        = (put s (merge xs)).foldr put (merge ys) := List.foldr_append
      _ = put s ((merge xs).foldr put (merge ys)) := foldr_put_put ..
      _ = put s (merge (merge xs ++ ys)) := congrArg (put s) List.foldr_append.symm
      _ = put s (merge (xs ++ ys)) := congrArg (put s) ih

/-- Joining touches nothing but code. -/
theorem filter_putCode (code : List Char) (sections : List Section) :
    (putCode code sections).filter (·.kind ≠ .code) = sections.filter (·.kind ≠ .code) := by
  have hcode : (ofCode code).filter (·.kind ≠ .code) = [] := by
    rw [ofCode]
    split <;> simp
  cases sections with
  | nil => exact hcode
  | cons s rest =>
    by_cases hs : s.kind = .code
    · rw [putCode, if_pos hs, List.filter_cons_of_neg (by simp),
        List.filter_cons_of_neg (by simp [hs])]
    · rw [putCode, if_neg hs, List.filter_append, hcode, List.nil_append]

theorem filter_merge (sections : List Section) :
    (merge sections).filter (·.kind ≠ .code) = sections.filter (·.kind ≠ .code) := by
  induction sections with
  | nil => rfl
  | cons s rest ih =>
    rw [merge_cons]
    by_cases hs : s.kind = .code
    · rw [put_of_code hs, filter_putCode, ih, List.filter_cons_of_neg (by simp [hs])]
    · rw [put_of_ne hs, List.filter_cons, List.filter_cons, ih]

/-! ### What stands behind code

Code that was put in front of sections can be taken away again, if they hold no empty code. -/

theorem putCode_eq_cons {code : List Char} (h : code ≠ []) (sections : List Section) :
    ∃ text rest, putCode code sections = ⟨.code, text⟩ :: rest := by
  cases sections with
  | nil => exact ⟨code, [], ofCode_of_ne_nil h⟩
  | cons s rest =>
    by_cases hs : s.kind = .code
    · exact ⟨_, rest, if_pos hs⟩
    · refine ⟨code, s :: rest, ?_⟩
      rw [putCode, if_neg hs, ofCode_of_ne_nil h]
      rfl

/-- What stands behind code. -/
def behind (code : List Char) : List Section → List Section
  | [] => []
  | s :: rest => if s.text = code then rest else ⟨s.kind, s.text.drop code.length⟩ :: rest

theorem behind_putCode {code : List Char} (hcode : code ≠ []) {sections : List Section}
    (h : ∀ s ∈ sections, s.kind = .code → s.text ≠ []) :
    behind code (putCode code sections) = sections := by
  cases sections with
  | nil =>
    rw [putCode, ofCode_of_ne_nil hcode]
    exact if_pos rfl
  | cons s rest =>
    by_cases hs : s.kind = .code
    · have htext : ¬ code ++ s.text = code := fun heq =>
        h s List.mem_cons_self hs (List.append_right_eq_self.mp heq)
      rw [putCode, if_pos hs]
      show (if code ++ s.text = code then rest else _) = _
      rw [if_neg htext, List.drop_left, ← hs]
    · rw [putCode, if_neg hs, ofCode_of_ne_nil hcode]
      exact if_pos rfl

theorem text_ne_nil_of_mem_putCode {code : List Char} {sections : List Section}
    (h : ∀ s ∈ sections, s.kind = .code → s.text ≠ []) {s : Section}
    (hs : s ∈ putCode code sections) (hkind : s.kind = .code) : s.text ≠ [] := by
  by_cases hcode : code = []
  · rw [hcode, putCode_nil] at hs
    exact h s hs hkind
  cases sections with
  | nil =>
    rw [putCode, ofCode_of_ne_nil hcode] at hs
    rw [List.mem_singleton.mp hs]
    exact hcode
  | cons s' rest =>
    by_cases hs' : s'.kind = .code
    · rw [putCode, if_pos hs'] at hs
      rcases List.mem_cons.mp hs with rfl | hs
      · exact fun hnil => hcode (List.append_eq_nil_iff.mp hnil).1
      · exact h s (List.mem_cons_of_mem _ hs) hkind
    · rw [putCode, if_neg hs', ofCode_of_ne_nil hcode] at hs
      rcases List.mem_cons.mp hs with rfl | hs
      · exact hcode
      · exact h s hs hkind

/-- Joined sections hold no empty code. -/
theorem text_ne_nil_of_mem_merge {sections : List Section} {s : Section} (hs : s ∈ merge sections)
    (hkind : s.kind = .code) : s.text ≠ [] := by
  induction sections generalizing s with
  | nil => cases hs
  | cons s' rest ih =>
    rw [merge_cons] at hs
    by_cases hs' : s'.kind = .code
    · rw [put_of_code hs'] at hs
      exact text_ne_nil_of_mem_putCode (fun _ => ih) hs hkind
    · rw [put_of_ne hs'] at hs
      rcases List.mem_cons.mp hs with rfl | hs
      · exact absurd hkind hs'
      · exact ih hs hkind

theorem putCode_merge_inj {code : List Char} {xs ys : List Section} :
    putCode code (merge xs) = putCode code (merge ys) ↔ merge xs = merge ys := by
  refine ⟨fun h => ?_, congrArg _⟩
  by_cases hcode : code = []
  · rwa [hcode, putCode_nil, putCode_nil] at h
  · rw [← behind_putCode hcode fun _ hs => text_ne_nil_of_mem_merge hs, h,
      behind_putCode hcode fun _ hs => text_ne_nil_of_mem_merge hs]

/-- What is joined behind the same sections is the same. -/
theorem merge_append_inj {front xs ys : List Section} :
    merge (front ++ xs) = merge (front ++ ys) ↔ merge xs = merge ys := by
  induction front with
  | nil => rfl
  | cons s front ih =>
    rw [List.cons_append, List.cons_append, merge_cons, merge_cons, ← ih]
    by_cases hs : s.kind = .code
    · rw [put_of_code hs, put_of_code hs, putCode_merge_inj]
    · rw [put_of_ne hs, put_of_ne hs, List.cons.injEq, and_iff_right rfl]

/-! ### What opens a section -/

theorem opening?_line (cs : List Char) :
    opening? ('-' :: '-' :: cs) =
      some (⟨.comment, '-' :: '-' :: (takeLine cs).1⟩, (takeLine cs).2) :=
  rfl

theorem opening?_block (cs : List Char) :
    opening? ('/' :: '*' :: cs) =
      some (⟨.comment, '/' :: '*' :: (takeBlock cs).1⟩, (takeBlock cs).2) :=
  rfl

theorem opening?_quoted {c : Char} (h : isQuote c) (cs : List Char) :
    opening? (c :: cs) =
      some (⟨.quoted, c :: (takeQuoted c [] cs).1⟩, (takeQuoted c [] cs).2) := by
  unfold opening?
  split
  · rename_i heq
    cases heq
    cases h
  · rename_i heq
    cases heq
    cases h
  · rename_i heq
    cases heq
    rw [if_pos h]
  · rename_i heq
    cases heq

/-- A character opens nothing unless it is a quote or begins one of the two marks of a comment. -/
theorem opening?_eq_none_iff {c : Char} {cs : List Char} :
    opening? (c :: cs) = none ↔ isQuote c = false ∧ (c = '-' → cs.head? ≠ some '-') ∧
      (c = '/' → cs.head? ≠ some '*') := by
  constructor
  · intro h
    refine ⟨?_, ?_, ?_⟩
    · cases hquote : isQuote c with
      | false => rfl
      | true =>
        rw [opening?_quoted hquote] at h
        cases h
    · rintro rfl hhead
      obtain ⟨rest, rfl⟩ := List.head?_eq_some_iff.mp hhead
      cases h
    · rintro rfl hhead
      obtain ⟨rest, rfl⟩ := List.head?_eq_some_iff.mp hhead
      cases h
  · rintro ⟨hquote, hminus, hslash⟩
    unfold opening?
    split
    · rename_i heq
      cases heq
      exact absurd rfl (hminus rfl)
    · rename_i heq
      cases heq
      exact absurd rfl (hslash rfl)
    · rename_i heq
      cases heq
      rw [if_neg (by simp [hquote])]
    · rfl

/-- The three ways in which a section opens: two dashes, a slash and a star, or a quote. -/
theorem opening?_cases {cs rest : List Char} {s : Section} (h : opening? cs = some (s, rest)) :
    (∃ tail, cs = '-' :: '-' :: tail ∧ s = ⟨.comment, '-' :: '-' :: (takeLine tail).1⟩ ∧
      rest = (takeLine tail).2) ∨
    (∃ tail, cs = '/' :: '*' :: tail ∧ s = ⟨.comment, '/' :: '*' :: (takeBlock tail).1⟩ ∧
      rest = (takeBlock tail).2) ∨
    ∃ quote tail, isQuote quote ∧ cs = quote :: tail ∧
      s = ⟨.quoted, quote :: (takeQuoted quote [] tail).1⟩ ∧
      rest = (takeQuoted quote [] tail).2 := by
  unfold opening? at h
  split at h
  · cases h
    exact .inl ⟨_, rfl, rfl, rfl⟩
  · cases h
    exact .inr (.inl ⟨_, rfl, rfl, rfl⟩)
  · rename_i c cs _ _
    by_cases hquote : isQuote c
    · rw [if_pos hquote] at h
      cases h
      exact .inr (.inr ⟨c, cs, hquote, rfl, rfl, rfl⟩)
    · rw [if_neg hquote] at h
      cases h
  · cases h

/-- A section that opens is no code. -/
theorem kind_of_opening {cs rest : List Char} {s : Section} (h : opening? cs = some (s, rest)) :
    s.kind ≠ .code := by
  obtain ⟨_, _, rfl, _⟩ | ⟨_, _, rfl, _⟩ | ⟨_, _, _, _, rfl, _⟩ := opening?_cases h <;> exact nofun

theorem ne_backslash_of_isQuote {c : Char} (h : isQuote c) : c ≠ '\\' := by
  rintro rfl
  cases h

/-! ### The cut from the front -/

/-! One step of the cut -/

theorem cut_of_opening {cs rest : List Char} {s : Section} (h : opening? cs = some (s, rest))
    (done : List Section) (code : List Char) :
    cut done code cs = cut (s :: (ofCode code.reverse ++ done)) [] rest := by
  rw [cut]
  split
  · rename_i h'
    cases h.symm.trans h'
    rfl
  · rename_i h'
    cases h.symm.trans h'

theorem cut_nil (done : List Section) (code : List Char) :
    cut done code [] = (ofCode code.reverse ++ done).reverse := by
  rw [cut]
  rfl

theorem cut_of_code {c : Char} {cs : List Char} (h : opening? (c :: cs) = none)
    (done : List Section) (code : List Char) :
    cut done code (c :: cs) = cut done (c :: code) cs := by
  rw [cut]
  split
  · rename_i h'
    cases h.symm.trans h'
  · rfl

theorem reverse_ofCode (code : List Char) : (ofCode code).reverse = ofCode code := by
  rw [ofCode]
  split <;> rfl

/-- What has been passed stands in front of the sections of what is left. -/
theorem cut_eq (done : List Section) (code cs : List Char) :
    cut done code cs = done.reverse ++ putCode code.reverse (all cs) := by
  -- `all` is a cut too, so the fact for shorter texts is needed with other accumulators
  induction hn : cs.length using Nat.strongRecOn generalizing done code cs with
  | ind n ih =>
    subst hn
    cases hopen : opening? cs with
    | some p =>
      obtain ⟨s, rest⟩ := p
      have hlength : rest.length < cs.length := opening?_length hopen
      have hall : all cs = s :: all rest := by
        rw [all, cut_of_opening hopen, ih _ hlength _ _ rest rfl]
        exact congrArg (s :: ·) (putCode_nil _)
      have hs : s.kind ≠ .code := kind_of_opening hopen
      rw [cut_of_opening hopen, ih _ hlength _ _ rest rfl, hall, putCode, if_neg hs]
      simp [reverse_ofCode]
    | none =>
      cases cs with
      | nil => rw [cut_nil, List.reverse_append, reverse_ofCode, all, cut_nil]; rfl
      | cons c cs =>
        have hlength : cs.length < (c :: cs).length := Nat.lt_succ_self _
        have hall : all (c :: cs) = putCode [c] (all cs) := by
          rw [all, cut_of_code hopen, ih _ hlength _ _ cs rfl]
          rfl
        rw [cut_of_code hopen, ih _ hlength _ _ cs rfl, hall, putCode_putCode, List.reverse_cons]

theorem all_nil : all [] = [] := by rw [all, cut_nil]; rfl

/-- What opens a section is that section, and then the sections of the rest. -/
theorem all_of_opening {cs rest : List Char} {s : Section} (h : opening? cs = some (s, rest)) :
    all cs = s :: all rest := by
  rw [all, cut_of_opening h, cut_eq]
  exact congrArg (s :: ·) (putCode_nil _)

/-- A character that opens nothing is code. -/
theorem all_of_code {c : Char} {cs : List Char} (h : opening? (c :: cs) = none) :
    all (c :: cs) = putCode [c] (all cs) := by
  rw [all, cut_of_code h, cut_eq]
  rfl

/-! ### Sections that are followed by something else

A section that was closed is cut off in the same way whatever follows it, one that was never
closed when nothing follows it, and the comment to the end of a line when the line still ends. -/

/-- `more` can stand in the place of `rest` behind a section. -/
def Replaces (more rest : List Char) : Prop :=
  (rest = [] → more = []) ∧ (rest.head? = some '\n' → more.head? = some '\n')

theorem takeQuoted_replace {quote : Char} (hquote : quote ≠ '\\') {seen cs text rest : List Char}
    (h : takeQuoted quote seen cs = (text, rest)) :
    ∃ t, text = seen.reverse ++ t ∧ cs = t ++ rest ∧
      ∀ seen' more, Replaces more rest →
        takeQuoted quote seen' (t ++ more) = (seen'.reverse ++ t, more) := by
  fun_induction takeQuoted quote seen cs with
  | case1 seen =>
    cases h
    refine ⟨[], (List.append_nil _).symm, rfl, fun seen' more hmore => ?_⟩
    rw [hmore.1 rfl, List.append_nil, List.append_nil, takeQuoted]
  | case2 seen c cs ih =>
    obtain ⟨t, htext, hcs, hmore⟩ := ih h
    refine ⟨'\\' :: c :: t, ?_, by rw [hcs]; rfl, fun seen' more hrest => ?_⟩
    · simp [htext]
    · rw [List.cons_append, List.cons_append, takeQuoted, hmore _ more hrest]
      simp
  | case3 seen cs hpair =>
    cases h
    refine ⟨[quote], by simp, rfl, fun seen' more _ => ?_⟩
    rw [List.singleton_append, takeQuoted, if_pos rfl, List.reverse_cons]
    exact fun _ _ hslash => absurd hslash hquote
  | case4 seen c cs hpair hc ih =>
    obtain ⟨t, htext, hcs, hmore⟩ := ih h
    refine ⟨c :: t, ?_, by rw [hcs]; rfl, fun seen' more hrest => ?_⟩
    · simp [htext]
    · rw [List.cons_append, takeQuoted, if_neg hc, hmore _ more hrest]
      · simp
      -- a backslash is the last character, so nothing can follow it
      · intro d ds hslash hds
        have hcs' : cs = [] := by
          cases cs with
          | nil => rfl
          | cons d ds => exact (hpair d ds hslash rfl).elim
        obtain ⟨rfl, hrest'⟩ := List.append_eq_nil_iff.mp (hcs.symm.trans hcs')
        rw [hrest.1 hrest'] at hds
        cases hds

theorem takeLine_cons_ne {c : Char} (hc : c ≠ '\n') (cs : List Char) :
    takeLine (c :: cs) = (c :: (takeLine cs).1, (takeLine cs).2) := by
  have hp : (c != '\n') = true := by simpa using hc
  simp only [takeLine, List.takeWhile_cons, List.dropWhile_cons, hp, if_true]

theorem takeLine_replace {cs more : List Char} (h : Replaces more (takeLine cs).2) :
    takeLine ((takeLine cs).1 ++ more) = ((takeLine cs).1, more) := by
  induction cs with
  | nil =>
    rw [h.1 rfl]
    rfl
  | cons c cs ih =>
    by_cases hc : c = '\n'
    · subst hc
      obtain ⟨rest, rfl⟩ := List.head?_eq_some_iff.mp (h.2 rfl)
      rfl
    · rw [takeLine_cons_ne hc] at h ⊢
      rw [List.cons_append, takeLine_cons_ne hc, ih h]

theorem append_takeLine (cs : List Char) : (takeLine cs).1 ++ (takeLine cs).2 = cs :=
  List.takeWhile_append_dropWhile

/-- A fragment that is no longer than a text is found at its start or not, whatever follows. -/
theorem isPrefixOf_append_congr {sep text : List Char} (h : sep.length ≤ text.length)
    (xs ys : List Char) : sep.isPrefixOf (text ++ xs) = sep.isPrefixOf (text ++ ys) := by
  have hiff : ∀ zs : List Char, sep <+: text ++ zs ↔ sep <+: text := fun zs =>
    ⟨fun hp => List.prefix_of_prefix_length_le hp (List.prefix_append _ _) h,
      fun hp => hp.trans (List.prefix_append _ _)⟩
  rw [Bool.eq_iff_iff, List.isPrefixOf_iff_prefix, List.isPrefixOf_iff_prefix, hiff, hiff]

/-- The first occurrence of a fragment is found whatever follows it. -/
theorem cutAtFrom_replace {sep : List Char} (hsep : sep ≠ []) {seen cs before after : List Char}
    (h : Text.cutAtFrom sep seen cs = some (before, after)) :
    ∃ t, before = seen.reverse ++ t ∧ cs = t ++ sep ++ after ∧
      ∀ seen' more,
        Text.cutAtFrom sep seen' (t ++ sep ++ more) = some (seen'.reverse ++ t, more) := by
  induction cs generalizing seen with
  | nil =>
    rw [Text.cutAtFrom, if_neg (by simpa using hsep)] at h
    cases h
  | cons c cs ih =>
    rw [Text.cutAtFrom] at h
    split at h
    · rename_i hfound
      cases h
      obtain ⟨after, hafter⟩ := List.isPrefixOf_iff_prefix.mp hfound
      refine ⟨[], (List.append_nil _).symm, ?_, fun seen' more => ?_⟩
      · rw [← hafter, List.drop_left]
        rfl
      · obtain ⟨d, ds, rfl⟩ := List.exists_cons_of_ne_nil hsep
        have hprefix : (d :: ds).isPrefixOf (d :: (ds ++ more)) :=
          List.isPrefixOf_iff_prefix.mpr ⟨more, rfl⟩
        rw [List.nil_append, List.cons_append, Text.cutAtFrom, if_pos hprefix, List.append_nil,
          ← List.cons_append, List.drop_left]
    · rename_i hfound
      obtain ⟨t, hbefore, hcs, hmore⟩ := ih h
      refine ⟨c :: t, by simp [hbefore], by rw [hcs]; rfl, fun seen' more => ?_⟩
      have hlength : sep.length ≤ (c :: t ++ sep).length := by
        simp only [List.length_append]
        omega
      have hnot : ¬ sep.isPrefixOf (c :: t ++ sep ++ more) := by
        rw [isPrefixOf_append_congr hlength more after, List.cons_append, List.cons_append, ← hcs]
        exact hfound
      rw [List.cons_append, List.cons_append] at hnot ⊢
      rw [Text.cutAtFrom, if_neg hnot, hmore]
      simp

theorem takeBlock_replace {cs more : List Char} (h : Replaces more (takeBlock cs).2) :
    takeBlock ((takeBlock cs).1 ++ more) = ((takeBlock cs).1, more) := by
  cases hcut : Text.cutAt ['*', '/'] cs with
  | none =>
    simp only [takeBlock, hcut] at h ⊢
    rw [h.1 rfl, List.append_nil, hcut]
  | some p =>
    obtain ⟨inside, after⟩ := p
    obtain ⟨t, ht, -, hmore⟩ := cutAtFrom_replace (by simp) hcut
    cases ht
    simp only [takeBlock, hcut]
    rw [List.reverse_nil, List.nil_append, Text.cutAt, hmore]
    rfl

theorem append_takeBlock (cs : List Char) : (takeBlock cs).1 ++ (takeBlock cs).2 = cs := by
  cases hcut : Text.cutAt ['*', '/'] cs with
  | none => simp only [takeBlock, hcut, List.append_nil]
  | some p =>
    obtain ⟨inside, after⟩ := p
    obtain ⟨t, ht, hcs, -⟩ := cutAtFrom_replace (by simp) hcut
    cases ht
    simp only [takeBlock, hcut]
    exact hcs.symm

/-- A section opens in the same way in front of everything that can stand in the place of what
followed it. -/
theorem opening?_replace {cs rest more : List Char} {s : Section}
    (h : opening? cs = some (s, rest)) (hmore : Replaces more rest) :
    opening? (s.text ++ more) = some (s, more) := by
  obtain ⟨tail, rfl, rfl, rfl⟩ | ⟨tail, rfl, rfl, rfl⟩ | ⟨quote, tail, hquote, rfl, rfl, rfl⟩ :=
    opening?_cases h
  · show opening? ('-' :: '-' :: ((takeLine tail).1 ++ more)) = _
    rw [opening?_line, takeLine_replace hmore]
  · show opening? ('/' :: '*' :: ((takeBlock tail).1 ++ more)) = _
    rw [opening?_block, takeBlock_replace hmore]
  · obtain ⟨t, ht, -, hreplace⟩ := takeQuoted_replace (ne_backslash_of_isQuote hquote)
      (rfl : takeQuoted quote [] tail = (_, _))
    show opening? (quote :: ((takeQuoted quote [] tail).1 ++ more)) = _
    rw [opening?_quoted hquote, ht, List.reverse_nil, List.nil_append, hreplace [] more hmore]
    rfl

/-- A section and what follows it are the text. -/
theorem append_of_opening {cs rest : List Char} {s : Section} (h : opening? cs = some (s, rest)) :
    s.text ++ rest = cs := by
  obtain ⟨tail, rfl, rfl, rfl⟩ | ⟨tail, rfl, rfl, rfl⟩ | ⟨quote, tail, hquote, rfl, rfl, rfl⟩ :=
    opening?_cases h
  · exact congrArg ('-' :: '-' :: ·) (append_takeLine tail)
  · exact congrArg ('/' :: '*' :: ·) (append_takeBlock tail)
  · obtain ⟨t, ht, htail, -⟩ := takeQuoted_replace (ne_backslash_of_isQuote hquote)
      (rfl : takeQuoted quote [] tail = (_, _))
    show quote :: ((takeQuoted quote [] tail).1 ++ (takeQuoted quote [] tail).2) = quote :: tail
    rw [ht, List.reverse_nil, List.nil_append, ← htail]

/-! ### The sections of a text -/

/-- Induction along the cut of a text from the front. -/
theorem sections_induction {P : List Char → Prop} (nil : P [])
    (opening : ∀ cs s rest, opening? cs = some (s, rest) → P rest → P cs)
    (code : ∀ c cs, opening? (c :: cs) = none → P cs → P (c :: cs)) (cs : List Char) : P cs := by
  induction hn : cs.length using Nat.strongRecOn generalizing cs with
  | ind n ih =>
    subst hn
    cases hopen : opening? cs with
    | some p => exact opening cs p.1 p.2 hopen (ih _ (opening?_length hopen) _ rfl)
    | none =>
      cases cs with
      | nil => exact nil
      | cons c cs => exact code c cs hopen (ih _ (Nat.lt_succ_self _) _ rfl)

theorem join_ofCode (code : List Char) : join (ofCode code) = code := by
  by_cases h : code = []
  · rw [h]
    rfl
  · rw [ofCode_of_ne_nil h]
    exact List.append_nil _

theorem join_putCode (code : List Char) (sections : List Section) :
    join (putCode code sections) = code ++ join sections := by
  cases sections with
  | nil => rw [putCode, join_ofCode]; exact (List.append_nil _).symm
  | cons s rest =>
    by_cases hs : s.kind = .code
    · rw [putCode, if_pos hs]
      exact List.append_assoc ..
    · rw [putCode, if_neg hs, join, List.flatMap_append]
      exact congrArg (· ++ _) (join_ofCode code)

/-- The sections of a text are the text. -/
theorem join_all (cs : List Char) : join (all cs) = cs := by
  induction cs using sections_induction with
  | nil => rw [all_nil]; rfl
  | opening cs s rest h ih =>
    rw [all_of_opening h, ← append_of_opening h]
    exact congrArg (s.text ++ ·) ih
  | code c cs h ih => rw [all_of_code h, join_putCode, ih]; rfl

/-- No two neighbours among the sections of a text are code, and none is empty code. -/
theorem merge_all (cs : List Char) : merge (all cs) = all cs := by
  induction cs using sections_induction with
  | nil => rw [all_nil]; rfl
  | opening cs s rest h ih =>
    rw [all_of_opening h, merge_cons, ih, put_of_ne (kind_of_opening h)]
  | code c cs h ih =>
    have hput := foldr_put_put ⟨.code, [c]⟩ (all cs) []
    rw [put_of_code rfl, put_of_code rfl] at hput
    rw [all_of_code h]
    exact hput.trans (congrArg _ ih)

theorem merge_append_merge (xs ys : List Section) : merge (xs ++ merge ys) = merge (xs ++ ys) := by
  have hidem : merge (merge ys) = merge ys := by
    have := merge_merge_append ys []
    rwa [List.append_nil, List.append_nil] at this
  calc merge (xs ++ merge ys)
      = xs.foldr put (merge (merge ys)) := List.foldr_append
    _ = xs.foldr put (merge ys) := congrArg (xs.foldr put) hidem
    _ = merge (xs ++ ys) := List.foldr_append.symm

/-! ### Texts that are put together of parts -/

/-- The text is one piece of code whatever follows it. -/
def StaysCode (text : List Char) : Prop := ∀ rest, all (text ++ rest) = putCode text (all rest)

/-- The text has sections of its own whatever follows it. -/
def StandsAlone (text : List Char) : Prop :=
  ∀ rest, all (text ++ rest) = merge (all text ++ all rest)

/-- A character that neither opens a section nor begins the mark of a comment. -/
def isInert (c : Char) : Bool := !isQuote c && c != '-' && c != '/'

theorem isInert_iff {c : Char} : isInert c ↔ isQuote c = false ∧ c ≠ '-' ∧ c ≠ '/' := by
  simp [isInert, and_assoc]

theorem opening?_of_isInert {c : Char} (h : isInert c) (cs : List Char) :
    opening? (c :: cs) = none := by
  obtain ⟨hquote, hminus, hslash⟩ := isInert_iff.mp h
  exact opening?_eq_none_iff.mpr ⟨hquote, fun hc => absurd hc hminus, fun hc => absurd hc hslash⟩

namespace StaysCode

theorem nil : StaysCode [] := fun _ => (putCode_nil _).symm

theorem append {a b : List Char} (ha : StaysCode a) (hb : StaysCode b) : StaysCode (a ++ b) := by
  intro rest
  rw [List.append_assoc, ha, hb, putCode_putCode]

theorem cons_isInert {c : Char} (hc : isInert c) {text : List Char} (h : StaysCode text) :
    StaysCode (c :: text) := by
  intro rest
  rw [List.cons_append, all_of_code (opening?_of_isInert hc _), h, putCode_putCode]
  rfl

theorem of_isInert {text : List Char} (h : ∀ c ∈ text, isInert c) : StaysCode text := by
  induction text with
  | nil => exact nil
  | cons c text ih =>
    exact cons_isInert (h c List.mem_cons_self) (ih fun d hd => h d (List.mem_cons_of_mem _ hd))

/-- A minus in front of a character that opens nothing is code. -/
theorem minus_cons {d : Char} {text : List Char} (hd : isInert d) (h : StaysCode (d :: text)) :
    StaysCode ('-' :: d :: text) := by
  intro rest
  have hopen : opening? ('-' :: (d :: text ++ rest)) = none := by
    refine opening?_eq_none_iff.mpr ⟨rfl, fun _ hhead => ?_, fun hc => absurd hc (by decide)⟩
    cases hhead
    cases hd
  rw [List.cons_append, all_of_code hopen, h, putCode_putCode]
  rfl

/-- Alone, it is its one section. -/
theorem all_eq {text : List Char} (h : StaysCode text) : all text = ofCode text := by
  have := h []
  rwa [List.append_nil, all_nil] at this

theorem standsAlone {text : List Char} (h : StaysCode text) : StandsAlone text := by
  intro rest
  by_cases htext : text = []
  · rw [htext, all_nil, List.nil_append, List.nil_append, merge_all]
  · rw [h, h.all_eq, ofCode_of_ne_nil htext, List.singleton_append, merge_cons, merge_all,
      put_of_code rfl]

end StaysCode

namespace StandsAlone

theorem append {a b : List Char} (ha : StandsAlone a) (hb : StandsAlone b) :
    StandsAlone (a ++ b) := by
  intro rest
  rw [List.append_assoc, ha, hb, ha, merge_append_merge, merge_merge_append, List.append_assoc]

end StandsAlone

end SchemaMigration.ClickHouse.Section
