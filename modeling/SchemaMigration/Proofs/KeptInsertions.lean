import SchemaMigration.Proofs.BufferedTransactions
import SchemaMigration.Proofs.StatementSections
/-! # Which insertions a transaction keeps

A statement inserts when INSERT is its first word outside comments and white space (`Inserts`).  A
transaction keeps it only when that word stands at the front: what is looked at is the six
characters behind the white space, and a comment before the word hides it (`isInsert_of_inserts`).

So an insertion without a comment in front is kept until the commit, and a rollback leaves it
unsent; one with a comment in front is sent when it is asked for, and no rollback takes it back
(`Held.insertion_kept`). -/
namespace SchemaMigration.ClickHouse

open Text

variable {σ : Type}

/-! ### The first word of a statement -/

/-- The characters of a word. -/
def isWordChar (c : Char) : Bool := c.isAlphanum || c == '_'

/-- The first word outside comments and white space; none if something else stands there. -/
def firstWord : List Section → List Char
  | ⟨.comment, _⟩ :: rest => firstWord rest
  | ⟨.code, text⟩ :: rest =>
    if text.all isBlank then firstWord rest else (text.dropWhile isBlank).takeWhile isWordChar
  | _ => []

/-- Whether a comment stands before everything that is not white space. -/
def beginsWithComment : List Section → Bool
  | ⟨.comment, _⟩ :: _ => true
  | ⟨.code, text⟩ :: rest => text.all isBlank && beginsWithComment rest
  | _ => false

/-- A statement whose first word is INSERT, in any letter case. -/
def Inserts (text : String) : Prop :=
  lower (String.ofList (firstWord (Section.all text.toList))) = "insert"

instance (text : String) : Decidable (Inserts text) := inferInstanceAs (Decidable (_ = _))

/-- A statement with a comment in front. -/
def IsCommented (text : String) : Prop := beginsWithComment (Section.all text.toList) = true

instance (text : String) : Decidable (IsCommented text) := inferInstanceAs (Decidable (_ = _))

/-- A comment begins with a dash or a slash. -/
theorem Section.text_of_comment {cs : List Char} :
    ∀ s ∈ all cs, s.kind = .comment → ∃ c tail, s.text = c :: tail ∧ (c = '-' ∨ c = '/') := by
  induction cs using sections_induction with
  | nil => simp [all_nil]
  | opening cs s rest h ih =>
    rw [all_of_opening h]
    refine List.forall_mem_cons.mpr ⟨fun hkind => ?_, ih⟩
    obtain ⟨tail, -, rfl, -⟩ | ⟨tail, -, rfl, -⟩ | ⟨quote, tail, -, -, rfl, -⟩ := opening?_cases h
    · exact ⟨_, _, rfl, .inl rfl⟩
    · exact ⟨_, _, rfl, .inr rfl⟩
    · cases hkind
  | code c cs h ih =>
    rw [all_of_code h]
    intro s hs hkind
    -- a comment that stands behind the character is one of those of the rest
    have hfilter : s ∈ (putCode [c] (all cs)).filter (·.kind ≠ .code) :=
      List.mem_filter.mpr ⟨hs, by simp [hkind]⟩
    rw [filter_putCode] at hfilter
    exact ih s (List.mem_filter.mp hfilter).1 hkind

theorem lower_ofList_eq_iff {cs : List Char} {word : String} :
    lower (String.ofList cs) = word ↔ cs.map Char.toLower = word.toList := by
  rw [lower, String.toList_ofList, ← String.toList_inj, String.toList_ofList]

/-- A word of the code stands at the front of it, behind the white space. -/
theorem take_front {text : List Char} (rest : List Char) {n : Nat}
    (hlength : ((text.dropWhile isBlank).takeWhile isWordChar).length = n) (hn : n ≠ 0) :
    ((text ++ rest).dropWhile isBlank).take n =
      (text.dropWhile isBlank).takeWhile isWordChar := by
  have htext : text.dropWhile isBlank = (text.dropWhile isBlank).takeWhile isWordChar ++
      (text.dropWhile isBlank).dropWhile isWordChar :=
    List.takeWhile_append_dropWhile.symm
  have hne : ¬(text.dropWhile isBlank).isEmpty = true := by
    rw [htext, List.isEmpty_iff]
    intro hnil
    rw [(List.append_eq_nil_iff.mp hnil).1] at hlength
    exact hn hlength.symm
  rw [List.dropWhile_append, if_neg hne]
  calc (text.dropWhile isBlank ++ rest).take n
      = ((text.dropWhile isBlank).takeWhile isWordChar ++
          ((text.dropWhile isBlank).dropWhile isWordChar ++ rest)).take n := by
        rw [← List.append_assoc, ← htext]
    _ = (text.dropWhile isBlank).takeWhile isWordChar := List.take_left' hlength

/-- When INSERT is the first word, it stands at the front unless a comment does. -/
theorem front_of_firstWord {sections : List Section}
    (hcomment : ∀ s ∈ sections, s.kind = .comment →
      ∃ c tail, s.text = c :: tail ∧ (c = '-' ∨ c = '/'))
    (h : (firstWord sections).map Char.toLower = "insert".toList) :
    (((Section.join sections).dropWhile isBlank).take 6).map Char.toLower = "insert".toList ↔
      beginsWithComment sections = false := by
  induction sections with
  | nil => cases h
  | cons s rest ih =>
    obtain ⟨hfirst, hrest⟩ := List.forall_mem_cons.mp hcomment
    obtain ⟨kind, text⟩ := s
    rw [Section.join, List.flatMap_cons, ← Section.join]
    cases kind with
    | quoted => cases h
    | comment =>
      -- the comment stands where the word would have to
      obtain ⟨c, tail, htext, hc⟩ := hfirst rfl
      have hblank : ¬isBlank c = true := by rcases hc with rfl | rfl <;> decide
      dsimp only at htext ⊢
      rw [htext, List.cons_append, List.dropWhile_cons_of_neg hblank, List.take_succ_cons,
        List.map_cons]
      refine iff_of_false (fun hword => ?_) (by simp [beginsWithComment])
      have hhead : c.toLower = 'i' := (List.cons.inj hword).1
      rcases hc with rfl | rfl <;> exact absurd hhead (by decide)
    | code =>
      rw [firstWord] at h
      rw [beginsWithComment]
      by_cases hblank : text.all isBlank = true
      · rw [if_pos hblank] at h
        rw [hblank, Bool.true_and, List.dropWhile_append_of_pos (by simpa using hblank)]
        exact ih hrest h
      · rw [if_neg hblank] at h
        rw [Bool.eq_false_iff.mpr hblank, Bool.false_and]
        refine iff_of_true ?_ rfl
        have hlength : ((text.dropWhile isBlank).takeWhile isWordChar).length = 6 := by
          rw [← List.length_map Char.toLower, h]
          rfl
        rw [take_front _ hlength (by decide)]
        exact h

/-- An insertion is taken for one exactly when no comment stands in front of it. -/
theorem isInsert_iff_of_inserts {text : String} (h : Inserts text) :
    isInsert text = true ↔ ¬IsCommented text := by
  have hfront := front_of_firstWord Section.text_of_comment (lower_ofList_eq_iff.mp h)
  rw [Section.join_all] at hfront
  rw [isInsert, decide_eq_true_eq, lower_ofList_eq_iff, hfront, IsCommented, Bool.not_eq_true]

/-! ### What a transaction that is rolled back has sent -/

namespace Turn

variable {opened token : Token σ} {kept : List String} {t : Turn σ}

/-- The statement that a call itself asks to be sent. -/
def asked? (t : Turn σ) : Option String :=
  match t.operation with
  | .query _ text args => (bind text args).toOption.map withFormat
  | .exec _ text args => if isInsert text then none else (bind text args).toOption
  | _ => none

/-- A call sends nothing, or the statement that it asks for. -/
def SendsOwn (t : Turn σ) : Prop :=
  t.posts = [] ∨ ∃ p sql, t.posts = [p] ∧ p.sql? = some sql ∧ t.asked? = some sql

/-- What closed the transaction was a rollback. -/
def RolledBack (opened : Token σ) (turns : List (Turn σ)) : Prop :=
  ∃ before r after, turns = before ++ r :: after ∧ (∀ t ∈ before, t.closes opened = false) ∧
    r.operation = .rollback

theorem SendsAtOnce.own {bound : Except Failure String} (h : t.SendsAtOnce token bound)
    (hbound : ∀ sql, bound = .ok sql → t.asked? = some sql) : t.SendsOwn := by
  unfold SendsAtOnce at h
  split at h
  · exact .inl h.1
  · cases bound with
    | error e => exact .inl h.1
    | ok sql =>
      obtain ⟨p, hposts, hsql⟩ := h
      exact .inr ⟨p, sql, hposts, hsql, hbound sql rfl⟩

/-- Only a commit that closes the transaction sends what other calls have asked for. -/
theorem Obeys.own (h : t.Obeys opened kept)
    (hcommit : t.operation = .commit → t.closes opened = false) : t.SendsOwn := by
  rw [Obeys] at h
  rw [closes] at hcommit
  cases hop : t.operation with
  | query token text args =>
    rw [hop] at h
    refine h.own fun sql hsql => ?_
    rw [asked?, hop]
    dsimp only
    cases hbind : bind text args with
    | error e =>
      rw [hbind] at hsql
      cases hsql
    | ok bound =>
      rw [hbind] at hsql
      cases hsql
      rfl
  | exec token text args =>
    rw [hop] at h
    dsimp only at h
    split at h
    · exact .inl h.1
    · rename_i hinsert
      refine h.own fun sql hsql => ?_
      rw [asked?, hop]
      dsimp only
      rw [if_neg hinsert, hsql]
      rfl
  | commit =>
    rw [hop] at h hcommit
    dsimp only at h hcommit
    have hraised : opened.isRaised t.before = true := by simpa using hcommit rfl
    rw [if_pos hraised] at h
    exact .inl h.1
  | rollback =>
    rw [hop] at h
    exact .inl h.1

end Turn

namespace Held

variable {s : Settings} {net : Transport σ} {opened : Token σ} {id : Nat} {w : Wired σ}
  {turns earlier : List (Turn σ)} {t : Turn σ}

/-- Every turn is a call from a state that the turns before it have led to. -/
theorem turn_of_prefix (h : Held s net opened id turns w) (ht : earlier ++ [t] <+: turns) :
    ∃ w' o, Held s net opened id earlier w' ∧ t = Operation.turn s net opened id o w' := by
  induction h with
  | start _ => exact absurd ht.length_le (by simp)
  | elsewhere _ _ ih => exact ih ht
  | @turn turns w h o ih =>
    rcases List.prefix_concat_iff.mp ht with hlast | hbefore
    · obtain ⟨rfl, hturn⟩ := List.append_inj' hlast rfl
      exact ⟨w, o, h, List.singleton_inj.mp hturn⟩
    · exact ih hbefore

/-- Before the transaction is closed a call obeys, and after that nothing is sent. -/
theorem obeys_or_refused (h : Held s net opened id turns w) (ht : earlier ++ [t] <+: turns) :
    (∃ kept, Turn.left opened earlier = some kept ∧ t.Obeys opened kept) ∨
      Turn.left opened earlier = none ∧ t.posts = [] := by
  obtain ⟨w', o, hheld, rfl⟩ := h.turn_of_prefix ht
  have hslot := hheld.slot_eq
  cases hleft : Turn.left opened earlier with
  | none =>
    rw [hleft] at hslot
    exact .inr ⟨rfl, (Operation.turn_closed s net opened hslot o).1.1⟩
  | some kept =>
    rw [hleft] at hslot
    exact .inl ⟨kept, rfl, (Operation.turn_open s net opened hslot o).1⟩

/-- Nothing that was kept is sent when the transaction is rolled back. -/
theorem rolledBack_sendsOwn (h : Held s net opened id turns w)
    (hback : Turn.RolledBack opened turns) : ∀ t ∈ turns, t.SendsOwn := by
  obtain ⟨before, r, after, hturns, hopen, hr⟩ := hback
  intro t ht
  obtain ⟨earlier, later, hsplit⟩ := List.append_of_mem ht
  have hprefix : earlier ++ [t] <+: turns := ⟨later, by simp [hsplit]⟩
  rcases h.obeys_or_refused hprefix with ⟨kept, hleft, hobeys⟩ | ⟨-, hposts⟩
  · refine hobeys.own fun hcommit => ?_
    -- a call of the open transaction stands before the rollback, or is the rollback
    rw [hturns] at hsplit
    rcases List.append_eq_append_iff.mp hsplit with
      ⟨between, hearlier, hrest⟩ | ⟨between, hbefore, hrest⟩
    · cases between with
      | nil =>
        obtain rfl : r = t := (List.cons.inj hrest).1
        rw [hr] at hcommit
        cases hcommit
      | cons r' between =>
        obtain rfl : r = r' := (List.cons.inj hrest).1
        have hcloses : earlier.any (Turn.closes opened) = true :=
          List.any_eq_true.mpr ⟨r, by simp [hearlier], by rw [Turn.closes, hr]⟩
        rw [Turn.left, if_pos hcloses] at hleft
        cases hleft
    · cases between with
      | nil =>
        obtain rfl : t = r := (List.cons.inj hrest).1
        rw [hr] at hcommit
        cases hcommit
      | cons t' between =>
        obtain rfl : t = t' := (List.cons.inj hrest).1
        exact hopen t (by simp [hbefore])
  · exact .inl hposts

/-- A call obeys as long as the transaction is open. -/
theorem obeys_of_open (h : Held s net opened id turns w) (ht : earlier ++ [t] <+: turns)
    {kept : List String} (hopen : Turn.left opened earlier = some kept) : t.Obeys opened kept := by
  rcases h.obeys_or_refused ht with ⟨kept', hleft, hobeys⟩ | ⟨hleft, -⟩
  · rw [hopen] at hleft
    rwa [Option.some.inj hleft]
  · rw [hopen] at hleft
    cases hleft

/-- A statement that is not taken for an insertion is sent when it is asked for. -/
theorem sendsAtOnce_of_open (h : Held s net opened id turns w) (ht : earlier ++ [t] <+: turns)
    {kept : List String} (hopen : Turn.left opened earlier = some kept) {token : Token σ}
    {text : String} {args : List Value} (hexec : t.operation = .exec token text args)
    (htext : isInsert text = false) : t.SendsAtOnce token (bind text args) := by
  have hobeys := h.obeys_of_open ht hopen
  rw [Turn.Obeys, hexec] at hobeys
  dsimp only at hobeys
  rwa [if_neg (Bool.eq_false_iff.mp htext)] at hobeys

/-- **An insertion is kept until the commit exactly when no comment stands in front of it.**

* Without one, nothing is sent for it, its statement joins those that are kept, and when the
  transaction is rolled back no call has sent anything but what it asked for itself, which is
  nothing for an insertion.
* With one, it is sent when it is asked for, as any other statement. -/
theorem insertion_kept (h : Held s net opened id turns w) (ht : earlier ++ [t] <+: turns)
    {kept : List String} (hopen : Turn.left opened earlier = some kept) {token : Token σ}
    {text : String} {args : List Value} (hexec : t.operation = .exec token text args)
    (hinserts : Inserts text) :
    if IsCommented text then t.SendsAtOnce token (bind text args)
    else t.posts = [] ∧ t.answer = ((bind text args).map fun _ => ()) ∧
      Turn.left opened (earlier ++ [t]) = some (kept ++ (bind text args).toOption.toList) ∧
      (Turn.RolledBack opened turns → t.asked? = none ∧ ∀ u ∈ turns, u.SendsOwn) := by
  have hinsert := isInsert_iff_of_inserts hinserts
  by_cases hcommented : IsCommented text
  · rw [if_pos hcommented]
    refine h.sendsAtOnce_of_open ht hopen hexec (Bool.eq_false_iff.mpr fun htaken => ?_)
    exact hinsert.mp htaken hcommented
  · have hkept : isInsert text = true := hinsert.mpr hcommented
    have hobeys := h.obeys_of_open ht hopen
    rw [Turn.Obeys, hexec] at hobeys
    dsimp only at hobeys
    rw [if_pos hkept] at hobeys
    rw [if_neg hcommented]
    refine ⟨hobeys.1, hobeys.2, ?_, fun hback => ⟨?_, h.rolledBack_sendsOwn hback⟩⟩
    · simp only [Turn.left_concat, hopen, Turn.closes, Turn.keeps, hexec, hkept, if_true,
        Option.bind_some, Bool.false_eq_true, if_false]
    · simp only [Turn.asked?, hexec, hkept, if_true]

/-- One insertion with comments in front, one with a blank, and a rollback. -/
theorem insertion_kept_behind_comments :
    let net : Transport Unit := ⟨fun _ => .ofStep fun u => (.ok ⟨200, none, ""⟩, u)⟩
    let opened : Token Unit := ⟨fun _ => false, fun u => u⟩
    let s : Settings := ⟨"http://localhost:8123", [], "default", "default", ""⟩
    ∃ first second back w, Held s net opened 0 [first, second, back] w ∧
      first.operation = .exec opened "/* c */ -- n\nINSERT INTO t VALUES (1)" [] ∧
      second.operation = .exec opened " insert INTO t VALUES (2)" [] ∧
      back.operation = .rollback ∧
      first.SendsAtOnce opened (.ok "/* c */ -- n\nINSERT INTO t VALUES (1)") ∧
      second.posts = [] ∧ ∀ u ∈ [first, second, back], u.SendsOwn := by
  intro net opened s
  have hstart : Held s net opened 0 [] ⟨(), ⟨0, [some []]⟩, []⟩ :=
    .start (w := ⟨(), .start, []⟩) rfl
  obtain ⟨first, second, back, w, hrun, hfirst, hsecond, hback⟩ :
      ∃ first second back w, Held s net opened 0 [first, second, back] w ∧
        first.operation = .exec opened "/* c */ -- n\nINSERT INTO t VALUES (1)" [] ∧
        second.operation = .exec opened " insert INTO t VALUES (2)" [] ∧
        back.operation = .rollback :=
    ⟨_, _, _, _, ((hstart.turn _).turn _).turn _, rfl, rfl, rfl⟩
  have hopen : Turn.left opened [first] = some ([first].flatMap Turn.keeps) := by
    simp [Turn.left, Turn.closes, hfirst]
  have hsent := hrun.insertion_kept (show [] ++ [first] <+: _ from ⟨[second, back], rfl⟩) rfl
    hfirst (by decide +kernel)
  have hkept := hrun.insertion_kept (show [first] ++ [second] <+: _ from ⟨[back], rfl⟩) hopen
    hsecond (by decide +kernel)
  rw [if_pos (by decide +kernel)] at hsent
  rw [if_neg (by decide +kernel)] at hkept
  have hrolled : Turn.RolledBack opened [first, second, back] :=
    ⟨[first, second], back, [], rfl, by simp [Turn.closes, hfirst, hsecond], hback⟩
  exact ⟨first, second, back, w, hrun, hfirst, hsecond, hback, hsent, hkept.1,
    (hkept.2.2.2 hrolled).2⟩

/-- **Not every insertion is kept until the commit**: with a comment in front, it is sent at once
and stays sent when the transaction is rolled back. -/
theorem commented_insertion_sent :
    let net : Transport Unit := ⟨fun _ => .ofStep fun u => (.ok ⟨200, none, ""⟩, u)⟩
    let opened : Token Unit := ⟨fun _ => false, fun u => u⟩
    let s : Settings := ⟨"http://localhost:8123", [], "default", "default", ""⟩
    Inserts "-- note\nINSERT INTO t VALUES (1)" ∧
      ∃ t back w, Held s net opened 0 [t, back] w ∧
        t.operation = .exec opened "-- note\nINSERT INTO t VALUES (1)" [] ∧
        t.posts.map Post.sql? = [some "-- note\nINSERT INTO t VALUES (1)"] ∧
        back.operation = .rollback ∧ Turn.RolledBack opened [t, back] := by
  intro net opened s
  have hstart : Held s net opened 0 [] ⟨(), ⟨0, [some []]⟩, []⟩ :=
    .start (w := ⟨(), .start, []⟩) rfl
  have hrun := (hstart.turn (.exec opened "-- note\nINSERT INTO t VALUES (1)" [])).turn .rollback
  refine ⟨by decide +kernel, _, _, _, hrun, rfl, ?_, rfl, ?_⟩
  · obtain ⟨p, hposts, hsql⟩ :=
      hrun.sendsAtOnce_of_open (List.prefix_append _ _) rfl rfl (by decide +kernel)
    rw [hposts, List.map_singleton, hsql]
  · exact ⟨[_], _, [], rfl, List.forall_mem_singleton.mpr rfl, rfl⟩

end Held

end SchemaMigration.ClickHouse
