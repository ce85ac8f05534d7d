import Mathlib.Data.Bool.AllAny
import Mathlib.Data.List.Infix
import SchemaMigration.ClickHouse.ExceptionText
import SchemaMigration.Proofs.FileNames
import SchemaMigration.Proofs.IntegerReading
/-! # Reading what a server says of a failure

A notice is written with a code, a message, a name and perhaps a version (`Notice.text`).  The
message is arbitrary text and may itself look like what stands behind it, and what is read is the
shortest message behind which only an ending is left.  That is the whole message unless it opens
the words that introduce a version: those are then taken for the version, and the message ends
before them (`readException_notice_iff`). -/
namespace SchemaMigration.ClickHouse

open Number Text

/-! ### Names and versions -/

/-- The words in front of a version. -/
def versionMark : List Char := [' ', '(', 'v', 'e', 'r', 's', 'i', 'o', 'n', ' ']

theorem toList_versionMark : " (version ".toList = versionMark := by decide

theorem versionMark_ne_nil : versionMark ≠ [] := by decide

theorem isVersionPart_iff {cs : List Char} :
    isVersionPart cs = true ↔
      cs = [] ∨ ∃ rest, cs = versionMark ++ rest ∧ rest.getLast? = some ')' := by
  rw [isVersionPart, toList_versionMark]
  split
  · rename_i rest hrest
    obtain rfl := dropStart?_eq_some_iff.mp hrest
    rw [decide_eq_true_eq]
    constructor
    · exact fun hlast => .inr ⟨rest, rfl, hlast⟩
    · rintro (hnil | ⟨rest', hrest', hlast⟩)
      · exact absurd (List.append_eq_nil_iff.mp hnil).1 versionMark_ne_nil
      · rwa [List.append_cancel_left hrest']
  · rename_i hnone
    rw [List.isEmpty_iff]
    refine ⟨.inl, ?_⟩
    rintro (hnil | ⟨rest, rfl, -⟩)
    · exact hnil
    · rw [dropStart?_append] at hnone
      cases hnone

/-- A name in parentheses with a blank in front. -/
def namePart (name : List Char) : List Char := ' ' :: '(' :: name ++ [')']

theorem takeName_append {name : List Char} (hne : name ≠ [])
    (hname : ∀ c ∈ name, isNameChar c = true) (rest : List Char) :
    takeName (namePart name ++ rest) = some (name, rest) := by
  have hcs : namePart name ++ rest = ' ' :: '(' :: (name ++ ')' :: rest) := by
    simp [namePart]
  have hend : isNameChar ')' = false := by decide
  have hspan := span_append_cons hname hend rest
  rw [hcs, takeName]
  simp only [hspan, List.isEmpty_eq_false_iff.mpr hne, Bool.false_eq_true, ↓reduceIte]

theorem parts_of_takeName {cs name rest : List Char} (h : takeName cs = some (name, rest)) :
    cs = namePart name ++ rest ∧ ∀ c ∈ name, isNameChar c = true := by
  unfold takeName at h
  split at h
  · rename_i r
    simp only at h
    split at h
    · rename_i after hafter
      split at h
      · cases h
      · cases h
        refine ⟨?_, fun c hc => List.mem_takeWhile_imp hc⟩
        have hr := List.takeWhile_append_dropWhile (p := isNameChar) (l := r)
        rw [hafter] at hr
        conv => lhs; rw [← hr]
        simp [namePart]
    · cases h
  · cases h

/-- An ending is a version or nothing, perhaps with a name in front. -/
theorem endingName?_cases {cs name : List Char} (h : endingName? cs = some name) :
    isVersionPart cs = true ∨
      ∃ rest, takeName cs = some (name, rest) ∧ isVersionPart rest = true := by
  unfold endingName? at h
  split at h
  · rename_i name' rest htake
    split at h
    · rename_i hrest
      cases h
      exact .inr ⟨rest, htake, hrest⟩
    · split at h
      · rename_i hcs
        exact .inl hcs
      · cases h
  · split at h
    · rename_i hcs
      exact .inl hcs
    · cases h

theorem endingName?_of_name {cs name rest : List Char} (h : takeName cs = some (name, rest))
    (hrest : isVersionPart rest = true) : endingName? cs = some name := by
  unfold endingName?
  simp only [h, hrest, ↓reduceIte]

theorem endingName?_of_version {cs : List Char} (h : isVersionPart cs = true) :
    ∃ name, endingName? cs = some name := by
  unfold endingName?
  rw [if_pos h]
  split
  · split <;> exact ⟨_, rfl⟩
  · exact ⟨_, rfl⟩

/-! ### The shortest message -/

/-- A message is read up to the first place where an ending begins. -/
theorem takeMessage_append {message ending name : List Char} (seen : List Char)
    (hname : endingName? ending = some name)
    (hmessage : ∀ front back, message = front ++ back → back ≠ [] →
      endingName? (back ++ ending) = none) :
    takeMessage seen (message ++ ending) = (seen.reverse ++ message, name) := by
  induction message generalizing seen with
  | nil =>
    rw [List.nil_append, takeMessage.eq_def, hname, List.append_nil]
  | cons c message ih =>
    have hnone := hmessage [] (c :: message) rfl (List.cons_ne_nil _ _)
    have hrest := ih (c :: seen) fun front back hparts hne =>
      hmessage (c :: front) back (by rw [hparts]; rfl) hne
    rw [List.cons_append] at hnone ⊢
    rw [takeMessage.eq_def, hnone]
    simp only [hrest, List.reverse_cons, List.append_assoc, List.singleton_append]

/-- A message is read at most up to a place where an ending begins. -/
theorem length_takeMessage_le (seen front : List Char) {back name : List Char}
    (h : endingName? back = some name) :
    (takeMessage seen (front ++ back)).1.length ≤ seen.length + front.length := by
  induction front generalizing seen with
  | nil =>
    rw [List.nil_append, takeMessage.eq_def, h]
    simp
  | cons c front ih =>
    rw [List.cons_append, takeMessage.eq_def]
    split
    · simp
    · have hrest := ih (c :: seen)
      simp only [List.length_cons] at hrest ⊢
      omega

/-! ### Words that look like an ending -/

/-- The words of a version that begin before the blank of an ending are over with this blank. -/
theorem versionMark_prefix {back rest : List Char} (hne : back ≠ [])
    (h : versionMark <+: back ++ ' ' :: '(' :: rest) : versionMark <+: back ++ [' '] := by
  have happend : back ++ ' ' :: '(' :: rest = (back ++ [' ']) ++ '(' :: rest := by simp
  rw [happend] at h
  rcases List.prefix_or_prefix_of_prefix h (List.prefix_append _ _) with hmark | hback
  · exact hmark
  · -- of the words only the first character and the last one are blanks
    have hblanks : ∀ part ∈ versionMark.inits, 1 < part.length → part.getLast? = some ' ' →
        part = versionMark := by decide
    have hlength : 1 < (back ++ [' ']).length := by
      have := List.length_pos_iff.mpr hne
      simp only [List.length_append, List.length_singleton]
      omega
    have hall := hblanks _ ((List.mem_inits _ _).mpr hback) hlength (by simp)
    rw [hall]

/-- The words of a version are no name. -/
theorem not_versionMark_prefix {name rest : List Char} (hne : name ≠ [])
    (hname : ∀ c ∈ name, isNameChar c = true) : ¬versionMark <+: namePart name ++ rest := by
  obtain ⟨c, cs, rfl⟩ := List.exists_cons_of_ne_nil hne
  rintro ⟨rest', hrest⟩
  have hc : 'v' = c := by
    have hthird := congrArg (·[2]?) hrest
    simpa [versionMark, namePart] using hthird
  have hv := hname c List.mem_cons_self
  rw [← hc] at hv
  exact absurd hv (by decide)

/-- Where a message goes on, no ending begins, unless the message opens a version. -/
theorem endingName?_inside {front back name rest : List Char} (hback : back ≠ [])
    (hne : name ≠ []) (hname : ∀ c ∈ name, isNameChar c = true)
    (hmark : ¬versionMark <:+: front ++ back ++ [' ']) :
    endingName? (back ++ (namePart name ++ rest)) = none := by
  -- neither here nor further on in the message are there the words of a version
  have hversion (part : List Char) (hpart : part <:+ back)
      (h : isVersionPart (part ++ (namePart name ++ rest)) = true) : False := by
    rcases isVersionPart_iff.mp h with hnil | ⟨rest', hrest', -⟩
    · simp [namePart] at hnil
    · have hprefix : versionMark <+: part ++ (namePart name ++ rest) := ⟨rest', hrest'.symm⟩
      by_cases hnil : part = []
      · subst hnil
        exact not_versionMark_prefix hne hname hprefix
      · have hwords : versionMark <+: part ++ ' ' :: '(' :: (name ++ [')'] ++ rest) := by
          simpa [namePart] using hprefix
        have hinside := versionMark_prefix hnil hwords
        obtain ⟨before, rfl⟩ := hpart
        refine hmark (hinside.isInfix.trans ⟨front ++ before, [], ?_⟩)
        simp
  by_contra hsome
  obtain ⟨found, hfound⟩ := Option.ne_none_iff_exists'.mp hsome
  rcases endingName?_cases hfound with hpart | ⟨rest', htake, hrest'⟩
  · exact hversion back (List.suffix_refl back) hpart
  · obtain ⟨hparts, hfoundName⟩ := parts_of_takeName htake
    rcases List.append_eq_append_iff.mp hparts with
      ⟨inner, hinner, hending⟩ | ⟨inner, hinner, htail⟩
    · by_cases hnil : inner = []
      · subst hnil
        rw [List.nil_append] at hending
        rw [← hending] at hrest'
        exact hversion [] List.nil_suffix hrest'
      · -- the name found would go on over the blank in front of the name that is written
        obtain ⟨c, cs, rfl⟩ := List.exists_cons_of_ne_nil hnil
        obtain ⟨d, ds, rfl⟩ := List.exists_cons_of_ne_nil hback
        obtain ⟨rfl, -⟩ := List.cons.inj hending
        have htail : '(' :: found ++ [')'] = ds ++ ' ' :: cs := (List.cons.inj hinner).2
        have hmem : ' ' ∈ '(' :: found ++ [')'] := by
          rw [htail]
          exact List.mem_append_right ds List.mem_cons_self
        rw [List.cons_append, List.mem_cons, List.mem_append, List.mem_singleton] at hmem
        rcases hmem with h | h | h
        · cases h
        · exact absurd (hfoundName _ h) (by decide)
        · cases h
    · rw [htail] at hrest'
      exact hversion inner ⟨namePart found, hinner.symm⟩ hrest'

/-! ### The code in front of the message -/

theorem takeHead_eq {digits rest' rest : List Char} {c : Char} (hne : digits ≠ [])
    (hall : ∀ d ∈ digits, isDecimalDigit d = true) (hc : c = '.' ∨ c = ',')
    (hdrop : dropStart? "DB::Exception: ".toList
      ((dropStart? "e.displayText() = ".toList rest').getD rest') = some rest) :
    takeHead ("Code: ".toList ++ (digits ++ c :: ' ' :: rest')) = some (digits, rest) := by
  have hsign : isDecimalDigit c = false := by
    rcases hc with rfl | rfl <;> decide
  have hspan := span_append_cons hall hsign (' ' :: rest')
  have hempty : digits.isEmpty = false := List.isEmpty_eq_false_iff.mpr hne
  rw [takeHead, dropStart?_append]
  simp only [Option.bind_eq_bind, Option.bind_some, hspan, hempty, hc, hdrop]
  rfl

/-- Without digits there is no code. -/
theorem takeHead_of_sign {c : Char} (hc : isDecimalDigit c = false) (rest : List Char) :
    takeHead ("Code: ".toList ++ c :: rest) = none := by
  have htake : (c :: rest).takeWhile isDecimalDigit = [] :=
    List.takeWhile_cons_of_neg (Bool.eq_false_iff.mp hc)
  rw [takeHead, dropStart?_append]
  simp only [Option.bind_eq_bind, Option.bind_some, htake, List.isEmpty_nil]
  rfl

/-! ### Written notices -/

/-- What a server says of a failure. -/
structure Notice where
  code : Int
  /-- Whether a comma stands behind the code, and not a point. -/
  comma : Bool
  /-- Whether the words `e.displayText() = ` stand in front of the exception. -/
  displayed : Bool
  message : String
  name : String
  version : Option String
  trimmed : trim message.toList = message.toList
  named : name.toList ≠ []
  plain : ∀ c ∈ name.toList, ('A' ≤ c ∧ c ≤ 'Z') ∨ ('0' ≤ c ∧ c ≤ '9') ∨ c = '_'

namespace Notice

/-- The words in front of the message. -/
def opening (n : Notice) : String :=
  "Code: " ++ toString n.code ++ (if n.comma then ", " else ". ") ++
    (if n.displayed then "e.displayText() = " else "") ++ "DB::Exception: "

/-- The name and the version behind the message. -/
def ending (n : Notice) : String :=
  " (" ++ n.name ++ ")" ++ match n.version with
    | some version => " (version " ++ version ++ ")"
    | none => ""

/-- The notice as it is written. -/
def text (n : Notice) : String := n.opening ++ n.message ++ n.ending

/-- The notice as an exception: a code of more than 32 bits is left to the header. -/
def exception (n : Notice) (header : Option Int) : Exception where
  code := if -2 ^ 31 ≤ n.code ∧ n.code < 2 ^ 31 then n.code else header.getD 0
  name := n.name
  message := n.message

/-- The message, with the blank behind it, has the words in front of a version in it. -/
def OpensVersion (n : Notice) : Prop := " (version ".toList <:+: n.message.toList ++ [' ']

variable (n : Notice)

theorem isNameChar_of_mem {c : Char} (hc : c ∈ n.name.toList) : isNameChar c = true := by
  have hplain := n.plain c hc
  rw [isNameChar, Bool.or_eq_true, Bool.or_eq_true, beq_iff_eq]
  rcases hplain with h | h | h
  · exact .inl (.inl (decide_eq_true h))
  · exact .inl (.inr (Char.isDigit_iff_toNat.mpr h))
  · exact .inr h

/-- The part of the ending behind the name. -/
def versionPart : List Char :=
  match n.version with
  | some version => versionMark ++ (version.toList ++ [')'])
  | none => []

theorem isVersionPart_versionPart : isVersionPart n.versionPart = true := by
  rw [isVersionPart_iff, versionPart]
  cases n.version with
  | some version => exact .inr ⟨_, rfl, by simp⟩
  | none => exact .inl rfl

theorem toList_ending : n.ending.toList = namePart n.name.toList ++ n.versionPart := by
  rw [ending, versionPart]
  cases n.version with
  | some version =>
    simp only [String.toList_append, toList_versionMark, namePart]
    simp
  | none =>
    simp only [String.toList_append, namePart]
    simp

theorem endingName?_ending : endingName? n.ending.toList = some n.name.toList := by
  rw [toList_ending]
  exact endingName?_of_name (takeName_append n.named (fun _ => n.isNameChar_of_mem) _)
    n.isVersionPart_versionPart

/-- A notice ends with a bracket. -/
theorem getLast?_ending : n.ending.toList.getLast? = some ')' := by
  rw [toList_ending, versionPart]
  cases n.version with
  | some version => simp
  | none =>
    rw [List.append_nil]
    exact List.getLast?_concat

/-! ### The code and the words around it -/

/-- What stands between the sign behind the code and the message. -/
def words : List Char :=
  (if n.displayed then "e.displayText() = ".toList else []) ++ "DB::Exception: ".toList

theorem toList_opening :
    n.opening.toList = "Code: ".toList ++ ((toString n.code).toList ++
      (if n.comma then ',' else '.') :: ' ' :: n.words) := by
  have hcomma : (if n.comma then ", " else ". ").toList =
      [if n.comma then ',' else '.', ' '] := by
    cases n.comma <;> rfl
  have hdisplayed : (if n.displayed then "e.displayText() = " else "").toList =
      if n.displayed then "e.displayText() = ".toList else [] := by
    cases n.displayed <;> rfl
  rw [opening, String.toList_append, String.toList_append, String.toList_append,
    String.toList_append, hcomma, hdisplayed, words]
  simp only [List.append_assoc, List.cons_append, List.nil_append]

/-- The words are left out, whether there are more of them or fewer. -/
theorem dropStart?_words (rest : List Char) :
    dropStart? "DB::Exception: ".toList
      ((dropStart? "e.displayText() = ".toList (n.words ++ rest)).getD (n.words ++ rest)) =
        some rest := by
  rw [words]
  cases n.displayed with
  | true =>
    rw [if_pos rfl, List.append_assoc, dropStart?_append, Option.getD_some, dropStart?_append]
  | false =>
    rw [if_neg Bool.false_ne_true, List.nil_append,
      dropStart?_of_apart (by decide) (by decide), Option.getD_none, dropStart?_append]

/-- The digits of a code that is not negative are read. -/
theorem takeHead_opening (hcode : 0 ≤ n.code) (rest : List Char) :
    takeHead (n.opening.toList ++ rest) = some (Nat.toDigits 10 n.code.toNat, rest) := by
  have hdigits : (toString n.code).toList = Nat.toDigits 10 n.code.toNat := by
    rw [Int.toString_eq_repr, Int.repr_eq_if, if_pos hcode, Nat.toList_repr]
  have hall : ∀ c ∈ Nat.toDigits 10 n.code.toNat, isDecimalDigit c = true := fun c hc =>
    Version.isDecimalDigit_of_isDigit (Nat.isDigit_of_mem_toDigits (by omega) (by omega) hc)
  have hsign : (if n.comma then ',' else '.') = '.' ∨ (if n.comma then ',' else '.') = ',' := by
    cases n.comma
    · exact .inl rfl
    · exact .inr rfl
  rw [toList_opening, hdigits, List.append_assoc, List.append_assoc, List.cons_append,
    List.cons_append]
  exact takeHead_eq (isNumeral_toDigits n.code.toNat).1 hall hsign (n.dropStart?_words rest)

/-- A sign in front of the code is not read. -/
theorem takeHead_of_neg (hcode : n.code < 0) (rest : List Char) :
    takeHead (n.opening.toList ++ rest) = none := by
  have hdigits : (toString n.code).toList = '-' :: Nat.toDigits 10 (-n.code).toNat := by
    rw [Int.toString_eq_repr, Int.repr_eq_if, if_neg (by omega), String.toList_append,
      Nat.toList_repr]
    rfl
  rw [toList_opening, hdigits, List.append_assoc, List.append_assoc, List.cons_append]
  exact takeHead_of_sign (by decide) _

/-! ### The whole notice -/

theorem toList_text :
    n.text.toList = n.opening.toList ++ (n.message.toList ++ n.ending.toList) := by
  rw [text, String.toList_append, String.toList_append, List.append_assoc]

/-- Only the blanks behind a notice are dropped. -/
theorem trim_text {tail : String} (htail : ∀ c ∈ tail.toList, isBlank c = true) :
    trim (n.text ++ tail).toList =
      n.opening.toList ++ (n.message.toList ++ n.ending.toList) := by
  have hfirst : n.text.toList.head? = some 'C' := by
    rw [toList_text, toList_opening]
    rfl
  have hlast : n.text.toList.getLast? = some ')' := by
    rw [toList_text, List.getLast?_append, List.getLast?_append, getLast?_ending]
    rfl
  have htrim : trim ([] ++ n.text.toList ++ tail.toList) = n.text.toList :=
    trim_of_edges nofun htail
      (fun c hc => by rw [hfirst, Option.mem_some_iff] at hc; subst hc; decide)
      (fun c hc => by rw [hlast, Option.mem_some_iff] at hc; subst hc; decide)
  rw [List.nil_append, ← String.toList_append] at htrim
  rw [htrim, toList_text]

theorem codeOf?_toDigits (k : Nat) :
    codeOf? (Nat.toDigits 10 k) = if k < 2 ^ 31 then some (k : Int) else none := by
  rw [codeOf?, (isNumeral_toDigits k).readDigits?, Nat.ofDigitChars_ten_toDigits]
  rfl

theorem readException_of_nonneg {tail : String} (htail : ∀ c ∈ tail.toList, isBlank c = true)
    (header : Option Int) (hcode : 0 ≤ n.code) :
    readException (n.text ++ tail) header =
      { code := (n.exception header).code
        name := String.ofList (takeMessage [] (n.message.toList ++ n.ending.toList)).2
        message :=
          String.ofList (trim (takeMessage [] (n.message.toList ++ n.ending.toList)).1) } := by
  have hread : ((codeOf? (Nat.toDigits 10 n.code.toNat)).orElse fun _ => header).getD 0 =
      (n.exception header).code := by
    rw [codeOf?_toDigits, exception]
    by_cases hfits : n.code < 2 ^ 31
    · rw [if_pos (by omega), if_pos (by omega)]
      exact Int.toNat_of_nonneg hcode
    · rw [if_neg (by omega), if_neg (by omega)]
      rfl
  rw [readException, n.trim_text htail, n.takeHead_opening hcode]
  simp only [hread]

/-- A notice with a sign in front of the code is a message as a whole, without a name. -/
theorem name_readException_of_neg {tail : String} (htail : ∀ c ∈ tail.toList, isBlank c = true)
    (header : Option Int) (hcode : n.code < 0) :
    (readException (n.text ++ tail) header).name = "" := by
  rw [readException, n.trim_text htail, n.takeHead_of_neg hcode]

theorem takeMessage_of_not_opensVersion (h : ¬n.OpensVersion) :
    takeMessage [] (n.message.toList ++ n.ending.toList) = (n.message.toList, n.name.toList) := by
  rw [OpensVersion, toList_versionMark] at h
  refine takeMessage_append [] n.endingName?_ending fun front back hparts hback => ?_
  rw [toList_ending]
  exact endingName?_inside hback n.named (fun _ => n.isNameChar_of_mem) (hparts ▸ h)

/-- A message that opens a version is cut before it. -/
theorem length_takeMessage_lt (h : n.OpensVersion) :
    (takeMessage [] (n.message.toList ++ n.ending.toList)).1.length < n.message.toList.length := by
  obtain ⟨front, back, hparts⟩ := h
  rw [toList_versionMark] at hparts
  obtain ⟨more, hending⟩ : ∃ more, n.ending.toList = ' ' :: '(' :: more :=
    ⟨_, by rw [toList_ending, namePart]; rfl⟩
  have hlast : (back ++ '(' :: more).getLast? = some ')' := by
    have hend := n.getLast?_ending
    rw [hending, List.getLast?_cons_cons] at hend
    rw [List.getLast?_append, hend]
    rfl
  obtain ⟨name, hname⟩ := endingName?_of_version (isVersionPart_iff.mpr (.inr ⟨_, rfl, hlast⟩))
  have hcut : n.message.toList ++ n.ending.toList =
      front ++ (versionMark ++ (back ++ '(' :: more)) := by
    rw [hending, List.append_cons, ← hparts]
    simp only [List.append_assoc]
  have hlength := congrArg List.length hparts
  rw [List.length_append, List.length_append, List.length_append, List.length_singleton,
    show versionMark.length = 10 from rfl] at hlength
  have hle := length_takeMessage_le [] front hname
  rw [hcut]
  rw [List.length_nil] at hle
  omega

theorem length_trim_le (cs : List Char) : (trim cs).length ≤ cs.length := by
  obtain ⟨front, back, hcs, -, -⟩ := trim_parts cs
  have hlength := congrArg List.length hcs
  rw [List.length_append, List.length_append] at hlength
  omega

/-- **Notices are read back.**  What is written of a failure is read with its name, its message and
its code, or the code of the header where 32 bits do not hold it, whatever the sign behind the
code, the words in front of the message, the version and the blanks behind.  This is so exactly for
the notices whose code is written in digits and whose message does not open the words in front of
a version. -/
theorem readException_notice_iff {tail : String} (htail : ∀ c ∈ tail.toList, isBlank c = true)
    (header : Option Int) :
    readException (n.text ++ tail) header = n.exception header ↔
      0 ≤ n.code ∧ ¬n.OpensVersion := by
  constructor
  · intro hread
    have hcode : 0 ≤ n.code := by
      by_contra hneg
      have hname := n.name_readException_of_neg htail header (Int.not_le.mp hneg)
      rw [hread] at hname
      exact n.named (congrArg String.toList hname)
    refine ⟨hcode, fun hopens => ?_⟩
    rw [n.readException_of_nonneg htail header hcode] at hread
    have hmessage := congrArg (String.toList ∘ Exception.message) hread
    rw [Function.comp_apply, Function.comp_apply, String.toList_ofList, exception] at hmessage
    have hle := length_trim_le (takeMessage [] (n.message.toList ++ n.ending.toList)).1
    rw [hmessage] at hle
    exact absurd (n.length_takeMessage_lt hopens) (Nat.not_lt.mpr hle)
  · rintro ⟨hcode, hplain⟩
    rw [n.readException_of_nonneg htail header hcode, n.takeMessage_of_not_opensVersion hplain]
    simp only [n.trimmed, String.ofList_toList]
    rfl

/-- A notice over two lines, with words in it that look like a name and like a version. -/
def lookalike : Notice where
  code := 4294967356
  comma := true
  displayed := true
  message := "Missing (ABC)\n(version 21) (SET)"
  name := "UNKNOWN_TABLE"
  version := some "21.3 (official build)"
  trimmed := by decide +kernel
  named := by decide
  plain := List.all_iff_forall_prop.mp (by decide)

/-- So it is read, with the code of the header, since 32 bits do not hold its own. -/
theorem readException_notice_lookalike :
    (∀ c ∈ "\n\t ".toList, isBlank c = true) ∧
      0 ≤ lookalike.code ∧ ¬lookalike.OpensVersion ∧
      readException (lookalike.text ++ "\n\t ") (some 60) =
        { code := 60
          name := "UNKNOWN_TABLE"
          message := "Missing (ABC)\n(version 21) (SET)" } := by
  have htail : ∀ c ∈ "\n\t ".toList, isBlank c = true := List.all_eq_true.mp rfl
  have hplain : ¬lookalike.OpensVersion := by
    rw [OpensVersion]
    decide +kernel
  exact ⟨htail, by decide, hplain,
    (lookalike.readException_notice_iff htail (some 60)).mpr ⟨by decide, hplain⟩⟩

/-- A message that ends where the words in front of a version begin. -/
def unfinished : Notice where
  code := 60
  comma := false
  displayed := false
  message := "Unknown suffix (version"
  name := "UNKNOWN_TABLE"
  version := none
  trimmed := by decide +kernel
  named := by decide
  plain := List.all_iff_forall_prop.mp (by decide)

/-- A code with a sign. -/
def signed : Notice where
  code := -5
  comma := false
  displayed := false
  message := "x"
  name := "A"
  version := none
  trimmed := by decide +kernel
  named := by decide
  plain := List.all_iff_forall_prop.mp (by decide)

/-- The words of a version may stand in no part of a message and still arise behind it, and a
number with a sign is not taken for a code. -/
theorem notices_read_otherwise :
    (unfinished.text = "Code: 60. DB::Exception: Unknown suffix (version (UNKNOWN_TABLE)" ∧
      ¬" (version ".toList <:+: unfinished.message.toList ∧
      readException unfinished.text none = { code := 60, name := "", message := "Unknown suffix" } ∧
      readException unfinished.text none ≠ unfinished.exception none) ∧
    signed.text = "Code: -5. DB::Exception: x (A)" ∧
      ¬" (version ".toList <:+: signed.message.toList ∧
      readException signed.text (some 3) =
        { code := 3, name := "", message := "Code: -5. DB::Exception: x (A)" } ∧
      readException signed.text (some 3) ≠ signed.exception (some 3) := by
  decide +kernel

end Notice

end SchemaMigration.ClickHouse
