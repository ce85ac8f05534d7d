import SchemaMigration.History.Choice
import SchemaMigration.Proofs.LiteralSections
/-! # Versions in the statements of a history table

A version is any text: what is asked of a history is not checked before.  In the statements for a
history table on ClickHouse it stands in one literal, and neither the sections nor the characters
around that literal depend on it (`version_in_literal`).  The statements are words with holes for
their arguments; the names among the words were checked when the dialect was chosen. -/
namespace SchemaMigration.ClickHouse

open Section

/-- What a quoted section says: the text between its quotes, without the backslashes before
backslashes and apostrophes. -/
def Section.said (s : Section) : List Char := unescape s.text.tail.dropLast

theorem said_quote (cs : List Char) : (⟨.quoted, quote cs⟩ : Section).said = cs := by
  rw [Section.said, quote_eq, List.tail_cons, List.dropLast_concat, unescape_escape]

/-! ### Words with holes -/

/-- Characters that are code wherever they stand, and no placeholder. -/
def Words (cs : List Char) : Prop := ∀ c ∈ cs, isInert c ∧ c ≠ '?'

instance (cs : List Char) : Decidable (Words cs) :=
  List.decidableBAll (fun c => isInert c ∧ c ≠ '?') cs

namespace Words

theorem append {a b : List Char} (ha : Words a) (hb : Words b) : Words (a ++ b) := by
  intro c hc
  rcases List.mem_append.mp hc with hc | hc
  · exact ha c hc
  · exact hb c hc

theorem staysCode {cs : List Char} (h : Words cs) : StaysCode cs :=
  .of_isInert fun c hc => (h c hc).1

theorem count {cs : List Char} (h : Words cs) : cs.count '?' = 0 :=
  List.count_eq_zero.mpr fun hc => (h _ hc).2 rfl

/-- Words are kept when placeholders are replaced. -/
theorem fillCode_append {cs : List Char} (h : Words cs) (left : List (List Char))
    (rest : List Char) :
    fillCode left (cs ++ rest) = (cs ++ (fillCode left rest).1, (fillCode left rest).2) := by
  induction cs with
  | nil => rfl
  | cons c cs ih =>
    have hc : c ≠ '?' := (h c List.mem_cons_self).2
    rw [List.cons_append, fillCode, ih fun d hd => h d (List.mem_cons_of_mem _ hd)]
    · rfl
    · exact fun _ _ _ hplace => hc hplace

end Words

/-- Words with placeholders, each with the words behind it. -/
def blank (first : List Char) (behind : List (List Char)) : List Char :=
  first ++ behind.flatMap fun words => '?' :: words

/-- The words with the literals in the place of the placeholders. -/
def filled (first : List Char) (holes : List (Value × List Char)) : List Char :=
  first ++ holes.flatMap fun hole => literal hole.1 ++ hole.2

theorem staysCode_blank {first : List Char} {behind : List (List Char)} (hfirst : Words first)
    (hbehind : ∀ words ∈ behind, Words words) : StaysCode (blank first behind) := by
  refine .of_isInert fun c hc => ?_
  rcases List.mem_append.mp hc with hc | hc
  · exact (hfirst c hc).1
  · obtain ⟨words, hwords, hc⟩ := List.mem_flatMap.mp hc
    rcases List.mem_cons.mp hc with rfl | hc
    · decide
    · exact (hbehind words hwords c hc).1

theorem count_blank {first : List Char} {behind : List (List Char)} (hfirst : Words first)
    (hbehind : ∀ words ∈ behind, Words words) : (blank first behind).count '?' = behind.length := by
  rw [blank, List.count_append, hfirst.count, Nat.zero_add]
  induction behind with
  | nil => rfl
  | cons words behind ih =>
    rw [List.flatMap_cons, List.cons_append, List.count_cons_self, List.count_append,
      (hbehind words List.mem_cons_self).count, Nat.zero_add, List.length_cons,
      ih fun w hw => hbehind w (List.mem_cons_of_mem _ hw)]

theorem fillCode_blank {first : List Char} {holes : List (Value × List Char)} (hfirst : Words first)
    (hholes : ∀ hole ∈ holes, Words hole.2) :
    fillCode (literals (holes.map Prod.fst)) (blank first (holes.map Prod.snd)) =
      (filled first holes, []) := by
  have hrest : fillCode (literals (holes.map Prod.fst))
        ((holes.map Prod.snd).flatMap fun words => '?' :: words) =
      (holes.flatMap fun hole => literal hole.1 ++ hole.2, []) := by
    induction holes with
    | nil => rfl
    | cons hole holes ih =>
      have hwords : Words hole.2 := hholes hole List.mem_cons_self
      rw [List.map_cons, List.map_cons, literals, List.flatMap_cons, List.cons_append, fillCode,
        hwords.fillCode_append, ih fun h hh => hholes h (List.mem_cons_of_mem _ hh),
        List.flatMap_cons, List.append_assoc]
  rw [blank, hfirst.fillCode_append, hrest]
  rfl

theorem placeholders_ofCode (code : List Char) : placeholders (ofCode code) = code.count '?' := by
  by_cases hcode : code = []
  · rw [hcode]
    rfl
  · rw [ofCode_of_ne_nil hcode, placeholders, List.filter_cons_of_pos rfl, List.filter_nil]
    exact congrArg (List.count '?') (List.append_nil code)

theorem fill_ofCode (left : List (List Char)) (code : List Char) :
    fill left (ofCode code) = (fillCode left code).1 := by
  by_cases hcode : code = []
  · rw [hcode]
    cases left <;> rfl
  · rw [ofCode_of_ne_nil hcode, fill, if_pos rfl]
    exact List.append_nil _

/-- Words with holes take as many arguments as there are holes. -/
theorem bind_blank {first : List Char} {holes : List (Value × List Char)} (hfirst : Words first)
    (hholes : ∀ hole ∈ holes, Words hole.2) {text : String}
    (htext : text.toList = blank first (holes.map Prod.snd)) :
    bind text (holes.map Prod.fst) = .ok (String.ofList (filled first holes)) := by
  have hbehind : ∀ words ∈ holes.map Prod.snd, Words words := by
    intro words hwords
    obtain ⟨hole, hhole, rfl⟩ := List.mem_map.mp hwords
    exact hholes hole hhole
  have hall : Section.all text.toList = ofCode (blank first (holes.map Prod.snd)) := by
    rw [htext, (staysCode_blank hfirst hbehind).all_eq]
  by_cases hnone : holes = []
  · subst hnone
    rw [← String.ofList_toList (s := text), htext]
    rfl
  · have hargs : holes.map Prod.fst ≠ [] := by simpa using hnone
    have hcount : placeholders (Section.all text.toList) = (holes.map Prod.fst).length := by
      rw [hall, placeholders_ofCode, count_blank hfirst hbehind, List.length_map, List.length_map]
    rw [bind_of_count hargs hcount, hall, fill_ofCode, fillCode_blank hfirst hholes]

/-! ### Names that were checked -/

/-- The characters of names are words. -/
theorem isInert_of_isPlain {c : Char} (h : Identifier.isPlain c) : isInert c ∧ c ≠ '?' := by
  have hquote : isQuote c = false := by
    cases hc : isQuote c with
    | false => rfl
    | true =>
      have hcode : c.toNat = 0x27 ∨ c.toNat = 0x22 ∨ c.toNat = 0x60 := by
        simpa [isQuote, or_assoc] using hc
      rw [← Char.ofNat_toNat c] at h
      rcases hcode with hcode | hcode | hcode <;> rw [hcode] at h <;> exact absurd h (by decide)
  refine ⟨isInert_iff.mpr ⟨hquote, ?_, ?_⟩, ?_⟩ <;> rintro rfl <;> exact absurd h (by decide)

theorem words_of_validate {name : String} (h : Identifier.validate name = .ok ()) :
    Words name.toList := by
  unfold Identifier.validate at h
  split at h
  · cases h
  · rename_i hfind
    intro c hc
    have hplain : ¬ (!Identifier.isPlain c) = true := List.find?_eq_none.mp hfind c hc
    exact isInert_of_isPlain (by simpa using hplain)

theorem words_of_validateAll {names : List String} (h : Identifier.validateAll names = .ok ()) :
    ∀ name ∈ names, Words name.toList := by
  induction names with
  | nil => exact nofun
  | cons name names ih =>
    replace h : (Identifier.validate name >>= fun _ => Identifier.validateAll names) = .ok () := h
    cases hname : Identifier.validate name with
    | error f =>
      rw [hname] at h
      cases h
    | ok u =>
      rw [hname] at h
      intro name' hmem
      rcases List.mem_cons.mp hmem with rfl | hmem
      · exact words_of_validate hname
      · exact ih h name' hmem

namespace HistoryTable

/-- The names of the table are words. -/
def Named (t : HistoryTable) : Prop := Words t.database.toList ∧ Words t.table.toList

/-- A dialect of ClickHouse keeps a table whose names were checked. -/
theorem named_of_choose {dsn : Dsn} {o : Dialect.Options} {d : Dialect}
    (h : Dialect.choose .clickHouse dsn o = .ok d) :
    ∃ t : HistoryTable, t.Named ∧ d = t.dialect := by
  replace h : Dialect.chooseClickHouse dsn o = .ok d := h
  unfold Dialect.chooseClickHouse at h
  cases hsettings : Settings.ofDsn dsn with
  | error f =>
    rw [hsettings] at h
    cases h
  | ok settings =>
    let database := (Identifier.splitQualified o.table).1.getD settings.database
    let table := (Identifier.splitQualified o.table).2
    rw [hsettings] at h
    replace h : (Identifier.validateAll [database, table, o.cluster] >>= fun _ =>
        pure (dialect ⟨database, table, o.cluster, o.replicated⟩)) = .ok d := h
    cases hnames : Identifier.validateAll [database, table, o.cluster] with
    | error f =>
      rw [hnames] at h
      cases h
    | ok u =>
      rw [hnames] at h
      cases h
      have hwords := words_of_validateAll hnames
      refine ⟨_, ⟨?_, ?_⟩, rfl⟩
      · exact hwords database (by simp)
      · exact hwords table (by simp)

theorem words_base {t : HistoryTable} (h : t.Named) : Words t.base.toList := by
  rw [base, String.toList_append, String.toList_append]
  exact (h.1.append (by decide)).append h.2

theorem words_readFrom {t : HistoryTable} (h : t.Named) : Words t.readFrom.toList := by
  rw [readFrom]
  split
  · rw [spanning, String.toList_append, String.toList_append]
    exact (h.1.append (by decide)).append h.2
  · exact words_base h

end HistoryTable

/-! ### Statements that carry a version -/

/-- A statement whose version stands in one quoted literal with code around it, and whose code
does not depend on the version. -/
def CarriesVersion (statement : String → Statement) : Prop :=
  ∃ before after : List Char, ∀ version : String,
    let literal := quote version.toList
    bind (statement version).text (statement version).args =
        .ok (String.ofList (before ++ literal ++ after)) ∧
      all (before ++ literal ++ after) = [⟨.code, before⟩, ⟨.quoted, literal⟩, ⟨.code, after⟩]

theorem staysCode_numbers {numbers : List (Value × List Char)}
    (h : ∀ hole ∈ numbers, IsNumeral (literal hole.1) ∧ Words hole.2) :
    StaysCode (numbers.flatMap fun hole => literal hole.1 ++ hole.2) := by
  induction numbers with
  | nil => exact .nil
  | cons hole numbers ih =>
    obtain ⟨hnumeral, hwords⟩ := h hole List.mem_cons_self
    exact (hnumeral.staysCode.append hwords.staysCode).append
      (ih fun hole' hhole' => h hole' (List.mem_cons_of_mem _ hhole'))

/-- Words with the version in the first hole and numbers in the others. -/
theorem carriesVersion_blank {first : List Char} (next : List Char)
    (numbers : List (Value × List Char)) (hne : first ≠ []) (hnext : next ≠ [])
    (hfirst : Words first) (hwords : Words next)
    (hnumbers : ∀ hole ∈ numbers, IsNumeral (literal hole.1) ∧ Words hole.2) {text : String}
    (htext : text.toList = blank first (next :: numbers.map Prod.snd)) :
    CarriesVersion fun version => ⟨text, .text version :: numbers.map Prod.fst⟩ := by
  refine ⟨first, filled next numbers, fun version => ⟨?_, ?_⟩⟩
  · have hholes : ∀ hole ∈ (Value.text version, next) :: numbers, Words hole.2 := by
      intro hole hhole
      rcases List.mem_cons.mp hhole with rfl | hhole
      · exact hwords
      · exact (hnumbers hole hhole).2
    refine (bind_blank hfirst hholes htext).trans ?_
    rw [filled, filled, List.flatMap_cons, literal, List.append_assoc, List.append_assoc]
  · have hafter : StaysCode (filled next numbers) :=
      hwords.staysCode.append (staysCode_numbers hnumbers)
    have hne' : filled next numbers ≠ [] := fun hnil => hnext (List.append_eq_nil_iff.mp hnil).1
    rw [List.append_assoc, hfirst.staysCode, all_quote_append, hafter.all_eq, ofCode_of_ne_nil hne',
      putCode, if_neg (by simp), ofCode_of_ne_nil hne]
    rfl

/-! ### The statements for the table -/

namespace HistoryTable

/-- The statement that adds a row. -/
def appendStatement (t : HistoryTable) (deleted : UInt64) (time : Int) (version : String) :
    Statement :=
  ⟨"INSERT INTO " ++ t.base ++ " (version, apply_time, is_deleted) VALUES (?, ?, ?)",
    [.text version, .int (Int64.ofInt time), .uint deleted]⟩

/-- The statement that merges the rows. -/
def optimize (t : HistoryTable) : Statement :=
  ⟨"OPTIMIZE TABLE " ++ t.base ++ t.onCluster ++ " FINAL", []⟩

theorem append_eq (t : HistoryTable) (deleted : UInt64) (version : String) (time : Int) :
    t.append deleted version time =
      [.committed (t.appendStatement deleted time version), .plain t.optimize] := rfl

theorem carriesVersion_append {t : HistoryTable} (h : t.Named) (deleted : UInt64) (time : Int) :
    CarriesVersion (t.appendStatement deleted time) := by
  have hfirst : Words ("INSERT INTO ".toList ++ (t.base.toList ++
      " (version, apply_time, is_deleted) VALUES (".toList)) :=
    Words.append (by decide) ((words_base h).append (by decide))
  have hnumbers : ∀ hole ∈ [(.int (Int64.ofInt time), ", ".toList), (.uint deleted, ")".toList)],
      IsNumeral (literal hole.1) ∧ Words hole.2 := by
    intro hole hhole
    have hcomma : Words ", ".toList := by decide
    have hclose : Words ")".toList := by decide
    rcases List.mem_cons.mp hhole with rfl | hhole
    · exact ⟨.int _, hcomma⟩
    · obtain rfl := List.mem_singleton.mp hhole
      exact ⟨.nat _, hclose⟩
  refine carriesVersion_blank ", ".toList _ (by simp) (by decide) hfirst (by decide) hnumbers ?_
  show (_ ++ _ ++ _ : String).toList = _
  rw [String.toList_append, String.toList_append, blank]
  simp only [List.append_assoc]
  rfl

theorem carriesVersion_contains {t : HistoryTable} (h : t.Named) :
    CarriesVersion t.dialect.contains := by
  have hfirst : Words ("SELECT COUNT(*) FROM ".toList ++ (t.readFrom.toList ++
      " WHERE version = ".toList)) :=
    Words.append (by decide) ((words_readFrom h).append (by decide))
  refine carriesVersion_blank " AND is_deleted = 0".toList [] (by simp) (by decide) hfirst
    (by decide) nofun ?_
  show (_ ++ _ ++ _ : String).toList = _
  rw [String.toList_append, String.toList_append, blank]
  simp only [List.append_assoc]
  rfl

end HistoryTable

/-- Text does not get out of its literal on ClickHouse.  Whatever follows the literal of a text, the
literal is the first section and says the text; and each statement with which a history records,
forgets or looks up a version has the version in its one quoted section, and nothing around that
section depends on the version. -/
theorem version_in_literal :
    (∀ text rest : List Char, all (quote text ++ rest) = ⟨.quoted, quote text⟩ :: all rest ∧
      (⟨.quoted, quote text⟩ : Section).said = text) ∧
    ∀ (dsn : Dsn) (o : Dialect.Options) (d : Dialect), Dialect.choose .clickHouse dsn o = .ok d →
      ∃ merge : Statement, merge.args = [] ∧
        (∀ time : Int, ∃ insert remove : String → Statement,
          (∀ version, d.insert version time = [.committed (insert version), .plain merge]) ∧
          (∀ version, d.remove version time = [.committed (remove version), .plain merge]) ∧
          CarriesVersion insert ∧ CarriesVersion remove) ∧
        CarriesVersion d.contains := by
  refine ⟨fun text rest => ⟨all_quote_append text rest, said_quote text⟩, fun dsn o d h => ?_⟩
  obtain ⟨t, hnamed, rfl⟩ := HistoryTable.named_of_choose h
  refine ⟨t.optimize, rfl, fun time => ?_, HistoryTable.carriesVersion_contains hnamed⟩
  refine ⟨t.appendStatement 0 time, t.appendStatement 1 time, fun version => ?_, fun version => ?_,
    ?_, ?_⟩
  · exact t.append_eq 0 version time
  · exact t.append_eq 1 version time
  · exact HistoryTable.carriesVersion_append hnamed 0 time
  · exact HistoryTable.carriesVersion_append hnamed 1 time

theorem version_in_literal_hostile :
    let dsn : Dsn := ⟨.clickHouse, "localhost", [], "shop", "", "", [], ""⟩
    let sql := "SELECT COUNT(*) FROM shop.migration " ++
      "WHERE version = 'x\\' OR 1 = 1 --' AND is_deleted = 0"
    ∃ d, Dialect.choose .clickHouse dsn .standard = .ok d ∧
      bind (d.contains "x' OR 1 = 1 --").text (d.contains "x' OR 1 = 1 --").args = .ok sql ∧
      CarriesVersion d.contains := by
  intro dsn sql
  have hok : (Dialect.choose .clickHouse dsn .standard).toOption.any (fun d =>
      (bind (d.contains "x' OR 1 = 1 --").text (d.contains "x' OR 1 = 1 --").args).toOption =
        some sql) := by
    decide +kernel
  rcases hchoose : Dialect.choose .clickHouse dsn .standard with e | d
  · rw [hchoose] at hok
    cases hok
  · rw [hchoose] at hok
    obtain ⟨_, _, _, hcontains⟩ := version_in_literal.2 dsn .standard _ hchoose
    refine ⟨d, rfl, ?_, hcontains⟩
    have hsome := of_decide_eq_true hok
    rcases hbind : bind (d.contains "x' OR 1 = 1 --").text (d.contains "x' OR 1 = 1 --").args with
      e | sql
    · rw [hbind] at hsome
      cases hsome
    · rw [hbind] at hsome
      exact congrArg _ (Option.some.inj hsome)

end SchemaMigration.ClickHouse
