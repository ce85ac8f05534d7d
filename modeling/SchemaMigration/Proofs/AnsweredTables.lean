import Mathlib.Data.List.Forall2
import SchemaMigration.Proofs.DecodedIntegers
/-! # Tables in answers

An answer is a document with the columns of a table and with its rows (`IsTable`).  A row has a
cell for each column, or the answer as a whole is refused: the first row of another width is told.
Otherwise the values stand where their cells stood, and the cells of columns of integers are the
values that were written (`readTable_written`). -/
namespace SchemaMigration.ClickHouse

open Json Number Text

/-! ### Documents with tables -/

/-- What an object has under each of some names, every one of which it has once, or what an array
has in their order. -/
inductive Fields (names : List String) : Form → List Form → Prop
  | array {forms : List Form} (h : forms.length = names.length) :
      Fields names (.array forms) forms
  | object {fields : List (List Json.Piece × Form)} {forms : List Form}
      (hkeys : ∀ field ∈ fields, (Json.Piece.text? field.1).isSome = true)
      (h : List.Forall₂ (fun name form =>
        (fields.filter fun field => Json.Piece.text? field.1 == some name).map (·.2) = [form])
          names forms) :
      Fields names (.object fields) forms

/-- What is written of a column. -/
def IsColumn (c : Column) (form : Form) : Prop :=
  ∃ name type, Fields ["name", "type"] form [.string name, .string type] ∧
    Json.Piece.text? name = some c.name ∧ Json.Piece.text? type = some c.type

/-- A document with the columns of a table and with its rows. -/
def IsTable (columns : List Column) (rows : List (List Form)) (form : Form) : Prop :=
  ∃ forms, Fields ["meta", "data"] form [.array forms, .array (rows.map .array)] ∧
    List.Forall₂ IsColumn columns forms

/-- What is read of a cell: three containers are around it. -/
def ReadsAs (form : Form) (cell : Json) : Prop := ofForm? (maxDepth - cellDepth) form = some cell

theorem mapM_eq_some_iff {α β : Type} {f : α → Option β} {xs : List α} {ys : List β} :
    xs.mapM f = some ys ↔ List.Forall₂ (fun x y => f x = some y) xs ys := by
  induction xs generalizing ys with
  | nil =>
    rw [List.mapM_nil, List.forall₂_nil_left_iff]
    exact ⟨fun h => (Option.some.inj h).symm, fun h => by rw [h]; rfl⟩
  | cons x xs ih =>
    rw [List.mapM_cons, List.forall₂_cons_left_iff]
    simp only [Option.bind_eq_bind, Option.bind_eq_some_iff, Option.pure_def, Option.some.injEq, ih]
    constructor
    · rintro ⟨y, hy, ys', hys, rfl⟩
      exact ⟨y, ys', hy, hys, rfl⟩
    · rintro ⟨y, ys', hy, hys, rfl⟩
      exact ⟨y, hy, ys', hys, rfl⟩

theorem exists_mapM {α β : Type} {f : α → Option β} {xs : List α}
    (h : ∀ x ∈ xs, ∃ y, f x = some y) : ∃ ys, xs.mapM f = some ys := by
  induction xs with
  | nil => exact ⟨[], rfl⟩
  | cons x xs ih =>
    obtain ⟨y, hy⟩ := h x List.mem_cons_self
    obtain ⟨ys, hys⟩ := ih fun z hz => h z (List.mem_cons_of_mem x hz)
    exact ⟨y :: ys, by rw [List.mapM_cons, hy, hys]; rfl⟩

/-- Under a name the fields of an object have the same forms, whether the keys were read or not. -/
theorem filter_keyed {fields : List (List Json.Piece × Form)} {keyed : List (String × Form)}
    (h : List.Forall₂ (fun field entry =>
      (Json.Piece.text? field.1).map (fun key => (key, field.2)) = some entry) fields keyed)
    (name : String) :
    (keyed.filter fun entry => entry.1 == name).map (·.2) =
      (fields.filter fun field => Json.Piece.text? field.1 == some name).map (·.2) := by
  induction h with
  | nil => rfl
  | @cons field entry fields keyed hentry _ ih =>
    obtain ⟨key, hkey, rfl⟩ := Option.map_eq_some_iff.mp hentry
    have hname : (some key == some name) = (key == name) := rfl
    rw [List.filter_cons, List.filter_cons, hkey, hname]
    cases key == name with
    | true => exact congrArg (field.2 :: ·) ih
    | false => exact ih

theorem fields?_of_fields {names : List String} {form : Form} {forms : List Form}
    (h : Fields names form forms) : fields? names form = some forms := by
  cases h with
  | array h => exact if_pos h
  | @object fields _ hkeys h =>
    obtain ⟨keyed, hkeyed⟩ : ∃ keyed, fields.mapM (fun field =>
        (Json.Piece.text? field.1).map fun key => (key, field.2)) = some keyed :=
      exists_mapM fun field hfield => by
        obtain ⟨key, hkey⟩ := Option.isSome_iff_exists.mp (hkeys field hfield)
        exact ⟨(key, field.2), by rw [hkey]; rfl⟩
    have hnames : fields? names (.object fields) = (some keyed).bind _ :=
      congrArg (Option.bind · _) hkeyed
    rw [hnames, Option.bind_some]
    refine mapM_eq_some_iff.mpr (h.imp fun name form hform => ?_)
    rw [← filter_keyed (mapM_eq_some_iff.mp hkeyed), List.map_eq_singleton_iff] at hform
    obtain ⟨entry, hentry, rfl⟩ := hform
    rw [hentry]

theorem column?_of_isColumn {c : Column} {form : Form} (h : IsColumn c form) :
    column? form = some c := by
  obtain ⟨name, type, hfields, hname, htype⟩ := h
  rw [column?, fields?_of_fields hfields]
  simp only [Option.bind_eq_bind, Option.bind_some, text?, hname, htype]
  rfl

/-- The table of a document is read, if its cells can be. -/
theorem table?_of_isTable {columns : List Column} {rows : List (List Form)} {form : Form}
    {cs : List Char} (hwritten : form.Written cs) (htable : IsTable columns rows form)
    (hcells : ∀ row ∈ rows, ∀ cell ∈ row, ∃ json, ReadsAs cell json) :
    ∃ cells, table? cs = some (columns, cells) ∧
      List.Forall₂ (List.Forall₂ ReadsAs) rows cells := by
  obtain ⟨forms, hfields, hcolumns⟩ := htable
  have hcolumns' : forms.mapM column? = some columns :=
    mapM_eq_some_iff.mpr (hcolumns.flip.imp fun form c h => column?_of_isColumn h)
  obtain ⟨cells, hrows⟩ : ∃ cells, rows.mapM (fun row =>
      row.mapM (ofForm? (maxDepth - cellDepth))) = some cells :=
    exists_mapM fun row hrow => exists_mapM (hcells row hrow)
  have hrows' : (rows.map Form.array).mapM (fun row => do
      (← items? row).mapM (ofForm? (maxDepth - cellDepth))) = some cells := by
    rw [List.mapM_map]
    exact hrows
  have hitems (forms : List Form) : items? (.array forms) = some forms := rfl
  refine ⟨cells, ?_, (mapM_eq_some_iff.mp hrows).imp fun row cells h => mapM_eq_some_iff.mp h⟩
  rw [table?, Form.read?_of_written hwritten]
  simp only [Option.bind_eq_bind, Option.bind_some, fields?_of_fields hfields, hitems, hcolumns']
  exact congrArg (·.bind fun rows => some (columns, rows)) hrows'

/-- The values of a row that has a cell for each column. -/
def rowValues (columns : List Column) (row : List Json) : List Value :=
  List.zipWith (fun cell (c : Column) => convert c.type.toList cell) row columns

/-- The first row of another width than that of the table is told; if there is none, all are
decoded. -/
theorem mapM_convertRow (columns : List Column) (rows : List (List Json)) :
    rows.mapM (convertRow columns) =
      match rows.find? (fun row => row.length != columns.length) with
      | some row => .error (.protocol (.rowWidth row.length columns.length))
      | none => .ok (rows.map (rowValues columns)) := by
  induction rows with
  | nil => rfl
  | cons row rows ih =>
    rw [List.mapM_cons, List.find?_cons]
    by_cases hrow : row.length = columns.length
    · have hconvert : convertRow columns row = .ok (rowValues columns row) := if_pos hrow
      rw [hconvert, bne_eq_false_iff_eq.mpr hrow, ih]
      cases rows.find? (fun row => row.length != columns.length) <;> rfl
    · have hconvert : convertRow columns row =
          .error (.protocol (.rowWidth row.length columns.length)) := if_neg hrow
      rw [hconvert, bne_iff_ne.mpr hrow]
      rfl

/-- Rows of forms and of cells agree on which of them is the first of another width. -/
theorem find?_width {R : Form → Json → Prop} {rows : List (List Form)} {cells : List (List Json)}
    (h : List.Forall₂ (List.Forall₂ R) rows cells) (width : Nat) :
    (rows.find? fun row => row.length != width).map List.length =
      (cells.find? fun row => row.length != width).map List.length := by
  induction h with
  | nil => rfl
  | @cons row cells' _ _ hrow _ ih =>
    rw [List.find?_cons, List.find?_cons, hrow.length_eq]
    cases hwidth : cells'.length != width with
    | true => simp only [Option.map_some, hrow.length_eq]
    | false => exact ih

/-- What was decoded of a row: each value stands in the column of its cell, and a cell of a column
of integers is the value that was written. -/
structure Decodes (columns : List Column) (row : List Form) (vs : List Value) : Prop where
  width : vs.length = columns.length
  cells : ∀ (i : Nat) (c : Column) (cell : Form) (json : Json), columns[i]? = some c →
    row[i]? = some cell → ReadsAs cell json → vs[i]? = some (convert c.type.toList json)
  integers : ∀ (i : Nat) (c : Column) (cell : Form) (t : IntegerColumn) (v : Value),
    columns[i]? = some c → row[i]? = some cell → c.type = t.text →
      Spells (maxDepth - cellDepth) t cell v → vs[i]? = some v

theorem exists_getElem? {α β : Type} {R : α → β → Prop} {xs : List α} {ys : List β}
    (h : List.Forall₂ R xs ys) {i : Nat} {x : α} (hx : xs[i]? = some x) :
    ∃ y, ys[i]? = some y ∧ R x y := by
  induction h generalizing i with
  | nil => cases hx
  | @cons _ y _ _ hy _ ih =>
    cases i with
    | zero =>
      cases hx
      exact ⟨y, rfl, hy⟩
    | succ i =>
      rw [List.getElem?_cons_succ] at hx ⊢
      exact ih hx

theorem decodes_rowValues {columns : List Column} {row : List Form} {cells : List Json}
    (hwidth : row.length = columns.length) (h : List.Forall₂ ReadsAs row cells) :
    Decodes columns row (rowValues columns cells) := by
  have hcells (i : Nat) (c : Column) (cell : Form) (json : Json) (hc : columns[i]? = some c)
      (hcell : row[i]? = some cell) (hjson : ReadsAs cell json) :
      (rowValues columns cells)[i]? = some (convert c.type.toList json) := by
    obtain ⟨json', hjson', hread⟩ := exists_getElem? h hcell
    obtain rfl : json = json' := Option.some.inj (hjson.symm.trans hread)
    rw [rowValues, List.getElem?_zipWith, hc, hjson']
  refine ⟨?_, hcells, fun i c cell t v hc hcell htype hspells => ?_⟩
  · rw [rowValues, List.length_zipWith, ← h.length_eq, hwidth, Nat.min_self]
  · obtain ⟨json, hjson, hv⟩ := hspells.convert
    rw [hcells i c cell json hc hcell hjson, htype, hv]

/-- A cell that can be read: it is written for a value of a column of integers, or else its
numbers, its strings and the depth of its containers are within what a reader takes. -/
def Admitted (cell : Form) : Prop :=
  (∃ t v, Spells (maxDepth - cellDepth) t cell v) ∨ ∃ json, ReadsAs cell json

theorem Admitted.read {cell : Form} (h : Admitted cell) : ∃ json, ReadsAs cell json := by
  rcases h with ⟨t, v, h⟩ | h
  · obtain ⟨json, hjson, -⟩ := h.convert
    exact ⟨json, hjson⟩
  · exact h

/-! ### Answers -/

theorem readTable_of_table {body : String} {columns : List Column} {rows : List (List Json)}
    (hsolid : ∃ c ∈ body.toList, isBlank c = false)
    (h : table? body.toList = some (columns, rows)) :
    readTable body =
      match rows.find? (fun row => row.length != columns.length) with
      | some row => .error (.protocol (.rowWidth row.length columns.length))
      | none => .ok (Rows.ofRows (columns.map (·.name)) (rows.map (rowValues columns))) := by
  have htrim : (trim body.toList).isEmpty = false := by
    obtain ⟨c, hc, hsolid⟩ := hsolid
    rw [List.isEmpty_eq_false_iff]
    intro hnil
    obtain ⟨front, back, hbody, hfront, hback⟩ := trim_parts body.toList
    rw [hnil, List.append_nil] at hbody
    rw [hbody] at hc
    have hblank := (List.mem_append.mp hc).elim (hfront c) (hback c)
    rw [hsolid] at hblank
    cases hblank
  rw [readTable]
  simp only [htrim, h, Bool.false_eq_true, ↓reduceIte, mapM_convertRow]
  cases rows.find? (fun row => row.length != columns.length) <;> rfl

/-- Every row that was decoded is as wide as the table. -/
theorem length_of_readTable {body : String} {r : Rows} (h : readTable body = .ok r) :
    ∀ row ∈ r.pending, row.length = r.columns.length := by
  rw [readTable] at h
  split at h
  · cases h
    exact nofun
  · split at h
    · cases h
    · rename_i columns rows _
      rw [mapM_convertRow] at h
      split at h
      · cases h
      · rename_i hnone
        cases h
        intro vs hvs
        obtain ⟨row, hrow, rfl⟩ := List.mem_map.mp hvs
        have hwidth := List.find?_eq_none.mp hnone row hrow
        have hlength : row.length = columns.length := by simpa using hwidth
        rw [rowValues, List.length_zipWith, hlength, Nat.min_self]
        exact (List.length_map _).symm

/-- **An answer is decoded as it is written.**  Every row that is decoded is as wide as the table,
whatever the answer.  If the answer is a document with a table, whose cells can be read, then

* the first row of another width is told, with its width and that of the table;
* without such a row the values are those of the cells, row by row and column by column, and a
  cell of a column of integers is the value that it was written for, whether its integers are
  numbers or strings. -/
theorem readTable_written (body : String) :
    (∀ r, readTable body = .ok r → ∀ row ∈ r.pending, row.length = r.columns.length) ∧
    ∀ (form : Form) (columns : List Column) (rows : List (List Form)),
      form.Written body.toList → IsTable columns rows form →
      (∀ row ∈ rows, ∀ cell ∈ row, Admitted cell) →
      (∀ row, rows.find? (fun row => row.length != columns.length) = some row →
        readTable body = .error (.protocol (.rowWidth row.length columns.length))) ∧
      ((∀ row ∈ rows, row.length = columns.length) →
        ∃ values, readTable body = .ok (Rows.ofRows (columns.map (·.name)) values) ∧
          List.Forall₂ (Decodes columns) rows values) := by
  refine ⟨fun r h => length_of_readTable h, fun form columns rows hwritten htable hadmitted => ?_⟩
  obtain ⟨cells, htable, hcells⟩ := table?_of_isTable hwritten htable
    fun row hrow cell hcell => (hadmitted row hrow cell hcell).read
  have hread := readTable_of_table hwritten.exists_solid htable
  have hfind := find?_width hcells columns.length
  constructor
  · intro row hrow
    rw [hrow, Option.map_some] at hfind
    obtain ⟨row', hrow', hlength⟩ := Option.map_eq_some_iff.mp hfind.symm
    rw [hread, hrow', ← hlength]
  · intro hwidth
    have hnone : rows.find? (fun row => row.length != columns.length) = none :=
      List.find?_eq_none.mpr fun row hrow => by simp [hwidth row hrow]
    rw [hnone, Option.map_none] at hfind
    rw [Option.map_eq_none_iff.mp hfind.symm] at hread
    refine ⟨_, hread, List.forall₂_map_right_iff.mpr ?_⟩
    exact ((List.forall₂_and_left _ _).mpr ⟨hwidth, hcells⟩).imp fun row cells h =>
      decodes_rowValues h.1 h.2

/-- An answer with a column of arrays, in which an integer is written in both ways. -/
def nestedBody : String :=
  "\x7b\"meta\": [\x7b\"type\":\"Array(Nullable(Int64))\", \"name\":\"n\"\x7d]," ++
    "\"data\":[[[\"-5\", -5, null]], [null]]\x7d"

def nestedRows : List (List Form) :=
  [[.array [.string (Json.Piece.plain "-5"), .number (.ofInt (-5)), .null]], [.null]]

def nestedColumn : Form :=
  .object [(Json.Piece.plain "type", .string (Json.Piece.plain "Array(Nullable(Int64))")),
    (Json.Piece.plain "name", .string (Json.Piece.plain "n"))]

def nestedForm : Form :=
  .object [(Json.Piece.plain "meta", .array [nestedColumn]),
    (Json.Piece.plain "data", .array (nestedRows.map .array))]

theorem nestedForm_written : nestedForm.Written nestedBody.toList := by
  have hblank : Form.IsGap [' '] := fun c hc => by
    rw [List.mem_singleton.mp hc]
    decide
  have hstring {s : String} (h : s.toList.all Json.Piece.isPlain = true) :
      Form.Written (.string (Json.Piece.plain s)) (quotes :: s.toList ++ [quotes]) :=
    .string (Json.Piece.quoted_plain h)
  have hnone : Form.IsGap [] := fun c hc => absurd hc List.not_mem_nil
  have hspaced {form : Form} {cs : List Char} (h : form.Written cs) :
      form.Written ([' '] ++ cs ++ []) := .gaps hblank h hnone
  have hcolumn : Form.Written nestedColumn _ := .object <|
    .cons (hstring (by decide)) (hstring (by decide)) <|
      .last (hspaced (hstring (by decide))) (hstring (by decide))
  have hcell :
      Form.Written (.array [.string (Json.Piece.plain "-5"), .number (.ofInt (-5)), .null]) _ :=
    .array <| .cons (hstring (by decide)) <|
      .cons (hspaced (.number (Numeral.written_ofInt (-5)))) <| .last (hspaced .null)
  have hrows : Form.Written (.array (nestedRows.map .array)) _ :=
    .array <| .cons (.array (.last hcell)) <| .last (hspaced (.array (.last .null)))
  have hform : Form.Written nestedForm _ := .object <|
    .cons (hstring (by decide)) (hspaced (.array (.last hcolumn))) <|
      .last (hstring (by decide)) hrows
  convert hform
  decide +kernel

theorem nestedForm_table :
    IsTable [⟨"n", "Array(Nullable(Int64))"⟩] nestedRows nestedForm := by
  have hcolumn : IsColumn ⟨"n", "Array(Nullable(Int64))"⟩ nestedColumn :=
    ⟨Json.Piece.plain "n", Json.Piece.plain "Array(Nullable(Int64))",
      .object (by decide +kernel) (.cons rfl (.cons rfl .nil)), Json.Piece.text?_plain _,
      Json.Piece.text?_plain _⟩
  exact ⟨[nestedColumn], .object (by decide +kernel) (.cons rfl (.cons rfl .nil)),
    .cons hcolumn .nil⟩

/-- So it is with a null, and with an array of an integer in both ways and of a null. -/
theorem readTable_written_nested :
    nestedForm.Written nestedBody.toList ∧
      IsTable [⟨"n", "Array(Nullable(Int64))"⟩] nestedRows nestedForm ∧
      (∀ row ∈ nestedRows, ∀ cell ∈ row, Admitted cell) ∧
      readTable nestedBody =
        .ok (Rows.ofRows ["n"] [[.tuple [.int (-5), .int (-5), .null]], [.null]]) := by
  have harray : Spells (maxDepth - cellDepth) (.array (.nullable (.signed .sixtyFour)))
      (.array [.string (Json.Piece.plain "-5"), .number (.ofInt (-5)), .null])
      (.tuple [.int (-5), .int (-5), .null]) :=
    .array (.cons (.nullable (.signed 123 .sixtyFour (.string (Json.Piece.text?_plain _))))
      (.cons (.nullable (.signed 123 .sixtyFour (.number (Numeral.written_ofInt (-5)))))
        (.cons (.null 123 _) (.nil 123 _))))
  have hnull :
      Spells (maxDepth - cellDepth) (.array (.nullable (.signed .sixtyFour))) .null .null :=
    .null _ _
  have hadmitted : ∀ row ∈ nestedRows, ∀ cell ∈ row, Admitted cell := by
    intro row hrow cell hcell
    rcases List.mem_cons.mp hrow with rfl | hrow
    · rw [List.mem_singleton.mp hcell]
      exact .inl ⟨_, _, harray⟩
    · rw [List.mem_singleton.mp hrow, List.mem_singleton] at hcell
      rw [hcell]
      exact .inl ⟨_, _, hnull⟩
  refine ⟨nestedForm_written, nestedForm_table, hadmitted, ?_⟩
  obtain ⟨values, hread, hdecodes⟩ := ((readTable_written nestedBody).2 nestedForm _ nestedRows
    nestedForm_written nestedForm_table hadmitted).2 (by decide)
  have hsingle {cell : Form} {v : Value} {vs : List Value}
      (hrow : Decodes [⟨"n", "Array(Nullable(Int64))"⟩] [cell] vs)
      (hcell : Spells (maxDepth - cellDepth) (.array (.nullable (.signed .sixtyFour))) cell v) :
      vs = [v] := by
    obtain ⟨w, rfl⟩ := List.length_eq_one_iff.mp hrow.width
    have hv := hrow.integers 0 _ cell _ v rfl rfl (by decide) hcell
    rw [Option.some.inj hv]
  obtain ⟨first, others, hfirst, hothers, rfl⟩ := List.forall₂_cons_left_iff.mp hdecodes
  obtain ⟨second, none, hsecond, hnone, rfl⟩ := List.forall₂_cons_left_iff.mp hothers
  rw [hread, hsingle hfirst harray, hsingle hsecond hnull, List.forall₂_nil_left_iff.mp hnone]
  rfl

end SchemaMigration.ClickHouse
