import SchemaMigration.Proofs.IdentifierNames
/-! # Statements as templates

What a history sends on its own account is a template with holes for names, and for the bound of a
listing.  Which template it is depends on the product, on what is asked of the history and on the
mode: whether there is a cluster, whether the table is replicated and whether the listing is bounded.
It does not depend on the names, nor on the version that is asked for (`Dialect.named_shaped`). -/
namespace SchemaMigration

variable {σ β : Type}

/-! ### Templates -/

/-- A place in a statement: for a name, or for the bound of a listing. -/
inductive Hole where
  | schema
  | table
  | cluster
  | limit
  deriving DecidableEq, Repr

/-- A part of a template. -/
inductive Template.Piece where
  | words (text : String)
  | hole (h : Hole)
  deriving DecidableEq, Repr

/-- A statement with holes. -/
abbrev Template := List Template.Piece

namespace Template

/-- The statement with something in its holes. -/
def fill (value : Hole → String) : Template → String
  | [] => ""
  | .words text :: rest => text ++ fill value rest
  | .hole h :: rest => value h ++ fill value rest

theorem fill_append (value : Hole → String) (t u : Template) :
    fill value (t ++ u) = fill value t ++ fill value u := by
  induction t with
  | nil => simp [fill]
  | cons piece t ih => cases piece <;> simp [fill, ih, String.append_assoc]

end Template

/-- How a table is kept and listed: all that the choice of a template goes by. -/
structure Mode where
  clustered : Bool
  replicated : Bool
  limited : Bool
  deriving DecidableEq, Repr

namespace Names

/-- How a table with names is kept and listed. -/
def mode (n : Names) (replicated : Bool) (limit : Nat) : Mode :=
  ⟨!n.cluster.isEmpty, replicated, limit != 0⟩

/-- What stands in the holes. -/
def value (n : Names) (limit : Nat) : Hole → String
  | .schema => n.schema
  | .table => n.table
  | .cluster => n.cluster
  | .limit => toString limit

end Names

/-- What a statement is made for. -/
structure Occasion where
  names : Names
  replicated : Bool
  limit : Nat
  version : String
  time : Int

namespace Occasion

def mode (o : Occasion) : Mode := o.names.mode o.replicated o.limit

def value (o : Occasion) : Hole → String := o.names.value o.limit

end Occasion

/-- In a mode, what is made on an occasion is always the same form with something in its holes. -/
def Uniform {τ : Type} (m : Mode) (fill : (Hole → String) → τ → β) (f : Occasion → β) : Prop :=
  ∃ t, ∀ o, o.mode = m → f o = fill o.value t

/-- What is chosen by the mode. -/
theorem Uniform.ite {τ : Type} {m : Mode} {fill : (Hole → String) → τ → β} {f g : Occasion → β}
    {c : Occasion → Prop} [∀ o, Decidable (c o)] (p : Prop) [Decidable p]
    (hc : ∀ o, o.mode = m → (c o ↔ p)) (hf : Uniform m fill f) (hg : Uniform m fill g) :
    Uniform m fill fun o => if c o then f o else g o := by
  by_cases hp : p
  · obtain ⟨t, ht⟩ := hf
    exact ⟨t, fun o ho => (if_pos ((hc o ho).mpr hp)).trans (ht o ho)⟩
  · obtain ⟨t, ht⟩ := hg
    exact ⟨t, fun o ho => (if_neg fun h => hp ((hc o ho).mp h)).trans (ht o ho)⟩

/-- In a mode, a text is one template on every occasion. -/
def Shaped (m : Mode) (text : Occasion → String) : Prop := Uniform m Template.fill text

namespace Shaped

variable {m : Mode} {f g : Occasion → String}

theorem words (text : String) : Shaped m fun _ => text :=
  ⟨[.words text], fun _ _ => (String.append_empty).symm⟩

theorem hole (h : Hole) : Shaped m fun o => o.value h :=
  ⟨[.hole h], fun _ _ => (String.append_empty).symm⟩

theorem schema : Shaped m fun o => o.names.schema := hole .schema

theorem table : Shaped m fun o => o.names.table := hole .table

theorem cluster : Shaped m fun o => o.names.cluster := hole .cluster

theorem append (hf : Shaped m f) (hg : Shaped m g) : Shaped m fun o => f o ++ g o := by
  obtain ⟨t, ht⟩ := hf
  obtain ⟨u, hu⟩ := hg
  refine ⟨t ++ u, fun o ho => ?_⟩
  rw [Template.fill_append, ← ht o ho, ← hu o ho]

theorem ite {c : Occasion → Prop} [∀ o, Decidable (c o)] (p : Prop) [Decidable p]
    (hc : ∀ o, o.mode = m → (c o ↔ p)) (hf : Shaped m f) (hg : Shaped m g) :
    Shaped m fun o => if c o then f o else g o := Uniform.ite p hc hf hg

/-- A number stands in a statement only if the listing is bounded. -/
theorem bounded (hf : Shaped m f) (hg : Shaped m g) :
    Shaped m fun o => if o.limit = 0 then f o else g o := by
  refine .ite (m.limited = false) (fun o ho => ?_) hf hg
  rw [← ho, Occasion.mode, Names.mode, bne_eq_false_iff_eq]

theorem limitClause : Shaped m fun o => Dialect.limitClause o.limit :=
  .bounded (.words "") ((Shaped.words " LIMIT ").append (hole .limit))

end Shaped

/-- In a mode, texts are the same templates on every occasion. -/
def ShapedAll (m : Mode) (texts : Occasion → List String) : Prop :=
  Uniform m (fun value => List.map (Template.fill value)) texts

namespace ShapedAll

variable {m : Mode} {f : Occasion → String} {fs gs : Occasion → List String}

theorem nil : ShapedAll m fun _ => [] := ⟨[], fun _ _ => rfl⟩

theorem cons (hf : Shaped m f) (hfs : ShapedAll m fs) : ShapedAll m fun o => f o :: fs o := by
  obtain ⟨t, ht⟩ := hf
  obtain ⟨ts, hts⟩ := hfs
  exact ⟨t :: ts, fun o ho => List.cons_eq_cons.mpr ⟨ht o ho, hts o ho⟩⟩

theorem one (hf : Shaped m f) : ShapedAll m fun o => [f o] := cons hf nil

theorem ite {c : Occasion → Prop} [∀ o, Decidable (c o)] (p : Prop) [Decidable p]
    (hc : ∀ o, o.mode = m → (c o ↔ p)) (hf : ShapedAll m fs) (hg : ShapedAll m gs) :
    ShapedAll m fun o => if c o then fs o else gs o := Uniform.ite p hc hf hg

end ShapedAll

/-! ### What a history is asked to do with its table -/

/-- What is asked of a history that sends statements of its own. -/
inductive Upkeep where
  | list
  | isCreated
  | create
  | drop
  | insert
  | remove
  | count
  | contains
  deriving DecidableEq, Repr

/-- Asks it of a history. -/
def History.upkeep (h : History σ) (ctx : Context σ) (version : String) (limit : Nat) :
    Upkeep → Action σ Unit
  | .list => do let _ ← h.list ctx limit
  | .isCreated => do let _ ← h.isCreated ctx
  | .create => h.create ctx
  | .drop => h.drop ctx
  | .insert => h.insert ctx version
  | .remove => h.remove ctx version
  | .count => do let _ ← h.count ctx
  | .contains => do let _ ← h.contains ctx version

/-- The text of a change. -/
def Change.text : Change → String
  | .plain s => s.text
  | .committed s => s.text

/-- The texts of the statements that it comes to. -/
def Dialect.texts (d : Dialect) (version : String) (time : Int) (limit : Nat) :
    Upkeep → List String
  | .list => [d.list limit]
  | .isCreated => [d.probe.text]
  | .create => d.create
  | .drop => d.drop
  | .insert => (d.insert version time).map Change.text
  | .remove => (d.remove version time).map Change.text
  | .count => [d.count]
  | .contains => [(d.contains version).text]

/-! ### The templates of the products -/

namespace ClickHouse.HistoryTable

variable {m : Mode}

/-- The table of an occasion. -/
def ofOccasion (o : Occasion) : HistoryTable :=
  ⟨o.names.schema, o.names.table, o.names.cluster, o.replicated⟩

/-- Whether a table is spread is settled by the mode. -/
theorem isSpread_ofOccasion (o : Occasion) (h : o.mode = m) :
    (ofOccasion o).isSpread = true ↔ (!m.replicated && m.clustered) = true := by
  rw [← h]
  rfl

theorem base_shaped : Shaped m fun o => (ofOccasion o).base :=
  (Shaped.schema.append (.words ".")).append .table

theorem spanning_shaped : Shaped m fun o => (ofOccasion o).spanning :=
  (Shaped.schema.append (.words ".d_")).append .table

theorem readFrom_shaped : Shaped m fun o => (ofOccasion o).readFrom :=
  .ite _ isSpread_ofOccasion spanning_shaped base_shaped

theorem onCluster_shaped : Shaped m fun o => (ofOccasion o).onCluster :=
  .ite _ isSpread_ofOccasion ((Shaped.words _).append .cluster) (.words "")

theorem engine_shaped : Shaped m fun o => (ofOccasion o).engine := by
  refine .ite (m.replicated = true ∨ (!m.replicated && m.clustered) = true) (fun o ho => ?_) ?_ ?_
  · rw [Bool.or_eq_true, isSpread_ofOccasion o ho, ← ho]
    rfl
  · exact ((((Shaped.words _).append .cluster).append (.words _)).append .table).append (.words _)
  · exact .words _

theorem create_shaped : ShapedAll m fun o => (ofOccasion o).create := by
  have hbase : Shaped m fun o => "CREATE TABLE " ++ (ofOccasion o).base ++ (ofOccasion o).onCluster :=
    ((Shaped.words _).append base_shaped).append onCluster_shaped
  have hspanning : Shaped m fun o =>
      "CREATE TABLE " ++ (ofOccasion o).spanning ++ (ofOccasion o).onCluster :=
    ((Shaped.words _).append spanning_shaped).append onCluster_shaped
  refine .cons ?_ (.ite _ isSpread_ofOccasion (.one ?_) .nil)
  · exact ((((hbase.append (.words _)).append (.words _)).append engine_shaped).append
      (.words _)).append (.words _)
  · exact ((((((((hspanning.append (.words _)).append base_shaped).append (.words _)).append
      .cluster).append (.words _)).append .schema).append (.words _)).append .table).append (.words _)

theorem drop_shaped : ShapedAll m fun o => (ofOccasion o).drop := by
  refine .ite _ isSpread_ofOccasion (.cons ?_ (.one ?_)) (.one ?_)
  · exact (((Shaped.words _).append spanning_shaped).append onCluster_shaped).append (.words _)
  · exact (((Shaped.words _).append base_shaped).append onCluster_shaped).append (.words _)
  · exact (Shaped.words _).append base_shaped

theorem append_shaped (deleted : UInt64) : ShapedAll m fun o =>
    ((ofOccasion o).append deleted o.version o.time).map Change.text := by
  refine .cons ?_ (.one ?_)
  · exact ((Shaped.words _).append base_shaped).append (.words _)
  · exact (((Shaped.words _).append base_shaped).append onCluster_shaped).append (.words _)

/-- What is asked of a table on ClickHouse. -/
theorem texts_shaped (u : Upkeep) : ShapedAll m fun o =>
    (ofOccasion o).dialect.texts o.version o.time o.limit u := by
  cases u with
  | list =>
    exact .one ((((Shaped.words _).append readFrom_shaped).append (.words _)).append .limitClause)
  | isCreated => exact .one (.words _)
  | create => exact create_shaped
  | drop => exact drop_shaped
  | insert => exact append_shaped 0
  | remove => exact append_shaped 1
  | count => exact .one (((Shaped.words _).append readFrom_shaped).append (.words _))
  | contains => exact .one (((Shaped.words _).append readFrom_shaped).append (.words _))

end ClickHouse.HistoryTable

namespace Postgres.HistoryTable

variable {m : Mode}

/-- The table of an occasion. -/
def ofOccasion (o : Occasion) : HistoryTable := ⟨o.names.schema, o.names.table⟩

theorem qualified_shaped : Shaped m fun o => (ofOccasion o).qualified :=
  (Shaped.schema.append (.words ".")).append .table

/-- What is asked of a table on PostgreSQL. -/
theorem texts_shaped (u : Upkeep) : ShapedAll m fun o =>
    (ofOccasion o).dialect.texts o.version o.time o.limit u := by
  have hopen (before : String) : Shaped m fun o => before ++ (ofOccasion o).qualified :=
    (Shaped.words before).append qualified_shaped
  cases u with
  | list => exact .one (((hopen _).append (.words _)).append .limitClause)
  | isCreated => exact .one ((Shaped.words _).append (.words _))
  | create => exact .one ((hopen _).append (.words _))
  | drop => exact .one (hopen _)
  | insert => exact .one ((hopen _).append (.words _))
  | remove => exact .one ((hopen _).append (.words _))
  | count => exact .one (hopen _)
  | contains => exact .one ((hopen _).append (.words _))

end Postgres.HistoryTable

namespace MySql.HistoryTable

variable {m : Mode}

/-- The table of an occasion. -/
def ofOccasion (o : Occasion) : HistoryTable := ⟨o.names.schema, o.names.table⟩

/-- What is asked of a table on MySQL. -/
theorem texts_shaped (u : Upkeep) : ShapedAll m fun o =>
    (ofOccasion o).dialect.texts o.version o.time o.limit u := by
  have hopen (before : String) : Shaped m fun o => before ++ (ofOccasion o).table :=
    (Shaped.words before).append .table
  cases u with
  | list => exact .one (((hopen _).append (.words _)).append .limitClause)
  | isCreated => exact .one ((Shaped.words _).append (.words _))
  | create => exact .one ((hopen _).append (.words _))
  | drop => exact .one (hopen _)
  | insert => exact .one ((hopen _).append (.words _))
  | remove => exact .one ((hopen _).append (.words _))
  | count => exact .one (hopen _)
  | contains => exact .one ((hopen _).append (.words _))

end MySql.HistoryTable

namespace Tarantool.HistorySpace

variable {m : Mode}

/-- The space of an occasion. -/
def ofOccasion (o : Occasion) : HistorySpace := ⟨o.names.table⟩

theorem listOptions_shaped : Shaped m fun o => listOptions o.limit :=
  .bounded (.words _) (((Shaped.words _).append (.hole .limit)).append (.words _))

/-- What is asked of a space on Tarantool. -/
theorem texts_shaped (u : Upkeep) : ShapedAll m fun o =>
    (ofOccasion o).dialect.texts o.version o.time o.limit u := by
  have hopen (before : String) : Shaped m fun o => before ++ (ofOccasion o).name :=
    (Shaped.words before).append .table
  have hspace (before after : String) : Shaped m fun o => before ++ (ofOccasion o).name ++ after :=
    (hopen before).append (.words after)
  cases u with
  | list => exact .one (((hspace _ _).append listOptions_shaped).append (.words _))
  | isCreated => exact .one (hspace _ _)
  | create =>
    refine .cons (hspace _ _) (.cons ?_ (.cons ?_ (.one ?_)))
    · exact (hspace _ _).append (.words _)
    · exact (hspace _ _).append (.words _)
    · exact (hspace _ _).append (.words _)
  | drop => exact .one (hspace _ _)
  | insert => exact .one (hspace _ _)
  | remove => exact .one (hspace _ _)
  | count => exact .one (hspace _ _)
  | contains => exact .one (hspace _ _)

end Tarantool.HistorySpace

/-- **The statements of a history are templates**: for each product, each thing that is asked and
each mode there are texts with holes, and on every occasion they are sent with the names and the
bound in the holes.  The version does not stand in them, and neither does the time. -/
theorem Dialect.named_shaped (driver : Driver) (m : Mode) (u : Upkeep) : ShapedAll m fun o =>
    (named driver o.names o.replicated).texts o.version o.time o.limit u := by
  cases driver with
  | clickHouse => exact ClickHouse.HistoryTable.texts_shaped u
  | postgres => exact Postgres.HistoryTable.texts_shaped u
  | mySql => exact MySql.HistoryTable.texts_shaped u
  | tarantool => exact Tarantool.HistorySpace.texts_shaped u

end SchemaMigration
