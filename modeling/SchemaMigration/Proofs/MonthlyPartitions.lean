import SchemaMigration.ClickHouse.Client
import SchemaMigration.Proofs.IntegerReading
import SchemaMigration.Proofs.NewestRows
import SchemaMigration.Proofs.VersionLiterals
/-! # A history in monthly partitions

On ClickHouse a history is a table that only grows, and what it shows is left to the merging of the
server.  Here the server is any server that adds the rows that are inserted, merges when it is told
to, and answers from its rows (`Transport.Houses`); and a client records and forgets versions in any
order, with a clock that never goes back (`Ran`).

Each of these calls adds a row and merges, so that the table holds the last row of each version in
each month (`Ran.holds`).  What the history shows follows from that: a version stands if it stood at
the end of *some* month, and it is listed once for each such month. -/
namespace SchemaMigration

variable {σ α β : Type}

/-! ### Transactions -/

/-- A transaction that succeeds was asked for outside of any other, and has begun, run its body and
been committed. -/
theorem Connection.transaction_gives {c : Connection σ} {ctx : Context σ}
    {body : Context σ → Action σ Unit} {s : σ} {R P : Nat → σ → Prop} {Q : σ → Prop}
    (hbegin : (c.backend.begin ctx.token).Gives s R)
    (hbody : ∀ id t, R id t → (body (c.opened ctx id)).Gives t fun _ u => P id u)
    (hcommit : ∀ id t, P id t →
      (c.backend.transaction ctx.token id).commit.Gives t fun _ u => Q u) :
    (c.transaction ctx body).Gives s fun _ u => ctx.transaction = none ∧ Q u := by
  rw [Connection.transaction]
  cases ctx.transaction with
  | some t => exact .throw _
  | none =>
    refine .bind .check fun _ t ht => ht ▸ .bind hbegin fun id u hu => ?_
    refine .outcome_bind (hbody id u hu) fun r v hv => ?_
    cases r with
    | error e => exact fun x hx => absurd hx settle_of_error
    | ok x =>
      refine .outcome_bind (hcommit id v (hv x rfl)) fun r w hw => ?_
      cases r with
      | ok y => exact fun _ _ => ⟨rfl, hw y rfl⟩
      | error e =>
        refine .outcome_bind (R := fun _ _ => True) trivial fun _ _ _ => ?_
        rintro _ ⟨⟩

/-! ### Numbers in answers -/

/-- A number is read as an integer of every type that holds it. -/
theorem Value.toInteger_uint {t : IntegerType} {n : UInt64} (h : t.holds n.toNat = true) :
    (Value.uint n).toInteger t = .ok n.toNat :=
  toInteger_eq_ok_iff.mpr ⟨.uint n, IntegerType.holds_iff.mp h⟩

theorem IntegerType.u64_holds (n : UInt64) : IntegerType.u64.holds n.toNat = true := by
  have hn : n.toNat < 2 ^ 64 := n.toNat_lt
  rw [holds_iff]
  show (0 : Int) ≤ n.toNat ∧ (n.toNat : Int) ≤ 2 ^ 64 - 1
  omega

theorem IntegerType.i64_holds (n : UInt32) : IntegerType.i64.holds n.toUInt64.toNat = true := by
  have hn : n.toUInt64.toNat < 2 ^ 32 := by
    rw [UInt32.toNat_toUInt64]
    exact n.toNat_lt
  rw [holds_iff]
  show -(2 ^ 63 : Int) ≤ n.toUInt64.toNat ∧ (n.toUInt64.toNat : Int) ≤ 2 ^ 63 - 1
  omega

namespace ClickHouse

/-! ### Servers that keep a history table -/

/-- The server lets `Q` hold of the state before, the body of its answer and the state after,
whenever it accepts a statement. -/
def Transport.Effects (net : Transport σ) (sql : String) (Q : σ → String → σ → Prop) : Prop :=
  ∀ endpoint path user key s, (net.send ⟨endpoint, path, some (user, key, sql)⟩).Gives s
    fun response t => ∀ body, Client.judge response = .ok body → Q s body t

/-- A statement with its arguments bound. -/
def bound (s : Statement) : Except Failure String := bind s.text s.args

namespace HistoryTable

/-- The statement that adds a row. -/
def write (t : HistoryTable) (r : Record) : Statement :=
  t.appendStatement (if r.deleted then 1 else 0) r.time r.version

end HistoryTable

/-- The rows that a listing shows: the times are numbers of 32 bits. -/
def listed (cells : List (String × UInt32)) : List Applied :=
  cells.map fun cell => ⟨cell.1, cell.2.toNat⟩

/-- A server that houses a table, as far as the rows that are `written` and the versions that are
`asked` for go.  When it accepts a statement, an insertion has added its row, an optimization has
merged the rows, and a question was answered from the rows that there are. -/
structure Transport.Houses (net : Transport σ) (t : HistoryTable) (month : Int → Int)
    (table : σ → List Record) (written : Record → Prop) (asked : String → Prop) : Prop where
  insert : ∀ r sql, written r → bound (t.write r) = .ok sql →
    net.Effects sql fun s _ u => table u = table s ++ [r]
  optimize : ∀ sql, bound t.optimize = .ok sql →
    net.Effects sql fun s _ u => Merged month (table s) (table u)
  count : ∀ version sql, asked version → bound (t.dialect.contains version) = .ok sql →
    net.Effects (withFormat sql) fun s body u => table u = table s ∧
      ∃ rows n, readTable body = .ok rows ∧ rows.unvisited = [[.uint n]] ∧
        n.toNat = ((table s).filter fun r => r.version = version ∧ r.deleted = false).length
  list : net.Effects (withFormat (t.dialect.list 0)) fun s body u => table u = table s ∧
    ∃ (rows : Rows) (cells : List (String × UInt32)), readTable body = .ok rows ∧
      rows.unvisited = cells.map (fun cell => [.text cell.1, .uint cell.2.toUInt64]) ∧
      Applied.Newest (listed cells) ∧
      (listed cells).Perm (((table s).filter fun r => r.deleted = false).map Record.applied)

namespace Client

variable {s : Settings} {net : Transport σ} {place : Part σ Client} {token : Token σ}
variable {table : σ → List Record} {id : Nat} {kept : List String} {u : σ}

/-- What a transaction holds in a state: nothing if there is none, and nothing in it if it is
closed. -/
def slot (place : Part σ Client) (id : Nat) (u : σ) : Option (Option (List String)) :=
  (place.get u).transactions[id]?

theorem post_gives {sql : String} {Q : σ → String → σ → Prop} (h : net.Effects sql Q) :
    (post s net place sql).Gives u (Q u) := by
  refine .bind (R := fun _ t => t = u) (fun _ _ => rfl) fun client t ht => ?_
  rw [ht]
  refine .bind (h _ _ _ _ u) fun response v hv => ?_
  exact .ofExcept hv

theorem kept_gives (hslot : slot place id u = some (some kept)) :
    (Client.kept place id).Gives u fun inserts t => inserts = kept ∧ t = u := by
  refine .bind (R := fun client t => client = place.get u ∧ t = u)
    (by rintro _ ⟨⟩; exact ⟨rfl, rfl⟩) ?_
  rintro client t ⟨rfl, rfl⟩
  rw [slot] at hslot
  rw [hslot]
  exact .pure ⟨rfl, rfl⟩

/-- Replacing what a transaction holds. -/
theorem keep_gives (hplace : ∀ client v, table (place.set client v) = table v)
    (hslot : slot place id u = some (some kept)) (held : Option (List String)) :
    (keep place id held).Gives u fun _ t => table t = table u ∧ slot place id t = some held := by
  rintro _ -
  refine ⟨hplace _ u, ?_⟩
  have hid : id < (place.get u).transactions.length := (List.getElem?_eq_some_iff.mp hslot).1
  show (place.get (place.set _ u)).transactions[id]? = some held
  rw [place.get_set, List.getElem?_set_self hid]

/-- A transaction begins with nothing in it. -/
theorem begin_gives (hplace : ∀ client v, table (place.set client v) = table v) :
    ((backend s net place).begin token).Gives u fun id t =>
      table t = table u ∧ slot place id t = some (some []) := by
  refine .bind .check fun _ t ht => ?_
  rw [ht]
  rintro _ ⟨⟩
  refine ⟨hplace _ u, ?_⟩
  show (place.get (place.set _ u)).transactions[(place.get u).transactions.length]? = _
  rw [place.get_set, List.getElem?_concat_length]

/-- An insertion in a transaction waits there. -/
theorem exec_gives (hplace : ∀ client v, table (place.set client v) = table v) {text : String}
    {args : List Value} (hinsert : isInsert text = true)
    (hslot : slot place id u = some (some kept)) (opened inner : Token σ) :
    ((transaction s net place opened id).exec inner text args).Gives u fun _ t =>
      table t = table u ∧ ∃ sql, ClickHouse.bind text args = .ok sql ∧
        slot place id t = some (some (kept ++ [sql])) := by
  refine .bind (kept_gives hslot) ?_
  rintro _ t ⟨rfl, rfl⟩
  rw [if_pos hinsert]
  refine .bind (R := fun sql v => ClickHouse.bind text args = .ok sql ∧ v = t)
    (.ofExcept fun sql hsql => ⟨hsql, rfl⟩) ?_
  rintro sql _ ⟨hsql, rfl⟩
  refine .bind (keep_gives hplace hslot _) fun _ v ⟨hv, hslot'⟩ => ?_
  exact .pure ⟨hv, sql, hsql, hslot'⟩

/-- The commit sends the one statement that waits. -/
theorem commit_gives (hplace : ∀ client v, table (place.set client v) = table v) {sql : String}
    {Q : σ → σ → Prop} (hslot : slot place id u = some (some [sql]))
    (heffect : net.Effects sql fun v _ w => Q v w) (opened : Token σ) :
    (transaction s net place opened id).commit.Gives u fun _ t =>
      ∃ v, table v = table u ∧ Q v t := by
  refine .bind .check fun _ t ht => ?_
  rw [ht]
  refine .bind (kept_gives hslot) ?_
  rintro _ t ⟨rfl, rfl⟩
  refine .bind (keep_gives hplace hslot _) fun _ v ⟨hv, _⟩ => ?_
  show (opened.guard _ >>= fun _ => (pure PUnit.unit : Action σ PUnit)).Gives v _
  refine .bind (.guard ?_) fun _ w hw => .pure ⟨v, hv, hw⟩
  exact .bind (post_gives heffect) fun _ w hw => .pure hw

end Client

/-! ### Recording and forgetting -/

theorem isInsert_appendStatement (t : HistoryTable) (deleted : UInt64) (time : Int)
    (version : String) : isInsert (t.appendStatement deleted time version).text = true := by
  have htext : (t.appendStatement deleted time version).text.toList =
      'I' :: 'N' :: 'S' :: 'E' :: 'R' :: 'T' :: (" INTO " ++ t.base ++
        " (version, apply_time, is_deleted) VALUES (?, ?, ?)").toList := by
    show (_ ++ _ ++ _ : String).toList = _
    simp only [String.toList_append]
    rfl
  rw [isInsert, htext, List.dropWhile_cons_of_neg (by decide)]
  show decide (Text.lower (String.ofList ['I', 'N', 'S', 'E', 'R', 'T']) = "insert") = true
  decide

section Calls

variable {s : Settings} {net : Transport σ} {place : Part σ Client} {table : σ → List Record}
variable {t : HistoryTable} {month : Int → Int} {c : Connection σ} {clock : Action σ Int}
variable {ctx : Context σ} {written : Record → Prop} {asked : String → Prop}
variable (hc : c.backend = Client.backend s net place)
variable (hnet : net.Houses t month table written asked)
variable (hplace : ∀ client v, table (place.set client v) = table v)
include hc hnet hplace

/-- The transaction for a row adds it. -/
theorem transaction_append_gives {r : Record} (hr : written r) (u : σ) :
    (t.dialect.change c ctx (.committed (t.write r))).Gives u fun _ v =>
      ctx.transaction = none ∧ table v = table u ++ [r] := by
  rw [Dialect.change]
  refine Connection.transaction_gives
    (R := fun id v => table v = table u ∧ Client.slot place id v = some (some []))
    (P := fun id v => table v = table u ∧ ∃ sql, bound (t.write r) = .ok sql ∧
      Client.slot place id v = some (some [sql])) ?_ ?_ ?_
  · rw [hc]
    exact Client.begin_gives hplace
  · rintro id v ⟨hv, hslot⟩
    refine .bind ?_ fun _ w hw => .pure hw
    refine .bind .check fun _ w hw => ?_
    rw [hw]
    show ((c.backend.transaction ctx.token id).exec _ _ _).Gives v _
    rw [hc]
    refine (Client.exec_gives hplace (isInsert_appendStatement ..) hslot _ _).mono ?_
    rintro _ x ⟨hx, sql, hsql, hslot'⟩
    exact ⟨hx.trans hv, sql, hsql, hslot'⟩
  · rintro id v ⟨hv, sql, hsql, hslot⟩
    rw [hc]
    refine (Client.commit_gives hplace hslot (hnet.insert r sql hr hsql) _).mono ?_
    rintro _ x ⟨w, hw, hx⟩
    rw [hx, hw, hv]

omit hplace in
/-- The merging is a statement of its own. -/
theorem optimize_gives (hctx : ctx.transaction = none) (u : σ) :
    (t.dialect.change c ctx (.plain t.optimize)).Gives u fun _ v =>
      Merged month (table u) (table v) := by
  rw [Dialect.change, Dialect.exec]
  refine .mapFailure (.bind ?_ fun _ v hv => .pure hv)
  refine .bind .check fun _ v hv => ?_
  rw [hv, hctx]
  show (c.backend.exec _ _ _).Gives u _
  rw [hc]
  refine .guard (.bind (R := fun sql v => bound t.optimize = .ok sql ∧ v = u)
    (.ofExcept fun sql hsql => ⟨hsql, rfl⟩) ?_)
  rintro sql _ ⟨hsql, rfl⟩
  exact .bind (Client.post_gives (hnet.optimize sql hsql)) fun _ v hv => .pure hv

/-- A change of the history adds a row and merges. -/
theorem append_gives {r : Record} (hr : written r) (u : σ) :
    ((t.append (if r.deleted then 1 else 0) r.version r.time).forM
      (t.dialect.change c ctx)).Gives u fun _ v => Merged month (table u ++ [r]) (table v) := by
  rw [t.append_eq]
  refine .bind (transaction_append_gives hc hnet hplace hr u) ?_
  rintro _ v ⟨hctx, hv⟩
  refine .bind (optimize_gives hc hnet hctx v) fun _ w hw => .pure ?_
  rwa [hv] at hw

/-- A call writes the row that says so, with the time that the clock shows. -/
theorem call_gives (hclock : clock.Keeps table) (version : String) (deleted : Bool) {time : Int}
    {u : σ} (hnow : (clock.perform u).1 = .ok time) (hr : written ⟨version, time, deleted⟩) :
    (clock >>= fun time => (t.append (if deleted then 1 else 0) version time).forM
      (t.dialect.change c ctx)).Gives u fun _ v =>
        Merged month (table u ++ [⟨version, time, deleted⟩]) (table v) := by
  refine .keeps_bind hclock fun now w hw hkept => ?_
  obtain rfl : now = time := Except.ok.inj ((congrArg Prod.fst hw).symm.trans hnow)
  rw [← hkept]
  exact append_gives hc hnet hplace hr w

end Calls

/-! ### Runs -/

/-- One client records and forgets versions with success, one after another; `calls` are the rows
that say so, with the times that the clock showed.  Whatever else happens leaves the table alone. -/
inductive Ran (h : History σ) (clock : Action σ Int) (table : σ → List Record) (s : σ) :
    List Record → σ → Prop where
  | start : Ran h clock table s [] s
  | pause {calls u v} (ran : Ran h clock table s calls u) (rest : table v = table u) :
    Ran h clock table s calls v
  | insert {calls u v ctx version time} (ran : Ran h clock table s calls u)
    (now : (clock.perform u).1 = .ok time)
    (done : (h.insert ctx version).perform u = (.ok (), v)) :
    Ran h clock table s (calls ++ [⟨version, time, false⟩]) v
  | remove {calls u v ctx version time} (ran : Ran h clock table s calls u)
    (now : (clock.perform u).1 = .ok time)
    (done : (h.remove ctx version).perform u = (.ok (), v)) :
    Ran h clock table s (calls ++ [⟨version, time, true⟩]) v

/-- The clock never went back. -/
def Ordered (calls : List Record) : Prop := calls.Pairwise fun r r' => r.time ≤ r'.time

theorem Ordered.concat {calls : List Record} {r : Record} (h : Ordered (calls ++ [r])) :
    Ordered calls ∧ ∀ s ∈ calls, s.time ≤ r.time := by
  obtain ⟨hcalls, -, hlast⟩ := List.pairwise_append.mp h
  exact ⟨hcalls, fun s hs => hlast s hs r List.mem_cons_self⟩

section Runs

variable {s : Settings} {net : Transport σ} {place : Part σ Client} {table : σ → List Record}
variable {t : HistoryTable} {month : Int → Int} {c : Connection σ} {clock : Action σ Int}
variable {calls : List Record} {start u : σ} {written : Record → Prop} {asked : String → Prop}
variable (hc : c.backend = Client.backend s net place)
variable (hnet : net.Houses t month table written asked)
variable (hplace : ∀ client v, table (place.set client v) = table v)
variable (hclock : clock.Keeps table)
include hc hnet hplace hclock

/-- With one more call, no earlier than the others, the table still holds the last rows. -/
theorem call_holds {ctx : Context σ} {version : String} {deleted : Bool} {time : Int} {v : σ}
    (hbefore : Holds month calls (table u))
    (hordered : Ordered (calls ++ [⟨version, time, deleted⟩]))
    (hwritten : ∀ r ∈ calls ++ [⟨version, time, deleted⟩], written r)
    (hnow : (clock.perform u).1 = .ok time)
    (hdone : (clock >>= fun time => (t.append (if deleted then 1 else 0) version time).forM
      (t.dialect.change c ctx)).perform u = (.ok (), v)) :
    Holds month (calls ++ [⟨version, time, deleted⟩]) (table v) := by
  have hr : written ⟨version, time, deleted⟩ := hwritten _ List.mem_concat_self
  refine hbefore.write hordered.concat.2 ?_
  exact (call_gives hc hnet hplace hclock version deleted hnow hr).of_perform hdone

/-- One call after another, the table holds the last row of each version in each month. -/
theorem Ran.holds (h : Ran (t.dialect.history c clock) clock table start calls u)
    (hstart : table start = []) (hwritten : ∀ r ∈ calls, written r) (hordered : Ordered calls) :
    Holds month calls (table u) := by
  induction h with
  | start =>
    rw [hstart]
    exact .nil
  | pause ran hrest ih => exact hrest ▸ ih hwritten hordered
  | insert ran hnow hdone ih =>
    have hbefore := ih (List.forall_mem_append.mp hwritten).1 hordered.concat.1
    exact call_holds hc hnet hplace hclock hbefore hordered hwritten hnow hdone
  | remove ran hnow hdone ih =>
    have hbefore := ih (List.forall_mem_append.mp hwritten).1 hordered.concat.1
    exact call_holds hc hnet hplace hclock hbefore hordered hwritten hnow hdone

end Runs

/-! ### Reading -/

/-- A query came to nothing: it was given up, or the server did not accept it. -/
def Refused (s : Settings) (net : Transport σ) (place : Part σ Client) (token : Token σ)
    (sql : String) (u v : σ) : Prop :=
  token.isRaised u = true ∨ token.isRaised v = true ∨
    ∃ f, ((Client.post s net place (withFormat sql)).perform u).1 = .error f

section Reading

variable {s : Settings} {net : Transport σ} {place : Part σ Client} {c : Connection σ}
variable {ctx : Context σ} {text sql : String} {args : List Value} {u : σ}

/-- How a query ends: with an answer, or because it came to nothing. -/
inductive Reply (answered : α → Prop) (refused : Prop) : Except Failure α → Prop where
  | answer {x} (h : answered x) : Reply answered refused (.ok x)
  | refusal {f} (h : refused) : Reply answered refused (.error f)

theorem Reply.of_ok {answered : α → Prop} {refused : Prop} {x : α}
    (h : Reply answered refused (.ok x)) : answered x := by
  cases h with
  | answer h => exact h

/-- What is made of an answer. -/
theorem Reply.bind_ends {a : Action σ α} {f : α → Except Failure β} {P : α → σ → Prop}
    {Q : β → σ → Prop} {refused : σ → Prop}
    (ha : a.Ends u fun r v => Reply (fun x => P x v) (refused v) r)
    (hf : ∀ x v, P x v → ∃ y, f x = .ok y ∧ Q y v) :
    (a >>= fun x => .ofExcept (f x)).Ends u fun r v => Reply (fun y => Q y v) (refused v) r := by
  refine .bind ha (fun e v h => ?_) fun x v h => ?_
  · cases h with
    | refusal h => exact .refusal h
  · cases h with
    | answer h =>
      obtain ⟨y, hy, hQ⟩ := hf x v h
      rw [hy]
      exact .answer hQ

theorem Reply.mapFailure_ends {a : Action σ α} {g : Failure → Failure} {P : α → σ → Prop}
    {refused : σ → Prop} (ha : a.Ends u fun r v => Reply (fun x => P x v) (refused v) r) :
    (a.mapFailure g).Ends u fun r v => Reply (fun x => P x v) (refused v) r := by
  refine .mapFailure (ha.mono fun r v h => ?_)
  cases h with
  | answer h => exact .answer h
  | refusal h => exact .refusal h

/-- A token that is raised before or after an action takes its answer away. -/
theorem Reply.guard_ends {a : Action σ α} {token : Token σ} {P : α → σ → Prop} {refused : Prop}
    (ha : a.Ends u fun r v => Reply (fun x => P x v) refused r) :
    (token.guard a).Ends u fun r v => Reply (fun x => P x v)
      (token.isRaised u = true ∨ token.isRaised v = true ∨ refused) r := by
  rw [Action.Ends, Token.perform_guard]
  by_cases hraised : token.isRaised u = true
  · rw [if_pos hraised]
    exact .refusal (.inl hraised)
  · rw [if_neg hraised]
    by_cases hlater : token.isRaised (a.perform u).2 = true
    · rw [if_pos hlater]
      exact .refusal (.inr (.inl hlater))
    · rw [if_neg hlater]
      rw [Action.Ends] at ha
      cases h : (a.perform u).1 with
      | ok x =>
        rw [h] at ha
        exact .answer ha.of_ok
      | error e =>
        rw [h] at ha
        cases ha with
        | refusal h => exact .refusal (.inr (.inr h))

/-- A query is answered if the server accepts it. -/
theorem Client.query_ends {Q : Rows → σ → Prop} (hbind : ClickHouse.bind text args = .ok sql)
    (hpost : (Client.post s net place (withFormat sql)).Gives u fun body v =>
      ∃ rows, readTable body = .ok rows ∧ Q rows v) :
    (Client.query s net place text args).Ends u fun r v => Reply (fun rows => Q rows v)
      (∃ f, ((Client.post s net place (withFormat sql)).perform u).1 = .error f) r := by
  rw [Client.query, hbind, Action.Ends, Action.perform_ofExcept_ok_bind]
  rcases hperform : (Client.post s net place (withFormat sql)).perform u with ⟨e | body, v⟩
  · rw [Action.perform_bind_error hperform]
    exact .refusal ⟨e, rfl⟩
  · obtain ⟨rows, hrows, hQ⟩ := hpost.of_perform hperform
    rw [Action.perform_bind_ok hperform, hrows]
    exact .answer hQ

/-- A query outside of transactions is answered by the server, or comes to nothing. -/
theorem query_ends {Q : Rows → σ → Prop} (hc : c.backend = Client.backend s net place)
    (hctx : ctx.transaction = none) (hbind : ClickHouse.bind text args = .ok sql)
    (hpost : (Client.post s net place (withFormat sql)).Gives u fun body v =>
      ∃ rows, readTable body = .ok rows ∧ Q rows v) :
    (c.query ctx text args).Ends u fun r v =>
      Reply (fun rows => Q rows v) (Refused s net place ctx.token sql u v) r := by
  have hguard : (c.query ctx text args).perform u =
      if ctx.token.isRaised u then (.error .cancelled, u)
      else (ctx.token.guard (Client.query s net place text args)).perform u := by
    rw [c.perform_query, hctx, hc]
    rfl
  rw [Action.Ends, hguard]
  by_cases hraised : ctx.token.isRaised u = true
  · rw [if_pos hraised]
    exact .refusal (.inl hraised)
  · rw [if_neg hraised]
    exact Reply.guard_ends (Client.query_ends hbind hpost)

end Reading

/-- The version stood at the end of some month: the last of the calls for it in that month recorded
it. -/
def Stands (month : Int → Int) (version : String) (calls : List Record) : Prop :=
  ∃ m r, lastIn? month m version calls = some r ∧ r.deleted = false

/-- The last of the calls for the version recorded it. -/
def RecordedLast (version : String) (calls : List Record) : Prop :=
  ∃ r, lastOf? version calls = some r ∧ r.deleted = false

/-- What was recorded last stands. -/
theorem RecordedLast.stands {month : Int → Int} {version : String} {calls : List Record}
    (h : RecordedLast version calls) : Stands month version calls := by
  obtain ⟨r, hlast, hdeleted⟩ := h
  exact ⟨_, r, lastIn?_of_lastOf? hlast, hdeleted⟩

/-- If all calls for a version are of one month, it stands if it was recorded last. -/
theorem stands_iff_recordedLast {month : Int → Int} {m : Int} {version : String}
    {calls : List Record} (h : ∀ r ∈ calls, r.version = version → month r.time = m) :
    Stands month version calls ↔ RecordedLast version calls := by
  refine ⟨?_, RecordedLast.stands⟩
  rintro ⟨m', r, hlast, hdeleted⟩
  obtain ⟨hr, hkey⟩ := key_of_lastIn? hlast
  obtain ⟨hmonth, hversion⟩ := Prod.mk.inj hkey
  obtain rfl : m = m' := (h r hr hversion).symm.trans hmonth
  exact ⟨r, lastIn?_eq_lastOf? h ▸ hlast, hdeleted⟩

/-- The rows of a listing are read as they were written. -/
theorem ofRow_cells (cells : List (String × UInt32)) :
    (cells.map fun cell => [.text cell.1, .uint cell.2.toUInt64]).mapM Applied.ofRow =
      .ok (listed cells) := by
  have hrow (cell : String × UInt32) :
      Applied.ofRow [.text cell.1, .uint cell.2.toUInt64] = .ok ⟨cell.1, cell.2.toNat⟩ := by
    show (Value.toText (.text cell.1) >>= fun version =>
      (Value.uint cell.2.toUInt64).toInteger .i64 >>= fun time =>
        pure (⟨version, time⟩ : Applied)) = _
    rw [Value.toInteger_uint (IntegerType.i64_holds cell.2), UInt32.toNat_toUInt64]
    rfl
  induction cells with
  | nil => rfl
  | cons cell cells ih =>
    rw [List.map_cons, List.mapM_cons, hrow, ih]
    rfl

section Answers

variable {s : Settings} {net : Transport σ} {place : Part σ Client} {table : σ → List Record}
variable {t : HistoryTable} {month : Int → Int} {c : Connection σ} {clock : Action σ Int}
variable {ctx : Context σ} {written : Record → Prop} {asked : String → Prop} {u : σ}
variable (hc : c.backend = Client.backend s net place)
variable (hnet : net.Houses t month table written asked) (hctx : ctx.transaction = none)
include hc hnet hctx

/-- A question for a version is answered from the rows. -/
theorem contains_ends {version sql : String} (hversion : asked version)
    (hsql : bound (t.dialect.contains version) = .ok sql) :
    ((t.dialect.history c clock).contains ctx version).Ends u fun r v =>
      Reply (fun present => present = true ↔
          ∃ r ∈ table u, r.version = version ∧ r.deleted = false)
        (Refused s net place ctx.token sql u v) r := by
  refine Reply.bind_ends (P := fun x _ => ∃ n, x = .uint n ∧ n.toNat =
    ((table u).filter fun r => r.version = version ∧ r.deleted = false).length)
    (Reply.mapFailure_ends (Reply.bind_ends (query_ends (Q := fun rows _ => ∃ n,
      rows.unvisited = [[.uint n]] ∧ n.toNat =
        ((table u).filter fun r => r.version = version ∧ r.deleted = false).length)
      hc hctx hsql ?_) ?_)) ?_
  · refine (Client.post_gives (hnet.count version sql hversion hsql)).mono ?_
    rintro body v ⟨-, rows, n, hrows, hn⟩
    exact ⟨rows, hrows, n, hn⟩
  · rintro rows v ⟨n, hrows, hn⟩
    exact ⟨.uint n, by rw [Rows.scalar, hrows], n, rfl, hn⟩
  · rintro _ v ⟨n, rfl, hn⟩
    refine ⟨decide (0 < (n.toNat : Int)), ?_, ?_⟩
    · show ((Value.uint n).toInteger .u64).map _ = _
      rw [Value.toInteger_uint (IntegerType.u64_holds n)]
      rfl
    · rw [decide_eq_true_eq, hn, Int.natCast_pos, List.length_pos_iff_exists_mem]
      simp [List.mem_filter]

/-- A listing shows the rows that are not deleted, newest first. -/
theorem list_ends :
    ((t.dialect.history c clock).list ctx 0).Ends u fun r v =>
      Reply (fun listing => Applied.Newest listing ∧
          listing.Perm (((table u).filter fun r => r.deleted = false).map Record.applied))
        (Refused s net place ctx.token (t.dialect.list 0) u v) r := by
  refine Reply.bind_ends (P := fun rows _ => ∃ cells,
    rows.unvisited = cells.map (fun cell => [.text cell.1, .uint cell.2.toUInt64]) ∧
      Applied.Newest (listed cells) ∧
      (listed cells).Perm (((table u).filter fun r => r.deleted = false).map Record.applied))
    (Reply.mapFailure_ends (query_ends hc hctx rfl ?_)) ?_
  · refine (Client.post_gives hnet.list).mono ?_
    rintro body v ⟨-, rows, cells, hrows, hcells⟩
    exact ⟨rows, hrows, cells, hcells⟩
  · rintro rows v ⟨cells, hcells, hlisting⟩
    refine ⟨listed cells, ?_, hlisting⟩
    rw [Applied.ofRows, hcells]
    exact ofRow_cells cells

end Answers

/-- **What a history on ClickHouse shows**, after one client has recorded and forgotten versions in
a table that was empty, with a clock that never went back:

* a version exists exactly if it *stood* at the end of some month: if the last of the calls for it
  in that month recorded it;
* a listing shows, newest first, a version once for each month at whose end it stood, with the time
  of the call that recorded it last in that month, and nothing else;
* so a version that was recorded last exists and is listed; and where all calls for a version are of
  one month, it exists if and only if it was recorded last, and then it is listed once.

A question that is neither given up nor refused by the server is answered. -/
theorem versions_stand_by_month {s : Settings} {net : Transport σ} {place : Part σ Client}
    {table : σ → List Record} {t : HistoryTable} {month : Int → Int} {c : Connection σ}
    {clock : Action σ Int} {written : Record → Prop} {asked : String → Prop}
    {calls : List Record} {start u : σ} (hc : c.backend = Client.backend s net place)
    (hnet : net.Houses t month table written asked)
    (hplace : ∀ client v, table (place.set client v) = table v) (hclock : clock.Keeps table)
    (hnamed : t.Named) (h : Ran (t.dialect.history c clock) clock table start calls u)
    (hstart : table start = []) (hwritten : ∀ r ∈ calls, written r) (hordered : Ordered calls) :
    (∀ ctx version, ctx.transaction = none → asked version →
      ∃ sql, bound (t.dialect.contains version) = .ok sql ∧
        ((t.dialect.history c clock).contains ctx version).Ends u fun r v =>
          Reply (fun present => (present = true ↔ Stands month version calls) ∧
              (RecordedLast version calls → present = true) ∧
              ∀ m, (∀ r ∈ calls, r.version = version → month r.time = m) →
                (present = true ↔ RecordedLast version calls))
            (Refused s net place ctx.token sql u v) r) ∧
    ∀ ctx, ctx.transaction = none →
      ((t.dialect.history c clock).list ctx 0).Ends u fun r v =>
        Reply (fun listing => Applied.Newest listing ∧
            (∀ m version, listing.filter (fun a => month a.time = m ∧ a.version = version) =
              (((lastIn? month m version calls).filter fun r => r.deleted = false).map
                Record.applied).toList) ∧
            ∀ m version, (∀ r ∈ calls, r.version = version → month r.time = m) →
              listing.filter (fun a => a.version = version) =
                (((lastOf? version calls).filter fun r => r.deleted = false).map
                  Record.applied).toList)
          (Refused s net place ctx.token (t.dialect.list 0) u v) r := by
  have hholds : Holds month calls (table u) :=
    h.holds hc hnet hplace hclock hstart hwritten hordered
  refine ⟨fun ctx version hctx hasked => ?_, fun ctx hctx => ?_⟩
  · obtain ⟨before, after, hcarries⟩ := HistoryTable.carriesVersion_contains hnamed
    refine ⟨_, (hcarries version).1, ?_⟩
    refine (contains_ends hc hnet hctx hasked (hcarries version).1).mono fun r v hr => ?_
    cases hr with
    | refusal hr => exact .refusal hr
    | answer hr =>
      have hstands := hr.trans (hholds.exists_standing_iff version)
      exact .answer ⟨hstands, fun hlast => hstands.mpr hlast.stands,
        fun m hm => hstands.trans (stands_iff_recordedLast hm)⟩
  · refine (list_ends hc hnet hctx).mono fun r v hr => ?_
    cases hr with
    | refusal hr => exact .refusal hr
    | answer hr =>
      exact .answer ⟨hr.1, hholds.filter_listing hr.2,
        fun m version => hholds.filter_listing_of_month hr.2⟩

/-! ### A version that is recorded in March and forgotten in April -/

/-- The partition of a time: year and month in UTC. -/
def partition (time : Int) : Int :=
  let date := Calendar.dateOf (time.fdiv 86400)
  date.year * 100 + date.month

/-- A client, the rows of a table, and the time. -/
structure Shelf where
  client : Client
  rows : List Record
  now : Int
  reached : Bool

namespace Shelf

/-- What the server understands. -/
inductive Phrase where
  | write (r : Record)
  | optimize
  | count
  | list
  deriving DecidableEq

def migration : HistoryTable := ⟨"default", "migration", "", false⟩

/-- The version is recorded on the last day of March 2021, and forgotten on the next day. -/
def recorded : Record := ⟨"210328_221600_a", 1617148800, false⟩
def forgotten : Record := ⟨"210328_221600_a", 1617235200, true⟩

/-- The statements that the server understands. -/
def phrase? (sql : String) : Option Phrase :=
  if sql = "INSERT INTO default.migration (version, apply_time, is_deleted) VALUES" ++
      " ('210328_221600_a', 1617148800, 0)" then some (.write recorded)
  else if sql = "INSERT INTO default.migration (version, apply_time, is_deleted) VALUES" ++
      " ('210328_221600_a', 1617235200, 1)" then some (.write forgotten)
  else if sql = "OPTIMIZE TABLE default.migration FINAL" then some .optimize
  else if sql = "SELECT COUNT(*) FROM default.migration WHERE version = '210328_221600_a'" ++
      " AND is_deleted = 0 FORMAT JSONCompact" then some .count
  else if sql = "SELECT version, apply_time FROM default.migration WHERE is_deleted = 0" ++
      " ORDER BY apply_time DESC, version DESC FORMAT JSONCompact" then some .list
  else none

/-- The answer with a number. -/
def countBody (n : Nat) : String :=
  "\x7b\"meta\": [\x7b\"name\": \"count()\", \"type\": \"UInt64\"\x7d], \"data\": [[\""
    ++ toString n ++ "\"]]\x7d"

/-- The answer with the row that records the version, or without any. -/
def listBody (rows : List Record) : Option String :=
  let columns := "\x7b\"meta\": [\x7b\"name\": \"version\", \"type\": \"String\"\x7d,"
    ++ " \x7b\"name\": \"apply_time\", \"type\": \"UInt32\"\x7d], \"data\": ["
  if rows = [recorded] then some (columns ++ "[\"210328_221600_a\", 1617148800]]\x7d")
  else if rows = [] then some (columns ++ "]\x7d")
  else none

/-- What the server answers, and the table after it. -/
def answer (rows : List Record) : Phrase → Option (String × List Record)
  | .write r => some ("", rows ++ [r])
  | .optimize => some ("", merge partition rows)
  | .count =>
    let n := (rows.filter fun r => r.version = "210328_221600_a" ∧ r.deleted = false).length
    if n ≤ 1 then some (countBody n, rows) else none
  | .list => (listBody (rows.filter fun r => r.deleted = false)).map (·, rows)

/-- A server that knows these few statements, and refuses all others. -/
def server : Transport Shelf where
  send request := .ofStep fun s =>
    match (request.post.bind fun post => phrase? post.2.2).bind (answer s.rows) with
    | some (body, rows) => (.ok ⟨200, none, body⟩, { s with rows })
    | none => (.ok ⟨400, some "62", "Code: 62. DB::Exception: Syntax error. (SYNTAX_ERROR)"⟩, s)

/-- It accepts what it understands. -/
theorem server_effects {sql : String} {p : Phrase} (h : phrase? sql = some p)
    {Q : Shelf → String → Shelf → Prop}
    (hQ : ∀ (s : Shelf) body rows, answer s.rows p = some (body, rows) →
      Q s body { s with rows }) : server.Effects sql Q := by
  intro endpoint path user key s
  have hperform : (server.send ⟨endpoint, path, some (user, key, sql)⟩).perform s =
      match answer s.rows p with
      | some (body, rows) => (.ok ⟨200, none, body⟩, { s with rows })
      | none =>
        (.ok ⟨400, some "62", "Code: 62. DB::Exception: Syntax error. (SYNTAX_ERROR)"⟩, s) := by
    show (match (phrase? sql).bind (answer s.rows) with
      | some (body, rows) => _
      | none => _) = _
    rw [h]
    rfl
  rw [Action.Gives, Action.Ends, hperform]
  cases hanswer : answer s.rows p with
  | some result =>
    rintro _ ⟨⟩ body hbody
    obtain rfl : result.1 = body := by simpa [Client.judge, Client.headerCode?] using hbody
    exact hQ s _ _ hanswer
  | none =>
    rintro _ ⟨⟩ body hbody
    simp [Client.judge] at hbody

/-- Whether rows are one number. -/
def isCount (n : Nat) : Except Failure Rows → Bool
  | .ok rows =>
    match rows.unvisited with
    | [[.uint k]] => k.toNat = n
    | _ => false
  | .error _ => false

theorem of_isCount {n : Nat} {r : Except Failure Rows} (h : isCount n r = true) :
    ∃ rows k, r = .ok rows ∧ rows.unvisited = [[.uint k]] ∧ k.toNat = n := by
  unfold isCount at h
  split at h
  · rename_i rows
    split at h
    · rename_i k hrows
      exact ⟨rows, k, rfl, hrows, of_decide_eq_true h⟩
    · cases h
  · cases h

/-- An answer with a number is read as that number. -/
theorem readTable_countBody {n : Nat} (hn : n ≤ 1) :
    ∃ rows k, readTable (countBody n) = .ok rows ∧ rows.unvisited = [[.uint k]] ∧ k.toNat = n := by
  refine of_isCount ?_
  rcases Nat.le_one_iff_eq_zero_or_eq_one.mp hn with rfl | rfl <;> decide +kernel

/-- Whether rows are versions with times. -/
def isListing : List (String × UInt32) → List (List Value) → Bool
  | [], [] => true
  | cell :: cells, [.text version, .uint k] :: rows =>
    version = cell.1 && k = cell.2.toUInt64 && isListing cells rows
  | _, _ => false

theorem of_isListing {cells : List (String × UInt32)} {rows : List (List Value)}
    (h : isListing cells rows = true) :
    rows = cells.map fun cell => [.text cell.1, .uint cell.2.toUInt64] := by
  fun_induction isListing cells rows with
  | case1 => rfl
  | case2 cell cells version k rows ih =>
    obtain ⟨h, hrows⟩ := Bool.and_eq_true_iff.mp h
    obtain ⟨hversion, hk⟩ := Bool.and_eq_true_iff.mp h
    rw [List.map_cons, ← ih hrows, of_decide_eq_true hversion, of_decide_eq_true hk]
  | case3 => cases h

/-- An answer with rows is read as a listing of them. -/
theorem readTable_listBody {rows : List Record} {body : String} (h : listBody rows = some body) :
    ∃ (read : Rows) (cells : List (String × UInt32)), readTable body = .ok read ∧
      read.unvisited = cells.map (fun cell => [.text cell.1, .uint cell.2.toUInt64]) ∧
      Applied.Newest (listed cells) ∧ (listed cells).Perm (rows.map Record.applied) := by
  have hread (cells : List (String × UInt32)) (hcells : (readTable body).toOption.any
      (fun read => isListing cells read.unvisited) = true) :
      ∃ read : Rows, readTable body = .ok read ∧
        read.unvisited = cells.map fun cell => [.text cell.1, .uint cell.2.toUInt64] := by
    cases hbody : readTable body with
    | error e =>
      rw [hbody] at hcells
      cases hcells
    | ok read =>
      rw [hbody] at hcells
      exact ⟨read, rfl, of_isListing hcells⟩
  rw [listBody] at h
  split at h
  · rename_i hrows
    obtain ⟨read, hbody, hcells⟩ := hread [("210328_221600_a", 1617148800)] (by
      cases h
      decide +kernel)
    exact ⟨read, _, hbody, hcells, by decide, hrows ▸ .refl _⟩
  · split at h
    · rename_i hrows
      obtain ⟨read, hbody, hcells⟩ := hread [] (by
        cases h
        decide +kernel)
      exact ⟨read, _, hbody, hcells, by decide, hrows ▸ .refl _⟩
    · cases h

/-- The server houses the table for the two rows and the one version. -/
theorem server_houses : server.Houses migration partition (·.rows)
    (fun r => r = recorded ∨ r = forgotten) (· = "210328_221600_a") where
  insert r sql hr hsql := by
    have hphrase : (bound (migration.write r)).toOption.bind phrase? = some (.write r) := by
      rcases hr with rfl | rfl <;> decide +kernel
    rw [hsql] at hphrase
    refine server_effects hphrase fun s body rows hanswer => ?_
    cases hanswer
    rfl
  optimize sql hsql := by
    cases hsql
    refine server_effects (p := .optimize) (by decide +kernel) fun s body rows hanswer => ?_
    cases hanswer
    exact merged_merge partition s.rows
  count version sql hversion hsql := by
    have hphrase : (bound (migration.dialect.contains version)).toOption.bind
        (fun sql => phrase? (withFormat sql)) = some .count := by
      rw [hversion]
      decide +kernel
    rw [hsql] at hphrase
    refine server_effects hphrase fun s body rows hanswer => ?_
    rw [answer] at hanswer
    rw [hversion]
    split at hanswer
    · rename_i hn
      cases hanswer
      exact ⟨rfl, readTable_countBody hn⟩
    · cases hanswer
  list := by
    have hphrase : phrase? (withFormat (migration.dialect.list 0)) = some .list := by
      decide +kernel
    refine server_effects hphrase fun s body rows hanswer => ?_
    obtain ⟨body, hbody, hrows⟩ := Option.map_eq_some_iff.mp hanswer
    cases hrows
    exact ⟨rfl, readTable_listBody hbody⟩

/-- The client as a part. -/
def clientPart : Part Shelf Client :=
  { get := (·.client), set := fun client s => { s with client := client } }

def settings : Settings := ⟨"http://localhost:8123", [], "default", "default", ""⟩

def clock : Action Shelf Int := .ofStep fun s => (.ok s.now, s)

def connection : Connection Shelf where
  dsn := ⟨.clickHouse, "localhost", [], "", "", "default", [], ""⟩
  backend := Client.backend settings server clientPart
  reached := { get := (·.reached), set := fun b s => { s with reached := b } }

def history : History Shelf := migration.dialect.history connection clock

/-- The version is recorded, a day goes by, and it is forgotten. -/
def start : Shelf := ⟨.start, [], 1617148800, false⟩
def march : Shelf := ⟨⟨0, [none]⟩, [recorded], 1617148800, false⟩
def april : Shelf := ⟨⟨0, [none, none]⟩, [recorded, forgotten], 1617235200, false⟩

/-- Whether a call succeeded and left a given state. -/
def endsIn (s : Shelf) (r : Except Failure Unit × Shelf) : Bool :=
  r.1.isOk && r.2.client.active = s.client.active &&
    r.2.client.transactions = s.client.transactions && r.2.rows = s.rows && r.2.now = s.now &&
    r.2.reached = s.reached

theorem of_endsIn {s : Shelf} {r : Except Failure Unit × Shelf} (h : endsIn s r = true) :
    r = (.ok (), s) := by
  obtain ⟨r, ⟨active, transactions⟩, rows, now, reached⟩ := r
  obtain ⟨⟨active', transactions'⟩, rows', now', reached'⟩ := s
  simp only [endsIn, Bool.and_eq_true, decide_eq_true_eq] at h
  obtain ⟨⟨⟨⟨⟨hr, rfl⟩, rfl⟩, rfl⟩, rfl⟩, rfl⟩ := h
  cases r with
  | ok => rfl
  | error e => cases hr

/-- Both calls succeed. -/
theorem ran_april : Ran history clock (·.rows) start [recorded, forgotten] april := by
  have hinsert : (history.insert (.ofToken .never) "210328_221600_a").perform start =
      (.ok (), march) := of_endsIn (by decide +kernel)
  have hremove : (history.remove (.ofToken .never) "210328_221600_a").perform
      { march with now := 1617235200 } = (.ok (), april) := of_endsIn (by decide +kernel)
  have hmarch : Ran history clock (·.rows) start [recorded] march := .insert .start rfl hinsert
  have hnight : Ran history clock (·.rows) start [recorded] { march with now := 1617235200 } :=
    .pause hmarch rfl
  exact .remove hnight rfl hremove

theorem ordered : Ordered [recorded, forgotten] :=
  .cons (by decide) (.cons nofun .nil)

theorem contains_april :
    ((history.contains (.ofToken .never) "210328_221600_a").perform april).1 = .ok true := by
  have h : ((history.contains (.ofToken .never) "210328_221600_a").perform april).1.toOption =
      some true := by
    decide +kernel
  cases hperform : ((history.contains (.ofToken .never) "210328_221600_a").perform april).1 with
  | ok present =>
    rw [hperform] at h
    exact congrArg _ (Option.some.inj h)
  | error e =>
    rw [hperform] at h
    cases h

/-- The version exists although it was forgotten last: the row of March is still there. -/
theorem forgotten_version_exists :
    Ran history clock (·.rows) start [recorded, forgotten] april ∧
    Ordered [recorded, forgotten] ∧
    lastOf? "210328_221600_a" [recorded, forgotten] = some forgotten ∧
    ((history.contains (.ofToken .never) "210328_221600_a").perform april).1 = .ok true :=
  ⟨ran_april, ordered, by decide, contains_april⟩

/-- It stood at the end of March, and it is listed with the time at which it was recorded then. -/
theorem versions_stand_by_month_april :
    Stands partition "210328_221600_a" [recorded, forgotten] ∧
    ∃ listing, ((history.list (.ofToken .never) 0).perform april).1 = .ok listing ∧
      listing.filter (fun a => partition a.time = 202103 ∧ a.version = "210328_221600_a") =
        [⟨"210328_221600_a", 1617148800⟩] ∧
      listing.filter (fun a => partition a.time = 202104 ∧ a.version = "210328_221600_a") = [] := by
  have hnamed : migration.Named := ⟨by decide, by decide⟩
  obtain ⟨hcontains, hlist⟩ := versions_stand_by_month rfl server_houses (fun _ _ => rfl)
    (fun _ => rfl) hnamed ran_april rfl (by simp) ordered
  constructor
  · obtain ⟨_, -, hreply⟩ := hcontains (.ofToken .never) "210328_221600_a" rfl rfl
    have hpresent := contains_april
    rw [history] at hpresent
    rw [Action.Ends, hpresent] at hreply
    exact hreply.of_ok.1.mp rfl
  · have hanswer : ((history.list (.ofToken .never) 0).perform april).1.isOk = true := by
      decide +kernel
    have hreply := hlist (.ofToken .never) rfl
    rw [Action.Ends] at hreply
    rw [history] at hanswer ⊢
    cases hlisting : (((migration.dialect.history connection clock).list (.ofToken .never)
        0).perform april).1 with
    | error e =>
      rw [hlisting] at hanswer
      cases hanswer
    | ok listing =>
      rw [hlisting] at hreply
      obtain ⟨-, hmonths, -⟩ := hreply.of_ok
      exact ⟨listing, rfl, (hmonths 202103 _).trans (by decide +kernel),
        (hmonths 202104 _).trans (by decide +kernel)⟩

end Shelf

end ClickHouse

end SchemaMigration
