import SchemaMigration.Connection
import SchemaMigration.Text.Cut
/-! # The recorder

A recorder stands in for a product: it holds no data, keeps the statements that take effect,
and answers from what it was told. The statements of a transaction take effect when it
commits. Responses and failures go by a fragment of the statement, and the first one that
occurs in it counts. -/
namespace SchemaMigration

/-- A statement that was received. -/
structure Recorded where
  text : String
  args : List Value
  /-- Whether it took effect by a commit. -/
  transactional : Bool
  deriving Repr

/-- A transaction of a recorder, with the statements that wait for the commit. -/
structure Recorder.Open where
  waiting : List Recorded
  isOpen : Bool
  deriving Repr

/-- What a recorder was told and what it received. -/
structure Recorder where
  /-- The statements that took effect, in order. -/
  statements : List Recorded
  responses : List (String × List Value)
  failures : List (String × String)
  commitFailure : Option String
  pingFailure : Option String
  transactions : List Recorder.Open
  pings : Nat
  begins : Nat
  commits : Nat
  rollbacks : Nat
  deriving Repr

namespace Recorder

/-- A recorder that was told nothing. -/
def empty : Recorder := ⟨[], [], [], none, none, [], 0, 0, 0, 0⟩

/-- The entry of the first fragment that occurs in a statement. -/
def lookup {α : Type} (text : String) (entries : List (String × α)) : Option α :=
  (entries.find? fun e => Text.contains text e.1).map (·.2)

/-- The failure that a statement meets. -/
def failure? (r : Recorder) (text : String) : Option Failure :=
  (lookup text r.failures).map .driver

/-- The rows that a statement is answered with. -/
def response (r : Recorder) (text : String) : Rows :=
  match lookup text r.responses with
  | some values => .ofValues values
  | none => .empty

/-- The answer to a statement without rows: it changes none. -/
def unchanged : ExecResult := ⟨none, some 0⟩

/-- Puts something in place of a transaction. -/
def replace (r : Recorder) (id : Nat) (t : Open) : Recorder :=
  { r with transactions := r.transactions.set id t }

/-- Counts a ping. -/
def ping : Action Recorder Unit := .ofStep fun r =>
  let r := { r with pings := r.pings + 1 }
  match r.pingFailure with
  | some message => (.error (.driver message), r)
  | none => (.ok (), r)

/-- Receives a statement outside any transaction. -/
def receive (text : String) (args : List Value) : Action Recorder Rows := .ofStep fun r =>
  match r.failure? text with
  | some f => (.error f, r)
  | none =>
    (.ok (r.response text), { r with statements := r.statements ++ [⟨text, args, false⟩] })

/-- Opens a transaction and answers with its number. -/
def begin : Action Recorder Nat := .ofStep fun r =>
  (.ok r.transactions.length,
    { r with begins := r.begins + 1, transactions := r.transactions ++ [⟨[], true⟩] })

/-- Does something with a transaction that is open. -/
def withOpen {α : Type} (id : Nat) (step : Recorder → Open → Except Failure α × Recorder) :
    Action Recorder α := .ofStep fun r =>
  match r.transactions[id]? with
  | some t => if t.isOpen then step r t else (.error .transactionAlreadyClosed, r)
  | none => (.error .transactionAlreadyClosed, r)

/-- Receives a statement inside a transaction. -/
def receiveIn (id : Nat) (text : String) (args : List Value) : Action Recorder Rows :=
  withOpen id fun r t =>
    match r.failure? text with
    | some f => (.error f, r)
    | none =>
      (.ok (r.response text), r.replace id { t with waiting := t.waiting ++ [⟨text, args, true⟩] })

/-- Commits a transaction, unless commits fail; it is open then still. -/
def commit (id : Nat) : Action Recorder Unit :=
  withOpen id fun r t =>
    match r.commitFailure with
    | some message => (.error (.driver message), r)
    | none =>
      (.ok (), { r.replace id ⟨[], false⟩ with
        statements := r.statements ++ t.waiting, commits := r.commits + 1 })

/-- Drops the statements of a transaction. -/
def rollback (id : Nat) : Action Recorder Unit :=
  withOpen id fun r _ =>
    (.ok (), { r.replace id ⟨[], false⟩ with rollbacks := r.rollbacks + 1 })

variable {σ : Type}

/-- A transaction of a recorder that is part of a state. -/
def transaction (place : Part σ Recorder) (id : Nat) : Transaction σ where
  query token text args := do
    token.check
    place.lift (receiveIn id text args)
  exec token text args := do
    token.check
    let _ ← place.lift (receiveIn id text args)
    return unchanged
  commit := place.lift (commit id)
  rollback := place.lift (rollback id)

/-- A recorder that is part of a state, in the place of a product. -/
def backend (driver : Driver) (place : Part σ Recorder) : Backend σ where
  driver := driver
  ping _ := place.lift ping
  query token text args := do
    token.check
    place.lift (receive text args)
  exec token text args := do
    token.check
    let _ ← place.lift (receive text args)
    return unchanged
  begin token := do
    token.check
    place.lift begin
  transaction _ id := transaction place id
  close := pure ()

end Recorder

end SchemaMigration
