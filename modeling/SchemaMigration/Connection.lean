import SchemaMigration.Context
import SchemaMigration.Dsn
/-! # Connections

A backend speaks to one product. A connection adds what all of them share: a ping that is not
repeated once it succeeded, statements that go to the transaction of their context, and
transactions that always end in a commit or a rollback. -/
namespace SchemaMigration

variable {σ α : Type}

/-- What a product offers. -/
structure Backend (σ : Type) where
  driver : Driver
  /-- Finds out whether the server answers. -/
  ping : Token σ → Action σ Unit
  /-- Runs a statement that returns rows. -/
  query : Token σ → String → List Value → Action σ Rows
  /-- Runs a statement that returns no rows. -/
  exec : Token σ → String → List Value → Action σ ExecResult
  /-- Opens a transaction and answers with its number. -/
  begin : Token σ → Action σ Nat
  /-- The transaction with a number, which was opened under a token. -/
  transaction : Token σ → Nat → Transaction σ
  /-- Lets go of the server. -/
  close : Action σ Unit

/-- A backend that tells of every statement before it runs. -/
def Backend.heard (hear : String → Action σ Unit) (b : Backend σ) : Backend σ :=
  { b with
    query := fun token text args => do
      hear text
      b.query token text args
    exec := fun token text args => do
      hear text
      b.exec token text args
    transaction := fun token id =>
      let t := b.transaction token id
      { t with
        query := fun token text args => do
          hear text
          t.query token text args
        exec := fun token text args => do
          hear text
          t.exec token text args } }

/-- A connection to the target of migrations. -/
structure Connection (σ : Type) where
  dsn : Dsn
  backend : Backend σ
  /-- Whether a ping has succeeded. -/
  reached : Part σ Bool

namespace Connection

/-- The product at the other end. -/
def driver (c : Connection σ) : Driver := c.backend.driver

/-- Finds out whether the server answers, unless it is known to. -/
def ping (c : Connection σ) (ctx : Context σ) : Action σ Unit := do
  unless ← c.reached.read do
    c.backend.ping ctx.token
    c.reached.write true

/-- Runs a statement that returns rows, in the transaction of the context if there is one. -/
def query (c : Connection σ) (ctx : Context σ) (text : String) (args : List Value) :
    Action σ Rows := do
  ctx.token.check
  match ctx.transaction with
  | some t => t.query ctx.token text args
  | none => c.backend.query ctx.token text args

/-- Runs a statement that returns no rows, in the transaction of the context if there is
one. -/
def exec (c : Connection σ) (ctx : Context σ) (text : String) (args : List Value) :
    Action σ ExecResult := do
  ctx.token.check
  match ctx.transaction with
  | some t => t.exec ctx.token text args
  | none => c.backend.exec ctx.token text args

theorem perform_query (c : Connection σ) (ctx : Context σ) (text : String) (args : List Value)
    (s : σ) : (c.query ctx text args).perform s =
      if ctx.token.isRaised s then (.error .cancelled, s)
      else (match ctx.transaction with
        | some t => t.query ctx.token text args
        | none => c.backend.query ctx.token text args).perform s := by
  rw [query, Action.perform_bind, Token.perform_check]
  by_cases h : ctx.token.isRaised s
  · rw [if_pos h, if_pos h]
  · rw [if_neg h, if_neg h]

theorem perform_exec (c : Connection σ) (ctx : Context σ) (text : String) (args : List Value)
    (s : σ) : (c.exec ctx text args).perform s =
      if ctx.token.isRaised s then (.error .cancelled, s)
      else (match ctx.transaction with
        | some t => t.exec ctx.token text args
        | none => c.backend.exec ctx.token text args).perform s := by
  rw [exec, Action.perform_bind, Token.perform_check]
  by_cases h : ctx.token.isRaised s
  · rw [if_pos h, if_pos h]
  · rw [if_neg h, if_neg h]

/-- Ends a transaction after its body: a failed body is rolled back, and so is a failed
commit, whose rollback is not reported. -/
def settle (t : Transaction σ) : Except Failure Unit → Action σ Unit
  | .error f => do
    match ← t.rollback.outcome with
    | .ok () => throw f
    | .error r => throw (.rollback f r)
  | .ok () => do
    match ← t.commit.outcome with
    | .ok () => return ()
    | .error f =>
      let _ ← t.rollback.outcome
      throw (.commit f)

/-- The context of the calls inside the transaction with a number. -/
def opened (c : Connection σ) (ctx : Context σ) (id : Nat) : Context σ :=
  ctx.inside (c.backend.transaction ctx.token id)

/-- Runs a body inside a new transaction. A context that has one already is refused before
anything begins. -/
def transaction (c : Connection σ) (ctx : Context σ) (body : Context σ → Action σ Unit) :
    Action σ Unit :=
  match ctx.transaction with
  | some _ => throw .transactionAlreadyOpened
  | none => do
    ctx.token.check
    let id ← c.backend.begin ctx.token
    let r ← (body (c.opened ctx id)).outcome
    settle (c.backend.transaction ctx.token id) r

/-- Lets go of the server. -/
def close (c : Connection σ) : Action σ Unit := c.backend.close

end Connection

end SchemaMigration
