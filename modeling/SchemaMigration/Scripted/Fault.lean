import SchemaMigration.Connection
import SchemaMigration.Scripted.Rule
/-! # Faults

A fault is a failure that is provoked: it waits for a statement with a given fragment, or for
the begin or the end of a transaction. It strikes before the product hears of the call. -/
namespace SchemaMigration.Scripted

/-- What happens when a fault strikes. -/
inductive Blow where
  | failure (f : Failure)
  /-- Raises the token of the call, which goes on. -/
  | cancel
  deriving Repr

/-- A provoked failure. -/
abbrev Fault := Rule Blow

namespace Fault

variable {σ : Type}

/-- Lets the first fault that waits for a text strike. -/
def meet (faults : Part σ (List Fault)) (cancel : Action σ Unit) (text : String) :
    Action σ Unit := do
  let (blow, left) := Rule.consult text (← faults.read)
  faults.write left
  match blow with
  | none => return ()
  | some (.failure f) => throw f
  | some .cancel => cancel

/-- What stands for the begin of a transaction, for a commit and for a rollback. -/
def beginText : String := "<begin>"
def commitText : String := "<commit>"
def rollbackText : String := "<rollback>"

/-- What may come between a call and the product: it is given the action that cancels the
call, and the text of the call. -/
abbrev Obstacle (σ : Type) := Action σ Unit → String → Action σ Unit

/-- A transaction behind an obstacle. -/
def transactionBehind (o : Obstacle σ) (t : Transaction σ) : Transaction σ where
  query token text args := do
    o token.cancel text
    t.query token text args
  exec token text args := do
    o token.cancel text
    t.exec token text args
  commit := do
    o (pure ()) commitText
    t.commit
  rollback := do
    o (pure ()) rollbackText
    t.rollback

/-- A backend behind an obstacle. -/
def behind (o : Obstacle σ) (b : Backend σ) : Backend σ where
  driver := b.driver
  ping := b.ping
  query token text args := do
    o token.cancel text
    b.query token text args
  exec token text args := do
    o token.cancel text
    b.exec token text args
  begin token := do
    o token.cancel beginText
    b.begin token
  transaction token id := transactionBehind o (b.transaction token id)
  close := b.close

/-- A backend with faults in front. -/
def guard (faults : Part σ (List Fault)) (b : Backend σ) : Backend σ := behind (meet faults) b

end Fault

end SchemaMigration.Scripted
