import SchemaMigration.Text.Cut
/-! # Rules

A rule gives an answer to the texts that hold its trigger. It may be good for a number of
uses only. Of several rules the first one that fits and has uses left answers. -/
namespace SchemaMigration.Scripted

/-- An answer to texts that hold a trigger. -/
structure Rule (α : Type) where
  trigger : String
  answer : α
  /-- How often the rule still answers, if that is bounded. -/
  left : Option Nat
  deriving Repr

namespace Rule

variable {α : Type}

/-- Whether a rule answers a text. -/
def fits (text : String) (r : Rule α) : Bool :=
  r.left != some 0 && Text.contains text r.trigger

/-- A rule that was used. -/
def spend (r : Rule α) : Rule α := { r with left := r.left.map (· - 1) }

/-- The answer to a text, and the rules after it. -/
def consult (text : String) : List (Rule α) → Option α × List (Rule α)
  | [] => (none, [])
  | r :: rs =>
    if r.fits text then (some r.answer, r.spend :: rs)
    else
      let (answer, rs) := consult text rs
      (answer, r :: rs)

end Rule

end SchemaMigration.Scripted
