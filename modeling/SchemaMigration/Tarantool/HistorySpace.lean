import SchemaMigration.History.Dialect
/-! # History spaces on Tarantool

Statements are pieces of Lua; the arguments arrive in them as `...`. The space holds
versions with their times and has a second index, which lists them newest first. -/
namespace SchemaMigration.Tarantool

/-- The space that holds a history. -/
structure HistorySpace where
  name : String
  deriving DecidableEq, Repr

namespace HistorySpace

/-- The statements that make the space. -/
def create (s : HistorySpace) : List String :=
  ["box.schema.space.create('" ++ s.name ++ "', \x7bif_not_exists=true\x7d)",
    "box.space." ++ s.name
      ++ ":format(\x7b\x7bname='version', type='string'\x7d,"
      ++ " \x7bname='apply_time', type='unsigned'\x7d\x7d)",
    "box.space." ++ s.name
      ++ ":create_index('primary', \x7btype='TREE', parts=\x7b'version'\x7d,"
      ++ " if_not_exists=true\x7d)",
    "box.space." ++ s.name
      ++ ":create_index('apply_time', \x7btype='TREE', parts=\x7b'apply_time', 'version'\x7d,"
      ++ " if_not_exists=true\x7d)"]

/-- The options of a listing. -/
def listOptions (limit : Nat) : String :=
  if limit = 0 then "\x7biterator='LT'\x7d"
  else "\x7biterator='LT', limit=" ++ toString limit ++ "\x7d"

/-- Gives an error of the server the common shape. -/
def report (sent : String) (f : Failure) : Failure :=
  match f with
  | .tarantool code message => .server ⟨toString code, "ERR", message, "", sent⟩ f
  | f => f

/-- The statements for the space. -/
def dialect (s : HistorySpace) : Dialect where
  driver := .tarantool
  table := s.name
  alwaysSafe := false
  list limit := "return box.space." ++ s.name ++ ".index.apply_time:select(\x7b\x7d, "
    ++ listOptions limit ++ ")"
  probe := ⟨"return box.space." ++ s.name ++ " ~= nil", []⟩
  probeVerdict := .truth
  create := s.create
  drop := ["box.space." ++ s.name ++ ":drop()"]
  insert version time := [.plain
    ⟨"box.space." ++ s.name ++ ":insert\x7b...\x7d", [.text version, .int (Int64.ofInt time)]⟩]
  remove version _ := [.plain
    ⟨"box.space." ++ s.name ++ ":delete\x7b...\x7d", [.text version]⟩]
  count := "return box.space." ++ s.name ++ ":len()"
  contains version :=
    ⟨"return box.space." ++ s.name ++ ":count(..., \x7biterator='EQ'\x7d)", [.text version]⟩
  containsVerdict := .positive .u64
  report := report

end HistorySpace

end SchemaMigration.Tarantool
