import SchemaMigration.Text.Utf8
/-! # A greeting

The two lines with which a scripted server opens a link: its name, and a salt of 32 bytes,
each of them seven. -/
namespace SchemaMigration.Scripted

/-- A line of a greeting: 63 characters and the end of the line. -/
def greetingLine (s : String) : String :=
  String.ofList (s.toList ++ List.replicate (63 - s.length) ' ' ++ ['\n'])

/-- The salt, thirty bytes of it in groups of three. -/
def saltLine : String := String.join (List.replicate 10 "BwcH") ++ "Bwc="

/-- The bytes of the greeting. -/
def greeting : List UInt8 :=
  Text.Utf8.encodeString
    (greetingLine "Tarantool 2.11.1 (Binary) 7d6c0a1e-0000-0000-0000-000000000000" ++
      greetingLine saltLine)

end SchemaMigration.Scripted
