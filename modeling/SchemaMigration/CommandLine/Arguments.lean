import SchemaMigration.CommandLine.Parameter
/-! # Arguments

A command line is read word by word: options, then the name of a command, then at most
one operand of it. Letters may share a dash, and a value may stand in the word of its
option or be the next word. After two dashes alone every word is an operand. -/
namespace SchemaMigration.CommandLine

/-- What is to be done with the target. A limit is kept as it was written. -/
inductive Task where
  | up (limit : Option String)
  | down (limit : Option String)
  | redo (limit : Option String)
  | history (limit : Option String)
  | pending (limit : Option String)
  | moveTo (version : String)
  deriving DecidableEq, Repr

/-- What a run is to do. -/
inductive Command where
  /-- Makes the files of a migration with a name. -/
  | create (name : String)
  | migrate (task : Task)
  deriving DecidableEq, Repr

/-- What a command line asks for. -/
inductive Request where
  | help
  | version
  | run (settings : Settings) (command : Command)
  deriving DecidableEq, Repr

/-- The kinds of words. -/
inductive Word where
  /-- Two dashes alone. -/
  | escape
  | long (name : String) (value : Option String)
  | short (letters : List Char)
  | plain (text : String)
  deriving DecidableEq, Repr

/-- The kind of a word. A dash alone is plain. -/
def Word.ofString (s : String) : Word :=
  match s.toList with
  | ['-', '-'] => .escape
  | '-' :: '-' :: rest =>
    match Text.cutFirst '=' rest with
    | some (name, value) => .long (String.ofList name) (some (String.ofList value))
    | none => .long (String.ofList rest) none
  | '-' :: c :: rest => .short (c :: rest)
  | _ => .plain s

/-- Where the reading stands after a word of options. -/
inductive Progress where
  | ready (g : Given)
  /-- The value of a parameter is the next word. -/
  | awaiting (g : Given) (p : Parameter)
  | ended (r : Request)

/-- Reads a long option. -/
def readLong (g : Given) (name : String) (value : Option String) : Except Misuse Progress :=
  match name, value, Parameter.ofLongName? name with
  | "help", none, _ => .ok (.ended .help)
  | "version", none, _ => .ok (.ended .version)
  | _, _, none => .error (.unknownOption ("--" ++ name))
  | _, some value, some p =>
    if p.isFlag then .error (.unexpected value) else .ready <$> g.add p value
  | _, none, some p =>
    if p.isFlag then .ready <$> g.add p "true" else .ok (.awaiting g p)

/-- Reads letters that share a dash. An option with a value takes the letters after it as
that value, without an equality sign in front. -/
def readLetters (g : Given) : List Char → Except Misuse Progress
  | [] => .ok (.ready g)
  | 'h' :: _ => .ok (.ended .help)
  | 'V' :: _ => .ok (.ended .version)
  | c :: rest =>
    match Parameter.ofLetter? c with
    | none => .error (.unknownOption ("-" ++ c.toString))
    | some p =>
      if p.isFlag then do readLetters (← g.add p "true") rest
      else match rest with
        | [] => .ok (.awaiting g p)
        | '=' :: value => .ready <$> g.add p (String.ofList value)
        | value => .ready <$> g.add p (String.ofList value)

/-- Reads the words after the name of a command: one operand at most, and nothing when help is
asked for. -/
def readOperand (escaped : Bool) (found : Option String) :
    List String → Except Misuse (Option (Option String))
  | [] => .ok (some found)
  | w :: rest =>
    match escaped, Word.ofString w, found with
    | false, .escape, _ => readOperand true found rest
    | false, .long "help" none, _ => .ok none
    | false, .short ('h' :: _), _ => .ok none
    | false, .long _ _, _ => .error (.unknownOption w)
    | false, .short _, _ => .error (.unknownOption w)
    | _, _, none => readOperand escaped (some w) rest
    | _, _, some _ => .error (.unexpected w)

/-- The command with a name and its operand. -/
def commandOf (name : String) (operand : Option String) : Except Misuse Command :=
  match name, operand with
  | "create", some name => .ok (.create name)
  | "to", some version => .ok (.migrate (.moveTo version))
  | "up", limit => .ok (.migrate (.up limit))
  | "down", limit => .ok (.migrate (.down limit))
  | "redo", limit => .ok (.migrate (.redo limit))
  | "history", limit => .ok (.migrate (.history limit))
  | "new", limit => .ok (.migrate (.pending limit))
  | name, _ => .error (.operandMissing name)

/-- The names of the commands. -/
def commandNames : List String := ["create", "up", "down", "redo", "history", "new", "to"]

/-- Ends the reading with a command. -/
def conclude (environment : List (String × String)) (g : Given) (command : Command) :
    Except Misuse Request := do
  return .run (.ofGiven (← g.complete environment)) command

/-- Reads the words after the request for help: the name of a command, or nothing. -/
def readHelp : List String → Except Misuse Request
  | [] => .ok .help
  | [w] => if w = "help" ∨ commandNames.contains w then .ok .help else .error (.unknownCommand w)
  | _ :: w :: _ => .error (.unknownCommand w)

/-- Reads a command. -/
def readCommand (environment : List (String × String)) (g : Given) (name : String)
    (words : List String) : Except Misuse Request :=
  if name = "help" then readHelp words
  else if commandNames.contains name then do
    match ← readOperand false none words with
    | none => return .help
    | some operand => conclude environment g (← commandOf name operand)
  else .error (.unknownCommand name)

/-- Reads options, and then the command; without one everything pending is applied. -/
def readWords (environment : List (String × String)) :
    Progress → List String → Except Misuse Request
  | .ended r, _ => .ok r
  | .awaiting _ p, [] => .error (.valueMissing p)
  | .awaiting g p, w :: rest =>
    match Word.ofString w with
    | .plain text => do readWords environment (.ready (← g.add p text)) rest
    | _ => .error (.valueMissing p)
  | .ready g, [] => conclude environment g (.migrate (.up none))
  | .ready g, w :: rest =>
    match Word.ofString w with
    | .escape =>
      match rest with
      | [] => conclude environment g (.migrate (.up none))
      | w :: _ => .error (.unexpected w)
    | .long name value => do readWords environment (← readLong g name value) rest
    | .short letters => do readWords environment (← readLetters g letters) rest
    | .plain name => readCommand environment g name rest

/-- Reads a command line in an environment. -/
def Request.read (environment : List (String × String)) (arguments : List String) :
    Except Misuse Request :=
  readWords environment (.ready .empty) arguments

end SchemaMigration.CommandLine
