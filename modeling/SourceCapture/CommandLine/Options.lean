/-
Options among the words of a command line. An option has a name after two dashes and may
have a letter after one. A value follows in the next word, after an equals sign, or right
after the letter; letters of options without values may share one word. Two dashes alone
end the options. A level reads words up to the first one that names a command of its own,
which reads the rest.
-/

namespace SourceCapture.CommandLine

/-- Why reading ends before there is anything to run. -/
inductive Stop where
  /-- A reader asks for help. -/
  | help
  /-- A reader asks for the version. -/
  | version
  /-- The words make no sense. -/
  | misuse
  deriving Repr, DecidableEq, Inhabited

/-- What an option is for. -/
inductive OptionUse where
  /-- It is there or not. -/
  | flag
  /-- It has a value, which must pass a test. -/
  | value (isValid : String → Bool)
  /-- It has a value and may be given more than once. -/
  | list
  /-- It ends the reading. -/
  | stop (reason : Stop)

/-- An option that may be given. -/
structure CommandOption where
  name : String
  letter : Option Char := none
  use : OptionUse

/-- What was given at one level: options with their values, and the other words. -/
structure Given where
  options : List (String × String) := []
  words : List String := []
  deriving Repr, DecidableEq, Inhabited

namespace Given

/-- Every value of an option, in order. -/
def values (given : Given) (name : String) : List String :=
  (given.options.filter (·.1 = name)).map (·.2)

/-- The value of an option. -/
def value? (given : Given) (name : String) : Option String := (given.values name).head?

/-- Whether an option was given. -/
def has (given : Given) (name : String) : Bool := (given.value? name).isSome

/-- Notes an option. -/
def note (given : Given) (name value : String) : Given :=
  { given with options := given.options ++ [(name, value)] }

/-- Takes an option with a value, which is empty for a flag. Only a list may be given more
than once. -/
def take (given : Given) (option : CommandOption) (value : String) : Except Stop Given :=
  match option.use with
  | .flag => if given.has option.name then .error .misuse else .ok (given.note option.name value)
  | .value isValid =>
    if given.has option.name || !isValid value then .error .misuse
    else .ok (given.note option.name value)
  | .list => .ok (given.note option.name value)
  | .stop reason => .error reason

/-- Takes a word that is no option, if there is room for one more. -/
def takeWord (limit : Nat) (given : Given) (word : String) : Except Stop Given :=
  if given.words.length < limit then .ok { given with words := given.words ++ [word] }
  else .error .misuse

end Given

/-- A word by its looks. -/
inductive Word where
  /-- Two dashes alone. -/
  | endOfOptions
  /-- The name of an option, with a value if there is an equals sign. -/
  | named (name : List Char) (value? : Option (List Char))
  /-- Letters of options. -/
  | letters (letters : List Char)
  | plain
  deriving Repr, DecidableEq, Inhabited

namespace Word

/-- Reads a word. A dash alone is a plain word. -/
def ofText : List Char → Word
  | ['-', '-'] => .endOfOptions
  | '-' :: '-' :: rest =>
    match rest.dropWhile (· ≠ '=') with
    | [] => .named rest none
    | _ :: value => .named (rest.takeWhile (· ≠ '=')) (some value)
  | ['-'] => .plain
  | '-' :: rest => .letters rest
  | _ => .plain

end Word

/-- What may be given at one level of a command line. -/
structure Level where
  options : List CommandOption := []
  /-- How many words there may be that are no options. -/
  wordLimit : Nat := 0
  /-- The words that name a command of this level. -/
  commands : List String := []

/-- What was given up to a command, and the command with the words after it. -/
structure Reading where
  given : Given
  command? : Option (String × List String) := none
  deriving Repr, DecidableEq, Inhabited

namespace Level

/-- Reads letters of options. An option that still needs its value from the next word is
the second part of the result. -/
def readLetters (level : Level) :
    List Char → Given → Except Stop (Given × Option CommandOption)
  | [], given => .ok (given, none)
  | letter :: rest, given =>
    match level.options.find? (·.letter = some letter) with
    | none => .error .misuse
    | some option =>
      match option.use with
      | .flag => do readLetters level rest (← given.take option "")
      | .stop reason => .error reason
      | _ =>
        match rest with
        | [] => .ok (given, some option)
        | '=' :: value => (given.take option (String.ofList value)).map (·, none)
        | value => (given.take option (String.ofList value)).map (·, none)

/-- Reads the name of an option, with a value if there is an equals sign. -/
def readNamed (level : Level) (given : Given) (name : List Char) (value? : Option (List Char)) :
    Except Stop (Given × Option CommandOption) :=
  match level.options.find? (·.name.toList = name) with
  | none => .error .misuse
  | some option =>
    match option.use, value? with
    | .flag, none => (given.take option "").map (·, none)
    | .stop reason, none => .error reason
    | .flag, some _ => .error .misuse
    | .stop _, some _ => .error .misuse
    | _, some value => (given.take option (String.ofList value)).map (·, none)
    | _, none => .ok (given, some option)

/-- Reads words up to the first command. The option is the one whose value the next word
must be. -/
def read (level : Level) : List String → Option CommandOption → Given → Except Stop Reading
  | [], none, given => .ok { given := given }
  | [], some _, _ => .error .misuse
  | word :: rest, some option, given =>
    match Word.ofText word.toList with
    | .plain => do read level rest none (← given.take option word)
    | _ => .error .misuse
  | word :: rest, none, given =>
    match Word.ofText word.toList with
    | .endOfOptions =>
      (rest.foldlM (Given.takeWord level.wordLimit) given).map fun taken => { given := taken }
    | .named name value? => do
      let (taken, pending) ← level.readNamed given name value?
      read level rest pending taken
    | .letters letters => do
      let (taken, pending) ← level.readLetters letters given
      read level rest pending taken
    | .plain =>
      if level.commands.contains word then
        .ok { given := given, command? := some (word, rest) }
      else do
        read level rest none (← given.takeWord level.wordLimit word)

end Level

end SourceCapture.CommandLine
