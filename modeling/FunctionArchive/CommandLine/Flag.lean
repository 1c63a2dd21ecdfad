import FunctionArchive.Settings

/-!
# Flags

What can stand on the command line: flags that take a value, once or repeatedly, and flags that
stand alone. Each has a long name, and some have a short one of a single letter.
-/

set_option autoImplicit false

namespace FunctionArchive.CommandLine

/-- A flag of the command line. -/
inductive Flag
  | source
  | output
  | strategy
  | concurrency
  | external
  | ignore
  | archiveFormat
  | config
  | list
  | help
  | version
deriving DecidableEq, Repr

namespace Flag

/-- All flags, in the order in which help texts list them. -/
def all : List Flag :=
  [.source, .output, .strategy, .concurrency, .external, .ignore, .archiveFormat, .config, .list,
    .help, .version]

/-- The long name, which two dashes announce. -/
def name : Flag → String
  | .source => "source"
  | .output => "output"
  | .strategy => "strategy"
  | .concurrency => "concurrency"
  | .external => "external"
  | .ignore => "ignore"
  | .archiveFormat => "archive-format"
  | .config => "config"
  | .list => "list"
  | .help => "help"
  | .version => "version"

/-- The short name, which one dash announces. -/
def letter? : Flag → Option Char
  | .source => some 's'
  | .output => some 'o'
  | .concurrency => some 'j'
  | .config => some 'c'
  | .help => some 'h'
  | .version => some 'V'
  | _ => none

/-- What the value of a flag is called, if it takes one. -/
def valueName? : Flag → Option String
  | .source | .output => some "DIR"
  | .strategy => some "STRATEGY"
  | .concurrency => some "N"
  | .external | .ignore => some "MODULE"
  | .archiveFormat => some "FORMAT"
  | .config => some "FILE"
  | _ => none

/-- Whether a flag takes a value. -/
def takesValue (f : Flag) : Bool := f.valueName?.isSome

/-- Whether a flag may be given several times. -/
def isRepeatable : Flag → Bool
  | .source | .external | .ignore => true
  | _ => false

/-- The flag of a long name. -/
def ofName? (text : String) : Option Flag :=
  all.find? (·.name == text)

/-- The flag of a short name. -/
def ofLetter? (letter : Char) : Option Flag :=
  all.find? (·.letter? == some letter)

/-- A flag with its value, as it is shown in messages. -/
def spelling (f : Flag) : String :=
  match f.valueName? with
  | some value => s!"--{f.name} <{value}>"
  | none => s!"--{f.name}"

end Flag

end FunctionArchive.CommandLine
