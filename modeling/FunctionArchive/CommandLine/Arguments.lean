import FunctionArchive.CommandLine.Flag
import FunctionArchive.Text.Blank
import FunctionArchive.Text.Quoted

/-!
# Arguments

The arguments of a call are read from left to right. A value follows its flag as the next argument,
behind an equals sign, or directly behind a short name; an argument that starts with a dash is never
taken for the value of the flag before it. A flag is settled when the next known flag turns up, or
at the end, so a flag that is not known counts before whatever is wrong with the value in front of
it. Calls for help end the reading at once, and what must be given is looked at last.
-/

set_option autoImplicit false

namespace FunctionArchive.CommandLine

/-- What a call asks for. -/
structure Arguments where
  /-- The directories with functions. -/
  sources : List Path := []
  /-- Where archives are written. -/
  output : Option Path := none
  strategy : Option StrategyChoice := none
  concurrency : Option Nat := none
  external : List String := []
  ignore : List String := []
  archiveFormat : Option ArchiveFormat := none
  /-- The configuration file. -/
  config : Option Path := none
  /-- Whether functions are only listed. -/
  list : Bool := false
deriving DecidableEq, Repr

/-- Why the arguments of a call are not carried out. -/
inductive Halt
  /-- Help is asked for, in full or in short. -/
  | help (full : Bool)
  /-- The version is asked for. -/
  | version
  /-- An argument that is neither a flag nor a value. -/
  | unknown (argument : String)
  /-- A flag without its value, or with an empty path. -/
  | missingValue (flag : Flag)
  /-- A value that is none of the choices. -/
  | noChoice (flag : Flag) (value : String)
  /-- A value that is no number. -/
  | noNumber (flag : Flag) (value : String)
  /-- A value for a flag that takes none. -/
  | needlessValue (flag : Flag) (value : String)
  /-- A flag that is given twice and may not be. -/
  | repeated (flag : Flag)
  /-- Flags that must be given. -/
  | required (flags : List Flag)
deriving DecidableEq, Repr

namespace Arguments

/-! ## Values -/

/-- The first number that is too large. -/
def numberBound : Nat := 0x10000000000000000

/-- The number that digits stand for; a plus sign may stand in front. -/
def number? (text : String) : Option Nat :=
  let digits := match text.toList with
    | '+' :: rest => rest
    | chars => chars
  let n := digits.foldl (fun n c => n * 10 + (c.toNat - '0'.toNat)) 0
  if !digits.isEmpty && digits.all Char.isDigit && n < numberBound then some n else none

/-- A path that is not empty. -/
def readPath (flag : Flag) (text : String) : Except Halt Path :=
  if text.isEmpty then .error (.missingValue flag) else .ok (.ofString text)

/-- One of some choices. -/
def readChoice {α : Type} (flag : Flag) (ofName? : String → Option α) (text : String) :
    Except Halt α :=
  match ofName? text with
  | some choice => .ok choice
  | none => .error (.noChoice flag text)

/-- Stores the value of a flag. -/
def setValue (a : Arguments) (text : String) : Flag → Except Halt Arguments
  | .source => do return { a with sources := a.sources ++ [← readPath .source text] }
  | .output => do return { a with output := some (← readPath .output text) }
  | .strategy => do
    return { a with strategy := some (← readChoice .strategy StrategyChoice.ofName? text) }
  | .concurrency =>
    match number? text with
    | some n => .ok { a with concurrency := some n }
    | none => .error (.noNumber .concurrency text)
  | .external => .ok { a with external := a.external ++ [text] }
  | .ignore => .ok { a with ignore := a.ignore ++ [text] }
  | .archiveFormat => do
    return { a with
      archiveFormat := some (← readChoice .archiveFormat ArchiveFormat.ofName? text) }
  | .config => do return { a with config := some (← readPath .config text) }
  | .list | .help | .version => .ok a

/-! ## Reading -/

/-- A flag that takes a value and is not settled yet. -/
structure Pending where
  flag : Flag
  value : Option String
deriving DecidableEq, Repr

/-- How far the arguments have been read. -/
structure Progress where
  arguments : Arguments
  /-- The flags that have been settled. -/
  given : List Flag
  pending : Option Pending
deriving DecidableEq, Repr

namespace Progress

/-- Notes that a flag is given. -/
def give (p : Progress) (flag : Flag) : Except Halt Progress :=
  if p.given.contains flag && !flag.isRepeatable then .error (.repeated flag)
  else .ok { p with given := flag :: p.given }

/-- Settles a flag that takes a value. -/
def accept (p : Progress) (flag : Flag) (value : Option String) : Except Halt Progress := do
  match value with
  | none => .error (.missingValue flag)
  | some text =>
    let p ← p.give flag
    return { p with arguments := ← p.arguments.setValue text flag }

/-- Settles the flag before, if one is pending. -/
def settle (p : Progress) : Except Halt Progress :=
  match p.pending with
  | none => .ok p
  | some ⟨flag, value⟩ => { p with pending := none }.accept flag value

/-- Meets a flag that stands alone. -/
def meet (p : Progress) (flag : Flag) (byName : Bool) : Except Halt Progress := do
  let p ← p.settle
  match flag with
  | .help => .error (.help byName)
  | .version => .error .version
  | _ => do
    let p ← p.give flag
    return { p with arguments := { p.arguments with list := true } }

/-- Meets a flag that takes a value, which may be attached to it. -/
def meetValued (p : Progress) (flag : Flag) (attached : Option String) : Except Halt Progress := do
  let p ← p.settle
  match attached with
  | some text => p.accept flag (some text)
  | none => return { p with pending := some ⟨flag, none⟩ }

/-- Reads an argument that starts with two dashes, which are left out. -/
def readLong (p : Progress) (chars : List Char) : Except Halt Progress :=
  let name := String.ofList (chars.takeWhile (· != '='))
  let attached := match chars.dropWhile (· != '=') with
    | _ :: value => some (String.ofList value)
    | [] => none
  match Flag.ofName? name with
  | none => .error (.unknown s!"--{name}")
  | some flag =>
    if flag.takesValue then p.meetValued flag attached
    else
      match attached with
      | some value => .error (.needlessValue flag value)
      | none => p.meet flag true

/-- The value directly behind a short name, with or without an equals sign. -/
def attachedTo : List Char → Option String
  | [] => none
  | '=' :: rest => some (String.ofList rest)
  | rest => some (String.ofList rest)

/-- Reads the letters of an argument that starts with one dash. -/
def readShort (p : Progress) : List Char → Except Halt Progress
  | [] => .ok p
  | letter :: rest =>
    match Flag.ofLetter? letter with
    | none => .error (.unknown s!"-{letter}")
    | some flag =>
      if flag.takesValue then p.meetValued flag (attachedTo rest)
      else do
        let p ← p.meet flag false
        readShort p rest

/-- Reads an argument that is no flag: the value of a flag that waits for one. -/
def readPlain (p : Progress) (text : String) : Except Halt Progress :=
  match p.pending with
  | some ⟨flag, none⟩ => .ok { p with pending := some ⟨flag, some text⟩ }
  | _ => .error (.unknown text)

/-- Reads the arguments one after the other. Behind two dashes alone there are no flags, and nothing
may follow. -/
def readAll (p : Progress) : List String → Except Halt Progress
  | [] => p.settle
  | text :: rest =>
    match text.toList with
    | ['-', '-'] =>
      match rest with
      | [] => p.settle
      | next :: _ => .error (.unknown next)
    | '-' :: '-' :: chars => do readAll (← p.readLong chars) rest
    | ['-'] => do readAll (← p.readPlain text) rest
    | '-' :: chars => do readAll (← p.readShort chars) rest
    | _ => do readAll (← p.readPlain text) rest

end Progress

/-- The flags that must be given and are not: the sources, and the output unless functions are only
listed. -/
def lacking (a : Arguments) : List Flag :=
  (if a.sources.isEmpty then [.source] else []) ++
    (if a.output.isNone && !a.list then [.output] else [])

/-- Reads the arguments of a call. -/
def read (texts : List String) : Except Halt Arguments := do
  let p ← Progress.readAll ⟨{}, [], none⟩ texts
  if p.arguments.lacking.isEmpty then return p.arguments
  else .error (.required p.arguments.lacking)

/-! ## Soundness -/

/-- Why arguments that can be read make no sense. -/
inductive Flaw
  | noConcurrency
  | emptyModule (name : String)
deriving DecidableEq, Repr

/-- The wording of a flaw. -/
def Flaw.message : Flaw → String
  | .noConcurrency => "--concurrency must be at least 1"
  | .emptyModule name => s!"Module names cannot be empty: {Text.quote name}"

/-- What is wrong with the arguments, if anything is. -/
def flaw? (a : Arguments) : Option Flaw :=
  if a.concurrency == some 0 then some .noConcurrency
  else ((a.external ++ a.ignore).find? Text.isBlankText).map .emptyModule

end Arguments

end FunctionArchive.CommandLine
