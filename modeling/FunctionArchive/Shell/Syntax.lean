import FunctionArchive.Glob

/-!
# Shell scripts

The part of the language of shell scripts that drivers of tools are written in: commands with
redirections, variables and what can be cut off their values, `for`, `case` and `if`.
-/

set_option autoImplicit false

namespace FunctionArchive.Shell

/-- What is cut off the value of a variable. -/
structure Cut where
  /-- Whether it is cut off at the end and not in front. -/
  fromEnd : Bool
  /-- Whether as much as possible is cut off. -/
  longest : Bool
  pattern : List Glob.Token
deriving DecidableEq, Repr

/-- A part of a word. -/
inductive Part
  /-- Text in which no character has a meaning. -/
  | literal (text : String)
  /-- Text in which some characters make a pattern. -/
  | plain (text : String)
  /-- The value of a variable; unless it is quoted, it is split at blanks. -/
  | variable (name : String) (cut : Option Cut) (quoted : Bool)
deriving DecidableEq, Repr

/-- A word, before its variables are replaced. -/
abbrev Word := List Part

/-- Where a stream of a command goes or comes from. -/
inductive Redirection
  /-- Into a file, which is emptied first unless it is added to. -/
  | write (stream : Nat) (file : Word) (append : Bool)
  /-- To where another stream goes. -/
  | duplicate (stream : Nat) (target : Word)
  /-- From a file. -/
  | read (file : Word)
  /-- From a text in the script. -/
  | document (text : Word)
deriving DecidableEq, Repr

/-- A command of a script. -/
inductive Statement
  /-- Variables that are set, and a program with its arguments. -/
  | simple (settings : List (String × Word)) (words : List Word)
  /-- Goes through words, or through the arguments of the script. -/
  | forEach (name : String) (words : Option (List Word)) (body : List Statement)
  /-- Does what belongs to the first pattern that describes a word. -/
  | cases (subject : Word) (branches : List (List Word × List Statement))
  /-- Decides by the end of some commands. -/
  | choose (condition thenDo elseDo : List Statement)
  /-- Does the second only if the first ends well, or only if it does not. -/
  | either (first : Statement) (onSuccess : Bool) (second : Statement)
  | group (body : List Statement)
  /-- A command with its streams redirected. -/
  | redirected (body : Statement) (redirections : List Redirection)

instance : Inhabited Statement := ⟨.group []⟩

end FunctionArchive.Shell
