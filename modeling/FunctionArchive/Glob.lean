/-!
# Shell patterns

Patterns over names and paths. `?` stands for one character, `*` for any run of characters, a
bracketed class for one character in it (or, after `!`, not in it), and `**` between separators
for any run of whole components. A separator is an ordinary character for `?`, `*` and classes,
and so is a leading dot.

`Pattern.read` refuses a class that is not closed and a `**` that is not a whole component, and
says where. `Pattern.matches` tries every run a star can stand for, by recursion on the pattern.
-/

set_option autoImplicit false

namespace FunctionArchive.Glob

/-- A member of a character class. -/
inductive Class
  | single (c : Char)
  | range (low high : Char)
deriving DecidableEq, Repr

/-- Whether a character belongs to this member. -/
def Class.contains : Class → Char → Bool
  | .single x, c => x == c
  | .range low high, c => low ≤ c && c ≤ high

/-- One element of a pattern. -/
inductive Token
  | char (c : Char)
  | anyChar
  | anySequence
  | anyComponents
  | within (members : List Class)
  | except (members : List Class)
deriving DecidableEq, Repr

/-- A pattern that has been read. -/
structure Pattern where
  tokens : List Token
deriving DecidableEq, Repr

/-- What can be wrong with a pattern. -/
inductive Flaw
  /-- Three stars or more. -/
  | wildcards
  /-- Two stars that are not a whole component. -/
  | recursiveWildcards
  /-- A class that is empty or not closed. -/
  | invalidRange
deriving DecidableEq, Repr

/-- A pattern that cannot be read, and the character at which that shows. -/
structure PatternError where
  position : Nat
  flaw : Flaw
deriving DecidableEq, Repr

/-- The wording of a flaw. -/
def Flaw.message : Flaw → String
  | .wildcards => "wildcards are either regular `*` or recursive `**`"
  | .recursiveWildcards => "recursive wildcards must form a single path component"
  | .invalidRange => "invalid range pattern"

/-- The wording of a refusal. -/
def PatternError.message (e : PatternError) : String :=
  s!"Pattern syntax error near position {e.position}: {e.flaw.message}"

/-! ## Reading a pattern -/

/-- The members of a class: a character, a dash and a character are a range. -/
def readClass : List Char → List Class
  | low :: '-' :: high :: rest => .range low high :: readClass rest
  | c :: rest => .single c :: readClass rest
  | [] => []

/-- A class up to its closing bracket, given what follows the opening one, and what follows the
class. The first member may itself be a closing bracket. -/
def takeClass? (chars : List Char) : Option (Token × List Char) :=
  let close (make : List Class → Token) (first : Char) (more : List Char) :=
    if more.contains ']' then
      let body := more.takeWhile (· != ']')
      some (make (readClass (first :: body)), more.drop (body.length + 1))
    else
      none
  match chars with
  | '!' :: first :: more => close .except first more
  | '!' :: [] => none
  | first :: more => close .within first more
  | [] => none

/-- Adds a run of components, unless one has just been read. -/
def pushComponents (tokens : List Token) : List Token :=
  match tokens with
  | .anyComponents :: _ :: _ => tokens
  | _ => .anyComponents :: tokens

/-- Reads on from a position. `before` is the character in front of it and `tokens` what has been
read, the last first. The bound is the number of characters left. -/
def readFrom : Nat → Nat → Option Char → List Token → List Char → Except PatternError (List Token)
  | 0, _, _, tokens, _ => .ok tokens.reverse
  | bound + 1, position, before, tokens, chars =>
    match chars with
    | [] => .ok tokens.reverse
    | '?' :: rest => readFrom bound (position + 1) (some '?') (.anyChar :: tokens) rest
    | '*' :: '*' :: '*' :: _ => .error ⟨position + 2, .wildcards⟩
    | '*' :: '*' :: rest =>
      if before.all (· == '/') then
        match rest with
        | [] => .ok (pushComponents tokens).reverse
        | '/' :: rest => readFrom bound (position + 3) (some '/') (pushComponents tokens) rest
        | _ => .error ⟨position + 2, .recursiveWildcards⟩
      else
        .error ⟨position - 1, .recursiveWildcards⟩
    | '*' :: rest => readFrom bound (position + 1) (some '*') (.anySequence :: tokens) rest
    | '[' :: rest =>
      match takeClass? rest with
      | some (token, after) =>
        readFrom bound (position + 1 + (rest.length - after.length)) (some ']')
          (token :: tokens) after
      | none => .error ⟨position, .invalidRange⟩
    | c :: rest => readFrom bound (position + 1) (some c) (.char c :: tokens) rest

/-- Reads a pattern. -/
def Pattern.read (text : String) : Except PatternError Pattern :=
  let chars := text.toList
  (readFrom (chars.length + 1) 0 none [] chars).map Pattern.mk

/-! ## Matching -/

/-- All ends of a list, the whole list first. -/
def suffixes {α : Type} : List α → List (List α)
  | [] => [[]]
  | x :: xs => (x :: xs) :: suffixes xs

/-- The ends that begin a component: the whole, what follows each separator, and the empty end. -/
def componentSuffixes (chars : List Char) : List (List Char) :=
  let rec following : List Char → List (List Char)
    | [] => [[]]
    | '/' :: rest => rest :: following rest
    | _ :: rest => following rest
  chars :: following chars

/-- Whether a token accepts a single character. -/
def Token.accepts : Token → Char → Bool
  | .char x, c => x == c
  | .anyChar, _ => true
  | .within members, c => members.any (·.contains c)
  | .except members, c => !members.any (·.contains c)
  | .anySequence, _ | .anyComponents, _ => false

/-- Whether the tokens describe exactly these characters. -/
def matchTokens : List Token → List Char → Bool
  | [], chars => chars.isEmpty
  | .anySequence :: tokens, chars => (suffixes chars).any (matchTokens tokens)
  | .anyComponents :: tokens, chars => (componentSuffixes chars).any (matchTokens tokens)
  | token :: tokens, chars =>
    match chars with
    | [] => false
    | c :: rest => token.accepts c && matchTokens tokens rest

/-- Whether the pattern describes exactly this text. -/
def Pattern.matches (p : Pattern) (text : String) : Bool :=
  matchTokens p.tokens text.toList

end FunctionArchive.Glob
