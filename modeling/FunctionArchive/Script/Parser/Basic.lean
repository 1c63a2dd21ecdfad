import FunctionArchive.Script.Dialect
import FunctionArchive.Script.Token
import FunctionArchive.Script.Tree

/-!
# Parsing scripts: the means

A parser looks at one token at a time and either goes on or refuses the source at a position. How
far it came is known even then, because some faults are mended: what was refused is left out, and
parsing goes on with the token at hand.

The rules of the language refer to each other in circles; a `Grammar` holds those that others refer
to, so that each group of rules can be written on its own, over a given grammar, and the circle is
closed at the end, for as many levels of nesting as the source has room for.
-/

set_option autoImplicit false

namespace FunctionArchive.Script

/-- What surrounds the place that is being parsed. -/
structure Setting where
  source : Array Char
  dialect : Dialect
  /-- Whether the strict rules on names hold. -/
  strict : Bool := false
  inAsync : Bool := false
  inGenerator : Bool := false
  /-- Whether a block of a class is being parsed, whose statements run with the class. -/
  inClassBlock : Bool := false
  /-- Whether all this only declares what exists elsewhere. -/
  inDeclaration : Bool := false
  inParameters : Bool := false
  /-- Whether the members of a parent class can be named here. -/
  inMethod : Bool := false
  /-- Whether the word `in` is an operator here and does not end the head of a loop. -/
  inOperator : Bool := false
  /-- Whether the colon of a condition is still to come. -/
  colonAhead : Bool := false
  /-- Whether this is a branch of a condition. -/
  inBranch : Bool := false
  /-- Whether a type is the bound of a condition on types. -/
  inBound : Bool := false
  /-- Whether this is the head of a loop. -/
  inLoopHead : Bool := false

/-- How far a source has been parsed. -/
structure Cursor where
  /-- The token to be looked at next. -/
  token : Token
  /-- The position after the last token that was accepted. -/
  passed : Nat
  /-- The position at which the last accepted token starts. -/
  last : Nat := 0
  /-- The position at which an arrow function may start. -/
  arrowStart : Option Nat := none
  /-- Whether an import or export has shown that the source is a module. -/
  isModule : Bool := false

/-- Where a source is refused, and whether nothing can mend it. -/
structure Refusal where
  position : Nat
  final : Bool := false

/-- A parser: it gives a value, or refuses. -/
abbrev Parse := ReaderT Setting (ExceptT Refusal (StateM Cursor))

/-! ## Reserved words -/

/-- Words that are no names anywhere. -/
def reserved : List String :=
  ["break", "case", "catch", "class", "const", "continue", "debugger", "default", "delete", "do",
    "else", "enum", "export", "extends", "false", "finally", "for", "function", "if", "import",
    "in", "instanceof", "new", "null", "return", "super", "switch", "this", "throw", "true", "try",
    "typeof", "var", "void", "while", "with"]

/-- Words that are no names under the strict rules. -/
def strictlyReserved : List String :=
  ["implements", "interface", "let", "package", "private", "protected", "public", "static"]

/-- Whether a word has a meaning of its own, so that it is a name in few places, if any. -/
def isKeyWord (text : String) : Bool :=
  (reserved.contains text && text != "enum") || ["let", "yield", "await"].contains text

/-- Whether a word is no name at a place. -/
def Setting.reserves (s : Setting) (isModule : Bool) (text : String) : Bool :=
  reserved.contains text ||
    ((s.strict || isModule) && strictlyReserved.contains text) ||
    (text == "await" && (s.inAsync || s.inClassBlock || isModule)) ||
    (text == "yield" && (s.inGenerator || s.strict || isModule))

namespace Parse

/-! ## Looking -/

def token : Parse Token := return (← get).token

def kind : Parse Kind := return (← token).kind

/-- The position at which the next token starts. -/
def position : Parse Nat := return (← token).start

/-- Whether a line ends before the next token. -/
def newLine : Parse Bool := return (← token).newLine

/-- The token at a position. An escape may not hide a reserved word. -/
def tokenAt (position : Nat) : Parse Token := do
  let s ← read
  let t := Token.read s.source position
  match t.kind with
  | .escapedWord text =>
    if s.reserves (← get).isModule text then return { t with kind := .fault t.start }
    else return { t with kind := .word text }
  | _ => return t

/-- The token after the next one. -/
def following : Parse Token := do tokenAt (← token).stop

/-- Whether annotations of types may stand in this source. -/
def typed : Parse Bool := return (← read).dialect.types

def atMark (text : String) : Parse Bool := return (← kind) == .mark text

def atWord (text : String) : Parse Bool := return (← kind) == .word text

def atFinish : Parse Bool := return (← kind) == .finish

/-- Whether the next token is one of some marks. -/
def atMarks (texts : List String) : Parse Bool := do
  match ← kind with
  | .mark text => return texts.contains text
  | _ => return false

/-- Whether a statement can end here: before a semicolon or a closing brace, at the end of a line
and at the end of the source. -/
def atEnd : Parse Bool := do
  return (← atMark ";") || (← atMark "\x7d") || (← atFinish) || (← newLine)

/-- The stretch from a position to the last accepted token. -/
def spanFrom (start : Nat) : Parse Span := return ⟨start, (← get).passed⟩

/-! ## Accepting -/

/-- Accepts a stretch of the source as one token and goes on behind it. -/
def acceptFrom (start stop : Nat) : Parse Unit := do
  let next ← tokenAt stop
  modify fun c => { c with token := next, passed := stop, last := start }

/-- Accepts the stretch from the next token on as one token. -/
def jumpTo (stop : Nat) : Parse Unit := do acceptFrom (← position) stop

/-- Accepts the next token. -/
def advance : Parse Unit := do jumpTo (← token).stop

def eatMark (text : String) : Parse Bool := do
  if ← atMark text then advance; return true else return false

def eatWord (text : String) : Parse Bool := do
  if ← atWord text then advance; return true else return false

/-! ## Refusing -/

/-- Refuses the source at a position. -/
def failAt {α : Type} (position : Nat) : Parse α := throw ⟨position, false⟩

/-- Refuses the source at a position for good. -/
def failForGood {α : Type} (position : Nat) : Parse α := throw ⟨position, true⟩

/-- Refuses the next token, with which nothing can start. The end of the source is blamed itself;
malformed text is passed over. -/
def fail {α : Type} : Parse α := do
  match ← kind with
  | .fault position =>
    advance
    failAt position
  | _ => failAt (← position)

/-- Refuses the next token, in whose place something else is expected. The end of the source is
blamed on the token before it. -/
def unexpected {α : Type} : Parse α := do
  match ← kind with
  | .finish => failAt (← get).last
  | _ => failAt (← position)

/-- Refuses the next token unless the condition holds. -/
def ensure (condition : Bool) : Parse Unit :=
  if condition then pure () else unexpected

def mark (text : String) : Parse Unit := do
  ensure (← eatMark text)

def word (text : String) : Parse Unit := do
  ensure (← eatWord text)

/-- The end of a statement, if it can end here. A semicolon is accepted. -/
def endHere : Parse Bool := do
  if ← eatMark ";" then return true
  atEnd

/-- The end of a statement. -/
def semicolon : Parse Unit := do
  ensure (← endHere)

/-- Tries a parser; where it refuses, nothing has been accepted. -/
def attempt {α : Type} (p : Parse α) : Parse (Option α) := fun setting cursor =>
  match p setting cursor with
  | (.ok a, cursor) => (.ok (some a), cursor)
  | (.error _, _) => (.ok none, cursor)

/-- Looks whether a parser accepts what follows, and gives its answer; nothing is accepted. -/
def ahead (p : Parse Bool) : Parse Bool := fun setting cursor =>
  match p setting cursor with
  | (.ok a, _) => (.ok a, cursor)
  | (.error _, _) => (.ok false, cursor)

/-- Tries a parser; where it refuses, parsing can go on with the token at hand. -/
def mend {α : Type} (p : Parse α) : Parse (Except Refusal α) := fun setting cursor =>
  match p setting cursor with
  | (.ok a, cursor) => (.ok (.ok a), cursor)
  | (.error e, cursor) => (if e.final then .error e else .ok (.error e), cursor)

/-! ## Settings -/

/-- The setting in which `in` is an operator. -/
def withIn {α : Type} (p : Parse α) : Parse α :=
  withReader (fun s => { s with inOperator := true }) p

/-- The setting in which no colon of a condition is to come. -/
def withoutColon {α : Type} (p : Parse α) : Parse α :=
  withReader (fun s => { s with colonAhead := false }) p

/-- The setting between brackets of any kind. -/
def bracketed {α : Type} (p : Parse α) : Parse α :=
  withReader (fun s => { s with inOperator := true, colonAhead := false }) p

/-- Lets an arrow function start at a position, if at all. -/
def setArrowStart (start : Option Nat) : Parse Unit :=
  modify fun c => { c with arrowStart := start }

/-! ## Repeating -/

/-- At most so many steps. -/
def steps {σ : Type} (step : σ → Parse (ForInStep σ)) : Nat → σ → Parse σ
  | 0, _ => fail
  | bound + 1, state => do
    match ← step state with
    | .done state => return state
    | .yield state => steps step bound state

/-- Steps until one says that it was the last. Each accepts something, so there are no more of them
than characters. -/
def loop {σ : Type} (start : σ) (step : σ → Parse (ForInStep σ)) : Parse σ := do
  steps step ((← read).source.size + 2) start

/-- What `item` reads, over and over, until `stop` accepts. -/
def manyUntil {α : Type} (stop : Parse Bool) (item : Parse α) : Parse (List α) := do
  let items ← loop [] fun items => do
    if ← stop then return .done items
    return .yield ((← item) :: items)
  return items.reverse

/-- Items between commas up to a closing mark, which is accepted; a comma may stand before it. -/
def itemsUntil {α : Type} (stop : Parse Bool) (close : String) (item : Parse α) :
    Parse (List α) := do
  let all ← manyUntil stop do
    let a ← item
    unless ← atMark close do mark ","
    return a
  mark close
  return all

/-- Items in a list that the end of the source breaks off. -/
def items {α : Type} (close : String) (item : Parse α) : Parse (List α) :=
  itemsUntil (atMark close <||> atFinish) close item

/-- Items in a list where the end of the source is taken for one more item. -/
def strictItems {α : Type} (close : String) (item : Parse α) : Parse (List α) :=
  itemsUntil (atMark close) close item

/-! ## Names -/

/-- The text of a word, reserved or not. -/
def wordOf? : Kind → Option String
  | .word text | .name text => some text
  | _ => none

/-- Whether a token is a word, reserved or not. -/
def isWord (k : Kind) : Bool := (wordOf? k).isSome

/-- The name that a token is, if it can name something at this place. -/
def nameOf? (k : Kind) : Parse (Option String) := do
  match k with
  | .name text => return some text
  | .word text =>
    return if (← read).reserves (← get).isModule text then none else some text
  | _ => return none

/-- Whether a token can name something at this place. -/
def isName (k : Kind) : Parse Bool := return (← nameOf? k).isSome

/-- Whether the next token can name something at this place. -/
def atName : Parse Bool := do isName (← kind)

/-- Whether the next token is a word, reserved or not. -/
def atAnyWord : Parse Bool := return isWord (← kind)

/-- Whether the next token is a text in quotes. -/
def atText : Parse Bool := return (← kind).isText

/-- A word, reserved or not. -/
def anyWord : Parse String := do
  match wordOf? (← kind) with
  | some text => advance; return text
  | none => fail

/-- A name where the words `yield` and `await` may be names as well. Words that only the strict
rules reserve are let pass. -/
def identifierWith (yields awaits : Bool) : Parse String := do
  match ← kind with
  | .name text => advance; return text
  | .word text =>
    let start ← position
    advance
    let s ← read
    let isModule := (← get).isModule
    let fits :=
      if text == "await" then
        s.inDeclaration || (awaits && !(s.inClassBlock || s.inAsync || isModule))
      else if text == "yield" then yields
      else if text == "this" then s.dialect.types
      else text == "enum" || !reserved.contains text
    if fits then return text else failAt start
  | _ => fail

/-- A name that is introduced here. The word `let` is none where `let` or the like introduces it. -/
def binding (refusesLet : Bool) : Parse String := do
  ensure !(refusesLet && (← atWord "let"))
  identifierWith true true

/-- A private name from its hash on. -/
def privateName : Parse String := do
  let start ← position
  mark "#"
  if (← position) != (← get).passed then failAt start
  anyWord

/-- A name behind a dot, and whether it is private. -/
def memberName : Parse (String × Bool) := do
  if ← atMark "#" then
    let _ ← privateName
    return ("#", true)
  else return (← anyWord, false)

end Parse

/-- The rules that other rules refer to. -/
structure Grammar where
  /-- An expression without commas. -/
  assign : Parse Expr
  /-- An operand with the operators before it. -/
  unary : Parse Expr
  /-- The operators between operands behind a first one, if they bind tighter than some level. -/
  binary : Expr → Nat → Parse Expr
  /-- An operand with what stands behind it. -/
  operand : Parse Expr
  /-- The operand of `new` and its arguments. -/
  construct : Parse Expr
  /-- An element of markup. -/
  markup : Parse Expr
  /-- A pattern that introduces names. -/
  pattern : Bool → Parse Expr
  /-- A statement; a declaration only where one may stand. -/
  statement : Bool → Parse Stmt
  /-- A statement, or an import or export. -/
  item : Parse Stmt
  /-- A type: the expressions inside it. -/
  type : Parse (List Expr)
  /-- A type that is no condition on types. -/
  plainType : Parse (List Expr)

/-- The grammar that refuses everything. -/
def Grammar.empty : Grammar :=
  { assign := Parse.fail
    unary := Parse.fail
    binary := fun _ _ => Parse.fail
    operand := Parse.fail
    construct := Parse.fail
    markup := Parse.fail
    pattern := fun _ => Parse.fail
    statement := fun _ => Parse.fail
    item := Parse.fail
    type := Parse.fail
    plainType := Parse.fail }

end FunctionArchive.Script
