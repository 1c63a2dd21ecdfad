import FunctionArchive.Script.Parser.Expressions

/-!
# Declarations

Declarations of variables, and those that exist only with types. What is kept of the latter are the
expressions inside.
-/

set_option autoImplicit false

namespace FunctionArchive.Script.Parse

/-! ## Variables -/

/-- Whether a token makes the word `let` before it introduce variables. -/
def followsLet (token : Token) : Bool :=
  match token.kind with
  | .word text => !isKeyWord text || ["let", "yield", "await"].contains text
  | .name _ => true
  | .mark text => text == "\x7b" || text == "["
  | _ => false

/-- Whether the word `let` introduces variables here. -/
def atLet : Parse Bool := atWordThen "let" followsLet

/-- Whether a loop over values follows. -/
def atLoopWord : Parse Bool := do
  return (← atWord "of") || (← atWord "in")

/-- A variable with its type and its initial value. A pattern needs a value, except in a loop over
values, for a constant under the strict rules, and where variables are only declared. -/
def declarator (g : Grammar) (constant inHead refusesLet : Bool) : Parse Expr := do
  let start ← position
  let pattern ← g.pattern refusesLet
  let isName := match pattern with
    | .name _ => true
    | _ => false
  if (← typed) && isName then
    let _ ← eatMark "!"
  let target ← annotated g pattern
  if inHead && (← atLoopWord) then return target
  if ← eatMark "=" then return .assign target (← g.assign)
  let s ← read
  let strict := s.strict || (← get).isModule
  unless isName || (constant && strict) || s.inDeclaration do failAt start
  return target

/-- Variables between commas. None has to follow the key word or a comma. -/
def declarators (g : Grammar) (constant inHead refusesLet : Bool) : Parse (List Expr) := do
  let (all, _) ← loop (([] : List Expr), true) fun (all, more) => do
    if !more || (← atMark ";") || (← atFinish) then return .done (all, false)
    let one ← declarator g constant inHead refusesLet
    return .yield (all ++ [one], ← eatMark ",")
  return all

/-- Whether a loop over values follows its key word directly, up to the parenthesis that closes its
head. -/
def atBareLoop (g : Grammar) : Parse Bool := do
  unless (← typed) && (← atLoopWord) do return false
  ahead do
    advance
    let _ ← g.assign
    mark ")"
    return true

/-- Variables from their key word on, without the end of the statement. -/
def variablesFrom (g : Grammar) (inHead : Bool) : Parse Stmt := do
  let constant ← atWord "const"
  let plain ← atWord "var"
  advance
  if inHead && (← atBareLoop g) then return .variables []
  let all := declarators g constant inHead !plain
  return .variables (← if plain && inHead then all else withIn all)

/-- The end of a declaration of variables. Whatever else stands in front of it is passed over, first
as an expression and then token by token, and means nothing. -/
def endOfVariables (g : Grammar) : Parse Unit := do
  unless ← endHere do
    let _ ← mend (expression g)
    let _ ← loop () fun () => do
      if ← endHere then return .done ()
      if ← atMark "`" then
        let _ ← templatePiece (← token).stop
      else advance
      match ← kind with
      | .fault _ => return .done ()
      | _ => return .yield ()

/-- A statement that declares variables. -/
def variableStatement (g : Grammar) : Parse Stmt := do
  let s ← variablesFrom g false
  endOfVariables g
  return s

/-- Variables whose values are released in the end, if some are declared here. -/
def releasedVariables? (g : Grammar) : Parse (Option Stmt) := do
  unless ← atWord "using" do return none
  let next ← following
  unless !next.newLine && (← isName next.kind) do return none
  advance
  return some (.variables (← declarators g false false false))

/-! ## Types -/

/-- A member of an enumeration: its value. A comma that is missing is put in the place of the next
token. -/
def enumMember (g : Grammar) : Parse (List Expr) := do
  match ← kind with
  | .text _ | .number => advance
  | .mark "[" =>
    advance
    let _ ← expression g
    mark "]"
  | _ =>
    let _ ← anyWord
  if ← eatMark "=" then
    let value ← g.assign
    let _ ← eatMark ","
    return [value]
  unless ← atMark "\x7d" do
    match ← kind with
    | .finish => fail
    | _ => advance
  return []

/-- An enumeration from its name on. -/
def enumeration (g : Grammar) : Parse Stmt := do
  let _ ← anyWord
  mark "\x7b"
  return .evaluate (← manyUntil (eatMark "\x7d") (enumMember g)).flatten

/-- An interface from its name on. What it builds on a second time is passed over. -/
def interface (g : Grammar) : Parse Stmt := do
  let _ ← anyWord
  let generic ← typeParameters g
  let parents ← if ← eatWord "extends" then parentTypes g else pure []
  if ← atWord "extends" then
    let _ ← manyUntil (atFinish <||> atMark "\x7b") advance
  return .evaluate (generic ++ parents ++ (← typeMembers g))

/-- The definition of a type from its name on. -/
def typeAlias (g : Grammar) : Parse Stmt := do
  let _ ← anyWord
  let generic ← typeParameters g
  mark "="
  let parts ← g.type
  semicolon
  return .evaluate (generic ++ parts)

/-- The body of a namespace. What makes a source a module does not count inside. -/
def namespaceBody (g : Grammar) : Parse Stmt := do
  mark "\x7b"
  let isModule := (← get).isModule
  let body ← manyUntil blockEnd g.item
  modify fun c => { c with isModule }
  return .block body

/-- A namespace from its name on, which may have parts. -/
def namespaceFrom (g : Grammar) : Parse Stmt := do
  let _ ← anyWord
  let _ ← manyUntil (return !(← eatMark ".")) do
    let _ ← anyWord
  namespaceBody g

/-- A namespace that stands for something outside, from its name on. Its body may be missing. -/
def outerNamespace (g : Grammar) : Parse Stmt := do
  match ← kind with
  | .word "global" | .text _ => advance
  | _ => fail
  if ← atMark "\x7b" then return ← namespaceBody g
  semicolon
  return .block []

/-- A class that is only declared as a base for others. -/
def abstractClass (g : Grammar) : Parse Stmt :=
  return .classDeclaration (← classFrom g true)

/-- The declaration that a word announces, if it does. Either the word is the next token and has to
announce one, or it has been accepted and what follows decides. -/
def announced? (g : Grammar) (word : String) (isNext : Bool) : Parse (Option Stmt) := do
  let proceeds (follows : Parse Bool) : Parse Bool := do
    if isNext then
      advance
      return true
    else follows
  match word with
  | "abstract" =>
    if ← proceeds (return (← atWord "class") && !(← newLine)) then return some (← abstractClass g)
  | "enum" => if ← proceeds atName then return some (← enumeration g)
  | "interface" => if ← proceeds atName then return some (← interface g)
  | "module" =>
    unless ← newLine do
      if ← proceeds (atText <||> atName) then
        if ← atText then return some (← outerNamespace g)
        return some (← namespaceFrom g)
  | "namespace" => if ← proceeds atName then return some (← namespaceFrom g)
  | "type" =>
    if ← proceeds (return !(← newLine) && (← atName)) then return some (← typeAlias g)
  | _ => pure ()
  return none

/-- What the word `declare` declares, behind it, if it does. -/
def outerDeclaration? (g : Grammar) : Parse (Option Stmt) :=
  withReader (fun s => { s with inDeclaration := true }) do
    match ← kind with
    | .word "function" => return some (.function (← functionFrom g false .declaration))
    | .word "class" => return some (.classDeclaration (← classFrom g true))
    | .word "global" => return some (← outerNamespace g)
    | .word text =>
      if text == "const" && (← following).kind == .word "enum" then
        advance
        advance
        return some (← enumeration g)
      if ["const", "var", "let"].contains text then return some (← variableStatement g)
      announced? g text true
    | _ => return none

end FunctionArchive.Script.Parse
