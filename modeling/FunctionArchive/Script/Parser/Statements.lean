import FunctionArchive.Script.Parser.Declarations

/-!
# Statements

A statement ends with a semicolon, which may be left out before a brace, at the end of a line and
at the end of the source. Declarations stand only in a list of statements.
-/

set_option autoImplicit false

namespace FunctionArchive.Script.Parse

/-! ## Parts of statements -/

/-- An expression in parentheses, as the head of a statement. -/
def condition (g : Grammar) : Parse Expr := do
  mark "("
  let e ← withIn (expression g)
  mark ")"
  return e

/-- A statement that is the body of another one. -/
def body (g : Grammar) : Parse Stmt := g.statement false

/-! ## Loops -/

/-- Whether an expression is the word that announces variables in the head of a loop. -/
def announcesVariables : Expr → Bool
  | .name text => text == "using"
  | .operation .await [.name text] => text == "using"
  | _ => false

/-- What a loop runs over, from the word `of` or `in` on. -/
def loopRange (g : Grammar) (start : Stmt) : Parse (Bool × Stmt × List Expr) := do
  let isOf ← eatWord "of"
  unless isOf do advance
  return (isOf, start, [← withIn (if isOf then g.assign else expression g)])

/-- The controls of a loop that counts, behind its first semicolon. -/
def loopControls (g : Grammar) (start : Stmt) : Parse (Bool × Stmt × List Expr) := do
  let test ← if ← eatMark ";" then pure [] else do
    let test ← withIn (expression g)
    let _ ← eatMark ";"
    pure [test]
  let update ← if ← atMark ")" then pure [] else pure [← withIn (expression g)]
  return (false, start, test ++ update)

/-- What the parentheses of a loop hold: whether it runs over values, its start and its controls. -/
def loopHead (g : Grammar) : Parse (Bool × Stmt × List Expr) := do
  if (← atWord "const") || (← atWord "var") || (← atLet) then
    let start ← variablesFrom g true
    if ← atLoopWord then return ← loopRange g start
    mark ";"
    return ← loopControls g start
  if ← eatMark ";" then return ← loopControls g (.evaluate [])
  let start ← withReader (fun s => { s with inOperator := false }) (expression g)
  if (← typed) && announcesVariables start && !(← atWord "of") then
    let next ← following
    if next.kind == .word "of" || next.kind == .word "in" then
      let name ← binding false
      return ← loopRange g (.variables [.name name])
  if ← atLoopWord then return ← loopRange g (.evaluate [← asPattern .target start])
  mark ";"
  loopControls g (.evaluate [start])

/-- A loop with a head, from the word `for` on. -/
def forLoop (g : Grammar) : Parse Stmt := do
  word "for"
  let start ← position
  let waits ← eatWord "await"
  mark "("
  let (overValues, first, controls) ←
    withReader (fun s => { s with inLoopHead := true }) (loopHead g)
  mark ")"
  let inner ← body g
  if waits && !overValues then failAt start
  return .iterate first controls inner

/-! ## Statements by key word -/

/-- The branches of a `switch`, in braces. There is at most one default branch. -/
def cases (g : Grammar) : Parse (List Case) := do
  mark "\x7b"
  let atCase : Parse Bool := atWord "case" <||> atWord "default"
  let (all, _) ← loop (([] : List Case), false) fun (all, hasDefault) => do
    unless ← atCase do return .done (all, hasDefault)
    let isDefault ← atWord "default"
    advance
    if isDefault && hasDefault then unexpected
    let test ← if isDefault then pure [] else pure [← withIn (expression g)]
    mark ":"
    let inner ← manyUntil (atCase <||> blockEndAhead) (g.statement true)
    return .yield (all ++ [.mk test inner], hasDefault || isDefault)
  mark "\x7d"
  return all
where
  /-- Whether no further statement follows in the block. -/
  blockEndAhead : Parse Bool := atMark "\x7d" <||> atFinish

/-- What is done when a block is left early, if something is. -/
def catchClause (g : Grammar) : Parse (List Expr × List Stmt) := do
  unless ← eatWord "catch" do return ([], [])
  let caught ← if ← eatMark "(" then
      let pattern ← annotated g (← g.pattern false)
      mark ")"
      pure [pattern]
    else pure []
  return (caught, ← block g)

/-- What is done whenever a block is left, if something is. -/
def finallyClause (g : Grammar) : Parse (List Stmt) := do
  if ← eatWord "finally" then block g else return []

/-- A block with what is to be done when it is left. -/
def attemptStatement (g : Grammar) : Parse Stmt := do
  word "try"
  let inner ← block g
  let (caught, handler) ← catchClause g
  return .attempt inner caught handler (← finallyClause g)

/-- Clauses without the block that they belong to. They are passed over as far as they go. -/
def strayClauses (g : Grammar) : Parse Stmt := do
  let _ ← mend (catchClause g)
  let _ ← mend (finallyClause g)
  return .evaluate []

/-- A statement that starts with a key word, if one does. -/
def wordStatement? (g : Grammar) (text : String) : Parse (Option Stmt) := do
  match text with
  | "function" => return some (.function (← functionFrom g false .declaration))
  | "class" => return some (.classDeclaration (← classFrom g true))
  | "if" =>
    advance
    let test ← condition g
    let positive ← body g
    let negative ← if ← eatWord "else" then pure [← body g] else pure []
    return some (.guarded [test] (positive :: negative))
  | "for" => return some (← forLoop g)
  | "while" | "with" =>
    advance
    let test ← condition g
    return some (.guarded [test] [← body g])
  | "do" =>
    advance
    let inner ← body g
    word "while"
    let test ← condition g
    let _ ← eatMark ";"
    return some (.guarded [test] [inner])
  | "return" =>
    advance
    let value ← if ← atEnd then pure [] else pure [← withIn (expression g)]
    semicolon
    return some (.evaluate value)
  | "throw" =>
    advance
    ensure !(← newLine)
    let value ← withIn (expression g)
    semicolon
    return some (.evaluate [value])
  | "break" | "continue" =>
    advance
    unless ← endHere do
      let s ← read
      let _ ← identifierWith (!s.inGenerator) (!s.inAsync)
      semicolon
    return some (.evaluate [])
  | "debugger" =>
    advance
    semicolon
    return some (.evaluate [])
  | "switch" =>
    advance
    let subject ← condition g
    return some (.choose subject (← cases g))
  | "try" => return some (← attemptStatement g)
  | "catch" | "finally" => return some (← strayClauses g)
  | "var" => return some (← variableStatement g)
  | _ => return none

/-- A declaration that stands only in a list of statements, if one starts here. -/
def listDeclaration? (g : Grammar) : Parse (Option Stmt) := do
  if (← atWord "const") || (← atLet) then return some (← variableStatement g)
  if ← atWordThen "await" (·.kind == .word "using") then
    advance
    if let some s ← releasedVariables? g then return some s
    let operand ← withIn (g.binary (.operation .await [← g.unary]) 0)
    let _ ← eatMark ";"
    return some (.evaluate [operand])
  releasedVariables? g

/-- A declaration that exists only with types, if its words show it from the start. -/
def typeDeclaration? (g : Grammar) : Parse (Option Stmt) := do
  unless ← typed do return none
  if ← atWordThen "const" (·.kind == .word "enum") then
    advance
    advance
    return some (← enumeration g)
  let next ← following
  unless isWord next.kind && !next.newLine do return none
  match ← kind with
  | .word "interface" => advance; return some (← interface g)
  | .word "type" => advance; return some (← typeAlias g)
  | .word "enum" => advance; return some (← enumeration g)
  | _ => return none

/-- The declaration that a word before the next token makes, if it does. -/
def namedDeclaration? (g : Grammar) (name : String) : Parse (Option Stmt) := do
  unless ← typed do return none
  match name with
  | "declare" => outerDeclaration? g
  | "global" => if ← atMark "\x7b" then return some (← namespaceBody g) else return none
  | _ => announced? g name false

/-! ## Statements without a key word -/

/-- The end of a statement that is an expression. A binary operator that follows goes on with it,
and nothing has to end it then. -/
def expressionEnd (g : Grammar) (e : Expr) : Parse Stmt := do
  if ← endHere then return .evaluate [e]
  ensure (← atBinaryMark)
  return .evaluate [← g.binary e 0]

/-- A statement that starts with an expression. A single name may be a label or announce a
declaration. -/
def expressionStatement (g : Grammar) : Parse Stmt := do
  match ← withIn (expression g) with
  | .name name =>
    if ← eatMark ":" then
      if ← atWord "function" then return .function (← functionFrom g false .declaration)
      return .block [← body g]
    if name == "interface" && (← newLine) then
      let _ ← endHere
      return .evaluate [.name name]
    match ← namedDeclaration? g name with
    | some s => return s
    | none => expressionEnd g (.name name)
  | e => expressionEnd g e

/-- A statement that asks for another module or for this one. -/
def importStatement (g : Grammar) : Parse Stmt := do
  let e ← expression g
  let _ ← endHere
  return .evaluate [e]

/-- Whether the word `import` starts an expression here. -/
def atImportExpression : Parse Bool :=
  atWordThen "import" fun next => next.kind == .mark "(" || next.kind == .mark "."

/-- A statement that starts with a word. -/
def statementFromWord (g : Grammar) (declarations : Bool) (text : String) : Parse Stmt := do
  if text == "import" || text == "export" then
    ensure (← atImportExpression)
    return ← importStatement g
  if let some s ← typeDeclaration? g then return s
  if let some s ← wordStatement? g text then return s
  if declarations then
    if let some s ← listDeclaration? g then return s
  if ← atAsyncFunction then
    advance
    return .function (← functionFrom g true .declaration)
  if (← typed) && ["public", "static", "abstract"].contains text then
    if (← following).kind == .word "interface" then advance
  expressionStatement g

/-- A statement. -/
def statement (g : Grammar) (declarations : Bool) : Parse Stmt :=
  withoutColon do
    match ← kind with
    | .mark "\x7b" => return .block (← block g)
    | .mark ";" => advance; return .evaluate []
    | .word text => statementFromWord g declarations text
    | .finish => fail
    | _ => expressionStatement g

end FunctionArchive.Script.Parse
