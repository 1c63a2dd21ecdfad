import FunctionArchive.Script.Parser.Types

/-!
# Chains behind operands

An operand may be followed by members, calls, templates and, with types, by type arguments. A member
or a call may step over a value that is missing.
-/

set_option autoImplicit false

namespace FunctionArchive.Script.Parse

/-! ## Lists of values -/

/-- Expressions separated by commas. -/
def expression (g : Grammar) : Parse Expr := do
  let first ← g.assign
  let rest ← manyUntil (return !(← atMark ",")) do
    advance
    g.assign
  return if rest.isEmpty then first else .operation .sequence (first :: rest)

/-- An argument or an item of an array. -/
def argument (g : Grammar) : Parse Argument := do
  let spread ← eatMark "..."
  let start ← position
  let value ← g.assign
  return .mk spread (← spanFrom start) value

/-- Arguments in parentheses. -/
def callArguments (g : Grammar) : Parse (List Argument) := do
  mark "("
  bracketed (items ")" (argument g))

/-- A template, from its start on. Where no tag takes it, every escape must have a value. -/
def template (g : Grammar) (tagged : Bool) : Parse Expr := do
  let (_, pieces, values) ← loop ((← token).stop, ([] : List (Option String)), ([] : List Expr))
    fun (position, pieces, values) => do
      let piece ← templatePiece position
      let text ← match piece.value with
        | .ok chars => pure (some (String.ofList chars))
        | .error escape => if tagged then pure none else failAt escape
      let pieces := pieces ++ [text]
      if piece.closed then return .done (piece.stop, pieces, values)
      let value ← bracketed (expression g)
      ensure (← atMark "\x7d")
      return .yield ((← token).stop, pieces, values ++ [value])
  return .template pieces values

/-! ## Steps of a chain -/

/-- What a chain may hold. -/
structure ChainForm where
  calls : Bool := true
  /-- Whether a member may be given in brackets. -/
  brackets : Bool := true

/-- Whether a token can start an expression. -/
def startsExpression (dialect : Dialect) : Kind → Bool
  | .word text => !isKeyWord text ||
      ["await", "class", "delete", "false", "function", "import", "new", "null", "super", "this",
        "true", "typeof", "void", "yield"].contains text
  | .name _ | .number | .text _ => true
  | .mark text =>
    ["(", "[", "\x7b", "`", "+", "-", "++", "--", "!", "~"].contains text ||
      (text == "<" && dialect.markup)
  | .escapedWord _ | .finish | .fault _ => false

/-- Whether an operand or an operator before one starts here. -/
def atOperand : Parse Bool := do
  match ← kind with
  | .word text =>
    if text == "import" then
      match (← following).kind with
      | .mark mark => return ["(", "<", "."].contains mark
      | _ => return false
    let words := ["await", "class", "delete", "false", "function", "new", "null", "super", "this",
      "true", "typeof", "void", "yield"]
    return words.contains text || (← atName)
  | .name _ | .number | .text _ => return true
  | .mark text =>
    return ["(", "[", "\x7b", "`", "+", "-", "++", "--", "!", "~", "<", "#"].contains text
  | .escapedWord _ | .finish | .fault _ => return false

/-- Whether type arguments end here that no call follows. What could go on with a comparison shows
that they are none. -/
def atInstanceEnd : Parse Bool := do
  match ← kind with
  | .mark text =>
    if text.startsWith "<" || text.startsWith ">" || text == "+" || text == "-" then return false
  | _ => pure ()
  return (← newLine) || (← atMark "=") || (← atWord "as") || (← atWord "satisfies") ||
    !(← atOperand)

/-- A call of a value. A value that may be missing makes the call a step of its chain. -/
def called (callee : Expr) (arguments : List Argument) (types : List Expr) : Expr :=
  if !callee.isOptional then .call (.value callee) arguments types
  else if types.isEmpty then .optional callee arguments
  else .typed .instantiated (.optional callee arguments) types

/-- Type arguments behind an operand and what is applied to them, if they are some. Before a call
has been passed, the arguments must be closed by a mark of their own. -/
def typedStep? (g : Grammar) (form : ChainForm) (base : Expr) : Parse (Option Expr) := do
  unless (← typed) && ((← atMark "<") || (← atMark "<<")) do return none
  attempt do
    openAngle
    let types := (← delimited atCloseAngle g.type).flatten
    unless form.calls do ensure (← atMark ">")
    closeAngle
    if form.calls && (← atMark "(") then
      return called base (← callArguments g) types
    if ← atMark "`" then return .tagged base types (← withoutColon (template g true))
    ensure (← atInstanceEnd)
    return .typed .instantiated base types

/-- The key of a member, in brackets. -/
def bracketKey (g : Grammar) : Parse Argument := do
  mark "["
  let start ← position
  let key ← bracketed (expression g)
  let span ← spanFrom start
  mark "]"
  return .mk false span key

/-- Whether a value that is missing is stepped over. -/
def atOptionalDot : Parse Bool := do
  return (← atMark "?") && (← following).kind == .mark "."

/-- The step over a missing value, behind its marks. -/
def optionalStep (g : Grammar) (form : ChainForm) (base : Expr) : Parse Expr := do
  if form.brackets && (← atMark "[") then return .optional base [← bracketKey g]
  let types ← if (← typed) && ((← atMark "<") || (← atMark "<<")) then typeArguments g else pure []
  if ← atMark "(" then
    let e := Expr.optional base (← callArguments g)
    return if types.isEmpty then e else .typed .instantiated e types
  let _ ← memberName
  return .optional base []

/-- One step behind an operand: a member, a call or the like. -/
def chainStep (g : Grammar) (form : ChainForm) (base : Expr) : Parse (ForInStep Expr) := do
  if let some e ← typedStep? g form base then return .yield e
  if ← atOptionalDot then
    advance
    advance
    return .yield (← optionalStep g form base)
  match ← kind with
  | .mark "!" =>
    if (← typed) && !(← newLine) then
      advance
      return .yield (.typed .present base [])
    return .done base
  | .mark "[" =>
    unless form.brackets do return .done base
    let .mk _ _ key ← bracketKey g
    return .yield (.index base key)
  | .mark "(" =>
    unless form.calls do return .done base
    return .yield (called base (← callArguments g) [])
  | .mark "." =>
    advance
    let (name, _) ← memberName
    return .yield (.member base name)
  | .mark "`" => return .yield (.tagged base [] (← withoutColon (template g true)))
  | _ => return .done base

/-- An operand with what stands behind it. -/
def chain (g : Grammar) (form : ChainForm) (base : Expr) : Parse Expr :=
  loop base (chainStep g form)

/-! ## Parents -/

/-- Something that a class or an interface builds on: a name with members and type arguments. -/
def parentType (g : Grammar) : Parse (List Expr) := do
  let name ← anyWord
  let e ← chain g ⟨false, false⟩ (.name name)
  let types ← if ← atOpenAngle then typeArguments g else pure []
  return e :: types

/-- What a class or an interface builds on, up to the brace or word that ends the list. -/
def parentTypes (g : Grammar) : Parse (List Expr) := do
  let atClose := atMark "\x7b" <||> atWord "implements" <||> atWord "extends"
  return (← delimited atClose (parentType g)).flatten

end FunctionArchive.Script.Parse
