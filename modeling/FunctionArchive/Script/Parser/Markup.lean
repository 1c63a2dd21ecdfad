import FunctionArchive.Script.Parser.Expressions

/-!
# Markup

An element opens and closes with its name, or is closed where it opens. Between its tags stand
text, which is passed over, further elements, and expressions in braces.
-/

set_option autoImplicit false

namespace FunctionArchive.Script.Parse

/-! ## Tags -/

/-- A part of the name of an element or an attribute: a word that may hold dashes. -/
def tagWord : Parse String := do
  let source := (← read).source
  unless ← atAnyWord do fail
  let start ← position
  let stop := Token.passWhile source (fun c => c == '-' || Text.continuesIdentifier c) start
  jumpTo stop
  return String.ofList (source.extract start stop).toList

/-- A name that another one may precede, with a colon between them. -/
def tagNames : Parse String := do
  let first ← tagWord
  if ← eatMark ":" then return first ++ ":" ++ (← tagWord)
  return first

/-- The name of an element, which may have parts. A fragment has none. -/
def tagName : Parse (List String) := do
  if ← atCloseAngle then return []
  let first ← tagNames
  let rest ← manyUntil (return !(← eatMark ".")) tagWord
  return first :: rest

/-- What stands in braces, from the opening one on: nothing, or an expression, perhaps spread. -/
def braced (g : Grammar) : Parse (List Expr) := do
  mark "\x7b"
  if ← atMark "\x7d" then return []
  let _ ← eatMark "..."
  return [← withReader (fun s => { s with inOperator := true }) (expression g)]

/-- The setting in which the value of an attribute is read. -/
def inAttribute {α : Type} (p : Parse α) : Parse α :=
  withReader (fun s => { s with inBranch := false, colonAhead := false }) p

/-- A string in an attribute, if one stands behind the equals sign. It has no escapes and may hold
several lines. -/
def attributeText? : Parse Bool := do
  let source := (← read).source
  let start := (Token.passBlanks source source.size (← token).stop false).1
  match source[start]? with
  | some c =>
    if c != '"' && c != '\'' then return false
    let stop := Token.passWhile source (· != c) (start + 1)
    if source.size ≤ stop then failAt start
    acceptFrom start (stop + 1)
    return true
  | none => return false

/-- The value of an attribute. -/
def attributeValue (g : Grammar) : Parse (List Expr) := do
  if ← attributeText? then return []
  mark "="
  match ← kind with
  | .mark "\x7b" =>
    let start ← position
    let value ← braced g
    mark "\x7d"
    if value.isEmpty then failAt start
    return value
  | .mark "<" => return [← g.markup]
  | .finish | .fault _ => fail
  | _ => unexpected

/-- An attribute: a spread value, or a name with a string, an element or an expression in braces. -/
def tagAttribute (g : Grammar) : Parse (List Expr) := do
  if ← eatMark "\x7b" then
    mark "..."
    let value ← withIn g.assign
    mark "\x7d"
    return [value]
  let _ ← tagNames
  if ← atMark "=" then inAttribute (attributeValue g) else return []

/-! ## Elements -/

/-- The content of an element up to its closing tag, from a position on, and where that tag starts.
The slash of the tag is the last that is accepted. -/
def content (g : Grammar) (start : Nat) : Parse (Nat × List Expr) := do
  let source := (← read).source
  loop (start, ([] : List Expr)) fun (position, parts) => do
    let stop := Token.passWhile source (fun c => c != '<' && c != '{') position
    if source.size ≤ stop then failAt position
    acceptFrom position stop
    if ← atMark "\x7b" then
      let value ← braced g
      ensure (← atMark "\x7d")
      return .yield ((← token).stop, parts ++ value)
    if (← following).kind == .mark "/" then
      openAngle
      mark "/"
      return .done (stop, parts)
    let element ← g.markup
    return .yield ((← get).passed, parts ++ [element])

/-- An element of markup, from its first angle bracket on. -/
def element (g : Grammar) : Parse Expr := do
  openAngle
  let name ← tagName
  let types ← if (← typed) && (← atOpenAngle) then attempt (typeArguments g) else pure none
  let atTagEnd : Parse Bool := atFinish <||> atMark "/" <||> atCloseAngle
  let attributes ← manyUntil atTagEnd (tagAttribute g)
  let parts := attributes.flatten ++ types.getD []
  if ← eatMark "/" then
    closeAngle
    return .markup parts
  ensure (← atCloseAngle)
  let (start, inner) ← content g (← firstStop)
  let closing ← tagName
  closeAngle
  unless closing == name do failAt start
  return .markup (parts ++ inner)

end FunctionArchive.Script.Parse
