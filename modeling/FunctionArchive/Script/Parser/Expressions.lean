import FunctionArchive.Script.Parser.Functions

/-!
# Expressions

What stands between parentheses is read as a list of values first; an arrow behind it makes them
the parameters of a function. An arrow function is an expression by itself: no operator goes on
with it, and it starts only where a whole expression may start.

Where an operand is missing in front of a binary operator or behind a prefix, its place stays empty
and parsing goes on.
-/

set_option autoImplicit false

namespace FunctionArchive.Script.Parse

/-! ## Marks -/

/-- How tightly a binary operator that is a mark binds. -/
def markLevel? (text : String) : Option Nat :=
  match text with
  | "??" | "||" => some 1
  | "&&" => some 2
  | "|" => some 3
  | "^" => some 4
  | "&" => some 5
  | "==" | "!=" | "===" | "!==" => some 6
  | "<" | ">" | "<=" | ">=" => some 7
  | "<<" | ">>" | ">>>" => some 8
  | "+" | "-" => some 9
  | "*" | "/" | "%" => some 10
  | "**" => some 11
  | _ => none

/-- How tightly comparisons and the operators that are words bind. -/
def wordLevel : Nat := 7

/-- Operators that compute a value from the old one and assign it. -/
def compoundMarks : List String :=
  ["+=", "-=", "*=", "/=", "%=", "**=", "<<=", ">>=", ">>>=", "&=", "|=", "^=", "&&=", "||=", "??="]

/-- Operators before an operand that are marks. -/
def prefixMarks : List String := ["+", "-", "~", "!"]

/-- Operators before an operand that are words. -/
def prefixWords : List String := ["delete", "void", "typeof"]

/-- Whether a binary operator that is a mark follows. -/
def atBinaryMark : Parse Bool := do
  match ← kind with
  | .mark text => return (markLevel? text).isSome
  | _ => return false

/-- How tightly the binary operator binds that follows, if one does. -/
def binaryLevel? : Parse (Option Nat) := do
  match ← kind with
  | .mark text => return markLevel? text
  | .word "instanceof" => return some wordLevel
  | .word "in" => return if (← read).inOperator then some wordLevel else none
  | _ => return none

/-! ## Literals -/

/-- The items of an array, in brackets; an item may be missing. -/
def arrayItems (g : Grammar) : Parse (List Argument) := do
  mark "["
  let groups ← bracketed (items "]" do
    if ← atMark "," then return []
    return [← argument g])
  return groups.flatten

/-- A regular expression, from its first slash on. Nothing mends one that is not closed. -/
def regularExpression : Parse Expr := do
  let source := (← read).source
  let start ← position
  match Token.regexStop source source.size (start + 1) false with
  | some stop => jumpTo stop; return .atom
  | none => failForGood start

/-- Whether a token can follow the name of a property. -/
def followsName (name : PropertyName) : Kind → Bool
  | .word _ | .name _ | .text _ | .number => true
  | .mark "\x7d" => name.isWord
  | .mark text => ["(", "[", ":", ",", "?", "=", "*", "<"].contains text
  | _ => false

/-- A property that is read or written through a function, or an asynchronous method, from its name
on. Of the parameters no more are kept than it can have. -/
def announcedProperty (g : Grammar) (start : Nat) (text : String) : Parse Property := do
  let isAsync := text == "async"
  let isGenerator ← pure isAsync <&&> eatMark "*"
  let name ← propertyName g
  let .mk inputs body types ← method g isAsync isGenerator
  let inputs := match text with
    | "get" => []
    | "set" => inputs.take 2
    | _ => inputs
  return .method start name.key (.mk inputs body types)

/-- A property of an object. With types, a name that nothing fits behind stands without a value. -/
def property (g : Grammar) : Parse Property := do
  let start ← position
  if ← eatMark "..." then return .spread (← g.assign)
  if ← eatMark "*" then
    let name ← propertyName g
    return .method start name.key (← method g false true)
  passPatternModifier
  let name ← propertyName g
  if (← typed) && !followsName name (← kind) then return .pair name.key .missing
  if ← eatMark ":" then return .pair name.key (← g.assign)
  if ← atMethod then return .method start name.key (← method g false false)
  ensure name.isWord
  let _ ← eatMark "?"
  if ← eatMark "=" then return .shorthand [← g.assign]
  if (← atMark ",") || (← atMark "\x7d") then return .shorthand []
  match name.text with
  | some text =>
    ensure (["get", "set", "async"].contains text)
    announcedProperty g start text
  | none => unexpected

/-- An object behind its opening brace. -/
def objectRest (g : Grammar) : Parse Expr :=
  return .object (← bracketed (strictItems "\x7d" (property g)))

/-! ## Operators -/

/-- What may be missing: nothing stands in its place then. -/
def orMissing (p : Parse Expr) : Parse Expr := do
  match ← mend p with
  | .ok e => return e
  | .error _ => return .missing

/-- An expression that waits for a value. Outside asynchronous functions the word is a name where
no operand can follow. -/
def awaitExpression (g : Grammar) : Parse Expr := do
  word "await"
  if ← atMark "*" then unexpected
  if !(← read).inAsync && ((← atMarks [")", "]", ","]) || (← atEnd)) then return .name "await"
  return .operation .await [← g.unary]

/-- A type in angle brackets and the operand that it is for. -/
def castExpression (g : Grammar) : Parse Expr := do
  mark "<"
  if ← eatWord "const" then
    closeAngle
    return .typed .constant (← g.unary) []
  let types ← g.plainType
  closeAngle
  return .typed .cast (← g.unary) types

/-- An operand and an operator that changes it behind it. -/
def updated (g : Grammar) : Parse Expr := do
  let e ← g.operand
  match e with
  | .arrow _ => return e
  | _ =>
    if !(← newLine) && (← atMarks ["++", "--"]) then
      advance
      return .operation .update [e]
    return e

/-- An operand with the operators before it. -/
def unary (g : Grammar) : Parse Expr := do
  let applied : Parse Expr := do
    advance
    return .operation .unary [← orMissing g.unary]
  match ← kind with
  | .mark text =>
    if text == "<" && (← typed) && !(← read).dialect.markup then castExpression g
    else if text == "++" || text == "--" then
      advance
      return .operation .update [← g.unary]
    else if prefixMarks.contains text then applied
    else updated g
  | .word text =>
    if prefixWords.contains text then applied
    else if text == "await" then awaitExpression g
    else updated g
  | _ => updated g

/-- Whether an expression is an operator before its operand. -/
def isPrefixed : Expr → Bool
  | .operation .unary _ | .operation .await _ => true
  | _ => false

/-- What a type annotation behind an operand makes of it, if one follows. -/
def annotatedOperand? (g : Grammar) (e : Expr) : Parse (Option Expr) := do
  unless (← typed) && !(← newLine) do return none
  if ← eatWord "as" then
    if ← eatWord "const" then return some (.typed .constant e [])
    return some (.typed .asserted e (← g.type))
  if ← eatWord "satisfies" then return some (.typed .satisfied e (← g.type))
  return none

/-- The operators between operands behind a first one, as long as they bind tighter than a level. A
power whose base has an operator before it is refused. -/
def binary (g : Grammar) (first : Expr) (level : Nat) : Parse Expr :=
  loop first fun left => do
    if level < wordLevel then
      if let some e ← annotatedOperand? g left then return .yield e
    let some tightness ← binaryLevel? | return .done left
    if tightness ≤ level then return .done left
    let isPower ← atMark "**"
    advance
    if isPower && isPrefixed left then unexpected
    let operand ← g.unary
    let right ← g.binary operand (if isPower then tightness - 1 else tightness)
    return .yield (.operation .binary [left, right])

/-- Operands joined by binary operators. The first may be missing. -/
def operators (g : Grammar) : Parse Expr := do
  match ← mend g.unary with
  | .ok (.arrow f) => return .arrow f
  | .ok e => g.binary e 0
  | .error refusal =>
    match ← kind with
    | .finish | .fault _ => fail
    | _ => if (← binaryLevel?).isSome then g.binary .missing 0 else throw refusal

/-- The two branches of a condition, behind its question mark. -/
def branches (g : Grammar) (test : Expr) : Parse Expr := do
  let branch (colonAhead : Bool) (s : Setting) : Setting := { s with inBranch := true, colonAhead }
  let positive ← withReader (branch true) (withIn g.assign)
  mark ":"
  let negative ← withReader (branch false) g.assign
  return .operation .condition [test, positive, negative]

/-- Operators up to a condition. -/
def conditional (g : Grammar) : Parse Expr := do
  match ← operators g with
  | .arrow f => return .arrow f
  | first => if ← eatMark "?" then branches g first else return first

/-- What a pattern makes of an expression. -/
def asPattern (use : PatternUse) (e : Expr) : Parse Expr :=
  match e.toPattern use with
  | .ok pattern => return pattern
  | .error position => failAt position

/-- An assignment, if a first expression turns out to be its target. -/
def assignmentFrom (g : Grammar) (start : Nat) (first : Expr) : Parse Expr := do
  match ← kind with
  | .mark text =>
    if text == "=" then
      let target ← asPattern .target first
      unless target.isTarget do failAt start
      advance
      return .assign target (← g.assign)
    if compoundMarks.contains text then
      unless first.isPlace do failAt start
      advance
      return .operation .compound [first, ← g.assign]
    return first
  | _ => return first

/-! ## Parentheses and arrows -/

/-- The rest of an arrow function, behind its arrow. -/
def arrowFrom (g : Grammar) (isAsync : Bool) (inputs types : List Expr) : Parse Expr :=
  withReader (fun s => { s.inFunction isAsync false with inParameters := false }) do
    if ← atMark "\x7b" then
      return .arrow (.mk inputs (← block g) types)
    return .arrow (.mk inputs [.evaluate [← g.assign]] types)

/-- Something between parentheses. -/
inductive ParenItem
  /-- A value, which can be a parameter as well. -/
  | value (a : Argument)
  /-- What can only be a parameter; it may take all remaining arguments. -/
  | parameter (rest : Bool) (pattern : Expr)

/-- Whether something can only be a parameter. -/
def ParenItem.isParameter : ParenItem → Bool
  | .parameter .. => true
  | .value _ => false

/-- Whether something is a single name. -/
def ParenItem.isName : ParenItem → Bool
  | .value (.mk _ _ (.name _)) => true
  | .parameter false (.name _) | .parameter false (.typed .declared (.name _) _) => true
  | _ => false

/-- The parameters that the items between parentheses are. One that takes all remaining arguments
counts only as the last. -/
def parametersOf : List ParenItem → Parse (List Expr)
  | [] => return []
  | .parameter rest pattern :: more => do
    let others ← parametersOf more
    return if rest && !more.isEmpty then others else pattern :: others
  | .value (.mk spread _ e) :: more => do
    if spread && !more.isEmpty then return ← parametersOf more
    let pattern ← asPattern .binding e
    return pattern :: (← parametersOf more)

/-- The value before a mark that only a parameter has, read as that parameter from there on. -/
def typedParameter (g : Grammar) (rest : Bool) (e : Expr) : Parse ParenItem := do
  let target ← asPattern .binding e
  let target ← match rest, target with
    | true, target => annotated g target
    | false, .missing => pure target
    | false, .assign .. => do
      let _ ← annotation g
      pure target
    | false, target => annotated g target
  if ← eatMark "=" then return .parameter rest (.assign target (← g.assign))
  return .parameter rest target

/-- An item between parentheses where types may stand. A question mark belongs to a condition or
to a parameter that may be missing. -/
def typedItem (g : Grammar) (start : Nat) (spread : Bool) (e : Expr) (span : Span) :
    Parse ParenItem := do
  let mayBeMissing ← atMark "?" <&&> do
    match (← following).kind with
    | .mark text => return [",", ":", ")", "="].contains text
    | _ => return false
  if mayBeMissing then
    advance
    match e with
    | .name _ => return ← typedParameter g spread e
    | _ => failAt start
  if ← pure !spread <&&> eatMark "?" then
    let e ← branches g e
    if ← atMark ":" then return ← typedParameter g spread e
    return .value (.mk spread (← spanFrom span.start) e)
  if ← atMark ":" then return ← typedParameter g spread e
  return .value (.mk spread span e)

/-- An item between parentheses. -/
def parenItem (g : Grammar) : Parse ParenItem := do
  setArrowStart (some (← position))
  unless ← typed do return .value (← argument g)
  passPatternModifier
  let start ← position
  let startsName := (← atName) || ((← atMark "...") && (← isName (← following).kind))
  let .mk spread span e ← if startsName then do
      let spread ← eatMark "..."
      let inner ← position
      let e ← operators g
      let e ← if spread then pure e else assignmentFrom g inner e
      pure (Argument.mk spread (← spanFrom inner) e)
    else argument g
  typedItem g start spread e span

/-- The items between parentheses, in the order of the source, and the closing parenthesis. An arrow
on a new line behind a name belongs to a function whose parameters are all items so far. -/
def parenItems (g : Grammar) : Parse (List ParenItem) := do
  mark "("
  let found ← loop [] fun found => do
    if (← atMark ")") || (← atFinish) then return .done found
    let found := found ++ [← parenItem g]
    let found ← if ← eatMark "=>" then do
        if found.head?.any ParenItem.isName then
          let start ← position
          let e ← arrowFrom g false (← parametersOf found) []
          pure (found ++ [.value (.mk false (← spanFrom start) e)])
        else pure found
      else pure found
    unless ← atMark ")" do mark ","
    return .yield found
  mark ")"
  return found

/-- An arrow function behind its parameters as the branch of a condition, with the type of its
result. The colon of that condition must be left over. -/
def branchArrow (g : Grammar) (isAsync : Bool) (found : List ParenItem) : Parse Expr := do
  mark ":"
  let types ← returnType g
  mark "=>"
  let e ← arrowFrom g isAsync (← parametersOf found) types
  if (← read).colonAhead then ensure (← atMark ":")
  return e

/-- The type of a result in front of an arrow, if there is one. -/
def arrowResult? (g : Grammar) : Parse (Option (List Expr)) := do
  if (← read).colonAhead || !(← typed) || !(← atMark ":") then return none
  attempt do
    mark ":"
    let types ← returnType g
    ensure (← atMark "=>")
    return types

/-- The values between parentheses that no arrow follows. None of them may be spread. -/
def groupOf (start : Nat) (found : List ParenItem) : Parse Expr := do
  let values ← found.mapM fun
    | .value (.mk false _ e) => pure e
    | .value (.mk true span _) => failAt span.start
    | .parameter .. => failAt start
  match values with
  | [] => failAt start
  | [e] => return .group e
  | es => return .group (.operation .sequence es)

/-- What parentheses turn out to be. The start is that of the whole expression; a word `async`
before them makes them arguments where no arrow follows. -/
def parenthesized (g : Grammar) (start : Nat) (arrows isAsync : Bool) : Parse Expr := do
  let found ← bracketed (parenItems g)
  if (← typed) && (← read).inBranch && (← atMark ":") then
    if let some e ← attempt (branchArrow g isAsync found) then return e
  let types ← arrowResult? g
  if found.any ParenItem.isParameter || types.isSome || (← atMark "=>") then
    if (← newLine) || !arrows then failAt start
    mark "=>"
    let isBlock ← atMark "\x7b"
    let e ← arrowFrom g isAsync (← parametersOf found) (types.getD [])
    if isBlock && (← atBinaryMark) then return ← g.binary e 0
    return e
  if isAsync then
    let arguments := found.filterMap fun
      | .value a => some a
      | .parameter .. => none
    return .call (.value (.name "async")) arguments []
  groupOf start found

/-! ## Operands -/

/-- An arrow function behind its type parameters and the word `async`. -/
def genericAsyncArrow (g : Grammar) : Parse Expr := do
  word "async"
  let generic ← typeParametersHere g
  let inputs ← parameters g
  let result ← resultAnnotation g
  mark "=>"
  match ← arrowFrom g true inputs (generic ++ result) with
  | .arrow f => return .arrow f
  | _ => unexpected

/-- A name, or an arrow function of which it is the parameter or the announcement. -/
def nameOperand (g : Grammar) (arrows : Bool) : Parse Expr := do
  let s ← read
  let name ← identifierWith (!s.inGenerator) (!s.inAsync)
  if arrows && name == "async" && !(← newLine) && (← atName) then
    if s.inLoopHead && (← atWord "of") && (← following).kind != .mark "=>" then return .name name
    let input ← binding false
    if (← typed) && input == "as" && !(← atMark "=>") then
      return .typed .asserted (.name name) (← g.type)
    mark "=>"
    return ← arrowFrom g true [.name input] []
  let mayGoOn := arrows && !(← newLine)
  if ← pure mayGoOn <&&> eatMark "=>" then
    return ← arrowFrom g false [.name name] []
  return .name name

/-- What starts with the word `async`. -/
def asyncOperand (g : Grammar) (start : Nat) (arrows : Bool) : Parse Expr := do
  if ← atAsyncFunction then
    advance
    return .function (← functionFrom g true .value)
  let next ← following
  if arrows && (← typed) && next.kind == .mark "<" then
    if let some e ← attempt (genericAsyncArrow g) then return e
  if arrows && next.kind == .mark "(" && !next.newLine then
    advance
    return ← parenthesized g start true true
  nameOperand g arrows

/-- An operand that starts with a word. -/
def wordOperand (g : Grammar) (start : Nat) (arrows : Bool) (text : String) : Parse Expr := do
  match text with
  | "this" | "null" | "true" | "false" => advance; return .atom
  | "function" => return .function (← functionFrom g false .value)
  | "class" => return .classValue (← classFrom g false)
  | "async" => asyncOperand g start arrows
  | _ =>
    ensure ((← atName) || text == "let" || (text == "await" && (← typed)))
    nameOperand g arrows

/-- An operand without what stands behind it. -/
def simpleOperand (g : Grammar) : Parse Expr := do
  let start ← position
  let arrows := (← get).arrowStart == some start
  match ← kind with
  | .word text => wordOperand g start arrows text
  | .name _ => nameOperand g arrows
  | .number => advance; return .atom
  | .text value => advance; return .text value
  | .mark "[" => return .array (← arrayItems g)
  | .mark "\x7b" => advance; objectRest g
  | .mark "`" => template g false
  | .mark "(" => parenthesized g start arrows false
  | .mark "/" | .mark "/=" => regularExpression
  | .mark "#" =>
    advance
    let _ ← anyWord
    return .atom
  | _ => unexpected

/-- The way to a parent class, behind the word `super`. Its members are found in methods only,
unless types are checked elsewhere. -/
def parentOperand (g : Grammar) (start : Nat) (form : ChainForm) : Parse Expr := do
  let allowed := (← read).inMethod || (← typed)
  let first ← match ← kind with
    | .mark "(" =>
      ensure form.calls
      pure (Expr.call (.value .atom) (← callArguments g) [])
    | .mark "[" =>
      let .mk _ _ key ← bracketKey g
      unless allowed do failAt start
      pure (Expr.index .atom key)
    | .mark "." =>
      advance
      let (name, isPrivate) ← memberName
      unless allowed do failAt start
      ensure !isPrivate
      pure (Expr.member .atom name)
    | .mark "!" =>
      if (← typed) && !(← newLine) then advance
      unexpected
    | _ =>
      if ← atOptionalDot then failAt start
      unexpected
  chain g form first

/-- What the word `import` starts, behind it: a call, or the module itself. -/
def importOperand (g : Grammar) (form : ChainForm) : Parse Expr := do
  if ← eatMark "." then
    match ← anyWord with
    | "meta" => return ← chain g form .importMeta
    | "source" | "defer" => pure ()
    | _ => unexpected
  ensure form.calls
  let start ← position
  mark "("
  let isLast : Parse Bool := atMark ")" <||> atFinish
  let arguments ← bracketed (manyUntil isLast do
    let a ← argument g
    unless ← atMark ")" do
      mark ","
      if (← atMark ")") && !(← typed) then failAt start
    return a)
  mark ")"
  chain g form (.call .dynamicImport arguments [])

/-- An operand with the members behind it, but no calls. -/
def memberOperand (g : Grammar) : Parse Expr := do
  let start ← position
  let form : ChainForm := { calls := false }
  if ← eatWord "new" then g.construct
  else if ← eatWord "super" then parentOperand g start form
  else if ← eatWord "import" then importOperand g form
  else
    match ← simpleOperand g with
    | .arrow f => return .arrow f
    | e => chain g form e

/-- Type arguments in front of the parenthesis of a call, if there are any. -/
def callTypes? (g : Grammar) : Parse (Option (List Expr)) := do
  unless (← typed) && ((← atMark "<") || (← atMark "<<")) do return none
  attempt do
    let types ← typeArguments g
    ensure (← atMark "(")
    return types

/-- Whether the last step of a chain steps over a missing value. -/
def endsOptional : Expr → Bool
  | .optional .. => true
  | _ => false

/-- What `new` is applied to, with its arguments. -/
def construct (g : Grammar) : Parse Expr := do
  let form : ChainForm := { calls := false }
  if ← eatMark "." then
    word "target"
    return ← chain g form .atom
  let start ← position
  match ← memberOperand g with
  | .arrow f => return .arrow f
  | callee =>
    if endsOptional callee then failAt start
    let types := (← callTypes? g).getD []
    if ← atMark "(" then
      return ← chain g form (.construct callee (← callArguments g) types)
    return .construct callee [] types

/-- An operand with all that stands behind it. -/
def operand (g : Grammar) : Parse Expr := do
  let start ← position
  if (← read).dialect.markup && (← atMark "<") then return ← g.markup
  if ← eatWord "super" then return ← parentOperand g start {}
  if ← eatWord "import" then return ← importOperand g {}
  match ← memberOperand g with
  | .arrow f => return .arrow f
  | callee =>
    let types := (← callTypes? g).getD []
    if ← atMark "(" then
      return ← chain g {} (called callee (← callArguments g) types)
    return callee

/-! ## Whole expressions -/

/-- An expression that hands a value out of a generator. -/
def yieldExpression (g : Grammar) : Parse Expr := do
  let start ← position
  word "yield"
  if (← read).inParameters then failAt start
  if ← atEnd then return .operation .yield []
  unless (← atMarks ["*", "/", "/="]) || startsExpression (← read).dialect (← kind) do
    return .operation .yield []
  let _ ← eatMark "*"
  return .operation .yield [← g.assign]

/-- Where an arrow function may start, if the next token can start one. -/
def arrowStartHere : Parse (Option Nat) := do
  let start ← position
  match ← kind with
  | .word text => return if isKeyWord text && text != "yield" then none else some start
  | .name _ | .mark "(" => return some start
  | .finish | .fault _ => fail
  | _ => return none

/-- An expression without commas that starts with no type parameters. -/
def plainAssign (g : Grammar) : Parse Expr := do
  if (← read).inGenerator && (← atWord "yield") then return ← yieldExpression g
  let start ← position
  setArrowStart (← arrowStartHere)
  match ← conditional g with
  | .arrow f => return .arrow f
  | .operation .condition es => return .operation .condition es
  | .operation .binary es => return .operation .binary es
  | .operation .unary es => return .operation .unary es
  | .operation .update es => return .operation .update es
  | first => assignmentFrom g start first

/-- An arrow function with type parameters. -/
def genericArrow (g : Grammar) : Parse Expr :=
  withoutColon do
    let generic ← typeParametersHere g
    match ← plainAssign g with
    | .arrow (.mk inputs body types) => return .arrow (.mk inputs body (generic ++ types))
    | _ => unexpected

/-- An expression without commas. -/
def assign (g : Grammar) : Parse Expr := do
  let dialect := (← read).dialect
  if dialect.types && (← atMark "<") then
    if dialect.markup then
      if let some e ← attempt (plainAssign g) then return e
    if isWord (← following).kind then
      if let some e ← attempt (genericArrow g) then return e
  plainAssign g

end FunctionArchive.Script.Parse
