import FunctionArchive.Script.Parser.Pattern

/-!
# Types

Types are read for where they end. All that is kept of one are the expressions written inside it,
such as the computed names of its members.
-/

set_option autoImplicit false

namespace FunctionArchive.Script.Parse

/-- Whether a word stands here and a certain token behind it. -/
def atWordThen (text : String) (next : Token → Bool) : Parse Bool := do
  return (← atWord text) && next (← following)

/-- Whether a token opens parameters, which types in angle brackets may precede. -/
def opensParameters (token : Token) : Bool :=
  match token.kind with
  | .mark text => text == "(" || text.startsWith "<"
  | _ => false

/-! ## Type parameters -/

/-- Modifiers of type parameters, whether they make sense or not. -/
def typeParameterModifiers : List String :=
  accessModifiers ++ ["readonly", "abstract", "const", "override", "in", "out"]

/-- A type parameter with its bound and its default. -/
def typeParameter (g : Grammar) : Parse (List Expr) := do
  passModifiers typeParameterModifiers
  let _ ← anyWord
  let bound ← if ← eatWord "extends" then g.type else pure []
  let fallback ← if ← eatMark "=" then g.type else pure []
  return bound ++ fallback

/-- The parameters of a generic declaration, from their angle bracket on. -/
def typeParametersHere (g : Grammar) : Parse (List Expr) := do
  mark "<"
  let parts ← delimited atCloseAngle (typeParameter g)
  closeAngle
  return parts.flatten

/-- The parameters of a generic declaration, if there are any. -/
def typeParameters (g : Grammar) : Parse (List Expr) := do
  if (← typed) && (← atMark "<") then typeParametersHere g else return []

/-! ## Functions and signatures -/

/-- A type, or the statement that a parameter has one. -/
def returnType (g : Grammar) : Parse (List Expr) := do
  let asserts ← atWord "asserts" <&&> do isName (← following).kind
  if asserts then advance
  let states ← atName <&&> do
    let next ← following
    return next.kind == .word "is" && !next.newLine
  unless asserts || states do return ← g.type
  let _ ← anyWord
  unless states do return []
  word "is"
  g.type

/-- The type of a result after a colon, if there is one here. -/
def resultAnnotation (g : Grammar) : Parse (List Expr) := do
  if ← typed <&&> eatMark ":" then returnType g else return []

/-- The parameters of a function type or a signature. None of them has a default. -/
def signatureParameters (g : Grammar) : Parse (List Expr) := do
  mark "("
  let inputs ← manyUntil (atMark ")") do
    let rest ← atMark "..."
    let input ← parameter g
    unless ← atMark ")" do mark ","
    return (rest, input)
  let fits : Bool × Expr → Bool
    | (false, .assign ..) => false
    | _ => true
  ensure (inputs.all fits)
  mark ")"
  return inputs.map (·.2)

/-- Whether the parameters of a function type start here. One parameter decides it. -/
def atFunctionType (g : Grammar) : Parse Bool := do
  if ← atOpenAngle then return true
  ahead do
    mark "("
    if (← atMark ")") || (← atMark "...") then return true
    passPatternModifier
    if (← atName) || (← atWord "this") then advance
    else
      ensure ((← atMark "\x7b") || (← atMark "["))
      let _ ← g.pattern false
    if ← atMarks [":", ",", "?", "="] then return true
    eatMark ")" <&&> atMark "=>"

/-- The rest of a function type: its parameters and, behind an arrow, its result. -/
def functionType (g : Grammar) : Parse (List Expr) := do
  let generic ← typeParameters g
  let inputs ← signatureParameters g
  mark "=>"
  return generic ++ inputs ++ (← returnType g)

/-- The end of a member of an object type. -/
def endMember : Parse Unit := do
  unless ← eatMark "," do semicolon

/-- A signature of a member: its parameters and its result. -/
def signature (g : Grammar) : Parse (List Expr) := do
  let generic ← typeParameters g
  let inputs ← signatureParameters g
  let result ← resultAnnotation g
  endMember
  return generic ++ inputs ++ result

/-! ## Members of object types -/

/-- An index signature, if one starts here. -/
def indexSignature? (g : Grammar) : Parse (Option (List Expr)) := do
  let starts ← ahead do
    mark "["
    ensure (← atName)
    advance
    atMarks [":", ","]
  unless (← typed) && starts do return none
  mark "["
  let _ ← anyWord
  unless ← eatMark "," do mark ":"
  let key ← g.type
  mark "]"
  let value ← annotation g
  endMember
  return some (key ++ value)

/-- The name of a member of an object type: the expression in it, if it is computed. -/
def typeMemberName (g : Grammar) : Parse (List Expr) := do
  match ← kind with
  | .mark "[" =>
    advance
    let e ← g.assign
    mark "]"
    return [e]
  | .text _ | .number => advance; return []
  | _ =>
    let _ ← memberName
    return []

/-- A member that is read or written through functions. -/
def accessorSignature (g : Grammar) : Parse (List Expr) := do
  if ← eatWord "get" then
    let name ← typeMemberName g
    mark "("
    mark ")"
    let value ← annotation g
    endMember
    return name ++ value
  word "set"
  let name ← typeMemberName g
  let inputs ← signatureParameters g
  ensure !inputs.isEmpty
  endMember
  return name ++ inputs

/-- A member of an object type. -/
def typeMember (g : Grammar) : Parse (List Expr) := do
  if (← atMark "(") || (← atOpenAngle) then return ← signature g
  if ← atWordThen "new" opensParameters then
    advance
    return ← signature g
  let readonly ← modifier? ["readonly"]
  if let some parts ← indexSignature? g then return parts
  if readonly.isNone then
    if let some parts ← attempt (accessorSignature g) then return parts
  let name ← typeMemberName g
  let _ ← eatMark "?"
  if (← atMark "(") || (← atOpenAngle) then
    ensure readonly.isNone
    return name ++ (← signature g)
  let value ← annotation g
  endMember
  return name ++ value

/-- The members of an object type, in braces. -/
def typeMembers (g : Grammar) : Parse (List Expr) := do
  mark "\x7b"
  let members ← manyUntil (eatMark "\x7d") (typeMember g)
  return members.flatten

/-- The sign that adds a modifier or takes one away, if it stands here. -/
def eatSign : Parse Bool := eatMark "+" <||> eatMark "-"

/-- Whether a brace opens a mapped type. -/
def atMappedType : Parse Bool := ahead do
  mark "\x7b"
  if ← eatSign then return ← atWord "readonly"
  let _ ← eatWord "readonly"
  mark "["
  ensure (← atName)
  advance
  atWord "in"

/-- A mapped type. -/
def mappedType (g : Grammar) : Parse (List Expr) := do
  mark "\x7b"
  if ← eatSign then word "readonly"
  else
    let _ ← eatWord "readonly"
  mark "["
  let _ ← anyWord
  word "in"
  let range ← g.type
  let renamed ← if ← eatWord "as" then g.type else pure []
  mark "]"
  if ← eatSign then mark "?"
  else
    let _ ← eatMark "?"
  let value ← annotation g
  let _ ← eatMark ";"
  mark "\x7d"
  return range ++ renamed ++ value

/-! ## Names of types -/

/-- The parts of a name behind its first. Nothing has to follow the last dot. -/
def dottedRest (reservedToo : Bool) : Parse Unit := do
  let _ ← loop () fun () => do
    unless ← eatMark "." do return .done ()
    unless (← atMark "#") || (← atAnyWord) do return .done ()
    let _ ← if reservedToo then anyWord else identifierWith false false
    return .yield ()

/-- Type arguments on the same line, if there are any. -/
def argumentsHere (g : Grammar) : Parse (List Expr) := do
  if (← atOpenAngle) && !(← newLine) then typeArguments g else return []

/-- A type given by its name. -/
def namedType (g : Grammar) : Parse (List Expr) := do
  passPatternModifier
  let _ ← anyWord
  dottedRest true
  argumentsHere g

/-- The type of a module. Whatever token stands in its place is let pass for its name. -/
def importType (g : Grammar) : Parse (List Expr) := do
  word "import"
  mark "("
  match ← kind with
  | .finish | .fault _ => fail
  | _ => advance
  mark ")"
  if ← eatMark "." then
    let _ ← anyWord
    dottedRest false
  if ← atOpenAngle then typeArguments g else return []

/-- The type of a variable. -/
def typeQuery (g : Grammar) : Parse (List Expr) := do
  word "typeof"
  let inner ← if ← atWord "import" then importType g else do
    let _ ← anyWord
    dottedRest true
    pure []
  return inner ++ (← argumentsHere g)

/-! ## Other types -/

/-- The piece of a template from a position on; the token behind it is looked at next. -/
def templatePiece (position : Nat) : Parse Token.Piece := do
  let source := (← read).source
  match Token.templatePiece? source (source.size + 1) position (.ok []) with
  | none =>
    acceptFrom source.size source.size
    failAt source.size
  | some piece =>
    acceptFrom (if piece.closed then piece.stop - 1 else piece.stop - 2) piece.stop
    return piece

/-- A template among types. -/
def templateType (g : Grammar) : Parse (List Expr) := do
  let (_, parts) ← loop ((← token).stop, ([] : List Expr)) fun (position, parts) => do
    let piece ← templatePiece position
    if let .error escape := piece.value then failAt escape
    if piece.closed then return .done (piece.stop, parts)
    let inner ← g.type
    ensure (← atMark "\x7d")
    return .yield ((← token).stop, parts ++ inner)
  return parts

/-- The name of an element of a tuple type. -/
def tupleLabel : Parse Unit := do
  let _ ← eatMark "..."
  let _ ← anyWord
  let _ ← eatMark "?"
  mark ":"

/-- What an element of a tuple type says about its presence. -/
inductive TuplePresence
  | required
  | optional
  | rest
deriving DecidableEq

/-- An element of a tuple type. -/
def tupleElement (g : Grammar) : Parse (TuplePresence × List Expr) := do
  let _ ← attempt tupleLabel
  if ← eatMark "..." then return (.rest, ← g.type)
  let parts ← g.type
  return (if ← eatMark "?" then .optional else .required, parts)

/-- A tuple type. No required element follows an optional one. -/
def tupleType (g : Grammar) : Parse (List Expr) := do
  let start ← position
  mark "["
  let elements ← delimited (atMark "]") (tupleElement g)
  mark "]"
  let fromOptional := elements.dropWhile (·.1 != .optional)
  if fromOptional.any (·.1 == .required) then failAt start
  return (elements.map (·.2)).flatten

/-- Words that are types, unless a dot follows. -/
def typeWords : List String :=
  ["void", "null", "any", "boolean", "bigint", "never", "number", "object", "string", "symbol",
    "unknown", "undefined", "intrinsic"]

/-- Reserved words that are let pass for the name of a type. -/
def reservedTypeWords : List String := ["void", "yield", "null", "await", "break"]

/-- The type of the object itself, and what is stated about it. -/
def selfType (g : Grammar) : Parse (List Expr) := do
  word "this"
  if (← atWord "is") && !(← newLine) then
    advance
    g.type
  else return []

/-- A type that starts with a word. -/
def wordType (g : Grammar) (text : String) : Parse (List Expr) := do
  match text with
  | "true" | "false" => advance; return []
  | "import" => importType g
  | "this" => selfType g
  | "typeof" => typeQuery g
  | _ =>
    if isKeyWord text && !reservedTypeWords.contains text then fail
    if ← atWordThen "asserts" (·.kind == .word "this") then
      advance
      advance
      if ← eatWord "is" then return ← g.type else return []
    if typeWords.contains text && (← following).kind != .mark "." then
      advance
      return []
    namedType g

/-- A type without operators around it. -/
def primaryType (g : Grammar) : Parse (List Expr) := do
  match ← kind with
  | .word text => wordType g text
  | .name _ => namedType g
  | .text _ | .number => advance; return []
  | .mark "\x7b" => if ← atMappedType then mappedType g else typeMembers g
  | .mark "[" => tupleType g
  | .mark "(" =>
    advance
    let inner ← g.type
    mark ")"
    return inner
  | .mark "`" => templateType g
  | .mark "-" =>
    advance
    ensure ((← kind) == .number)
    advance
    return []
  | _ => fail

/-- A type with what is written behind it: brackets of arrays and of members. -/
def postfixType (g : Grammar) : Parse (List Expr) := do
  let first ← primaryType g
  let rest ← manyUntil (return !(← atMark "[") || (← newLine)) do
    advance
    if ← eatMark "]" then return []
    let key ← g.type
    mark "]"
    return key
  return first ++ rest.flatten

/-- A type that a pattern introduces, with its bound. The bound goes with it unless it could be the
bound of a condition. -/
def inferredType (g : Grammar) : Parse (List Expr) := do
  word "infer"
  let _ ← anyWord
  let bound ← attempt do
    word "extends"
    let bound ← g.plainType
    ensure ((← read).inBound || !(← atMark "?"))
    return bound
  return bound.getD []

/-- A type with the operators before it. -/
def operatorType (g : Grammar) : Parse (List Expr) := do
  let _ ← manyUntil (return !((← atWord "keyof") || (← atWord "unique") || (← atWord "readonly")))
    advance
  if ← atWord "infer" then inferredType g else postfixType g

/-- Types joined by a mark, which may stand before the first as well. -/
def joinedTypes (text : String) (part : Parse (List Expr)) : Parse (List Expr) := do
  let _ ← eatMark text
  let first ← part
  let rest ← manyUntil (return !(← atMark text)) do
    advance
    part
  return first ++ rest.flatten

/-- A type that is no condition. -/
def plainType (g : Grammar) : Parse (List Expr) := do
  if ← atFunctionType g then return ← functionType g
  if ← atWordThen "abstract" (·.kind == .word "new") then advance
  if ← eatWord "new" then return ← functionType g
  joinedTypes "|" (joinedTypes "&" (operatorType g))

/-- A type: a plain one, or a condition on one. -/
def type (g : Grammar) : Parse (List Expr) := do
  let first ← withReader (fun s => { s with inBound := false }) g.plainType
  if ← newLine then return first
  unless ← eatWord "extends" do return first
  let bound ← withReader (fun s => { s with inBound := true }) g.plainType
  mark "?"
  let positive ← g.type
  mark ":"
  return first ++ bound ++ positive ++ (← g.type)

end FunctionArchive.Script.Parse
