import FunctionArchive.Script.Parser.Chain

/-!
# Functions and classes

A body is closed by its brace or by the end of the source.
-/

set_option autoImplicit false

namespace FunctionArchive.Script

/-- The setting inside a function. -/
def Setting.inFunction (s : Setting) (isAsync isGenerator : Bool) : Setting :=
  { s with inAsync := isAsync, inGenerator := isGenerator, inClassBlock := false }

namespace Parse

/-! ## Bodies -/

/-- Whether the next token asks for the strict rules, in so many characters. -/
def atStrictDirective : Parse Bool := do
  let t ← token
  let spelling := String.ofList ((← read).source.extract t.start t.stop).toList
  return spelling == "'use strict'" || spelling == "\"use strict\""

/-- Whether a statement is nothing but a text. -/
def isTextStatement : Stmt → Bool
  | .evaluate [.text _] => true
  | _ => false

/-- The statements of a program or a function. The first of them may ask for the strict rules. -/
def directedStatements (stop : Parse Bool) (item : Parse Stmt) : Parse (List Stmt) := do
  if ← stop then return []
  let directive ← atStrictDirective
  let first ← item
  let strictly (s : Setting) : Setting :=
    if directive && isTextStatement first then { s with strict := true } else s
  return first :: (← withReader strictly (manyUntil stop item))

/-- Whether a block ends here: at its brace, which is accepted, or at the end of the source. -/
def blockEnd : Parse Bool := eatMark "\x7d" <||> atFinish

/-- Statements in braces. -/
def block (g : Grammar) : Parse (List Stmt) := do
  mark "\x7b"
  manyUntil blockEnd (g.statement true)

/-- The body of a function. With types it may be missing, unless the function is a value. -/
def functionBody (g : Grammar) (isValue : Bool) : Parse (List Stmt) := do
  if (← typed) && !(← atMark "\x7b") then
    if ← endHere then
      if isValue then unexpected else return []
  withReader (fun s => { s with inParameters := false, inOperator := true }) do
    mark "\x7b"
    directedStatements blockEnd (g.statement true)

/-! ## Functions -/

/-- A function from its parameters on. -/
def functionRest (g : Grammar) (isAsync isGenerator isValue : Bool) : Parse Function :=
  withReader (·.inFunction isAsync isGenerator) do
    let generic ← typeParameters g
    let inputs ← withReader (fun s => { s with inParameters := true }) (parameters g)
    let result ← resultAnnotation g
    return .mk inputs (← functionBody g isValue) (generic ++ result)

/-- A method from its parameters on. -/
def method (g : Grammar) (isAsync isGenerator : Bool) : Parse Function :=
  withReader (fun s => { s with inMethod := true }) (functionRest g isAsync isGenerator false)

/-- A name that may be left out. -/
def optionalBinding : Parse Unit := do
  if (← atName) || ((← typed) && (← atWord "this")) then
    let _ ← binding false

/-- Where a function is written from the word `function` on. -/
inductive FunctionPlace
  /-- A statement of its own. -/
  | declaration
  /-- What a module exports by default. -/
  | defaultExport
  | value
deriving DecidableEq

/-- A function from the word `function` on. A declaration needs a name. -/
def functionFrom (g : Grammar) (isAsync : Bool) (place : FunctionPlace) : Parse Function := do
  word "function"
  let isGenerator ← eatMark "*"
  if place == .declaration then
    let _ ← binding false
  else withReader (·.inFunction isAsync isGenerator) optionalBinding
  withReader (fun s => { s with inMethod := false, colonAhead := false })
    (functionRest g isAsync isGenerator (place == .value))

/-- Whether an asynchronous function starts here. -/
def atAsyncFunction : Parse Bool :=
  atWordThen "async" fun next => next.kind == .word "function" && !next.newLine

/-! ## Members of classes -/

/-- The modifiers that a member has so far. -/
structure MemberForm where
  start : Nat
  isStatic : Bool := false
  /-- Whether a field is read and written through functions. -/
  isAccessor : Bool := false
  /-- Whether it says who may use it. -/
  hasAccess : Bool := false
  isAbstract : Bool := false
  isOverride : Bool := false
  isReadonly : Bool := false

/-- Whether the parameters of a method start here. -/
def atMethod : Parse Bool := do
  return (← atMark "(") || ((← typed) && (← atMark "<"))

/-- Whether a field goes on here behind its name. The end of a line may end it. -/
def atField (lineEnds : Bool) : Parse Bool := do
  if (← typed) && (← atMarks ["!", ":"]) then return true
  if ← atMarks ["=", "\x7d", ";"] then return true
  return lineEnds && (← atEnd)

/-- The mark of a member that may be missing. -/
def eatMissingMark : Parse Bool := typed <&&> eatMark "?"

/-- A field from what follows its name on. Nothing has to separate it from the next member. -/
def field (g : Grammar) (key : Key) (mayBeMissing : Bool) : Parse Member := do
  if (← typed) && !mayBeMissing then
    let _ ← eatMark "!"
  let types ← annotation g
  let value ← if ← eatMark "=" then pure [← withIn g.assign] else pure []
  let _ ← endHere
  return .field key (value ++ types)

/-- A member whose name is the word before it, if what follows shows that the word is a name. -/
def wordMember? (g : Grammar) (lineEnds : Bool) : Parse (Option Member) := do
  if ← atMethod then return some (.method .plain (← method g false false))
  if (← atField lineEnds) || ((← typed) && (← atMark "?")) then
    return some (← field g .plain (← eatMissingMark))
  return none

/-- The name of a member. -/
def memberKey (g : Grammar) : Parse PropertyName := do
  if ← atMark "#" then
    let _ ← privateName
    return ⟨.plain, none, false⟩
  propertyName g

/-- The name of a member that makes the objects of its class. -/
def constructorName : String := "constructor"

/-- The member that makes the objects of a class, from its parameters on. -/
def constructorRest (g : Grammar) : Parse Function := do
  let _ ← typeParameters g
  mark "("
  let inputs ← parametersRest (fieldParameter g)
  let _ ← annotation g
  let body ← withReader (fun s => { s.inFunction false false with inMethod := true })
    (functionBody g false)
  return .mk inputs body []

/-- Whether a block stands here that runs with the class. -/
def atStaticBlock : Parse Bool := atWordThen "static" (·.kind == .mark "\x7b")

/-- A block that runs with the class, from its brace on. -/
def staticBlock (g : Grammar) : Parse Member :=
  return .block (← withReader (fun s => { s with inClassBlock := true }) (block g))

/-- A member from its name on. -/
def namedMember (g : Grammar) (form : MemberForm) : Parse Member := do
  let start ← position
  let name ← memberKey g
  let mayBeMissing ← eatMissingMark
  if ← atMethod then
    if form.isReadonly then failAt form.start
    if name.text == some constructorName then
      return .method name.key (← constructorRest g)
    return .method name.key (← method g false false)
  let accesses := name.isWord && (name.text == some "get" || name.text == some "set")
  let starNext := (← newLine) && (← atMark "*")
  let isAccessor := accesses && !(← atField false) && !starNext
  if !isAccessor && (← atField true) then
    if name.text == some constructorName then failAt start
    return ← field g name.key mayBeMissing
  if name.isWord && name.text == some "async" && !(← newLine) then
    let _ ← modifier? ["override"]
    let isGenerator ← eatMark "*"
    let start ← position
    let name ← memberKey g
    if name.text == some constructorName then failAt start
    let _ ← eatMissingMark
    return .method name.key (← method g true isGenerator)
  ensure isAccessor
  let name ← memberKey g
  return .method name.key (← method g false false)

/-- The modifiers that stand between the first words of a member and its name. -/
def memberModifiers (start : MemberForm) : Parse MemberForm :=
  loop start fun form => do
    if ← atStaticBlock then return .done form
    match ← modifier? ["abstract", "readonly", "override", "static"] with
    | some "abstract" => return .yield { form with isAbstract := true }
    | some "override" => return .yield { form with isOverride := true }
    | some "readonly" => return .yield { form with isReadonly := true }
    | some _ => return .yield { form with isStatic := true }
    | none => return .done form

/-- A member behind the words that may stand before any member. -/
def memberRest (g : Grammar) (start : MemberForm) : Parse Member := do
  let form ← memberModifiers start
  if (← typed) && !form.isAccessor && !form.isReadonly then
    if ← atWordThen "accessor" (·.kind != .mark "(") then advance
  if form.isStatic && (← atMark "\x7b") then return ← staticBlock g
  if ← atStaticBlock then
    advance
    return ← staticBlock g
  unless form.isAbstract || form.isOverride || form.hasAccess do
    if let some parts ← indexSignature? g then return .field .plain parts
  if ← eatMark "*" then
    let name ← memberKey g
    return .method name.key (← method g false true)
  namedMember g form

/-- A member of a class. -/
def member (g : Grammar) : Parse Member := do
  let start ← position
  let eatDeclare : Parse Bool := typed <&&> eatWord "declare"
  let declared ← eatDeclare
  let access ← modifier? (accessModifiers ++ ["in", "out"])
  let declared ← pure declared <||> eatDeclare
  if declared then
    if let some m ← wordMember? g true then return m
  let isStatic ← eatWord "static"
  if isStatic then
    if let some m ← wordMember? g false then return m
  let isAccessor ← typed <&&> eatWord "accessor"
  if isAccessor then
    if let some m ← wordMember? g true then return m
  memberRest g { start, hasAccess := access.isSome, isStatic, isAccessor }

/-! ## Classes -/

/-- The members of a class, in braces. -/
def members (g : Grammar) : Parse (List Member) := do
  mark "\x7b"
  let groups ← manyUntil blockEnd do
    if ← eatMark ";" then return []
    return [← member g]
  return groups.flatten

/-- What a class builds on. -/
structure Heritage where
  parent : List Expr := []
  types : List Expr := []

/-- The class that a class extends, with its type arguments. -/
def parentClass (g : Grammar) : Parse Heritage := do
  match ← g.operand with
  | .typed .instantiated e types => return ⟨[e], types⟩
  | e =>
    let types ← if (← typed) && (← atOpenAngle) then typeArguments g else pure []
    return ⟨[e], types⟩

/-- What a class extends and implements. What is said twice does not count the second time. -/
def heritage (g : Grammar) : Parse Heritage := do
  let early ← if ← eatWord "extends" then
      let parent ← parentClass g
      if ← typed <&&> eatMark "," then
        let _ ← parentTypes g
      pure parent
    else pure {}
  if ← eatWord "extends" then
    let _ ← parentClass g
  unless ← typed do return early
  let declared ← if ← eatWord "implements" then parentTypes g else pure []
  if ← eatWord "implements" then
    let _ ← parentTypes g
  let late ← if ← eatWord "extends" then parentClass g else pure {}
  let chosen := if early.parent.isEmpty then late else early
  return { chosen with types := chosen.types ++ declared }

/-- A class from the word `class` on. A declaration needs a name. The strict rules hold inside. -/
def classFrom (g : Grammar) (declaration : Bool) : Parse Class :=
  withReader (fun s => { s with strict := true }) do
    word "class"
    if declaration || (← atName) || ((← typed) && (← atWord "this")) then
      let _ ← binding true
    let generic ← typeParameters g
    let parents ← heritage g
    let body ← withReader (fun s => { s with inMethod := true, colonAhead := false }) (members g)
    return .mk body (parents.parent ++ generic ++ parents.types)

end Parse

end FunctionArchive.Script
