import FunctionArchive.Script.Parser.Statements

/-!
# Imports and exports

They stand only at the top of a source, or of a namespace, and make the source a module from there
on.
-/

set_option autoImplicit false

namespace FunctionArchive.Script.Parse

/-! ## Names and modules -/

/-- The name of an imported or exported item: a word or a string. The text of a word is given. -/
def itemName : Parse (Option String) := do
  match ← kind with
  | .text _ => advance; return none
  | .word text | .name text => advance; return some text
  | _ => fail

/-- The names between the braces of an import or export. -/
def itemList (item : Parse Unit) : Parse Unit := do
  mark "\x7b"
  let _ ← items "\x7d" item

/-- What may follow the word `type` in front of the name of an item, which the word `as` can be. It
tells whether the whole item has been read. -/
def typedItemName (rename : Parse Unit) : Parse Bool := do
  if (← anyWord) != "as" then return false
  if ← atAnyWord then
    if ← atWord "as" then
      advance
      if ← atAnyWord then rename
    else rename
  return true

/-- Whether the word that was the name of an item so far announces that the item is a type. -/
def announcesType (name : Option String) : Parse Bool := do
  return (← typed) && name == some "type" && (← atAnyWord)

/-- An item of an import. -/
def importedItem : Parse Unit := do
  let start ← position
  let rename : Parse Unit := do
    let _ ← binding false
  let name ← itemName
  if ← announcesType name then
    if ← typedItemName rename then return
  if ← eatWord "as" then rename
  else if name.isNone then failAt start

/-- An item of an export. -/
def exportedItem : Parse Unit := do
  let rename : Parse Unit := do
    let _ ← anyWord
  if ← announcesType (← itemName) then
    if ← typedItemName rename then return
  if ← eatWord "as" then
    let _ ← itemName

/-- What is stated about an imported module, in braces, if something is. The brace is taken on
trust. -/
def attributes (g : Grammar) : Parse Unit := do
  if (← typed) && !(← newLine) && ((← atWord "assert") || (← atWord "with")) then
    advance
    match ← kind with
    | .finish | .fault _ => fail
    | _ => advance
    let _ ← objectRest g

/-- The module behind the word `from`, with its attributes and the end of the statement. -/
def sourceModule (g : Grammar) : Parse Unit := do
  word "from"
  match ← kind with
  | .text _ => advance
  | _ => fail
  attributes g
  semicolon

/-- What a name stands for in an import that gives one: a module or another name. -/
def importAlias : Parse Unit := do
  mark "="
  if ← atWordThen "require" (·.kind == .mark "(") then
    advance
    advance
    match ← kind with
    | .text _ => advance
    | _ => fail
    mark ")"
  else
    let _ ← anyWord
    dottedRest false
  semicolon

/-! ## Imports -/

/-- A name that an import introduces. -/
def importedBinding : Parse String :=
  withReader (fun s => { s with inAsync := false, inGenerator := false }) (binding false)

/-- What an import introduces by a single name. -/
inductive ImportStart
  /-- Nothing, or only a word that says how to import. -/
  | none
  | name
  /-- The name stands for what an equals sign gives it. -/
  | alias
deriving DecidableEq

/-- Whether a name follows that is not the word `from`, or is that word as a name. -/
def atSecondName : Parse Bool := do
  return (← atName) && !((← atWord "from") && (← following).kind != .word "from")

/-- The words of an import in front of its list: a name, which others may precede. -/
def importStart : Parse ImportStart := do
  unless ← atName do return .none
  let mut name ← importedBinding
  if ← typed then
    if name == "type" then
      if ← atMarks ["*", "\x7b"] then return .none
      if ← atSecondName then name ← importedBinding
      else if ← atWordThen "from" (·.kind == .mark "=") then name ← anyWord
    if ← atMark "=" then return .alias
  if name == "source" || name == "defer" then
    if ← atMarks ["*", "\x7b"] then return .none
    if ← atSecondName then
      let _ ← importedBinding
  return .name

/-- Makes the source a module. -/
def enterModule : Parse Unit :=
  modify fun c => { c with isModule := true }

/-- An import, from its key word on. -/
def importItem (g : Grammar) : Parse Stmt := do
  enterModule
  word "import"
  if ← atText then
    advance
    attributes g
    let _ ← endHere
    return .moduleItem []
  let start ← importStart
  if start == .alias then
    importAlias
    return .moduleItem []
  if start == .name then
    unless ← atWord "from" do mark ","
  if ← eatMark "*" then
    word "as"
    let _ ← importedBinding
  else if ← atMark "\x7b" then itemList importedItem
  sourceModule g
  return .moduleItem []

/-! ## Exports -/

/-- What follows `export default`. -/
def defaultExport (g : Grammar) : Parse Stmt := do
  if ← typed then
    if ← atWordThen "abstract" (fun next => next.kind == .word "class" && !next.newLine) then
      advance
      return .classDeclaration (← classFrom g false)
    if ← atWordThen "abstract" (·.kind == .word "interface") then advance
    if ← eatWord "interface" then return ← interface g
  if ← atWord "class" then return .classDeclaration (← classFrom g false)
  if ← atAsyncFunction then
    advance
    return .function (← functionFrom g true .defaultExport)
  if ← atWord "function" then return .function (← functionFrom g false .defaultExport)
  let value ← withIn g.assign
  semicolon
  return .evaluate [value]

/-- A declaration of the plain language that is exported, if one starts here. -/
def exportedDeclaration? (g : Grammar) : Parse (Option Stmt) := do
  if ← atWord "class" then return some (.classDeclaration (← classFrom g true))
  if ← atAsyncFunction then
    advance
    return some (.function (← functionFrom g true .declaration))
  if ← atWord "function" then return some (.function (← functionFrom g false .declaration))
  if ← typed then
    if ← atWordThen "const" (·.kind == .word "enum") then
      advance
      advance
      return some (← enumeration g)
  if (← atWord "var") || (← atWord "const") || (← atLet) then return some (← variableStatement g)
  return none

/-- Names that are passed on, from this module or from another. -/
def passedOn (g : Grammar) : Parse Unit := do
  if ← eatMark "*" then
    if ← eatWord "as" then
      let _ ← itemName
    sourceModule g
  else
    itemList exportedItem
    if ← atWord "from" then sourceModule g
    else
      let _ ← endHere

/-- A declaration that is exported and exists only with types, if one can be read. -/
def exportedType? (g : Grammar) : Parse (Option Stmt) := do
  unless ← typed do return none
  if ← eatWord "declare" then
    if let some s ← outerDeclaration? g then return some s
  match ← kind with
  | .word text => return (← attempt (announced? g text true)).join
  | _ => return none

/-- Further forms of exports that exist only with types, if one starts here. -/
def exportedForm? (g : Grammar) : Parse (Option Stmt) := do
  unless ← typed do return none
  if ← eatWord "import" then
    if (← atWord "type") && (← isName (← following).kind) then advance
    let _ ← anyWord
    importAlias
    return some (.moduleItem [])
  if ← eatMark "=" then
    let value ← expression g
    semicolon
    return some (.moduleItem [.evaluate [value]])
  if ← eatWord "as" then
    word "namespace"
    let _ ← identifierWith false false
    semicolon
    return some (.moduleItem [])
  return none

/-- An export, from its key word on. -/
def exportItem (g : Grammar) : Parse Stmt := do
  enterModule
  word "export"
  match ← kind with
  | .finish | .fault _ => fail
  | _ => pure ()
  if let some s ← exportedType? g then return .moduleItem [s]
  if let some s ← exportedForm? g then return s
  let onlyTypes ← typed <&&> eatWord "type"
  unless onlyTypes do
    if ← eatWord "default" then return .moduleItem [← defaultExport g]
    if let some s ← exportedDeclaration? g then return .moduleItem [s]
  passedOn g
  return .moduleItem []

/-- A statement, or an import or export. -/
def item (g : Grammar) : Parse Stmt := do
  if ← atImportExpression then importStatement g
  else if ← atWord "import" then importItem g
  else if ← atWord "export" then exportItem g
  else g.statement true

end FunctionArchive.Script.Parse
