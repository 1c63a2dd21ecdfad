import FunctionArchive.Script.Parser.Basic

/-!
# Patterns and parameters

A pattern introduces names and takes a value apart. The keys of properties, which patterns, objects
and classes share, are read here too.
-/

set_option autoImplicit false

namespace FunctionArchive.Script.Parse

/-! ## Types in their places -/

/-- Whether an angle bracket opens here; it may be the start of a longer mark. -/
def atOpenAngle : Parse Bool := do
  match ← kind with
  | .mark text => return text.startsWith "<"
  | _ => return false

/-- Whether an angle bracket closes here; it may be the start of a longer mark. -/
def atCloseAngle : Parse Bool := do
  match ← kind with
  | .mark text => return text.startsWith ">"
  | _ => return false

/-- The position behind the first character of the mark at hand. -/
def firstStop : Parse Nat := do
  let t ← token
  match t.kind with
  | .mark text => return t.stop + 1 - text.length
  | _ => return t.stop

/-- Accepts one opening angle bracket. -/
def openAngle : Parse Unit := do
  ensure (← atOpenAngle)
  jumpTo (← firstStop)

/-- Accepts one closing angle bracket. -/
def closeAngle : Parse Unit := do
  ensure (← atCloseAngle)
  jumpTo (← firstStop)

/-- Items between commas up to a place where they can end; a comma may stand last. -/
def delimited {α : Type} (atClose : Parse Bool) (item : Parse α) : Parse (List α) :=
  manyUntil atClose do
    let a ← item
    unless ← eatMark "," do ensure (← atClose)
    return a

/-- Types in angle brackets. -/
def typeArguments (g : Grammar) : Parse (List Expr) := do
  openAngle
  let types ← delimited atCloseAngle g.type
  closeAngle
  return types.flatten

/-- A type after a colon, if there is one here. -/
def annotation (g : Grammar) : Parse (List Expr) := do
  if ← typed <&&> eatMark ":" then g.type else return []

/-- A pattern with the type behind it, if there is one here. -/
def annotated (g : Grammar) (pattern : Expr) : Parse Expr := do
  if (← typed) && (← atMark ":") then return .typed .declared pattern (← annotation g)
  return pattern

/-! ## Keys of properties -/

/-- The name of a property: the key, and its text unless it is computed or a number. -/
structure PropertyName where
  key : Key
  text : Option String
  /-- Whether it is a word, so that it could name a variable. -/
  isWord : Bool

/-- An expression in brackets as a key. With types, commas may separate several. -/
def computedKey (g : Grammar) : Parse Expr := do
  mark "["
  let e ← withIn g.assign
  if ← typed then
    let more ← manyUntil (return !(← atMark ",")) do
      advance
      withIn g.assign
    mark "]"
    return if more.isEmpty then e else .operation .sequence (e :: more)
  mark "]"
  return e

/-- The name of a property. -/
def propertyName (g : Grammar) : Parse PropertyName := do
  match ← kind with
  | .word text | .name text => advance; return ⟨.plain, some text, true⟩
  | .text value => advance; return ⟨.plain, some value, false⟩
  | .number => advance; return ⟨.plain, none, false⟩
  | .mark "[" => return ⟨.computed (← computedKey g), none, false⟩
  | _ => fail

/-! ## Patterns -/

/-- The mark of what may be left out, which a pattern in a mere declaration may bear. -/
def eatOptionalMark : Parse Unit := do
  if (← read).inDeclaration then
    let _ ← eatMark "?"

/-- A pattern with its default, if there is one. -/
def patternElement (g : Grammar) : Parse Expr := do
  let target ← g.pattern false
  if ← eatMark "=" then return .assign target (← withIn g.assign) else return target

/-- An item of an array pattern; nothing is taken where a comma follows directly. -/
def arrayPatternItem (g : Grammar) : Parse (List Argument) := do
  if ← atMark "," then return []
  let start ← position
  if ← eatMark "..." then
    let target ← g.pattern false
    return [.mk true (← spanFrom start) target]
  let target ← patternElement g
  return [.mk false (← spanFrom start) target]

/-- A property of an object pattern. What takes all the rest must be a single name if it stands
last. -/
def objectPatternItem (g : Grammar) : Parse Property := do
  let start ← position
  if ← eatMark "..." then
    let target ← g.pattern false
    match target with
    | .name _ => pure ()
    | _ =>
      let isLast ← atMark "\x7d" <||> ((atMark ",") <&&> (do
        return (← following).kind == .mark "\x7d"))
      if isLast then failAt start
    return .spread target
  let name ← propertyName g
  if ← eatMark ":" then return .pair name.key (← patternElement g)
  ensure name.isWord
  if ← eatMark "=" then return .shorthand [← withIn g.assign]
  return .shorthand []

/-- A pattern that introduces names. -/
def pattern (g : Grammar) (refusesLet : Bool) : Parse Expr := do
  if ← eatMark "[" then
    let groups ← items "]" (arrayPatternItem g)
    eatOptionalMark
    return .array groups.flatten
  if ← eatMark "\x7b" then
    let properties ← withoutColon (strictItems "\x7d" (objectPatternItem g))
    eatOptionalMark
    return .object properties
  return .name (← binding refusesLet)

/-! ## Modifiers -/

/-- Whether a token can follow a modifier as what it modifies. -/
def canBeModified (token : Token) : Bool :=
  !token.newLine &&
    match token.kind with
    | .word _ | .name _ | .text _ | .number => true
    | .mark text => ["[", "\x7b", "*", "...", "#"].contains text
    | _ => false

/-- One of some modifiers, if one stands here with something to modify. -/
def modifier? (modifiers : List String) : Parse (Option String) := do
  unless ← typed do return none
  match ← kind with
  | .word text =>
    if modifiers.contains text && canBeModified (← following) then
      advance
      return some text
    return none
  | _ => return none

/-- All modifiers that stand here, among some. -/
def passModifiers (modifiers : List String) : Parse Unit := do
  let _ ← loop () fun () => do
    match ← modifier? modifiers with
    | some _ => return .yield ()
    | none => return .done ()

/-- Modifiers of what a class shows to others. -/
def accessModifiers : List String := ["public", "protected", "private"]

/-- A modifier in front of a pattern or the name of a type, if one stands here. -/
def passPatternModifier : Parse Unit := do
  if ← typed then
    match ← kind with
    | .word text =>
      if ("readonly" :: accessModifiers).contains text then
        let next ← following
        if canBeModified next then
          match next.kind with
          | .word _ | .name _ | .mark "\x7b" | .mark "[" => advance
          | _ => pure ()
    | _ => pure ()

/-! ## Parameters -/

/-- A parameter that takes all remaining arguments, behind its dots. -/
def restParameter (g : Grammar) (hasDefault : Bool) : Parse Expr := do
  let target ← g.pattern false
  let target ← if ← pure hasDefault <&&> eatMark "=" then pure (.assign target (← g.assign))
    else pure target
  annotated g target

/-- A parameter that takes one argument. -/
def plainParameter (g : Grammar) : Parse Expr := do
  passPatternModifier
  let target ← patternElement g
  let target ← if ← typed then do
      let start ← position
      if ← eatMark "?" then
        match target with
        | .name _ | .array _ | .object _ => pure ()
        | _ => unless (← read).inDeclaration do failAt start
      match target with
      | .assign .. =>
        let _ ← annotation g
        pure target
      | _ => annotated g target
    else pure target
  if ← eatMark "=" then return .assign target (← g.assign) else return target

/-- A parameter of a function. -/
def parameter (g : Grammar) : Parse Expr := do
  if ← eatMark "..." then
    let target ← restParameter g true
    if ← typed then
      let _ ← eatMark "?"
    return target
  plainParameter g

/-- Parameters up to the closing parenthesis, which is accepted. -/
def parametersRest (parameter : Parse Expr) : Parse (List Expr) :=
  strictItems ")" parameter

/-- The parameters of a function. -/
def parameters (g : Grammar) : Parse (List Expr) := do
  mark "("
  parametersRest (parameter g)

/-- A parameter of the function that makes the objects of a class: it may be a field as well. -/
def fieldParameter (g : Grammar) : Parse Expr := do
  if ← eatMark "..." then return ← restParameter g false
  let access ← modifier? accessModifiers
  let override ← modifier? ["override"]
  let readonly ← modifier? ["readonly"]
  let start ← position
  let target ← plainParameter g
  if access.isSome || override.isSome || readonly.isSome then
    let bare := match target with
      | .assign inner _ => inner
      | .typed _ inner _ => inner
      | e => e
    match bare with
    | .array _ | .object _ => match target with
      | .assign .. => return target
      | _ => failAt start
    | _ => return target
  return target

end FunctionArchive.Script.Parse
