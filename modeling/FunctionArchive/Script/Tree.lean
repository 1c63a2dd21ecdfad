/-!
# Syntax trees of scripts

The tree keeps what decides where a script refers to other modules: calls and their callees, the
values of literal arguments, the module declarations, and the nesting of everything else. Forms
that differ only in what they compute share a node, and of types only the expressions written
inside them are kept. A pattern is written like the value that it takes apart, so patterns are
expressions as well.

The parts of a node are held in the order of the source, with three exceptions that belong to the
order in which a tree is read: the test of a `do` loop stands before its body, the members of a
class before the class it extends, and the type annotations of a node after its other parts.
-/

set_option autoImplicit false

namespace FunctionArchive.Script

/-- A stretch of a source, by the positions of its characters. -/
structure Span where
  start : Nat
  stop : Nat
deriving DecidableEq, Repr, Inhabited

/-- What an operator does, as far as it matters to what the result may stand for. -/
inductive Operator
  /-- An operator before its operand; it cannot be the base of a power. -/
  | unary
  | await
  /-- An operator that changes its operand. -/
  | update
  /-- An operator between two operands. -/
  | binary
  | condition
  | sequence
  | yield
  /-- An assignment that computes its value from the old one. -/
  | compound
deriving DecidableEq, Repr

/-- In which way an expression bears types. -/
inductive TypeForm
  /-- The type of a pattern, or the type parameters of a function. -/
  | declared
  /-- `value as Type` -/
  | asserted
  /-- `value satisfies Type` -/
  | satisfied
  /-- `value as const` -/
  | constant
  /-- `value!` -/
  | present
  /-- `<Type> value` -/
  | cast
  /-- Type arguments without a call. -/
  | instantiated
deriving DecidableEq, Repr

mutual

/-- An expression or a pattern. -/
inductive Expr
  /-- What stands where nothing could be read: a missing item, or a part that was mended. -/
  | missing
  | name (text : String)
  /-- A string literal. -/
  | text (value : String)
  /-- A template: the value of each piece of text, unless an escape in it has none. -/
  | template (pieces : List (Option String)) (values : List Expr)
  /-- Any other literal or key word without parts. -/
  | atom
  | importMeta
  /-- An expression in parentheses. -/
  | group (inner : Expr)
  | array (items : List Argument)
  | object (properties : List Property)
  | function (f : Function)
  /-- A function of the short form. -/
  | arrow (f : Function)
  | classValue (c : Class)
  | member (object : Expr) (property : String)
  | index (object key : Expr)
  | call (callee : Callee) (arguments : List Argument) (types : List Expr)
  | construct (callee : Expr) (arguments : List Argument) (types : List Expr)
  /-- A step of a chain that stops where a value is missing: what precedes, then its operands. -/
  | optional (object : Expr) (operands : List Argument)
  | tagged (tag : Expr) (types : List Expr) (content : Expr)
  | assign (target value : Expr)
  /-- An operator and its operands. -/
  | operation (operator : Operator) (operands : List Expr)
  /-- An expression with type annotations. -/
  | typed (form : TypeForm) (value : Expr) (types : List Expr)
  /-- An element of markup: its attributes, then its content. -/
  | markup (parts : List Expr)

/-- What a call calls. -/
inductive Callee
  /-- The key word `import`. -/
  | dynamicImport
  | value (e : Expr)

/-- An item of an argument list or an array. -/
inductive Argument
  | mk (spread : Bool) (source : Span) (value : Expr)

/-- The name of a property or a member. -/
inductive Key
  | plain
  | computed (e : Expr)

/-- A property of an object. -/
inductive Property
  /-- A name that stands for itself, with a default if it is a pattern. -/
  | shorthand (default : List Expr)
  | pair (key : Key) (value : Expr)
  | spread (value : Expr)
  /-- A method, from a position on. -/
  | method (start : Nat) (key : Key) (f : Function)

/-- A function: its parameters, its body and the annotations of its type. -/
inductive Function
  | mk (parameters : List Expr) (body : List Stmt) (types : List Expr)

/-- A class: its members, then the class it extends and the annotations of its type. -/
inductive Class
  | mk (members : List Member) (heritage : List Expr)

/-- A member of a class. -/
inductive Member
  | method (key : Key) (f : Function)
  /-- A field: its name, its initial value and its type. -/
  | field (key : Key) (parts : List Expr)
  | block (body : List Stmt)

/-- A statement. -/
inductive Stmt
  /-- A statement made of expressions: they are evaluated in order. -/
  | evaluate (values : List Expr)
  /-- Variables: for each its pattern, its type and its initial value. -/
  | variables (bindings : List Expr)
  | function (f : Function)
  | classDeclaration (c : Class)
  | block (body : List Stmt)
  /-- A condition or loop: the heads are evaluated first, then the bodies. -/
  | guarded (heads : List Expr) (bodies : List Stmt)
  /-- A loop over a declaration or a target. -/
  | iterate (start : Stmt) (controls : List Expr) (body : Stmt)
  | choose (subject : Expr) (cases : List Case)
  | attempt (body : List Stmt) (caught : List Expr) (handler finalizer : List Stmt)
  /-- An `import` or `export`, with what it exports. -/
  | moduleItem (content : List Stmt)

/-- A branch of a `switch`; the default branch has no test. -/
inductive Case
  | mk (test : List Expr) (body : List Stmt)

end

instance : Inhabited Expr := ⟨.atom⟩
instance : Inhabited Stmt := ⟨.evaluate []⟩

namespace Expr

/-- The form without the marks that a value is present. -/
def unmarked : Expr → Expr
  | .typed .present value _ => value.unmarked
  | e => e

/-- Whether an expression is a chain that may have stopped. -/
def isOptional (e : Expr) : Bool :=
  match e.unmarked with
  | .optional .. => true
  | _ => false

/-- Whether an expression denotes one variable or property, so that it can be updated. -/
def isPlace : Expr → Bool
  | .missing | .name _ | .member .. | .index .. | .group _ | .optional .. => true
  | .typed form _ _ => form != .constant
  | _ => false

/-- Whether an expression can stand on the left of an assignment once it is a pattern. -/
def isTarget : Expr → Bool
  | .array _ | .object _ => true
  | e => e.isPlace

end Expr

/-! ## Values read as patterns

A pattern looks like a value until an assignment or an arrow follows, so it is read as a value
first and converted then. A part that fits no pattern is left out; a method cannot be left out, and
the conversion refuses it at its position.
-/

/-- What a pattern is for. -/
inductive PatternUse
  /-- The target of an assignment as a whole. -/
  | target
  /-- A part of such a target. -/
  | part
  /-- The names of parameters. -/
  | binding
deriving DecidableEq, Repr

/-- What a part of a pattern is for. -/
def PatternUse.inner : PatternUse → PatternUse
  | .binding => .binding
  | _ => .part

/-- Whether an expression can be a part of a target as it is. -/
def Expr.isPart : Expr → Bool
  | .name _ | .text _ | .template .. | .atom | .group _ | .function _ | .classValue _ | .member ..
  | .index .. | .call .. | .construct .. | .typed .asserted _ _ => true
  | _ => false

/-- An expression without parts of its own, as a pattern. -/
def Expr.asLeaf (use : PatternUse) (e : Expr) : Expr :=
  match use with
  | .target => e
  | .part => if e.isPart then e else .missing
  | .binding =>
    match e with
    | .name word => .name word
    | _ => .missing

mutual

/-- An expression as a pattern. -/
def Expr.toPattern (use : PatternUse) : Expr → Except Nat Expr
  | .array items => return .array (← Argument.toPatterns use items)
  | .object properties => return .object (← Property.toPatterns use properties)
  | .assign target value =>
    match use, target with
    | .target, target => return .assign target value
    | _, .array items => return .assign (.array items) value
    | _, .object properties => return .assign (.object properties) value
    | use, target => return .assign (target.asLeaf use) value
  | e => return e.asLeaf use

/-- The items of an array as patterns. Only the last item may stand for all the rest. -/
def Argument.toPatterns (use : PatternUse) : List Argument → Except Nat (List Argument)
  | [] => return []
  | .mk spread span value :: rest => do
    let rest' ← Argument.toPatterns use rest
    if spread && !rest.isEmpty then return rest'
    return .mk spread span (← value.toPattern use.inner) :: rest'

/-- The properties of an object as patterns. -/
def Property.toPatterns (use : PatternUse) : List Property → Except Nat (List Property)
  | [] => return []
  | .shorthand default :: rest => return .shorthand default :: (← Property.toPatterns use rest)
  | .pair key value :: rest => do
    let value ← value.toPattern use.inner
    return .pair key value :: (← Property.toPatterns use rest)
  | .spread value :: rest => do
    let value ← match use with
      | .binding => pure (value.asLeaf .binding)
      | _ => value.toPattern .part
    return .spread value :: (← Property.toPatterns use rest)
  | .method start _ _ :: _ => throw start

end

end FunctionArchive.Script
