import FunctionArchive.Script.Tree
import FunctionArchive.Text.Blank

/-!
# Findings in a syntax tree

A tree is read from the root down, and each call that loads a module is reported where it is met,
before the calls among its own operands. A call loads a module when it calls `import`, the name
`require` or its member `resolve`. The first argument decides what is known of the reference: a
string literal or a template without values gives it, anything else is quoted from the source.

The traversal visits every part of every node, so a reference is never lost to the form around it.
-/

set_option autoImplicit false

namespace FunctionArchive.Script

/-- A reference to a module. -/
inductive Reference
  /-- The text of the reference is known. -/
  | static (text : String)
  /-- It is computed when the script runs; the snippet quotes the expression. -/
  | dynamic (snippet : String)
deriving DecidableEq, Repr, Inhabited

/-- What is found in a tree. -/
inductive Finding
  | reference (r : Reference)
  | importMeta
deriving DecidableEq, Repr

/-- The longest quotation of an expression. -/
def snippetLength : Nat := 60

/-- The quotation of a stretch of the source. -/
def Span.snippet (source : Array Char) (span : Span) : String :=
  let chars := (source.extract span.start span.stop).toList
  String.ofList ((Text.trimChars chars).take snippetLength)

/-- What is known of a reference from the arguments of the call. -/
def Reference.ofArguments (source : Array Char) : List Argument → Reference
  | [] => .dynamic ""
  | .mk false _ (.text value) :: _ => .static value
  | .mk false _ (.template [some value] []) :: _ => .static value
  | .mk _ span _ :: _ => .dynamic (span.snippet source)

/-- Whether calling this loads a module. -/
def Callee.loads : Callee → Bool
  | .dynamicImport => true
  | .value (.name "require") => true
  | .value (.member (.name "require") "resolve") => true
  | .value _ => false

/-- The finding that a call is by itself. -/
def Callee.finding (source : Array Char) (callee : Callee) (arguments : List Argument) :
    List Finding :=
  if callee.loads then [.reference (.ofArguments source arguments)] else []

mutual

/-- The findings in an expression. -/
def Expr.findings (source : Array Char) : Expr → List Finding
  | .missing | .name _ | .text _ | .atom => []
  | .importMeta => [.importMeta]
  | .template _ values => Expr.findingsAll source values
  | .group inner => inner.findings source
  | .array items => Argument.findingsAll source items
  | .object properties => Property.findingsAll source properties
  | .function f | .arrow f => f.findings source
  | .classValue c => c.findings source
  | .member object _ => object.findings source
  | .index object key => object.findings source ++ key.findings source
  | .call callee arguments types =>
    callee.finding source arguments ++ callee.findings source ++
      Argument.findingsAll source arguments ++ Expr.findingsAll source types
  | .construct callee arguments types =>
    callee.findings source ++ Argument.findingsAll source arguments ++
      Expr.findingsAll source types
  | .optional object operands => object.findings source ++ Argument.findingsAll source operands
  | .tagged tag types content =>
    tag.findings source ++ Expr.findingsAll source types ++ content.findings source
  | .assign target value => target.findings source ++ value.findings source
  | .operation _ operands => Expr.findingsAll source operands
  | .typed _ value types => value.findings source ++ Expr.findingsAll source types
  | .markup parts => Expr.findingsAll source parts

/-- The findings in a list of expressions. -/
def Expr.findingsAll (source : Array Char) : List Expr → List Finding
  | [] => []
  | e :: rest => e.findings source ++ Expr.findingsAll source rest

/-- The findings in what a call calls. -/
def Callee.findings (source : Array Char) : Callee → List Finding
  | .dynamicImport => []
  | .value e => e.findings source

/-- The findings in a list of arguments. -/
def Argument.findingsAll (source : Array Char) : List Argument → List Finding
  | [] => []
  | .mk _ _ value :: rest => value.findings source ++ Argument.findingsAll source rest

/-- The findings in the name of a property. -/
def Key.findings (source : Array Char) : Key → List Finding
  | .plain => []
  | .computed e => e.findings source

/-- The findings in a property. -/
def Property.findings (source : Array Char) : Property → List Finding
  | .shorthand default => Expr.findingsAll source default
  | .pair key value => key.findings source ++ value.findings source
  | .spread value => value.findings source
  | .method _ key f => key.findings source ++ f.findings source

/-- The findings in a list of properties. -/
def Property.findingsAll (source : Array Char) : List Property → List Finding
  | [] => []
  | p :: rest => p.findings source ++ Property.findingsAll source rest

/-- The findings in a function. -/
def Function.findings (source : Array Char) : Function → List Finding
  | .mk parameters body types =>
    Expr.findingsAll source parameters ++ Stmt.findingsAll source body ++
      Expr.findingsAll source types

/-- The findings in a class. -/
def Class.findings (source : Array Char) : Class → List Finding
  | .mk members heritage => Member.findingsAll source members ++ Expr.findingsAll source heritage

/-- The findings in a member of a class. -/
def Member.findings (source : Array Char) : Member → List Finding
  | .method key f => key.findings source ++ f.findings source
  | .field key parts => key.findings source ++ Expr.findingsAll source parts
  | .block body => Stmt.findingsAll source body

/-- The findings in a list of members. -/
def Member.findingsAll (source : Array Char) : List Member → List Finding
  | [] => []
  | m :: rest => m.findings source ++ Member.findingsAll source rest

/-- The findings in a statement. -/
def Stmt.findings (source : Array Char) : Stmt → List Finding
  | .evaluate values => Expr.findingsAll source values
  | .variables bindings => Expr.findingsAll source bindings
  | .function f => f.findings source
  | .classDeclaration c => c.findings source
  | .block body => Stmt.findingsAll source body
  | .guarded heads bodies => Expr.findingsAll source heads ++ Stmt.findingsAll source bodies
  | .iterate start controls body =>
    start.findings source ++ Expr.findingsAll source controls ++ body.findings source
  | .choose subject cases => subject.findings source ++ Case.findingsAll source cases
  | .attempt body caught handler finalizer =>
    Stmt.findingsAll source body ++ Expr.findingsAll source caught ++
      Stmt.findingsAll source handler ++ Stmt.findingsAll source finalizer
  | .moduleItem content => Stmt.findingsAll source content

/-- The findings in a list of statements. -/
def Stmt.findingsAll (source : Array Char) : List Stmt → List Finding
  | [] => []
  | s :: rest => s.findings source ++ Stmt.findingsAll source rest

/-- The findings in the branches of a `switch`. -/
def Case.findingsAll (source : Array Char) : List Case → List Finding
  | [] => []
  | .mk test body :: rest =>
    Expr.findingsAll source test ++ Stmt.findingsAll source body ++
      Case.findingsAll source rest

end

end FunctionArchive.Script
