import FunctionArchive.Script.Parser.Markup
import FunctionArchive.Script.Parser.Modules

/-!
# Parsing scripts

The rules are joined into a grammar, level by level: each level refers to the one below it, and
the lowest refuses everything. Every descent to a lower level goes with a token that has been
accepted or one of a few steps between two tokens, so a source cannot be nested deeper than a
small multiple of its length.
-/

set_option autoImplicit false

namespace FunctionArchive.Script

/-- The grammar for so many levels of nesting. Each rule looks up the level below when it is run. -/
def grammar : Nat → Grammar
  | 0 => .empty
  | depth + 1 => {
      assign := fun s c => Parse.assign (grammar depth) s c
      unary := fun s c => Parse.unary (grammar depth) s c
      binary := fun first level s c => Parse.binary (grammar depth) first level s c
      operand := fun s c => Parse.operand (grammar depth) s c
      construct := fun s c => Parse.construct (grammar depth) s c
      markup := fun s c => Parse.element (grammar depth) s c
      pattern := fun refusesLet s c => Parse.pattern (grammar depth) refusesLet s c
      statement := fun declarations s c => Parse.statement (grammar depth) declarations s c
      item := fun s c => Parse.item (grammar depth) s c
      type := fun s c => Parse.type (grammar depth) s c
      plainType := fun s c => Parse.plainType (grammar depth) s c }

/-- More levels than a source can be nested. -/
def nesting (source : Array Char) : Nat := 8 * source.size + 64

/-- The statements of a source, or the line at which it is refused. -/
def parse (dialect : Dialect) (source : Array Char) : Except Nat (List Stmt) :=
  let setting : Setting := { source, dialect }
  let start : Cursor := { token := default, passed := 0 }
  let program : Parse (List Stmt) := do
    Parse.acceptFrom 0 0
    Parse.directedStatements Parse.atFinish (grammar (nesting source)).item
  match program setting start with
  | (.ok body, _) => .ok body
  | (.error refusal, _) => .error (Token.lineAt source refusal.position)

end FunctionArchive.Script
