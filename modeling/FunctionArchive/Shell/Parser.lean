import FunctionArchive.Shell.Token

/-!
# Parsing shell scripts

A script is a list of statements. Words such as `for` have their meaning only where a statement
begins, and only if nothing in them is quoted.
-/

set_option autoImplicit false

namespace FunctionArchive.Shell

/-- A step of parsing: it takes tokens from the front or refuses. -/
abbrev Parser := StateT (List Token) Option

namespace Parser

/-- The next token, which stays. -/
def peek : Parser (Option Token) := return (← get).head?

/-- Takes the next token. -/
def drop : Parser Unit := modify (·.drop 1)

/-- Takes the next token if it is this symbol. -/
def symbol? (text : String) : Parser Bool := do
  if (← peek) == some (.symbol text) then
    drop
    return true
  else return false

/-- Takes this symbol. -/
def symbol (text : String) : Parser Unit := do
  unless ← symbol? text do failure

/-- Takes the ends of lines. -/
def newlines : Nat → Parser Unit
  | 0 => return
  | bound + 1 => do
    if ← symbol? "\n" then newlines bound

/-- The text of a word if nothing in it is quoted. -/
def keyword? : Option Token → Option String
  | some (.word parts) => if isBare parts then some (bareText parts) else none
  | _ => none

/-- Whether the next token is this keyword. -/
def isKeyword (text : String) : Parser Bool := return keyword? (← peek) == some text

/-- Takes this keyword. -/
def keyword (text : String) : Parser Unit := do
  if ← isKeyword text then drop else failure

/-- Takes a word. -/
def word : Parser Word := do
  match ← peek with
  | some (.word parts) =>
    drop
    return parts
  | _ => failure

/-- Takes all words that come. -/
def words : Nat → Parser (List Word)
  | 0 => failure
  | bound + 1 => do
    match ← peek with
    | some (.word parts) =>
      drop
      return parts :: (← words bound)
    | _ => return []

/-- Takes a redirection, if one comes. -/
def redirection? : Parser (Option Redirection) := do
  match ← peek with
  | some (.document text) =>
    drop
    return some (.document text)
  | some (.redirect stream operator) =>
    drop
    let target ← word
    match operator with
    | ">" => return some (.write stream target false)
    | ">>" => return some (.write stream target true)
    | ">&" => return some (.duplicate stream target)
    | _ => return some (.read target)
  | _ => return none

/-- Takes all redirections that come. -/
def redirections : Nat → Parser (List Redirection)
  | 0 => failure
  | bound + 1 => do
    match ← redirection? with
    | some r => return r :: (← redirections bound)
    | none => return []

/-- The setting of a variable that a word is, if it is one. -/
def setting? (w : Word) : Option (String × Word) :=
  let name := w.takeWhile fun
    | .plain text => text != "="
    | _ => false
  let text := bareText name
  match w.drop name.length with
  | .plain _ :: value =>
    if text.toList.all isNameChar && (text.toList.head?.map (!·.isDigit)).getD false then
      some (text, value)
    else none
  | _ => none

/-- Takes the settings, words and redirections of a command. -/
def simpleParts : Nat → Parser (List Word × List Redirection)
  | 0 => failure
  | bound + 1 => do
    match ← redirection? with
    | some r =>
      let (words, rs) ← simpleParts bound
      return (words, r :: rs)
    | none =>
      match ← peek with
      | some (.word parts) =>
        drop
        let (words, rs) ← simpleParts bound
        return (parts :: words, rs)
      | _ => return ([], [])

/-- Puts redirections around a statement. -/
def withRedirections (body : Statement) : List Redirection → Statement
  | [] => body
  | rs => .redirected body rs

/-- Takes a command that is not made of others. -/
def simple (bound : Nat) : Parser Statement := do
  let (words, rs) ← simpleParts bound
  if words.isEmpty && rs.isEmpty then failure
  let settings := (words.map setting?).takeWhile Option.isSome
  return withRedirections (.simple (settings.filterMap id) (words.drop settings.length)) rs

/-- Words that end a list of statements. -/
def closing : List String := ["done", "esac", "then", "else", "elif", "fi", "\x7d"]

/-- Takes the patterns of a branch, up to the bracket behind them. -/
def patterns : Nat → Parser (List Word)
  | 0 => failure
  | bound + 1 => do
    let pattern ← word
    if ← symbol? "|" then return pattern :: (← patterns bound)
    else
      symbol ")"
      return [pattern]

mutual

/-- Takes statements up to a word or symbol that ends them. -/
def statements : Nat → Parser (List Statement)
  | 0 => failure
  | bound + 1 => do
    newlines bound
    let next ← peek
    if next.isNone || next == some (.symbol ";;") || next == some (.symbol ")") ||
        closing.contains ((keyword? next).getD "") then
      return []
    else
      let first ← chain bound
      if (← symbol? ";") || (← symbol? "\n") then return first :: (← statements bound)
      else return [first]

/-- Takes statements that are joined by conditions on the one before. -/
def chain : Nat → Parser Statement
  | 0 => failure
  | bound + 1 => do links bound (← command bound)

/-- Takes further statements of a chain. -/
def links : Nat → Statement → Parser Statement
  | 0, _ => failure
  | bound + 1, first => do
    if ← symbol? "&&" then
      newlines bound
      links bound (.either first true (← command bound))
    else if ← symbol? "||" then
      newlines bound
      links bound (.either first false (← command bound))
    else return first

/-- Takes a command. -/
def command : Nat → Parser Statement
  | 0 => failure
  | bound + 1 => do
    match keyword? (← peek) with
    | some "for" => redirectable bound (forEach bound)
    | some "case" => redirectable bound (cases bound)
    | some "if" => redirectable bound do
        drop
        choose bound
    | some "\x7b" => redirectable bound do
        drop
        let body ← statements bound
        keyword "\x7d"
        return .group body
    | _ => simple (bound + 1)

/-- Takes redirections behind a statement. -/
def redirectable (bound : Nat) (body : Parser Statement) : Parser Statement := do
  let body ← body
  return withRedirections body (← redirections (bound + 1))

/-- Takes a loop over words. -/
def forEach : Nat → Parser Statement
  | 0 => failure
  | bound + 1 => do
    keyword "for"
    let name ← word
    newlines bound
    let list ← if ← isKeyword "in" then
        drop
        some <$> words (bound + 1)
      else pure none
    let _ ← symbol? ";"
    newlines bound
    keyword "do"
    let body ← statements bound
    keyword "done"
    return .forEach (bareText name) list body

/-- Takes a decision between patterns. -/
def cases : Nat → Parser Statement
  | 0 => failure
  | bound + 1 => do
    keyword "case"
    let subject ← word
    newlines bound
    keyword "in"
    return .cases subject (← branches bound)

/-- Takes the branches of a decision up to its end. -/
def branches : Nat → Parser (List (List Word × List Statement))
  | 0 => failure
  | bound + 1 => do
    newlines bound
    if ← isKeyword "esac" then
      drop
      return []
    else
      let _ ← symbol? "("
      let ps ← patterns bound
      let body ← statements bound
      if ← symbol? ";;" then return (ps, body) :: (← branches bound)
      else
        newlines bound
        keyword "esac"
        return [(ps, body)]

/-- Takes what follows `if` or `elif`. -/
def choose : Nat → Parser Statement
  | 0 => failure
  | bound + 1 => do
    let condition ← statements bound
    keyword "then"
    let thenDo ← statements bound
    if ← isKeyword "elif" then
      drop
      return .choose condition thenDo [← choose bound]
    else if ← isKeyword "else" then
      drop
      let elseDo ← statements bound
      keyword "fi"
      return .choose condition thenDo elseDo
    else
      keyword "fi"
      return .choose condition thenDo []

end

end Parser

/-- The statements of a script. Each step into the syntax leaves a token behind within a few steps,
so the bound is generous. -/
def parse? (script : String) : Option (List Statement) := do
  let chars := script.toList
  let tokens ← tokens (chars.length + 1) chars
  let (statements, rest) ← (Parser.statements (8 * tokens.length + 8)).run tokens
  if rest.isEmpty then some statements else none

end FunctionArchive.Shell
