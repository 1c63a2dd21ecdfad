import FunctionArchive.Manifest

/-!
# Export maps

A package may say which of its files a reference to one of its subpaths means. The answer can
depend on conditions; those of a `require` are `require`, `node` and `default`, tried in the order
in which the package lists them. In a map of subpaths the exact subpath decides alone; otherwise
the longest key with a star that describes the subpath does, and the text under the star replaces
every star of its target.
-/

set_option autoImplicit false

namespace FunctionArchive.Manifest

/-- The conditions under which a `require` looks at a map. -/
def requireConditions : List String := ["require", "node", "default"]

mutual
/-- The file that a value of an export map means for a `require`. -/
def conditionalTarget? : Json → Option String
  | .string target => some target
  | .array alternatives => firstAlternative? alternatives
  | .object conditions => firstCondition? conditions
  | _ => none

/-- The first alternative that means a file. -/
def firstAlternative? : List Json → Option String
  | [] => none
  | value :: rest => (conditionalTarget? value).or (firstAlternative? rest)

/-- The first condition of a `require` that means a file. -/
def firstCondition? : List (String × Json) → Option String
  | [] => none
  | (condition, value) :: rest =>
    if requireConditions.contains condition then
      (conditionalTarget? value).or (firstCondition? rest)
    else firstCondition? rest
end

/-- The text under the star of a key, if the key describes the subpath. -/
def underStar? (key subpath : List Char) : Option (List Char) :=
  let front := key.takeWhile (· != '*')
  match key.drop front.length with
  | [] => none
  | _ :: back =>
    if front.isPrefixOf subpath then
      let rest := subpath.drop front.length
      if back.isSuffixOf rest then some (rest.take (rest.length - back.length)) else none
    else none

/-- A target with every star replaced. -/
def replaceStars (target : String) (text : List Char) : String :=
  String.ofList (target.toList.flatMap fun c => if c == '*' then text else [c])

/-- The entry with the longest key, of equally long ones the last. -/
def longest? {α : Type} : List (String × α) → Option (String × α)
  | [] => none
  | entry :: rest =>
    match longest? rest with
    | none => some entry
    | some best => if best.1.utf8ByteSize < entry.1.utf8ByteSize then some entry else some best

/-- Whether an export map speaks of subpaths. -/
def isSubpathMap (entries : List (String × Json)) : Bool :=
  entries.any fun (key, _) => key.toList.head? == some '.'

/-- The file that a map of subpaths gives for one of them. -/
def subpathTarget? (entries : List (String × Json)) (subpath : String) : Option String :=
  match Json.entry? entries subpath with
  | some value => conditionalTarget? value
  | none => do
    let described := entries.filterMap fun (key, value) =>
      (underStar? key.toList subpath.toList).map fun text => (key, (value, text))
    let (_, value, text) ← longest? described
    return replaceStars (← conditionalTarget? value) text

/-- The file that the package gives for a subpath, `.` for the package itself. -/
def exportTarget? (m : Manifest) (subpath : String) : Option String :=
  match m.exportMap with
  | none => none
  | some (.object entries) =>
    if isSubpathMap entries then subpathTarget? entries subpath
    else if subpath == "." then conditionalTarget? (.object entries) else none
  | some value => if subpath == "." then conditionalTarget? value else none

end FunctionArchive.Manifest
