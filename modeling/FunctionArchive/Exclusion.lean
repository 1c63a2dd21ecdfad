import FunctionArchive.Fault
import FunctionArchive.Path
import FunctionArchive.Reference

/-!
# What is left out

Two kinds of rules shrink an archive. `Exclusion` keeps files of shipped packages out: junk of
desktop systems, declaration files, source maps unless they are wanted, and whatever a configured
pattern describes by name or by path. `ModuleFilter` keeps whole modules out: its entries are names
of packages or modules, or patterns over names of packages.
-/

set_option autoImplicit false

namespace FunctionArchive

/-- Reads a list of patterns; the first that cannot be read is the fault. -/
def readPatterns (kind : String) (texts : List String) : Outcome (List Glob.Pattern) :=
  texts.mapM fun text =>
    (Glob.Pattern.read text).mapError fun error => .config (.pattern kind text error)

/-- Which files of a package are not shipped. -/
structure Exclusion where
  patterns : List Glob.Pattern
  sourceMaps : Bool

namespace Exclusion

/-- Files that are never worth shipping. -/
def junkNames : List String := [".DS_Store", "Thumbs.db", "desktop.ini", "npm-debug.log"]

/-- Endings of files that only declare types. -/
def declarationEndings : List String := [".d.ts", ".d.mts", ".d.cts"]

/-- Whether a text ends with another. -/
def endsWith (text ending : String) : Bool :=
  ending.toList.isSuffixOf text.toList

/-- Whether a file of this name is never shipped. -/
def isJunk (name : String) (sourceMaps : Bool) : Bool :=
  junkNames.contains name || declarationEndings.any (endsWith name) ||
    (!sourceMaps && endsWith name ".map")

/-- Reads the patterns of an exclusion. -/
def make (texts : List String) (sourceMaps : Bool) : Outcome Exclusion :=
  (readPatterns "exclude" texts).map (⟨·, sourceMaps⟩)

/-- The exclusion with further patterns. -/
def withPatterns (e : Exclusion) (texts : List String) : Outcome Exclusion :=
  (readPatterns "exclude" texts).map fun more => { e with patterns := e.patterns ++ more }

/-- Whether the file at this path inside a package is left out. -/
def excludes (e : Exclusion) (path : Path) : Bool :=
  let name := path.fileName?.getD ""
  isJunk name e.sourceMaps || e.patterns.any fun p => p.matches name || p.matches path.text

end Exclusion

/-- Which modules are left out. -/
structure ModuleFilter where
  names : List String
  patterns : List Glob.Pattern

namespace ModuleFilter

/-- Whether an entry is a pattern and not a name. -/
def isPattern (entry : String) : Bool :=
  entry.toList.any fun c => c == '*' || c == '?' || c == '['

/-- Reads the entries of a filter. -/
def make (entries : List String) : Outcome ModuleFilter := do
  let patterns ← readPatterns "module" (entries.filter isPattern)
  return ⟨entries.filter (!isPattern ·), patterns⟩

/-- Whether a reference is left out: by its own name, or with its package. -/
def covers (f : ModuleFilter) (reference : String) : Bool :=
  let package := Reference.packageName reference
  f.names.any (fun name => name == package || name == reference) ||
    f.patterns.any (·.matches package)

end ModuleFilter

end FunctionArchive
