/-!
# Module references

A reference is the text between the quotes of a `require` or an `import`. Its spelling alone tells
whether the run time provides the module itself, whether it is a path, and otherwise which package
it belongs to. Nothing here looks at a disk.
-/

set_option autoImplicit false

namespace FunctionArchive.Reference

/-- Modules that the run time provides. -/
def coreModules : List String :=
  ["assert", "async_hooks", "buffer", "child_process", "cluster", "console", "constants",
    "crypto", "dgram", "diagnostics_channel", "dns", "domain", "events", "fs", "http", "http2",
    "https", "inspector", "module", "net", "os", "path", "perf_hooks", "process", "punycode",
    "querystring", "readline", "repl", "stream", "string_decoder", "sys", "timers", "tls",
    "trace_events", "tty", "url", "util", "v8", "vm", "wasi", "worker_threads", "zlib"]

/-- The characters in front of the first slash. -/
def beforeSlash (chars : List Char) : List Char :=
  chars.takeWhile (· != '/')

/-- Whether the run time provides the module: it is written with the scheme `node:`, or it is a
core module or a path inside one. -/
def isBuiltin (reference : String) : Bool :=
  "node:".toList.isPrefixOf reference.toList ||
    coreModules.contains (String.ofList (beforeSlash reference.toList))

/-- Whether the reference is a path and not the name of a package. -/
def isRelative (reference : String) : Bool :=
  match reference.toList with
  | ['.'] | ['.', '.'] => true
  | '.' :: '/' :: _ | '.' :: '.' :: '/' :: _ | '/' :: _ => true
  | _ => false

/-- The package of a bare reference: its first name, or its first two names under a scope. -/
def packageName (reference : String) : String :=
  let chars := reference.toList
  let first := beforeSlash chars
  let rest := chars.drop first.length
  if chars.head? == some '@' && !rest.isEmpty then
    String.ofList (first ++ '/' :: beforeSlash (rest.drop 1))
  else
    String.ofList first

/-- The path of a bare reference inside its package, as an export map spells it. -/
def subpath (reference : String) : String :=
  "." ++ String.ofList (reference.toList.drop (packageName reference).length)

end FunctionArchive.Reference
