import FunctionArchive.Version.Range

/-!
# Allowances for known packages

Some packages load integrations only when they are installed and do not declare them as optional,
or need files outside their own directory, or carry files that must not be shipped. Each rule of
the table names a package, the versions concerned, and the allowance; nothing else in the library
knows a package by name.
-/

set_option autoImplicit false

namespace FunctionArchive.Package

/-- What a rule allows. -/
inductive Allowance
  /-- These dependencies may be missing. -/
  | mayLack (names : List String)
  /-- Files that match this pattern, relative to the package, are never shipped. -/
  | omits (pattern : String)
  /-- This directory, relative to the package, is shipped with it. -/
  | needsBeside (path : String)
deriving DecidableEq, Repr

/-- An allowance and the versions of a package that have it. -/
structure Rule where
  package : String
  versions : String
  allowance : Allowance
deriving DecidableEq, Repr

/-- The rules in force. -/
def rules : List Rule :=
  [⟨"node-fetch", "<3.0.0", .mayLack ["encoding"]⟩,
    ⟨"ws", "<7.0.0", .mayLack ["bufferutil", "utf-8-validate"]⟩,
    ⟨"debug", "*", .mayLack ["supports-color"]⟩,
    ⟨"pg", "*", .mayLack ["pg-native"]⟩,
    ⟨"mongodb", "<4.0.0", .mayLack ["kerberos", "snappy", "bson-ext",
      "mongodb-client-encryption", "aws4", "saslprep"]⟩,
    ⟨"knex", "*", .mayLack ["mysql", "mysql2", "pg", "pg-query-stream", "sqlite3",
      "better-sqlite3", "tedious", "oracledb"]⟩,
    ⟨"@prisma/client", "*", .mayLack ["@prisma/cli", "prisma2", "prisma"]⟩,
    ⟨"@prisma/client", "*", .omits "generator-build/**"⟩,
    ⟨"@prisma/client", "*", .needsBeside "../../.prisma"⟩]

/-- Whether a rule concerns this package at this version. A version that is missing or cannot be
read lies only in the range of all versions; a range that cannot be read concerns nothing. -/
def Rule.concerns (rule : Rule) (package : String) (version : Option String) : Bool :=
  rule.package == package &&
    match VersionRange.read? rule.versions with
    | none => false
    | some range =>
      range == .everything || (version.bind Version.read?).any range.contains

/-- The allowances of a package, in the order of the table. -/
def allowances (package : String) (version : Option String) : List Allowance :=
  (rules.filter (·.concerns package version)).map (·.allowance)

/-- Whether the package may lack this dependency. -/
def mayLack (package : String) (version : Option String) (missing : String) : Bool :=
  (allowances package version).any fun
    | .mayLack names => names.contains missing
    | _ => false

/-- Patterns of files that are never shipped with the package. -/
def omitted (package : String) (version : Option String) : List String :=
  (allowances package version).filterMap fun
    | .omits pattern => some pattern
    | _ => none

/-- Directories that are shipped with the package. -/
def neededBeside (package : String) (version : Option String) : List String :=
  (allowances package version).filterMap fun
    | .needsBeside path => some path
    | _ => none

end FunctionArchive.Package
