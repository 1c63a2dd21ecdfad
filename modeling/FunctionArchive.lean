import FunctionArchive.Archive
import FunctionArchive.Archive.Assembly
import FunctionArchive.Archive.Writing
import FunctionArchive.Batch
import FunctionArchive.Bundle
import FunctionArchive.Bundling
import FunctionArchive.Checksum
import FunctionArchive.Command
import FunctionArchive.CommandLine.Arguments
import FunctionArchive.CommandLine.Flag
import FunctionArchive.CommandLine.Help
import FunctionArchive.CommandLine.Program
import FunctionArchive.ConfigFile
import FunctionArchive.Decimal.Shortest
import FunctionArchive.Deflate
import FunctionArchive.Deflate.Decoder
import FunctionArchive.Deflate.Encoder
import FunctionArchive.Deflate.Huffman
import FunctionArchive.Deflate.Search
import FunctionArchive.Deflate.Token
import FunctionArchive.Digest.Crc32
import FunctionArchive.Digest.Sha256
import FunctionArchive.Discovery
import FunctionArchive.Disk
import FunctionArchive.Disk.Change
import FunctionArchive.Disk.Fault
import FunctionArchive.Disk.Walk
import FunctionArchive.Engine
import FunctionArchive.Engine.Esbuild
import FunctionArchive.Engine.Metafile
import FunctionArchive.Exclusion
import FunctionArchive.Executable
import FunctionArchive.Executable.Elf
import FunctionArchive.Executable.Image
import FunctionArchive.Executable.Mach
import FunctionArchive.Executable.Portable
import FunctionArchive.Fault
import FunctionArchive.FunctionConfig
import FunctionArchive.FunctionSource
import FunctionArchive.Glob
import FunctionArchive.Graph
import FunctionArchive.Graph.Build
import FunctionArchive.Graph.Following
import FunctionArchive.Graph.Traversal
import FunctionArchive.Json.Printer
import FunctionArchive.Json.Reader
import FunctionArchive.Json.Record
import FunctionArchive.Json.Value
import FunctionArchive.Layout
import FunctionArchive.Main
import FunctionArchive.Manifest
import FunctionArchive.Manifest.Cache
import FunctionArchive.Manifest.Exports
import FunctionArchive.Package.Allowance
import FunctionArchive.Packing
import FunctionArchive.Path
import FunctionArchive.Proofs.Archive.Closures
import FunctionArchive.Proofs.Archive.Directory
import FunctionArchive.Proofs.Archive.Failure
import FunctionArchive.Proofs.Archive.Faithful
import FunctionArchive.Proofs.Archive.Placing
import FunctionArchive.Proofs.Archive.Preservation
import FunctionArchive.Proofs.Archive.ReadBack
import FunctionArchive.Proofs.Archive.Written
import FunctionArchive.Proofs.ArchivedLinks
import FunctionArchive.Proofs.Attempts
import FunctionArchive.Proofs.Batch
import FunctionArchive.Proofs.Bundling
import FunctionArchive.Proofs.Checksum
import FunctionArchive.Proofs.Consistency
import FunctionArchive.Proofs.Deflate.Stored
import FunctionArchive.Proofs.Discovery
import FunctionArchive.Proofs.Discovery.Order
import FunctionArchive.Proofs.Disk.Followed
import FunctionArchive.Proofs.Disk.Inside
import FunctionArchive.Proofs.Disk.Listing
import FunctionArchive.Proofs.Disk.Lookup
import FunctionArchive.Proofs.Disk.Mounted
import FunctionArchive.Proofs.Disk.Moves
import FunctionArchive.Proofs.Disk.Pictured
import FunctionArchive.Proofs.Disk.Place
import FunctionArchive.Proofs.Disk.Planting
import FunctionArchive.Proofs.Disk.Staging
import FunctionArchive.Proofs.Disk.Straight
import FunctionArchive.Proofs.Disk.Tree
import FunctionArchive.Proofs.Entries
import FunctionArchive.Proofs.Fallback
import FunctionArchive.Proofs.Graph.Account
import FunctionArchive.Proofs.Graph.Buildable
import FunctionArchive.Proofs.Graph.Closure
import FunctionArchive.Proofs.Graph.Completeness
import FunctionArchive.Proofs.Graph.Dependencies
import FunctionArchive.Proofs.Graph.Exactness
import FunctionArchive.Proofs.Graph.Findings
import FunctionArchive.Proofs.Graph.Leniency
import FunctionArchive.Proofs.Graph.Narrowing
import FunctionArchive.Proofs.Graph.OnePackage
import FunctionArchive.Proofs.Graph.OwnFiles
import FunctionArchive.Proofs.Graph.Package
import FunctionArchive.Proofs.Graph.Policy
import FunctionArchive.Proofs.Graph.Runs
import FunctionArchive.Proofs.Graph.Scanning
import FunctionArchive.Proofs.Graph.SingleReference
import FunctionArchive.Proofs.Graph.Steady
import FunctionArchive.Proofs.Graph.Success
import FunctionArchive.Proofs.Graph.Traversal
import FunctionArchive.Proofs.Json.Numbers
import FunctionArchive.Proofs.Json.Reading
import FunctionArchive.Proofs.Json.Spelling
import FunctionArchive.Proofs.Json.Strings
import FunctionArchive.Proofs.Layout
import FunctionArchive.Proofs.Layout.Ways
import FunctionArchive.Proofs.Manifest.Answer
import FunctionArchive.Proofs.Manifest.Boundary
import FunctionArchive.Proofs.Manifest.Coherence
import FunctionArchive.Proofs.Manifest.Exports
import FunctionArchive.Proofs.Manifest.Fieldwise
import FunctionArchive.Proofs.Manifest.Interleaving
import FunctionArchive.Proofs.Manifest.Knowledge
import FunctionArchive.Proofs.Parallel
import FunctionArchive.Proofs.Path.Mounted
import FunctionArchive.Proofs.Path.Plain
import FunctionArchive.Proofs.Path.Spelling
import FunctionArchive.Proofs.Precedence
import FunctionArchive.Proofs.Reference
import FunctionArchive.Proofs.Relocation.Bundles
import FunctionArchive.Proofs.Resolution.ByName
import FunctionArchive.Proofs.Resolution.ByPath
import FunctionArchive.Proofs.Resolution.Candidates
import FunctionArchive.Proofs.Resolution.Carried
import FunctionArchive.Proofs.Resolution.Crossing
import FunctionArchive.Proofs.Resolution.Hits
import FunctionArchive.Proofs.Resolution.Installed
import FunctionArchive.Proofs.Resolution.Links
import FunctionArchive.Proofs.Resolution.Portable
import FunctionArchive.Proofs.Resolution.Steady
import FunctionArchive.Proofs.Script.References
import FunctionArchive.Proofs.SelfContained
import FunctionArchive.Proofs.Shipping
import FunctionArchive.Proofs.Sorted
import FunctionArchive.Proofs.Text.Utf8
import FunctionArchive.Proofs.World
import FunctionArchive.Proofs.Zip.Headers
import FunctionArchive.Proofs.Zip.ReadBack
import FunctionArchive.Reference
import FunctionArchive.Resolution
import FunctionArchive.Script.Dialect
import FunctionArchive.Script.Finding
import FunctionArchive.Script.Parser
import FunctionArchive.Script.Parser.Basic
import FunctionArchive.Script.Parser.Chain
import FunctionArchive.Script.Parser.Declarations
import FunctionArchive.Script.Parser.Expressions
import FunctionArchive.Script.Parser.Functions
import FunctionArchive.Script.Parser.Markup
import FunctionArchive.Script.Parser.Modules
import FunctionArchive.Script.Parser.Pattern
import FunctionArchive.Script.Parser.Statements
import FunctionArchive.Script.Parser.Types
import FunctionArchive.Script.Scan
import FunctionArchive.Script.Token
import FunctionArchive.Script.Tree
import FunctionArchive.Settings
import FunctionArchive.Shell.Parser
import FunctionArchive.Shell.Run
import FunctionArchive.Shell.Session
import FunctionArchive.Shell.Syntax
import FunctionArchive.Shell.Token
import FunctionArchive.Sorted
import FunctionArchive.Strategy
import FunctionArchive.Text.Blank
import FunctionArchive.Text.CodePage437
import FunctionArchive.Text.IdentifierChars
import FunctionArchive.Text.Quoted
import FunctionArchive.Text.Unprintable
import FunctionArchive.Text.Utf8
import FunctionArchive.Toml.Document
import FunctionArchive.Toml.Scalar
import FunctionArchive.Toml.Table
import FunctionArchive.Toml.Text
import FunctionArchive.Version
import FunctionArchive.Version.Range
import FunctionArchive.Warning
import FunctionArchive.World
import FunctionArchive.Zip
import FunctionArchive.Zip.Bytes
import FunctionArchive.Zip.Reader
import FunctionArchive.Zip.Record
