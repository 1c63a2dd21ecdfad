import FunctionArchive.Digest.Sha256
import FunctionArchive.Disk.Walk
import FunctionArchive.Fault

/-!
# Checksums of archives

The checksum of a file is the digest of its content. The checksum of a directory is the digest of a
stream that goes through its files and links in the order of their paths: each path, a zero byte,
and the content of the file or the text of the link. Directories themselves leave no trace.

Paths and the texts of links go into the stream as texts. Of names and link texts that are not valid
UTF-8, which no file system has here, it would be what is shown of them, with replacement
characters, so the checksum tells less apart there.
-/

set_option autoImplicit false

namespace FunctionArchive.Checksum

/-- Something that counts in the checksum of a directory. -/
inductive Item
  | file (data : List UInt8)
  | link (target : String)
deriving DecidableEq, Repr

/-- What an item adds to the stream behind its path: its bytes, or the text of the link as it is
shown. -/
def Item.content : Item → List UInt8
  | .file data => data
  | .link target => Utf8.encode target

/-- The item that an entry is; directories are none. -/
def Item.ofNode? : Disk.Node → Option Item
  | .file f => some (.file f.data)
  | .link target => some (.link target)
  | .directory _ => none

/-- The items below a node in the order of their paths, each with its path as it is shown. -/
def itemsOf (n : Disk.Node) : List (String × Item) :=
  (n.leaves.filterMap fun (names, leaf) =>
    (Item.ofNode? leaf).map ("/".intercalate names, ·)).mergeSort fun a b => a.1 ≤ b.1

/-- The items of the directory at a path. A link at the path itself counts as an item in front. -/
def items (d : Disk) (path : Path) (n : Disk.Node) : List (String × Item) :=
  match d.linkText path with
  | .ok target => ("", .link target) :: itemsOf n
  | .error _ => itemsOf n

/-- The stream of some items. -/
def stream (items : List (String × Item)) : List UInt8 :=
  (items.map fun (path, item) => Utf8.encode path ++ 0 :: item.content).flatten

/-- The checksum of what is at a path. -/
def ofPath (d : Disk) (path : Path) : Outcome String :=
  match d.find path with
  | .ok ⟨_, .file f⟩ => .ok (Sha256.hexDigest f.data)
  | .ok ⟨_, n⟩ => .ok (Sha256.hexDigest (stream (items d path n)))
  | .error fault => .error (.disk "reading archive metadata" path fault)

end FunctionArchive.Checksum
