set_option autoImplicit false

/-! # Trees of files

The files of a machine with their texts: what stands below the root, and a working folder from
which paths start that do not start at the root. A path is followed name by name, so everything on
the way to a file has to be a folder. -/

namespace RoutePolicy

/-- What a device does with a text that is written to it. Nothing can be read from any of them. -/
inductive Device where
  | drops
  | prints
  | refuses
  deriving DecidableEq, Repr

/-- What stands at a place. A folder is open if new things can be made in it. -/
inductive FileEntry where
  | folder (isOpen : Bool)
  | file (text : String)
  | device (kind : Device)
  deriving DecidableEq, Repr

namespace FileEntry

def isFolder : FileEntry → Bool
  | folder _ => true
  | _ => false

def isOpenFolder : FileEntry → Bool
  | folder isOpen => isOpen
  | _ => false

/-- The text that is read from an entry. A folder has none. -/
def text? : FileEntry → Option String
  | folder _ => none
  | file text => some text
  | device _ => some ""

end FileEntry

/-- The files, folders and devices of a machine, by the names that lead to them from the root. -/
structure FileTree where
  entries : List (List String × FileEntry)

namespace FileTree

/-! ## The machine before anything is written -/

/-- The place of the working folder. Its own name is empty, and a path cannot use an empty name, so
that no path which has left the working folder leads back. -/
def workingFolder : List String := ["tmp", ""]

/-- The folders below the root in which files can be made. -/
def openFolders : List String :=
  ["bin", "boot", "dev", "dev/shm", "etc", "home", "lib", "lib64", "media", "mnt", "opt", "root",
    "run", "sbin", "srv", "tmp", "usr", "usr/bin", "usr/include", "usr/lib", "usr/local",
    "usr/sbin", "usr/share", "usr/src", "var", "var/cache", "var/lib", "var/log", "var/tmp"]

/-- The folders that show what the machine is doing, in which no files can be made. -/
def closedFolders : List String := ["dev/fd", "dev/pts", "proc", "sys"]

/-- The devices of the machine. -/
def devices : List (String × Device) :=
  [("null", .drops), ("zero", .drops), ("random", .drops), ("urandom", .drops), ("stdin", .drops),
    ("stdout", .prints), ("stderr", .drops), ("full", .refuses)]

/-- The tables of users, groups and machines. -/
def tables : List (String × String) :=
  [("passwd", "root:x:0:0:root:/root:/bin/sh\n"), ("group", "root:x:0:\n"),
    ("hosts", "127.0.0.1 localhost\n"), ("hostname", "localhost\n")]

/-- The tree of a machine with nothing in the working folder. -/
def empty : FileTree where
  entries :=
    (workingFolder, .folder true) ::
    openFolders.map (fun path => (path.splitOn "/", .folder true)) ++
    closedFolders.map (fun path => (path.splitOn "/", .folder false)) ++
    devices.map (fun (name, kind) => (["dev", name], .device kind)) ++
    tables.map (fun (name, text) => (["etc", name], .file text))

instance : Inhabited FileTree := ⟨empty⟩

/-! ## Places -/

/-- What stands at a place; the root itself stands where no names lead. -/
def get? (tree : FileTree) : List String → Option FileEntry
  | [] => some (.folder true)
  | place => tree.entries.lookup place

def isFolder (tree : FileTree) (place : List String) : Bool :=
  (tree.get? place).any FileEntry.isFolder

/-- New things can be made in the folder at the place. -/
def isOpenFolder (tree : FileTree) (place : List String) : Bool :=
  (tree.get? place).any FileEntry.isOpenFolder

/-- The tree with something put at a place, in the stead of what stood there. -/
def put (tree : FileTree) (place : List String) (entry : FileEntry) : FileTree :=
  ⟨(place, entry) :: tree.entries.filter (·.1 ≠ place)⟩

/-! ## Paths -/

/-- The most bytes that a name may have. -/
def maxNameSize : Nat := 255

/-- The most bytes that a path may have. -/
def maxPathSize : Nat := 4095

/-- The folder that a path starts from. -/
def start (path : String) : List String := if path.startsWith "/" then [] else workingFolder

/-- The place that names lead to from a folder. A point stands for the folder itself and two points
for the one above it; above the root is the root. The last name need not be there. -/
def follow (tree : FileTree) (place : List String) : List String → Option (List String)
  | [] => some place
  | name :: names =>
    if !tree.isFolder place then none
    else if name = "" ∨ name = "." then follow tree place names
    else if name = ".." then follow tree place.dropLast names
    else if name.utf8ByteSize > maxNameSize then none
    else follow tree (place ++ [name]) names

/-- The place that a path leads to. There is none for the empty path. -/
def resolve (tree : FileTree) (path : String) : Option (List String) :=
  if path = "" ∨ path.utf8ByteSize > maxPathSize then none
  else tree.follow (start path) (path.splitOn "/")

/-- What stands on a path. -/
def find? (tree : FileTree) (path : String) : Option FileEntry := do
  tree.get? (← tree.resolve path)

def contains (tree : FileTree) (path : String) : Bool := (tree.find? path).isSome

/-- The text of the file on the path. -/
def read? (tree : FileTree) (path : String) : Option String := do (← tree.find? path).text?

/-- What is written to the path is printed. -/
def prints (tree : FileTree) (path : String) : Bool := tree.find? path = some (.device .prints)

/-! ## Writing -/

/-- The tree with folders made where names lead from a folder, in so far as they are missing. -/
def makeFolders (tree : FileTree) (place : List String) : List String → Option FileTree
  | [] => if tree.isFolder place then some tree else none
  | name :: names =>
    if !tree.isFolder place then none
    else if name = "" ∨ name = "." then makeFolders tree place names
    else if name = ".." then makeFolders tree place.dropLast names
    else if name.utf8ByteSize > maxNameSize then none
    else
      let next := place ++ [name]
      if (tree.get? next).isSome then makeFolders tree next names
      else if tree.isOpenFolder place then makeFolders (tree.put next (.folder true)) next names
      else none

/-- The names on a path, without a separator at its end. -/
def names (path : String) : List String :=
  ((path.splitOn "/").reverse.dropWhile fun name => name = "" || name = ".").reverse

/-- The tree with a text written to a place. -/
def writeAt? (tree : FileTree) (place : List String) (text : String) : Option FileTree :=
  match tree.get? place with
  | none => if tree.isOpenFolder place.dropLast then some (tree.put place (.file text)) else none
  | some (.folder _) => none
  | some (.file _) => some (tree.put place (.file text))
  | some (.device .refuses) => none
  | some (.device _) => some tree

/-- The tree with a text written to the file on the path. Missing folders on the way are made. -/
def write? (tree : FileTree) (path text : String) : Option FileTree := do
  let tree ← tree.makeFolders (start path) (names path).dropLast
  tree.writeAt? (← tree.resolve path) text

/-! ## The files of the working folder -/

/-- The tree of files under their paths. -/
def ofList (files : List (String × String)) : FileTree :=
  files.foldl (fun tree (path, text) => (tree.write? path text).getD tree) empty

/-- The files below the working folder with their paths from there. -/
def files (tree : FileTree) : List (String × String) :=
  tree.entries.filterMap fun (place, entry) =>
    match workingFolder.isPrefixOf? place, entry with
    | some names, .file text => some (String.intercalate "/" names, text)
    | _, _ => none

end FileTree

end RoutePolicy
