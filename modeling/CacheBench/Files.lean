import CacheBench.Text.Blank
import CacheBench.Text.Bytes
import Std.Data.TreeMap

/-!
# Files

A `FileSystem` is what a program needs of files: a way to read one, to write one, and to make sure
that a directory exists. `FileTree` is one that is kept as a value, a map from paths to what is
there.
-/

namespace CacheBench

open Std (TreeMap)

inductive FileError
  | notFound
  | occupied
  | notDirectory
  | isDirectory
  | nameTooLong
  | invalidName
deriving DecidableEq

namespace FileError

def message : FileError → String
  | .notFound => "No such file or directory (os error 2)"
  | .occupied => "File exists (os error 17)"
  | .notDirectory => "Not a directory (os error 20)"
  | .isDirectory => "Is a directory (os error 21)"
  | .nameTooLong => "File name too long (os error 36)"
  | .invalidName => "file name contained an unexpected NUL byte"

end FileError

/-- How a program uses files. A refusal comes with a text. -/
structure FileSystem (m : Type → Type) where
  read : String → m (Except String Bytes)
  makeDirectories : String → m (Except String Unit)
  writeFile : String → String → m (Except String Unit)

/-! ## Paths -/

namespace Path

def parts (path : String) : List String := (Text.splitChars '/' path.toList).map String.ofList

def isIdle (part : String) : Bool := part = "" || part = "."

/-- The parts before the last name of a path, if slashes come after that name. -/
def slashed? (path : String) : Option (List String) :=
  match (parts path).reverse with
  | "" :: ps =>
    match ps.dropWhile (· = "") with
    | part :: before => if isIdle part || part = ".." then none else some before.reverse
    | [] => none
  | _ => none

/-- A path is not empty and has fewer than 4096 bytes, none of them zero. -/
def check (path : String) : Except FileError Unit :=
  if path.contains '\x00' then .error .invalidName
  else if path.isEmpty then .error .notFound
  else if 4096 ≤ path.utf8ByteSize then .error .nameTooLong
  else .ok ()

/-- The directory of a file, without idle parts at its end. It is empty for a file of the working
directory or of the root. -/
def directory (path : String) : String :=
  "/".intercalate ((((parts path).reverse.dropWhile isIdle).drop 1).dropWhile isIdle).reverse

end Path

/-! ## A tree of files -/

inductive FileEntry
  | directory
  | file (text : String)
  /-- A file that is empty, whatever is written to it. -/
  | sink
deriving DecidableEq

/-- Files and directories under paths without idle parts. The root is always there. -/
structure FileTree where
  entries : TreeMap String FileEntry := ∅

namespace FileTree

def place (loc : List String) : String := "/".intercalate loc

def entry? (t : FileTree) (loc : List String) : Option FileEntry :=
  if loc.isEmpty then some .directory else t.entries[place loc]?

def insert (t : FileTree) (loc : List String) (e : FileEntry) : FileTree :=
  { entries := t.entries.insert (place loc) e }

/-- The place a part leads to from a directory. A name has at most 255 bytes. -/
def follow (t : FileTree) (loc : List String) (part : String) : Except FileError (List String) :=
  match t.entry? loc with
  | none => .error .notFound
  | some (.file _) | some .sink => .error .notDirectory
  | some .directory =>
    if Path.isIdle part then .ok loc
    else if part = ".." then .ok loc.dropLast
    else if 255 < part.utf8ByteSize then .error .nameTooLong
    else .ok (loc ++ [part])

def locate (t : FileTree) (parts : List String) : Except FileError (List String) :=
  parts.foldlM t.follow []

def makeFrom (t : FileTree) (loc : List String) : List String → Except FileError FileTree
  | [] => .ok t
  | part :: parts => do
    let loc ← t.follow loc part
    match t.entry? loc with
    | some .directory => makeFrom t loc parts
    | some (.file _) | some .sink =>
      throw (if parts.all Path.isIdle then .occupied else .notDirectory)
    | none => makeFrom (t.insert loc .directory) loc parts

def makeDirectories (t : FileTree) (path : String) : Except FileError FileTree := do
  Path.check path
  t.makeFrom [] (Path.parts path)

/-- Writes a file into a directory that exists. A name with slashes after it is taken for that of a
directory, whether or not there is one. -/
def writeFile (t : FileTree) (path text : String) : Except FileError FileTree := do
  Path.check path
  match Path.slashed? path with
  | some before =>
    let _ ← t.locate (before ++ ["."])
    throw .isDirectory
  | none =>
    let loc ← t.locate (Path.parts path)
    match t.entry? loc with
    | some .directory => throw .isDirectory
    | some .sink => return t
    | some (.file _) | none => return t.insert loc (.file text)

def read (t : FileTree) (path : String) : Except FileError String := do
  Path.check path
  match t.entry? (← t.locate (Path.parts path)) with
  | some (.file text) => return text
  | some .sink => return ""
  | some .directory => throw .isDirectory
  | none => throw .notFound

def initial : FileTree :=
  let directories := ["dev", "etc", "proc", "root", "tmp", "usr", "var"]
  let t := directories.foldl (fun t name => t.insert [name] .directory) ({} : FileTree)
  t.insert ["dev", "null"] .sink

def change (f : FileTree → Except FileError FileTree) : StateM FileTree (Except String Unit) := do
  match f (← get) with
  | .ok t => do
    set t
    return .ok ()
  | .error e => return .error e.message

def system : FileSystem (StateM FileTree) where
  read path := return ((← get).read path).map utf8 |>.mapError FileError.message
  makeDirectories path := change fun t => t.makeDirectories path
  writeFile path text := change fun t => t.writeFile path text

end FileTree

end CacheBench
