import RegisterLang.Grammar.Framed
import RegisterLang.Text.Utf8

/-!
# Source files

A source file is read as UTF-8, its line ends are unified, and the text is parsed under the path
that was asked for. What a path leads to is given by a view of the file system, so that reading is a
function; `Directory` is a view that lives in memory.
-/

namespace RegisterLang

/-- The refusals of a file system. -/
inductive SystemFault where
  /-- Nothing stands at the path. -/
  | noSuchFile
  /-- The path goes through a file as if it were a directory. -/
  | notDirectory
  | isDirectory
  /-- The path, or a name in it, is longer than the file system allows. -/
  | nameTooLong
  /-- The path holds a null character, which is in no name. -/
  | nullCharacter
  deriving DecidableEq

namespace SystemFault

/-- The number and the text of a refusal. A null character is refused before the file system is
asked, so it has no number. -/
def text : SystemFault → String
  | noSuchFile => "[Errno 2] No such file or directory"
  | notDirectory => "[Errno 20] Not a directory"
  | isDirectory => "[Errno 21] Is a directory"
  | nameTooLong => "[Errno 36] File name too long"
  | nullCharacter => "embedded null byte"

/-- The message about a path. A path with a null character is not shown. -/
def message (fault : SystemFault) (path : String) : String :=
  if fault = nullCharacter then fault.text else fault.text ++ ": " ++ Text.quoted path

end SystemFault

/-- What a path leads to. -/
inductive PathStatus where
  /-- Nothing: even a look at the path is refused. -/
  | refused (fault : SystemFault)
  | directory
  /-- A device that has no bytes and keeps none. -/
  | device
  | file (bytes : List UInt8)
  deriving DecidableEq

/-- The bytes that reading gives. -/
def PathStatus.contents : PathStatus → Except SystemFault (List UInt8)
  | refused fault => .error fault
  | directory => .error .isDirectory
  | device => .ok []
  | file bytes => .ok bytes

/-- A view of a file system: what every path leads to. -/
abbrev FileView := String → PathStatus

/-- The message about bytes that are no UTF-8. -/
def Text.Utf8Fault.message (fault : Text.Utf8Fault) : String :=
  let what :=
    if fault.length = 1 then
      "byte 0x" ++ String.ofList (Text.hexDigits 2 fault.first.toNat) ++ " in position " ++
        toString fault.position
    else
      "bytes in position " ++ toString fault.position ++ "-" ++
        toString (fault.position + fault.length - 1)
  "'utf-8' codec can't decode " ++ what ++ ": " ++ fault.reason.text

/-! ### Paths -/

/-- The simplest spelling of a path: no empty and no single-dot components, and no slash at the end.
Two slashes at the start, but not three, stay two. -/
def normalizePath (path : String) : String :=
  let parts := (path.splitOn "/").filter fun part => part ≠ "" ∧ part ≠ "."
  let slashes := (path.toList.takeWhile (· == '/')).length
  let root := if slashes = 0 then "" else if slashes = 2 then "//" else "/"
  let simple := root ++ "/".intercalate parts
  if simple = "" then "." else simple

/-- The size in bytes that a name in a path may have. -/
def maxNameSize : Nat := 255

/-- The size in bytes that a whole path may have. -/
def maxPathSize : Nat := 4095

/-- Whether a path can be looked at, whatever stands there. -/
def checkPath (path : String) : Except SystemFault Unit :=
  if path.toList.contains '\x00' then .error .nullCharacter
  else if maxPathSize < path.utf8ByteSize then .error .nameTooLong
  else .ok ()

/-- The directories that places are named from. -/
inductive Base where
  /-- The directory at hand. -/
  | here
  /-- A directory above the one at hand. What else is in it is not known. -/
  | above
  /-- The directory above all others. -/
  | root
  deriving DecidableEq

/-- A place in a file system: the components of the way there from a base, the last one first. -/
structure Place where
  base : Base
  components : List String
  deriving DecidableEq

/-- The place of the directory that a place is in. -/
def Place.parent : Place → Place
  | ⟨base, _ :: components⟩ => ⟨base, components⟩
  | ⟨.root, []⟩ => ⟨.root, []⟩
  | ⟨_, []⟩ => ⟨.above, []⟩

/-- What stands at absolute paths on any machine. -/
def standardPlaces : List (List String × PathStatus) :=
  [(["dev"], .directory), (["dev", "null"], .device), (["etc"], .directory), (["tmp"], .directory),
    (["usr"], .directory)]

/-- Files and directories below one directory. -/
structure Directory where
  /-- What stands at the paths below the directory, each path given by its components. -/
  entries : List (List String × PathStatus)

namespace Directory

/-- The directories on the way to a path. -/
def ancestors (components : List String) : List (List String) :=
  (List.range components.length).map fun n => components.take n

/-- The components of a path that names something below the directory. -/
def componentsOf (path : String) : List String :=
  (path.splitOn "/").filter fun part => part ≠ "" ∧ part ≠ "."

/-- The directory with the given directories and files in it, and all directories on the way to
them. -/
def ofContents (directories : List String) (files : List (String × List UInt8)) : Directory :=
  let files := files.map fun (path, bytes) => (componentsOf path, PathStatus.file bytes)
  let named := directories.map componentsOf
  let parents := (named ++ files.map Prod.fst).flatMap ancestors
  ⟨files ++ (named ++ parents).map fun components => (components, .directory)⟩

/-- What stands at a place. -/
def at? (d : Directory) : Place → PathStatus
  | ⟨_, []⟩ => .directory
  | ⟨.here, components⟩ => (d.entries.lookup components.reverse).getD (.refused .noSuchFile)
  | ⟨.above, _⟩ => .refused .noSuchFile
  | ⟨.root, components⟩ => (standardPlaces.lookup components.reverse).getD (.refused .noSuchFile)

/-- Walks along the components of a path. -/
def walk (d : Directory) : Place → List String → Except SystemFault Place
  | place, [] => .ok place
  | place, part :: parts =>
    match d.at? place with
    | .directory =>
      if part = "" ∨ part = "." then walk d place parts
      else if part = ".." then walk d place.parent parts
      else if maxNameSize < part.utf8ByteSize then .error .nameTooLong
      else walk d { place with components := part :: place.components } parts
    | .file _ | .device => .error .notDirectory
    | .refused fault => .error fault

/-- The place that the components of a path lead to, whether or not something stands there. An empty
first component starts at the root. -/
def resolveParts (d : Directory) : List String → Except SystemFault Place
  | "" :: parts => d.walk ⟨.root, []⟩ parts
  | parts => d.walk ⟨.here, []⟩ parts

/-- The place that a path leads to. The empty path leads nowhere. -/
def resolve (d : Directory) (path : String) : Except SystemFault Place := do
  checkPath path
  if path = "" then throw .noSuchFile
  d.resolveParts (path.splitOn "/")

/-- What stands at a place that was looked for. -/
def status (d : Directory) : Except SystemFault Place → PathStatus
  | .ok place => d.at? place
  | .error fault => .refused fault

/-- The directory as a view. -/
def view (d : Directory) : FileView := fun path =>
  d.status (d.resolve path)

/-- Why a file cannot be made at a path that ends with a slash: if the directory for it is there,
the path itself must name a directory. -/
def slashFault (d : Directory) (path : String) : SystemFault :=
  let parts := ((path.splitOn "/").reverse.dropWhile (· = "")).drop 1
  match d.status (d.resolveParts parts.reverse) with
  | .directory => .isDirectory
  | .file _ | .device => .notDirectory
  | .refused fault => fault

/-- The directory with a file at a place. What is put elsewhere is not recorded. -/
def put (d : Directory) (place : Place) (bytes : List UInt8) : Directory :=
  match place with
  | ⟨.here, components⟩ =>
    let name := components.reverse
    ⟨(name, .file bytes) :: d.entries.filter (·.1 ≠ name)⟩
  | _ => d

/-- Writes a file. -/
def write (d : Directory) (path : String) (bytes : List UInt8) : Except SystemFault Directory := do
  checkPath path
  if d.view path = .directory then throw .isDirectory
  if path.toList.getLast? = some '/' then throw (d.slashFault path)
  return d.put (← d.resolve path) bytes

/-- The files that an earlier directory does not have, or has with other bytes. -/
def changesSince (d earlier : Directory) : List (String × List UInt8) :=
  d.entries.filterMap fun (name, status) =>
    match status with
    | .file bytes =>
      if earlier.entries.lookup name = some status then none
      else some ("/".intercalate name, bytes)
    | _ => none

end Directory

/-! ### Reading sources -/

/-- Why a path leads to no source file. -/
inductive FileFault where
  /-- The file system refuses to read or write there. -/
  | refused (fault : SystemFault) (path : String)
  /-- No file stands there. -/
  | notFound (path : String)
  deriving DecidableEq

/-- The message of a fault. -/
def FileFault.message : FileFault → String
  | refused fault path => fault.message path
  | notFound path => "File not found: " ++ path

/-- Why a file has no text. -/
inductive ReadError where
  | file (fault : FileFault)
  | notText (fault : Text.Utf8Fault)
  deriving DecidableEq

/-- Bytes as a source text: UTF-8 with unified line ends. -/
def sourceText (bytes : List UInt8) : Except Text.Utf8Fault String :=
  (Text.decodeUtf8 bytes).map fun cs => String.ofList (Text.unifyLineEnds cs)

/-- The text that reading a path gives. -/
def readText (files : FileView) (path : String) : Except ReadError String :=
  match (files path).contents with
  | .error fault => .error (.file (.refused fault path))
  | .ok bytes =>
    match sourceText bytes with
    | .ok text => .ok text
    | .error fault => .error (.notText fault)

/-- Why scanning a file fails. -/
inductive ScanFileError where
  | read (error : ReadError)
  | scan (error : ScanError)

/-- The tokens of the file at a path. -/
def scanFile (files : FileView) (path : String) : Except ScanFileError (List Token) :=
  match readText files path with
  | .error e => .error (.read e)
  | .ok text =>
    match scan text path with
    | .error e => .error (.scan e)
    | .ok tokens => .ok tokens

/-- Why parsing a file fails. -/
inductive ParseFileError where
  | read (error : ReadError)
  | source (error : SourceError)

/-- A parsed file. -/
structure ParsedFile where
  /-- The path as it was asked for. -/
  path : String
  /-- The number of bytes of the file. -/
  size : Nat
  code : String
  tree : Tree

/-- The bytes of the file that is parsed for a path. It is looked up under the simplest spelling of
the path; a look that is refused counts as no file, unless the path is too long. -/
def sourceBytes (files : FileView) (path : String) : Except FileFault (List UInt8) :=
  let simple := normalizePath path
  match files simple with
  | .file bytes => .ok bytes
  | .refused .nameTooLong => .error (.refused .nameTooLong simple)
  | _ => .error (.notFound path)

/-- Parses the file at a path as a program, which is reported under the path itself. -/
def parseFile (i : Interpreter) (files : FileView) (path : String) (limit : Int) :
    Except Fault (Except ParseFileError ParsedFile) :=
  match sourceBytes files path with
  | .error fault => .ok (.error (.read (.file fault)))
  | .ok bytes =>
    match sourceText bytes with
    | .error fault => .ok (.error (.read (.notText fault)))
    | .ok code => do
      match ← i.parseSource .program code path limit with
      | .error e => return .error (.source e)
      | .ok tree => return .ok ⟨path, bytes.length, code, tree⟩

end RegisterLang
