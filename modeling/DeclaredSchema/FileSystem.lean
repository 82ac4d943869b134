import DeclaredSchema.Text.Blank
import DeclaredSchema.Text.CodeText

/-!
# Paths and files

A path is shown without empty parts and without parts that stay in the same directory; steps to the
parent directory are kept, because what they lead to depends on the files there are.

A table of files lists what stands at which place, and says in which directory a program starts.
A directory is there when something is listed in it, or when a program starts in it.

## Main definitions

* `Path`, `Path.ofText`, `Path.text` — paths
* `FileFault` — why a file is not read or written
* `FileAccess` — how files are read and written
* `Files`, `Files.read`, `Files.write` — a table of files
-/

namespace DeclaredSchema

/-! ## Paths -/

/-- A path: the slashes at its start, at most two, and its parts. -/
structure Path where
  root : Nat
  parts : List String
  deriving DecidableEq, Repr

namespace Path

/-- A text cut at its slashes. -/
def cutSlashes : List Char → List (List Char)
  | [] => [[]]
  | c :: rest =>
    if c = '/' then [] :: cutSlashes rest
    else
      match cutSlashes rest with
      | [] => [[c]]
      | part :: parts => (c :: part) :: parts

/-- Three and more slashes at the start are like one. -/
def rootOf (slashes : Nat) : Nat := if 2 < slashes then 1 else slashes

/-- The path that a text names. -/
def ofText (text : String) : Path :=
  let cs := text.toList
  let parts := (cutSlashes cs).map String.ofList
  ⟨rootOf (cs.takeWhile (· = '/')).length, parts.filter fun part => part ≠ "" && part ≠ "."⟩

/-- The text of a path. -/
def text (p : Path) : String :=
  if p.root = 0 && p.parts.isEmpty then "."
  else String.ofList (List.replicate p.root '/') ++ "/".intercalate p.parts

example : (ofText "./a//b/../c/").text = "a/b/../c" ∧ (ofText "").text = "." ∧
    (ofText "///x").text = "/x" := by
  decide +kernel

end Path

/-! ## Faults -/

/-- Why a file is not read or written. The last two reasons are not told of a path: a device takes no
more, or the text cannot be encoded. -/
inductive FileFault where
  | nullCharacter
  | missing
  | notDirectory
  | isDirectory
  | nameTooLong
  | other (code : Nat) (reason : String)
  | noSpace
  | unencodable (fault : EncodingFault)
  deriving DecidableEq, Repr

namespace FileFault

/-- A fault as a system reports it, by its number. -/
def report (code : Nat) (reason : String) : String := s!"[Errno {code}] {reason}"

/-- The fault of a path, as messages show it. -/
def message (f : FileFault) (p : Path) : String :=
  let ofPath (code : Nat) (reason : String) : String :=
    report code reason ++ ": " ++ Text.quote p.text
  match f with
  | nullCharacter => "embedded null byte"
  | missing => ofPath 2 "No such file or directory"
  | notDirectory => ofPath 20 "Not a directory"
  | isDirectory => ofPath 21 "Is a directory"
  | nameTooLong => ofPath 36 "File name too long"
  | other code reason => ofPath code reason
  | noSpace => report 28 "No space left on device"
  | unencodable fault => fault.message

/-- Whether a system reports the fault. It never sees a path with a null character, nor a text that
cannot be encoded. -/
def isReported : FileFault → Bool
  | nullCharacter | unencodable _ => false
  | _ => true

end FileFault

namespace Path

/-- The most bytes that a path may have. -/
def sizeLimit : Nat := 4095

/-- Why a path names no place, whatever files there are. -/
def fault? (p : Path) : Option FileFault :=
  if p.text.toList.contains '\x00' then some .nullCharacter
  else if sizeLimit < p.text.utf8ByteSize then some .nameTooLong
  else none

end Path

/-- How files are read and written. Texts are read with line feeds as the only line ends. A file is
emptied before the text for it is encoded. -/
structure FileAccess (m : Type → Type) where
  read : Path → m (Except FileFault String)
  write : Path → CodeText → m (Except FileFault Unit)

/-! ## A table of files -/

/-- A place: the names on the way from the root. -/
abbrev Location := List String

/-- What stands at a place: a file with a text, a directory, or a device, which is always empty.
Writing to a device succeeds unless it is full. -/
inductive Entry where
  | file (text : String)
  | directory
  | device (full : Bool)
  deriving DecidableEq, Repr

/-- Files by their places, and the directory in which a program starts. -/
structure Files where
  start : Location
  entries : List (Location × Entry)

namespace Files

/-- What is listed at a place. -/
def entry? (fs : Files) (l : Location) : Option Entry := fs.entries.lookup l

/-- The text of the file at a place. -/
def content? (fs : Files) (l : Location) : Option String :=
  match fs.entry? l with
  | some (.file text) => some text
  | _ => none

/-- Whether there is a directory at a place. -/
def isDirectory (fs : Files) (l : Location) : Bool :=
  l.isPrefixOf fs.start || fs.entry? l = some .directory ||
    fs.entries.any fun (place, _) => l.isPrefixOf place && l ≠ place

/-- The most bytes that a name may have. -/
def nameLimit : Nat := 255

/-- One step from a directory. The root is its own parent. -/
def step (fs : Files) (l : Location) (part : String) : Except FileFault Location :=
  if !fs.isDirectory l then
    .error (if (fs.entry? l).isSome then .notDirectory else .missing)
  else if part = ".." then .ok l.dropLast
  else if nameLimit < part.utf8ByteSize then .error .nameTooLong
  else .ok (l ++ [part])

/-- The place that a path leads to; there need not be anything, but no directory. -/
def locate (fs : Files) (p : Path) : Except FileFault Location := do
  if let some fault := p.fault? then throw fault
  let l ← p.parts.foldlM fs.step (if p.root = 0 then fs.start else [])
  if fs.isDirectory l then throw .isDirectory
  return l

/-- The text of the file that a path leads to. -/
def read (fs : Files) (p : Path) : Except FileFault String := do
  match fs.entry? (← fs.locate p) with
  | some (.file text) => return String.ofList (Text.unifyNewlines text.toList)
  | some (.device _) => return ""
  | _ => throw .missing

/-- Entries with the file at one place replaced. -/
def put (l : Location) (text : String) : List (Location × Entry) → List (Location × Entry)
  | [] => [(l, .file text)]
  | (place, old) :: rest =>
    if place = l then (l, .file text) :: rest else (place, old) :: put l text rest

/-- The table with a text in the place of what stands at a place. A device stays as it is. -/
def replace (fs : Files) (l : Location) (text : String) : Files :=
  match fs.entry? l with
  | some (.device _) => fs
  | _ => { fs with entries := put l text fs.entries }

/-- Writes a text to the file that a path leads to. The file is left empty if the text cannot be
encoded. -/
def write (fs : Files) (p : Path) (text : CodeText) : Except FileFault Unit × Files :=
  match fs.locate p with
  | .error fault => (.error fault, fs)
  | .ok l =>
    match text.encode with
    | .error fault => (.error (.unencodable fault), fs.replace l "")
    | .ok s =>
      if fs.entry? l = some (.device true) then (.error .noSpace, fs)
      else (.ok (), fs.replace l s)

/-- Reading from a table and writing to it. -/
def access : FileAccess (StateM Files) where
  read p := do return (← get).read p
  write p text := modifyGet fun fs => fs.write p text

/-- The directories at the root of a system. -/
def rootDirectories : List String := [
  "bin", "boot", "dev", "etc", "home", "lib", "lib64", "media", "mnt", "opt", "proc", "root", "run",
  "sbin", "srv", "sys", "tmp", "usr", "var"]

/-- The table of a system in which a program starts in the directory at `start`, where it finds the
given files. -/
def ofList (start : Location) (files : List (Location × String)) : Files where
  start
  entries := (files.map fun (place, text) => (place, .file text)) ++
    (rootDirectories.map fun name => ([name], .directory)) ++
    [(["dev", "null"], .device false), (["dev", "full"], .device true)]

end Files

end DeclaredSchema
