import ContractAudit.Files.Path

namespace ContractAudit

inductive IoError where
  | notFound
  | notADirectory
  | isDirectory
  | nameTooLong
  | nulInName
  | invalidUtf8
  | other (text : String)
  deriving DecidableEq, Repr

def IoError.message : IoError → String
  | .notFound => "No such file or directory (os error 2)"
  | .notADirectory => "Not a directory (os error 20)"
  | .isDirectory => "Is a directory (os error 21)"
  | .nameTooLong => "File name too long (os error 36)"
  | .nulInName => "file name contained an unexpected NUL byte"
  | .invalidUtf8 => "stream did not contain valid UTF-8"
  | .other text => text

inductive Entry where
  | file (content : ByteArray)
  | directory (entries : List (String × Entry))
  deriving Inhabited

namespace Entry

def find? (name : String) (entries : List (String × Entry)) : Option Entry :=
  (entries.find? (·.1 == name)).map (·.2)

def child (entries : List (String × Entry)) (name : String) : Except IoError Entry :=
  if 255 < name.utf8ByteSize then .error .nameTooLong
  else match find? name entries with
    | none => .error .notFound
    | some entry => .ok entry

/-- Where one part of a path leads, with the directories above it, the nearest first. Above the root
there is the root itself. -/
def step (above : List Entry) (here : Entry) (piece : String) :
    Except IoError (List Entry × Entry) :=
  match here with
  | .file _ => .error .notADirectory
  | .directory entries =>
    if piece = "" ∨ piece = "." then .ok (above, here)
    else if piece = ".." then .ok (above.tail, above.headD here)
    else (child entries piece).map (here :: above, ·)

def descend (above : List Entry) (here : Entry) : List String → Except IoError Entry
  | [] => .ok here
  | piece :: rest => (step above here piece).bind fun next ↦ descend next.1 next.2 rest

def inOrder {ε α : Type} (listed : List (String × Except ε (List α))) : Except ε (List α) := do
  return (← (listed.mergeSort fun a b ↦ a.1 ≤ b.1).mapM (·.2)).flatten

mutual

/-- The files named `*.sol` at a path or below it, or the path of a directory that cannot be listed.
A file whose path is too long is passed over. -/
def solidityFilesAt (path : String) : Entry → Except (String × IoError) (List String)
  | .file _ =>
    if !Path.isTooLong path && Path.extension? path = some "sol" then .ok [path] else .ok []
  | .directory entries =>
    if Path.isTooLong path then .error (path, .nameTooLong)
    else inOrder (solidityFilesBelow path entries)

def solidityFilesBelow (path : String) :
    List (String × Entry) → List (String × Except (String × IoError) (List String))
  | [] => []
  | (name, entry) :: rest =>
    (name, solidityFilesAt (Path.join path name) entry) :: solidityFilesBelow path rest

end

end Entry

/-- The entries of the root, and the names that lead from there to the current directory. -/
structure FileSystem where
  root : List (String × Entry)
  current : List String := []

namespace FileSystem

def route (fs : FileSystem) (path : String) : List String :=
  (if Path.isAbsolute path then [] else fs.current) ++ Path.pieces path

def lookup (fs : FileSystem) (path : String) : Except IoError Entry :=
  if path.toList.contains '\x00' then .error .nulInName
  else if Path.isTooLong path then .error .nameTooLong
  else if path = "" then .error .notFound
  else Entry.descend [] (.directory fs.root) (fs.route path)

end FileSystem

/-- Where files are looked up: what a path leads to, or why it leads to nothing. -/
structure Disk where
  lookup : String → Except IoError Entry

namespace Disk

def ofFiles (fs : FileSystem) : Disk := ⟨fs.lookup⟩

def readText (disk : Disk) (path : String) : Except IoError String := do
  match ← disk.lookup path with
  | .directory _ => .error .isDirectory
  | .file content =>
    match String.fromUTF8? content with
    | some text => .ok text
    | none => .error .invalidUtf8

/-- The files that an audit of a path covers: those named `*.sol` below a directory, or else the
path itself, whatever it is. A directory is walked depth first, with its entries in the order of
their names. -/
def solidityFiles (disk : Disk) (path : String) : Except (String × IoError) (List String) :=
  match disk.lookup path with
  | .ok (.directory entries) => Entry.inOrder (Entry.solidityFilesBelow path entries)
  | _ => .ok [path]

end Disk

end ContractAudit
