import Peering.Document.Value

/-! Files as the program sees them, and a directory of files as a value. -/
namespace Peering.CommandLine

inductive FileFault where
  | missing | notDirectory | isDirectory
  | other (text : String)
  deriving DecidableEq, Repr

def FileFault.message : FileFault → String
  | missing => "No such file or directory (os error 2)"
  | notDirectory => "Not a directory (os error 20)"
  | isDirectory => "Is a directory (os error 21)"
  | other text => text

/-- How files are read and written. -/
structure Disk (m : Type → Type) where
  read : String → m (Except FileFault (List Document.Byte))
  write : String → String → m (Except FileFault Unit)

/-- The files below one directory, by their paths. -/
abbrev Files := List (String × List Document.Byte)

namespace Files

def components (path : String) : List String :=
  (path.splitOn "/").filter fun c => c ≠ "" && c ≠ "."

def isAbsolute (path : String) : Bool := path.startsWith "/"

/-- Whether some file lies below the path. -/
def isDirectory (fs : Files) (path : List String) : Bool :=
  path.isEmpty || fs.any fun (name, _) =>
    path.length < (components name).length && path.isPrefixOf (components name)

def contents? (fs : Files) (path : List String) : Option (List Document.Byte) :=
  (fs.find? fun (name, _) => components name = path).map (·.2)

/-- Why there is nothing at a path: a file stands where a directory should, or nothing does. -/
def absence (fs : Files) (path : List String) : FileFault :=
  if fs.any fun (name, _) =>
    (components name).length < path.length && (components name).isPrefixOf path
  then .notDirectory else .missing

def read (fs : Files) (path : String) : Except FileFault (List Document.Byte) :=
  let cs := components path
  if isAbsolute path then .error .missing
  else
    match fs.contents? cs with
    | some bytes => if path.endsWith "/" then .error .notDirectory else .ok bytes
    | none => .error (if fs.isDirectory cs then .isDirectory else fs.absence cs)

def put (fs : Files) (path : String) (bytes : List Document.Byte) : Files :=
  match fs with
  | [] => [(path, bytes)]
  | (name, old) :: fs =>
    if components name = components path then (name, bytes) :: fs
    else (name, old) :: put fs path bytes

def write (fs : Files) (path : String) (bytes : List Document.Byte) : Except FileFault Files :=
  let cs := components path
  if isAbsolute path then .error .missing
  else if fs.isDirectory cs || path.endsWith "/" then .error .isDirectory
  else if fs.isDirectory cs.dropLast then .ok (fs.put path bytes)
  else .error (if (fs.contents? cs.dropLast).isSome then .notDirectory else fs.absence cs.dropLast)

/-- The directory as a disk. The faults are those of paths, which are found before a file is
touched; a disk that fails in the middle of reading or writing a file is not one of these. -/
def disk : Disk (StateM Files) where
  read path := return (← get).read path
  write path text := do
    match (← get).write path text.toUTF8.toList with
    | .ok fs =>
      set fs
      return .ok ()
    | .error fault => return .error fault

end Files
end Peering.CommandLine
