import Peering.CommandLine.Arguments
import Peering.CommandLine.Files
import Peering.Compile

/-! The program as its arguments and files determine it. -/
namespace Peering.CommandLine

/-- What keeps the program from its end. -/
inductive Failure where
  | opening (path : String) (fault : FileFault)
  /-- A path that opens but is no file. -/
  | reading (path key : String) (fault : FileFault)
  | document (path : String) (e : Error)
  | refused (e : Error)
  | writing (path : String) (fault : FileFault)
  deriving DecidableEq, Repr

namespace Failure

def message : Failure → String
  | opening path _ => s!"Failed to open {path}"
  | reading path _ _ | document path _ => s!"Failed to parse {path}"
  | refused e => e.message
  | writing path _ => s!"Failed to write {path}"

def cause? : Failure → Option String
  | opening _ fault | writing _ fault => some fault.message
  | reading _ key fault => some s!"configuration error in `{key}`: {fault.message}"
  | document _ e => some e.message
  | refused _ => none

def indent (line : String) : String := if line = "" then "" else "    " ++ line

/-- The failure, and its cause below it; lines with text are indented there. -/
def report (f : Failure) : List String :=
  (s!"Error: {f.message}").splitOn "\n" ++
    match f.cause? with
    | some cause => ["", "Caused by:"] ++ (cause.splitOn "\n").map indent
    | none => []

end Failure

/-- How the program ends. Usage errors are not reported further. -/
structure Outcome where
  exit : Nat
  stdout : String
  report : Option (List String)
  deriving DecidableEq, Repr

namespace Outcome

def usage : Outcome := ⟨2, "", none⟩

def done (stdout : String) : Outcome := ⟨0, stdout, some []⟩

def failed (f : Failure) : Outcome := ⟨1, "", some f.report⟩

end Outcome

def helpText : String :=
  "Compiles BGP peering policy into BIRD configuration\n\n" ++
    "compile CONFIG [--lookup FILE] [-o|--output FILE]\n" ++
    "check CONFIG [--lookup FILE]\n"

section
variable {m : Type → Type} [Monad m] (disk : Disk m)

def readFile {α : Type} (c : Document.Codec α) (path key : String) : ExceptT Failure m α := do
  match ← disk.read path with
  | .error .isDirectory => throw (.reading path key .isDirectory)
  | .error fault => throw (.opening path fault)
  | .ok bytes =>
    match readDocument c key bytes with
    | .ok a => return a
    | .error e => throw (.document path e)

/-- The text for a configuration. The configuration is read before the file with registry data is
opened. -/
def compileFile (config : String) (lookup : Option String) : ExceptT Failure m String := do
  let settings ← readFile disk Settings.routerRecord.codec config "config"
  let registry ← match lookup with
    | some path => readFile disk Registry.codec path "lookup"
    | none => pure Registry.empty
  match Router.resolve settings registry >>= Router.compile with
  | .ok text => return text
  | .error e => throw (.refused e)

def serve : Request → ExceptT Failure m String
  | .compile config lookup output => do
    let text ← compileFile disk config lookup
    match output with
    | none => return text
    | some path =>
      match ← disk.write path text with
      | .ok () => return ""
      | .error fault => throw (.writing path fault)
  | .check config lookup => do
    let _ ← compileFile disk config lookup
    return ""
  | .help => return helpText

def run (args : List String) : m Outcome := do
  match read args with
  | none => return .usage
  | some request =>
    match ← (serve disk request).run with
    | .ok text => return .done text
    | .error f => return .failed f

end

/-- The program over a directory: how it ends, and what the directory holds then. -/
def runOn (files : Files) (args : List String) : Outcome × Files :=
  Id.run ((run Files.disk args).run files)

end Peering.CommandLine
