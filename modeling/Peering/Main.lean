import Peering.CommandLine

/-! The program on the files of the machine. -/
namespace Peering.CommandLine

def faultOf : IO.Error → FileFault
  | .noFileOrDirectory .. => .missing
  | .noSuchThing .. => .missing
  | .inappropriateType _ 21 _ => .isDirectory
  | .inappropriateType .. => .notDirectory
  | e => .other (toString e)

def machine : Disk BaseIO where
  read path := do
    match ← (IO.FS.readBinFile path).toBaseIO with
    | .ok bytes => return .ok bytes.toList
    | .error e => return .error (faultOf e)
  write path text := do
    match ← (IO.FS.writeFile path text).toBaseIO with
    | .ok () => return .ok ()
    | .error e => return .error (faultOf e)

end Peering.CommandLine

def main (args : List String) : IO UInt32 := do
  let outcome ← (Peering.CommandLine.run Peering.CommandLine.machine args : BaseIO _)
  IO.print outcome.stdout
  match outcome.report with
  | none => IO.eprint Peering.CommandLine.helpText
  | some lines => for line in lines do IO.eprintln line
  return outcome.exit.toUInt32
