/-! What the arguments of the program ask for. -/
namespace Peering.CommandLine

inductive Request where
  /-- Compiles the configuration, to a file if one is named. -/
  | compile (config : String) (lookup output : Option String)
  /-- Compiles without writing anything. -/
  | check (config : String) (lookup : Option String)
  | help
  deriving DecidableEq, Repr

/-- What was said so far. Nothing may be said twice. -/
structure Draft where
  config : Option String
  lookup : Option String
  output : Option String
  deriving DecidableEq, Repr

/-- The options that take a path. -/
inductive Slot where
  | lookup | output
  deriving DecidableEq, Repr

namespace Draft

def empty : Draft := ⟨none, none, none⟩

def setConfig (d : Draft) (path : String) : Option Draft :=
  if path = "" ∨ d.config.isSome then none else some { d with config := some path }

def set (d : Draft) (path : String) : Slot → Option Draft
  | .lookup => if path = "" ∨ d.lookup.isSome then none else some { d with lookup := some path }
  | .output => if path = "" ∨ d.output.isSome then none else some { d with output := some path }

end Draft

inductive Argument where
  /-- An option, with its value if that is attached. -/
  | option (s : Slot) (value : Option String)
  | help
  /-- Everything after it is positional. -/
  | separator
  | positional (s : String)
  | unknown
  deriving DecidableEq, Repr

/-- Splits a text at its first `=`. -/
def splitValue (cs : List Char) : String × Option String :=
  let name := cs.takeWhile (· ≠ '=')
  match cs.dropWhile (· ≠ '=') with
  | _ :: value => (String.ofList name, some (String.ofList value))
  | [] => (String.ofList name, none)

def classify (withOutput : Bool) (arg : String) : Argument :=
  match arg.toList with
  | ['-', '-'] => .separator
  | '-' :: '-' :: cs =>
    match splitValue cs with
    | ("lookup", value) => .option .lookup value
    | ("output", value) => if withOutput then .option .output value else .unknown
    | ("help", none) => .help
    | _ => .unknown
  | '-' :: 'o' :: cs =>
    if !withOutput then .unknown
    else
      match cs with
      | [] => .option .output none
      | '=' :: value => .option .output (some (String.ofList value))
      | value => .option .output (some (String.ofList value))
  | '-' :: 'h' :: _ => .help
  | '-' :: _ :: _ => .unknown
  | _ => .positional arg

/-- Reads the arguments behind a command; `none` is a usage error. -/
def readDraft (withOutput : Bool) : List String → Draft → Option (Option Draft)
  | [], d => some (some d)
  | arg :: args, d =>
    match classify withOutput arg with
    | .separator => (args.foldlM Draft.setConfig d).map some
    | .positional s => (d.setConfig s).bind (readDraft withOutput args)
    | .option slot (some value) => (d.set value slot).bind (readDraft withOutput args)
    | .option slot none =>
      match args with
      | value :: args =>
        match classify withOutput value with
        | .positional value => (d.set value slot).bind (readDraft withOutput args)
        | _ => none
      | [] => none
    | .help => some none
    | .unknown => none

/-- The request of the arguments; `none` is a usage error. -/
def read : List String → Option Request
  | "compile" :: args => do
    match ← readDraft true args .empty with
    | some d => return .compile (← d.config) d.lookup d.output
    | none => return .help
  | "check" :: args => do
    match ← readDraft false args .empty with
    | some d => return .check (← d.config) d.lookup
    | none => return .help
  | ["--help"] | ["-h"] | ["help"] => some .help
  | _ => none

example : read ["compile", "--lookup=l.json", "c.json"] =
    some (.compile "c.json" (some "l.json") none) := by decide +kernel
example : read ["compile", "c.json", "extra"] = none := by decide +kernel
example : read ["check", "c.json", "-o", "x"] = none := by decide +kernel

end Peering.CommandLine
