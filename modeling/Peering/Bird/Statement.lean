import Peering.Bird.Expr

/-! Statements of the router configuration language, and their layout in lines. -/
namespace Peering.Bird

/-- Items of a set under a comment. -/
structure SetGroup where
  comment : String
  items : List String
  deriving DecidableEq, Repr

inductive Statement where
  | blank
  | comment (s : String)
  | define (name value : String)
  | defineSet (name : String) (groups : List SetGroup)
  /-- A line that ends in a semicolon. -/
  | setting (s : String)
  | assign (target value : String)
  | call (s : String)
  | cond (test : Expr) (yes no : List Statement)
  | ret (e : Expr)
  | accept
  | reject
  | function (name : String) (params : List String) (returns : Option String)
      (body : List Statement)
  | filter (name : String) (locals : List String) (body : List Statement)
  | block (header : String) (body : List Statement) (terminated : Bool)
  deriving Repr, Inhabited

namespace Statement

def when (test : Expr) (yes : List Statement) : Statement := cond test yes []

/-- The text of a statement that fits on a line with others. -/
def inline? : Statement → Option String
  | setting s | call s => some (s ++ ";")
  | assign target value => some (target ++ " = " ++ value ++ ";")
  | ret e => some ("return " ++ e.text ++ ";")
  | accept => some "accept;"
  | reject => some "reject;"
  | _ => none

/-- The only statement of a branch that needs no braces. -/
def inlineBranch? (yes no : List Statement) : Option String :=
  match yes, no with
  | [s], [] => s.inline?
  | _, _ => none

end Statement

/-- A line of text and how deep it is nested. -/
structure Line where
  depth : Nat
  text : String
  deriving DecidableEq, Repr

namespace Line

/-- Two blanks for each level, but none on a line without text. -/
def write (l : Line) : String :=
  if l.text = "" then "\n" else String.join (List.replicate l.depth "  ") ++ l.text ++ "\n"

end Line

/-- The lines of a set's items: a comma follows every item but the last of all. -/
def itemLines (depth left : Nat) : List String → List Line
  | [] => []
  | i :: is => ⟨depth, if left = 1 then i else i ++ ","⟩ :: itemLines depth (left - 1) is

def groupLines (depth left : Nat) : List SetGroup → List Line
  | [] => []
  | g :: gs =>
    ⟨depth, "# " ++ g.comment⟩ :: itemLines depth left g.items ++
      groupLines depth (left - g.items.length) gs

def signature (name : String) (params : List String) (returns : Option String) : String :=
  "function " ++ name ++ "(" ++ "; ".intercalate params ++ ")" ++
    (match returns with
    | some type => " -> " ++ type
    | none => "")

/-- Whether a statement that is all of a second branch goes on behind its `else`: a conditional that
does not fit on one line. -/
def Statement.chains : Statement → Bool
  | .cond _ yes no => (inlineBranch? yes no).isNone
  | _ => false

mutual

/-- The lines of a statement. A conditional starts with `lead`, which closes a branch before it. -/
def Statement.lines (depth : Nat) (lead : String) : Statement → List Line
  | .blank => [⟨depth, ""⟩]
  | .comment s => [⟨depth, "# " ++ s⟩]
  | .define name value => [⟨depth, "define " ++ name ++ " = " ++ value ++ ";"⟩]
  | .defineSet name groups =>
    ⟨depth, "define " ++ name ++ " = ["⟩ ::
      groupLines (depth + 1) (groups.flatMap (·.items)).length groups ++ [⟨depth, "];"⟩]
  | .cond test yes no =>
    let start := lead ++ "if " ++ test.text ++ " then "
    match Statement.inlineBranch? yes no with
    | some s => [⟨depth, start ++ s⟩]
    | none => ⟨depth, start ++ "\x7b"⟩ :: lines (depth + 1) yes ++ elseLines depth no
  | .function name params returns body =>
    ⟨depth, signature name params returns⟩ :: ⟨depth, "\x7b"⟩ :: lines (depth + 1) body ++
      [⟨depth, "\x7d"⟩]
  | .filter name locals body =>
    ⟨depth, "filter " ++ name⟩ :: locals.map (fun l => ⟨depth, l ++ ";"⟩) ++
      ⟨depth, "\x7b"⟩ :: lines (depth + 1) body ++ [⟨depth, "\x7d"⟩]
  | .block header body terminated =>
    ⟨depth, header ++ " \x7b"⟩ :: lines (depth + 1) body ++
      [⟨depth, if terminated then "\x7d;" else "\x7d"⟩]
  | s => [⟨depth, s.inline?.getD ""⟩]

def lines (depth : Nat) : List Statement → List Line
  | [] => []
  | s :: ss => s.lines depth "" ++ lines depth ss

/-- The end of a conditional, with its second branch if there is one. -/
def elseLines (depth : Nat) : List Statement → List Line
  | [] => [⟨depth, "\x7d"⟩]
  | s :: ss =>
    if s.chains && ss.isEmpty then s.lines depth "\x7d else "
    else
      ⟨depth, "\x7d else \x7b"⟩ :: s.lines (depth + 1) "" ++ lines (depth + 1) ss ++
        [⟨depth, "\x7d"⟩]

end

def render (ss : List Statement) : String := String.join ((lines 0 ss).map Line.write)

end Peering.Bird
