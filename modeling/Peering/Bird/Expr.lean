/-! Expressions of the router configuration language. All but the connectives is text. -/
namespace Peering.Bird

inductive Expr where
  | raw (s : String)
  | not (e : Expr)
  | and (es : List Expr)
  | or (es : List Expr)
  deriving Repr, Inhabited

namespace Expr

def call (name : String) : Expr := raw (name ++ "()")

/-- Adds a term to a conjunction, or starts one. -/
def also : Expr → Expr → Expr
  | and es, f => and (es ++ [f])
  | e, f => and [e, f]

/-- Whether a negation sign binds a text without parentheses: a call without blanks. -/
def isCall (s : String) : Bool := s.endsWith ")" && !s.contains ' '

def isCompound : Expr → Bool
  | and _ | or _ => true
  | _ => false

/-- Terms of a connective that are connectives themselves stand in parentheses, and so does what is
negated unless it is a call. -/
def text : Expr → String
  | raw s => s
  | not (raw s) => if isCall s then "!" ++ s else "!(" ++ s ++ ")"
  | not e => "!(" ++ text e ++ ")"
  | and es => " && ".intercalate (terms es)
  | or es => " || ".intercalate (terms es)
where
  terms : List Expr → List String
    | [] => []
    | e :: es => (if e.isCompound then "(" ++ text e ++ ")" else text e) :: terms es

end Expr
end Peering.Bird
