import Peering.Bird.Statement
import Peering.Community.LargePattern
import Peering.Naming
import Peering.Pattern
import Peering.Route

/-!
The filter language: tests on a route, commands that change or judge it, functions and filters. Each
is spelled as a statement of the router configuration.
-/
namespace Peering.Filter
open Bird (Expr Statement)

/-- A set that is defined elsewhere or spelled out. -/
inductive Items (α : Type) where
  | named (l : ListName)
  | listed (as : List α)
  deriving DecidableEq, Repr

/-- A number, or the argument that a function was called with. -/
inductive Operand where
  | number (n : UInt32)
  | argument
  deriving DecidableEq, Repr

def Operand.text : Operand → String
  | number n => toString n.toNat
  | argument => "peer_asn"

inductive Test where
  | constant (b : Bool)
  | netIs (n : Network)
  | familyIs (f : Family)
  | netIn (set : Items Pattern)
  | netLongerThan (c : Constant)
  | netShorterThan (c : Constant)
  | pathLongerThan (c : Constant)
  | pathShorterThan (c : Constant)
  /-- Some ASN of the path is in the set. -/
  | pathMeets (l : ListName)
  | moreCommunitiesThan (c : Constant)
  | originAsnIn (set : Items UInt32)
  | firstAsnIsNot (n : UInt32)
  | nextHopIsNot (a : Address)
  | sourceIs (o : Origin)
  | protocolIs (p : Protocol)
  | protocolIsNot (p : Protocol)
  /-- Some community of the route is among those listed. -/
  | communityIn (cs : List Community)
  | extendedIn (cs : List ExtendedCommunity)
  | largeIn (cs : List LargeCommunity)
  | largeMatches (ps : List LargePattern)
  | carries (admin function : UInt32) (value : Operand)
  | shared (f : SharedFunction) (argument : Option UInt32)
  /-- No source has let the route through yet, or some has. -/
  | undecided
  | decided
  | not (t : Test)
  | every (ts : List Test)
  deriving Repr

def setText {α : Type} (text : α → String) (as : List α) : String :=
  "[" ++ ", ".intercalate (as.map text) ++ "]"

def Items.text {α : Type} (item : α → String) : Items α → String
  | named l => l.name
  | listed as => setText item as

def patternSet (ps : List LargePattern) : String := setText LargePattern.text ps

def asnText (n : UInt32) : String := toString n.toNat

namespace Test

/-- The expression that the router configuration has for the test. -/
def expr : Test → Expr
  | constant b => .raw (if b then "true" else "false")
  | netIs n => .raw s!"net = {n.text}"
  | familyIs f => .raw s!"net.type = {f.netType}"
  | netIn set => .raw s!"net ~ {set.text Pattern.text}"
  | netLongerThan c => .raw s!"net.len > {c.name}"
  | netShorterThan c => .raw s!"net.len < {c.name}"
  | pathLongerThan c => .raw s!"bgp_path.len > {c.name}"
  | pathShorterThan c => .raw s!"bgp_path.len < {c.name}"
  | pathMeets l => .raw s!"bgp_path ~ {l.name}"
  | moreCommunitiesThan c =>
    .raw s!"(bgp_community.len + bgp_ext_community.len + bgp_large_community.len) > {c.name}"
  | originAsnIn set => .raw s!"bgp_path.last ~ {set.text asnText}"
  | firstAsnIsNot n => .raw s!"bgp_path.first != {n.toNat}"
  | nextHopIsNot a => .raw s!"bgp_next_hop != {a.text}"
  | sourceIs o => .raw s!"source = {o.name}"
  | protocolIs p => .raw s!"proto = \"{p.name}\""
  | protocolIsNot p => .raw s!"proto != \"{p.name}\""
  | communityIn cs => .raw s!"bgp_community ~ {setText Community.text cs}"
  | extendedIn cs => .raw s!"bgp_ext_community ~ {setText ExtendedCommunity.text cs}"
  | largeIn cs => .raw s!"bgp_large_community ~ {setText LargeCommunity.text cs}"
  | largeMatches ps => .raw s!"bgp_large_community ~ {patternSet ps}"
  | carries admin function value =>
    .raw s!"({admin.toNat}, {function.toNat}, {value.text}) ~ bgp_large_community"
  | shared f argument => .raw (f.call (argument.elim "" asnText))
  | undecided => .raw "accept_route = 0"
  | decided => .raw "accept_route > 0"
  | not t => .not t.expr
  | every ts => .and (exprs ts)
where
  exprs : List Test → List Expr
    | [] => []
    | t :: ts => t.expr :: exprs ts

end Test

/-- A community of any kind, with the attribute that holds it. -/
inductive Mark where
  | standard (c : Community)
  | extended (c : ExtendedCommunity)
  | large (c : LargeCommunity)
  deriving DecidableEq, Repr

namespace Mark

def holder : Mark → String
  | standard _ => "bgp_community"
  | extended _ => "bgp_ext_community"
  | large _ => "bgp_large_community"

def text : Mark → String
  | standard c => c.text
  | extended c => c.text
  | large c => c.text

end Mark

inductive Command where
  | comment (s : String)
  | add (m : Mark)
  | remove (m : Mark)
  /-- Removes every large community that a pattern admits. -/
  | strip (ps : List LargePattern)
  | setLocalPref (n : UInt32)
  /-- Notes whether a source has let the route through. -/
  | setDecided (b : Bool)
  /-- Puts our ASN in front of the path. -/
  | prepend
  | run (f : SharedFunction) (argument : UInt32)
  /-- Applies rules, and goes on with the commands where they refuse the route. -/
  | consult (f : RuleFunction) (no : List Command)
  | cond (t : Test) (yes no : List Command)
  | ret (t : Test)
  | accept
  | reject
  deriving Repr

namespace Command

def when (t : Test) (yes : List Command) : Command := cond t yes []

def statement : Command → Statement
  | comment s => .comment s
  | add m => .call s!"{m.holder}.add({m.text})"
  | remove m => .call s!"{m.holder}.delete({m.text})"
  | strip ps => .call s!"bgp_large_community.delete({patternSet ps})"
  | setLocalPref n => .assign "bgp_local_pref" (asnText n)
  | setDecided b => .assign "accept_route" (if b then "1" else "0")
  | prepend => .call s!"bgp_path.prepend({Constant.ownAsn.name})"
  | run f argument => .call (f.call (asnText argument))
  | consult f no => .when (.not (.call f.name)) (statements no)
  | cond t yes no => .cond t.expr (statements yes) (statements no)
  | ret t => .ret t.expr
  | accept => .accept
  | reject => .reject
where
  statements : List Command → List Statement
    | [] => []
    | c :: cs => c.statement :: statements cs

theorem statements_eq_map (cs : List Command) : statement.statements cs = cs.map statement := by
  induction cs with
  | nil => rfl
  | cons c cs ih => simp [statement.statements, ih]

end Command

/-- A function with a body. Functions that answer end in a `ret`. -/
structure Function where
  name : FunctionName
  takesPeer : Bool
  answers : Bool
  body : List Command

def Function.statement (f : Function) : Statement :=
  .function f.name.name (if f.takesPeer then ["int peer_asn"] else [])
    (if f.answers then some "bool" else none) (f.body.map Command.statement)

/-- A filter. One with a verdict to make up its mind about has a variable for it. -/
structure Program where
  name : FilterName
  decides : Bool
  body : List Command

def Program.locals (f : Program) : List String := if f.decides then ["int accept_route"] else []

def Program.statement (f : Program) : Statement :=
  .filter f.name.name f.locals (f.body.map Command.statement)

end Peering.Filter
