import Peering.Filter.Programs
import Peering.Lists

/-!
What filters mean: commands act in order on a route until one of them decides. Tests leave the route
alone. Only functions that are defined earlier can be called, so every call ends.
-/
namespace Peering.Filter

/-- The route a filter works on, and the variable that the filter has. -/
structure State where
  route : Route
  decided : Bool
  deriving DecidableEq, Repr

/-- How commands end before they run out. -/
inductive Exit where
  | accept | reject
  /-- A function answers. -/
  | answer (b : Bool)
  deriving DecidableEq, Repr

/-- What a call answers and does, given the function, its argument and a route. -/
abbrev Calls := FunctionName → UInt32 → Route → Bool × Route

/-- What the names in filters stand for. -/
structure Scope where
  own : UInt32
  bound : Constant → Nat
  nets : ListName → List Pattern
  /-- Inclusive ranges of ASNs. -/
  asns : ListName → List (UInt32 × UInt32)
  /-- In the order of their definitions. -/
  functions : List Function

def inRanges (rs : List (UInt32 × UInt32)) (n : UInt32) : Bool :=
  rs.any fun r => r.1 ≤ n && n ≤ r.2

theorem inRanges_iff {rs : List (UInt32 × UInt32)} {n : UInt32} :
    inRanges rs n = true ↔ ∃ r ∈ rs, r.1 ≤ n ∧ n ≤ r.2 := by
  simp [inRanges]

namespace Scope

def netsOf (sc : Scope) : Items Pattern → List Pattern
  | .named l => sc.nets l
  | .listed ps => ps

def hasAsn (sc : Scope) (n : UInt32) : Items UInt32 → Bool
  | .named l => inRanges (sc.asns l) n
  | .listed ns => ns.contains n

end Scope

def Operand.value (argument : UInt32) : Operand → UInt32
  | number n => n
  | .argument => argument

namespace Test
variable (sc : Scope) (calls : Calls) (argument : UInt32)

/-- Whether a route passes a test. -/
def holds (s : State) : Test → Bool
  | constant b => b
  | netIs n => s.route.net = n
  | familyIs f => s.route.net.family = f
  | netIn set => (sc.netsOf set).any fun p => p.admits s.route.net
  | netLongerThan c => sc.bound c < s.route.net.length
  | netShorterThan c => s.route.net.length < sc.bound c
  | pathLongerThan c => sc.bound c < s.route.path.length
  | pathShorterThan c => s.route.path.length < sc.bound c
  | pathMeets l => s.route.path.any (inRanges (sc.asns l))
  | moreCommunitiesThan c => sc.bound c < s.route.communityCount
  | originAsnIn set => sc.hasAsn s.route.originAsn set
  | firstAsnIsNot n => s.route.firstAsn ≠ n
  | nextHopIsNot a => s.route.nextHop ≠ a
  | sourceIs o => s.route.origin = o
  | protocolIs p => s.route.protocol = p.name
  | protocolIsNot p => s.route.protocol ≠ p.name
  | communityIn cs => s.route.communities.any cs.contains
  | extendedIn cs => s.route.extended.any cs.contains
  | largeIn cs => s.route.large.any cs.contains
  | largeMatches ps => s.route.large.any fun c => ps.any fun p => p.admits c
  | carries admin function value => s.route.large.contains ⟨admin, function, value.value argument⟩
  | shared f a => (calls (.shared f) (a.getD 0) s.route).1
  | undecided => !s.decided
  | decided => s.decided
  | not t => !t.holds s
  | every ts => allHold s ts
where
  allHold (s : State) : List Test → Bool
    | [] => true
    | t :: ts => t.holds s && allHold s ts

end Test

namespace Mark

def addTo (r : Route) : Mark → Route
  | standard c => { r with communities := addMember c r.communities }
  | extended c => { r with extended := addMember c r.extended }
  | large c => { r with large := addMember c r.large }

def removeFrom (r : Route) : Mark → Route
  | standard c => { r with communities := removeMember c r.communities }
  | extended c => { r with extended := removeMember c r.extended }
  | large c => { r with large := removeMember c r.large }

end Mark

namespace Command
variable (sc : Scope) (calls : Calls) (argument : UInt32)

def strippedOf (ps : List LargePattern) (r : Route) : Route :=
  { r with large := r.large.filter fun c => !ps.any fun p => p.admits c }

/-- Carries out a command. Commands that do not decide leave no exit. -/
def perform (s : State) : Command → Option Exit × State
  | comment _ => (none, s)
  | add m => (none, { s with route := m.addTo s.route })
  | remove m => (none, { s with route := m.removeFrom s.route })
  | strip ps => (none, { s with route := strippedOf ps s.route })
  | setLocalPref n => (none, { s with route := { s.route with localPref := n } })
  | setDecided b => (none, { s with decided := b })
  | prepend => (none, { s with route := { s.route with path := sc.own :: s.route.path } })
  | run f a => (none, { s with route := (calls (.shared f) a s.route).2 })
  | consult f no =>
    let (go, route) := calls (.rule f) 0 s.route
    if go then (none, { s with route }) else performAll { s with route } no
  | cond t yes no => if t.holds sc calls argument s then performAll s yes else performAll s no
  | ret t => (some (.answer (t.holds sc calls argument s)), s)
  | accept => (some .accept, s)
  | reject => (some .reject, s)
where
  performAll (s : State) : List Command → Option Exit × State
    | [] => (none, s)
    | c :: cs =>
      match c.perform s with
      | (none, s) => performAll s cs
      | done => done

/-- What comes after some commands is reached when none of them decides. -/
theorem performAll_append (s : State) (cs ds : List Command) :
    perform.performAll sc calls argument s (cs ++ ds) =
      match perform.performAll sc calls argument s cs with
      | (none, s) => perform.performAll sc calls argument s ds
      | done => done := by
  induction cs generalizing s with
  | nil => rfl
  | cons c cs ih =>
    simp only [List.cons_append, perform.performAll]
    cases h : c.perform sc calls argument s with
    | mk e t => cases e <;> simp [ih]

theorem perform_when (s : State) (t : Test) (cs : List Command) :
    (Command.when t cs).perform sc calls argument s =
      if t.holds sc calls argument s then perform.performAll sc calls argument s cs
      else (none, s) := by
  simp only [Command.when, perform, perform.performAll]

end Command

/-- Calls among functions, the one defined last first. A function that ends without an answer says
no. -/
def callsAmong (sc : Scope) : List Function → Calls
  | [], _, _, r => (false, r)
  | f :: earlier, name, argument, r =>
    if f.name = name then
      match Command.perform.performAll sc (callsAmong sc earlier) argument ⟨r, false⟩ f.body with
      | (some (.answer b), s) => (b, s.route)
      | (_, s) => (false, s.route)
    else callsAmong sc earlier name argument r

def Scope.calls (sc : Scope) : Calls := callsAmong sc sc.functions.reverse

/-- Runs a filter on a route: how it ends, and the route then. -/
def Program.run (sc : Scope) (p : Program) (r : Route) : Option Exit × Route :=
  let (e, s) := Command.perform.performAll sc sc.calls 0 ⟨r, false⟩ p.body
  (e, s.route)

def itemsOf {α : Type} (gs : List (Group α)) : List α := gs.flatMap (·.items)

/-- What the names stand for in a router with some peers. -/
def scope (own : UInt32) (peers : List Policy) : Scope where
  own
  bound c := c.bound.getD own.toNat
  nets
    | .bogons f => (Peering.bogons f).filterMap fun s => (Pattern.parse s).toOption
    | .peerNets name f => (peers.filter (·.name = name)).flatMap fun p => itemsOf (p.groups f)
    | _ => []
  asns
    | .bogonAsns => Peering.bogonAsns
    | .transitFree => Peering.transitFree.map fun n => (n, n)
    | .peerAsns name =>
      (peers.filter (·.name = name)).flatMap fun p => (itemsOf p.asnGroups).map fun n => (n, n)
    | _ => []
  functions := ((sharedFunctions ⟨some own⟩).toOption.getD []) ++ peers.flatMap rulesOfPeer

end Peering.Filter
