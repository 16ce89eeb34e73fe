import Peering.Filter.Language
import Peering.Rule

/-!
Rules as functions. The function of a rule answers `true` when the rule does not apply or has done
its updates, and `false` when it rejects; evaluation then stops.
-/
namespace Peering.Filter
open Command

def keepGoing : Command := ret (.constant true)
def stop : Command := ret (.constant false)

/-- Leaves the function unless the membership test comes out as the condition wants it. -/
def leaveUnless (t : Test) (negated : Bool) : Command :=
  when (if negated then t else .not t) [keepGoing]

def checkValues {α : Type} (title : String) (test : List α → Test) :
    Option (Condition α) → List Command
  | none => []
  | some c => [comment title, leaveUnless (test c.values) c.negated]

/-- The check for the patterns of one family. Without patterns nothing of the family matches, and
everything of it when the condition is negated. -/
def checkFamily (ps : List Pattern) (negated : Bool) : List Command :=
  match ps, negated with
  | [], false => [keepGoing]
  | [], true => []
  | ps, negated => [leaveUnless (.netIn (.listed ps)) negated]

/-- A set holds patterns of one family only, so the check asks for the family first. -/
def checkNet : Option (Condition Pattern) → List Command
  | none => []
  | some c =>
    let four := checkFamily (c.values.filter fun p => p.family = .v4) c.negated
    let six := checkFamily (c.values.filter fun p => p.family ≠ .v4) c.negated
    match four, six with
    | [], [] => []
    | [], six => [comment "Match prefix", when (.familyIs .v6) six]
    | four, six => [comment "Match prefix", cond (.familyIs .v4) four six]

def checks (m : RuleMatch) : List Command :=
  checkValues "Match origin ASN" (fun ns => .originAsnIn (.listed ns)) m.originAsn ++
    checkNet m.net ++
    checkValues "Match community" .communityIn m.community ++
    checkValues "Match extended community" .extendedIn m.extendedCommunity ++
    checkValues "Match large community" .largeIn m.largeCommunity

def edits {α : Type} (mark : α → Mark) (e : Edit α) : List Command :=
  e.add.map (fun c => add (mark c)) ++ e.remove.map fun c => remove (mark c)

def actions : RuleAction → List Command
  | .reject => [comment "Reject", stop]
  | .update u =>
    comment "Update" :: edits .standard u.community ++ edits .extended u.extendedCommunity ++
      edits .large u.largeCommunity ++ List.replicate (u.prepend.getD 0) prepend ++ [keepGoing]

def ruleBody (r : Rule) : List Command := checks r.condition ++ actions r.action

def ruleFunction (base : String) (index : Nat) (r : Rule) : Function :=
  ⟨.rule (.one base index), false, true, ruleBody r⟩

/-- Calls the functions of the rules in order until one says `false`. -/
def everyRule (base : String) (count : Nat) : Function where
  name := .rule (.every base)
  takesPeer := false
  answers := true
  body := (List.range count).map (fun i => consult (.one base i) [stop]) ++ [keepGoing]

/-- A function for each rule, and one for all of them. No rules need no functions. -/
def ruleFunctions (base : String) (rules : List Rule) : List Function :=
  if rules.isEmpty then []
  else rules.zipIdx.map (fun (r, i) => ruleFunction base i r) ++ [everyRule base rules.length]

end Peering.Filter
