import Peering.Filter.Language
import Peering.Tagger

/-! The bodies of the functions that all filters share. -/
namespace Peering.Filter
open Command

/-- The functions under which a peer asks for prepends, most prepends first. -/
def prependRequests : List (Nat × TagKind) :=
  [(3, .prependThree), (2, .prependTwo), (1, .prependOne)]

/-- The first request that the route carries is met. -/
def prependChain (own : UInt32) : List (Nat × TagKind) → List Command
  | [] => []
  | (n, k) :: rest =>
    [cond (.carries own k.code .argument) (List.replicate n prepend) (prependChain own rest)]

def refuseWhen (t : Test) : Command := when t [ret (.constant false)]

def sharedBody (t : Tagger) : SharedFunction → Except Error (List Command)
  | .isBogon f => .ok [ret (.netIn (.named (.bogons f)))]
  | .tooLong f => .ok [ret (.netLongerThan (.longest f))]
  | .tooShort f => .ok [ret (.netShorterThan (.shortest f))]
  | .pathTooLong => .ok [ret (.pathLongerThan .longestPath)]
  | .pathTooShort => .ok [ret (.pathShorterThan .shortestPath)]
  | .hasBogonAsn => .ok [ret (.pathMeets .bogonAsns)]
  | .hasTransitFreeAsn => .ok [ret (.pathMeets .transitFree)]
  | .tooManyCommunities => .ok [ret (.moreCommunitiesThan .mostCommunities)]
  | .hasFiltered => do return [ret (.largeMatches [← t.kindPattern .filtered .any])]
  | .canExport f => do
    let own ← t.own
    return [
      refuseWhen (.carries own TagKind.noExport.code .argument),
      refuseWhen (.shared .hasFiltered none),
      refuseWhen (.shared (.tooLong f) none),
      refuseWhen (.shared (.tooShort f) none),
      refuseWhen (.shared (.isBogon f) none),
      ret (.constant true)]
  | .exportPrepend => do return prependChain (← t.own) prependRequests

def sharedFunction (t : Tagger) (f : SharedFunction) : Except Error Function := do
  return ⟨.shared f, f.takesPeer, f.answers, ← sharedBody t f⟩

def sharedFunctions (t : Tagger) : Except Error (List Function) :=
  SharedFunction.all.mapM (sharedFunction t)

end Peering.Filter
