import Peering.Proofs.Calls

/-! What the shared functions answer, said of the route itself. -/
namespace Peering

def Constant.limit (c : Constant) : Nat := c.bound.getD 0

def bogonNets (f : Family) : List Pattern :=
  (bogons f).filterMap fun s => (Pattern.parse s).toOption

namespace Route

def isBogon (f : Family) (r : Route) : Bool := (bogonNets f).any (·.admits r.net)

def isTooLong (f : Family) (r : Route) : Bool := (Constant.longest f).limit < r.net.length

def isTooShort (f : Family) (r : Route) : Bool := r.net.length < (Constant.shortest f).limit

def hasLongPath (r : Route) : Bool := Constant.longestPath.limit < r.path.length

def hasShortPath (r : Route) : Bool := r.path.length < Constant.shortestPath.limit

def hasBogonAsn (r : Route) : Bool := r.path.any (Filter.inRanges bogonAsns)

def hasTransitFreeAsn (r : Route) : Bool := r.path.any transitFree.contains

def hasManyCommunities (r : Route) : Bool := Constant.mostCommunities.limit < r.communityCount

def isFiltered (own : UInt32) (r : Route) : Bool :=
  r.large.any fun c => own == c.admin && TagKind.filtered.code == c.function

/-- Whether a route with a relation may be sent to the peer with the ASN. -/
def mayBeSent (own : UInt32) (f : Family) (asn : UInt32) (r : Route) : Bool :=
  !r.large.contains ⟨own, TagKind.noExport.code, asn⟩ && !r.isFiltered own && !r.isTooLong f &&
    !r.isTooShort f && !r.isBogon f

theorem isFiltered_iff {own : UInt32} {r : Route} :
    r.isFiltered own = true ↔
      ∃ c ∈ r.large, c.admin = own ∧ c.function = TagKind.filtered.code := by
  rw [isFiltered, List.any_eq_true]
  refine exists_congr fun c => and_congr_right fun _ => ?_
  rw [Bool.and_eq_true, beq_iff_eq, beq_iff_eq, @eq_comm _ own, @eq_comm _ TagKind.filtered.code]

end Route

namespace Filter
open Command.perform (performAll)

theorem inRanges_points (ns : List UInt32) (n : UInt32) :
    inRanges (ns.map fun m => (m, m)) n = ns.contains n := by
  rw [Bool.eq_iff_iff, inRanges_iff, List.contains_iff_mem]
  constructor
  · intro h
    obtain ⟨_, hm, hle, hge⟩ := h
    obtain ⟨m, hmem, rfl⟩ := List.mem_map.mp hm
    rwa [UInt32.le_antisymm hge hle]
  · intro h
    exact ⟨(n, n), List.mem_map.mpr ⟨n, h, rfl⟩, UInt32.le_refl n, UInt32.le_refl n⟩

theorem performAll_refusals {sc : Scope} {calls : Calls} {argument : UInt32} (tests : List Test)
    (s : State) :
    performAll sc calls argument s (tests.map refuseWhen ++ [.ret (.constant true)]) =
      (some (.answer (tests.all fun t => !t.holds sc calls argument s)), s) := by
  induction tests with
  | nil =>
    rw [List.map_nil, List.nil_append, performAll_singleton, Command.perform, Test.holds]
    rfl
  | cons t tests ih =>
    rw [List.map_cons, List.cons_append, performAll_cons, refuseWhen, Command.perform_when,
      performAll_singleton, Command.perform, Test.holds, List.all_cons]
    cases t.holds sc calls argument s with
    | false => exact ih
    | true => rfl

section Answers
variable {own : UInt32} {peers : List Policy} (f : Family) (argument : UInt32) (r : Route)

theorem calls_isBogon :
    (scope own peers).calls (.shared (.isBogon f)) argument r = (r.isBogon f, r) := by
  rw [calls_shared]
  cases f <;> rfl

theorem calls_tooLong :
    (scope own peers).calls (.shared (.tooLong f)) argument r = (r.isTooLong f, r) := by
  rw [calls_shared]
  cases f <;> rfl

theorem calls_tooShort :
    (scope own peers).calls (.shared (.tooShort f)) argument r = (r.isTooShort f, r) := by
  rw [calls_shared]
  cases f <;> rfl

theorem calls_pathTooLong :
    (scope own peers).calls (.shared .pathTooLong) argument r = (r.hasLongPath, r) := by
  rw [calls_shared]
  rfl

theorem calls_pathTooShort :
    (scope own peers).calls (.shared .pathTooShort) argument r = (r.hasShortPath, r) := by
  rw [calls_shared]
  rfl

theorem calls_hasBogonAsn :
    (scope own peers).calls (.shared .hasBogonAsn) argument r = (r.hasBogonAsn, r) := by
  rw [calls_shared]
  rfl

theorem calls_hasTransitFreeAsn :
    (scope own peers).calls (.shared .hasTransitFreeAsn) argument r =
      (r.hasTransitFreeAsn, r) := by
  have points : inRanges (transitFree.map fun m => (m, m)) = transitFree.contains :=
    funext (inRanges_points transitFree)
  rw [calls_shared, Route.hasTransitFreeAsn, ← points]
  rfl

theorem calls_tooManyCommunities :
    (scope own peers).calls (.shared .tooManyCommunities) argument r =
      (r.hasManyCommunities, r) := by
  rw [calls_shared]
  rfl

/-- Any value counts, so a route is filtered by whatever reason. -/
theorem holds_filtered {sc : Scope} {calls : Calls} {argument : UInt32} (s : State) :
    Test.holds sc calls argument s (.largeMatches [⟨own, .exactly TagKind.filtered.code, .any⟩]) =
      s.route.isFiltered own := by
  rw [Test.holds, Route.isFiltered]
  simp [LargePattern.admits, Part.admits]

theorem calls_hasFiltered :
    (scope own peers).calls (.shared .hasFiltered) argument r = (r.isFiltered own, r) := by
  have h : Test.holds (scope own peers) (scope own peers).calls argument ⟨r, false⟩
      (.largeMatches [⟨own, .exactly TagKind.filtered.code, .any⟩]) = r.isFiltered own :=
    holds_filtered _
  rw [calls_shared, ← h]
  rfl

/-- The functions defined before the check of exports, the last one first. -/
def beforeExport (own : UInt32) : Family → List Function
  | .v4 => (sharedOf own).reverse.drop 3
  | .v6 => (sharedOf own).reverse.drop 2

theorem calls_beforeExport {g : SharedFunction}
    (hg : g ∉ [.exportPrepend, .canExport .v6, .canExport .v4]) :
    callsAmong (scope own peers) (beforeExport own f) (.shared g) =
      (scope own peers).calls (.shared g) := by
  have later : ∀ h ∈ (sharedOf own).reverse.take 3, h.name ≠ .shared g := by
    have names : ((sharedOf own).reverse.take 3).map (·.name) =
      [.exportPrepend, .canExport .v6, .canExport .v4].map .shared := rfl
    intro h hh hname
    have hmem := List.mem_map_of_mem (f := (·.name)) hh
    rw [names, hname] at hmem
    obtain ⟨k, hk, hkg⟩ := List.mem_map.mp hmem
    exact hg (FunctionName.shared.inj hkg ▸ hk)
  rw [calls_shared]
  cases f with
  | v4 => exact (callsAmong_append later).symm
  | v6 =>
    have fewer : ∀ h ∈ (sharedOf own).reverse.take 2, h.name ≠ .shared g :=
      fun h hh => later h (List.mem_of_mem_take (i := 2) (by rwa [List.take_take]))
    exact (callsAmong_append fewer).symm

def exportTests (own : UInt32) (f : Family) : List Test :=
  [.carries own TagKind.noExport.code .argument, .shared .hasFiltered none,
    .shared (.tooLong f) none, .shared (.tooShort f) none, .shared (.isBogon f) none]

theorem calls_canExport :
    (scope own peers).calls (.shared (.canExport f)) argument r =
      (r.mayBeSent own f argument, r) := by
  have h : (scope own peers).calls (.shared (.canExport f)) argument r =
      callsAmong (scope own peers) (⟨.shared (.canExport f), true, true,
        (exportTests own f).map refuseWhen ++ [.ret (.constant true)]⟩ :: beforeExport own f)
        (.shared (.canExport f)) argument r := by
    rw [calls_shared]
    cases f <;> rfl
  rw [h, callsAmong_cons (performAll_refusals _ _)]
  simp only [exportTests, List.all_cons, List.all_nil, Test.holds, Operand.value]
  rw [calls_beforeExport, calls_beforeExport, calls_beforeExport, calls_beforeExport,
    calls_hasFiltered, calls_tooLong, calls_tooShort, calls_isBogon]
  · simp [Route.mayBeSent, Bool.and_assoc]
  all_goals simp

end Answers

end Filter
end Peering
