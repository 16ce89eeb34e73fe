import Mathlib
import Peering.Proofs.HostBits
import Peering.Proofs.Resolution

/-!
What settings have to satisfy. Every check is a demand of its own, with the key that it looks at;
the demands stand in one list, in the order of the checks. Resolution succeeds exactly if all of
them are met, and otherwise reports the first that is not.
-/
namespace Peering

def IsLiteral (α : Type) [Literal α] (text : String) : Prop :=
  ∃ v : α, Literal.read text = .ok v

/-- Something that settings have to satisfy: the key that is looked at, and what is wrong there, if
anything is. -/
structure Demand where
  key : String
  wrong : Option Cause
  deriving DecidableEq, Repr

namespace Demand

def Met (d : Demand) : Prop := d.wrong = none

instance (d : Demand) : Decidable d.Met := inferInstanceAs (Decidable (_ = _))

def that (holds : Prop) [Decidable holds] (key : String) (cause : Cause) : Demand :=
  ⟨key, if holds then none else some cause⟩

theorem met_that {holds : Prop} [Decidable holds] {key : String} {cause : Cause} (h : holds) :
    (that holds key cause).Met :=
  if_pos h

def literal (α : Type) [Literal α] (key text : String) : Demand where
  key
  wrong :=
    match (Literal.read text : Except LiteralFault α) with
    | .ok _ => none
    | .error fault => some (.literal text fault)

def literals (α : Type) [Literal α] (key : String) (texts : List String) : List Demand :=
  texts.map (literal α key)

def error? (d : Demand) : Option Error := d.wrong.map (.configuration d.key)

end Demand

/-- The error is that of the first demand that is not met. -/
def IsFirstFault (ds : List Demand) (e : Error) : Prop :=
  ∃ before d after cause, ds = before ++ d :: after ∧ (∀ b ∈ before, b.Met) ∧
    d.wrong = some cause ∧ e = .configuration d.key cause

namespace Settings
open Demand (that literals)

def Choice.demands (α : Type) [Literal α] (key : String) : Option (Choice String) → List Demand
  | none => []
  | some (.among texts) | some (.outside texts) => literals α key texts

def Edit.demands (α : Type) [Literal α] (key : String) : Option Edit → List Demand
  | none => []
  | some e => literals α s!"{key}.add" e.add ++ literals α s!"{key}.remove" e.remove

def Match.demands (key : String) (m : Match) : List Demand :=
  Choice.demands Pattern s!"{key}.prefix" m.net ++
    Choice.demands Community s!"{key}.community" m.community ++
    Choice.demands ExtendedCommunity s!"{key}.extended_community" m.extendedCommunity ++
    Choice.demands LargeCommunity s!"{key}.large_community" m.largeCommunity

def Action.demands (key : String) : Action → List Demand
  | .reject => []
  | .update u =>
    (u.prepend.map fun n => that (1 ≤ n ∧ n ≤ 9) s!"{key}.prepend" (.prependCount n)).toList ++
      Edit.demands Community s!"{key}.community" u.community ++
      Edit.demands ExtendedCommunity s!"{key}.extended_community" u.extendedCommunity ++
      Edit.demands LargeCommunity s!"{key}.large_community" u.largeCommunity

def Rule.demands (key : String) (r : Rule) : List Demand :=
  r.condition.demands s!"{key}.matches" ++ r.action.demands s!"{key}.action"

/-- What is demanded of one source: conditions if its routes are sent, and literals in any case. -/
def Redistribute.demands (key : String) (conditions : String → List Demand)
    (value : Option Redistribute) : List Demand :=
  (if wanted value false then conditions key else []) ++
    literals LargeCommunity s!"{key}.large_communities" (texts value)

/-- What is demanded of the sources, one after the other: what comes from the master tables has to
be imported, and not everyone may be sent a default route. -/
def RedistributeSet.demands (ctx : Context) (role : Role) (key : String) (set : RedistributeSet) :
    List Demand :=
  let permitted (key : String) : List Demand :=
    [that (role = .customer ∨ role ∈ Role.reflectors) key (.redistributedDefault role)]
  let imported (on : Bool) (flag key : String) : List Demand :=
    [that (on = true) key (.importOff flag)]
  let free (_ : String) : List Demand := []
  [("default", permitted, set.default),
    ("connected", imported ctx.fromMaster.connected "import.connected", set.connected),
    ("kernel", imported ctx.fromMaster.kernel "import.kernel", set.kernel),
    ("static", imported ctx.fromMaster.static "import.static", set.static),
    ("originated", free, set.originated), ("bgp", free, set.bgp), ("bgp_own", free, set.bgpOwn),
    ("bgp_customer", free, set.bgpCustomer), ("bgp_peering", free, set.bgpPeering),
    ("bgp_transit", free, set.bgpTransit)].flatMap fun (source, conditions, value) =>
      Redistribute.demands s!"{key}.redistribute.{source}" conditions value

def objectDemands (reg : Registry) (key name : String) : List Demand :=
  match reg.object name with
  | none => [⟨s!"{key}.as-set", some (.unresolved name)⟩]
  | some o => literals Pattern s!"{key}.as-set.{name}" (o.ipv4 ++ o.ipv6)

def Allow.demands (reg : Registry) (key : String) (a : Allow) : List Demand :=
  literals Pattern s!"{key}.prefixes" a.patterns ++ a.asSets.flatMap (objectDemands reg key)

/-- What is demanded of the session of a peer, before anything is said about routes. -/
def Peer.sessionDemands (ctx : Context) (name key : String) (s : Peer) : List Demand :=
  [that (name ≠ "" ∧ ∀ c ∈ name.toList, c.isLower = true ∨ c.isDigit = true ∨ c = '_') key
      .badPeerName,
    that (s.neighbor4 ≠ none ∨ s.neighbor6 ≠ none) s!"{key}.neighbor4" .noNeighbor,
    that (s.role ∈ Role.reflectors ↔ s.asn = ctx.asn) s!"{key}.asn"
      (if s.role ∈ Role.reflectors then .reflectorAsn ctx.asn else .foreignAsn s.role ctx.asn),
    that (s.role = .reflectorClient ∨ s.role = .reflectorPeer → ctx.clusterId ≠ none) "cluster_id"
      (.noClusterId name s.role),
    that (s.accept.default = some true → s.role ∈ Role.reflectors) s!"{key}.accept.default"
      (.acceptedDefault s.role)]

/-- Everything that is demanded of the settings of a peer, in the order of the checks. -/
def Peer.demands (ctx : Context) (reg : Registry) (name : String) (s : Peer) : List Demand :=
  let key := s!"peers.{name}"
  s.sessionDemands ctx name key ++ s.redistribute.demands ctx s.role key ++
    s.allow.demands reg s!"{key}.filter" ++
    s.rules.zipIdx.flatMap (fun (r, i) => r.demands s!"{key}.actions[{i}]") ++
    literals LargeCommunity s!"{key}.incoming-large-communities" s.incoming ++
    literals LargeCommunity s!"{key}.outgoing-large-communities" s.outgoing

/-- A network that we originate has to be spelled as one, without bits after its length. -/
def originateDemand (text : String) : Demand where
  key := "originate"
  wrong :=
    match Network.parse? text.toList with
    | none => some (.badOriginate text)
    | some n => if n.NoHostBits then none else some (.originateHostBits text n)

def Router.demands (reg : Registry) (s : Router) : List Demand :=
  that (s.asn ≠ 0) "asn" .reservedAsn :: s.originate.map originateDemand ++
    s.peers.flatMap fun (name, peer) => peer.demands ⟨s.asn, s.clusterId, s.fromMaster⟩ reg name

end Settings

def failure? {α : Type} : Except Error α → Option Error
  | .ok _ => none
  | .error e => some e

/-- The computation fails on the first demand that is not met, and on nothing else. -/
def Obeys {α : Type} (x : Except Error α) (ds : List Demand) : Prop :=
  failure? x = ds.findSome? Demand.error?

namespace Obeys
variable {α β : Type} {x : Except Error α} {ds es : List Demand}

theorem ok (a : α) : Obeys (.ok a) [] := rfl

theorem bind {k : α → Except Error β} (hx : Obeys x ds) (hk : ∀ a, Obeys (k a) es) :
    Obeys (x >>= k) (ds ++ es) := by
  rw [Obeys, List.findSome?_append, ← hx]
  cases x with
  | error e => rfl
  | ok a => exact hk a

theorem of_met (hx : Obeys x ds) (met : ∀ d ∈ es, d.Met) : Obeys x (es ++ ds) := by
  have none : es.findSome? Demand.error? = none := by
    rw [List.findSome?_eq_none_iff]
    intro d hd
    rw [Demand.error?, met d hd]
    rfl
  rw [Obeys, List.findSome?_append, none, hx]
  rfl

theorem map {g : α → β} (hx : Obeys x ds) : Obeys (x >>= fun a => .ok (g a)) ds := by
  have h := hx.bind fun a => ok (g a)
  rwa [List.append_nil] at h

theorem mapM {k : α → Except Error β} {g : α → List Demand} (h : ∀ a, Obeys (k a) (g a))
    (as : List α) : Obeys (as.mapM k) (as.flatMap g) := by
  induction as with
  | nil => exact ok []
  | cons a as ih =>
    rw [List.mapM_cons, List.flatMap_cons]
    exact (h a).bind fun b => ih.map

theorem foldlM {step : β → α → Except Error β} {g : α → List Demand}
    (h : ∀ b a, Obeys (step b a) (g a)) (b : β) (as : List α) :
    Obeys (as.foldlM step b) (as.flatMap g) := by
  induction as generalizing b with
  | nil => exact ok b
  | cons a as ih =>
    rw [List.foldlM_cons, List.flatMap_cons]
    exact (h b a).bind ih

theorem iff_error (h : Obeys x ds) (e : Error) : x = .error e ↔ IsFirstFault ds e := by
  have failed : x = .error e ↔ failure? x = some e := by
    cases x <;> simp [failure?]
  rw [failed, h, List.findSome?_eq_some_iff, IsFirstFault]
  simp only [Demand.error?, Option.map_eq_some_iff, Option.map_eq_none_iff, Demand.Met]
  constructor
  · rintro ⟨before, d, after, hds, ⟨cause, hcause, rfl⟩, hbefore⟩
    exact ⟨before, d, after, cause, hds, hbefore, hcause, rfl⟩
  · rintro ⟨before, d, after, cause, hds, hbefore, hcause, rfl⟩
    exact ⟨before, d, after, hds, ⟨cause, hcause, rfl⟩, hbefore⟩

theorem iff_ok (h : Obeys x ds) : (∃ a, x = .ok a) ↔ ∀ d ∈ ds, d.Met := by
  have succeeded : (∃ a, x = .ok a) ↔ failure? x = none := by
    cases x <;> simp [failure?]
  rw [succeeded, h, List.findSome?_eq_none_iff]
  simp only [Demand.error?, Option.map_eq_none_iff, Demand.Met]

end Obeys

end Peering
