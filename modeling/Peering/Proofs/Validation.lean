import Peering.Proofs.Demands

/-!
Which settings are accepted, and what is reported of those that are not. Resolution obeys the list
of demands step by step; the demands are all met exactly by acceptable settings.
-/
namespace Peering
open Demand (that literals)

theorem obeys_require {holds : Bool} {P : Prop} [Decidable P] (key : String) (cause : Cause)
    (h : holds = true ↔ P) : Obeys (Policy.require holds key cause) [that P key cause] := by
  unfold Policy.require
  by_cases hP : P
  · rw [if_pos (h.mpr hP)]
    simp [Obeys, failure?, that, Demand.error?, hP]
  · rw [if_neg (fun hb => hP (h.mp hb))]
    simp [Obeys, failure?, that, Demand.error?, hP]

theorem obeys_readLiterals {α : Type} [Literal α] (key : String) (texts : List String) :
    Obeys (readLiterals key texts : Except Error (List α)) (literals α key texts) := by
  have one : ∀ text, Obeys ((Literal.read text : Except LiteralFault α).mapError fun f =>
      Error.configuration key (.literal text f)) [Demand.literal α key text] := by
    intro text
    rw [Obeys, Demand.literal, List.findSome?_singleton, Demand.error?]
    cases (Literal.read text : Except LiteralFault α) <;> rfl
  have all := Obeys.mapM one texts
  rwa [← List.map_eq_flatMap] at all

namespace Settings

section Rules

theorem obeys_choice {α : Type} [Literal α] (key : String) (c : Option (Choice String)) :
    Obeys (Condition.resolve key c : Except Error (Option (Peering.Condition α)))
      (Choice.demands α key c) := by
  cases c with
  | none => exact Obeys.ok none
  | some c => cases c <;> exact (obeys_readLiterals key _).map

theorem obeys_edit {α : Type} [Literal α] (key : String) (e : Option Edit) :
    Obeys (Peering.Edit.resolve key e : Except Error (Peering.Edit α)) (Edit.demands α key e) := by
  cases e with
  | none => exact Obeys.ok _
  | some e =>
    exact (obeys_readLiterals _ e.add).bind fun _ => (obeys_readLiterals _ e.remove).map

theorem obeys_match (key : String) (m : Match) :
    Obeys (RuleMatch.resolve key m) (m.demands key) := by
  simp only [Match.demands, List.append_assoc]
  exact (obeys_choice _ m.net).bind fun _ => (obeys_choice _ m.community).bind fun _ =>
    (obeys_choice _ m.extendedCommunity).bind fun _ => (obeys_choice _ m.largeCommunity).map

theorem obeys_prepend (key : String) (n : Option UInt32) :
    Obeys (prependCount key n)
      (n.map fun n => that (1 ≤ n ∧ n ≤ 9) key (.prependCount n)).toList := by
  cases n with
  | none => exact Obeys.ok none
  | some n =>
    by_cases h : 1 ≤ n ∧ n ≤ 9 <;>
      simp [Obeys, prependCount, h, failure?, that, Demand.error?]

theorem obeys_action (key : String) (a : Action) :
    Obeys (RuleAction.resolve key a) (a.demands key) := by
  cases a with
  | reject => exact Obeys.ok _
  | update u =>
    simp only [Action.demands, List.append_assoc]
    exact (obeys_prepend _ u.prepend).bind fun _ => (obeys_edit _ u.community).bind fun _ =>
      (obeys_edit _ u.extendedCommunity).bind fun _ => (obeys_edit _ u.largeCommunity).map

theorem obeys_rule (key : String) (r : Rule) : Obeys (Peering.Rule.resolve key r) (r.demands key) :=
  (obeys_match _ r.condition).bind fun _ => (obeys_action _ r.action).map

theorem obeys_rules (key : String) (rules : List Rule) :
    Obeys (Policy.rulesOf key rules)
      (rules.zipIdx.flatMap fun (r, i) => r.demands s!"{key}.actions[{i}]") :=
  Obeys.mapM (k := fun x : Rule × Nat => Peering.Rule.resolve s!"{key}.actions[{x.2}]" x.1)
    (fun x => obeys_rule _ x.1) rules.zipIdx

end Rules

section Peer
variable (ctx : Context) (reg : Registry)

def conditions (role : Role) : Source → String → List Demand
  | .default, key =>
    [that (role = .customer ∨ role ∈ Role.reflectors) key (.redistributedDefault role)]
  | .connected, key => [that (ctx.fromMaster.connected = true) key (.importOff "import.connected")]
  | .kernel, key => [that (ctx.fromMaster.kernel = true) key (.importOff "import.kernel")]
  | .static, key => [that (ctx.fromMaster.static = true) key (.importOff "import.static")]
  | _, _ => []

theorem demands_eq (role : Role) (key : String) (set : RedistributeSet) :
    set.demands ctx role key = Source.all.flatMap fun source =>
      Redistribute.demands s!"{key}.redistribute.{source.name}" (conditions ctx role source)
        (Policy.setting set source) :=
  rfl

theorem obeys_conditions {α : Type} {k : Except Error α} {ds : List Demand} (role : Role)
    (source : Source) (key : String) (hk : Obeys k ds) :
    Obeys (do
        match Policy.importFlag ctx.fromMaster source with
        | some (flag, on) => Policy.require on key (.importOff flag)
        | none => pure ()
        Policy.require (source ≠ .default || role.mayRedistributeDefault) key
          (.redistributedDefault role)
        k) (conditions ctx role source key ++ ds) := by
  cases source with
  | default =>
    have permitted : role.mayRedistributeDefault = true ↔
        role = .customer ∨ role ∈ Role.reflectors := by
      simp [Role.mayRedistributeDefault, Role.isReflector_iff]
    exact (obeys_require key _ permitted).bind fun _ => hk
  | connected | kernel | static => exact (obeys_require key _ Iff.rfl).bind fun _ => hk
  | originated | bgp | bgpOwn | bgpCustomer | bgpPeering | bgpTransit => exact hk

theorem obeys_source (role : Role) (key : String) (set : RedistributeSet) (r : Redistribution)
    (source : Source) :
    Obeys (Policy.redistributeFrom ctx role key set r source)
      (Redistribute.demands s!"{key}.redistribute.{source.name}" (conditions ctx role source)
        (Policy.setting set source)) := by
  unfold Policy.redistributeFrom Redistribute.demands
  generalize s!"{key}.redistribute.{source.name}" = key
  cases Policy.setting set source with
  | none => exact Obeys.ok r
  | some value =>
    have tags := (obeys_readLiterals s!"{key}.large_communities" value.communities).map
      (g := fun tags => r.override source value.on tags)
    cases value with
    | tagged texts => exact obeys_conditions ctx role source key tags
    | flag on =>
      cases on with
      | false => exact tags
      | true => exact obeys_conditions ctx role source key tags

theorem obeys_object (key name : String) :
    Obeys (Policy.Allowed.ofObject reg key name) (objectDemands reg key name) := by
  unfold Policy.Allowed.ofObject objectDemands
  cases reg.object name with
  | none => rfl
  | some o => exact (obeys_readLiterals _ _).map

theorem obeys_allow (key : String) (a : Allow) :
    Obeys (Policy.Allowed.resolve reg key a) (a.demands reg key) :=
  (obeys_readLiterals _ a.patterns).bind fun _ =>
    Obeys.foldlM (fun _ name => (obeys_object reg key name).map) _ a.asSets

theorem obeys_session (name key : String) (s : Peer) :
    Obeys (Policy.checkSession ctx name key s) (s.sessionDemands ctx name key) := by
  have named : Policy.validName name = true ↔
      name ≠ "" ∧ ∀ c ∈ name.toList, c.isLower = true ∨ c.isDigit = true ∨ c = '_' := by
    simp [Policy.validName, or_assoc]
  have neighbored : (s.neighbor4.isSome || s.neighbor6.isSome) = true ↔
      s.neighbor4 ≠ none ∨ s.neighbor6 ≠ none := by
    simp [Option.isSome_iff_ne_none]
  have asn : (s.role.isReflector == (s.asn == ctx.asn)) = true ↔
      (s.role ∈ Role.reflectors ↔ s.asn = ctx.asn) := by
    rw [beq_iff_eq, Bool.eq_iff_iff, beq_iff_eq, Role.isReflector_iff]
  have cluster : (!s.role.needsClusterId || ctx.clusterId.isSome) = true ↔
      (s.role = .reflectorClient ∨ s.role = .reflectorPeer → ctx.clusterId ≠ none) := by
    rw [← Role.needsClusterId_iff]
    cases s.role.needsClusterId <;> simp [Option.isSome_iff_ne_none]
  have accept : (!s.accept.default.getD false || s.role.mayAcceptDefault) = true ↔
      (s.accept.default = some true → s.role ∈ Role.reflectors) := by
    rw [Role.mayAcceptDefault, ← Role.isReflector_iff]
    cases s.accept.default with
    | none => simp
    | some b => cases b <;> simp
  rw [Peer.sessionDemands]
  simp only [← Role.isReflector_iff] at asn accept ⊢
  exact (obeys_require _ _ named).bind fun _ => (obeys_require _ _ neighbored).bind fun _ =>
    (obeys_require _ _ asn).bind fun _ => (obeys_require _ _ cluster).bind fun _ =>
    obeys_require _ _ accept

/-- Resolving a peer fails on the first demand that its settings do not meet. -/
theorem obeys_peer (name : String) (s : Peer) :
    Obeys (Policy.resolve ctx reg name s) (s.demands ctx reg name) := by
  simp only [Peer.demands, demands_eq, List.append_assoc]
  exact (obeys_session ctx name _ s).bind fun _ =>
    (Obeys.foldlM (obeys_source ctx s.role _ s.redistribute) _ Source.all).bind fun _ =>
    (obeys_allow reg _ s.allow).bind fun _ => (obeys_rules _ s.rules).bind fun _ =>
    (obeys_readLiterals _ s.incoming).bind fun _ => (obeys_readLiterals _ s.outgoing).map

end Peer

theorem obeys_originate (text : String) :
    Obeys (Peering.Router.readOriginate text) [originateDemand text] := by
  unfold Peering.Router.readOriginate originateDemand
  cases Network.parse? text.toList with
  | none => rfl
  | some n =>
    by_cases h : n.NoHostBits <;> simp [Obeys, failure?, Demand.error?, n.truncate_eq_iff, h]

theorem obeys_router (reg : Registry) (s : Router) :
    Obeys (Peering.Router.resolve s reg) (s.demands reg) := by
  have originate := Obeys.mapM (k := Peering.Router.readOriginate) obeys_originate s.originate
  have peers := Obeys.mapM (fun x : String × Peer =>
    obeys_peer (Peering.Router.context s) reg x.1 x.2) s.peers
  rw [← List.map_eq_flatMap] at originate
  have rest := originate.bind fun nets => peers.map (g := fun ps =>
    (⟨s.asn, s.routerId, s.fromMaster, nets, ps⟩ : Peering.Router))
  unfold Peering.Router.resolve Router.demands
  by_cases h : s.asn = 0
  · rw [if_pos h, Obeys, List.cons_append, List.findSome?_cons, that, if_neg (not_not_intro h)]
    rfl
  · have met : ∀ d ∈ [that (s.asn ≠ 0) "asn" .reservedAsn], d.Met := by
      intro d hd
      rw [List.mem_singleton.mp hd]
      exact Demand.met_that h
    rw [if_neg h]
    exact rest.of_met met

/-! ### Settings that meet all demands -/

def Choice.Acceptable (α : Type) [Literal α] (c : Option (Choice String)) : Prop :=
  ∀ texts, c = some (.among texts) ∨ c = some (.outside texts) →
    ∀ text ∈ texts, IsLiteral α text

def Edit.Acceptable (α : Type) [Literal α] (e : Option Edit) : Prop :=
  ∀ edit ∈ e, ∀ text ∈ edit.add ++ edit.remove, IsLiteral α text

structure Match.Acceptable (m : Match) : Prop where
  net : Choice.Acceptable Pattern m.net
  community : Choice.Acceptable Community m.community
  extendedCommunity : Choice.Acceptable ExtendedCommunity m.extendedCommunity
  largeCommunity : Choice.Acceptable LargeCommunity m.largeCommunity

structure Update.Acceptable (u : Update) : Prop where
  prepend : ∀ n ∈ u.prepend, 1 ≤ n ∧ n ≤ 9
  community : Edit.Acceptable Community u.community
  extendedCommunity : Edit.Acceptable ExtendedCommunity u.extendedCommunity
  largeCommunity : Edit.Acceptable LargeCommunity u.largeCommunity

structure Rule.Acceptable (r : Rule) : Prop where
  condition : r.condition.Acceptable
  action : ∀ u, r.action = .update u → u.Acceptable

/-- The settings of a peer that can be resolved. -/
structure Peer.Acceptable (ctx : Context) (reg : Registry) (name : String) (s : Peer) : Prop where
  named : name ≠ "" ∧ ∀ c ∈ name.toList, c.isLower = true ∨ c.isDigit = true ∨ c = '_'
  neighbored : s.neighbor4 ≠ none ∨ s.neighbor6 ≠ none
  asn : s.role ∈ Role.reflectors ↔ s.asn = ctx.asn
  cluster : s.role = .reflectorClient ∨ s.role = .reflectorPeer → ctx.clusterId ≠ none
  acceptDefault : s.accept.default = some true → s.role ∈ Role.reflectors
  default : Redistribute.wanted s.redistribute.default false = true →
    s.role = .customer ∨ s.role ∈ Role.reflectors
  /-- What comes from the master tables has to be there. -/
  connected : Redistribute.wanted s.redistribute.connected false = true →
    ctx.fromMaster.connected = true
  kernel : Redistribute.wanted s.redistribute.kernel false = true → ctx.fromMaster.kernel = true
  static : Redistribute.wanted s.redistribute.static false = true → ctx.fromMaster.static = true
  tags : ∀ value ∈ s.redistribute.inOrder, ∀ text ∈ Redistribute.texts value,
    IsLiteral LargeCommunity text
  patterns : ∀ text ∈ s.allow.patterns, IsLiteral Pattern text
  objects : ∀ object ∈ s.allow.asSets, ∃ o, reg.object object = some o ∧
    (∀ text ∈ o.ipv4, IsLiteral Pattern text) ∧ ∀ text ∈ o.ipv6, IsLiteral Pattern text
  rules : ∀ r ∈ s.rules, r.Acceptable
  incoming : ∀ text ∈ s.incoming, IsLiteral LargeCommunity text
  outgoing : ∀ text ∈ s.outgoing, IsLiteral LargeCommunity text

structure Router.Acceptable (reg : Registry) (s : Router) : Prop where
  asn : s.asn ≠ 0
  originate : ∀ text ∈ s.originate, ∃ n, Network.parse? text.toList = some n ∧ n.NoHostBits
  peers : ∀ x ∈ s.peers, x.2.Acceptable ⟨s.asn, s.clusterId, s.fromMaster⟩ reg x.1

section Met

theorem met_that_iff {P : Prop} [Decidable P] {key : String} {cause : Cause} :
    (that P key cause).Met ↔ P := by
  by_cases h : P <;> simp [that, Demand.Met, h]

theorem met_literals_iff {α : Type} [Literal α] (key : String) (texts : List String) :
    (∀ d ∈ literals α key texts, d.Met) ↔ ∀ text ∈ texts, IsLiteral α text := by
  rw [literals, List.forall_mem_map]
  refine forall₂_congr fun text _ => ?_
  rw [Demand.Met, Demand.literal, IsLiteral]
  cases (Literal.read text : Except LiteralFault α) <;> simp

theorem met_choice_iff {α : Type} [Literal α] (key : String) (c : Option (Choice String)) :
    (∀ d ∈ Choice.demands α key c, d.Met) ↔ Choice.Acceptable α c := by
  cases c with
  | none => simp [Choice.demands, Choice.Acceptable]
  | some c => cases c <;> simp [Choice.demands, Choice.Acceptable, met_literals_iff]

theorem met_edit_iff {α : Type} [Literal α] (key : String) (e : Option Edit) :
    (∀ d ∈ Edit.demands α key e, d.Met) ↔ Edit.Acceptable α e := by
  cases e with
  | none => simp [Edit.demands, Edit.Acceptable]
  | some e => simp [Edit.demands, Edit.Acceptable, or_imp, forall_and, met_literals_iff]

theorem met_match_iff (key : String) (m : Match) :
    (∀ d ∈ m.demands key, d.Met) ↔ m.Acceptable := by
  simp only [Match.demands, List.forall_mem_append, met_choice_iff]
  exact ⟨fun ⟨⟨⟨h1, h2⟩, h3⟩, h4⟩ => ⟨h1, h2, h3, h4⟩,
    fun ⟨h1, h2, h3, h4⟩ => ⟨⟨⟨h1, h2⟩, h3⟩, h4⟩⟩

theorem met_update_iff (key : String) (u : Update) :
    (∀ d ∈ (Action.update u).demands key, d.Met) ↔ u.Acceptable := by
  have prepend : (∀ d ∈ (u.prepend.map fun n =>
      that (1 ≤ n ∧ n ≤ 9) s!"{key}.prepend" (.prependCount n)).toList, d.Met) ↔
        ∀ n ∈ u.prepend, 1 ≤ n ∧ n ≤ 9 := by
    cases u.prepend with
    | none => simp
    | some n => simp [met_that_iff]
  simp only [Action.demands, List.forall_mem_append, met_edit_iff, prepend]
  exact ⟨fun ⟨⟨⟨h1, h2⟩, h3⟩, h4⟩ => ⟨h1, h2, h3, h4⟩,
    fun ⟨h1, h2, h3, h4⟩ => ⟨⟨⟨h1, h2⟩, h3⟩, h4⟩⟩

theorem met_rule_iff (key : String) (r : Rule) : (∀ d ∈ r.demands key, d.Met) ↔ r.Acceptable := by
  have action (key : String) (a : Action) :
      (∀ d ∈ a.demands key, d.Met) ↔ ∀ u, a = .update u → u.Acceptable := by
    cases a with
    | reject => simp [Action.demands]
    | update u => simp [met_update_iff]
  rw [Rule.demands, List.forall_mem_append, met_match_iff, action]
  exact ⟨fun ⟨h1, h2⟩ => ⟨h1, h2⟩, fun ⟨h1, h2⟩ => ⟨h1, h2⟩⟩

/-- The keys say where in the list a rule stands; what is demanded of it does not depend on that. -/
theorem met_rules_iff (key : String) (rules : List Rule) :
    (∀ d ∈ rules.zipIdx.flatMap fun (r, i) => r.demands s!"{key}.actions[{i}]", d.Met) ↔
      ∀ r ∈ rules, r.Acceptable := by
  rw [List.forall_mem_flatMap]
  simp only [met_rule_iff]
  have all : (∀ x ∈ rules.zipIdx, x.1.Acceptable) ↔
      ∀ r ∈ rules.zipIdx.map Prod.fst, r.Acceptable := by
    rw [List.forall_mem_map]
  rw [all, List.zipIdx_map_fst]

theorem met_source_iff (key : String) (conditions : String → List Demand)
    (value : Option Redistribute) :
    (∀ d ∈ Redistribute.demands key conditions value, d.Met) ↔
      (Redistribute.wanted value false = true → ∀ d ∈ conditions key, d.Met) ∧
        ∀ text ∈ Redistribute.texts value, IsLiteral LargeCommunity text := by
  rw [Redistribute.demands, List.forall_mem_append, met_literals_iff]
  cases Redistribute.wanted value false <;> simp

theorem met_sources_iff (ctx : Context) (role : Role) (key : String) (set : RedistributeSet) :
    (∀ d ∈ set.demands ctx role key, d.Met) ↔
      (Redistribute.wanted set.default false = true → role = .customer ∨ role ∈ Role.reflectors) ∧
      (Redistribute.wanted set.connected false = true → ctx.fromMaster.connected = true) ∧
      (Redistribute.wanted set.kernel false = true → ctx.fromMaster.kernel = true) ∧
      (Redistribute.wanted set.static false = true → ctx.fromMaster.static = true) ∧
      ∀ value ∈ set.inOrder, ∀ text ∈ Redistribute.texts value, IsLiteral LargeCommunity text := by
  simp only [RedistributeSet.demands, RedistributeSet.inOrder, List.forall_mem_flatMap,
    List.forall_mem_cons, met_source_iff, met_that_iff, List.not_mem_nil, IsEmpty.forall_iff,
    implies_true, and_true, true_and]
  tauto

theorem met_object_iff (reg : Registry) (key name : String) :
    (∀ d ∈ objectDemands reg key name, d.Met) ↔
      ∃ o, reg.object name = some o ∧
        (∀ text ∈ o.ipv4, IsLiteral Pattern text) ∧ ∀ text ∈ o.ipv6, IsLiteral Pattern text := by
  unfold objectDemands
  cases reg.object name with
  | none => simp [Demand.Met]
  | some o =>
    simp only [met_literals_iff, List.forall_mem_append, Option.some.injEq, exists_eq_left']

theorem met_allow_iff (reg : Registry) (key : String) (a : Allow) :
    (∀ d ∈ a.demands reg key, d.Met) ↔ (∀ text ∈ a.patterns, IsLiteral Pattern text) ∧
      ∀ object ∈ a.asSets, ∃ o, reg.object object = some o ∧
        (∀ text ∈ o.ipv4, IsLiteral Pattern text) ∧ ∀ text ∈ o.ipv6, IsLiteral Pattern text := by
  simp only [Allow.demands, List.forall_mem_append, List.forall_mem_flatMap, met_literals_iff,
    met_object_iff]

theorem met_session_iff (ctx : Context) (name key : String) (s : Peer) :
    (∀ d ∈ s.sessionDemands ctx name key, d.Met) ↔
      (name ≠ "" ∧ ∀ c ∈ name.toList, c.isLower = true ∨ c.isDigit = true ∨ c = '_') ∧
      (s.neighbor4 ≠ none ∨ s.neighbor6 ≠ none) ∧
      (s.role ∈ Role.reflectors ↔ s.asn = ctx.asn) ∧
      (s.role = .reflectorClient ∨ s.role = .reflectorPeer → ctx.clusterId ≠ none) ∧
      (s.accept.default = some true → s.role ∈ Role.reflectors) := by
  simp only [Peer.sessionDemands, List.forall_mem_cons, met_that_iff, List.not_mem_nil,
    IsEmpty.forall_iff, implies_true, and_true]

theorem met_peer_iff (ctx : Context) (reg : Registry) (name : String) (s : Peer) :
    (∀ d ∈ s.demands ctx reg name, d.Met) ↔ s.Acceptable ctx reg name := by
  simp only [Peer.demands, List.forall_mem_append, met_session_iff, met_sources_iff,
    met_allow_iff, met_literals_iff, met_rules_iff]
  constructor
  · rintro ⟨⟨⟨⟨⟨⟨named, neighbored, asn, cluster, accept⟩, default, connected, kernel, static,
      tags⟩, patterns, objects⟩, rules⟩, incoming⟩, outgoing⟩
    exact {
      named, neighbored, asn, cluster, acceptDefault := accept, default, connected, kernel, static
      tags, patterns, objects, rules, incoming, outgoing }
  · intro h
    exact ⟨⟨⟨⟨⟨⟨h.named, h.neighbored, h.asn, h.cluster, h.acceptDefault⟩, h.default, h.connected,
      h.kernel, h.static, h.tags⟩, h.patterns, h.objects⟩, h.rules⟩, h.incoming⟩, h.outgoing⟩

theorem met_originate_iff (text : String) :
    (originateDemand text).Met ↔ ∃ n, Network.parse? text.toList = some n ∧ n.NoHostBits := by
  rw [Demand.Met, originateDemand]
  cases Network.parse? text.toList with
  | none => simp
  | some n => simp

theorem met_router_iff (reg : Registry) (s : Router) :
    (∀ d ∈ s.demands reg, d.Met) ↔ s.Acceptable reg := by
  simp only [Router.demands, List.cons_append, List.forall_mem_cons, List.forall_mem_append,
    List.forall_mem_map, List.forall_mem_flatMap, met_that_iff, met_originate_iff, met_peer_iff]
  exact ⟨fun ⟨h1, h2, h3⟩ => ⟨h1, h2, h3⟩, fun ⟨h1, h2, h3⟩ => ⟨h1, h2, h3⟩⟩

end Met

end Settings

/-- Validation is exact, and it stops at the first fault. The settings of a peer are resolved exactly
if they are acceptable, those of a router exactly if they and the settings of all peers are; and an
error is reported exactly if it is that of the first demand, in the order of the checks, that is not
met. -/
theorem first_fault_reported (reg : Registry) :
    (∀ ctx name (s : Settings.Peer),
      ((∃ p, Policy.resolve ctx reg name s = .ok p) ↔ s.Acceptable ctx reg name) ∧
      ∀ e, Policy.resolve ctx reg name s = .error e ↔ IsFirstFault (s.demands ctx reg name) e) ∧
    ∀ s : Settings.Router,
      ((∃ r, Router.resolve s reg = .ok r) ↔ s.Acceptable reg) ∧
      ∀ e, Router.resolve s reg = .error e ↔ IsFirstFault (s.demands reg) e := by
  constructor
  · intro ctx name s
    have obeys := Settings.obeys_peer ctx reg name s
    exact ⟨obeys.iff_ok.trans (Settings.met_peer_iff ctx reg name s), obeys.iff_error⟩
  · intro s
    have obeys := Settings.obeys_router reg s
    exact ⟨obeys.iff_ok.trans (Settings.met_router_iff reg s), obeys.iff_error⟩

-- No neighbor, our own ASN, and a community that is no large one.
example (reg : Registry) :
    Policy.resolve ⟨65000, none, .off⟩ reg "p1"
      { Settings.Peer.plain .customer 65000 with neighbor4 := none, incoming := ["1:2"] } =
      .error (.configuration "peers.p1.neighbor4" .noNeighbor) := by
  with_unfolding_all rfl

end Peering
