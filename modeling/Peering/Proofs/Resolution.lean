import Mathlib.Data.List.Nodup
import Peering.Compile

/-! What a policy and a router owe to the settings they were resolved from. -/
namespace Peering

theorem ok_of_bind {ε α β : Type} {e : Except ε α} {k : α → Except ε β} {b : β}
    (h : e >>= k = .ok b) : ∃ a, e = .ok a ∧ k a = .ok b := by
  cases e with
  | error _ => exact nomatch h
  | ok a => exact ⟨a, rfl, h⟩

theorem exists_ok {ε α : Type} {e : Except ε α} (h : e.isOk = true) : ∃ a, e = .ok a := by
  cases e with
  | error _ => exact nomatch h
  | ok a => exact ⟨a, rfl⟩

theorem mapError_eq_ok {ε ε' α : Type} {e : Except ε α} {k : ε → ε'} {a : α} :
    e.mapError k = .ok a ↔ e = .ok a := by
  cases e <;> simp [Except.mapError]

theorem mapM_eq_ok {ε α β : Type} {k : α → Except ε β} {as : List α} {bs : List β} :
    as.mapM k = .ok bs ↔ as.map k = bs.map .ok := by
  induction as generalizing bs with
  | nil => cases bs <;> simp [pure, Except.pure]
  | cons a as ih =>
    rw [List.mapM_cons]
    constructor
    · intro h
      obtain ⟨b, hb, h⟩ := ok_of_bind h
      obtain ⟨cs, hcs, h⟩ := ok_of_bind h
      obtain rfl := Except.ok.inj h
      rw [List.map_cons, List.map_cons, hb, ih.mp hcs]
    · intro h
      cases bs with
      | nil => exact nomatch h
      | cons b cs =>
        obtain ⟨hb, hcs⟩ := List.cons.inj h
        rw [hb, ih.mpr hcs]
        rfl

theorem forall₂_of_mapM {ε α β : Type} {k : α → Except ε β} {as : List α} {bs : List β}
    (h : as.mapM k = .ok bs) : List.Forall₂ (fun a b => k a = .ok b) as bs := by
  have results := mapM_eq_ok.mp h
  rwa [← List.forall₂_eq_eq_eq, List.forall₂_map_left_iff, List.forall₂_map_right_iff] at results

theorem mapM_ok {ε α β : Type} {k : α → Except ε β} {g : α → β} (h : ∀ a, k a = .ok (g a))
    (as : List α) : as.mapM k = .ok (as.map g) := by
  rw [mapM_eq_ok, List.map_map]
  exact List.map_congr_left fun a _ => h a

theorem exists_of_mem_mapM {ε α β : Type} {k : α → Except ε β} {as : List α} {bs : List β}
    (h : as.mapM k = .ok bs) {b : β} (hb : b ∈ bs) : ∃ a ∈ as, k a = .ok b := by
  have hmem : (Except.ok b : Except ε β) ∈ bs.map .ok := List.mem_map_of_mem hb
  rw [← mapM_eq_ok.mp h] at hmem
  exact List.mem_map.mp hmem

/-- What holds at the start of a fold and is kept by its steps holds at its end. -/
theorem foldlM_induct {ε α β : Type} {P : List α → β → Prop} {step : β → α → Except ε β}
    {as : List α} {b c : β} (h : as.foldlM step b = .ok c) (start : P [] b)
    (keep : ∀ done a b c, P done b → step b a = .ok c → P (done ++ [a]) c) : P as c := by
  suffices ∀ as done b, P done b → as.foldlM step b = .ok c → P (done ++ as) c from
    this as [] b start h
  intro as
  induction as with
  | nil =>
    intro done b hb h
    obtain rfl := Except.ok.inj h
    rwa [List.append_nil]
  | cons a as ih =>
    intro done b hb h
    rw [List.foldlM_cons] at h
    obtain ⟨b', hstep, h⟩ := ok_of_bind h
    have := ih _ b' (keep done a b b' hb hstep) h
    rwa [List.append_assoc] at this

namespace Role

def reflectors : List Role := [.reflectorClient, .reflectorServer, .reflectorPeer]

def externals : List Role := [.customer, .peer, .transit, .routeServer, .routeCollector]

theorem isReflector_iff {r : Role} : r.isReflector = true ↔ r ∈ reflectors := by
  cases r <;> decide

theorem isExternal_iff {r : Role} : r.isExternal = true ↔ r ∈ externals := by
  cases r <;> decide

theorem needsClusterId_iff {r : Role} :
    r.needsClusterId = true ↔ r = .reflectorClient ∨ r = .reflectorPeer := by
  cases r <;> decide

end Role

namespace Settings

/-- What is set for the sources, in the order in which export filters try these. -/
def RedistributeSet.inOrder (set : RedistributeSet) : List (Option Redistribute) :=
  [set.default, set.connected, set.kernel, set.static, set.originated, set.bgp, set.bgpOwn,
    set.bgpCustomer, set.bgpPeering, set.bgpTransit]

namespace Redistribute

/-- Whether routes are sent: as it is set, or as it is given where nothing is set. -/
def wanted : Option Redistribute → Bool → Bool
  | none, given => given
  | some (.flag on), _ => on
  | some (.tagged _), _ => true

def texts : Option Redistribute → List String
  | some (.tagged texts) => texts
  | _ => []

theorem wanted_some (value : Redistribute) (given : Bool) :
    wanted (some value) given = value.on := by
  cases value <;> rfl

theorem wanted_wanted (value : Option Redistribute) (given : Bool) :
    wanted value (wanted value given) = wanted value given := by
  cases value with
  | none => rfl
  | some value => rw [wanted_some, wanted_some]

end Redistribute
end Settings

namespace Policy
open Settings (RedistributeSet)

/-- Everything that a policy is, by the settings and the registry it was resolved from. -/
structure Resolved (ctx : Context) (reg : Registry) (name : String) (s : Settings.Peer)
    (p : Policy) : Prop where
  session : checkSession ctx name s!"peers.{name}" s = .ok ()
  named : p.name = name
  role : p.role = s.role
  asn : p.asn = s.asn
  neighbor4 : p.neighbor4 = s.neighbor4
  neighbor6 : p.neighbor6 = s.neighbor6
  redistribution : redistributionOf ctx s!"peers.{name}" s = .ok p.redistribution
  acceptDefault : p.acceptDefault = s.accept.default.getD false
  allowed : Allowed.resolve reg s!"peers.{name}.filter" s.allow =
    .ok ⟨p.asnGroups, p.groups4, p.groups6⟩
  incoming : readLiterals s!"peers.{name}.incoming-large-communities" s.incoming = .ok p.incoming
  outgoing : readLiterals s!"peers.{name}.outgoing-large-communities" s.outgoing = .ok p.outgoing
  quarantine : p.quarantine = s.quarantine
  rules : ∃ rules, rulesOf s!"peers.{name}" s.rules = .ok rules ∧
    p.inbound = rules.filter (·.direction = .inbound) ∧
    p.outbound = rules.filter (·.direction = .outbound)

theorem resolved_of_resolve {ctx : Context} {reg : Registry} {name : String} {s : Settings.Peer}
    {p : Policy} (h : resolve ctx reg name s = .ok p) : Resolved ctx reg name s p := by
  unfold resolve at h
  obtain ⟨_, session, h⟩ := ok_of_bind h
  obtain ⟨redistribution, hredistribution, h⟩ := ok_of_bind h
  obtain ⟨allowed, hallowed, h⟩ := ok_of_bind h
  obtain ⟨rules, hrules, h⟩ := ok_of_bind h
  obtain ⟨incoming, hincoming, h⟩ := ok_of_bind h
  obtain ⟨outgoing, houtgoing, h⟩ := ok_of_bind h
  obtain rfl := Except.ok.inj h
  exact ⟨session, rfl, rfl, rfl, rfl, rfl, hredistribution, rfl, hallowed, hincoming, houtgoing,
    rfl, rules, hrules, rfl, rfl⟩

theorem eq_true_of_require {holds : Bool} {key : String} {cause : Cause}
    (h : require holds key cause = .ok ()) : holds = true := by
  unfold require at h
  split at h
  · assumption
  · exact nomatch h

theorem Resolved.validName {ctx : Context} {reg : Registry} {name : String} {s : Settings.Peer}
    {p : Policy} (h : p.Resolved ctx reg name s) :
    Policy.validName p.name = true := by
  obtain ⟨_, hname, _⟩ := ok_of_bind h.session
  rw [h.named]
  exact eq_true_of_require hname

theorem Resolved.exists_hasFamily {ctx : Context} {reg : Registry} {name : String}
    {s : Settings.Peer} {p : Policy} (h : p.Resolved ctx reg name s) :
    ∃ f, p.hasFamily f = true := by
  obtain ⟨_, _, hrest⟩ := ok_of_bind h.session
  obtain ⟨_, hneighbor, _⟩ := ok_of_bind hrest
  have some := eq_true_of_require hneighbor
  rw [← h.neighbor4, ← h.neighbor6, Bool.or_eq_true] at some
  obtain h4 | h6 := some
  · exact ⟨.v4, by rw [hasFamily, neighbor, Option.isSome_map, h4]⟩
  · exact ⟨.v6, by rw [hasFamily, neighbor, Option.isSome_map, h6]⟩

theorem Resolved.acceptDefault_eq_false {ctx : Context} {reg : Registry} {name : String}
    {s : Settings.Peer} {p : Policy} (h : p.Resolved ctx reg name s)
    (external : p.role.isExternal = true) : p.acceptDefault = false := by
  obtain ⟨_, _, hrest⟩ := ok_of_bind h.session
  obtain ⟨_, _, hrest⟩ := ok_of_bind hrest
  obtain ⟨_, _, hrest⟩ := ok_of_bind hrest
  obtain ⟨_, _, haccept⟩ := ok_of_bind hrest
  have allowed := eq_true_of_require haccept
  rw [← h.acceptDefault, ← h.role, Role.mayAcceptDefault] at allowed
  rw [Role.isExternal, Bool.not_eq_true'] at external
  rw [external, Bool.or_false, Bool.not_eq_true'] at allowed
  exact allowed

def isWanted (role : Role) (set : RedistributeSet) (s : Source) : Bool :=
  Settings.Redistribute.wanted (setting set s) ((Redistribution.ofRole role).enabled s)

/-- A source that nothing is set for is left alone; another one is overridden as it is set. -/
theorem redistributeFrom_cases {ctx : Context} {role : Role} {key : String}
    {set : RedistributeSet} {r r' : Redistribution} {s : Source}
    (h : redistributeFrom ctx role key set r s = .ok r') :
    (setting set s = none ∧ r' = r) ∨
      ∃ value tags, setting set s = some value ∧
        readLiterals s!"{key}.redistribute.{s.name}.large_communities" value.communities =
          .ok tags ∧ r' = r.override s value.on tags := by
  unfold redistributeFrom at h
  cases hs : setting set s with
  | none =>
    rw [hs] at h
    exact .inl ⟨rfl, (Except.ok.inj h).symm⟩
  | some value =>
    rw [hs] at h
    right
    dsimp only at h
    cases hon : value.on with
    | false =>
      rw [hon] at h
      obtain ⟨tags, htags, h⟩ := ok_of_bind h
      exact ⟨value, tags, rfl, htags, hon ▸ (Except.ok.inj h).symm⟩
    | true =>
      rw [hon, if_pos rfl] at h
      cases hf : importFlag ctx.fromMaster s with
      | none =>
        rw [hf] at h
        obtain ⟨_, _, h⟩ := ok_of_bind h
        obtain ⟨tags, htags, h⟩ := ok_of_bind h
        exact ⟨value, tags, rfl, htags, hon ▸ (Except.ok.inj h).symm⟩
      | some flag =>
        rw [hf] at h
        obtain ⟨_, _, h⟩ := ok_of_bind h
        obtain ⟨_, _, h⟩ := ok_of_bind h
        obtain ⟨tags, htags, h⟩ := ok_of_bind h
        exact ⟨value, tags, rfl, htags, hon ▸ (Except.ok.inj h).symm⟩

theorem enabled_redistributeFrom {ctx : Context} {role : Role} {key : String}
    {set : RedistributeSet} {r r' : Redistribution} {s : Source}
    (h : redistributeFrom ctx role key set r s = .ok r') (t : Source) :
    r'.enabled t =
      if t = s then Settings.Redistribute.wanted (setting set s) (r.enabled s)
      else r.enabled t := by
  obtain ⟨hs, rfl⟩ | ⟨value, tags, hs, _, rfl⟩ := redistributeFrom_cases h
  · rw [hs, Settings.Redistribute.wanted]
    split
    · rename_i heq
      rw [heq]
    · rfl
  · rw [hs, Settings.Redistribute.wanted_some]
    exact Redistribution.enabled_override r s t value.on tags

theorem enabled_redistributionOf {ctx : Context} {key : String} {s : Settings.Peer}
    {r : Redistribution} (h : redistributionOf ctx key s = .ok r) (t : Source) :
    r.enabled t = isWanted s.role s.redistribute t := by
  -- The sources gone through are as wanted; the others are still as the role gives them.
  have all : ∀ t, r.enabled t =
      if t ∈ Source.all then isWanted s.role s.redistribute t
      else (Redistribution.ofRole s.role).enabled t := by
    refine foldlM_induct (P := fun done (r : Redistribution) => ∀ t, r.enabled t =
      if t ∈ done then isWanted s.role s.redistribute t
      else (Redistribution.ofRole s.role).enabled t) h
      (fun t => (if_neg List.not_mem_nil).symm) ?_
    intro done u b c hb hstep t
    rw [enabled_redistributeFrom hstep, hb, hb]
    by_cases htu : t = u
    · subst htu
      rw [if_pos rfl, if_pos (List.mem_append_right done (List.mem_singleton_self t)), isWanted]
      split
      · exact Settings.Redistribute.wanted_wanted _ _
      · rfl
    · simp [htu]
  rw [all, if_pos (Source.mem_all t)]

end Policy

namespace Router

theorem resolve_eq_ok_iff {s : Settings.Router} {reg : Registry} {rt : Router} :
    resolve s reg = .ok rt ↔ s.asn ≠ 0 ∧ s.originate.mapM readOriginate = .ok rt.originate ∧
      (s.peers.mapM fun x => Policy.resolve (context s) reg x.1 x.2) = .ok rt.peers ∧
      rt.asn = s.asn ∧ rt.routerId = s.routerId ∧ rt.fromMaster = s.fromMaster := by
  unfold resolve
  constructor
  · intro h
    split at h
    · exact nomatch h
    · rename_i own
      obtain ⟨originate, horiginate, h⟩ := ok_of_bind h
      obtain ⟨peers, hpeers, h⟩ := ok_of_bind h
      obtain rfl := Except.ok.inj h
      exact ⟨own, horiginate, hpeers, rfl, rfl, rfl⟩
  · rintro ⟨own, horiginate, hpeers, hasn, hid, hmaster⟩
    obtain ⟨asn, routerId, fromMaster, originate, peers⟩ := rt
    obtain rfl : asn = s.asn := hasn
    obtain rfl : routerId = s.routerId := hid
    obtain rfl : fromMaster = s.fromMaster := hmaster
    rw [if_neg own, horiginate]
    show (s.peers.mapM fun x => Policy.resolve (context s) reg x.1 x.2) >>= _ = _
    rw [hpeers]
    rfl

theorem resolve_peers {s : Settings.Router} {reg : Registry} {rt : Router}
    (h : resolve s reg = .ok rt) :
    rt.asn = s.asn ∧
      s.peers.map (fun x => Policy.resolve (context s) reg x.1 x.2) = rt.peers.map .ok := by
  obtain ⟨_, _, hpeers, hasn, _⟩ := resolve_eq_ok_iff.mp h
  exact ⟨hasn, mapM_eq_ok.mp hpeers⟩

theorem resolved_peer {s : Settings.Router} {reg : Registry} {rt : Router}
    (h : resolve s reg = .ok rt) {p : Policy} (hp : p ∈ rt.peers) :
    ∃ stanza, (p.name, stanza) ∈ s.peers ∧ p.Resolved (context s) reg p.name stanza := by
  have hmem : Except.ok p ∈ s.peers.map fun x => Policy.resolve (context s) reg x.1 x.2 := by
    rw [(resolve_peers h).2]
    exact List.mem_map_of_mem hp
  obtain ⟨x, hx, hresolve⟩ := List.mem_map.mp hmem
  have resolved := Policy.resolved_of_resolve hresolve
  rw [resolved.named]
  exact ⟨x.2, hx, resolved⟩

theorem resolved_of_mem {s : Settings.Router} {reg : Registry} {rt : Router}
    (hs : (s.peers.map Prod.fst).Nodup) (h : resolve s reg = .ok rt) {p : Policy}
    (hp : p ∈ rt.peers) {stanza : Settings.Peer} (hstanza : (p.name, stanza) ∈ s.peers) :
    p.Resolved (context s) reg p.name stanza := by
  obtain ⟨other, hother, resolved⟩ := resolved_peer h hp
  have heq : (p.name, other) = (p.name, stanza) :=
    List.inj_on_of_nodup_map hs hother hstanza rfl
  exact (Prod.mk.inj heq).2 ▸ resolved

theorem names_resolve {s : Settings.Router} {reg : Registry} {rt : Router}
    (h : resolve s reg = .ok rt) : rt.peers.map (·.name) = s.peers.map Prod.fst := by
  have hpeers := (resolve_peers h).2
  generalize rt.peers = ps, s.peers = xs at hpeers ⊢
  induction xs generalizing ps with
  | nil =>
    obtain rfl := List.map_eq_nil_iff.mp hpeers.symm
    rfl
  | cons x xs ih =>
    cases ps with
    | nil => exact nomatch hpeers
    | cons p ps =>
      obtain ⟨hp, hps⟩ := List.cons.inj hpeers
      rw [List.map_cons, List.map_cons, ih ps hps, (Policy.resolved_of_resolve hp).named]

theorem nodup_names_resolve {s : Settings.Router} {reg : Registry} {rt : Router}
    (hs : (s.peers.map Prod.fst).Nodup) (h : resolve s reg = .ok rt) :
    (rt.peers.map (·.name)).Nodup := by
  rw [names_resolve h]
  exact hs

end Router

/-- The settings of a peer that leave everything to its role. -/
def Settings.Peer.plain (role : Role) (asn : UInt32) : Settings.Peer where
  role
  asn
  description := none
  neighbor4 := some 3221225985
  source4 := none
  neighbor6 := none
  source6 := none
  cost := 0
  limit4 := none
  limit6 := none
  passive := false
  redistribute := .unset
  accept := ⟨none⟩
  allow := .nothing
  incoming := []
  outgoing := []
  quarantine := false
  rules := []

def Settings.Router.plain (asn : UInt32) (peers : List (String × Settings.Peer)) :
    Settings.Router :=
  ⟨asn, none, none, .off, [], peers⟩

def Policy.plain (name : String) (role : Role) (asn : UInt32) : Policy where
  name
  role
  asn
  description := s!"AS{asn.toNat} {name}"
  neighbor4 := some 3221225985
  source4 := none
  neighbor6 := none
  source6 := none
  passive := false
  localPref := role.baseLocalPref
  redistribution := .ofRole role
  acceptDefault := false
  limit4 := none
  limit6 := none
  clusterId := none
  asnGroups := []
  groups4 := []
  groups6 := []
  incoming := []
  outgoing := []
  quarantine := false
  inbound := []
  outbound := []

def Router.plain (asn : UInt32) (peers : List Policy) : Router := ⟨asn, none, .off, [], peers⟩

end Peering
