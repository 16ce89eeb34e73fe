import Peering.Proofs.CanonicalLists
import Peering.Proofs.RegistryAnswers

/-!
The fields of a policy, told apart from the way they are computed: each follows from the settings of
the peer, from its role and from what registries say. Nothing is left open by that, so a policy that
is resolved is the only one with such fields.
-/
namespace Peering
open Relator (RightUnique)

section Reading
variable {α : Type} [Literal α]

def ReadAs : List String → List α → Prop := List.Forall₂ fun text a => Literal.read text = .ok a

structure Edit.Follows (e : Option Settings.Edit) (d : Edit α) : Prop where
  add : ReadAs (e.elim [] (·.add)) d.add
  remove : ReadAs (e.elim [] (·.remove)) d.remove

end Reading

/-- The values are related to those that are chosen, and negated where these are excluded. -/
inductive Condition.Follows {α β : Type} (R : List β → List α → Prop) :
    Settings.Choice β → Condition α → Prop
  | among {bs : List β} {as : List α} (h : R bs as) : Follows R (.among bs) ⟨as, false⟩
  | outside {bs : List β} {as : List α} (h : R bs as) : Follows R (.outside bs) ⟨as, true⟩

structure RuleMatch.Follows (m : Settings.Match) (n : RuleMatch) : Prop where
  originAsn : Option.Rel (Condition.Follows Eq) m.originAsn n.originAsn
  net : Option.Rel (Condition.Follows ReadAs) m.net n.net
  community : Option.Rel (Condition.Follows ReadAs) m.community n.community
  extendedCommunity :
    Option.Rel (Condition.Follows ReadAs) m.extendedCommunity n.extendedCommunity
  largeCommunity : Option.Rel (Condition.Follows ReadAs) m.largeCommunity n.largeCommunity

structure RuleUpdate.Follows (u : Settings.Update) (v : RuleUpdate) : Prop where
  community : v.community.Follows u.community
  extendedCommunity : v.extendedCommunity.Follows u.extendedCommunity
  largeCommunity : v.largeCommunity.Follows u.largeCommunity
  prepend : v.prepend = u.prepend.map (·.toNat)

inductive RuleAction.Follows : Settings.Action → RuleAction → Prop
  | reject : Follows .reject .reject
  | update {u : Settings.Update} {v : RuleUpdate} (h : v.Follows u) :
    Follows (.update u) (.update v)

structure Rule.Follows (s : Settings.Rule) (r : Rule) : Prop where
  direction : r.direction = s.direction
  condition : r.condition.Follows s.condition
  action : r.action.Follows s.action

/-- Whether routes of the sources are sent where nothing is set, in the same order. -/
def Role.sends (r : Role) : List Bool :=
  [false, false, false, false, false, r ∈ reflectors, r ∈ externals, r ∈ externals, r = .customer,
    r = .customer]

/-- The local preferences that costs are taken off, for the types that have one. -/
def Role.preferences : List (Role × Int) :=
  [(.customer, 750), (.peer, 470), (.routeServer, 450), (.transit, 150), (.routeCollector, 0)]

/-- The sources as they are set and as the role gives them. Communities are those that are set. -/
structure Redistribution.Follows (role : Role) (set : Settings.RedistributeSet)
    (r : Redistribution) : Prop where
  enabled : Source.all.map r.enabled =
    List.zipWith Settings.Redistribute.wanted set.inOrder role.sends
  tags : List.Forall₂ ReadAs (set.inOrder.map Settings.Redistribute.texts) (Source.all.map r.tags)
  sent : ∀ s, r.tags s ≠ [] → r.enabled s = true

/-- A group of just what an origin gives, in order. -/
structure Group.Follows {α κ : Type} [LinearOrder κ] (rank : α → κ)
    (given : Option String → List α) (origin : Option String) (g : Group α) : Prop where
  object : g.object = origin
  ascending : Ascending rank g.items
  items : ∀ a, a ∈ g.items ↔ a ∈ given origin

/-- All fields of a policy. A limit that is not set is the number that is registered, for customers
and peers with a public ASN. There is a group for each origin that gives something. -/
structure Policy.Follows (ctx : Context) (reg : Registry) (name : String) (s : Settings.Peer)
    (p : Policy) : Prop where
  named : p.name = name
  role : p.role = s.role
  asn : p.asn = s.asn
  description : p.description = s.description.getD s!"AS{s.asn.toNat} {name}"
  neighbor4 : p.neighbor4 = s.neighbor4
  source4 : p.source4 = s.source4
  neighbor6 : p.neighbor6 = s.neighbor6
  source6 : p.source6 = s.source6
  passive : p.passive = s.passive
  quarantine : p.quarantine = s.quarantine
  acceptDefault : p.acceptDefault = s.accept.default.getD false
  localPref : p.localPref.map (fun n => (n.toNat : Int)) =
    (Role.preferences.lookup s.role).map fun base => max 0 (base - (s.cost.toNat : Int))
  redistribution : p.redistribution.Follows s.role s.redistribute
  limit : ∀ f, p.limit f = (s.limit f).or
    (if (s.role = .customer ∨ s.role = .peer) ∧
        ¬ (64512 ≤ s.asn ∧ s.asn ≤ 65534 ∨ 4200000000 ≤ s.asn ∧ s.asn ≤ 4294967294) then
      (reg.counts.lookup s.asn).bind (·.count f)
    else none)
  clusterId : p.clusterId =
    if s.role = .reflectorClient ∨ s.role = .reflectorPeer then ctx.clusterId else none
  clustered : p.clusterId.isSome = true ↔ s.role = .reflectorClient ∨ s.role = .reflectorPeer
  objects : ∀ object ∈ s.allow.asSets, (reg.object object).isSome = true
  patterns : ∀ origin ∈ s.allow.origins, ∀ text ∈ s.allow.textsFrom reg origin,
    ∃ q, Pattern.parse text = .ok q
  asnGroups : List.Forall₂ (Group.Follows UInt32.toNat (s.allow.asnsFrom reg))
    (s.allow.origins.filter fun origin => s.allow.asnsFrom reg origin ≠ []) p.asnGroups
  groups : ∀ f, List.Forall₂ (Group.Follows Pattern.key (s.allow.netsFrom reg f))
    (s.allow.origins.filter fun origin => s.allow.netsFrom reg f origin ≠ []) (p.groups f)
  incoming : ReadAs s.incoming p.incoming
  outgoing : ReadAs s.outgoing p.outgoing
  rules : ∀ d, List.Forall₂ Rule.Follows (s.rules.filter (·.direction = d)) (p.rules d)
  everyRule : p.inbound.length + p.outbound.length = s.rules.length

/-! Each relation leaves one result at most. -/

section Unique
variable {α : Type} [Literal α]

theorem rightUnique_readAs : RightUnique (ReadAs : List String → List α → Prop) :=
  .forall₂ fun _ _ _ ha hb => Except.ok.inj (ha.symm.trans hb)

theorem rightUnique_rel {β γ : Type} {R : β → γ → Prop} (h : RightUnique R) :
    RightUnique (Option.Rel R) := by
  intro a b c hb hc
  cases hb with
  | none =>
    cases hc
    rfl
  | some hb =>
    cases hc with
    | some hc => rw [h hb hc]

theorem Condition.rightUnique_follows {β γ : Type} {R : List β → List γ → Prop}
    (h : RightUnique R) : RightUnique (Condition.Follows R) := by
  intro c d d' hd hd'
  cases hd with
  | among ha =>
    cases hd' with
    | among hb => rw [h ha hb]
  | outside ha =>
    cases hd' with
    | outside hb => rw [h ha hb]

theorem Edit.rightUnique_follows :
    RightUnique (Edit.Follows : Option Settings.Edit → Edit α → Prop) := by
  rintro e ⟨as, cs⟩ ⟨bs, ds⟩ ha hb
  obtain rfl := rightUnique_readAs ha.add hb.add
  obtain rfl := rightUnique_readAs ha.remove hb.remove
  rfl

end Unique

theorem RuleMatch.rightUnique_follows : RightUnique RuleMatch.Follows := by
  rintro m ⟨o, n, c, e, l⟩ ⟨o', n', c', e', l'⟩ h h'
  have listed : RightUnique (Condition.Follows (Eq : List UInt32 → List UInt32 → Prop)) :=
    Condition.rightUnique_follows fun _ _ _ ha hb => ha.symm.trans hb
  have read {α : Type} [Literal α] :
      RightUnique (Condition.Follows (ReadAs : List String → List α → Prop)) :=
    Condition.rightUnique_follows rightUnique_readAs
  obtain rfl := rightUnique_rel listed h.originAsn h'.originAsn
  obtain rfl := rightUnique_rel read h.net h'.net
  obtain rfl := rightUnique_rel read h.community h'.community
  obtain rfl := rightUnique_rel read h.extendedCommunity h'.extendedCommunity
  obtain rfl := rightUnique_rel read h.largeCommunity h'.largeCommunity
  rfl

theorem RuleUpdate.rightUnique_follows : RightUnique RuleUpdate.Follows := by
  rintro u ⟨c, e, l, n⟩ ⟨c', e', l', n'⟩ h h'
  obtain rfl := Edit.rightUnique_follows h.community h'.community
  obtain rfl := Edit.rightUnique_follows h.extendedCommunity h'.extendedCommunity
  obtain rfl := Edit.rightUnique_follows h.largeCommunity h'.largeCommunity
  obtain rfl : n = n' := h.prepend.trans h'.prepend.symm
  rfl

theorem Rule.rightUnique_follows : RightUnique Rule.Follows := by
  rintro s ⟨d, m, a⟩ ⟨d', m', a'⟩ h h'
  obtain rfl : d = d' := h.direction.trans h'.direction.symm
  obtain rfl := RuleMatch.rightUnique_follows h.condition h'.condition
  obtain ⟨direction, condition, action⟩ := s
  obtain rfl : a = a' := by
    cases h.action with
    | reject =>
      cases h'.action
      rfl
    | update hu =>
      cases h'.action with
      | update hu' => rw [RuleUpdate.rightUnique_follows hu hu']
  rfl

theorem Redistribution.follows_unique {role : Role} {set : Settings.RedistributeSet}
    {q r : Redistribution} (hq : q.Follows role set) (hr : r.Follows role set) : q = r := by
  have pointwise {α : Type} {k l : Source → α} (h : Source.all.map k = Source.all.map l)
      (s : Source) : k s = l s :=
    List.map_inj_left.mp h s s.mem_all
  exact eq_of_forall (pointwise (hq.enabled.trans hr.enabled.symm))
    (pointwise (Relator.RightUnique.forall₂ rightUnique_readAs hq.tags hr.tags))

theorem Group.rightUnique_follows {α κ : Type} [LinearOrder κ] (rank : α → κ)
    (given : Option String → List α) : RightUnique (Group.Follows rank given) := by
  rintro origin ⟨object, items⟩ ⟨object', items'⟩ h h'
  obtain rfl : object = object' := h.object.trans h'.object.symm
  obtain rfl : items = items' :=
    h.ascending.ext h'.ascending fun a => (h.items a).trans (h'.items a).symm
  rfl

/-- The fields are all that there is to a policy. -/
theorem Policy.follows_unique {ctx : Context} {reg : Registry} {name : String} {s : Settings.Peer}
    {p q : Policy} (hp : p.Follows ctx reg name s) (hq : q.Follows ctx reg name s) : p = q := by
  have localPref : p.localPref = q.localPref := by
    have inj : Function.Injective fun n : UInt32 => (n.toNat : Int) :=
      fun m n h => UInt32.toNat_inj.mp (Int.ofNat.inj h)
    exact Option.map_injective inj (hp.localPref.trans hq.localPref.symm)
  have redistribution := Redistribution.follows_unique hp.redistribution hq.redistribution
  have limit (f : Family) : p.limit f = q.limit f := (hp.limit f).trans (hq.limit f).symm
  have asnGroups := (Group.rightUnique_follows _ _).forall₂ hp.asnGroups hq.asnGroups
  have groups (f : Family) : p.groups f = q.groups f :=
    (Group.rightUnique_follows _ _).forall₂ (hp.groups f) (hq.groups f)
  have incoming := rightUnique_readAs hp.incoming hq.incoming
  have outgoing := rightUnique_readAs hp.outgoing hq.outgoing
  have rules (d : Settings.Direction) : p.rules d = q.rules d :=
    Rule.rightUnique_follows.forall₂ (hp.rules d) (hq.rules d)
  cases p
  cases q
  rw [Policy.mk.injEq]
  exact ⟨hp.named.trans hq.named.symm, hp.role.trans hq.role.symm, hp.asn.trans hq.asn.symm,
    hp.description.trans hq.description.symm, hp.neighbor4.trans hq.neighbor4.symm,
    hp.source4.trans hq.source4.symm, hp.neighbor6.trans hq.neighbor6.symm,
    hp.source6.trans hq.source6.symm, hp.passive.trans hq.passive.symm, localPref, redistribution,
    hp.acceptDefault.trans hq.acceptDefault.symm, limit .v4, limit .v6,
    hp.clusterId.trans hq.clusterId.symm, asnGroups, groups .v4, groups .v6, incoming, outgoing,
    hp.quarantine.trans hq.quarantine.symm, rules .inbound, rules .outbound⟩

/-! What is resolved stands in these relations to the settings. -/

section Resolved
variable {α : Type} [Literal α] {key : String}

theorem readAs_of_readLiterals {texts : List String} {as : List α}
    (h : readLiterals key texts = .ok as) : ReadAs texts as :=
  (forall₂_of_mapM h).imp fun _ _ => mapError_eq_ok.mp

theorem Condition.follows_resolve {c : Option (Settings.Choice String)} {d : Option (Condition α)}
    (h : resolve key c = .ok d) : Option.Rel (Follows ReadAs) c d := by
  cases c with
  | none =>
    obtain rfl := Except.ok.inj h
    exact .none
  | some c =>
    obtain ⟨as, has, h⟩ := ok_of_bind h
    obtain rfl := Except.ok.inj h
    have read := readAs_of_readLiterals has
    cases c with
    | among texts => exact .some (.among read)
    | outside texts => exact .some (.outside read)

theorem Condition.follows_ofChoice {β : Type} (c : Option (Settings.Choice β)) :
    Option.Rel (Follows Eq) c (c.map ofChoice) := by
  cases c with
  | none => exact .none
  | some c =>
    cases c with
    | among ns => exact .some (.among rfl)
    | outside ns => exact .some (.outside rfl)

theorem Edit.follows_resolve {e : Option Settings.Edit} {d : Edit α}
    (h : resolve key e = .ok d) : d.Follows e := by
  cases e with
  | none =>
    obtain rfl := Except.ok.inj h
    exact ⟨.nil, .nil⟩
  | some e =>
    obtain ⟨add, hadd, h⟩ := ok_of_bind h
    obtain ⟨remove, hremove, h⟩ := ok_of_bind h
    obtain rfl := Except.ok.inj h
    exact ⟨readAs_of_readLiterals hadd, readAs_of_readLiterals hremove⟩

theorem RuleMatch.follows_resolve {m : Settings.Match} {n : RuleMatch}
    (h : resolve key m = .ok n) : n.Follows m := by
  obtain ⟨net, hnet, h⟩ := ok_of_bind h
  obtain ⟨community, hcommunity, h⟩ := ok_of_bind h
  obtain ⟨extended, hextended, h⟩ := ok_of_bind h
  obtain ⟨large, hlarge, h⟩ := ok_of_bind h
  obtain rfl := Except.ok.inj h
  exact ⟨Condition.follows_ofChoice m.originAsn, Condition.follows_resolve hnet,
    Condition.follows_resolve hcommunity, Condition.follows_resolve hextended,
    Condition.follows_resolve hlarge⟩

theorem eq_map_of_prependCount {asked : Option UInt32} {n : Option Nat}
    (h : prependCount key asked = .ok n) : n = asked.map (·.toNat) := by
  cases asked with
  | none => exact (Except.ok.inj h).symm
  | some m =>
    rw [prependCount] at h
    split at h
    · exact (Except.ok.inj h).symm
    · exact nomatch h

theorem RuleAction.follows_resolve {s : Settings.Action} {a : RuleAction}
    (h : resolve key s = .ok a) : Follows s a := by
  cases s with
  | reject =>
    obtain rfl := Except.ok.inj h
    exact .reject
  | update u =>
    obtain ⟨prepend, hprepend, h⟩ := ok_of_bind h
    obtain ⟨community, hcommunity, h⟩ := ok_of_bind h
    obtain ⟨extended, hextended, h⟩ := ok_of_bind h
    obtain ⟨large, hlarge, h⟩ := ok_of_bind h
    obtain rfl := Except.ok.inj h
    exact .update ⟨Edit.follows_resolve hcommunity, Edit.follows_resolve hextended,
      Edit.follows_resolve hlarge, eq_map_of_prependCount hprepend⟩

theorem Rule.follows_resolve {s : Settings.Rule} {r : Rule} (h : resolve key s = .ok r) :
    r.Follows s := by
  obtain ⟨condition, hcondition, h⟩ := ok_of_bind h
  obtain ⟨action, haction, h⟩ := ok_of_bind h
  obtain rfl := Except.ok.inj h
  exact ⟨rfl, RuleMatch.follows_resolve hcondition, RuleAction.follows_resolve haction⟩

end Resolved

namespace Policy
variable {ctx : Context} {reg : Registry} {name key : String} {s : Settings.Peer} {p : Policy}

/-- Rules are resolved one by one. Where they stand is of use for messages only. -/
theorem follows_rulesOf {ss : List Settings.Rule} {rs : List Rule} (h : rulesOf key ss = .ok rs) :
    List.Forall₂ Rule.Follows ss rs := by
  have numbered : List.Forall₂ (fun x r => Rule.Follows x.1 r) ss.zipIdx rs :=
    (forall₂_of_mapM h).imp fun _ _ => Rule.follows_resolve
  rwa [← List.zipIdx_map_fst 0 ss, List.forall₂_map_left_iff]

theorem forall₂_filter_direction {ss : List Settings.Rule} {rs : List Rule}
    (h : List.Forall₂ Rule.Follows ss rs) (d : Settings.Direction) :
    List.Forall₂ Rule.Follows (ss.filter (·.direction = d)) (rs.filter (·.direction = d)) := by
  refine List.rel_filter (fun s r hr => ?_) h
  dsimp only
  rw [hr.direction]

theorem length_directions (rs : List Rule) :
    (rs.filter (·.direction = .inbound)).length + (rs.filter (·.direction = .outbound)).length =
      rs.length := by
  have other : (fun r : Rule => !decide (r.direction = .inbound)) =
      fun r => decide (r.direction = .outbound) := by
    funext r
    cases r.direction <;> rfl
  rw [← other]
  exact (List.length_eq_length_filter_add _).symm

section Step
variable {role : Role} {set : Settings.RedistributeSet} {r r' : Redistribution} {t u : Source}

theorem tags_redistributeFrom_of_ne (h : redistributeFrom ctx role key set r u = .ok r')
    (ht : t ≠ u) : r'.tags t = r.tags t := by
  obtain ⟨_, rfl⟩ | ⟨_, _, _, _, rfl⟩ := redistributeFrom_cases h
  · rfl
  · rw [Redistribution.tags_override, if_neg ht]

theorem readAs_redistributeFrom (h : redistributeFrom ctx role key set r u = .ok r')
    (unset : setting set u = none → r.tags u = []) :
    ReadAs (Settings.Redistribute.texts (setting set u)) (r'.tags u) := by
  obtain ⟨hset, rfl⟩ | ⟨value, tags, hset, htags, rfl⟩ := redistributeFrom_cases h
  · rw [hset, unset hset]
    exact .nil
  · rw [hset, Redistribution.tags_override, if_pos rfl]
    cases value <;> exact readAs_of_readLiterals htags

end Step

theorem readAs_redistributionOf {r : Redistribution} (h : redistributionOf ctx key s = .ok r)
    (t : Source) : ReadAs (Settings.Redistribute.texts (setting s.redistribute t)) (r.tags t) := by
  -- The sources gone through have the communities that are set; the others have none yet.
  have all : ∀ t, ReadAs (if t ∈ Source.all then
      Settings.Redistribute.texts (setting s.redistribute t) else []) (r.tags t) := by
    refine foldlM_induct (P := fun done (r : Redistribution) => ∀ t,
      ReadAs (if t ∈ done then Settings.Redistribute.texts (setting s.redistribute t) else [])
        (r.tags t)) h (fun t => .nil) ?_
    intro done u b c hb hstep t
    by_cases htu : t = u
    · subst htu
      rw [if_pos (List.mem_append_right done (List.mem_singleton_self t))]
      refine readAs_redistributeFrom hstep fun hset => ?_
      have before := hb t
      rw [hset, show Settings.Redistribute.texts none = [] from rfl, ite_self] at before
      exact List.forall₂_nil_left_iff.mp before
    · rw [tags_redistributeFrom_of_ne hstep htu]
      simpa [htu] using hb t
  have read := all t
  rwa [if_pos t.mem_all] at read

theorem follows_redistributionOf {r : Redistribution} (h : redistributionOf ctx key s = .ok r) :
    r.Follows s.role s.redistribute := by
  have settings : s.redistribute.inOrder = Source.all.map (setting s.redistribute) := rfl
  have given : s.role.sends = Source.all.map (Redistribution.ofRole s.role).enabled := by
    cases s.role <;> rfl
  refine ⟨?_, ?_, fun t tagged => ?_⟩
  · rw [settings, given, List.zipWith_map, List.zipWith_self]
    exact List.map_congr_left fun t _ => enabled_redistributionOf h t
  · rw [settings, List.map_map, List.forall₂_map_left_iff, List.forall₂_map_right_iff,
      List.forall₂_same]
    exact fun t _ => readAs_redistributionOf h t
  · have read := readAs_redistributionOf h t
    rw [enabled_redistributionOf h, isWanted]
    cases hset : setting s.redistribute t with
    | some value =>
      cases value with
      | tagged texts => rfl
      | flag on =>
        rw [hset] at read
        exact absurd (List.forall₂_nil_left_iff.mp read) tagged
    | none =>
      rw [hset] at read
      exact absurd (List.forall₂_nil_left_iff.mp read) tagged

theorem Allowed.exists_object {allow : Settings.Allow} {b : Allowed}
    (h : Allowed.resolve reg key allow = .ok b) :
    ∀ object ∈ allow.asSets, (reg.object object).isSome = true := by
  obtain ⟨_, _, h⟩ := ok_of_bind h
  refine foldlM_induct (P := fun done _ => ∀ object ∈ done, (reg.object object).isSome = true) h
    (fun _ hobject => absurd hobject List.not_mem_nil) ?_
  intro done name b c known hstep
  obtain ⟨_, hd, _⟩ := ok_of_bind hstep
  obtain ⟨o, ho, _⟩ := Allowed.ofObject_eq_ok hd
  rw [List.forall_mem_append, List.forall_mem_singleton, ho]
  exact ⟨known, rfl⟩

theorem forall₂_ofItems {α κ : Type} [LinearOrder κ] {rank : α → κ}
    {given items : Option String → List α} (ascending : ∀ origin, Ascending rank (items origin))
    (exact : ∀ origin a, a ∈ items origin ↔ a ∈ given origin) (origins : List (Option String)) :
    List.Forall₂ (Group.Follows rank given) (origins.filter fun origin => given origin ≠ [])
      (origins.flatMap fun origin => Group.ofItems origin (items origin)) := by
  have some (origin : Option String) : items origin ≠ [] ↔ given origin ≠ [] := by
    simp only [ne_eq, List.eq_nil_iff_forall_not_mem, exact]
  rw [flatMap_ofItems]
  simp only [some]
  rw [List.forall₂_map_right_iff, List.forall₂_same]
  exact fun origin _ => ⟨rfl, ascending origin, exact origin⟩

theorem limitFrom_eq (reg : Registry) (s : Settings.Peer) (f : Family) :
    s.limitFrom reg f = (s.limit f).or
      (if (s.role = .customer ∨ s.role = .peer) ∧
          ¬ (64512 ≤ s.asn ∧ s.asn ≤ 65534 ∨ 4200000000 ≤ s.asn ∧ s.asn ≤ 4294967294) then
        (reg.counts.lookup s.asn).bind (·.count f)
      else none) := by
  simp only [Settings.Peer.limitFrom, ← Registry.isPrivateAsn_iff, ← Role.hasRegistryLimits_iff]
  congr 1
  by_cases asks : s.role.hasRegistryLimits = true
  · by_cases unlisted : Registry.isPrivateAsn s.asn = true
    · simp [asks, unlisted, Registry.count_of_isPrivateAsn]
    · simp [asks, unlisted, Registry.count, Registry.countsOf]
  · simp [asks]

theorem toNat_reduced (base cost : UInt32) :
    ((if cost ≤ base then base - cost else 0 : UInt32).toNat : Int) =
      max 0 ((base.toNat : Int) - cost.toNat) := by
  by_cases h : cost ≤ base
  · have le : cost.toNat ≤ base.toNat := UInt32.le_iff_toNat_le.mp h
    rw [if_pos h, UInt32.toNat_sub_of_le _ _ h]
    omega
  · have lt : base.toNat < cost.toNat := UInt32.lt_iff_toNat_lt.mp (UInt32.not_le.mp h)
    rw [if_neg h, UInt32.toNat_zero]
    omega

theorem isSome_of_checkSession (h : checkSession ctx name key s = .ok ())
    (needed : s.role.needsClusterId = true) : ctx.clusterId.isSome = true := by
  obtain ⟨_, _, h⟩ := ok_of_bind h
  obtain ⟨_, _, h⟩ := ok_of_bind h
  obtain ⟨_, _, h⟩ := ok_of_bind h
  obtain ⟨_, hcluster, _⟩ := ok_of_bind h
  have cluster := eq_true_of_require hcluster
  rwa [needed] at cluster

theorem plain_fields (h : resolve ctx reg name s = .ok p) :
    p.description = s.description.getD s!"AS{s.asn.toNat} {name}" ∧ p.source4 = s.source4 ∧
      p.source6 = s.source6 ∧ p.passive = s.passive ∧
      p.localPref = (s.role.baseLocalPref.map fun base =>
        if s.cost ≤ base then base - s.cost else 0) ∧
      p.clusterId = if s.role.needsClusterId then ctx.clusterId else none := by
  unfold resolve at h
  obtain ⟨_, _, h⟩ := ok_of_bind h
  obtain ⟨_, _, h⟩ := ok_of_bind h
  obtain ⟨_, _, h⟩ := ok_of_bind h
  obtain ⟨_, _, h⟩ := ok_of_bind h
  obtain ⟨_, _, h⟩ := ok_of_bind h
  obtain ⟨_, _, h⟩ := ok_of_bind h
  obtain rfl := Except.ok.inj h
  exact ⟨rfl, rfl, rfl, rfl, rfl, rfl⟩

theorem follows_resolve (h : resolve ctx reg name s = .ok p) : p.Follows ctx reg name s := by
  have resolved := resolved_of_resolve h
  obtain ⟨description, source4, source6, passive, localPref, clusterId⟩ := plain_fields h
  obtain ⟨rules, hrules, inbound, outbound⟩ := resolved.rules
  have read := follows_rulesOf hrules
  refine { resolved with
    description, source4, source6, passive
    localPref := ?_
    redistribution := follows_redistributionOf resolved.redistribution
    limit := fun f => (limit_resolve h f).trans (limitFrom_eq reg s f)
    clusterId := ?_
    clustered := ?_
    objects := Allowed.exists_object resolved.allowed
    patterns := (Allowed.gathers_resolve resolved.allowed).patterns
    asnGroups := ?_
    groups := fun f => ?_
    incoming := readAs_of_readLiterals resolved.incoming
    outgoing := readAs_of_readLiterals resolved.outgoing
    rules := fun d => ?_
    everyRule := ?_ }
  · rw [localPref, Option.map_map]
    have table : Role.preferences.lookup s.role =
        s.role.baseLocalPref.map fun base => (base.toNat : Int) := by
      cases s.role <;> rfl
    rw [table, Option.map_map]
    exact congrArg (s.role.baseLocalPref.map ·) (funext fun base => toNat_reduced base s.cost)
  · simp only [clusterId, Role.needsClusterId_iff]
  · rw [clusterId, ← Role.needsClusterId_iff]
    cases needed : s.role.needsClusterId with
    | false => simp
    | true => simp [isSome_of_checkSession resolved.session needed]
  · rw [resolved.asnGroups_eq]
    exact forall₂_ofItems (fun _ => ascending_canonical injective_asn asn_le_iff _)
      (fun _ _ => mem_canonical) _
  · rw [resolved.groups_eq]
    exact forall₂_ofItems (fun _ => ascending_nets f _) (fun _ _ => mem_nets_iff) _
  · have directed := forall₂_filter_direction read d
    cases d with
    | inbound => rwa [Policy.rules, inbound]
    | outbound => rwa [Policy.rules, outbound]
  · rw [inbound, outbound, length_directions, read.length_eq]

end Policy

/-- The settings of a peer resolve to the policy whose fields follow from them, from the registry
and from the role, and there is no other such policy. -/
theorem resolved_fields {ctx : Context} {reg : Registry} {name : String} {s : Settings.Peer}
    {p : Policy} (h : Policy.resolve ctx reg name s = .ok p) :
    p.Follows ctx reg name s ∧ ∀ q : Policy, q.Follows ctx reg name s → q = p :=
  ⟨Policy.follows_resolve h, fun _ hq => Policy.follows_unique hq (Policy.follows_resolve h)⟩

/-- A peer with a limit for one family only, and a cost that is less than its preference. Static
routes are sent to it with a community and our own routes are not sent. Of the two objects that it
may announce, one has no ASNs. -/
theorem resolved_fields_peer :
    let rule (d : Settings.Direction) : Settings.Rule := ⟨d, .everything, .reject⟩
    let s : Settings.Peer := { Settings.Peer.plain .peer 3333 with
      cost := 20
      limit4 := some 10
      redistribute := { Settings.RedistributeSet.unset with
        static := some (.tagged ["65000:1:2"])
        bgpOwn := some (.flag false) }
      allow := ⟨[3333, 1136], [], ["AS-NONE", "AS-ONE"]⟩
      rules := [rule .inbound, rule .outbound, rule .inbound] }
    let reg : Registry :=
      ⟨[(3333, ⟨some 20, some 30⟩)], [("AS-NONE", ⟨[], [], []⟩), ("AS-ONE", ⟨[], [], [286]⟩)]⟩
    ∃ p, Policy.resolve ⟨65000, none, ⟨false, false, true⟩⟩ reg "a" s = .ok p ∧
      Source.all.map p.redistribution.enabled =
        [false, false, false, true, false, false, false, true, false, false] ∧
      p.limit .v4 = some 10 ∧ p.limit .v6 = some 30 ∧
      p.localPref.map (fun n => (n.toNat : Int)) = some 450 ∧
      List.Forall₂ (Group.Follows UInt32.toNat (s.allow.asnsFrom reg)) [none, some "AS-ONE"]
        p.asnGroups ∧
      p.inbound.length = 2 ∧ p.outbound.length = 1 := by
  intro rule s reg
  obtain ⟨p, hp⟩ := exists_ok (e := Policy.resolve ⟨65000, none, ⟨false, false, true⟩⟩ reg "a" s)
    (by decide +kernel)
  obtain ⟨follows, _⟩ := resolved_fields hp
  exact ⟨p, hp, follows.redistribution.enabled, follows.limit .v4, follows.limit .v6,
    follows.localPref, follows.asnGroups, (follows.rules .inbound).length_eq.symm,
    (follows.rules .outbound).length_eq.symm⟩

end Peering
