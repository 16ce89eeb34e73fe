import Peering.Proofs.Receiving
import Peering.Proofs.Resolution
import Peering.Proofs.Sending

/-!
Route leaks. What a peer or a transit announces carries the tag of that relation alone, so no source
that is on by default covers it on its way to another peer.
-/
namespace Peering

/-- Whether the settings of a peer put tags of relations on the routes that it sends us. -/
def Policy.AddsRelations (own : UInt32) (p : Policy) : Prop :=
  ∃ c, (c ∈ p.incoming ∨ ∃ rule ∈ p.inbound, rule.Adds c) ∧ c.admin = own ∧
    c.function = TagKind.relation.code

theorem relationTag_inj {own : UInt32} {x y : Relation}
    (h : relationTag own x = relationTag own y) : x = y :=
  Relation.code_inj (LargeCommunity.mk.inj h).2.2

section
variable {own : UInt32} {p : Policy} {f : Family} {r : Route}

/-- The only relation a received route can be tagged with is that of the peer it came from. -/
theorem relation_of_mem_received (strips : p.role.stripping = .all) (adds : ¬ p.AddsRelations own)
    {x : Relation} (h : relationTag own x ∈ (p.received own f r).large) :
    p.role.relation = some x := by
  obtain hin | ⟨_, htag⟩ | hruled := Policy.mem_received.mp h
  · exact absurd ⟨_, .inl hin, rfl, rfl⟩ adds
  · exact absurd htag.symm (failureTag_ne_relationTag own .customAction x)
  · obtain hjudged | hrule := mem_or_adds_of_mem_evaluateRules hruled
    · obtain ⟨reason, _, htag⟩ | hadmitted := Policy.mem_judged.mp hjudged
      · exact absurd htag (failureTag_ne_relationTag own reason x)
      · obtain ⟨y, hy, hxy⟩ | ⟨_, hkept⟩ := Policy.mem_admitted.mp hadmitted
        · rw [hy, relationTag_inj hxy]
        · rw [strips] at hkept
          simp [Stripping.keeps, relationTag] at hkept
    · exact absurd ⟨_, .inr hrule, rfl, rfl⟩ adds

theorem session_ne_originate (f g : Family) (name : String) :
    (Protocol.session f name).name ≠ (Protocol.originate g).name := by
  intro h
  have hc := congrArg String.toList h
  simp [Protocol.name, toString] at hc

/-- A route of a session is kept from a peer unless it is tagged as our own or as a customer's, or
all routes of its kind are sent to the peer. -/
theorem not_exports_of_relation {A : String} (origin : r.origin = .bgp)
    (session : r.protocol = (Protocol.session f A).name)
    (foreign : relationTag own .own ∉ r.large ∧ relationTag own .customer ∉ r.large)
    (off : ∀ s ∈ [Source.bgp, .bgpPeering, .bgpTransit], p.redistribution.enabled s = false) :
    p.exports own f r = false := by
  cases he : p.exports own f r with
  | false => rfl
  | true =>
    obtain ⟨_, ⟨s, hs, enabled, covers⟩, _⟩ := Policy.exports_iff.mp he
    cases s with
    | default => exact absurd rfl hs
    | connected | kernel | static => simp [Policy.covers, origin] at covers
    | originated =>
      have originated : r.protocol = (Protocol.originate f).name := of_decide_eq_true covers
      exact absurd (session.symm.trans originated) (session_ne_originate f f A)
    | bgp | bgpPeering | bgpTransit =>
      rw [off _ (by simp)] at enabled
      exact absurd enabled Bool.false_ne_true
    | bgpOwn | bgpCustomer =>
      simp [Policy.covers, Source.isTagged_eq, Source.relations, foreign] at covers

end

theorem isWanted_eq_false {role : Role} {set : Settings.RedistributeSet} {s : Source}
    (external : role.isExternal = true) (notCustomer : role ≠ .customer)
    (foreign : s ∈ [Source.bgp, .bgpPeering, .bgpTransit])
    (off : ∀ value, Policy.setting set s = some value → value.on = false) :
    Policy.isWanted role set s = false := by
  rw [Policy.isWanted]
  cases hset : Policy.setting set s with
  | some value =>
    rw [Settings.Redistribute.wanted_some]
    exact off value hset
  | none =>
    have internal : role.isReflector = false := by simpa [Role.isExternal] using external
    simp only [List.mem_cons, List.not_mem_nil, or_false] at foreign
    obtain rfl | rfl | rfl := foreign
    all_goals simp [Settings.Redistribute.wanted, Redistribution.ofRole, Redistribution.enabled,
      internal, notCustomer]

theorem stripping_and_relation {role : Role} (h : role ∈ [Role.peer, .routeServer, .transit]) :
    role.stripping = .all ∧ role.relation ≠ some .own ∧ role.relation ≠ some .customer := by
  simp only [List.mem_cons, List.not_mem_nil, or_false] at h
  obtain rfl | rfl | rfl := h
  all_goals decide

/-- What a peer, a route server or a transit announces, and what then gets into the main table, is
never sent on to a peer that is no customer, unless the settings turn on sources that stand for such
routes. The settings have no name twice, as is true of all that are read from a document. -/
theorem no_route_leak {s : Settings.Router} {reg : Registry} {rt : Router}
    (hs : (s.peers.map Prod.fst).Nodup) (hrt : Router.resolve s reg = .ok rt)
    {A B : Policy} (hA : A ∈ rt.peers) (hB : B ∈ rt.peers)
    (hrole : A.role ∈ [Role.peer, .routeServer, .transit]) (adds : ¬ A.AddsRelations rt.asn)
    (external : B.role.isExternal = true) (notCustomer : B.role ≠ .customer)
    {stanza : Settings.Peer} (hstanza : (B.name, stanza) ∈ s.peers)
    (off : ∀ source ∈ [Source.bgp, .bgpPeering, .bgpTransit], ∀ value,
      Policy.setting stanza.redistribute source = some value → value.on = false) (f : Family) :
    ∃ receive toMain toPeer,
      Filter.ofPeer ⟨some rt.asn⟩ A f .receive = .ok receive ∧
      Filter.ofPeer ⟨some rt.asn⟩ A f .toMain = .ok toMain ∧
      Filter.ofPeer ⟨some rt.asn⟩ B f .toPeer = .ok toPeer ∧
      ∀ r r₁ r₂, r.origin = .bgp → r.protocol = (Protocol.session f A.name).name →
        receive.run (Filter.scope rt.asn rt.peers) r = (some .accept, r₁) →
        toMain.run (Filter.scope rt.asn rt.peers) r₁ = (some .accept, r₂) →
        (toPeer.run (Filter.scope rt.asn rt.peers) r₂).1 = some .reject := by
  have names := Router.nodup_names_resolve hs hrt
  obtain ⟨receive, hreceive, receives⟩ := Filter.receive_runs rt.peers hA names
  obtain ⟨toMain, htoMain, decides⟩ := Filter.toMain_runs rt.peers (p := A) (f := f)
  obtain ⟨toPeer, htoPeer, sends⟩ := Filter.toPeer_runs rt.peers hB names
  refine ⟨receive, toMain, toPeer, hreceive, htoMain, htoPeer, ?_⟩
  intro r r₁ r₂ origin session h₁ h₂
  obtain rfl : A.received rt.asn f r = r₁ := (Prod.mk.inj ((receives r).symm.trans h₁)).2
  obtain rfl : A.received rt.asn f r = r₂ := (Prod.mk.inj ((decides _).symm.trans h₂)).2
  have frame := @Policy.received_frame rt.asn A f r
  have resolved := Router.resolved_of_mem hs hrt hB hstanza
  have enabled : ∀ source ∈ [Source.bgp, .bgpPeering, .bgpTransit],
      B.redistribution.enabled source = false := by
    intro source hsource
    rw [Policy.enabled_redistributionOf resolved.redistribution]
    rw [resolved.role] at external notCustomer
    exact isWanted_eq_false external notCustomer hsource (off source hsource)
  obtain ⟨strips, notOwn, notCustomers⟩ := stripping_and_relation hrole
  have untagged : relationTag rt.asn .own ∉ (A.received rt.asn f r).large ∧
      relationTag rt.asn .customer ∉ (A.received rt.asn f r).large :=
    ⟨fun h => notOwn (relation_of_mem_received strips adds h),
      fun h => notCustomers (relation_of_mem_received strips adds h)⟩
  rw [(sends _).1, not_exports_of_relation (frame.2.1.trans origin) (frame.2.2.trans session)
    untagged enabled]
  rfl

/-- A route of a peer gets into the main table, and the transit does not get it. -/
theorem no_route_leak_to_transit :
    Router.resolve (.plain 65000 [("a", .plain .peer 3333), ("b", .plain .transit 1136)]) .empty =
        .ok (.plain 65000 [.plain "a" .peer 3333, .plain "b" .transit 1136]) ∧
      ∃ receive toMain toPeer r r₁ r₂,
        Filter.ofPeer ⟨some 65000⟩ (.plain "a" .peer 3333) .v4 .receive = .ok receive ∧
        Filter.ofPeer ⟨some 65000⟩ (.plain "a" .peer 3333) .v4 .toMain = .ok toMain ∧
        Filter.ofPeer ⟨some 65000⟩ (.plain "b" .transit 1136) .v4 .toPeer = .ok toPeer ∧
        receive.run (Filter.scope 65000 [.plain "a" .peer 3333, .plain "b" .transit 1136]) r =
          (some .accept, r₁) ∧
        toMain.run (Filter.scope 65000 [.plain "a" .peer 3333, .plain "b" .transit 1136]) r₁ =
          (some .accept, r₂) ∧
        (toPeer.run (Filter.scope 65000 [.plain "a" .peer 3333, .plain "b" .transit 1136])
          r₂).1 = some .reject := by
  have resolves : Router.resolve
      (.plain 65000 [("a", .plain .peer 3333), ("b", .plain .transit 1136)]) .empty =
        .ok (.plain 65000 [.plain "a" .peer 3333, .plain "b" .transit 1136]) := by
    with_unfolding_all rfl
  refine ⟨resolves, ?_⟩
  have hA : Policy.plain "a" .peer 3333 ∈
      [Policy.plain "a" .peer 3333, .plain "b" .transit 1136] := List.mem_cons_self
  have hB : Policy.plain "b" .transit 1136 ∈
      [Policy.plain "a" .peer 3333, .plain "b" .transit 1136] :=
    List.mem_cons_of_mem _ List.mem_cons_self
  have adds : ¬ (Policy.plain "a" .peer 3333).AddsRelations 65000 := by
    intro h
    obtain ⟨c, hc | ⟨rule, hrule, _⟩, _⟩ := h
    · exact absurd hc List.not_mem_nil
    · exact absurd hrule List.not_mem_nil
  obtain ⟨receive, toMain, toPeer, h₁, h₂, h₃, rejects⟩ := @no_route_leak
    (.plain 65000 [("a", .plain .peer 3333), ("b", .plain .transit 1136)]) .empty
    (.plain 65000 [.plain "a" .peer 3333, .plain "b" .transit 1136]) (by decide) resolves
    _ _ hA hB (by decide) adds (by decide) (by decide) (.plain .transit 1136)
    (List.mem_cons_of_mem _ List.mem_cons_self) (by decide) .v4
  obtain ⟨_, h₁', receives⟩ := @Filter.receive_runs 65000 _ _ .v4 hA (by decide)
  obtain ⟨_, h₂', decides⟩ := @Filter.toMain_runs 65000
    [.plain "a" .peer 3333, .plain "b" .transit 1136] (.plain "a" .peer 3333) .v4
  obtain rfl := Except.ok.inj (h₁.symm.trans h₁')
  obtain rfl := Except.ok.inj (h₂.symm.trans h₂')
  let r : Route := ⟨⟨.v4 134744064, 24⟩, .bgp, "bgp4_a", [3333], .v4 3221225985, 100, [], [], []⟩
  have unfiltered :
      ((Policy.plain "a" .peer 3333).received 65000 .v4 r).isFiltered 65000 = false := by
    decide +kernel
  have accepts := decides ((Policy.plain "a" .peer 3333).received 65000 .v4 r)
  rw [unfiltered] at accepts
  exact ⟨receive, toMain, toPeer, r, _, _, h₁, h₂, h₃, receives r, accepts,
    rejects r _ _ rfl (by decide) (receives r) accepts⟩

end Peering
