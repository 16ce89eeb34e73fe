import Peering.Proofs.Resolution
import Peering.Proofs.Sending

/-!
Communities that make no difference. A route that carries one more of them is covered by the same
sources and banned no more than before, so a request that names one peer is nothing to another; the
codes that stand for kinds of peers are the exception, since any peer may have one as its ASN.
-/
namespace Peering

/-- The tag that asks not to export a route to the peer with an ASN, or to peers of a kind. -/
def noExportTag (own asn : UInt32) : LargeCommunity := ⟨own, TagKind.noExport.code, asn⟩

/-- The second route is the first but for a community, which either of them may carry. -/
structure Route.SameBut (c : LargeCommunity) (r r' : Route) : Prop where
  rest : r' = { r with large := r'.large }
  large : ∀ d, d ≠ c → (d ∈ r'.large ↔ d ∈ r.large)

/-- Nothing is decided about a peer by the community: it is not ours, or it is none of a relation,
of a reason, or of a request that is meant for the peer. -/
def Policy.Ignores (own : UInt32) (p : Policy) (c : LargeCommunity) : Prop :=
  c.admin = own → c.function ≠ TagKind.relation.code ∧ c.function ≠ TagKind.filtered.code ∧
    (c.function = TagKind.noExport.code → c.value ∉ p.bans)

namespace Route.SameBut
variable {c d : LargeCommunity} {r r' : Route}

theorem marked (c : LargeCommunity) (r : Route) : SameBut c r (r.mark [c]) where
  rest := rfl
  large d hd := by rw [mem_mark, List.mem_singleton, or_iff_right hd]

theorem mark (h : SameBut c r r') (tags : List LargeCommunity) :
    SameBut c (r.mark tags) (r'.mark tags) where
  rest := by rw [h.rest]; rfl
  large d hd := by rw [mem_mark, mem_mark, h.large d hd]

theorem contains (h : SameBut c r r') (hd : d ≠ c) : r'.large.contains d = r.large.contains d := by
  rw [Bool.eq_iff_iff, List.contains_iff_mem, List.contains_iff_mem, h.large d hd]

theorem perform (h : SameBut c r r') (own : UInt32) (u : RuleUpdate) :
    SameBut c (u.perform own r) (u.perform own r') where
  rest := by rw [h.rest]; rfl
  large d hd := by
    simp only [RuleUpdate.perform, Edit.mem_perform, h.large d hd]

theorem isDefault (h : SameBut c r r') (f : Family) : r'.isDefault f = r.isDefault f := by
  rw [h.rest]
  rfl

end Route.SameBut

namespace Policy
variable {own : UInt32} {p : Policy} {f : Family} {c : LargeCommunity} {r r' : Route}

theorem mem_bans_iff {n : UInt32} :
    n ∈ p.bans ↔ n = p.asn ∨ p.role.audience.map Audience.code = some n := by
  rw [bans_eq, List.mem_cons, Option.mem_toList]

theorem Ignores.ne_relationTag (h : p.Ignores own c) (x : Relation) : relationTag own x ≠ c := by
  rintro rfl
  exact (h rfl).1 rfl

theorem Ignores.ne_ban (h : p.Ignores own c) {n : UInt32} (hn : n ∈ p.bans) :
    noExportTag own n ≠ c := by
  rintro rfl
  exact (h rfl).2.2 rfl hn

theorem isTagged_of_sameBut (h : p.Ignores own c) (hr : Route.SameBut c r r') (s : Source) :
    s.isTagged own r' = s.isTagged own r := by
  rw [Source.isTagged_eq, Source.isTagged_eq]
  congr 1
  exact funext fun x => hr.contains (h.ne_relationTag x)

theorem isFiltered_of_sameBut (h : p.Ignores own c) (hr : Route.SameBut c r r') :
    r'.isFiltered own = r.isFiltered own := by
  rw [Bool.eq_iff_iff, Route.isFiltered_iff, Route.isFiltered_iff]
  refine exists_congr fun d => and_congr_left fun hd => hr.large d ?_
  rintro rfl
  exact (h hd.1).2.1 hd.2

theorem mayBeSent_of_sameBut (h : p.Ignores own c) (hr : Route.SameBut c r r') :
    r'.mayBeSent own f p.asn = r.mayBeSent own f p.asn := by
  have ban : r'.large.contains ⟨own, TagKind.noExport.code, p.asn⟩ =
      r.large.contains ⟨own, TagKind.noExport.code, p.asn⟩ :=
    hr.contains (h.ne_ban (mem_bans_iff.mpr (.inl rfl)))
  rw [Route.mayBeSent, Route.mayBeSent, ban, isFiltered_of_sameBut h hr, hr.rest]
  rfl

theorem isBanned_of_sameBut (h : p.Ignores own c) (hr : Route.SameBut c r r') :
    p.isBanned own r' = p.isBanned own r := by
  rw [isBanned, isBanned]
  congr 1
  rw [Bool.eq_iff_iff, List.any_eq_true, List.any_eq_true]
  refine exists_congr fun n => and_congr_right fun hn => ?_
  rw [← noExportTag, hr.contains (h.ne_ban hn)]

theorem covers_of_sameBut (h : p.Ignores own c) (hr : Route.SameBut c r r') (s : Source) :
    p.covers own f s r' = p.covers own f s r := by
  have origin : r'.origin = r.origin := by rw [hr.rest]
  have protocol : r'.protocol = r.protocol := by rw [hr.rest]
  have learned (hs : s.relations ≠ []) : p.covers own f s r' = p.covers own f s r := by
    rw [covers_of_relations own p f hs, covers_of_relations own p f hs, origin,
      isTagged_of_sameBut h hr, mayBeSent_of_sameBut h hr]
  cases s with
  | default => exact hr.isDefault f
  | connected | kernel | bgp => rw [covers, covers, origin]
  | static => rw [covers, covers, origin, protocol]
  | originated => rw [covers, covers, protocol]
  | bgpOwn | bgpCustomer | bgpPeering | bgpTransit => exact learned (List.cons_ne_nil _ _)

theorem tagAll_sameBut (h : p.Ignores own c) (hr : Route.SameBut c r r') (ss : List Source) :
    Route.SameBut c (p.tagAll own f ss r) (p.tagAll own f ss r') := by
  induction ss generalizing r r' with
  | nil => exact hr
  | cons s ss ih =>
    rw [tagAll, tagAll, covers_of_sameBut h hr]
    cases p.covers own f s r with
    | false => exact ih hr
    | true => exact ih (hr.mark _)

theorem tagged_sameBut (h : p.Ignores own c) (hr : Route.SameBut c r r') :
    Route.SameBut c (p.tagged own f r) (p.tagged own f r') := by
  have tags := tagAll_sameBut (f := f) h hr p.coveringSources
  rw [tagged, tagged, tagDefault, tagDefault, tags.isDefault]
  split
  · exact tags.mark _
  · exact tags

/-- What is exported depends on the community by the rules of the peer at most. -/
theorem exports_of_sameBut (h : p.Ignores own c) (hr : Route.SameBut c r r')
    (ruled : (evaluateRules own p.outbound (p.tagged own f r')).1 =
      (evaluateRules own p.outbound (p.tagged own f r)).1) :
    p.exports own f r' = p.exports own f r := by
  have covered : (fun s => p.covers own f s r') = fun s => p.covers own f s r :=
    funext (covers_of_sameBut h hr)
  rw [exports, exports, isBanned_of_sameBut h hr, covered, hr.isDefault, ruled]

theorem ignores_noExportTag {n : UInt32} (hn : n ∉ p.bans) : p.Ignores own (noExportTag own n) := by
  have codes : TagKind.noExport.code ≠ TagKind.relation.code ∧
      TagKind.noExport.code ≠ TagKind.filtered.code := by decide
  exact fun _ => ⟨codes.1, codes.2, fun _ => hn⟩

theorem exports_noExportTag {n : UInt32} (external : p.role.isExternal = true) (hn : n ∈ p.bans) :
    p.exports own f (r.mark [noExportTag own n]) = false := by
  have banned : p.isBanned own (r.mark [noExportTag own n]) = true := by
    rw [isBanned, external, Bool.true_and, List.any_eq_true]
    exact ⟨n, hn, List.contains_iff_mem.mpr (Route.mem_mark.mpr (.inl List.mem_cons_self))⟩
  rw [exports, banned]
  rfl

end Policy

/-- A request not to export a route to one peer, as seen by another peer that has no rules for what
it is sent. The other peer is sent the route just as without the request, unless the ASN that is
named is the code for what the other peer is to us. Nothing keeps a peer from having that ASN. -/
theorem request_for_another_peer {s : Settings.Router} {reg : Registry} {rt : Router}
    (hs : (s.peers.map Prod.fst).Nodup) (hrt : Router.resolve s reg = .ok rt) {q : Policy}
    (hq : q ∈ rt.peers) (external : q.role.isExternal = true) (free : q.outbound = [])
    (f : Family) :
    ∃ program, Filter.ofPeer ⟨some rt.asn⟩ q f .toPeer = .ok program ∧
      ∀ p ∈ rt.peers, p.role.isExternal = true → p.asn ≠ q.asn → ∀ r,
        ((program.run (Filter.scope rt.asn rt.peers) (r.mark [noExportTag rt.asn p.asn])).1 =
            some .accept ↔
          (program.run (Filter.scope rt.asn rt.peers) r).1 = some .accept ∧
            q.role.audience.map Audience.code ≠ some p.asn) := by
  obtain ⟨program, hprogram, runs⟩ :=
    Filter.toPeer_runs rt.peers hq (Router.nodup_names_resolve hs hrt)
  refine ⟨program, hprogram, fun p _ _ apart r => ?_⟩
  have banned : p.asn ∈ q.bans ↔ q.role.audience.map Audience.code = some p.asn := by
    rw [Policy.mem_bans_iff, or_iff_right apart]
  rw [Filter.Exit.eq_accept_iff (runs _).1, Filter.Exit.eq_accept_iff (runs r).1, Ne, ← banned]
  by_cases hn : p.asn ∈ q.bans
  · rw [Policy.exports_noExportTag external hn]
    simp [hn]
  · have ruled (t : Route) : (evaluateRules rt.asn q.outbound t).1 = true := by rw [free]; rfl
    rw [Policy.exports_of_sameBut (Policy.ignores_noExportTag hn) (.marked _ r)
      ((ruled _).trans (ruled _).symm), and_iff_left hn]

/-- A peer has the ASN that stands for customers. A customer is sent a route of another customer,
and is not sent it any more when the route is to be kept from that peer. -/
theorem request_for_another_peer_code :
    let a : Policy := .plain "a" .peer Audience.customers.code
    let b : Policy := .plain "b" .customer 3333
    let r : Route := ⟨⟨.v4 134744064, 24⟩, .bgp, "bgp4_c", [1136], .v4 1, 750, [], [],
      [relationTag 65000 .customer]⟩
    Router.resolve (.plain 65000
        [("a", .plain .peer Audience.customers.code), ("b", .plain .customer 3333)]) .empty =
      .ok (.plain 65000 [a, b]) ∧ a.asn ≠ b.asn ∧
      ∃ program, Filter.ofPeer ⟨some 65000⟩ b .v4 .toPeer = .ok program ∧
        (program.run (Filter.scope 65000 [a, b]) r).1 = some .accept ∧
        (program.run (Filter.scope 65000 [a, b]) (r.mark [noExportTag 65000 a.asn])).1 ≠
          some .accept := by
  intro a b r
  have resolves : Router.resolve (.plain 65000
      [("a", .plain .peer Audience.customers.code), ("b", .plain .customer 3333)]) .empty =
      .ok (.plain 65000 [a, b]) := by
    with_unfolding_all rfl
  have hb : b ∈ [a, b] := List.mem_cons_of_mem _ List.mem_cons_self
  obtain ⟨program, hprogram, requests⟩ := request_for_another_peer (by decide) resolves hb rfl rfl
    .v4
  obtain ⟨program', hprogram', runs⟩ := @Filter.toPeer_runs 65000 [a, b] b .v4 hb (by decide)
  obtain rfl := Except.ok.inj (hprogram.symm.trans hprogram')
  have exported : b.exports 65000 .v4 r = true := by decide +kernel
  have accepted := (Filter.Exit.eq_accept_iff (runs r).1).mpr exported
  have apart : a.asn ≠ b.asn := by decide
  exact ⟨resolves, apart, program, hprogram, accepted, fun h =>
    ((requests a List.mem_cons_self rfl apart r).mp h).2 rfl⟩

end Peering
