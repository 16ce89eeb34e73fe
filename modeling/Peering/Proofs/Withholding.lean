import Peering.Proofs.Resolution
import Peering.Proofs.Sending

/-!
What is kept from a peer. The last thing that is done to a route before an external peer gets it is
to take off the tags that mean something inside our network only; nothing adds any of them after
that.
-/
namespace Peering

theorem LargeCommunity.not_isInternal_iff {own : UInt32} {c : LargeCommunity} :
    (!c.isInternal own) = true ↔
      ¬ (c.admin = own ∧
        (c.function = 3 ∨ 61 ≤ c.function ∧ c.function ≤ 70 ∨ c.function = 1101)) := by
  rw [Bool.not_eq_true', ← Bool.not_eq_true, not_iff_not]
  simp only [LargeCommunity.isInternal, Bool.and_eq_true, Bool.or_eq_true, beq_iff_eq,
    decide_eq_true_eq, or_assoc]
  rw [@eq_comm _ own, @eq_comm _ TagKind.relation.code, @eq_comm _ TagKind.filtered.code]
  rfl

namespace Policy
variable {own : UInt32} {p : Policy} {f : Family} {r : Route} {c : LargeCommunity}

theorem mem_tagAll_of_mem (ss : List Source) (h : c ∈ r.large) :
    c ∈ (p.tagAll own f ss r).large := by
  induction ss generalizing r with
  | nil => exact h
  | cons s ss ih =>
    rw [tagAll]
    split
    · exact ih (Route.mem_mark.mpr (.inr h))
    · exact ih h

theorem mem_tagged_of_mem (h : c ∈ r.large) : c ∈ (p.tagged own f r).large := by
  have htag : c ∈ (p.tagAll own f p.coveringSources r).large := mem_tagAll_of_mem _ h
  rw [tagged, tagDefault]
  split
  · exact Route.mem_mark.mpr (.inr htag)
  · exact htag

theorem mem_sent_of_external (external : p.role.isExternal = true) :
    c ∈ (p.sent own r).large ↔
      (c ∈ p.outgoing ∨ c ∈ (evaluateRules own p.outbound r).2.large) ∧
        ¬ (c.admin = own ∧
          (c.function = 3 ∨ 61 ≤ c.function ∧ c.function ≤ 70 ∨ c.function = 1101)) := by
  rw [sent, if_pos external, shown, List.mem_filter, Route.mem_mark,
    LargeCommunity.not_isInternal_iff]

theorem mem_sent_of_internal (internal : p.role.isExternal = false) :
    c ∈ (p.sent own r).large ↔
      c ∈ p.outgoing ∨ c ∈ (evaluateRules own p.outbound r).2.large := by
  rw [sent, if_neg (by simp [internal]), Route.mem_mark]

end Policy

namespace Filter
open Command.perform (performAll)

/-- The parts of the filter to a peer: what decides whether a source covers the route, and, under
the condition that one does, rules, tags of our own and what is done for external peers. -/
theorem toPeer_parts {t : Tagger} {p : Policy} {f : Family} {program : Program}
    (h : ofPeer t p f .toPeer = .ok program) :
    ∃ bans sources rules leave,
      provided p.role.isExternal (exportBans t p) = .ok bans ∧
      p.coveringSources.mapM (redistribute t p f) = .ok sources ∧
      rules = (if p.outbound.isEmpty then [] else [.consult (rulesOf p .outbound) [.reject]]) ∧
      (p.role.isExternal = false → leave = []) ∧
      program.body = (.setDecided false :: bans ++ sources.flatten ++
        .comment "Default route" :: defaultExport p f) ++
          [.when .decided (rules ++ p.outgoing.map addLarge ++ leave ++ [.accept]), .reject] := by
  obtain ⟨cs, hcs, h⟩ := ok_of_bind h
  obtain rfl := Except.ok.inj h
  obtain ⟨bans, hbans, hcs⟩ := ok_of_bind hcs
  obtain ⟨sources, hsources, hcs⟩ := ok_of_bind hcs
  obtain ⟨granted, hgranted, hcs⟩ := ok_of_bind hcs
  obtain rfl := Except.ok.inj hcs
  obtain ⟨leave, hleave, hgranted⟩ := ok_of_bind hgranted
  obtain rfl := Except.ok.inj hgranted
  refine ⟨bans, sources, _, leave, hbans, hsources, rfl, fun internal => ?_, rfl⟩
  rw [internal] at hleave
  exact (Except.ok.inj hleave).symm

variable {own : UInt32} (peers : List Policy) {p : Policy} {f : Family}

theorem granted_performs (hp : p ∈ peers) (hn : (peers.map (·.name)).Nodup)
    {bans : List Command} {sources : List (List Command)}
    (hbans : provided p.role.isExternal (exportBans ⟨some own⟩ p) = .ok bans)
    (hsources : p.coveringSources.mapM (redistribute ⟨some own⟩ p f) = .ok sources) {r : Route}
    (h : p.exports own f r = true) :
    performAll (scope own peers) (scope own peers).calls 0 ⟨r, false⟩
        (.setDecided false :: bans ++ sources.flatten ++
          .comment "Default route" :: defaultExport p f) =
      (none, ⟨p.tagged own f r, true⟩) ∧
    performAll (scope own peers) (scope own peers).calls 0 ⟨p.tagged own f r, true⟩
        (if p.outbound.isEmpty then [] else [.consult (rulesOf p .outbound) [.reject]]) =
      (none, ⟨(evaluateRules own p.outbound (p.tagged own f r)).2, true⟩) := by
  have unbanned : p.isBanned own r = false := by
    cases hb : p.isBanned own r with
    | false => rfl
    | true =>
      rw [Policy.exports, hb] at h
      exact absurd h Bool.false_ne_true
  rw [Policy.exports_of_not_banned unbanned, Bool.and_eq_true, Bool.and_eq_true,
    Bool.not_eq_true'] at h
  obtain ⟨leave, covered, ruled⟩ := h
  have offer := offer_performs peers hbans hsources ⟨r, false⟩
  have rules := @outbound_performs own peers p hp hn ⟨p.tagged own f r, true⟩
  rw [unbanned, if_neg Bool.false_ne_true, leave, if_neg Bool.false_ne_true, covered] at offer
  rw [ruled, if_pos rfl] at rules
  exact ⟨offer, rules⟩

end Filter

open Peering.Filter (addLarge defaultExport ofPeer rulesOf scope)
open Peering.Filter.Command.perform (performAll)

/-- What a route that is sent to a peer carries. It is tagged by the sources that cover it, goes
through the rules of the peer and gets the tags of our own, and none of that takes anything off but
the rules. An external peer then gets of its large communities exactly those that are not ours or
are under none of the functions 3, 61 to 70 and 1101; a reflector of ours gets them all. -/
theorem internal_tags_withheld {own : UInt32} {peers : List Policy} {p : Policy} (hp : p ∈ peers)
    (hn : (peers.map (·.name)).Nodup) (f : Family) :
    ∃ program offer rules leave,
      ofPeer ⟨some own⟩ p f .toPeer = .ok program ∧
      program.body = offer ++
        [.when .decided (rules ++ p.outgoing.map addLarge ++ leave ++ [.accept]), .reject] ∧
      (∀ c ∈ rules, c = .consult (rulesOf p .outbound) [.reject]) ∧
      (p.role.isExternal = false → leave = []) ∧
      ∀ r out, program.run (scope own peers) r = (some .accept, out) → ∃ tagged ruled,
        performAll (scope own peers) (scope own peers).calls 0 ⟨r, false⟩ offer =
          (none, ⟨tagged, true⟩) ∧
        performAll (scope own peers) (scope own peers).calls 0 ⟨tagged, true⟩ rules =
          (none, ⟨ruled, true⟩) ∧
        tagged = p.tagged own f r ∧ ruled = (evaluateRules own p.outbound tagged).2 ∧
        (∀ c ∈ r.large, c ∈ tagged.large) ∧
        out.communities = ruled.communities ∧ out.extended = ruled.extended ∧
        (p.role.isExternal = true → ∀ c : LargeCommunity,
          c ∈ out.large ↔ (c ∈ p.outgoing ∨ c ∈ ruled.large) ∧
            ¬ (c.admin = own ∧
              (c.function = 3 ∨ 61 ≤ c.function ∧ c.function ≤ 70 ∨ c.function = 1101))) ∧
        (p.role.isExternal = false → ∀ c : LargeCommunity,
          c ∈ out.large ↔ c ∈ p.outgoing ∨ c ∈ ruled.large) := by
  obtain ⟨program, hprogram, runs⟩ := Filter.toPeer_runs peers hp hn
  obtain ⟨bans, sources, rules, leave, hbans, hsources, hrules, hleave, hbody⟩ :=
    Filter.toPeer_parts hprogram
  refine ⟨program, _, rules, leave, hprogram, hbody, ?_, hleave, fun r out haccept => ?_⟩
  · intro c hc
    rw [hrules] at hc
    split at hc
    · exact absurd hc List.not_mem_nil
    · exact List.mem_singleton.mp hc
  · obtain ⟨verdict, route⟩ := runs r
    rw [haccept] at verdict route
    have exported : p.exports own f r = true := by
      cases he : p.exports own f r with
      | true => rfl
      | false =>
        rw [he] at verdict
        exact nomatch verdict
    obtain rfl := route exported
    obtain ⟨offered, permitted⟩ := Filter.granted_performs peers hp hn hbans hsources exported
    refine ⟨_, _, offered, hrules ▸ permitted, rfl, rfl, fun c => Policy.mem_tagged_of_mem, ?_, ?_,
      fun external c => Policy.mem_sent_of_external external,
      fun internal c => Policy.mem_sent_of_internal internal⟩
    all_goals
      rw [Policy.sent]
      split <;> rfl

/-- A peer gets the route of a customer that asked for a prepend, and we tag what we send to it. The
action of the customer and what tags a route as ours or as that of the customer are taken off; tags
just beside the actions, and one of another network, are sent. -/
theorem internal_tags_withheld_peer :
    let p : Policy := { Policy.plain "a" .peer 64496 with
      outgoing := [⟨65000, 60, 5⟩, relationTag 65000 .own] }
    let r : Route := ⟨⟨.v4 134744064, 24⟩, .bgp, "bgp4_b", [3333], .v4 1, 750, [], [],
      [relationTag 65000 .customer, ⟨65000, 61, 64496⟩, ⟨65000, 71, 9⟩, ⟨3333, 3, 1⟩]⟩
    [p].map (·.name) = ["a"] ∧ p.role.isExternal = true ∧
      ∃ program out, ofPeer ⟨some 65000⟩ p .v4 .toPeer = .ok program ∧
        program.run (scope 65000 [p]) r = (some .accept, out) ∧
        (∀ c ∈ [⟨65000, 60, 5⟩, ⟨65000, 71, 9⟩, ⟨3333, 3, 1⟩], c ∈ out.large) ∧
        ∀ c ∈ [relationTag 65000 .own, relationTag 65000 .customer, ⟨65000, 61, 64496⟩],
          c ∉ out.large := by
  intro p r
  have external : p.role.isExternal = true := rfl
  obtain ⟨program, _, _, _, hprogram, _, _, _, withheld⟩ := @internal_tags_withheld 65000 [p] p
    (List.mem_singleton_self p) (List.pairwise_singleton _ _) .v4
  obtain ⟨program', hprogram', runs⟩ := @Filter.toPeer_runs 65000 [p] p .v4
    (List.mem_singleton_self p) (List.pairwise_singleton _ _)
  obtain rfl := Except.ok.inj (hprogram.symm.trans hprogram')
  obtain ⟨verdict, _⟩ := runs r
  have exported : p.exports 65000 .v4 r = true := by decide +kernel
  rw [exported, if_pos rfl] at verdict
  have haccept : program.run (scope 65000 [p]) r =
      (some .accept, (program.run (scope 65000 [p]) r).2) := Prod.ext verdict rfl
  obtain ⟨tagged, ruled, _, _, htagged, hruled, _, _, _, kept, _⟩ := withheld r _ haccept
  have known : ruled.large = r.large := by
    rw [hruled, htagged]
    decide +kernel
  simp only [known] at kept
  refine ⟨rfl, external, program, _, hprogram, haccept, fun c hc => ?_, fun c hc => ?_⟩
  · rw [kept external]
    revert c
    decide
  · rw [kept external]
    revert c
    decide

end Peering
