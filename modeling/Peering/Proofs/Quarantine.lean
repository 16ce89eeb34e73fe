import Peering.Proofs.Receiving
import Peering.Proofs.Resolution

/-!
Peers that nothing is taken from: those in quarantine, and route collectors. They are held back by a
tag that is there before the rules of the peer are asked, and rules can take tags off.
-/
namespace Peering

namespace Policy

/-- Everything from the peer is tagged with the reason, whatever the route. -/
def IsHeld (p : Policy) (reason : Reason) : Prop :=
  reason = .quarantined ∧ p.quarantine = true ∨
    reason = .routecollector ∧ p.role = .routeCollector

variable {own : UInt32} {p : Policy} {f : Family} {r : Route} {reason : Reason}

theorem mem_failures_of_isHeld (held : p.IsHeld reason) : reason ∈ p.failures own f r := by
  rw [failures]
  obtain ⟨rfl, hq⟩ | ⟨rfl, hrole⟩ := held
  · exact List.mem_append_right _ (List.mem_append_right _ (Reason.mem_given.mpr ⟨rfl, hq⟩))
  · have hgiven : Reason.routecollector ∈
        Reason.routecollector.given (decide (p.role = .routeCollector)) :=
      Reason.mem_given.mpr ⟨rfl, decide_eq_true hrole⟩
    refine List.mem_append_left _ (List.mem_append_left _ ?_)
    exact List.mem_append_left _ (List.mem_append_right _ hgiven)

theorem failureTag_mem_judged (held : p.IsHeld reason) :
    failureTag own reason ∈ (p.judged own f r).large :=
  mem_judged.mpr (.inl ⟨reason, mem_failures_of_isHeld held, rfl⟩)

theorem isFiltered_received :
    (p.received own f r).isFiltered own = true ↔
      (evaluateRules own p.inbound (p.judged own f r)).1 = false ∨
        ∃ c, (c ∈ p.incoming ∨ c ∈ (evaluateRules own p.inbound (p.judged own f r)).2.large) ∧
          c.admin = own ∧ c.function = TagKind.filtered.code := by
  rw [Route.isFiltered_iff]
  constructor
  · intro h
    obtain ⟨c, hc, htag⟩ := h
    obtain hin | ⟨hrefused, _⟩ | hruled := mem_received.mp hc
    · exact .inr ⟨c, .inl hin, htag⟩
    · exact .inl hrefused
    · exact .inr ⟨c, .inr hruled, htag⟩
  · intro h
    obtain hrefused | ⟨c, hin | hruled, htag⟩ := h
    · exact ⟨_, mem_received.mpr (.inr (.inl ⟨hrefused, rfl⟩)), rfl, rfl⟩
    · exact ⟨c, mem_received.mpr (.inl hin), htag⟩
    · exact ⟨c, mem_received.mpr (.inr (.inr hruled)), htag⟩

theorem isFiltered_of_kept (held : p.IsHeld reason)
    (kept : ∀ rule ∈ p.inbound, ¬ rule.Removes (failureTag own reason)) :
    (p.received own f r).isFiltered own = true := by
  rw [isFiltered_received]
  exact .inr ⟨failureTag own reason,
    .inr (mem_evaluateRules_of_mem (failureTag_mem_judged held) kept), rfl, rfl⟩

end Policy

/-- A route from a peer that is held back gets into the main table exactly if the rules of the peer
let it through and neither they nor the tags of the peer leave a reason on it. For that some rule
has to take off the very tag that holds the peer back. -/
theorem held_peer_decision {s : Settings.Router} {reg : Registry} {rt : Router}
    (hs : (s.peers.map Prod.fst).Nodup) (hrt : Router.resolve s reg = .ok rt) {p : Policy}
    (hp : p ∈ rt.peers) {reason : Reason} (held : p.IsHeld reason) (f : Family) :
    ∃ receive toMain,
      Filter.ofPeer ⟨some rt.asn⟩ p f .receive = .ok receive ∧
      Filter.ofPeer ⟨some rt.asn⟩ p f .toMain = .ok toMain ∧
      ∀ r, ∃ r₁ verdict,
        receive.run (Filter.scope rt.asn rt.peers) r = (some .accept, r₁) ∧
        toMain.run (Filter.scope rt.asn rt.peers) r₁ = (some verdict, r₁) ∧
        (verdict = .accept ∨ verdict = .reject) ∧
        (verdict = .reject ↔
          (evaluateRules rt.asn p.inbound (p.judged rt.asn f r)).1 = false ∨
          ∃ c, (c ∈ p.incoming ∨
              c ∈ (evaluateRules rt.asn p.inbound (p.judged rt.asn f r)).2.large) ∧
            c.admin = rt.asn ∧ c.function = TagKind.filtered.code) ∧
        ((∀ rule ∈ p.inbound, ¬ rule.Removes (failureTag rt.asn reason)) → verdict = .reject) := by
  have names := Router.nodup_names_resolve hs hrt
  obtain ⟨receive, hreceive, receives⟩ := Filter.receive_runs rt.peers hp names
  obtain ⟨toMain, htoMain, decides⟩ := Filter.toMain_runs rt.peers
  refine ⟨receive, toMain, hreceive, htoMain, fun r => ⟨_, _, receives r, decides _, ?_, ?_, ?_⟩⟩
  · split
    · exact .inr rfl
    · exact .inl rfl
  · rw [← Policy.isFiltered_received]
    split
    · rename_i h
      simp [h]
    · rename_i h
      simp [h]
  · intro kept
    rw [Policy.isFiltered_of_kept held kept]
    rfl

/-- A rule takes the tag of the quarantine off, and the route gets into the main table. -/
theorem held_peer_decision_lifted :
    let lift : Rule := ⟨.inbound, ⟨none, none, none, none, none⟩,
      .update ⟨.empty, .empty, ⟨[], [failureTag 65000 .quarantined]⟩, none⟩⟩
    let p : Policy := { Policy.plain "a" .peer 3333 with quarantine := true, inbound := [lift] }
    Router.resolve (.plain 65000 [("a", { Settings.Peer.plain .peer 3333 with
        quarantine := true
        rules := [⟨.inbound, .everything,
          .update ⟨none, none, some ⟨[], ["65000:1101:17"]⟩, none⟩⟩] })]) .empty =
        .ok (.plain 65000 [p]) ∧
      p.IsHeld .quarantined ∧
      ∃ receive toMain r r₁,
        Filter.ofPeer ⟨some 65000⟩ p .v4 .receive = .ok receive ∧
        Filter.ofPeer ⟨some 65000⟩ p .v4 .toMain = .ok toMain ∧
        receive.run (Filter.scope 65000 [p]) r = (some .accept, r₁) ∧
        toMain.run (Filter.scope 65000 [p]) r₁ = (some .accept, r₁) := by
  intro lift p
  have resolves : Router.resolve (.plain 65000 [("a", { Settings.Peer.plain .peer 3333 with
        quarantine := true
        rules := [⟨.inbound, .everything,
          .update ⟨none, none, some ⟨[], ["65000:1101:17"]⟩, none⟩⟩] })]) .empty =
        .ok (.plain 65000 [p]) := by
    with_unfolding_all rfl
  have held : p.IsHeld .quarantined := .inl ⟨rfl, rfl⟩
  obtain ⟨receive, toMain, h₁, h₂, decides⟩ :=
    held_peer_decision (by decide) resolves (List.mem_singleton_self p) held .v4
  let r : Route := ⟨⟨.v4 134744064, 24⟩, .bgp, "bgp4_a", [3333], .v4 3221225985, 100, [], [], []⟩
  have lifted : (p.received 65000 .v4 r).isFiltered 65000 = false := by decide +kernel
  obtain ⟨r₁, verdict, hreceive, hmain, hends, hreject, _⟩ := decides r
  have accepted : verdict = .accept := by
    obtain h | h := hends
    · exact h
    · exact nomatch lifted.symm.trans (Policy.isFiltered_received.mpr (hreject.mp h))
  rw [accepted] at hmain
  exact ⟨resolves, held, receive, toMain, r, r₁, h₁, h₂, hreceive, hmain⟩

end Peering
