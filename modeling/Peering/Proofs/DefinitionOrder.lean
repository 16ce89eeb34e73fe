import Peering.Proofs.Codes
import Peering.Proofs.References

/-!
Definitions come before uses. Every name in the text of a statement is that of something which an
earlier statement defines; what depends on the documents is defined exactly where it is used.
-/
namespace Peering
open Peering.Filter (ofPeer rulesOf)

theorem Symbol.Fit.proper {s : Symbol} (h : s.Fit) : s.Proper := by
  cases s with
  | list l => exact h
  | function f =>
    intro b hb
    obtain ⟨p, d, hbase, _⟩ := h b hb
    exact ⟨p, d, hbase⟩
  | _ => trivial

theorem Symbol.Fit.eq_master {s : Symbol} (h : s.Fit) (hs : s.name ∈ Router.builtin) :
    ∃ f, s = .table (.master f) := by
  obtain ⟨f, _, hname⟩ := List.mem_map.mp hs
  have master : (Symbol.table (.master f)).Proper := trivial
  have same : (Symbol.table (.master f)).asPeer = s.asPeer :=
    (Symbol.name_eq_iff master h.proper).mp hname
  cases s with
  | table t => exact ⟨f, same.symm⟩
  | _ => exact nomatch same

namespace Router
variable {r : Router} {d : Declaration}

theorem originate_of_protocol (h : r.Declares d) {s : Symbol} (hs : s ∈ d.mentions)
    (hk : s.kind = .protocol) : ∃ f, s = .protocol (.originate f) := by
  have listed {ss : List Symbol} (hss : ss.map Symbol.kind ⊆ [.constant, .list, .function, .filter,
      .table]) (hs : s ∈ ss) : ∃ f, s = .protocol (.originate f) := by
    have mem := hss (List.mem_map_of_mem hs)
    rw [hk] at mem
    exact absurd mem (by decide)
  cases h with
  | blank | headline | routerId | peerTitle | constant | set | peerSet | table | peerTable
  | toMaster => exact nomatch hs
  | shared hg =>
    obtain ⟨f, _, hmentions, _⟩ := Filter.mem_sharedOf hg
    rw [Declaration.mentions, hmentions] at hs
    refine listed ?_ hs
    cases f <;> simp [SharedFunction.mentions, Symbol.kind]
  | originate | masterPipe | peerPipe | session =>
    exact listed (by simp [Declaration.mentions, Symbol.kind]) hs
  | fromMaster f =>
    exact ((Wiring.fromMaster_sound (A := fun _ => False) f r.fromMaster).mentions _ hs).elim
  | rule _ hg =>
    obtain ⟨_, _, sound⟩ := Filter.rulesOfPeer_sound hg
    obtain rfl | ⟨_, rfl⟩ := sound.mentions s hs <;> cases hk
  | filter _ _ hg =>
    obtain ⟨stage, hstage⟩ := Filter.mem_programsOf hg
    cases ((Filter.ofPeer_sound stage).of_eq_ok hstage).mentions s hs with
    | originate _ f => exact ⟨f, rfl⟩
    | shared | asns | nets | rules => cases hk

/-- The words in the code of a declaration are its own name and those of what it uses. -/
theorem spells_codes (proper : ∀ p ∈ r.peers, p.Proper) (h : r.Declares d) :
    ∀ t ∈ d.codes, Spells (fun w => d.name? = some w ∨ ∃ s ∈ d.uses, s.name = w) t := by
  have brackets : identifiers "[]" = [] := by decide
  refine legible_codes proper h (legible_spells _) (fun n hn hw => hw.spells (.inl hn))
    (fun s hs hw => ?_) fun _ w hw => absurd (brackets ▸ hw) List.not_mem_nil
  by_cases hk : s.kind = .protocol
  · obtain ⟨f, rfl⟩ := originate_of_protocol h hs hk
    have none : identifiers (Protocol.originate f).name = [] := by cases f <;> decide
    exact fun w hword => absurd (none ▸ hword) List.not_mem_nil
  · exact hw.spells (.inr ⟨s, List.mem_filter.mpr ⟨hs, by simpa using hk⟩, rfl⟩)

variable {p : Policy}

theorem every_mem_layout_iff (hn : (r.peers.map (·.name)).Nodup) (hp : p ∈ r.peers)
    (d : Settings.Direction) :
    (∃ every, .function every ∈ r.layout ∧ every.name = .rule (rulesOf p d)) ↔
      p.rules d ≠ [] := by
  rw [← Filter.rulesOf_mem_names_iff, List.mem_map]
  constructor
  · rintro ⟨every, hmem, hname⟩
    have hbase : Filter.base? every.name = some (ruleBase p.name d) := by rw [hname]; rfl
    cases declares_of_mem hmem with
    | shared hg =>
      obtain ⟨f, hf, _⟩ := Filter.mem_sharedOf hg
      exact absurd (hf.symm.trans hname) (by simp)
    | @rule q hq _ hg =>
      -- The base of a function tells whose it is, and peers have different names.
      obtain ⟨_, hother, _⟩ := Filter.rulesOfPeer_sound hg
      have hnames := (ruleBase_inj (Option.some.inj (hother.symm.trans hbase))).1
      obtain rfl : q = p := List.inj_on_of_nodup_map hn hq hp hnames
      exact ⟨every, hg, hname⟩
  · rintro ⟨every, hmem, hname⟩
    exact ⟨every, function_mem_layout hp hmem, hname⟩

theorem listed_mem_layout (proper : p.Proper) (hp : p ∈ r.peers) {stage : Stage} {l : ListName}
    (h : p.Knows stage (.list l)) :
    stage = .receive ∧ .list (p.listed l) ∈ r.layout ∧ (p.listed l).isEmpty = false := by
  obtain ⟨rfl, hl⟩ := h.of_list
  have listed : l ∈ p.listNames := by
    obtain ⟨rfl, hne⟩ | ⟨f, rfl, hne⟩ := hl
    · exact (Policy.peerAsns_mem_listNames_iff proper).mpr hne
    · exact (Policy.peerNets_mem_listNames_iff proper f).mpr hne
  exact ⟨rfl, peerSet_mem_layout hp listed, by simpa using (List.mem_filter.mp listed).2⟩

end Router

/-- What a declaration uses is defined by an earlier one, master tables apart, and its code has no
other words in it. Of the filters of a peer only that for received routes uses a list of the peer,
and only if the list is defined and not empty. The function of all rules of a direction is called by
the filter for that direction exactly if it is defined. -/
theorem definitions_precede_uses {s : Settings.Router} {reg : Registry} {rt : Router}
    (hs : (s.peers.map Prod.fst).Nodup) (h : Router.resolve s reg = .ok rt) :
    ∃ ds, rt.declarations = .ok ds ∧
      (∀ before d after, ds = before ++ d :: after →
        (∀ x ∈ d.uses, x.name ∈ Declaration.names before ∨ ∃ f, x = .table (.master f)) ∧
        ∀ t ∈ d.codes, Spells (fun w => d.name? = some w ∨ ∃ x ∈ d.uses, x.name = w) t) ∧
      ∀ p ∈ rt.peers, ∀ f stage g, ofPeer ⟨some rt.asn⟩ p f stage = .ok g →
        (p.hasFamily f = true → .filter g ∈ ds) ∧
        (∀ l, .list l ∈ (Declaration.filter g).uses →
          stage = .receive ∧ .list (p.listed l) ∈ ds ∧ (p.listed l).isEmpty = false) ∧
        ∀ d, .function (.rule (rulesOf p d)) ∈ (Declaration.filter g).uses ↔
          stage = d.stage ∧ ∃ every, .function every ∈ ds ∧ every.name = .rule (rulesOf p d) := by
  have proper := Policy.Proper.of_resolve h
  have names := Router.nodup_names_resolve hs h
  have grounded := Router.grounded_layout proper
  refine ⟨rt.layout, rt.declarations_eq, fun before d after hds => ?_, fun p hp f stage g hg => ?_⟩
  · have declared : rt.Declares d :=
      Router.declares_of_mem (hds ▸ List.mem_append_right _ List.mem_cons_self)
    refine ⟨fun x hx => ?_, Router.spells_codes proper declared⟩
    have fit := Router.fit_of_mem_mentions proper declared x (List.mem_of_mem_filter hx)
    rw [hds] at grounded
    exact (grounded.defined hx).symm.imp_right fit.eq_master
  · have sound := (Filter.ofPeer_sound stage).of_eq_ok hg
    refine ⟨fun hf => Router.program_mem_layout hp hf hg, fun l hl => ?_, fun d => ?_⟩
    · exact Router.listed_mem_layout (proper p hp) hp (sound.mentions _ (List.mem_of_mem_filter hl))
    · rw [Router.every_mem_layout_iff names hp d, ← Filter.mem_mentions_rulesOf_iff hg d,
        Declaration.uses, List.mem_filter, Declaration.mentions]
      exact and_iff_left rfl

/-- A customer to which nothing is sent: the filter for sent routes comes after the function of all
rules for these, and there is no such function for received routes. -/
theorem definitions_precede_uses_outbound :
    let s : Settings.Router := .plain 65000 [("a", { Settings.Peer.plain .customer 3333 with
      rules := [⟨.outbound, .everything, .reject⟩] })]
    let p : Policy := { Policy.plain "a" .customer 3333 with
      outbound := [⟨.outbound, ⟨none, none, none, none, none⟩, .reject⟩] }
    let rt : Router := .plain 65000 [p]
    Router.resolve s .empty = .ok rt ∧
      ∃ ds g, rt.declarations = .ok ds ∧ ofPeer ⟨some rt.asn⟩ p .v4 .toPeer = .ok g ∧
        .filter g ∈ ds ∧
        (∀ before after, ds = before ++ .filter g :: after →
          "bgp_a_export_actions" ∈ Declaration.names before) ∧
        ¬ ∃ every, .function every ∈ ds ∧ every.name = .rule (rulesOf p .inbound) := by
  intro s p rt
  have resolves : Router.resolve s .empty = .ok rt := by
    with_unfolding_all rfl
  have hp : p ∈ rt.peers := List.mem_singleton_self p
  obtain ⟨ds, hds, ordered, exact⟩ := definitions_precede_uses (by decide) resolves
  obtain ⟨receive, hreceive⟩ := Filter.exists_ofPeer rt.asn p .v4 .receive
  obtain ⟨g, hg⟩ := Filter.exists_ofPeer rt.asn p .v4 .toPeer
  obtain ⟨_, _, inbound⟩ := exact p hp .v4 .receive receive hreceive
  obtain ⟨emitted, _, _⟩ := exact p hp .v4 .toPeer g hg
  refine ⟨resolves, ds, g, hds, hg, emitted rfl, fun before after hsplit => ?_, fun h => ?_⟩
  · have rules : p.rules .outbound ≠ [] := List.cons_ne_nil _ _
    have consults : .function (.rule (rulesOf p .outbound)) ∈ (Declaration.filter g).uses :=
      List.mem_filter.mpr ⟨(Filter.mem_mentions_rulesOf_iff hg .outbound).mpr ⟨rfl, rules⟩, rfl⟩
    obtain defined | ⟨_, hmaster⟩ := (ordered before _ after hsplit).1 _ consults
    · exact defined
    · exact nomatch hmaster
  · have consults := List.mem_of_mem_filter ((inbound .inbound).mpr ⟨rfl, h⟩)
    have rules := ((Filter.mem_mentions_rulesOf_iff hreceive .inbound).mp consults).2
    exact rules rfl

end Peering
