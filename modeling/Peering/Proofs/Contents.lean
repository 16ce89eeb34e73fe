import Peering.Proofs.AllowLists
import Peering.Proofs.Symbols

/-!
What declarations a router configuration has, apart from their order, and what resolution ensures of
the peers in it.
-/
namespace Peering
open Peering.Filter (rulesOfPeer sharedOf programsOf)

inductive Router.Declares (r : Router) : Declaration → Prop
  | blank : r.Declares .blank
  | headline :
    r.Declares (.comment s!"BGP policy for AS{r.asn.toNat}, generated by bgp_policy. Do not edit.")
  | routerId {a : Address4} (h : r.routerId = some a) : r.Declares (.routerId a)
  | constant (c : Constant) : r.Declares (.constant c (c.bound.getD r.asn.toNat))
  | set {l : NamedList} (h : l ∈ globalLists) : r.Declares (.list l)
  | peerSet {p : Policy} (hp : p ∈ r.peers) {l : ListName} (h : l ∈ p.listNames) :
    r.Declares (.list (p.listed l))
  | shared {g : Filter.Function} (h : g ∈ sharedOf r.asn) : r.Declares (.function g)
  | table (f : Family) : r.Declares (.table (.main f))
  | peerTable {p : Policy} (hp : p ∈ r.peers) {f : Family} (hf : p.hasFamily f = true) :
    r.Declares (.table (.peer f p.name))
  | originate {f : Family} (h : (r.originate.filter fun n => n.family = f) ≠ []) :
    r.Declares (.originate f (r.originate.filter fun n => n.family = f))
  | toMaster (f : Family) : r.Declares (.filter (Wiring.toMaster f))
  | fromMaster (f : Family) : r.Declares (.filter (Wiring.fromMaster f r.fromMaster))
  | masterPipe (f : Family) :
    r.Declares (.pipe ⟨.masterPipe f, .main f, .master f, .toMaster f, .fromMaster f⟩)
  | peerTitle {p : Policy} (hp : p ∈ r.peers) :
    r.Declares (.comment s!"Peer {p.name}: AS{p.asn.toNat} ({p.role.name})")
  | rule {p : Policy} (hp : p ∈ r.peers) {g : Filter.Function} (h : g ∈ rulesOfPeer p) :
    r.Declares (.function g)
  | filter {p : Policy} (hp : p ∈ r.peers) {f : Family} (hf : p.hasFamily f = true)
    {g : Filter.Program} (h : g ∈ programsOf r.asn p f) : r.Declares (.filter g)
  | peerPipe {p : Policy} (hp : p ∈ r.peers) {f : Family} (hf : p.hasFamily f = true) :
    r.Declares (.pipe (Wiring.peerPipe p f))
  | session {p : Policy} (hp : p ∈ r.peers) {f : Family} {s : Session}
    (h : Wiring.session? p f r.asn = some s) : r.Declares (.session s)

namespace Router
variable {r : Router} {d : Declaration}

theorem hasFamily_of_session {p : Policy} {f : Family} {asn : UInt32} {s : Session}
    (h : Wiring.session? p f asn = some s) : p.hasFamily f = true := by
  obtain ⟨neighbor, hneighbor, _⟩ := Option.map_eq_some_iff.mp h
  rw [Policy.hasFamily, hneighbor]
  rfl

theorem declares_of_mem_wiring {f : Family} (h : d ∈ r.wiringLayout f) : r.Declares d := by
  simp only [wiringLayout, Wiring.tables, Wiring.originate, Wiring.master, List.mem_append,
    List.mem_cons, List.mem_map, List.mem_filter, List.not_mem_nil, or_false] at h
  obtain (((rfl | ⟨p, ⟨hp, hf⟩, rfl⟩) | horiginate) | rfl | rfl | rfl) | rfl := h
  · exact .table f
  · exact .peerTable hp hf
  · split at horiginate
    · exact absurd horiginate List.not_mem_nil
    · rename_i hne
      obtain rfl := List.mem_singleton.mp horiginate
      exact .originate hne
  · exact .toMaster f
  · exact .fromMaster f
  · exact .masterPipe f
  · exact .blank

theorem declares_of_mem_peer {p : Policy} (hp : p ∈ r.peers) (h : d ∈ r.peerLayout p) :
    r.Declares d := by
  simp only [peerLayout, familyLayout, List.mem_append, List.mem_cons, List.mem_map,
    List.mem_flatMap, Option.mem_toList, Option.map_eq_some_iff, List.not_mem_nil, or_false] at h
  obtain ((rfl | ⟨g, hg, rfl⟩) | ⟨f, hf, ⟨g, hg, rfl⟩ | rfl | ⟨s, hs, rfl⟩⟩) | rfl := h
  · exact .peerTitle hp
  · exact .rule hp hg
  · exact .filter hp (List.mem_filter.mp hf).2 hg
  · exact .peerPipe hp (List.mem_filter.mp hf).2
  · exact .session hp hs
  · exact .blank

theorem declares_of_mem_header (h : d ∈ r.header) : r.Declares d := by
  rw [header] at h
  obtain rfl | rfl | hid := List.mem_cons.mp h |>.imp_right List.mem_cons.mp
  · exact .headline
  · exact .blank
  · cases hr : r.routerId with
    | none => simp [hr] at hid
    | some a =>
      rw [hr] at hid
      obtain rfl | rfl := List.mem_pair.mp hid
      · exact .routerId hr
      · exact .blank

theorem declares_of_mem (h : d ∈ r.layout) : r.Declares d := by
  simp only [layout, constants, peerLists_eq, List.mem_append, List.mem_map, List.mem_flatMap,
    List.mem_singleton] at h
  obtain (((((((hd | ⟨c, _, rfl⟩ | ⟨l, hl, rfl⟩) | ⟨p, hp, l, hl, rfl⟩) | rfl) | ⟨g, hg, rfl⟩) |
    rfl) | ⟨f, _, hd⟩) | ⟨p, hp, hd⟩) := h
  · exact declares_of_mem_header hd
  · exact .constant c
  · exact .set hl
  · exact .peerSet hp hl
  · exact .blank
  · exact .shared hg
  · exact .blank
  · exact declares_of_mem_wiring hd
  · exact declares_of_mem_peer hp hd

theorem peerSet_mem_layout {p : Policy} (hp : p ∈ r.peers) {l : ListName} (h : l ∈ p.listNames) :
    .list (p.listed l) ∈ r.layout := by
  simp only [layout, peerLists_eq, List.mem_append, List.mem_flatMap]
  exact .inl (.inl (.inl (.inl (.inl (.inr ⟨p, hp, List.mem_map_of_mem h⟩)))))

theorem mem_layout_of_peer {p : Policy} (hp : p ∈ r.peers) (h : d ∈ r.peerLayout p) :
    d ∈ r.layout :=
  List.mem_append_right _ (List.mem_flatMap.mpr ⟨p, hp, h⟩)

theorem function_mem_layout {p : Policy} (hp : p ∈ r.peers) {g : Filter.Function}
    (hg : g ∈ rulesOfPeer p) : .function g ∈ r.layout := by
  refine mem_layout_of_peer hp (List.mem_append_left _ (List.mem_append_left _ ?_))
  exact List.mem_cons_of_mem _ (List.mem_map_of_mem hg)

theorem mem_layout_of_family {p : Policy} (hp : p ∈ r.peers) {f : Family}
    (hf : p.hasFamily f = true) (h : d ∈ r.familyLayout p f) : d ∈ r.layout := by
  refine mem_layout_of_peer hp (List.mem_append_left _ (List.mem_append_right _ ?_))
  exact List.mem_flatMap.mpr ⟨f, List.mem_filter.mpr ⟨f.mem_all, hf⟩, h⟩

theorem program_mem_layout {p : Policy} (hp : p ∈ r.peers) {f : Family}
    (hf : p.hasFamily f = true) {stage : Stage} {g : Filter.Program}
    (hg : Filter.ofPeer ⟨some r.asn⟩ p f stage = .ok g) :
    .filter g ∈ r.layout := by
  have listed : (.ok g : Except Error Filter.Program) ∈ (programsOf r.asn p f).map .ok :=
    mapM_eq_ok.mp (Filter.mapM_ofPeer r.asn p f) ▸ List.mem_map.mpr
      ⟨stage, by cases stage <;> decide, hg⟩
  obtain ⟨_, hmem, heq⟩ := List.mem_map.mp listed
  obtain rfl := Except.ok.inj heq
  exact mem_layout_of_family hp hf (List.mem_append_left _ (List.mem_map_of_mem hmem))

theorem session_mem_layout {p : Policy} (hp : p ∈ r.peers) {f : Family} {s : Session}
    (h : Wiring.session? p f r.asn = some s) : .session s ∈ r.layout := by
  refine mem_layout_of_family hp (hasFamily_of_session h) (List.mem_append_right _ ?_)
  rw [h]
  exact List.mem_cons_of_mem _ (List.mem_singleton_self _)

end Router

namespace Policy

/-- What resolution ensures of a policy: a name fit for one, a neighbor, no group without items. -/
structure Proper (p : Policy) : Prop where
  named : Policy.validName p.name = true
  neighbored : ∃ f, p.hasFamily f = true
  fullAsns : ∀ g ∈ p.asnGroups, g.items ≠ []
  fullNets : ∀ f, ∀ g ∈ p.groups f, g.items ≠ []

theorem Resolved.proper {ctx : Context} {reg : Registry} {name : String} {s : Settings.Peer}
    {p : Policy} (h : p.Resolved ctx reg name s) : p.Proper := by
  obtain ⟨_, _, held⟩ := Allowed.holds_resolve h.allowed
  refine ⟨h.validName, h.exists_hasFamily, held.fullAsns, fun f g hg => held.fullNets f g ?_⟩
  exact (nets_allowed f).symm ▸ hg

theorem Proper.of_resolve {s : Settings.Router} {reg : Registry} {rt : Router}
    (h : Router.resolve s reg = .ok rt) : ∀ p ∈ rt.peers, p.Proper := by
  intro p hp
  obtain ⟨_, _, resolved⟩ := Router.resolved_peer h hp
  exact resolved.proper

section Lists
variable {p : Policy}

theorem full_listed (h : p.Proper) (l : ListName) : ∀ g ∈ (p.listed l).groups, g.items ≠ [] := by
  have mapped : ∀ {α : Type} {text : α → String} {gs : List (Group α)},
      (∀ g ∈ gs, g.items ≠ []) → ∀ g ∈ gs.map (·.map text), g.items ≠ [] := by
    intro α text gs full
    rw [List.forall_mem_map]
    exact fun g hg => by simpa [Group.map] using full g hg
  cases l with
  | peerNets _ f => exact mapped (h.fullNets f)
  | _ => exact mapped h.fullAsns

theorem mem_listNames_iff (h : p.Proper) {l : ListName} : l ∈ p.listNames ↔
    l ∈ ListName.peerAsns p.name :: Family.all.map (.peerNets p.name) ∧
      (p.listed l).groups ≠ [] := by
  rw [listNames, List.mem_filter, Bool.not_eq_true', NamedList.isEmpty, List.all_eq_false]
  refine and_congr_right fun _ => ⟨?_, fun hne => ?_⟩
  · rintro ⟨g, hg, _⟩
    exact List.ne_nil_of_mem hg
  · obtain ⟨g, hg⟩ := List.exists_mem_of_ne_nil _ hne
    exact ⟨g, hg, by simpa using full_listed h l g hg⟩

theorem peerAsns_mem_listNames_iff (h : p.Proper) :
    .peerAsns p.name ∈ p.listNames ↔ p.asnGroups ≠ [] := by
  rw [mem_listNames_iff h, and_iff_right List.mem_cons_self]
  simp [listed]

theorem peerNets_mem_listNames_iff (h : p.Proper) (f : Family) :
    .peerNets p.name f ∈ p.listNames ↔ p.groups f ≠ [] := by
  rw [mem_listNames_iff h,
    and_iff_right (List.mem_cons_of_mem _ (List.mem_map_of_mem f.mem_all))]
  simp [listed]

end Lists

end Policy

end Peering
