import Peering.Proofs.Keys
import Peering.Proofs.Layout

/-!
What one more peer changes. Its lists, its tables and its block are put in at the place of its name;
of what was there before nothing is changed, moved or left out.
-/
namespace Peering

/-- The settings with one more peer, at the place of its name. -/
def Settings.Router.addPeer (s : Router) (name : String) (peer : Peer) : Router :=
  { s with peers := Document.Codec.insertEntry (fun a b => decide (a < b)) name peer s.peers }

def Wiring.ownTable (f : Family) (p : Policy) : List Declaration :=
  if p.hasFamily f then [.table (.peer f p.name)] else []

theorem Wiring.tables_eq (f : Family) (peers : List Policy) :
    tables f peers = .table (.main f) :: peers.flatMap (ownTable f) := by
  have own : peers.flatMap (ownTable f) =
      (peers.filter (·.hasFamily f)).map fun p => .table (.peer f p.name) := by
    induction peers with
    | nil => rfl
    | cons p peers ih =>
      rw [List.flatMap_cons, ih, ownTable]
      cases h : p.hasFamily f <;> simp [h]
  rw [own]
  rfl

namespace Router

theorem names_of_peerLists (p : Policy) : ∃ lists : List NamedList, peerLists p = lists.map .list ∧
    (lists.map (·.name)).Sublist [(ListName.peerAsns p.name).name,
      (ListName.peerNets p.name .v4).name, (ListName.peerNets p.name .v6).name] :=
  ⟨_, rfl, List.filter_sublist.map _⟩

theorem resolve_addPeer {s : Settings.Router} {reg : Registry} {name : String}
    {peer : Settings.Peer} {larger : Router} (fresh : name ∉ s.peers.map Prod.fst)
    (h : resolve (s.addPeer name peer) reg = .ok larger) :
    ∃ before p after, larger.peers = before ++ p :: after ∧
      Policy.resolve (context s) reg name peer = .ok p ∧
      resolve s reg = .ok { larger with peers := before ++ after } := by
  obtain ⟨own, horiginate, hpeers, hasn, hid, hmaster⟩ := resolve_eq_ok_iff.mp h
  obtain ⟨front, back, hs, hinsert⟩ := Document.insertEntry_of_fresh fresh peer
  have resolved := mapM_eq_ok.mp hpeers
  rw [Settings.Router.addPeer, hinsert, List.map_append, List.map_cons] at resolved
  obtain ⟨before, rest, hlarger, hbefore, hrest⟩ := List.map_eq_append_iff.mp resolved.symm
  obtain ⟨p, after, rfl, hp, hafter⟩ := List.map_eq_cons_iff.mp hrest
  refine ⟨before, p, after, hlarger, hp.symm, resolve_eq_ok_iff.mpr
    ⟨own, horiginate, mapM_eq_ok.mpr ?_, hasn, hid, hmaster⟩⟩
  rw [hs, List.map_append, List.map_append, hbefore, hafter]
  rfl

/-- The declarations without a peer are those with it, less what is its own. -/
theorem layout_without {r : Router} {before after : List Policy} {p : Policy}
    (h : r.peers = before ++ p :: after) : ∃ a b c d e,
      ({ r with peers := before ++ after } : Router).layout = a ++ b ++ c ++ d ++ e ∧
      r.layout = a ++ peerLists p ++ b ++ Wiring.ownTable .v4 p ++ c ++ Wiring.ownTable .v6 p ++
        d ++ r.peerLayout p ++ e := by
  let own f := Wiring.ownTable f
  let joints f := Wiring.originate f r.originate ++ Wiring.master f r.fromMaster ++ [.blank]
  refine ⟨r.header ++ constants r.asn ++ before.flatMap peerLists,
    after.flatMap peerLists ++ [.blank] ++ (Filter.sharedOf r.asn).map .function ++ [.blank] ++
      .table (.main .v4) :: before.flatMap (own .v4),
    after.flatMap (own .v4) ++ joints .v4 ++ .table (.main .v6) :: before.flatMap (own .v6),
    after.flatMap (own .v6) ++ joints .v6 ++ before.flatMap r.peerLayout,
    after.flatMap r.peerLayout, ?_, ?_⟩
  · have blocks : ({ r with peers := before ++ after } : Router).peerLayout = r.peerLayout := rfl
    have head : ({ r with peers := before ++ after } : Router).header = r.header := rfl
    rw [layout, blocks, head]
    simp [wiringLayout, Family.all, Wiring.tables_eq, own, joints]
  · rw [layout, h]
    simp [wiringLayout, Family.all, Wiring.tables_eq, own, joints, h]

end Router

/-- Adding a peer is local. Where settings with one more peer are accepted, those without it are
too, to the same policies. The declarations without the peer are, in their order, those with it less
its own: its lists, at most three and under its name, the table of each family that it has, and its
block, which is in one piece and ends with a blank. -/
theorem added_peer_local {s : Settings.Router} {reg : Registry} {name : String}
    {peer : Settings.Peer} {larger : Router} (fresh : name ∉ s.peers.map Prod.fst)
    (h : Router.resolve (s.addPeer name peer) reg = .ok larger) :
    ∃ smaller before p after,
      Router.resolve s reg = .ok smaller ∧
      Policy.resolve (Router.context s) reg name peer = .ok p ∧
      smaller.peers = before ++ after ∧ larger.peers = before ++ p :: after ∧
      ∃ (lists : List NamedList) (block a b c d e : List Declaration),
        (lists.map NamedList.name).Sublist [(ListName.peerAsns name).name,
          (ListName.peerNets name .v4).name, (ListName.peerNets name .v6).name] ∧
        larger.peerBlock ⟨some larger.asn⟩ p = .ok (block ++ [.blank]) ∧
        smaller.declarations = .ok (a ++ b ++ c ++ d ++ e) ∧
        larger.declarations = .ok (a ++ lists.map .list ++ b ++
          (if p.hasFamily .v4 then [.table (.peer .v4 name)] else []) ++ c ++
          (if p.hasFamily .v6 then [.table (.peer .v6 name)] else []) ++ d ++
          (block ++ [.blank]) ++ e) := by
  obtain ⟨before, p, after, hpeers, hp, hsmaller⟩ := Router.resolve_addPeer fresh h
  obtain ⟨lists, hlists, names⟩ := Router.names_of_peerLists p
  obtain ⟨a, b, c, d, e, without, layout⟩ := Router.layout_without hpeers
  have named := (Policy.resolved_of_resolve hp).named
  rw [named] at names
  rw [hlists, Wiring.ownTable, Wiring.ownTable, named] at layout
  exact ⟨_, before, p, after, hsmaller, hp, rfl, hpeers, lists, _, a, b, c, d, e, names,
    larger.peerBlock_eq p, without ▸ Router.declarations_eq _, layout ▸ larger.declarations_eq⟩

/-- A peer with a list and both families, between two others. -/
theorem added_peer_local_between :
    let peer : Settings.Peer := { Settings.Peer.plain .customer 3333 with
      neighbor6 := some 1
      allow := ⟨[3333], [], []⟩ }
    let s : Settings.Router := .plain 65000 [("a", .plain .peer 1), ("c", .plain .transit 174)]
    "b" ∉ s.peers.map Prod.fst ∧
      (s.addPeer "b" peer).peers.map Prod.fst = ["a", "b", "c"] ∧
      ∃ larger smaller p, Router.resolve (s.addPeer "b" peer) .empty = .ok larger ∧
        Router.resolve s .empty = .ok smaller ∧ p ∈ larger.peers ∧ p.name = "b" ∧
        ∃ (lists : List NamedList) (block a b c d e : List Declaration),
          larger.peerBlock ⟨some larger.asn⟩ p = .ok (block ++ [.blank]) ∧
          smaller.declarations = .ok (a ++ b ++ c ++ d ++ e) ∧
          larger.declarations = .ok (a ++ lists.map .list ++ b ++ [.table (.peer .v4 "b")] ++ c ++
            [.table (.peer .v6 "b")] ++ d ++ (block ++ [.blank]) ++ e) := by
  intro peer s
  have fresh : "b" ∉ s.peers.map Prod.fst := by decide
  obtain ⟨larger, hlarger⟩ : ∃ larger, Router.resolve (s.addPeer "b" peer) .empty = .ok larger :=
    exists_ok (by decide +kernel)
  obtain ⟨smaller, before, p, after, hsmaller, hp, _, hpeers, lists, block, a, b, c, d, e, _,
    hblock, without, layout⟩ := added_peer_local fresh hlarger
  have resolved := Policy.resolved_of_resolve hp
  have families (f : Family) : p.hasFamily f = true := by
    cases f
    · rw [Policy.hasFamily, Policy.neighbor, resolved.neighbor4]
      rfl
    · rw [Policy.hasFamily, Policy.neighbor, resolved.neighbor6]
      rfl
  rw [families, families] at layout
  have member : p ∈ larger.peers := by
    rw [hpeers]
    exact List.mem_append_right before List.mem_cons_self
  exact ⟨fresh, by decide, larger, smaller, p, hlarger, hsmaller, member, resolved.named, lists,
    block, a, b, c, d, e, hblock, without, layout⟩

end Peering
