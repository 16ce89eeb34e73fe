import Peering.Proofs.Symbols

/-!
What is defined twice. As data, the symbols of a router are all different. As texts they are too,
unless there is a peer called `master`: what joins the main table to the master table has the names
that such a peer has.
-/
namespace Peering
open Peering.Filter (rulesOfPeer)

/-- Lists that are made one for each of some things do not repeat anything, where the things have
different keys and what is listed for a thing shows its key. -/
theorem nodup_flatMap_of_key {α β κ : Type} (Shows : β → κ → Prop) (key : α → κ) {g : α → List β}
    {as : List α} (once : ∀ b k l, Shows b k → Shows b l → k = l) (keys : (as.map key).Nodup)
    (each : ∀ a ∈ as, (g a).Nodup) (shows : ∀ a ∈ as, ∀ b ∈ g a, Shows b (key a)) :
    (as.flatMap g).Nodup := by
  refine List.nodup_flatMap.mpr ⟨each, (List.pairwise_map.mp keys).imp_of_mem ?_⟩
  intro a c ha hc hne b hba hbc
  exact hne (once b _ _ (shows a ha b hba) (shows c hc b hbc))

namespace Symbol

def family? : Symbol → Option Family
  | filter (.peer f ..) | filter (.toMaster f) | filter (.fromMaster f) => some f
  | table (.main f) | table (.peer f _) | table (.master f) => some f
  | protocol (.originate f) | protocol (.masterPipe f) => some f
  | protocol (.peerPipe f _) | protocol (.session f _) => some f
  | _ => none

def IsOf : Symbol → String → Prop
  | list l, p => l.peer? = some p
  | function f, p => ∃ d, Filter.base? f = some (ruleBase p d)
  | filter (.peer _ q _), p => q = p
  | protocol (.peerPipe _ q), p | protocol (.session _ q), p => q = p
  | _, _ => False

theorem isOf_unique {s : Symbol} {p q : String} (hp : s.IsOf p) (hq : s.IsOf q) : p = q := by
  unfold IsOf at hp hq
  split at hp
  · exact Option.some.inj (hp.symm.trans hq)
  · obtain ⟨d, hd⟩ := hp
    obtain ⟨e, he⟩ := hq
    exact (ruleBase_inj (Option.some.inj (hd.symm.trans he))).1
  · exact hp.symm.trans hq
  · exact hp.symm.trans hq
  · exact hp.symm.trans hq
  · exact hp.elim

end Symbol

namespace Policy
variable {p : Policy}

theorem nodup_families (p : Policy) : p.families.Nodup := List.Nodup.filter _ (by decide)

theorem nodup_listNames (p : Policy) : p.listNames.Nodup :=
  List.Nodup.filter _ (by simp [Family.all])

theorem mem_listNames {l : ListName} (h : l ∈ p.listNames) :
    l.peer? = some p.name ∧ (Symbol.list l).chapter = .peerSets := by
  have hl := List.mem_of_mem_filter h
  simp only [Family.all, List.map_cons, List.map_nil, List.mem_cons, List.not_mem_nil,
    or_false] at hl
  obtain rfl | rfl | rfl := hl <;> exact ⟨rfl, rfl⟩

theorem nodup_rulesOfPeer (p : Policy) : ((rulesOfPeer p).map (·.name)).Nodup := by
  rw [rulesOfPeer, List.map_append]
  refine List.nodup_append.mpr
    ⟨nodup_names_ruleFunctions _ _, nodup_names_ruleFunctions _ _, ?_⟩
  intro m hm n hn heq
  obtain ⟨f, hf, rfl⟩ := List.mem_map.mp hm
  obtain ⟨g, hg, rfl⟩ := List.mem_map.mp hn
  have hbase := Filter.base?_ruleFunctions hf
  rw [heq, Filter.base?_ruleFunctions hg, Option.some.injEq] at hbase
  exact absurd (ruleBase_inj hbase).2 (by decide)

theorem nodup_familySymbols (p : Policy) (f : Family) : (p.familySymbols f).Nodup := by
  cases h : p.neighbor f <;> simp [familySymbols, Stage.all, h]

theorem mem_familySymbols {f : Family} {s : Symbol} (h : s ∈ p.familySymbols f) :
    (s.family? = some f ∧ s.IsOf p.name) ∧ s.chapter = .peers ∧ s.Proper := by
  rw [familySymbols, List.mem_append, List.mem_map, List.mem_cons, Option.mem_toList,
    Option.map_eq_some_iff] at h
  obtain ⟨stage, _, rfl⟩ | rfl | ⟨_, _, rfl⟩ := h <;> exact ⟨⟨rfl, rfl⟩, rfl, trivial⟩

theorem mem_rules {g : Filter.Function} (h : g ∈ rulesOfPeer p) :
    (Symbol.function g.name).IsOf p.name ∧ (Symbol.function g.name).chapter = .peers ∧
      (Symbol.function g.name).Proper := by
  obtain ⟨d, hbase⟩ := Filter.base?_rulesOfPeer h
  refine ⟨⟨d, hbase⟩, ?_, fun b hb => ⟨p.name, d, Option.some.inj (hb.symm.trans hbase)⟩⟩
  cases hname : g.name with
  | shared f =>
    rw [hname] at hbase
    exact nomatch hbase
  | rule f => rfl

theorem mem_symbols {s : Symbol} (h : s ∈ p.symbols) :
    s.IsOf p.name ∧ s.chapter = .peers ∧ s.Proper := by
  obtain hrule | hfamily := List.mem_append.mp h
  · obtain ⟨g, hg, rfl⟩ := List.mem_map.mp hrule
    exact mem_rules hg
  · obtain ⟨f, _, hs⟩ := List.mem_flatMap.mp hfamily
    obtain ⟨⟨_, isOf⟩, hrest⟩ := mem_familySymbols hs
    exact ⟨isOf, hrest⟩

theorem nodup_symbols (p : Policy) : p.symbols.Nodup := by
  have functions : ((rulesOfPeer p).map fun g => Symbol.function g.name).Nodup :=
    List.pairwise_map.mpr ((List.pairwise_map.mp p.nodup_rulesOfPeer).imp fun hne heq =>
      hne (Symbol.function.inj heq))
  have families : (p.families.flatMap p.familySymbols).Nodup := by
    refine nodup_flatMap_of_key (fun s f => s.family? = some f) id ?_ ?_ ?_ ?_
    · exact fun _ _ _ hf hg => Option.some.inj (hf.symm.trans hg)
    · rw [List.map_id]
      exact p.nodup_families
    · exact fun f _ => p.nodup_familySymbols f
    · exact fun f _ s hs => (mem_familySymbols hs).1.1
  refine List.nodup_append.mpr ⟨functions, families, ?_⟩
  rintro s hs _ ht rfl
  obtain ⟨g, _, rfl⟩ := List.mem_map.mp hs
  obtain ⟨f, _, hf⟩ := List.mem_flatMap.mp ht
  exact nomatch (mem_familySymbols hf).1.1

end Policy

namespace Router
variable {r : Router}

theorem mem_wiringSymbols {f : Family} {s : Symbol} (h : s ∈ r.wiringSymbols f) :
    s.family? = some f ∧ s.chapter = .wiring ∧ s.Proper := by
  simp only [wiringSymbols, Symbol.joints, List.mem_append, List.mem_cons, List.mem_map,
    List.mem_ite_nil_left, List.not_mem_nil, or_false] at h
  obtain ((rfl | ⟨p, _, rfl⟩) | ⟨_, rfl⟩) | rfl | rfl | rfl := h <;> exact ⟨rfl, rfl, trivial⟩

theorem nodup_wiringSymbols (hn : (r.peers.map (·.name)).Nodup) (f : Family) :
    (r.wiringSymbols f).Nodup := by
  have tables : ((r.peers.filter (·.hasFamily f)).map fun p =>
      Symbol.table (.peer f p.name)).Nodup :=
    List.pairwise_map.mpr (((List.pairwise_map.mp hn).filter _).imp fun hne heq => hne <| by
      simpa using heq)
  have others : ((if (r.originate.filter fun n : Network => n.family = f) = [] then []
      else [Symbol.protocol (.originate f)]) ++ Symbol.joints f).Nodup := by
    split <;> simp [Symbol.joints]
  rw [wiringSymbols, List.append_assoc]
  refine List.nodup_append.mpr ⟨List.nodup_cons.mpr ⟨by simp, tables⟩, others, ?_⟩
  rintro s hs _ ht rfl
  have table : ∃ t, s = .table t := by
    obtain rfl | hs := List.mem_cons.mp hs
    · exact ⟨_, rfl⟩
    · obtain ⟨p, _, rfl⟩ := List.mem_map.mp hs
      exact ⟨_, rfl⟩
  obtain ⟨t, rfl⟩ := table
  simp [Symbol.joints, List.mem_ite_nil_left] at ht

theorem chapter_of_mem {c : Chapter} {s : Symbol} (h : s ∈ r.symbolsOf c) : s.chapter = c := by
  cases c with
  | constants =>
    obtain ⟨c, _, rfl⟩ := List.mem_map.mp h
    rfl
  | sets =>
    simp only [symbolsOf, List.mem_cons, List.not_mem_nil, or_false] at h
    obtain rfl | rfl | rfl | rfl := h <;> rfl
  | peerSets =>
    obtain ⟨p, _, hs⟩ := List.mem_flatMap.mp h
    obtain ⟨l, hl, rfl⟩ := List.mem_map.mp hs
    exact (Policy.mem_listNames hl).2
  | shared =>
    obtain ⟨f, _, rfl⟩ := List.mem_map.mp h
    rfl
  | wiring =>
    obtain ⟨f, _, hs⟩ := List.mem_flatMap.mp h
    exact (mem_wiringSymbols hs).2.1
  | peers =>
    obtain ⟨p, _, hs⟩ := List.mem_flatMap.mp h
    exact (Policy.mem_symbols hs).2.1

theorem nodup_symbolsOf (hn : (r.peers.map (·.name)).Nodup) (c : Chapter) :
    (r.symbolsOf c).Nodup := by
  cases c with
  | constants => exact List.Nodup.map (fun _ _ => Symbol.constant.inj) (by decide)
  | sets => simp [symbolsOf]
  | peerSets =>
    refine nodup_flatMap_of_key Symbol.IsOf _ (fun _ _ _ => Symbol.isOf_unique) hn ?_ ?_
    · exact fun p _ => p.nodup_listNames.map fun _ _ => Symbol.list.inj
    · intro p _ s hs
      obtain ⟨l, hl, rfl⟩ := List.mem_map.mp hs
      exact (Policy.mem_listNames hl).1
  | shared => exact List.Nodup.map (fun f g h => by simpa using h) (by decide)
  | wiring =>
    refine nodup_flatMap_of_key (fun s f => s.family? = some f) id ?_ ?_ ?_ ?_
    · exact fun _ _ _ hf hg => Option.some.inj (hf.symm.trans hg)
    · decide
    · exact fun f _ => nodup_wiringSymbols hn f
    · exact fun f _ s hs => (mem_wiringSymbols hs).1
  | peers =>
    refine nodup_flatMap_of_key Symbol.IsOf _ (fun _ _ _ => Symbol.isOf_unique) hn ?_ ?_
    · exact fun p _ => p.nodup_symbols
    · exact fun p _ s hs => (Policy.mem_symbols hs).1

theorem nodup_symbols (hn : (r.peers.map (·.name)).Nodup) : r.symbols.Nodup :=
  nodup_flatMap_of_key (fun s c => s.chapter = c) id (fun _ _ _ => Eq.trans ∘ Eq.symm)
    (by decide) (fun c _ => nodup_symbolsOf hn c) fun _ _ _ => chapter_of_mem

theorem proper_of_mem (valid : ∀ p ∈ r.peers, Policy.validName p.name = true) {s : Symbol}
    (h : s ∈ r.symbols) : s.Proper := by
  obtain ⟨c, _, h⟩ := List.mem_flatMap.mp h
  cases c with
  | constants =>
    obtain ⟨c, _, rfl⟩ := List.mem_map.mp h
    exact trivial
  | sets =>
    simp only [symbolsOf, List.mem_cons, List.not_mem_nil, or_false] at h
    obtain rfl | rfl | rfl | rfl := h <;> simp [Symbol.Proper, ListName.peer?]
  | peerSets =>
    obtain ⟨p, hp, hs⟩ := List.mem_flatMap.mp h
    obtain ⟨l, hl, rfl⟩ := List.mem_map.mp hs
    intro q hq
    rw [(Policy.mem_listNames hl).1, Option.mem_some] at hq
    exact hq ▸ valid p hp
  | shared =>
    obtain ⟨f, _, rfl⟩ := List.mem_map.mp h
    simp [Symbol.Proper, Filter.base?]
  | wiring =>
    obtain ⟨f, _, hs⟩ := List.mem_flatMap.mp h
    exact (mem_wiringSymbols hs).2.2
  | peers =>
    obtain ⟨p, _, hs⟩ := List.mem_flatMap.mp h
    exact (Policy.mem_symbols hs).2.2

theorem mem_symbols_iff {s : Symbol} : s ∈ r.symbols ↔ s ∈ r.symbolsOf s.chapter := by
  constructor
  · intro h
    obtain ⟨c, _, hc⟩ := List.mem_flatMap.mp h
    rwa [chapter_of_mem hc]
  · intro h
    exact List.mem_flatMap.mpr ⟨s.chapter, by cases s.chapter <;> decide, h⟩

theorem mem_symbols_of_mem_joints {f : Family} {s : Symbol} (h : s ∈ Symbol.joints f) :
    s ∈ r.symbols :=
  List.mem_flatMap.mpr ⟨.wiring, by decide,
    List.mem_flatMap.mpr ⟨f, f.mem_all, List.mem_append_right _ h⟩⟩

theorem mem_symbols_of_peer_iff {s : Symbol} {n : String} {f : Family} (isOf : s.IsOf n)
    (family : s.family? = some f) (chapter : s.chapter = .peers) :
    s ∈ r.symbols ↔
      ∃ p ∈ r.peers, p.name = n ∧ p.hasFamily f = true ∧ s ∈ p.familySymbols f := by
  rw [mem_symbols_iff, chapter]
  constructor
  · intro hs
    obtain ⟨p, hp, hs⟩ := List.mem_flatMap.mp hs
    obtain hrule | hfamily := List.mem_append.mp hs
    · obtain ⟨g, _, rfl⟩ := List.mem_map.mp hrule
      exact nomatch family
    · obtain ⟨g, hg, hs⟩ := List.mem_flatMap.mp hfamily
      obtain ⟨⟨hfamily, hisOf⟩, _⟩ := Policy.mem_familySymbols hs
      obtain rfl := Option.some.inj (family.symm.trans hfamily)
      exact ⟨p, hp, Symbol.isOf_unique hisOf isOf, (List.mem_filter.mp hg).2, hs⟩
  · rintro ⟨p, hp, _, hf, hs⟩
    exact List.mem_flatMap.mpr ⟨p, hp, List.mem_append_right _
      (List.mem_flatMap.mpr ⟨f, List.mem_filter.mpr ⟨f.mem_all, hf⟩, hs⟩)⟩

/-- The name of a joint is also that of a symbol of a peer where a peer with the family is called
`master`. -/
theorem asPeer_mem_symbols_iff {f : Family} {s : Symbol} (h : s ∈ Symbol.joints f) :
    s.asPeer ∈ r.symbols ↔ ∃ p ∈ r.peers, p.name = "master" ∧ p.hasFamily f = true := by
  have shape : s.asPeer.IsOf "master" ∧ s.asPeer.family? = some f ∧ s.asPeer.chapter = .peers ∧
      ∀ p : Policy, p.name = "master" → s.asPeer ∈ p.familySymbols f := by
    simp only [Symbol.joints, List.mem_cons, List.not_mem_nil, or_false] at h
    obtain rfl | rfl | rfl := h
    all_goals
      refine ⟨rfl, rfl, rfl, fun p hp => ?_⟩
      simp [Symbol.asPeer, FilterName.asPeer, Protocol.asPeer, Policy.familySymbols, Stage.all, hp]
  obtain ⟨isOf, family, chapter, mem⟩ := shape
  rw [mem_symbols_of_peer_iff isOf family chapter]
  constructor
  · rintro ⟨p, hp, hname, hf, _⟩
    exact ⟨p, hp, hname, hf⟩
  · rintro ⟨p, hp, hname, hf⟩
    exact ⟨p, hp, hname, hf, mem p hname⟩

end Router

theorem duplicate_map_iff {α β : Type} {g : α → β} {as : List α} (h : as.Nodup) {b : β} :
    List.Duplicate b (as.map g) ↔ ∃ a ∈ as, ∃ c ∈ as, a ≠ c ∧ g a = b ∧ g c = b := by
  induction as with
  | nil => simp
  | cons a as ih =>
    obtain ⟨hnot, has⟩ := List.nodup_cons.mp h
    rw [List.map_cons, List.duplicate_cons_iff, ih has, List.mem_map]
    constructor
    · rintro (⟨rfl, c, hc, heq⟩ | ⟨d, hd, c, hc, hne, hgd, hgc⟩)
      · exact ⟨a, List.mem_cons_self, c, List.mem_cons_of_mem a hc,
          fun hac => hnot (hac ▸ hc), rfl, heq⟩
      · exact ⟨d, List.mem_cons_of_mem a hd, c, List.mem_cons_of_mem a hc, hne, hgd, hgc⟩
    · rintro ⟨d, hd, c, hc, hne, hgd, hgc⟩
      obtain rfl | hd' := List.mem_cons.mp hd
      · exact .inl ⟨hgd, c, List.mem_of_ne_of_mem hne.symm hc, hgc⟩
      · obtain rfl | hc' := List.mem_cons.mp hc
        · exact .inl ⟨hgc, d, hd', hgd⟩
        · exact .inr ⟨d, hd', c, hc', hne, hgd, hgc⟩

theorem Router.duplicate_names_iff {r : Router} (hn : (r.peers.map (·.name)).Nodup)
    (valid : ∀ p ∈ r.peers, Policy.validName p.name = true) {n : String} :
    List.Duplicate n (Declaration.names r.layout) ↔
      ∃ f, (∃ p ∈ r.peers, p.name = "master" ∧ p.hasFamily f = true) ∧
        n ∈ (Symbol.joints f).map Symbol.name := by
  rw [r.names_layout, duplicate_map_iff (nodup_symbols hn)]
  constructor
  · -- Of two symbols with one name, one is a joint and the other that of a peer.
    rintro ⟨s, hs, t, ht, hne, rfl, hname⟩
    have heq : s.asPeer = t.asPeer :=
      (Symbol.name_eq_iff (proper_of_mem valid hs) (proper_of_mem valid ht)).mp hname.symm
    obtain ⟨f, ⟨hjoint, rfl⟩ | ⟨hjoint, rfl⟩⟩ := Symbol.joints_of_asPeer heq hne
    · exact ⟨f, (asPeer_mem_symbols_iff hjoint).mp ht, List.mem_map_of_mem hjoint⟩
    · exact ⟨f, (asPeer_mem_symbols_iff hjoint).mp hs, hname ▸ List.mem_map_of_mem hjoint⟩
  · rintro ⟨f, master, hn⟩
    obtain ⟨s, hjoint, rfl⟩ := List.mem_map.mp hn
    exact ⟨s, mem_symbols_of_mem_joints hjoint, s.asPeer,
      (asPeer_mem_symbols_iff hjoint).mpr master, Symbol.ne_asPeer_of_mem_joints hjoint, rfl,
      s.name_asPeer⟩

/-- The names that a router configuration defines twice are those of what joins the main table to
the master table, for the families of a peer that is called `master`. -/
theorem names_defined_twice {s : Settings.Router} {reg : Registry} {rt : Router}
    (hs : (s.peers.map Prod.fst).Nodup) (h : Router.resolve s reg = .ok rt) :
    ∃ ds, rt.declarations = .ok ds ∧
      (∀ d ∈ ds, ∀ n, d.name? = some n →
        d.statement.texts.head? = some (d.keyword ++ n)) ∧
      (∀ n, List.Duplicate n (Declaration.names ds) ↔
        ∃ f, (∃ p ∈ rt.peers, p.name = "master" ∧ p.hasFamily f = true) ∧
          n ∈ [(FilterName.toMaster f).name, (FilterName.fromMaster f).name,
            (Protocol.masterPipe f).name]) ∧
      ((Declaration.names ds).Nodup ↔ ∀ p ∈ rt.peers, p.name ≠ "master") := by
  have valid : ∀ p ∈ rt.peers, Policy.validName p.name = true := by
    intro p hp
    obtain ⟨_, _, resolved⟩ := Router.resolved_peer h hp
    exact resolved.validName
  have twice : ∀ n, List.Duplicate n (Declaration.names rt.layout) ↔ _ := fun n =>
    Router.duplicate_names_iff (Router.nodup_names_resolve hs h) valid
  refine ⟨rt.layout, rt.declarations_eq, fun _ _ _ => Declaration.head?_texts, twice, ?_⟩
  rw [List.nodup_iff_forall_not_duplicate]
  constructor
  · intro once p hp hname
    obtain ⟨_, _, resolved⟩ := Router.resolved_peer h hp
    obtain ⟨f, hf⟩ := resolved.exists_hasFamily
    exact once _ ((twice _).mpr ⟨f, ⟨p, hp, hname, hf⟩, List.mem_cons_self⟩)
  · intro notMaster n hn
    obtain ⟨_, ⟨p, hp, hname, _⟩, _⟩ := (twice n).mp hn
    exact notMaster p hp hname

/-- A customer called `master` has the names of the pipe to the master table and of its filters. -/
theorem names_defined_twice_master :
    Router.resolve (.plain 65000 [("master", .plain .customer 3333)]) .empty =
        .ok (.plain 65000 [.plain "master" .customer 3333]) ∧
      ∃ ds, (Router.plain 65000 [.plain "master" .customer 3333]).declarations = .ok ds ∧
        List.Duplicate "p_bgp4_master" (Declaration.names ds) ∧
        List.Duplicate "f_bgp4_master_import" (Declaration.names ds) ∧
        List.Duplicate "f_bgp4_master_export" (Declaration.names ds) := by
  have resolves : Router.resolve (.plain 65000 [("master", .plain .customer 3333)]) .empty =
      .ok (.plain 65000 [.plain "master" .customer 3333]) := by
    with_unfolding_all rfl
  obtain ⟨ds, hds, _, twice, _⟩ := names_defined_twice (by decide) resolves
  have master : ∃ p ∈ [Policy.plain "master" .customer 3333],
      p.name = "master" ∧ p.hasFamily .v4 = true := ⟨_, List.mem_cons_self, rfl, rfl⟩
  exact ⟨resolves, ds, hds, (twice _).mpr ⟨.v4, master, by decide⟩,
    (twice _).mpr ⟨.v4, master, by decide⟩, (twice _).mpr ⟨.v4, master, by decide⟩⟩

end Peering
