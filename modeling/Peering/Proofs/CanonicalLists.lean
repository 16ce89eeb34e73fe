import Peering.Proofs.Canonical
import Peering.Proofs.Contents
import Peering.Proofs.Keys
import Peering.Proofs.Names
import Peering.Proofs.Quoting

/-!
The lists of what a peer may announce, as they are emitted: a group for each origin that gives
something, with its items in order under their number. However the lists are written in settings and
registries, the same text comes out.
-/
namespace Peering
open Peering.Bird (SetGroup)
open Peering.Filter (asnText)

namespace Settings.Allow
variable (reg : Registry) (a : Allow)

/-- Where items come from: the settings themselves, then each object that they name. -/
def origins : List (Option String) := none :: a.asSets.map some

def asnsFrom : Option String → List UInt32
  | none => a.asns
  | some object => (reg.object object).elim [] (·.asns)

def textsFrom : Option String → List String
  | none => a.patterns
  | some object => (reg.object object).elim [] fun o => o.ipv4 ++ o.ipv6

def patternsFrom (origin : Option String) : List Pattern :=
  (a.textsFrom reg origin).filterMap fun text => (Pattern.parse text).toOption

def netsFrom (f : Family) (origin : Option String) : List Pattern :=
  (a.patternsFrom reg origin).filter fun p => p.family = f

end Settings.Allow

def originText : Option String → String
  | none => "statically defined"
  | some object => s!"from IRR object {object}"

section Shown
variable {α κ : Type} [LinearOrder κ] (rank : α → κ) (text : α → String)

/-- A group as it is emitted: just what its origin gives, in order, and no text twice. The title
says how many items there are and where they come from. -/
structure Bird.SetGroup.Shows (given : List α) (origin : Option String) (g : SetGroup) : Prop where
  items : ∃ items, Ascending rank items ∧ (∀ a, a ∈ items ↔ a ∈ given) ∧ g.items = items.map text
  once : g.items.Nodup
  title : g.comment = toString g.items.length ++ " " ++ originText origin

/-- A list as it is emitted, with a group for each origin that gives something. -/
def NamedList.Shows (name : String) (origins : List (Option String))
    (given : Option String → List α) (l : NamedList) : Prop :=
  ∃ gs, l.statement = .defineSet name gs ∧
    List.Forall₂ (fun origin g => SetGroup.Shows rank text (given origin) origin g)
      (origins.filter fun origin => given origin ≠ []) gs

end Shown

def Settings.Allow.ShowsAsns (reg : Registry) (name : String) (a : Allow) : NamedList → Prop :=
  NamedList.Shows UInt32.toNat asnText (ListName.peerAsns name).name a.origins (a.asnsFrom reg)

def Settings.Allow.ShowsNets (reg : Registry) (name : String) (a : Allow) (f : Family) :
    NamedList → Prop :=
  NamedList.Shows Pattern.key Pattern.text (ListName.peerNets name f).name a.origins
    (a.netsFrom reg f)

/-- What a peer may announce stands in the declarations. All that is written is a pattern. -/
structure Settings.Allow.Emitted (reg : Registry) (name : String) (a : Allow)
    (ds : List Declaration) : Prop where
  patterns : ∀ origin ∈ a.origins, ∀ text ∈ a.textsFrom reg origin, ∃ p, Pattern.parse text = .ok p
  asns : (∃ origin ∈ a.origins, a.asnsFrom reg origin ≠ []) →
    ∃ l, .list l ∈ ds ∧ a.ShowsAsns reg name l
  nets : ∀ f, (∃ origin ∈ a.origins, a.netsFrom reg f origin ≠ []) →
    ∃ l, .list l ∈ ds ∧ a.ShowsNets reg name f l

section Groups
variable {α κ : Type} [LinearOrder κ] {rank : α → κ} {text : α → String}

theorem Group.title_eq (origin : Option String) (items : List α) :
    Group.title ⟨origin, items⟩ = toString items.length ++ " " ++ originText origin := by
  have apart : toString items.length ++ (" " ++ originText origin) =
      toString items.length ++ " " ++ originText origin := String.append_assoc.symm
  rw [← apart]
  cases origin with
  | none => rfl
  | some object => exact String.append_assoc

theorem flatMap_ofItems (origins : List (Option String)) (items : Option String → List α) :
    (origins.flatMap fun origin => Group.ofItems origin (items origin)) =
      (origins.filter fun origin => items origin ≠ []).map fun origin =>
        ⟨origin, items origin⟩ := by
  induction origins with
  | nil => rfl
  | cons origin origins ih =>
    rw [List.flatMap_cons, ih]
    by_cases h : items origin = [] <;> simp [Group.ofItems, h]

variable {name : String} {origins : List (Option String)} {given items : Option String → List α}

theorem statement_list (name : String) (origins : List (Option String))
    (items : Option String → List α) (text : α → String) :
    NamedList.statement ⟨name, (origins.flatMap fun origin =>
        Group.ofItems origin (items origin)).map (·.map text)⟩ =
      .defineSet name ((origins.filter fun origin => items origin ≠ []).map fun origin =>
        ⟨Group.title ⟨origin, (items origin).map text⟩, (items origin).map text⟩) := by
  have texts : Group.map text ∘ (fun origin => (⟨origin, items origin⟩ : Group α)) =
      fun origin => ⟨origin, (items origin).map text⟩ := rfl
  have full : ∀ g ∈ ((origins.filter fun origin => items origin ≠ []).map fun origin =>
      (⟨origin, (items origin).map text⟩ : Group String)), (!g.items.isEmpty) = true := by
    simp only [List.forall_mem_map, List.mem_filter, decide_eq_true_eq]
    simp
  rw [NamedList.statement, flatMap_ofItems, List.map_map, texts, List.filter_eq_self.mpr full,
    List.map_map]
  rfl

theorem shows_list (ascending : ∀ origin ∈ origins, Ascending rank (items origin))
    (exact : ∀ origin a, a ∈ items origin ↔ a ∈ given origin)
    (inj : ∀ origin, ∀ a ∈ given origin, ∀ b ∈ given origin, text a = text b → a = b) :
    NamedList.Shows rank text name origins given
      ⟨name, (origins.flatMap fun origin => Group.ofItems origin (items origin)).map
        (·.map text)⟩ := by
  have some (origin : Option String) : items origin ≠ [] ↔ given origin ≠ [] := by
    simp only [ne_eq, List.eq_nil_iff_forall_not_mem, exact]
  refine ⟨_, statement_list name origins items text, ?_⟩
  simp only [some]
  rw [List.forall₂_map_right_iff, List.forall₂_same]
  intro origin ho
  have up := ascending origin (List.mem_of_mem_filter ho)
  refine ⟨⟨items origin, up, exact origin, rfl⟩, ?_, Group.title_eq ..⟩
  refine List.Nodup.map_on (fun a ha b hb => ?_) up.nodup
  exact inj origin a ((exact origin a).mp ha) b ((exact origin b).mp hb)

end Groups

theorem filterMap_parse {key : String} {texts : List String} {ps : List Pattern}
    (h : readLiterals key texts = .ok ps) :
    texts.filterMap (fun text => (Pattern.parse text).toOption) = ps := by
  have read := congrArg (List.filterMap Except.toOption) (parse_of_readLiterals h)
  rwa [List.filterMap_map, List.filterMap_map, show Except.toOption ∘ Except.ok = some from rfl,
    List.filterMap_some] at read

namespace Policy.Allowed

def ofOrigin (reg : Registry) (s : Settings.Allow) (origin : Option String) : Allowed :=
  ofLists origin (s.asnsFrom reg origin) (s.patternsFrom reg origin)

/-- What some origins give, one after the other. All that they list are patterns. -/
structure Gathers (reg : Registry) (s : Settings.Allow) (origins : List (Option String))
    (b : Allowed) : Prop where
  asns : b.asns = origins.flatMap fun origin => (ofOrigin reg s origin).asns
  nets : ∀ f, b.nets f = origins.flatMap fun origin => (ofOrigin reg s origin).nets f
  patterns : ∀ origin ∈ origins, ∀ text ∈ s.textsFrom reg origin, ∃ p, Pattern.parse text = .ok p

variable {reg : Registry} {key : String} {s : Settings.Allow} {b c : Allowed}
  {origins : List (Option String)} {origin : Option String}

theorem gathers_singleton {ps : List Pattern}
    (h : readLiterals key (s.textsFrom reg origin) = .ok ps) :
    Gathers reg s [origin] (ofLists origin (s.asnsFrom reg origin) ps) := by
  have given : ofLists origin (s.asnsFrom reg origin) ps = ofOrigin reg s origin := by
    rw [ofOrigin, Settings.Allow.patternsFrom, filterMap_parse h]
  refine ⟨?_, fun f => ?_, fun origin ho text ht => ?_⟩
  · rw [given, List.flatMap_singleton]
  · rw [given, List.flatMap_singleton]
  · obtain rfl := List.mem_singleton.mp ho
    exact exists_parse h ht

theorem Gathers.append {more : List (Option String)} (hb : Gathers reg s origins b)
    (hc : Gathers reg s more c) : Gathers reg s (origins ++ more) (b.append c) where
  asns := by
    rw [List.flatMap_append, ← hb.asns, ← hc.asns]
    rfl
  nets f := by
    rw [List.flatMap_append, ← hb.nets, ← hc.nets]
    cases f <;> rfl
  patterns := List.forall_mem_append.mpr ⟨hb.patterns, hc.patterns⟩

/-- What was resolved is what the settings give and then each object that they name. -/
theorem gathers_resolve (h : resolve reg key s = .ok b) : Gathers reg s s.origins b := by
  obtain ⟨own, hown, h⟩ := ok_of_bind h
  have first : Gathers reg s [none] (ofLists none s.asns own) := gathers_singleton hown
  refine foldlM_induct (P := fun done b => Gathers reg s (none :: done.map some) b) h first ?_
  intro done name b c gathered hstep
  obtain ⟨d, hd, hc⟩ := ok_of_bind hstep
  obtain rfl := Except.ok.inj hc
  obtain ⟨o, ho, ps, hps, rfl⟩ := ofObject_eq_ok hd
  have texts : s.textsFrom reg (some name) = o.ipv4 ++ o.ipv6 := by
    rw [Settings.Allow.textsFrom, ho, Option.elim_some]
  have asns : s.asnsFrom reg (some name) = o.asns := by
    rw [Settings.Allow.asnsFrom, ho, Option.elim_some]
  rw [← texts] at hps
  have next := gathers_singleton hps
  rw [asns] at next
  rw [List.map_append, List.map_singleton, ← List.cons_append]
  exact gathered.append next

end Policy.Allowed

theorem toString_nat_inj {m n : Nat} (h : toString m = toString n) : m = n := by
  rw [Nat.toString_eq_repr, Nat.toString_eq_repr, Nat.repr_eq_ofList_toDigits,
    Nat.repr_eq_ofList_toDigits] at h
  exact toDigits_inj (String.ofList_injective h)

namespace Policy
variable {ctx : Context} {reg : Registry} {name : String} {s : Settings.Peer} {p : Policy}

theorem Resolved.asnGroups_eq (h : p.Resolved ctx reg name s) :
    p.asnGroups = s.allow.origins.flatMap fun origin =>
      Group.ofItems origin (canonical (fun a b => decide (a ≤ b)) (s.allow.asnsFrom reg origin)) :=
  (Allowed.gathers_resolve h.allowed).asns

theorem Resolved.groups_eq (h : p.Resolved ctx reg name s) (f : Family) :
    p.groups f = s.allow.origins.flatMap fun origin =>
      Group.ofItems origin ((canonical Pattern.le (s.allow.patternsFrom reg origin)).filter
        fun q => q.family = f) := by
  have groups := (Allowed.gathers_resolve h.allowed).nets f
  cases f <;> exact groups

theorem ascending_nets (f : Family) (ps : List Pattern) :
    Ascending Pattern.key ((canonical Pattern.le ps).filter fun q => q.family = f) :=
  (ascending_canonical Pattern.injective_key Pattern.le_iff ps).filter _

theorem mem_nets_iff {allow : Settings.Allow} {f : Family} {origin : Option String} {q : Pattern} :
    (q ∈ (canonical Pattern.le (allow.patternsFrom reg origin)).filter fun q => q.family = f) ↔
      q ∈ allow.netsFrom reg f origin := by
  rw [List.mem_filter, mem_canonical, Settings.Allow.netsFrom, List.mem_filter]

theorem Resolved.shows_asns (h : p.Resolved ctx reg name s) :
    s.allow.ShowsAsns reg name (p.listed (.peerAsns name)) := by
  have list : p.listed (.peerAsns name) =
      ⟨(ListName.peerAsns name).name, p.asnGroups.map (·.map asnText)⟩ := rfl
  rw [list, h.asnGroups_eq]
  refine shows_list (fun origin _ => ascending_canonical injective_asn asn_le_iff _)
    (fun origin n => mem_canonical) fun origin m _ n _ htext => ?_
  exact injective_asn (toString_nat_inj htext)

theorem Resolved.shows_nets (h : p.Resolved ctx reg name s) (f : Family) :
    s.allow.ShowsNets reg name f (p.listed (.peerNets name f)) := by
  rw [listed, h.groups_eq]
  refine shows_list (fun origin _ => ascending_nets f _) (fun origin q => mem_nets_iff)
    fun origin q hq q' hq' htext => ?_
  have wellFormed {q : Pattern} (hq : q ∈ s.allow.netsFrom reg f origin) : q.WellFormed := by
    obtain ⟨text, _, hread⟩ := List.mem_filterMap.mp (List.mem_of_mem_filter hq)
    cases hparse : Pattern.parse text with
    | error fault => simp [hparse, Except.toOption] at hread
    | ok r =>
      rw [hparse] at hread
      exact Option.some.inj hread ▸ Pattern.wellFormed_of_parse hparse
  exact Pattern.text_inj (wellFormed hq) (wellFormed hq') htext

end Policy

theorem NamedList.Shows.isEmpty_eq_false {α κ : Type} [LinearOrder κ] {rank : α → κ}
    {text : α → String} {name : String} {origins : List (Option String)}
    {given : Option String → List α} {l : NamedList}
    (h : l.Shows rank text name origins given) (some : ∃ origin ∈ origins, given origin ≠ []) :
    l.isEmpty = false := by
  obtain ⟨gs, hstatement, hgroups⟩ := h
  obtain ⟨origin, ho, hne⟩ := some
  have hmem : origin ∈ origins.filter fun origin => given origin ≠ [] :=
    List.mem_filter.mpr ⟨ho, decide_eq_true hne⟩
  rw [← Bool.not_eq_true]
  intro hempty
  have none : (l.groups.filter fun g => !g.items.isEmpty) = [] := by
    rw [List.filter_eq_nil_iff]
    intro g hg
    simpa using List.all_eq_true.mp hempty g hg
  rw [statement, none] at hstatement
  obtain ⟨_, rfl⟩ := Bird.Statement.defineSet.inj hstatement
  rw [List.map_nil, List.forall₂_nil_right_iff] at hgroups
  exact List.ne_nil_of_mem hmem hgroups

theorem Policy.Resolved.emitted {ctx : Context} {reg : Registry} {name : String}
    {s : Settings.Peer} {p : Policy} (h : p.Resolved ctx reg name s) {rt : Router}
    (hp : p ∈ rt.peers) : s.allow.Emitted reg name rt.layout := by
  have defined {l : ListName} (hl : l ∈ ListName.peerAsns name :: Family.all.map (.peerNets name))
      (full : (p.listed l).isEmpty = false) : .list (p.listed l) ∈ rt.layout := by
    refine Router.peerSet_mem_layout hp (List.mem_filter.mpr ⟨h.named ▸ hl, ?_⟩)
    rw [full]
    rfl
  refine ⟨(Allowed.gathers_resolve h.allowed).patterns, fun given => ?_, fun f given => ?_⟩
  · have list := h.shows_asns
    exact ⟨_, defined List.mem_cons_self (list.isEmpty_eq_false given), list⟩
  · have list := h.shows_nets f
    exact ⟨_, defined (List.mem_cons_of_mem _ (List.mem_map_of_mem f.mem_all))
      (list.isEmpty_eq_false given), list⟩

theorem Router.exists_resolved {s : Settings.Router} {reg : Registry} {rt : Router}
    (h : resolve s reg = .ok rt) {x : String × Settings.Peer} (hx : x ∈ s.peers) :
    ∃ p ∈ rt.peers, p.Resolved (context s) reg x.1 x.2 := by
  have hmem : Policy.resolve (context s) reg x.1 x.2 ∈
      s.peers.map fun x => Policy.resolve (context s) reg x.1 x.2 := List.mem_map_of_mem hx
  rw [(resolve_peers h).2] at hmem
  obtain ⟨p, hp, heq⟩ := List.mem_map.mp hmem
  exact ⟨p, hp, Policy.resolved_of_resolve heq.symm⟩

theorem Router.list_of_mem_layout {s : Settings.Router} {reg : Registry} {rt : Router}
    (h : resolve s reg = .ok rt) {l : NamedList} (hl : .list l ∈ rt.layout) :
    l ∈ globalLists ∨ ∃ x ∈ s.peers,
      x.2.allow.ShowsAsns reg x.1 l ∨ ∃ f, x.2.allow.ShowsNets reg x.1 f l := by
  obtain hset | ⟨p, hp, name, hname, rfl⟩ : l ∈ globalLists ∨
      ∃ p ∈ rt.peers, ∃ name ∈ p.listNames, l = p.listed name := by
    cases declares_of_mem hl with
    | set hset => exact .inl hset
    | peerSet hp hname => exact .inr ⟨_, hp, _, hname, rfl⟩
  · exact .inl hset
  · right
    obtain ⟨stanza, hstanza, resolved⟩ := resolved_peer h hp
    refine ⟨(p.name, stanza), hstanza, ?_⟩
    obtain rfl | hname := List.mem_cons.mp (List.mem_of_mem_filter hname)
    · exact .inl resolved.shows_asns
    · obtain ⟨f, _, rfl⟩ := List.mem_map.mp hname
      exact .inr ⟨f, resolved.shows_nets f⟩

theorem compile_eq_ok {cs ls : List Document.Byte} {s : Settings.Router} {reg : Registry}
    {text : String} (hs : readSettings cs = .ok s) (hreg : readRegistry ls = .ok reg) :
    compile cs ls = .ok text ↔
      ∃ rt, Router.resolve s reg = .ok rt ∧ text = Declaration.render rt.layout := by
  have read : compile cs ls = Router.resolve s reg >>= Router.compile := by
    rw [compile, readRouter, hs, hreg]
    rfl
  rw [read]
  constructor
  · intro h
    obtain ⟨rt, hrt, htext⟩ := ok_of_bind h
    rw [rt.compile_eq] at htext
    exact ⟨rt, hrt, (Except.ok.inj htext).symm⟩
  · rintro ⟨rt, hrt, rfl⟩
    rw [hrt]
    exact rt.compile_eq

/-- The lists of what a peer may announce are canonical. Where two pairs of documents differ only in
how the entries of such lists are written and ordered, in what a peer itself lists and in what
registry objects stand for, and both are accepted, the same text comes out. Each list that comes out
has one group for each of its origins that gives something. -/
theorem allow_lists_canonical {cs ls : List Document.Byte} {s : Settings.Router} {reg : Registry}
    {text : String} (hs : readSettings cs = .ok s) (hreg : readRegistry ls = .ok reg)
    (h : compile cs ls = .ok text) :
    (∀ cs' ls' s' reg' text', readSettings cs' = .ok s' → readRegistry ls' = .ok reg' →
      s.Same s' → reg.Same reg' → compile cs' ls' = .ok text' → text' = text) ∧
    ∃ rt ds, Router.resolve s reg = .ok rt ∧ rt.declarations = .ok ds ∧
      text = Declaration.render ds ∧
      (∀ x ∈ s.peers, x.2.allow.Emitted reg x.1 ds) ∧
      ∀ l, .list l ∈ ds → l ∈ globalLists ∨ ∃ x ∈ s.peers,
        x.2.allow.ShowsAsns reg x.1 l ∨ ∃ f, x.2.allow.ShowsNets reg x.1 f l := by
  obtain ⟨rt, hrt, rfl⟩ := (compile_eq_ok hs hreg).mp h
  refine ⟨?_, rt, rt.layout, hrt, rt.declarations_eq, rfl, fun x hx => ?_, fun l hl => ?_⟩
  · intro cs' ls' s' reg' text' hs' hreg' same sameObjects h'
    obtain ⟨rt', hrt', rfl⟩ := (compile_eq_ok hs' hreg').mp h'
    rw [Router.agree_resolve same sameObjects rt rt' hrt hrt']
  · obtain ⟨p, hp, resolved⟩ := Router.exists_resolved hrt hx
    exact resolved.emitted hp
  · exact Router.list_of_mem_layout hrt hl

section Samples
open Document (Byte ascii)

def settingsOf (asns nets : String) : List Byte := ascii
  ("\x7b\"asn\": 65000, \"peers\": \x7b\"a\": \x7b\"type\": \"peer\", \"asn\": 3333, " ++
    "\"neighbor4\": \"192.0.2.1\", \"filter\": \x7b\"asns\": " ++ asns ++ ", \"prefixes\": " ++
    nets ++ ", \"as-set\": [\"AS-X\"]\x7d\x7d\x7d\x7d")

def registryOf (family asns : String) : List Byte := ascii
  ("\x7b\"irr\": \x7b\"AS-X\": \x7b\"" ++ family ++ "\": [\"192.0.2.0/24\"], \"asns\": " ++ asns ++
    "\x7d\x7d\x7d")

def listing (asns : List UInt32) (nets : List String) : Settings.Router :=
  .plain 65000 [("a", { Settings.Peer.plain .peer 3333 with allow := ⟨asns, nets, ["AS-X"]⟩ })]

theorem spelled_padded : SamePattern "10.0.0.0/8" " 10.0.0.0/08" := by
  let n : Network := ⟨.v4 167772160, 8⟩
  have blank : ∀ c ∈ [' '], Text.isBlank c = true := List.forall_mem_singleton.mpr (by decide)
  have none : ∀ c ∈ [], Text.isBlank c = true := List.forall_mem_nil _
  have address : Address.Written .network (Address.chars (.v4 167772160)) (.v4 167772160) :=
    Address.written_chars (by decide) _
  have length : Text.Spells 10 2 Char.isDigit ['0', '8'] 8 :=
    ⟨by decide, by decide, List.forall_mem_cons.mpr ⟨rfl, List.forall_mem_singleton.mpr rfl⟩, rfl⟩
  have padded := Pattern.Written.mk (p := ⟨n, .exact⟩) blank
    (.v4 address length (by decide)) .exact none
  have plain := Pattern.written_text (p := ⟨n, .exact⟩) (by decide +kernel)
  have text : Pattern.text ⟨n, .exact⟩ = "10.0.0.0/8" := by decide +kernel
  have paddedText : [' '] ++ (Address.chars (.v4 167772160) ++ '/' :: ['0', '8'] ++ [] ++ []) =
      " 10.0.0.0/08".toList := by decide +kernel
  rw [paddedText] at padded
  rw [text] at plain
  exact .spelled plain padded

theorem same_listing : (listing [2, 1] ["10.0.0.0/8"]).Same
    (listing [1, 2, 1] [" 10.0.0.0/08", "10.0.0.0/8"]) := by
  refine ⟨rfl, .cons ⟨rfl, rfl, ⟨fun n => ?_, ⟨?_, ?_⟩, rfl⟩⟩ .nil⟩
  · simp [or_comm]
  · intro t ht
    obtain rfl := List.mem_singleton.mp ht
    exact ⟨_, List.mem_cons_self, spelled_padded⟩
  · intro t ht
    refine ⟨_, List.mem_singleton_self _, ?_⟩
    obtain rfl | rfl := List.mem_pair.mp ht
    · exact spelled_padded
    · exact .refl _

theorem same_object : Registry.Same ⟨[], [("AS-X", ⟨["192.0.2.0/24"], [], [1]⟩)]⟩
    ⟨[], [("AS-X", ⟨[], ["192.0.2.0/24"], [1, 1]⟩)]⟩ := by
  refine ⟨rfl, .cons ⟨rfl, ⟨fun n => ?_, ⟨?_, ?_⟩⟩⟩ .nil⟩
  · simp
  · exact fun t ht => ⟨t, ht, .refl t⟩
  · exact fun t ht => ⟨t, ht, .refl t⟩

/-- ASNs in another order and twice, a network spelled in two ways, and that of the object listed
under the other family. -/
theorem allow_lists_canonical_respelled :
    ∃ text, compile (settingsOf "[2, 1]" "[\"10.0.0.0/8\"]") (registryOf "ipv4" "[1]") = .ok text ∧
      compile (settingsOf "[1, 2, 1]" "[\" 10.0.0.0/08\", \"10.0.0.0/8\"]")
        (registryOf "ipv6" "[1, 1]") = .ok text := by
  let reg : Registry := ⟨[], [("AS-X", ⟨["192.0.2.0/24"], [], [1]⟩)]⟩
  let reg' : Registry := ⟨[], [("AS-X", ⟨[], ["192.0.2.0/24"], [1, 1]⟩)]⟩
  have hs : readSettings (settingsOf "[2, 1]" "[\"10.0.0.0/8\"]") =
      .ok (listing [2, 1] ["10.0.0.0/8"]) := by decide +kernel
  have hreg : readRegistry (registryOf "ipv4" "[1]") = .ok reg := by decide +kernel
  have hs' : readSettings (settingsOf "[1, 2, 1]" "[\" 10.0.0.0/08\", \"10.0.0.0/8\"]") =
      .ok (listing [1, 2, 1] [" 10.0.0.0/08", "10.0.0.0/8"]) := by decide +kernel
  have hreg' : readRegistry (registryOf "ipv6" "[1, 1]") = .ok reg' := by decide +kernel
  obtain ⟨rt, hrt⟩ : ∃ rt, Router.resolve (listing [2, 1] ["10.0.0.0/8"]) reg = .ok rt :=
    exists_ok (by decide +kernel)
  obtain ⟨rt', hrt'⟩ : ∃ rt,
      Router.resolve (listing [1, 2, 1] [" 10.0.0.0/08", "10.0.0.0/8"]) reg' = .ok rt :=
    exists_ok (by decide +kernel)
  have h := (compile_eq_ok hs hreg).mpr ⟨rt, hrt, rfl⟩
  have h' := (compile_eq_ok hs' hreg').mpr ⟨rt', hrt', rfl⟩
  have equal := (allow_lists_canonical hs hreg h).1 _ _ _ _ _ hs' hreg' same_listing same_object h'
  exact ⟨_, h, h'.trans (congrArg Except.ok equal)⟩

end Samples

end Peering
