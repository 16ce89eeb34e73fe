import Peering.Proofs.DefinitionOrder
import Peering.Proofs.EmittedLists
import Peering.Proofs.Receiving
import Peering.Proofs.ResolvedFields

/-!
Sets without items. Lists are defined and looked up only where there is something in them, and
patterns are asked for only in the families that they have. What is left are the lists of ASNs and
communities in rules, which are spelled out as they are: an empty one comes out as an empty set.
-/
namespace Peering
open Peering.Filter (ChecksFor Finds Gives Test allowChecks checkValues checks leaveUnless provided
  ruleBody ruleFunction ruleFunctions rulesOfPeer)

/-- A list of ASNs or communities is empty that routes are compared with. -/
def Settings.Match.Hollow (m : Match) : Prop :=
  (∃ c ∈ m.originAsn, c.values = []) ∨ (∃ c ∈ m.community, c.values = []) ∨
    (∃ c ∈ m.extendedCommunity, c.values = []) ∨ ∃ c ∈ m.largeCommunity, c.values = []

section Resolved

theorem exists_iff_of_forall₂ {α β : Type} {R : α → β → Prop} {P : α → Prop} {Q : β → Prop}
    {as : List α} {bs : List β} (h : List.Forall₂ R as bs) (hR : ∀ a b, R a b → (Q b ↔ P a)) :
    (∃ b ∈ bs, Q b) ↔ ∃ a ∈ as, P a := by
  induction h with
  | nil => simp
  | cons hab _ ih => rw [List.exists_mem_cons_iff, List.exists_mem_cons_iff, ih, hR _ _ hab]

theorem readAs_nil_iff {α : Type} [Literal α] {texts : List String} {as : List α}
    (h : ReadAs texts as) : as = [] ↔ texts = [] := by
  rw [← List.length_eq_zero_iff, ← List.length_eq_zero_iff, h.length_eq]

theorem Condition.empty_iff {α β : Type} {R : List β → List α → Prop}
    {o : Option (Settings.Choice β)} {p : Option (Condition α)}
    (same : ∀ {bs as}, R bs as → (as = [] ↔ bs = [])) (h : Option.Rel (Follows R) o p) :
    (∃ c ∈ p, c.values = []) ↔ ∃ c ∈ o, c.values = [] := by
  cases h with
  | none => simp
  | some h => cases h <;> simpa [Settings.Choice.values] using same ‹_›

theorem RuleMatch.Follows.hollow_iff {m : Settings.Match} {n : RuleMatch} (h : n.Follows m) :
    n.Hollow ↔ m.Hollow := by
  exact or_congr (Condition.empty_iff (fun h => by rw [h]) h.originAsn)
    (or_congr (Condition.empty_iff readAs_nil_iff h.community)
      (or_congr (Condition.empty_iff readAs_nil_iff h.extendedCommunity)
        (Condition.empty_iff readAs_nil_iff h.largeCommunity)))

theorem Policy.Follows.hollow_iff {ctx : Context} {reg : Registry} {name : String}
    {s : Settings.Peer} {p : Policy} (h : p.Follows ctx reg name s) :
    (∃ d, ∃ rule ∈ p.rules d, rule.condition.Hollow) ↔
      ∃ rule ∈ s.rules, rule.condition.Hollow := by
  have direction (d : Settings.Direction) := exists_iff_of_forall₂ (h.rules d)
    fun _ _ follows => follows.condition.hollow_iff
  simp only [direction, List.mem_filter, decide_eq_true_eq]
  constructor
  · rintro ⟨d, rule, ⟨hrule, _⟩, hollow⟩
    exact ⟨rule, hrule, hollow⟩
  · rintro ⟨rule, hrule, hollow⟩
    exact ⟨rule.direction, rule, ⟨hrule, rfl⟩, hollow⟩

theorem Router.hollow_iff {s : Settings.Router} {reg : Registry} {rt : Router}
    (h : resolve s reg = .ok rt) :
    (∃ p ∈ rt.peers, ∃ d, ∃ rule ∈ p.rules d, rule.condition.Hollow) ↔
      ∃ x ∈ s.peers, ∃ rule ∈ x.2.rules, rule.condition.Hollow := by
  obtain ⟨_, _, hpeers, _⟩ := resolve_eq_ok_iff.mp h
  exact exists_iff_of_forall₂ (forall₂_of_mapM hpeers) fun _ _ resolves =>
    (Policy.follows_resolve resolves).hollow_iff

end Resolved

section Code

theorem exists_hollow_of_checkValues {α : Type} (title : String) (test : List α → Test)
    {condition : Option (Condition α)}
    (spelled : ∀ negated, ∃ t ∈ (leaveUnless (test []) negated).statement.codes, Hollow t)
    (h : ∃ c ∈ condition, c.values = []) :
    ∃ c ∈ checkValues title test condition, ∃ t ∈ c.statement.codes, Hollow t := by
  obtain ⟨c, rfl, hc⟩ := h
  rw [checkValues, hc]
  exact ⟨_, List.mem_cons_of_mem _ (List.mem_singleton_self _), spelled c.negated⟩

theorem exists_hollow_of_ruleBody {r : Rule} (h : r.condition.Hollow) :
    ∃ c ∈ ruleBody r, ∃ t ∈ c.statement.codes, Hollow t := by
  have checked : ∃ c ∈ checks r.condition, ∃ t ∈ c.statement.codes, Hollow t := by
    simp only [checks, List.mem_append]
    obtain h | h | h | h := h
    · obtain ⟨c, hc, hollow⟩ := exists_hollow_of_checkValues "Match origin ASN"
        (fun ns => .originAsnIn (.listed ns)) (fun negated => by cases negated <;> decide +kernel) h
      exact ⟨c, .inl (.inl (.inl (.inl hc))), hollow⟩
    · obtain ⟨c, hc, hollow⟩ := exists_hollow_of_checkValues "Match community"
        .communityIn (fun negated => by cases negated <;> decide +kernel) h
      exact ⟨c, .inl (.inl (.inr hc)), hollow⟩
    · obtain ⟨c, hc, hollow⟩ := exists_hollow_of_checkValues "Match extended community"
        .extendedIn (fun negated => by cases negated <;> decide +kernel) h
      exact ⟨c, .inl (.inr hc), hollow⟩
    · obtain ⟨c, hc, hollow⟩ := exists_hollow_of_checkValues "Match large community"
        .largeIn (fun negated => by cases negated <;> decide +kernel) h
      exact ⟨c, .inr hc, hollow⟩
  obtain ⟨c, hc, hollow⟩ := checked
  exact ⟨c, List.mem_append_left _ hc, hollow⟩

theorem exists_hollow_of_rule (base : String) {rules : List Rule} {r : Rule} (hr : r ∈ rules)
    (h : r.condition.Hollow) :
    ∃ g ∈ ruleFunctions base rules, ∃ t ∈ (Declaration.function g).codes, Hollow t := by
  obtain ⟨i, hi⟩ := List.mem_iff_getElem?.mp hr
  obtain ⟨c, hc, t, ht, hollow⟩ := exists_hollow_of_ruleBody h
  refine ⟨ruleFunction base i r, ?_, t, ?_, hollow⟩
  · rw [ruleFunctions, if_neg (by simpa using List.ne_nil_of_mem hr)]
    exact List.mem_append_left _
      (List.mem_map_of_mem (List.mk_mem_zipIdx_iff_getElem?.mpr hi))
  · refine List.mem_append_right _ ?_
    rw [Bird.codes_eq_flatMap]
    exact List.mem_flatMap.mpr ⟨_, List.mem_map_of_mem hc, ht⟩

end Code

theorem SharedFunction.list_of_mem_mentions {f : SharedFunction} {l : ListName}
    (h : .list l ∈ f.mentions) : ∃ named ∈ globalLists, named.name = l.name := by
  cases f with
  | isBogon f =>
    obtain rfl : l = .bogons f := by simpa [SharedFunction.mentions] using h
    cases f <;> decide
  | hasBogonAsn =>
    obtain rfl : l = .bogonAsns := by simpa [SharedFunction.mentions] using h
    decide
  | hasTransitFreeAsn =>
    obtain rfl : l = .transitFree := by simpa [SharedFunction.mentions] using h
    decide
  | tooLong | tooShort | pathTooLong | pathTooShort | tooManyCommunities | hasFiltered | canExport
  | exportPrepend => simp [SharedFunction.mentions] at h

namespace Router
variable {r : Router} {d : Declaration}

theorem full_of_declares {l : NamedList} (h : r.Declares (.list l)) : l.isEmpty = false := by
  cases h with
  | set hl =>
    have sets : ∀ l ∈ globalLists, l.isEmpty = false := by decide
    exact sets l hl
  | peerSet _ hl => simpa using (List.mem_filter.mp hl).2

theorem hollow_of_declares (h : r.Declares d) (hollow : d.Hollow) :
    ∃ p ∈ r.peers, (∃ g, d = .function g) ∧
      ∃ direction, ∃ rule ∈ p.rules direction, rule.condition.Hollow := by
  cases h with
  | blank | headline | routerId | constant | set | peerSet | table | peerTable | originate
  | masterPipe | peerTitle | peerPipe | session => exact hollow.elim
  | shared hg => exact absurd hollow (Filter.full_sharedOf hg)
  | toMaster f =>
    have bgp : Filter.Sound (fun _ => True) False (Wiring.toMaster f).body :=
      .cons (.when (.silent rfl id) .accept) .reject
    exact (bgp.hollow hollow).elim
  | fromMaster f =>
    exact ((Wiring.fromMaster_sound (A := fun _ => True) f r.fromMaster).hollow hollow).elim
  | @rule p hp g hg =>
    obtain ⟨direction, _, sound⟩ := Filter.rulesOfPeer_sound hg
    exact ⟨p, hp, ⟨g, rfl⟩, direction, sound.hollow hollow⟩
  | filter _ _ hg =>
    obtain ⟨stage, hstage⟩ := Filter.mem_programsOf hg
    exact (((Filter.ofPeer_sound stage).of_eq_ok hstage).hollow hollow).elim

section Layout
variable (proper : ∀ p ∈ r.peers, p.Proper)
include proper

/-- What stands in the code of a router as an empty set is one that is spelled out. -/
theorem hollow_of_codes (h : r.Declares d) {t : String} (ht : t ∈ d.codes) (hollow : Hollow t) :
    d.Hollow := by
  have word {n : String} (hn : Wordy n) : ¬ Hollow n :=
    not_hollow fun hmem => absurd (hn _ hmem) (by decide)
  exact legible_codes proper h (legible_hollow d.Hollow) (fun n _ hn hs => absurd hs (word hn))
    (fun s _ hs hollow => absurd hollow (word hs)) (fun hd _ => hd) t ht hollow

theorem not_hollow_of_filter {g : Filter.Program} (hg : .filter g ∈ r.layout) {t : String}
    (ht : t ∈ (Declaration.filter g).codes) : ¬ Hollow t := by
  intro hollow
  have declared := declares_of_mem hg
  obtain ⟨_, _, ⟨_, hfunction⟩, _⟩ :=
    hollow_of_declares declared (hollow_of_codes proper declared ht hollow)
  exact nomatch hfunction

theorem hollow_layout_iff : (∃ d ∈ r.layout, ∃ t ∈ d.codes, Hollow t) ↔
    ∃ p ∈ r.peers, ∃ direction, ∃ rule ∈ p.rules direction, rule.condition.Hollow := by
  constructor
  · rintro ⟨d, hd, t, ht, hollow⟩
    have declared := declares_of_mem hd
    obtain ⟨p, hp, _, rules⟩ :=
      hollow_of_declares declared (hollow_of_codes proper declared ht hollow)
    exact ⟨p, hp, rules⟩
  · rintro ⟨p, hp, direction, rule, hrule, hollow⟩
    obtain ⟨g, hg, t, ht, hollow⟩ :=
      exists_hollow_of_rule (ruleBase p.name direction) hrule hollow
    obtain ⟨before, after, split, _⟩ := Filter.rulesOfPeer_split p direction
    have mem : g ∈ rulesOfPeer p := split ▸ List.mem_append_left _ (List.mem_append_right _ hg)
    exact ⟨_, function_mem_layout hp mem, t, ht, hollow⟩

theorem list_of_mem_mentions (h : r.Declares d) {l : ListName} (hl : .list l ∈ d.mentions) :
    ∃ named, .list named ∈ r.layout ∧ named.name = l.name := by
  cases h with
  | blank | headline | routerId | peerTitle | constant | set | peerSet | table | peerTable
  | toMaster => exact absurd hl List.not_mem_nil
  | originate | masterPipe | peerPipe | session => simp [Declaration.mentions] at hl
  | shared hg =>
    obtain ⟨f, _, hmentions, _⟩ := Filter.mem_sharedOf hg
    rw [Declaration.mentions, hmentions] at hl
    obtain ⟨named, hnamed, hname⟩ := f.list_of_mem_mentions hl
    refine ⟨named, ?_, hname⟩
    simp only [layout, constants, List.mem_append]
    exact .inl (.inl (.inl (.inl (.inl (.inl (.inr (.inr (List.mem_map_of_mem hnamed))))))))
  | fromMaster f =>
    exact ((Wiring.fromMaster_sound (A := fun _ => False) f r.fromMaster).mentions _ hl).elim
  | rule _ hg =>
    obtain ⟨_, _, sound⟩ := Filter.rulesOfPeer_sound hg
    obtain hconstant | ⟨_, hfunction⟩ := sound.mentions _ hl
    · cases hconstant
    · cases hfunction
  | @filter p hp _ _ _ hg =>
    obtain ⟨stage, hstage⟩ := Filter.mem_programsOf hg
    have knows := ((Filter.ofPeer_sound stage).of_eq_ok hstage).mentions _ hl
    obtain ⟨_, listed, _⟩ := listed_mem_layout (proper p hp) hp knows
    exact ⟨_, listed, rfl⟩

end Layout

end Router

/-- Where there are no items there is no set. Every set that is defined has items, and every set
that is looked up is defined. An empty one is spelled out exactly if a rule is set to compare routes
with no ASNs or no communities at all, and never in a filter. Rules mean the same whichever of their
lists are empty, and the lists of a peer admit the same routes whether or not there is one for the
family. -/
theorem empty_set_iff_empty_choice {s : Settings.Router} {reg : Registry} {rt : Router}
    (hs : (s.peers.map Prod.fst).Nodup) (h : Router.resolve s reg = .ok rt) :
    ∃ ds, rt.declarations = .ok ds ∧
      (∀ d ∈ ds, ∀ name groups, d.statement = .defineSet name groups →
        groups ≠ [] ∧ ∀ g ∈ groups, g.items ≠ []) ∧
      (∀ d ∈ ds, ∀ l, .list l ∈ d.mentions → ∃ named, .list named ∈ ds ∧ named.name = l.name) ∧
      ((∃ d ∈ ds, ∃ t ∈ d.codes, Hollow t) ↔
        ∃ x ∈ s.peers, ∃ rule ∈ x.2.rules, rule.condition.Hollow) ∧
      (∀ g, .filter g ∈ ds → ∀ t ∈ (Declaration.filter g).codes, ¬ Hollow t) ∧
      ∀ p ∈ rt.peers,
        (∀ direction, ∀ rule ∈ p.rules direction, ∀ sc calls argument,
          ChecksFor sc calls argument (checks rule.condition) rule.condition.applies) ∧
        ∀ f, Gives (provided p.isRestricted (allowChecks ⟨some rt.asn⟩ p f))
          (Finds rt.asn rt.peers · (p.allowFailures f)) := by
  have proper := Policy.Proper.of_resolve h
  have names := Router.nodup_names_resolve hs h
  refine ⟨rt.layout, rt.declarations_eq, fun d hd name groups hset => ?_, fun d hd l hl => ?_,
    (Router.hollow_layout_iff proper).trans (Router.hollow_iff h),
    fun g hg t ht => Router.not_hollow_of_filter proper hg ht, fun p hp => ⟨?_, fun f => ?_⟩⟩
  · cases d with
    | list l =>
      obtain ⟨rfl, rfl⟩ := Bird.Statement.defineSet.inj (l.statement_eq.symm.trans hset)
      have full := Router.full_of_declares (Router.declares_of_mem hd)
      exact ⟨NamedList.shown_ne_nil full, l.full_shown⟩
    | _ => exact nomatch hset
  · exact Router.list_of_mem_mentions proper (Router.declares_of_mem hd) hl
  · exact fun _ rule _ _ _ _ => .rule rule.condition
  · exact Filter.allow_finds rt.peers hp names

/-- A rule for routes that none of no ASNs has originated and that are outside of no networks. For
the networks there is no set, for the ASNs an empty one, and there is no route to which the rule
applies. -/
theorem empty_set_iff_empty_choice_origins :
    let s : Settings.Router := .plain 65000 [("a", { Settings.Peer.plain .customer 3333 with
      rules := [⟨.inbound, ⟨some (.among []), some (.outside []), none, none, none⟩, .reject⟩] })]
    let p : Policy := { Policy.plain "a" .customer 3333 with
      inbound := [⟨.inbound, ⟨some ⟨[], false⟩, some ⟨[], true⟩, none, none, none⟩, .reject⟩] }
    let rt : Router := .plain 65000 [p]
    Router.resolve s .empty = .ok rt ∧
      ∃ ds, rt.declarations = .ok ds ∧
        (∃ d ∈ ds, ∃ t ∈ d.codes, Hollow t) ∧
        (∀ g, .filter g ∈ ds → ∀ t ∈ (Declaration.filter g).codes, ¬ Hollow t) ∧
        ∀ rule ∈ p.inbound, ∀ sc calls,
          ChecksFor sc calls 0 (checks rule.condition) fun _ => false := by
  intro s p rt
  have resolves : Router.resolve s .empty = .ok rt := by
    with_unfolding_all rfl
  obtain ⟨ds, hds, _, _, empty, filters, peers⟩ := empty_set_iff_empty_choice (by decide) resolves
  obtain ⟨same, _⟩ := peers p (List.mem_singleton_self p)
  refine ⟨resolves, ds, hds, empty.mpr ?_, filters, fun rule hrule sc calls => ?_⟩
  · exact ⟨_, List.mem_singleton_self _, _, List.mem_singleton_self _, .inl ⟨_, rfl, rfl⟩⟩
  · have never : rule.condition.applies = fun _ => false := by
      obtain rfl := List.mem_singleton.mp hrule
      rfl
    exact never ▸ same .inbound rule hrule sc calls 0

end Peering
