import Peering.Proofs.Contents
import Peering.Proofs.Mentions

/-!
Definitions come before their uses: what a declaration of a router uses is defined by an earlier
one, or is a table that the routing daemon has without being told.
-/
namespace Peering
open Peering.Filter (rulesOfPeer sharedOf ruleFunctions)

namespace Declaration

/-- The symbols that a declaration depends on. A protocol that routes are compared with is none of
them: where there is no such protocol, no route is from it. -/
def uses (d : Declaration) : List Symbol := d.mentions.filter fun s => s.kind ≠ .protocol

/-- Each declaration uses what is known or what declarations before it define. -/
def Grounded : List String → List Declaration → Prop
  | _, [] => True
  | known, d :: ds => (∀ s ∈ d.uses, s.name ∈ known) ∧ Grounded (known ++ d.name?.toList) ds

instance decidableGrounded : (known : List String) → (ds : List Declaration) →
    Decidable (Grounded known ds)
  | _, [] => inferInstanceAs (Decidable True)
  | known, d :: ds =>
    have := decidableGrounded (known ++ d.name?.toList) ds
    inferInstanceAs (Decidable (_ ∧ _))

section Grounded
variable {known more : List String} {d : Declaration} {ds es : List Declaration}

theorem grounded_append :
    Grounded known (ds ++ es) ↔ Grounded known ds ∧ Grounded (known ++ names ds) es := by
  induction ds generalizing known with
  | nil => simp [Grounded, names]
  | cons d ds ih =>
    rw [List.cons_append, Grounded, ih, Grounded, names_cons, and_assoc, List.append_assoc]

theorem Grounded.mono (h : Grounded known ds) (hsub : known ⊆ more) : Grounded more ds := by
  induction ds generalizing known more with
  | nil => trivial
  | cons d ds ih =>
    obtain ⟨huses, hrest⟩ := h
    have hsub' : known ++ d.name?.toList ⊆ more ++ d.name?.toList := fun n hn =>
      List.mem_append.mpr ((List.mem_append.mp hn).imp_left (@hsub n))
    exact ⟨fun s hs => hsub (huses s hs), ih hrest hsub'⟩

theorem grounded_of_known (h : ∀ d ∈ ds, ∀ s ∈ d.uses, s.name ∈ known) : Grounded known ds := by
  induction ds generalizing known with
  | nil => trivial
  | cons d ds ih =>
    obtain ⟨hd, hds⟩ := List.forall_mem_cons.mp h
    exact ⟨hd, ih fun e he s hs => List.mem_append_left _ (hds e he s hs)⟩

theorem grounded_of_unused (h : ∀ d ∈ ds, d.uses = []) : Grounded known ds :=
  grounded_of_known fun d hd _ hs => absurd (h d hd ▸ hs) List.not_mem_nil

theorem grounded_flatMap {α : Type} {g : α → List Declaration} {as : List α}
    (h : ∀ a ∈ as, Grounded known (g a)) : Grounded known (as.flatMap g) := by
  induction as generalizing known with
  | nil => trivial
  | cons a as ih =>
    obtain ⟨ha, has⟩ := List.forall_mem_cons.mp h
    rw [List.flatMap_cons, grounded_append]
    exact ⟨ha, ih fun b hb => (has b hb).mono (List.subset_append_left _ _)⟩

theorem Grounded.congr (h : Grounded known ds)
    (hes : ds.map (fun d => (d.uses, d.name?)) = es.map fun d => (d.uses, d.name?)) :
    Grounded known es := by
  induction ds generalizing known es with
  | nil =>
    obtain rfl := List.map_eq_nil_iff.mp hes.symm
    trivial
  | cons d ds ih =>
    cases es with
    | nil => exact nomatch hes
    | cons e es =>
      simp only [List.map_cons, List.cons.injEq, Prod.mk.injEq] at hes
      obtain ⟨⟨huses, hname⟩, hrest⟩ := hes
      exact ⟨huses ▸ h.1, hname ▸ ih h.2 hrest⟩

theorem Grounded.defined (h : Grounded known (ds ++ d :: es)) {s : Symbol} (hs : s ∈ d.uses) :
    s.name ∈ known ∨ s.name ∈ names ds :=
  List.mem_append.mp ((grounded_append.mp h).2.1 s hs)

end Grounded
end Declaration

namespace Router
open Declaration

def builtin : List String := Family.all.map fun f => (Table.master f).name

variable {r : Router} {p : Policy} {known : List String}

theorem grounded_shared
    (h : ∀ c ∈ [Chapter.constants, .sets], ∀ s ∈ r.symbolsOf c, s.name ∈ known) :
    Grounded known ((sharedOf r.asn).map .function) := by
  -- Which functions there are and what they mention does not depend on our ASN.
  have start : Grounded ((r.symbolsOf .constants ++ r.symbolsOf .sets).map Symbol.name)
      ((sharedOf 0).map .function) := by
    change Grounded (Constant.all.map Constant.name ++ globalLists.map (·.name)) _
    decide +kernel
  have same : ((sharedOf 0).map Declaration.function).map (fun d => (d.uses, d.name?)) =
      ((sharedOf r.asn).map Declaration.function).map fun d => (d.uses, d.name?) := by
    have table := (Filter.mentions_sharedOf 0).trans (Filter.mentions_sharedOf r.asn).symm
    have pair := congrArg (List.map fun x : FunctionName × List Symbol × List String =>
      (x.2.1.filter fun s => s.kind ≠ .protocol, some x.1.name)) table
    rwa [List.map_map, List.map_map] at pair ⊢
  refine (start.congr same).mono fun n hn => ?_
  obtain ⟨s, hs, rfl⟩ := List.mem_map.mp hn
  obtain hconstant | hset := List.mem_append.mp hs
  · exact h _ (by decide) s hconstant
  · exact h _ (by decide) s hset

theorem grounded_ruleFunctions (own : Constant.ownAsn.name ∈ known) (base : String)
    (rules : List Rule) : Grounded known ((ruleFunctions base rules).map .function) := by
  have rule (i : Nat) (rule : Rule) :
      ∀ s ∈ (function (Filter.ruleFunction base i rule)).uses, s.name ∈ known := by
    intro s hs
    rw [(Filter.ruleBody_sound rule).mentions s (List.mem_of_mem_filter hs)]
    exact own
  unfold ruleFunctions
  split
  · trivial
  · rw [List.map_append, grounded_append]
    refine ⟨grounded_of_known ?_, grounded_of_known ?_⟩
    · rw [List.forall_mem_map, List.forall_mem_map]
      exact fun x _ => rule x.2 x.1
    · refine List.forall_mem_singleton.mpr fun s hs => List.mem_append_right _ ?_
      obtain ⟨i, hi, rfl⟩ :=
        (Filter.everyRule_sound base rules.length).mentions s (List.mem_of_mem_filter hs)
      have hx : (rules[i], i) ∈ rules.zipIdx := List.mk_mem_zipIdx_iff_getElem?.mpr (by simp [hi])
      rw [names_map (fun _ => rfl), List.mem_map]
      exact ⟨_, List.mem_map_of_mem hx, rfl⟩

theorem grounded_tables (f : Family) : Grounded known (Wiring.tables f r.peers) :=
  grounded_of_unused (List.forall_mem_cons.mpr ⟨rfl, List.forall_mem_map.mpr fun _ _ => rfl⟩)

theorem grounded_originate (f : Family) (main : (Table.main f).name ∈ known) (nets : List Network) :
    Grounded known (Wiring.originate f nets) := by
  unfold Wiring.originate
  split
  · trivial
  · exact grounded_of_known (List.forall_mem_singleton.mpr (List.forall_mem_singleton.mpr main))

theorem grounded_master (f : Family) (main : (Table.main f).name ∈ known)
    (master : (Table.master f).name ∈ known) (i : Settings.Import) :
    Grounded known (Wiring.master f i) := by
  have silent (s : Symbol) : s ∉ (filter (Wiring.fromMaster f i)).uses := fun hs =>
    (Wiring.fromMaster_sound f i (A := fun _ => False)).mentions s (List.mem_of_mem_filter hs)
  refine ⟨List.forall_mem_nil _, fun s hs => absurd hs (silent s), fun s hs => ?_, trivial⟩
  have hs := List.mem_of_mem_filter hs
  simp only [mentions, List.mem_cons, List.not_mem_nil, or_false] at hs
  obtain rfl | rfl | rfl | rfl := hs
  · simpa [Symbol.name] using .inl main
  · simpa [Symbol.name] using .inl master
  · simp [Symbol.name, name?, Wiring.toMaster]
  · simp [Symbol.name, name?, Wiring.fromMaster]

theorem grounded_wiringLayout (f : Family) (master : (Table.master f).name ∈ known) :
    Grounded known (r.wiringLayout f) := by
  have main : (Table.main f).name ∈ known ++ names (Wiring.tables f r.peers) := by
    rw [names_tables]
    exact List.mem_append_right _ List.mem_cons_self
  rw [wiringLayout, grounded_append, grounded_append, grounded_append, names_append,
    ← List.append_assoc]
  refine ⟨⟨⟨grounded_tables f, grounded_originate f main _⟩,
    grounded_master f (List.mem_append_left _ main) ?_ _⟩, List.forall_mem_nil _, trivial⟩
  exact List.mem_append_left _ (List.mem_append_left _ master)

section Peers
variable (hp : p ∈ r.peers) (proper : p.Proper)
  (earlier : ∀ c ≠ Chapter.peers, ∀ s ∈ r.symbolsOf c, s.name ∈ known)

include hp proper earlier in
theorem name_mem_of_knows {stage : Stage} {s : Symbol} (h : p.Knows stage s)
    (hs : s.kind ≠ .protocol) :
    s.name ∈ known ++ names ((rulesOfPeer p).map .function) := by
  have list {l : ListName} (hl : l ∈ p.listNames) : l.name ∈ known :=
    earlier .peerSets (by decide) (.list l)
      (List.mem_flatMap.mpr ⟨p, hp, List.mem_map_of_mem hl⟩)
  cases h with
  | shared _ f =>
    exact List.mem_append_left _ (earlier .shared (by decide) _ (List.mem_map_of_mem f.mem_all))
  | originate => exact absurd rfl hs
  | asns h => exact List.mem_append_left _ (list ((Policy.peerAsns_mem_listNames_iff proper).mpr h))
  | nets f h =>
    exact List.mem_append_left _ (list ((Policy.peerNets_mem_listNames_iff proper f).mpr h))
  | rules d h =>
    have hmem := List.mem_map_of_mem (f := FunctionName.name) (Filter.rulesOf_mem_names_iff.mpr h)
    rw [List.map_map] at hmem
    rw [names_map (g := FunctionName.name ∘ fun g => g.name) fun _ => rfl]
    exact List.mem_append_right _ hmem

theorem grounded_programsOf {f : Family}
    (h : ∀ stage s, p.Knows stage s → s.kind ≠ .protocol → s.name ∈ known) :
    Grounded known ((Filter.programsOf r.asn p f).map .filter) := by
  refine grounded_of_known (List.forall_mem_map.mpr fun program hprogram s hs => ?_)
  obtain ⟨stage, hstage⟩ := Filter.mem_programsOf hprogram
  obtain ⟨hmention, hkind⟩ := List.mem_filter.mp hs
  have sound := (Filter.ofPeer_sound stage).of_eq_ok hstage
  exact h stage s (sound.mentions s hmention) (by simpa using hkind)

theorem grounded_familyLayout {f : Family}
    (knows : ∀ stage s, p.Knows stage s → s.kind ≠ .protocol → s.name ∈ known)
    (own : (Table.peer f p.name).name ∈ known) (main : (Table.main f).name ∈ known) :
    Grounded known (r.familyLayout p f) := by
  have filters (stage : Stage) : (FilterName.peer f p.name stage).name ∈
      known ++ names ((Filter.programsOf r.asn p f).map .filter) := by
    rw [names_map (g := FilterName.name ∘ fun g => g.name) fun _ => rfl, ← List.map_map,
      Filter.names_programsOf, List.map_map]
    exact List.mem_append_right _ (List.mem_map_of_mem (by cases stage <;> decide))
  have pipe : ∀ s ∈ (Declaration.pipe (Wiring.peerPipe p f)).uses,
      s.name ∈ known ++ names ((Filter.programsOf r.asn p f).map .filter) := by
    intro s hs
    have hs := List.mem_of_mem_filter hs
    simp only [mentions, List.mem_cons, List.not_mem_nil, or_false] at hs
    obtain rfl | rfl | rfl | rfl := hs
    · exact List.mem_append_left _ own
    · exact List.mem_append_left _ main
    · exact filters .toMain
    · exact filters .toPeer
  rw [familyLayout, grounded_append]
  refine ⟨grounded_programsOf knows, pipe, grounded_of_known fun d hd s hs => ?_⟩
  obtain ⟨session, hsession, rfl⟩ : ∃ session, Wiring.session? p f r.asn = some session ∧
      .session session = d := by simpa using hd
  obtain ⟨_, _, rfl⟩ := Option.map_eq_some_iff.mp hsession
  have hs := List.mem_of_mem_filter hs
  simp only [mentions, List.mem_cons, List.not_mem_nil, or_false] at hs
  refine List.mem_append_left _ ?_
  obtain rfl | rfl := hs
  · exact List.mem_append_left _ own
  · exact filters .receive

include hp proper earlier in
theorem grounded_peerLayout : Grounded known (r.peerLayout p) := by
  have own : Constant.ownAsn.name ∈ known :=
    earlier .constants (by decide) (.constant .ownAsn) List.mem_cons_self
  have table (f : Family) {t : Table} (ht : .table t ∈ r.wiringSymbols f) : t.name ∈ known :=
    earlier .wiring (by decide) (.table t) (List.mem_flatMap.mpr ⟨f, f.mem_all, ht⟩)
  have rules : Grounded known ((rulesOfPeer p).map .function) := by
    rw [rulesOfPeer, List.map_append, grounded_append]
    exact ⟨grounded_ruleFunctions own _ _,
      grounded_ruleFunctions (List.mem_append_left _ own) _ _⟩
  rw [peerLayout, grounded_append, grounded_append]
  refine ⟨⟨⟨List.forall_mem_nil _, ?_⟩, grounded_flatMap fun f hf => ?_⟩,
    grounded_of_unused (List.forall_mem_singleton.mpr rfl)⟩
  · exact rules.mono (List.subset_append_left _ _)
  · have hf : p ∈ r.peers.filter (·.hasFamily f) :=
      List.mem_filter.mpr ⟨hp, (List.mem_filter.mp hf).2⟩
    have peerTable : Symbol.table (.peer f p.name) ∈ r.wiringSymbols f := by
      rw [wiringSymbols, List.cons_append, List.cons_append, List.append_assoc]
      exact List.mem_cons_of_mem _ (List.mem_append_left _
        (List.mem_map_of_mem (f := fun p => Symbol.table (.peer f p.name)) hf))
    exact grounded_familyLayout (fun _ _ h hs => name_mem_of_knows hp proper earlier h hs)
      (List.mem_append_left _ (table f peerTable))
      (List.mem_append_left _ (table f List.mem_cons_self))

end Peers

theorem grounded_header : Grounded known r.header := by
  refine grounded_of_unused ?_
  rw [header]
  cases r.routerId <;> simp [uses, mentions]

theorem grounded_constants : Grounded known (constants r.asn) :=
  grounded_of_unused (List.forall_mem_append.mpr
    ⟨List.forall_mem_map.mpr fun _ _ => rfl, List.forall_mem_map.mpr fun _ _ => rfl⟩)

theorem grounded_peerLists : Grounded known (peerLists p) := by
  rw [peerLists_eq]
  exact grounded_of_unused (List.forall_mem_map.mpr fun _ _ => rfl)

theorem grounded_blank : Grounded known [.blank] := ⟨List.forall_mem_nil _, trivial⟩

/-- What a router uses is defined before, or built in. -/
theorem grounded_layout (proper : ∀ p ∈ r.peers, p.Proper) : Grounded builtin r.layout := by
  simp only [layout, grounded_append, names_append, names_header, names_constants, names_peerSets,
    names_shared, names_wiring, names_blank, List.nil_append, List.append_nil, List.map_append]
  refine ⟨⟨⟨⟨⟨⟨⟨grounded_header, grounded_constants⟩, ?_⟩, grounded_blank⟩, ?_⟩, grounded_blank⟩,
    ?_⟩, ?_⟩
  · exact grounded_flatMap fun _ _ => grounded_peerLists
  · refine grounded_shared fun c hc s hs => ?_
    have hname := List.mem_map_of_mem (f := Symbol.name) hs
    simp only [List.mem_cons, List.not_mem_nil, or_false] at hc
    simp only [List.mem_append]
    obtain rfl | rfl := hc <;> tauto
  · refine grounded_flatMap fun f _ => grounded_wiringLayout f (List.mem_append_left _ ?_)
    exact List.mem_map_of_mem f.mem_all
  · refine grounded_flatMap fun p hp => grounded_peerLayout hp (proper p hp) fun c hc s hs => ?_
    have hname := List.mem_map_of_mem (f := Symbol.name) hs
    simp only [List.mem_append]
    cases c <;> tauto

end Router
end Peering
