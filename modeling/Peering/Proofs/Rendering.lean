import Peering.Proofs.Codes

/-!
What documents can do to the lines of a router configuration. Descriptions and the names of registry
objects are put into it as they are, so line breaks in them are line breaks there; nothing else that
documents say can break a line.
-/
namespace Peering

theorem plain_nat (n : Nat) : Plain n.repr := (bare_nat n).keyword.plain

namespace Session

theorem not_mem_quotable (text : String) : '"' ∉ (quotable text).toList := by
  rw [quotable, String.toList_map, List.mem_map]
  rintro ⟨c, _, hc⟩
  split at hc
  · exact absurd hc (by decide)
  · rename_i hne
    exact hne hc

theorem plain_quotable_iff {text : String} : Plain (quotable text) ↔ Plain text := by
  rw [Plain, Plain, quotable, String.toList_map, List.mem_map, not_iff_not]
  constructor
  · rintro ⟨c, hmem, hc⟩
    split at hc
    · exact absurd hc (by decide)
    · exact hc ▸ hmem
  · exact fun hmem => ⟨'\n', hmem, by decide⟩

theorem plain_texts_iff {s : Session} : (∀ t ∈ s.statement.texts, Plain t) ↔
    (∀ t ∈ (Declaration.session s).codes, Plain t) ∧ Plain s.description := by
  obtain ⟨header, rest, described, coded, silent⟩ : ∃ header rest,
      s.statement =
        .block header (.setting ("description \"" ++ quotable s.description ++ "\"") :: rest)
          false ∧
      { s with description := "" }.statement =
        .block header (.setting ("description \"" ++ quotable "" ++ "\"") :: rest) false ∧
      Bird.comments rest = [] := by
    refine ⟨_, _, rfl, rfl, ?_⟩
    cases s.passive <;> cases s.clusterId <;> cases h : s.limit <;>
      simp [Bird.comments, Bird.Statement.comments, channel, h]
  have code {t : String} : t ∈ Bird.texts rest ↔ t ∈ Bird.codes rest := by
    rw [Bird.mem_texts_iff, silent]
    exact or_iff_left List.not_mem_nil
  have quoted (text : String) : Plain ("description \"" ++ quotable text ++ "\"") ↔ Plain text := by
    simp +decide [plain_append, plain_quotable_iff]
  rw [described, Declaration.codes, coded]
  simp only [Bird.Statement.texts, Bird.Statement.codes, Bird.texts, Bird.codes,
    List.singleton_append, List.forall_mem_cons, code, quoted]
  tauto

end Session

namespace Declaration

def Stay (ds : List Declaration) : Prop := ∀ d ∈ ds, ∀ t ∈ d.statement.texts, Plain t

theorem plain_texts_iff {ds : List Declaration} :
    (∀ t ∈ Bird.texts (ds.map statement), Plain t) ↔ Stay ds := by
  rw [Bird.texts_eq_flatMap, List.forall_mem_flatMap, List.forall_mem_map]
  rfl

theorem plain_statement_iff {d : Declaration} : (∀ t ∈ d.statement.texts, Plain t) ↔
    (∀ t ∈ d.codes, Plain t) ∧ ∀ t ∈ d.remarks, Plain t := by
  have ofStatement (s : Bird.Statement) : (∀ t ∈ s.texts, Plain t) ↔
      (∀ t ∈ s.codes, Plain t) ∧ ∀ t ∈ s.comments, Plain t := by
    simp only [Bird.Statement.mem_texts_iff, or_imp, forall_and]
  cases d with
  | session s =>
    exact Session.plain_texts_iff.trans (and_congr_right' List.forall_mem_singleton.symm)
  | _ => exact ofStatement _

end Declaration

theorem Group.plain_title_iff {α : Type} {g : Group α} :
    Plain g.title ↔ ∀ o ∈ g.object, Plain o := by
  cases h : g.object <;> simp +decide [title, h, toString, plain_append, plain_nat]

theorem NamedList.plain_remarks_iff {l : NamedList} (full : ∀ g ∈ l.groups, g.items ≠ []) :
    (∀ t ∈ (Declaration.list l).remarks, Plain t) ↔ ∀ g ∈ l.groups, ∀ o ∈ g.object, Plain o := by
  have kept : (l.groups.filter fun g => !g.items.isEmpty) = l.groups :=
    List.filter_eq_self.mpr fun g hg => by simpa using full g hg
  have titles : (Declaration.list l).remarks = l.groups.map (·.title) := by
    change l.statement.comments = _
    rw [statement, kept, Bird.Statement.comments, List.map_map]
    rfl
  rw [titles, List.forall_mem_map]
  exact forall₂_congr fun _ _ => Group.plain_title_iff

namespace Policy
variable {p : Policy}

def objects (p : Policy) : List String :=
  p.asnGroups.filterMap (·.object) ++ Family.all.flatMap fun f => (p.groups f).filterMap (·.object)

theorem plain_objects_iff : (∀ o ∈ p.objects, Plain o) ↔
    ∀ l ∈ ListName.peerAsns p.name :: Family.all.map (.peerNets p.name),
      ∀ g ∈ (p.listed l).groups, ∀ o ∈ g.object, Plain o := by
  have objectsOf : ∀ {α : Type} (text : α → String) (gs : List (Group α)),
      (∀ o ∈ gs.filterMap (·.object), Plain o) ↔
        ∀ g ∈ gs.map (·.map text), ∀ o ∈ g.object, Plain o := by
    intro α text gs
    rw [List.forall_mem_map]
    simp only [List.mem_filterMap, Group.map, Option.mem_def]
    constructor
    · exact fun h g hg o ho => h o ⟨g, hg, ho⟩
    · rintro h o ⟨g, hg, ho⟩
      exact h g hg o ho
  rw [objects, List.forall_mem_append, List.forall_mem_flatMap, List.forall_mem_cons,
    List.forall_mem_map]
  exact and_congr (objectsOf _ _) (forall₂_congr fun f _ => objectsOf _ _)

/-- A list that is left out has no groups, so every object is in a list that is defined. -/
theorem plain_lists_iff (h : p.Proper) : (∀ o ∈ p.objects, Plain o) ↔
    ∀ l ∈ p.listNames, ∀ t ∈ (Declaration.list (p.listed l)).remarks, Plain t := by
  rw [plain_objects_iff]
  constructor
  · exact fun plain l hl => (NamedList.plain_remarks_iff (full_listed h l)).mpr
      (plain l (List.mem_of_mem_filter hl))
  · intro plain l hl g hg
    have listed : l ∈ p.listNames := (mem_listNames_iff h).mpr ⟨hl, List.ne_nil_of_mem hg⟩
    exact (NamedList.plain_remarks_iff (full_listed h l)).mp (plain l listed) g hg

end Policy

namespace Router
open Declaration

/-- No description of a peer and no name of an object has a line break in it. -/
def Unbroken (r : Router) : Prop :=
  ∀ p ∈ r.peers, Plain p.description ∧ ∀ o ∈ p.objects, Plain o

variable {r : Router} {d : Declaration}

theorem Unbroken.plain_remarks (unbroken : r.Unbroken) (proper : ∀ p ∈ r.peers, p.Proper)
    (h : r.Declares d) : ∀ t ∈ d.remarks, Plain t := by
  have said {body : List Filter.Command}
      (plain : ∀ t ∈ Filter.Command.remarks.remarksOf body, Plain t) :
      ∀ t ∈ Bird.comments (body.map (·.statement)), Plain t := by
    rwa [← Filter.Command.statements_eq_map, Filter.Command.comments_statements]
  cases h with
  | blank | routerId | constant | table | peerTable | masterPipe | peerPipe =>
    exact List.forall_mem_nil _
  | headline =>
    exact List.forall_mem_singleton.mpr (by simp +decide [toString, plain_append, plain_nat])
  | set hl =>
    have sets : ∀ l ∈ globalLists, ∀ t ∈ (Declaration.list l).remarks, Plain t := by decide +kernel
    exact sets _ hl
  | peerSet hp hl => exact (Policy.plain_lists_iff (proper _ hp)).mp (unbroken _ hp).2 _ hl
  | shared hg =>
    obtain ⟨_, _, _, silent⟩ := Filter.mem_sharedOf hg
    exact said (silent ▸ List.forall_mem_nil _)
  | originate =>
    simp [remarks, statement, originateStatement, Bird.Statement.comments, Bird.comments,
      Bird.comments_settings]
  | toMaster => exact List.forall_mem_nil _
  | fromMaster f => exact said (Wiring.fromMaster_sound (A := fun _ => True) f r.fromMaster).remarks
  | @peerTitle p hp =>
    have name : Plain p.name := (wordy_of_validName (proper p hp).named).plain
    have role : Plain p.role.name := by cases p.role <;> decide
    exact List.forall_mem_singleton.mpr
      (by simp +decide [toString, plain_append, plain_nat, name, role])
  | rule hp hg =>
    obtain ⟨_, _, sound⟩ := Filter.rulesOfPeer_sound hg
    exact said sound.remarks
  | filter hp _ hg =>
    obtain ⟨_, sound⟩ := (Filter.fit_of_mem_programsOf (proper _ hp) hg).2
    exact said sound.remarks
  | session hp hs =>
    obtain ⟨_, _, rfl⟩ := Option.map_eq_some_iff.mp hs
    exact List.forall_mem_singleton.mpr (unbroken _ hp).1

theorem unbroken_of_remarks (proper : ∀ p ∈ r.peers, p.Proper)
    (plain : ∀ d ∈ r.layout, ∀ t ∈ d.remarks, Plain t) : r.Unbroken := by
  refine fun p hp => ⟨?_, (Policy.plain_lists_iff (proper p hp)).mpr fun l hl =>
    plain _ (peerSet_mem_layout hp hl)⟩
  obtain ⟨f, hf⟩ := (proper p hp).neighbored
  obtain ⟨neighbor, hneighbor⟩ := Option.isSome_iff_exists.mp hf
  have session : ∃ s, Wiring.session? p f r.asn = some s ∧ s.description = p.description :=
    ⟨_, congrArg (Option.map _) hneighbor, rfl⟩
  obtain ⟨s, hs, described⟩ := session
  exact described ▸ plain _ (session_mem_layout hp hs) _ (List.mem_singleton_self _)

theorem stay_layout_iff (proper : ∀ p ∈ r.peers, p.Proper) : Stay r.layout ↔ r.Unbroken := by
  constructor
  · exact fun stay => unbroken_of_remarks proper fun d hd => (plain_statement_iff.mp (stay d hd)).2
  · intro unbroken d hd
    have declared := declares_of_mem hd
    refine plain_statement_iff.mpr ⟨?_, unbroken.plain_remarks proper declared⟩
    exact legible_codes proper declared legible_plain (fun _ _ hw => hw.plain)
      (fun _ _ hw => hw.plain) fun _ => by decide

end Router

/-- The text of a router has the lines that its statements prescribe where no description and no
name of an object has a line break in it, and only there. The quotes around a description are the
only ones in its line. -/
theorem lines_as_prescribed_iff {s : Settings.Router} {reg : Registry} {rt : Router}
    (h : Router.resolve s reg = .ok rt) :
    ∃ ds, rt.declarations = .ok ds ∧ rt.compile = .ok (Declaration.render ds) ∧
      ((∀ t ∈ Bird.texts (ds.map Declaration.statement), Plain t) ↔ rt.Unbroken) ∧
      (lineBreaks (Declaration.render ds) =
        (Bird.lines 0 (ds.map Declaration.statement)).length ↔ rt.Unbroken) ∧
      ∀ session, .session session ∈ ds → ∃ header quoted rest,
        session.statement =
          .block header (.setting ("description \"" ++ quoted ++ "\"") :: rest) false ∧
        '"' ∉ quoted.toList := by
  have proper : ∀ p ∈ rt.peers, p.Proper := by
    intro p hp
    obtain ⟨_, _, resolved⟩ := Router.resolved_peer h hp
    exact resolved.proper
  have texts : (∀ t ∈ Bird.texts (rt.layout.map Declaration.statement), Plain t) ↔
      rt.Unbroken := Declaration.plain_texts_iff.trans (Router.stay_layout_iff proper)
  have breaks := Bird.lineBreaks_render (rt.layout.map Declaration.statement)
  refine ⟨rt.layout, rt.declarations_eq, ?_, texts, ?_, ?_⟩
  · rw [Router.compile, rt.declarations_eq]
    rfl
  · rw [← texts, ← breaksOf_eq_zero_iff, Declaration.render, breaks]
    omega
  · exact fun session _ => ⟨_, _, _, rfl, Session.not_mem_quotable session.description⟩

/-- A description of two lines makes the text longer than its statements. -/
theorem lines_as_prescribed_iff_twoLines :
    let s : Settings.Router := .plain 65000
      [("a", { Settings.Peer.plain .customer 3333 with description := some "one\ntwo" })]
    let rt : Router := .plain 65000
      [{ Policy.plain "a" .customer 3333 with description := "one\ntwo" }]
    Router.resolve s .empty = .ok rt ∧
      ∃ ds, rt.compile = .ok (Declaration.render ds) ∧
        (∃ t ∈ Bird.texts (ds.map Declaration.statement), ¬ Plain t) ∧
        lineBreaks (Declaration.render ds) ≠
          (Bird.lines 0 (ds.map Declaration.statement)).length := by
  intro s rt
  have resolves : Router.resolve s .empty = .ok rt := by
    with_unfolding_all rfl
  have broken : ¬ rt.Unbroken := fun h => absurd (h _ List.mem_cons_self).1 (by decide)
  obtain ⟨ds, _, hcompile, texts, lines, _⟩ := lines_as_prescribed_iff resolves
  refine ⟨resolves, ds, hcompile, ?_, fun heq => broken (lines.mp heq)⟩
  by_contra hnone
  exact broken (texts.mp fun t ht => by_contra fun h => hnone ⟨t, ht, h⟩)

end Peering
