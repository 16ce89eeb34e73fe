import Peering.Proofs.Contents
import Peering.Proofs.Definitions

/-!
What is attached to which table. Nothing gets into a main table or out of it but through the
networks that we originate, the pipe to the master table and one pipe for each peer, whose filters
are those of the peer; a peer reaches no table but its own.
-/
namespace Peering
open Peering.Filter (ofPeer)

namespace Bird

def Statement.settings : Statement → List String
  | setting s => [s]
  | block _ body _ => settingsOf body
  | _ => []
where
  settingsOf : List Statement → List String
    | [] => []
    | s :: ss => s.settings ++ settingsOf ss

def setTo? (key text : String) : Option String :=
  (text.toList.dropPrefix? (key ++ " ").toList).map String.ofList

def Statement.values (key : String) (s : Statement) : List String :=
  s.settings.filterMap (setTo? key)

theorem settingsOf_map {α : Type} (g : α → String) (as : List α) :
    Statement.settings.settingsOf (as.map fun a => .setting (g a)) = as.map g := by
  induction as with
  | nil => rfl
  | cons a as ih =>
    rw [List.map_cons, Statement.settings.settingsOf, ih, Statement.settings, List.singleton_append,
      List.map_cons]

end Bird

namespace Declaration
open Bird (setTo?)

/-- The tables that a declaration joins to something. -/
def attached : Declaration → List Table
  | originate f _ => [.main f]
  | pipe p => [p.table, p.other]
  | session s => [s.table]
  | _ => []

/-- The protocol that is declared has routes from the table or puts routes into it. -/
def isAttachedTo (table : String) (d : Declaration) : Bool :=
  (d.statement.values "table" ++ d.statement.values "peer table").contains table

theorem values_pipe (p : Pipe) :
    p.statement.values "table" = [p.table.name] ∧ p.statement.values "peer table" = [p.other.name] ∧
      p.statement.values "export filter" = [p.outward.name] ∧
      p.statement.values "import filter" = [p.inward.name] := by
  simp [Pipe.statement, Bird.Statement.values, Bird.Statement.settings,
    Bird.Statement.settings.settingsOf, setTo?, List.dropPrefix?, toString]

theorem values_session (s : Session) :
    s.statement.values "table" = [s.table.name] ∧ s.statement.values "peer table" = [] ∧
      s.statement.values "export filter" = [] ∧
      s.statement.values "import filter" = [(FilterName.peer s.family s.peer .receive).name] := by
  cases h : s.localAddress <;> cases hp : s.passive <;> cases hc : s.clusterId <;>
    cases hl : s.limit <;>
    simp [Session.statement, Session.channel, Bird.Statement.values, Bird.Statement.settings,
      Bird.Statement.settings.settingsOf, setTo?, List.dropPrefix?, toString, h, hp, hc, hl]

theorem values_originate (f : Family) (nets : List Network) :
    (originate f nets).statement.values "table" = [(Table.main f).name] ∧
      (originate f nets).statement.values "peer table" = [] ∧
      (originate f nets).statement.values "route" = nets.map fun n => n.text ++ " blackhole" := by
  have settings : (originate f nets).statement.settings =
      s!"table {(Table.main f).name}" :: nets.map fun n => s!"route {n.text} blackhole" := by
    simp [statement, originateStatement, Bird.Statement.settings,
      Bird.Statement.settings.settingsOf, Bird.settingsOf_map]
  have routes (key : String) : (originate f nets).statement.values key =
      (setTo? key s!"table {(Table.main f).name}").toList ++
        nets.filterMap fun n => setTo? key s!"route {n.text} blackhole" := by
    rw [Bird.Statement.values, settings, List.filterMap_cons, List.filterMap_map]
    cases setTo? key s!"table {(Table.main f).name}" <;> rfl
  simp [routes, setTo?, List.dropPrefix?, toString]

theorem isAttachedTo_iff {t : Table} {d : Declaration} :
    d.isAttachedTo t.name = true ↔ t ∈ d.attached := by
  have values : d.statement.values "table" ++ d.statement.values "peer table" =
      d.attached.map Table.name := by
    cases d with
    | originate f nets =>
      obtain ⟨table, other, _⟩ := values_originate f nets
      rw [table, other]
      rfl
    | pipe p =>
      obtain ⟨table, other, _⟩ := values_pipe p
      rw [statement, table, other]
      rfl
    | session s =>
      obtain ⟨table, other, _⟩ := values_session s
      rw [statement, table, other]
      rfl
    | table t =>
      cases hf : t.family <;>
        simp [statement, Bird.Statement.values, Bird.Statement.settings, setTo?, List.dropPrefix?,
          toString, attached, Family.channel, hf]
    | routerId a =>
      simp [statement, Bird.Statement.values, Bird.Statement.settings, setTo?, List.dropPrefix?,
        toString, attached]
    | blank | comment s | constant c value | list l | function g | filter g => rfl
  rw [isAttachedTo, List.contains_iff_mem, values, List.mem_map]
  constructor
  · rintro ⟨u, hu, hname⟩
    exact Table.name_inj hname ▸ hu
  · exact fun ht => ⟨t, ht, rfl⟩

theorem filter_named {ds : List Declaration} (hn : (names ds).Nodup) {d : Declaration} (hd : d ∈ ds)
    {n : String} (h : d.name? = some n) : ds.filter (fun e => e.name? = some n) = [d] := by
  induction ds with
  | nil => exact nomatch hd
  | cons e es ih =>
    rw [names_cons] at hn
    obtain ⟨_, hes, hfresh⟩ := List.nodup_append.mp hn
    have fresh : e.name? = some n → n ∉ names es := fun he hmem =>
      hfresh n (by simp [he]) n hmem rfl
    obtain rfl | hd := List.mem_cons.mp hd
    · have others : es.filter (fun e => e.name? = some n) = [] :=
        List.filter_eq_nil_iff.mpr fun e he hname =>
          fresh h (List.mem_filterMap.mpr ⟨e, he, of_decide_eq_true hname⟩)
      rw [List.filter_cons, if_pos (decide_eq_true h), others]
    · have other : e.name? ≠ some n := fun he => fresh he (List.mem_filterMap.mpr ⟨d, hd, h⟩)
      rw [List.filter_cons_of_neg (by simpa using other), ih hes hd]

def session? : Declaration → Option Session
  | session s => some s
  | _ => none

def isProtocol : Declaration → Bool
  | originate .. | pipe _ | session _ => true
  | _ => false

end Declaration

namespace Router
open Declaration
variable (r : Router)

def masterPipe (f : Family) : Pipe :=
  ⟨.masterPipe f, .main f, .master f, .toMaster f, .fromMaster f⟩

def peerProtocols (p : Policy) (f : Family) : List Declaration :=
  .pipe (Wiring.peerPipe p f) :: ((Wiring.session? p f r.asn).map .session).toList

def protocols : List Declaration :=
  (Family.all.flatMap fun f => Wiring.originate f r.originate ++ [.pipe (masterPipe f)]) ++
    r.peers.flatMap fun p => p.families.flatMap (r.peerProtocols p)

theorem filter_map_of_not {α : Type} {mk : α → Declaration} (h : ∀ a, (mk a).isProtocol = false)
    (as : List α) : (as.map mk).filter (·.isProtocol) = [] := by
  refine List.filter_eq_nil_iff.mpr ?_
  rw [List.forall_mem_map]
  exact fun a _ => by simp [h a]

theorem filter_wiringLayout (f : Family) : (r.wiringLayout f).filter (·.isProtocol) =
    Wiring.originate f r.originate ++ [.pipe (masterPipe f)] := by
  have tables : (Wiring.tables f r.peers).filter (·.isProtocol) = [] :=
    filter_map_of_not (fun _ => rfl) _
  have originate : (Wiring.originate f r.originate).filter (·.isProtocol) =
      Wiring.originate f r.originate := by
    unfold Wiring.originate
    split <;> rfl
  rw [wiringLayout, List.filter_append, List.filter_append, List.filter_append, tables, originate]
  simp [Wiring.master, isProtocol, masterPipe]

theorem filter_familyLayout (p : Policy) (f : Family) :
    (r.familyLayout p f).filter (·.isProtocol) = r.peerProtocols p f := by
  have session : (((Wiring.session? p f r.asn).map .session).toList : List Declaration).filter
      (·.isProtocol) = ((Wiring.session? p f r.asn).map .session).toList := by
    cases Wiring.session? p f r.asn <;> rfl
  rw [familyLayout, List.filter_append, filter_map_of_not (fun _ => rfl), List.nil_append,
    List.filter_cons_of_pos rfl, session, peerProtocols]

theorem filter_peerLayout (p : Policy) :
    (r.peerLayout p).filter (·.isProtocol) = p.families.flatMap (r.peerProtocols p) := by
  rw [peerLayout, List.filter_append, List.filter_append, List.filter_flatMap,
    funext (r.filter_familyLayout p), List.filter_cons_of_neg (by simp [isProtocol]),
    filter_map_of_not (fun _ => rfl)]
  simp [isProtocol]

theorem filter_isProtocol : r.layout.filter (·.isProtocol) = r.protocols := by
  have header : r.header.filter (·.isProtocol) = [] := by
    rw [header]
    cases r.routerId <;> rfl
  have constants : (constants r.asn).filter (·.isProtocol) = [] := rfl
  have lists : (r.peers.flatMap peerLists).filter (·.isProtocol) = [] := by
    rw [List.filter_flatMap, List.flatMap_eq_nil_iff]
    intro p _
    rw [peerLists_eq]
    exact filter_map_of_not (fun _ => rfl) _
  have shared : ((Filter.sharedOf r.asn).map Declaration.function).filter (·.isProtocol) = [] :=
    filter_map_of_not (fun _ => rfl) _
  have blank : [Declaration.blank].filter (·.isProtocol) = [] := rfl
  simp only [layout, List.filter_append, List.filter_flatMap, header, constants, lists, shared,
    blank, r.filter_wiringLayout, r.filter_peerLayout, List.nil_append, protocols]

theorem filter_layout {Q : Declaration → Bool} (h : ∀ d, Q d = true → d.isProtocol = true) :
    r.layout.filter Q = r.protocols.filter Q := by
  rw [← filter_isProtocol, List.filter_filter]
  congr 1
  funext d
  cases hQ : Q d with
  | false => rfl
  | true => rw [h d hQ]; rfl

section Attached
variable {r} {p : Policy} {f : Family}

theorem filter_attached (t : Table) : r.layout.filter (·.isAttachedTo t.name) =
    r.protocols.filter fun d => decide (t ∈ d.attached) := by
  have attaches : ∀ d : Declaration, d.isAttachedTo t.name = decide (t ∈ d.attached) := fun d =>
    Bool.eq_iff_iff.mpr (isAttachedTo_iff.trans decide_eq_true_iff.symm)
  rw [funext attaches]
  refine r.filter_layout fun d hd => ?_
  cases d with
  | originate | pipe | session => rfl
  | blank | comment | routerId | constant | list | function | filter | table =>
    exact absurd (of_decide_eq_true hd) List.not_mem_nil

theorem flatMap_all {α : Type} (k : Family → List α) (f : Family) :
    (Family.all.flatMap fun g => if f = g then k g else []) = k f := by
  cases f <;> simp [Family.all]

theorem flatMap_families {α : Type} (k : Family → List α) (p : Policy) (f : Family) :
    (p.families.flatMap fun g => if f = g then k g else []) =
      if p.hasFamily f then k f else [] := by
  cases h4 : p.hasFamily .v4 <;> cases h6 : p.hasFamily .v6 <;> cases f <;>
    simp [Policy.families, Family.all, h4, h6]

theorem flatMap_if {α β : Type} (b : α → Bool) (k : α → β) (as : List α) :
    (as.flatMap fun a => if b a then [k a] else []) = (as.filter b).map k := by
  induction as with
  | nil => rfl
  | cons a as ih => cases h : b a <;> simp [h, ih]

theorem flatMap_of_key {α β κ : Type} [DecidableEq κ] {key : α → κ} {as : List α} {a : α}
    (keys : (as.map key).Nodup) (ha : a ∈ as) (k : α → List β) :
    (as.flatMap fun c => if key a = key c then k c else []) = k a := by
  induction as with
  | nil => exact nomatch ha
  | cons c as ih =>
    obtain ⟨hfresh, hrest⟩ := List.nodup_cons.mp keys
    rw [List.flatMap_cons]
    obtain rfl | ha := List.mem_cons.mp ha
    · have others : (as.flatMap fun c => if key a = key c then k c else []) = [] := by
        refine List.flatMap_eq_nil_iff.mpr fun c hc => if_neg fun heq => hfresh ?_
        exact heq ▸ List.mem_map_of_mem hc
      rw [if_pos rfl, others, List.append_nil]
    · have other : key a ≠ key c := fun heq => hfresh (heq ▸ List.mem_map_of_mem ha)
      rw [if_neg other, List.nil_append, ih hrest ha]

theorem attached_main (r : Router) (f : Family) :
    r.layout.filter (·.isAttachedTo (Table.main f).name) =
      Wiring.originate f r.originate ++ .pipe (masterPipe f) ::
        (r.peers.filter (·.hasFamily f)).map fun p => .pipe (Wiring.peerPipe p f) := by
  have wiring (g : Family) :
      (Wiring.originate g r.originate ++ [Declaration.pipe (masterPipe g)]).filter
        (fun d => decide (Table.main f ∈ d.attached)) =
          if f = g then Wiring.originate g r.originate ++ [.pipe (masterPipe g)] else [] := by
    unfold Wiring.originate
    split <;> by_cases hg : f = g <;> simp [attached, masterPipe, hg]
  have peer (p : Policy) (g : Family) : (r.peerProtocols p g).filter
      (fun d => decide (Table.main f ∈ d.attached)) =
        if f = g then [.pipe (Wiring.peerPipe p g)] else [] := by
    cases h : Wiring.session? p g r.asn <;> by_cases hg : f = g <;>
      simp [peerProtocols, attached, Wiring.peerPipe, Session.table, h, hg]
  rw [filter_attached, protocols, List.filter_append, List.filter_flatMap, List.filter_flatMap,
    funext wiring, flatMap_all, List.append_assoc, List.singleton_append]
  simp only [List.filter_flatMap, peer, flatMap_families, flatMap_if]

theorem attached_peer (hn : (r.peers.map (·.name)).Nodup) (hp : p ∈ r.peers) (f : Family) :
    r.layout.filter (·.isAttachedTo (Table.peer f p.name).name) =
      if p.hasFamily f then r.peerProtocols p f else [] := by
  have wiring (g : Family) :
      (Wiring.originate g r.originate ++ [Declaration.pipe (masterPipe g)]).filter
        (fun d => decide (Table.peer f p.name ∈ d.attached)) = [] := by
    unfold Wiring.originate
    split <;> simp [attached, masterPipe]
  have peer (q : Policy) (g : Family) : (r.peerProtocols q g).filter
      (fun d => decide (Table.peer f p.name ∈ d.attached)) =
        if f = g then if p.name = q.name then r.peerProtocols q g else [] else [] := by
    cases h : Wiring.session? q g r.asn with
    | none =>
      by_cases hg : f = g <;> by_cases hq : p.name = q.name <;>
        simp [peerProtocols, attached, Wiring.peerPipe, h, hg, hq]
    | some s =>
      obtain ⟨_, _, rfl⟩ := Option.map_eq_some_iff.mp h
      by_cases hg : f = g <;> by_cases hq : p.name = q.name <;>
        simp [peerProtocols, attached, Wiring.peerPipe, Session.table, h, hg, hq]
  have ofPeer (q : Policy) : ((q.families.flatMap (r.peerProtocols q)).filter
      fun d => decide (Table.peer f p.name ∈ d.attached)) =
        if p.name = q.name then if q.hasFamily f then r.peerProtocols q f else [] else [] := by
    rw [List.filter_flatMap, funext (peer q), flatMap_families]
    by_cases hq : p.name = q.name <;> simp [hq]
  rw [filter_attached, protocols, List.filter_append, List.filter_flatMap, List.filter_flatMap,
    funext wiring, funext ofPeer, flatMap_of_key hn hp]
  simp

theorem sessions_layout (r : Router) (f : Family) :
    (r.layout.filterMap session?).filter (fun s => s.family = f) =
      r.peers.filterMap fun p => Wiring.session? p f r.asn := by
  have protocols : r.layout.filterMap session? = r.protocols.filterMap session? := by
    rw [← filter_isProtocol, List.filterMap_filter]
    congr 1
    funext d
    cases d <;> rfl
  have wiring (g : Family) : (Wiring.originate g r.originate ++
      [Declaration.pipe (masterPipe g)]).filterMap session? = [] := by
    unfold Wiring.originate
    split <;> rfl
  have sessions (p : Policy) (g : Family) :
      (r.peerProtocols p g).filterMap session? = (Wiring.session? p g r.asn).toList := by
    unfold peerProtocols
    cases Wiring.session? p g r.asn <;> rfl
  have peer (p : Policy) (g : Family) :
      ((r.peerProtocols p g).filterMap session?).filter (fun s => s.family = f) =
        if f = g then (Wiring.session? p g r.asn).toList else [] := by
    rw [sessions]
    cases h : Wiring.session? p g r.asn with
    | none => simp
    | some s =>
      obtain ⟨_, _, rfl⟩ := Option.map_eq_some_iff.mp h
      simp [List.filter_cons, @eq_comm _ g f]
  have ofPeer (p : Policy) :
      (if p.hasFamily f then (Wiring.session? p f r.asn).toList else []) =
        (Wiring.session? p f r.asn).toList := by
    cases h : p.neighbor f <;> simp [Policy.hasFamily, Wiring.session?, h]
  rw [protocols, Router.protocols, List.filterMap_append, List.filterMap_flatMap,
    List.filterMap_flatMap, funext wiring, List.filterMap_eq_flatMap_toList]
  simp only [List.filterMap_flatMap, List.filter_append, List.filter_flatMap, peer,
    flatMap_families, ofPeer]
  simp

end Attached

section Named
variable {r} {p : Policy} {f : Family} {s : Symbol}

def outfit (p : Policy) (f : Family) : List Symbol :=
  .table (.peer f p.name) :: (Stage.all.map fun stage => .filter (.peer f p.name stage)) ++
    [.protocol (.peerPipe f p.name), .protocol (.session f p.name)]

theorem mem_symbols_iff_hasFamily (hn : (r.peers.map (·.name)).Nodup) (hp : p ∈ r.peers)
    (hs : s ∈ outfit p f) : s ∈ r.symbols ↔ p.hasFamily f = true := by
  have same {q : Policy} (hq : q ∈ r.peers) (hname : q.name = p.name) : q = p :=
    List.inj_on_of_nodup_map hn hq hp hname
  rw [outfit, List.cons_append, List.mem_cons] at hs
  obtain rfl | hs := hs
  · rw [mem_symbols_iff]
    change _ ∈ Family.all.flatMap r.wiringSymbols ↔ _
    constructor
    · intro hmem
      obtain ⟨g, _, hmem⟩ := List.mem_flatMap.mp hmem
      simp only [wiringSymbols, Symbol.joints, List.mem_append, List.mem_cons, List.mem_map,
        List.mem_ite_nil_left, List.not_mem_nil, or_false, Symbol.table.injEq, Table.peer.injEq,
        reduceCtorEq, and_false, false_or] at hmem
      obtain ⟨q, hq, rfl, hname⟩ := hmem
      obtain ⟨hq, hf⟩ := List.mem_filter.mp hq
      exact same hq hname ▸ hf
    · intro hf
      have kept : p ∈ r.peers.filter (·.hasFamily f) := List.mem_filter.mpr ⟨hp, hf⟩
      have table := List.mem_map_of_mem (f := fun q => Symbol.table (.peer f q.name)) kept
      refine List.mem_flatMap.mpr ⟨f, f.mem_all, ?_⟩
      exact List.mem_append_left _ (List.mem_append_left _ (List.mem_cons_of_mem _ table))
  · have shape : s.IsOf p.name ∧ s.family? = some f ∧ s.chapter = .peers ∧
        (p.hasFamily f = true → s ∈ p.familySymbols f) := by
      simp only [Stage.all, List.map_cons, List.map_nil, List.cons_append, List.nil_append,
        List.mem_cons, List.not_mem_nil, or_false] at hs
      obtain rfl | rfl | rfl | rfl | rfl := hs
      all_goals
        refine ⟨rfl, rfl, rfl, fun hf => ?_⟩
        obtain ⟨_, hneighbor⟩ := Option.isSome_iff_exists.mp hf
        simp [Policy.familySymbols, Stage.all, hneighbor]
    obtain ⟨isOf, family, chapter, mem⟩ := shape
    rw [mem_symbols_of_peer_iff isOf family chapter]
    constructor
    · rintro ⟨q, hq, hname, hf, _⟩
      exact same hq hname ▸ hf
    · exact fun hf => ⟨p, hp, rfl, hf, mem hf⟩

/-- Where no peer is called `master`, the names of a peer are its own. -/
theorem mem_names_iff_hasFamily (hn : (r.peers.map (·.name)).Nodup)
    (valid : ∀ p ∈ r.peers, Policy.validName p.name = true) (hp : p ∈ r.peers)
    (notMaster : p.name ≠ "master") (hs : s ∈ outfit p f) :
    s.name ∈ names r.layout ↔ p.hasFamily f = true := by
  have shape : s.Proper ∧ (∀ g, s ∉ Symbol.joints g) ∧
      ∀ g, ∀ t ∈ Symbol.joints g, s ≠ t.asPeer := by
    simp only [outfit, Stage.all, List.map_cons, List.map_nil, List.cons_append, List.nil_append,
      List.mem_cons, List.not_mem_nil, or_false] at hs
    obtain rfl | rfl | rfl | rfl | rfl | rfl := hs
    all_goals
      exact ⟨trivial, by simp [Symbol.joints], by
        simp [Symbol.joints, Symbol.asPeer, FilterName.asPeer, Protocol.asPeer, notMaster]⟩
  obtain ⟨proper, noJoint, unlike⟩ := shape
  rw [← mem_symbols_iff_hasFamily hn hp hs, r.names_layout, List.mem_map]
  constructor
  · rintro ⟨t, ht, hname⟩
    have same : t.asPeer = s.asPeer :=
      (Symbol.name_eq_iff (proper_of_mem valid ht) proper).mp hname
    by_contra hnot
    obtain ⟨g, ⟨hjoint, heq⟩ | ⟨hjoint, _⟩⟩ :=
      Symbol.joints_of_asPeer same fun h : t = s => hnot (h ▸ ht)
    · exact unlike g t hjoint heq
    · exact noJoint g hjoint
  · exact fun h => ⟨s, h, rfl⟩

end Named

theorem resolve_originate {s : Settings.Router} {reg : Registry} {rt : Router}
    (h : resolve s reg = .ok rt) : s.originate.map readOriginate = rt.originate.map .ok :=
  mapM_eq_ok.mp (resolve_eq_ok_iff.mp h).2.1

def networks (r : Router) (f : Family) : List Network := r.originate.filter fun n => n.family = f

/-- How a peer is joined to the main table of a family: its own table has one pipe and one session,
and the filters that these name are defined once, as the programs of the peer. -/
structure Joins (r : Router) (ds : List Declaration) (p : Policy) (f : Family) (s : Session) :
    Prop where
  session : Wiring.session? p f r.asn = some s
  attached : ds.filter (·.isAttachedTo (Table.peer f p.name).name) =
    [.pipe (Wiring.peerPipe p f), .session s]
  pipeTable : (Wiring.peerPipe p f).statement.values "table" = [(Table.peer f p.name).name]
  pipeOther : (Wiring.peerPipe p f).statement.values "peer table" = [(Table.main f).name]
  pipeExport : (Wiring.peerPipe p f).statement.values "export filter" =
    [(FilterName.peer f p.name .toMain).name]
  pipeImport : (Wiring.peerPipe p f).statement.values "import filter" =
    [(FilterName.peer f p.name .toPeer).name]
  sessionTable : s.statement.values "table" = [(Table.peer f p.name).name]
  sessionImport : s.statement.values "import filter" = [(FilterName.peer f p.name .receive).name]
  programs : ∀ stage, ∃ program, ofPeer ⟨some r.asn⟩ p f stage = .ok program ∧
    ds.filter (fun d => d.name? = some (FilterName.peer f p.name stage).name) = [.filter program]

theorem joins_of_hasFamily {r : Router} (hn : (r.peers.map (·.name)).Nodup)
    (names : (names r.layout).Nodup) {p : Policy} (hp : p ∈ r.peers) {f : Family}
    (hf : p.hasFamily f = true) : ∃ s, r.Joins r.layout p f s := by
  obtain ⟨neighbor, hneighbor⟩ := Option.isSome_iff_exists.mp hf
  obtain ⟨s, hs, family, peer⟩ : ∃ s, Wiring.session? p f r.asn = some s ∧ s.family = f ∧
      s.peer = p.name := ⟨_, congrArg (Option.map _) hneighbor, rfl, rfl⟩
  obtain ⟨pipeTable, pipeOther, pipeExport, pipeImport⟩ := values_pipe (Wiring.peerPipe p f)
  obtain ⟨sessionTable, _, _, sessionImport⟩ := values_session s
  rw [Session.table, family, peer] at sessionTable
  rw [family, peer] at sessionImport
  have attached := attached_peer hn hp f
  rw [if_pos hf, peerProtocols, hs] at attached
  refine ⟨s, hs, attached, pipeTable, pipeOther, pipeExport, pipeImport, sessionTable,
    sessionImport, fun stage => ?_⟩
  obtain ⟨program, hprogram⟩ := Filter.exists_ofPeer r.asn p f stage
  refine ⟨program, hprogram, filter_named names (program_mem_layout hp hf hprogram) ?_⟩
  rw [name?, Filter.name_ofPeer hprogram]

end Router

/-- The main table is confined: attached to it are what we originate, the pipe to the master table
and one pipe for each peer with the family, which passes routes as the programs of that peer say.
There is one session for each such peer, attached to the table of the peer only; a peer without the
family has nothing. -/
theorem main_table_confined {s : Settings.Router} {reg : Registry} {rt : Router}
    (hs : (s.peers.map Prod.fst).Nodup) (notMaster : ∀ x ∈ s.peers, x.1 ≠ "master")
    (h : Router.resolve s reg = .ok rt) :
    ∃ ds, rt.declarations = .ok ds ∧
      s.originate.map Router.readOriginate = rt.originate.map .ok ∧
      ∀ f,
        ds.filter (·.isAttachedTo (Table.main f).name) =
          (if rt.networks f = [] then [] else [Declaration.originate f (rt.networks f)]) ++
            .pipe ⟨.masterPipe f, .main f, .master f, .toMaster f, .fromMaster f⟩ ::
              (rt.peers.filter (·.hasFamily f)).map (fun p => .pipe (Wiring.peerPipe p f)) ∧
        (Declaration.originate f (rt.networks f)).statement.values "route" =
          (rt.networks f).map (fun n => n.text ++ " blackhole") ∧
        (ds.filterMap Declaration.session?).filter (fun s => s.family = f) =
          rt.peers.filterMap (fun p => Wiring.session? p f rt.asn) ∧
        ∀ p ∈ rt.peers,
          (p.hasFamily f = true → ∃ session, rt.Joins ds p f session) ∧
          (p.hasFamily f = false →
            Wiring.session? p f rt.asn = none ∧
            ds.filter (·.isAttachedTo (Table.peer f p.name).name) = [] ∧
            ∀ x ∈ Router.outfit p f, x.name ∉ Declaration.names ds) := by
  have valid : ∀ p ∈ rt.peers, Policy.validName p.name = true := fun p hp =>
    (Policy.Proper.of_resolve h p hp).named
  have hn := Router.nodup_names_resolve hs h
  have peerNames : ∀ p ∈ rt.peers, p.name ≠ "master" := by
    intro p hp
    obtain ⟨stanza, hmem, _⟩ := Router.resolved_peer h hp
    exact notMaster _ hmem
  have names : (Declaration.names rt.layout).Nodup :=
    List.nodup_iff_forall_not_duplicate.mpr fun n hdup => by
      obtain ⟨_, ⟨p, hp, hname, _⟩, _⟩ := (Router.duplicate_names_iff hn valid).mp hdup
      exact peerNames p hp hname
  refine ⟨rt.layout, rt.declarations_eq, Router.resolve_originate h, fun f =>
    ⟨?_, (Declaration.values_originate f _).2.2, Router.sessions_layout rt f, fun p hp =>
      ⟨fun hf => Router.joins_of_hasFamily hn names hp hf, fun hf => ?_⟩⟩⟩
  · have originate : Wiring.originate f rt.originate =
        if rt.networks f = [] then [] else [.originate f (rt.networks f)] := by
      unfold Wiring.originate Router.networks
      split <;> simp_all
    rw [← originate]
    exact Router.attached_main rt f
  · have attached := Router.attached_peer hn hp f
    rw [hf, if_neg Bool.false_ne_true] at attached
    refine ⟨?_, attached, fun x hx hmem => ?_⟩
    · have without : p.neighbor f = none :=
        Option.isNone_iff_eq_none.mp (Option.isSome_eq_false_iff.mp hf)
      rw [Wiring.session?, without]
      rfl
    · have present := (Router.mem_names_iff_hasFamily hn valid hp (peerNames p hp) hx).mp hmem
      exact absurd (hf.symm.trans present) Bool.false_ne_true

/-- Two customers, one for each family: the pipe of only one of them leads to the main table of
IPv4, and nothing is there for the other one. -/
theorem main_table_confined_twoCustomers :
    let b : Settings.Peer := { Settings.Peer.plain .customer 1136 with
      neighbor4 := none, neighbor6 := some 1 }
    let s : Settings.Router :=
      { Settings.Router.plain 65000 [("a", .plain .customer 3333), ("b", b)] with
        originate := ["10.0.0.0/8"] }
    let p : Policy := .plain "a" .customer 3333
    let q : Policy := { Policy.plain "b" .customer 1136 with
      neighbor4 := none, neighbor6 := some 1 }
    let net : Network := ⟨.v4 167772160, 8⟩
    let rt : Router := { Router.plain 65000 [p, q] with originate := [net] }
    Router.resolve s .empty = .ok rt ∧
      ∃ ds, rt.declarations = .ok ds ∧
        ds.filter (·.isAttachedTo "t_bgp4") =
          [.originate .v4 [net],
            .pipe ⟨.masterPipe .v4, .main .v4, .master .v4, .toMaster .v4, .fromMaster .v4⟩,
            .pipe (Wiring.peerPipe p .v4)] ∧
        (∃ session, rt.Joins ds q .v6 session) ∧
        ds.filter (·.isAttachedTo "t_bgp4_b_peer") = [] ∧
        "bgp4_b" ∉ Declaration.names ds := by
  intro b s p q net rt
  have resolves : Router.resolve
      { Settings.Router.plain 65000 [("a", .plain .customer 3333),
          ("b", { Settings.Peer.plain .customer 1136 with
            neighbor4 := none, neighbor6 := some 1 })] with
        originate := ["10.0.0.0/8"] } .empty =
      .ok { Router.plain 65000 [.plain "a" .customer 3333,
          { Policy.plain "b" .customer 1136 with neighbor4 := none, neighbor6 := some 1 }] with
        originate := [⟨.v4 167772160, 8⟩] } := by
    with_unfolding_all rfl
  have keys : (s.peers.map Prod.fst).Nodup := by simp [s, Settings.Router.plain]
  have others : ∀ x ∈ s.peers, x.1 ≠ "master" := by simp [s, Settings.Router.plain]
  obtain ⟨ds, hds, _, confined⟩ := main_table_confined keys others resolves
  obtain ⟨attached, _, _, _⟩ := confined .v4
  obtain ⟨_, _, _, six⟩ := confined .v6
  have hq : q ∈ rt.peers := List.mem_cons_of_mem _ (List.mem_singleton_self q)
  obtain ⟨_, unattached, unnamed⟩ := ((confined .v4).2.2.2 q hq).2 rfl
  have session : .protocol (.session .v4 "b") ∈ Router.outfit q .v4 :=
    List.mem_append_right _ (List.mem_cons_of_mem _ (List.mem_singleton_self _))
  exact ⟨resolves, ds, hds, attached, (six q hq).1 rfl, unattached, unnamed _ session⟩

end Peering
