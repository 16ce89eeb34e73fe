import Peering.Proofs.Layout
import Peering.Proofs.LineBreaks
import Peering.Proofs.Names

/-!
The symbols that a router configuration defines, in the order of their definitions. As data, those
that may have the same name are what joins the main table to the master table and what a peer called
`master` has.
-/
namespace Peering
open Peering.Filter (rulesOfPeer sharedOf)

/-- What a declaration gives a name to. -/
inductive Symbol where
  | constant (c : Constant)
  | list (l : ListName)
  | function (f : FunctionName)
  | filter (n : FilterName)
  | table (t : Table)
  | protocol (p : Protocol)
  deriving DecidableEq, Repr

def Declaration.name? : Declaration → Option String
  | constant c _ => some c.name
  | list l => some l.name
  | function f => some f.name.name
  | filter f => some f.name.name
  | table t => some t.name
  | originate f _ => some (Protocol.originate f).name
  | pipe p => some p.name.name
  | session s => some (Protocol.session s.family s.peer).name
  | blank | comment _ | routerId _ => none

def Declaration.keyword : Declaration → String
  | table t => t.family.channel ++ " table "
  | originate .. => "protocol static "
  | pipe _ => "protocol pipe "
  | session _ => "protocol bgp "
  | _ => ""

theorem Declaration.head?_texts {d : Declaration} {n : String} (h : d.name? = some n) :
    d.statement.texts.head? = some (d.keyword ++ n) := by
  cases d <;> simp only [name?, Option.some.injEq, reduceCtorEq] at h
  all_goals
    obtain rfl := h
    simp [statement, keyword, Bird.Statement.texts, NamedList.statement, Filter.Function.statement,
      Filter.Program.statement, originateStatement, Pipe.statement, Session.statement, toString]

def Declaration.names (ds : List Declaration) : List String := ds.filterMap name?

namespace Symbol

def name : Symbol → String
  | constant c => c.name
  | list l => l.name
  | function f => f.name
  | filter n => n.name
  | table t => t.name
  | protocol p => p.name

def Proper : Symbol → Prop
  | list l => ∀ p ∈ l.peer?, Policy.validName p = true
  | function f => ∀ b ∈ Filter.base? f, ∃ p d, b = ruleBase p d
  | _ => True

section Names

inductive Kind where
  | constant | list | function | filter | table | protocol
  deriving DecidableEq

def kind : Symbol → Kind
  | constant _ => .constant
  | list _ => .list
  | function _ => .function
  | filter _ => .filter
  | table _ => .table
  | protocol _ => .protocol

def Kind.ofChars : List Char → Kind
  | 'B' :: 'G' :: 'P' :: '_' :: 'P' :: 'E' :: _ => .list
  | 'B' :: 'G' :: _ => .constant
  | 'B' :: _ | 'T' :: _ => .list
  | 'b' :: 'g' :: 'p' :: '_' :: _ => .function
  | 'f' :: _ => .filter
  | 't' :: _ | 'm' :: _ => .table
  | _ => .protocol

theorem kind_function (f : FunctionName) (h : (function f).Proper) :
    Kind.ofChars f.name.toList = .function := by
  cases f with
  | shared f =>
    rcases f with (_ | _) | (_ | _) | (_ | _) | _ | _ | _ | _ | _ | _ | (_ | _) | _ <;> rfl
  | rule f =>
    cases f with
    | one base i =>
      obtain ⟨p, d, rfl⟩ := h base rfl
      simp [FunctionName.name, RuleFunction.name, ruleBase, toString, Kind.ofChars]
    | every base =>
      obtain ⟨p, d, rfl⟩ := h base rfl
      simp [FunctionName.name, RuleFunction.name, ruleBase, toString, Kind.ofChars]

theorem kind_name (s : Symbol) (h : s.Proper) : Kind.ofChars s.name.toList = s.kind := by
  cases s with
  | constant c => rcases c with _ | (_ | _) | (_ | _) | _ | _ | _ <;> rfl
  | list l =>
    rcases l with (_ | _) | _ | _ | _ | _ <;>
      simp [name, ListName.name, toString, Kind.ofChars, kind, Family.digit]
  | function f => exact kind_function f h
  | filter n =>
    rcases n with ⟨_ | _, _, _⟩ | (_ | _) | (_ | _) <;>
      simp [name, FilterName.name, toString, Kind.ofChars, kind, Family.digit]
  | table t =>
    rcases t with (_ | _) | ⟨_ | _, _⟩ | (_ | _) <;>
      simp [name, Table.name, toString, Kind.ofChars, kind, Family.digit, Family.masterTable]
  | protocol p =>
    rcases p with (_ | _) | (_ | _) | ⟨_ | _, _⟩ | ⟨_ | _, _⟩ <;>
      simp [name, Protocol.name, toString, Kind.ofChars, kind, Family.digit]

def asPeer : Symbol → Symbol
  | filter n => filter n.asPeer
  | protocol p => protocol p.asPeer
  | s => s

theorem name_asPeer (s : Symbol) : s.asPeer.name = s.name := by
  cases s with
  | filter n => exact n.name_asPeer
  | protocol p => exact p.name_asPeer
  | _ => rfl

theorem name_eq_iff {s t : Symbol} (hs : s.Proper) (ht : t.Proper) :
    s.name = t.name ↔ s.asPeer = t.asPeer := by
  constructor
  · intro h
    have hkind : s.kind = t.kind := by rw [← kind_name s hs, ← kind_name t ht, h]
    cases s <;> cases t <;> simp only [kind, reduceCtorEq] at hkind
    case constant.constant => rw [Constant.name_inj h]
    case list.list => rw [ListName.name_inj hs ht h]
    case function.function => rw [FunctionName.name_inj hs ht h]
    case filter.filter => rw [asPeer, asPeer, FilterName.name_eq_iff.mp h]
    case table.table => rw [Table.name_inj h]
    case protocol.protocol => rw [asPeer, asPeer, Protocol.name_eq_iff.mp h]
  · intro h
    rw [← s.name_asPeer, h, t.name_asPeer]

/-- What joins the main table of a family to the master table. -/
def joints (f : Family) : List Symbol :=
  [filter (.toMaster f), filter (.fromMaster f), protocol (.masterPipe f)]

theorem ne_asPeer_of_mem_joints {f : Family} {s : Symbol} (h : s ∈ joints f) : s ≠ s.asPeer := by
  simp only [joints, List.mem_cons, List.not_mem_nil, or_false] at h
  obtain rfl | rfl | rfl := h <;> simp [asPeer, FilterName.asPeer, Protocol.asPeer]

/-- Two symbols with one name are one of the joints and that of a peer. -/
theorem joints_of_asPeer {s t : Symbol} (h : s.asPeer = t.asPeer) (hne : s ≠ t) :
    ∃ f, (s ∈ joints f ∧ t = s.asPeer) ∨ (t ∈ joints f ∧ s = t.asPeer) := by
  cases s <;> cases t <;> simp only [asPeer, reduceCtorEq] at h
  case filter.filter m n =>
    cases m <;> cases n <;> simp_all [joints, FilterName.asPeer, asPeer]
  case protocol.protocol p q =>
    cases p <;> cases q <;> simp_all [joints, Protocol.asPeer, asPeer]
  all_goals exact absurd h hne

end Names

end Symbol

inductive Chapter where
  | constants | sets | peerSets | shared | wiring | peers
  deriving DecidableEq

def Chapter.all : List Chapter := [.constants, .sets, .peerSets, .shared, .wiring, .peers]

def Symbol.chapter : Symbol → Chapter
  | constant _ => .constants
  | list (.peerAsns _) | list (.peerNets ..) => .peerSets
  | list _ => .sets
  | function (.shared _) => .shared
  | function (.rule _) | filter (.peer ..) => .peers
  | protocol (.peerPipe ..) | protocol (.session ..) => .peers
  | table _ | filter _ | protocol _ => .wiring

namespace Policy
variable (p : Policy)

def listed (l : ListName) : NamedList where
  name := l.name
  groups :=
    match l with
    | .peerNets _ f => (p.groups f).map (·.map Pattern.text)
    | _ => p.asnGroups.map (·.map Filter.asnText)

def listNames : List ListName :=
  (.peerAsns p.name :: Family.all.map (.peerNets p.name)).filter fun l => !(p.listed l).isEmpty

def familySymbols (f : Family) : List Symbol :=
  (Stage.all.map fun s => .filter (.peer f p.name s)) ++ .protocol (.peerPipe f p.name) ::
    ((p.neighbor f).map fun _ => .protocol (.session f p.name)).toList

def symbols : List Symbol :=
  ((rulesOfPeer p).map fun g => .function g.name) ++ p.families.flatMap p.familySymbols

end Policy

namespace Router
variable (r : Router)

def wiringSymbols (f : Family) : List Symbol :=
  .table (.main f) :: ((r.peers.filter (·.hasFamily f)).map fun p => .table (.peer f p.name)) ++
    (if (r.originate.filter fun n => n.family = f) = [] then [] else [.protocol (.originate f)]) ++
    Symbol.joints f

def symbolsOf : Chapter → List Symbol
  | .constants => Constant.all.map .constant
  | .sets => [.list (.bogons .v4), .list (.bogons .v6), .list .bogonAsns, .list .transitFree]
  | .peerSets => r.peers.flatMap fun p => p.listNames.map .list
  | .shared => SharedFunction.all.map fun f => .function (.shared f)
  | .wiring => Family.all.flatMap r.wiringSymbols
  | .peers => r.peers.flatMap (·.symbols)

/-- The symbols of a router, in the order of their definitions. -/
def symbols : List Symbol := Chapter.all.flatMap r.symbolsOf

end Router

namespace Declaration

theorem names_cons (d : Declaration) (ds : List Declaration) :
    names (d :: ds) = d.name?.toList ++ names ds := by
  cases h : d.name? <;> simp [names, h]

theorem names_append (ds es : List Declaration) : names (ds ++ es) = names ds ++ names es :=
  List.filterMap_append ..

theorem names_flatMap {α : Type} (g : α → List Declaration) (as : List α) :
    names (as.flatMap g) = as.flatMap fun a => names (g a) :=
  List.filterMap_flatMap ..

theorem names_map {α : Type} {mk : α → Declaration} {g : α → String}
    (h : ∀ a, (mk a).name? = some (g a)) (as : List α) : names (as.map mk) = as.map g := by
  rw [names, List.filterMap_map, ← List.filterMap_eq_map]
  exact congrArg (List.filterMap · as) (funext h)

@[simp] theorem names_blank : names [.blank] = [] := rfl

end Declaration

namespace Router
open Declaration
variable (r : Router)

theorem names_header : names r.header = [] := by
  rw [header]
  cases r.routerId <;> rfl

theorem names_constants :
    names (constants r.asn) = (r.symbolsOf .constants ++ r.symbolsOf .sets).map Symbol.name := rfl

theorem names_shared :
    names ((sharedOf r.asn).map .function) = (r.symbolsOf .shared).map Symbol.name := rfl

theorem peerLists_eq (p : Policy) : peerLists p = p.listNames.map fun l => .list (p.listed l) := by
  have lists : peerLists p = (((ListName.peerAsns p.name :: Family.all.map (.peerNets p.name)).map
      p.listed).filter fun l => !l.isEmpty).map .list := rfl
  rw [lists, List.filter_map, List.map_map]
  rfl

theorem names_peerLists (p : Policy) :
    names (peerLists p) = p.listNames.map ListName.name := by
  rw [peerLists_eq]
  exact names_map (fun _ => rfl) _

theorem names_tables (f : Family) :
    names (Wiring.tables f r.peers) = (Table.main f).name ::
      (r.peers.filter (·.hasFamily f)).map fun p => (Table.peer f p.name).name :=
  congrArg ((Table.main f).name :: ·) (names_map (fun _ => rfl) _)

theorem names_originate (f : Family) (nets : List Network) :
    names (Wiring.originate f nets) =
      if (nets.filter fun n => n.family = f) = [] then [] else [(Protocol.originate f).name] := by
  unfold Wiring.originate
  split
  · rename_i h
    rw [h, if_pos rfl]
    rfl
  · rename_i h
    rw [if_neg h]
    rfl

theorem names_wiringLayout (f : Family) :
    names (r.wiringLayout f) = (r.wiringSymbols f).map Symbol.name := by
  rw [wiringLayout, names_append, names_append, names_append, names_tables, names_originate,
    names_blank, List.append_nil, wiringSymbols, List.map_append, List.map_append, List.map_cons,
    List.map_map]
  split <;> rfl

theorem names_familyLayout (p : Policy) (f : Family) :
    names (r.familyLayout p f) = (p.familySymbols f).map Symbol.name := by
  have filters : names ((Filter.programsOf r.asn p f).map .filter) =
      (Stage.all.map (FilterName.peer f p.name)).map FilterName.name := by
    rw [← Filter.names_programsOf, List.map_map]
    exact names_map (fun _ => rfl) _
  rw [familyLayout, names_append, filters, Policy.familySymbols, List.map_append, List.map_map]
  congr 1
  rw [Wiring.session?, Option.map_map]
  cases p.neighbor f <;> rfl

theorem names_peerLayout (p : Policy) :
    names (r.peerLayout p) = p.symbols.map Symbol.name := by
  have rules : names ((rulesOfPeer p).map .function) =
      (rulesOfPeer p).map fun g => g.name.name := names_map (fun _ => rfl) _
  have families : names (p.families.flatMap (r.familyLayout p)) =
      (p.families.flatMap p.familySymbols).map Symbol.name := by
    rw [names_flatMap, List.map_flatMap, funext (r.names_familyLayout p)]
  rw [peerLayout, names_append, names_append, families, names_blank, List.append_nil,
    Policy.symbols, List.map_append, List.map_map]
  exact congrArg (· ++ _) rules

theorem names_peerSets :
    names (r.peers.flatMap peerLists) = (r.symbolsOf .peerSets).map Symbol.name := by
  rw [names_flatMap, symbolsOf, List.map_flatMap]
  congr 1
  funext p
  rw [names_peerLists, List.map_map]
  rfl

theorem names_wiring :
    names (Family.all.flatMap r.wiringLayout) = (r.symbolsOf .wiring).map Symbol.name := by
  rw [names_flatMap, symbolsOf, List.map_flatMap, funext r.names_wiringLayout]

theorem names_layout : names r.layout = r.symbols.map Symbol.name := by
  have peers : names (r.peers.flatMap r.peerLayout) = (r.symbolsOf .peers).map Symbol.name := by
    rw [names_flatMap, symbolsOf, List.map_flatMap, funext r.names_peerLayout]
  simp only [layout, names_append, names_header, names_constants, names_peerSets, names_shared,
    names_wiring, names_blank, peers, symbols, Chapter.all, List.flatMap_cons, List.flatMap_nil,
    List.map_append, List.append_assoc, List.nil_append, List.append_nil]

end Router

end Peering
