import Peering.Filter.Language
import Peering.Lists

/-! What stands at the top level of a router configuration. -/
namespace Peering
open Bird (Statement)

def Table.family : Table → Family
  | main f | peer f _ | master f => f

/-- A pipe moves routes between two tables, with a filter for each way. -/
structure Pipe where
  name : Protocol
  table : Table
  other : Table
  /-- From `table` to `other`. -/
  outward : FilterName
  inward : FilterName
  deriving DecidableEq, Repr

/-- A BGP session of one family. -/
structure Session where
  family : Family
  peer : String
  description : String
  localAddress : Option Address
  localAsn : UInt32
  neighbor : Address
  asn : UInt32
  passive : Bool
  clusterId : Option Address4
  limit : Option UInt32
  deriving DecidableEq, Repr

namespace Pipe

def statement (p : Pipe) : Statement :=
  .block s!"protocol pipe {p.name.name}" [
    .setting s!"table {p.table.name}",
    .setting s!"peer table {p.other.name}",
    .setting s!"export filter {p.outward.name}",
    .setting s!"import filter {p.inward.name}"] false

end Pipe

namespace Session

def table (s : Session) : Table := .peer s.family s.peer

/-- Double quotes would end the description. -/
def quotable (text : String) : String := text.map fun c => if c = '"' then '\'' else c

def channel (s : Session) : Statement :=
  .block s.family.channel
    ([.setting s!"table {s.table.name}",
      .setting s!"import filter {(FilterName.peer s.family s.peer .receive).name}",
      .setting "export all"] ++
      (s.limit.map fun n => Statement.setting s!"import limit {n.toNat} action restart").toList)
    true

def statement (s : Session) : Statement :=
  let localText := match s.localAddress with
    | some a => s!"local {a.text} as {s.localAsn.toNat}"
    | none => s!"local as {s.localAsn.toNat}"
  .block s!"protocol bgp {(Protocol.session s.family s.peer).name}"
    ([.setting s!"description \"{quotable s.description}\"",
      .setting localText,
      .setting s!"neighbor {s.neighbor.text} as {s.asn.toNat}"] ++
      (if s.passive then [.setting "passive on"] else []) ++
      (match s.clusterId with
        | some id => [.setting "rr client", .setting s!"rr cluster id {(Address.v4 id).text}"]
        | none => []) ++
      [s.channel]) false

end Session

inductive Declaration where
  | blank
  | comment (s : String)
  | routerId (a : Address4)
  | constant (c : Constant) (value : Nat)
  | list (l : NamedList)
  | function (f : Filter.Function)
  | filter (f : Filter.Program)
  | table (t : Table)
  /-- Routes of our own, which lead nowhere. -/
  | originate (f : Family) (nets : List Network)
  | pipe (p : Pipe)
  | session (s : Session)

namespace Declaration

def originateStatement (f : Family) (nets : List Network) : Statement :=
  .block s!"protocol static {(Protocol.originate f).name}"
    (.block f.channel [.setting s!"table {(Table.main f).name}"] true ::
      nets.map fun n => .setting s!"route {n.text} blackhole") false

def statement : Declaration → Statement
  | blank => .blank
  | comment s => .comment s
  | routerId a => .setting s!"router id {(Address.v4 a).text}"
  | constant c value => .define c.name (toString value)
  | list l => l.statement
  | function f => f.statement
  | filter f => f.statement
  | table t => .setting s!"{t.family.channel} table {t.name}"
  | originate f nets => originateStatement f nets
  | pipe p => p.statement
  | session s => s.statement

def render (ds : List Declaration) : String := Bird.render (ds.map statement)

end Declaration
end Peering
