import Peering.Family
import Peering.Settings

/-! The names that the generated configuration defines. -/
namespace Peering

/-- Numbers that filters compare with. -/
inductive Constant where
  | ownAsn
  | longest (f : Family)
  | shortest (f : Family)
  | longestPath
  | shortestPath
  | mostCommunities
  deriving DecidableEq, Repr

def Constant.name : Constant → String
  | ownAsn => "BGP_ASN"
  | longest f => "BGP_PREFIX_MAXLEN" ++ f.digit
  | shortest f => "BGP_PREFIX_MINLEN" ++ f.digit
  | longestPath => "BGP_PATH_MAXLEN"
  | shortestPath => "BGP_PATH_MINLEN"
  | mostCommunities => "BGP_COMMUNITY_MAX"

/-- Sets that filters look things up in. -/
inductive ListName where
  | bogons (f : Family)
  | bogonAsns
  | transitFree
  | peerAsns (peer : String)
  | peerNets (peer : String) (f : Family)
  deriving DecidableEq, Repr

def upper (s : String) : String := s.map Char.toUpper

def ListName.name : ListName → String
  | bogons f => "BOGONS_V" ++ f.digit
  | bogonAsns => "BOGON_ASNS"
  | transitFree => "TRANSIT_FREE_ASNS"
  | peerAsns peer => s!"BGP_PEER_{upper peer}_ASNS"
  | peerNets peer f => s!"BGP_PEER_{upper peer}_PREFIXES{f.digit}"

/-- Functions that all filters share. -/
inductive SharedFunction where
  | isBogon (f : Family)
  | tooLong (f : Family)
  | tooShort (f : Family)
  | pathTooLong | pathTooShort
  | hasBogonAsn | hasTransitFreeAsn
  | tooManyCommunities
  | hasFiltered
  | canExport (f : Family)
  | exportPrepend
  deriving DecidableEq, Repr

namespace SharedFunction

/-- In the order of their definitions: each calls only earlier ones. -/
def all : List SharedFunction :=
  [.isBogon .v4, .isBogon .v6, .tooLong .v4, .tooLong .v6, .tooShort .v4, .tooShort .v6,
    .pathTooLong, .pathTooShort, .hasBogonAsn, .hasTransitFreeAsn, .tooManyCommunities,
    .hasFiltered, .canExport .v4, .canExport .v6, .exportPrepend]

def name : SharedFunction → String
  | isBogon f => "bgp_is_bogon" ++ f.digit
  | tooLong f => "bgp_prefix_too_long" ++ f.digit
  | tooShort f => "bgp_prefix_too_short" ++ f.digit
  | pathTooLong => "bgp_path_too_long"
  | pathTooShort => "bgp_path_too_short"
  | hasBogonAsn => "bgp_has_bogon_asn"
  | hasTransitFreeAsn => "bgp_has_transit_free_asn"
  | tooManyCommunities => "bgp_too_many_communities"
  | hasFiltered => "bgp_has_filtered"
  | canExport f => "bgp_can_export" ++ f.digit
  | exportPrepend => "bgp_export_prepend"

/-- Whether the function is told the ASN of the peer. -/
def takesPeer : SharedFunction → Bool
  | canExport _ | exportPrepend => true
  | _ => false

def answers : SharedFunction → Bool
  | exportPrepend => false
  | _ => true

def call (f : SharedFunction) (argument : String) : String := f.name ++ "(" ++ argument ++ ")"

theorem mem_all (f : SharedFunction) : f ∈ all := by
  rcases f with (_ | _) | (_ | _) | (_ | _) | _ | _ | _ | _ | _ | _ | (_ | _) | _ <;> decide

theorem nodup_names : (all.map name).Nodup := by decide +kernel

end SharedFunction

/-- The function of one rule, or of all rules with the same base. -/
inductive RuleFunction where
  | one (base : String) (index : Nat)
  | every (base : String)
  deriving DecidableEq, Repr

def RuleFunction.name : RuleFunction → String
  | one base index => s!"{base}_{index}"
  | every base => base ++ "s"

inductive FunctionName where
  | shared (f : SharedFunction)
  | rule (f : RuleFunction)
  deriving DecidableEq, Repr

def FunctionName.name : FunctionName → String
  | shared f => f.name
  | rule f => f.name

/-- The base of the rule functions of a peer. -/
def ruleBase (peer : String) (d : Settings.Direction) : String := s!"bgp_{peer}_{d.name}_action"

/-- The filters that a route of a peer meets: as it is received, on its way from the table of the
peer to the main table, and from the main table back to the peer. -/
inductive Stage where
  | receive | toMain | toPeer
  deriving DecidableEq, Repr

def Stage.all : List Stage := [.receive, .toMain, .toPeer]

def Stage.suffix : Stage → String
  | receive => "import"
  | toMain => "to_main"
  | toPeer => "export"

inductive FilterName where
  | peer (f : Family) (peer : String) (stage : Stage)
  /-- From the main table to the master table. -/
  | toMaster (f : Family)
  | fromMaster (f : Family)
  deriving DecidableEq, Repr

def FilterName.name : FilterName → String
  | peer f p stage => s!"f_bgp{f.digit}_{p}_{stage.suffix}"
  | toMaster f => s!"f_bgp{f.digit}_master_export"
  | fromMaster f => s!"f_bgp{f.digit}_master_import"

inductive Table where
  | main (f : Family)
  | peer (f : Family) (peer : String)
  /-- The table that the routing daemon has without being told. -/
  | master (f : Family)
  deriving DecidableEq, Repr

def Table.name : Table → String
  | main f => s!"t_bgp{f.digit}"
  | peer f p => s!"t_bgp{f.digit}_{p}_peer"
  | master f => f.masterTable

inductive Protocol where
  | originate (f : Family)
  | masterPipe (f : Family)
  | peerPipe (f : Family) (peer : String)
  | session (f : Family) (peer : String)
  deriving DecidableEq, Repr

def Protocol.name : Protocol → String
  | originate f => s!"originate{f.digit}"
  | masterPipe f => s!"p_bgp{f.digit}_master"
  | peerPipe f p => s!"p_bgp{f.digit}_{p}"
  | session f p => s!"bgp{f.digit}_{p}"

end Peering
