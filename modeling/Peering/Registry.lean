import Peering.Document.Record

/-! What registries say about peers, gathered before anything is compiled. -/
namespace Peering

/-- How many networks of each family a peer has registered. -/
structure PrefixCounts where
  count4 : Option UInt32
  count6 : Option UInt32
  deriving DecidableEq, Repr

def PrefixCounts.unknown : PrefixCounts := ⟨none, none⟩

/-- What a registry object stands for. -/
structure RegistryObject where
  ipv4 : List String
  ipv6 : List String
  asns : List UInt32
  deriving DecidableEq, Repr

structure Registry where
  counts : List (UInt32 × PrefixCounts)
  objects : List (String × RegistryObject)
  deriving DecidableEq, Repr

namespace Registry

def empty : Registry := ⟨[], []⟩

/-- Private ASNs have no entries in any registry. -/
def isPrivateAsn (n : UInt32) : Bool :=
  (64512 ≤ n && n ≤ 65534) || (4200000000 ≤ n && n ≤ 4294967294)

def countsOf (r : Registry) (asn : UInt32) : Option PrefixCounts :=
  if isPrivateAsn asn then none else r.counts.lookup asn

def object (r : Registry) (name : String) : Option RegistryObject := r.objects.lookup name

open Document

def countsRecord : Record PrefixCounts where
  name := "PeeringDbInfo"
  fields := [.maybe "info_prefixes4" .u32, .maybe "info_prefixes6" .u32]
  lenient := true
  build := fun (a, b, ()) => ⟨a, b⟩
  parts r := (r.count4, r.count6, ())

def objectRecord : Record RegistryObject where
  name := "IrrObject"
  fields := [.orElse "ipv4" (.list .string) [], .orElse "ipv6" (.list .string) [],
    .orElse "asns" (.list .u32) []]
  lenient := true
  build := fun (a, b, c, ()) => ⟨a, b, c⟩
  parts r := (r.ipv4, r.ipv6, r.asns, ())

def record : Record Registry where
  name := "StaticLookup"
  fields := [.orElse "peeringdb" (.numberMap countsRecord.codec) [],
    .orElse "irr" (.textMap objectRecord.codec) []]
  lenient := false
  build := fun (a, b, ()) => ⟨a, b⟩
  parts r := (r.counts, r.objects, ())

def codec : Codec Registry := record.codec

end Registry
end Peering
