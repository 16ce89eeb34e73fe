import Peering.Proofs.Receiving
import Peering.Proofs.Resolution
import Peering.Proofs.Sending

/-!
What a router configuration is made of. With an ASN of our own every filter can be built, so the
declarations of a router are a list that can be said without errors.
-/
namespace Peering
open Peering.Filter (Program ofPeer sharedOf rulesOfPeer)

section Programs
variable (own : UInt32) (p : Policy) (f : Family)

def Filter.programsOf : List Program := (Stage.all.mapM (ofPeer ⟨some own⟩ p f)).toOption.getD []

theorem Filter.exists_ofPeer (s : Stage) : ∃ program, ofPeer ⟨some own⟩ p f s = .ok program := by
  have hp : p ∈ [p] := List.mem_singleton_self p
  have hn : ([p].map (·.name)).Nodup := List.pairwise_singleton _ _
  cases s with
  | receive =>
    obtain ⟨program, h, _⟩ := @Filter.receive_runs own [p] p f hp hn
    exact ⟨program, h⟩
  | toMain =>
    obtain ⟨program, h, _⟩ := @Filter.toMain_runs own [p] p f
    exact ⟨program, h⟩
  | toPeer =>
    obtain ⟨program, h, _⟩ := @Filter.toPeer_runs own [p] p f hp hn
    exact ⟨program, h⟩

theorem Filter.mapM_ofPeer :
    Stage.all.mapM (ofPeer ⟨some own⟩ p f) = .ok (programsOf own p f) := by
  obtain ⟨receive, hreceive⟩ := exists_ofPeer own p f .receive
  obtain ⟨toMain, htoMain⟩ := exists_ofPeer own p f .toMain
  obtain ⟨toPeer, htoPeer⟩ := exists_ofPeer own p f .toPeer
  have h : Stage.all.mapM (ofPeer ⟨some own⟩ p f) = .ok [receive, toMain, toPeer] :=
    mapM_eq_ok.mpr (by simp [Stage.all, hreceive, htoMain, htoPeer])
  rw [programsOf, h]
  rfl

variable {own p f}

theorem Filter.mem_programsOf {program : Program} (h : program ∈ programsOf own p f) :
    ∃ s, ofPeer ⟨some own⟩ p f s = .ok program := by
  obtain ⟨s, _, hs⟩ := exists_of_mem_mapM (mapM_ofPeer own p f) h
  exact ⟨s, hs⟩

theorem Filter.name_ofPeer {t : Tagger} {s : Stage} {program : Program}
    (h : ofPeer t p f s = .ok program) : program.name = .peer f p.name s := by
  obtain ⟨_, _, h⟩ := ok_of_bind h
  obtain rfl := Except.ok.inj h
  rfl

theorem Filter.names_programsOf :
    (programsOf own p f).map (·.name) = Stage.all.map (.peer f p.name) := by
  have hall := mapM_eq_ok.mp (mapM_ofPeer own p f)
  generalize programsOf own p f = programs, Stage.all = stages at hall ⊢
  induction stages generalizing programs with
  | nil =>
    obtain rfl := List.map_eq_nil_iff.mp hall.symm
    rfl
  | cons s stages ih =>
    cases programs with
    | nil => exact nomatch hall
    | cons program programs =>
      obtain ⟨hs, hrest⟩ := List.cons.inj hall
      rw [List.map_cons, List.map_cons, name_ofPeer hs, ih programs hrest]

end Programs

namespace Router
variable (r : Router)

def familyLayout (p : Policy) (f : Family) : List Declaration :=
  (Filter.programsOf r.asn p f).map .filter ++ .pipe (Wiring.peerPipe p f) ::
    ((Wiring.session? p f r.asn).map .session).toList

def peerLayout (p : Policy) : List Declaration :=
  .comment s!"Peer {p.name}: AS{p.asn.toNat} ({p.role.name})" ::
    (rulesOfPeer p).map .function ++ p.families.flatMap (r.familyLayout p) ++ [.blank]

def wiringLayout (f : Family) : List Declaration :=
  Wiring.tables f r.peers ++ Wiring.originate f r.originate ++ Wiring.master f r.fromMaster ++
    [.blank]

def header : List Declaration :=
  .comment s!"BGP policy for AS{r.asn.toNat}, generated by bgp_policy. Do not edit." ::
    .blank :: (r.routerId.map fun a => [.routerId a, .blank]).getD []

def layout : List Declaration :=
  r.header ++ constants r.asn ++ r.peers.flatMap peerLists ++ [.blank] ++
    (sharedOf r.asn).map .function ++ [.blank] ++ Family.all.flatMap r.wiringLayout ++
    r.peers.flatMap r.peerLayout

theorem familyBlock_eq (p : Policy) (f : Family) :
    familyBlock r ⟨some r.asn⟩ p f = .ok (r.familyLayout p f) := by
  rw [familyBlock, Filter.mapM_ofPeer]
  rfl

theorem peerBlock_eq (p : Policy) : peerBlock r ⟨some r.asn⟩ p = .ok (r.peerLayout p) := by
  rw [peerBlock, mapM_ok (r.familyBlock_eq p)]
  rfl

theorem declarations_eq : r.declarations = .ok r.layout := by
  have hwiring : (fun f => Wiring.tables f r.peers ++ Wiring.originate f r.originate ++
      Wiring.master f r.fromMaster ++ [.blank]) = r.wiringLayout := rfl
  rw [declarations, mapM_ok r.peerBlock_eq, hwiring, layout, header, List.flatMap_def,
    List.flatMap_def]
  rfl

theorem compile_eq : r.compile = .ok (Declaration.render r.layout) := by
  rw [compile, declarations_eq]
  rfl

end Router
end Peering
