import Peering.Proofs.Judgement

/-! The filters for received routes do what is said of received routes. -/
namespace Peering.Filter
open Command.perform (performAll)

def Finds (own : UInt32) (peers : List Policy) (cs : List Command)
    (reasons : Route → List Reason) : Prop :=
  Changes (scope own peers) (scope own peers).calls 0 cs fun r => r.fail own (reasons r)

/-- What is said of a route stays the same when the route is marked. -/
def Stable {β : Type} (f : Route → β) : Prop := ∀ r cs, f (r.mark cs) = f r

section Finds
variable {own : UInt32} {peers : List Policy} {cs ds : List Command}
  {reasons others : Route → List Reason}

theorem Finds.nil : Finds own peers [] fun _ => [] := fun _ => rfl

theorem Finds.append (hr : Finds own peers cs reasons) (ho : Finds own peers ds others)
    (stable : Stable others) : Finds own peers (cs ++ ds) fun r => reasons r ++ others r := by
  intro s
  rw [Changes.append hr ho s]
  simp only [Function.comp, Route.fail, List.map_append, Route.mark_append]
  rw [stable]

theorem Finds.comment (text : String) (h : Finds own peers cs reasons) :
    Finds own peers (.comment text :: cs) reasons :=
  Changes.comment text h

theorem Finds.provided {make : Except Error (List Command)} {b : Bool}
    (h : b = true → Gives make (Finds own peers · reasons)) :
    Gives (provided b make) (Finds own peers · fun r => if b then reasons r else []) := by
  cases b with
  | false => exact .ok .nil
  | true => exact h rfl

theorem finds_always (reason : Reason) :
    Finds own peers [addLarge (failureTag own reason)] fun _ => [reason] :=
  Marks.adds [failureTag own reason]

theorem finds_when (test : Test) {b : Route → Bool} (reason : Reason)
    (ht : ∀ s, test.holds (scope own peers) (scope own peers).calls 0 s = b s.route) :
    Finds own peers [.when test [addLarge (failureTag own reason)]]
      fun r => reason.given (b r) := by
  intro s
  rw [Changes.when ht (finds_always reason)]
  cases hb : b s.route <;> simp [hb, Reason.given, Route.fail]

theorem finds_whenShared {g : SharedFunction} {b : Route → Bool} (reason : Reason)
    (hg : ∀ r, (scope own peers).calls (.shared g) 0 r = (b r, r)) :
    Finds own peers [.when (callShared g) [addLarge (failureTag own reason)]]
      fun r => reason.given (b r) := by
  refine finds_when _ reason fun s => ?_
  rw [callShared, Test.holds]
  exact congrArg Prod.fst (hg s.route)

end Finds

section Checks
variable {own : UInt32} (peers : List Policy) {p : Policy} {f : Family}

theorem prefixChecks_finds :
    Gives (prefixChecks ⟨some own⟩ f) (Finds own peers · (Policy.netFailures f)) := by
  have bogon : Finds own peers _ _ := finds_whenShared .bogon (calls_isBogon f 0)
  have long : Finds own peers _ _ := finds_whenShared .prefixTooLong (calls_tooLong f 0)
  have short : Finds own peers _ _ := finds_whenShared .prefixTooShort (calls_tooShort f 0)
  exact ⟨_, rfl, .append (.append bogon long fun _ _ => rfl) short fun _ _ => rfl⟩

theorem pathChecks_finds :
    Gives (pathChecks ⟨some own⟩) (Finds own peers · Policy.pathFailures) := by
  have bogon : Finds own peers _ _ := finds_whenShared .bogonAsn (calls_hasBogonAsn 0)
  have long : Finds own peers _ _ := finds_whenShared .asPathTooLong (calls_pathTooLong 0)
  have short : Finds own peers _ _ := finds_whenShared .asPathTooShort (calls_pathTooShort 0)
  exact ⟨_, rfl, .append (.append bogon long fun _ _ => rfl) short fun _ _ => rfl⟩

theorem firstAs_finds :
    Gives (provided p.role.checksFirstAs do
        return [← tagWhen ⟨some own⟩ (.firstAsnIsNot p.asn) .firstAsMismatch])
      (Finds own peers · fun r =>
        Reason.firstAsMismatch.given (p.role.checksFirstAs && r.firstAsn ≠ p.asn)) := by
  simp only [given_and]
  exact Finds.provided fun _ =>
    ⟨_, rfl, finds_when (.firstAsnIsNot p.asn) .firstAsMismatch fun _ => by rw [Test.holds]⟩

theorem nextHop_finds :
    Gives (provided p.role.checksNextHop <|
        given (p.neighbor f) fun a => tagWhen ⟨some own⟩ (.nextHopIsNot a) .nexthopMismatch)
      (Finds own peers · fun r => Reason.nexthopMismatch.given
        (p.role.checksNextHop && (p.neighbor f).any (r.nextHop ≠ ·))) := by
  simp only [given_and]
  refine Finds.provided fun _ => ?_
  cases p.neighbor f with
  | none => exact ⟨_, rfl, .nil⟩
  | some a =>
    exact ⟨_, rfl, finds_when (.nextHopIsNot a) .nexthopMismatch fun _ => by rw [Test.holds]; rfl⟩

theorem transitFree_finds :
    Gives (provided p.role.checksTransitFree do
        return [← tagWhen ⟨some own⟩ (callShared .hasTransitFreeAsn) .transitFreeAsn])
      (Finds own peers · fun r =>
        Reason.transitFreeAsn.given (p.role.checksTransitFree && r.hasTransitFreeAsn)) := by
  simp only [given_and]
  exact Finds.provided fun _ =>
    ⟨_, rfl, finds_whenShared .transitFreeAsn (calls_hasTransitFreeAsn 0)⟩

theorem not_internal (c : LargeCommunity) :
    (!([⟨own, .between 0 (TagKind.firstAction - 1), .any⟩,
        ⟨own, .between (TagKind.lastAction + 1) 4294967295, .any⟩] : List LargePattern).any
          (·.admits c)) =
      Stripping.exceptActions.keeps own c := by
  have below : (c.function ≤ TagKind.firstAction - 1) ↔ ¬ TagKind.firstAction ≤ c.function := by
    simp only [TagKind.firstAction, UInt32.le_iff_toNat_le]
    rw [show (61 - 1 : UInt32).toNat = 60 from rfl, show (61 : UInt32).toNat = 61 from rfl]
    omega
  have above : (TagKind.lastAction + 1 ≤ c.function) ↔ ¬ c.function ≤ TagKind.lastAction := by
    simp only [TagKind.lastAction, UInt32.le_iff_toNat_le]
    rw [show (70 + 1 : UInt32).toNat = 71 from rfl, show (70 : UInt32).toNat = 70 from rfl]
    omega
  have top : c.function ≤ 4294967295 := by
    rw [UInt32.le_iff_toNat_le]
    exact Nat.le_of_lt_succ c.function.toNat_lt
  have bottom : 0 ≤ c.function := UInt32.zero_le
  simp only [List.any_cons, List.any_nil, LargePattern.admits, Part.admits, Stripping.keeps]
  simp only [below, above, top, bottom, decide_true, decide_not, Bool.true_and, Bool.and_true,
    Bool.or_false, Bool.not_or, Bool.not_and, Bool.not_not, bne]
  rw [Bool.or_and_distrib_left]

theorem strip_changes (st : Stripping) :
    Gives (stripTags ⟨some own⟩ st)
      (Changes (scope own peers) (scope own peers).calls 0 · (Route.strip own st)) := by
  cases st with
  | all =>
    refine ⟨_, rfl, fun s => ?_⟩
    have kept : ∀ c : LargeCommunity,
        (!([⟨own, .any, .any⟩] : List LargePattern).any (·.admits c)) =
          Stripping.all.keeps own c := by
      intro c
      simp [LargePattern.admits, Part.admits, Stripping.keeps, bne]
    rw [performAll_comment, performAll_singleton, Command.perform, Command.strippedOf, Route.strip,
      ← funext kept]
  | exceptActions =>
    refine ⟨_, rfl, fun s => ?_⟩
    rw [performAll_comment, performAll_singleton, Command.perform, Command.strippedOf, Route.strip,
      ← funext not_internal]
  | nothing =>
    refine ⟨_, rfl, fun s => ?_⟩
    have kept : ∀ c : LargeCommunity, Stripping.nothing.keeps own c = true := fun _ => rfl
    rw [Route.strip, List.filter_eq_self.mpr fun c _ => kept c]
    rfl

theorem ofNet_finds {cs : List Command} (h : Finds own peers cs (Policy.netFailures f)) :
    Finds own peers (if p.acceptDefault then [.when (.not (isDefault f)) cs] else cs)
      fun r => if p.acceptDefault && r.isDefault f then [] else Policy.netFailures f r := by
  cases p.acceptDefault with
  | false => exact h
  | true =>
    intro s
    have ht : ∀ s : State, (Test.not (isDefault f)).holds (scope own peers)
        (scope own peers).calls 0 s = !s.route.isDefault f := by
      intro s
      rw [Test.holds, isDefault, Test.holds]
      rfl
    rw [if_pos rfl, Changes.when (b := fun r => !r.isDefault f) ht h]
    cases hd : s.route.isDefault f <;> simp [hd, Route.fail]

theorem sanity_changes :
    Gives (sanityChecks ⟨some own⟩ p f) fun cs =>
      Changes (scope own peers) (scope own peers).calls 0 cs fun r =>
        let checked := r.fail own (p.sanityFailures f r)
        checked.fail own (Reason.tooManyCommunities.given checked.hasManyCommunities) := by
  refine .bind (prefixChecks_finds peers) fun ofNet hnet =>
    .bind (pathChecks_finds peers) fun ofPath hpath =>
    .bind (firstAs_finds peers) fun firstAs hfirst =>
    .bind (nextHop_finds peers) fun nextHop hnext =>
    .bind (transitFree_finds peers) fun transitFree htransit => ?_
  have count : Finds own peers _ _ :=
    finds_whenShared .tooManyCommunities (calls_tooManyCommunities 0)
  have net := (ofNet_finds peers (p := p) hnet).comment "Sanity checks"
  have checks : Finds own peers _ (p.sanityFailures f) :=
    (((net.append hpath fun _ _ => rfl).append hfirst fun _ _ => rfl).append hnext
      fun _ _ => rfl).append htransit fun _ _ => rfl
  exact ⟨_, rfl, Changes.append checks count⟩

theorem filter_name (hp : p ∈ peers) (hn : (peers.map (·.name)).Nodup) :
    peers.filter (·.name = p.name) = [p] := by
  obtain ⟨before, after, rfl⟩ := List.append_of_mem hp
  obtain ⟨others, others'⟩ := ne_key_of_nodup hn
  have hbefore : before.filter (·.name = p.name) = [] := by
    rw [List.filter_eq_nil_iff]
    intro q hq hname
    exact others q hq (of_decide_eq_true hname)
  have hafter : after.filter (·.name = p.name) = [] := by
    rw [List.filter_eq_nil_iff]
    intro q hq hname
    exact others' q hq (of_decide_eq_true hname)
  rw [List.filter_append, hbefore, List.filter_cons_of_pos (by simp), hafter]
  rfl

theorem finds_origin (hp : p ∈ peers) (hn : (peers.map (·.name)).Nodup) :
    Gives (provided (!p.asnGroups.isEmpty) do
        return [← tagWhen ⟨some own⟩ (.not (.originAsnIn (.named (.peerAsns p.name))))
          .originFiltered])
      (Finds own peers · fun r => Reason.originFiltered.given
        (!p.asnGroups.isEmpty && !(itemsOf p.asnGroups).contains r.originAsn)) := by
  simp only [given_and]
  refine Finds.provided fun _ => ⟨_, rfl, finds_when
    (.not (.originAsnIn (.named (.peerAsns p.name)))) .originFiltered fun s => ?_⟩
  rw [Test.holds, Test.holds, Scope.hasAsn, ← inRanges_points]
  simp only [scope]
  rw [filter_name peers hp hn]
  simp

theorem finds_net (hp : p ∈ peers) (hn : (peers.map (·.name)).Nodup) (hf : p.groups f ≠ []) :
    Gives (tagWhen ⟨some own⟩ (.not (.netIn (.named (.peerNets p.name f)))) .prefixFiltered)
      (Finds own peers [·] fun r => Reason.prefixFiltered.given
        (p.listsNets && !(itemsOf (p.groups f)).any (·.admits r.net))) := by
  have lists : p.listsNets = true := by
    rw [Policy.listsNets, List.any_eq_true]
    exact ⟨f, Family.mem_all f, by simpa using hf⟩
  refine ⟨_, rfl, finds_when (.not (.netIn (.named (.peerNets p.name f)))) .prefixFiltered
    fun s => ?_⟩
  rw [Test.holds, Test.holds, Scope.netsOf, lists]
  simp only [scope]
  rw [filter_name peers hp hn]
  simp

theorem finds_noNet (hf : p.groups f = []) :
    Gives (provided p.listsNets do return [← tagWith ⟨some own⟩ .prefixFiltered])
      (Finds own peers · fun r => Reason.prefixFiltered.given
        (p.listsNets && !(itemsOf (p.groups f)).any (·.admits r.net))) := by
  simp only [given_and, hf]
  exact Finds.provided fun _ => ⟨_, rfl, finds_always .prefixFiltered⟩

theorem allow_finds (hp : p ∈ peers) (hn : (peers.map (·.name)).Nodup) :
    Gives (provided p.isRestricted (allowChecks ⟨some own⟩ p f))
      (Finds own peers · (p.allowFailures f)) := by
  cases hr : p.isRestricted with
  | false =>
    have empty : p.asnGroups = [] ∧ p.groups4 = [] ∧ p.groups6 = [] := by
      simpa [Policy.isRestricted, and_assoc] using hr
    have none : p.allowFailures f = fun _ => [] := by
      funext r
      simp [Policy.allowFailures, Reason.given, Policy.listsNets, Family.all, Policy.groups, empty]
    rw [none]
    exact .ok .nil
  | true =>
    refine .bind (finds_origin peers hp hn) fun origin horigin => ?_
    have titled := horigin.comment "Allowed origins and prefixes"
    by_cases hf : p.groups f = []
    · rw [hf]
      refine .bind (finds_noNet peers hf) fun nets hnets => ?_
      exact .ok (titled.append hnets fun _ _ => rfl)
    · rw [if_pos (by simpa using hf)]
      refine .bind (finds_net peers hp hn hf) fun nets hnets => ?_
      exact .ok (titled.append hnets fun _ _ => rfl)

theorem relation_marks :
    Gives (given p.role.relation fun r => do return addLarge (← (⟨some own⟩ : Tagger).relation r))
      (Marks (scope own peers) (scope own peers).calls 0 · fun _ =>
        (p.role.relation.map (relationTag own)).toList) := by
  cases p.role.relation with
  | none => exact ⟨_, rfl, .nil⟩
  | some r => exact ⟨_, rfl, .adds [relationTag own r]⟩

theorem localPref_changes {sc : Scope} {calls : Calls} {argument : UInt32} (n : Option UInt32) :
    Changes sc calls argument (n.map Command.setLocalPref).toList
      fun r => { r with localPref := n.getD r.localPref } := by
  intro s
  cases n with
  | none => rfl
  | some n => rw [Option.map_some, Option.toList_some, performAll_singleton, Command.perform]; rfl

theorem default_finds :
    Gives (provided (!p.acceptDefault) do
        return [.comment "Default route", ← tagWhen ⟨some own⟩ (isDefault f) .defaultNotAllowed])
      (Finds own peers · fun r =>
        Reason.defaultNotAllowed.given (!p.acceptDefault && r.isDefault f)) := by
  simp only [given_and]
  refine Finds.provided fun _ => ?_
  have check : Finds own peers _ fun r => Reason.defaultNotAllowed.given (r.isDefault f) :=
    finds_when (isDefault f) _ fun s => by rw [isDefault, Test.holds]; rfl
  exact ⟨_, rfl, check.comment "Default route"⟩

theorem always_finds (text : String) (reason : Reason) (b : Bool) :
    Gives (provided b do return [.comment text, ← tagWith ⟨some own⟩ reason])
      (Finds own peers · fun _ => reason.given b) := by
  cases b with
  | false => exact .ok .nil
  | true => exact .ok ((finds_always reason).comment text)

theorem external_changes :
    Gives (provided p.role.isExternal (sanityChecks ⟨some own⟩ p f)) fun cs =>
      Changes (scope own peers) (scope own peers).calls 0 cs fun r =>
        let checked := r.fail own (if p.role.isExternal then p.sanityFailures f r else [])
        checked.fail own (p.countFailures checked) := by
  simp only [Policy.countFailures, given_and]
  cases p.role.isExternal with
  | false => exact .ok Changes.nil
  | true => exact sanity_changes peers

theorem baseline_changes (hp : p ∈ peers) (hn : (peers.map (·.name)).Nodup) :
    Gives (baseline ⟨some own⟩ p f)
      (Changes (scope own peers) (scope own peers).calls 0 · (p.judged own f)) := by
  refine .bind (strip_changes peers p.role.stripping) fun stripped hstripped =>
    .bind (relation_marks peers) fun relation hrelation =>
    .bind (default_finds peers) fun default hdefault =>
    .bind (always_finds peers _ _ _) fun collector hcollector =>
    .bind (external_changes peers) fun sanity hsanity =>
    .bind (allow_finds peers hp hn) fun allowed hallowed =>
    .bind (always_finds peers _ _ _) fun quarantine hquarantine => ?_
  have admitted := (hstripped.append hrelation).append (localPref_changes p.localPref)
  have first := (admitted.append (hdefault.append hcollector fun _ _ => rfl)).append hsanity
  have all := first.append (hallowed.append hquarantine fun _ _ => rfl)
  simp only [← List.append_assoc] at all
  refine .ok fun s => ?_
  rw [all s, Policy.judged, Policy.failures, Route.fail_append, Route.fail_append,
    Policy.firstFailures, Route.fail_append]
  rfl

/-- A route that the rules refuse is tagged and goes on. -/
theorem inbound_changes (hp : p ∈ peers) (hn : (peers.map (·.name)).Nodup) :
    Gives (provided (!p.inbound.isEmpty) do
        return [.consult (rulesOf p .inbound) [← tagWith ⟨some own⟩ .customAction]])
      (Changes (scope own peers) (scope own peers).calls 0 · fun r =>
        let ruled := evaluateRules own p.inbound r
        if ruled.1 then ruled.2 else ruled.2.fail own [.customAction]) := by
  by_cases hr : p.inbound = []
  · rw [hr]
    exact .ok Changes.nil
  · have refused : Finds own peers [addLarge (failureTag own .customAction)] _ :=
      finds_always .customAction
    rw [List.isEmpty_eq_false_iff.mpr hr]
    refine ⟨_, rfl, fun s => ?_⟩
    rw [performAll_singleton, perform_consult_rulesOf hp hn (d := .inbound) hr, Policy.rules]
    dsimp only
    cases (evaluateRules own p.inbound s.route).1 with
    | false => exact refused _
    | true => rfl

/-- A received route always comes into the table of the peer. -/
theorem receive_accepts (hp : p ∈ peers) (hn : (peers.map (·.name)).Nodup) :
    Gives (receive ⟨some own⟩ p f) fun cs =>
      ∀ s, performAll (scope own peers) (scope own peers).calls 0 s cs =
        (some .accept, { s with route := p.received own f s.route }) := by
  refine .bind (baseline_changes peers hp hn) fun base hbase =>
    .bind (inbound_changes peers hp hn) fun rules hrules => .ok fun s => ?_
  have changes := (hbase.append hrules).append (Marks.adds p.incoming)
  rw [performAll_of_none (changes s), performAll_singleton, Command.perform]
  rfl

theorem toMain_decides :
    Gives (toMain ⟨some own⟩) fun cs =>
      ∀ s, performAll (scope own peers) (scope own peers).calls 0 s cs =
        (some (if s.route.isFiltered own then .reject else .accept), s) := by
  refine ⟨_, rfl, fun s => ?_⟩
  rw [performAll_rejectWhen, holds_filtered, performAll_singleton, Command.perform]
  cases s.route.isFiltered own <;> rfl

theorem receive_runs (hp : p ∈ peers) (hn : (peers.map (·.name)).Nodup) :
    Gives (ofPeer ⟨some own⟩ p f .receive) fun program => ∀ r,
      program.run (scope own peers) r = (some .accept, p.received own f r) := by
  refine .bind (receive_accepts peers hp hn) fun cs hcs => .ok fun r => ?_
  rw [Program.run, hcs]

theorem toMain_runs :
    Gives (ofPeer ⟨some own⟩ p f .toMain) fun program => ∀ r,
      program.run (scope own peers) r =
        (some (if r.isFiltered own then .reject else .accept), r) := by
  refine .bind (toMain_decides peers) fun cs hcs => .ok fun r => ?_
  rw [Program.run, hcs]

end Checks

end Peering.Filter
