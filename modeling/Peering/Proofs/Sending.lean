import Peering.Proofs.Offer

/-! The filters for routes to a peer do what is said of offers. -/
namespace Peering.Filter
open Command.perform (performAll)

section Prepends
variable {sc : Scope} {calls : Calls} {own argument : UInt32}

theorem performAll_prependChain (requests : List (Nat × TagKind)) (r : Route) (d : Bool) :
    performAll sc calls argument ⟨r, d⟩ (prependChain own requests) =
      (none, ⟨{ r with
        path := List.replicate (Policy.requested own argument r requests) sc.own ++ r.path },
        d⟩) := by
  induction requests with
  | nil => rfl
  | cons x rest ih =>
    have ht : (Test.carries own x.2.code .argument).holds sc calls argument ⟨r, d⟩ =
        r.large.contains ⟨own, x.2.code, argument⟩ := by
      rw [Test.holds]
      rfl
    rw [prependChain, performAll_singleton, Command.perform, ht, Policy.requested]
    by_cases hx : r.large.contains ⟨own, x.2.code, argument⟩ = true
    · rw [if_pos hx, if_pos hx]
      exact performAll_prepend x.1 r d
    · rw [if_neg hx, if_neg hx]
      exact ih

theorem calls_exportPrepend {peers : List Policy} (r : Route) :
    ((scope own peers).calls (.shared .exportPrepend) argument r).2 =
      { r with
        path :=
          List.replicate (Policy.requested own argument r prependRequests) own ++ r.path } := by
  have last : (scope own peers).calls (.shared .exportPrepend) =
      callsAmong (scope own peers) (⟨.shared .exportPrepend, true, false,
        prependChain own prependRequests⟩ :: (sharedOf own).reverse.drop 1)
        (.shared .exportPrepend) := by
    rw [calls_shared]
    rfl
  rw [last, callsAmong, if_pos rfl, performAll_prependChain]
  rfl

end Prepends

section Sources
variable {own : UInt32} (peers : List Policy) {p : Policy} {f : Family}

theorem holds_tagged {sc : Scope} {calls : Calls} {argument : UInt32} (s : Source) (st : State) :
    (Test.largeMatches (s.relations.map fun x =>
        ⟨own, .exactly TagKind.relation.code, .exactly x.code⟩)).holds sc calls argument st =
      s.isTagged own st.route := by
  rw [Test.holds, Source.isTagged_eq, Bool.eq_iff_iff]
  simp only [List.any_eq_true, List.any_map, List.contains_iff_mem]
  constructor
  · intro h
    obtain ⟨c, hc, x, hx, hadmits⟩ := h
    refine ⟨x, hx, ?_⟩
    simp only [Function.comp, LargePattern.admits, Part.admits, Bool.and_eq_true,
      beq_iff_eq] at hadmits
    obtain ⟨⟨rfl, hk⟩, hv⟩ := hadmits
    rw [relationTag, hk, hv]
    exact hc
  · intro h
    obtain ⟨x, hx, hc⟩ := h
    exact ⟨_, hc, x, hx, by simp [relationTag, LargePattern.admits, Part.admits]⟩

theorem relation_holds (s : Source) (st : State) :
    (Test.every [.sourceIs .bgp, .largeMatches (s.relations.map fun x =>
        ⟨own, .exactly TagKind.relation.code, .exactly x.code⟩),
        .shared (.canExport f) (some p.asn)]).holds (scope own peers) (scope own peers).calls 0 st =
      (decide (st.route.origin = .bgp) && s.isTagged own st.route &&
        st.route.mayBeSent own f p.asn) := by
  have tagged : (Test.largeMatches (s.relations.map fun x =>
      ⟨own, .exactly TagKind.relation.code, .exactly x.code⟩)).holds (scope own peers)
        (scope own peers).calls 0 st = s.isTagged own st.route := holds_tagged s st
  rw [Test.holds, Test.holds.allHold, Test.holds.allHold, Test.holds.allHold, Test.holds.allHold,
    tagged, Test.holds, Test.holds, Option.getD_some, calls_canExport, Bool.and_true,
    Bool.and_assoc]

theorem provenance_holds (s : Source) :
    Gives (provenance ⟨some own⟩ p f s) fun t => ∀ st : State,
      t.holds (scope own peers) (scope own peers).calls 0 st = p.covers own f s st.route := by
  cases s with
  | default | connected | kernel | originated | bgp =>
    refine .ok fun st => ?_
    simp only [isDefault, Test.holds, Policy.covers, Route.isDefault]
  | static =>
    refine .ok fun st => ?_
    simp [Test.holds, Test.holds.allHold, Policy.covers]
  | bgpOwn => exact ⟨_, rfl, relation_holds peers .bgpOwn⟩
  | bgpCustomer => exact ⟨_, rfl, relation_holds peers .bgpCustomer⟩
  | bgpPeering => exact ⟨_, rfl, relation_holds peers .bgpPeering⟩
  | bgpTransit => exact ⟨_, rfl, relation_holds peers .bgpTransit⟩

theorem redistribute_performs (s : Source) :
    Gives (redistribute ⟨some own⟩ p f s) fun cs => ∀ st : State,
      performAll (scope own peers) (scope own peers).calls 0 st cs =
        (none, if p.covers own f s st.route then ⟨st.route.mark (p.redistribution.tags s), true⟩
          else st) := by
  refine .bind (provenance_holds peers s) fun t ht => ⟨_, rfl, fun st => ?_⟩
  rw [performAll_comment, performAll_singleton, Command.perform_when, ht,
    performAll_of_none (Marks.adds _ st), performAll_singleton, Command.perform]
  cases p.covers own f s st.route <;> rfl

/-- Going through the sources tags the route, and notes whether any source covers it. A source
that covers a route settles the matter, so its tags cannot change the outcome for later ones. -/
theorem sources_perform (ss : List Source) :
    Gives (ss.mapM (redistribute ⟨some own⟩ p f)) fun css => ∀ st : State,
      performAll (scope own peers) (scope own peers).calls 0 st css.flatten =
        (none, ⟨p.tagAll own f ss st.route,
          st.decided || ss.any fun s => p.covers own f s st.route⟩) := by
  induction ss with
  | nil => exact ⟨_, rfl, fun st => by simp [performAll, Policy.tagAll]⟩
  | cons s ss ih =>
    rw [List.mapM_cons]
    refine .bind (redistribute_performs peers s) fun cs hcs => .bind ih fun css hcss => ?_
    refine .ok fun st => ?_
    rw [List.flatten_cons, performAll_of_none (hcs st), hcss, Policy.tagAll, List.any_cons]
    cases p.covers own f s st.route with
    | false => rfl
    | true => simp

theorem bans_perform (ns : List UInt32) :
    Gives (ns.mapM fun n => do
        let own ← (⟨some own⟩ : Tagger).own
        return Command.when (.carries own TagKind.noExport.code (.number n)) [.reject])
      fun cs => ∀ st : State, performAll (scope own peers) (scope own peers).calls 0 st cs =
        (if ns.any fun n => st.route.large.contains ⟨own, TagKind.noExport.code, n⟩ then
          some .reject else none, st) := by
  induction ns with
  | nil => exact ⟨_, rfl, fun st => rfl⟩
  | cons n ns ih =>
    rw [List.mapM_cons]
    refine .bind (P := (· = _)) ⟨_, rfl, rfl⟩ fun c hc => .bind ih fun cs hcs => .ok fun st => ?_
    rw [hc, performAll_rejectWhen, Test.holds, List.any_cons, Operand.value]
    cases st.route.large.contains ⟨own, TagKind.noExport.code, n⟩ with
    | false => exact hcs st
    | true => rfl

theorem exportBans_perform :
    Gives (provided p.role.isExternal (exportBans ⟨some own⟩ p)) fun cs => ∀ st : State,
      performAll (scope own peers) (scope own peers).calls 0 st cs =
        (if p.isBanned own st.route then some .reject else none, st) := by
  unfold Policy.isBanned
  cases p.role.isExternal with
  | false => exact ⟨_, rfl, fun st => rfl⟩
  | true =>
    refine .bind (bans_perform peers _) fun cs hcs => .ok fun st => ?_
    rw [performAll_comment, hcs, p.bans_eq]
    rfl

theorem isDefault_holds {sc : Scope} {calls : Calls} {argument : UInt32} (st : State) :
    (isDefault f).holds sc calls argument st = st.route.isDefault f := by
  rw [isDefault, Test.holds, Route.isDefault]

theorem default_performs (st : State) :
    performAll (scope own peers) (scope own peers).calls 0 st (defaultExport p f) =
      if st.route.isDefault f && !(st.decided && p.redistribution.enabled .default) then
        (some .reject, st)
      else (none, ⟨p.tagDefault f st.route, st.decided⟩) := by
  have marks : Marks (scope own peers) (scope own peers).calls 0
      (if ((p.redistribution.tags .default).map addLarge).isEmpty then []
        else [.when (isDefault f) ((p.redistribution.tags .default).map addLarge)])
      fun r => if r.isDefault f then p.redistribution.tags .default else [] := by
    cases ht : p.redistribution.tags .default with
    | nil =>
      simp only [ite_self]
      exact Marks.nil
    | cons c cs => exact Marks.when isDefault_holds (Marks.adds (c :: cs))
  have unsettled : (Test.every [isDefault f, .undecided]).holds (scope own peers)
      (scope own peers).calls 0 st = (st.route.isDefault f && !st.decided) := by
    simp [Test.holds, Test.holds.allHold, isDefault_holds]
  rw [defaultExport, Policy.tagDefault]
  cases he : p.redistribution.enabled .default with
  | false =>
    rw [if_neg Bool.false_ne_true, performAll_rejectWhen, isDefault_holds]
    cases st.route.isDefault f <;> simp [performAll]
  | true =>
    rw [if_pos rfl]
    dsimp only
    rw [performAll_rejectWhen, unsettled, marks st]
    cases hd : st.route.isDefault f <;> simp [hd]

theorem not_isInternal (c : LargeCommunity) :
    (!([⟨own, .exactly TagKind.relation.code, .any⟩,
        ⟨own, .between TagKind.firstAction TagKind.lastAction, .any⟩,
        ⟨own, .exactly TagKind.filtered.code, .any⟩] : List LargePattern).any (·.admits c)) =
      !c.isInternal own := by
  simp only [List.any_cons, List.any_nil, LargePattern.admits, Part.admits,
    LargeCommunity.isInternal]
  cases own == c.admin <;> simp [Bool.and_assoc]

theorem outbound_performs (hp : p ∈ peers) (hn : (peers.map (·.name)).Nodup) (st : State) :
    performAll (scope own peers) (scope own peers).calls 0 st
        (if p.outbound.isEmpty then [] else [.consult (rulesOf p .outbound) [.reject]]) =
      (if (evaluateRules own p.outbound st.route).1 then none else some .reject,
        ⟨(evaluateRules own p.outbound st.route).2, st.decided⟩) := by
  by_cases hr : p.outbound = []
  · rw [hr]
    rfl
  · rw [List.isEmpty_eq_false_iff.mpr hr, if_neg Bool.false_ne_true, performAll_singleton,
      perform_consult_rulesOf hp hn (d := .outbound) hr, performAll_singleton, Command.perform,
      Policy.rules]
    cases (evaluateRules own p.outbound st.route).1 <;> rfl

theorem shown_changes :
    Gives (provided p.role.isExternal do
        return [.run .exportPrepend p.asn, .strip (← internalTags ⟨some own⟩)])
      (Changes (scope own peers) (scope own peers).calls 0 · fun r =>
        if p.role.isExternal then p.shown own r else r) := by
  cases p.role.isExternal with
  | false => exact .ok Changes.nil
  | true =>
    refine ⟨_, rfl, fun st => ?_⟩
    rw [performAll_run, performAll_singleton, Command.perform, calls_exportPrepend,
      Command.strippedOf, funext not_isInternal]
    rfl

theorem deliver_performs (hp : p ∈ peers) (hn : (peers.map (·.name)).Nodup) :
    Gives (deliver ⟨some own⟩ p) fun cs => ∀ st : State,
      performAll (scope own peers) (scope own peers).calls 0 st cs =
        if (evaluateRules own p.outbound st.route).1 then
          (some .accept, ⟨p.sent own st.route, st.decided⟩)
        else (some .reject, ⟨(evaluateRules own p.outbound st.route).2, st.decided⟩) := by
  refine .bind (shown_changes peers) fun shown hshown => .ok fun st => ?_
  have granted := Changes.append (Marks.adds p.outgoing) hshown
  have rules := @outbound_performs own peers p hp hn st
  rw [List.append_assoc, List.append_assoc]
  cases hr : (evaluateRules own p.outbound st.route).1 with
  | false =>
    rw [hr] at rules
    exact performAll_of_exit rules
  | true =>
    rw [hr] at rules
    rw [performAll_of_none rules, ← List.append_assoc, performAll_of_none (granted _),
      performAll_singleton, Command.perform]
    rfl

theorem verdict_performs (hp : p ∈ peers) (hn : (peers.map (·.name)).Nodup) :
    Gives (deliver ⟨some own⟩ p) fun granted => ∀ st : State, ∃ t : State,
      performAll (scope own peers) (scope own peers).calls 0 st [.when .decided granted, .reject] =
          (some (if st.decided && (evaluateRules own p.outbound st.route).1 then .accept
            else .reject), t) ∧
        (st.decided && (evaluateRules own p.outbound st.route).1 →
          t.route = p.sent own st.route) := by
  refine (deliver_performs peers hp hn).imp fun granted hgranted st => ?_
  rw [performAll_cons, Command.perform_when, Test.holds, hgranted]
  cases st.decided with
  | false => exact ⟨_, rfl, fun h => absurd h Bool.false_ne_true⟩
  | true =>
    cases (evaluateRules own p.outbound st.route).1 with
    | false => exact ⟨_, rfl, fun h => absurd h Bool.false_ne_true⟩
    | true => exact ⟨_, rfl, fun _ => rfl⟩

/-- Everything before the verdict. A ban turns the route down; then the sources that cover it tag
it, and a default route without leave of its own is turned down as well. -/
theorem offer_performs {bans : List Command} {sources : List (List Command)}
    (hbans : provided p.role.isExternal (exportBans ⟨some own⟩ p) = .ok bans)
    (hsources : p.coveringSources.mapM (redistribute ⟨some own⟩ p f) = .ok sources)
    (st : State) :
    performAll (scope own peers) (scope own peers).calls 0 st
        (.setDecided false :: bans ++ sources.flatten ++
          .comment "Default route" :: defaultExport p f) =
      if p.isBanned own st.route then (some .reject, ⟨st.route, false⟩)
      else if st.route.isDefault f && !((p.coveringSources.any fun s =>
          p.covers own f s st.route) && p.redistribution.enabled .default) then
        (some .reject, ⟨p.tagAll own f p.coveringSources st.route,
          p.coveringSources.any fun s => p.covers own f s st.route⟩)
      else
        (none, ⟨p.tagged own f st.route,
          p.coveringSources.any fun s => p.covers own f s st.route⟩) := by
  have start : performAll (scope own peers) (scope own peers).calls 0 st
      (.setDecided false :: bans) =
        (if p.isBanned own st.route then some .reject else none, ⟨st.route, false⟩) := by
    rw [performAll_cons, Command.perform]
    exact (exportBans_perform peers).of_eq_ok hbans _
  have tags := (sources_perform peers p.coveringSources).of_eq_ok hsources
  rw [List.append_assoc]
  cases hb : p.isBanned own st.route with
  | true =>
    rw [hb] at start
    exact performAll_of_exit start
  | false =>
    rw [hb] at start
    rw [performAll_of_none start, performAll_of_none (tags _), performAll_comment,
      default_performs, Policy.isDefault_tagAll]
    dsimp only
    rw [Bool.false_or]
    rfl

theorem toPeer_decides (hp : p ∈ peers) (hn : (peers.map (·.name)).Nodup) :
    Gives (toPeer ⟨some own⟩ p f) fun cs => ∀ st : State, ∃ t : State,
      performAll (scope own peers) (scope own peers).calls 0 st cs =
          (some (if p.exports own f st.route then .accept else .reject), t) ∧
        (p.exports own f st.route → t.route = p.sent own (p.tagged own f st.route)) := by
  obtain ⟨bans, hbans, _⟩ := @exportBans_perform own peers p
  obtain ⟨sources, hsources, _⟩ := @sources_perform own peers p f p.coveringSources
  obtain ⟨granted, hgranted, decides⟩ := @verdict_performs own peers p hp hn
  have hcommands : toPeer ⟨some own⟩ p f = .ok ((.setDecided false :: bans ++ sources.flatten ++
      .comment "Default route" :: defaultExport p f) ++ [.when .decided granted, .reject]) := by
    rw [toPeer, hbans, ← Policy.coveringSources, hsources, hgranted]
    rfl
  refine ⟨_, hcommands, fun st => ?_⟩
  have offer := offer_performs peers hbans hsources st
  cases hb : p.isBanned own st.route with
  | true =>
    rw [hb, if_pos rfl] at offer
    rw [Policy.exports, hb]
    exact ⟨_, performAll_of_exit offer, fun h => absurd h Bool.false_ne_true⟩
  | false =>
    rw [hb, if_neg Bool.false_ne_true] at offer
    rw [Policy.exports_of_not_banned hb]
    cases hc : st.route.isDefault f && !((p.coveringSources.any fun s =>
        p.covers own f s st.route) && p.redistribution.enabled .default) with
    | true =>
      rw [hc, if_pos rfl] at offer
      exact ⟨_, performAll_of_exit offer, fun h => absurd h Bool.false_ne_true⟩
    | false =>
      rw [hc, if_neg Bool.false_ne_true] at offer
      rw [performAll_of_none offer]
      exact decides _

theorem Exit.eq_accept_iff {exit : Option Exit} {exported : Bool}
    (h : exit = some (if exported then .accept else .reject)) :
    exit = some .accept ↔ exported = true := by
  rw [h]
  cases exported <;> simp

theorem toPeer_runs (hp : p ∈ peers) (hn : (peers.map (·.name)).Nodup) :
    Gives (ofPeer ⟨some own⟩ p f .toPeer) fun program => ∀ r,
      (program.run (scope own peers) r).1 =
          some (if p.exports own f r then .accept else .reject) ∧
        (p.exports own f r →
          (program.run (scope own peers) r).2 = p.sent own (p.tagged own f r)) := by
  refine .bind (toPeer_decides peers hp hn) fun cs hcs => .ok fun r => ?_
  obtain ⟨t, ht, hroute⟩ := hcs ⟨r, false⟩
  rw [Program.run, ht]
  exact ⟨rfl, hroute⟩

end Sources

end Peering.Filter
