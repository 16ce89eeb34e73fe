import Peering.Filter.Meaning
import Peering.Proofs.RuleMeaning

/-!
Which function a call reaches. In a router whose peers have different names, the rule functions of a
peer are reached under their names only, and no peer hides a shared function.
-/
namespace Peering

/-- The names of the two directions are equally long, so the name of the peer can be told apart. -/
theorem ruleBase_inj {p q : String} {d e : Settings.Direction} (h : ruleBase p d = ruleBase q e) :
    p = q ∧ d = e := by
  have hl := congrArg String.toList h
  simp only [ruleBase, toString, String.toList_append, List.append_assoc] at hl
  have hp := List.append_cancel_left hl
  have hlen : d.name.toList.length = e.name.toList.length := by cases d <;> cases e <;> decide
  obtain ⟨hname, hrest⟩ := List.append_inj' hp (by simp [hlen])
  have hd := List.append_cancel_right (List.append_cancel_left hrest)
  refine ⟨String.toList_inj.mp hname, ?_⟩
  cases d <;> cases e <;> first | rfl | exact absurd hd (by decide)

theorem ne_key_of_nodup {α β : Type} {key : α → β} {before after : List α} {a : α}
    (h : ((before ++ a :: after).map key).Nodup) :
    (∀ b ∈ before, key b ≠ key a) ∧ ∀ b ∈ after, key b ≠ key a := by
  rw [List.map_append, List.map_cons, List.nodup_append, List.nodup_cons] at h
  obtain ⟨_, ⟨hafter, _⟩, hbefore⟩ := h
  constructor
  · intro b hb
    exact hbefore _ (List.mem_map_of_mem hb) _ List.mem_cons_self
  · intro b hb heq
    exact hafter (heq ▸ List.mem_map_of_mem hb)

namespace Filter
open Command.perform (performAll)

/-- The base that the name of a rule function is made of. -/
def base? : FunctionName → Option String
  | .shared _ => none
  | .rule (.one base _) | .rule (.every base) => some base

section Lookup
variable {sc : Scope} {name : FunctionName} {fs gs : List Function}

theorem callsAmong_append (h : ∀ f ∈ fs, f.name ≠ name) :
    callsAmong sc (fs ++ gs) name = callsAmong sc gs name := by
  induction fs with
  | nil => rfl
  | cons f fs ih =>
    funext argument r
    rw [List.cons_append, callsAmong, if_neg (h f (by simp)),
      ih fun g hg => h g (List.mem_cons_of_mem f hg)]

theorem callsAmong_cons {f : Function} {argument : UInt32} {r : Route} {b : Bool} {s : State}
    (h : performAll sc (callsAmong sc gs) argument ⟨r, false⟩ f.body = (some (.answer b), s)) :
    callsAmong sc (f :: gs) f.name argument r = (b, s.route) := by
  rw [callsAmong, if_pos rfl, h]

theorem callsAmong_of_mem {f : Function} (hf : f ∈ fs) (hn : (fs.map (·.name)).Nodup) :
    ∃ later, callsAmong sc (fs ++ gs) f.name = callsAmong sc (f :: later) f.name := by
  obtain ⟨before, after, rfl⟩ := List.append_of_mem hf
  refine ⟨after ++ gs, ?_⟩
  rw [List.append_assoc, List.cons_append, callsAmong_append (ne_key_of_nodup hn).1]

end Lookup

section RuleFunctions
variable {sc : Scope} {base : String} {rules : List Rule} {gs : List Function}

theorem base?_ruleFunctions {f : Function} (h : f ∈ ruleFunctions base rules) :
    base? f.name = some base := by
  unfold ruleFunctions at h
  split at h
  · simp at h
  · obtain hone | hevery := List.mem_append.mp h
    · obtain ⟨x, _, rfl⟩ := List.mem_map.mp hone
      rfl
    · obtain rfl := List.mem_singleton.mp hevery
      rfl

theorem callsAmong_one {x : Rule × Nat} (hx : x ∈ rules.zipIdx) (r : Route) :
    callsAmong sc ((rules.zipIdx.map fun (r, i) => ruleFunction base i r).reverse ++ gs)
      (.rule (.one base x.2)) 0 r = x.1.evaluate sc.own r := by
  have names : ((rules.zipIdx.map fun (r, i) => ruleFunction base i r).reverse.map
      (·.name)).Nodup := by
    have indices : (rules.zipIdx.map Prod.snd).Nodup := by
      rw [List.zipIdx_map_snd]
      exact List.nodup_range'
    rw [List.map_reverse, List.Nodup, List.pairwise_reverse, List.map_map, List.pairwise_map]
    refine (List.pairwise_map.mp indices).imp fun hne heq => hne ?_
    simp only [Function.comp, ruleFunction, FunctionName.rule.injEq, RuleFunction.one.injEq] at heq
    exact heq.2.symm
  have hmem : ruleFunction base x.2 x.1 ∈
      (rules.zipIdx.map fun (r, i) => ruleFunction base i r).reverse :=
    List.mem_reverse.mpr (List.mem_map_of_mem hx)
  obtain ⟨later, h⟩ : ∃ later, callsAmong sc (_ ++ gs) (ruleFunction base x.2 x.1).name =
      callsAmong sc (ruleFunction base x.2 x.1 :: later) (ruleFunction base x.2 x.1).name :=
    callsAmong_of_mem hmem names
  rw [show FunctionName.rule (.one base x.2) = (ruleFunction base x.2 x.1).name from rfl, h,
    callsAmong_cons (performAll_ruleBody x.1 ⟨r, false⟩)]

theorem callsAmong_every (hr : rules ≠ []) (r : Route) :
    callsAmong sc ((ruleFunctions base rules).reverse ++ gs) (.rule (.every base)) 0 r =
      evaluateRules sc.own rules r := by
  have hbody : (everyRule base rules.length).body =
      rules.zipIdx.map (fun x => .consult (.one base x.2) [stop]) ++ [keepGoing] := by
    rw [everyRule, List.range_eq_range', ← List.zipIdx_map_snd, List.map_map]
    rfl
  have hconsults : performAll sc
      (callsAmong sc ((rules.zipIdx.map fun (r, i) => ruleFunction base i r).reverse ++ gs)) 0
        ⟨r, false⟩ (everyRule base rules.length).body =
      (some (.answer (evaluateRules sc.own rules r).1),
        ⟨(evaluateRules sc.own rules r).2, false⟩) := by
    rw [hbody, performAll_consults _ _ fun x hx r => callsAmong_one hx r, List.zipIdx_map_fst]
  rw [ruleFunctions, if_neg (by simpa using hr), List.reverse_append, List.reverse_singleton,
    List.singleton_append, List.cons_append]
  exact callsAmong_cons hconsults

end RuleFunctions

section Router
variable {own : UInt32} {peers : List Policy} {p : Policy}

def sharedOf (own : UInt32) : List Function := (sharedFunctions ⟨some own⟩).toOption.getD []

theorem base?_rulesOfPeer {f : Function} (h : f ∈ rulesOfPeer p) :
    ∃ d, base? f.name = some (ruleBase p.name d) := by
  obtain hin | hout := List.mem_append.mp h
  · exact ⟨.inbound, base?_ruleFunctions hin⟩
  · exact ⟨.outbound, base?_ruleFunctions hout⟩

theorem rulesOfPeer_split (p : Policy) (d : Settings.Direction) :
    ∃ before after, rulesOfPeer p =
        before ++ ruleFunctions (ruleBase p.name d) (p.rules d) ++ after ∧
      ∀ f ∈ after, base? f.name ≠ some (ruleBase p.name d) := by
  cases d with
  | inbound =>
    refine ⟨[], ruleFunctions (ruleBase p.name .outbound) p.outbound, rfl, ?_⟩
    intro f hf hbase
    rw [base?_ruleFunctions hf, Option.some.injEq] at hbase
    exact absurd (ruleBase_inj hbase).2 (by decide)
  | outbound =>
    refine ⟨ruleFunctions (ruleBase p.name .inbound) p.inbound, [], ?_, by simp⟩
    rw [List.append_nil]
    rfl

theorem calls_rules (hp : p ∈ peers) (hn : (peers.map (·.name)).Nodup) {d : Settings.Direction}
    (hr : p.rules d ≠ []) (r : Route) :
    (scope own peers).calls (.rule (.every (ruleBase p.name d))) 0 r =
      evaluateRules own (p.rules d) r := by
  obtain ⟨before, after, rfl⟩ := List.append_of_mem hp
  obtain ⟨earlier, later, hsplit, hlater⟩ := rulesOfPeer_split p d
  have hall : (scope own (before ++ p :: after)).functions.reverse =
      (later ++ after.flatMap rulesOfPeer).reverse ++
        ((ruleFunctions (ruleBase p.name d) (p.rules d)).reverse ++
          (sharedOf own ++ before.flatMap rulesOfPeer ++ earlier).reverse) := by
    simp only [scope, sharedOf, List.flatMap_append, List.flatMap_cons, hsplit,
      List.reverse_append, List.append_assoc]
  have hafter : ∀ f ∈ (later ++ after.flatMap rulesOfPeer).reverse,
      f.name ≠ .rule (.every (ruleBase p.name d)) := by
    intro f hf hname
    have hbase : base? f.name = some (ruleBase p.name d) := by rw [hname, base?]
    obtain hl | ha := List.mem_append.mp (List.mem_reverse.mp hf)
    · exact hlater f hl hbase
    · obtain ⟨q, hq, hfq⟩ := List.mem_flatMap.mp ha
      obtain ⟨e, he⟩ := base?_rulesOfPeer hfq
      rw [he, Option.some.injEq] at hbase
      exact (ne_key_of_nodup hn).2 q hq (ruleBase_inj hbase).1
  rw [Scope.calls, hall, callsAmong_append hafter]
  exact callsAmong_every hr r

theorem perform_consult_rulesOf (hp : p ∈ peers) (hn : (peers.map (·.name)).Nodup)
    {d : Settings.Direction} (hr : p.rules d ≠ []) (no : List Command) (s : State) :
    (Command.consult (rulesOf p d) no).perform (scope own peers) (scope own peers).calls 0 s =
      if (evaluateRules own (p.rules d) s.route).1 then
        (none, { s with route := (evaluateRules own (p.rules d) s.route).2 })
      else
        performAll (scope own peers) (scope own peers).calls 0
          { s with route := (evaluateRules own (p.rules d) s.route).2 } no := by
  rw [perform_consult, rulesOf, calls_rules hp hn hr]

theorem calls_shared (g : SharedFunction) :
    (scope own peers).calls (.shared g) =
      callsAmong (scope own peers) (sharedOf own).reverse (.shared g) := by
  have hrules : ∀ f ∈ (peers.flatMap rulesOfPeer).reverse, f.name ≠ .shared g := by
    intro f hf hname
    obtain ⟨q, _, hq⟩ := List.mem_flatMap.mp (List.mem_reverse.mp hf)
    obtain ⟨d, hd⟩ := base?_rulesOfPeer hq
    rw [hname, base?] at hd
    exact nomatch hd
  rw [Scope.calls, scope, List.reverse_append]
  exact callsAmong_append hrules

end Router

end Filter
end Peering
