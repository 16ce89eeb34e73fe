import Peering.Proofs.Names

/-!
Where rules end. Going through rules, each sees the route as the rules before it left it, and the
first that applies and rejects is the last: the function of all rules says no because of it, and
does the updates of the rules before it only.
-/
namespace Peering

def Rule.Refuses (rule : Rule) (r : Route) : Prop :=
  rule.condition.applies r = true ∧ rule.action = .reject

def updatedBy (own : UInt32) (rules : List Rule) (r : Route) : Route :=
  rules.foldl (fun r rule => (rule.evaluate own r).2) r

def Passes (own : UInt32) : List Rule → Route → Prop
  | [], _ => True
  | rule :: rules, r => ¬ rule.Refuses r ∧ Passes own rules (rule.evaluate own r).2

/-- Going through rules is done with `before`: the next of them, if there is one, refuses the route
as the rules before it left it, and none of these did. -/
structure EndsAfter (own : UInt32) (rules : List Rule) (r : Route) (before after : List Rule) :
    Prop where
  split : rules = before ++ after
  passes : Passes own before r
  refuses : ∀ rule ∈ after.head?, rule.Refuses (updatedBy own before r)

section Evaluation
variable {own : UInt32}

theorem Rule.evaluate_of_refuses {rule : Rule} {r : Route} (h : rule.Refuses r) :
    rule.evaluate own r = (false, r) := by
  rw [evaluate, if_pos h.1, h.2]

theorem Rule.evaluate_eq_false_iff {rule : Rule} {r : Route} :
    (rule.evaluate own r).1 = false ↔ rule.Refuses r := by
  refine ⟨fun h => ?_, fun h => by rw [evaluate_of_refuses h]⟩
  unfold evaluate at h
  split at h
  · rename_i happlies
    refine ⟨happlies, ?_⟩
    cases ha : rule.action with
    | reject => rfl
    | update u =>
      rw [ha] at h
      exact nomatch h
  · exact nomatch h

theorem evaluateRules_append {before : List Rule} {r : Route} (h : Passes own before r)
    (after : List Rule) :
    evaluateRules own (before ++ after) r = evaluateRules own after (updatedBy own before r) := by
  induction before generalizing r with
  | nil => rfl
  | cons rule before ih =>
    have goes : (rule.evaluate own r).1 = true :=
      Bool.not_eq_false _ ▸ fun hno => h.1 (Rule.evaluate_eq_false_iff.mp hno)
    rw [List.cons_append, evaluateRules, updatedBy, List.foldl_cons, ← updatedBy, ← ih h.2]
    generalize rule.evaluate own r = result at goes
    obtain ⟨_, r'⟩ := result
    obtain rfl := goes
    rfl

theorem evaluateRules_of_endsAfter {rules before after : List Rule} {r : Route}
    (h : EndsAfter own rules r before after) :
    evaluateRules own rules r = (after.isEmpty, updatedBy own before r) := by
  rw [h.split, evaluateRules_append h.passes]
  cases after with
  | nil => rfl
  | cons rule after =>
    rw [evaluateRules, Rule.evaluate_of_refuses (h.refuses rule rfl)]
    rfl

theorem exists_endsAfter (own : UInt32) (rules : List Rule) (r : Route) :
    ∃ before after, EndsAfter own rules r before after := by
  induction rules generalizing r with
  | nil => exact ⟨[], [], rfl, trivial, fun _ h => nomatch h⟩
  | cons rule rules ih =>
    -- The rules are done with at once, or where the rest of them is, from the route as it is then.
    by_cases h : rule.Refuses r
    · exact ⟨[], rule :: rules, rfl, trivial, fun _ heq => Option.some.inj heq ▸ h⟩
    · obtain ⟨before, after, rfl, passes, refuses⟩ := ih (rule.evaluate own r).2
      exact ⟨rule :: before, after, rfl, ⟨h, passes⟩, refuses⟩

theorem evaluateRules_eq_false_iff {rules : List Rule} {r : Route} :
    (evaluateRules own rules r).1 = false ↔
      ∃ before rule after, EndsAfter own rules r before (rule :: after) := by
  constructor
  · intro h
    obtain ⟨before, after, ends⟩ := exists_endsAfter own rules r
    rw [evaluateRules_of_endsAfter ends] at h
    cases after with
    | nil => exact nomatch h
    | cons rule after => exact ⟨before, rule, after, ends⟩
  · rintro ⟨before, rule, after, ends⟩
    rw [evaluateRules_of_endsAfter ends]
    rfl

end Evaluation

namespace Filter

theorem callsAmong_one_of_ruleFunctions {sc : Scope} {base : String} {rules : List Rule} {i : Nat}
    {rule : Rule} (h : rules[i]? = some rule) (earlier : List Function) (r : Route) :
    callsAmong sc ((ruleFunctions base rules).reverse ++ earlier) (.rule (.one base i)) 0 r =
      rule.evaluate sc.own r := by
  have hmem : (rule, i) ∈ rules.zipIdx := List.mk_mem_zipIdx_iff_getElem?.mpr h
  have hr : rules.isEmpty = false := by
    cases rules with
    | nil => exact nomatch hmem
    | cons => rfl
  have hevery : ∀ f ∈ [everyRule base rules.length], f.name ≠ .rule (.one base i) := by
    simp [everyRule]
  rw [ruleFunctions, hr, if_neg Bool.false_ne_true, List.reverse_append, List.reverse_singleton,
    List.append_assoc, callsAmong_append hevery]
  exact callsAmong_one hmem r

theorem nodup_texts_ruleFunctions (base : String) (rules : List Rule) :
    ((ruleFunctions base rules).map (·.name.name)).Nodup := by
  have names := List.pairwise_map.mp (nodup_names_ruleFunctions base rules)
  exact List.pairwise_map.mpr (names.imp_of_mem fun hf hg hne heq => hne
    (FunctionName.name_inj_of_base (base?_ruleFunctions hf) (base?_ruleFunctions hg) heq))

/-- The functions of some rules, among whatever functions are defined before them. Each does what
its rule means, and the function of all of them says no where a rule refuses the route in its turn;
it leaves the route as the rules before that one do. -/
theorem rules_run_in_order (sc : Scope) (earlier : List Function) (base : String)
    {rules : List Rule} (hr : rules ≠ []) :
    let calls := callsAmong sc ((ruleFunctions base rules).reverse ++ earlier)
    ((ruleFunctions base rules).map (·.name.name)).Nodup ∧
      (∀ (p : Pattern) n, p.admits n = true → p.family = n.family) ∧
      (∀ i rule, rules[i]? = some rule → ∀ r,
        calls (.rule (.one base i)) 0 r = rule.evaluate sc.own r) ∧
      ∀ r,
        ((calls (.rule (.every base)) 0 r).1 = false ↔
          ∃ before rule after, EndsAfter sc.own rules r before (rule :: after)) ∧
        (∃ before after, EndsAfter sc.own rules r before after) ∧
        ∀ before after, EndsAfter sc.own rules r before after →
          (calls (.rule (.every base)) 0 r).2 = updatedBy sc.own before r := by
  intro calls
  have hevery : ∀ r, calls (.rule (.every base)) 0 r = evaluateRules sc.own rules r :=
    callsAmong_every hr
  refine ⟨nodup_texts_ruleFunctions base rules, fun p n => Pattern.family_of_admits,
    fun i rule hi => callsAmong_one_of_ruleFunctions hi earlier, fun r =>
      ⟨?_, exists_endsAfter sc.own rules r, fun before after ends => ?_⟩⟩
  · rw [hevery, evaluateRules_eq_false_iff]
  · rw [hevery, evaluateRules_of_endsAfter ends]

/-- The first rule tags every route, the second refuses those with the tag, and the third would
prepend: the answer is no, the tag is there, and the path is as before. -/
theorem rules_run_in_order_tagged :
    let every : RuleMatch := ⟨none, none, none, none, none⟩
    let tagged : RuleMatch := ⟨none, none, some ⟨[⟨3333, 1⟩], false⟩, none, none⟩
    let rules : List Rule := [
      ⟨.inbound, every, .update ⟨⟨[⟨3333, 1⟩], []⟩, .empty, .empty, none⟩⟩,
      ⟨.inbound, tagged, .reject⟩,
      ⟨.inbound, every, .update ⟨.empty, .empty, .empty, some 1⟩⟩]
    let functions := ruleFunctions "bgp_a_import_action" rules
    let calls := callsAmong (scope 65000 []) (functions.reverse ++ [])
    let r : Route := ⟨⟨.v4 134744064, 24⟩, .bgp, "bgp4_a", [3333], .v4 3221225985, 100, [], [], []⟩
    rules ≠ [] ∧ calls (.rule (.every "bgp_a_import_action")) 0 r =
      (false, { r with communities := [⟨3333, 1⟩] }) := by
  intro every tagged rules functions calls r
  have ends : EndsAfter 65000 rules r [rules[0]] (rules[1] :: [rules[2]]) :=
    ⟨rfl, ⟨(nomatch ·.2), trivial⟩, fun _ heq => Option.some.inj heq ▸ ⟨by decide, rfl⟩⟩
  have hr : rules ≠ [] := List.cons_ne_nil _ _
  obtain ⟨_, _, _, runs⟩ := rules_run_in_order (scope 65000 []) [] "bgp_a_import_action" hr
  obtain ⟨refuses, _, updates⟩ := runs r
  exact ⟨hr, Prod.ext (refuses.mpr ⟨_, _, _, ends⟩) (updates _ _ ends)⟩

end Filter
end Peering
