import Peering.Filter.Rules
import Peering.Proofs.Performing

/-!
What rules mean, said without filters: a rule applies or does not, and a list of rules is gone
through until one refuses the route. The functions that rules become answer and do the same.
-/
namespace Peering

def Condition.holds {α : Type} (c : Condition α) (fits : α → Bool) : Bool :=
  c.values.any fits != c.negated

def RuleMatch.applies (m : RuleMatch) (r : Route) : Bool :=
  m.originAsn.all (·.holds (· == r.originAsn)) &&
    m.net.all (·.holds (·.admits r.net)) &&
    m.community.all (·.holds r.communities.contains) &&
    m.extendedCommunity.all (·.holds r.extended.contains) &&
    m.largeCommunity.all (·.holds r.large.contains)

/-- Additions come before removals. -/
def Edit.perform {α : Type} [DecidableEq α] (e : Edit α) (as : List α) : List α :=
  e.remove.foldl (fun l a => removeMember a l) (e.add.foldl (fun l a => addMember a l) as)

def RuleUpdate.perform (own : UInt32) (u : RuleUpdate) (r : Route) : Route :=
  { r with
    communities := u.community.perform r.communities
    extended := u.extendedCommunity.perform r.extended
    large := u.largeCommunity.perform r.large
    path := List.replicate (u.prepend.getD 0) own ++ r.path }

/-- Whether to go on after the rule, and the route then. -/
def Rule.evaluate (own : UInt32) (rule : Rule) (r : Route) : Bool × Route :=
  if rule.condition.applies r then
    match rule.action with
    | .reject => (false, r)
    | .update u => (true, u.perform own r)
  else (true, r)

/-- Goes through rules in order, up to the first that refuses the route. -/
def evaluateRules (own : UInt32) : List Rule → Route → Bool × Route
  | [], r => (true, r)
  | rule :: rules, r =>
    match rule.evaluate own r with
    | (true, r) => evaluateRules own rules r
    | refused => refused

def Rule.Adds (rule : Rule) (c : LargeCommunity) : Prop :=
  ∃ u, rule.action = .update u ∧ c ∈ u.largeCommunity.add

def Rule.Removes (rule : Rule) (c : LargeCommunity) : Prop :=
  ∃ u, rule.action = .update u ∧ c ∈ u.largeCommunity.remove

section Effects
variable {own : UInt32}

theorem Rule.evaluate_induct {P : Route → Prop} {rule : Rule} {r : Route} (h : P r)
    (step : ∀ u, rule.action = .update u → P (u.perform own r)) : P (rule.evaluate own r).2 := by
  unfold Rule.evaluate
  split
  · cases ha : rule.action with
    | reject => exact h
    | update u => exact step u ha
  · exact h

/-- What every update of the rules keeps, going through the rules keeps. -/
theorem evaluateRules_induct {P : Route → Prop} {rules : List Rule} {r : Route} (h : P r)
    (step : ∀ rule ∈ rules, ∀ u, rule.action = .update u → ∀ r, P r → P (u.perform own r)) :
    P (evaluateRules own rules r).2 := by
  induction rules generalizing r with
  | nil => exact h
  | cons rule rules ih =>
    have hr : P (rule.evaluate own r).2 :=
      Rule.evaluate_induct h fun u hu => step rule (by simp) u hu r h
    rw [evaluateRules]
    cases he : rule.evaluate own r with
    | mk go r' =>
      rw [he] at hr
      cases go with
      | false => exact hr
      | true => exact ih hr fun q hq => step q (List.mem_cons_of_mem rule hq)

theorem mem_addAll {α : Type} [DecidableEq α] {a : α} {bs as : List α} :
    a ∈ bs.foldl (fun l b => addMember b l) as ↔ a ∈ bs ∨ a ∈ as := by
  induction bs generalizing as with
  | nil => simp
  | cons b bs ih => rw [List.foldl_cons, ih, mem_addMember, List.mem_cons, or_left_comm, or_assoc]

theorem mem_removeAll {α : Type} [DecidableEq α] {a : α} {bs as : List α} :
    a ∈ bs.foldl (fun l b => removeMember b l) as ↔ a ∉ bs ∧ a ∈ as := by
  induction bs generalizing as with
  | nil => simp
  | cons b bs ih => simp [ih, mem_removeMember, and_assoc, and_left_comm]

theorem Edit.mem_perform {α : Type} [DecidableEq α] {e : Edit α} {a : α} {as : List α} :
    a ∈ e.perform as ↔ a ∉ e.remove ∧ (a ∈ e.add ∨ a ∈ as) := by
  rw [Edit.perform, mem_removeAll, mem_addAll]

theorem evaluateRules_frame (rules : List Rule) (r : Route) :
    (evaluateRules own rules r).2.net = r.net ∧
      (evaluateRules own rules r).2.origin = r.origin ∧
      (evaluateRules own rules r).2.protocol = r.protocol := by
  apply evaluateRules_induct (P := fun t => t.net = r.net ∧ t.origin = r.origin ∧
    t.protocol = r.protocol) ⟨rfl, rfl, rfl⟩
  intro rule _ u _ t ht
  exact ht

theorem mem_or_adds_of_mem_evaluateRules {rules : List Rule} {r : Route} {c : LargeCommunity}
    (h : c ∈ (evaluateRules own rules r).2.large) :
    c ∈ r.large ∨ ∃ rule ∈ rules, rule.Adds c := by
  revert h
  apply evaluateRules_induct
    (P := fun t => c ∈ t.large → c ∈ r.large ∨ ∃ rule ∈ rules, rule.Adds c) .inl
  intro rule hrule u hu t ht hc
  obtain hadd | hold := (Edit.mem_perform.mp hc).2
  · exact .inr ⟨rule, hrule, u, hu, hadd⟩
  · exact ht hold

theorem mem_evaluateRules_of_mem {rules : List Rule} {r : Route} {c : LargeCommunity}
    (h : c ∈ r.large) (kept : ∀ rule ∈ rules, ¬ rule.Removes c) :
    c ∈ (evaluateRules own rules r).2.large := by
  apply evaluateRules_induct (P := fun t => c ∈ t.large) h
  intro rule hrule u hu t ht
  exact Edit.mem_perform.mpr ⟨fun hc => kept rule hrule ⟨u, hu, hc⟩, .inr ht⟩

end Effects

namespace Filter
open Command.perform (performAll)

/-- A check that passes goes on with the commands after it. Otherwise the rule does not apply, and
its function answers at once. -/
def passOrLeave (b : Bool) (s : State) : Option Exit × State :=
  if b then (none, s) else (some (.answer true), s)

def ChecksFor (sc : Scope) (calls : Calls) (argument : UInt32) (cs : List Command)
    (b : Route → Bool) : Prop :=
  ∀ s : State, performAll sc calls argument s cs = passOrLeave (b s.route) s

section Checks
variable {sc : Scope} {calls : Calls} {argument : UInt32}

theorem ChecksFor.nil : ChecksFor sc calls argument [] fun _ => true := fun _ => rfl

theorem ChecksFor.append {cs ds : List Command} {b c : Route → Bool}
    (hb : ChecksFor sc calls argument cs b) (hc : ChecksFor sc calls argument ds c) :
    ChecksFor sc calls argument (cs ++ ds) fun r => b r && c r := by
  intro s
  cases h : b s.route with
  | false =>
    rw [performAll_of_exit (by rw [hb, h]; rfl)]
    simp [passOrLeave, h]
  | true =>
    rw [performAll_of_none (by rw [hb, h]; rfl), hc]
    simp [h]

theorem performAll_keepGoing (s : State) :
    performAll sc calls argument s [keepGoing] = (some (.answer true), s) := by
  rw [performAll_singleton, keepGoing, Command.perform, Test.holds]

theorem performAll_stop (s : State) :
    performAll sc calls argument s [stop] = (some (.answer false), s) := by
  rw [performAll_singleton, stop, Command.perform, Test.holds]

theorem ChecksFor.leaveUnless {t : Test} {b : Route → Bool} (negated : Bool)
    (ht : ∀ s : State, t.holds sc calls argument s = b s.route) :
    ChecksFor sc calls argument [leaveUnless t negated] fun r => b r != negated := by
  intro s
  rw [performAll_singleton, Filter.leaveUnless, Command.perform_when, performAll_keepGoing]
  cases negated <;> cases hb : b s.route <;> simp [passOrLeave, Test.holds, ht, hb]

theorem ChecksFor.values {α : Type} {test : List α → Test} {fits : Route → α → Bool}
    (title : String) (condition : Option (Condition α))
    (ht : ∀ (vs : List α) (s : State),
      (test vs).holds sc calls argument s = vs.any (fits s.route)) :
    ChecksFor sc calls argument (checkValues title test condition)
      fun r => condition.all (·.holds (fits r)) := by
  cases condition with
  | none => exact .nil
  | some c =>
    intro s
    rw [checkValues, performAll_comment]
    exact ChecksFor.leaveUnless (b := fun r => c.values.any (fits r)) c.negated (ht c.values) s

theorem any_contains_comm {α : Type} [DecidableEq α] (as bs : List α) :
    as.any bs.contains = bs.any as.contains := by
  rw [Bool.eq_iff_iff]
  simp only [List.any_eq_true, List.contains_iff_mem]
  constructor <;> exact fun ⟨a, h, k⟩ => ⟨a, k, h⟩

theorem ChecksFor.family (ps : List Pattern) (negated : Bool) :
    ChecksFor sc calls argument (checkFamily ps negated)
      fun r => ps.any (·.admits r.net) != negated := by
  unfold checkFamily
  split
  · exact fun s => performAll_keepGoing s
  · exact .nil
  · exact .leaveUnless _ fun s => by simp [Test.holds, Scope.netsOf]

theorem any_admits_filter {ps : List Pattern} {n : Network} {p : Pattern → Bool}
    (h : ∀ q : Pattern, q.family = n.family → p q = true) :
    (ps.filter p).any (·.admits n) = ps.any (·.admits n) := by
  rw [List.any_filter]
  congr 1
  funext q
  cases hq : q.admits n with
  | false => simp
  | true => simp [h q (Pattern.family_of_admits hq)]

theorem performAll_checkNet (c : Condition Pattern) (s : State) :
    performAll sc calls argument s (checkNet (some c)) =
      performAll sc calls argument s
        (if s.route.net.family = .v4
          then checkFamily (c.values.filter fun p => p.family = .v4) c.negated
          else checkFamily (c.values.filter fun p => p.family ≠ .v4) c.negated) := by
  simp only [checkNet]
  split
  · rename_i h4 h6
    rw [h4, h6, ite_self]
  · rename_i h4 _
    rw [performAll_comment, performAll_singleton, Command.perform_when, h4]
    cases hf : s.route.net.family <;> simp [Test.holds, hf, performAll]
  · rw [performAll_comment, performAll_singleton, Command.perform]
    cases hf : s.route.net.family <;> simp [Test.holds, hf]

theorem ChecksFor.net (condition : Option (Condition Pattern)) :
    ChecksFor sc calls argument (checkNet condition)
      fun r => condition.all (·.holds (·.admits r.net)) := by
  cases condition with
  | none => exact .nil
  | some c =>
    intro s
    rw [performAll_checkNet]
    show _ = passOrLeave (c.values.any (·.admits s.route.net) != c.negated) s
    cases hf : s.route.net.family with
    | v4 =>
      rw [if_pos rfl, ChecksFor.family]
      dsimp only
      rw [any_admits_filter fun q hq => by simp [hq, hf]]
    | v6 =>
      rw [if_neg (by decide), ChecksFor.family]
      dsimp only
      rw [any_admits_filter fun q hq => by simp [hq, hf]]

theorem ChecksFor.rule (m : RuleMatch) :
    ChecksFor sc calls argument (checks m) m.applies := by
  refine .append (.append (.append (.append (.values _ _ ?_) (.net _)) (.values _ _ ?_))
    (.values _ _ ?_)) (.values _ _ ?_)
  · intro vs s
    simp only [Test.holds, Scope.hasAsn]
    rw [Bool.eq_iff_iff]
    simp
  · exact fun vs s => any_contains_comm _ _
  · exact fun vs s => any_contains_comm _ _
  · exact fun vs s => any_contains_comm _ _

end Checks

section Bodies
variable {sc : Scope} {calls : Calls} {argument : UInt32}

theorem performAll_map {α : Type} (put : List α → Route) (f : α → Command)
    (g : List α → α → List α)
    (h : ∀ l a d, (f a).perform sc calls argument ⟨put l, d⟩ = (none, ⟨put (g l a), d⟩))
    (as l : List α) (d : Bool) :
    performAll sc calls argument ⟨put l, d⟩ (as.map f) = (none, ⟨put (as.foldl g l), d⟩) := by
  induction as generalizing l with
  | nil => rfl
  | cons a as ih =>
    rw [List.map_cons, performAll_cons, h]
    exact ih _

theorem performAll_edits {α : Type} [DecidableEq α] (put : List α → Route) (mark : α → Mark)
    (hadd : ∀ l a, (mark a).addTo (put l) = put (addMember a l))
    (hremove : ∀ l a, (mark a).removeFrom (put l) = put (removeMember a l))
    (e : Edit α) (l : List α) (d : Bool) :
    performAll sc calls argument ⟨put l, d⟩ (edits mark e) = (none, ⟨put (e.perform l), d⟩) := by
  have adds : performAll sc calls argument ⟨put l, d⟩ (e.add.map fun a => .add (mark a)) =
      (none, ⟨put (e.add.foldl (fun l a => addMember a l) l), d⟩) :=
    performAll_map put _ _ (fun l a d => by rw [Command.perform, hadd]) _ _ _
  rw [edits, performAll_of_none adds]
  exact performAll_map put _ _ (fun l a d => by rw [Command.perform, hremove]) _ _ _

theorem performAll_prepend (n : Nat) (r : Route) (d : Bool) :
    performAll sc calls argument ⟨r, d⟩ (List.replicate n .prepend) =
      (none, ⟨{ r with path := List.replicate n sc.own ++ r.path }, d⟩) := by
  induction n generalizing r with
  | zero => rfl
  | succ n ih =>
    rw [List.replicate_succ, performAll_cons, Command.perform, List.replicate_succ',
      List.append_assoc]
    exact ih _

theorem performAll_update (u : RuleUpdate) (s : State) :
    performAll sc calls argument s (actions (.update u)) =
      (some (.answer true), { s with route := u.perform sc.own s.route }) := by
  obtain ⟨r, d⟩ := s
  let r₁ : Route := { r with communities := u.community.perform r.communities }
  let r₂ : Route := { r₁ with extended := u.extendedCommunity.perform r.extended }
  let r₃ : Route := { r₂ with large := u.largeCommunity.perform r.large }
  have standard : performAll sc calls argument ⟨r, d⟩ (edits .standard u.community) =
      (none, ⟨r₁, d⟩) :=
    performAll_edits (fun l => { r with communities := l }) _ (fun _ _ => rfl) (fun _ _ => rfl)
      _ _ _
  have extended : performAll sc calls argument ⟨r₁, d⟩ (edits .extended u.extendedCommunity) =
      (none, ⟨r₂, d⟩) :=
    performAll_edits (fun l => { r₁ with extended := l }) _ (fun _ _ => rfl) (fun _ _ => rfl)
      _ _ _
  have large : performAll sc calls argument ⟨r₂, d⟩ (edits .large u.largeCommunity) =
      (none, ⟨r₃, d⟩) :=
    performAll_edits (fun l => { r₂ with large := l }) _ (fun _ _ => rfl) (fun _ _ => rfl)
      _ _ _
  rw [actions, List.append_assoc, List.append_assoc, List.append_assoc, List.cons_append,
    performAll_comment, performAll_of_none standard, performAll_of_none extended,
    performAll_of_none large, performAll_of_none (performAll_prepend _ _ _), performAll_keepGoing]
  rfl

/-- The function of a rule answers and does what the rule means. -/
theorem performAll_ruleBody (rule : Rule) (s : State) :
    performAll sc calls argument s (ruleBody rule) =
      (some (.answer (rule.evaluate sc.own s.route).1),
        { s with route := (rule.evaluate sc.own s.route).2 }) := by
  rw [ruleBody, Command.performAll_append, ChecksFor.rule, Rule.evaluate]
  cases rule.condition.applies s.route with
  | false => rfl
  | true =>
    cases rule.action with
    | reject => exact performAll_stop s
    | update u => exact performAll_update u s

/-- Consulting the functions of rules one after the other goes through the rules. -/
theorem performAll_consults {base : String} (numbered : List (Rule × Nat)) (s : State)
    (h : ∀ x ∈ numbered, ∀ r, calls (.rule (.one base x.2)) 0 r = x.1.evaluate sc.own r) :
    performAll sc calls argument s
        (numbered.map (fun x => .consult (.one base x.2) [stop]) ++ [keepGoing]) =
      (some (.answer (evaluateRules sc.own (numbered.map (·.1)) s.route).1),
        { s with route := (evaluateRules sc.own (numbered.map (·.1)) s.route).2 }) := by
  induction numbered generalizing s with
  | nil => exact performAll_keepGoing s
  | cons x numbered ih =>
    have hx := h x (by simp) s.route
    rw [List.map_cons, List.cons_append, performAll_cons, perform_consult, hx, List.map_cons,
      evaluateRules]
    obtain ⟨_ | _, r⟩ := x.1.evaluate sc.own s.route
    · rw [if_neg Bool.false_ne_true, performAll_stop]
    · exact ih _ fun y hy => h y (List.mem_cons_of_mem x hy)

end Bodies

end Filter
end Peering
