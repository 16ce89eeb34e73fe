import Mathlib
import Peering.Policy.Resolve
import Peering.Proofs.Calls

/-!
Which names are the same text. Within one kind, names of different things are different texts, but
for the pipe and the filters of a peer that is called `master`: those have the names of the pipe and
the filters that join the main table to the master table.
-/
namespace Peering

theorem toDigits_inj {m n : Nat} (h : Nat.toDigits 10 m = Nat.toDigits 10 n) : m = n := by
  have hm := Nat.ofDigitChars_toDigits (b := 10) (n := m) (by decide) (by decide)
  rw [h, Nat.ofDigitChars_toDigits (by decide) (by decide)] at hm
  exact hm.symm

section Peers

def isNameChar (c : Char) : Bool := c.isLower || c.isDigit || c = '_'

theorem isNameChar_of_validName {name : String} (h : Policy.validName name = true) {c : Char}
    (hc : c ∈ name.toList) : isNameChar c = true := by
  simp only [Policy.validName, Bool.and_eq_true, List.all_eq_true] at h
  exact h.2 c hc

theorem toLower_toUpper {c : Char} (h : isNameChar c = true) : c.toUpper.toLower = c := by
  have small : ¬ c.isUpper = true := by
    simp only [isNameChar, Bool.or_eq_true, decide_eq_true_eq] at h
    obtain (lower | digit) | rfl := h
    · exact Char.not_isUpper_of_isLower lower
    · simp [Char.isDigit, Char.isUpper, UInt32.le_iff_toNat_le] at digit ⊢
      omega
    · decide
  rw [Char.toLower_toUpper_eq_toLower, Char.toLower_eq_of_not_isUpper small]

theorem upper_inj {p q : String} (hp : Policy.validName p = true) (hq : Policy.validName q = true)
    (h : upper p = upper q) : p = q := by
  have lowered : ∀ {s : String}, Policy.validName s = true →
      ((upper s).toList.map Char.toLower) = s.toList := by
    intro s hs
    rw [upper, String.toList_map, List.map_map]
    exact (List.map_congr_left fun c hc =>
      toLower_toUpper (isNameChar_of_validName hs hc)).trans (List.map_id _)
  exact String.toList_inj.mp (by rw [← lowered hp, h, lowered hq])

end Peers

theorem digit_append_inj {f g : Family} {cs ds : List Char}
    (h : f.digit.toList ++ '_' :: cs = g.digit.toList ++ '_' :: ds) : f = g ∧ cs = ds := by
  cases f <;> cases g <;> simp_all [Family.digit]

namespace Constant

theorem mem_all (c : Constant) : c ∈ all := by
  rcases c with _ | (_ | _) | (_ | _) | _ | _ | _ <;> decide

theorem nodup_names : (all.map name).Nodup := by decide +kernel

theorem name_inj {c d : Constant} (h : c.name = d.name) : c = d :=
  List.inj_on_of_nodup_map nodup_names (mem_all c) (mem_all d) h

end Constant

namespace ListName

def peer? : ListName → Option String
  | peerAsns p | peerNets p _ => some p
  | _ => none

theorem name_inj {a b : ListName} (ha : ∀ p ∈ a.peer?, Policy.validName p = true)
    (hb : ∀ p ∈ b.peer?, Policy.validName p = true) (h : a.name = b.name) : a = b := by
  have hl := congrArg String.toList h
  cases a <;> cases b <;> simp [name, toString] at hl
  case bogons.bogons f g => rw [Family.digit_inj.mp (String.toList_inj.mp hl)]
  case bogonAsns.bogonAsns => rfl
  case transitFree.transitFree => rfl
  case peerAsns.peerAsns p q => rw [upper_inj (ha p rfl) (hb q rfl) (String.toList_inj.mp hl)]
  -- One name ends in a letter, the other in the digit of a family.
  case peerAsns.peerNets f =>
    have := congrArg List.getLast? hl
    cases f <;> simp [Family.digit] at this
  case peerNets.peerAsns f _ =>
    have := congrArg List.getLast? hl
    cases f <;> simp [Family.digit] at this
  case peerNets.peerNets p f q g =>
    obtain ⟨hpq, hfg⟩ := List.append_inj' hl (by cases f <;> cases g <;> rfl)
    rw [upper_inj (ha p rfl) (hb q rfl) (String.toList_inj.mp hpq)]
    simp only [List.cons.injEq, true_and] at hfg
    rw [Family.digit_inj.mp (String.toList_inj.mp hfg)]

end ListName

theorem SharedFunction.name_inj {f g : SharedFunction} (h : f.name = g.name) : f = g :=
  List.inj_on_of_nodup_map nodup_names (mem_all f) (mem_all g) h

section RuleNames

/-- A text from its end up to the number that it may end in. -/
def stem (s : String) : List Char := s.toList.reverse.dropWhile Char.isDigit

theorem stem_one (base : String) (i : Nat) :
    stem (RuleFunction.one base i).name = '_' :: base.toList.reverse := by
  have digits : ∀ c ∈ (Nat.toDigits 10 i).reverse, c.isDigit = true := fun c hc =>
    Nat.isDigit_of_mem_toDigits (by decide) (by decide) (List.mem_reverse.mp hc)
  simp only [stem, RuleFunction.name, toString, String.toList_append, List.reverse_append]
  rw [Nat.toList_repr, List.dropWhile_append_of_pos digits]
  rfl

theorem stem_every (base : String) :
    stem (RuleFunction.every base).name = 's' :: base.toList.reverse := by
  simp only [stem, RuleFunction.name, String.toList_append, List.reverse_append]
  rfl

theorem RuleFunction.name_inj {f g : RuleFunction} (h : f.name = g.name) : f = g := by
  have hs := congrArg stem h
  cases f <;> cases g <;> simp only [stem_one, stem_every, List.cons.injEq, List.reverse_inj] at hs
  case one.one base i base' j =>
    obtain rfl := String.toList_inj.mp hs.2
    have hl := congrArg String.toList h
    simp only [name, toString, String.toList_append, List.append_cancel_left_eq,
      Nat.toList_repr] at hl
    rw [toDigits_inj hl]
  case every.every => rw [String.toList_inj.mp hs.2]
  all_goals exact absurd hs.1 (by decide)

theorem FunctionName.name_inj_of_base {f g : FunctionName} {b c : String}
    (hf : Filter.base? f = some b) (hg : Filter.base? g = some c) (h : f.name = g.name) :
    f = g := by
  cases f <;> cases g <;> simp only [Filter.base?, reduceCtorEq] at hf hg
  rw [RuleFunction.name_inj h]

theorem ruleBase_ends (p : String) (d : Settings.Direction) :
    (ruleBase p d).toList.reverse.head? = some 'n' := by
  simp [ruleBase, toString]

theorem SharedFunction.name_ne_rule (g : SharedFunction) {f : RuleFunction} {p : String}
    {d : Settings.Direction} (hf : Filter.base? (.rule f) = some (ruleBase p d)) :
    g.name ≠ f.name := by
  have shared : ∀ g ∈ all, (stem g.name).head? ∈ [some '_', some 's'] →
      (stem g.name).tail.head? ≠ some 'n' := by decide +kernel
  intro h
  specialize shared g (mem_all g)
  rw [h] at shared
  cases f <;> obtain rfl := Option.some.inj hf
  case one => exact shared (by simp [stem_one]) (by rw [stem_one]; exact ruleBase_ends p d)
  case every => exact shared (by simp [stem_every]) (by rw [stem_every]; exact ruleBase_ends p d)

theorem FunctionName.name_inj {f g : FunctionName}
    (hf : ∀ b ∈ Filter.base? f, ∃ p d, b = ruleBase p d)
    (hg : ∀ b ∈ Filter.base? g, ∃ p d, b = ruleBase p d) (h : f.name = g.name) : f = g := by
  have based : ∀ {f : RuleFunction}, ∃ b, Filter.base? (.rule f) = some b := by
    intro f
    cases f <;> exact ⟨_, rfl⟩
  cases f <;> cases g
  case shared.shared => rw [SharedFunction.name_inj h]
  case rule.rule => rw [RuleFunction.name_inj h]
  case shared.rule f g =>
    obtain ⟨b, hb⟩ := @based g
    obtain ⟨p, d, rfl⟩ := hg b hb
    exact absurd h (f.name_ne_rule hb)
  case rule.shared f g =>
    obtain ⟨b, hb⟩ := @based f
    obtain ⟨p, d, rfl⟩ := hf b hb
    exact absurd h.symm (g.name_ne_rule hb)

section Functions
open Peering.Filter
variable (base : String) (rules : List Rule)

theorem names_ruleFunctions : (ruleFunctions base rules).map (·.name) =
    if rules = [] then []
    else (List.range rules.length).map (fun i => .rule (.one base i)) ++ [.rule (.every base)] := by
  unfold ruleFunctions
  cases rules with
  | nil => rfl
  | cons rule rules =>
    rw [if_neg (by simp), if_neg (by simp), List.map_append, List.map_map, List.range_eq_range',
      ← List.zipIdx_map_snd, List.map_map]
    rfl

theorem nodup_names_ruleFunctions : ((ruleFunctions base rules).map (·.name)).Nodup := by
  rw [names_ruleFunctions]
  split
  · exact List.nodup_nil
  · have indices := (List.nodup_range (n := rules.length)).map
      (f := fun i => FunctionName.rule (.one base i)) fun i j h => by simpa using h
    exact List.nodup_append.mpr ⟨indices, List.nodup_singleton _, by simp⟩

end Functions

end RuleNames

theorem Stage.append_suffix_inj {p q : List Char} {s t : Stage}
    (h : p ++ '_' :: s.suffix.toList = q ++ '_' :: t.suffix.toList) : p = q ∧ s = t := by
  have hr := congrArg List.reverse h
  simp only [List.reverse_append, List.reverse_cons] at hr
  cases s <;> cases t <;> simp_all [suffix]

namespace FilterName

def asPeer : FilterName → FilterName
  | toMaster f => .peer f "master" .toPeer
  | fromMaster f => .peer f "master" .receive
  | n => n

theorem name_asPeer (n : FilterName) : n.asPeer.name = n.name := by
  rcases n with _ | (_ | _) | (_ | _) <;> rfl

theorem name_eq_iff {m n : FilterName} : m.name = n.name ↔ m.asPeer = n.asPeer := by
  have peers : ∀ n : FilterName, ∃ f p s, n.asPeer = .peer f p s := by
    rintro (_ | _ | _) <;> exact ⟨_, _, _, rfl⟩
  rw [← name_asPeer m, ← name_asPeer n]
  refine ⟨fun h => ?_, congrArg name⟩
  obtain ⟨f, p, s, hm⟩ := peers m
  obtain ⟨g, q, t, hn⟩ := peers n
  rw [hm, hn] at h ⊢
  have hl := congrArg String.toList h
  simp [name, toString] at hl
  obtain ⟨rfl, hrest⟩ := digit_append_inj hl
  obtain ⟨hp, rfl⟩ := Stage.append_suffix_inj hrest
  rw [String.toList_inj.mp hp]

end FilterName

theorem Table.name_inj {s t : Table} (h : s.name = t.name) : s = t := by
  have hl := congrArg String.toList h
  cases s <;> cases t
  case peer.peer f p g q =>
    simp [name, toString] at hl
    obtain ⟨rfl, hrest⟩ := digit_append_inj hl
    rw [String.toList_inj.mp (List.append_cancel_right hrest)]
  case main.main f g => cases f <;> cases g <;> first | rfl | exact absurd hl (by decide)
  case master.master f g => cases f <;> cases g <;> first | rfl | exact absurd hl (by decide)
  case main.peer f g _ => cases f <;> cases g <;> simp [name, toString, Family.digit] at hl
  case peer.main f _ g => cases f <;> cases g <;> simp [name, toString, Family.digit] at hl
  case main.master g => cases g <;> simp [name, toString, Family.masterTable] at hl
  case master.main f _ => cases f <;> simp [name, toString, Family.masterTable] at hl
  case peer.master g => cases g <;> simp [name, toString, Family.masterTable] at hl
  case master.peer f _ _ => cases f <;> simp [name, toString, Family.masterTable] at hl

namespace Protocol

def asPeer : Protocol → Protocol
  | masterPipe f => .peerPipe f "master"
  | n => n

theorem name_asPeer (n : Protocol) : n.asPeer.name = n.name := by
  rcases n with _ | (_ | _) | _ | _ <;> rfl

theorem name_eq_iff {m n : Protocol} : m.name = n.name ↔ m.asPeer = n.asPeer := by
  rw [← name_asPeer m, ← name_asPeer n]
  refine ⟨fun h => ?_, congrArg name⟩
  have unlike : ∀ n : Protocol, ∀ f, n.asPeer ≠ .masterPipe f := by
    rintro (_ | _ | _ | _) _ <;> simp [asPeer]
  have hl := congrArg String.toList h
  generalize hm : m.asPeer = a, hn : n.asPeer = b at hl ⊢
  cases a <;> cases b <;> simp [name, toString] at hl
  case originate.originate f g => rw [Family.digit_inj.mp (String.toList_inj.mp hl)]
  case peerPipe.peerPipe f p g q =>
    obtain ⟨rfl, hrest⟩ := digit_append_inj hl
    rw [String.toList_inj.mp hrest]
  case session.session f p g q =>
    obtain ⟨rfl, hrest⟩ := digit_append_inj hl
    rw [String.toList_inj.mp hrest]
  case masterPipe.masterPipe => exact absurd hm (unlike m _)
  case masterPipe.peerPipe => exact absurd hm (unlike m _)
  case peerPipe.masterPipe => exact absurd hn (unlike n _)

end Protocol
end Peering
