/-! Lists of what a peer may announce, in groups by where their items come from. -/
namespace Peering

/-- Items of one origin: written in the configuration, or taken from the registry object named. -/
structure Group (α : Type) where
  object : Option String
  items : List α
  deriving DecidableEq, Repr

namespace Group

/-- The group, unless it has no items. -/
def ofItems {α : Type} (object : Option String) (items : List α) : List (Group α) :=
  if items.isEmpty then [] else [⟨object, items⟩]

def map {α β : Type} (f : α → β) (g : Group α) : Group β := ⟨g.object, g.items.map f⟩

def title {α : Type} (g : Group α) : String :=
  match g.object with
  | none => s!"{g.items.length} statically defined"
  | some object => s!"{g.items.length} from IRR object {object}"

end Group

/-- Drops every item that its successor repeats. -/
def dropRepeats {α : Type} [DecidableEq α] : List α → List α
  | [] => []
  | [a] => [a]
  | a :: b :: as => if a = b then dropRepeats (b :: as) else a :: dropRepeats (b :: as)

/-- The items in order, each once. -/
def canonical {α : Type} [DecidableEq α] (le : α → α → Bool) (as : List α) : List α :=
  dropRepeats (as.mergeSort le)

theorem mem_dropRepeats {α : Type} [DecidableEq α] {a : α} {as : List α} :
    a ∈ dropRepeats as ↔ a ∈ as := by
  induction as using dropRepeats.induct with
  | case1 => simp [dropRepeats]
  | case2 => simp [dropRepeats]
  | case3 b as ih => simp [dropRepeats, ih]
  | case4 b c as h ih => simp [dropRepeats, h, ih]

theorem mem_canonical {α : Type} [DecidableEq α] {le : α → α → Bool} {a : α} {as : List α} :
    a ∈ canonical le as ↔ a ∈ as := by
  simp [canonical, mem_dropRepeats]

end Peering
