import Peering.Filter.Meaning

/-!
How lists of commands are built and performed. Many of them decide nothing and change the route in
a way that can be told on its own, most often by adding large communities.
-/
namespace Peering

namespace Route

def mark (r : Route) (cs : List LargeCommunity) : Route :=
  { r with large := cs.foldl (fun l c => addMember c l) r.large }

@[simp] theorem mark_nil (r : Route) : r.mark [] = r := rfl

theorem mark_cons (r : Route) (c : LargeCommunity) (cs : List LargeCommunity) :
    r.mark (c :: cs) = (r.mark [c]).mark cs := rfl

theorem mark_append (r : Route) (cs ds : List LargeCommunity) :
    r.mark (cs ++ ds) = (r.mark cs).mark ds := by
  simp [mark]

@[simp] theorem mem_mark {r : Route} {cs : List LargeCommunity} {c : LargeCommunity} :
    c ∈ (r.mark cs).large ↔ c ∈ cs ∨ c ∈ r.large := by
  induction cs generalizing r with
  | nil => simp
  | cons d cs ih =>
    have hd : c ∈ (r.mark [d]).large ↔ c = d ∨ c ∈ r.large := mem_addMember
    rw [mark_cons, ih, hd, List.mem_cons, or_left_comm, or_assoc]

end Route

namespace Filter
open Command.perform (performAll)

section
variable {sc : Scope} {calls : Calls} {argument : UInt32} {s t : State} {cs ds : List Command}

theorem performAll_of_none (h : performAll sc calls argument s cs = (none, t)) :
    performAll sc calls argument s (cs ++ ds) = performAll sc calls argument t ds := by
  rw [Command.performAll_append, h]

theorem performAll_of_exit {e : Exit} (h : performAll sc calls argument s cs = (some e, t)) :
    performAll sc calls argument s (cs ++ ds) = (some e, t) := by
  rw [Command.performAll_append, h]

theorem performAll_cons (c : Command) :
    performAll sc calls argument s (c :: cs) =
      match c.perform sc calls argument s with
      | (none, s) => performAll sc calls argument s cs
      | done => done := rfl

theorem performAll_comment (text : String) :
    performAll sc calls argument s (.comment text :: cs) = performAll sc calls argument s cs := by
  rw [performAll_cons, Command.perform]

theorem performAll_singleton (c : Command) :
    performAll sc calls argument s [c] = c.perform sc calls argument s := by
  rw [performAll_cons]
  cases c.perform sc calls argument s with
  | mk e t => cases e <;> rfl

theorem performAll_rejectWhen (t : Test) :
    performAll sc calls argument s (.when t [.reject] :: cs) =
      if t.holds sc calls argument s then (some .reject, s)
      else performAll sc calls argument s cs := by
  rw [performAll_cons, Command.perform_when, performAll_singleton, Command.perform]
  cases t.holds sc calls argument s <;> rfl

theorem performAll_run (f : SharedFunction) (a : UInt32) :
    performAll sc calls argument s (.run f a :: cs) =
      performAll sc calls argument { s with route := (calls (.shared f) a s.route).2 } cs := by
  rw [performAll_cons, Command.perform]

theorem perform_consult (f : RuleFunction) :
    (Command.consult f cs).perform sc calls argument s =
      if (calls (.rule f) 0 s.route).1 then
        (none, { s with route := (calls (.rule f) 0 s.route).2 })
      else performAll sc calls argument { s with route := (calls (.rule f) 0 s.route).2 } cs := by
  rw [Command.perform]

end

/-- The commands decide nothing and change the route as told. -/
def Changes (sc : Scope) (calls : Calls) (argument : UInt32) (cs : List Command)
    (g : Route → Route) : Prop :=
  ∀ s : State, performAll sc calls argument s cs = (none, { s with route := g s.route })

namespace Changes
variable {sc : Scope} {calls : Calls} {argument : UInt32} {cs ds : List Command}
  {g h : Route → Route}

theorem nil : Changes sc calls argument [] id := fun _ => rfl

theorem append (hg : Changes sc calls argument cs g) (hh : Changes sc calls argument ds h) :
    Changes sc calls argument (cs ++ ds) (h ∘ g) := by
  intro s
  rw [performAll_of_none (hg s), hh]
  rfl

theorem comment (text : String) (hg : Changes sc calls argument cs g) :
    Changes sc calls argument (.comment text :: cs) g := by
  intro s
  rw [performAll_comment, hg]

theorem when {test : Test} {b : Route → Bool}
    (ht : ∀ s : State, test.holds sc calls argument s = b s.route)
    (hg : Changes sc calls argument cs g) :
    Changes sc calls argument [.when test cs] fun r => if b r then g r else r := by
  intro s
  rw [performAll_singleton, Command.perform_when, ht, hg]
  dsimp only
  cases b s.route <;> rfl

end Changes

/-- The commands add the tags that they find due on the route, and do nothing else. -/
def Marks (sc : Scope) (calls : Calls) (argument : UInt32) (cs : List Command)
    (due : Route → List LargeCommunity) : Prop :=
  Changes sc calls argument cs fun r => r.mark (due r)

namespace Marks
variable {sc : Scope} {calls : Calls} {argument : UInt32} {cs : List Command}
  {f : Route → List LargeCommunity}

theorem nil : Marks sc calls argument [] fun _ => [] := fun _ => rfl

theorem adds (tags : List LargeCommunity) :
    Marks sc calls argument (tags.map addLarge) fun _ => tags := by
  induction tags with
  | nil => exact nil
  | cons c tags ih =>
    intro s
    rw [List.map_cons, performAll_cons, addLarge, Command.perform]
    exact ih _

theorem when {test : Test} {b : Route → Bool}
    (ht : ∀ s : State, test.holds sc calls argument s = b s.route)
    (hf : Marks sc calls argument cs f) :
    Marks sc calls argument [.when test cs] fun r => if b r then f r else [] := by
  intro s
  rw [Changes.when ht hf]
  cases hb : b s.route <;> simp [hb]

end Marks

/-- The computation has a result, and something holds of it. -/
def Gives {α : Type} (e : Except Error α) (P : α → Prop) : Prop := ∃ a, e = .ok a ∧ P a

namespace Gives
variable {α β : Type} {e : Except Error α} {P Q : α → Prop}

theorem ok {a : α} (h : P a) : Gives (.ok a) P := ⟨a, rfl, h⟩

theorem bind {k : α → Except Error β} {R : β → Prop} (h : Gives e P)
    (hk : ∀ a, P a → Gives (k a) R) : Gives (e >>= k) R := by
  obtain ⟨a, rfl, ha⟩ := h
  exact hk a ha

theorem imp (h : Gives e P) (hPQ : ∀ a, P a → Q a) : Gives e Q := by
  obtain ⟨a, he, ha⟩ := h
  exact ⟨a, he, hPQ a ha⟩

theorem of_eq_ok {a : α} (h : Gives e P) (he : e = .ok a) : P a := by
  obtain ⟨b, hb, hP⟩ := h
  obtain rfl := Except.ok.inj (he.symm.trans hb)
  exact hP

end Gives

end Filter
end Peering
