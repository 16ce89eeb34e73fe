import Peering.Role

/-! Which routes are sent to a peer, by where they come from. -/
namespace Peering

inductive Source where
  | default | connected | kernel | static | originated | bgp
  | bgpOwn | bgpCustomer | bgpPeering | bgpTransit
  deriving DecidableEq, Repr

namespace Source

/-- The order in which export filters try the sources. -/
def all : List Source :=
  [.default, .connected, .kernel, .static, .originated, .bgp, .bgpOwn, .bgpCustomer, .bgpPeering,
    .bgpTransit]

/-- Where the source stands in that order. -/
def rank : Source → Nat := all.idxOf

def name : Source → String
  | .default => "default"
  | .connected => "connected"
  | .kernel => "kernel"
  | .static => "static"
  | .originated => "originated"
  | .bgp => "bgp"
  | .bgpOwn => "bgp_own"
  | .bgpCustomer => "bgp_customer"
  | .bgpPeering => "bgp_peering"
  | .bgpTransit => "bgp_transit"

/-- The relations that the source stands for; a route has to carry one of them. -/
def relations : Source → List Relation
  | .bgpOwn => [.own]
  | .bgpCustomer => [.customer]
  | .bgpPeering => [.peer, .routeServer]
  | .bgpTransit => [.transit]
  | _ => []

theorem mem_all (s : Source) : s ∈ all := by cases s <;> decide

theorem nodup_all : all.Nodup := by decide

theorem rank_inj {s t : Source} : s.rank = t.rank ↔ s = t := by
  cases s <;> cases t <;> decide

end Source

/-- What is kept for some of the sources, in the order of these. -/
structure SourceMap (α : Type) where
  entries : List (Source × α)
  ascending : entries.Pairwise fun e f => e.1.rank < f.1.rank

namespace SourceMap
variable {α : Type}

def empty : SourceMap α := ⟨[], .nil⟩

def get? (m : SourceMap α) (s : Source) : Option α := m.entries.lookup s

def erase (m : SourceMap α) (s : Source) : SourceMap α :=
  ⟨m.entries.filter (·.1 ≠ s), m.ascending.filter _⟩

/-- Puts an entry where it belongs, in place of the one that may be there. -/
def insert (m : SourceMap α) (s : Source) (a : α) : SourceMap α where
  entries := m.entries.filter (·.1.rank < s.rank) ++
    (s, a) :: m.entries.filter (s.rank < ·.1.rank)
  ascending := by
    have above : ∀ e ∈ m.entries.filter (s.rank < ·.1.rank), s.rank < e.1.rank := fun e he =>
      of_decide_eq_true (List.mem_filter.mp he).2
    have below : ∀ e ∈ m.entries.filter (·.1.rank < s.rank), e.1.rank < s.rank := fun e he =>
      of_decide_eq_true (List.mem_filter.mp he).2
    refine List.pairwise_append.mpr ⟨m.ascending.filter _,
      List.pairwise_cons.mpr ⟨above, m.ascending.filter _⟩, fun e he f hf => ?_⟩
    cases hf with
    | head => exact below e he
    | tail _ hf => exact Nat.lt_trans (below e he) (above f hf)

theorem lookup_filter (p : Source → Bool) (es : List (Source × α)) (t : Source) :
    (es.filter fun e => p e.1).lookup t = if p t = true then es.lookup t else none := by
  induction es with
  | nil => simp
  | cons e es ih =>
    obtain ⟨s, a⟩ := e
    by_cases hts : t = s
    · subst hts
      cases hp : p t <;> simp [hp, ih]
    · cases hp : p s <;> simp [List.lookup_cons, hp, ih, beq_false_of_ne hts]

theorem get?_erase (m : SourceMap α) (s t : Source) :
    (m.erase s).get? t = if t = s then none else m.get? t := by
  rw [get?, erase, lookup_filter (fun u => decide (u ≠ s)), get?]
  by_cases h : t = s <;> simp [h]

theorem get?_insert (m : SourceMap α) (s t : Source) (a : α) :
    (m.insert s a).get? t = if t = s then some a else m.get? t := by
  rw [get?, insert, List.lookup_append, List.lookup_cons,
    lookup_filter (fun u => decide (u.rank < s.rank)),
    lookup_filter (fun u => decide (s.rank < u.rank)), get?]
  by_cases h : t = s
  · simp [h]
  · -- Another source stands before or after this one.
    have apart : t.rank ≠ s.rank := fun heq => h (Source.rank_inj.mp heq)
    obtain hlt | hlt := Nat.lt_or_gt_of_ne apart <;>
      simp [h, hlt, Nat.lt_asymm hlt, beq_false_of_ne h]

/-- Nothing is found that comes before all entries. -/
theorem lookup_eq_none {s : Source} {es : List (Source × α)} (h : ∀ e ∈ es, s.rank < e.1.rank) :
    es.lookup s = none := by
  rw [List.lookup_eq_none_iff]
  intro e he
  have apart : s ≠ e.1 := fun heq => Nat.ne_of_lt (h e he) (congrArg Source.rank heq)
  simp [apart]

theorem rank_le_of_lookup {s t : Source} {a b : α} {es : List (Source × α)}
    (after : ∀ e ∈ es, t.rank < e.1.rank) (h : List.lookup s ((t, b) :: es) = some a) :
    t.rank ≤ s.rank := by
  refine Nat.le_of_not_lt fun hlt => ?_
  have none : List.lookup s ((t, b) :: es) = none := lookup_eq_none fun e he => by
    cases he with
    | head => exact hlt
    | tail _ he => exact Nat.lt_trans hlt (after e he)
  exact nomatch none.symm.trans h

theorem entries_ext {es fs : List (Source × α)}
    (hes : es.Pairwise fun e f => e.1.rank < f.1.rank)
    (hfs : fs.Pairwise fun e f => e.1.rank < f.1.rank) (h : ∀ s, es.lookup s = fs.lookup s) :
    es = fs := by
  induction es generalizing fs with
  | nil =>
    cases fs with
    | nil => rfl
    | cons f fs => exact nomatch (h f.1).trans List.lookup_cons_self
  | cons e es ih =>
    cases fs with
    | nil => exact nomatch (h e.1).symm.trans List.lookup_cons_self
    | cons f fs =>
      obtain ⟨s, a⟩ := e
      obtain ⟨t, b⟩ := f
      obtain ⟨afterE, ascE⟩ := List.pairwise_cons.mp hes
      obtain ⟨afterF, ascF⟩ := List.pairwise_cons.mp hfs
      -- The first of each list is found in the other, so neither comes before the other.
      have hs : List.lookup s ((t, b) :: fs) = some a := (h s).symm.trans List.lookup_cons_self
      have ht : List.lookup t ((s, a) :: es) = some b := (h t).trans List.lookup_cons_self
      obtain rfl : s = t := Source.rank_inj.mp <|
        Nat.le_antisymm (rank_le_of_lookup afterE ht) (rank_le_of_lookup afterF hs)
      obtain rfl : b = a := Option.some.inj (List.lookup_cons_self.symm.trans hs)
      rw [ih ascE ascF fun u => ?_]
      by_cases hu : u = s
      · rw [hu, lookup_eq_none afterE, lookup_eq_none afterF]
      · simpa [List.lookup_cons, beq_false_of_ne hu] using h u

theorem ext {m n : SourceMap α} (h : ∀ s, m.get? s = n.get? s) : m = n := by
  obtain ⟨es, hes⟩ := m
  obtain ⟨fs, hfs⟩ := n
  obtain rfl := entries_ext hes hfs h
  rfl

end SourceMap

/-- For each source, whether its routes are sent, and the communities that they get if there are
such. -/
structure Redistribution where
  default : Bool
  connected : Bool
  kernel : Bool
  static : Bool
  originated : Bool
  bgp : Bool
  bgpOwn : Bool
  bgpCustomer : Bool
  bgpPeering : Bool
  bgpTransit : Bool
  tagged : SourceMap (List LargeCommunity)
  /-- Nothing is kept for a source whose routes get no communities. -/
  someTag : ∀ s, tagged.get? s ≠ some []

namespace Redistribution

def empty : Redistribution where
  default := false
  connected := false
  kernel := false
  static := false
  originated := false
  bgp := false
  bgpOwn := false
  bgpCustomer := false
  bgpPeering := false
  bgpTransit := false
  tagged := .empty
  someTag := nofun

/-- What a role gets before anything is configured. -/
def ofRole (r : Role) : Redistribution :=
  { empty with
    bgp := r.isReflector
    bgpOwn := r.isExternal
    bgpCustomer := r.isExternal
    bgpPeering := r = .customer
    bgpTransit := r = .customer }

def enabled (r : Redistribution) : Source → Bool
  | .default => r.default
  | .connected => r.connected
  | .kernel => r.kernel
  | .static => r.static
  | .originated => r.originated
  | .bgp => r.bgp
  | .bgpOwn => r.bgpOwn
  | .bgpCustomer => r.bgpCustomer
  | .bgpPeering => r.bgpPeering
  | .bgpTransit => r.bgpTransit

def setEnabled (r : Redistribution) (on : Bool) : Source → Redistribution
  | .default => { r with default := on }
  | .connected => { r with connected := on }
  | .kernel => { r with kernel := on }
  | .static => { r with static := on }
  | .originated => { r with originated := on }
  | .bgp => { r with bgp := on }
  | .bgpOwn => { r with bgpOwn := on }
  | .bgpCustomer => { r with bgpCustomer := on }
  | .bgpPeering => { r with bgpPeering := on }
  | .bgpTransit => { r with bgpTransit := on }

def tags (r : Redistribution) (s : Source) : List LargeCommunity := (r.tagged.get? s).getD []

/-- A source that gets no communities is not kept with the others. -/
def setTags (r : Redistribution) (s : Source) (tags : List LargeCommunity) : Redistribution :=
  if h : tags = [] then
    { r with
      tagged := r.tagged.erase s
      someTag := fun t => by
        rw [SourceMap.get?_erase]
        split
        · nofun
        · exact r.someTag t }
  else
    { r with
      tagged := r.tagged.insert s tags
      someTag := fun t => by
        rw [SourceMap.get?_insert]
        split
        · exact fun heq => h (Option.some.inj heq)
        · exact r.someTag t }

def override (r : Redistribution) (s : Source) (on : Bool) (tags : List LargeCommunity) :
    Redistribution :=
  (r.setEnabled on s).setTags s tags

def sources (r : Redistribution) : List Source := Source.all.filter r.enabled

section
variable (r : Redistribution) (s t : Source) (on : Bool) (tags : List LargeCommunity)

/-- A flag that is written is read as it was written, and no other flag changes with it. -/
theorem enabled_setEnabled :
    (r.setEnabled on s).enabled t = if t = s then on else r.enabled t := by
  cases s <;> cases t <;> rfl

theorem tags_setEnabled : (r.setEnabled on s).tags t = r.tags t := by
  cases s <;> rfl

theorem enabled_setTags : (r.setTags s tags).enabled t = r.enabled t := by
  rw [setTags]
  split <;> cases t <;> rfl

theorem tags_setTags : (r.setTags s tags).tags t = if t = s then tags else r.tags t := by
  rw [setTags]
  split <;> rename_i h
  · rw [Redistribution.tags, SourceMap.get?_erase, h]
    split <;> rfl
  · rw [Redistribution.tags, SourceMap.get?_insert]
    split <;> rfl

theorem enabled_override :
    (r.override s on tags).enabled t = if t = s then on else r.enabled t := by
  rw [override, enabled_setTags, enabled_setEnabled]

theorem tags_override :
    (r.override s on tags).tags t = if t = s then tags else r.tags t := by
  rw [override, tags_setTags, tags_setEnabled]

/-- What is kept in the map is what is read from it. -/
theorem get?_tagged :
    r.tagged.get? s = if r.tags s = [] then none else some (r.tags s) := by
  rw [Redistribution.tags]
  cases h : r.tagged.get? s with
  | none => rfl
  | some tags =>
    have some : tags ≠ [] := fun heq => r.someTag s (heq ▸ h)
    simp [some]

end

/-- There is no more to what is sent than what is read source by source. -/
theorem eq_of_forall {q r : Redistribution} (enabled : ∀ s, q.enabled s = r.enabled s)
    (tags : ∀ s, q.tags s = r.tags s) : q = r := by
  have tagged : q.tagged = r.tagged := SourceMap.ext fun s => by
    rw [get?_tagged, get?_tagged, tags]
  cases q
  cases r
  rw [mk.injEq]
  exact ⟨enabled .default, enabled .connected, enabled .kernel, enabled .static,
    enabled .originated, enabled .bgp, enabled .bgpOwn, enabled .bgpCustomer, enabled .bgpPeering,
    enabled .bgpTransit, tagged⟩

theorem mem_sources {r : Redistribution} {s : Source} : s ∈ r.sources ↔ r.enabled s = true := by
  simp [sources, Source.mem_all]

end Redistribution
end Peering
