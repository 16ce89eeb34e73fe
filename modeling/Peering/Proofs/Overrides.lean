import Mathlib.Data.List.Basic
import Peering.Redistribution

/-!
Overrides of what is sent to a peer, made one after the other. What becomes of the routes of a
source is decided by the last override of it, and by what there was at the start if there is none.
-/
namespace Peering

/-- What is set for one source: whether its routes are sent, and the communities that they get. -/
structure Override where
  source : Source
  on : Bool
  tags : List LargeCommunity
  deriving DecidableEq, Repr

def Override.last? (s : Source) (os : List Override) : Option Override :=
  os.reverse.find? (·.source = s)

namespace Override
variable {s : Source} {o : Override} {os : List Override}

theorem last?_cons (s : Source) (o : Override) (os : List Override) :
    last? s (o :: os) = (last? s os).or (if o.source = s then some o else none) := by
  simp only [last?, List.reverse_cons, List.find?_append, List.find?_cons, List.find?_nil]
  congr 1
  split <;> simp_all

theorem isSome_last? (ho : o ∈ os) (hs : o.source = s) : (last? s os).isSome = true := by
  rw [last?, List.find?_isSome]
  exact ⟨o, List.mem_reverse.mpr ho, decide_eq_true hs⟩

end Override

namespace Redistribution
open Override (last?)

/-- What there is before any override: what a role gets, or nothing. -/
def initial (role : Option Role) : Redistribution := role.elim empty ofRole

def overrideAll (r : Redistribution) : List Override → Redistribution
  | [] => r
  | o :: os => (r.override o.source o.on o.tags).overrideAll os

variable {os ps : List Override} {o p : Override}

theorem tags_initial (role : Option Role) (s : Source) : (initial role).tags s = [] := by
  cases role <;> rfl

/-- A property of sources that an override sets for its own source and leaves alone for the others
is as the last override of a source has set it. -/
theorem field_overrideAll {α : Type} {field : Redistribution → Source → α} {given : Override → α}
    (step : ∀ r o s, field (r.override o.source o.on o.tags) s =
      if s = o.source then given o else field r s)
    (r : Redistribution) (os : List Override) (s : Source) :
    field (r.overrideAll os) s = (last? s os).elim (field r s) given := by
  -- The rest starts from what the first override leaves, and a later override of `s` hides that.
  induction os generalizing r with
  | nil => rfl
  | cons o os ih =>
    rw [overrideAll, ih, step, Override.last?_cons]
    cases last? s os with
    | some later => rfl
    | none =>
      by_cases h : s = o.source
      · rw [if_pos h, if_pos h.symm]
        rfl
      · rw [if_neg h, if_neg (Ne.symm h)]
        rfl

theorem enabled_overrideAll (r : Redistribution) (os : List Override) (s : Source) :
    (r.overrideAll os).enabled s = (last? s os).elim (r.enabled s) (·.on) :=
  field_overrideAll (fun r o s => r.enabled_override o.source s o.on o.tags) r os s

theorem tags_overrideAll (r : Redistribution) (os : List Override) (s : Source) :
    (r.overrideAll os).tags s = (last? s os).elim (r.tags s) (·.tags) :=
  field_overrideAll (fun r o s => r.tags_override o.source s o.on o.tags) r os s

/-- Of all that is overridden, the last override of each source is all that matters. -/
theorem overrideAll_congr (r : Redistribution) (h : ∀ s, last? s os = last? s ps) :
    r.overrideAll os = r.overrideAll ps := by
  refine eq_of_forall (fun s => ?_) fun s => ?_
  · rw [enabled_overrideAll, enabled_overrideAll, h]
  · rw [tags_overrideAll, tags_overrideAll, h]

theorem sources_sublist (r : Redistribution) : r.sources.Sublist Source.all := List.filter_sublist

theorem nodup_sources (r : Redistribution) : r.sources.Nodup :=
  r.sources_sublist.nodup Source.nodup_all

theorem overrideAll_superseded (r : Redistribution) (hp : p ∈ os) (h : p.source = o.source) :
    r.overrideAll (o :: os) = r.overrideAll os := by
  refine overrideAll_congr r fun s => ?_
  rw [Override.last?_cons]
  by_cases hs : o.source = s
  · have later : (last? s os).isSome = true := Override.isSome_last? hp (h.trans hs)
    rw [Option.or_of_isSome later]
  · rw [if_neg hs, Option.or_none]

theorem overrideAll_swap (r : Redistribution) (h : o.source ≠ p.source) (os : List Override) :
    r.overrideAll (o :: p :: os) = r.overrideAll (p :: o :: os) := by
  refine overrideAll_congr r fun s => ?_
  simp only [Override.last?_cons, Option.or_assoc]
  by_cases hs : o.source = s
  · rw [if_neg (fun hp => h (hs.trans hp.symm)), Option.none_or, Option.or_none]
  · rw [if_neg hs, Option.none_or, Option.or_none]

end Redistribution

open Redistribution (initial)
open Override (last?)

/-- Any overrides of what a role gets, or of nothing. A source is enabled and has the communities as
its last override says, or else as at the start, where no source has communities. The sources that
are enabled are listed, each once and in their order. So overrides whose last ones agree lead to the
same, those of different sources can be made in either order, and making one again does nothing. -/
theorem last_override_decides (role : Option Role) (os : List Override) :
    let r := (initial role).overrideAll os
    (∀ s, r.enabled s = (last? s os).elim ((initial role).enabled s) (·.on)) ∧
      (∀ s, r.tags s = (last? s os).elim [] (·.tags)) ∧
      (∀ s, s ∈ r.sources ↔ r.enabled s = true) ∧ r.sources.Nodup ∧
      r.sources.Sublist [.default, .connected, .kernel, .static, .originated, .bgp, .bgpOwn,
        .bgpCustomer, .bgpPeering, .bgpTransit] ∧
      (∀ ps, (∀ s, last? s ps = last? s os) → (initial role).overrideAll ps = r) ∧
      (∀ o p : Override, o.source ≠ p.source → r.overrideAll [o, p] = r.overrideAll [p, o]) ∧
      ∀ o : Override, r.overrideAll [o, o] = r.overrideAll [o] := by
  intro r
  refine ⟨fun s => Redistribution.enabled_overrideAll _ os s, fun s => ?_,
    fun s => Redistribution.mem_sources, r.nodup_sources, r.sources_sublist,
    fun ps h => Redistribution.overrideAll_congr _ h, fun o p h => r.overrideAll_swap h [],
    fun o => r.overrideAll_superseded (List.mem_singleton_self o) rfl⟩
  rw [Redistribution.tags_overrideAll, Redistribution.tags_initial]

/-- A transit is to be sent what customers announce, and then it is not. Its other override has no
part in that and may come before or after. -/
theorem last_override_decides_transit :
    let tag : LargeCommunity := ⟨65000, 1, 840⟩
    let own : Override := ⟨.bgpOwn, true, [tag]⟩
    let on : Override := ⟨.bgpCustomer, true, [tag]⟩
    let off : Override := ⟨.bgpCustomer, false, []⟩
    let r := (initial (some .transit)).overrideAll [on, own, off]
    r.enabled .bgpCustomer = false ∧ r.tags .bgpCustomer = [] ∧ r.enabled .bgpOwn = true ∧
      r.tags .bgpOwn = [tag] ∧ r.tags .bgpTransit = [] ∧ .bgpOwn ∈ r.sources ∧
      (initial (some .transit)).overrideAll [off, own] = r ∧
      r.overrideAll [on, own] = r.overrideAll [own, on] := by
  intro tag own on off r
  obtain ⟨enabled, tags, listed, _, _, same, swap, _⟩ :=
    last_override_decides (some .transit) [on, own, off]
  have sent : r.enabled .bgpOwn = true := enabled .bgpOwn
  have agree (s : Source) : last? s [off, own] = last? s [on, own, off] := by
    cases s <;> decide
  exact ⟨enabled .bgpCustomer, tags .bgpCustomer, sent, tags .bgpOwn, tags .bgpTransit,
    (listed .bgpOwn).mpr sent, same _ agree, swap on own (by decide)⟩

end Peering
