import Peering.Proofs.Layout

/-!
What registries are asked for. Settings ask for every object that they name, and for the number of
networks of a family where a customer or a peer with a public ASN has no limit of its own.
Registries that answer these questions alike lead to one router configuration, or to one error.
-/
namespace Peering

theorem mapM_congr {ε α β : Type} {k l : α → Except ε β} {as : List α}
    (h : ∀ a ∈ as, k a = l a) : as.mapM k = as.mapM l := by
  induction as with
  | nil => rfl
  | cons a as ih =>
    obtain ⟨ha, has⟩ := List.forall_mem_cons.mp h
    rw [List.mapM_cons, List.mapM_cons, ha, ih has]

theorem foldlM_congr {ε α β : Type} {k l : β → α → Except ε β} {as : List α}
    (h : ∀ b, ∀ a ∈ as, k b a = l b a) (b : β) : as.foldlM k b = as.foldlM l b := by
  induction as generalizing b with
  | nil => rfl
  | cons a as ih =>
    have has : ∀ b, ∀ a ∈ as, k b a = l b a := fun b a ha => h b a (List.mem_cons_of_mem _ ha)
    have step : (fun c => as.foldlM k c) = fun c => as.foldlM l c := funext (ih has)
    rw [List.foldlM_cons, List.foldlM_cons, h b a List.mem_cons_self, step]

def PrefixCounts.count (c : PrefixCounts) : Family → Option UInt32
  | .v4 => c.count4
  | .v6 => c.count6

def Registry.count (r : Registry) (asn : UInt32) (f : Family) : Option UInt32 :=
  (r.countsOf asn).bind (·.count f)

namespace Settings.Peer

def limit (s : Peer) : Family → Option UInt32
  | .v4 => s.limit4
  | .v6 => s.limit6

/-- The limit of a family: the configured one or, for customers and peers, what is registered. -/
def limitFrom (s : Peer) (reg : Registry) (f : Family) : Option UInt32 :=
  (s.limit f).or (if s.role.hasRegistryLimits then reg.count s.asn f else none)

/-- The registries answer alike what the settings of a peer ask for. Nothing is asked about private
ASNs, and no number for a family with a limit. -/
structure SameAnswers (s : Peer) (a b : Registry) : Prop where
  objects : ∀ name ∈ s.allow.asSets, a.object name = b.object name
  counts : s.role = .customer ∨ s.role = .peer →
    ¬ (64512 ≤ s.asn ∧ s.asn ≤ 65534 ∨ 4200000000 ≤ s.asn ∧ s.asn ≤ 4294967294) →
    ∀ f, s.limit f = none → a.count s.asn f = b.count s.asn f

end Settings.Peer

theorem Role.hasRegistryLimits_iff {r : Role} :
    r.hasRegistryLimits = true ↔ r = .customer ∨ r = .peer := by
  cases r <;> decide

namespace Registry
variable {reg : Registry} {asn : UInt32}

theorem isPrivateAsn_iff : isPrivateAsn asn = true ↔
    64512 ≤ asn ∧ asn ≤ 65534 ∨ 4200000000 ≤ asn ∧ asn ≤ 4294967294 := by
  simp only [isPrivateAsn, Bool.or_eq_true, Bool.and_eq_true, decide_eq_true_eq]

theorem count_of_isPrivateAsn (h : isPrivateAsn asn = true) (f : Family) :
    reg.count asn f = none := by
  rw [count, countsOf, if_pos h, Option.bind_none]

end Registry

namespace Policy
variable {s : Settings.Peer} {a b : Registry}

theorem limits_eq (reg : Registry) (s : Settings.Peer) :
    limits reg s = (s.limitFrom reg .v4, s.limitFrom reg .v6) := by
  rw [limits, Settings.Peer.limitFrom, Settings.Peer.limitFrom, Registry.count, Registry.count]
  split
  · cases reg.countsOf s.asn <;> rfl
  · rw [Option.or_none, Option.or_none]
    rfl

theorem limitFrom_congr (h : s.SameAnswers a b) (f : Family) :
    s.limitFrom a f = s.limitFrom b f := by
  rw [Settings.Peer.limitFrom, Settings.Peer.limitFrom]
  cases hlimit : s.limit f with
  | some n => rfl
  | none =>
    split
    · rename_i asks
      by_cases hprivate : Registry.isPrivateAsn s.asn = true
      · rw [Registry.count_of_isPrivateAsn hprivate, Registry.count_of_isPrivateAsn hprivate]
      · rw [h.counts (Role.hasRegistryLimits_iff.mp asks)
          (mt Registry.isPrivateAsn_iff.mpr hprivate) f hlimit]
    · rfl

namespace Allowed

theorem ofObject_congr {name : String} (h : a.object name = b.object name) (key : String) :
    ofObject a key name = ofObject b key name := by
  rw [ofObject, ofObject, h]

theorem resolve_congr {allow : Settings.Allow}
    (h : ∀ name ∈ allow.asSets, a.object name = b.object name) (key : String) :
    resolve a key allow = resolve b key allow := by
  have gathered (ps : List Pattern) :
      allow.asSets.foldlM (fun sum name => return append sum (← ofObject a key name))
          (ofLists none allow.asns ps) =
        allow.asSets.foldlM (fun sum name => return append sum (← ofObject b key name))
          (ofLists none allow.asns ps) :=
    foldlM_congr (fun sum name hname => by rw [ofObject_congr (h name hname)]) _
  rw [resolve, resolve, funext gathered]

end Allowed

theorem resolve_congr (h : s.SameAnswers a b) (ctx : Context) (name : String) :
    resolve ctx a name s = resolve ctx b name s := by
  have limits : limits a s = limits b s := by
    rw [limits_eq, limits_eq, limitFrom_congr h, limitFrom_congr h]
  rw [resolve, resolve, Allowed.resolve_congr h.objects, limits]

theorem limit_resolve {ctx : Context} {reg : Registry} {name : String} {p : Policy}
    (h : resolve ctx reg name s = .ok p) (f : Family) : p.limit f = s.limitFrom reg f := by
  unfold resolve at h
  obtain ⟨_, _, h⟩ := ok_of_bind h
  obtain ⟨_, _, h⟩ := ok_of_bind h
  obtain ⟨_, _, h⟩ := ok_of_bind h
  obtain ⟨_, _, h⟩ := ok_of_bind h
  obtain ⟨_, _, h⟩ := ok_of_bind h
  obtain ⟨_, _, h⟩ := ok_of_bind h
  obtain rfl := Except.ok.inj h
  cases f
  · exact congrArg Prod.fst (limits_eq reg s)
  · exact congrArg Prod.snd (limits_eq reg s)

end Policy

theorem Router.resolve_congr {s : Settings.Router} {a b : Registry}
    (h : ∀ x ∈ s.peers, x.2.SameAnswers a b) : Router.resolve s a = Router.resolve s b := by
  have peers : (s.peers.mapM fun x => Policy.resolve (context s) a x.1 x.2) =
      s.peers.mapM fun x => Policy.resolve (context s) b x.1 x.2 :=
    mapM_congr fun x hx => Policy.resolve_congr (h x hx) (context s) x.1
  unfold Router.resolve
  rw [peers]

/-- Registries matter by their answers alone: where two of them answer alike what the settings ask
for, the same text comes out or the same error. What they say besides, of other objects, of a family
with a limit, of a private ASN or of a peer of another role, is never looked at. The numbers that
are asked for are the limits of the families that have none of their own. -/
theorem output_of_same_answers {s : Settings.Router} {a b : Registry}
    (h : ∀ x ∈ s.peers, x.2.SameAnswers a b) :
    (Router.resolve s a >>= Router.compile) = (Router.resolve s b >>= Router.compile) ∧
      ∀ r, Router.resolve s a = .ok r →
        List.Forall₂ (fun x p => ∀ f, p.limit f = x.2.limitFrom a f) s.peers r.peers := by
  refine ⟨by rw [Router.resolve_congr h], fun r hr => ?_⟩
  have resolved : List.Forall₂ Eq
      (s.peers.map fun x => Policy.resolve (Router.context s) a x.1 x.2) (r.peers.map .ok) := by
    rw [(Router.resolve_peers hr).2, List.forall₂_eq_eq_eq]
  rw [List.forall₂_map_left_iff, List.forall₂_map_right_iff] at resolved
  exact resolved.imp fun _ _ hresolve => Policy.limit_resolve hresolve

/-- A customer with a limit for IPv4 and an object, a transit and a peer with a private ASN. One
registry has numbers for all of them, the other has just the one that counts, and an object more. -/
theorem output_of_same_answers_customer :
    let customer : Settings.Peer := { Settings.Peer.plain .customer 3333 with
      limit4 := some 10
      allow := ⟨[], [], ["AS-A"]⟩ }
    let s : Settings.Router := .plain 65000
      [("a", customer), ("b", .plain .transit 174), ("c", .plain .peer 64512)]
    let object : RegistryObject := ⟨["193.0.0.0/21"], [], [3333]⟩
    let reg : Registry := ⟨[(174, ⟨some 1, some 2⟩), (3333, ⟨some 3, some 4⟩),
      (64512, ⟨some 5, some 6⟩)], [("AS-A", object)]⟩
    let reg' : Registry := ⟨[(3333, ⟨none, some 4⟩)], [("AS-A", object), ("AS-B", ⟨[], [], []⟩)]⟩
    (∀ x ∈ s.peers, x.2.SameAnswers reg reg') ∧ customer.limitFrom reg .v6 = some 4 ∧
      ∃ text, (Router.resolve s reg >>= Router.compile) = .ok text ∧
        (Router.resolve s reg' >>= Router.compile) = .ok text := by
  intro customer s object reg reg'
  have answers : ∀ x ∈ s.peers, x.2.SameAnswers reg reg' := by
    intro x hx
    simp only [s, Settings.Router.plain, List.mem_cons, List.not_mem_nil, or_false] at hx
    obtain rfl | rfl | rfl := hx
    · refine ⟨by decide, fun _ _ f hf => ?_⟩
      cases f with
      | v4 => exact nomatch hf
      | v6 => decide
    · exact ⟨by decide, fun asks => absurd asks (by decide)⟩
    · exact ⟨by decide, fun _ asks => absurd (.inl (by decide)) asks⟩
  obtain ⟨rt, hrt⟩ : ∃ rt, Router.resolve s reg = .ok rt := exists_ok (by decide +kernel)
  have htext : (Router.resolve s reg >>= Router.compile) = .ok (Declaration.render rt.layout) := by
    rw [hrt]
    exact rt.compile_eq
  exact ⟨answers, by decide, _, htext, (output_of_same_answers answers).1.symm.trans htext⟩

end Peering
