import Peering.Proofs.Symbols

/-!
What filters and functions mention. The filters of a peer mention shared functions, its own lists
where these have items, and its own rules where it has any; what documents say gets into them as
numbers and literals only. The sets that they spell out have items, unless a rule lists nothing.
-/
namespace Peering
namespace Filter

/-- The symbols that a test names. A protocol is only compared with that of a route. -/
def Test.mentions : Test → List Symbol
  | netIn (.named l) | originAsnIn (.named l) | pathMeets l => [.list l]
  | netLongerThan c | netShorterThan c | pathLongerThan c | pathShorterThan c
  | moreCommunitiesThan c => [.constant c]
  | protocolIs p | protocolIsNot p => [.protocol p]
  | shared f _ => [.function (.shared f)]
  | not t => t.mentions
  | every ts => mentionsAll ts
  | _ => []
where
  mentionsAll : List Test → List Symbol
    | [] => []
    | t :: ts => t.mentions ++ mentionsAll ts

/-- A set is spelled out in the test that has no items. -/
def Test.Hollow : Test → Prop
  | netIn (.listed ps) => ps = []
  | originAsnIn (.listed ns) => ns = []
  | communityIn cs => cs = []
  | extendedIn cs => cs = []
  | largeIn cs => cs = []
  | largeMatches ps => ps = []
  | not t => t.Hollow
  | every ts => HollowAny ts
  | _ => False
where
  HollowAny : List Test → Prop
    | [] => False
    | t :: ts => t.Hollow ∨ HollowAny ts

namespace Command

def mentions : Command → List Symbol
  | prepend => [.constant .ownAsn]
  | run f _ => [.function (.shared f)]
  | consult f no => .function (.rule f) :: mentionsOf no
  | cond t yes no => t.mentions ++ mentionsOf yes ++ mentionsOf no
  | ret t => t.mentions
  | _ => []
where
  mentionsOf : List Command → List Symbol
    | [] => []
    | c :: cs => c.mentions ++ mentionsOf cs

def remarks : Command → List String
  | comment s => [s]
  | consult _ no => remarksOf no
  | cond _ yes no => remarksOf yes ++ remarksOf no
  | _ => []
where
  remarksOf : List Command → List String
    | [] => []
    | c :: cs => c.remarks ++ remarksOf cs

def Hollow : Command → Prop
  | strip ps => ps = []
  | consult _ no => HollowAny no
  | cond t yes no => t.Hollow ∨ HollowAny yes ∨ HollowAny no
  | ret t => t.Hollow
  | _ => False
where
  HollowAny : List Command → Prop
    | [] => False
    | c :: cs => c.Hollow ∨ HollowAny cs

theorem mentionsOf_append (cs ds : List Command) :
    mentions.mentionsOf (cs ++ ds) = mentions.mentionsOf cs ++ mentions.mentionsOf ds := by
  induction cs with
  | nil => rfl
  | cons c cs ih =>
    rw [List.cons_append, mentions.mentionsOf, ih, mentions.mentionsOf, List.append_assoc]

theorem remarksOf_append (cs ds : List Command) :
    remarks.remarksOf (cs ++ ds) = remarks.remarksOf cs ++ remarks.remarksOf ds := by
  induction cs with
  | nil => rfl
  | cons c cs ih =>
    rw [List.cons_append, remarks.remarksOf, ih, remarks.remarksOf, List.append_assoc]

theorem hollowAny_append (cs ds : List Command) :
    Hollow.HollowAny (cs ++ ds) ↔ Hollow.HollowAny cs ∨ Hollow.HollowAny ds := by
  induction cs with
  | nil => simp [Hollow.HollowAny]
  | cons c cs ih => rw [List.cons_append, Hollow.HollowAny, ih, Hollow.HollowAny, or_assoc]

end Command

/-- The commands mention only some symbols, no comment among them has a line break, and no set that
they spell out is empty unless `E` holds. -/
structure Sound (A : Symbol → Prop) (E : Prop) (cs : List Command) : Prop where
  mentions : ∀ s ∈ Command.mentions.mentionsOf cs, A s
  remarks : ∀ t ∈ Command.remarks.remarksOf cs, Plain t
  hollow : Command.Hollow.HollowAny cs → E

structure Test.Sound (A : Symbol → Prop) (E : Prop) (t : Test) : Prop where
  mentions : ∀ s ∈ t.mentions, A s
  hollow : t.Hollow → E

theorem Test.Sound.silent {A : Symbol → Prop} {E : Prop} {t : Test} (hm : t.mentions = [])
    (hs : ¬ t.Hollow) : t.Sound A E :=
  ⟨hm ▸ List.forall_mem_nil _, (absurd · hs)⟩

theorem Test.Sound.single {A : Symbol → Prop} {E : Prop} {t : Test} {s : Symbol}
    (hm : t.mentions = [s]) (ha : A s) (hs : ¬ t.Hollow) : t.Sound A E :=
  ⟨hm ▸ List.forall_mem_singleton.mpr ha, (absurd · hs)⟩

namespace Sound
open Command
variable {A B : Symbol → Prop} {E F : Prop} {c : Command} {cs ds : List Command} {t : Test}

theorem nil : Sound A E [] := ⟨List.forall_mem_nil _, List.forall_mem_nil _, False.elim⟩

theorem append (hcs : Sound A E cs) (hds : Sound A E ds) : Sound A E (cs ++ ds) where
  mentions := by
    rw [mentionsOf_append]
    exact List.forall_mem_append.mpr ⟨hcs.mentions, hds.mentions⟩
  remarks := by
    rw [remarksOf_append]
    exact List.forall_mem_append.mpr ⟨hcs.remarks, hds.remarks⟩
  hollow h := ((hollowAny_append cs ds).mp h).elim hcs.hollow hds.hollow

theorem cons (hc : Sound A E [c]) (hcs : Sound A E cs) : Sound A E (c :: cs) := hc.append hcs

theorem imp (h : Sound A E cs) (hAB : ∀ s, A s → B s) (hEF : E → F) : Sound B F cs :=
  ⟨fun s hs => hAB s (h.mentions s hs), h.remarks, fun hs => hEF (h.hollow hs)⟩

theorem silent (hm : c.mentions = []) (hr : c.remarks = []) (hs : ¬ c.Hollow) : Sound A E [c] where
  mentions := by simp [Command.mentions.mentionsOf, hm]
  remarks := by simp [Command.remarks.remarksOf, hr]
  hollow h := h.elim (absurd · hs) False.elim

theorem each (h : ∀ c ∈ cs, Sound A E [c]) : Sound A E cs := by
  induction cs with
  | nil => exact nil
  | cons c cs ih =>
    obtain ⟨hc, hcs⟩ := List.forall_mem_cons.mp h
    exact hc.cons (ih hcs)

theorem comment {s : String} (hs : Plain s) (hcs : Sound A E cs) : Sound A E (.comment s :: cs) :=
  cons ⟨List.forall_mem_nil _, List.forall_mem_singleton.mpr hs, fun h => (h.elim id id).elim⟩ hcs

theorem cond {yes no : List Command} (ht : t.Sound A E) (hyes : Sound A E yes)
    (hno : Sound A E no) : Sound A E [.cond t yes no] where
  mentions := by
    rw [mentions.mentionsOf, mentions.mentionsOf, List.append_nil, Command.mentions]
    exact List.forall_mem_append.mpr
      ⟨List.forall_mem_append.mpr ⟨ht.mentions, hyes.mentions⟩, hno.mentions⟩
  remarks := by
    rw [remarks.remarksOf, remarks.remarksOf, List.append_nil, Command.remarks]
    exact List.forall_mem_append.mpr ⟨hyes.remarks, hno.remarks⟩
  hollow h := by
    obtain (h | h | h) | h := h
    · exact ht.hollow h
    · exact hyes.hollow h
    · exact hno.hollow h
    · exact h.elim

theorem when (ht : t.Sound A E) (h : Sound A E cs) : Sound A E [.when t cs] := cond ht h nil

theorem consult {f : RuleFunction} {no : List Command} (hf : A (.function (.rule f)))
    (hno : Sound A E no) : Sound A E [.consult f no] where
  mentions := by
    rw [mentions.mentionsOf, mentions.mentionsOf, List.append_nil, Command.mentions]
    exact List.forall_mem_cons.mpr ⟨hf, hno.mentions⟩
  remarks := by
    rw [remarks.remarksOf, remarks.remarksOf, List.append_nil]
    exact hno.remarks
  hollow h := h.elim hno.hollow False.elim

theorem addLarge (tags : List LargeCommunity) : Sound A E (tags.map Filter.addLarge) :=
  each fun c hc => by
    obtain ⟨tag, _, rfl⟩ := List.mem_map.mp hc
    exact silent rfl rfl id

theorem accept : Sound A E [.accept] := silent rfl rfl id

theorem reject : Sound A E [.reject] := silent rfl rfl id

theorem keepGoing : Sound A E [keepGoing] := silent rfl rfl id

theorem stop : Sound A E [stop] := silent rfl rfl id

end Sound
end Filter

def RuleMatch.Hollow (m : RuleMatch) : Prop :=
  (∃ c ∈ m.originAsn, c.values = []) ∨ (∃ c ∈ m.community, c.values = []) ∨
    (∃ c ∈ m.extendedCommunity, c.values = []) ∨ ∃ c ∈ m.largeCommunity, c.values = []

def Settings.Direction.stage : Settings.Direction → Stage
  | .inbound => .receive
  | .outbound => .toPeer

/-- What the filters of a peer may mention: its own lists and rules where there are any, and these
at one stage only. -/
inductive Policy.Knows (p : Policy) : Stage → Symbol → Prop
  | shared (s : Stage) (f : SharedFunction) : p.Knows s (.function (.shared f))
  | originate (s : Stage) (f : Family) : p.Knows s (.protocol (.originate f))
  | asns (h : p.asnGroups ≠ []) : p.Knows .receive (.list (.peerAsns p.name))
  | nets (f : Family) (h : p.groups f ≠ []) : p.Knows .receive (.list (.peerNets p.name f))
  | rules (d : Settings.Direction) (h : p.rules d ≠ []) :
    p.Knows d.stage (.function (.rule (Filter.rulesOf p d)))

namespace Policy.Knows
variable {p : Policy} {s : Stage}

theorem of_list {l : ListName} (h : p.Knows s (.list l)) :
    s = .receive ∧ (l = .peerAsns p.name ∧ p.asnGroups ≠ [] ∨
      ∃ f, l = .peerNets p.name f ∧ p.groups f ≠ []) := by
  cases h with
  | asns h => exact ⟨rfl, .inl ⟨rfl, h⟩⟩
  | nets f h => exact ⟨rfl, .inr ⟨f, rfl, h⟩⟩

theorem of_rules {d : Settings.Direction}
    (h : p.Knows s (.function (.rule (Filter.rulesOf p d)))) : s = d.stage ∧ p.rules d ≠ [] := by
  generalize hx : Symbol.function (.rule (Filter.rulesOf p d)) = x at h
  cases h with
  | rules e he =>
    have names : ruleBase p.name d = ruleBase p.name e := by simpa [Filter.rulesOf] using hx
    obtain rfl := (ruleBase_inj names).2
    exact ⟨rfl, he⟩
  | shared | originate | asns | nets => exact absurd hx (by simp)

end Policy.Knows

def SharedFunction.mentions : SharedFunction → List Symbol
  | .isBogon f => [.list (.bogons f)]
  | .tooLong f => [.constant (.longest f)]
  | .tooShort f => [.constant (.shortest f)]
  | .pathTooLong => [.constant .longestPath]
  | .pathTooShort => [.constant .shortestPath]
  | .hasBogonAsn => [.list .bogonAsns]
  | .hasTransitFreeAsn => [.list .transitFree]
  | .tooManyCommunities => [.constant .mostCommunities]
  | .hasFiltered => []
  | .canExport f =>
    [.hasFiltered, .tooLong f, .tooShort f, .isBogon f].map fun g => .function (.shared g)
  | .exportPrepend => List.replicate 6 (.constant .ownAsn)

namespace Filter
open Command

section Filters
variable {own : UInt32} {p : Policy} {f : Family} {A : Symbol → Prop}

theorem Sound.bind {e : Except Error (List Command)}
    {k : List Command → Except Error (List Command)} (h : Gives e (Sound A False))
    (hk : ∀ cs, Sound A False cs → Gives (k cs) (Sound A False)) :
    Gives (e >>= k) (Sound A False) :=
  Gives.bind h hk

theorem Sound.bindOne {e : Except Error Command} {k : Command → Except Error (List Command)}
    (h : Gives e fun c => Sound A False [c])
    (hk : ∀ c, Sound A False [c] → Gives (k c) (Sound A False)) :
    Gives (e >>= k) (Sound A False) :=
  Gives.bind h hk

theorem provided_sound {b : Bool} {e : Except Error (List Command)}
    (h : b = true → Gives e (Sound A False)) : Gives (provided b e) (Sound A False) := by
  cases b with
  | false => exact .ok .nil
  | true => exact h rfl

theorem tagWith_sound (r : Reason) : Gives (tagWith ⟨some own⟩ r) fun c => Sound A False [c] :=
  ⟨_, rfl, .silent rfl rfl id⟩

theorem tagWhen_sound {t : Test} (ht : t.Sound A False) (r : Reason) :
    Gives (tagWhen ⟨some own⟩ t r) fun c => Sound A False [c] :=
  .bind (tagWith_sound r) fun _ hc => .ok (.when ht hc)

theorem single_sound {e : Except Error Command} (h : Gives e fun c => Sound A False [c]) :
    Gives (do return [← e]) (Sound A False) :=
  .bind h fun _ hc => .ok hc

theorem commented_sound {text : String} {e : Except Error Command} (ht : Plain text)
    (h : Gives e fun c => Sound A False [c]) :
    Gives (do return [.comment text, ← e]) (Sound A False) :=
  .bind h fun _ hc => .ok (.comment ht hc)

theorem mapM_sound {α : Type} {k : α → Except Error Command} {as : List α}
    (h : ∀ a ∈ as, Gives (k a) fun c => Sound A False [c]) : Gives (as.mapM k) (Sound A False) := by
  induction as with
  | nil => exact .ok .nil
  | cons a as ih =>
    obtain ⟨ha, has⟩ := List.forall_mem_cons.mp h
    rw [List.mapM_cons]
    exact .bind ha fun _ hc => .bind (ih has) fun _ hcs => .ok (hc.cons hcs)

theorem stripTags_sound (s : Stripping) : Gives (stripTags ⟨some own⟩ s) (Sound A False) := by
  cases s with
  | all => exact ⟨_, rfl, .comment (by decide) (.silent rfl rfl (List.cons_ne_nil _ _))⟩
  | exceptActions => exact ⟨_, rfl, .comment (by decide) (.silent rfl rfl (List.cons_ne_nil _ _))⟩
  | nothing => exact .ok .nil

theorem checked_sound (g : SharedFunction) (r : Reason) :
    Gives (tagWhen ⟨some own⟩ (callShared g) r) fun c => Sound (p.Knows .receive) False [c] :=
  tagWhen_sound (.single rfl (.shared .receive g) id) r

theorem sanityChecks_sound :
    Gives (sanityChecks ⟨some own⟩ p f) (Sound (p.Knows .receive) False) := by
  have nextHop : Gives (provided p.role.checksNextHop <|
      given (p.neighbor f) fun a => tagWhen ⟨some own⟩ (.nextHopIsNot a) .nexthopMismatch)
        (Sound (p.Knows .receive) False) := by
    refine provided_sound fun _ => ?_
    cases p.neighbor f with
    | none => exact .ok .nil
    | some a => exact single_sound (tagWhen_sound (.silent rfl id) _)
  refine Sound.bind (mapM_sound fun x _ => checked_sound x.1 x.2) fun ofNet hnet =>
    Sound.bind (mapM_sound fun x _ => checked_sound x.1 x.2) fun ofPath hpath =>
    Sound.bind (provided_sound fun _ => single_sound (tagWhen_sound (.silent rfl id) _))
      fun _ hfirst =>
    Sound.bind nextHop fun _ hnext =>
    Sound.bind (provided_sound fun _ => single_sound (checked_sound _ _)) fun _ htransit =>
    Sound.bindOne (checked_sound _ _) fun _ hmany => ?_
  have net : Sound (p.Knows .receive) False
      (if p.acceptDefault then [.when (.not (isDefault f)) ofNet] else ofNet) := by
    split
    · exact .when (.silent rfl id) hnet
    · exact hnet
  exact .ok ((Sound.comment (by decide) net).append hpath |>.append hfirst |>.append hnext
    |>.append htransit |>.append hmany)

/-- A list of the peer is looked up only where it has items. -/
theorem allowChecks_sound :
    Gives (allowChecks ⟨some own⟩ p f) (Sound (p.Knows .receive) False) := by
  have origin : Gives (provided (!p.asnGroups.isEmpty) do
      return [← tagWhen ⟨some own⟩ (.not (.originAsnIn (.named (.peerAsns p.name))))
        .originFiltered]) (Sound (p.Knows .receive) False) := by
    refine provided_sound fun h => single_sound (tagWhen_sound (.single rfl ?_ id) _)
    exact .asns (by simpa using h)
  refine Sound.bind origin fun _ horigin => ?_
  have titled := Sound.comment (s := "Allowed origins and prefixes") (by decide) horigin
  dsimp only
  split
  · rename_i h
    refine Sound.bindOne (tagWhen_sound (.single rfl ?_ id) _) fun _ hc =>
      .ok (titled.append hc)
    exact .nets f (by simpa using h)
  · exact Sound.bind (provided_sound fun _ => single_sound (tagWith_sound _)) fun _ h =>
      .ok (titled.append h)

theorem baseline_sound : Gives (baseline ⟨some own⟩ p f) (Sound (p.Knows .receive) False) := by
  have relation : Gives (given p.role.relation fun r => do
      return addLarge (← (⟨some own⟩ : Tagger).relation r)) (Sound (p.Knows .receive) False) := by
    cases p.role.relation with
    | none => exact .ok .nil
    | some r => exact ⟨_, rfl, .silent rfl rfl id⟩
  have localPref : Sound (p.Knows .receive) False (p.localPref.map setLocalPref).toList := by
    cases p.localPref with
    | none => exact .nil
    | some n => exact .silent rfl rfl id
  refine Sound.bind (stripTags_sound _) fun _ hstrip => Sound.bind relation fun _ hrelation =>
    Sound.bind (provided_sound fun _ => commented_sound (by decide)
      (tagWhen_sound (.silent rfl id) _)) fun _ hdefault =>
    Sound.bind (provided_sound fun _ => commented_sound (by decide) (tagWith_sound _))
      fun _ hcollector =>
    Sound.bind (provided_sound fun _ => sanityChecks_sound) fun _ hsanity =>
    Sound.bind (provided_sound fun _ => allowChecks_sound) fun _ hallowed =>
    Sound.bind (provided_sound fun _ => commented_sound (by decide) (tagWith_sound _))
      fun _ hquarantine => ?_
  exact .ok (hstrip.append hrelation |>.append localPref |>.append hdefault |>.append hcollector
    |>.append hsanity |>.append hallowed |>.append hquarantine)

theorem receive_sound : Gives (receive ⟨some own⟩ p f) (Sound (p.Knows .receive) False) := by
  have rules : Gives (provided (!p.inbound.isEmpty) do
      return [consult (rulesOf p .inbound) [← tagWith ⟨some own⟩ .customAction]])
        (Sound (p.Knows .receive) False) :=
    provided_sound fun h => Sound.bindOne (tagWith_sound _) fun _ hc =>
      .ok (.consult (.rules .inbound (by simpa [Policy.rules] using h)) hc)
  refine Sound.bind baseline_sound fun _ hbase => Sound.bind rules fun _ hrules => ?_
  exact .ok (hbase.append hrules |>.append (.addLarge _) |>.append .accept)

theorem toMain_sound : Gives (toMain ⟨some own⟩) (Sound A False) :=
  ⟨_, rfl, .cons (.when (.silent rfl (List.cons_ne_nil _ _)) .reject) .accept⟩

theorem provenance_sound (s : Source) :
    Gives (provenance ⟨some own⟩ p f s) (Test.Sound (p.Knows .toPeer) False) := by
  have originate := Policy.Knows.originate (p := p) .toPeer f
  have canExport := Policy.Knows.shared (p := p) .toPeer (.canExport f)
  cases s with
  | static => exact .ok (.single rfl originate (by simp [Test.Hollow, Test.Hollow.HollowAny]))
  | originated => exact .ok (.single rfl originate id)
  | default | connected | kernel | bgp => exact .ok (.silent rfl id)
  | bgpOwn | bgpCustomer | bgpPeering | bgpTransit =>
    refine ⟨_, rfl, .single rfl canExport ?_⟩
    simp [Test.Hollow, Test.Hollow.HollowAny]

theorem exportBans_sound : Gives (exportBans ⟨some own⟩ p) (Sound A False) := by
  have bans : Gives ((p.asn :: (p.role.audience.map Audience.code).toList).mapM fun n => do
      let own ← (⟨some own⟩ : Tagger).own
      return when (.carries own TagKind.noExport.code (.number n)) [.reject]) (Sound A False) :=
    mapM_sound fun n _ => ⟨_, rfl, .when (.silent rfl id) .reject⟩
  exact .bind bans fun _ hbans => .ok (.comment (by decide) hbans)

theorem redistribute_sound (s : Source) :
    Gives (redistribute ⟨some own⟩ p f s) (Sound (p.Knows .toPeer) False) := by
  have title : Plain s!"Redistribute {s.name}" := by cases s <;> decide
  exact .bind (provenance_sound s) fun t ht =>
    .ok (.comment title (.when ht ((Sound.addLarge _).append (.silent rfl rfl id))))

theorem sources_sound (ss : List Source) :
    Gives (ss.mapM (redistribute ⟨some own⟩ p f)) fun css =>
      Sound (p.Knows .toPeer) False css.flatten := by
  induction ss with
  | nil => exact .ok .nil
  | cons s ss ih =>
    rw [List.mapM_cons]
    exact .bind (redistribute_sound s) fun _ hcs => .bind ih fun _ hcss => .ok (hcs.append hcss)

theorem defaultExport_sound : Sound A False (defaultExport p f) := by
  unfold defaultExport
  split
  · have never : ¬ (Test.every [isDefault f, .undecided]).Hollow := by
      simp [Test.Hollow, Test.Hollow.HollowAny, isDefault]
    refine .cons (.when (.silent rfl never) .reject) ?_
    split
    · exact .nil
    · exact .when (.silent rfl id) (.addLarge _)
  · exact .when (.silent rfl id) .reject

theorem external_sound : Gives (provided p.role.isExternal do
    return [run .exportPrepend p.asn, strip (← internalTags ⟨some own⟩)])
      (Sound (p.Knows .toPeer) False) := by
  have prepends : Sound (p.Knows .toPeer) False [run .exportPrepend p.asn] :=
    ⟨List.forall_mem_singleton.mpr (.shared _ _), List.forall_mem_nil _, fun h => h.elim id id⟩
  exact provided_sound fun _ => ⟨_, rfl, prepends.cons (.silent rfl rfl (List.cons_ne_nil _ _))⟩

theorem deliver_sound : Gives (deliver ⟨some own⟩ p) (Sound (p.Knows .toPeer) False) := by
  have rules : Sound (p.Knows .toPeer) False (if p.outbound.isEmpty then [] else
      [consult (rulesOf p .outbound) [.reject]]) := by
    split
    · exact .nil
    · rename_i h
      exact .consult (.rules .outbound (by simpa [Policy.rules] using h)) .reject
  exact Sound.bind external_sound fun _ hexternal =>
    .ok (rules.append (.addLarge _) |>.append hexternal |>.append .accept)

theorem toPeer_sound : Gives (toPeer ⟨some own⟩ p f) (Sound (p.Knows .toPeer) False) := by
  refine Sound.bind (provided_sound fun _ => exportBans_sound) fun bans hbans =>
    .bind (sources_sound _) fun sources hsources => Sound.bind deliver_sound
      fun granted hgranted => ?_
  have start : Sound (p.Knows .toPeer) False (.setDecided false :: bans) :=
    .cons (.silent rfl rfl id) hbans
  have verdict : Sound (p.Knows .toPeer) False [when .decided granted, .reject] :=
    .cons (.when (.silent rfl id) hgranted) .reject
  exact .ok (start.append hsources |>.append (.comment (by decide) defaultExport_sound)
    |>.append verdict)

theorem ofPeer_sound (s : Stage) :
    Gives (ofPeer ⟨some own⟩ p f s) fun g => Sound (p.Knows s) False g.body := by
  have body : Gives (body ⟨some own⟩ p f s) (Sound (p.Knows s) False) := by
    cases s with
    | receive => exact receive_sound
    | toMain => exact toMain_sound
    | toPeer => exact toPeer_sound
  exact .bind body fun _ hbody => .ok hbody

theorem receive_consults (h : p.inbound ≠ []) : Gives (receive ⟨some own⟩ p f) fun cs =>
    .function (.rule (rulesOf p .inbound)) ∈ mentions.mentionsOf cs := by
  have rules : Gives (provided (!p.inbound.isEmpty) do
      return [consult (rulesOf p .inbound) [← tagWith ⟨some own⟩ .customAction]])
        fun cs => .function (.rule (rulesOf p .inbound)) ∈ mentions.mentionsOf cs := by
    have some : (!p.inbound.isEmpty) = true := by simpa using h
    rw [some]
    exact ⟨_, rfl, List.mem_cons_self⟩
  refine .bind baseline_sound fun _ _ => .bind rules fun _ hrules => .ok ?_
  simp [mentionsOf_append, hrules]

theorem toPeer_consults (h : p.outbound ≠ []) : Gives (toPeer ⟨some own⟩ p f) fun cs =>
    .function (.rule (rulesOf p .outbound)) ∈ mentions.mentionsOf cs := by
  have granted : Gives (deliver ⟨some own⟩ p) fun cs =>
      .function (.rule (rulesOf p .outbound)) ∈ mentions.mentionsOf cs := by
    have some : p.outbound.isEmpty = false := by simpa using h
    refine .bind external_sound fun _ _ => .ok ?_
    simp [some, mentionsOf_append, mentions.mentionsOf, mentions]
  have bans : Gives (provided p.role.isExternal (exportBans ⟨some own⟩ p))
      (Sound (p.Knows .toPeer) False) := provided_sound fun _ => exportBans_sound
  refine .bind bans fun _ _ => .bind (sources_sound _) fun _ _ =>
    .bind granted fun _ hgranted => .ok ?_
  simp [mentionsOf_append, mentions.mentionsOf, mentions, when, hgranted]

/-- A filter consults the rules of a direction exactly at its stage, and if there are any. -/
theorem mem_mentions_rulesOf_iff {s : Stage} {g : Program} (h : ofPeer ⟨some own⟩ p f s = .ok g)
    (d : Settings.Direction) :
    .function (.rule (rulesOf p d)) ∈ mentions.mentionsOf g.body ↔
      s = d.stage ∧ p.rules d ≠ [] := by
  constructor
  · exact fun hmem => (((ofPeer_sound s).of_eq_ok h).mentions _ hmem).of_rules
  · rintro ⟨rfl, hne⟩
    have consults : Gives (body ⟨some own⟩ p f d.stage) fun cs =>
        .function (.rule (rulesOf p d)) ∈ mentions.mentionsOf cs := by
      cases d with
      | inbound => exact receive_consults hne
      | outbound => exact toPeer_consults hne
    have named : Gives (ofPeer ⟨some own⟩ p f d.stage) fun g =>
        .function (.rule (rulesOf p d)) ∈ mentions.mentionsOf g.body :=
      .bind consults fun _ hcs => .ok hcs
    exact named.of_eq_ok h

end Filters

section Rules
variable {A : Symbol → Prop} {E : Prop}

theorem checkValues_sound {α : Type} {title : String} {test : List α → Test}
    {condition : Option (Condition α)} (ht : Plain title) (hn : ∀ vs, (test vs).mentions = [])
    (hs : ∀ vs, (test vs).Hollow → vs = []) (he : ∀ c ∈ condition, c.values = [] → E) :
    Sound A E (checkValues title test condition) := by
  cases condition with
  | none => exact .nil
  | some c =>
    have values : (test c.values).Sound A E :=
      ⟨hn c.values ▸ List.forall_mem_nil _, fun h => he c rfl (hs c.values h)⟩
    refine .comment ht (.when ?_ .keepGoing)
    cases c.negated <;> exact ⟨values.mentions, values.hollow⟩

theorem checkFamily_sound (ps : List Pattern) (negated : Bool) :
    Sound A E (checkFamily ps negated) := by
  match ps, negated with
  | [], false => exact .keepGoing
  | [], true => exact .nil
  | p :: ps, true => exact .when (.silent rfl (List.cons_ne_nil p ps)) .keepGoing
  | p :: ps, false => exact .when (.silent rfl (List.cons_ne_nil p ps)) .keepGoing

theorem checkNet_sound (condition : Option (Condition Pattern)) :
    Sound A E (checkNet condition) := by
  cases condition with
  | none => exact .nil
  | some c =>
    simp only [checkNet]
    have four := checkFamily_sound (A := A) (E := E)
      (c.values.filter fun p => p.family = .v4) c.negated
    have six := checkFamily_sound (A := A) (E := E)
      (c.values.filter fun p => p.family ≠ .v4) c.negated
    split
    · exact .nil
    · exact .comment (by decide) (.when (.silent rfl id) six)
    · exact .comment (by decide) (.cond (.silent rfl id) four six)

theorem edits_sound {α : Type} (mark : α → Mark) (e : Edit α) : Sound A E (edits mark e) := by
  refine .append (.each fun c hc => ?_) (.each fun c hc => ?_)
  · obtain ⟨a, _, rfl⟩ := List.mem_map.mp hc
    exact .silent rfl rfl id
  · obtain ⟨a, _, rfl⟩ := List.mem_map.mp hc
    exact .silent rfl rfl id

theorem ruleBody_sound (r : Rule) :
    Sound (· = .constant .ownAsn) r.condition.Hollow (ruleBody r) := by
  have actions : Sound (· = .constant .ownAsn) r.condition.Hollow (actions r.action) := by
    cases r.action with
    | reject => exact .comment (by decide) .stop
    | update u =>
      have prepends : Sound (· = .constant .ownAsn) r.condition.Hollow
          (List.replicate (u.prepend.getD 0) prepend) := .each fun c hc => by
        obtain rfl := List.eq_of_mem_replicate hc
        exact ⟨List.forall_mem_singleton.mpr rfl, List.forall_mem_nil _,
          fun h => (h.elim id id).elim⟩
      exact (Sound.comment (by decide) (edits_sound _ _)).append (edits_sound _ _)
        |>.append (edits_sound _ _) |>.append prepends |>.append .keepGoing
  exact (checkValues_sound (by decide) (fun _ => rfl) (fun _ => id) fun c hc h => .inl ⟨c, hc, h⟩)
    |>.append (checkNet_sound _)
    |>.append (checkValues_sound (by decide) (fun _ => rfl) (fun _ => id)
      fun c hc h => .inr (.inl ⟨c, hc, h⟩))
    |>.append (checkValues_sound (by decide) (fun _ => rfl) (fun _ => id)
      fun c hc h => .inr (.inr (.inl ⟨c, hc, h⟩)))
    |>.append (checkValues_sound (by decide) (fun _ => rfl) (fun _ => id)
      fun c hc h => .inr (.inr (.inr ⟨c, hc, h⟩)))
    |>.append actions

theorem everyRule_sound (base : String) (count : Nat) :
    Sound (fun s => ∃ i < count, s = .function (.rule (.one base i))) False
      (everyRule base count).body := by
  refine .append (.each fun c hc => ?_) .keepGoing
  obtain ⟨i, hi, rfl⟩ := List.mem_map.mp hc
  exact .consult ⟨i, List.mem_range.mp hi, rfl⟩ .stop

theorem rulesOf_mem_names_iff {p : Policy} {d : Settings.Direction} :
    .rule (rulesOf p d) ∈ (rulesOfPeer p).map (·.name) ↔ p.rules d ≠ [] := by
  have base {d e : Settings.Direction} : ruleBase p.name d = ruleBase p.name e ↔ d = e :=
    ⟨fun h => (ruleBase_inj h).2, fun h => h ▸ rfl⟩
  rw [rulesOfPeer, List.map_append, names_ruleFunctions, names_ruleFunctions, rulesOf]
  cases d <;> by_cases hin : p.inbound = [] <;> by_cases hout : p.outbound = [] <;>
    simp [hin, hout, base, Policy.rules]

theorem ruleFunctions_sound {base : String} {rules : List Rule} {g : Function}
    (h : g ∈ ruleFunctions base rules) :
    Sound (fun s => s = .constant .ownAsn ∨ ∃ i, s = .function (.rule (.one base i)))
      (∃ r ∈ rules, r.condition.Hollow) g.body := by
  unfold ruleFunctions at h
  split at h
  · exact nomatch h
  · obtain hone | hevery := List.mem_append.mp h
    · obtain ⟨x, hx, rfl⟩ := List.mem_map.mp hone
      exact (ruleBody_sound x.1).imp (fun _ => .inl)
        fun h => ⟨x.1, List.fst_mem_of_mem_zipIdx hx, h⟩
    · obtain rfl := List.mem_singleton.mp hevery
      refine (everyRule_sound base rules.length).imp ?_ False.elim
      rintro _ ⟨i, _, rfl⟩
      exact .inr ⟨i, rfl⟩

theorem rulesOfPeer_sound {p : Policy} {g : Function} (h : g ∈ rulesOfPeer p) :
    ∃ d, base? g.name = some (ruleBase p.name d) ∧
      Sound (fun s => s = .constant .ownAsn ∨
        ∃ i, s = .function (.rule (.one (ruleBase p.name d) i)))
          (∃ r ∈ p.rules d, r.condition.Hollow) g.body := by
  obtain hin | hout := List.mem_append.mp h
  · exact ⟨.inbound, base?_ruleFunctions hin, ruleFunctions_sound hin⟩
  · exact ⟨.outbound, base?_ruleFunctions hout, ruleFunctions_sound hout⟩

end Rules

theorem mentions_sharedOf (own : UInt32) :
    (sharedOf own).map (fun g => (g.name, mentions.mentionsOf g.body, remarks.remarksOf g.body)) =
      SharedFunction.all.map fun f => (.shared f, f.mentions, []) := rfl

theorem mem_sharedOf {own : UInt32} {g : Function} (h : g ∈ sharedOf own) :
    ∃ f, g.name = .shared f ∧ mentions.mentionsOf g.body = f.mentions ∧
      remarks.remarksOf g.body = [] := by
  have listed := List.mem_map_of_mem
    (f := fun g => (g.name, mentions.mentionsOf g.body, remarks.remarksOf g.body)) h
  rw [mentions_sharedOf] at listed
  obtain ⟨f, _, hf⟩ := List.mem_map.mp listed
  simp only [Prod.mk.injEq] at hf
  exact ⟨f, hf.1.symm, hf.2.1.symm, hf.2.2.symm⟩

theorem full_sharedOf {own : UInt32} {g : Function} (h : g ∈ sharedOf own) :
    ¬ Hollow.HollowAny g.body := by
  have made : SharedFunction.all.mapM (sharedFunction ⟨some own⟩) = .ok (sharedOf own) := rfl
  obtain ⟨f, _, hf⟩ := exists_of_mem_mapM made h
  rcases f with f | f | f | _ | _ | _ | _ | _ | _ | f | _ <;> obtain rfl := Except.ok.inj hf <;>
    simp [Hollow.HollowAny, Hollow, Test.Hollow, refuseWhen, when, prependChain, prependRequests]

end Filter

theorem Wiring.fromMaster_sound {A : Symbol → Prop} (f : Family) (i : Settings.Import) :
    Filter.Sound A False (Wiring.fromMaster f i).body := by
  have accept (b : Bool) (o : Origin) :
      Filter.Sound A False (if b then [Wiring.acceptFrom o] else []) := by
    cases b with
    | false => exact .nil
    | true => exact .when (.silent rfl id) .accept
  exact (((accept _ _).append (accept _ _)).append (accept _ _)).append .reject

/-- The symbols that a declaration names, besides its own. -/
def Declaration.mentions : Declaration → List Symbol
  | function f => Filter.Command.mentions.mentionsOf f.body
  | filter f => Filter.Command.mentions.mentionsOf f.body
  | originate f _ => [.table (.main f)]
  | pipe p => [.table p.table, .table p.other, .filter p.outward, .filter p.inward]
  | session s => [.table s.table, .filter (.peer s.family s.peer .receive)]
  | blank | comment _ | routerId _ | constant .. | list _ | table _ => []

def Declaration.Hollow : Declaration → Prop
  | function f => Filter.Command.Hollow.HollowAny f.body
  | filter f => Filter.Command.Hollow.HollowAny f.body
  | _ => False

end Peering
