import Peering.Proofs.NumberKeys

/-!
The order of members in a document does not show: neither in what is read from it nor in what is
compiled.
-/
namespace Peering.Settings
open Document
open Document.Value (Reordered)

theorem ofMembers_reordered {α : Type} {r : Record α}
    (hc : ∀ f ∈ r.fields, f.codec.Stable Reordered) {ms : List (Quoted × Value)} {ending : Ending}
    {w : Value} (h : Reordered (.object ms ending) w) {depth : Nat} {x : α}
    (hx : r.ofMembers depth ms ending = .ok x) :
    ∃ ns, w = .object ns .closed ∧ r.ofMembers depth ns .closed = .ok x := by
  obtain ⟨rfl, os, ns, rfl, perm, members, apart⟩ := h.object_left
  exact ⟨ns, rfl, Record.ofMembers_stable hc (fun h => h.same.skip) perm
    (members.imp fun m n same => ⟨same.1, fun _ _ => same.2⟩) apart hx⟩

theorem stable_texts : (Codec.list .string).Stable Reordered := Codec.stable_parsed.list

theorem stable_import : importRecord.codec.Stable Reordered := by
  refine Record.stable ?_
  simp only [importRecord, List.forall_mem_cons]
  exact ⟨Codec.stable_bool, Codec.stable_bool, Codec.stable_bool, nofun⟩

theorem stable_redistribute : redistributeCodec.Stable Reordered where
  decode {_ v w x} h hv := by
    cases v with
    | bool b =>
      obtain rfl := h.same.bool_left
      exact hv
    | object ms ending =>
      obtain ⟨cs, hcs, hx⟩ := map_eq_ok.mp hv
      obtain ⟨ns, rfl, again⟩ :=
        ofMembers_reordered (r := taggedRecord) (List.forall_mem_singleton.mpr stable_texts) h hcs
      exact map_eq_ok.mpr ⟨cs, again, hx⟩
    | _ => exact nomatch hv

theorem stable_redistributeSet : redistributeRecord.codec.Stable Reordered := by
  refine Record.stable ?_
  have source := stable_redistribute.option
  simp only [redistributeRecord, List.forall_mem_cons]
  exact ⟨source, source, source, source, source, source, source, source, source, source, nofun⟩

theorem stable_accept : acceptRecord.codec.Stable Reordered :=
  Record.stable (List.forall_mem_singleton.mpr Codec.stable_bool.option)

theorem stable_allow : allowRecord.codec.Stable Reordered := by
  refine Record.stable ?_
  simp only [allowRecord, List.forall_mem_cons]
  exact ⟨Codec.stable_u32.list, stable_texts, stable_texts, nofun⟩

theorem stable_match : matchRecord.codec.Stable Reordered := by
  refine Record.stable ?_
  have texts : (choiceCodec .string).option.Stable Reordered := Codec.stable_parsed.choice.option
  simp only [matchRecord, List.forall_mem_cons]
  exact ⟨Codec.stable_u32.choice.option, texts, texts, texts, texts, nofun⟩

theorem stable_edit : editRecord.codec.Stable Reordered := by
  refine Record.stable ?_
  simp only [editRecord, List.forall_mem_cons]
  exact ⟨stable_texts, stable_texts, nofun⟩

theorem stable_action : actionCodec.Stable Reordered where
  decode {_ v w x} h hv := by
    cases v with
    | text q =>
      obtain ⟨r, rfl, same⟩ := h.same.text_left
      obtain ⟨s, hs, hv⟩ := bind_eq_ok.mp hv
      exact bind_eq_ok.mpr ⟨s, same.read hs, hv⟩
    | object ms ending =>
      obtain ⟨u, hu, hx⟩ := map_eq_ok.mp hv
      have fields : ∀ f ∈ updateRecord.fields, f.codec.Stable Reordered := by
        have edit := stable_edit.option
        simp only [updateRecord, List.forall_mem_cons]
        exact ⟨edit, edit, edit, Codec.stable_u32.option, nofun⟩
      obtain ⟨ns, rfl, again⟩ := ofMembers_reordered fields h hu
      exact map_eq_ok.mpr ⟨u, again, hx⟩
    | _ => exact nomatch hv

theorem stable_rule : ruleRecord.codec.Stable Reordered := by
  refine Record.stable ?_
  simp only [ruleRecord, List.forall_mem_cons]
  exact ⟨Codec.stable_variant, stable_match, stable_action, nofun⟩

theorem stable_peer : peerRecord.codec.Stable Reordered := by
  refine Record.stable ?_
  have number := Codec.stable_u32.option
  have address4 : Codec.address4.option.Stable Reordered := Codec.stable_parsed.option
  have address6 : Codec.address6.option.Stable Reordered := Codec.stable_parsed.option
  simp only [peerRecord, List.forall_mem_cons]
  exact ⟨Codec.stable_variant, Codec.stable_u32, Codec.stable_parsed.option, address4, address4,
    address6, address6, Codec.stable_u32, number, number, Codec.stable_bool,
    stable_redistributeSet, stable_accept, stable_allow, stable_texts, stable_texts,
    Codec.stable_bool, stable_rule.list, nofun⟩

theorem stable_router : routerRecord.codec.Stable Reordered := by
  refine Record.stable ?_
  have address : Codec.address4.option.Stable Reordered := Codec.stable_parsed.option
  simp only [routerRecord, List.forall_mem_cons]
  exact ⟨Codec.stable_u32, address, address, stable_import, stable_texts, stable_peer.textMap,
    nofun⟩

end Peering.Settings

namespace Peering.Registry
open Document
open Document.Value (Reordered)

theorem stable_counts : countsRecord.codec.Stable Reordered := by
  refine Record.stable ?_
  simp only [countsRecord, List.forall_mem_cons]
  exact ⟨Codec.stable_u32.option, Codec.stable_u32.option, nofun⟩

theorem stable_object : objectRecord.codec.Stable Reordered := by
  refine Record.stable ?_
  simp only [objectRecord, List.forall_mem_cons]
  exact ⟨Settings.stable_texts, Settings.stable_texts, Codec.stable_u32.list, nofun⟩

/-- The numbers that counts stand under are written without escapes, in both forms of the
document. -/
def PlainNumbers : Value → Prop
  | .object ms _ => ∀ m ∈ ms, m.1.read = .ok "peeringdb" → Codec.PlainKeys m.2
  | .list (v :: _) _ => Codec.PlainKeys v
  | _ => True

theorem stable_registry : codec.Stable fun v w => v.Reordered w ∧ PlainNumbers w where
  decode {_ v w r} h hv := by
    obtain ⟨h, plain⟩ := h
    -- Only the values of the first field are read in a way that depends on how they are written.
    have fields : ∀ f ∈ record.fields, f.codec.Stable fun v w => v.Reordered w ∧
        (f.name = "peeringdb" → Codec.PlainKeys w) := by
      simp only [record, List.forall_mem_cons]
      exact ⟨⟨fun h => stable_counts.numberMap.decode ⟨h.1, h.2 rfl⟩⟩,
        ⟨fun h => stable_object.textMap.decode h.1⟩, nofun⟩
    refine (Record.stable_related (R := fun key v w => v.Reordered w ∧
      (key = "peeringdb" → Codec.PlainKeys w)) fields (fun h => h.1.same.skip)).decode ?_ hv
    cases v with
    | list vs ending =>
      obtain ⟨rfl, ws, rfl, items⟩ := h.list_left
      refine .list ?_
      cases items with
      | nil => trivial
      | cons hvw items =>
        exact ⟨⟨hvw, fun _ => plain⟩, relatedItems_of_forall₂
          (List.forall_mem_singleton.mpr fun _ _ h => ⟨h, fun hname => nomatch hname⟩) items⟩
    | object ms ending =>
      obtain ⟨rfl, os, ns, rfl, perm, members, apart⟩ := h.object_left
      refine .object perm ?_ apart
      refine (forall₂_and_right members fun n hn => plain n (perm.mem_iff.mp hn)).imp ?_
      rintro m n ⟨⟨same, value⟩, hplain⟩
      exact ⟨same, fun key hkey => ⟨value, fun hname => hplain (hname ▸ same.read hkey)⟩⟩
    | _ => exact nomatch hv

end Peering.Registry

namespace Peering
open Document
open Registry (PlainNumbers)

/-- Texts of one JSON value, up to the order of members, in which no object repeats a key. Nothing
but white space trails the values. -/
structure SameJson (bs cs : List Byte) : Prop where
  value : (Document.read bs).1.Reordered (Document.read cs).1
  whole : (Document.read bs).2 = false ∧ (Document.read cs).2 = false

theorem SameJson.symm {bs cs : List Byte} (h : SameJson bs cs) : SameJson cs bs :=
  ⟨h.value.symm, h.whole.2, h.whole.1⟩

theorem SameJson.of_read {bs cs : List Byte} {v w : Value} (hb : Document.read bs = (v, false))
    (hc : Document.read cs = (w, false)) (h : v.Reordered w) : SameJson bs cs := by
  rw [← show _ = v from congrArg Prod.fst hb, ← show _ = w from congrArg Prod.fst hc] at h
  exact ⟨h, congrArg Prod.snd hb, congrArg Prod.snd hc⟩

theorem SameJson.read {α : Type} {c : Codec α} {R : Value → Value → Prop} (hc : c.Stable R)
    {bs cs : List Byte} (h : SameJson bs cs) (related : R (Document.read bs).1 (Document.read cs).1)
    {key : String} {a : α} (ha : readDocument c key bs = .ok a) :
    readDocument c key cs = .ok a := by
  have hv := (read_eq_ok.mp (readDocument_eq_ok.mp ha)).1
  exact readDocument_eq_ok.mpr (read_eq_ok.mpr ⟨hc.decode related hv, h.whole.2⟩)

/-- The order in which members are written does not show: settings are read as the same settings,
registries as the same registries, and what is compiled from them is the same text or the same
error. The keys that counts stand under must not be escaped. -/
theorem compile_reordered {bs cs rs ts : List Byte} (settings : SameJson bs cs)
    (registry : SameJson rs ts)
    (plain : PlainNumbers (Document.read rs).1 ∧ PlainNumbers (Document.read ts).1) :
    (∀ s, readSettings bs = .ok s ↔ readSettings cs = .ok s) ∧
      (∀ r, readRegistry rs = .ok r ↔ readRegistry ts = .ok r) ∧
      ((∃ s, readSettings bs = .ok s) → (∃ r, readRegistry rs = .ok r) →
        compile bs rs = compile cs ts) := by
  have sameSettings : ∀ s, readSettings bs = .ok s ↔ readSettings cs = .ok s := fun s =>
    ⟨settings.read Settings.stable_router settings.value,
      settings.symm.read Settings.stable_router settings.symm.value⟩
  have sameRegistry : ∀ r, readRegistry rs = .ok r ↔ readRegistry ts = .ok r := fun r =>
    ⟨registry.read Registry.stable_registry ⟨registry.value, plain.2⟩,
      registry.symm.read Registry.stable_registry ⟨registry.symm.value, plain.1⟩⟩
  refine ⟨sameSettings, sameRegistry, ?_⟩
  rintro ⟨s, hs⟩ ⟨r, hr⟩
  simp only [compile, readRouter, hs, (sameSettings s).mp hs, hr, (sameRegistry r).mp hr]

section Samples

def quoted (s : String) : Quoted := ⟨ascii s, true⟩

theorem quoted_same (s : String) : (quoted s).Same (quoted s) := ⟨rfl, rfl, .inl rfl⟩

theorem otherKey_of_read {k l : Quoted} {v w : Value} {s t : String} (hk : k.read = .ok s)
    (hl : l.read = .ok t) (hne : s ≠ t) : OtherKey (k, v) (l, w) := fun same =>
  hne (Except.ok.inj ((same.read hk).symm.trans hl))

def asnFirst : List Byte := ascii "\x7b\"asn\": 65000, \"peers\": \x7b\x7d\x7d"

def asnLast : List Byte := ascii "\x7b\"peers\": \x7b\x7d, \"asn\": 65000\x7d"

theorem sameJson_settings : SameJson asnFirst asnLast := by
  have first : Document.read asnFirst = (.object [(quoted "asn", .number (.ofNat 65000)),
    (quoted "peers", .object [] .closed)] .closed, false) := by cbv
  have last : Document.read asnLast = (.object [(quoted "peers", .object [] .closed),
    (quoted "asn", .number (.ofNat 65000))] .closed, false) := by cbv
  refine .of_read first last ⟨⟨_, .swap _ _ _, quoted_same _, ⟨rfl, rfl, .inl rfl⟩, quoted_same _,
    ⟨[], .nil, trivial⟩, trivial⟩, ⟨?_, trivial, ⟨.nil, trivial⟩, trivial⟩⟩
  exact List.pairwise_pair.mpr
    (otherKey_of_read (s := "asn") (t := "peers") (by cbv) (by cbv) (by decide))

def countsOf (k l : String) : Value :=
  .object [(quoted "peeringdb",
    .object [(quoted k, .object [] .closed), (quoted l, .object [] .closed)] .closed)] .closed

def smallestFirst : List Byte := ascii
  "\x7b\"peeringdb\": \x7b\"1\": \x7b\x7d, \"13335\": \x7b\x7d\x7d\x7d"

def smallestLast : List Byte := ascii
  "\x7b\"peeringdb\": \x7b\"13335\": \x7b\x7d, \"1\": \x7b\x7d\x7d\x7d"

theorem read_smallestFirst : Document.read smallestFirst = (countsOf "1" "13335", false) := by cbv

theorem read_smallestLast : Document.read smallestLast = (countsOf "13335" "1", false) := by cbv

theorem sameJson_registries : SameJson smallestFirst smallestLast := by
  have empty : Value.Same (.object [] .closed) (.object [] .closed) := ⟨[], .nil, trivial⟩
  have distinct : Value.Distinct (.object [] .closed) := ⟨.nil, trivial⟩
  refine .of_read read_smallestFirst read_smallestLast ⟨⟨_, .refl _, quoted_same _,
    ⟨_, .swap _ _ _, quoted_same _, empty, quoted_same _, empty, trivial⟩, trivial⟩,
    ⟨List.pairwise_singleton _ _, ⟨?_, distinct, distinct, trivial⟩, trivial⟩⟩
  exact List.pairwise_pair.mpr
    (otherKey_of_read (s := "1") (t := "13335") (by cbv) (by cbv) (by decide))

theorem plainNumbers_countsOf {k l : String} (hk : 0x5c ∉ ascii k) (hl : 0x5c ∉ ascii l) :
    PlainNumbers (countsOf k l) := by
  intro m hm _
  obtain rfl := List.mem_singleton.mp hm
  intro e he
  obtain rfl | he := List.mem_cons.mp he
  · exact hk
  · obtain rfl := List.mem_singleton.mp he
    exact hl

theorem compile_reordered_small :
    compile asnFirst smallestFirst = compile asnLast smallestLast := by
  have plain : PlainNumbers (Document.read smallestFirst).1 ∧
      PlainNumbers (Document.read smallestLast).1 := by
    rw [read_smallestFirst, read_smallestLast]
    exact ⟨plainNumbers_countsOf (by decide +kernel) (by decide +kernel),
      plainNumbers_countsOf (by decide +kernel) (by decide +kernel)⟩
  exact (compile_reordered sameJson_settings sameJson_registries plain).2.2
    ⟨⟨65000, none, none, .off, [], []⟩, by decide +kernel⟩
    ⟨⟨[(1, .unknown), (13335, .unknown)], []⟩, by decide +kernel⟩

def plainNumber : List Byte := ascii "\x7b\"peeringdb\": \x7b\"13335\": \x7b\x7d\x7d\x7d"

def escapedNumber : List Byte := ascii "\x7b\"peeringdb\": \x7b\"\\u00313335\": \x7b\x7d\x7d\x7d"

/-- A number as a key is refused when it is escaped, though it says the same. -/
theorem escaped_number_refused : ¬ ∀ rs ts, SameJson rs ts →
    ∀ r, readRegistry rs = .ok r → readRegistry ts = .ok r := by
  intro claim
  have same : SameJson plainNumber escapedNumber := by
    have plain : Document.read plainNumber = (.object [(quoted "peeringdb",
      .object [(quoted "13335", .object [] .closed)] .closed)] .closed, false) := by cbv
    have escaped : Document.read escapedNumber = (.object [(quoted "peeringdb",
      .object [(quoted "\\u00313335", .object [] .closed)] .closed)] .closed, false) := by cbv
    have number : (quoted "13335").Same (quoted "\\u00313335") :=
      .of_read (s := "13335") (by cbv) (by cbv)
    exact .of_read plain escaped ⟨⟨_, .refl _, quoted_same _,
      ⟨_, .refl _, number, ⟨[], .nil, trivial⟩, trivial⟩, trivial⟩,
      ⟨List.pairwise_singleton _ _, ⟨List.pairwise_singleton _ _, ⟨.nil, trivial⟩, trivial⟩,
        trivial⟩⟩
  have refused := claim _ _ same ⟨[(13335, .unknown)], []⟩ (by decide +kernel)
  exact absurd refused (by decide +kernel)

end Samples
end Peering
