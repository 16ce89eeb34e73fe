import Peering.Proofs.Faithful

/-!
Settings and registries that were read from documents are written as documents that are read as the
same settings and registries.
-/
namespace Peering.Settings
open Document

theorem faithful_import : importRecord.Faithful 0 where
  fields := by
    simp only [importRecord, List.forall_mem_cons]
    have flag (name : String) : (Field.orElse name .bool false).Faithful 0 :=
      Field.faithful_orElse name Codec.faithful_bool ⟨0, .bool false, rfl⟩
    exact ⟨flag _, flag _, flag _, nofun⟩
  different := by decide
  parts_build _ := rfl

theorem faithful_texts (name : String) : (Field.orElse name (.list .string) []).Faithful 1 :=
  Field.faithful_orElse name (Codec.faithful_string.list) ⟨0, .list [] .closed, rfl⟩

theorem faithful_tagged : taggedRecord.Faithful 1 where
  fields := List.forall_mem_singleton.mpr (faithful_texts _)
  different := by decide
  parts_build _ := rfl

theorem faithful_redistribute : redistributeCodec.Faithful 2 := by
  have tagged {cs : List String} (h : redistributeCodec.Reads (.tagged cs)) :
      taggedRecord.codec.Reads cs := by
    obtain ⟨depth, v, h⟩ := h
    cases v with
    | object members ending =>
      obtain ⟨_, hread, heq⟩ := map_eq_ok.mp h
      obtain rfl := Redistribute.tagged.inj heq
      exact ⟨depth, .object members ending, hread⟩
    | _ => exact nomatch h
  refine ⟨?_, ?_⟩
  · intro x hx
    cases x with
    | flag b => exact .bool b
    | tagged cs => exact faithful_tagged.printed (tagged hx)
  · intro x hx depth hd
    cases x with
    | flag b => rfl
    | tagged cs =>
      have back := faithful_tagged.back (tagged hx) hd
      show (taggedRecord.ofMembers depth _ .closed).map Redistribute.tagged = _
      rw [back]
      rfl

theorem faithful_redistributeSet : redistributeRecord.Faithful 2 where
  fields := by
    simp only [redistributeRecord, List.forall_mem_cons]
    have source (name : String) : (Field.maybe name redistributeCodec).Faithful 2 :=
      Field.faithful_maybe name faithful_redistribute fun x => by cases x <;> exact nofun
    exact ⟨source _, source _, source _, source _, source _, source _, source _, source _,
      source _, source _, nofun⟩
  different := by decide
  parts_build _ := rfl

theorem faithful_accept : acceptRecord.Faithful 0 where
  fields := List.forall_mem_singleton.mpr (Field.faithful_maybe _ Codec.faithful_bool nofun)
  different := by decide
  parts_build _ := rfl

theorem faithful_allow : allowRecord.Faithful 1 where
  fields := by
    simp only [allowRecord, List.forall_mem_cons]
    exact ⟨Field.faithful_orElse _ Codec.faithful_u32.list ⟨0, .list [] .closed, rfl⟩,
      faithful_texts _, faithful_texts _, nofun⟩
  different := by decide
  parts_build _ := rfl

theorem faithful_direction : directionCodec.Faithful 0 :=
  Codec.faithful_variant fun d => by cases d <;> rfl

theorem faithful_role : roleCodec.Faithful 0 :=
  Codec.faithful_variant fun r => by cases r <;> rfl

theorem faithful_match : matchRecord.Faithful 2 where
  fields := by
    simp only [matchRecord, List.forall_mem_cons]
    have texts (name : String) : (Field.maybe name (choiceCodec .string)).Faithful 2 := by
      refine Field.faithful_maybe name (Codec.faithful_string.choice ?_) ?_
      · intro s depth
        simp only [Codec.string, Codec.parsed, Value.survey, read_ofText, ok_bind]
        rfl
      · intro x
        cases x <;> exact Value.noConfusion
    refine ⟨Field.faithful_maybe _ (Codec.faithful_u32.choice ?_) ?_, texts _, texts _, texts _,
      texts _, List.forall_mem_nil _⟩
    · intro n depth
      have small : n.toNat < Nat.pow 2 64 := Nat.lt_trans n.toNat_lt (by decide)
      simp only [Codec.u32, Value.survey, read_ofNat small, ok_bind]
      rfl
    · intro x
      cases x <;> exact Value.noConfusion
  different := by decide
  parts_build _ := rfl

theorem faithful_edit : editRecord.Faithful 1 where
  fields := by
    simp only [editRecord, List.forall_mem_cons]
    exact ⟨faithful_texts _, faithful_texts _, nofun⟩
  different := by decide
  parts_build _ := rfl

theorem faithful_update : updateRecord.Faithful 2 where
  fields := by
    simp only [updateRecord, List.forall_mem_cons]
    have edit (name : String) : (Field.maybe name editRecord.codec).Faithful 2 :=
      Field.faithful_maybe name faithful_edit.codec nofun
    exact ⟨edit _, edit _, edit _, Field.faithful_maybe _ Codec.faithful_u32 nofun, nofun⟩
  different := by decide
  parts_build _ := rfl

theorem faithful_action : actionCodec.Faithful 3 := by
  have update {u : Update} (h : actionCodec.Reads (.update u)) : updateRecord.codec.Reads u := by
    obtain ⟨depth, v, h⟩ := h
    cases v with
    | object members ending =>
      obtain ⟨_, hread, heq⟩ := map_eq_ok.mp h
      obtain rfl := Action.update.inj heq
      exact ⟨depth, .object members ending, hread⟩
    | text q =>
      obtain ⟨s, _, h⟩ := ok_of_bind h
      split at h <;> exact nomatch h
    | _ => exact nomatch h
  refine ⟨?_, ?_⟩
  · intro x hx
    cases x with
    | reject => exact .text "reject"
    | update u => exact faithful_update.printed (update hx)
  · intro x hx depth hd
    cases x with
    | reject =>
      show (do
        let s ← (Quoted.ofText "reject").read
        if s = "reject" then return Action.reject else throw _) = _
      rw [read_ofText]
      rfl
    | update u =>
      have back := faithful_update.back (update hx) hd
      show (updateRecord.ofMembers depth _ .closed).map Action.update = _
      rw [back]
      rfl

theorem faithful_rule : ruleRecord.Faithful 3 where
  fields := by
    simp only [ruleRecord, List.forall_mem_cons]
    exact ⟨Field.faithful_orElse _ (faithful_direction.mono (by decide))
        ⟨0, directionCodec.encode .inbound, Codec.decode_variant rfl 0⟩,
      Field.faithful_orElse _ faithful_match.codec ⟨0, .object [] .closed, rfl⟩,
      Field.faithful_needed _ faithful_action, nofun⟩
  different := by decide
  parts_build _ := rfl

theorem faithful_peer : peerRecord.Faithful 5 where
  fields := by
    simp only [peerRecord, List.forall_mem_cons]
    have number (name : String) : (Field.maybe name .u32).Faithful 5 :=
      Field.faithful_maybe name Codec.faithful_u32 nofun
    have flag (name : String) : (Field.orElse name .bool false).Faithful 5 :=
      Field.faithful_orElse name Codec.faithful_bool ⟨0, .bool false, rfl⟩
    have neighbor4 (name : String) : (Field.maybe name .address4).Faithful 5 :=
      Field.faithful_maybe name Codec.faithful_address4 nofun
    have neighbor6 (name : String) : (Field.maybe name .address6).Faithful 5 :=
      Field.faithful_maybe name Codec.faithful_address6 nofun
    have string : Codec.string.Faithful 4 := Codec.faithful_string
    have texts (name : String) : (Field.orElse name (.list .string) []).Faithful 5 :=
      Field.faithful_orElse name string.list ⟨0, .list [] .closed, rfl⟩
    exact ⟨Field.faithful_needed _ (faithful_role.mono (by decide)),
      Field.faithful_needed _ Codec.faithful_u32,
      Field.faithful_maybe _ Codec.faithful_string nofun,
      neighbor4 _, neighbor4 _, neighbor6 _, neighbor6 _,
      Field.faithful_orElse _ Codec.faithful_u32 ⟨0, _, Codec.decode_u32 0 0⟩,
      number _, number _, flag _,
      Field.faithful_orElse _ (faithful_redistributeSet.codec.mono (by decide))
        ⟨0, .object [] .closed, rfl⟩,
      Field.faithful_orElse _ (faithful_accept.codec.mono (by decide))
        ⟨0, .object [] .closed, rfl⟩,
      Field.faithful_orElse _ (faithful_allow.codec.mono (by decide))
        ⟨0, .object [] .closed, rfl⟩,
      texts _, texts _, flag _,
      Field.faithful_orElse _ faithful_rule.codec.list ⟨0, .list [] .closed, rfl⟩, nofun⟩
  different := by decide
  parts_build _ := rfl

theorem faithful_router : routerRecord.Faithful 7 where
  fields := by
    simp only [routerRecord, List.forall_mem_cons]
    have address (name : String) : (Field.maybe name .address4).Faithful 7 :=
      Field.faithful_maybe name Codec.faithful_address4 nofun
    have string : Codec.string.Faithful 6 := Codec.faithful_string
    exact ⟨Field.faithful_needed _ Codec.faithful_u32, address _, address _,
      Field.faithful_orElse _ (faithful_import.codec.mono (by decide))
        ⟨0, .object [] .closed, rfl⟩,
      Field.faithful_orElse _ string.list ⟨0, .list [] .closed, rfl⟩,
      Field.faithful_orElse _ faithful_peer.codec.textMap ⟨0, .object [] .closed, rfl⟩, nofun⟩
  different := by decide
  parts_build _ := rfl

end Peering.Settings

namespace Peering.Registry
open Document

theorem faithful_counts : countsRecord.Faithful 0 where
  fields := by
    simp only [countsRecord, List.forall_mem_cons]
    have number (name : String) : (Field.maybe name .u32).Faithful 0 :=
      Field.faithful_maybe name Codec.faithful_u32 nofun
    exact ⟨number _, number _, nofun⟩
  different := by decide
  parts_build _ := rfl

theorem faithful_object : objectRecord.Faithful 1 where
  fields := by
    simp only [objectRecord, List.forall_mem_cons]
    exact ⟨Settings.faithful_texts _, Settings.faithful_texts _,
      Field.faithful_orElse _ Codec.faithful_u32.list ⟨0, .list [] .closed, rfl⟩, nofun⟩
  different := by decide
  parts_build _ := rfl

theorem faithful_registry : record.Faithful 3 where
  fields := by
    simp only [record, List.forall_mem_cons]
    exact ⟨Field.faithful_orElse _ (faithful_counts.codec.numberMap.mono (by decide))
        ⟨0, .object [] .closed, rfl⟩,
      Field.faithful_orElse _ faithful_object.codec.textMap ⟨0, .object [] .closed, rfl⟩, nofun⟩
  different := by decide
  parts_build _ := rfl

end Peering.Registry

namespace Peering
open Document

theorem readDocument_text {α : Type} {c : Codec α} {height : Nat} (h : c.Faithful height)
    (hd : height ≤ deepest) {key : String} {bs : List Byte} {a : α}
    (ha : readDocument c key bs = .ok a) : readDocument c key (ascii (c.text a)) = .ok a :=
  readDocument_eq_ok.mpr (h.read_text hd (readDocument_eq_ok.mp ha))

/-- Settings and registries that are read from a document are written as a text that is read as just
the same; written again, that gives the same text. -/
theorem documents_roundtrip :
    (∀ bs s, readSettings bs = .ok s →
      readSettings (ascii (Settings.routerRecord.codec.text s)) = .ok s ∧
      (readSettings (ascii (Settings.routerRecord.codec.text s))).map
        Settings.routerRecord.codec.text = .ok (Settings.routerRecord.codec.text s)) ∧
    (∀ bs r, readRegistry bs = .ok r →
      readRegistry (ascii (Registry.codec.text r)) = .ok r ∧
      (readRegistry (ascii (Registry.codec.text r))).map Registry.codec.text =
        .ok (Registry.codec.text r)) := by
  constructor
  · intro bs s h
    have again := readDocument_text Settings.faithful_router.codec (by decide) h
    exact ⟨again, congrArg (Except.map _) again⟩
  · intro bs r h
    have again := readDocument_text Registry.faithful_registry.codec (by decide) h
    exact ⟨again, congrArg (Except.map _) again⟩

def transitDocument : List Byte := ascii
  ("\x7b\"asn\": 65000, \"router_id\": null, \"peers\": \x7b\"b\\u0061\": " ++
    "\x7b\"type\": \"transit\", \"neighbor6\": \"2001:DB8::0:1\", \"asn\": 1, " ++
    "\"redistribute\": \x7b\"bgp\": false, \"static\": \x7b\x7d\x7d, \"actions\": [" ++
    "\x7b\"matches\": \x7b\"prefix\": \x7b\"not\": []\x7d\x7d, " ++
    "\"action\": \x7b\"prepend\": 2\x7d\x7d]\x7d\x7d\x7d")

def transitSettings : Settings.Router where
  asn := 65000
  routerId := none
  clusterId := none
  fromMaster := .off
  originate := []
  peers := [("ba",
    { role := .transit, asn := 1, description := none, neighbor4 := none, source4 := none
      neighbor6 := some 0x20010db8000000000000000000000001#128, source6 := none, cost := 0
      limit4 := none, limit6 := none, passive := false
      redistribute := { Settings.RedistributeSet.unset with
        bgp := some (.flag false), static := some (.tagged []) }
      accept := ⟨none⟩, allow := .nothing, incoming := [], outgoing := [], quarantine := false
      rules := [{ direction := .inbound
                  condition := { Settings.Match.everything with net := some (.outside []) }
                  action := .update ⟨none, none, none, some 2⟩ }] })]

def countsDocument : List Byte := ascii
  "\x7b\"peeringdb\": \x7b\"13335\": \x7b\"name\": \"x\"\x7d\x7d\x7d"

def countsRegistry : Registry := ⟨[(13335, .unknown)], []⟩

theorem documents_roundtrip_transit :
    readSettings (ascii (Settings.routerRecord.codec.text transitSettings)) = .ok transitSettings ∧
      readRegistry (ascii (Registry.codec.text countsRegistry)) = .ok countsRegistry :=
  ⟨(documents_roundtrip.1 transitDocument transitSettings (by decide +kernel)).1,
    (documents_roundtrip.2 countsDocument countsRegistry (by decide +kernel)).1⟩

end Peering
