import Peering.Proofs.Shapes

/-! Keys of settings that no structure declares, and where they are refused. -/
namespace Peering.Settings
open Document
open Shape (ofRecord)

def importShape : Shape := ofRecord importRecord [.plain, .plain, .plain]

def taggedShape : Shape := ofRecord taggedRecord [.list .plain]

def redistributeShape : Shape := ofRecord redistributeRecord (List.replicate 10 taggedShape)

def acceptShape : Shape := ofRecord acceptRecord [.plain]

def allowShape : Shape := ofRecord allowRecord [.list .plain, .list .plain, .list .plain]

def matchShape : Shape := ofRecord matchRecord (List.replicate 5 .choice)

def editShape : Shape := ofRecord editRecord [.list .plain, .list .plain]

def updateShape : Shape := ofRecord updateRecord [editShape, editShape, editShape, .plain]

def ruleShape : Shape := ofRecord ruleRecord [.word, matchShape, updateShape]

def peerShape : Shape := ofRecord peerRecord
  [.word, .plain, .plain, .plain, .plain, .plain, .plain, .plain, .plain, .plain, .plain,
    redistributeShape, acceptShape, allowShape, .list .plain, .list .plain, .plain,
    .list ruleShape]

/-- Every place of the settings, with the fields of each record. -/
def routerShape : Shape := ofRecord routerRecord
  [.plain, .plain, .plain, importShape, .list .plain, .map peerShape]

theorem shaped_texts : (Codec.list .string).Shaped (.list .plain) := Codec.shaped_parsed.list

theorem shaped_import : importRecord.codec.Shaped importShape :=
  Record.shaped rfl (.cons Codec.shaped_bool (.cons Codec.shaped_bool
    (.cons Codec.shaped_bool .nil)))

theorem shaped_redistribute : redistributeCodec.Shaped taggedShape :=
  shaped_of_ofMembers rfl (.cons shaped_texts .nil) .tagged (fun _ _ _ => rfl) nofun

theorem shaped_redistributeSet : redistributeRecord.codec.Shaped redistributeShape := by
  have source := shaped_redistribute.option
  exact Record.shaped rfl (.cons source (.cons source (.cons source (.cons source (.cons source
    (.cons source (.cons source (.cons source (.cons source (.cons source .nil))))))))))

theorem shaped_accept : acceptRecord.codec.Shaped acceptShape :=
  Record.shaped rfl (.cons Codec.shaped_bool.option .nil)

theorem shaped_allow : allowRecord.codec.Shaped allowShape :=
  Record.shaped rfl (.cons Codec.shaped_u32.list (.cons shaped_texts (.cons shaped_texts .nil)))

theorem shaped_match : matchRecord.codec.Shaped matchShape := by
  have texts : (choiceCodec .string).option.Shaped .choice := Codec.shaped_parsed.choice.option
  exact Record.shaped rfl (.cons Codec.shaped_u32.choice.option (.cons texts (.cons texts
    (.cons texts (.cons texts .nil)))))

theorem shaped_edit : editRecord.codec.Shaped editShape :=
  Record.shaped rfl (.cons shaped_texts (.cons shaped_texts .nil))

theorem shaped_action : actionCodec.Shaped updateShape := by
  have edit := shaped_edit.option
  exact shaped_of_ofMembers rfl (.cons edit (.cons edit (.cons edit
    (.cons Codec.shaped_u32.option .nil)))) .update (fun _ _ _ => rfl) nofun

theorem shaped_rule : ruleRecord.codec.Shaped ruleShape :=
  Record.shaped rfl (.cons Codec.shaped_variant (.cons shaped_match (.cons shaped_action .nil)))

theorem shaped_peer : peerRecord.codec.Shaped peerShape := by
  have number := (Codec.shaped_u32 (s := .plain)).option
  have flag := Codec.shaped_bool (s := .plain)
  have address4 : Codec.address4.option.Shaped .plain := Codec.shaped_parsed.option
  have address6 : Codec.address6.option.Shaped .plain := Codec.shaped_parsed.option
  exact Record.shaped rfl (.cons Codec.shaped_variant (.cons Codec.shaped_u32
    (.cons Codec.shaped_parsed.option (.cons address4 (.cons address4 (.cons address6
    (.cons address6 (.cons Codec.shaped_u32 (.cons number (.cons number (.cons flag
    (.cons shaped_redistributeSet (.cons shaped_accept (.cons shaped_allow (.cons shaped_texts
    (.cons shaped_texts (.cons flag (.cons shaped_rule.list .nil))))))))))))))))))

theorem shaped_router : routerRecord.codec.Shaped routerShape := by
  have address : Codec.address4.option.Shaped .plain := Codec.shaped_parsed.option
  exact Record.shaped rfl (.cons Codec.shaped_u32 (.cons address (.cons address
    (.cons shaped_import (.cons shaped_texts (.cons shaped_peer.textMap .nil))))))

end Peering.Settings

namespace Peering
open Document
open Settings (routerShape routerRecord)

/-- Of the keys of accepted settings, those that no field declares all stand beside the `not` of a
choice, and the settings are the same without them. -/
theorem undeclared_keys_beside_not {bs : List Byte} {s : Settings.Router}
    (h : readSettings bs = .ok s) :
    (∀ k ∈ (Document.read bs).1.undeclared routerShape, k.1 = .choice) ∧
      ((Document.read bs).1.declared routerShape).undeclared routerShape = [] ∧
      routerRecord.codec.decode 0 ((Document.read bs).1.declared routerShape) = .ok s := by
  have hv := (read_eq_ok.mp (readDocument_eq_ok.mp h)).1
  exact ⟨Settings.shaped_router.keys hv, Value.undeclared_declared _ _,
    Settings.shaped_router.declared hv⟩

def strayKeyDocument : List Byte := ascii
  ("\x7b\"asn\": 65000, \"peers\": \x7b\"p1\": \x7b\"type\": \"peer\", \"asn\": 64496, " ++
    "\"neighbor4\": \"192.0.2.10\", \"actions\": [\x7b\"matches\": " ++
    "\x7b\"origin_asn\": \x7b\"not\": [64496], \"bogus\": 1\x7d\x7d, " ++
    "\"action\": \"reject\"\x7d]\x7d\x7d\x7d")

def strayKeySettings : Settings.Router where
  asn := 65000
  routerId := none
  clusterId := none
  fromMaster := .off
  originate := []
  peers := [("p1",
    { role := .peer, asn := 64496, description := none, neighbor4 := some 0xc000020a#32
      source4 := none, neighbor6 := none, source6 := none, cost := 0, limit4 := none, limit6 := none
      passive := false, redistribute := .unset, accept := ⟨none⟩, allow := .nothing, incoming := []
      outgoing := [], quarantine := false
      rules := [{ direction := .inbound
                  condition :=
                    { Settings.Match.everything with originAsn := some (.outside [64496]) }
                  action := .reject }] })]

theorem undeclared_keys_beside_not_stray :
    readSettings strayKeyDocument = .ok strayKeySettings ∧
      ((Document.read strayKeyDocument).1.undeclared routerShape).map Prod.snd =
        [⟨ascii "bogus", true⟩] ∧
      (∀ k ∈ (Document.read strayKeyDocument).1.undeclared routerShape, k.1 = .choice) ∧
      routerRecord.codec.decode 0 ((Document.read strayKeyDocument).1.declared routerShape) =
        .ok strayKeySettings := by
  have accepted : readSettings strayKeyDocument = .ok strayKeySettings := by decide +kernel
  obtain ⟨stray, _, same⟩ := undeclared_keys_beside_not accepted
  exact ⟨accepted, by decide +kernel, stray, same⟩

end Peering
