import Peering.Proofs.Judgement
import Peering.Proofs.Resolution
import Peering.Tagger

/-!
Tags and the large communities that hold them. Every tag is written as one, and read back if its
value is one that its kind knows; the patterns of an ASN sort the communities under it by their
functions.
-/
namespace Peering

theorem find?_code_eq_some {α : Type} {all : List α} {code : α → UInt32} (mem : ∀ a, a ∈ all)
    (inj : ∀ {a b}, code a = code b → a = b) {n : UInt32} {a : α} :
    (all.find? fun b => code b == n) = some a ↔ code a = n := by
  constructor
  · intro h
    simpa using List.find?_some h
  · rintro rfl
    have found : (all.find? fun b => code b == code a).isSome = true :=
      List.find?_isSome.mpr ⟨a, mem a, beq_self_eq_true _⟩
    obtain ⟨b, hb⟩ := Option.isSome_iff_exists.mp found
    have same : code b = code a := by simpa using List.find?_some hb
    rw [hb, inj same]

theorem TagKind.ofCode?_eq_some {n : UInt32} {k : TagKind} : ofCode? n = some k ↔ k.code = n :=
  find?_code_eq_some mem_all code_inj

theorem Relation.ofCode?_eq_some {n : UInt32} {r : Relation} : ofCode? n = some r ↔ r.code = n :=
  find?_code_eq_some (by intro r; cases r <;> decide) code_inj

theorem Reason.ofCode?_eq_some {n : UInt32} {r : Reason} : ofCode? n = some r ↔ r.code = n :=
  find?_code_eq_some (by intro r; cases r <;> decide) code_inj

namespace Tag

/-- The value is the code of a relation or of a reason, where the kind asks for one. -/
structure Known (t : Tag) : Prop where
  relation : t.kind = .relation → ∃ r : Relation, r.code = t.value
  reason : t.kind = .filtered → ∃ r : Reason, r.code = t.value

theorem valueOk_iff (t : Tag) : valueOk t.kind t.value = true ↔ t.Known := by
  obtain ⟨a, k, v⟩ := t
  cases k with
  | relation =>
    rw [valueOk, Option.isSome_iff_exists]
    simp only [Relation.ofCode?_eq_some]
    exact ⟨fun h => ⟨fun _ => h, nofun⟩, fun h => h.relation rfl⟩
  | filtered =>
    rw [valueOk, Option.isSome_iff_exists]
    simp only [Reason.ofCode?_eq_some]
    exact ⟨fun h => ⟨nofun, fun _ => h⟩, fun h => h.reason rfl⟩
  | _ => exact ⟨fun _ => ⟨nofun, nofun⟩, fun _ => rfl⟩

instance (t : Tag) : Decidable t.Known := decidable_of_iff _ t.valueOk_iff

theorem decode_encode (t : Tag) :
    decode t.encode = if t.Known then .ok t else .error (.value t.kind t.value) := by
  rw [decode, encode, TagKind.ofCode?_code]
  simp only [valueOk_iff]

theorem decode_eq_ok_iff {c : LargeCommunity} {t : Tag} :
    decode c = .ok t ↔ t.encode = c ∧ t.Known := by
  constructor
  · intro h
    have written : t.encode = c := by
      rw [decode] at h
      split at h
      · exact nomatch h
      · rename_i k hk
        split at h
        · obtain rfl := Except.ok.inj h
          rw [encode, TagKind.ofCode?_eq_some.mp hk]
        · exact nomatch h
    rw [← written, decode_encode] at h
    refine ⟨written, ?_⟩
    split at h
    · assumption
    · exact nomatch h
  · rintro ⟨rfl, known⟩
    rw [decode_encode, if_pos known]

end Tag

namespace LargePattern
variable {own f v : UInt32}

theorem admits_own (function value : Part) (c : LargeCommunity) :
    (⟨own, function, value⟩ : LargePattern).admits c = true ↔
      c.admin = own ∧ function.admits c.function = true ∧ value.admits c.value = true := by
  simp only [admits, Bool.and_eq_true, beq_iff_eq, and_assoc]
  rw [@eq_comm _ own]

end LargePattern

/-- The two patterns of internal communities leave out the actions, and no function is in both. -/
theorem countP_internal (own f v : UInt32) :
    [(⟨own, .between 0 60, .any⟩ : LargePattern), ⟨own, .between 71 4294967295, .any⟩].countP
      (·.admits ⟨own, f, v⟩) = if 61 ≤ f ∧ f ≤ 70 then 0 else 1 := by
  have top := f.toNat_lt
  simp only [List.countP_cons, List.countP_nil, LargePattern.admits_own, Part.admits,
    Bool.and_eq_true, decide_eq_true_eq, UInt32.le_iff_toNat_le, true_and, and_true,
    UInt32.reduceToNat]
  by_cases action : 61 ≤ f.toNat ∧ f.toNat ≤ 70
  · rw [if_pos action, if_neg (by omega), if_neg (by omega)]
  · rw [if_neg action]
    by_cases low : f.toNat ≤ 60
    · rw [if_neg (by omega), if_pos ⟨by omega, low⟩]
    · rw [if_pos (by omega), if_neg (by omega)]

/-- Tags and patterns of tags under an ASN. Writing a tag and reading it back gives the tag, unless
its value is a code that no relation or reason has; what can be read is written just so. Each
community under the ASN has either a function that is an action or one of the two patterns of
internal ones that admits it, a kind of tags admits those with its code, and no pattern admits what
is under another ASN. -/
theorem tags_told_by_codes (own : UInt32) :
    (∀ k v, (Tagger.mk (some own)).tag k v = .ok (Tag.encode ⟨own, k, v⟩)) ∧
      (∀ t : Tag, Tagger.decode t.encode =
        if t.Known then .ok t else .error (.community t.encode (.value t.kind t.value))) ∧
      (∀ c, (∃ t, Tagger.decode c = .ok t) ↔
        ∃ k, k.code = c.function ∧ Tag.Known ⟨c.admin, k, c.value⟩) ∧
      (∀ c t, Tagger.decode c = .ok t → t.encode = c) ∧
      (∃ ps, (Tagger.mk (some own)).internalPatterns = .ok ps ∧
        (∀ f v, ps.countP (·.admits ⟨own, f, v⟩) = if 61 ≤ f ∧ f ≤ 70 then 0 else 1) ∧
        ∀ p ∈ ps, ∀ c, p.admits c = true → c.admin = own) ∧
      (∀ k, ∃ p, (Tagger.mk (some own)).kindPattern k .any = .ok p ∧
        ∀ f v, p.admits ⟨own, f, v⟩ = true ↔ f = k.code) ∧
      ∀ function value p, (Tagger.mk (some own)).pattern function value = .ok p →
        ∀ c, p.admits c = true → c.admin = own := by
  have decoded {c : LargeCommunity} {t : Tag} :
      Tagger.decode c = .ok t ↔ t.encode = c ∧ t.Known := by
    rw [Tagger.decode, mapError_eq_ok, Tag.decode_eq_ok_iff]
  refine ⟨fun _ _ => rfl, fun t => ?_, fun c => ?_, fun c t h => (decoded.mp h).1, ?_, ?_, ?_⟩
  · rw [Tagger.decode, Tag.decode_encode]
    split <;> rfl
  · simp only [decoded]
    constructor
    · rintro ⟨t, rfl, known⟩
      exact ⟨t.kind, rfl, known⟩
    · rintro ⟨k, hk, known⟩
      exact ⟨⟨c.admin, k, c.value⟩, by rw [Tag.encode, hk], known⟩
  · refine ⟨_, rfl, countP_internal own, fun p hp c hc => ?_⟩
    obtain rfl | rfl := List.mem_pair.mp hp
    · exact ((LargePattern.admits_own _ _ _).mp hc).1
    · exact ((LargePattern.admits_own _ _ _).mp hc).1
  · intro k
    refine ⟨_, rfl, fun f v => ?_⟩
    simp only [LargePattern.admits_own, Part.admits, beq_iff_eq, true_and, and_true]
    exact eq_comm
  · intro function value p hp c hc
    obtain rfl := Except.ok.inj hp
    exact ((LargePattern.admits_own _ _ _).mp hc).1

/-- The last reason and the relation after the last one, and what lies between the internal
functions. -/
theorem tags_told_by_codes_bounds :
    let reason : Tag := ⟨65001, .filtered, 18⟩
    let relation : Tag := ⟨65001, .relation, 6⟩
    let p : LargePattern := ⟨65000, .exactly 1101, .any⟩
    Tagger.decode reason.encode = .ok reason ∧
      Tagger.decode relation.encode = .error (.community relation.encode (.value .relation 6)) ∧
      (∃ t, Tagger.decode ⟨65001, 1101, 18⟩ = .ok t) ∧
      reason.encode = ⟨65001, 1101, 18⟩ ∧
      (Tagger.mk (some 65000)).kindPattern .filtered .any = .ok p ∧
      p.admits ⟨65000, 1101, 18⟩ = true ∧ p.admits ⟨65001, 1101, 18⟩ = false := by
  intro reason relation p
  obtain ⟨_, read, readable, back, _, _, foreign⟩ := tags_told_by_codes 65000
  have hreason : Tagger.decode ⟨65001, 1101, 18⟩ = .ok reason := by decide
  have hp : (Tagger.mk (some 65000)).pattern (.exactly 1101) .any = .ok p := rfl
  have outside : p.admits ⟨65001, 1101, 18⟩ = false := by
    rw [← Bool.not_eq_true]
    exact fun h => absurd (foreign _ _ p hp _ h) (by decide)
  refine ⟨(read reason).trans (if_pos (by decide)), (read relation).trans (if_neg (by decide)),
    (readable _).mpr ⟨.filtered, rfl, by decide⟩, back _ _ hreason, hp, by decide, outside⟩

end Peering
