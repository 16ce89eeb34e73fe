import Peering.Proofs.Keys
import Peering.Proofs.Reordered

/-!
Codecs for which the order of members does not matter: leaves, lists, maps and records of such
codecs.
-/
namespace Peering.Document
open Codec (insertEntry)
open Value (Reordered)

/-- What a codec takes out of one value it takes out of each related one. -/
structure Codec.Stable {α : Type} (c : Codec α) (R : Value → Value → Prop) : Prop where
  decode : ∀ {depth v w a}, R v w → c.decode depth v = .ok a → c.decode depth w = .ok a

section Folds
variable {ε α β : Type} {step : β → α → Except ε β}

theorem foldlM_perm {D : α → α → Prop} (symm : ∀ {x y}, D x y → D y x)
    (swap : ∀ {x y}, D x y → ∀ {b b' c}, step b x = .ok b' → step b' y = .ok c →
      ∃ d, step b y = .ok d ∧ step d x = .ok c)
    {xs ys : List α} (perm : xs.Perm ys) (pairwise : xs.Pairwise D) {b c : β}
    (h : xs.foldlM step b = .ok c) : ys.foldlM step b = .ok c := by
  induction perm generalizing b with
  | nil => exact h
  | cons x _ ih =>
    rw [List.foldlM_cons] at h ⊢
    obtain ⟨b', hb, h⟩ := bind_eq_ok.mp h
    exact bind_eq_ok.mpr ⟨b', hb, ih (List.pairwise_cons.mp pairwise).2 h⟩
  | swap x y xs =>
    simp only [List.foldlM_cons] at h ⊢
    obtain ⟨b', hy, h⟩ := bind_eq_ok.mp h
    obtain ⟨b'', hx, h⟩ := bind_eq_ok.mp h
    have apart := (List.pairwise_cons.mp pairwise).1 x List.mem_cons_self
    obtain ⟨d, hd, hc⟩ := swap apart hy hx
    exact bind_eq_ok.mpr ⟨d, hd, bind_eq_ok.mpr ⟨b'', hc, h⟩⟩
  | trans first _ ih₁ ih₂ => exact ih₂ ((first.pairwise_iff symm).mp pairwise) (ih₁ pairwise h)

theorem foldlM_forall₂ {R : α → α → Prop}
    (same : ∀ {x y}, R x y → ∀ {b c}, step b x = .ok c → step b y = .ok c) {xs ys : List α}
    (related : List.Forall₂ R xs ys) {b c : β} (h : xs.foldlM step b = .ok c) :
    ys.foldlM step b = .ok c := by
  induction related generalizing b with
  | nil => exact h
  | cons hxy _ ih =>
    rw [List.foldlM_cons] at h ⊢
    obtain ⟨b', hb, h⟩ := bind_eq_ok.mp h
    exact bind_eq_ok.mpr ⟨b', same hxy hb, ih h⟩

end Folds

namespace Codec
variable {α : Type} {c : Codec α}

theorem stable_bool : bool.Stable Reordered where
  decode {_ v w b} h hv := by
    obtain rfl := decode_bool_iff.mp hv
    obtain rfl := h.same.bool_left
    rfl

theorem stable_u32 : u32.Stable Reordered where
  decode {_ v w n} h hv := by
    obtain ⟨m, i, rfl, hm, found⟩ := decode_u32_iff.mp hv
    obtain ⟨m', rfl, same⟩ := h.same.number_left
    exact decode_u32_iff.mpr ⟨m', i, rfl, same.read hm, found⟩

theorem stable_parsed {wanted : String} {parse : String → Except Problem α} {print : α → String} :
    (parsed wanted parse print).Stable Reordered where
  decode {_ v w a} h hv := by
    obtain ⟨q, s, rfl, hq, ha⟩ := decode_parsed_iff.mp hv
    obtain ⟨r, rfl, same⟩ := h.same.text_left
    exact decode_parsed_iff.mpr ⟨r, s, rfl, same.read hq, ha⟩

theorem Stable.option (hc : c.Stable Reordered) : c.option.Stable Reordered where
  decode {_ v w x} h hv := by
    obtain ⟨rfl, rfl⟩ | ⟨hnull, a, ha, rfl⟩ := decode_option_iff.mp hv
    · obtain rfl := h.same.null_left
      rfl
    · refine decode_option_iff.mpr (.inr ⟨?_, a, hc.decode h ha, rfl⟩)
      rintro rfl
      exact hnull h.same.symm.null_left

theorem Stable.list (hc : c.Stable Reordered) : c.list.Stable Reordered where
  decode {_ v w as} h hv := by
    obtain ⟨vs, rfl, hvs⟩ := decode_list_iff.mp hv
    obtain ⟨_, ws, rfl, items⟩ := h.list_left
    refine decode_list_iff.mpr ⟨ws, rfl, ?_⟩
    clear hv h
    induction items generalizing as with
    | nil => exact hvs
    | cons hvw _ ih =>
      rw [List.mapM_cons] at hvs ⊢
      obtain ⟨a, ha, hvs⟩ := bind_eq_ok.mp hvs
      obtain ⟨bs, hbs, hvs⟩ := bind_eq_ok.mp hvs
      exact bind_eq_ok.mpr ⟨a, hc.decode hvw ha, bind_eq_ok.mpr ⟨bs, ih hbs, hvs⟩⟩

theorem stable_variant {known : List (String × α)} {name : α → String} :
    (variant known name).Stable Reordered where
  decode {_ v w a} h hv := by
    obtain ⟨q, s, hs, ha, rfl | rfl⟩ := decode_variant_iff.mp hv
    · obtain ⟨r, rfl, same⟩ := h.same.text_left
      exact decode_variant_iff.mpr ⟨r, s, same.read hs, ha, .inl rfl⟩
    · obtain ⟨_, os, ns, rfl, perm, members, _⟩ := h.object_left
      obtain ⟨n, _, ⟨same, value⟩, others, rfl⟩ := List.forall₂_cons_left_iff.mp members
      obtain rfl := List.forall₂_nil_left_iff.mp others
      obtain ⟨r, v⟩ := n
      obtain rfl := value.same.null_left
      obtain rfl := List.singleton_perm.mp perm
      exact decode_variant_iff.mpr ⟨r, s, same.read hs, ha, .inr rfl⟩

section Maps
variable {κ : Type} [DecidableEq κ] {before : κ → κ → Bool} {readKey : Quoted → Except Problem κ}
  {writeKey : κ → String}

theorem insertEntry_comm (order : KeyOrder before) {k l : κ} (hkl : before k l = true) (a b : α)
    (es : List (κ × α)) : insertEntry before l b (insertEntry before k a es) =
      insertEntry before k a (insertEntry before l b es) := by
  obtain ⟨hne, hnot⟩ := order.asymm hkl
  induction es with
  | nil => simp [insertEntry, hne, Ne.symm hne, hkl, hnot]
  | cons e es ih =>
    obtain ⟨x, d⟩ := e
    by_cases hkx : k = x
    · subst hkx
      simp [insertEntry, Ne.symm hne, hnot]
    · by_cases hk : before k x = true
      · by_cases hlx : l = x
        · subst hlx
          simp [insertEntry, hne, Ne.symm hne, hkl, hnot]
        · by_cases hl : before l x = true <;>
            simp [insertEntry, hne, Ne.symm hne, hkl, hnot, hkx, hk, hlx, hl]
      · have hxk : before x k = true := order.total hkx (Bool.not_eq_true _ ▸ hk)
        obtain ⟨hxl, hlx⟩ := order.asymm (order.trans hxk hkl)
        simp [insertEntry, hkx, hk, Ne.symm hxl, hlx, ih]

def OtherEntry (readKey : Quoted → Except Problem κ) (m n : Quoted × Value) : Prop :=
  ∀ k, readKey m.1 = .ok k → readKey n.1 ≠ .ok k

theorem putEntry_comm (order : KeyOrder before) {depth : Nat} {m n : Quoted × Value}
    (apart : OtherEntry readKey m n) {es es' fs : List (κ × α)}
    (first : putEntry readKey before c depth es m = .ok es')
    (second : putEntry readKey before c depth es' n = .ok fs) :
    ∃ ds, putEntry readKey before c depth es n = .ok ds ∧
      putEntry readKey before c depth ds m = .ok fs := by
  obtain ⟨k, hk, a, ha, rfl⟩ := putEntry_eq_ok.mp first
  obtain ⟨l, hl, b, hb, rfl⟩ := putEntry_eq_ok.mp second
  have hne : k ≠ l := by
    rintro rfl
    exact apart k hk hl
  refine ⟨_, putEntry_eq_ok.mpr ⟨l, hl, b, hb, rfl⟩, putEntry_eq_ok.mpr ⟨k, hk, a, ha, ?_⟩⟩
  by_cases hkl : before k l = true
  · exact (insertEntry_comm order hkl a b es).symm
  · exact insertEntry_comm order (order.total hne (Bool.not_eq_true _ ▸ hkl)) b a es

/-- The order of the members of a map does not matter, as long as no two of them go to one entry. -/
theorem stable_entries (order : KeyOrder before) (hc : c.Stable Reordered) {depth : Nat}
    {ms os ns : List (Quoted × Value)} {es : List (κ × α)} (perm : os.Perm ns)
    (members : List.Forall₂ (fun m n => (∀ k, readKey m.1 = .ok k → readKey n.1 = .ok k) ∧
      m.2.Reordered n.2) ms os)
    (apart : os.Pairwise (OtherEntry readKey))
    (h : ms.foldlM (putEntry readKey before c depth) [] = .ok es) :
    ns.foldlM (putEntry readKey before c depth) [] = .ok es := by
  have same : os.foldlM (putEntry readKey before c depth) [] = .ok es := by
    refine foldlM_forall₂ (fun hmn es fs hput => ?_) members h
    obtain ⟨k, hk, a, ha, hfs⟩ := putEntry_eq_ok.mp hput
    exact putEntry_eq_ok.mpr ⟨k, hmn.1 k hk, a, hc.decode hmn.2 ha, hfs⟩
  exact foldlM_perm (D := OtherEntry readKey) (fun h k hm hn => h k hn hm)
    (fun apart _ _ _ => putEntry_comm order apart) perm apart same

theorem Stable.textMap (hc : c.Stable Reordered) : c.textMap.Stable Reordered where
  decode {_ v w es} h hv := by
    obtain ⟨ms, rfl, hms⟩ := decode_map_iff.mp hv
    obtain ⟨_, os, ns, rfl, perm, members, apart⟩ := h.object_left
    refine decode_map_iff.mpr ⟨ns, rfl, stable_entries stringOrder hc perm ?_ ?_ hms⟩
    · exact members.imp fun m n same => ⟨fun k => same.1.read, same.2⟩
    · exact apart.imp fun h k hm hn => h (.of_read hm hn)

end Maps

open Settings (Choice choiceCodec)

theorem Stable.choice (hc : c.Stable Reordered) : (choiceCodec c).Stable Reordered where
  decode {depth v w x} h hv := by
    obtain ⟨survey, found⟩ := decode_choice_iff.mp hv
    refine decode_choice_iff.mpr ⟨h.same.survey survey, ?_⟩
    obtain ⟨vs, hvs, rfl⟩ | ⟨ms, ending, k, u, vs, rfl, hnot, hvs, rfl⟩ := found
    · exact .inl ⟨vs, hc.list.decode h hvs, rfl⟩
    · obtain ⟨rfl, os, ns, rfl, perm, members, _⟩ := h.object_left
      have chosen : List.Forall₂ (fun m n => m.1.Same n.1 ∧ m.2.Reordered n.2) (ms.filter isNot)
          (os.filter isNot) :=
        List.rel_filter (fun m n same =>
          isNot_iff.trans (Iff.trans ⟨same.1.read, same.1.symm.read⟩ isNot_iff.symm)) members
      rw [hnot] at chosen
      obtain ⟨⟨l, t⟩, _, ⟨_, value⟩, others, heq⟩ := List.forall₂_cons_left_iff.mp chosen
      obtain rfl := List.forall₂_nil_left_iff.mp others
      have only := perm.filter isNot
      rw [heq] at only
      exact .inr ⟨ns, .closed, l, t, vs, rfl, List.singleton_perm.mp only ▸ rfl,
        hc.list.decode value hvs, rfl⟩

end Codec

namespace Slots
variable {fs : List Field} {lenient : Bool} {depth : Nat}

theorem put_eq_none_iff {key : String} {v : Value} {slots : Slots fs} :
    put depth key v slots = none ↔ key ∉ fs.map Field.name := by
  induction fs with
  | nil => simp [put]
  | cons f fs ih =>
    obtain ⟨slot, slots⟩ := slots
    rw [put]
    by_cases hname : f.name = key
    · simp [hname]
    · simp [hname, Ne.symm hname, ih]

theorem put_comm {k l : String} (hne : k ≠ l) {v w : Value} {slots next filled : Slots fs}
    (first : put depth k v slots = some (.ok next))
    (second : put depth l w next = some (.ok filled)) :
    ∃ other, put depth l w slots = some (.ok other) ∧ put depth k v other = some (.ok filled) := by
  induction fs with
  | nil => exact nomatch first
  | cons f fs ih =>
    obtain ⟨slot, slots⟩ := slots
    obtain ⟨rfl, rfl, a, ha, rfl⟩ | ⟨hk, others, hothers, rfl⟩ := put_cons_iff.mp first
    · obtain ⟨hl, _⟩ | ⟨hl, others, hothers, rfl⟩ := put_cons_iff.mp second
      · exact absurd hl hne
      · exact ⟨(none, others), put_cons_iff.mpr (.inr ⟨hl, others, hothers, rfl⟩),
          put_cons_iff.mpr (.inl ⟨rfl, rfl, a, ha, rfl⟩)⟩
    · obtain ⟨rfl, rfl, b, hb, rfl⟩ | ⟨hl, more, hmore, rfl⟩ := put_cons_iff.mp second
      · exact ⟨(some b, slots), put_cons_iff.mpr (.inl ⟨rfl, rfl, b, hb, rfl⟩),
          put_cons_iff.mpr (.inr ⟨hk, others, hothers, rfl⟩)⟩
      · obtain ⟨other, hl', hk'⟩ := ih hothers hmore
        exact ⟨(slot, other), put_cons_iff.mpr (.inr ⟨hl, other, hl', rfl⟩),
          put_cons_iff.mpr (.inr ⟨hk, more, hk', rfl⟩)⟩

def take (lenient : Bool) (depth : Nat) (slots : Slots fs) (m : Quoted × Value) :
    Except Problem (Slots fs) :=
  fill lenient depth [m] slots

theorem take_eq_ok {slots next : Slots fs} {m : Quoted × Value} :
    take lenient depth slots m = .ok next ↔ ∃ key, m.1.read = .ok key ∧
      (put depth key m.2 slots = some (.ok next) ∨
        (put depth key m.2 slots = none ∧ lenient = true ∧ m.2.skip = .ok () ∧ slots = next)) := by
  unfold take
  rw [fill_cons_iff]
  simp [fill]

theorem fill_iff_foldlM {ms : List (Quoted × Value)} {slots filled : Slots fs} :
    fill lenient depth ms slots = .ok filled ↔
      ms.foldlM (take lenient depth) slots = .ok filled := by
  induction ms generalizing slots with
  | nil => exact Iff.rfl
  | cons m ms ih =>
    rw [List.foldlM_cons, bind_eq_ok, fill_cons_iff]
    simp only [take_eq_ok, ← ih]
    constructor
    · rintro ⟨key, hkey, ⟨next, hput, hfill⟩ | ⟨hput, hlenient, hskip, hfill⟩⟩
      · exact ⟨next, ⟨key, hkey, .inl hput⟩, hfill⟩
      · exact ⟨slots, ⟨key, hkey, .inr ⟨hput, hlenient, hskip, rfl⟩⟩, hfill⟩
    · rintro ⟨next, ⟨key, hkey, hput | ⟨hput, hlenient, hskip, rfl⟩⟩, hfill⟩
      · exact ⟨key, hkey, .inl ⟨next, hput, hfill⟩⟩
      · exact ⟨key, hkey, .inr ⟨hput, hlenient, hskip, hfill⟩⟩

theorem take_comm {m n : Quoted × Value} (apart : OtherKey m n) {slots next filled : Slots fs}
    (first : take lenient depth slots m = .ok next)
    (second : take lenient depth next n = .ok filled) :
    ∃ other, take lenient depth slots n = .ok other ∧ take lenient depth other m = .ok filled := by
  obtain ⟨k, hk, first⟩ := take_eq_ok.mp first
  obtain ⟨l, hl, second⟩ := take_eq_ok.mp second
  have hne : k ≠ l := by
    rintro rfl
    exact apart (.of_read hk hl)
  -- Whether a field has a key does not depend on what is in the slots.
  have unknown {key : String} {v : Value} {slots slots' : Slots fs}
      (h : put depth key v slots = none) : put depth key v slots' = none :=
    put_eq_none_iff.mpr (put_eq_none_iff.mp h)
  obtain hput | ⟨hput, hlenient, hskip, rfl⟩ := first
  · obtain hput' | ⟨hput', hlenient, hskip, rfl⟩ := second
    · obtain ⟨other, hl', hk'⟩ := put_comm hne hput hput'
      exact ⟨other, take_eq_ok.mpr ⟨l, hl, .inl hl'⟩, take_eq_ok.mpr ⟨k, hk, .inl hk'⟩⟩
    · exact ⟨slots, take_eq_ok.mpr ⟨l, hl, .inr ⟨unknown hput', hlenient, hskip, rfl⟩⟩,
        take_eq_ok.mpr ⟨k, hk, .inl hput⟩⟩
  · refine ⟨filled, take_eq_ok.mpr ⟨l, hl, second⟩,
      take_eq_ok.mpr ⟨k, hk, .inr ⟨unknown hput, hlenient, hskip, rfl⟩⟩⟩

def Alike (R : String → Value → Value → Prop) (m n : Quoted × Value) : Prop :=
  m.1.Same n.1 ∧ ∀ key, m.1.read = .ok key → R key m.2 n.2

theorem put_stable {R : String → Value → Value → Prop}
    (hc : ∀ f ∈ fs, f.codec.Stable (R f.name)) {key : String} {v w : Value} (h : R key v w)
    {slots next : Slots fs} (hput : put depth key v slots = some (.ok next)) :
    put depth key w slots = some (.ok next) := by
  induction fs with
  | nil => exact nomatch hput
  | cons f fs ih =>
    obtain ⟨hf, hfs⟩ := List.forall_mem_cons.mp hc
    obtain ⟨slot, slots⟩ := slots
    obtain ⟨rfl, empty, a, ha, hnext⟩ | ⟨hname, others, hothers, hnext⟩ := put_cons_iff.mp hput
    · exact put_cons_iff.mpr (.inl ⟨rfl, empty, a, hf.decode h ha, hnext⟩)
    · exact put_cons_iff.mpr (.inr ⟨hname, others, ih hfs hothers, hnext⟩)

theorem fill_stable {R : String → Value → Value → Prop}
    (hc : ∀ f ∈ fs, f.codec.Stable (R f.name))
    (hskip : ∀ {key v w}, R key v w → v.skip = .ok () → w.skip = .ok ())
    {ms os ns : List (Quoted × Value)} (perm : os.Perm ns)
    (members : List.Forall₂ (Alike R) ms os) (apart : os.Pairwise OtherKey)
    {slots filled : Slots fs} (h : fill lenient depth ms slots = .ok filled) :
    fill lenient depth ns slots = .ok filled := by
  rw [fill_iff_foldlM] at h ⊢
  have same : os.foldlM (take lenient depth) slots = .ok filled := by
    refine foldlM_forall₂ (fun hmn b c htake => ?_) members h
    obtain ⟨key, hkey, htake⟩ := take_eq_ok.mp htake
    refine take_eq_ok.mpr ⟨key, hmn.1.read hkey, ?_⟩
    obtain hput | ⟨hput, hlenient, skipped, rfl⟩ := htake
    · exact .inl (put_stable hc (hmn.2 key hkey) hput)
    · exact .inr ⟨put_eq_none_iff.mpr (put_eq_none_iff.mp hput), hlenient,
        hskip (hmn.2 key hkey) skipped, rfl⟩
  exact foldlM_perm (D := OtherKey) OtherKey.symm (fun apart _ _ _ => take_comm apart) perm apart
    same

end Slots

def RelatedItems (R : String → Value → Value → Prop) :
    List Field → List Value → List Value → Prop
  | _, [], [] => True
  | [], _ :: _, _ :: _ => True
  | f :: fs, v :: vs, w :: ws => R f.name v w ∧ RelatedItems R fs vs ws
  | _, _, _ => False

theorem relatedItems_of_forall₂ {R : String → Value → Value → Prop} {fs : List Field}
    (hR : ∀ f ∈ fs, ∀ v w, Reordered v w → R f.name v w) {vs ws : List Value}
    (items : List.Forall₂ Reordered vs ws) : RelatedItems R fs vs ws := by
  induction items generalizing fs with
  | nil => cases fs <;> trivial
  | cons hvw _ ih =>
    cases fs with
    | nil => trivial
    | cons f fs =>
      obtain ⟨hf, hfs⟩ := List.forall_mem_cons.mp hR
      exact ⟨hf _ _ hvw, ih hfs⟩

theorem Values.ofItems_stable {R : String → Value → Value → Prop} {fs : List Field}
    (hc : ∀ f ∈ fs, f.codec.Stable (R f.name)) {depth : Nat} {wrongLength : Nat → Problem}
    {ending : Ending} {taken : Nat} {vs ws : List Value} {as : Values fs}
    (related : RelatedItems R fs vs ws)
    (h : ofItems depth wrongLength ending fs taken vs = .ok (as, [])) :
    ofItems depth wrongLength ending fs taken ws = .ok (as, []) := by
  induction fs generalizing taken vs ws with
  | nil =>
    obtain ⟨_, rfl⟩ := Prod.mk.inj (Except.ok.inj h)
    cases ws with
    | nil => exact h
    | cons => exact related.elim
  | cons f fs ih =>
    obtain ⟨hf, hfs⟩ := List.forall_mem_cons.mp hc
    cases vs with
    | nil =>
      cases ws with
      | nil => exact h
      | cons => exact related.elim
    | cons v vs =>
      cases ws with
      | nil => exact related.elim
      | cons w ws =>
        rw [ofItems] at h ⊢
        obtain ⟨a, ha, h⟩ := bind_eq_ok.mp h
        obtain ⟨⟨others, left⟩, hothers, h⟩ := bind_eq_ok.mp h
        obtain ⟨rfl, rfl⟩ := Prod.mk.inj (Except.ok.inj h)
        exact bind_eq_ok.mpr ⟨a, hf.decode related.1 ha,
          bind_eq_ok.mpr ⟨(others, []), ih hfs related.2 hothers, rfl⟩⟩

inductive RelatedForms (R : String → Value → Value → Prop) (fs : List Field) :
    Value → Value → Prop
  | list {vs ws : List Value} (items : RelatedItems R fs vs ws) :
    RelatedForms R fs (.list vs .closed) (.list ws .closed)
  | object {ms os ns : List (Quoted × Value)} (perm : os.Perm ns)
    (members : List.Forall₂ (Slots.Alike R) ms os) (apart : os.Pairwise OtherKey) :
    RelatedForms R fs (.object ms .closed) (.object ns .closed)

namespace Record
variable {α : Type} {r : Record α} {R : String → Value → Value → Prop}

theorem ofMembers_stable (hc : ∀ f ∈ r.fields, f.codec.Stable (R f.name))
    (hskip : ∀ {key v w}, R key v w → v.skip = .ok () → w.skip = .ok ())
    {ms os ns : List (Quoted × Value)} (perm : os.Perm ns)
    (members : List.Forall₂ (Slots.Alike R) ms os) (apart : os.Pairwise OtherKey) {depth : Nat}
    {ending : Ending} {x : α} (h : r.ofMembers depth ms ending = .ok x) :
    r.ofMembers depth ns ending = .ok x := by
  obtain ⟨hending, slots, as, hslots, has, hx⟩ := ofMembers_iff.mp h
  exact ofMembers_iff.mpr ⟨hending, slots, as, Slots.fill_stable hc hskip perm members apart hslots,
    has, hx⟩

theorem stable_related (hc : ∀ f ∈ r.fields, f.codec.Stable (R f.name))
    (hskip : ∀ {key v w}, R key v w → v.skip = .ok () → w.skip = .ok ()) :
    r.codec.Stable (RelatedForms R r.fields) where
  decode {_ v w x} h hv := by
    cases h with
    | list items =>
      obtain ⟨hending, as, has, hx⟩ := ofItems_iff.mp hv
      exact ofItems_iff.mpr ⟨hending, as, Values.ofItems_stable hc items has, hx⟩
    | object perm members apart => exact ofMembers_stable hc hskip perm members apart hv

theorem stable (hc : ∀ f ∈ r.fields, f.codec.Stable Reordered) : r.codec.Stable Reordered where
  decode {_ v w x} h hv := by
    refine (stable_related (R := fun _ => Reordered) hc (fun h => h.same.skip)).decode ?_ hv
    cases v with
    | list vs ending =>
      obtain ⟨rfl, ws, rfl, items⟩ := h.list_left
      exact .list (relatedItems_of_forall₂ (fun _ _ _ _ h => h) items)
    | object ms ending =>
      obtain ⟨rfl, os, ns, rfl, perm, members, apart⟩ := h.object_left
      exact .object perm (members.imp fun m n same => ⟨same.1, fun _ _ => same.2⟩) apart
    | _ => exact nomatch hv

end Record
end Peering.Document
