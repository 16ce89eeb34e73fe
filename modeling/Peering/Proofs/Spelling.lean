import Peering.Proofs.Symbols

/-!
What the texts of a router configuration are put together from: keywords, literals and names.
Between any two names stands something that no name has in it, so the names in a text can be told
apart. Sets are the only thing with brackets, so an empty one can be told from the text as well.
-/
namespace Peering

section Words

def isWordChar (c : Char) : Bool := c.isAlphanum || c = '_'

/-- The words with an underscore in them, which all names have that filters and protocols refer
to. -/
def identifiersOf (cs : List Char) : List (List Char) :=
  (cs.splitOnP fun c => !isWordChar c).filter (·.contains '_')

def identifiers (s : String) : List String := (identifiersOf s.toList).map String.ofList

variable {c : Char} {cs ds : List Char} {s t : String}

theorem identifiersOf_break (hc : (!isWordChar c) = true) (cs ds : List Char) :
    identifiersOf (cs ++ c :: ds) = identifiersOf cs ++ identifiersOf ds := by
  rw [identifiersOf, List.splitOnP_append_cons cs ds hc, List.filter_append]
  rfl

theorem identifiersOf_nil : identifiersOf [] = [] := rfl

def opens (s : String) : Bool := s.toList.head?.any fun c => !isWordChar c && c ≠ ']'

def closes (s : String) : Bool := s.toList.getLast?.any fun c => !isWordChar c && c ≠ '['

theorem identifiers_append (h : closes s = true ∨ opens t = true) :
    identifiers (s ++ t) = identifiers s ++ identifiers t := by
  rw [identifiers, identifiers, identifiers, ← List.map_append, String.toList_append]
  congr 1
  obtain h | h := h
  · obtain ⟨c, hlast, hc⟩ := (Option.any_eq_true _ _).mp h
    have hc := (Bool.and_eq_true_iff.mp hc).1
    obtain ⟨cs, hs⟩ := List.getLast?_eq_some_iff.mp hlast
    have closed : identifiersOf (cs ++ [c]) = identifiersOf cs := by
      rw [identifiersOf_break hc, identifiersOf_nil, List.append_nil]
    rw [hs, closed, List.append_assoc, List.singleton_append, identifiersOf_break hc]
  · obtain ⟨c, hfirst, hc⟩ := (Option.any_eq_true _ _).mp h
    have hc := (Bool.and_eq_true_iff.mp hc).1
    obtain ⟨ds, ht⟩ := List.head?_eq_some_iff.mp hfirst
    have opened : identifiersOf (c :: ds) = identifiersOf ds := identifiersOf_break hc [] ds
    rw [ht, opened, identifiersOf_break hc]

theorem mem_of_mem_splitOnP {p : Char → Bool} {w : List Char} (hw : w ∈ cs.splitOnP p) :
    ∀ c ∈ w, c ∈ cs := by
  induction cs generalizing w with
  | nil =>
    rw [List.splitOnP_nil, List.mem_singleton] at hw
    simp [hw]
  | cons c cs ih =>
    rw [List.splitOnP_cons_eq_if_modifyHead] at hw
    split at hw
    · obtain rfl | hw := List.mem_cons.mp hw
      · exact List.forall_mem_nil _
      · exact fun d hd => List.mem_cons_of_mem _ (ih hw d hd)
    · obtain ⟨v, vs, hvs⟩ := List.exists_cons_of_ne_nil (List.splitOnP_ne_nil p cs)
      rw [hvs, List.modifyHead_cons] at hw
      obtain rfl | hw := List.mem_cons.mp hw
      · have hv := ih (hvs ▸ List.mem_cons_self)
        exact List.forall_mem_cons.mpr
          ⟨List.mem_cons_self, fun d hd => List.mem_cons_of_mem _ (hv d hd)⟩
      · exact fun d hd => List.mem_cons_of_mem _ (ih (hvs ▸ List.mem_cons_of_mem _ hw) d hd)

theorem mem_identifiers {w : String} (hw : w ∈ identifiers s) :
    w.toList ∈ s.toList.splitOnP (fun c => !isWordChar c) ∧ '_' ∈ w.toList := by
  obtain ⟨cs, hcs, rfl⟩ := List.mem_map.mp hw
  obtain ⟨hword, hunderscore⟩ := List.mem_filter.mp hcs
  rw [String.toList_ofList]
  exact ⟨hword, List.contains_iff_mem.mp hunderscore⟩

theorem identifiers_eq_nil (h : '_' ∉ s.toList) : identifiers s = [] :=
  List.eq_nil_iff_forall_not_mem.mpr fun _ hw =>
    have ⟨hword, hunderscore⟩ := mem_identifiers hw
    h (mem_of_mem_splitOnP hword _ hunderscore)

theorem eq_of_mem_identifiers (h : ∀ c ∈ s.toList, isWordChar c = true) {w : String}
    (hw : w ∈ identifiers s) : w = s := by
  have whole := (mem_identifiers hw).1
  rw [List.splitOnP_eq_singleton fun c hc => by simp [h c hc], List.mem_singleton] at whole
  exact String.toList_inj.mp whole

end Words

section Hollow

def Hollow (s : String) : Prop := ['[', ']'] <:+: s.toList

instance (s : String) : Decidable (Hollow s) := inferInstanceAs (Decidable (_ <:+: _))

variable {s t : String}

theorem not_hollow (h : '[' ∉ s.toList) : ¬ Hollow s := fun hs => h (hs.subset List.mem_cons_self)

theorem hollow_of_append (border : s.toList.getLast? ≠ some '[' ∨ t.toList.head? ≠ some ']')
    (h : Hollow (s ++ t)) : Hollow s ∨ Hollow t := by
  obtain ⟨a, b, hab⟩ := h
  rw [String.toList_append, List.append_assoc, List.append_eq_append_iff] at hab
  obtain ⟨cs, hs, ht⟩ | ⟨cs, hs, ht⟩ := hab
  · match cs, hs, ht with
    | [], _, ht => exact .inr ⟨[], b, ht⟩
    | [c], hs, ht =>
      obtain ⟨rfl, hrest⟩ := List.cons.inj ht
      refine absurd border (not_or.mpr ⟨not_not.mpr ?_, not_not.mpr ?_⟩)
      · rw [hs, List.getLast?_append_of_ne_nil _ (List.cons_ne_nil _ _), List.getLast?_singleton]
      · exact congrArg List.head? hrest.symm
    | c :: d :: cs, hs, ht =>
      obtain ⟨rfl, hrest⟩ := List.cons.inj ht
      obtain ⟨rfl, _⟩ := List.cons.inj hrest
      exact .inl ⟨a, cs, by rw [hs, List.append_assoc]; rfl⟩
  · exact .inr ⟨cs, b, by rw [ht, List.append_assoc]⟩

theorem hollow_of_joined (joined : closes s = true ∨ opens t = true) (h : Hollow (s ++ t)) :
    Hollow s ∨ Hollow t := by
  refine hollow_of_append (joined.imp (fun hs => ?_) fun ht => ?_) h
  · obtain ⟨c, hlast, hc⟩ := (Option.any_eq_true _ _).mp hs
    rw [hlast]
    simpa using (Bool.and_eq_true_iff.mp hc).2
  · obtain ⟨c, hfirst, hc⟩ := (Option.any_eq_true _ _).mp ht
    rw [hfirst]
    simpa using (Bool.and_eq_true_iff.mp hc).2

end Hollow

def reserved : List String :=
  ["bgp_path", "bgp_community", "bgp_ext_community", "bgp_large_community", "bgp_local_pref",
    "bgp_next_hop", "NET_IP4", "NET_IP6", "RTS_DEVICE", "RTS_INHERIT", "RTS_STATIC", "RTS_BGP",
    "peer_asn", "accept_route"]

/-- The text names nothing, stays on its line and has no empty set in it. -/
structure Keyword (s : String) : Prop where
  plain : Plain s
  reserved : ∀ w ∈ identifiers s, w ∈ reserved
  full : ¬ Hollow s

instance (s : String) : Decidable (Keyword s) :=
  decidable_of_iff (Plain s ∧ (∀ w ∈ identifiers s, w ∈ reserved) ∧ ¬ Hollow s)
    ⟨fun ⟨plain, reserved, full⟩ => ⟨plain, reserved, full⟩,
      fun ⟨plain, reserved, full⟩ => ⟨plain, reserved, full⟩⟩

section Literals

def isLiteralChar (c : Char) : Bool :=
  c.isLower || c.isDigit ||
    ['.', '/', ':', ',', '+', '-', '*', '(', ')', '{', '}', ' '].contains c

def LiteralChars (cs : List Char) : Prop := ∀ c ∈ cs, isLiteralChar c = true

instance (cs : List Char) : Decidable (LiteralChars cs) :=
  decidable_of_iff (cs.all isLiteralChar = true) List.all_eq_true

@[simp] theorem literal_append {cs ds : List Char} :
    LiteralChars (cs ++ ds) ↔ LiteralChars cs ∧ LiteralChars ds :=
  List.forall_mem_append

@[simp] theorem literal_cons {c : Char} {cs : List Char} :
    LiteralChars (c :: cs) ↔ isLiteralChar c = true ∧ LiteralChars cs :=
  List.forall_mem_cons

@[simp] theorem literal_nil : LiteralChars [] := List.forall_mem_nil _

def Bare (s : String) : Prop := LiteralChars s.toList

instance (s : String) : Decidable (Bare s) := inferInstanceAs (Decidable (LiteralChars _))

theorem Bare.not_mem {s : String} (h : Bare s) {c : Char} (hc : isLiteralChar c = false) :
    c ∉ s.toList := fun hmem => absurd (h c hmem) (by simp [hc])

theorem Bare.keyword {s : String} (h : Bare s) : Keyword s where
  plain := h.not_mem (by decide)
  reserved := by
    rw [identifiers_eq_nil (h.not_mem (by decide))]
    exact List.forall_mem_nil _
  full := not_hollow (h.not_mem (by decide))

theorem bare_ofList {cs : List Char} (h : LiteralChars cs) :
    Bare (String.ofList cs) := by
  rwa [Bare, String.toList_ofList]

theorem bare_append {s t : String} (hs : Bare s) (ht : Bare t) : Bare (s ++ t) := by
  rw [Bare, String.toList_append]
  exact literal_append.mpr ⟨hs, ht⟩

theorem bare_intercalate {sep : String} (hsep : Bare sep) {ts : List String}
    (h : ∀ t ∈ ts, Bare t) : Bare (sep.intercalate ts) := by
  induction ts with
  | nil => exact List.forall_mem_nil _
  | cons t ts ih =>
    obtain ⟨ht, hrest⟩ := List.forall_mem_cons.mp h
    cases ts with
    | nil => simpa using ht
    | cons u us =>
      rw [String.intercalate_cons_cons]
      exact bare_append (bare_append ht hsep) (ih hrest)

theorem literal_toDigits {b : Nat} (hb : 1 < b) (hb' : b ≤ 16) (n : Nat) :
    LiteralChars (Nat.toDigits b n) := by
  have digit : ∀ d < 16, isLiteralChar (Nat.digitChar d) = true := by decide
  induction n using Nat.strong_induction_on with
  | _ n ih =>
    -- The last digit is one, and the others are those of a smaller number.
    rw [Nat.toDigits_eq_if hb]
    split
    · rename_i h
      exact List.forall_mem_singleton.mpr (digit n (Nat.lt_of_lt_of_le h hb'))
    · rename_i h
      have hdiv : n / b < n := Nat.div_lt_self (by omega) hb
      have hmod : n % b < 16 := Nat.lt_of_lt_of_le (Nat.mod_lt n (by omega)) hb'
      exact literal_append.mpr ⟨ih _ hdiv, List.forall_mem_singleton.mpr (digit _ hmod)⟩

theorem literal_decimal (n : Nat) : LiteralChars (Nat.toDigits 10 n) :=
  literal_toDigits (by decide) (by decide) n

theorem bare_nat (n : Nat) : Bare n.repr := by
  rw [Bare, Nat.toList_repr]
  exact literal_decimal n

theorem literal_intercalate {sep : List Char} (hsep : LiteralChars sep)
    {css : List (List Char)} (h : ∀ cs ∈ css, LiteralChars cs) :
    LiteralChars (sep.intercalate css) := by
  induction css with
  | nil => exact List.forall_mem_nil _
  | cons cs css ih =>
    obtain ⟨hcs, hrest⟩ := List.forall_mem_cons.mp h
    cases css with
    | nil => rwa [List.intercalate_singleton]
    | cons ds css =>
      rw [List.intercalate_cons_cons, literal_append, literal_append]
      exact ⟨⟨hcs, hsep⟩, ih hrest⟩

namespace Address

theorem literal_chars4 (a : Address4) : LiteralChars (chars4 a) := by
  refine literal_intercalate (by decide) fun cs hcs => ?_
  obtain ⟨n, _, rfl⟩ := List.mem_map.mp hcs
  exact literal_decimal n

theorem literal_hexGroups (gs : List Nat) : LiteralChars (hexGroups gs) := by
  refine literal_intercalate (by decide) fun cs hcs => ?_
  obtain ⟨n, _, rfl⟩ := List.mem_map.mp hcs
  exact literal_toDigits (by decide) (by decide) n

theorem literal_chars (a : Address) : LiteralChars a.chars := by
  cases a with
  | v4 a => exact literal_chars4 a
  | v6 a =>
    simp only [chars, chars6]
    split
    · exact literal_append.mpr ⟨by decide, literal_chars4 _⟩
    · split
      · exact literal_append.mpr ⟨literal_append.mpr
          ⟨literal_hexGroups _, by decide⟩, literal_hexGroups _⟩
      · exact literal_hexGroups _

theorem bare_text (a : Address) : Bare a.text := bare_ofList a.literal_chars

end Address

theorem Network.literal_chars (n : Network) : LiteralChars n.chars :=
  literal_append.mpr
    ⟨n.address.literal_chars, literal_cons.mpr ⟨by decide, literal_decimal _⟩⟩

theorem Network.bare_text (n : Network) : Bare n.text := bare_ofList n.literal_chars

theorem Pattern.bare_text (p : Pattern) : Bare p.text := by
  have extent : LiteralChars p.extent.chars := by
    cases p.extent <;> simp +decide [Extent.chars, literal_decimal]
  exact bare_ofList (literal_append.mpr ⟨p.net.literal_chars, extent⟩)

theorem literal_tuple {parts : List (List Char)} (h : ∀ cs ∈ parts, LiteralChars cs) :
    LiteralChars (tuple parts) :=
  literal_cons.mpr
    ⟨by decide, literal_append.mpr ⟨literal_intercalate (by decide) h, by decide⟩⟩

theorem literal_chars32 (n : UInt32) : LiteralChars (chars32 n) := literal_decimal n.toNat

theorem literal_chars16 (n : UInt16) : LiteralChars (chars16 n) := literal_decimal n.toNat

theorem Community.bare_text (c : Community) : Bare c.text :=
  bare_ofList (literal_tuple (by simp [literal_chars16]))

theorem ExtendedCommunity.bare_text (c : ExtendedCommunity) : Bare c.text := by
  have kind : LiteralChars c.kind.chars := by cases c.kind <;> decide
  exact bare_ofList (literal_tuple (by simp [literal_chars32, kind]))

theorem LargeCommunity.bare_text (c : LargeCommunity) : Bare c.text :=
  bare_ofList (literal_tuple (by simp [literal_chars32]))

theorem LargePattern.bare_text (p : LargePattern) : Bare p.text := by
  have part (p : Part) : LiteralChars p.chars := by
    cases p <;> simp +decide [Part.chars, literal_chars32]
  exact bare_ofList (literal_tuple (by simp [literal_chars32, part]))

namespace Filter

theorem bare_asnText (n : UInt32) : Bare (asnText n) := bare_nat n.toNat

structure Listable {α : Type} (text : α → String) : Prop where
  bare : ∀ a, Bare (text a)
  some : ∀ a, text a ≠ ""

theorem listable_asns : Listable asnText :=
  ⟨bare_asnText, fun n => by simp [asnText, toString]⟩

theorem listable_patterns : Listable Pattern.text :=
  ⟨Pattern.bare_text, fun p => by simp [Pattern.text, Pattern.chars, Network.chars]⟩

theorem listable_communities : Listable Community.text :=
  ⟨Community.bare_text, fun c => by simp [Community.text, Community.chars, tuple]⟩

theorem listable_extended : Listable ExtendedCommunity.text :=
  ⟨ExtendedCommunity.bare_text, fun c => by
    simp [ExtendedCommunity.text, ExtendedCommunity.chars, tuple]⟩

theorem listable_large : Listable LargeCommunity.text :=
  ⟨LargeCommunity.bare_text, fun c => by simp [LargeCommunity.text, LargeCommunity.chars, tuple]⟩

theorem listable_largePatterns : Listable LargePattern.text :=
  ⟨LargePattern.bare_text, fun p => by simp [LargePattern.text, LargePattern.chars, tuple]⟩

/-- A set that has items is a keyword, for its brackets are not next to each other. -/
theorem Listable.keyword {α : Type} {text : α → String} (h : Listable text) {as : List α}
    (has : as ≠ []) : Keyword (setText text as) := by
  have bare : Bare (", ".intercalate (as.map text)) :=
    bare_intercalate (by decide) (List.forall_mem_map.mpr fun a _ => h.bare a)
  have some : ", ".intercalate (as.map text) ≠ "" := by
    match as with
    | [a] => simpa using h.some a
    | a :: b :: as => simp [String.intercalate_cons_cons]
  rw [setText]
  generalize ", ".intercalate (as.map text) = items at bare some
  have last : ("[" ++ items).toList.getLast? ≠ .some '[' := by
    rw [String.toList_append,
      List.getLast?_append_of_ne_nil _ (mt String.toList_eq_nil_iff.mp some)]
    exact fun hlast => bare.not_mem (by decide) (List.mem_of_getLast? hlast)
  have first : items.toList.head? ≠ .some ']' := fun hfirst =>
    bare.not_mem (by decide) (List.mem_of_head? hfirst)
  have without {c : Char} (hc : isLiteralChar c = false) (hb : c ∉ ['[', ']']) :
      c ∉ ("[" ++ items ++ "]").toList := by
    simpa [bare.not_mem hc] using hb
  refine ⟨without (by decide) (by decide), ?_, fun hollow => ?_⟩
  · rw [identifiers_eq_nil (without (by decide) (by decide))]
    exact List.forall_mem_nil _
  · obtain hollow | hollow := hollow_of_append (.inl last) hollow
    · obtain hollow | hollow := hollow_of_append (.inr first) hollow
      · exact absurd hollow (by decide)
      · exact bare.keyword.full hollow
    · exact absurd hollow (by decide)

end Filter

end Literals

section Legible

def Spells (A : String → Prop) (s : String) : Prop := ∀ w ∈ identifiers s, w ∈ reserved ∨ A w

/-- What holds of texts when it holds of what they are put together from. -/
structure Legible (T : String → Prop) : Prop where
  keyword : ∀ s, Keyword s → T s
  append : ∀ s t, closes s = true ∨ opens t = true → T s → T t → T (s ++ t)

theorem plain_append (s t : String) : Plain (s ++ t) ↔ Plain s ∧ Plain t := by
  simp [Plain]

theorem legible_plain : Legible Plain where
  keyword _ h := h.plain
  append s t _ hs ht := (plain_append s t).mpr ⟨hs, ht⟩

theorem legible_spells (A : String → Prop) : Legible (Spells A) where
  keyword _ h w hw := .inl (h.reserved w hw)
  append s t h hs ht := by
    rw [Spells, identifiers_append h, List.forall_mem_append]
    exact ⟨hs, ht⟩

theorem legible_hollow (A : Prop) : Legible (Hollow · → A) where
  keyword _ h hs := absurd hs h.full
  append _ _ joined hs ht h := (hollow_of_joined joined h).elim hs ht

namespace Legible
variable {T : String → Prop} {k s t : String}

theorem bare (hT : Legible T) (h : Bare s) : T s := hT.keyword s h.keyword

theorem after (hT : Legible T) (hk : Keyword k ∧ closes k = true) (ht : T t) : T (k ++ t) :=
  hT.append k t (.inl hk.2) (hT.keyword k hk.1) ht

theorem before (hT : Legible T) (hs : T s) (hk : Keyword k ∧ opens k = true) : T (s ++ k) :=
  hT.append s k (.inr hk.2) hs (hT.keyword k hk.1)

theorem between (hT : Legible T) (hs : T s) (hk : Keyword k ∧ opens k = true ∧ closes k = true)
    (ht : T t) : T (s ++ k ++ t) := by
  have opened : opens (k ++ t) = true := by
    obtain ⟨c, hfirst, hc⟩ := (Option.any_eq_true _ _).mp hk.2.1
    rw [opens, String.toList_append, List.head?_append, hfirst]
    exact hc
  rw [String.append_assoc]
  exact hT.append s (k ++ t) (.inr opened) hs (hT.after ⟨hk.1, hk.2.2⟩ ht)

theorem set (hT : Legible T) {α : Type} {text : α → String} (h : Filter.Listable text)
    {as : List α} (hempty : as = [] → T "[]") : T (Filter.setText text as) := by
  by_cases has : as = []
  · rw [has]
    exact hempty has
  · exact hT.keyword _ (h.keyword has)

theorem intercalate (hT : Legible T) (hk : Keyword k ∧ opens k = true ∧ closes k = true)
    {ts : List String} (h : ∀ t ∈ ts, T t) : T (k.intercalate ts) := by
  induction ts with
  | nil => exact hT.keyword "" (by decide)
  | cons t ts ih =>
    obtain ⟨ht, hrest⟩ := List.forall_mem_cons.mp h
    cases ts with
    | nil => simpa using ht
    | cons u us =>
      rw [String.intercalate_cons_cons]
      exact hT.between ht hk (ih hrest)

end Legible
end Legible

section Names

def Wordy (s : String) : Prop := ∀ c ∈ s.toList, isWordChar c = true

instance (s : String) : Decidable (Wordy s) :=
  decidable_of_iff (s.toList.all isWordChar = true) List.all_eq_true

theorem Wordy.plain {s : String} (h : Wordy s) : Plain s := fun hmem =>
  absurd (h _ hmem) (by decide)

theorem Wordy.spells {A : String → Prop} {s : String} (h : Wordy s) (hs : A s) : Spells A s :=
  fun _ hw => .inr (eq_of_mem_identifiers h hw ▸ hs)

@[simp] theorem wordy_append (s t : String) : Wordy (s ++ t) ↔ Wordy s ∧ Wordy t := by
  rw [Wordy, String.toList_append]
  exact List.forall_mem_append

theorem isWordChar_of_isNameChar {c : Char} (h : isNameChar c = true) : isWordChar c = true := by
  simp only [isNameChar, isWordChar, Char.isAlphanum, Char.isAlpha, Bool.or_eq_true] at h ⊢
  tauto

theorem wordy_of_validName {p : String} (h : Policy.validName p = true) : Wordy p := fun _ hc =>
  isWordChar_of_isNameChar (isNameChar_of_validName h hc)

theorem wordy_upper {p : String} (h : Policy.validName p = true) : Wordy (upper p) := by
  rw [Wordy, upper, String.toList_map, List.forall_mem_map]
  intro c hc
  have hword := wordy_of_validName h c hc
  by_cases lower : c.isLower = true
  · have alpha : c.toUpper.isAlpha = true := by
      rw [Char.isAlpha_toUpper_eq_isAlpha, Char.isAlpha, lower, Bool.or_true]
    simp [isWordChar, Char.isAlphanum, alpha]
  · rwa [Char.toUpper_eq_of_not_isLower lower]

@[simp] theorem wordy_nat (n : Nat) : Wordy n.repr := by
  intro c hc
  rw [Nat.toList_repr] at hc
  have digit := Nat.isDigit_of_mem_toDigits (by decide) (by decide) hc
  simp [isWordChar, Char.isAlphanum, digit]

@[simp] theorem Family.wordy_digit (f : Family) : Wordy f.digit := by cases f <;> decide

theorem Constant.wordy_name (c : Constant) : Wordy c.name := by
  rcases c with _ | (_ | _) | (_ | _) | _ | _ | _ <;> decide

theorem ListName.wordy_name {l : ListName} (h : ∀ p ∈ l.peer?, Policy.validName p = true) :
    Wordy l.name := by
  cases l with
  | peerAsns p => simp +decide [name, toString, wordy_upper (h p rfl)]
  | peerNets p f => simp +decide [name, toString, wordy_upper (h p rfl)]
  | bogons f => cases f <;> decide
  | bogonAsns | transitFree => decide

theorem SharedFunction.wordy_name (f : SharedFunction) : Wordy f.name := by
  rcases f with (_ | _) | (_ | _) | (_ | _) | _ | _ | _ | _ | _ | _ | (_ | _) | _ <;> decide

theorem wordy_ruleBase {p : String} (h : Wordy p) (d : Settings.Direction) :
    Wordy (ruleBase p d) := by
  cases d <;> simp +decide [ruleBase, toString, h]

def Symbol.Fit : Symbol → Prop
  | list l => ∀ p ∈ l.peer?, Policy.validName p = true
  | function f => ∀ b ∈ Filter.base? f, ∃ p d, b = ruleBase p d ∧ Policy.validName p = true
  | filter (.peer _ p _) | table (.peer _ p) => Policy.validName p = true
  | protocol (.peerPipe _ p) | protocol (.session _ p) => Policy.validName p = true
  | _ => True

theorem RuleFunction.wordy_name {f : RuleFunction} (h : Symbol.Fit (.function (.rule f))) :
    Wordy f.name := by
  cases f with
  | one base i =>
    obtain ⟨p, d, rfl, hp⟩ := h base rfl
    simp +decide [name, toString, wordy_ruleBase (wordy_of_validName hp) d]
  | every base =>
    obtain ⟨p, d, rfl, hp⟩ := h base rfl
    simp +decide [name, wordy_ruleBase (wordy_of_validName hp) d]

theorem FilterName.wordy_name {n : FilterName} (h : Symbol.Fit (.filter n)) : Wordy n.name := by
  cases n with
  | peer f p s => cases s <;> simp +decide [name, toString, Stage.suffix, wordy_of_validName h]
  | toMaster f | fromMaster f => cases f <;> decide

theorem Table.wordy_name {t : Table} (h : Symbol.Fit (.table t)) : Wordy t.name := by
  cases t with
  | peer f p => simp +decide [name, toString, wordy_of_validName h]
  | main f | master f => cases f <;> decide

theorem Protocol.wordy_name {n : Protocol} (h : Symbol.Fit (.protocol n)) : Wordy n.name := by
  cases n with
  | peerPipe f p | session f p => simp +decide [name, toString, wordy_of_validName h]
  | originate f | masterPipe f => cases f <;> decide

theorem Symbol.Fit.wordy_name {s : Symbol} (h : s.Fit) : Wordy s.name := by
  cases s with
  | constant c => exact c.wordy_name
  | list l => exact ListName.wordy_name h
  | function f =>
    cases f with
    | shared f => exact f.wordy_name
    | rule f => exact RuleFunction.wordy_name h
  | filter n => exact FilterName.wordy_name h
  | table t => exact Table.wordy_name h
  | protocol n => exact Protocol.wordy_name h

end Names

end Peering
