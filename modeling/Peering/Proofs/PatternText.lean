import Peering.Pattern
import Peering.Proofs.AddressText

/-!
How patterns may be written: a network, what may follow it, and white space on both sides. A text
that is read at all is read as the pattern that it says, and the text of a pattern is read back, so
different patterns have different texts.
-/
namespace Peering
open Peering.Text

/-- The texts of a network. Zeros may lead its length, within two or three digits. -/
inductive Network.Written : List Char → Network → Prop
  | v4 {cs ds : List Char} {a : Address4} {n : Nat} (h : Address.Written .network cs (.v4 a))
    (hn : Spells 10 2 Char.isDigit ds n) (hw : n ≤ 32) : Written (cs ++ '/' :: ds) ⟨.v4 a, n⟩
  | v6 {cs ds : List Char} {a : Address6} {n : Nat} (h : Address.Written .network cs (.v6 a))
    (hn : Spells 10 3 Char.isDigit ds n) (hw : n ≤ 128) : Written (cs ++ '/' :: ds) ⟨.v6 a, n⟩

def isSpace (c : Char) : Bool := c = ' ' || c = '\t'

inductive Extent.Written : List Char → Extent → Prop
  | exact : Written [] .exact
  | orLonger : Written ['+'] .orLonger
  | orShorter : Written ['-'] .orShorter
  | between {ds es before after : List Char} {most most' low high : Nat}
    (hl : Spells 10 most Char.isDigit ds low) (hl' : low < 256)
    (hh : Spells 10 most' Char.isDigit es high) (hh' : high < 256)
    (hb : ∀ c ∈ before, isSpace c = true) (ha : ∀ c ∈ after, isSpace c = true) :
    Written ('{' :: (ds ++ (before ++ ',' :: (after ++ (es ++ ['}']))))) (.between low high)

inductive Pattern.Written : List Char → Pattern → Prop
  | mk {before net extent after : List Char} {p : Pattern} (hb : ∀ c ∈ before, isBlank c = true)
    (hn : Network.Written net p.net) (he : Extent.Written extent p.extent)
    (ha : ∀ c ∈ after, isBlank c = true) :
    Written (before ++ (net ++ extent ++ after)) p

namespace Address
variable {sp : Spelling} {cs rest : List Char}

theorem Written6.scanOctets {a : Address6} (h : Written6 sp cs a) (rest : List Char) :
    scanOctets sp (cs ++ rest) = none := by
  have colon (r : List Char) : Stops isHexDigit (':' :: r) := stops_cons.mpr (by decide)
  have ofGroup {ds : List Char} {n : Nat} (h : Group ds n) (r : List Char) :
      Address.scanOctets sp (ds ++ ':' :: r) = none := h.scanOctets (colon r) (by simp)
  cases h with
  | full h hl =>
    cases h with
    | one _ => simp at hl
    | octets _ => simp [parts] at hl
    | more h hs => simpa using ofGroup h _
  | elided hh _ _ _ =>
    cases hh with
    | nothing => exact scanOctets_of_stops (colon _)
    | groups h =>
      cases h with
      | one h => simpa using ofGroup h _
      | more h hs => simpa using ofGroup h _

end Address

namespace Network

theorem Written.parse {cs : List Char} {n : Network} (h : Written cs n) : parse? cs = some n := by
  cases h with
  | @v4 cs ds a n h hn hw =>
    obtain ⟨os, hos, rfl⟩ := h
    have slash : Stops Char.isDigit ('/' :: ds) := stops_cons.mpr (by decide)
    have address := hos.scan slash
    have length := hn.number (show n < 33 by omega) stops_nil
    rw [List.append_nil] at length
    simp [parse?, whole, either, scan4, Address.scan4, address, Text.char, length]
  | @v6 cs ds a n h hn hw =>
    have octets := Address.Written6.scanOctets h ('/' :: ds)
    have address := Address.Written6.scan h (Address.ends_slash ds)
    have length := hn.number (show n < 129 by omega) stops_nil
    rw [List.append_nil] at length
    simp [parse?, whole, either, scan4, scan6, Address.scan4, octets, address, Text.char, length]

def isNetChar (c : Char) : Bool := Address.isHexDigit c || c = '.' || c = ':' || c = '/'

section Characters
open Address (Octets Groups Octet Side Written6 isHexDigit_of_isDigit)
variable {sp : Address.Spelling} {cs : List Char}

theorem isNetChar_of_isHexDigit (c : Char) (h : Address.isHexDigit c = true) :
    isNetChar c = true := by
  simp [isNetChar, h]

theorem isNetChar_of_isDigit (c : Char) (h : c.isDigit = true) : isNetChar c = true :=
  isNetChar_of_isHexDigit c (isHexDigit_of_isDigit c h)

theorem isNetChar_octets {os : List Nat} (h : Octets sp cs os) : ∀ c ∈ cs, isNetChar c = true := by
  obtain ⟨ha, hb, hc, hd⟩ := h
  have octet {ds : List Char} {n : Nat} (h : Octet sp ds n) : ∀ c ∈ ds, isNetChar c = true :=
    fun c hc => isNetChar_of_isDigit c (h.spells.digits c hc)
  have dot : isNetChar '.' = true := by decide
  simp only [List.forall_mem_append, List.forall_mem_cons]
  exact ⟨octet ha, dot, octet hb, dot, octet hc, dot, octet hd⟩

theorem isNetChar_groups {dotted : Bool} {ns : List Nat} (h : Groups sp dotted cs ns) :
    ∀ c ∈ cs, isNetChar c = true := by
  have group {ds : List Char} {n : Nat} (h : Address.Group ds n) : ∀ c ∈ ds, isNetChar c = true :=
    fun c hc => isNetChar_of_isHexDigit c (h.spells.digits c hc)
  induction h with
  | one h => exact group h
  | octets h => exact isNetChar_octets h
  | more h _ ih =>
    simp only [List.forall_mem_append, List.forall_mem_cons]
    exact ⟨group h, by decide, ih⟩

theorem isNetChar_side {dotted : Bool} {ns : List Nat} (h : Side sp dotted cs ns) :
    ∀ c ∈ cs, isNetChar c = true := by
  cases h with
  | nothing => exact List.forall_mem_nil _
  | groups h => exact isNetChar_groups h

theorem isNetChar_address {a : Address} (h : Address.Written sp cs a) :
    ∀ c ∈ cs, isNetChar c = true := by
  cases a with
  | v4 a =>
    obtain ⟨os, hos, _⟩ := h
    exact isNetChar_octets hos
  | v6 a =>
    cases h with
    | full h _ => exact isNetChar_groups h
    | elided hh ht _ _ =>
      simp only [List.forall_mem_append, List.forall_mem_cons]
      exact ⟨isNetChar_side hh, by decide, by decide, isNetChar_side ht⟩

theorem Written.isNetChar {n : Network} (h : Written cs n) : ∀ c ∈ cs, isNetChar c = true := by
  have length {ds : List Char} {most n : Nat} (h : Spells 10 most Char.isDigit ds n) :
      ∀ c ∈ ds, Network.isNetChar c = true := fun c hc => isNetChar_of_isDigit c (h.digits c hc)
  cases h with
  | v4 h hn _ =>
    simp only [List.forall_mem_append, List.forall_mem_cons]
    exact ⟨isNetChar_address h, by decide, length hn⟩
  | v6 h hn _ =>
    simp only [List.forall_mem_append, List.forall_mem_cons]
    exact ⟨isNetChar_address h, by decide, length hn⟩

end Characters

theorem Written.ne_nil {cs : List Char} {n : Network} (h : Written cs n) : cs ≠ [] := by
  cases h <;> simp

theorem written_chars {n : Network} (hn : n.length ≤ n.family.width) : Written n.chars n := by
  obtain ⟨a, l⟩ := n
  have address : Address.Written .network a.chars a := Address.written_chars (by decide) a
  cases a with
  | v4 a =>
    replace hn : l ≤ 32 := hn
    have length : Spells 10 2 Char.isDigit (Nat.toDigits 10 l) l :=
      spells_toDigits (by decide) (by decide) (by decide) (by omega) (by decide)
    exact .v4 address length hn
  | v6 a =>
    replace hn : l ≤ 128 := hn
    have length : Spells 10 3 Char.isDigit (Nat.toDigits 10 l) l :=
      spells_toDigits (by decide) (by decide) (by decide) (by omega) (by decide)
    exact .v6 address length hn

end Network

theorem Address.number_lt {base most bound n : Nat} {isDigit : Char → Bool} {cs rest : List Char}
    (h : Address.number base most bound isDigit cs = some (n, rest)) : n < bound := by
  simp only [Address.number] at h
  split at h
  · simp at h
  · simp only [Option.some.injEq, Prod.mk.injEq] at h
    omega

theorem Network.length_le_of_parse {cs : List Char} {n : Network} (h : parse? cs = some n) :
    n.length ≤ n.family.width := by
  have read4 {rest : List Char} (h : scan4 cs = some (n, rest)) : n.length ≤ n.family.width := by
    simp only [scan4, Option.bind_eq_bind, Option.bind_eq_some_iff, Option.pure_def,
      Option.some.injEq] at h
    obtain ⟨_, _, _, _, ⟨l, _⟩, hl, h⟩ := h
    obtain ⟨rfl, _⟩ := Prod.mk.inj h
    exact Nat.le_of_lt_succ (Address.number_lt hl)
  have read6 {rest : List Char} (h : scan6 cs = some (n, rest)) : n.length ≤ n.family.width := by
    simp only [scan6, Option.bind_eq_bind, Option.bind_eq_some_iff, Option.pure_def,
      Option.some.injEq] at h
    obtain ⟨_, _, _, _, ⟨l, _⟩, hl, h⟩ := h
    obtain ⟨rfl, _⟩ := Prod.mk.inj h
    exact Nat.le_of_lt_succ (Address.number_lt hl)
  simp only [parse?, whole, either] at h
  split at h
  · rename_i m hm
    obtain rfl := Option.some.inj h
    obtain hm | ⟨_, hm⟩ := (Option.orElse_eq_some _ _ _).mp hm
    · exact read4 hm
    · exact read6 hm
  · exact absurd h (by simp)

namespace Extent

theorem blanks_run {cs rest : List Char} (hcs : ∀ c ∈ cs, isSpace c = true)
    (hrest : Stops isSpace rest) : blanks (cs ++ rest) = rest :=
  dropWhile_run hcs hrest

theorem stops_isDigit_spaces {cs rest : List Char} (hcs : ∀ c ∈ cs, isSpace c = true)
    (hrest : Stops Char.isDigit rest) : Stops Char.isDigit (cs ++ rest) := by
  cases cs with
  | nil => exact hrest
  | cons c cs =>
    have hc := hcs c List.mem_cons_self
    simp only [isSpace, Bool.or_eq_true, decide_eq_true_eq] at hc
    rw [List.cons_append, stops_cons]
    obtain rfl | rfl := hc <;> decide

theorem stops_isSpace_digits {most n : Nat} {ds : List Char} (h : Spells 10 most Char.isDigit ds n)
    (rest : List Char) : Stops isSpace (ds ++ rest) := by
  cases ds with
  | nil => exact absurd rfl h.some
  | cons d ds =>
    have hd := h.digits d List.mem_cons_self
    rw [List.cons_append, stops_cons]
    cases hs : isSpace d with
    | false => rfl
    | true =>
      simp only [isSpace, Bool.or_eq_true, decide_eq_true_eq] at hs
      obtain rfl | rfl := hs <;> exact absurd hd (by decide)

theorem Written.scan {cs : List Char} {e : Extent} (h : Written cs e) :
    (cs = [] ∧ e = .exact) ∨ Extent.scan cs = some (e, []) := by
  cases h with
  | exact => exact .inl ⟨rfl, rfl⟩
  | orLonger => exact .inr rfl
  | orShorter => exact .inr rfl
  | @between ds es before after _ _ low high hl hl' hh hh' hb ha =>
    have comma (r : List Char) : Stops isSpace (',' :: r) := stops_cons.mpr (by decide)
    have ahead : Stops Char.isDigit (before ++ ',' :: (after ++ (es ++ ['}']))) :=
      stops_isDigit_spaces hb (stops_cons.mpr (by decide))
    have brace : Stops Char.isDigit ['}'] := stops_cons.mpr (by decide)
    have first := hl.natural hl' ahead
    have second := hh.natural hh' brace
    have left := blanks_run hb (comma (after ++ (es ++ ['}'])))
    have right := blanks_run ha (stops_isSpace_digits hh ['}'])
    simp [Extent.scan, Text.comma, Text.char, first, second, left, right]

theorem Written.stops {cs : List Char} {e : Extent} (h : Written cs e) :
    Stops (fun c => !(c == '+' || c == '-' || c == '{')) cs := by
  cases h with
  | exact => exact stops_nil
  | orLonger | orShorter | between => exact stops_cons.mpr (by decide)

theorem Written.stops_reverse {cs : List Char} {e : Extent} (h : Written cs e) :
    Stops isBlank cs.reverse := by
  cases h with
  | exact => exact stops_nil
  | orLonger | orShorter => exact stops_cons.mpr (by decide)
  | between =>
    simp only [List.reverse_cons, List.reverse_append, List.append_assoc]
    exact stops_cons.mpr (by decide)

theorem written_chars {e : Extent}
    (h : ∀ low high, e = .between low high → low < 256 ∧ high < 256) : Written e.chars e := by
  cases e with
  | exact => exact .exact
  | orLonger => exact .orLonger
  | orShorter => exact .orShorter
  | between low high =>
    obtain ⟨hl, hh⟩ := h low high rfl
    have spells (n : Nat) (hn : n < 256) : Spells 10 3 Char.isDigit (Nat.toDigits 10 n) n :=
      spells_toDigits (by decide) (by decide) (by decide) (by omega) (by decide)
    have written := Written.between (spells low hl) hl (spells high hh) hh
      (List.forall_mem_nil _) (List.forall_mem_nil _)
    simpa [chars] using written

end Extent

theorem Text.trim_run {before cs after : List Char} (hb : ∀ c ∈ before, isBlank c = true)
    (ha : ∀ c ∈ after, isBlank c = true) (hne : cs ≠ []) (hs : Stops isBlank cs)
    (hr : Stops isBlank cs.reverse) : trim (before ++ (cs ++ after)) = cs := by
  have front : Stops isBlank (cs ++ after) := by
    rw [Stops, List.head?_append_of_ne_nil _ hne]
    exact hs
  have back : ∀ c ∈ after.reverse, isBlank c = true := fun c hc => ha c (List.mem_reverse.mp hc)
  rw [trim, dropWhile_run hb front, List.reverse_append, dropWhile_run back hr,
    List.reverse_reverse]

namespace Pattern

theorem isBlank_of_isNetChar {c : Char} (h : Network.isNetChar c = true) : isBlank c = false := by
  simp [Network.isNetChar, Address.isHexDigit, Char.isDigit, Char.le_def, Char.ext_iff, isBlank,
    UInt32.le_iff_toNat_le, ← UInt32.toNat_inj] at h ⊢
  omega

theorem isNet_of_isNetChar {c : Char} (h : Network.isNetChar c = true) :
    (!(c == '+' || c == '-' || c == '{')) = true := by
  simp only [Bool.not_eq_true', Bool.or_eq_false_iff, beq_eq_false_iff_ne]
  refine ⟨⟨?_, ?_⟩, ?_⟩ <;> (rintro rfl; exact absurd h (by decide))

theorem Written.scan {cs : List Char} {p : Pattern} (h : Written cs p) :
    ∃ net, Network.parse? net = some p.net ∧
      whole Pattern.scan (trim cs) = some (net, p.extent) := by
  obtain ⟨hb, hn, he, ha⟩ := h
  rename_i before net extent after
  have chars := hn.isNetChar
  have blank (c : Char) (hc : c ∈ net) : isBlank c = false := isBlank_of_isNetChar (chars c hc)
  have ne : net ++ extent ≠ [] := by simp [hn.ne_nil]
  have front : Stops isBlank (net ++ extent) := by
    rw [Stops, List.head?_append_of_ne_nil _ hn.ne_nil]
    exact fun c hc => blank c (List.mem_of_mem_head? hc)
  have back : Stops isBlank (net ++ extent).reverse := by
    rw [List.reverse_append]
    by_cases hempty : extent.reverse = []
    · rw [hempty, List.nil_append]
      exact fun c hc => blank c (List.mem_reverse.mp (List.mem_of_mem_head? hc))
    · rw [Stops, List.head?_append_of_ne_nil _ hempty]
      exact he.stops_reverse
  refine ⟨net, hn.parse, ?_⟩
  rw [trim_run hb ha ne front back, whole, Pattern.scan]
  have isNet (c : Char) (hc : c ∈ net) := isNet_of_isNetChar (chars c hc)
  simp only [takeWhile_run isNet he.stops, dropWhile_run isNet he.stops, if_neg hn.ne_nil]
  obtain ⟨rfl, hexact⟩ | hscan := he.scan
  · simp [Extent.scan, hexact]
  · simp [hscan]

theorem Written.eq_of_parse {s : String} {p q : Pattern} (h : Written s.toList p)
    (hq : parse s = .ok q) : q = p := by
  obtain ⟨net, hnet, hscan⟩ := h.scan
  obtain ⟨n, e⟩ := p
  simp only [parse, hscan, hnet] at hq
  split at hq
  · exact nomatch hq
  · cases e with
    | between low high =>
      simp only at hq
      split at hq
      · exact (Except.ok.inj hq).symm
      · exact nomatch hq
    | exact | orLonger | orShorter => exact (Except.ok.inj hq).symm

theorem wellFormed_of_parse {s : String} {p : Pattern} (h : parse s = .ok p) : p.WellFormed := by
  simp only [parse] at h
  split at h
  · exact nomatch h
  · rename_i text extent _
    split at h
    · exact nomatch h
    · rename_i net hnet
      have fits := Network.length_le_of_parse hnet
      split at h
      · exact nomatch h
      · rename_i proper
        have net : net.IsProper := ⟨fits, not_not.mp proper⟩
        cases extent with
        | between low high =>
          simp only at h
          split at h
          · rename_i range
            obtain rfl := Except.ok.inj h
            exact ⟨net, range⟩
          · exact nomatch h
        | exact | orLonger | orShorter =>
          obtain rfl := Except.ok.inj h
          exact ⟨net, rfl⟩

theorem range_of_wellFormed {p : Pattern} (hp : p.WellFormed) {low high : Nat}
    (he : p.extent = .between low high) : low < 256 ∧ high < 256 := by
  have range := hp.2
  have width : p.net.family.width ≤ 128 := by cases p.net.family <;> decide
  simp only [he, rangeOk, Bool.and_eq_true, decide_eq_true_eq] at range
  omega

theorem written_text {p : Pattern} (hp : p.WellFormed) : Written p.text.toList p := by
  have net := Network.written_chars hp.1.1
  have extent := Extent.written_chars fun low high he => range_of_wellFormed hp he
  have written := Written.mk (List.forall_mem_nil _) net extent (List.forall_mem_nil _)
  simpa [text, chars] using written

theorem parse_text {p : Pattern} (hp : p.WellFormed) : parse p.text = .ok p := by
  obtain ⟨net, hnet, hscan⟩ := (written_text hp).scan
  obtain ⟨n, e⟩ := p
  have proper : ¬ n.truncate ≠ n := not_not.mpr hp.1.2
  have range : rangeOk n e = true := hp.2
  simp only [parse, hscan, hnet, if_neg proper]
  cases e <;> simp_all

theorem text_inj {p q : Pattern} (hp : p.WellFormed) (hq : q.WellFormed) (h : p.text = q.text) :
    p = q := by
  have hpq := parse_text hp
  rw [h, parse_text hq] at hpq
  exact (Except.ok.inj hpq).symm

end Pattern

end Peering
