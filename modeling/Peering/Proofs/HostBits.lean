import Peering.Proofs.PatternText

/-!
What is known of a pattern that was read: its network has no bits behind its length, and a range
lies between that length and the width of an address. Every pattern within these bounds is read
back from its text, so these are all the patterns that can be written.
-/
namespace Peering

def Address.bit : Address → Nat → Bool
  | v4 a => a.getMsbD
  | v6 a => a.getMsbD

def Network.NoHostBits (n : Network) : Prop := ∀ i, n.length ≤ i → n.address.bit i = false

/-- The bounds that a pattern keeps, said without clearing bits. -/
structure Pattern.InBounds (p : Pattern) : Prop where
  length : p.net.length ≤ p.net.family.width
  noHostBits : p.net.NoHostBits
  range : ∀ low high, p.extent = .between low high →
    p.net.length ≤ low ∧ low ≤ high ∧ high ≤ p.net.family.width

/-- Shifting out the bits behind the first `n` clears just these. -/
theorem getMsbD_cleared {w : Nat} (a : BitVec w) (n i : Nat) :
    (a >>> (w - n) <<< (w - n)).getMsbD i = (decide (i < n) && a.getMsbD i) := by
  rw [BitVec.getMsbD_shiftLeft, BitVec.getMsbD_ushiftRight]
  by_cases hi : i < w
  · have back : i + (w - n) - (w - n) = i := by omega
    rw [back]
    by_cases hn : i < n
    · simp [hn]
      omega
    · simp [hn]
      omega
  · have beyond : a.getMsbD i = false := BitVec.getMsbD_of_ge a i (Nat.le_of_not_lt hi)
    simp [beyond]

theorem cleared_eq_iff {w : Nat} (a : BitVec w) (n : Nat) :
    a >>> (w - n) <<< (w - n) = a ↔ ∀ i, n ≤ i → a.getMsbD i = false := by
  constructor
  · intro h i hi
    rw [← h, getMsbD_cleared]
    simp [Nat.not_lt.mpr hi]
  · intro h
    refine BitVec.eq_of_getMsbD_eq fun i _ => ?_
    rw [getMsbD_cleared]
    by_cases hi : i < n
    · simp [hi]
    · simp [hi, h i (Nat.le_of_not_lt hi)]

theorem Network.truncate_eq_iff (n : Network) : n.truncate = n ↔ n.NoHostBits := by
  obtain ⟨a, l⟩ := n
  cases a with
  | v4 a => simpa [truncate, NoHostBits, Address.bit] using cleared_eq_iff a l
  | v6 a => simpa [truncate, NoHostBits, Address.bit] using cleared_eq_iff a l

instance (n : Network) : Decidable n.NoHostBits := decidable_of_iff _ n.truncate_eq_iff

namespace Pattern

theorem rangeOk_iff (n : Network) (e : Extent) :
    rangeOk n e = true ↔ ∀ low high, e = .between low high →
      n.length ≤ low ∧ low ≤ high ∧ high ≤ n.family.width := by
  cases e with
  | between low high =>
    simp only [rangeOk, Bool.and_eq_true, decide_eq_true_eq, Extent.between.injEq]
    constructor
    · rintro ⟨⟨hle, hlow⟩, hhigh⟩ _ _ ⟨rfl, rfl⟩
      exact ⟨hlow, hle, hhigh⟩
    · intro h
      obtain ⟨hlow, hle, hhigh⟩ := h low high ⟨rfl, rfl⟩
      exact ⟨⟨hle, hlow⟩, hhigh⟩
  | exact | orLonger | orShorter => simp [rangeOk]

theorem wellFormed_iff (p : Pattern) : p.WellFormed ↔ p.InBounds := by
  rw [WellFormed, Network.IsProper, Network.truncate_eq_iff, rangeOk_iff]
  constructor
  · rintro ⟨⟨length, noHostBits⟩, range⟩
    exact ⟨length, noHostBits, range⟩
  · rintro ⟨length, noHostBits, range⟩
    exact ⟨⟨length, noHostBits⟩, range⟩

/-- Reading and writing patterns. Whatever is read is within bounds, and its text is read as the
same pattern again, so patterns that were read from texts are told apart by their own texts; and
every pattern within bounds is what its text is read as. -/
theorem patterns_read_back :
    (∀ s p, parse s = .ok p → p.InBounds ∧ parse p.text = .ok p) ∧
      (∀ s t p q, parse s = .ok p → parse t = .ok q → p.text = q.text → p = q) ∧
      ∀ p : Pattern, p.InBounds → parse p.text = .ok p := by
  refine ⟨fun s p h => ?_, fun s t p q hp hq htext => ?_, fun p hp => ?_⟩
  · have proper := wellFormed_of_parse h
    exact ⟨(wellFormed_iff p).mp proper, parse_text proper⟩
  · exact text_inj (wellFormed_of_parse hp) (wellFormed_of_parse hq) htext
  · exact parse_text ((wellFormed_iff p).mpr hp)

/-- Two ranges on a mapped network, one of them in letters of the other case, with groups for
octets, zeros in front and blanks. -/
theorem patterns_read_back_mapped :
    let n : Network := ⟨.v6 0xffffc0000200, 120⟩
    let p : Pattern := ⟨n, .between 120 128⟩
    let q : Pattern := ⟨n, .between 121 128⟩
    parse " ::FFFF:c000:0200/120\x7b0120 , 128\x7d\t" = .ok p ∧
      parse "::ffff:192.0.2.0/120\x7b121,128\x7d" = .ok q ∧
      p.InBounds ∧ parse p.text = .ok p ∧ p.text ≠ q.text ∧
      q.InBounds ∧ parse q.text = .ok q := by
  intro n p q
  obtain ⟨read, told, written⟩ := patterns_read_back
  have hp : parse " ::FFFF:c000:0200/120\x7b0120 , 128\x7d\t" = .ok p := by decide +kernel
  have hq : parse "::ffff:192.0.2.0/120\x7b121,128\x7d" = .ok q := by decide +kernel
  have within : q.InBounds := (wellFormed_iff q).mp (by decide +kernel)
  obtain ⟨bounds, again⟩ := read _ p hp
  refine ⟨hp, hq, bounds, again, fun htext => ?_, within, written q within⟩
  exact absurd (told _ _ p q hp hq htext) (by decide)

end Pattern
end Peering
