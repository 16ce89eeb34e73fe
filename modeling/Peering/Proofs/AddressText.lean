import Peering.Proofs.Digits

/-!
How addresses may be written: numbers with leading zeros or without, letters of either case, any run
of zero groups left out, the last two groups as octets. Every such text is read as the address that
it says, and the text of an address is one of them.
-/
namespace Peering.Address
open Peering.Text

structure Octet (sp : Spelling) (ds : List Char) (n : Nat) : Prop where
  spells : Spells 10 3 Char.isDigit ds n
  lt : n < 256
  unpadded : sp.padded = true ∨ ds.head? ≠ some '0' ∨ ds.length = 1

inductive Octets (sp : Spelling) : List Char → List Nat → Prop
  | mk {a b c d : List Char} {i j k l : Nat} (ha : Octet sp a i) (hb : Octet sp b j)
    (hc : Octet sp c k) (hd : Octet sp d l) :
    Octets sp (a ++ '.' :: (b ++ '.' :: (c ++ '.' :: d))) [i, j, k, l]

structure Group (ds : List Char) (n : Nat) : Prop where
  spells : Spells 16 4 isHexDigit ds n
  lt : n < 65536

/-- Groups with colons between them; `dotted` says whether octets stand for the last two. -/
inductive Groups (sp : Spelling) : (dotted : Bool) → List Char → List Nat → Prop
  | one {ds : List Char} {n : Nat} (h : Group ds n) : Groups sp false ds [n]
  | octets {cs : List Char} {os : List Nat} (h : Octets sp cs os) :
    Groups sp true cs (parts 65536 2 (join 256 os))
  | more {dotted : Bool} {ds cs : List Char} {n : Nat} {ns : List Nat} (h : Group ds n)
    (hs : Groups sp dotted cs ns) : Groups sp dotted (ds ++ ':' :: cs) (n :: ns)

/-- One side of `::`, where there may be nothing. -/
inductive Side (sp : Spelling) : (dotted : Bool) → List Char → List Nat → Prop
  | nothing : Side sp false [] []
  | groups {dotted : Bool} {cs : List Char} {ns : List Nat} (h : Groups sp dotted cs ns) :
    Side sp dotted cs ns

/-- The texts of an address of eight groups: all of them, or `::` for zeros that are left out. -/
inductive Written6 (sp : Spelling) : List Char → Address6 → Prop
  | full {dotted : Bool} {cs : List Char} {ns : List Nat} (h : Groups sp dotted cs ns)
    (hl : ns.length = 8) : Written6 sp cs (ofGroups ns)
  | elided {dotted : Bool} {head tail : List Char} {ns ms : List Nat}
    (hh : Side sp false head ns) (ht : Side sp dotted tail ms) (hl : ns.length < 8)
    (hz : ns.length + ms.length + sp.elided ≤ 8) :
    Written6 sp (head ++ ':' :: ':' :: tail)
      (ofGroups (ns ++ List.replicate (8 - ns.length - ms.length) 0 ++ ms))

def Written (sp : Spelling) (cs : List Char) : Address → Prop
  | v4 a => ∃ os, Octets sp cs os ∧ a = ofOctets os
  | v6 a => Written6 sp cs a

section Reading
variable {sp : Spelling} {cs ds rest : List Char}

theorem isHexDigit_of_isDigit (c : Char) (h : c.isDigit = true) : isHexDigit c = true := by
  simp [isHexDigit, h]

theorem Octet.scan {n : Nat} (h : Octet sp ds n) (hrest : Stops Char.isDigit rest) :
    octet sp (ds ++ rest) = some (n, rest) := by
  have number := h.spells.number h.lt hrest
  have head : (ds ++ rest).head? = ds.head? := List.head?_append_of_ne_nil _ h.spells.some
  have short : sp.padded = false → ds.head? = some '0' → ds.length ≤ 1 := by
    obtain h | h | h := h.unpadded <;> simp [h]
  simpa [octet, number, head] using short

theorem Octets.scan {os : List Nat} (h : Octets sp cs os) (hrest : Stops Char.isDigit rest) :
    scanOctets sp (cs ++ rest) = some (os, rest) := by
  obtain ⟨ha, hb, hc, hd⟩ := h
  have dot (r : List Char) : Stops Char.isDigit ('.' :: r) := stops_cons.mpr (by decide)
  simp [scanOctets, ha.scan (dot _), hb.scan (dot _), hc.scan (dot _), hd.scan hrest, Text.char]

theorem Octets.length {os : List Nat} (h : Octets sp cs os) : os.length = 4 := by
  obtain ⟨_, _, _, _⟩ := h
  rfl

theorem scanOctets_eq_none (h : (cs.dropWhile Char.isDigit).head? ≠ some '.') :
    scanOctets sp cs = none := by
  have dot : Text.char '.' (cs.dropWhile Char.isDigit) = none := by
    cases hcs : cs.dropWhile Char.isDigit with
    | nil => rfl
    | cons c r =>
      rw [hcs] at h
      have hc : c ≠ '.' := by simpa using h
      simp [Text.char, hc]
  cases ho : octet sp cs with
  | none => simp [scanOctets, ho]
  | some p =>
    obtain ⟨n, r⟩ := p
    have hr : r = cs.dropWhile Char.isDigit := by
      simp only [octet, number] at ho
      split at ho
      · simp at ho
      · simp only [Option.bind_eq_bind, Option.bind_some] at ho
        split at ho
        · simp at ho
        · simp only [Option.pure_def, Option.some.injEq, Prod.mk.injEq] at ho
          exact ho.2.symm
    simp [scanOctets, ho, hr, dot]

theorem Group.scan {n : Nat} (h : Group ds n) (hrest : Stops isHexDigit rest) :
    group (ds ++ rest) = some (n, rest) :=
  h.spells.number h.lt hrest

theorem Group.scanOctets {n : Nat} (h : Group ds n) (hrest : Stops isHexDigit rest)
    (hdot : rest.head? ≠ some '.') : scanOctets sp (ds ++ rest) = none := by
  refine scanOctets_eq_none ?_
  have digits := h.spells.digits
  clear h
  induction ds with
  | nil =>
    rw [List.nil_append, dropWhile_of_stops (hrest.mono isHexDigit_of_isDigit)]
    exact hdot
  | cons c ds ih =>
    obtain ⟨hc, hds⟩ := List.forall_mem_cons.mp digits
    by_cases hd : c.isDigit = true
    · simpa [hd] using ih hds
    · have hc' : c ≠ '.' := by
        rintro rfl
        exact absurd hc (by decide)
      simp [hd, hc']

/-- The text goes on with nothing that groups could go on with. A colon may follow, but no group
after it. -/
structure Ends (rest : List Char) : Prop where
  hex : Stops isHexDigit rest
  dot : rest.head? ≠ some '.'
  colon : ∀ r, rest = ':' :: r → Stops isHexDigit r

theorem ends_nil : Ends [] := ⟨stops_nil, by simp, nofun⟩

theorem ends_colons (cs : List Char) : Ends (':' :: ':' :: cs) where
  hex := stops_cons.mpr (by decide)
  dot := by simp
  colon r h := by
    obtain rfl := (List.cons.inj h).2
    exact stops_cons.mpr (by decide)

theorem ends_slash (cs : List Char) : Ends ('/' :: cs) where
  hex := stops_cons.mpr (by decide)
  dot := by simp
  colon r h := by simp at h

theorem scanOctets_of_stops (h : Stops isHexDigit rest) : scanOctets sp rest = none := by
  have stops : Stops Char.isDigit rest := h.mono isHexDigit_of_isDigit
  simp [scanOctets, octet, number, takeWhile_of_stops stops]

theorem group_of_stops (h : Stops isHexDigit rest) : group rest = none := by
  simp [group, number, takeWhile_of_stops h]

theorem scanGroups_of_ends (h : Ends rest) (limit : Nat) (first : Bool) :
    scanGroups sp limit first rest = ([], false, rest) := by
  cases limit with
  | zero => rfl
  | succ limit =>
    cases first with
    | true => simp [scanGroups, scanOctets_of_stops h.hex, group_of_stops h.hex]
    | false =>
      cases rest with
      | nil => rfl
      | cons c r =>
        by_cases hc : c = ':'
        · subst hc
          have stops := h.colon r rfl
          simp [scanGroups, Text.char, scanOctets_of_stops stops, group_of_stops stops]
        · simp [scanGroups, Text.char, hc]

theorem Groups.scan {dotted : Bool} {ns : List Nat} (h : Groups sp dotted cs ns) (hrest : Ends rest)
    {limit : Nat} (hl : ns.length ≤ limit) (first : Bool) :
    scanGroups sp limit first ((if first then [] else [':']) ++ (cs ++ rest)) =
      (ns, dotted, rest) := by
  induction h generalizing limit first with
  | @one ds n h =>
    obtain ⟨limit, rfl⟩ : ∃ k, limit = k + 1 := ⟨limit - 1, by simp at hl; omega⟩
    have octets : scanOctets sp (ds ++ rest) = none := h.scanOctets hrest.hex hrest.dot
    cases first <;>
      simp [scanGroups, Text.char, octets, h.scan hrest.hex, scanGroups_of_ends hrest]
  | @octets cs os h =>
    obtain ⟨limit, rfl⟩ : ∃ k, limit = k + 2 := ⟨limit - 2, by simp [parts] at hl; omega⟩
    have octets := h.scan (hrest.hex.mono isHexDigit_of_isDigit)
    cases first <;> simp [scanGroups, Text.char, octets]
  | @more dotted ds cs n ns h hs ih =>
    obtain ⟨limit, rfl⟩ : ∃ k, limit = k + 1 := ⟨limit - 1, by simp at hl; omega⟩
    have colon : Stops isHexDigit (':' :: (cs ++ rest)) := stops_cons.mpr (by decide)
    have octets : scanOctets sp (ds ++ ':' :: (cs ++ rest)) = none := h.scanOctets colon (by simp)
    have others := ih (Nat.le_of_succ_le_succ hl) false
    rw [if_neg (by decide), List.singleton_append] at others
    cases first <;> simp [scanGroups, Text.char, octets, h.scan colon, others]

theorem Side.scan {dotted : Bool} {ns : List Nat} (h : Side sp dotted cs ns) (hrest : Ends rest)
    {limit : Nat} (hl : ns.length ≤ limit) :
    scanGroups sp limit true (cs ++ rest) = (ns, dotted, rest) := by
  cases h with
  | nothing => exact scanGroups_of_ends hrest limit true
  | groups h => exact h.scan hrest hl true

theorem Written6.scan {a : Address6} (h : Written6 sp cs a) (hrest : Ends rest) :
    scan6 sp (cs ++ rest) = some (a, rest) := by
  cases h with
  | full h hl =>
    have groups := h.scan hrest (Nat.le_of_eq hl) true
    rw [if_pos rfl, List.nil_append] at groups
    simp [scan6, groups, hl]
  | @elided _ head tail ns ms hh ht hl hz =>
    have front := hh.scan (ends_colons (tail ++ rest)) (Nat.le_of_lt hl)
    have back := ht.scan hrest (show ms.length ≤ 8 - ns.length - sp.elided by omega)
    have short : ns.length ≠ 8 := by omega
    simp [scan6, front, back, short, Text.word]

end Reading

section Writing

theorem octet_toDigits (sp : Spelling) {n : Nat} (hn : n < 256) :
    Octet sp (Nat.toDigits 10 n) n where
  spells := spells_toDigits (by decide) (by decide) (by decide) (by omega) (by decide)
  lt := hn
  unpadded := by
    by_cases h : n = 0
    · subst h
      exact .inr (.inr rfl)
    · exact .inr (.inl (head?_toDigits (by decide) (by decide) h))

theorem group_toDigits {n : Nat} (hn : n < 65536) : Group (Nat.toDigits 16 n) n where
  spells := spells_toDigits (by decide) (by decide) (by decide) (by omega) (by decide)
  lt := hn

theorem octets_eq (a : Address4) : octets a =
    [a.toNat / 16777216 % 256, a.toNat / 65536 % 256, a.toNat / 256 % 256, a.toNat % 256] := by
  simp [octets, parts, Nat.div_div_eq_div_mul]

theorem octets_chars4 (sp : Spelling) (a : Address4) : Octets sp (chars4 a) (octets a) := by
  have octet (n : Nat) : Octet sp (Nat.toDigits 10 (n % 256)) (n % 256) :=
    octet_toDigits sp (Nat.mod_lt n (by decide))
  have written := Octets.mk (octet (a.toNat / 16777216)) (octet (a.toNat / 65536))
    (octet (a.toNat / 256)) (octet a.toNat)
  rw [chars4, octets_eq]
  simpa [List.intercalate] using written

theorem lt_of_mem_parts {size count n m : Nat} (hs : 0 < size) (h : m ∈ parts size count n) :
    m < size := by
  induction count generalizing n with
  | zero => exact nomatch h
  | succ k ih =>
    obtain h | h := List.mem_append.mp h
    · exact ih h
    · obtain rfl := List.mem_singleton.mp h
      exact Nat.mod_lt n hs

theorem groups_hexGroups (sp : Spelling) {ns : List Nat} (hne : ns ≠ [])
    (h : ∀ n ∈ ns, n < 65536) : Groups sp false (hexGroups ns) ns := by
  induction ns with
  | nil => exact absurd rfl hne
  | cons n ns ih =>
    obtain ⟨hn, hns⟩ := List.forall_mem_cons.mp h
    cases ns with
    | nil =>
      rw [hexGroups, List.map_singleton, List.intercalate_singleton]
      exact .one (group_toDigits hn)
    | cons m ns =>
      have others := ih (by simp) hns
      have written := Groups.more (group_toDigits hn) others
      simpa [hexGroups, List.intercalate] using written

theorem side_hexGroups (sp : Spelling) {ns : List Nat} (h : ∀ n ∈ ns, n < 65536) :
    Side sp false (hexGroups ns) ns := by
  cases ns with
  | nil => exact .nothing
  | cons n ns => exact .groups (groups_hexGroups sp (by simp) h)

theorem zeros_append_drop (gs : List Nat) :
    List.replicate (gs.takeWhile (· = 0)).length 0 ++
      gs.drop (gs.takeWhile (· = 0)).length = gs := by
  induction gs with
  | nil => rfl
  | cons g gs ih =>
    by_cases hg : g = 0
    · subst hg
      simpa [List.replicate_succ] using ih
    · simp [hg]

theorem take_longestZeros (gs : List Nat) :
    gs.take (longestZeros gs).1 ++ List.replicate (longestZeros gs).2 0 ++
      gs.drop ((longestZeros gs).1 + (longestZeros gs).2) = gs := by
  induction gs with
  | nil => rfl
  | cons g gs ih =>
    simp only [longestZeros]
    by_cases h : (longestZeros gs).2 ≤ ((g :: gs).takeWhile (· = 0)).length
    · rw [if_pos h]
      simpa only [List.take_zero, List.nil_append, Nat.zero_add] using zeros_append_drop (g :: gs)
    · have after : (longestZeros gs).1 + 1 + (longestZeros gs).2 =
          (longestZeros gs).1 + (longestZeros gs).2 + 1 := by omega
      rw [if_neg h]
      simpa only [after, List.take_succ_cons, List.drop_succ_cons, List.cons_append,
        List.cons.injEq, true_and] using ih

theorem groups_eq (a : Address6) : groups a =
    [a.toNat / 65536 ^ 7 % 65536, a.toNat / 65536 ^ 6 % 65536, a.toNat / 65536 ^ 5 % 65536,
      a.toNat / 65536 ^ 4 % 65536, a.toNat / 65536 ^ 3 % 65536, a.toNat / 65536 ^ 2 % 65536,
      a.toNat / 65536 % 65536, a.toNat % 65536] := by
  simp [groups, parts, Nat.div_div_eq_div_mul]

/-- An address of the mapped range is told by its last four octets. -/
theorem ofGroups_mapped {a : Address6} (h : (groups a).take 6 = [0, 0, 0, 0, 0, 65535]) :
    ofGroups (List.replicate 5 0 ++ 65535 :: parts 65536 2
      (join 256 (octets (BitVec.ofNat 32 a.toNat)))) = a := by
  have hlt := a.isLt
  rw [groups_eq] at h
  simp only [List.take_succ_cons, List.take_zero, List.cons.injEq, and_true] at h
  obtain ⟨h1, h2, h3, h4, h5, h6⟩ := h
  have low : join 256 (octets (BitVec.ofNat 32 a.toNat)) = a.toNat % 4294967296 := by
    simp [octets, join_parts]
  apply BitVec.eq_of_toNat_eq
  rw [low]
  simp [ofGroups, join, parts]
  omega

theorem written6_chars6 {sp : Spelling} (he : sp.elided ≤ 2) (a : Address6) :
    Written6 sp (chars6 a) a := by
  have small : ∀ n ∈ groups a, n < 65536 := fun n h => lt_of_mem_parts (by decide) h
  have eight : (groups a).length = 8 := length_parts 65536 8 a.toNat
  unfold chars6
  by_cases hm : (groups a).take 6 = [0, 0, 0, 0, 0, 65535]
  · rw [if_pos hm]
    have ffff : Group "ffff".toList 65535 := group_toDigits (n := 65535) (by decide)
    have tail := Groups.more ffff (.octets (octets_chars4 sp (BitVec.ofNat 32 a.toNat)))
    have written := Written6.elided .nothing (.groups tail) (by decide)
      (by simp [length_parts]; omega)
    simp only [List.length_nil, List.length_cons, length_parts, List.nil_append] at written
    rwa [ofGroups_mapped hm] at written
  · rw [if_neg hm]
    have cut := take_longestZeros (groups a)
    have within := longestZeros_le (groups a)
    generalize longestZeros (groups a) = run at cut within ⊢
    obtain ⟨start, count⟩ := run
    simp only at cut within ⊢
    by_cases hc : 2 ≤ count
    · rw [if_pos hc]
      have head := side_hexGroups sp fun n (h : n ∈ (groups a).take start) =>
        small n (List.mem_of_mem_take h)
      have tail := side_hexGroups sp fun n (h : n ∈ (groups a).drop (start + count)) =>
        small n (List.mem_of_mem_drop h)
      have written := Written6.elided head tail (by simp; omega) (by simp; omega)
      have left : 8 - ((groups a).take start).length - ((groups a).drop (start + count)).length =
          count := by
        simp
        omega
      rw [left, cut, ofGroups_groups] at written
      simpa using written
    · rw [if_neg hc]
      have some : groups a ≠ [] := by intro h; simp [h] at eight
      have written := Written6.full (groups_hexGroups sp some small) eight
      rwa [ofGroups_groups] at written

theorem written_chars {sp : Spelling} (he : sp.elided ≤ 2) (a : Address) :
    Written sp a.chars a := by
  cases a with
  | v4 a => exact ⟨octets a, octets_chars4 sp a, (ofOctets_octets a).symm⟩
  | v6 a => exact written6_chars6 he a

end Writing

theorem parse4?_text (a : Address4) : parse4? (text (.v4 a)) = some a := by
  have octets := (octets_chars4 .host a).scan stops_nil
  rw [List.append_nil] at octets
  simp [parse4?, text, chars, scan4, whole, octets, ofOctets_octets]

theorem parse6?_text (a : Address6) : parse6? (text (.v6 a)) = some a := by
  have written : Written6 .host (chars6 a) a := written6_chars6 (by decide) a
  have groups := written.scan ends_nil
  rw [List.append_nil] at groups
  simp [parse6?, text, chars, whole, groups]

end Peering.Address
