import Peering.Proofs.CanonicalLists
import Peering.Proofs.Headings
import Peering.Proofs.Rendering

/-!
What the text of emitted lists says. It is read line by line, without the lists in mind: a line that
opens a set, indented lines with comments or with items and what commas follow them, and a line that
closes the set. Just the lists that have items are found, and in each of them all its items, each
but the last with one comma.
-/
namespace Peering
open Peering.Filter (itemsOf)

namespace Bird

inductive SetLine where
  | comment (text : String)
  /-- The text of an item, and the number of commas behind it. -/
  | item (text : String) (commas : Nat)
  deriving DecidableEq, Repr

namespace SetLine

def item? : SetLine → Option (String × Nat)
  | comment _ => none
  | item text commas => some (text, commas)

def uncounted : SetLine → SetLine
  | comment text => comment text
  | item text _ => item text 0

/-- A line in a set is indented. One that starts with `#` is a comment. -/
def read (line : List Char) : Option SetLine := do
  let text ← line.dropPrefix? (margin 1)
  if text.head? = some '#' then return comment (String.ofList (text.drop 2))
  else
    let commas := (text.reverse.takeWhile (· = ',')).length
    return item (String.ofList (text.take (text.length - commas))) commas

end SetLine

/-- The sets that lines define, with what the lines in them say. Of the set that is open, the name
and the lines before are given. -/
def readSets : Option (String × List SetLine) → List (List Char) →
    Option (List (String × List SetLine))
  | none, [] => some []
  | some _, [] => none
  | none, line :: lines => do
    let name ← (line.dropPrefix? "define ".toList).bind (·.dropSuffix? " = [".toList)
    readSets (some (String.ofList name, [])) lines
  | some (name, body), line :: lines =>
    if line = "];".toList then do return (name, body) :: (← readSets none lines)
    else do readSets (some (name, body ++ [← SetLine.read line])) lines

/-- An item that is told from comments, and from the comma behind it. -/
structure Separable (i : String) : Prop where
  some : i ≠ ""
  plain : Plain i
  start : i.toList.head? ≠ .some '#'
  finish : i.toList.getLast? ≠ .some ','

def separated (items : List String) : List (String × Nat) :=
  items.dropLast.map (·, 1) ++ items.getLast?.toList.map (·, 0)

/-- What is said of items, with the number of those that are left. -/
def sayItems (left : Nat) : List String → List SetLine
  | [] => []
  | i :: is => .item i (if left = 1 then 0 else 1) :: sayItems (left - 1) is

def sayGroups (left : Nat) : List SetGroup → List SetLine
  | [] => []
  | g :: gs => .comment g.comment :: sayItems left g.items ++ sayGroups (left - g.items.length) gs

theorem chars_of_ne {d : Nat} {t : String} (h : t ≠ "") :
    (Line.mk d t).chars = margin d ++ t.toList := if_neg h

theorem read_comment (s : String) :
    SetLine.read (Line.mk 1 ("# " ++ s)).chars = some (.comment s) := by
  have some : "# " ++ s ≠ "" := by simp
  rw [chars_of_ne some, SetLine.read, dropPrefix?_append]
  simp

theorem read_indented {t : List Char} (h : t.head? ≠ some '#') :
    SetLine.read (margin 1 ++ t) = some
      (.item (String.ofList (t.take (t.length - (t.reverse.takeWhile (· = ',')).length)))
        (t.reverse.takeWhile (· = ',')).length) := by
  rw [SetLine.read, dropPrefix?_append]
  simp [h]

theorem read_item {i : String} (h : Separable i) (last : Prop) [Decidable last] :
    SetLine.read (Line.mk 1 (if last then i else i ++ ",")).chars =
      some (.item i (if last then 0 else 1)) := by
  have some : i.toList ≠ [] := fun hi => h.some (String.toList_eq_nil_iff.mp hi)
  have stops : Text.Stops (· = ',') i.toList.reverse := by
    intro c hc
    rw [List.head?_reverse] at hc
    exact decide_eq_false fun hcomma => h.finish (hcomma ▸ hc)
  have commas := Text.takeWhile_of_stops stops
  by_cases hlast : last
  · rw [if_pos hlast, if_pos hlast, chars_of_ne h.some, read_indented h.start, commas]
    simp
  · have start : (i.toList ++ [',']).head? ≠ .some '#' := by
      rw [List.head?_append_of_ne_nil _ some]
      exact h.start
    rw [if_neg hlast, if_neg hlast, chars_of_ne (by simp), String.toList_append]
    refine (read_indented start).trans ?_
    simp [commas]

theorem mapM_read_itemLines {left : Nat} {items : List String} (h : ∀ i ∈ items, Separable i) :
    (written (itemLines 1 left items)).mapM SetLine.read = some (sayItems left items) := by
  induction items generalizing left with
  | nil => rfl
  | cons i items ih =>
    obtain ⟨hi, his⟩ := List.forall_mem_cons.mp h
    rw [itemLines, written_cons, List.mapM_cons, read_item hi, ih his]
    rfl

theorem mapM_read_groupLines {left : Nat} {groups : List SetGroup}
    (h : ∀ g ∈ groups, ∀ i ∈ g.items, Separable i) :
    (written (groupLines 1 left groups)).mapM SetLine.read = some (sayGroups left groups) := by
  induction groups generalizing left with
  | nil => rfl
  | cons g groups ih =>
    obtain ⟨hg, hgs⟩ := List.forall_mem_cons.mp h
    rw [groupLines, List.cons_append, written_cons, written_append, List.mapM_cons, read_comment,
      List.mapM_append, mapM_read_itemLines hg, ih hgs]
    rfl

theorem sayItems_append (left : Nat) (is js : List String) :
    sayItems left (is ++ js) = sayItems left is ++ sayItems (left - is.length) js := by
  induction is generalizing left with
  | nil => rfl
  | cons i is ih =>
    have after : left - 1 - is.length = left - (i :: is).length := by
      rw [List.length_cons]
      omega
    rw [List.cons_append, sayItems, ih, after, sayItems, List.cons_append]

theorem item?_sayGroups (left : Nat) (groups : List SetGroup) :
    (sayGroups left groups).filterMap SetLine.item? =
      (sayItems left (groups.flatMap (·.items))).filterMap SetLine.item? := by
  induction groups generalizing left with
  | nil => rfl
  | cons g groups ih =>
    rw [sayGroups, List.flatMap_cons, sayItems_append, List.filterMap_append,
      List.filterMap_append, ih]
    rfl

theorem item?_sayItems (items : List String) :
    (sayItems items.length items).filterMap SetLine.item? = separated items := by
  induction items with
  | nil => rfl
  | cons i items ih =>
    cases items with
    | nil => rfl
    | cons j items =>
      have more : (i :: j :: items).length ≠ 1 := by simp
      have rest : (i :: j :: items).length - 1 = (j :: items).length := rfl
      rw [sayItems, if_neg more, rest, List.filterMap_cons, ih]
      rfl

theorem uncounted_sayItems (left : Nat) (items : List String) :
    (sayItems left items).map SetLine.uncounted = items.map (.item · 0) := by
  induction items generalizing left with
  | nil => rfl
  | cons i items ih => rw [sayItems, List.map_cons, ih, List.map_cons, SetLine.uncounted]

theorem uncounted_sayGroups (left : Nat) (groups : List SetGroup) :
    (sayGroups left groups).map SetLine.uncounted =
      groups.flatMap fun g => .comment g.comment :: g.items.map (.item · 0) := by
  induction groups generalizing left with
  | nil => rfl
  | cons g groups ih =>
    rw [sayGroups, List.cons_append, List.map_cons, List.map_append, uncounted_sayItems, ih,
      List.flatMap_cons]
    rfl

theorem readSets_body {name : String} {said more : List SetLine} {body rest : List (List Char)}
    (h : body.mapM SetLine.read = some more) :
    readSets (some (name, said)) (body ++ "];".toList :: rest) =
      (readSets none rest).map ((name, said ++ more) :: ·) := by
  induction body generalizing said more with
  | nil =>
    rw [List.mapM_nil] at h
    obtain rfl := Option.some.inj h
    rw [List.nil_append, readSets, if_pos rfl, List.append_nil]
    cases readSets none rest <;> rfl
  | cons line body ih =>
    rw [List.mapM_cons] at h
    obtain ⟨first, hfirst, h⟩ := Option.bind_eq_some_iff.mp h
    obtain ⟨others, hothers, h⟩ := Option.bind_eq_some_iff.mp h
    obtain rfl := Option.some.inj h
    have unclosed : line ≠ "];".toList := by
      rintro rfl
      exact nomatch hfirst
    rw [List.cons_append, readSets, if_neg unclosed, hfirst]
    refine (ih hothers).trans ?_
    rw [List.append_assoc]
    rfl

theorem readSets_set {name : String} {groups : List SetGroup}
    (h : ∀ g ∈ groups, ∀ i ∈ g.items, Separable i) (rest : List (List Char)) :
    readSets none (written ((Statement.defineSet name groups).lines 0 "") ++ rest) =
      (readSets none rest).map
        ((name, sayGroups (groups.flatMap (·.items)).length groups) :: ·) := by
  have opening : (Line.mk 0 ("define " ++ name ++ " = [")).chars =
      "define ".toList ++ (name.toList ++ " = [".toList) := by
    rw [chars_of_ne (by simp)]
    simp [margin]
  have closing : (Line.mk 0 "];").chars = "];".toList := rfl
  rw [Statement.lines, List.cons_append, written_cons, written_append, opening, written_cons,
    closing, written_nil, List.cons_append, List.append_assoc, readSets, dropPrefix?_append,
    Option.bind_some, dropSuffix?_append]
  refine (readSets_body (mapM_read_groupLines h)).trans ?_
  rw [String.ofList_toList, List.nil_append]
  rfl

end Bird

namespace NamedList
open Bird

/-- A list whose texts can be told apart once they are written. -/
structure Writable (l : NamedList) : Prop where
  name : Plain l.name
  objects : ∀ g ∈ l.groups, ∀ o ∈ g.object, Plain o
  items : ∀ i ∈ itemsOf l.groups, Separable i

/-- What a set has to say, for it to be that of the list: all items, each but the last with one
comma, and in front of those of each origin that gives any, their number and this origin. -/
structure WrittenAs (l : NamedList) (set : String × List SetLine) : Prop where
  name : set.1 = l.name
  items : set.2.filterMap SetLine.item? = separated (itemsOf l.groups)
  groups : set.2.map SetLine.uncounted =
    (l.groups.filter fun g => g.items ≠ []).flatMap fun g =>
      .comment (toString g.items.length ++ " " ++ originText g.object) ::
        g.items.map (.item · 0)

def shown (l : NamedList) : List SetGroup :=
  (l.groups.filter fun g => g.items ≠ []).map fun g => ⟨g.title, g.items⟩

theorem statement_eq (l : NamedList) : l.statement = .defineSet l.name l.shown := by
  have full : (fun g : Group String => !g.items.isEmpty) = fun g => decide (g.items ≠ []) := by
    funext g
    cases g.items <;> rfl
  rw [statement, full, shown]

theorem items_shown (l : NamedList) : l.shown.flatMap (·.items) = itemsOf l.groups := by
  rw [shown, itemsOf]
  induction l.groups with
  | nil => rfl
  | cons g groups ih => by_cases h : g.items = [] <;> simp_all

theorem full_shown (l : NamedList) : ∀ g ∈ l.shown, g.items ≠ [] := by
  rw [shown, List.forall_mem_map]
  exact fun g hg => of_decide_eq_true (List.mem_filter.mp hg).2

theorem isEmpty_iff (l : NamedList) : l.isEmpty = true ↔ itemsOf l.groups = [] := by
  simp [isEmpty, itemsOf]

theorem shown_ne_nil {l : NamedList} (h : l.isEmpty = false) : l.shown ≠ [] := by
  intro none
  have items := l.items_shown
  rw [none, List.flatMap_nil, eq_comm, ← isEmpty_iff, h] at items
  exact Bool.false_ne_true items

theorem writtenAs_sayGroups (l : NamedList) :
    l.WrittenAs (l.name, sayGroups (l.shown.flatMap (·.items)).length l.shown) where
  name := rfl
  items := by rw [item?_sayGroups, item?_sayItems, items_shown]
  groups := by
    rw [uncounted_sayGroups, shown, List.flatMap_map]
    simp only [← Group.title_eq]

theorem Writable.separable {l : NamedList} (h : l.Writable) :
    ∀ g ∈ l.shown, ∀ i ∈ g.items, Separable i := by
  intro g hg i hi
  refine h.items i ?_
  rw [← items_shown]
  exact List.mem_flatMap.mpr ⟨g, hg, hi⟩

theorem Writable.plain {l : NamedList} (h : l.Writable) : ∀ t ∈ l.statement.texts, Plain t := by
  rw [statement_eq, Statement.texts, List.forall_mem_cons, List.forall_mem_flatMap]
  refine ⟨h.name, fun g hg => List.forall_mem_cons.mpr
    ⟨?_, fun i hi => (h.separable g hg i hi).plain⟩⟩
  obtain ⟨origin, horigin, rfl⟩ := List.mem_map.mp hg
  exact Group.plain_title_iff.mpr (h.objects origin (List.mem_of_mem_filter horigin))

theorem readSets_statements {ls : List NamedList} (h : ∀ l ∈ ls, l.Writable) :
    ∃ sets, readSets none (written (lines 0 (ls.map statement))) = some sets ∧
      List.Forall₂ WrittenAs ls sets := by
  induction ls with
  | nil => exact ⟨[], rfl, .nil⟩
  | cons l ls ih =>
    obtain ⟨hl, hls⟩ := List.forall_mem_cons.mp h
    obtain ⟨sets, hsets, written⟩ := ih hls
    refine ⟨_, ?_, .cons l.writtenAs_sayGroups written⟩
    rw [List.map_cons, lines, written_append, statement_eq, readSets_set hl.separable, hsets]
    rfl

/-- Lists are emitted faithfully. The text that comes out is one of lines, and these say no more and
no less than the lists that have items do, in their order. -/
theorem emitted_sets_say_lists {ls : List NamedList} (h : ∀ l ∈ ls, l.Writable) :
    ∃ text sets, (emit ls).toList = text.flatMap (· ++ ['\n']) ∧ (∀ line ∈ text, '\n' ∉ line) ∧
      readSets none text = some sets ∧
      List.Forall₂ WrittenAs (ls.filter fun l => itemsOf l.groups ≠ []) sets := by
  have full : ls.filter (fun l => !l.isEmpty) = ls.filter fun l => itemsOf l.groups ≠ [] := by
    refine List.filter_congr fun l _ => ?_
    rw [Bool.eq_iff_iff, Bool.not_eq_true', ← Bool.not_eq_true, isEmpty_iff, decide_eq_true_eq]
  have writable : ∀ l ∈ ls.filter fun l => itemsOf l.groups ≠ [], l.Writable :=
    fun l hl => h l (List.mem_of_mem_filter hl)
  obtain ⟨sets, hsets, hlists⟩ := readSets_statements writable
  refine ⟨_, sets, ?_, ?_, hsets, hlists⟩
  · rw [emit, statements, full, toList_render]
  · refine not_mem_written fun t ht => ?_
    rw [texts_eq_flatMap] at ht
    obtain ⟨s, hs, ht⟩ := List.mem_flatMap.mp ht
    obtain ⟨l, hl, rfl⟩ := List.mem_map.mp hs
    exact (writable l (full ▸ hl)).plain t ht

theorem emitted_sets_say_lists_origins :
    let networks : NamedList := ⟨"NETS", [⟨none, ["10.0.0.0/8\x7b8,24\x7d"]⟩, ⟨some "AS-NONE", []⟩,
      ⟨some "AS-SOME", ["192.0.2.0/24", "198.51.100.0/24"]⟩]⟩
    let unused : NamedList := ⟨"UNUSED", [⟨none, []⟩]⟩
    let origins : NamedList := ⟨"ASNS", [⟨none, ["64496"]⟩]⟩
    (∀ l ∈ [networks, unused, origins], l.Writable) ∧
      ∃ text sets, (emit [networks, unused, origins]).toList = text.flatMap (· ++ ['\n']) ∧
        (∀ line ∈ text, '\n' ∉ line) ∧ readSets none text = some sets ∧
        List.Forall₂ WrittenAs [networks, origins] sets := by
  intro networks unused origins
  have separable : ∀ l ∈ [networks, unused, origins], ∀ i ∈ itemsOf l.groups,
      i ≠ "" ∧ Plain i ∧ i.toList.head? ≠ some '#' ∧ i.toList.getLast? ≠ some ',' := by decide
  have writable : ∀ l ∈ [networks, unused, origins], l.Writable := fun l hl =>
    { name := (by decide : ∀ l ∈ [networks, unused, origins], Plain l.name) l hl
      objects := (by decide : ∀ l ∈ [networks, unused, origins], ∀ g ∈ l.groups, ∀ o ∈ g.object,
        Plain o) l hl
      items := fun i hi => by
        obtain ⟨some, plain, start, finish⟩ := separable l hl i hi
        exact ⟨some, plain, start, finish⟩ }
  exact ⟨writable, emitted_sets_say_lists writable⟩

end NamedList
end Peering
