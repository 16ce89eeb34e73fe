import Mathlib.Data.List.Infix
import Peering.Proofs.LineBreaks

/-!
The structure of statements: which stand in which, with the texts that are put on lines as they are.
A line that holds all of a statement counts for no more than its text. Each statement starts with a
line of its own, at its depth, and the lines behind that one do not depend on what leads to it.
Where texts have no line breaks, all lines are seen in what is written, each with its depth.
-/
namespace Peering.Bird

inductive Outline where
  | line (text : String)
  | set (name : String) (groups : List SetGroup)
  | cond (test : String) (yes no : List Outline)
  | function (signature : String) (body : List Outline)
  | filter (name : String) (locals : List String) (body : List Outline)
  | block (header : String) (body : List Outline) (terminated : Bool)
  deriving Repr

mutual

def Statement.outline : Statement → Outline
  | .blank => .line ""
  | .comment s => .line ("# " ++ s)
  | .define name value => .line ("define " ++ name ++ " = " ++ value ++ ";")
  | .defineSet name groups => .set name groups
  | .cond test yes no => .cond test.text (outlines yes) (outlines no)
  | .function name params returns body => .function (signature name params returns) (outlines body)
  | .filter name locals body => .filter name locals (outlines body)
  | .block header body terminated => .block header (outlines body) terminated
  | s => .line (s.inline?.getD "")

def outlines : List Statement → List Outline
  | [] => []
  | s :: ss => s.outline :: outlines ss

end

namespace Statement

theorem outline_of_inline {s : Statement} {t : String} (h : s.inline? = some t) :
    s.outline = .line t := by
  cases s <;> cases h <;> rfl

def first : Statement → String
  | .blank => ""
  | .comment s => "# " ++ s
  | .define name value => "define " ++ name ++ " = " ++ value ++ ";"
  | .defineSet name _ => "define " ++ name ++ " = ["
  | .cond test yes no =>
    "if " ++ test.text ++ " then " ++ (Statement.inlineBranch? yes no).getD "\x7b"
  | .function name params returns _ => signature name params returns
  | .filter name _ _ => "filter " ++ name
  | .block header _ _ => header ++ " \x7b"
  | s => s.inline?.getD ""

def more (depth : Nat) : Statement → List Line
  | .defineSet _ groups =>
    groupLines (depth + 1) (groups.flatMap (·.items)).length groups ++ [⟨depth, "];"⟩]
  | .cond _ yes no =>
    match Statement.inlineBranch? yes no with
    | some _ => []
    | none => Bird.lines (depth + 1) yes ++ elseLines depth no
  | .function _ _ _ body => ⟨depth, "\x7b"⟩ :: Bird.lines (depth + 1) body ++ [⟨depth, "\x7d"⟩]
  | .filter _ locals body =>
    locals.map (fun l => ⟨depth, l ++ ";"⟩) ++
      ⟨depth, "\x7b"⟩ :: Bird.lines (depth + 1) body ++ [⟨depth, "\x7d"⟩]
  | .block _ body terminated =>
    Bird.lines (depth + 1) body ++ [⟨depth, if terminated then "\x7d;" else "\x7d"⟩]
  | _ => []

theorem lines_cond (depth : Nat) (lead : String) (test : Expr) (yes no : List Statement) :
    (Statement.cond test yes no).lines depth lead =
      ⟨depth, lead ++ (Statement.cond test yes no).first⟩ ::
        (Statement.cond test yes no).more depth := by
  rw [Statement.lines, first, more]
  cases Statement.inlineBranch? yes no <;> simp [String.append_assoc]

theorem lines_eq (depth : Nat) (s : Statement) :
    s.lines depth "" = ⟨depth, s.first⟩ :: s.more depth := by
  cases s with
  | cond test yes no => rw [lines_cond, String.empty_append]
  | _ => simp [Statement.lines, first, more]

theorem lines_of_chains (depth : Nat) (lead : String) {s : Statement} (h : s.chains = true) :
    s.lines depth lead = ⟨depth, lead ++ s.first⟩ :: s.more depth := by
  cases s with
  | cond test yes no => exact lines_cond depth lead test yes no
  | _ => cases h

end Statement

theorem lines_cons (depth : Nat) (s : Statement) (ss : List Statement) :
    lines depth (s :: ss) = ⟨depth, s.first⟩ :: (s.more depth ++ lines depth ss) := by
  rw [lines, Statement.lines_eq, List.cons_append]

/-! ### What texts may look like -/

/-- What lines start with that are not just text. -/
def marks : List String := ["if ", "\x7d", "#", "filter ", "function ", "define ", "]"]

/-- What lines end with behind which something stands that belongs to them. -/
def joints : List String := ["\x7b", "[", ","]

/-- The text is not taken for a part of something else. -/
structure Unmarked (s : String) : Prop where
  start : ∀ m ∈ marks, ¬ m.toList <+: s.toList
  finish : ∀ j ∈ joints, ¬ j.toList <:+ s.toList

instance (s : String) : Decidable (Unmarked s) :=
  decidable_of_iff ((∀ m ∈ marks, ¬ m.toList <+: s.toList) ∧ ∀ j ∈ joints, ¬ j.toList <:+ s.toList)
    ⟨fun h => ⟨h.1, h.2⟩, fun h => ⟨h.start, h.finish⟩⟩

namespace Statement

/-- What a statement puts at the start of lines is unmarked, and its condition has no `then`. -/
def Clear : Statement → Prop
  | .defineSet _ groups => ∀ g ∈ groups, ∀ i ∈ g.items, Unmarked i
  | .setting s | .call s | .assign s _ | .block s _ _ => Unmarked s
  | .cond test _ _ => ¬ "then".toList <:+: test.text.toList
  | _ => True

/-- An assignment to a word that a conditional or a filter starts with, or a block that has the word
for a filter as its header. -/
def Keyworded : Statement → Prop
  | .assign target _ => target = "if" ∨ target = "filter"
  | .block header _ _ => header = "filter"
  | _ => False

def Told (s : Statement) : Prop := s.Clear ∧ ¬ s.Keyworded

end Statement

mutual

def Statement.Throughout (P : Statement → Prop) : Statement → Prop
  | .cond test yes no => P (.cond test yes no) ∧ throughout P yes ∧ throughout P no
  | .function name params returns body =>
    P (.function name params returns body) ∧ throughout P body
  | .filter name locals body => P (.filter name locals body) ∧ throughout P body
  | .block header body terminated => P (.block header body terminated) ∧ throughout P body
  | s => P s

def throughout (P : Statement → Prop) : List Statement → Prop
  | [] => True
  | s :: ss => s.Throughout P ∧ throughout P ss

end

/-! ### Lines as they are written -/

def margin (d : Nat) : List Char := List.replicate (2 * d) ' '

def Line.chars (l : Line) : List Char :=
  if l.text = "" then [] else margin l.depth ++ l.text.toList

def written (ls : List Line) : List (List Char) := ls.map Line.chars

@[simp] theorem written_nil : written [] = [] := rfl

@[simp] theorem written_cons (l : Line) (ls : List Line) :
    written (l :: ls) = l.chars :: written ls := rfl

@[simp] theorem written_append (ls ms : List Line) :
    written (ls ++ ms) = written ls ++ written ms := List.map_append

@[simp] theorem length_written (ls : List Line) : (written ls).length = ls.length :=
  List.length_map _

theorem Line.toList_write (l : Line) : l.write.toList = l.chars ++ ['\n'] := by
  have indent (d : Nat) : (String.join (List.replicate d "  ")).toList = margin d := by
    induction d with
    | zero => rfl
    | succ d ih =>
      rw [List.replicate_succ, String.join_cons, String.toList_append, ih]
      rfl
  unfold write chars
  split
  · rfl
  · simp [indent]

theorem toList_render (ss : List Statement) :
    (render ss).toList = (written (lines 0 ss)).flatMap (· ++ ['\n']) := by
  rw [render, String.toList_join, written, List.flatMap_map, List.flatMap_map]
  simp only [Line.toList_write]

theorem append_break_inj {xs ys us vs : List Char} (hx : '\n' ∉ xs) (hy : '\n' ∉ ys)
    (h : xs ++ '\n' :: us = ys ++ '\n' :: vs) : xs = ys ∧ us = vs := by
  have takes {as : List Char} (ha : '\n' ∉ as) (bs : List Char) :
      (as ++ '\n' :: bs).takeWhile (· ≠ '\n') = as := by
    rw [List.takeWhile_append_of_pos fun c hc => decide_eq_true (ne_of_mem_of_not_mem hc ha)]
    simp
  obtain rfl : xs = ys := by rw [← takes hx us, h, takes hy]
  simpa using h

/-- Lines without line breaks in them are told from the text that they make. -/
theorem eq_of_flatMap_eq {ls ms : List (List Char)} (hl : ∀ l ∈ ls, '\n' ∉ l)
    (hm : ∀ m ∈ ms, '\n' ∉ m) (h : ls.flatMap (· ++ ['\n']) = ms.flatMap (· ++ ['\n'])) :
    ls = ms := by
  induction ls generalizing ms with
  | nil => cases ms with
    | nil => rfl
    | cons m ms => simp at h
  | cons l ls ih => cases ms with
    | nil => simp at h
    | cons m ms =>
      rw [List.forall_mem_cons] at hl hm
      simp only [List.flatMap_cons, List.append_assoc, List.singleton_append] at h
      obtain ⟨rfl, later⟩ := append_break_inj hl.1 hm.1 h
      rw [ih hl.2 hm.2 later]

theorem not_mem_written {ss : List Statement} (h : ∀ t ∈ texts ss, Plain t) :
    ∀ l ∈ written (lines 0 ss), '\n' ∉ l := by
  have plain := breaksOf_eq_zero_iff.mp
    ((breaksOf_statements 0 ss).trans (breaksOf_eq_zero_iff.mpr h))
  intro l hl
  obtain ⟨l, hmem, rfl⟩ := List.mem_map.mp hl
  unfold Line.chars
  split
  · exact List.not_mem_nil
  · rw [List.mem_append, not_or]
    refine ⟨fun hn => ?_, plain _ (List.mem_map_of_mem hmem)⟩
    exact absurd (List.eq_of_mem_replicate hn) (by decide)

theorem written_eq_of_render_eq {ss ts : List Statement} (hs : ∀ t ∈ texts ss, Plain t)
    (ht : ∀ t ∈ texts ts, Plain t) (h : render ss = render ts) :
    written (lines 0 ss) = written (lines 0 ts) := by
  refine eq_of_flatMap_eq (not_mem_written hs) (not_mem_written ht) ?_
  rw [← toList_render, ← toList_render, h]

def textAt (d : Nat) (l : List Char) : List Char := l.drop (2 * d)

@[simp] theorem textAt_chars (d : Nat) (t : String) : textAt d (Line.chars ⟨d, t⟩) = t.toList := by
  unfold textAt Line.chars
  split
  · simp_all
  · simp [margin]

theorem chars_inj {d : Nat} {t u : String} : Line.chars ⟨d, t⟩ = Line.chars ⟨d, u⟩ ↔ t = u := by
  refine ⟨fun h => ?_, fun h => h ▸ rfl⟩
  have same := congrArg (textAt d) h
  rwa [textAt_chars, textAt_chars, String.toList_inj] at same

def Outer (d : Nat) (l : List Char) : Prop := l ≠ [] ∧ ¬ margin d <+: l

instance (d : Nat) (l : List Char) : Decidable (Outer d l) := inferInstanceAs (Decidable (_ ∧ _))

theorem margin_le {d e : Nat} (h : d ≤ e) : margin d <+: margin e := by
  have parts : 2 * e = 2 * d + (2 * e - 2 * d) := by omega
  exact ⟨List.replicate (2 * e - 2 * d) ' ', by
    rw [margin, margin, List.replicate_append_replicate, ← parts]⟩

theorem not_outer_chars {d e : Nat} (h : d ≤ e) (t : String) :
    ¬ Outer d (Line.chars ⟨e, t⟩) := by
  rintro ⟨hne, hm⟩
  unfold Line.chars at hne hm
  split at hm
  · simp_all
  · exact hm ((margin_le h).trans (List.prefix_append _ _))

theorem outer_chars {d e : Nat} (h : d < e) {t : String} {c : Char} {cs : List Char}
    (ht : t.toList = c :: cs) (hc : c ≠ ' ') : Outer e (Line.chars ⟨d, t⟩) := by
  have text : t ≠ "" := by
    rintro rfl
    cases ht
  have deeper : margin (d + 1) = margin d ++ [' ', ' '] := by
    rw [margin, margin, Nat.mul_succ, ← List.replicate_append_replicate]
    rfl
  rw [Line.chars, if_neg text, ht]
  refine ⟨by simp, fun hm => ?_⟩
  have hm := deeper ▸ (margin_le h).trans hm
  have := (List.prefix_append_right_inj _).mp hm
  simp [hc.symm] at this

end Peering.Bird
