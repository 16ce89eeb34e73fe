import Mathlib.Data.List.Count
import Mathlib.Data.String.Basic
import Peering.Bird.Statement

/-!
The lines of rendered statements. A statement prescribes a number of lines, whatever the texts are
that it puts on them; the rendered text has as many lines as that, and one more for each line break
in these texts.
-/
namespace Peering

def lineBreaks (s : String) : Nat := s.toList.count '\n'

/-- The text stays on the line that it is put on. -/
def Plain (s : String) : Prop := '\n' ∉ s.toList

instance (s : String) : Decidable (Plain s) := inferInstanceAs (Decidable (¬ _))

theorem lineBreaks_eq_zero_iff {s : String} : lineBreaks s = 0 ↔ Plain s := List.count_eq_zero

@[simp] theorem lineBreaks_append (s t : String) :
    lineBreaks (s ++ t) = lineBreaks s + lineBreaks t := by
  simp [lineBreaks]

def breaksOf : List String → Nat
  | [] => 0
  | t :: ts => lineBreaks t + breaksOf ts

@[simp] theorem breaksOf_nil : breaksOf [] = 0 := rfl

@[simp] theorem breaksOf_cons (t : String) (ts : List String) :
    breaksOf (t :: ts) = lineBreaks t + breaksOf ts := rfl

@[simp] theorem breaksOf_append (ts us : List String) :
    breaksOf (ts ++ us) = breaksOf ts + breaksOf us := by
  induction ts with
  | nil => simp
  | cons t ts ih => rw [List.cons_append, breaksOf_cons, ih, breaksOf_cons, Nat.add_assoc]

theorem breaksOf_map {g : String → String} (h : ∀ t, lineBreaks (g t) = lineBreaks t)
    (ts : List String) : breaksOf (ts.map g) = breaksOf ts := by
  induction ts with
  | nil => rfl
  | cons t ts ih => rw [List.map_cons, breaksOf_cons, h, ih, breaksOf_cons]

theorem breaksOf_eq_zero_iff {ts : List String} : breaksOf ts = 0 ↔ ∀ t ∈ ts, Plain t := by
  induction ts with
  | nil => simp
  | cons t ts ih => simp [ih, lineBreaks_eq_zero_iff]

theorem lineBreaks_join (ts : List String) : lineBreaks (String.join ts) = breaksOf ts := by
  induction ts with
  | nil => rfl
  | cons t ts ih => rw [String.join_cons, lineBreaks_append, ih, breaksOf_cons]

theorem lineBreaks_intercalate {sep : String} (hsep : Plain sep) (ts : List String) :
    lineBreaks (sep.intercalate ts) = breaksOf ts := by
  induction ts with
  | nil => rfl
  | cons t ts ih =>
    cases ts with
    | nil => simp
    | cons u us =>
      rw [String.intercalate_cons_cons, lineBreaks_append, lineBreaks_append, ih,
        lineBreaks_eq_zero_iff.mpr hsep, Nat.add_zero, ← breaksOf_cons]

namespace Bird

mutual

def Statement.texts : Statement → List String
  | .blank | .accept | .reject => []
  | .comment s | .setting s | .call s => [s]
  | .define name value => [name, value]
  | .defineSet name groups => name :: groups.flatMap fun g => g.comment :: g.items
  | .assign target value => [target, value]
  | .cond test yes no => test.text :: texts yes ++ texts no
  | .ret e => [e.text]
  | .function name params returns body => name :: params ++ returns.toList ++ texts body
  | .filter name locals body => name :: locals ++ texts body
  | .block header body _ => header :: texts body

def texts : List Statement → List String
  | [] => []
  | s :: ss => s.texts ++ texts ss

end

theorem texts_eq_flatMap (ss : List Statement) : texts ss = ss.flatMap Statement.texts := by
  induction ss with
  | nil => rfl
  | cons s ss ih => rw [texts, ih, List.flatMap_cons]

theorem lineBreaks_write (l : Line) : lineBreaks l.write = lineBreaks l.text + 1 := by
  have indent : breaksOf (List.replicate l.depth "  ") = 0 :=
    breaksOf_eq_zero_iff.mpr fun t ht => List.eq_of_mem_replicate ht ▸ by decide
  unfold Line.write
  split
  · rename_i h
    rw [h]
    rfl
  · rw [lineBreaks_append, lineBreaks_append, lineBreaks_join, indent, Nat.zero_add]
    rfl

theorem breaksOf_itemLines (depth left : Nat) (items : List String) :
    breaksOf ((itemLines depth left items).map Line.text) = breaksOf items := by
  induction items generalizing left with
  | nil => rfl
  | cons i items ih =>
    rw [itemLines, List.map_cons, breaksOf_cons, breaksOf_cons, ih]
    split
    · rfl
    · rw [lineBreaks_append]
      rfl

theorem breaksOf_groupLines (depth left : Nat) (groups : List SetGroup) :
    breaksOf ((groupLines depth left groups).map Line.text) =
      breaksOf (groups.flatMap fun g => g.comment :: g.items) := by
  induction groups generalizing left with
  | nil => rfl
  | cons g groups ih =>
    have titled : lineBreaks ("# " ++ g.comment) = lineBreaks g.comment := by simp [lineBreaks]
    simp [groupLines, breaksOf_itemLines, ih, titled]

theorem lineBreaks_inline {s : Statement} {t : String} (h : s.inline? = some t) :
    lineBreaks t = breaksOf s.texts := by
  cases s <;> simp only [Statement.inline?, Option.some.injEq, reduceCtorEq] at h
  all_goals
    obtain rfl := h
    simp [Statement.texts, lineBreaks]

theorem lineBreaks_inlineBranch {yes no : List Statement} {t : String}
    (h : Statement.inlineBranch? yes no = some t) :
    lineBreaks t = breaksOf (texts yes) + breaksOf (texts no) := by
  unfold Statement.inlineBranch? at h
  split at h
  · simp [texts, lineBreaks_inline h]
  · cases h

theorem lineBreaks_signature (name : String) (params : List String) (returns : Option String) :
    lineBreaks (signature name params returns) =
      lineBreaks name + breaksOf params + breaksOf returns.toList := by
  have joined : lineBreaks ("; ".intercalate params) = breaksOf params :=
    lineBreaks_intercalate (by decide) params
  have words : lineBreaks "function " = 0 ∧ lineBreaks "(" = 0 ∧ lineBreaks ")" = 0 ∧
      lineBreaks " -> " = 0 ∧ lineBreaks "" = 0 := by decide
  unfold signature
  cases returns <;> simp [joined, words]

mutual

theorem breaksOf_statement (depth : Nat) {lead : String} (hlead : lineBreaks lead = 0) :
    (s : Statement) → breaksOf ((s.lines depth lead).map Line.text) = breaksOf s.texts
  | .blank => rfl
  | .comment s => by simp [Statement.lines, Statement.texts, lineBreaks]
  | .define name value => by simp [Statement.lines, Statement.texts, lineBreaks]
  | .defineSet name groups => by
    simp [Statement.lines, Statement.texts, breaksOf_groupLines, lineBreaks]
  | .cond test yes no => by
    rw [Statement.lines, Statement.texts]
    cases h : Statement.inlineBranch? yes no with
    | some t =>
      have branch := lineBreaks_inlineBranch h
      simp only [lineBreaks] at hlead branch
      simp [lineBreaks, branch, hlead]
    | none =>
      simp only [lineBreaks] at hlead
      simp [lineBreaks, breaksOf_statements (depth + 1) yes, breaksOf_else depth no, hlead]
  | .function name params returns body => by
    have head := lineBreaks_signature name params returns
    simp only [lineBreaks] at head
    simp [Statement.lines, Statement.texts, lineBreaks, head, breaksOf_statements (depth + 1) body]
    omega
  | .filter name locals body => by
    have ended : breaksOf (locals.map fun l => l ++ ";") = breaksOf locals :=
      breaksOf_map (fun l => by simp [lineBreaks]) locals
    simp [Statement.lines, Statement.texts, lineBreaks, Function.comp_def, ended,
      breaksOf_statements (depth + 1) body]
  | .block header body terminated => by
    rw [Statement.lines, Statement.texts]
    cases terminated <;> simp [lineBreaks, breaksOf_statements (depth + 1) body]
  | .setting s => by simp [Statement.lines, Statement.inline?, Statement.texts, lineBreaks]
  | .assign target value => by
    simp [Statement.lines, Statement.inline?, Statement.texts, lineBreaks]
  | .call s => by simp [Statement.lines, Statement.inline?, Statement.texts, lineBreaks]
  | .ret e => by simp [Statement.lines, Statement.inline?, Statement.texts, lineBreaks]
  | .accept => by simp [Statement.lines, Statement.inline?, Statement.texts, lineBreaks]
  | .reject => by simp [Statement.lines, Statement.inline?, Statement.texts, lineBreaks]

theorem breaksOf_statements (depth : Nat) :
    (ss : List Statement) → breaksOf ((lines depth ss).map Line.text) = breaksOf (texts ss)
  | [] => rfl
  | s :: ss => by
    rw [lines, texts, List.map_append, breaksOf_append, breaksOf_append,
      breaksOf_statement depth rfl s, breaksOf_statements depth ss]

theorem breaksOf_else (depth : Nat) :
    (ss : List Statement) → breaksOf ((elseLines depth ss).map Line.text) = breaksOf (texts ss)
  | [] => by simp [elseLines, texts, lineBreaks]
  | s :: ss => by
    have first : breaksOf ((s.lines (depth + 1) "").map Line.text) = breaksOf s.texts :=
      breaksOf_statement (depth + 1) rfl s
    rw [elseLines, texts]
    split
    · -- The conditional goes on behind the `else`, and nothing comes after it.
      rename_i h
      have hss : ss = [] := List.isEmpty_iff.mp (Bool.and_eq_true_iff.mp h).2
      rw [hss, breaksOf_statement depth rfl s, texts, List.append_nil]
    · simp [lineBreaks, first, breaksOf_statements (depth + 1) ss]

end

theorem lineBreaks_render (ss : List Statement) :
    lineBreaks (render ss) = (lines 0 ss).length + breaksOf (texts ss) := by
  have written (ls : List Line) :
      breaksOf (ls.map Line.write) = ls.length + breaksOf (ls.map Line.text) := by
    induction ls with
    | nil => rfl
    | cons l ls ih =>
      rw [List.map_cons, breaksOf_cons, ih, lineBreaks_write, List.map_cons, breaksOf_cons,
        List.length_cons]
      omega
  rw [render, lineBreaks_join, written, breaksOf_statements]

end Bird
end Peering
