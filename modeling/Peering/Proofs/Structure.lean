import Peering.Proofs.Headings

/-!
Statements keep their structure when they are written. The lines are read back: the first line of a
statement tells what it is, indentation tells where its bodies end, and a second branch goes on at
the depth of its conditional.
-/
namespace Peering.Bird

/-! ### Reading -/

def brace (d : Nat) : List Char := Line.chars ⟨d, "\x7b"⟩

mutual

def readBody : Nat → Nat → List (List Char) → List Outline × List (List Char)
  | 0, _, ls => ([], ls)
  | _ + 1, _, [] => ([], [])
  | n + 1, d, l :: ls =>
    if Outer d l then ([], l :: ls)
    else
      let (o, ls) := readStatement n d (textAt d l) ls
      let (os, ls) := readBody n d ls
      (o :: os, ls)

def readStatement : Nat → Nat → List Char → List (List Char) → Outline × List (List Char)
  | 0, _, t, ls => (.line (String.ofList t), ls)
  | n + 1, d, t, ls =>
    match heading t (ls.head? = some (brace d)) with
    | .line => (.line (String.ofList t), ls)
    | .inline test branch =>
      (.cond (String.ofList test) [.line (String.ofList branch)] [], ls)
    | .cond test =>
      let (yes, ls) := readBody n (d + 1) ls
      let (no, ls) := readBranch n d ls
      (.cond (String.ofList test) yes no, ls)
    | .filter name =>
      let (locals, ls) := ls.span (· ≠ brace d)
      let (body, ls) := readBody n (d + 1) ls.tail
      (.filter (String.ofList name) (locals.map fun l => String.ofList (textAt d l).dropLast) body,
        ls.tail)
    | .function =>
      let (body, ls) := readBody n (d + 1) ls.tail
      (.function (String.ofList t) body, ls.tail)
    | .set name =>
      let (items, ls) := ls.span (¬ Outer (d + 1) ·)
      (.set (String.ofList name) (groupsOf (items.map (textAt (d + 1)))).1, ls.tail)
    | .block header =>
      let (body, ls) := readBody n (d + 1) ls
      (.block (String.ofList header) body (ls.head? = some (Line.chars ⟨d, "\x7d;"⟩)), ls.tail)

def readBranch : Nat → Nat → List (List Char) → List Outline × List (List Char)
  | 0, _, ls => ([], ls)
  | _ + 1, _, [] => ([], [])
  | n + 1, d, l :: ls =>
    match (textAt d l).dropPrefix? "\x7d else ".toList with
    | none => ([], ls)
    | some t =>
      if t = ['\x7b'] then
        let (no, ls) := readBody n (d + 1) ls
        (no, ls.tail)
      else
        let (o, ls) := readStatement n d t ls
        ([o], ls)

end

def Recovers (n d : Nat) (s : Statement) (rest : List (List Char)) : Prop :=
  readStatement n d s.first.toList (written (s.more d) ++ rest) = (s.outline, rest)

/-- What is written is read back with `n` steps. A line takes no more than two of them, one to come
to it and one to read it; a body, or a branch, takes one to see its end. -/
structure ReadsBack (n : Nat) : Prop where
  body : ∀ ss, throughout Statement.Told ss → ∀ d rest,
    2 * (lines d ss).length + 1 ≤ n → (∀ l ∈ rest.head?, Outer d l) →
    readBody n d (written (lines d ss) ++ rest) = (outlines ss, rest)
  statement : ∀ s : Statement, s.Throughout Statement.Told → ∀ d rest,
    2 * ((s.more d).length + 1) ≤ n → rest.head? ≠ some (brace d) → Recovers n d s rest
  branch : ∀ ss, throughout Statement.Told ss → ∀ d rest,
    2 * (elseLines d ss).length + 1 ≤ n → rest.head? ≠ some (brace d) →
    readBranch n d (written (elseLines d ss) ++ rest) = (outlines ss, rest)

theorem span_append {α : Type} {p : α → Bool} {xs ys : List α} {y : α}
    (hx : ∀ x ∈ xs, p x = true) (hy : p y = false) :
    (xs ++ y :: ys).span p = (xs, y :: ys) := by
  rw [List.span_eq_takeWhile_dropWhile, List.takeWhile_append_of_pos hx,
    List.dropWhile_append_of_pos hx]
  simp [hy]

/-! ### Ends of bodies -/

theorem outer_closing {d : Nat} {t : String} {cs : List Char} (h : t.toList = '\x7d' :: cs) :
    Outer (d + 1) (Line.chars ⟨d, t⟩) :=
  outer_chars d.lt_succ_self h (by decide)

theorem ends_closing {d : Nat} {t : String} {cs : List Char} (h : t.toList = '\x7d' :: cs)
    (rest : List (List Char)) :
    ∀ l ∈ (Line.chars ⟨d, t⟩ :: rest).head?, Outer (d + 1) l := by
  rintro l ⟨⟩
  exact outer_closing h

theorem ends_elseLines (d : Nat) (ss : List Statement) (rest : List (List Char)) :
    ∀ l ∈ (written (elseLines d ss) ++ rest).head?, Outer (d + 1) l := by
  cases ss with
  | nil => exact ends_closing rfl rest
  | cons s ss =>
    rw [elseLines]
    split
    · rename_i h
      rw [Statement.lines_of_chains d _ (Bool.and_eq_true_iff.mp h).1]
      exact ends_closing (by rw [String.toList_append]; rfl) _
    · exact ends_closing rfl _

theorem toList_signature (name : String) (params : List String) (returns : Option String) :
    ∃ t, (signature name params returns).toList = "function ".toList ++ t :=
  ⟨_, by
    unfold signature
    simp only [String.toList_append, List.append_assoc]
    rfl⟩

theorem Statement.first_ne_brace (s : Statement) : s.first ≠ "\x7b" := by
  intro h
  have one : s.first.toList = ['\x7b'] := congrArg String.toList h
  have last {t : List Char} {c : Char} (hc : c ≠ '\x7b') : t ++ [c] ≠ ['\x7b'] := by
    intro ht
    exact hc (List.singleton_suffix_append_singleton_iff.mp
      (ht ▸ List.suffix_refl ['\x7b'] : ['\x7b'] <:+ t ++ [c])).symm
  cases s with
  | setting t | call t => exact last (by decide) ((String.toList_append ..).symm.trans one)
  | assign t v => exact last (by decide) ((String.toList_append ..).symm.trans one)
  | block header _ _ =>
    have two := congrArg List.length one
    simp [first] at two
  | function name params returns _ =>
    obtain ⟨t, text⟩ := toList_signature name params returns
    exact absurd (text.symm.trans one) (by simp)
  | _ => simp [first, inline?] at one

theorem chars_ne_brace {d : Nat} {t : String} (h : t ≠ "\x7b") : Line.chars ⟨d, t⟩ ≠ brace d :=
  fun eq => h (chars_inj.mp eq)

theorem head_ne_brace_of_ends {d : Nat} {rest : List (List Char)}
    (h : ∀ l ∈ rest.head?, Outer d l) : rest.head? ≠ some (brace d) :=
  fun hb => not_outer_chars d.le_refl _ (h _ hb)

theorem head_lines_ne_brace {d : Nat} (ss : List Statement) {rest : List (List Char)}
    (h : rest.head? ≠ some (brace d)) :
    (written (lines d ss) ++ rest).head? ≠ some (brace d) := by
  cases ss with
  | nil => exact h
  | cons s ss =>
    rw [lines_cons]
    exact fun hb => chars_ne_brace s.first_ne_brace (Option.some.inj hb)

theorem head_body_ne_brace {d : Nat} (ss : List Statement) {t : String} (ht : t ≠ "\x7b")
    (rest : List (List Char)) :
    (written (lines (d + 1) ss) ++ Line.chars ⟨d, t⟩ :: rest).head? ≠ some (brace d) := by
  cases ss with
  | nil => exact fun hb => chars_ne_brace ht (Option.some.inj hb)
  | cons s ss =>
    rw [lines_cons]
    intro hb
    have deeper : ¬ Outer (d + 1) (brace d) :=
      Option.some.inj hb ▸ not_outer_chars (d + 1).le_refl s.first
    exact deeper (outer_chars d.lt_succ_self (rfl : "\x7b".toList = ['\x7b']) (by decide))

/-! ### Statements -/

section Reading
variable {n d : Nat} {rest : List (List Char)}

theorem readStatement_single {s : Statement} (hs : s.outline = .line s.first)
    (hm : s.more d = []) (ht : s.Told) (hrest : rest.head? ≠ some (brace d)) :
    Recovers (n + 1) d s rest := by
  rw [Recovers, hm, written_nil, List.nil_append, readStatement, decide_eq_false hrest,
    heading_first hs ht.1 ht.2, hs, String.ofList_toList]

theorem readStatement_set {name : String} {groups : List SetGroup}
    (h : (Statement.defineSet name groups).Told) :
    Recovers (n + 1) d (Statement.defineSet name groups) rest := by
  have text : (Statement.defineSet name groups).first.toList =
      "define ".toList ++ (name.toList ++ " = [".toList) := by
    simp [Statement.first]
  have inside : ∀ l ∈ written (groupLines (d + 1) (groups.flatMap (·.items)).length groups),
      decide (¬ Outer (d + 1) l) = true := by
    intro l hl
    obtain ⟨l, hmem, rfl⟩ := List.mem_map.mp hl
    obtain ⟨e, t⟩ := l
    obtain rfl : e = d + 1 := depth_groupLines _ _ _ _ hmem
    exact decide_eq_true (not_outer_chars (d + 1).le_refl t)
  have closing : decide (¬ Outer (d + 1) (Line.chars ⟨d, "];"⟩)) = false :=
    decide_eq_false fun h =>
      h (outer_chars d.lt_succ_self (rfl : "];".toList = [']', ';']) (by decide))
  have texts : (written (groupLines (d + 1) (groups.flatMap (·.items)).length groups)).map
      (textAt (d + 1)) =
      (groupLines (d + 1) (groups.flatMap (·.items)).length groups).map (·.text.toList) := by
    rw [written, List.map_map]
    refine List.map_congr_left fun l hl => ?_
    obtain ⟨e, t⟩ := l
    obtain rfl : e = d + 1 := depth_groupLines _ _ _ _ hl
    exact textAt_chars (d + 1) t
  rw [Recovers, text, Statement.more, written_append, List.append_assoc, written_cons, written_nil,
    List.singleton_append, readStatement, heading_set]
  simp only [span_append inside closing, texts, groupsOf_groupLines _ _ h.1, String.ofList_toList,
    List.tail_cons, Statement.outline]

theorem ReadsBack.closed (h : ReadsBack n) {ss : List Statement}
    (hs : throughout Statement.Told ss) {t : String} {cs : List Char} (ht : t.toList = '\x7d' :: cs)
    (hn : 2 * (lines (d + 1) ss).length + 1 ≤ n) (rest : List (List Char)) :
    readBody n (d + 1) (written (lines (d + 1) ss ++ [⟨d, t⟩]) ++ rest) =
      (outlines ss, Line.chars ⟨d, t⟩ :: rest) := by
  have read := h.body ss hs (d + 1) (Line.chars ⟨d, t⟩ :: rest) hn (ends_closing ht rest)
  simpa using read

theorem ReadsBack.readStatement_block (h : ReadsBack n) {header : String}
    {body : List Statement} {terminated : Bool}
    (ht : (Statement.block header body terminated).Told) (hb : throughout Statement.Told body)
    (hn : 2 * (((Statement.block header body terminated).more d).length + 1) ≤ n + 1) :
    Recovers (n + 1) d (Statement.block header body terminated) rest := by
  have text : (Statement.block header body terminated).first.toList =
      header.toList ++ " \x7b".toList := String.toList_append ..
  obtain ⟨closing, hc⟩ : ∃ t, t = if terminated then "\x7d;" else "\x7d" := ⟨_, rfl⟩
  have more : (Statement.block header body terminated).more d =
      lines (d + 1) body ++ [⟨d, closing⟩] := by rw [hc, Statement.more]
  obtain ⟨cs, shut⟩ : ∃ cs, closing.toList = '\x7d' :: cs := by
    rw [hc]
    cases terminated
    · exact ⟨[], rfl⟩
    · exact ⟨[';'], rfl⟩
  have notBrace : closing ≠ "\x7b" := by
    rintro rfl
    cases shut
  have ended : ((Line.chars ⟨d, closing⟩ :: rest).head? = some (Line.chars ⟨d, "\x7d;"⟩)) ↔
      terminated = true := by
    rw [List.head?_cons, Option.some_inj, chars_inj, hc]
    cases terminated <;> decide
  have unbraced : (written (lines (d + 1) body ++ [⟨d, closing⟩]) ++ rest).head? ≠
      some (brace d) := by
    simpa using head_body_ne_brace body notBrace rest
  rw [more, List.length_append, List.length_singleton] at hn
  have read := h.closed (d := d) hb shut (by omega) rest
  rw [Recovers, text, more, readStatement, decide_eq_false unbraced, heading_block ht.1 ht.2]
  simp only [read, ended, String.ofList_toList, List.tail_cons,
    Statement.outline, Bool.decide_eq_true]

theorem ReadsBack.readStatement_function (h : ReadsBack n) {name : String}
    {params : List String} {returns : Option String} {body : List Statement}
    (hb : throughout Statement.Told body)
    (hn : 2 * (((Statement.function name params returns body).more d).length + 1) ≤ n + 1) :
    Recovers (n + 1) d (Statement.function name params returns body) rest := by
  obtain ⟨t, text⟩ := toList_signature name params returns
  have more : (Statement.function name params returns body).more d =
      ⟨d, "\x7b"⟩ :: (lines (d + 1) body ++ [⟨d, "\x7d"⟩]) := rfl
  rw [more, List.length_cons, List.length_append, List.length_singleton] at hn
  have read := h.closed (d := d) hb (t := "\x7d") rfl (by omega) rest
  have braced : decide (some (Line.chars ⟨d, "\x7b"⟩) = some (brace d)) = true :=
    decide_eq_true rfl
  rw [Recovers, Statement.first, more, written_cons, List.cons_append, readStatement,
    List.head?_cons, braced, text, heading_function]
  simp only [List.tail_cons, read, ← text, String.ofList_toList, Statement.outline]

theorem ReadsBack.readStatement_filter (h : ReadsBack n) {name : String} {locals : List String}
    {body : List Statement} (hb : throughout Statement.Told body)
    (hn : 2 * (((Statement.filter name locals body).more d).length + 1) ≤ n + 1) :
    Recovers (n + 1) d (Statement.filter name locals body) rest := by
  have text : (Statement.filter name locals body).first.toList = "filter ".toList ++ name.toList :=
    String.toList_append ..
  have more : written ((Statement.filter name locals body).more d) ++ rest =
      written (locals.map fun l => ⟨d, l ++ ";"⟩) ++
        brace d :: (written (lines (d + 1) body ++ [⟨d, "\x7d"⟩]) ++ rest) := by
    simp [Statement.more, brace]
  have before : ∀ l ∈ written (locals.map fun l => ⟨d, l ++ ";"⟩),
      decide (l ≠ brace d) = true := by
    intro l hl
    rw [written, List.map_map] at hl
    obtain ⟨t, -, rfl⟩ := List.mem_map.mp hl
    exact decide_eq_true (chars_ne_brace (Statement.first_ne_brace (.setting t)))
  have opened : decide (brace d ≠ brace d) = false := decide_eq_false fun h => h rfl
  have readLocals : (written (locals.map fun l => ⟨d, l ++ ";"⟩)).map
      (fun l => String.ofList (textAt d l).dropLast) = locals := by
    simp [written, Function.comp_def]
  have enough : 2 * (lines (d + 1) body).length + 1 ≤ n := by
    simp [Statement.more] at hn
    omega
  have read := h.closed (d := d) hb (t := "\x7d") rfl enough rest
  rw [Recovers, more, text, readStatement, heading_filter]
  simp only [span_append before opened, readLocals, List.tail_cons, read, String.ofList_toList,
    Statement.outline]

theorem inline_ne_brace {s : Statement} {t : String} (h : s.inline? = some t) :
    t.toList ≠ ['\x7b'] := by
  intro ht
  refine s.first_ne_brace ?_
  rw [← String.toList_inj]
  cases s <;> cases h <;> exact ht

theorem ReadsBack.readStatement_cond (h : ReadsBack n) {test : Expr} {yes no : List Statement}
    (ht : (Statement.cond test yes no).Told) (hyes : throughout Statement.Told yes)
    (hno : throughout Statement.Told no) (hrest : rest.head? ≠ some (brace d))
    (hn : 2 * (((Statement.cond test yes no).more d).length + 1) ≤ n + 1) :
    Recovers (n + 1) d (Statement.cond test yes no) rest := by
  have text : (Statement.cond test yes no).first.toList = "if ".toList ++ (test.text.toList ++
      " then ".toList ++ ((Statement.inlineBranch? yes no).getD "\x7b").toList) := by
    simp [Statement.first]
  rw [Recovers, text, readStatement, heading_if ht.1]
  cases hb : Statement.inlineBranch? yes no with
  | some t =>
    have more : (Statement.cond test yes no).more d = [] := by rw [Statement.more, hb]
    unfold Statement.inlineBranch? at hb
    split at hb
    · rename_i s
      have outline : (Statement.cond test [s] []).outline = .cond test.text [.line t] [] := by
        rw [Statement.outline, outlines, outlines, outlines, Statement.outline_of_inline hb]
      rw [more, outline]
      simp [inline_ne_brace hb]
    · cases hb
  | none =>
    have more : written ((Statement.cond test yes no).more d) ++ rest =
        written (lines (d + 1) yes) ++ (written (elseLines d no) ++ rest) := by
      rw [Statement.more, hb]
      simp
    have long : ((Statement.cond test yes no).more d).length =
        (lines (d + 1) yes).length + (elseLines d no).length := by
      rw [Statement.more, hb, List.length_append]
    have readYes := h.body yes hyes (d + 1) (written (elseLines d no) ++ rest) (by omega)
      (ends_elseLines d no rest)
    have readNo := h.branch no hno d rest (by omega) hrest
    rw [more]
    simp [readYes, readNo, Statement.outline]

theorem ReadsBack.readBranch_elseLines (h : ReadsBack n) {ss : List Statement}
    (hs : throughout Statement.Told ss) (hrest : rest.head? ≠ some (brace d))
    (hn : 2 * (elseLines d ss).length + 1 ≤ n + 1) :
    readBranch (n + 1) d (written (elseLines d ss) ++ rest) = (outlines ss, rest) := by
  cases ss with
  | nil =>
    have shut : (textAt d (Line.chars ⟨d, "\x7d"⟩)).dropPrefix? "\x7d else ".toList = none := by
      rw [textAt_chars]
      decide
    rw [elseLines, written_cons, List.cons_append, readBranch, shut]
    rfl
  | cons s ss =>
    rw [elseLines] at hn ⊢
    split
    · -- The conditional is read as the statement that it is.
      rename_i hc
      obtain ⟨chained, last⟩ := Bool.and_eq_true_iff.mp hc
      obtain rfl := List.isEmpty_iff.mp last
      rw [if_pos hc, Statement.lines_of_chains d _ chained, List.length_cons] at hn
      have behind : (textAt d (Line.chars ⟨d, "\x7d else " ++ s.first⟩)).dropPrefix?
          "\x7d else ".toList = some s.first.toList := by
        rw [textAt_chars, String.toList_append, dropPrefix?_append]
      have more : s.first.toList ≠ ['\x7b'] :=
        fun e => s.first_ne_brace (String.toList_inj.mp e)
      have read : Recovers n d s rest := h.statement s hs.1 d rest (by omega) hrest
      rw [Statement.lines_of_chains d _ chained, written_cons, List.cons_append, readBranch, behind]
      rw [Recovers] at read
      simp [more, read, outlines]
    · rename_i hc
      rw [if_neg hc] at hn
      have lines_eq (l : Line) (tail : List Line) :
          l :: s.lines (d + 1) "" ++ lines (d + 1) ss ++ tail =
            l :: (lines (d + 1) (s :: ss) ++ tail) := by
        simp [lines]
      rw [lines_eq, List.length_cons, List.length_append, List.length_singleton] at hn
      have read := h.closed (d := d) hs (t := "\x7d") rfl (by omega) rest
      have behind : (textAt d (Line.chars ⟨d, "\x7d else \x7b"⟩)).dropPrefix?
          "\x7d else ".toList = some ['\x7b'] := by
        rw [textAt_chars]
        decide
      rw [lines_eq, written_cons, List.cons_append, readBranch, behind]
      simp only [read, ite_true, List.tail_cons]

theorem ReadsBack.readBody_lines (h : ReadsBack n) {ss : List Statement}
    (hs : throughout Statement.Told ss) (hrest : ∀ l ∈ rest.head?, Outer d l)
    (hn : 2 * (lines d ss).length + 1 ≤ n + 1) :
    readBody (n + 1) d (written (lines d ss) ++ rest) = (outlines ss, rest) := by
  cases ss with
  | nil =>
    cases rest with
    | nil => rfl
    | cons l rest =>
      show readBody (n + 1) d (l :: rest) = ([], l :: rest)
      rw [readBody, if_pos (hrest l rfl)]
  | cons s ss =>
    rw [lines_cons, List.length_cons, List.length_append] at hn
    have readFirst : Recovers n d s (written (lines d ss) ++ rest) :=
      h.statement s hs.1 d _ (by omega) (head_lines_ne_brace ss (head_ne_brace_of_ends hrest))
    have readLater := h.body ss hs.2 d rest (by omega) hrest
    rw [lines_cons, written_cons, written_append, List.cons_append, List.append_assoc, readBody,
      if_neg (not_outer_chars d.le_refl s.first), textAt_chars, readFirst]
    simp [readLater, outlines]

end Reading

/-- Each step reads what the next ones leave, so enough of them read all. -/
theorem readsBack : ∀ n, ReadsBack n
  | 0 => by
    refine ⟨fun _ _ _ _ hn _ => ?_, fun _ _ _ _ hn _ => ?_, fun _ _ _ _ hn _ => ?_⟩ <;> omega
  | n + 1 =>
    have ih := readsBack n
    { body := fun _ hs _ _ hn hrest => ih.readBody_lines hs hrest hn
      branch := fun _ hs _ _ hn hrest => ih.readBranch_elseLines hs hrest hn
      statement := fun s hs d rest hn hrest => by
        cases s with
        | defineSet => exact readStatement_set hs
        | cond => exact ih.readStatement_cond hs.1 hs.2.1 hs.2.2 hrest hn
        | function => exact ih.readStatement_function hs.2 hn
        | filter => exact ih.readStatement_filter hs.2 hn
        | block => exact ih.readStatement_block hs.1 hs.2 hn
        | _ => exact readStatement_single rfl rfl hs hrest }

/-- Statements that are told from others by their lines keep their structure in the text that they
make: which statements stand in which, second branches with the conditionals that they belong to,
and all texts. -/
theorem outlines_eq_of_render_eq (ss ts : List Statement) (hs : throughout Statement.Told ss)
    (ht : throughout Statement.Told ts) (plainS : ∀ t ∈ texts ss, Plain t)
    (plainT : ∀ t ∈ texts ts, Plain t) (h : render ss = render ts) :
    outlines ss = outlines ts := by
  have read {us : List Statement} (hu : throughout Statement.Told us) :
      readBody (2 * (written (lines 0 us)).length + 1) 0 (written (lines 0 us)) =
        (outlines us, []) := by
    have back := (readsBack _).body us hu 0 [] (le_refl _) fun _ h => nomatch h
    rwa [List.append_nil, ← length_written] at back
  have same := written_eq_of_render_eq plainS plainT h
  have both := read hs
  rw [same, read ht] at both
  exact (Prod.mk.inj both).1.symm

/-- A chain of conditionals with an empty branch and a blank line, and two spellings of one line. -/
theorem chain_keeps_structure :
    let inner (s : Statement) : Statement := .cond (.raw "b()") [] [.cond (.raw "c()") [s] []]
    let outer (s : Statement) : List Statement :=
      [.function "f" [] none [.cond (.raw "a()") [.blank] [inner s]]]
    throughout Statement.Told (outer .accept) ∧
      throughout Statement.Told (outer (.setting "accept")) ∧
      (∀ t ∈ texts (outer .accept), Plain t) ∧
      (∀ t ∈ texts (outer (.setting "accept")), Plain t) ∧
      render (outer .accept) = render (outer (.setting "accept")) ∧
      outlines (outer .accept) = outlines (outer (.setting "accept")) := by
  intro inner outer
  have test {s : String} (h : ¬ "then".toList <:+: s.toList) {yes no : List Statement} :
      (Statement.cond (.raw s) yes no).Told := ⟨h, id⟩
  have told {s : Statement} (h : s.Throughout Statement.Told) :
      throughout Statement.Told (outer s) :=
    ⟨⟨⟨trivial, id⟩, ⟨test (by decide), ⟨⟨trivial, id⟩, trivial⟩,
      ⟨test (by decide), trivial, ⟨test (by decide), ⟨h, trivial⟩, trivial⟩, trivial⟩, trivial⟩,
      trivial⟩, trivial⟩
  have toldAccept : throughout Statement.Told (outer .accept) := told ⟨trivial, id⟩
  have toldSetting : throughout Statement.Told (outer (.setting "accept")) :=
    told ⟨(by decide : Unmarked "accept"), id⟩
  have plainAccept : ∀ t ∈ texts (outer .accept), Plain t := by decide +kernel
  have plainSetting : ∀ t ∈ texts (outer (.setting "accept")), Plain t := by decide +kernel
  have alike : render (outer .accept) = render (outer (.setting "accept")) := by decide +kernel
  exact ⟨toldAccept, toldSetting, plainAccept, plainSetting, alike,
    outlines_eq_of_render_eq _ _ toldAccept toldSetting plainAccept plainSetting alike⟩

/-- Clear statements of one text and two structures. -/
def Confused (ss ts : List Statement) : Prop :=
  (throughout Statement.Clear ss ∧ throughout Statement.Clear ts) ∧
    (∀ t ∈ texts ss ++ texts ts, Plain t) ∧ render ss = render ts ∧ outlines ss ≠ outlines ts

/-- Clear texts alone do not tell statements from each other: an assignment to `if` is written like
a conditional, and one to `filter`, or a block with this header, like the start of a filter. -/
theorem keywords_mislead :
    Confused [.assign "if" "x then accept"] [.when (.raw "= x") [.accept]] ∧
      Confused [.assign "filter" "v", .filter "y;" [] []] [.filter "= v;" ["filter y"] []] ∧
      Confused [.block "filter" [.setting "x"] true, .filter "y;" [] []]
        [.filter "\x7b" ["  x", "\x7d", "filter y"] []] := by
  have unmarked : Unmarked "if" ∧ Unmarked "filter" ∧ Unmarked "x" := by decide
  have test : ¬ "then".toList <:+: (Expr.raw "= x").text.toList := by decide
  have filter (name : String) (locals : List String) :
      throughout Statement.Clear [.filter name locals []] := ⟨⟨trivial, trivial⟩, trivial⟩
  refine ⟨⟨⟨⟨unmarked.1, trivial⟩, ⟨test, ⟨trivial, trivial⟩, trivial⟩, trivial⟩, ?_⟩,
    ⟨⟨⟨unmarked.2.1, filter _ _⟩, filter _ _⟩, ?_⟩,
    ⟨⟨⟨⟨unmarked.2.1, unmarked.2.2, trivial⟩, filter _ _⟩, filter _ _⟩, ?_⟩⟩
  all_goals exact ⟨by decide +kernel, by decide +kernel, nofun⟩

end Peering.Bird
