import Mathlib.Data.List.Basic
import Mathlib.Data.List.Infix
import Peering.Bird.Expr

/-!
The text of an expression, and how the router reads it. A negation binds the call or the group
behind it, a relation binds its two sides, and of the connectives only one stands on a level, where
the other needs parentheses. What the router reads in the text of an expression is this expression,
whatever is negated in it and wherever its relations begin with parentheses.
-/
namespace Peering.Bird

/-! ### Parentheses -/

/-- How deep in parentheses a text is behind a character. -/
def nest (d : Nat) (c : Char) : Nat :=
  if c = '(' then d + 1 else if c = ')' then d - 1 else d

/-- A text that begins `d` deep in parentheses closes these and what it opens, and nothing else. -/
def balancedFrom : Nat → List Char → Bool
  | d, [] => d == 0
  | d, c :: cs => (c != ')' || d != 0) && balancedFrom (nest d c) cs

theorem balancedFrom_cons {d : Nat} {c : Char} {cs : List Char} :
    balancedFrom d (c :: cs) = true ↔
      (c = ')' → d ≠ 0) ∧ balancedFrom (nest d c) cs = true := by
  simp [balancedFrom, imp_iff_not_or]

theorem nest_add {j : Nat} {c : Char} (h : c = ')' → j ≠ 0) (d : Nat) :
    nest (j + d) c = nest j c + d := by
  unfold nest
  split
  · omega
  · split
    · have := h ‹_›
      omega
    · rfl

theorem balancedFrom_append {j d : Nat} {xs ys : List Char} (hx : balancedFrom j xs = true)
    (hy : balancedFrom d ys = true) : balancedFrom (j + d) (xs ++ ys) = true := by
  induction xs generalizing j with
  | nil =>
    obtain rfl : j = 0 := by simpa [balancedFrom] using hx
    simpa using hy
  | cons c xs ih =>
    obtain ⟨hc, hx⟩ := balancedFrom_cons.mp hx
    rw [List.cons_append, balancedFrom_cons, nest_add hc]
    exact ⟨fun h => by have := hc h; omega, ih hx⟩

/-- The text between a parenthesis that begins the text and the one that closes it, where the text
ends with that one. -/
def group? : List Char → Option (List Char)
  | '(' :: cs =>
    if cs.getLast? = some ')' ∧ balancedFrom 0 cs.dropLast = true then some cs.dropLast else none
  | _ => none

def wrap (cs : List Char) : List Char := '(' :: (cs ++ [')'])

theorem group?_eq_some {cs m : List Char} :
    group? cs = some m ↔ cs = wrap m ∧ balancedFrom 0 m = true := by
  constructor
  · intro h
    unfold group? at h
    split at h
    · rename_i cs
      split at h
      · rename_i hcs
        obtain rfl := Option.some.inj h
        rw [wrap, List.dropLast_append_getLast? ')' hcs.1]
        exact ⟨rfl, hcs.2⟩
      · cases h
    · cases h
  · rintro ⟨rfl, h⟩
    simp [wrap, group?, h]

theorem balancedFrom_wrap {m : List Char} (h : balancedFrom 0 m = true) :
    balancedFrom 0 (wrap m) = true :=
  balancedFrom_cons.mpr ⟨by decide, balancedFrom_append h (d := 1) rfl⟩

/-! ### Connectives -/

inductive Connective where
  | and
  | or
  deriving DecidableEq, Repr

namespace Connective

def sign : Connective → List Char
  | and => [' ', '&', '&', ' ']
  | or => [' ', '|', '|', ' ']

def join : Connective → List Expr → Expr
  | and => .and
  | or => .or

end Connective

/-- A text cut at the signs that stand outside its parentheses, where it begins `d` deep in some. -/
def pieces : Nat → List Char → List Char × List (Connective × List Char)
  | 0, ' ' :: '&' :: '&' :: ' ' :: cs =>
    let (p, ps) := pieces 0 cs
    ([], (.and, p) :: ps)
  | 0, ' ' :: '|' :: '|' :: ' ' :: cs =>
    let (p, ps) := pieces 0 cs
    ([], (.or, p) :: ps)
  | d, c :: cs =>
    let (p, ps) := pieces (nest d c) cs
    (c :: p, ps)
  | _, [] => ([], [])

theorem pieces_sign (k : Connective) (cs : List Char) :
    pieces 0 (k.sign ++ cs) = ([], (k, (pieces 0 cs).1) :: (pieces 0 cs).2) := by
  cases k <;> simp [Connective.sign, pieces]

theorem pieces_cons {d : Nat} {c : Char} {cs : List Char}
    (h : d = 0 → ∀ k : Connective, ¬ k.sign <+: c :: cs) :
    pieces d (c :: cs) = (c :: (pieces (nest d c) cs).1, (pieces (nest d c) cs).2) := by
  rw [pieces.eq_def]
  split
  · rename_i cs' heq
    exact absurd ⟨cs', heq.symm⟩ (h rfl .and)
  · rename_i cs' heq
    exact absurd ⟨cs', heq.symm⟩ (h rfl .or)
  · rename_i heq
    cases heq
    rfl
  · rename_i heq
    cases heq

def Parted (tail : List Char) : Prop := ∀ c ∈ tail.head?, c = ' '

theorem parted_nil : Parted [] := fun _ h => nomatch h

theorem parted_sign (k : Connective) (cs : List Char) : Parted (k.sign ++ cs) := by
  cases k <;> simp [Parted, Connective.sign]

/-- A text that is not cut, neither in itself nor where it meets a sign behind it. -/
def Whole (p : List Char) : Prop :=
  ∀ tail, Parted tail → pieces 0 (p ++ tail) = (p ++ (pieces 0 tail).1, (pieces 0 tail).2)

theorem Whole.pieces_eq {p : List Char} (h : Whole p) : pieces 0 p = (p, []) := by
  simpa [pieces] using h [] parted_nil

theorem pieces_inside {j : Nat} {m : List Char} (h : balancedFrom j m = true) (rest : List Char) :
    pieces (j + 1) (m ++ rest) = (m ++ (pieces 1 rest).1, (pieces 1 rest).2) := by
  induction m generalizing j with
  | nil =>
    obtain rfl : j = 0 := by simpa [balancedFrom] using h
    rfl
  | cons c m ih =>
    obtain ⟨hc, h⟩ := balancedFrom_cons.mp h
    have deeper : nest (j + 1) c = nest j c + 1 := nest_add hc 1
    rw [List.cons_append, pieces_cons (absurd · (Nat.succ_ne_zero j)), deeper, ih h,
      List.cons_append]

theorem not_starts_sign {c : Char} (hc : c ≠ ' ') (k : Connective) (cs : List Char) :
    ¬ k.sign <+: c :: cs := by
  cases k <;> simp [Connective.sign, hc.symm]

theorem whole_wrap {m : List Char} (h : balancedFrom 0 m = true) : Whole (wrap m) := by
  intro tail _
  have opening : pieces 0 ('(' :: (m ++ ')' :: tail)) =
      ('(' :: (pieces 1 (m ++ ')' :: tail)).1, (pieces 1 (m ++ ')' :: tail)).2) :=
    pieces_cons fun _ k => not_starts_sign (by decide) k _
  have closing : pieces 1 (')' :: tail) = (')' :: (pieces 0 tail).1, (pieces 0 tail).2) :=
    pieces_cons fun h => nomatch h
  have inside := pieces_inside h (')' :: tail)
  rw [Nat.zero_add] at inside
  simp [wrap, opening, inside, closing]

theorem Whole.negated {p : List Char} (h : Whole p) : Whole ('!' :: p) := by
  intro tail ht
  rw [List.cons_append, pieces_cons fun _ k => not_starts_sign (by decide) k _]
  exact congrArg (fun r => ('!' :: r.1, r.2)) (h tail ht)

/-- A sign begins in a text and ends in what stands behind it only if a blank completes it. -/
theorem sign_prefix_of_parted {k : Connective} {c : Char} {q tail : List Char}
    (ht : Parted tail) (h : k.sign <+: c :: q ++ tail) : k.sign <+: c :: q ++ [' '] := by
  cases k
  all_goals
    match q, tail with
    | [], [] | [], _ :: _ => simp_all [Connective.sign, Parted]
    | [_], [] | [_], _ :: _ => simp_all [Connective.sign, Parted]
    | [_, _], [] => simp_all [Connective.sign]
    | [_, _], _ :: _ =>
      simp only [Connective.sign, List.cons_append, List.nil_append, List.cons_prefix_cons] at h ⊢
      exact ⟨h.1, h.2.1, h.2.2.1, trivial, List.nil_prefix⟩
    | _ :: _ :: _ :: _, _ => simpa [Connective.sign] using h

theorem pieces_of_no_sign {d : Nat} {q tail : List Char} (hq : balancedFrom d q = true)
    (hs : ∀ k : Connective, ¬ k.sign <:+: q ++ [' ']) (ht : Parted tail) :
    pieces d (q ++ tail) = (q ++ (pieces 0 tail).1, (pieces 0 tail).2) := by
  induction q generalizing d with
  | nil =>
    obtain rfl : d = 0 := by simpa [balancedFrom] using hq
    rfl
  | cons c q ih =>
    obtain ⟨-, hq⟩ := balancedFrom_cons.mp hq
    -- A sign that the tail would complete is completed by a blank, too.
    have start (k : Connective) : ¬ k.sign <+: c :: (q ++ tail) :=
      fun h => hs k (sign_prefix_of_parted ht h).isInfix
    have later (k : Connective) : ¬ k.sign <:+: q ++ [' '] :=
      fun h => hs k (List.infix_cons h)
    rw [List.cons_append, pieces_cons fun _ => start, ih hq later, List.cons_append]

theorem whole_of_no_sign {q : List Char} (hq : balancedFrom 0 q = true)
    (hs : ∀ k : Connective, ¬ k.sign <:+: q ++ [' ']) : Whole q :=
  fun _ ht => pieces_of_no_sign hq hs ht

theorem pieces_intercalate (k : Connective) {t : List Char} {ts : List (List Char)}
    (h : ∀ u ∈ t :: ts, Whole u) :
    pieces 0 (k.sign.intercalate (t :: ts)) = (t, ts.map (k, ·)) := by
  induction ts generalizing t with
  | nil => simpa using (h t (List.mem_singleton_self t)).pieces_eq
  | cons u us ih =>
    obtain ⟨ht, hus⟩ := List.forall_mem_cons.mp h
    rw [List.intercalate_cons_cons, List.append_assoc, ht _ (parted_sign k _), pieces_sign, ih hus]
    simp

/-! ### Reading -/

def isNameChar (c : Char) : Bool := c ∉ [' ', '(', ')', '!', '=', '<', '>', '~', '&', '|']

def isApplied (cs : List Char) : Bool :=
  !(cs.takeWhile isNameChar).isEmpty && (group? (cs.dropWhile isNameChar)).isSome && ' ' ∉ cs

def isFactor : List Char → Bool
  | '!' :: cs => isFactor cs
  | cs => (group? cs).isSome || isApplied cs

def readFactor (inner : List Char → Option Expr) : List Char → Option Expr
  | '!' :: cs => (readFactor inner cs).map .not
  | cs =>
    match group? cs with
    | some m => inner m
    | none => some (.raw (String.ofList cs))

/-- Reads a term of a connective. What is no factor is a relation, and a negation in it belongs to
one of its sides. -/
def readTerm (inner : List Char → Option Expr) (cs : List Char) : Option Expr :=
  if isFactor cs then readFactor inner cs else some (.raw (String.ofList cs))

/-- Reads an expression with fewer than `n` groups in each other. Connectives of both kinds on one
level have no meaning. -/
def readExpr : Nat → List Char → Option Expr
  | 0, _ => none
  | n + 1, cs =>
    match pieces 0 cs with
    | (p, []) => readTerm (readExpr n) p
    | (p, (k, q) :: ps) =>
      if ps.all (·.1 = k) then
        ((p :: q :: ps.map (·.2)).mapM (readTerm (readExpr n))).map k.join
      else none

namespace Expr

def read? (s : String) : Option Expr := readExpr (s.length + 1) s.toList

def holds (v : String → Bool) : Expr → Bool
  | raw s => v s
  | not e => !holds v e
  | and es => (values es).all id
  | or es => (values es).any id
where
  values : List Expr → List Bool
    | [] => []
    | e :: es => holds v e :: values es

end Expr

/-! ### Leaves -/

def Applied (cs : List Char) : Prop :=
  ∃ name args, cs = name ++ wrap args ∧ name ≠ [] ∧ (∀ c ∈ name, isNameChar c = true) ∧
    balancedFrom 0 args = true ∧ ' ' ∉ cs

/-- Two sides, with blanks around what stands between them. -/
def Relational (cs : List Char) : Prop :=
  ∃ left op right, cs = left ++ ' ' :: (op ++ ' ' :: right)

/-- What may stand in an expression as it is. -/
structure Leaf (cs : List Char) : Prop where
  form : Applied cs ∨ Relational cs
  balanced : balancedFrom 0 cs = true
  no_sign : ∀ k : Connective, ¬ k.sign <:+: cs
  no_negation : cs.head? ≠ some '!'
  no_group : group? cs = none

/-- A leaf with which a connective may go on: it does not end in what a blank would make a sign. -/
structure Operand (cs : List Char) : Prop extends Leaf cs where
  ended : ∀ k : Connective, ¬ k.sign <:+ cs ++ [' ']

theorem Operand.whole {cs : List Char} (h : Operand cs) : Whole cs :=
  whole_of_no_sign h.balanced fun k hs =>
    (List.infix_concat_iff.mp hs).elim (h.ended k) (h.no_sign k)

theorem isApplied_of_applied {cs : List Char} (h : Applied cs) : isApplied cs = true := by
  obtain ⟨name, args, rfl, hne, hname, hargs, hblank⟩ := h
  have stop : isNameChar '(' = false := by decide
  have taken : (name ++ wrap args).takeWhile isNameChar = name := by
    simp [wrap, List.takeWhile_append_of_pos hname, stop]
  have dropped : (name ++ wrap args).dropWhile isNameChar = wrap args := by
    simp [wrap, List.dropWhile_append_of_pos hname, stop]
  have group : group? (wrap args) = some args := group?_eq_some.mpr ⟨rfl, hargs⟩
  simp [isApplied, taken, dropped, group, hne, hblank]

theorem Relational.blank_mem {cs : List Char} (h : Relational cs) : ' ' ∈ cs := by
  obtain ⟨left, op, right, rfl⟩ := h
  simp

theorem isFactor_of_head {cs : List Char} (h : cs.head? ≠ some '!') :
    isFactor cs = ((group? cs).isSome || isApplied cs) := by
  unfold isFactor
  split
  · simp at h
  · rfl

theorem readFactor_of_head (inner : List Char → Option Expr) {cs : List Char}
    (h : cs.head? ≠ some '!') :
    readFactor inner cs =
      match group? cs with
      | some m => inner m
      | none => some (.raw (String.ofList cs)) := by
  unfold readFactor
  split
  · simp at h
  · rfl

theorem readTerm_leaf (inner : List Char → Option Expr) {s : String} (h : Leaf s.toList) :
    readTerm inner s.toList = some (.raw s) := by
  have read : readFactor inner s.toList = some (.raw s) := by
    rw [readFactor_of_head inner h.no_negation, h.no_group, String.ofList_toList]
  rw [readTerm, read, String.ofList_toList, ite_self]

theorem readTerm_wrap (inner : List Char → Option Expr) {m : List Char}
    (h : balancedFrom 0 m = true) : readTerm inner (wrap m) = inner m := by
  have group : group? (wrap m) = some m := group?_eq_some.mpr ⟨rfl, h⟩
  have head : (wrap m).head? ≠ some '!' := by simp [wrap]
  rw [readTerm, isFactor_of_head head, readFactor_of_head inner head, group]
  simp

theorem readTerm_negated_wrap (inner : List Char → Option Expr) {m : List Char}
    (h : balancedFrom 0 m = true) : readTerm inner ('!' :: wrap m) = (inner m).map .not := by
  have group : group? (wrap m) = some m := group?_eq_some.mpr ⟨rfl, h⟩
  have head : (wrap m).head? ≠ some '!' := by simp [wrap]
  rw [readTerm, isFactor, readFactor, isFactor_of_head head, readFactor_of_head inner head, group]
  simp

theorem readTerm_negated_applied (inner : List Char → Option Expr) {s : String}
    (h : Leaf s.toList) (happ : Applied s.toList) :
    readTerm inner ('!' :: s.toList) = some (.not (.raw s)) := by
  rw [readTerm, isFactor, readFactor, isFactor_of_head h.no_negation,
    readFactor_of_head inner h.no_negation, h.no_group, isApplied_of_applied happ,
    String.ofList_toList]
  simp

/-! ### Trees -/

namespace Expr

/-- An expression whose connectives join something and whose leaves are as `P` has them. -/
def Proper (P : List Char → Prop) : Expr → Prop
  | raw s => P s.toList
  | not e => Proper P e
  | and es | or es => 2 ≤ es.length ∧ all es
where
  all : List Expr → Prop
    | [] => True
    | e :: es => Proper P e ∧ all es

def termText (e : Expr) : List Char := if e.isCompound then wrap e.text.toList else e.text.toList

theorem toList_terms (es : List Expr) : (text.terms es).map String.toList = es.map termText := by
  induction es with
  | nil => rfl
  | cons e es ih =>
    rw [text.terms, List.map_cons, List.map_cons, ih, termText]
    split <;> simp [wrap]

theorem toList_text_join (k : Connective) (es : List Expr) :
    (k.join es).text.toList = k.sign.intercalate (es.map termText) := by
  cases k
  all_goals
    rw [Connective.join, text, String.toList_intercalate, toList_terms]
    rfl

theorem toList_text_not (e : Expr) (h : e.Proper Operand) :
    (not e).text.toList = '!' :: wrap e.text.toList ∨
      ∃ s, e = raw s ∧ Applied s.toList ∧ (not e).text.toList = '!' :: s.toList := by
  cases e with
  | raw s =>
    by_cases hs : isCall s = true
    · have blank : ' ' ∉ s.toList := by
        simpa using (Bool.and_eq_true_iff.mp hs).2
      refine .inr ⟨s, rfl, h.form.resolve_right fun r => blank r.blank_mem, ?_⟩
      simp [text, hs]
    · exact .inl (by simp [text, hs, wrap])
  | _ => exact .inl (by simp [text, wrap])

end Expr

theorem balancedFrom_sign (k : Connective) : balancedFrom 0 k.sign = true := by
  cases k <;> rfl

theorem balancedFrom_intercalate (k : Connective) {ts : List (List Char)}
    (h : ∀ t ∈ ts, balancedFrom 0 t = true) : balancedFrom 0 (k.sign.intercalate ts) = true := by
  induction ts with
  | nil => rfl
  | cons t ts ih =>
    obtain ⟨ht, hts⟩ := List.forall_mem_cons.mp h
    cases ts with
    | nil => simpa using ht
    | cons u us =>
      rw [List.intercalate_cons_cons]
      exact balancedFrom_append (balancedFrom_append ht (balancedFrom_sign k)) (ih hts)

namespace Expr

mutual

theorem balancedFrom_text : (e : Expr) → e.Proper Operand → balancedFrom 0 e.text.toList = true
  | raw _, h => h.balanced
  | not e, h => by
    rcases toList_text_not e h with eq | ⟨s, rfl, -, eq⟩
    · rw [eq]
      exact balancedFrom_wrap (balancedFrom_text e h)
    · rw [eq]
      exact h.balanced
  | and es, h => by
    rw [show and es = Connective.and.join es from rfl, toList_text_join]
    exact balancedFrom_intercalate .and (balancedFrom_terms es h.2)
  | or es, h => by
    rw [show or es = Connective.or.join es from rfl, toList_text_join]
    exact balancedFrom_intercalate .or (balancedFrom_terms es h.2)

theorem balancedFrom_terms : (es : List Expr) → Proper.all Operand es →
    ∀ t ∈ es.map termText, balancedFrom 0 t = true
  | [], _ => fun _ h => nomatch h
  | e :: es, h => by
    have he := balancedFrom_text e h.1
    rw [List.map_cons, List.forall_mem_cons]
    refine ⟨?_, balancedFrom_terms es h.2⟩
    rw [termText]
    split
    · exact balancedFrom_wrap he
    · exact he

end

theorem whole_termText {e : Expr} (h : e.Proper Operand) : Whole e.termText := by
  cases e with
  | raw s => exact h.whole
  | not e =>
    show Whole (not e).text.toList
    rcases toList_text_not e h with eq | ⟨s, rfl, -, eq⟩
    · rw [eq]
      exact (whole_wrap (balancedFrom_text e h)).negated
    · rw [eq]
      exact h.whole.negated
  | and es => exact whole_wrap (balancedFrom_text _ h)
  | or es => exact whole_wrap (balancedFrom_text _ h)

theorem whole_terms {es : List Expr} (h : Proper.all Operand es) :
    ∀ t ∈ es.map termText, Whole t := by
  induction es with
  | nil => exact fun _ h => nomatch h
  | cons e es ih =>
    rw [List.map_cons, List.forall_mem_cons]
    exact ⟨whole_termText h.1, ih h.2⟩

theorem readTerm_termText {e : Expr} (h : e.Proper Operand)
    (hr : ∀ n, e.text.toList.length < n → readExpr n e.text.toList = some e) {n : Nat}
    (hn : e.termText.length ≤ n) : readTerm (readExpr n) e.termText = some e := by
  by_cases hc : e.isCompound = true
  · -- The parentheses are more characters than the step that reads them costs.
    have grouped : e.termText = wrap e.text.toList := if_pos hc
    rw [grouped] at hn ⊢
    rw [readTerm_wrap _ (balancedFrom_text e h)]
    exact hr n (by simp [wrap] at hn; omega)
  · have plain : e.termText = e.text.toList := if_neg hc
    have read := hr (n + 1) (by rw [← plain]; omega)
    have whole := (whole_termText h).pieces_eq
    rw [plain] at whole
    rwa [readExpr, whole, ← plain] at read

theorem mapM_readTerm {inner : List Char → Option Expr} {es : List Expr}
    (h : ∀ e ∈ es, readTerm inner e.termText = some e) :
    (es.map termText).mapM (readTerm inner) = some es := by
  induction es with
  | nil => rfl
  | cons e es ih =>
    obtain ⟨he, hes⟩ := List.forall_mem_cons.mp h
    simp [he, ih hes]

theorem readExpr_intercalate (k : Connective) {n : Nat} {es : List Expr} (two : 2 ≤ es.length)
    (whole : ∀ t ∈ es.map termText, Whole t)
    (read : ∀ e ∈ es, readTerm (readExpr n) e.termText = some e) :
    readExpr (n + 1) (k.sign.intercalate (es.map termText)) = some (k.join es) := by
  match es, two with
  | e :: f :: es, _ =>
    have cut := pieces_intercalate k whole
    have terms := mapM_readTerm read
    rw [List.map_cons] at cut terms
    simp only [List.map_cons] at cut terms ⊢
    rw [readExpr, cut]
    simp [Function.comp_def, terms]

theorem length_le_intercalate (k : Connective) {t : List Char} {ts : List (List Char)}
    (h : t ∈ ts) : t.length ≤ (k.sign.intercalate ts).length := by
  induction ts with
  | nil => cases h
  | cons u us ih =>
    cases us with
    | nil =>
      obtain rfl := List.mem_singleton.mp h
      simp
    | cons v vs =>
      rw [List.intercalate_cons_cons, List.length_append, List.length_append]
      rcases List.mem_cons.mp h with rfl | h
      · omega
      · have := ih h
        omega

mutual

/-- What is read in the text of an expression is the expression. -/
theorem readExpr_text : (e : Expr) → e.Proper Operand → ∀ n, e.text.toList.length < n →
    readExpr n e.text.toList = some e
  | raw s, h, n + 1, _ => by
    have leaf : Operand s.toList := h
    show readExpr (n + 1) s.toList = some (raw s)
    rw [readExpr, leaf.whole.pieces_eq]
    exact readTerm_leaf _ leaf.toLeaf
  | not e, h, n + 1, hn => by
    have whole : Whole (not e).text.toList := whole_termText (e := not e) h
    rw [readExpr, whole.pieces_eq]
    rcases toList_text_not e h with eq | ⟨s, rfl, applied, eq⟩
    · rw [eq] at hn ⊢
      show readTerm (readExpr n) ('!' :: wrap e.text.toList) = some (not e)
      rw [readTerm_negated_wrap _ (balancedFrom_text e h),
        readExpr_text e h n (by simp [wrap] at hn; omega), Option.map_some]
    · rw [eq]
      exact readTerm_negated_applied _ h.toLeaf applied
  | and es, h, n + 1, hn => by
    rw [show and es = Connective.and.join es from rfl, toList_text_join] at hn ⊢
    exact readExpr_intercalate .and h.1 (whole_terms h.2) (readTerm_terms es h.2 fun t ht =>
      (length_le_intercalate .and ht).trans (Nat.le_of_lt_succ hn))
  | or es, h, n + 1, hn => by
    rw [show or es = Connective.or.join es from rfl, toList_text_join] at hn ⊢
    exact readExpr_intercalate .or h.1 (whole_terms h.2) (readTerm_terms es h.2 fun t ht =>
      (length_le_intercalate .or ht).trans (Nat.le_of_lt_succ hn))

theorem readTerm_terms : (es : List Expr) → Proper.all Operand es → ∀ {n : Nat},
    (∀ t ∈ es.map termText, t.length ≤ n) →
    ∀ e ∈ es, readTerm (readExpr n) e.termText = some e
  | [], _, _, _ => fun _ h => nomatch h
  | e :: es, h, n, hn => by
    obtain ⟨he, hes⟩ := List.forall_mem_cons.mp hn
    rw [List.forall_mem_cons]
    exact ⟨readTerm_termText h.1 (readExpr_text e h.1) he, readTerm_terms es h.2 hes⟩

end

theorem read?_text {e : Expr} (h : e.Proper Operand) : read? e.text = some e :=
  readExpr_text e h _ (by rw [String.length_toList]; omega)

/-- The text of an expression keeps its meaning: read back, it holds for the same leaves; and no two
expressions are spelled alike. -/
theorem text_keeps_meaning (e : Expr) (h : e.Proper Operand) :
    (∀ v, (read? e.text).map (holds v) = some (e.holds v)) ∧
      ∀ f : Expr, f.Proper Operand → e.text = f.text → e = f := by
  have read := read?_text h
  refine ⟨fun v => ?_, fun f hf eq => ?_⟩
  · rw [read, Option.map_some]
  · have same : read? e.text = some f := eq ▸ read?_text hf
    exact Option.some.inj (read.symm.trans same)

/-- Negations of a group, of a call and of a relation that begins with a parenthesis. -/
theorem negations_keep_meaning :
    let leaves := [raw "f(x)", raw "(1, 2) ~ c"]
    let e := and (not (or leaves) :: leaves.map not)
    e.Proper Operand ∧ (∀ v, (read? e.text).map (holds v) = some (e.holds v)) ∧
      ∀ f : Expr, f.Proper Operand → e.text = f.text → e = f := by
  have call : Operand "f(x)".toList :=
    { form := .inl ⟨['f'], ['x'], by decide, by decide, List.forall_mem_singleton.mpr rfl,
        by decide, by decide⟩
      balanced := by decide
      no_sign := fun k => by cases k <;> decide
      no_negation := by decide
      no_group := by decide
      ended := fun k => by cases k <;> decide }
  have relation : Operand "(1, 2) ~ c".toList :=
    { form := .inr ⟨"(1, 2)".toList, ['~'], ['c'], by decide⟩
      balanced := by decide
      no_sign := fun k => by cases k <;> decide
      no_negation := by decide
      no_group := by decide
      ended := fun k => by cases k <;> decide }
  intro leaves e
  have proper : e.Proper Operand :=
    ⟨by decide, ⟨by decide, call, relation, trivial⟩, call, relation, trivial⟩
  exact ⟨proper, text_keeps_meaning e proper⟩

/-- Two expressions with one text. What ends the first leaf of one of them begins the second leaf of
the other. -/
theorem dangling_connectives :
    let e := and [raw "a = b &&", raw "c ~ d"]
    let f := and [raw "a = b", raw "&& c ~ d"]
    e.Proper Leaf ∧ f.Proper Leaf ∧ e.text = f.text ∧ e ≠ f ∧
      ¬ ∀ v, (read? e.text).map (holds v) = some (e.holds v) := by
  intro e f
  have dangling : Leaf "a = b &&".toList :=
    ⟨.inr ⟨['a'], ['='], "b &&".toList, by decide⟩, by decide, fun k => by cases k <;> decide,
      by decide, by decide⟩
  have second : Leaf "c ~ d".toList :=
    ⟨.inr ⟨['c'], ['~'], ['d'], by decide⟩, by decide, fun k => by cases k <;> decide, by decide,
      by decide⟩
  have first : Operand "a = b".toList :=
    ⟨⟨.inr ⟨['a'], ['='], ['b'], by decide⟩, by decide, fun k => by cases k <;> decide, by decide,
      by decide⟩, fun k => by cases k <;> decide⟩
  have leading : Operand "&& c ~ d".toList :=
    ⟨⟨.inr ⟨"&& c".toList, ['~'], ['d'], by decide⟩, by decide, fun k => by cases k <;> decide,
      by decide, by decide⟩, fun k => by cases k <;> decide⟩
  have same : e.text = f.text := by decide +kernel
  have read : read? e.text = some f := by
    rw [same]
    exact read?_text (e := f) ⟨by decide, first, leading, trivial⟩
  refine ⟨⟨by decide, dangling, second, trivial⟩,
    ⟨by decide, first.toLeaf, leading.toLeaf, trivial⟩, same, by simp [e, f], fun meaning => ?_⟩
  -- The text holds where both leaves of `f` do, and the leaves of `e` are others.
  have held := meaning fun leaf => leaf = "a = b" || leaf = "&& c ~ d"
  rw [read] at held
  revert held
  decide +kernel

/-- No meaning is made up where both connectives stand on a level. -/
example : read? "f() && g() || h()" = none := by cbv

end Expr

end Peering.Bird
