import Peering.Proofs.Outline

/-!
What a line tells of the statement that it starts. The words that statements start with, and what
stands at the end of the line, tell which it is. An unmarked text is not taken for one of these
words, unless it is the word, and a condition ends where its `then` is. The lines in a set tell its
groups.
-/
namespace Peering.Bird

section Prefixes
variable {w s x k : List Char} {c : Char}

theorem prefix_of_not_mem (hc : c ∉ w) (h : w <+: s ++ c :: x) : w <+: s := by
  rcases List.prefix_or_prefix_of_prefix h (List.prefix_append s (c :: x)) with hw | hs
  · exact hw
  · obtain ⟨r, rfl⟩ := hs
    cases r with
    | nil => simp
    | cons b r =>
      have := (List.prefix_append_right_inj s).mp h
      simp_all

theorem prefix_or_eq_of_blank (hk : ' ' ∉ k) (h : k ++ [' '] <+: s ++ ' ' :: x) :
    k ++ [' '] <+: s ∨ s = k := by
  obtain ⟨r, rfl⟩ := prefix_of_not_mem hk ((List.prefix_append k [' ']).trans h)
  rw [List.append_assoc, List.prefix_append_right_inj] at h
  cases r with
  | nil => exact .inr (by simp)
  | cons b r =>
    refine .inl ((List.prefix_append_right_inj k).mpr ?_)
    rw [List.cons_append, List.cons_prefix_cons] at h
    exact List.cons_prefix_cons.mpr ⟨h.1, List.nil_prefix⟩

end Prefixes

inductive Heading where
  | line
  | inline (test branch : List Char)
  | cond (test : List Char)
  | filter (name : List Char)
  | function
  | set (name : List Char)
  | block (header : List Char)

/-- What a line is the first of; `braced` says whether a line that opens a body comes next, with
nothing else on it. -/
def heading (t : List Char) (braced : Bool) : Heading :=
  match (t.dropPrefix? "if ".toList).bind (·.dropInfix? " then ".toList) with
  | some (test, branch) => if branch = ['\x7b'] then .cond test else .inline test branch
  | none =>
  match t.dropPrefix? "filter ".toList with
  | some name => .filter name
  | none =>
  if "function ".toList.isPrefixOf t && braced then .function else
  match (t.dropPrefix? "define ".toList).bind (·.dropSuffix? " = [".toList) with
  | some name => .set name
  | none =>
  match t.dropSuffix? " \x7b".toList with
  | some header => if t.head? = some '#' then .line else .block header
  | none => .line

theorem dropPrefix?_append (w t : List Char) : (w ++ t).dropPrefix? w = some t :=
  List.dropPrefix?_append_of_beq t (beq_self_eq_true w)

theorem dropPrefix?_eq_none {w t : List Char} (h : ¬ w <+: t) : t.dropPrefix? w = none := by
  rw [Option.eq_none_iff_forall_ne_some]
  intro r hr
  obtain ⟨w', rfl, hw⟩ := List.dropPrefix?_eq_some_iff.mp hr
  exact h ⟨r, by rw [eq_of_beq hw]⟩

theorem dropSuffix?_append (t w : List Char) : (t ++ w).dropSuffix? w = some t :=
  List.dropSuffix?_eq_some_iff.mpr ⟨w, rfl, beq_self_eq_true w⟩

theorem dropSuffix?_eq_none {w t : List Char} (h : ¬ w <:+ t) : t.dropSuffix? w = none := by
  rw [Option.eq_none_iff_forall_ne_some]
  intro r hr
  obtain ⟨w', rfl, hw⟩ := List.dropSuffix?_eq_some_iff.mp hr
  exact h ⟨r, by rw [eq_of_beq hw]⟩

theorem dropInfix?_then {test : List Char} (h : ¬ "then".toList <:+: test) (branch : List Char) :
    (test ++ " then ".toList ++ branch).dropInfix? " then ".toList = some (test, branch) := by
  have sign : " then ".toList = ' ' :: ("then".toList ++ [' ']) := by decide
  refine List.dropInfix?_eq_some_iff.mpr ⟨⟨_, rfl, beq_self_eq_true _⟩, ?_⟩
  intro p i r eq hi
  obtain rfl := eq_of_beq hi
  by_contra! short
  rw [List.append_assoc, List.append_assoc] at eq
  obtain ⟨q, rfl⟩ : p <+: test :=
    List.prefix_of_prefix_length_le ⟨_, eq.symm⟩ (List.prefix_append _ _) short.le
  rw [List.append_assoc, List.append_cancel_left_eq, sign] at eq
  match q with
  | [] => simp at short
  | c :: q =>
    have inside : "then".toList <+: q ++ ' ' :: ("then".toList ++ [' '] ++ branch) := by
      refine ⟨' ' :: r, ?_⟩
      simpa using (List.cons.inj eq).2.symm
    exact h ((prefix_of_not_mem (by decide) inside).isInfix.trans ⟨p ++ [c], [], by simp⟩)

theorem heading_line {t : List Char} {braced : Bool} (hif : ¬ "if ".toList <+: t)
    (hfilter : ¬ "filter ".toList <+: t)
    (hfunction : "function ".toList <+: t → braced = false)
    (hset : "define ".toList <+: t → ¬ " = [".toList <:+ t)
    (hblock : " \x7b".toList <:+ t → t.head? = some '#') :
    heading t braced = .line := by
  have set : (t.dropPrefix? "define ".toList).bind (·.dropSuffix? " = [".toList) = none := by
    rw [Option.bind_eq_none_iff]
    intro r hr
    obtain ⟨w, rfl, hw⟩ := List.dropPrefix?_eq_some_iff.mp hr
    obtain rfl := eq_of_beq hw
    exact dropSuffix?_eq_none fun hs =>
      hset (List.prefix_append _ _) (hs.trans (List.suffix_append _ _))
  have call : ("function ".toList.isPrefixOf t && braced) = false := by
    rw [Bool.and_eq_false_imp, List.isPrefixOf_iff_prefix]
    exact hfunction
  rw [heading, dropPrefix?_eq_none hif, dropPrefix?_eq_none hfilter, call, set]
  cases hb : t.dropSuffix? " \x7b".toList with
  | none => rfl
  | some header =>
    obtain ⟨w, rfl, hw⟩ := List.dropSuffix?_eq_some_iff.mp hb
    have head := hblock ⟨header, by rw [eq_of_beq hw]⟩
    simp [head]

theorem heading_semicolon {t : List Char} {braced : Bool} (hif : ¬ "if ".toList <+: t ++ [';'])
    (hfilter : ¬ "filter ".toList <+: t ++ [';'])
    (hfunction : "function ".toList <+: t ++ [';'] → braced = false) :
    heading (t ++ [';']) braced = .line := by
  have ends {w : List Char} (c : Char) (hw : [c] <:+ w) (hc : c ≠ ';') : ¬ w <:+ t ++ [';'] :=
    fun h => hc (List.singleton_suffix_append_singleton_iff.mp (hw.trans h))
  exact heading_line hif hfilter hfunction (fun _ => ends '[' (by decide) (by decide))
    fun h => absurd h (ends '\x7b' (by decide) (by decide))

theorem heading_filter (name : List Char) (braced : Bool) :
    heading ("filter ".toList ++ name) braced = .filter name := by
  have hif : ¬ "if ".toList <+: "filter ".toList ++ name := by simp
  rw [heading, dropPrefix?_eq_none hif, dropPrefix?_append]
  rfl

theorem heading_function (t : List Char) :
    heading ("function ".toList ++ t) true = .function := by
  have hif : ¬ "if ".toList <+: "function ".toList ++ t := by simp
  have hfilter : ¬ "filter ".toList <+: "function ".toList ++ t := by simp
  have call : "function ".toList.isPrefixOf ("function ".toList ++ t) = true :=
    List.isPrefixOf_iff_prefix.mpr (List.prefix_append _ _)
  rw [heading, dropPrefix?_eq_none hif, dropPrefix?_eq_none hfilter, call]
  rfl

theorem heading_set (name : List Char) (braced : Bool) :
    heading ("define ".toList ++ (name ++ " = [".toList)) braced = .set name := by
  have hif : ¬ "if ".toList <+: "define ".toList ++ (name ++ " = [".toList) := by simp
  have hfilter : ¬ "filter ".toList <+: "define ".toList ++ (name ++ " = [".toList) := by simp
  have call : "function ".toList.isPrefixOf ("define ".toList ++ (name ++ " = [".toList)) = false :=
    rfl
  have set : (("define ".toList ++ (name ++ " = [".toList)).dropPrefix? "define ".toList).bind
      (·.dropSuffix? " = [".toList) = some name := by
    rw [dropPrefix?_append, Option.bind_some, dropSuffix?_append]
  rw [heading, dropPrefix?_eq_none hif, dropPrefix?_eq_none hfilter, call, set]
  rfl

theorem heading_if {test : List Char} (h : ¬ "then".toList <:+: test) (branch : List Char)
    (braced : Bool) :
    heading ("if ".toList ++ (test ++ " then ".toList ++ branch)) braced =
      if branch = ['\x7b'] then .cond test else .inline test branch := by
  rw [heading, dropPrefix?_append, Option.bind_some, dropInfix?_then h]

/-- An unmarked text is only taken for a word that marks lines if it is this word. -/
theorem Unmarked.eq_of_start {s k : String} (h : Unmarked s) (hm : k ++ " " ∈ marks)
    (hk : ' ' ∉ k.toList) {x : List Char} (hp : (k ++ " ").toList <+: s.toList ++ ' ' :: x) :
    s = k := by
  have plain := h.start _ hm
  rw [String.toList_append] at hp plain
  exact String.toList_inj.mp ((prefix_or_eq_of_blank hk hp).resolve_left plain)

theorem heading_block {header : String} (h : Unmarked header) (hk : header ≠ "filter") :
    heading (header.toList ++ " \x7b".toList) false = .block header.toList := by
  have conditional : ((header.toList ++ " \x7b".toList).dropPrefix? "if ".toList).bind
      (·.dropInfix? " then ".toList) = none := by
    by_cases hif : "if ".toList <+: header.toList ++ " \x7b".toList
    · -- A block may have the header `if`, as its line has no `then`.
      rw [h.eq_of_start (k := "if") (by decide) (by decide) hif]
      decide
    · rw [dropPrefix?_eq_none hif, Option.bind_none]
  have hfilter : ¬ "filter ".toList <+: header.toList ++ " \x7b".toList :=
    fun hp => hk (h.eq_of_start (k := "filter") (by decide) (by decide) hp)
  have set : ((header.toList ++ " \x7b".toList).dropPrefix? "define ".toList).bind
      (·.dropSuffix? " = [".toList) = none := by
    rw [Option.bind_eq_none_iff]
    intro r hr
    obtain ⟨w, eq, -⟩ := List.dropPrefix?_eq_some_iff.mp hr
    refine dropSuffix?_eq_none fun hs => ?_
    have last : ['['] <:+ header.toList ++ [' '] ++ ['\x7b'] := by
      rw [List.append_assoc]
      exact List.IsSuffix.trans (by decide) (eq ▸ hs.trans (List.suffix_append _ _))
    exact absurd (List.singleton_suffix_append_singleton_iff.mp last) (by decide)
  have head : (header.toList ++ " \x7b".toList).head? ≠ some '#' := by
    cases hcs : header.toList with
    | nil => decide
    | cons c cs =>
      have plain : ¬ "#".toList <+: header.toList := h.start "#" (by decide)
      rw [hcs] at plain
      simpa using fun e : c = '#' => plain ⟨cs, by rw [e]; rfl⟩
  rw [heading, conditional, dropPrefix?_eq_none hfilter, Bool.and_false, set, dropSuffix?_append]
  exact if_neg head

theorem heading_first {s : Statement} (hs : s.outline = .line s.first) (hc : s.Clear)
    (hk : ¬ s.Keyworded) : heading s.first.toList false = .line := by
  have ended {t : String} (h : Unmarked t) : heading (t ++ ";").toList false = .line := by
    rw [String.toList_append]
    refine heading_semicolon (fun hp => h.start "if " (by decide) ?_)
      (fun hp => h.start "filter " (by decide) ?_) fun _ => rfl
    · exact prefix_of_not_mem (by decide) hp
    · exact prefix_of_not_mem (by decide) hp
  cases s with
  | blank => rfl
  | comment s =>
    have text : (Statement.comment s).first.toList = '#' :: ' ' :: s.toList := by
      simp [Statement.first]
    rw [text]
    exact heading_line (by simp) (by simp) (fun _ => rfl) (by simp) fun _ => rfl
  | define name value =>
    have text : (Statement.define name value).first.toList =
        "define ".toList ++ (name ++ " = " ++ value).toList ++ [';'] := by
      simp [Statement.first]
    rw [text]
    exact heading_semicolon (by simp) (by simp) fun _ => rfl
  | setting s => exact ended hc
  | call s => exact ended hc
  | assign target value =>
    have text : (Statement.assign target value).first.toList =
        target.toList ++ ' ' :: ("= ".toList ++ value.toList) ++ [';'] := by
      simp [Statement.first, Statement.inline?]
    rw [text]
    refine heading_semicolon (fun hp => hk (.inl ?_)) (fun hp => hk (.inr ?_)) fun _ => rfl
    · rw [List.append_assoc] at hp
      exact Unmarked.eq_of_start (k := "if") hc (by decide) (by decide) hp
    · rw [List.append_assoc] at hp
      exact Unmarked.eq_of_start (k := "filter") hc (by decide) (by decide) hp
  | ret e =>
    have text : (Statement.ret e).first.toList = "return ".toList ++ e.text.toList ++ [';'] := by
      simp [Statement.first, Statement.inline?]
    rw [text]
    exact heading_semicolon (by simp) (by simp) fun _ => rfl
  | accept => rfl
  | reject => rfl
  | _ => cases hs

/-! ### Sets -/

def groupsOf : List (List Char) → List SetGroup × List String
  | [] => ([], [])
  | t :: ts =>
    let (groups, items) := groupsOf ts
    match t.dropPrefix? "# ".toList with
    | some comment => (⟨String.ofList comment, items⟩ :: groups, [])
    | none => (groups, String.ofList ((t.dropSuffix? ",".toList).getD t) :: items)

theorem groupsOf_item {i : String} (h : Unmarked i) {t : List Char}
    (ht : t = i.toList ∨ t = i.toList ++ ",".toList) (ts : List (List Char)) :
    groupsOf (t :: ts) = ((groupsOf ts).1, i :: (groupsOf ts).2) := by
  have title : ¬ "# ".toList <+: i.toList :=
    fun hp => h.start "#" (by decide) (List.IsPrefix.trans (by decide) hp)
  have comma : ¬ ",".toList <:+ i.toList := h.finish "," (by decide)
  have item : t.dropPrefix? "# ".toList = none ∧
      (t.dropSuffix? ",".toList).getD t = i.toList := by
    rcases ht with rfl | rfl
    · exact ⟨dropPrefix?_eq_none title, by rw [dropSuffix?_eq_none comma]; rfl⟩
    · refine ⟨dropPrefix?_eq_none fun hp => title (prefix_of_not_mem (by decide) hp), ?_⟩
      rw [dropSuffix?_append]
      rfl
  rw [groupsOf, item.1, item.2]
  simp

theorem groupsOf_itemLines (depth left : Nat) {items : List String}
    (h : ∀ i ∈ items, Unmarked i) (ts : List (List Char)) :
    groupsOf ((itemLines depth left items).map (·.text.toList) ++ ts) =
      ((groupsOf ts).1, items ++ (groupsOf ts).2) := by
  induction items generalizing left with
  | nil => rfl
  | cons i items ih =>
    obtain ⟨hi, his⟩ := List.forall_mem_cons.mp h
    rw [itemLines, List.map_cons, List.cons_append, groupsOf_item hi ?_, ih _ his,
      List.cons_append]
    split <;> simp

theorem groupsOf_groupLines (depth left : Nat) {groups : List SetGroup}
    (h : ∀ g ∈ groups, ∀ i ∈ g.items, Unmarked i) :
    groupsOf ((groupLines depth left groups).map (·.text.toList)) = (groups, []) := by
  induction groups generalizing left with
  | nil => rfl
  | cons g groups ih =>
    obtain ⟨hg, hgs⟩ := List.forall_mem_cons.mp h
    have title : ("# " ++ g.comment).toList.dropPrefix? "# ".toList = some g.comment.toList := by
      rw [String.toList_append, dropPrefix?_append]
    rw [groupLines, List.cons_append, List.map_cons, List.map_append, groupsOf, title,
      groupsOf_itemLines _ _ hg, ih _ hgs]
    simp

theorem depth_groupLines (depth left : Nat) (groups : List SetGroup) :
    ∀ l ∈ groupLines depth left groups, l.depth = depth := by
  have items (left : Nat) (is : List String) : ∀ l ∈ itemLines depth left is, l.depth = depth := by
    induction is generalizing left with
    | nil => exact fun _ h => nomatch h
    | cons i is ih => exact List.forall_mem_cons.mpr ⟨rfl, ih _⟩
  induction groups generalizing left with
  | nil => exact fun _ h => nomatch h
  | cons g groups ih =>
    rw [groupLines, List.cons_append, List.forall_mem_cons, List.forall_mem_append]
    exact ⟨rfl, items _ _, ih _⟩

end Peering.Bird
