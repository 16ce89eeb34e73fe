import Peering.Proofs.Contents
import Peering.Proofs.Mentions
import Peering.Proofs.Spelling

/-!
The texts that are code. Their names are those of what is mentioned: what holds of the keywords, of
literals and of these names holds of all the code, where it is kept by putting texts together.
-/
namespace Peering

theorem legible_singleton {T : String → Prop} {s : String} (h : T s) : ∀ t ∈ [s], T t :=
  List.forall_mem_singleton.mpr h

namespace Bird

def Expr.raws : Expr → List String
  | raw s => [s]
  | not e => e.raws
  | and es | or es => rawsAll es
where
  rawsAll : List Expr → List String
    | [] => []
    | e :: es => e.raws ++ rawsAll es

section Expressions
variable {T : String → Prop} (hT : Legible T)
include hT

theorem Expr.legible_parens {opening t : String} (ho : Keyword opening ∧ closes opening = true)
    (ht : T t) : T (opening ++ t ++ ")") :=
  hT.before (hT.after ho ht) (by decide)

mutual

theorem Expr.legible_text : (e : Expr) → (∀ s ∈ e.raws, T s) → T e.text
  | raw s, h => h s (List.mem_singleton_self s)
  | not (raw s), h => by
    have hs : T s := h s (List.mem_singleton_self s)
    rw [text]
    split
    · exact hT.after (by decide) hs
    · exact legible_parens hT (by decide) hs
  | not (not e), h => legible_parens hT (by decide) (Expr.legible_text (not e) h)
  | not (and es), h => legible_parens hT (by decide) (Expr.legible_text (and es) h)
  | not (or es), h => legible_parens hT (by decide) (Expr.legible_text (or es) h)
  | and es, h => hT.intercalate (by decide) (Expr.legible_terms es h)
  | or es, h => hT.intercalate (by decide) (Expr.legible_terms es h)

theorem Expr.legible_terms : (es : List Expr) → (∀ s ∈ raws.rawsAll es, T s) →
    ∀ t ∈ text.terms es, T t
  | [], _ => fun _ h => nomatch h
  | e :: es, h => by
    rw [raws.rawsAll, List.forall_mem_append] at h
    have he := Expr.legible_text e h.1
    rw [text.terms, List.forall_mem_cons]
    refine ⟨?_, Expr.legible_terms es h.2⟩
    split
    · exact legible_parens hT (by decide) he
    · exact he

end

end Expressions

section Statements

mutual

def Statement.codes : Statement → List String
  | .blank | .accept | .reject | .comment _ => []
  | .setting s | .call s => [s]
  | .define name value => [name, value]
  | .defineSet name groups => name :: groups.flatMap (·.items)
  | .assign target value => [target, value]
  | .cond test yes no => test.text :: codes yes ++ codes no
  | .ret e => [e.text]
  | .function name params returns body => name :: params ++ returns.toList ++ codes body
  | .filter name locals body => name :: locals ++ codes body
  | .block header body _ => header :: codes body

def codes : List Statement → List String
  | [] => []
  | s :: ss => s.codes ++ codes ss

end

mutual

def Statement.comments : Statement → List String
  | .comment s => [s]
  | .defineSet _ groups => groups.map (·.comment)
  | .cond _ yes no => comments yes ++ comments no
  | .function _ _ _ body | .filter _ _ body | .block _ body _ => comments body
  | _ => []

def comments : List Statement → List String
  | [] => []
  | s :: ss => s.comments ++ comments ss

end

mutual

theorem Statement.mem_texts_iff {t : String} :
    (s : Statement) → (t ∈ s.texts ↔ t ∈ s.codes ∨ t ∈ s.comments)
  | .blank | .accept | .reject | .comment _ | .setting _ | .call _ | .define .. | .assign ..
  | .ret _ => by simp [Statement.texts, Statement.codes, Statement.comments]
  | .defineSet name groups => by
    simp only [Statement.texts, Statement.codes, Statement.comments, List.mem_cons,
      List.mem_flatMap, List.mem_map, and_or_left, exists_or, @eq_comm _ _ t]
    exact (or_congr_right or_comm).trans or_assoc.symm
  | .cond test yes no => by
    simp only [Statement.texts, Statement.codes, Statement.comments, List.mem_cons,
      List.mem_append, mem_texts_iff yes, mem_texts_iff no]
    tauto
  | .function name params returns body => by
    simp only [Statement.texts, Statement.codes, Statement.comments, List.mem_cons,
      List.mem_append, mem_texts_iff body]
    tauto
  | .filter name locals body => by
    simp only [Statement.texts, Statement.codes, Statement.comments, List.mem_cons,
      List.mem_append, mem_texts_iff body]
    tauto
  | .block header body terminated => by
    simp only [Statement.texts, Statement.codes, Statement.comments, List.mem_cons,
      mem_texts_iff body]
    tauto

theorem mem_texts_iff {t : String} :
    (ss : List Statement) → (t ∈ texts ss ↔ t ∈ codes ss ∨ t ∈ comments ss)
  | [] => by simp [texts, codes, comments]
  | s :: ss => by
    simp only [texts, codes, comments, List.mem_append, s.mem_texts_iff, mem_texts_iff ss]
    tauto

end

theorem codes_eq_flatMap (ss : List Statement) : codes ss = ss.flatMap Statement.codes := by
  induction ss with
  | nil => rfl
  | cons s ss ih => rw [codes, ih, List.flatMap_cons]

theorem codes_append (ss ts : List Statement) : codes (ss ++ ts) = codes ss ++ codes ts := by
  simp only [codes_eq_flatMap, List.flatMap_append]

theorem codes_settings {α : Type} (g : α → String) (as : List α) :
    codes (as.map fun a => .setting (g a)) = as.map g := by
  rw [codes_eq_flatMap, List.flatMap_map]
  exact List.flatMap_pure_eq_map g as

theorem comments_settings {α : Type} (g : α → String) (as : List α) :
    comments (as.map fun a => .setting (g a)) = [] := by
  induction as with
  | nil => rfl
  | cons a as ih =>
    rw [List.map_cons, comments, ih]
    rfl

end Statements

end Bird

namespace Filter
open Bird (Expr)

section Commands
variable {T : String → Prop}

theorem legible_call (hT : Legible T) {f : SharedFunction} {argument : String} (hf : T f.name)
    (ha : Bare argument) : T (f.call argument) :=
  hT.before (hT.between hf (by decide) (hT.keyword argument ha.keyword)) (by decide)

theorem legible_operand (hT : Legible T) (o : Operand) : T o.text := by
  cases o with
  | number n => exact hT.bare (bare_asnText n)
  | argument => exact hT.keyword _ (by decide)

mutual

theorem Test.legible_raws (hT : Legible T) :
    (t : Test) → t.Sound (fun s => T s.name) (T "[]") → ∀ s ∈ t.expr.raws, T s
  | constant b, _ => by cases b <;> exact legible_singleton (hT.keyword _ (by decide))
  | netIs n, _ => legible_singleton (hT.after (by decide) (hT.bare n.bare_text))
  | familyIs f, _ => by cases f <;> exact legible_singleton (hT.keyword _ (by decide))
  | netIn (.listed ps), h =>
    legible_singleton (hT.after (by decide) (hT.set listable_patterns h.hollow))
  | originAsnIn (.listed ns), h =>
    legible_singleton (hT.after (by decide) (hT.set listable_asns h.hollow))
  | netIn (.named _), h | originAsnIn (.named _), h | pathMeets _, h
  | netLongerThan _, h | netShorterThan _, h | pathLongerThan _, h | pathShorterThan _, h
  | moreCommunitiesThan _, h =>
    legible_singleton (hT.after (by decide +kernel) (h.mentions _ (List.mem_singleton_self _)))
  | firstAsnIsNot n, _ => legible_singleton (hT.after (by decide) (hT.bare (bare_asnText n)))
  | nextHopIsNot a, _ => legible_singleton (hT.after (by decide) (hT.bare a.bare_text))
  | sourceIs o, _ => by cases o <;> exact legible_singleton (hT.keyword _ (by decide))
  | protocolIs _, h | protocolIsNot _, h =>
    legible_singleton
      (hT.before (hT.after (by decide) (h.mentions _ (List.mem_singleton_self _))) (by decide))
  | communityIn cs, h =>
    legible_singleton (hT.after (by decide) (hT.set listable_communities h.hollow))
  | extendedIn cs, h =>
    legible_singleton (hT.after (by decide) (hT.set listable_extended h.hollow))
  | largeIn cs, h =>
    legible_singleton (hT.after (by decide) (hT.set listable_large h.hollow))
  | largeMatches ps, h =>
    legible_singleton (hT.after (by decide) (hT.set listable_largePatterns h.hollow))
  | carries admin function value, _ =>
    have admin := hT.after (k := "(") (by decide) (hT.bare (bare_asnText admin))
    have function := hT.between admin (k := ", ") (by decide) (hT.bare (bare_asnText function))
    have value := hT.between function (k := ", ") (by decide) (legible_operand hT value)
    legible_singleton (hT.before value (by decide))
  | shared _ none, h =>
    legible_singleton (legible_call hT (h.mentions _ (List.mem_singleton_self _)) (by decide))
  | shared _ (some n), h =>
    legible_singleton (legible_call hT (h.mentions _ (List.mem_singleton_self _)) (bare_asnText n))
  | undecided, _ | decided, _ => legible_singleton (hT.keyword _ (by decide))
  | not t, h => Test.legible_raws hT t ⟨h.mentions, h.hollow⟩
  | every ts, h => Test.legible_rawsAll hT ts h.mentions h.hollow

theorem Test.legible_rawsAll (hT : Legible T) :
    (ts : List Test) → (∀ s ∈ mentions.mentionsAll ts, T s.name) → (Hollow.HollowAny ts → T "[]") →
      ∀ s ∈ Expr.raws.rawsAll (expr.exprs ts), T s
  | [], _, _ => fun _ h => nomatch h
  | t :: ts, hm, hh => by
    rw [mentions.mentionsAll, List.forall_mem_append] at hm
    rw [expr.exprs, Expr.raws.rawsAll, List.forall_mem_append]
    exact ⟨Test.legible_raws hT t ⟨hm.1, fun h => hh (.inl h)⟩,
      Test.legible_rawsAll hT ts hm.2 fun h => hh (.inr h)⟩

end

theorem Test.legible_text (hT : Legible T) {t : Test} (h : t.Sound (fun s => T s.name) (T "[]")) :
    T t.expr.text :=
  Expr.legible_text hT t.expr (t.legible_raws hT h)

namespace Command

theorem legible_mark (hT : Legible T) (m : Mark) {verb : String}
    (hv : Keyword verb ∧ opens verb = true ∧ closes verb = true) :
    T (m.holder ++ verb ++ m.text ++ ")") := by
  have holder : T m.holder := by
    cases m with
    | standard _ => exact hT.keyword "bgp_community" (by decide)
    | extended _ => exact hT.keyword "bgp_ext_community" (by decide)
    | large _ => exact hT.keyword "bgp_large_community" (by decide)
  have text : Bare m.text := by
    cases m with
    | standard c => exact c.bare_text
    | extended c => exact c.bare_text
    | large c => exact c.bare_text
  exact hT.before (hT.between holder hv (hT.bare text)) (by decide)

mutual

theorem legible_codes (hT : Legible T) :
    (c : Command) → (∀ s ∈ c.mentions, T s.name) → (c.Hollow → T "[]") →
      ∀ t ∈ c.statement.codes, T t
  | comment _, _, _ | accept, _, _ | reject, _, _ => fun _ h => nomatch h
  | add m, _, _ => legible_singleton (legible_mark hT m (by decide))
  | remove m, _, _ => legible_singleton (legible_mark hT m (by decide))
  | strip ps, _, hh =>
    legible_singleton (hT.before
      (hT.after (by decide) (hT.set listable_largePatterns hh)) (by decide))
  | setLocalPref n, _, _ =>
    List.forall_mem_cons.mpr
      ⟨hT.keyword _ (by decide), legible_singleton (hT.bare (bare_asnText n))⟩
  | setDecided b, _, _ => by
    refine List.forall_mem_cons.mpr ⟨hT.keyword _ (by decide), legible_singleton ?_⟩
    cases b <;> exact hT.keyword _ (by decide)
  | prepend, hm, _ =>
    legible_singleton
      (hT.before (hT.after (by decide) (hm _ (List.mem_singleton_self _))) (by decide))
  | run _ n, hm, _ =>
    legible_singleton (legible_call hT (hm _ (List.mem_singleton_self _)) (bare_asnText n))
  | consult f no, hm, hh => by
    rw [mentions, List.forall_mem_cons] at hm
    have call : ∀ s ∈ (Expr.not (.call f.name)).raws, T s :=
      legible_singleton (hT.before hm.1 (by decide))
    rw [statement, Bird.Statement.when, Bird.Statement.codes, Bird.codes, List.append_nil,
      List.forall_mem_cons]
    exact ⟨Expr.legible_text hT _ call, legible_codesOf hT no hm.2 hh⟩
  | cond t yes no, hm, hh => by
    rw [mentions, List.forall_mem_append, List.forall_mem_append] at hm
    rw [statement, Bird.Statement.codes, List.cons_append, List.forall_mem_cons,
      List.forall_mem_append]
    exact ⟨Test.legible_text hT ⟨hm.1.1, fun h => hh (.inl h)⟩,
      legible_codesOf hT yes hm.1.2 fun h => hh (.inr (.inl h)),
      legible_codesOf hT no hm.2 fun h => hh (.inr (.inr h))⟩
  | ret _, hm, hh => legible_singleton (Test.legible_text hT ⟨hm, hh⟩)

theorem legible_codesOf (hT : Legible T) :
    (cs : List Command) → (∀ s ∈ mentions.mentionsOf cs, T s.name) →
      (Hollow.HollowAny cs → T "[]") → ∀ t ∈ Bird.codes (statement.statements cs), T t
  | [], _, _ => fun _ h => nomatch h
  | c :: cs, hm, hh => by
    rw [mentions.mentionsOf, List.forall_mem_append] at hm
    rw [statement.statements, Bird.codes, List.forall_mem_append]
    exact ⟨legible_codes hT c hm.1 fun h => hh (.inl h),
      legible_codesOf hT cs hm.2 fun h => hh (.inr h)⟩

end

mutual

theorem comments_statement : (c : Command) → c.statement.comments = c.remarks
  | consult f no => by
    rw [statement, Bird.Statement.when, Bird.Statement.comments, Bird.comments, List.append_nil,
      remarks, comments_statements no]
  | cond t yes no => by
    rw [statement, Bird.Statement.comments, remarks, comments_statements yes,
      comments_statements no]
  | comment _ | add _ | remove _ | strip _ | setLocalPref _ | setDecided _ | prepend | run ..
  | ret _ | accept | reject => rfl

theorem comments_statements :
    (cs : List Command) → Bird.comments (statement.statements cs) = remarks.remarksOf cs
  | [] => rfl
  | c :: cs => by
    rw [statement.statements, Bird.comments, remarks.remarksOf, comments_statement c,
      comments_statements cs]

end

end Command

end Commands

end Filter

namespace Declaration
open Bird (Statement)

/-- The texts of a declaration that are code. A description is quoted, so no word of it is. -/
def codes : Declaration → List String
  | session s => { s with description := "" }.statement.codes
  | d => d.statement.codes

def remarks : Declaration → List String
  | session s => [s.description]
  | d => d.statement.comments

section Legible
variable {T : String → Prop} (hT : Legible T)
include hT

theorem legible_channel (f : Family) : T f.channel := by
  cases f with
  | v4 => exact hT.keyword "ipv4" (by decide)
  | v6 => exact hT.keyword "ipv6" (by decide)

theorem legible_pipe {p : Pipe} (own : T p.name.name)
    (mentions : ∀ s ∈ (pipe p).mentions, T s.name) : ∀ t ∈ (pipe p).codes, T t := by
  simp only [Declaration.mentions, List.forall_mem_cons] at mentions
  obtain ⟨table, other, outward, inward, _⟩ := mentions
  refine List.forall_mem_cons.mpr ⟨hT.after (by decide) own, ?_⟩
  refine List.forall_mem_cons.mpr ⟨hT.after (by decide) table, ?_⟩
  refine List.forall_mem_cons.mpr ⟨hT.after (by decide) other, ?_⟩
  refine List.forall_mem_cons.mpr ⟨hT.after (by decide) outward, ?_⟩
  exact legible_singleton (hT.after (by decide) inward)

theorem legible_originate {f : Family} {nets : List Network} (own : T (Protocol.originate f).name)
    (table : T (Table.main f).name) : ∀ t ∈ (originate f nets).codes, T t := by
  have routes : ∀ t ∈ Bird.codes
      (nets.map fun n => .setting s!"route {n.text} blackhole"), T t := by
    rw [Bird.codes_settings, List.forall_mem_map]
    exact fun n _ => hT.before (hT.after (by decide) (hT.bare n.bare_text)) (by decide)
  refine List.forall_mem_cons.mpr
    ⟨hT.after (by decide) own, List.forall_mem_append.mpr ⟨?_, routes⟩⟩
  exact List.forall_mem_cons.mpr
    ⟨legible_channel hT f, legible_singleton (hT.after (by decide) table)⟩

theorem legible_local (a : Option Address) (asn : UInt32) : T (match a with
    | some a => s!"local {a.text} as {asn.toNat}"
    | none => s!"local as {asn.toNat}") := by
  have number : T (toString asn.toNat) := hT.bare (bare_nat asn.toNat)
  cases a with
  | none => exact hT.after (by decide) number
  | some a => exact hT.between (hT.after (by decide) (hT.bare a.bare_text)) (by decide) number

theorem legible_cluster (id : Option Address4) : ∀ t ∈ Bird.codes (match id with
    | some id => [.setting "rr client", .setting s!"rr cluster id {(Address.v4 id).text}"]
    | none => []), T t := by
  cases id with
  | none => exact List.forall_mem_nil _
  | some id =>
    exact List.forall_mem_cons.mpr ⟨hT.keyword _ (by decide),
      legible_singleton (hT.after (by decide) (hT.bare (Address.bare_text _)))⟩

theorem legible_session {s : Session} (own : T (Protocol.session s.family s.peer).name)
    (mentions : ∀ m ∈ (session s).mentions, T m.name) : ∀ t ∈ (session s).codes, T t := by
  simp only [Declaration.mentions, List.forall_mem_cons] at mentions
  obtain ⟨table, filter, _⟩ := mentions
  have number (n : UInt32) : T (toString n.toNat) := hT.bare (bare_nat n.toNat)
  have localText := legible_local hT s.localAddress s.localAsn
  have neighbor : T s!"neighbor {s.neighbor.text} as {s.asn.toNat}" :=
    hT.between (hT.after (by decide) (hT.bare s.neighbor.bare_text)) (by decide) (number _)
  have passive : ∀ t ∈ Bird.codes (if s.passive then [.setting "passive on"] else []), T t := by
    split
    · exact legible_singleton (hT.keyword _ (by decide))
    · exact List.forall_mem_nil _
  have cluster := legible_cluster hT s.clusterId
  have limit : ∀ t ∈ Bird.codes (s.limit.map fun n =>
      Statement.setting s!"import limit {n.toNat} action restart").toList, T t := by
    cases s.limit with
    | none => exact List.forall_mem_nil _
    | some n => exact legible_singleton (hT.before (hT.after (by decide) (number n)) (by decide))
  have channel : ∀ t ∈ s.channel.codes, T t := by
    rw [Session.channel, Statement.codes, Bird.codes_append, List.forall_mem_cons,
      List.forall_mem_append]
    refine ⟨legible_channel hT s.family, ?_, limit⟩
    refine List.forall_mem_cons.mpr ⟨hT.after (by decide) table, ?_⟩
    exact List.forall_mem_cons.mpr
      ⟨hT.after (by decide) filter, legible_singleton (hT.keyword _ (by decide))⟩
  have description : T ("description \"" ++ Session.quotable "" ++ "\"") := by
    have blank : Session.quotable "" = "" := by simp [Session.quotable]
    rw [blank]
    exact hT.keyword _ (by decide)
  rw [codes, Session.statement, Statement.codes, Bird.codes_append, Bird.codes_append,
    Bird.codes_append, List.forall_mem_cons, List.forall_mem_append, List.forall_mem_append,
    List.forall_mem_append]
  refine ⟨hT.after (by decide) own, ⟨⟨?_, passive⟩, cluster⟩, ?_⟩
  · exact List.forall_mem_cons.mpr
      ⟨description, List.forall_mem_cons.mpr ⟨localText, legible_singleton neighbor⟩⟩
  · have same : { s with description := "" }.channel = s.channel := rfl
    rw [same, Bird.codes, Bird.codes, List.append_nil]
    exact channel

theorem legible_codes {d : Declaration} (own : ∀ n, d.name? = some n → T n)
    (mentions : ∀ s ∈ d.mentions, T s.name) (hollow : d.Hollow → T "[]")
    (items : ∀ l, d = .list l → ∀ g ∈ l.groups, ∀ i ∈ g.items, Bare i) : ∀ t ∈ d.codes, T t := by
  cases d with
  | blank | comment s => exact List.forall_mem_nil _
  | routerId a =>
    exact legible_singleton (hT.after (by decide) (hT.bare (Address.bare_text _)))
  | constant c value =>
    exact List.forall_mem_cons.mpr
      ⟨own _ rfl, legible_singleton (hT.bare (bare_nat value))⟩
  | list l =>
    refine List.forall_mem_cons.mpr ⟨own _ rfl, ?_⟩
    rw [List.flatMap_map, List.forall_mem_flatMap]
    exact fun g hg i hi => hT.bare (items l rfl g (List.mem_of_mem_filter hg) i hi)
  | function g =>
    have body := Filter.Command.legible_codesOf hT g.body mentions hollow
    rw [Filter.Command.statements_eq_map] at body
    have params : ∀ t ∈ (if g.takesPeer then ["int peer_asn"] else []), T t := by
      split
      · exact legible_singleton (hT.keyword _ (by decide))
      · exact List.forall_mem_nil _
    have returns : ∀ t ∈ (if g.answers then some "bool" else none).toList, T t := by
      split
      · exact legible_singleton (hT.keyword _ (by decide))
      · exact List.forall_mem_nil _
    exact List.forall_mem_append.mpr
      ⟨List.forall_mem_cons.mpr ⟨own _ rfl, List.forall_mem_append.mpr ⟨params, returns⟩⟩, body⟩
  | filter g =>
    have body := Filter.Command.legible_codesOf hT g.body mentions hollow
    rw [Filter.Command.statements_eq_map] at body
    have locals : ∀ t ∈ g.locals, T t := by
      unfold Filter.Program.locals
      split
      · exact legible_singleton (hT.keyword _ (by decide))
      · exact List.forall_mem_nil _
    exact List.forall_mem_append.mpr ⟨List.forall_mem_cons.mpr ⟨own _ rfl, locals⟩, body⟩
  | table t =>
    exact legible_singleton (hT.between (legible_channel hT t.family) (by decide) (own _ rfl))
  | originate f nets =>
    exact legible_originate hT (own _ rfl) (mentions _ (List.mem_singleton_self _))
  | pipe p => exact legible_pipe hT (own _ rfl) mentions
  | session s => exact legible_session hT (own _ rfl) mentions

end Legible

end Declaration

theorem SharedFunction.fit_mentions (f : SharedFunction) : ∀ s ∈ f.mentions, s.Fit := by
  cases f <;> simp [mentions, Symbol.Fit, Filter.base?, ListName.peer?]

namespace Policy
variable {p : Policy}

theorem fit_of_knows (h : p.Proper) {stage : Stage} {s : Symbol} (hs : p.Knows stage s) :
    s.Fit := by
  have own {l : ListName} (hl : l.peer? = some p.name) : Symbol.Fit (.list l) := fun q hq =>
    Option.some.inj (hl.symm.trans hq) ▸ h.named
  cases hs with
  | shared f => exact fun _ hb => nomatch hb
  | originate f => trivial
  | asns | nets => exact own rfl
  | rules d => exact fun b hb => ⟨p.name, d, (Option.some.inj hb).symm, h.named⟩

theorem fit_of_mem_rulesOfPeer (h : p.Proper) {g : Filter.Function}
    (hg : g ∈ Filter.rulesOfPeer p) :
    Symbol.Fit (.function g.name) ∧ ∀ s ∈ (Declaration.function g).mentions, s.Fit := by
  obtain ⟨d, hbase, sound⟩ := Filter.rulesOfPeer_sound hg
  have fit : ∀ b ∈ some (ruleBase p.name d), ∃ q e, b = ruleBase q e ∧ validName q = true :=
    fun b hb => ⟨p.name, d, (Option.some.inj hb).symm, h.named⟩
  refine ⟨?_, fun s hs => ?_⟩
  · rw [Symbol.Fit, hbase]
    exact fit
  · obtain rfl | ⟨i, rfl⟩ := sound.mentions s hs
    · trivial
    · exact fit

end Policy

theorem Filter.fit_of_mem_programsOf {own : UInt32} {p : Policy} {f : Family} (h : p.Proper)
    {g : Program} (hg : g ∈ programsOf own p f) :
    Symbol.Fit (.filter g.name) ∧ ∃ stage, Sound (p.Knows stage) False g.body := by
  obtain ⟨stage, hstage⟩ := mem_programsOf hg
  rw [name_ofPeer hstage]
  exact ⟨h.named, stage, (ofPeer_sound stage).of_eq_ok hstage⟩

namespace Router
variable {r : Router} {d : Declaration} (proper : ∀ p ∈ r.peers, p.Proper) (h : r.Declares d)
include proper h

theorem wordy_of_declares {n : String} (hn : d.name? = some n) : Wordy n := by
  have fit {s : Symbol} (hs : s.Fit) (hname : d.name? = some s.name) : Wordy n :=
    Option.some.inj (hname.symm.trans hn) ▸ hs.wordy_name
  cases h with
  | blank | headline | routerId | peerTitle => exact nomatch hn
  | constant c => exact fit (s := .constant c) trivial rfl
  | set hl =>
    have sets : ∀ l ∈ globalLists, Wordy l.name := by decide
    exact Option.some.inj hn ▸ sets _ hl
  | @peerSet p hp l hl =>
    have ofPeer : ∀ l ∈ ListName.peerAsns p.name :: Family.all.map (.peerNets p.name),
        Symbol.Fit (.list l) :=
      List.forall_mem_cons.mpr ⟨fun q hq => Option.some.inj hq ▸ (proper p hp).named,
        List.forall_mem_map.mpr fun f _ q hq => Option.some.inj hq ▸ (proper p hp).named⟩
    exact fit (ofPeer l (List.mem_of_mem_filter hl)) rfl
  | @shared g hg =>
    obtain ⟨f, hname, _⟩ := Filter.mem_sharedOf hg
    exact fit (s := .function g.name) (hname ▸ fun _ hb => nomatch hb) rfl
  | table f => exact fit (s := .table (.main f)) trivial rfl
  | @peerTable p hp f => exact fit (s := .table (.peer f p.name)) (proper p hp).named rfl
  | @originate f => exact fit (s := .protocol (.originate f)) trivial rfl
  | toMaster f => exact fit (s := .filter (.toMaster f)) trivial rfl
  | fromMaster f => exact fit (s := .filter (.fromMaster f)) trivial rfl
  | masterPipe f => exact fit (s := .protocol (.masterPipe f)) trivial rfl
  | rule hp hg => exact fit (Policy.fit_of_mem_rulesOfPeer (proper _ hp) hg).1 rfl
  | filter hp _ hg => exact fit (Filter.fit_of_mem_programsOf (proper _ hp) hg).1 rfl
  | @peerPipe p hp f => exact fit (s := .protocol (.peerPipe f p.name)) (proper p hp).named rfl
  | @session p hp f s hs =>
    obtain ⟨_, _, rfl⟩ := Option.map_eq_some_iff.mp hs
    exact fit (s := .protocol (.session f p.name)) (proper p hp).named rfl

theorem fit_of_mem_mentions : ∀ s ∈ d.mentions, s.Fit := by
  cases h with
  | blank | headline | routerId | peerTitle | constant | set | peerSet | table | peerTable
  | toMaster => exact List.forall_mem_nil _
  | shared hg =>
    obtain ⟨f, _, hmentions, _⟩ := Filter.mem_sharedOf hg
    rw [Declaration.mentions, hmentions]
    exact f.fit_mentions
  | originate => exact List.forall_mem_singleton.mpr trivial
  | fromMaster f => exact (Wiring.fromMaster_sound f r.fromMaster).mentions
  | masterPipe => simp [Declaration.mentions, Symbol.Fit]
  | rule hp hg => exact (Policy.fit_of_mem_rulesOfPeer (proper _ hp) hg).2
  | filter hp _ hg =>
    obtain ⟨_, sound⟩ := (Filter.fit_of_mem_programsOf (proper _ hp) hg).2
    exact fun s hs => Policy.fit_of_knows (proper _ hp) (sound.mentions s hs)
  | peerPipe hp =>
    simp [Declaration.mentions, Wiring.peerPipe, Symbol.Fit, (proper _ hp).named]
  | session hp hs =>
    obtain ⟨_, _, rfl⟩ := Option.map_eq_some_iff.mp hs
    simp [Declaration.mentions, Session.table, Symbol.Fit, (proper _ hp).named]

omit proper in
theorem bare_items : ∀ l, d = .list l → ∀ g ∈ l.groups, ∀ i ∈ g.items, Bare i := by
  rintro l rfl
  have mapped {α : Type} {text : α → String} (bare : ∀ a, Bare (text a)) (gs : List (Group α)) :
      ∀ g ∈ gs.map (·.map text), ∀ i ∈ g.items, Bare i := by
    simp only [List.forall_mem_map, Group.map]
    exact fun _ _ a _ => bare a
  cases h with
  | set hl =>
    have sets : ∀ l ∈ globalLists, ∀ g ∈ l.groups, ∀ i ∈ g.items, Bare i := by decide +kernel
    exact sets l hl
  | @peerSet p _ l _ =>
    cases l with
    | peerNets _ f => exact mapped Pattern.bare_text _
    | _ => exact mapped Filter.bare_asnText _

theorem legible_codes {T : String → Prop} (hT : Legible T)
    (own : ∀ n, d.name? = some n → Wordy n → T n)
    (mentions : ∀ s ∈ d.mentions, Wordy s.name → T s.name) (hollow : d.Hollow → T "[]") :
    ∀ t ∈ d.codes, T t :=
  Declaration.legible_codes hT (fun n hn => own n hn (wordy_of_declares proper h hn))
    (fun s hs => mentions s hs (fit_of_mem_mentions proper h s hs).wordy_name) hollow (bare_items h)

end Router

end Peering
