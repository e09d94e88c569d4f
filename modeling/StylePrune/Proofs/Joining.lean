import StylePrune.Files.Source
import StylePrune.Proofs.Nodes

/-!
# Joining stylesheets

Behind a text that is read as statements the reader is where it began: whatever token came last,
nothing of it is left open. So two stylesheets with a gap between them are read as the nodes of the
one and then those of the other. Only the first node of the second stylesheet shows where it came
from: it is led by what trailed the first one, and by the gap.

Stylesheets from several files are joined that way, with a space behind each of them.

* **`Statement.derives_join`** — the statements of two texts, one after the other.
* **`Sheet.join`** — the nodes of two sheets, one after the other.
* **`Stylesheet.parse_joins`** — what is read from two texts, and from several files.
-/

namespace StylePrune

/-- The statement with a text put before what leads it. -/
def Statement.lead (gap : Text) : Statement → Statement
  | .comment leading t => .comment (gap ++ leading) t
  | .rule leading head body => .rule (gap ++ leading) head body
  | .atRule leading keyword head body => .atRule (gap ++ leading) keyword head body

/-- The node with a text put before what leads it. -/
def Node.lead {σ : Type} (gap : Text) : Node σ → Node σ
  | .rule leading head block => .rule (gap ++ leading) head block
  | .atRule leading keyword prelude block => .atRule (gap ++ leading) keyword prelude block
  | .group leading keyword prelude hidden body =>
    .group (gap ++ leading) keyword prelude hidden body
  | .comment leading t => .comment (gap ++ leading) t
  | .unknown value => .unknown value

namespace Statement

variable {gap : Text} {st : Statement}

theorem text_lead : (st.lead gap).text = gap ++ st.text := by
  match st with
  | .comment leading t => simp [lead, text]
  | .rule leading head body => simp [lead, text]
  | .atRule leading keyword head none => simp [lead, text]
  | .atRule leading keyword head (some body) => simp [lead, text]

theorem leading_lead : (st.lead gap).leading = gap ++ st.leading := by
  cases st <;> rfl

/-- What leads a statement has no part in whether it is readable. -/
theorem Readable.lead (h : Readable st) : Readable (st.lead gap) := by
  cases h with
  | comment leading hbody => exact .comment _ hbody
  | rule leading hstart hhead hbody => exact .rule _ hstart hhead hbody
  | atRule leading hkeyword hhead hbody => exact .atRule _ hkeyword hhead hbody

/-- What leads a statement leads the node that it is read as. -/
theorem ReadAs.lead {n : Node (List Selector)} (h : st.ReadAs n) :
    (st.lead gap).ReadAs (n.lead gap) := by
  cases h with
  | comment leading t => exact .comment _ t
  | rule leading body hhead => exact .rule _ body hhead
  | atRule leading keyword prelude hbody => exact .atRule _ keyword prelude hbody
  | group leading prelude hconditional hbody => exact .group _ prelude hconditional hbody

section

variable {a b trailing trailing' : Text} {sts sts' : List Statement} (hgap : Gap gap)
  (ha : Derives a sts trailing)
include hgap ha

/-- A text without statements, behind a text and a gap, only adds to what trails that text. -/
theorem derives_join_nil (hb : Derives b [] trailing') :
    Derives (a ++ gap ++ b) sts (trailing ++ gap ++ trailing') := by
  simp only [derives_iff, readAll_eq_ok_iff, readFrom_eq_ok_iff] at ha hb ⊢
  obtain ⟨rfl, hsts, htrailing⟩ := ha
  obtain ⟨rfl, -, htrailing'⟩ := hb
  exact ⟨by simp, hsts, (htrailing.append hgap).append htrailing'⟩

/-- The statements of two texts with a gap between them are those of the one and then those of the
other; what trails the first text and the gap lead the first statement of the second text. -/
theorem derives_join (hb : Derives b (st :: sts') trailing') :
    Derives (a ++ gap ++ b) (sts ++ st.lead (trailing ++ gap) :: sts') trailing' := by
  simp only [derives_iff, readAll_eq_ok_iff, readFrom_eq_ok_iff] at ha hb ⊢
  obtain ⟨rfl, hsts, htrailing⟩ := ha
  obtain ⟨rfl, hsts', htrailing'⟩ := hb
  obtain ⟨⟨hst, hlead⟩, hsts'⟩ := List.forall_mem_cons.1 hsts'
  refine ⟨by simp [text_lead], ?_, htrailing'⟩
  refine List.forall_mem_append.2 ⟨hsts, List.forall_mem_cons.2 ⟨⟨hst.lead, ?_⟩, hsts'⟩⟩
  rw [leading_lead]
  exact (htrailing.append hgap).append hlead

end

end Statement

/-! ## Sheets in a row -/

namespace Sheet

variable {σ : Type}

/-- The nodes of two sheets. The text behind the nodes of the first sheet and the gap lead the first
node of the second one, or stand before the text at its end if it has none. -/
def join (gap : Text) (s t : Sheet σ) : Sheet σ :=
  match t.nodes with
  | [] => ofNodes s.nodes (s.trailing ++ gap ++ t.trailing)
  | n :: ns => ofNodes (s.nodes ++ n.lead (s.trailing ++ gap) :: ns) t.trailing

/-- The rules, groups included, from front to back: the head and the block of each. -/
def rules : Sheet σ → List (σ × Text)
  | .done _ => []
  | .rule _ head block next => (head, block) :: next.rules
  | .atRule _ _ _ _ next => next.rules
  | .group _ _ _ _ body next => body.rules ++ next.rules
  | .comment _ _ next => next.rules
  | .unknown _ next => next.rules

theorem heads_eq_map_rules (s : Sheet σ) : s.heads = s.rules.map Prod.fst := by
  induction s with
  | done => rfl
  | rule leading head block next ih => rw [heads, rules, ih, List.map_cons]
  | atRule leading keyword prelude block next ih => exact ih
  | group leading keyword prelude hidden body next ihb ih =>
    rw [heads, rules, ihb, ih, List.map_append]
  | comment leading t next ih => exact ih
  | unknown value next ih => exact ih

end Sheet

/-- The rules of a node: the node itself, or those inside the group. -/
def Node.rules {σ : Type} : Node σ → List (σ × Text)
  | .rule _ head block => [(head, block)]
  | .group _ _ _ _ body => body.rules
  | .atRule .. | .comment .. | .unknown _ => []

theorem Node.rules_lead {σ : Type} (gap : Text) (n : Node σ) : (n.lead gap).rules = n.rules := by
  cases n <;> rfl

namespace Sheet

variable {σ : Type}

theorem rules_ofNodes (ns : List (Node σ)) (trailing : Text) :
    (ofNodes ns trailing).rules = ns.flatMap Node.rules := by
  induction ns with
  | nil => rfl
  | cons n ns ih =>
    rw [ofNodes_cons, List.flatMap_cons, ← ih]
    cases n <;> rfl

theorem rules_eq_flatMap (s : Sheet σ) : s.rules = s.nodes.flatMap Node.rules := by
  rw [← rules_ofNodes s.nodes s.trailing, ofNodes_nodes]

theorem rules_join (gap : Text) (s t : Sheet σ) : (s.join gap t).rules = s.rules ++ t.rules := by
  rw [rules_eq_flatMap s, rules_eq_flatMap t, join]
  cases t.nodes with
  | nil => simp [rules_ofNodes]
  | cons n ns => simp [rules_ofNodes, Node.rules_lead]

/-- Sheets in a row have the rules of all of them. -/
theorem rules_foldr_join (gap trailing : Text) (sheets : List (Sheet σ)) :
    (sheets.foldr (join gap) (.done trailing)).rules = sheets.flatMap rules := by
  induction sheets with
  | nil => rfl
  | cons s sheets ih => rw [List.foldr_cons, rules_join, ih, List.flatMap_cons]

end Sheet

namespace Stylesheet

theorem selectors_eq_flatMap (s : Stylesheet) : selectors s = s.rules.flatMap Prod.fst := by
  rw [selectors, Sheet.heads_eq_map_rules, List.flatMap_def]

/-- Two stylesheets with a gap between them are read as the sheets in a row. -/
theorem parse_append {a b gap : Text} {s t : Stylesheet} (hgap : Gap gap) (ha : parse a = .ok s)
    (hb : parse b = .ok t) : parse (a ++ gap ++ b) = .ok (s.join gap t) := by
  obtain ⟨sts, trailing, ms, hsts, rfl, hms⟩ := parse_eq_ok_iff_nodes.1 ha
  obtain ⟨sts', trailing', ns, hsts', rfl, hns⟩ := parse_eq_ok_iff_nodes.1 hb
  rw [parse_eq_ok_iff_nodes]
  cases hns with
  | nil =>
    refine ⟨sts, _, ms, Statement.derives_join_nil hgap hsts hsts', ?_, hms⟩
    rw [Sheet.join, Sheet.nodes_ofNodes, Sheet.trailing_ofNodes, Sheet.nodes_ofNodes,
      Sheet.trailing_ofNodes]
  | cons hn hns =>
    refine ⟨_, trailing', _, Statement.derives_join hgap hsts hsts', ?_,
      List.rel_append hms (.cons hn.lead hns)⟩
    simp [Sheet.join]

/-- Files that are stylesheets each by itself are read as their sheets in a row. Induction on the
files. -/
theorem parse_joinFiles {compact : Text → Option Text} {t : FileTree} {names : List Text}
    {sheets : List Stylesheet}
    (h : names.Forall₂ (fun name s => ∃ text, t.read name = .ok text ∧ parse text = .ok s) sheets) :
    ∃ text, Source.joinFilesBy compact t false names = .ok text ∧
      parse text = .ok (sheets.foldr (Sheet.join [' ']) (.done [])) := by
  induction h with
  | nil =>
    have hnone : Derives [] [] [] := derives_iff.2 (by decide +kernel)
    exact ⟨[], rfl, parse_eq_ok_iff_nodes.2 ⟨[], [], [], hnone, rfl, .nil⟩⟩
  | @cons name s names sheets hfile _ ih =>
    obtain ⟨text, hread, hparse⟩ := hfile
    obtain ⟨rest, hrest, hsheets⟩ := ih
    have hspace : Gap [' '] := .blank rfl .nil
    refine ⟨text ++ ' ' :: rest, ?_, ?_⟩
    · simp [Source.joinFilesBy, hread, hrest]
    · have hjoined := parse_append hspace hparse hsheets
      simpa using hjoined

/-- Two stylesheets joined by a space are read as the nodes of the one and then those of the other.
The text behind the nodes of the first one, and the space, lead the first node of the second one, or
stand before the text at its end if it has none. So files that are stylesheets each by itself are
one stylesheet, whose rules and selectors are those of the files in order. -/
theorem parse_joins :
    (∀ a b s t, parse a = .ok s → parse b = .ok t →
      ∃ r, parse (a ++ ' ' :: b) = .ok r ∧
        (t.nodes = [] → r.nodes = s.nodes ∧ r.trailing = s.trailing ++ ' ' :: t.trailing) ∧
        ∀ n ns, t.nodes = n :: ns →
          r.nodes = s.nodes ++ n.lead (s.trailing ++ [' ']) :: ns ∧ r.trailing = t.trailing) ∧
      ∀ (files : FileTree) (names : List Text) (sheets : List Stylesheet),
        names.Forall₂ (fun name s => ∃ text, files.read name = .ok text ∧ parse text = .ok s)
            sheets →
          ∃ text r, Source.styleText files (.files names) = .ok text ∧ parse text = .ok r ∧
            r.rules = sheets.flatMap Sheet.rules ∧ selectors r = sheets.flatMap selectors := by
  constructor
  · intro a b s t ha hb
    have hspace : Gap [' '] := .blank rfl .nil
    have hjoined := parse_append hspace ha hb
    refine ⟨s.join [' '] t, by simpa using hjoined, fun ht => ?_, fun n ns ht => ?_⟩
    · simp [Sheet.join, ht]
    · simp [Sheet.join, ht]
  · intro files names sheets h
    obtain ⟨text, htext, hparse⟩ :=
      @parse_joinFiles (fun s => some (Compact.script s)) files names sheets h
    have hrules := Sheet.rules_foldr_join [' '] [] sheets
    refine ⟨text, _, htext, hparse, hrules, ?_⟩
    rw [selectors_eq_flatMap, hrules, List.flatMap_assoc]
    exact List.flatMap_congr fun s _ => (selectors_eq_flatMap s).symm

/-- A file that ends with a marker, which leads nothing there, and a file that begins with one: both
lead the rule of the second file. -/
theorem parse_joins_marker :
    let a : Text := "a{}<!--".toList
    let b : Text := "-->b{}".toList
    let files : FileTree :=
      ⟨[(⟨[], ["a.css".toList]⟩, .file "a{}<!--".toUTF8),
        (⟨[], ["b.css".toList]⟩, .file "-->b{}".toUTF8)]⟩
    let names := ["a.css".toList, "b.css".toList]
    let s : Stylesheet := .rule [] [⟨[⟨.tag, ['a'], ['a']⟩], [], []⟩] ['{', '}'] (.done "<!--".toList)
    let t : Stylesheet := .rule "-->".toList [⟨[⟨.tag, ['b'], ['b']⟩], [], []⟩] ['{', '}'] (.done [])
    parse a = .ok s ∧ parse b = .ok t ∧
      (∃ r, parse (a ++ ' ' :: b) = .ok r ∧ r.trailing = [] ∧
        r.nodes = s.nodes ++
          [.rule "<!-- -->".toList [⟨[⟨.tag, ['b'], ['b']⟩], [], []⟩] ['{', '}']]) ∧
      names.Forall₂ (fun name s => ∃ text, files.read name = .ok text ∧ parse text = .ok s) [s, t] ∧
      ∃ text r, Source.styleText files (.files names) = .ok text ∧ parse text = .ok r ∧
        selectors r = selectors s ++ selectors t := by
  intro a b files names s t
  have hs : parse a = .ok s := by
    have ha : Derives a [.rule [] ['a'] []] "<!--".toList :=
      derives_iff.2 (by decide +kernel)
    have hhead : Selector.parseList ['a'] = .ok [⟨[⟨.tag, ['a'], ['a']⟩], [], []⟩] := by
      decide +kernel
    exact parse_eq_ok_iff_nodes.2 ⟨_, _, _, ha, rfl, .cons (.rule [] [] hhead) .nil⟩
  have ht : parse b = .ok t := by
    have hb : Derives b [.rule "-->".toList ['b'] []] [] :=
      derives_iff.2 (by decide +kernel)
    have hhead : Selector.parseList ['b'] = .ok [⟨[⟨.tag, ['b'], ['b']⟩], [], []⟩] := by
      decide +kernel
    exact parse_eq_ok_iff_nodes.2 ⟨_, _, _, hb, rfl, .cons (.rule _ [] hhead) .nil⟩
  have hfiles : names.Forall₂
      (fun name s => ∃ text, files.read name = .ok text ∧ parse text = .ok s) [s, t] :=
    .cons ⟨a, by rfl, hs⟩ (.cons ⟨b, by rfl, ht⟩ .nil)
  obtain ⟨hjoin, hnames⟩ := parse_joins
  refine ⟨hs, ht, ?_, hfiles, ?_⟩
  · obtain ⟨r, hr, -, hnodes⟩ := hjoin a b s t hs ht
    obtain ⟨hr', htrailing⟩ := hnodes _ [] rfl
    exact ⟨r, hr, htrailing, hr'⟩
  · obtain ⟨text, r, htext, hr, -, hselectors⟩ := hnames files names [s, t] hfiles
    refine ⟨text, r, htext, hr, ?_⟩
    rw [hselectors]
    simp

end Stylesheet

end StylePrune
