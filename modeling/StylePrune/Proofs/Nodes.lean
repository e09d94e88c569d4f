import Mathlib.Data.List.Forall2
import StylePrune.Proofs.Reading
import StylePrune.Proofs.Survival

/-!
# Stylesheets node by node

A sheet is a list of nodes with a text behind them, and a text is read as a stylesheet statement by
statement: each statement is read as one node, and what stands around it has no part in that.

* **`Derives`**, **`Grammatical`** — the statements that the grammar derives from a text.
* **`Statement.ReadAs`** — the node that a statement is read as.
* **`Outline.ofStatements_eq_ofNodes`** — the outline of statements is the list of their nodes.
* **`Stylesheet.parse_eq_ok_iff_nodes`** — a text is a stylesheet when the grammar accepts it and
  every statement of it is read as a node.
-/

namespace StylePrune

/-! ## Sheets as lists of nodes -/

namespace Sheet

variable {σ τ : Type}

/-- A node in front of a sheet. -/
def cons : Node σ → Sheet σ → Sheet σ
  | .rule leading head block, next => .rule leading head block next
  | .atRule leading keyword prelude block, next => .atRule leading keyword prelude block next
  | .group leading keyword prelude hidden body, next =>
    .group leading keyword prelude hidden body next
  | .comment leading t, next => .comment leading t next
  | .unknown value, next => .unknown value next

/-- The nodes outside all groups, from front to back. -/
def nodes : Sheet σ → List (Node σ)
  | .done _ => []
  | .rule leading head block next => .rule leading head block :: next.nodes
  | .atRule leading keyword prelude block next =>
    .atRule leading keyword prelude block :: next.nodes
  | .group leading keyword prelude hidden body next =>
    .group leading keyword prelude hidden body :: next.nodes
  | .comment leading t next => .comment leading t :: next.nodes
  | .unknown value next => .unknown value :: next.nodes

/-- The text behind the last node. -/
def trailing : Sheet σ → Text
  | .done trailing => trailing
  | .rule _ _ _ next => next.trailing
  | .atRule _ _ _ _ next => next.trailing
  | .group _ _ _ _ _ next => next.trailing
  | .comment _ _ next => next.trailing
  | .unknown _ next => next.trailing

/-- The sheet with these nodes and this text behind them. -/
def ofNodes (ns : List (Node σ)) (trailing : Text) : Sheet σ := ns.foldr cons (.done trailing)

@[simp] theorem nodes_cons (n : Node σ) (s : Sheet σ) : (cons n s).nodes = n :: s.nodes := by
  cases n <;> rfl

@[simp] theorem trailing_cons (n : Node σ) (s : Sheet σ) : (cons n s).trailing = s.trailing := by
  cases n <;> rfl

@[simp] theorem ofNodes_cons (n : Node σ) (ns : List (Node σ)) (trailing : Text) :
    ofNodes (n :: ns) trailing = cons n (ofNodes ns trailing) := rfl

@[simp] theorem nodes_ofNodes (ns : List (Node σ)) (trailing : Text) :
    (ofNodes ns trailing).nodes = ns := by
  induction ns with
  | nil => rfl
  | cons n ns ih => rw [ofNodes_cons, nodes_cons, ih]

@[simp] theorem trailing_ofNodes (ns : List (Node σ)) (t : Text) :
    (ofNodes ns t).trailing = t := by
  induction ns with
  | nil => rfl
  | cons n ns ih => rw [ofNodes_cons, trailing_cons, ih]

/-- A sheet is its nodes and the text behind them. -/
theorem ofNodes_nodes (s : Sheet σ) : ofNodes s.nodes s.trailing = s := by
  induction s with
  | done => rfl
  | rule leading head block next ih => rw [nodes, trailing, ofNodes_cons, ih, cons]
  | atRule leading keyword prelude block next ih => rw [nodes, trailing, ofNodes_cons, ih, cons]
  | group leading keyword prelude hidden body next _ ih =>
    rw [nodes, trailing, ofNodes_cons, ih, cons]
  | comment leading t next ih => rw [nodes, trailing, ofNodes_cons, ih, cons]
  | unknown value next ih => rw [nodes, trailing, ofNodes_cons, ih, cons]

end Sheet

/-- The sheet inside a group. -/
def Node.body? {σ : Type} : Node σ → Option (Sheet σ)
  | .group _ _ _ _ body => some body
  | .rule .. | .atRule .. | .comment .. | .unknown _ => none

namespace Sheet

variable {σ τ : Type}

@[simp] theorem node?_done (trailing : Text) (p : Place) :
    (done trailing : Sheet σ).node? p = none := by
  cases p <;> rfl

@[simp] theorem node?_cons_first (n : Node σ) (s : Sheet σ) :
    (cons n s).node? .first = some n := by
  cases n <;> rfl

@[simp] theorem node?_cons_behind (n : Node σ) (s : Sheet σ) (p : Place) :
    (cons n s).node? (.behind p) = s.node? p := by
  cases n <;> rfl

@[simp] theorem node?_cons_inside (n : Node σ) (s : Sheet σ) (p : Place) :
    (cons n s).node? (.inside p) = n.body?.bind fun body => body.node? p := by
  cases n <;> rfl

end Sheet

/-! ## Nodes of sheets of one shape -/

/-- Two nodes agree in everything but their heads, and the heads are related in pairs. -/
inductive Node.Rel {σ τ : Type} (r : σ → τ → Prop) : Node σ → Node τ → Prop where
  | rule (leading : Text) {head : σ} {head' : τ} (block : Text) (hhead : r head head') :
      Rel r (.rule leading head block) (.rule leading head' block)
  | atRule (leading keyword prelude : Text) (block : Option Text) :
      Rel r (.atRule leading keyword prelude block) (.atRule leading keyword prelude block)
  | group (leading keyword prelude : Text) (hidden : Option Text) {body : Sheet σ}
      {body' : Sheet τ} (hbody : Sheet.Rel r body body') :
      Rel r (.group leading keyword prelude hidden body)
        (.group leading keyword prelude hidden body')
  | comment (leading t : Text) : Rel r (.comment leading t) (.comment leading t)
  | unknown (value : Text) : Rel r (.unknown value) (.unknown value)

namespace Sheet

variable {σ τ : Type} {r : σ → τ → Prop}

theorem rel_cons_iff {m : Node σ} {s : Sheet σ} {t : Sheet τ} :
    Rel r (cons m s) t ↔ ∃ n t', t = cons n t' ∧ Node.Rel r m n ∧ Rel r s t' := by
  constructor
  · intro h
    cases m with
    | rule leading head block =>
      cases h with
      | rule _ _ hhead hnext => exact ⟨.rule _ _ _, _, rfl, .rule _ _ hhead, hnext⟩
    | atRule =>
      cases h with
      | atRule _ _ _ _ hnext => exact ⟨.atRule _ _ _ _, _, rfl, .atRule _ _ _ _, hnext⟩
    | group =>
      cases h with
      | group _ _ _ _ hbody hnext =>
        exact ⟨.group _ _ _ _ _, _, rfl, .group _ _ _ _ hbody, hnext⟩
    | comment =>
      cases h with
      | comment _ _ hnext => exact ⟨.comment _ _, _, rfl, .comment _ _, hnext⟩
    | unknown =>
      cases h with
      | unknown _ hnext => exact ⟨.unknown _, _, rfl, .unknown _, hnext⟩
  · rintro ⟨n, t', rfl, hnode, hnext⟩
    cases hnode with
    | rule leading block hhead => exact .rule leading block hhead hnext
    | atRule => exact .atRule _ _ _ _ hnext
    | group _ _ _ _ hbody => exact .group _ _ _ _ hbody hnext
    | comment => exact .comment _ _ hnext
    | unknown => exact .unknown _ hnext

/-- Sheets of one shape have related nodes, one for one. -/
theorem rel_ofNodes_iff {ms : List (Node σ)} {trailing : Text} {t : Sheet τ} :
    Rel r (ofNodes ms trailing) t ↔ ∃ ns, t = ofNodes ns trailing ∧ ms.Forall₂ (Node.Rel r) ns := by
  induction ms generalizing t with
  | nil =>
    constructor
    · rintro ⟨⟩
      exact ⟨[], rfl, .nil⟩
    · rintro ⟨ns, rfl, h⟩
      cases h
      exact .done trailing
  | cons m ms ih =>
    rw [ofNodes_cons, rel_cons_iff]
    constructor
    · rintro ⟨n, t', rfl, hnode, hnext⟩
      obtain ⟨ns, rfl, hns⟩ := ih.1 hnext
      exact ⟨n :: ns, rfl, .cons hnode hns⟩
    · rintro ⟨ns, rfl, h⟩
      cases h with
      | cons hnode hns => exact ⟨_, _, rfl, hnode, ih.2 ⟨_, rfl, hns⟩⟩

/-- Sheets of one shape have related nodes at the same places. -/
theorem Rel.node? {s : Sheet σ} {t : Sheet τ} (h : Rel r s t) (p : Place) :
    Option.Rel (Node.Rel r) (s.node? p) (t.node? p) := by
  induction h generalizing p with
  | done trailing =>
    rw [node?_done, node?_done]
    exact .none
  | rule leading block hhead hnext ih =>
    cases p with
    | first => exact .some (.rule leading block hhead)
    | behind p => exact ih p
    | inside p => exact .none
  | atRule leading keyword prelude block hnext ih =>
    cases p with
    | first => exact .some (.atRule leading keyword prelude block)
    | behind p => exact ih p
    | inside p => exact .none
  | group leading keyword prelude hidden hbody hnext ihb ih =>
    cases p with
    | first => exact .some (.group leading keyword prelude hidden hbody)
    | behind p => exact ih p
    | inside p => exact ihb p
  | comment leading t hnext ih =>
    cases p with
    | first => exact .some (.comment leading t)
    | behind p => exact ih p
    | inside p => exact .none
  | unknown value hnext ih =>
    cases p with
    | first => exact .some (.unknown value)
    | behind p => exact ih p
    | inside p => exact .none

theorem Rel.exists_right {s : Sheet σ} {t : Sheet τ} (h : Rel r s t) {p : Place} {m : Node σ}
    (hm : s.node? p = some m) : ∃ n, t.node? p = some n ∧ Node.Rel r m n := by
  have hnode := h.node? p
  rw [hm] at hnode
  revert hnode
  generalize t.node? p = n
  rintro ⟨hn⟩
  exact ⟨_, rfl, hn⟩

theorem Rel.exists_left {s : Sheet σ} {t : Sheet τ} (h : Rel r s t) {p : Place} {n : Node τ}
    (hn : t.node? p = some n) : ∃ m, s.node? p = some m ∧ Node.Rel r m n := by
  have hnode := h.node? p
  rw [hn] at hnode
  revert hnode
  generalize s.node? p = m
  rintro ⟨hm⟩
  exact ⟨_, rfl, hm⟩

end Sheet

/-! ## What the grammar derives -/

/-- The grammar derives these statements from a text, and leaves this text behind the last of them.
-/
def Derives (source : Text) (sts : List Statement) (trailing : Text) : Prop :=
  ∃ (ls : List Lexeme) (gap : Text) (d : Derivation),
    Lexed source ls gap ∧ d.lexemes = ls ∧ d.statements [] gap = (sts, trailing)

/-- The grammar accepts a text: it is lexed into tokens that have a derivation. -/
def Grammatical (source : Text) : Prop := ∃ sts trailing, Derives source sts trailing

theorem derives_iff {source trailing : Text} {sts : List Statement} :
    Derives source sts trailing ↔ Statement.readAll source = .ok (sts, trailing) :=
  Statement.readAll_eq_ok_iff_derives.symm

/-- A text has the statements of one derivation. -/
theorem Derives.unique {source trailing trailing' : Text} {sts sts' : List Statement}
    (h : Derives source sts trailing) (h' : Derives source sts' trailing') :
    sts = sts' ∧ trailing = trailing' := by
  rw [derives_iff] at h h'
  rw [h] at h'
  cases h'
  exact ⟨rfl, rfl⟩

theorem Grammatical.of_parse {source : Text} {o : Outline} (h : Outline.parse source = .ok o) :
    Grammatical source := by
  obtain ⟨sts, trailing, hread, -⟩ := Outline.parse_eq_ok_iff.1 h
  exact ⟨sts, trailing, derives_iff.2 hread⟩

theorem Grammatical.exists_parse {source : Text} (h : Grammatical source) :
    ∃ o, Outline.parse source = .ok o := by
  obtain ⟨sts, trailing, hsts⟩ := h
  exact ⟨_, Outline.parse_eq_ok_iff.2 ⟨sts, trailing, derives_iff.1 hsts, rfl⟩⟩

/-! ## Statements as nodes -/

/-- The block of an at-rule holds statements: the at-rule is conditional, and the grammar accepts
what stands between the braces. -/
def HoldsStatements (keyword body : Text) : Prop :=
  AtRule.isConditional keyword = true ∧ Grammatical body

namespace Outline

/-- The node of an outline that a statement is read as. -/
def ofStatement : Statement → Node Text
  | .comment leading t => .comment leading t
  | .rule leading head body => .rule leading head (Statement.braced body)
  | .atRule leading keyword prelude none => .atRule leading keyword prelude none
  | .atRule leading keyword prelude (some body) =>
    if AtRule.isConditional keyword then
      match parse body with
      | .ok inner => .group leading keyword prelude none inner
      | .error _ => .atRule leading keyword prelude (some (Statement.braced body))
    else .atRule leading keyword prelude (some (Statement.braced body))

variable {leading keyword prelude : Text}

theorem ofStatement_group {body : Text} {inner : Outline}
    (hconditional : AtRule.isConditional keyword = true) (h : parse body = .ok inner) :
    ofStatement (.atRule leading keyword prelude (some body)) =
      .group leading keyword prelude none inner := by
  simp only [ofStatement, hconditional, if_true, h]

/-- An at-rule whose block does not hold statements keeps its block as it is. -/
theorem ofStatement_atRule {body : Option Text} (h : ∀ b ∈ body, ¬ HoldsStatements keyword b) :
    ofStatement (.atRule leading keyword prelude body) =
      .atRule leading keyword prelude (body.map Statement.braced) := by
  cases body with
  | none => rfl
  | some b =>
    simp only [ofStatement, Option.map_some]
    split
    · rename_i hconditional
      split
      · rename_i inner hparse
        exact absurd ⟨hconditional, .of_parse hparse⟩ (h b rfl)
      · rfl
    · rfl

/-- Statements are read one by one. -/
theorem ofStatements_cons (st : Statement) (sts : List Statement) (trailing : Text) :
    ofStatements (st :: sts) trailing = Sheet.cons (ofStatement st) (ofStatements sts trailing) := by
  match st with
  | .comment leading t => rw [ofStatements]; rfl
  | .rule leading head body => rw [ofStatements]; rfl
  | .atRule leading keyword prelude none => rw [ofStatements]; rfl
  | .atRule leading keyword prelude (some body) =>
    rw [ofStatements, ofStatement]
    split
    · split
      · rename_i inner innerTrailing hread
        have hparse := parse_eq_ok_iff.2 ⟨inner, innerTrailing, hread, rfl⟩
        rw [hparse]
        rfl
      · rename_i e hread
        have hparse : parse body = .error e := by rw [parse, hread]
        rw [hparse]
        rfl
    · rfl

/-- The outline of statements has a node for each of them. -/
theorem ofStatements_eq_ofNodes (sts : List Statement) (trailing : Text) :
    ofStatements sts trailing = Sheet.ofNodes (sts.map ofStatement) trailing := by
  induction sts with
  | nil => rw [ofStatements]; rfl
  | cons st sts ih => rw [ofStatements_cons, ih, List.map_cons, Sheet.ofNodes_cons]

end Outline

/-- The node of a stylesheet that a statement is read as. The selectors of a rule are read; the
block of an at-rule that holds statements is read as a stylesheet of its own, and any other block
stays as it is. -/
inductive Statement.ReadAs : Statement → Node (List Selector) → Prop where
  | comment (leading t : Text) : ReadAs (.comment leading t) (.comment leading t)
  | rule (leading body : Text) {head : Text} {selectors : List Selector}
      (hhead : Selector.parseList head = .ok selectors) :
      ReadAs (.rule leading head body) (.rule leading selectors (braced body))
  | atRule (leading keyword prelude : Text) {body : Option Text}
      (hbody : ∀ b ∈ body, ¬ HoldsStatements keyword b) :
      ReadAs (.atRule leading keyword prelude body)
        (.atRule leading keyword prelude (body.map braced))
  | group (leading : Text) {keyword : Text} (prelude : Text) {body : Text} {children : Stylesheet}
      (hconditional : AtRule.isConditional keyword = true)
      (hbody : Stylesheet.parse body = .ok children) :
      ReadAs (.atRule leading keyword prelude (some body))
        (.group leading keyword prelude none children)

/-- A statement is read as a node when its outline is, with the selectors of its heads read. -/
theorem Statement.readAs_iff {st : Statement} {n : Node (List Selector)} :
    st.ReadAs n ↔ Node.Rel (fun a b => Selector.parseList a = .ok b) (Outline.ofStatement st) n := by
  constructor
  · rintro (⟨leading, t⟩ | ⟨leading, body, hhead⟩ | ⟨leading, keyword, prelude, hbody⟩ |
      ⟨leading, prelude, hconditional, hbody⟩)
    · exact .comment leading t
    · exact .rule leading _ hhead
    · rw [Outline.ofStatement_atRule hbody]
      exact .atRule leading keyword prelude _
    · obtain ⟨o, ho, hrel⟩ := Stylesheet.parse_eq_ok_iff.1 hbody
      rw [Outline.ofStatement_group hconditional ho]
      exact .group leading _ prelude none hrel
  · intro h
    match st with
    | .comment leading t =>
      cases h
      exact .comment leading t
    | .rule leading head body =>
      cases h with
      | rule _ _ hhead => exact .rule leading body hhead
    | .atRule leading keyword prelude body =>
      by_cases hbody : ∀ b ∈ body, ¬ HoldsStatements keyword b
      · rw [Outline.ofStatement_atRule hbody] at h
        cases h
        exact .atRule leading keyword prelude hbody
      · push Not at hbody
        obtain ⟨b, rfl, hconditional, hgrammar⟩ := hbody
        obtain ⟨o, ho⟩ := hgrammar.exists_parse
        rw [Outline.ofStatement_group hconditional ho] at h
        cases h with
        | group _ _ _ _ hrel =>
          exact .group leading prelude hconditional (Stylesheet.parse_eq_ok_iff.2 ⟨o, ho, hrel⟩)

/-- A text is a stylesheet when the grammar accepts it and every statement of it is read as a node.
-/
theorem Stylesheet.parse_eq_ok_iff_nodes {source : Text} {s : Stylesheet} :
    parse source = .ok s ↔
      ∃ sts trailing ns, Derives source sts trailing ∧ s = Sheet.ofNodes ns trailing ∧
        sts.Forall₂ Statement.ReadAs ns := by
  have hnodes : ∀ {sts : List Statement} {ns : List (Node (List Selector))},
      (sts.map Outline.ofStatement).Forall₂
          (Node.Rel fun a b => Selector.parseList a = .ok b) ns ↔
        sts.Forall₂ Statement.ReadAs ns := by
    intro sts ns
    rw [List.forall₂_map_left_iff]
    simp only [← Statement.readAs_iff]
  rw [parse_eq_ok_iff]
  constructor
  · rintro ⟨o, ho, hrel⟩
    obtain ⟨sts, trailing, hread, rfl⟩ := Outline.parse_eq_ok_iff.1 ho
    rw [Outline.ofStatements_eq_ofNodes, Sheet.rel_ofNodes_iff] at hrel
    obtain ⟨ns, rfl, hns⟩ := hrel
    exact ⟨sts, trailing, ns, derives_iff.2 hread, rfl, hnodes.1 hns⟩
  · rintro ⟨sts, trailing, ns, hsts, rfl, hns⟩
    refine ⟨_, Outline.parse_eq_ok_iff.2 ⟨sts, trailing, derives_iff.1 hsts, rfl⟩, ?_⟩
    rw [Outline.ofStatements_eq_ofNodes]
    exact Sheet.rel_ofNodes_iff.2 ⟨ns, rfl, hnodes.2 hns⟩

/-- A text is a stylesheet without nodes when it is a gap. -/
theorem Stylesheet.parse_eq_done_iff {source trailing : Text} :
    parse source = .ok (.done trailing) ↔ source = trailing ∧ Gap trailing := by
  simp only [parse_eq_ok_iff_nodes, derives_iff, Statement.readAll_eq_ok_iff,
    Statement.readFrom_eq_ok_iff]
  constructor
  · rintro ⟨sts, trailing', ns, ⟨rfl, -, hgap⟩, heq, hns⟩
    have hnodes := congrArg Sheet.nodes heq
    have htrailing := congrArg Sheet.trailing heq
    simp only [Sheet.nodes, Sheet.trailing, Sheet.nodes_ofNodes, Sheet.trailing_ofNodes]
      at hnodes htrailing
    subst hnodes htrailing
    cases hns
    exact ⟨rfl, hgap⟩
  · rintro ⟨rfl, hgap⟩
    exact ⟨[], source, [], ⟨rfl, by simp, hgap⟩, rfl, .nil⟩

/-- A text is a stylesheet with a node in front when it is a statement that is read as that node,
and a stylesheet behind it. -/
theorem Stylesheet.parse_eq_cons_iff {source : Text} {n : Node (List Selector)}
    {next : Stylesheet} :
    parse source = .ok (Sheet.cons n next) ↔
      ∃ (st : Statement) (rest : Text), source = st.text ++ rest ∧ st.Readable ∧
        Gap st.leading ∧ st.ReadAs n ∧ parse rest = .ok next := by
  simp only [parse_eq_ok_iff_nodes, derives_iff, Statement.readAll_eq_ok_iff]
  constructor
  · rintro ⟨sts, trailing, ns, hread, heq, hns⟩
    have hnodes := congrArg Sheet.nodes heq
    have htrailing := congrArg Sheet.trailing heq
    simp only [Sheet.nodes_cons, Sheet.nodes_ofNodes, Sheet.trailing_cons, Sheet.trailing_ofNodes]
      at hnodes htrailing
    subst hnodes htrailing
    obtain ⟨st, others, hst, hothers, rfl⟩ := List.forall₂_cons_right_iff.1 hns
    obtain ⟨rfl, hall, htrailing⟩ := Statement.readFrom_eq_ok_iff.1 hread
    obtain ⟨⟨hreadable, hgap⟩, hrest⟩ := List.forall_mem_cons.1 hall
    refine ⟨st, _, by rw [List.flatMap_cons, List.append_assoc], hreadable, hgap, hst, others, _, _,
      Statement.readFrom_eq_ok_iff.2 ⟨rfl, hrest, htrailing⟩, (Sheet.ofNodes_nodes next).symm,
      hothers⟩
  · rintro ⟨st, rest, rfl, hreadable, hgap, hst, sts, trailing, ns, hrest, rfl, hns⟩
    refine ⟨st :: sts, trailing, n :: ns, ?_, rfl, .cons hst hns⟩
    rw [Statement.readFrom_statement hreadable hgap, hrest]
    rfl

end StylePrune
