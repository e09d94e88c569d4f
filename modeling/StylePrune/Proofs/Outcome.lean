import StylePrune.Proofs.Nodes

/-!
# The outcome of reading a stylesheet

Reading fails in one of two ways. The grammar may refuse the text, and then no selector is looked
at; or it accepts the text, and then the first rule whose head is no list of selectors decides. In a
conditional at-rule the grammar is asked again, of the text between the braces, and what it refuses
there is no failure: the block stays as it is, with all that is in it. So the rules that count are
those that are reached through blocks that hold statements.

* **`Place.Precedes`** — the order in which a sheet is gone through, a group before what is in it.
* **`Statement.At`** — the statements that are reached, each at its place.
* **`Sheet.traverse_eq_error_iff`** — a traversal fails with the first head that is refused.
* **`Stylesheet.parse_outcome`** — which failure there is, and what a stylesheet that is read holds.
-/

namespace StylePrune

/-! ## The order of places -/

/-- The first place comes before the second one: nodes come in their order, and a group comes before
what is in it. -/
inductive Place.Precedes : Place → Place → Prop where
  | first_behind (q : Place) : Precedes .first (.behind q)
  | first_inside (q : Place) : Precedes .first (.inside q)
  | inside_behind (p q : Place) : Precedes (.inside p) (.behind q)
  | behind {p q : Place} (h : Precedes p q) : Precedes (.behind p) (.behind q)
  | inside {p q : Place} (h : Precedes p q) : Precedes (.inside p) (.inside q)

/-- Of two places one comes before the other. -/
theorem Place.Precedes.trichotomy (p q : Place) : p.Precedes q ∨ p = q ∨ q.Precedes p := by
  induction p generalizing q with
  | first =>
    cases q with
    | first => exact .inr (.inl rfl)
    | behind q => exact .inl (.first_behind q)
    | inside q => exact .inl (.first_inside q)
  | behind p ih =>
    cases q with
    | first => exact .inr (.inr (.first_behind p))
    | inside q => exact .inr (.inr (.inside_behind q p))
    | behind q =>
      rcases ih q with h | rfl | h
      · exact .inl (.behind h)
      · exact .inr (.inl rfl)
      · exact .inr (.inr (.behind h))
  | inside p ih =>
    cases q with
    | first => exact .inr (.inr (.first_inside p))
    | behind q => exact .inl (.inside_behind p q)
    | inside q =>
      rcases ih q with h | rfl | h
      · exact .inl (.inside h)
      · exact .inr (.inl rfl)
      · exact .inr (.inr (.inside h))

/-! ## The first head that is refused -/

namespace Sheet

variable {σ τ ε : Type} {f : σ → Except ε τ} {s : Sheet σ} {p : Place} {e e' : ε}

theorem bind_eq_error_iff {α β : Type} {x : Except ε α} {g : α → Except ε β} :
    (x >>= g) = .error e ↔ x = .error e ∨ ∃ a, x = .ok a ∧ g a = .error e := by
  cases x with
  | error e' => simp [bind, Except.bind]
  | ok a => simp [bind, Except.bind]

/-- There is a rule at the place, and its head cannot be replaced. -/
def RefusedAt (f : σ → Except ε τ) (s : Sheet σ) (p : Place) (e : ε) : Prop :=
  ∃ leading head block, s.node? p = some (.rule leading head block) ∧ f head = .error e

/-- The head at the place cannot be replaced, and those before it can. -/
def FirstRefused (f : σ → Except ε τ) (s : Sheet σ) (p : Place) (e : ε) : Prop :=
  RefusedAt f s p e ∧ ∀ q e', q.Precedes p → ¬ RefusedAt f s q e'

theorem FirstRefused.unique {q : Place} (h : FirstRefused f s p e) (h' : FirstRefused f s q e') :
    e = e' := by
  rcases Place.Precedes.trichotomy p q with hpq | rfl | hqp
  · exact absurd h.1 (h'.2 p e hpq)
  · obtain ⟨leading, head, block, hnode, herror⟩ := h.1
    obtain ⟨leading', head', block', hnode', herror'⟩ := h'.1
    rw [hnode] at hnode'
    cases hnode'
    rw [herror] at herror'
    exact Except.error.inj herror'
  · exact absurd h'.1 (h.2 q e' hqp)

/-- Where a traversal succeeds, no head is refused. -/
theorem not_refusedAt_of_traverse {t : Sheet τ} (h : s.traverse f = .ok t) :
    ¬ RefusedAt f s p e := by
  rintro ⟨leading, head, block, hnode, herror⟩
  obtain ⟨n, -, hn⟩ := (traverse_eq_ok_iff.1 h).exists_right hnode
  cases hn with
  | rule _ _ hhead =>
    rw [herror] at hhead
    cases hhead

/-- What is refused first behind a node is refused first, if the traversal gets past that node. -/
theorem FirstRefused.cons (n : Node σ) {next : Sheet σ}
    (hrule : ∀ leading head block, n = .rule leading head block → ∃ b, f head = .ok b)
    (hgroup : ∀ body, n.body? = some body → ∃ t, body.traverse f = .ok t)
    (h : FirstRefused f next p e) : FirstRefused f (Sheet.cons n next) (.behind p) e := by
  have hnext : ∀ q e, RefusedAt f (Sheet.cons n next) (.behind q) e ↔ RefusedAt f next q e := by
    intro q e
    simp only [RefusedAt, node?_cons_behind]
  refine ⟨(hnext p e).2 h.1, fun q e' hq => ?_⟩
  cases hq with
  | first_behind =>
    rintro ⟨leading, head, block, hnode, herror⟩
    rw [node?_cons_first, Option.some.injEq] at hnode
    obtain ⟨b, hb⟩ := hrule leading head block hnode
    rw [hb] at herror
    cases herror
  | inside_behind q =>
    rintro ⟨leading, head, block, hnode, herror⟩
    rw [node?_cons_inside] at hnode
    obtain ⟨body, hbody, hnode⟩ := Option.bind_eq_some_iff.1 hnode
    obtain ⟨t, ht⟩ := hgroup body hbody
    exact not_refusedAt_of_traverse ht ⟨leading, head, block, hnode, herror⟩
  | behind hq =>
    rw [hnext]
    exact h.2 _ e' hq

/-- Where a traversal fails, there is a first head that is refused. Induction on the sheet: the head
is that of the first node, or is in its body, or the traversal gets past that node. -/
theorem exists_firstRefused (h : s.traverse f = .error e) : ∃ p, FirstRefused f s p e := by
  have hpure : ∀ {x : Except ε (Sheet τ)} {g : Sheet τ → Sheet τ},
      (x >>= fun t => pure (g t)) = .error e → x = .error e := by
    intro x g h
    rcases bind_eq_error_iff.1 h with h | ⟨t, -, h⟩
    · exact h
    · cases h
  induction s with
  | done => cases h
  | rule leading head block next ih =>
    rcases bind_eq_error_iff.1 h with herror | ⟨b, hb, h⟩
    · refine ⟨.first, ⟨leading, head, block, rfl, herror⟩, fun q e' hq => ?_⟩
      cases hq
    · obtain ⟨p, hp⟩ := ih (hpure h)
      refine ⟨.behind p, hp.cons (.rule leading head block) ?_ (by rintro body ⟨⟩)⟩
      rintro leading' head' block' ⟨⟩
      exact ⟨b, hb⟩
  | atRule leading keyword prelude block next ih =>
    obtain ⟨p, hp⟩ := ih (hpure h)
    exact ⟨.behind p, hp.cons (.atRule leading keyword prelude block) nofun nofun⟩
  | group leading keyword prelude hidden body next ihb ih =>
    rcases bind_eq_error_iff.1 h with hbody | ⟨b, hb, h⟩
    · obtain ⟨p, hp⟩ := ihb hbody
      refine ⟨.inside p, hp.1, fun q e' hq => ?_⟩
      cases hq with
      | first_inside => rintro ⟨leading', head', block', ⟨⟩, -⟩
      | inside hq => exact hp.2 _ e' hq
    · obtain ⟨p, hp⟩ := ih (hpure h)
      refine ⟨.behind p, hp.cons (.group leading keyword prelude hidden body) nofun ?_⟩
      rintro body' ⟨⟩
      exact ⟨b, hb⟩
  | comment leading t next ih =>
    obtain ⟨p, hp⟩ := ih (hpure h)
    exact ⟨.behind p, hp.cons (.comment leading t) nofun nofun⟩
  | unknown value next ih =>
    obtain ⟨p, hp⟩ := ih (hpure h)
    exact ⟨.behind p, hp.cons (.unknown value) nofun nofun⟩

/-- A traversal fails with the error of the first head that is refused. -/
theorem traverse_eq_error_iff : s.traverse f = .error e ↔ ∃ p, FirstRefused f s p e := by
  constructor
  · exact exists_firstRefused
  · rintro ⟨p, hp⟩
    cases htraverse : s.traverse f with
    | ok t => exact absurd hp.1 (not_refusedAt_of_traverse htraverse)
    | error e' =>
      obtain ⟨q, hq⟩ := exists_firstRefused htraverse
      rw [hp.unique hq]

end Sheet

/-! ## Statements at their places -/

namespace Statement

variable {leading keyword prelude body trailing : Text} {sts : List Statement} {st : Statement}
  {p : Place}

/-- The statement stands at the place: among the statements of a text, or inside the block of one of
them that holds statements, in the same way. -/
inductive At : List Statement → Place → Statement → Prop where
  | first (st : Statement) (sts : List Statement) : At (st :: sts) .first st
  | behind (before : Statement) {sts : List Statement} {p : Place} {st : Statement}
      (h : At sts p st) : At (before :: sts) (.behind p) st
  | inside {leading keyword prelude body trailing : Text} {inner : List Statement}
      (sts : List Statement) {p : Place} {st : Statement}
      (hconditional : AtRule.isConditional keyword = true)
      (hinner : Derives body inner trailing) (h : At inner p st) :
      At (.atRule leading keyword prelude (some body) :: sts) (.inside p) st

/-- At a place stands one statement. -/
theorem At.unique {st' : Statement} (h : At sts p st) (h' : At sts p st') : st = st' := by
  induction h with
  | first =>
    cases h'
    rfl
  | behind _ _ ih =>
    cases h' with
    | behind _ h' => exact ih h'
  | inside _ _ hinner _ ih =>
    cases h' with
    | inside _ _ hinner' h' =>
      obtain ⟨rfl, -⟩ := hinner.unique hinner'
      exact ih h'

/-- Nothing stands inside an at-rule whose block does not hold statements. -/
theorem At.not_encloses {q : Place} {st' : Statement}
    (h : At sts p (.atRule leading keyword prelude (some body)))
    (hbody : ¬ HoldsStatements keyword body) (hpq : p.Encloses q) : ¬ At sts q st' := by
  intro h'
  induction hpq generalizing sts with
  | first q =>
    cases h
    cases h' with
    | inside _ hconditional hinner _ => exact hbody ⟨hconditional, _, _, hinner⟩
  | behind _ ih =>
    cases h with
    | behind _ h =>
      cases h' with
      | behind _ h' => exact ih h h'
  | inside _ ih =>
    cases h with
    | inside _ _ hinner h =>
      cases h' with
      | inside _ _ hinner' h' =>
        obtain ⟨rfl, -⟩ := hinner.unique hinner'
        exact ih h h'

end Statement

namespace Outline

variable {sts : List Statement} {trailing : Text} {p : Place}

/-- A statement is read as a group when its block holds statements. -/
theorem body?_ofStatement_eq_some {st : Statement} {inner : Outline}
    (h : (ofStatement st).body? = some inner) :
    ∃ leading keyword prelude body, st = .atRule leading keyword prelude (some body) ∧
      AtRule.isConditional keyword = true ∧ parse body = .ok inner := by
  match st with
  | .comment leading t => cases h
  | .rule leading head body => cases h
  | .atRule leading keyword prelude none => cases h
  | .atRule leading keyword prelude (some body) =>
    by_cases hbody : HoldsStatements keyword body
    · obtain ⟨o, ho⟩ := hbody.2.exists_parse
      rw [ofStatement_group hbody.1 ho] at h
      cases h
      exact ⟨leading, keyword, prelude, body, rfl, hbody.1, ho⟩
    · rw [ofStatement_atRule (by simpa using hbody)] at h
      cases h

/-- Only a rule is read as a rule. -/
theorem ofStatement_eq_rule {st : Statement} {leading head block : Text}
    (h : ofStatement st = .rule leading head block) : ∃ body, st = .rule leading head body := by
  match st with
  | .comment leading' t => cases h
  | .rule leading' head' body =>
    cases h
    exact ⟨body, rfl⟩
  | .atRule leading' keyword prelude none => cases h
  | .atRule leading' keyword prelude (some body) =>
    rw [ofStatement] at h
    split at h
    · split at h <;> cases h
    · cases h

/-- The node at a place of an outline is that of the statement at the place. -/
theorem node?_ofStatements_iff {m : Node Text} :
    (ofStatements sts trailing).node? p = some m ↔ ∃ st, Statement.At sts p st ∧ ofStatement st = m := by
  constructor
  · intro h
    induction p generalizing sts trailing with
    | first =>
      cases sts with
      | nil => simp [ofStatements] at h
      | cons st sts =>
        rw [ofStatements_cons, Sheet.node?_cons_first, Option.some.injEq] at h
        exact ⟨st, .first st sts, h⟩
    | behind p ih =>
      cases sts with
      | nil => simp [ofStatements] at h
      | cons before sts =>
        rw [ofStatements_cons, Sheet.node?_cons_behind] at h
        obtain ⟨st, hst, hm⟩ := ih h
        exact ⟨st, .behind before hst, hm⟩
    | inside p ih =>
      cases sts with
      | nil => simp [ofStatements] at h
      | cons group sts =>
        rw [ofStatements_cons, Sheet.node?_cons_inside] at h
        obtain ⟨o, hbody, ho⟩ := Option.bind_eq_some_iff.1 h
        obtain ⟨leading, keyword, prelude, body, rfl, hconditional, hparse⟩ :=
          body?_ofStatement_eq_some hbody
        obtain ⟨inner, innerTrailing, hread, rfl⟩ := parse_eq_ok_iff.1 hparse
        obtain ⟨st, hst, hm⟩ := ih ho
        exact ⟨st, .inside sts hconditional (derives_iff.2 hread) hst, hm⟩
  · rintro ⟨st, hst, rfl⟩
    induction hst generalizing trailing with
    | first => rw [ofStatements_cons, Sheet.node?_cons_first]
    | behind _ _ ih => rw [ofStatements_cons, Sheet.node?_cons_behind, ih]
    | @inside leading keyword prelude body innerTrailing inner sts p st hconditional hinner _ ih =>
      have hparse := parse_eq_ok_iff.2 ⟨inner, innerTrailing, derives_iff.1 hinner, rfl⟩
      rw [ofStatements_cons, ofStatement_group hconditional hparse, Sheet.node?_cons_inside]
      exact ih

end Outline

namespace Statement

variable {sts : List Statement} {p : Place} {e : SelectorError}

/-- There is a rule at the place, and its head is no list of selectors. -/
def RefusedAt (sts : List Statement) (p : Place) (e : SelectorError) : Prop :=
  ∃ leading head body, At sts p (.rule leading head body) ∧ Selector.parseList head = .error e

/-- The head at the place is no list of selectors, and those before it are. -/
def FirstRefused (sts : List Statement) (p : Place) (e : SelectorError) : Prop :=
  RefusedAt sts p e ∧ ∀ q e', q.Precedes p → ¬ RefusedAt sts q e'

/-- A head is refused in the statements where it is refused in their outline. -/
theorem refusedAt_iff (trailing : Text) :
    Sheet.RefusedAt Selector.parseList (Outline.ofStatements sts trailing) p e ↔
      RefusedAt sts p e := by
  unfold Sheet.RefusedAt
  simp only [Outline.node?_ofStatements_iff]
  constructor
  · rintro ⟨leading, head, block, ⟨st, hst, hrule⟩, herror⟩
    obtain ⟨body, rfl⟩ := Outline.ofStatement_eq_rule hrule
    exact ⟨leading, head, body, hst, herror⟩
  · rintro ⟨leading, head, body, hst, herror⟩
    exact ⟨leading, head, braced body, ⟨_, hst, rfl⟩, herror⟩

theorem firstRefused_iff (trailing : Text) :
    Sheet.FirstRefused Selector.parseList (Outline.ofStatements sts trailing) p e ↔
      FirstRefused sts p e := by
  simp only [Sheet.FirstRefused, FirstRefused, refusedAt_iff]

end Statement

/-! ## The outcome -/

namespace Stylesheet

variable {source trailing : Text} {sts : List Statement}

/-- The grammar refuses the texts that have no derivation, whatever their heads are. -/
theorem parse_eq_grammar_error_iff :
    (∃ e, parse source = .error (.grammar e)) ↔ ¬ Grammatical source := by
  constructor
  · rintro ⟨e, h⟩ hgrammar
    obtain ⟨o, ho⟩ := hgrammar.exists_parse
    rw [parse, ho] at h
    cases hs : ofOutline o <;> simp [hs] at h
  · intro hgrammar
    cases ho : Outline.parse source with
    | ok o => exact absurd (.of_parse ho) hgrammar
    | error e => exact ⟨e, by rw [parse, ho]⟩

section

variable (hsts : Derives source sts trailing)
include hsts

theorem outline_of_derives : Outline.parse source = .ok (Outline.ofStatements sts trailing) :=
  Outline.parse_eq_ok_iff.2 ⟨sts, trailing, derives_iff.1 hsts, rfl⟩

/-- Among the statements of a text the first head that is refused decides. -/
theorem parse_eq_selector_error_iff {e : SelectorError} :
    parse source = .error (.selector e) ↔ ∃ p, Statement.FirstRefused sts p e := by
  have htraverse : parse source = .error (.selector e) ↔
      ofOutline (Outline.ofStatements sts trailing) = .error e := by
    simp only [parse, outline_of_derives hsts]
    cases ofOutline (Outline.ofStatements sts trailing) <;> simp
  rw [htraverse, ofOutline, Sheet.traverse_eq_error_iff]
  simp only [Statement.firstRefused_iff]

variable {s : Stylesheet} (h : parse source = .ok s) {p : Place}
include h

theorem exists_node {st : Statement} (hst : Statement.At sts p st) :
    ∃ n, s.node? p = some n ∧ st.ReadAs n := by
  obtain ⟨o, ho, hrel⟩ := parse_eq_ok_iff.1 h
  rw [outline_of_derives hsts] at ho
  cases ho
  obtain ⟨n, hn, hread⟩ := hrel.exists_right (Outline.node?_ofStatements_iff.2 ⟨st, hst, rfl⟩)
  exact ⟨n, hn, Statement.readAs_iff.2 hread⟩

theorem exists_statement {n : Node (List Selector)} (hn : s.node? p = some n) :
    ∃ st, Statement.At sts p st ∧ st.ReadAs n := by
  obtain ⟨o, ho, hrel⟩ := parse_eq_ok_iff.1 h
  rw [outline_of_derives hsts] at ho
  cases ho
  obtain ⟨m, hm, hread⟩ := hrel.exists_left hn
  obtain ⟨st, hst, rfl⟩ := Outline.node?_ofStatements_iff.1 hm
  exact ⟨st, hst, Statement.readAs_iff.2 hread⟩

theorem not_refusedAt {e : SelectorError} : ¬ Statement.RefusedAt sts p e := by
  rintro ⟨leading, head, body, hrule, herror⟩
  obtain ⟨n, -, hread⟩ := exists_node hsts h hrule
  cases hread with
  | rule _ _ hhead =>
    rw [herror] at hhead
    cases hhead

end

end Stylesheet

namespace Statement.ReadAs

variable {leading keyword prelude : Text} {n : Node (List Selector)}

/-- An at-rule whose block holds statements is read as the group of what its block is read as. -/
theorem eq_group {body : Text} (h : ReadAs (.atRule leading keyword prelude (some body)) n)
    (hbody : HoldsStatements keyword body) :
    ∃ children, Stylesheet.parse body = .ok children ∧
      n = .group leading keyword prelude none children := by
  cases h with
  | atRule _ _ _ hnot => exact absurd hbody (hnot body rfl)
  | group _ _ _ hparse => exact ⟨_, hparse, rfl⟩

/-- Any other at-rule keeps its block. -/
theorem eq_atRule {body : Option Text} (h : ReadAs (.atRule leading keyword prelude body) n)
    (hbody : ∀ b ∈ body, ¬ HoldsStatements keyword b) :
    n = .atRule leading keyword prelude (body.map braced) := by
  cases h with
  | atRule => rfl
  | group _ _ hconditional hparse =>
    obtain ⟨o, ho, -⟩ := Stylesheet.parse_eq_ok_iff.1 hparse
    exact absurd ⟨hconditional, .of_parse ho⟩ (hbody _ rfl)

end Statement.ReadAs

namespace Stylesheet

/-- What reading a text comes to. The grammar refuses it, or a head that is reached is no list of
selectors, and then the first such head decides; or else there is a stylesheet, with one node for
each statement that is reached. An at-rule has the nodes of what is read from its block when its
block holds statements, and keeps its block otherwise, and then nothing in it is reached. -/
theorem parse_outcome (source : Text) :
    ((∃ e, parse source = .error (.grammar e)) ↔ ¬ Grammatical source) ∧
      ∀ sts trailing, Derives source sts trailing →
        ((∃ e, parse source = .error (.selector e)) ↔ ∃ p e, Statement.RefusedAt sts p e) ∧
        (∀ e, parse source = .error (.selector e) ↔ ∃ p, Statement.FirstRefused sts p e) ∧
        (∀ s, parse source = .ok s →
          (∀ p n, s.node? p = some n → ∃ st, Statement.At sts p st ∧ st.ReadAs n) ∧
          (∀ p st, Statement.At sts p st → ∃ n, s.node? p = some n ∧ st.ReadAs n) ∧
          ∀ p leading keyword prelude body,
            Statement.At sts p (.atRule leading keyword prelude body) →
              (∀ b, body = some b → HoldsStatements keyword b →
                ∃ children, parse b = .ok children ∧
                  s.node? p = some (.group leading keyword prelude none children)) ∧
              ((∀ b, body = some b → ¬ HoldsStatements keyword b) →
                s.node? p = some (.atRule leading keyword prelude (body.map Statement.braced)))) ∧
        ∀ p leading keyword prelude body,
          Statement.At sts p (.atRule leading keyword prelude (some body)) →
            ¬ HoldsStatements keyword body → ∀ q st, p.Encloses q → ¬ Statement.At sts q st := by
  refine ⟨parse_eq_grammar_error_iff, fun sts trailing hsts => ⟨⟨?_, ?_⟩, ?_, ?_, ?_⟩⟩
  · rintro ⟨e, h⟩
    obtain ⟨p, hp⟩ := (parse_eq_selector_error_iff hsts).1 h
    exact ⟨p, e, hp.1⟩
  · -- a text with a refused head is no stylesheet, and the grammar accepts it
    rintro ⟨p, e, hrefused⟩
    cases hparse : parse source with
    | ok s => exact absurd hrefused (not_refusedAt hsts hparse)
    | error e' =>
      cases e' with
      | selector e' => exact ⟨e', rfl⟩
      | grammar e' => exact absurd ⟨sts, trailing, hsts⟩ (parse_eq_grammar_error_iff.1 ⟨e', hparse⟩)
  · intro e
    exact parse_eq_selector_error_iff hsts
  · intro s h
    refine ⟨fun p n => exists_statement hsts h, fun p st => exists_node hsts h, ?_⟩
    intro p leading keyword prelude body hat
    obtain ⟨n, hn, hread⟩ := exists_node hsts h hat
    constructor
    · rintro b rfl hb
      obtain ⟨children, hparse, rfl⟩ := hread.eq_group hb
      exact ⟨children, hparse, hn⟩
    · intro hbody
      rw [hn, hread.eq_atRule hbody]
  · intro p leading keyword prelude body hat hbody q st hpq
    exact hat.not_encloses hbody hpq

/-- Two heads are refused, and the one inside the group comes first. In a block that the grammar
refuses nothing is refused. -/
theorem parse_outcome_nested :
    let refused : Text := "@media m{a{}!{}}?{}".toList
    let sts : List Statement :=
      [.atRule [] "@media".toList " m".toList (some "a{}!{}".toList), .rule [] ['?'] []]
    let kept : Text := "@layer{!:b}".toList
    let st : Statement := .atRule [] "@layer".toList [] (some "!:b".toList)
    Derives refused sts [] ∧
      Statement.FirstRefused sts (.inside (.behind .first)) (.unexpected '!' 0 ['!']) ∧
      parse refused = .error (.selector (.unexpected '!' 0 ['!'])) ∧
      Derives kept [st] [] ∧ Statement.At [st] .first st ∧
      ¬ HoldsStatements "@layer".toList "!:b".toList ∧
      ∃ s, parse kept = .ok s ∧
        s.node? .first = some (.atRule [] "@layer".toList [] (some "{!:b}".toList)) := by
  intro refused sts kept st
  have hsts : Derives refused sts [] := derives_iff.2 (by decide +kernel)
  have hinner : Derives "a{}!{}".toList [.rule [] ['a'] [], .rule [] ['!'] []] [] :=
    derives_iff.2 (by decide +kernel)
  have hfirst : Statement.FirstRefused sts (.inside (.behind .first)) (.unexpected '!' 0 ['!']) := by
    have hconditional : AtRule.isConditional "@media".toList = true := by decide
    refine ⟨⟨[], ['!'], [], .inside _ hconditional hinner (.behind _ (.first _ _)),
      by decide +kernel⟩, ?_⟩
    rintro q e hq ⟨leading, head, body, hat, herror⟩
    change Statement.At [_, _] q _ at hat
    cases hq with
    | first_inside => cases hat
    | inside hq =>
      cases hat with
      | inside _ _ hinner' hat =>
        obtain ⟨rfl, -⟩ := hinner.unique hinner'
        cases hq with
        | first_behind =>
          cases hat
          have haccepted : Selector.parseList ['a'] = .ok [⟨[⟨.tag, ['a'], ['a']⟩], [], []⟩] := by
            decide +kernel
          rw [haccepted] at herror
          cases herror
        | inside_behind => cases hat
        | behind hq => cases hq
  have hkept : Derives kept [st] [] := derives_iff.2 (by decide +kernel)
  have hblock : ¬ HoldsStatements "@layer".toList "!:b".toList := by
    rintro ⟨-, sts, trailing, h⟩
    have hread : (Statement.readAll "!:b".toList).isOk = false := by decide +kernel
    rw [derives_iff.1 h] at hread
    cases hread
  have hout := (parse_outcome kept).2 [st] [] hkept
  obtain ⟨s, hs⟩ : ∃ s, parse kept = .ok s := by
    cases hparse : parse kept with
    | ok s => exact ⟨s, rfl⟩
    | error e =>
      cases e with
      | grammar e => exact absurd ⟨_, _, hkept⟩ ((parse_outcome kept).1.1 ⟨e, hparse⟩)
      | selector e =>
        obtain ⟨p, e', leading, head, body, hat, -⟩ := hout.1.1 ⟨e, hparse⟩
        change Statement.At [.atRule _ _ _ (some _)] p _ at hat
        cases hat with
        | behind _ hat => cases hat
        | inside _ hconditional hinner' _ => exact absurd ⟨hconditional, _, _, hinner'⟩ hblock
  have hat : Statement.At [st] .first st := .first _ _
  refine ⟨hsts, hfirst, (((parse_outcome refused).2 sts [] hsts).2.1 _).2 ⟨_, hfirst⟩, hkept, hat,
    hblock, s, hs, ?_⟩
  exact ((hout.2.2.1 s hs).2.2 _ _ _ _ _ hat).2 (by rintro b ⟨⟩; exact hblock)

end Stylesheet

end StylePrune
