import StylePrune.Proofs.Conservation
import StylePrune.Proofs.Idempotence
import StylePrune.Proofs.Nodes

/-!
# When cleaning changes nothing

Cleaning takes text away in four ways: a rule loses a selector, a rule goes, a group goes with all
that stands in it, and the spaces at the start of a rule are trimmed. Each of them makes the text
shorter, so a text of the same length is the same text, and what has to be ruled out can be told
from the stylesheet that was read.

* **`Stylesheet.prune_eq_or_length_lt`** — pruning leaves a stylesheet as it is or makes its text
  shorter.
* **`Stylesheet.prune_eq_self_iff`** — it leaves a stylesheet as it is when it rejects nothing and
  every group has content.
* **`Stylesheet.filled_iff`** — every group has content when each holds a rule or an at-rule.
* **`Stylesheet.clean_eq_self_iff`** — cleaning changes nothing exactly when nothing is rejected,
  every group holds a rule or an at-rule, and no rule begins with a space.
-/

namespace StylePrune

/-- A rule or an at-rule: what a group is not without. -/
def Node.IsContent {σ : Type} : Node σ → Prop
  | .rule .. | .atRule .. => True
  | .group .. | .comment .. | .unknown .. => False

namespace Selector

variable {keeps : Selector → Bool}

/-- Every selector brings its text and a comma, but for the comma of the last one. -/
theorem joined_append_comma {head : List Selector} (h : head ≠ []) :
    joined head ++ [','] = head.flatMap fun s => s.raw ++ [','] := by
  induction head with
  | nil => exact absurd rfl h
  | cons s others ih =>
    cases others with
    | nil => simp [joined, List.intercalate]
    | cons t others =>
      have htail := ih (by simp)
      rw [joined_cons_cons, List.flatMap_cons, ← htail]
      simp

theorem filter_eq_or_flatMap_length_lt (keeps : Selector → Bool) (head : List Selector) :
    head.filter keeps = head ∨
      ((head.filter keeps).flatMap fun s => s.raw ++ [',']).length <
        (head.flatMap fun s => s.raw ++ [',']).length := by
  induction head with
  | nil => exact .inl rfl
  | cons s others ih =>
    by_cases hs : keeps s = true
    · rw [List.filter_cons_of_pos hs]
      rcases ih with ih | ih
      · exact .inl (by rw [ih])
      · refine .inr ?_
        simp only [List.flatMap_cons, List.length_append]
        omega
    · rw [List.filter_cons_of_neg hs]
      refine .inr ?_
      rw [List.flatMap_cons]
      simp only [List.length_append, List.length_cons]
      rcases ih with ih | ih
      · rw [ih]
        omega
      · omega

/-- A head that loses a selector, and not all of them, is written shorter. -/
theorem filter_eq_or_length_lt {head : List Selector} (h : head.filter keeps ≠ []) :
    head.filter keeps = head ∨ (joined (head.filter keeps)).length < (joined head).length := by
  have hne : head ≠ [] := by
    rintro rfl
    exact h rfl
  refine (filter_eq_or_flatMap_length_lt keeps head).imp_right fun hlt => ?_
  rw [← joined_append_comma h, ← joined_append_comma hne] at hlt
  simpa using hlt

end Selector

namespace Stylesheet

open Selector

variable {keeps : Selector → Bool} {s : Stylesheet}

/-! ## What is taken away has text -/

/-- Where a sheet is the same or shorter, so it is with a node in front. -/
theorem cons_eq_or_length_lt {t : Stylesheet} (n : Node (List Selector))
    (h : t = s ∨ (Sheet.text joined t).length < (Sheet.text joined s).length) :
    Sheet.cons n t = Sheet.cons n s ∨
      (Sheet.text joined (Sheet.cons n t)).length <
        (Sheet.text joined (Sheet.cons n s)).length := by
  refine h.imp (fun heq => by rw [heq]) fun hlt => ?_
  cases n <;> simp only [Sheet.cons, Sheet.text, List.length_append, List.length_cons] <;> omega

theorem length_le_of_eq_or_lt {t : Stylesheet}
    (h : t = s ∨ (Sheet.text joined t).length < (Sheet.text joined s).length) :
    (Sheet.text joined t).length ≤ (Sheet.text joined s).length := by
  rcases h with rfl | h
  · exact le_rfl
  · exact h.le

/-- Pruning leaves a stylesheet as it is, or its text gets shorter. Induction on the sheet: a node
that goes has a block, and a head that changes is written shorter. -/
theorem prune_eq_or_length_lt {p : List Selector → Prop} (keeps : Selector → Bool)
    (h : s.Formed p) :
    prune keeps s = s ∨
      (Sheet.text joined (prune keeps s)).length < (Sheet.text joined s).length := by
  induction h with
  | done => exact .inl rfl
  | @rule leading body head next _ _ _ _ ih =>
    have hle := length_le_of_eq_or_lt ih
    rw [prune]
    split
    · refine .inr ?_
      simp only [Sheet.text, Statement.braced, List.length_append, List.length_cons]
      omega
    · rename_i hne
      rcases filter_eq_or_length_lt hne with hhead | hhead
      · rw [hhead]
        exact cons_eq_or_length_lt (.rule leading head (Statement.braced body)) ih
      · refine .inr ?_
        simp only [Sheet.text, List.length_append]
        omega
  | @atRule leading keyword prelude body _ _ _ _ _ _ _ ih =>
    exact cons_eq_or_length_lt (.atRule leading keyword prelude (body.map Statement.braced)) ih
  | @group leading keyword prelude body next _ _ _ _ _ _ ihb ih =>
    have hle := length_le_of_eq_or_lt ih
    rw [prune]
    split
    · rcases ihb with ihb | ihb
      · rw [ihb]
        exact cons_eq_or_length_lt (.group leading keyword prelude none body) ih
      · refine .inr ?_
        simp only [Sheet.text, List.length_append, List.length_cons]
        omega
    · -- the braces of the group go with it
      refine .inr ?_
      simp only [Sheet.text, List.length_append, List.length_cons]
      omega
  | @comment leading body _ _ _ _ ih =>
    exact cons_eq_or_length_lt (.comment leading ('/' :: '*' :: body)) ih

theorem rejected_eq_nil_iff :
    rejected keeps s = [] ↔ ∀ selector ∈ selectors s, keeps selector = true := by
  simp [List.eq_nil_iff_forall_not_mem, mem_rejected_iff]

/-- Where every rule has selectors, pruning leaves a sheet alone exactly when it rejects nothing and
every group has content. -/
theorem prune_eq_self_iff (hne : ∀ head ∈ s.heads, head ≠ []) :
    prune keeps s = s ↔ rejected keeps s = [] ∧ s.Filled := by
  rw [rejected_eq_nil_iff]
  constructor
  · intro h
    have hselectors : (selectors s).filter keeps = selectors s := by
      rw [← selectors_prune, h]
    exact ⟨List.filter_eq_self.1 hselectors, h ▸ Sheet.filled_prune keeps s⟩
  · rintro ⟨hkeeps, hfilled⟩
    refine Sheet.prune_eq_self hfilled fun head hhead => ⟨hne head hhead, fun selector hs => ?_⟩
    exact hkeeps selector (List.mem_flatten.2 ⟨head, hhead, hs⟩)

end Stylesheet

/-! ## Groups with content -/

namespace Sheet

variable {σ : Type} {s : Sheet σ}

/-- Somewhere in the sheet, in its groups perhaps, stands a rule or an at-rule. -/
def HoldsContent (s : Sheet σ) : Prop := ∃ p n, s.node? p = some n ∧ n.IsContent

/-- The body of every group, those inside groups included, has a property. -/
def EveryGroup (P : Sheet σ → Prop) (s : Sheet σ) : Prop :=
  ∀ p n body, s.node? p = some n → n.body? = some body → P body

theorem holdsContent_cons {n : Node σ} :
    (cons n s).HoldsContent ↔
      n.IsContent ∨ (∃ body, n.body? = some body ∧ body.HoldsContent) ∨ s.HoldsContent := by
  constructor
  · rintro ⟨p, m, hm, hcontent⟩
    cases p with
    | first =>
      rw [node?_cons_first] at hm
      cases hm
      exact .inl hcontent
    | behind p => exact .inr (.inr ⟨p, m, by rwa [node?_cons_behind] at hm, hcontent⟩)
    | inside p =>
      rw [node?_cons_inside] at hm
      obtain ⟨body, hbody, hm⟩ := Option.bind_eq_some_iff.1 hm
      exact .inr (.inl ⟨body, hbody, p, m, hm, hcontent⟩)
  · rintro (hcontent | ⟨body, hbody, p, m, hm, hcontent⟩ | ⟨p, m, hm, hcontent⟩)
    · exact ⟨.first, n, node?_cons_first n s, hcontent⟩
    · exact ⟨.inside p, m, by rwa [node?_cons_inside, hbody], hcontent⟩
    · exact ⟨.behind p, m, by rwa [node?_cons_behind], hcontent⟩

theorem everyGroup_cons {P : Sheet σ → Prop} {n : Node σ} :
    (cons n s).EveryGroup P ↔
      (∀ body, n.body? = some body → P body ∧ body.EveryGroup P) ∧ s.EveryGroup P := by
  constructor
  · intro h
    refine ⟨fun body hbody => ⟨h .first n body (node?_cons_first n s) hbody, ?_⟩, ?_⟩
    · intro p m b hm
      exact h (.inside p) m b (by rwa [node?_cons_inside, hbody])
    · intro p m b hm
      exact h (.behind p) m b (by rwa [node?_cons_behind])
  · rintro ⟨hnode, hnext⟩ p m b hm hb
    cases p with
    | first =>
      rw [node?_cons_first] at hm
      cases hm
      exact (hnode b hb).1
    | behind p => exact hnext p m b (by rwa [node?_cons_behind] at hm) hb
    | inside p =>
      rw [node?_cons_inside] at hm
      obtain ⟨body, hbody, hm⟩ := Option.bind_eq_some_iff.1 hm
      exact (hnode body hbody).2 p m b hm hb

end Sheet

namespace Stylesheet

open Selector Sheet

variable {css : Text} {s : Stylesheet}

/-- Where every group has content, a sheet has content when it holds a rule or an at-rule. -/
theorem hasContent_iff (hs : s.firstUnknown? = none) (h : s.Filled) :
    s.hasContent = true ↔ s.HoldsContent := by
  induction s with
  | done => simp [Sheet.hasContent, HoldsContent]
  | rule leading head block next =>
    exact iff_of_true rfl (holdsContent_cons (n := .rule leading head block) |>.2 (.inl trivial))
  | atRule leading keyword prelude block next =>
    exact iff_of_true rfl
      (holdsContent_cons (n := .atRule leading keyword prelude block) |>.2 (.inl trivial))
  | group leading keyword prelude hidden body next ihb ih =>
    -- a group has content here, so the rule or the at-rule is in it
    have hbody := (ihb (firstUnknown?_group_eq_none hs).1 h.2.1).1 h.1
    exact iff_of_true rfl (holdsContent_cons (n := .group leading keyword prelude hidden body) |>.2
      (.inr (.inl ⟨body, rfl, hbody⟩)))
  | comment leading t next ih =>
    change _ ↔ (cons (.comment leading t) next).HoldsContent
    rw [Sheet.hasContent, ih hs h, holdsContent_cons]
    simp [Node.IsContent, Node.body?]
  | unknown value next => cases hs

/-- A node that is no group asks nothing of the bodies. -/
theorem everyGroup_cons_of_body {σ : Type} {P : Sheet σ → Prop} {n : Node σ} {s : Sheet σ}
    (h : n.body? = none) : (cons n s).EveryGroup P ↔ s.EveryGroup P := by
  simp [everyGroup_cons, h]

/-- Every group has content exactly when each holds a rule or an at-rule. -/
theorem filled_iff (hs : s.firstUnknown? = none) : s.Filled ↔ s.EveryGroup HoldsContent := by
  induction s with
  | done trailing => exact iff_of_true trivial fun p n body hn => by simp at hn
  | rule leading head block next ih =>
    exact (ih hs).trans (everyGroup_cons_of_body (n := .rule leading head block) rfl).symm
  | atRule leading keyword prelude block next ih =>
    exact (ih hs).trans
      (everyGroup_cons_of_body (n := .atRule leading keyword prelude block) rfl).symm
  | group leading keyword prelude hidden body next ihb ih =>
    obtain ⟨hbody, hnext⟩ := firstUnknown?_group_eq_none hs
    change _ ↔ (cons (.group leading keyword prelude hidden body) next).EveryGroup HoldsContent
    rw [everyGroup_cons, Filled, ← ih hnext, ← and_assoc]
    refine and_congr_left fun _ => ?_
    simp only [Node.body?, Option.some.injEq, forall_eq', ← ihb hbody]
    exact and_congr_left fun hfilled => hasContent_iff hbody hfilled
  | comment leading t next ih =>
    exact (ih hs).trans (everyGroup_cons_of_body (n := .comment leading t) rfl).symm
  | unknown value next => cases hs

/-! ## Cleaning -/

/-- A pruned stylesheet is written as the text that was read, or shorter: as that text when pruning
changes nothing and no rule begins with a space. -/
theorem text_prune_eq_source_iff (h : parse css = .ok s) (keeps : Selector → Bool) :
    ((prune keeps s).text = css ↔
        prune keeps s = s ∧ ∀ head ∈ s.heads, ¬ Text.SpaceFirst (joined head)) ∧
      ((prune keeps s).text ≠ css → (prune keeps s).text.length < css.length) := by
  rcases prune_eq_or_length_lt keeps (formed_of_parse h).1 with heq | hlt
  · rw [heq, text_eq_source_iff h]
    refine ⟨by simp, fun hne => text_length_lt_source h ?_⟩
    by_contra hnone
    exact hne ((text_eq_source_iff h).2 (by simpa using hnone))
  · -- trimming makes the text no longer
    have hshort : (prune keeps s).text.length < css.length := by
      rw [← text_joined_of_parse h]
      exact (Sheet.text_length_le fun head _ => prelude_length_le head).trans_lt hlt
    refine ⟨iff_of_false ?_ ?_, fun _ => hshort⟩
    · intro heq
      rw [heq] at hshort
      exact hshort.ne rfl
    · rintro ⟨heq, -⟩
      rw [heq] at hlt
      exact hlt.ne rfl

/-- Cleaning a stylesheet gives back its text exactly when nothing is rejected, every group holds a
rule or an at-rule, and no rule begins with a space. In every other case it gives a shorter text. -/
theorem clean_eq_self_iff (h : parse css = .ok s) (content : Text) :
    ∃ cleaned, clean css content = .ok cleaned ∧
      (cleaned.css = css ↔ cleaned.rejected = [] ∧ s.EveryGroup HoldsContent ∧
        ∀ head ∈ s.heads, ∀ first ∈ head.head?, ¬ Text.SpaceFirst first.raw) ∧
      (cleaned.css ≠ css → cleaned.css.length < css.length) := by
  obtain ⟨hformed, -⟩ := formed_of_parse h
  have hspaces : (∀ head ∈ s.heads, ¬ Text.SpaceFirst (joined head)) ↔
      ∀ head ∈ s.heads, ∀ first ∈ head.head?, ¬ Text.SpaceFirst first.raw := by
    refine forall₂_congr fun head hhead => ?_
    obtain ⟨first, others, rfl⟩ := List.exists_cons_of_ne_nil (hformed.head hhead).ne_nil
    simp [(hformed.head hhead).spaceFirst_joined]
  obtain ⟨hiff, hshort⟩ := text_prune_eq_source_iff h (Usage.ofContent s content).keeps
  refine ⟨_, by simp only [clean, h]; rfl, ?_, hshort⟩
  rw [hiff, hspaces, prune_eq_self_iff fun head hhead => (hformed.head hhead).ne_nil,
    filled_iff hformed.firstUnknown?, and_assoc]

/-- Comments, a group in a group and two selectors: all of it is there again. -/
theorem clean_eq_self_group :
    let css : Text := "@media m{/**/@media n{a{}}}b,c{}".toList
    let tag : Char → Selector := fun c => ⟨[⟨.tag, [c], [c]⟩], [], []⟩
    let s : Stylesheet := .group [] "@media".toList " m".toList none
      (.comment [] "/**/".toList (.group [] "@media".toList " n".toList none
        (.rule [] [tag 'a'] ['{', '}'] (.done [])) (.done [])))
      (.rule [] [tag 'b', tag 'c'] ['{', '}'] (.done []))
    parse css = .ok s ∧ ∃ cleaned, clean css "abc".toList = .ok cleaned ∧ cleaned.css = css := by
  intro css tag s
  have hread : Statement.readAll css = .ok ([.atRule [] "@media".toList " m".toList
      (some "/**/@media n{a{}}".toList), .rule [] "b,c".toList []], []) := by decide +kernel
  have hinner : Statement.readFrom [] "/**/@media n{a{}}".toList =
      .ok ([.comment [] "/**/".toList, .atRule [] "@media".toList " n".toList
        (some "a{}".toList)], []) := by decide +kernel
  have hinmost : Statement.readFrom [] "a{}".toList = .ok ([.rule [] "a".toList []], []) := by
    decide +kernel
  have hconditional : AtRule.isConditional "@media".toList = true := by decide
  have hparse : parse css = .ok s := by
    refine parse_of_statements hread (o := s.mapHeads Selector.joined) ?_ (by decide +kernel)
    rw [Outline.ofStatements_group hconditional hinner, Outline.ofStatements,
      Outline.ofStatements_group hconditional hinmost]
    simp only [Outline.ofStatements]
    rfl
  obtain ⟨cleaned, hcleaned, hiff, -⟩ := clean_eq_self_iff hparse "abc".toList
  refine ⟨hparse, cleaned, hcleaned, hiff.2 ⟨?_, ?_, ?_⟩⟩
  · rw [clean, hparse] at hcleaned
    cases hcleaned
    decide +kernel
  · rw [← filled_iff rfl]
    exact ⟨rfl, ⟨rfl, trivial, trivial⟩, trivial⟩
  · decide

end Stylesheet

end StylePrune
