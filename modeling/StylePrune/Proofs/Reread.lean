import StylePrune.Proofs.Pruned

/-!
# Reading what was written

A formed sheet that is written can be read again, and nearly gives itself. Its heads may begin with
what the reader takes for something else: blanks and `-->` are skipped between statements, and
comments are statements of their own. Behind all that stands the *opening* of the head, and without
an opening there is no rule.

* **`opening`**, **`Sheet.reopen`** — what is left of a head, and of a sheet, for the reader.
* **`Outline.parse_text_iff`** — when the text of a formed outline is read, and what it is read as.
-/

namespace StylePrune

open Mode

/-! ## Openings -/

/-- A head without the blanks, comments and `-->` at its start. -/
def opening (head : Text) : Text :=
  match head with
  | '-' :: '-' :: '>' :: rest => opening rest
  | '/' :: '*' :: rest =>
    match _h : closeComment rest with
    | some (_, rest) => opening rest
    | none => '/' :: '*' :: rest
  | c :: rest => if Text.isBlank c then opening rest else c :: rest
  | [] => []
termination_by head.length
decreasing_by
  · simp only [List.length_cons]
    omega
  · have := closeComment_length_le _h
    simp only [List.length_cons]
    omega
  · simp

/-- A rule whose head may begin with what is no part of a head, as it is read. -/
def openRule (leading head block : Text) (next : Outline) : Outline :=
  match head with
  | '-' :: '-' :: '>' :: rest => openRule (leading ++ ['-', '-', '>']) rest block next
  | '/' :: '*' :: rest =>
    match _h : closeComment rest with
    | some (body, rest) => .comment leading ('/' :: '*' :: body) (openRule [] rest block next)
    | none => .rule leading ('/' :: '*' :: rest) block next
  | c :: rest =>
    if Text.isBlank c then openRule (leading ++ [c]) rest block next
    else .rule leading (c :: rest) block next
  | [] => .rule leading [] block next
termination_by head.length
decreasing_by
  · simp only [List.length_cons]
    omega
  · have := closeComment_length_le _h
    simp only [List.length_cons]
    omega
  · simp

/-- A head as it is written: it can be read in a row, and what opens it begins a rule. -/
def HeadWritten (head : Text) : Prop :=
  Flat .fresh head ∧ (opening head ≠ [] → RuleStart (opening head))

/-! ### How heads begin -/

theorem opening_marker (rest : Text) : opening ('-' :: '-' :: '>' :: rest) = opening rest := by
  rw [opening]

theorem opening_comment {rest body rest' : Text} (h : closeComment rest = some (body, rest')) :
    opening ('/' :: '*' :: rest) = opening rest' := by
  rw [opening]
  split <;> rename_i heq <;> rw [h] at heq <;> cases heq
  rfl

theorem opening_blank {c : Char} (hc : Text.isBlank c = true) (rest : Text) :
    opening (c :: rest) = opening rest := by
  rw [opening.eq_3, if_pos hc]
  · rintro r rfl
    cases hc
  · rintro r rfl
    cases hc

theorem opening_first {c : Char} {rest : Text} (hc : Text.isBlank c = false)
    (hcomment : ¬ ['/', '*'] <+: c :: rest) (hmarker : ¬ ['-', '-', '>'] <+: c :: rest) :
    opening (c :: rest) = c :: rest := by
  rw [opening.eq_3, if_neg (by simp [hc])]
  · rintro r rfl rfl
    exact hmarker ⟨r, rfl⟩
  · rintro r rfl rfl
    exact hcomment ⟨r, rfl⟩

section

variable (leading : Text) (block : Text) (next : Outline)

theorem openRule_marker (rest : Text) :
    openRule leading ('-' :: '-' :: '>' :: rest) block next =
      openRule (leading ++ ['-', '-', '>']) rest block next := by
  rw [openRule]

theorem openRule_comment {rest body rest' : Text} (h : closeComment rest = some (body, rest')) :
    openRule leading ('/' :: '*' :: rest) block next =
      .comment leading ('/' :: '*' :: body) (openRule [] rest' block next) := by
  rw [openRule]
  split <;> rename_i heq <;> rw [h] at heq <;> cases heq
  rfl

theorem openRule_blank {c : Char} (hc : Text.isBlank c = true) (rest : Text) :
    openRule leading (c :: rest) block next = openRule (leading ++ [c]) rest block next := by
  rw [openRule.eq_3, if_pos hc]
  · rintro r rfl
    cases hc
  · rintro r rfl
    cases hc

theorem openRule_first {c : Char} {rest : Text} (hc : Text.isBlank c = false)
    (hcomment : ¬ ['/', '*'] <+: c :: rest) (hmarker : ¬ ['-', '-', '>'] <+: c :: rest) :
    openRule leading (c :: rest) block next = .rule leading (c :: rest) block next := by
  rw [openRule.eq_3, if_neg (by simp [hc])]
  · rintro r rfl rfl
    exact hmarker ⟨r, rfl⟩
  · rintro r rfl rfl
    exact hcomment ⟨r, rfl⟩

end

theorem opening_of_start {head : Text} (h : RuleStart head) : opening head = head := by
  obtain ⟨⟨c, v, rfl, hc, -⟩, hcomment, hmarker⟩ := h
  exact opening_first hc hcomment fun h => hmarker (.inr h)

theorem openRule_of_start {head : Text} (h : RuleStart head) (leading block : Text)
    (next : Outline) : openRule leading head block next = .rule leading head block next := by
  obtain ⟨⟨c, v, rfl, hc, -⟩, hcomment, hmarker⟩ := h
  exact openRule_first leading block next hc hcomment fun h => hmarker (.inr h)

namespace HeadWritten

theorem behind_blank {c : Char} {rest : Text} (hc : Text.isBlank c = true)
    (h : HeadWritten (c :: rest)) : HeadWritten rest := by
  obtain ⟨⟨n, hn, hrest⟩, hopen⟩ := h
  rw [opening_blank hc] at hopen
  have hstep : step .fresh c = some .fresh := by simp [step, begin, hc]
  rw [run_cons, hstep, Option.bind_some] at hn
  exact ⟨⟨n, hn, hrest⟩, hopen⟩

theorem behind_marker {rest : Text} (h : HeadWritten ('-' :: '-' :: '>' :: rest)) :
    HeadWritten rest := by
  obtain ⟨hflat, hopen⟩ := h
  rw [opening_marker] at hopen
  -- the marker is read as a chunk, which an `@` would continue; but no rule opens with one
  have hword : Flat .word rest := hflat
  refine ⟨hword.fresh_of_word fun hat => ?_, hopen⟩
  obtain ⟨v, rfl⟩ : ∃ v, rest = '@' :: v := by
    cases rest with
    | nil => cases hat
    | cons c v =>
      cases hat
      exact ⟨v, rfl⟩
  rw [opening_first rfl (by simp) (by simp)] at hopen
  obtain ⟨c, w, heq, -, hne⟩ := (hopen (by simp)).first
  cases heq
  exact hne rfl

theorem behind_comment {rest body rest' : Text} (hbody : closeComment rest = some (body, rest'))
    (h : HeadWritten ('/' :: '*' :: rest)) : HeadWritten rest' := by
  obtain ⟨⟨n, hn, hrest⟩, hopen⟩ := h
  rw [opening_comment hbody] at hopen
  refine ⟨⟨n, ?_, hrest⟩, hopen⟩
  have hrun : Mode.run .comment (body ++ rest') = some n := by
    rw [← closeComment_append hbody]
    exact hn
  rwa [run_append_of_run (closeComment_run hbody).1] at hrun

theorem closes_comment {rest : Text} (h : HeadWritten ('/' :: '*' :: rest)) :
    ∃ body rest', closeComment rest = some (body, rest') := by
  obtain ⟨⟨n, hn, hrest⟩, -⟩ := h
  obtain ⟨body, rest', hbody, -⟩ := (closeComment_of_run hrest).1 hn
  exact ⟨body, rest', hbody⟩

end HeadWritten

/-! ## Rules -/

namespace Statement

theorem foldr_cons_eq_ok_iff {sts found : List Statement} {trailing : Text}
    {x : Except GrammarFault (List Statement × Text)} :
    sts.foldr cons x = .ok (found, trailing) ↔
      ∃ rest, x = .ok (rest, trailing) ∧ found = sts ++ rest := by
  induction sts generalizing found with
  | nil => simp
  | cons st sts ih =>
    rw [List.foldr_cons, cons_eq_ok_iff]
    constructor
    · rintro ⟨r, hr, rfl⟩
      obtain ⟨rest, hx, rfl⟩ := ih.1 hr
      exact ⟨rest, hx, rfl⟩
    · rintro ⟨rest, hx, rfl⟩
      exact ⟨sts ++ rest, ih.2 ⟨rest, hx, rfl⟩, rfl⟩

section

variable {leading head body : Text}

/-- A rule is read as the comments at its start and, if something opens it, the rule behind them. -/
theorem readFrom_opening (hlead : Gap leading) (hhead : HeadWritten head) (hbody : Content body)
    (hne : opening head ≠ []) :
    ∃ sts, (∀ s, readFrom [] (leading ++ head ++ braced body ++ s) =
        sts.foldr cons (readFrom [] s)) ∧
      ∀ rest trailing, Outline.ofStatements (sts ++ rest) trailing =
        openRule leading head (braced body) (Outline.ofStatements rest trailing) := by
  fun_induction opening head generalizing leading with
  | case1 rest ih =>
    have hgap : Gap (leading ++ ['-', '-', '>']) := hlead.append (.closeMarker .nil)
    obtain ⟨sts, hread, hof⟩ := ih hgap hhead.behind_marker hne
    refine ⟨sts, fun s => ?_, fun rest' trailing => ?_⟩
    · rw [← hread s]
      simp
    · rw [openRule_marker, hof]
  | case2 rest b rest' hb ih =>
    -- the comment is a statement of its own, and takes what leads the rule
    obtain ⟨sts, hread, hof⟩ := ih .nil (hhead.behind_comment hb) hne
    have hcomment : Readable (.comment leading ('/' :: '*' :: b)) :=
      .comment leading (closeComment_self hb)
    refine ⟨.comment leading ('/' :: '*' :: b) :: sts, fun s => ?_, fun rest'' trailing => ?_⟩
    · have heq : leading ++ '/' :: '*' :: rest ++ braced body ++ s =
          text (.comment leading ('/' :: '*' :: b)) ++ ([] ++ rest' ++ braced body ++ s) := by
        rw [closeComment_append hb]
        simp [text]
      rw [heq, readFrom_statement hcomment hlead, hread s]
      rfl
    · rw [openRule_comment _ _ _ hb, ← hof, List.cons_append, Outline.ofStatements]
  | case3 rest hb =>
    -- a comment that is not closed cannot stand in a head
    obtain ⟨b, rest', hb'⟩ := hhead.closes_comment
    rw [hb'] at hb
    cases hb
  | case4 c rest hmarker hcomment hc ih =>
    have hgap : Gap (leading ++ [c]) := hlead.append (.blank hc .nil)
    obtain ⟨sts, hread, hof⟩ := ih hgap (hhead.behind_blank hc) hne
    refine ⟨sts, fun s => ?_, fun rest' trailing => ?_⟩
    · rw [← hread s]
      simp
    · rw [openRule_blank _ _ _ hc, hof]
  | case5 c rest hmarker hcomment hc =>
    have hopen : opening (c :: rest) = c :: rest := by
      rw [opening.eq_3 _ _ hmarker hcomment, if_neg hc]
    have hstart : RuleStart (c :: rest) := by
      have hstart := hhead.2
      rw [hopen] at hstart
      exact hstart hne
    have hrule : Readable (.rule leading (c :: rest) body) := .rule leading hstart hhead.1 hbody
    refine ⟨[.rule leading (c :: rest) body], fun s => ?_, fun rest' trailing => ?_⟩
    · exact readFrom_statement hrule hlead s
    · rw [openRule_of_start hstart, List.singleton_append, Outline.ofStatements]
  | case6 => exact absurd rfl hne

/-- A rule that nothing opens is not read. -/
theorem readFrom_no_opening (hlead : Gap leading) (hhead : HeadWritten head)
    (hnil : opening head = []) (s : Text) (found : List Statement × Text) :
    readFrom [] (leading ++ head ++ braced body ++ s) ≠ .ok found := by
  fun_induction opening head generalizing leading found with
  | case1 rest ih =>
    have hgap : Gap (leading ++ ['-', '-', '>']) := hlead.append (.closeMarker .nil)
    have hread := ih hgap hhead.behind_marker hnil found
    simpa using hread
  | case2 rest b rest' hb ih =>
    have hcomment : Readable (.comment leading ('/' :: '*' :: b)) :=
      .comment leading (closeComment_self hb)
    have heq : leading ++ '/' :: '*' :: rest ++ braced body ++ s =
        text (.comment leading ('/' :: '*' :: b)) ++ ([] ++ rest' ++ braced body ++ s) := by
      rw [closeComment_append hb]
      simp [text]
    rw [heq, readFrom_statement hcomment hlead]
    intro hfound
    obtain ⟨sts, hsts, -⟩ := cons_eq_ok_iff.1 hfound
    exact ih .nil (hhead.behind_comment hb) hnil _ hsts
  | case3 rest hb => cases hnil
  | case4 c rest hmarker hcomment hc ih =>
    have hgap : Gap (leading ++ [c]) := hlead.append (.blank hc .nil)
    have hread := ih hgap (hhead.behind_blank hc) hnil found
    simpa using hread
  | case5 c rest hmarker hcomment hc => cases hnil
  | case6 =>
    -- the brace comes first, and no statement begins with one
    have heq : leading ++ [] ++ braced body ++ s = leading ++ '{' :: (body ++ '}' :: s) := by
      simp [braced]
    have hnext : nextToken true ('{' :: (body ++ '}' :: s)) =
        .found [] .openBrace (body ++ '}' :: s) := rfl
    rw [heq, readFrom_gap_append hlead, readFrom_found hnext]
    simp [readToken]

end

end Statement

/-! ## Sheets -/

namespace Outline

variable {leading keyword prelude : Text}

/-- An at-rule keeps its block where that is not the block of a group. -/
theorem ofStatements_atRule {body : Option Text}
    (h : AtRule.isConditional keyword = true →
      ∀ b ∈ body, ∀ found, Statement.readFrom [] b ≠ .ok found)
    (sts : List Statement) (trailing : Text) :
    ofStatements (.atRule leading keyword prelude body :: sts) trailing =
      .atRule leading keyword prelude (body.map Statement.braced) (ofStatements sts trailing) := by
  cases body with
  | none => rw [ofStatements, Option.map_none]
  | some b =>
    rw [ofStatements, Option.map_some]
    split
    · rename_i hconditional
      split
      · rename_i hread
        exact absurd (Statement.readAll_eq_ok_iff.1 hread) (h hconditional b rfl _)
      · rfl
    · rfl

/-- A conditional at-rule is a group where the statements in its block are read. -/
theorem ofStatements_group {body innerTrailing : Text} {inner : List Statement}
    (h : AtRule.isConditional keyword = true)
    (hread : Statement.readFrom [] body = .ok (inner, innerTrailing))
    (sts : List Statement) (trailing : Text) :
    ofStatements (.atRule leading keyword prelude (some body) :: sts) trailing =
      .group leading keyword prelude none (ofStatements inner innerTrailing)
        (ofStatements sts trailing) := by
  rw [ofStatements, if_pos h]
  have hall := Statement.readAll_eq_ok_iff.2 hread
  split <;> rename_i heq <;> rw [hall] at heq <;> cases heq
  rfl

end Outline

namespace Sheet

/-- Whether something opens every rule of a sheet, groups not looked into. -/
def opens : Outline → Bool
  | .done _ => true
  | .rule _ head _ next => !(opening head).isEmpty && next.opens
  | .atRule _ _ _ _ next => next.opens
  | .group _ _ _ _ _ next => next.opens
  | .comment _ _ next => next.opens
  | .unknown _ next => next.opens

/-- What a written outline is read as: heads lose what does not belong to them, and a group with a
rule that nothing opens becomes an at-rule whose block is not looked into. -/
def reopen : Outline → Outline
  | .done trailing => .done trailing
  | .rule leading head block next => openRule leading head block next.reopen
  | .atRule leading name prelude block next => .atRule leading name prelude block next.reopen
  | .group leading name prelude _ body next =>
    if body.opens then .group leading name prelude none body.reopen next.reopen
    else .atRule leading name prelude (some (Statement.braced (text id body))) next.reopen
  | .comment leading t next => .comment leading t next.reopen
  | .unknown value next => .unknown value next.reopen

/-- The text of an outline is read as the reopened outline if something opens its rules and no group
is interrupted, and is not read otherwise. -/
def Rereads (o : Outline) : Prop :=
  (o.opens = true ∧ o.GroupsApart → ∃ sts trailing,
    Statement.readFrom [] (text id o) = .ok (sts, trailing) ∧
      Outline.ofStatements sts trailing = o.reopen) ∧
  (¬ (o.opens = true ∧ o.GroupsApart) → ∀ found, Statement.readFrom [] (text id o) ≠ .ok found)

/-- Statements in front of an outline leave the reading of it as it is. -/
theorem Rereads.behind {sts : List Statement} {t : Text} {next o : Outline} (h : Rereads next)
    (hread : ∀ s,
      Statement.readFrom [] (t ++ s) = sts.foldr Statement.cons (Statement.readFrom [] s))
    (htext : text id o = t ++ text id next)
    (hiff : o.opens = true ∧ o.GroupsApart ↔ next.opens = true ∧ next.GroupsApart)
    (hof : ∀ rest trailing, Outline.ofStatements rest trailing = next.reopen →
      Outline.ofStatements (sts ++ rest) trailing = o.reopen) : Rereads o := by
  rw [Rereads, htext, hread, hiff]
  constructor
  · intro hok
    obtain ⟨rest, trailing, hrest, hreopen⟩ := h.1 hok
    refine ⟨sts ++ rest, trailing, ?_, hof rest trailing hreopen⟩
    exact Statement.foldr_cons_eq_ok_iff.2 ⟨rest, hrest, rfl⟩
  · rintro hn ⟨found, trailing⟩ hfound
    obtain ⟨rest, hrest, -⟩ := Statement.foldr_cons_eq_ok_iff.1 hfound
    exact h.2 hn _ hrest

/-- An outline is not read when what stands at its start is refused. -/
theorem Rereads.of_refused {t : Text} {next o : Outline}
    (hread : ∀ s found, Statement.readFrom [] (t ++ s) ≠ .ok found)
    (htext : text id o = t ++ text id next) (hn : ¬ (o.opens = true ∧ o.GroupsApart)) :
    Rereads o := by
  refine ⟨fun hok => absurd hok hn, fun _ found => ?_⟩
  rw [htext]
  exact hread _ found

/-- A readable statement in front of an outline is read as that statement. -/
theorem Rereads.statement {st : Statement} {next o : Outline} (h : Rereads next)
    (hst : st.Readable) (hlead : Gap st.leading) (htext : text id o = st.text ++ text id next)
    (hiff : o.opens = true ∧ o.GroupsApart ↔ next.opens = true ∧ next.GroupsApart)
    (hof : ∀ rest trailing, Outline.ofStatements rest trailing = next.reopen →
      Outline.ofStatements (st :: rest) trailing = o.reopen) : Rereads o := by
  have hread : ∀ s, Statement.readFrom [] (st.text ++ s) =
      [st].foldr Statement.cons (Statement.readFrom [] s) :=
    fun s => Statement.readFrom_statement hst hlead s
  exact h.behind hread htext hiff hof

/-- A group in front of an outline: its block is read as one when no marker interrupts it, and then
the same question is asked of its body, to tell a group from an at-rule that is not looked into. -/
theorem Rereads.group {leading name prelude : Text} {body next : Outline} (hlead : Gap leading)
    (hkeyword : KeywordEnds name prelude) (hprelude : Flat .fresh prelude)
    (hconditional : AtRule.isConditional name = true) (hbody : Formed HeadWritten body)
    (hin : Rereads body) (hnext : Rereads next) :
    Rereads (.group leading name prelude none body next) := by
  have htext : text id (.group leading name prelude none body next) =
      leading ++ (name ++ prelude) ++ Statement.braced (text id body) ++ text id next := by
    simp [Sheet.text, Statement.braced]
  obtain ⟨hcontent, hinterrupted⟩ := settled hbody fun _ hhead => hhead.1
  by_cases hapart : Apart false body
  · have hst : Statement.Readable (.atRule leading name prelude (some (text id body))) :=
      .atRule leading hkeyword hprelude (by simpa using hcontent hapart)
    refine hnext.statement hst hlead ?_ (by simp [opens, GroupsApart, hapart]) ?_
    · rw [htext]
      simp [Statement.text]
    · intro rest trailing hreopen
      rw [reopen, ← hreopen]
      by_cases hopen : body.opens = true
      · obtain ⟨sts, inner, hread, hof⟩ := hin.1 ⟨hopen, hapart.groupsApart⟩
        rw [if_pos hopen, ← hof]
        exact Outline.ofStatements_group hconditional hread rest trailing
      · -- a rule in the body has no opening: its statements are not read
        have hunread := hin.2 fun hboth => hopen hboth.1
        rw [if_neg hopen]
        refine Outline.ofStatements_atRule (fun _ b hb => ?_) rest trailing
        cases hb
        exact hunread
  · refine .of_refused
      (Statement.readFrom_interrupted hlead hkeyword hprelude (hinterrupted hapart)) htext ?_
    rintro ⟨-, hgroups, -⟩
    exact hapart hgroups

/-- Formed outlines are read as reopened, or not at all. Induction on the sheet; inside a group,
where the text is the body of a block, the same reading decides between a group and an at-rule that
is not looked into. -/
theorem rereads {o : Outline} (h : Formed HeadWritten o) : Rereads o := by
  induction h with
  | @done trailing htrailing =>
    refine ⟨fun _ => ⟨[], trailing, Statement.readFrom_gap_end htrailing, ?_⟩, fun hn => ?_⟩
    · rw [Outline.ofStatements, reopen]
    · exact absurd ⟨rfl, trivial⟩ hn
  | @rule leading body head next hlead hhead hbody hnext ih =>
    by_cases hopen : opening head = []
    · refine .of_refused (Statement.readFrom_no_opening hlead hhead hopen) rfl ?_
      simp [opens, hopen]
    · obtain ⟨sts, hread, hof⟩ := Statement.readFrom_opening hlead hhead hbody hopen
      refine ih.behind hread rfl ?_ fun rest trailing hreopen => ?_
      · simp [opens, hopen, GroupsApart]
      · rw [hof, hreopen, reopen]
  | @atRule leading name prelude body next hlead hkeyword hprelude hbody hunread hnext ih =>
    have hst : Statement.Readable (.atRule leading name prelude body) :=
      .atRule leading hkeyword hprelude hbody
    refine ih.statement hst hlead ?_ Iff.rfl fun rest trailing hreopen => ?_
    · rw [Statement.text_atRule]
      rfl
    · rw [reopen, ← hreopen]
      exact Outline.ofStatements_atRule hunread rest trailing
  | group hlead hkeyword hprelude hconditional hbody hnext ihb ih =>
    exact .group hlead hkeyword hprelude hconditional hbody ihb ih
  | @comment leading body next hlead hbody hnext ih =>
    have hst : Statement.Readable (.comment leading ('/' :: '*' :: body)) :=
      .comment leading hbody
    refine ih.statement hst hlead rfl Iff.rfl fun rest trailing hreopen => ?_
    rw [Outline.ofStatements, hreopen, reopen]

/-- Where every head begins a rule already, there is nothing to leave out. -/
theorem reopen_of_start {p : Text → Prop} {o : Outline} (h : Formed p o)
    (hp : ∀ head, p head → RuleStart head) : o.opens = true ∧ o.reopen = o := by
  induction h with
  | done => exact ⟨rfl, rfl⟩
  | rule hlead hhead hbody hnext ih =>
    have hstart := hp _ hhead
    obtain ⟨c, v, rfl, -⟩ := hstart.first
    refine ⟨?_, ?_⟩
    · simpa [opens, opening_of_start hstart] using ih.1
    · rw [reopen, ih.2, openRule_of_start hstart]
  | atRule body hlead hkeyword hprelude hbody hunread hnext ih =>
    exact ⟨ih.1, by rw [reopen, ih.2]⟩
  | group hlead hkeyword hprelude hconditional hbody hnext ihb ih =>
    exact ⟨ih.1, by rw [reopen, if_pos ihb.1, ihb.2, ih.2]⟩
  | comment hlead hbody hnext ih => exact ⟨ih.1, by rw [reopen, ih.2]⟩

end Sheet

/-- When the text of a formed outline is read, and what it is read as. -/
theorem Outline.parse_text_iff {o o' : Outline} (h : o.Formed HeadWritten) :
    parse (Sheet.text id o) = .ok o' ↔ (o.opens = true ∧ o.GroupsApart) ∧ o' = o.reopen := by
  have hread := Sheet.rereads h
  rw [parse_eq_ok_iff]
  constructor
  · rintro ⟨sts, trailing, hall, rfl⟩
    have hfrom := Statement.readAll_eq_ok_iff.1 hall
    by_cases hok : o.opens = true ∧ o.GroupsApart
    · obtain ⟨sts', trailing', hfrom', hof⟩ := hread.1 hok
      rw [hfrom'] at hfrom
      cases hfrom
      exact ⟨hok, hof⟩
    · exact absurd hfrom (hread.2 hok _)
  · rintro ⟨hok, rfl⟩
    obtain ⟨sts, trailing, hfrom, hof⟩ := hread.1 hok
    exact ⟨sts, trailing, Statement.readAll_eq_ok_iff.2 hfrom, hof⟩

end StylePrune
