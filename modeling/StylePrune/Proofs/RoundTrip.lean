import StylePrune.Proofs.Pruned
import StylePrune.Proofs.Reread

/-!
# Writing and reading stylesheets

A stylesheet that was read tiles its source: written as it stands it is that source, and the written
form differs only where a rule begins with a space (`parse_tiles`).

The other way round, a pruned stylesheet is read again from its written form (`parse_filter`) when
its rules begin as they did. Both conditions are needed: a selector that comes to the front of a
rule may begin with what is skipped between statements, and so may a head without its first spaces.
-/

namespace StylePrune

open Mode

namespace Stylesheet

/-! ## Writing what was read -/

/-- A stylesheet is read in two steps, and they can be told apart. -/
theorem parse_of_statements {source trailing : Text} {sts : List Statement} {o : Outline}
    {s : Stylesheet} (hread : Statement.readAll source = .ok (sts, trailing))
    (ho : Outline.ofStatements sts trailing = o) (hs : ofOutline o = .ok s) :
    parse source = .ok s := by
  rw [parse, Outline.parse, hread]
  simp only [ho, hs]

/-- A text whose statements are not read is no stylesheet. -/
theorem parse_ne_ok_of_refused {source : Text}
    (h : (Statement.readAll source).isOk = false) (s : Stylesheet) : parse source ≠ .ok s := by
  intro hs
  rw [parse, Outline.parse] at hs
  cases hall : Statement.readAll source with
  | error e =>
    rw [hall] at hs
    cases hs
  | ok found =>
    rw [hall] at h
    cases h

theorem text_length_lt_source {source : Text} {s : Stylesheet} (h : parse source = .ok s)
    (hspace : ∃ head ∈ s.heads, Text.SpaceFirst (Selector.joined head)) :
    s.text.length < source.length := by
  have hlt := text_length_lt_joined hspace
  rwa [text_joined_of_parse h] at hlt

/-- The written form of a stylesheet is the text that was read unless some rule begins with a space.
-/
theorem text_eq_source_iff {source : Text} {s : Stylesheet} (h : parse source = .ok s) :
    s.text = source ↔ ∀ head ∈ s.heads, ¬ Text.SpaceFirst (Selector.joined head) := by
  constructor
  · intro heq head hmem hspace
    have hlt := text_length_lt_source h ⟨head, hmem, hspace⟩
    rw [heq] at hlt
    omega
  · intro hall
    rw [text_eq_joined hall, text_joined_of_parse h]

/-- A stylesheet that was read, written as it stands, is the text it was read from, and only gaps
stand around its nodes. Its written form is that text exactly when no rule begins with a space, and
is shorter otherwise. -/
theorem parse_tiles {source : Text} {s : Stylesheet} (h : parse source = .ok s) :
    Sheet.text Selector.joined s = source ∧ (∀ t ∈ s.gaps, Gap t) ∧
      ∃ out, s.write = .ok out ∧
        (out = source ↔ ∀ head ∈ s.heads, ¬ Text.SpaceFirst (Selector.joined head)) ∧
        ((∃ head ∈ s.heads, Text.SpaceFirst (Selector.joined head)) →
          out.length < source.length) := by
  have htext : Sheet.text Selector.joined s = source := text_joined_of_parse h
  have hwrite : s.write = .ok s.text := write_of_parse h
  refine ⟨htext, gaps_of_parse h, s.text, hwrite, ?_, ?_⟩
  · exact text_eq_source_iff h
  · exact text_length_lt_source h

/-- A rule that begins with a space no blank: its written form is shorter. -/
theorem parse_tiles_space :
    let source : Text := "\u00a0a{}".toList
    let s : Stylesheet := .rule [] [⟨[⟨.tag, "\u00a0a".toList, "\u00a0a".toList⟩], [], []⟩]
      ['{', '}'] (.done [])
    parse source = .ok s ∧ Sheet.text Selector.joined s = source ∧
      ∃ out, s.write = .ok out ∧ out.length < source.length := by
  intro source s
  have hread : Statement.readAll source = .ok ([.rule [] "\u00a0a".toList []], []) := by
    decide +kernel
  have hparse : parse source = .ok s := by
    refine parse_of_statements hread (o := s.mapHeads Selector.joined) ?_ (by decide +kernel)
    simp only [Outline.ofStatements]
    rfl
  obtain ⟨htext, -, out, hout, -, hshort⟩ := parse_tiles hparse
  exact ⟨hparse, htext, out, hout, hshort ⟨_, List.mem_singleton_self _, by decide⟩⟩

/-! ## Reading what was written -/

/-- A head keeps its first selector where pruning leaves it any. -/
def KeepsFirst (keeps : Selector → Bool) (head : List Selector) : Prop :=
  head.filter keeps ≠ [] → (head.filter keeps).head? = head.head?

section

variable {keeps : Selector → Bool} {head : List Selector}

theorem KeepsFirst.cons {first : Selector} {others : List Selector}
    (h : KeepsFirst keeps (first :: others)) (hne : (first :: others).filter keeps ≠ []) :
    (first :: others).filter keeps = first :: others.filter keeps := by
  have hhead := h hne
  obtain ⟨first', others', heq⟩ := List.exists_cons_of_ne_nil hne
  rw [heq, List.head?_cons, List.head?_cons, Option.some.injEq] at hhead
  have hmem : first' ∈ (first :: others).filter keeps := by simp [heq]
  rw [hhead] at hmem
  exact List.filter_cons_of_pos (List.mem_filter.1 hmem).2

/-- A head that keeps its first selector is as it could be read. -/
theorem HeadRead.filter (h : HeadRead head) (hkeeps : KeepsFirst keeps head)
    (hne : head.filter keeps ≠ []) : HeadRead (head.filter keeps) := by
  obtain ⟨first, others, rfl⟩ := List.exists_cons_of_ne_nil h.ne_nil
  have hsound : ∀ s ∈ (first :: others).filter keeps, s.Sound :=
    fun s hs => h.sound s (List.mem_filter.1 hs).1
  have hraw : first.raw ≠ [] := Selector.raw_ne_nil (h.sound first (by simp)).parse
  -- the first selector alone decides how the head begins
  have hstart : ∀ r, RuleStart (Selector.joined (first :: r)) ↔ RuleStart first.raw := by
    intro r
    rcases Selector.joined_cons first r with heq | ⟨u, heq⟩
    · rw [heq]
    · rw [heq, ruleStart_append_iff hraw]
  rw [hkeeps.cons hne] at hsound ⊢
  exact ⟨by simp, hsound, (hstart _).2 ((hstart _).1 h.start), h.flat⟩

/-- A head that keeps its first selector begins as it did. -/
theorem HeadRead.markerAhead_filter (h : HeadRead head) (hkeeps : KeepsFirst keeps head)
    (hne : head.filter keeps ≠ []) (leading : Text) :
    MarkerAhead (leading ++ Selector.joined (head.filter keeps)) →
      MarkerAhead (leading ++ Selector.joined head) := by
  obtain ⟨first, others, rfl⟩ := List.exists_cons_of_ne_nil h.ne_nil
  have hiff : ∀ r, MarkerAhead (leading ++ Selector.joined (first :: r)) ↔
      MarkerAhead (leading ++ first.raw) := by
    intro r
    rcases Selector.joined_cons first r with heq | ⟨u, heq⟩
    · rw [heq]
    · rw [heq, ← List.append_assoc, markerAhead_append_iff_of rfl (by decide)]
  rw [hkeeps.cons hne, hiff, hiff]
  exact id

/-- The first selector has some text, so a head begins as that does. -/
theorem HeadRead.spaceFirst_joined {first : Selector} {others : List Selector}
    (h : HeadRead (first :: others)) :
    Text.SpaceFirst (Selector.joined (first :: others)) ↔ Text.SpaceFirst first.raw := by
  have hraw := Selector.raw_ne_nil (h.sound first (by simp)).parse
  obtain ⟨c, v, hcv⟩ := List.exists_cons_of_ne_nil hraw
  rcases Selector.joined_cons first others with heq | ⟨r, heq⟩
  · rw [heq]
  · rw [heq, hcv]
    exact Iff.rfl

/-- A head as it was read can be read again. -/
theorem HeadRead.written (h : HeadRead head) : HeadWritten (Selector.joined head) := by
  refine ⟨h.flat_joined, fun _ => ?_⟩
  rw [opening_of_start h.start]
  exact h.start

end

end Stylesheet

namespace Sheet

variable {σ τ : Type}

/-- The heads of a formed sheet are as they should be. -/
theorem Formed.head {p : σ → Prop} {s : Sheet σ} (h : Formed p s) {a : σ} (ha : a ∈ s.heads) :
    p a := by
  induction h with
  | done => cases ha
  | rule _ hhead _ _ ih =>
    rcases List.mem_cons.1 ha with rfl | ha
    · exact hhead
    · exact ih ha
  | atRule _ _ _ _ _ _ _ ih => exact ih ha
  | group _ _ _ _ _ _ ihb ih =>
    rcases List.mem_append.1 ha with ha | ha
    · exact ihb ha
    · exact ih ha
  | comment _ _ _ ih => exact ih ha

theorem text_mapHeads (f : σ → Text) (s : Sheet σ) : (s.mapHeads f).text id = s.text f := by
  induction s with
  | done => rfl
  | rule _ _ _ _ ih => simp only [mapHeads, text, id, ih]
  | atRule _ _ _ _ _ ih => simp only [mapHeads, text, ih]
  | group _ _ _ _ _ _ ihb ih => simp only [mapHeads, text, ihb, ih]
  | comment _ _ _ ih => simp only [mapHeads, text, ih]
  | unknown _ _ ih => exact ih

end Sheet

namespace Stylesheet

/-- Selectors that are read from their own texts make a stylesheet of an outline. -/
theorem rel_mapHeads {s : Stylesheet}
    (h : ∀ head ∈ s.heads, Selector.parseList (Selector.joined head) = .ok head) :
    Sheet.Rel (fun a b => Selector.parseList a = .ok b) (s.mapHeads Selector.joined) s := by
  induction s with
  | done => exact .done _
  | rule leading head block next ih =>
    obtain ⟨hhead, hnext⟩ := List.forall_mem_cons.1 h
    exact .rule leading block hhead (ih hnext)
  | atRule leading keyword prelude block next ih => exact .atRule _ _ _ _ (ih h)
  | group leading keyword prelude hidden body next ihb ih =>
    obtain ⟨hbody, hnext⟩ := List.forall_mem_append.1 h
    exact .group _ _ _ _ (ihb hbody) (ih hnext)
  | comment leading t next ih => exact .comment _ _ (ih h)
  | unknown value next ih => exact .unknown _ (ih h)

/-- A stylesheet with heads as they can be read is read from its text. -/
theorem parse_text_joined {t : Stylesheet} (h : t.Formed HeadRead)
    (hapart : (t.mapHeads Selector.joined).GroupsApart) :
    parse (Sheet.text Selector.joined t) = .ok t := by
  have hwritten : (t.mapHeads Selector.joined).Formed HeadWritten :=
    h.mapHeads fun _ _ hread => hread.written
  have hstart : (t.mapHeads Selector.joined).Formed RuleStart :=
    h.mapHeads fun _ _ hread => hread.start
  obtain ⟨hopens, hreopen⟩ := Sheet.reopen_of_start hstart fun _ => id
  have houtline : Outline.parse (Sheet.text id (t.mapHeads Selector.joined)) =
      .ok (t.mapHeads Selector.joined) :=
    (Outline.parse_text_iff hwritten).2 ⟨⟨hopens, hapart⟩, hreopen.symm⟩
  rw [Sheet.text_mapHeads] at houtline
  have hrel := rel_mapHeads fun head hmem =>
    Selector.parseList_of_sound (h.head hmem).ne_nil (h.head hmem).sound
  exact parse_eq_ok_iff.2 ⟨_, houtline, hrel⟩

/-- Without spaces at the start of its rules, a stylesheet with heads as they can be read is written
as it stands. -/
theorem text_eq_joined_of_first {t : Stylesheet} (h : t.Formed HeadRead)
    (hspace : ∀ head ∈ t.heads, ∀ first ∈ head.head?, ¬ Text.SpaceFirst first.raw) :
    t.text = Sheet.text Selector.joined t := by
  refine text_eq_joined fun head hmem => ?_
  obtain ⟨first, others, rfl⟩ := List.exists_cons_of_ne_nil (h.head hmem).ne_nil
  rw [(h.head hmem).spaceFirst_joined]
  exact hspace _ hmem first rfl

/-- A pruned stylesheet is written and read again, node for node, when every rule that stays keeps
its first selector and begins with no space. -/
theorem parse_filter {source : Text} {s : Stylesheet} {u : Usage} (h : parse source = .ok s)
    (hfirst : ∀ head ∈ s.heads,
      head.filter u.keeps ≠ [] → (head.filter u.keeps).head? = head.head?)
    (hspace : ∀ head ∈ (filter u s).sheet.heads,
      ∀ first ∈ head.head?, ¬ Text.SpaceFirst first.raw) :
    ∃ out, (filter u s).sheet.write = .ok out ∧ parse out = .ok (filter u s).sheet := by
  obtain ⟨hformed, hapart⟩ := formed_of_parse h
  rw [filter_of_nodes u hformed.firstUnknown?] at hspace ⊢
  have hpruned : (prune u.keeps s).Formed HeadRead :=
    hformed.prune fun head hmem hread hne => hread.filter (hfirst head hmem) hne
  -- a head that keeps its first selector begins no marker that it did not begin before
  have hgroups : ((prune u.keeps s).mapHeads Selector.joined).GroupsApart :=
    Sheet.GroupsApart.prune hformed
      (fun head hmem hne leading =>
        (hformed.head hmem).markerAhead_filter (hfirst head hmem) hne leading) hapart
  have htext := text_eq_joined_of_first hpruned hspace
  refine ⟨(prune u.keeps s).text, ?_, ?_⟩
  · simp only [write, hpruned.firstUnknown?]
  · rw [htext]
    exact parse_text_joined hpruned hgroups

/-- A rule that loses its second selector, a marker behind it, and a group that loses its first
rule. -/
theorem parse_filter_inside :
    let tag : Char → Selector := fun c => ⟨[⟨.tag, [c], [c]⟩], [], []⟩
    let s : Stylesheet := .rule [] [tag 'a', tag 'b'] ['{', '}']
      (.group ['-', '-', '>'] "@media".toList " m".toList none
        (.rule [] [tag 'c'] ['{', '}'] (.rule [] [tag 'd'] ['{', '}'] (.done []))) (.done []))
    let u : Usage := ⟨[], [], [['a'], ['d']], []⟩
    parse "a,b{}-->@media m{c{}d{}}".toList = .ok s ∧
      (∀ head ∈ s.heads, head.filter u.keeps ≠ [] → (head.filter u.keeps).head? = head.head?) ∧
      (∀ head ∈ (filter u s).sheet.heads, ∀ first ∈ head.head?, ¬ Text.SpaceFirst first.raw) ∧
      ∃ out, (filter u s).sheet.write = .ok out ∧ parse out = .ok (filter u s).sheet := by
  intro tag s u
  have hread : Statement.readAll "a,b{}-->@media m{c{}d{}}".toList =
      .ok ([.rule [] "a,b".toList [], .atRule "-->".toList "@media".toList " m".toList
        (some "c{}d{}".toList)], []) := by decide +kernel
  have hinner : Statement.readFrom [] "c{}d{}".toList =
      .ok ([.rule [] "c".toList [], .rule [] "d".toList []], []) := by decide +kernel
  have hconditional : AtRule.isConditional "@media".toList = true := by decide
  have hparse : parse "a,b{}-->@media m{c{}d{}}".toList = .ok s := by
    refine parse_of_statements hread (o := s.mapHeads Selector.joined) ?_ (by decide +kernel)
    rw [Outline.ofStatements, Outline.ofStatements_group hconditional hinner]
    simp only [Outline.ofStatements]
    rfl
  have hfirst : ∀ head ∈ s.heads,
      head.filter u.keeps ≠ [] → (head.filter u.keeps).head? = head.head? := by decide
  have hspace : ∀ head ∈ (filter u s).sheet.heads,
      ∀ first ∈ head.head?, ¬ Text.SpaceFirst first.raw := by decide
  exact ⟨hparse, hfirst, hspace, parse_filter hparse hfirst hspace⟩

end Stylesheet

end StylePrune
