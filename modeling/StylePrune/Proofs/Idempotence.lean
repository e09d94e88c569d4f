import StylePrune.Proofs.Openings
import StylePrune.Proofs.RoundTrip
import StylePrune.Run

/-!
# Cleaning twice

A cleaned stylesheet that is cleaned again with the same content does not always stay as it is.
Writing a head trims the spaces of Unicode, reading it skips blanks, comments and `-->` at its
start, and a selector that has come to the front of a rule shows what was hidden behind a comma. So
the second reading may find no head, an empty first selector, another space to trim, or a marker
inside a group.

* **`Sheet.openings`** — what opens the rules that are read as rules.
* **`clean_again_iff`** — cleaning twice is cleaning once exactly when every such opening begins
  with neither a comma nor a space, and no group is interrupted by a marker.
-/

namespace StylePrune

namespace Sheet

variable {σ τ ε : Type}

/-! ## Groups with content -/

/-- Every group of a sheet holds something besides comments. -/
def Filled : Sheet σ → Prop
  | .done _ => True
  | .rule _ _ _ next => next.Filled
  | .atRule _ _ _ _ next => next.Filled
  | .group _ _ _ _ body next => body.hasContent = true ∧ body.Filled ∧ next.Filled
  | .comment _ _ next => next.Filled
  | .unknown _ next => next.Filled

theorem filled_prune (keeps : Selector → Bool) (s : Stylesheet) :
    (Stylesheet.prune keeps s).Filled := by
  induction s with
  | done => trivial
  | rule leading head block next ih =>
    rw [Stylesheet.prune]
    split
    · exact ih
    · exact ih
  | atRule _ _ _ _ _ ih => exact ih
  | group leading keyword prelude hidden body next ihb ih =>
    rw [Stylesheet.prune]
    split
    · rename_i hcontent
      exact ⟨hcontent, ihb, ih⟩
    · exact ih
  | comment _ _ _ ih => exact ih
  | unknown _ _ ih => exact ih

theorem hasContent_mapHeads (f : σ → τ) (s : Sheet σ) :
    (s.mapHeads f).hasContent = s.hasContent := by
  induction s with
  | comment _ _ _ ih => exact ih
  | _ => rfl

theorem filled_mapHeads (f : σ → τ) (s : Sheet σ) : (s.mapHeads f).Filled ↔ s.Filled := by
  induction s with
  | done => exact Iff.rfl
  | rule _ _ _ _ ih => exact ih
  | atRule _ _ _ _ _ ih => exact ih
  | group _ _ _ _ _ _ ihb ih => simp only [mapHeads, Filled, hasContent_mapHeads, ihb, ih]
  | comment _ _ _ ih => exact ih
  | unknown _ _ ih => exact ih

theorem mapHeads_id (s : Sheet σ) : s.mapHeads id = s := by
  induction s with
  | done => rfl
  | rule _ _ _ _ ih => rw [mapHeads, ih, id]
  | atRule _ _ _ _ _ ih => rw [mapHeads, ih]
  | group _ _ _ _ _ _ ihb ih => rw [mapHeads, ihb, ih]
  | comment _ _ _ ih => rw [mapHeads, ih]
  | unknown _ _ ih => rw [mapHeads, ih]

theorem heads_mapHeads (f : σ → τ) (s : Sheet σ) : (s.mapHeads f).heads = s.heads.map f := by
  induction s with
  | done => rfl
  | rule _ _ _ _ ih => simp only [mapHeads, heads, List.map_cons, ih]
  | atRule _ _ _ _ _ ih => exact ih
  | group _ _ _ _ _ _ ihb ih => simp only [mapHeads, heads, List.map_append, ihb, ih]
  | comment _ _ _ ih => exact ih
  | unknown _ _ ih => exact ih

/-- Where every selector is kept and every group has content, pruning leaves a sheet alone. -/
theorem prune_eq_self {keeps : Selector → Bool} {s : Stylesheet} (hfilled : s.Filled)
    (hkeeps : ∀ head ∈ s.heads, head ≠ [] ∧ ∀ selector ∈ head, keeps selector = true) :
    Stylesheet.prune keeps s = s := by
  induction s with
  | done => rfl
  | rule leading head block next ih =>
    obtain ⟨⟨hne, hhead⟩, hnext⟩ := List.forall_mem_cons.1 hkeeps
    have hfilter : head.filter keeps = head := List.filter_eq_self.2 hhead
    rw [Stylesheet.prune, hfilter, ih hfilled hnext]
    split
    · exact absurd rfl hne
    · rfl
  | atRule _ _ _ _ _ ih => rw [Stylesheet.prune, ih hfilled hkeeps]
  | group leading keyword prelude hidden body next ihb ih =>
    obtain ⟨hcontent, hinside, hbehind⟩ := hfilled
    obtain ⟨hbody, hnext⟩ := List.forall_mem_append.1 hkeeps
    rw [Stylesheet.prune, ihb hinside hbody, ih hbehind hnext, if_pos hcontent]
  | comment _ _ _ ih => rw [Stylesheet.prune, ih hfilled hkeeps]
  | unknown _ _ ih => rw [Stylesheet.prune, ih hfilled hkeeps]

/-! ## Traversals -/

/-- A traversal succeeds when every head can be replaced. -/
theorem traverse_of_heads {f : σ → Except ε τ} {s : Sheet σ} (h : ∀ a ∈ s.heads, ∃ b, f a = .ok b) :
    ∃ t, s.traverse f = .ok t := by
  suffices hrel : ∃ t, Rel (fun a b => f a = .ok b) s t by
    obtain ⟨t, ht⟩ := hrel
    exact ⟨t, traverse_eq_ok_iff.2 ht⟩
  induction s with
  | done trailing => exact ⟨_, .done trailing⟩
  | rule leading head block next ih =>
    obtain ⟨⟨b, hb⟩, hnext⟩ := List.forall_mem_cons.1 h
    obtain ⟨t, ht⟩ := ih hnext
    exact ⟨_, .rule leading block hb ht⟩
  | atRule leading keyword prelude block next ih =>
    obtain ⟨t, ht⟩ := ih h
    exact ⟨_, .atRule leading keyword prelude block ht⟩
  | group leading keyword prelude hidden body next ihb ih =>
    obtain ⟨hbody, hnext⟩ := List.forall_mem_append.1 h
    obtain ⟨t, ht⟩ := ihb hbody
    obtain ⟨t', ht'⟩ := ih hnext
    exact ⟨_, .group leading keyword prelude hidden ht ht'⟩
  | comment leading t next ih =>
    obtain ⟨t', ht⟩ := ih h
    exact ⟨_, .comment leading t ht⟩
  | unknown value next ih =>
    obtain ⟨t, ht⟩ := ih h
    exact ⟨_, .unknown value ht⟩

theorem Rel.head {r : σ → τ → Prop} {s : Sheet σ} {t : Sheet τ} (h : Rel r s t) {b : τ}
    (hb : b ∈ t.heads) : ∃ a ∈ s.heads, r a b := by
  induction h with
  | done => cases hb
  | rule leading block hhead _ ih =>
    rcases List.mem_cons.1 hb with rfl | hb
    · exact ⟨_, List.mem_cons_self, hhead⟩
    · obtain ⟨a, ha, hab⟩ := ih hb
      exact ⟨a, List.mem_cons_of_mem _ ha, hab⟩
  | atRule _ _ _ _ _ ih => exact ih hb
  | group _ _ _ _ _ _ ihb ih =>
    rcases List.mem_append.1 hb with hb | hb
    · obtain ⟨a, ha, hab⟩ := ihb hb
      exact ⟨a, List.mem_append_left _ ha, hab⟩
    · obtain ⟨a, ha, hab⟩ := ih hb
      exact ⟨a, List.mem_append_right _ ha, hab⟩
  | comment _ _ _ ih => exact ih hb
  | unknown _ _ ih => exact ih hb

/-! ## Openings -/

/-- What opens the rules that are read as rules. A group with a rule that nothing opens is not
looked into. -/
def openings : Outline → List Text
  | .done _ => []
  | .rule _ head _ next => opening head :: next.openings
  | .atRule _ _ _ _ next => next.openings
  | .group _ _ _ _ body next =>
    if body.opens then body.openings ++ next.openings else next.openings
  | .comment _ _ next => next.openings
  | .unknown _ next => next.openings

/-- A rule is read as comments and the rule behind them, so what comments do not change and the rule
has is had by the whole. -/
theorem openRule_induction {p : Outline → Prop} {head block : Text} {next : Outline}
    (hcomment : ∀ leading t o, p o → p (.comment leading t o))
    (hrule : ∀ leading, p (.rule leading (opening head) block next)) (leading : Text) :
    p (openRule leading head block next) := by
  fun_induction opening head generalizing leading with
  | case1 rest ih =>
    rw [openRule_marker]
    exact ih hrule _
  | case2 rest body rest' hbody ih =>
    rw [openRule_comment _ _ _ hbody]
    exact hcomment _ _ _ (ih hrule _)
  | case3 rest hbody =>
    rw [openRule]
    split
    · rename_i heq
      rw [hbody] at heq
      cases heq
    · exact hrule _
  | case4 c rest _ _ hc ih =>
    rw [openRule_blank _ _ _ hc]
    exact ih hrule _
  | case5 c rest hmarker hcomment' hc =>
    rw [openRule.eq_3 _ _ _ _ _ hmarker hcomment', if_neg hc]
    exact hrule _
  | case6 =>
    rw [openRule]
    exact hrule _

theorem heads_openRule (leading head block : Text) (next : Outline) :
    (openRule leading head block next).heads = opening head :: next.heads :=
  openRule_induction (p := fun o => o.heads = opening head :: next.heads) (fun _ _ _ h => h)
    (fun _ => rfl) leading

theorem heads_reopen (o : Outline) : o.reopen.heads = o.openings := by
  induction o with
  | done => rfl
  | rule leading head block next ih => rw [reopen, heads_openRule, ih, openings]
  | atRule _ _ _ _ _ ih => exact ih
  | group leading keyword prelude hidden body next ihb ih =>
    rw [reopen, openings]
    split
    · rw [heads, ihb, ih]
    · exact ih
  | comment _ _ _ ih => exact ih
  | unknown _ _ ih => exact ih

theorem mem_openings {o : Outline} {a : Text} (h : a ∈ o.openings) :
    ∃ head ∈ o.heads, a = opening head := by
  induction o with
  | done => cases h
  | rule leading head block next ih =>
    rcases List.mem_cons.1 h with rfl | h
    · exact ⟨head, List.mem_cons_self, rfl⟩
    · obtain ⟨b, hb, hab⟩ := ih h
      exact ⟨b, List.mem_cons_of_mem _ hb, hab⟩
  | atRule _ _ _ _ _ ih => exact ih h
  | group leading keyword prelude hidden body next ihb ih =>
    have hcases : a ∈ body.openings ∨ a ∈ next.openings := by
      rw [openings] at h
      split at h
      · exact List.mem_append.1 h
      · exact .inr h
    rcases hcases with h | h
    · obtain ⟨b, hb, hab⟩ := ihb h
      exact ⟨b, List.mem_append_left _ hb, hab⟩
    · obtain ⟨b, hb, hab⟩ := ih h
      exact ⟨b, List.mem_append_right _ hb, hab⟩
  | comment _ _ _ ih => exact ih h
  | unknown _ _ ih => exact ih h

theorem opens_of_openings {o : Outline} (h : ∀ a ∈ o.openings, a ≠ []) : o.opens = true := by
  induction o with
  | done => rfl
  | rule leading head block next ih =>
    obtain ⟨hhead, hnext⟩ := List.forall_mem_cons.1 h
    simp [opens, hhead, ih hnext]
  | atRule _ _ _ _ _ ih => exact ih h
  | group leading keyword prelude hidden body next _ ih =>
    -- the body does not matter here: a group with a rule that nothing opens is read all the same
    refine ih fun a ha => h a ?_
    rw [openings]
    split
    · exact List.mem_append_right _ ha
    · exact ha
  | comment _ _ _ ih => exact ih h
  | unknown _ _ ih => exact ih h

theorem hasContent_reopen {o : Outline} (h : o.hasContent = true) : o.reopen.hasContent = true := by
  induction o with
  | done => cases h
  | rule leading head block next =>
    exact openRule_induction (p := fun o => o.hasContent = true) (fun _ _ _ h => h) (fun _ => rfl)
      leading
  | group =>
    rw [reopen]
    split <;> rfl
  | comment _ _ _ ih => exact ih h
  | atRule | unknown => rfl

theorem Filled.reopen {o : Outline} (h : o.Filled) : o.reopen.Filled := by
  induction o with
  | done => trivial
  | rule leading head block next ih =>
    exact openRule_induction (fun _ _ _ h => h) (fun _ => ih h) leading
  | atRule _ _ _ _ _ ih => exact ih h
  | group leading keyword prelude hidden body next ihb ih =>
    obtain ⟨hcontent, hbody, hnext⟩ := h
    rw [Sheet.reopen]
    split
    · exact ⟨hasContent_reopen hcontent, ihb hbody, ih hnext⟩
    · exact ih hnext
  | comment _ _ _ ih => exact ih h
  | unknown _ _ ih => exact ih h

end Sheet

namespace Selector

/-- A list of selectors begins with something that is no comma. -/
theorem first_of_parseList {head : Text} {selectors : List Selector}
    (h : parseList head = .ok selectors) : selectors ≠ [] ∧ ∃ c ∈ head.head?, c ≠ ',' := by
  unfold parseList at h
  split at h
  · cases h
  · rename_i piece pieces hsplit
    have hraw := parseEach_raw h
    have hparse := parseEach_parse h
    obtain ⟨first, others, rfl, rfl, rfl⟩ := List.map_eq_cons_iff.1 hraw
    refine ⟨by simp, ?_⟩
    have hne : first.raw ≠ [] := raw_ne_nil (hparse first (by simp))
    cases head with
    | nil =>
      -- the only piece of an empty head is empty
      obtain ⟨rest, heq⟩ := splitCommas_first hsplit
      exact absurd (List.append_eq_nil_iff.1 heq.symm).1 hne
    | cons c r =>
      refine ⟨c, rfl, ?_⟩
      -- a comma at the start would leave the first piece empty
      rintro rfl
      rw [splitCommas_comma] at hsplit
      cases hr : splitCommas r with
      | error e =>
        rw [hr] at hsplit
        cases hsplit
      | ok found =>
        rw [hr] at hsplit
        simp only [Except.map, Except.ok.injEq, Prod.mk.injEq] at hsplit
        exact hne hsplit.1.symm

end Selector

namespace Stylesheet

open Selector

variable {css content : Text} {s : Stylesheet}

/-- A pruned stylesheet is formed, and its heads are such as can be read again. -/
theorem formed_prelude (h : parse css = .ok s) (content : Text) :
    ((s.prune (Usage.ofContent s content).keeps).mapHeads prelude).Formed
      (HeadReread (Corpus.ofContent content)) := by
  obtain ⟨hformed, -⟩ := formed_of_parse h
  refine (hformed.prune (q := fun head => HeadReread (Corpus.ofContent content) (prelude head))
    fun head hmem hread hne => ?_).mapHeads fun _ _ => id
  refine headReread_prelude hne (fun selector hs => hread.sound selector (List.mem_filter.1 hs).1)
    fun selector hs => ?_
  obtain ⟨hmem', hkeeps⟩ := List.mem_filter.1 hs
  rwa [Usage.keeps_ofContent (List.mem_flatten.2 ⟨head, hmem, hmem'⟩)] at hkeeps

section

variable {w : Outline}

/-- A written outline is read when its structure is, and when what opens its rules are selectors. -/
theorem parse_written_iff (hw : w.Formed HeadWritten) :
    parse (Sheet.text id w) = .ok s ↔
      (w.opens = true ∧ w.GroupsApart) ∧ w.reopen.traverse parseList = .ok s := by
  rw [parse_eq_ok_iff, Sheet.traverse_eq_ok_iff]
  constructor
  · rintro ⟨o, ho, hrel⟩
    obtain ⟨hok, rfl⟩ := (Outline.parse_text_iff hw).1 ho
    exact ⟨hok, hrel⟩
  · rintro ⟨hok, hrel⟩
    exact ⟨w.reopen, (Outline.parse_text_iff hw).2 ⟨hok, rfl⟩, hrel⟩

/-- The heads that are read again are the openings. -/
theorem heads_reread (h : w.reopen.traverse parseList = .ok s) :
    s.heads.map joined = w.openings := by
  have hrel := Sheet.traverse_eq_ok_iff.1 h
  rw [← Sheet.heads_mapHeads, mapHeads_of_rel hrel, Sheet.heads_reopen]

variable (hw : w.Formed (HeadReread (Corpus.ofContent content)))
include hw

theorem parse_opening {a : Text} (ha : a ∈ w.openings) (hfirst : ∃ c ∈ a.head?, c ≠ ',') :
    ∃ selectors, parseList a = .ok selectors ∧
      ∀ selector ∈ selectors, (Corpus.ofContent content).keeps selector = true := by
  obtain ⟨head, hmem, rfl⟩ := Sheet.mem_openings ha
  exact (hw.head hmem).read hfirst

/-- Selectors are read from all openings unless one is empty or begins with a comma. -/
theorem traverse_openings (h : ∀ a ∈ w.openings, ∃ c ∈ a.head?, c ≠ ',') :
    ∃ s, w.reopen.traverse parseList = .ok s := by
  refine Sheet.traverse_of_heads fun a ha => ?_
  rw [Sheet.heads_reopen] at ha
  obtain ⟨selectors, hparse, -⟩ := parse_opening hw ha (h a ha)
  exact ⟨selectors, hparse⟩

/-- Nothing is taken from a written stylesheet when it is cleaned again. -/
theorem prune_reread (hfilled : w.Filled) (h : w.reopen.traverse parseList = .ok s) :
    s.prune (Usage.ofContent s content).keeps = s := by
  have hrel := Sheet.traverse_eq_ok_iff.1 h
  refine Sheet.prune_eq_self ?_ fun head hmem => ?_
  · rw [← Sheet.filled_mapHeads joined, mapHeads_of_rel hrel]
    exact hfilled.reopen
  · obtain ⟨a, ha, hparse⟩ := hrel.head hmem
    rw [Sheet.heads_reopen] at ha
    obtain ⟨hne, hfirst⟩ := first_of_parseList hparse
    obtain ⟨selectors, hparse', hkeeps⟩ := parse_opening hw ha hfirst
    rw [hparse] at hparse'
    cases hparse'
    refine ⟨hne, fun selector hs => ?_⟩
    -- the verdict on a selector is the same in the stylesheet that is read again
    rw [Usage.keeps_ofContent (List.mem_flatten.2 ⟨head, hmem, hs⟩)]
    exact hkeeps selector hs

/-- A written stylesheet that is read is cleaned to the text that its own writing gives. -/
theorem clean_reread (hfilled : w.Filled) (hs : parse (Sheet.text id w) = .ok s)
    (h : w.reopen.traverse parseList = .ok s) :
    clean (Sheet.text id w) content =
      .ok ⟨s.text, s.rejected (Usage.ofContent s content).keeps, Usage.ofContent s content⟩ := by
  simp only [clean, hs, prune_reread hw hfilled h]

theorem formed_written : w.Formed HeadWritten := by
  have hmap := hw.mapHeads (f := id) (q := HeadWritten) fun _ _ hhead => hhead.written
  rwa [Sheet.mapHeads_id] at hmap

/-- A written stylesheet that stays as it is was read again, and what opens its rules is what was
written for them. -/
theorem openings_of_clean (hfilled : w.Filled) {again : Cleaned}
    (hagain : clean (Sheet.text id w) content = .ok again) (hcss : again.css = Sheet.text id w) :
    w.GroupsApart ∧ ∀ a ∈ w.openings, ∃ c ∈ a.head?, c ≠ ',' ∧ Text.isSpace c = false := by
  obtain ⟨s, hs⟩ : ∃ s, parse (Sheet.text id w) = .ok s := by
    cases hs : parse (Sheet.text id w) with
    | error e =>
      rw [clean, hs] at hagain
      cases hagain
    | ok s => exact ⟨s, rfl⟩
  obtain ⟨⟨-, hapart⟩, htraverse⟩ := (parse_written_iff (formed_written hw)).1 hs
  rw [clean_reread hw hfilled hs htraverse] at hagain
  cases hagain
  -- the text is the same again, so no head that was read begins with a space
  have hspace := (text_eq_source_iff hs).1 hcss
  refine ⟨hapart, fun a ha => ?_⟩
  rw [← heads_reread htraverse] at ha
  obtain ⟨head, hmem, rfl⟩ := List.mem_map.1 ha
  obtain ⟨a, -, hparse⟩ := (Sheet.traverse_eq_ok_iff.1 htraverse).head hmem
  obtain ⟨-, c, hc, hcomma⟩ := first_of_parseList hparse
  rw [← parseList_joined hparse] at hc
  refine ⟨c, hc, hcomma, ?_⟩
  by_contra hisSpace
  exact hspace head hmem ⟨c, hc, by simpa using hisSpace⟩

theorem clean_of_openings (hfilled : w.Filled) (hapart : w.GroupsApart)
    (hopen : ∀ a ∈ w.openings, ∃ c ∈ a.head?, c ≠ ',' ∧ Text.isSpace c = false) :
    ∃ again, clean (Sheet.text id w) content = .ok again ∧ again.css = Sheet.text id w := by
  have hne : ∀ a ∈ w.openings, a ≠ [] := by
    rintro a ha rfl
    obtain ⟨c, hc, -⟩ := hopen [] ha
    cases hc
  obtain ⟨s, htraverse⟩ := traverse_openings hw fun a ha => by
    obtain ⟨c, hc, hcomma, -⟩ := hopen a ha
    exact ⟨c, hc, hcomma⟩
  have hs : parse (Sheet.text id w) = .ok s :=
    (parse_written_iff (formed_written hw)).2
      ⟨⟨Sheet.opens_of_openings hne, hapart⟩, htraverse⟩
  refine ⟨_, clean_reread hw hfilled hs htraverse, (text_eq_source_iff hs).2 ?_⟩
  -- a head that is read is an opening, and none of those begins with a space
  intro head hmem
  have hmem' : joined head ∈ w.openings := by
    rw [← heads_reread htraverse]
    exact List.mem_map_of_mem hmem
  obtain ⟨c, hc, -, hspace⟩ := hopen _ hmem'
  rintro ⟨d, hd, hisSpace⟩
  rw [Option.mem_unique hc hd, hisSpace] at hspace
  cases hspace

/-- A written stylesheet stays as it is exactly when no marker interrupts its groups and what opens
its rules begins with neither a comma nor a space. -/
theorem clean_written_iff (hfilled : w.Filled) :
    (∃ again, clean (Sheet.text id w) content = .ok again ∧ again.css = Sheet.text id w) ↔
      w.GroupsApart ∧
        ∀ a ∈ w.openings, ∃ c ∈ a.head?, c ≠ ',' ∧ Text.isSpace c = false := by
  constructor
  · rintro ⟨again, hagain, hcss⟩
    exact openings_of_clean hw hfilled hagain hcss
  · rintro ⟨hapart, hopen⟩
    exact clean_of_openings hw hfilled hapart hopen

end

/-- Cleaning a stylesheet twice with one content is cleaning it once exactly when, in the stylesheet
as it is written the first time, no marker interrupts a group and what opens a rule begins with
neither a comma nor a space. -/
theorem clean_again_iff (h : parse css = .ok s) (content : Text) :
    let written := (s.prune (Usage.ofContent s content).keeps).mapHeads prelude
    ∃ first, clean css content = .ok first ∧
      ((∃ again, clean first.css content = .ok again ∧ again.css = first.css) ↔
        written.GroupsApart ∧
          ∀ a ∈ written.openings, ∃ c ∈ a.head?, c ≠ ',' ∧ Text.isSpace c = false) := by
  intro written
  have hfilled : written.Filled := (Sheet.filled_mapHeads _ _).2 (Sheet.filled_prune _ s)
  have htext : Sheet.text id written = (s.prune (Usage.ofContent s content).keeps).text :=
    Sheet.text_mapHeads _ _
  have hiff := clean_written_iff (formed_prelude h content) hfilled
  refine ⟨_, by simp only [clean, h]; rfl, ?_⟩
  rw [← htext]
  exact hiff

/-- A group that loses a rule and a selector stays as it is then. -/
theorem clean_again_group :
    let css : Text := "@media m{a{}c,b{}}".toList
    let tag : Char → Selector := fun c => ⟨[⟨.tag, [c], [c]⟩], [], []⟩
    let s : Stylesheet := .group [] "@media".toList " m".toList none
      (.rule [] [tag 'a'] ['{', '}'] (.rule [] [tag 'c', tag 'b'] ['{', '}'] (.done []))) (.done [])
    parse css = .ok s ∧ ∃ first, clean css ['b'] = .ok first ∧
      ∃ again, clean first.css ['b'] = .ok again ∧ again.css = first.css := by
  intro css tag s
  have hread : Statement.readAll css = .ok ([.atRule [] "@media".toList " m".toList
      (some "a{}c,b{}".toList)], []) := by decide +kernel
  have hinner : Statement.readFrom [] "a{}c,b{}".toList =
      .ok ([.rule [] "a".toList [], .rule [] "c,b".toList []], []) := by decide +kernel
  have hconditional : AtRule.isConditional "@media".toList = true := by decide
  have hparse : parse css = .ok s := by
    refine parse_of_statements hread (o := s.mapHeads Selector.joined) ?_ (by decide +kernel)
    rw [Outline.ofStatements_group hconditional hinner]
    simp only [Outline.ofStatements]
    rfl
  have hpruned : s.prune (Usage.ofContent s ['b']).keeps =
      .group [] "@media".toList " m".toList none (.rule [] [tag 'b'] ['{', '}'] (.done []))
        (.done []) := by decide +kernel
  have hopenings : ((s.prune (Usage.ofContent s ['b']).keeps).mapHeads prelude).openings =
      [['b']] := by decide +kernel
  -- the one opening that is left begins with a letter, and no marker stands in the group
  obtain ⟨first, hfirst, hiff⟩ := clean_again_iff hparse ['b']
  refine ⟨hparse, first, hfirst, hiff.2 ⟨?_, fun a ha => ?_⟩⟩
  · rw [hpruned]
    exact ⟨⟨by simp, by decide, trivial⟩, trivial⟩
  · rw [hopenings, List.mem_singleton] at ha
    rw [ha]
    exact ⟨'b', rfl, by decide, by decide⟩

/-- A rule whose selector is a space no blank is written without a head, and then refused. -/
theorem clean_again_refused :
    ∃ first, clean "\u00a0{}".toList "\u00a0".toList = .ok first ∧
      ∀ again, clean first.css "\u00a0".toList ≠ .ok again := by
  let s : Stylesheet := .rule [] [⟨[⟨.tag, "\u00a0".toList, "\u00a0".toList⟩], [], []⟩] ['{', '}']
    (.done [])
  have hread : Statement.readAll "\u00a0{}".toList = .ok ([.rule [] "\u00a0".toList []], []) := by
    decide +kernel
  have hparse : parse "\u00a0{}".toList = .ok s := by
    refine parse_of_statements hread (o := s.mapHeads Selector.joined) ?_ (by decide +kernel)
    simp only [Outline.ofStatements]
    rfl
  have htext : (s.prune (Usage.ofContent s "\u00a0".toList).keeps).text = ['{', '}'] := by
    decide +kernel
  have hrefused : (Statement.readAll ['{', '}']).isOk = false := by decide +kernel
  refine ⟨_, by simp only [clean, hparse]; rfl, fun again hagain => ?_⟩
  rw [htext, clean] at hagain
  cases hagain' : parse ['{', '}'] with
  | error e =>
    rw [hagain'] at hagain
    cases hagain
  | ok s => exact parse_ne_ok_of_refused hrefused s hagain'

end Stylesheet

end StylePrune
