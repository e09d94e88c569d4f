import StylePrune.Proofs.Phases
import StylePrune.Proofs.Terminals

/-!
# Lexing

A text is lexed from left to right: blanks are skipped, and the token that is to be taken is taken.
Which token that is depends on those before it, in one respect: markers are awaited between two
phrases and right behind a closing brace, and nowhere else (`Awaits`). A text is lexed in one way
only, so that any two lexings of it agree as far as the shorter one goes (`Lexes.extend`).

What the phase of the tokens before a text says about markers is what the reader does: it awaits
them between two phrases (`awaits_between`), never in a head (`not_awaits_of_head`), and in a block
where a brace has just closed an inner one (`awaits_block_iff`).
-/

namespace StylePrune

/-- The last of the lexemes is a closing brace. -/
def BehindBrace (before : List Lexeme) : Prop := ∃ l ∈ before.getLast?, l.token = .closeBrace

/-- Behind these lexemes a marker is awaited. -/
def Awaits (before : List Lexeme) : Prop :=
  (∃ d : Derivation, d.lexemes = before) ∨ BehindBrace before

/-- Behind the lexemes `before`, further ones are lexed from a text, and `left` is left of it. -/
inductive Lexes : List Lexeme → Text → List Lexeme → Text → Prop where
  | nil (before : List Lexeme) (s : Text) : Lexes before s [] s
  | cons {before : List Lexeme} {s rest left : Text} {l : Lexeme} {ls : List Lexeme}
      (hgap : ∀ c ∈ l.gap, Text.isBlank c = true)
      (htaken : Token.Taken (Awaits before) s l.token rest)
      (hrest : Lexes (before ++ [l]) rest ls left) : Lexes before (l.gap ++ s) (l :: ls) left

/-- A text is lexed to its end, but for the blanks there. -/
structure Lexed (source : Text) (ls : List Lexeme) (gap : Text) : Prop where
  lexes : Lexes [] source ls gap
  blank : ∀ c ∈ gap, Text.isBlank c = true

namespace Lexes

variable {before ls as bs : List Lexeme} {s left left' gap : Text} {l : Lexeme}

theorem nil_iff : Lexes before s [] left ↔ left = s := by
  constructor
  · rintro ⟨⟩
    rfl
  · rintro rfl
    exact .nil before left

/-- The next lexeme is what the reader of tokens finds, if it awaits markers where it should. -/
theorem cons_iff {markers : Bool} (hmarkers : markers = true ↔ Awaits before) :
    Lexes before s (l :: ls) left ↔
      ∃ rest, nextToken markers s = .found l.gap l.token rest ∧
        Lexes (before ++ [l]) rest ls left := by
  constructor
  · rintro (_ | ⟨hgap, htaken, hrest⟩)
    rw [← propext hmarkers] at htaken
    exact ⟨_, nextToken_eq_found_iff.2 ⟨_, rfl, hgap, htaken⟩, hrest⟩
  · rintro ⟨rest, hnext, hrest⟩
    obtain ⟨v, rfl, hgap, htaken⟩ := nextToken_eq_found_iff.1 hnext
    rw [propext hmarkers] at htaken
    exact .cons hgap htaken hrest

theorem exists_markers (before : List Lexeme) :
    ∃ markers : Bool, markers = true ↔ Awaits before := by
  by_cases h : Awaits before
  · exact ⟨true, by simp [h]⟩
  · exact ⟨false, by simp [h]⟩

theorem append_iff :
    Lexes before s (as ++ bs) left ↔
      ∃ m, Lexes before s as m ∧ Lexes (before ++ as) m bs left := by
  induction as generalizing before s with
  | nil =>
    constructor
    · intro h
      exact ⟨s, .nil before s, by simpa using h⟩
    · rintro ⟨m, ⟨⟩, h⟩
      simpa using h
  | cons l as ih =>
    constructor
    · rintro (_ | ⟨hgap, htaken, hrest⟩)
      obtain ⟨m, has, hbs⟩ := ih.1 hrest
      exact ⟨m, .cons hgap htaken has, by simpa using hbs⟩
    · rintro ⟨m, ⟨⟩ | ⟨hgap, htaken, hrest⟩, hbs⟩
      exact .cons hgap htaken (ih.2 ⟨m, hrest, by simpa using hbs⟩)

/-- The lexemes and what is left make up the text. -/
theorem append_eq (h : Lexes before s ls left) : s = Lexeme.textOf ls ++ left := by
  induction h with
  | nil => rfl
  | cons hgap htaken _ ih =>
    rw [Lexeme.textOf_cons, Lexeme.text, List.append_assoc, List.append_assoc, ← ih,
      ← htaken.append]

theorem length_le (h : Lexes before s ls left) : left.length ≤ s.length := by
  rw [h.append_eq, List.length_append]
  omega

/-- Nothing is lexed from blanks. -/
theorem eq_nil_of_blank (hblank : ∀ c ∈ s, Text.isBlank c = true) (h : Lexes before s ls left) :
    ls = [] ∧ left = s := by
  cases ls with
  | nil =>
    cases h
    exact ⟨rfl, rfl⟩
  | cons l ls =>
    obtain ⟨markers, hmarkers⟩ := exists_markers before
    obtain ⟨rest, hnext, -⟩ := (cons_iff hmarkers).1 h
    rw [nextToken_eq_finished_iff.2 ⟨rfl, hblank⟩] at hnext
    cases hnext

/-- What is lexed from a text is the beginning of what is lexed from it to its end. -/
theorem extend (hfull : Lexes before s ls gap) (hblank : ∀ c ∈ gap, Text.isBlank c = true)
    (h : Lexes before s as left) :
    ∃ bs, ls = as ++ bs ∧ Lexes (before ++ as) left bs gap := by
  induction as generalizing before s ls with
  | nil =>
    cases h
    exact ⟨ls, rfl, by simpa using hfull⟩
  | cons l as ih =>
    obtain ⟨markers, hmarkers⟩ := exists_markers before
    obtain ⟨rest, hnext, hrest⟩ := (cons_iff hmarkers).1 h
    cases ls with
    | nil =>
      cases hfull
      rw [nextToken_eq_finished_iff.2 ⟨rfl, hblank⟩] at hnext
      cases hnext
    | cons l' ls =>
      obtain ⟨rest', hnext', hrest'⟩ := (cons_iff hmarkers).1 hfull
      obtain ⟨g, t⟩ := l
      obtain ⟨g', t'⟩ := l'
      rw [hnext] at hnext'
      cases hnext'
      obtain ⟨bs, rfl, hbs⟩ := ih hrest' hrest
      exact ⟨bs, rfl, by simpa using hbs⟩

end Lexes

/-- A text is lexed to its end in one way. -/
theorem Lexed.unique {source gap gap' : Text} {ls ls' : List Lexeme} (h : Lexed source ls gap)
    (h' : Lexed source ls' gap') : ls = ls' ∧ gap = gap' := by
  obtain ⟨bs, rfl, hbs⟩ := h.lexes.extend h.blank h'.lexes
  obtain ⟨rfl, rfl⟩ := hbs.eq_nil_of_blank h'.blank
  exact ⟨List.append_nil _, rfl⟩

/-! ## Where markers are awaited -/

theorem behindBrace_append {before : List Lexeme} {l : Lexeme} :
    BehindBrace (before ++ [l]) ↔ l.token = .closeBrace := by
  simp [BehindBrace]

section

variable {before : List Lexeme}

theorem awaits_between (h : Phase.between.run before = some .between) : Awaits before :=
  .inl (Phase.run_between_iff.1 h)

/-- Behind a closing brace stands a block or the next phrase, but no head. -/
theorem not_awaits_of_head {m : Phase} (hm : m.isHead = true)
    (h : Phase.between.run before = some m) : ¬ Awaits before := by
  rintro (hbetween | ⟨l, hl, hbrace⟩)
  · rw [Phase.run_between_iff.2 hbetween] at h
    cases h
    cases hm
  · obtain ⟨init, rfl⟩ := List.getLast?_eq_some_iff.1 hl
    rw [Phase.run_append] at h
    obtain ⟨k, -, hk⟩ := Option.bind_eq_some_iff.1 h
    obtain ⟨n, hstep, hn⟩ := Phase.run_cons_eq_some hk
    cases hn
    rw [hbrace] at hstep
    cases k with
    | block d =>
      rw [Phase.step_closeBrace] at hstep
      cases d <;> cases hstep <;> cases hm
    | between | ruleHead | atRuleHead => cases hstep

theorem awaits_block_iff {d : Nat} (h : Phase.between.run before = some (.block d)) :
    Awaits before ↔ BehindBrace before := by
  refine or_iff_right fun hbetween => ?_
  rw [Phase.run_between_iff.2 hbetween] at h
  cases h

end

namespace Lexes

variable {before ls : List Lexeme} {s left : Text} {l : Lexeme}

theorem between_cons_iff (hrun : Phase.between.run before = some .between) :
    Lexes before s (l :: ls) left ↔
      ∃ rest, nextToken true s = .found l.gap l.token rest ∧ Lexes (before ++ [l]) rest ls left :=
  cons_iff (iff_of_true rfl (awaits_between hrun))

theorem head_cons_iff {m : Phase} (hm : m.isHead = true)
    (hrun : Phase.between.run before = some m) :
    Lexes before s (l :: ls) left ↔
      ∃ rest, nextToken false s = .found l.gap l.token rest ∧ Lexes (before ++ [l]) rest ls left :=
  cons_iff (iff_of_false (by decide) (not_awaits_of_head hm hrun))

theorem block_cons_iff {d : Nat} {closed : Bool}
    (hrun : Phase.between.run before = some (.block d))
    (hclosed : closed = true ↔ BehindBrace before) :
    Lexes before s (l :: ls) left ↔
      ∃ rest, nextToken closed s = .found l.gap l.token rest ∧
        Lexes (before ++ [l]) rest ls left :=
  cons_iff (hclosed.trans (awaits_block_iff hrun).symm)

end Lexes

end StylePrune
