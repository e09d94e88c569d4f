import StylePrune.Proofs.Reading
import StylePrune.Stylesheet.Parse

/-!
# What the grammar accepts

The grammar accepts a text exactly when it is lexed to its end into tokens that have a derivation.
Lexing and derivation are unique, and the derivation gives the statements. Some faults cannot be
mended by what stands around them (`Broken`): no text with one of them has a derivation.

* **`Stylesheet.parse_accepts`** — which texts are accepted, as what, and some that are not.
-/

namespace StylePrune

/-! ## Broken texts -/

/-- What makes a text unreadable wherever it stands. -/
inductive Broken (source : Text) : Prop where
  /-- A string is not closed. -/
  | openString {before : List Lexeme} {gap s : Text} {q : Char}
      (h : Lexes [] source before (gap ++ q :: s)) (hgap : ∀ c ∈ gap, Text.isBlank c = true)
      (hq : q = '\x22' ∨ q = '\x27')
      (hopen : ∀ body rest, Escaped (isStringChar q) body → s ≠ body ++ q :: rest)
  /-- A comment is not closed. -/
  | openComment {before : List Lexeme} {gap s : Text}
      (h : Lexes [] source before (gap ++ '/' :: '*' :: s))
      (hgap : ∀ c ∈ gap, Text.isBlank c = true) (hopen : ¬ ['*', '/'] <:+: s)
  /-- A block is not closed. -/
  | openBlock {ls : List Lexeme} {gap : Text} (h : Lexed source ls gap)
      (hmore : Lexeme.closes ls < Lexeme.opens ls)
  /-- A brace closes no block. -/
  | strayBrace {before : List Lexeme} {rest : Text} (h : Lexes [] source before rest)
      (hmore : Lexeme.opens before < Lexeme.closes before)
  /-- A semicolon stands in the head of a rule. -/
  | cutRule {d : Derivation} {first : Lexeme} {tail : Tail} {gap rest : Text}
      (hfirst : first.token.startsRule = true)
      (h : Lexes [] source (d.lexemes ++ first :: (tail.lexemes ++ [⟨gap, .semicolon⟩])) rest)
  /-- The text ends in the head of an at-rule. -/
  | openAtRule {d : Derivation} {tail : Tail} {keyword gap gap' : Text}
      (h : Lexed source (d.lexemes ++ ⟨gap, .atKeyword keyword⟩ :: tail.lexemes) gap')

/-- No token begins with a string that is not closed. -/
theorem Token.readPlain?_openString {q : Char} {s : Text} (hq : q = '\x22' ∨ q = '\x27')
    (hopen : ∀ body rest, Escaped (isStringChar q) body → s ≠ body ++ q :: rest) :
    readPlain? (q :: s) = none := by
  have hclose : closeString false q s = none := by
    rw [Option.eq_none_iff_forall_ne_some]
    rintro ⟨body, rest⟩ hbody
    obtain ⟨b, rfl, rfl, hb⟩ := (closeString_eq_some_iff (ne_backslash_of_quote hq)).1 hbody
    exact hopen b rest hb (by simp)
  rw [readPlain?_quote hq, hclose]
  rfl

/-- No token begins with a comment that is not closed. -/
theorem Token.readPlain?_openComment {s : Text} (hopen : ¬ ['*', '/'] <:+: s) :
    readPlain? ('/' :: '*' :: s) = none := by
  have hclose : closeComment s = none := by
    rw [Option.eq_none_iff_forall_ne_some]
    rintro ⟨body, rest⟩ hbody
    obtain ⟨b, rfl, rfl, -⟩ := closeComment_eq_some_iff.1 hbody
    exact hopen ⟨b, rest, rfl⟩
  show (closeComment s).map _ = none
  rw [hclose]
  rfl

/-- Nothing is lexed over a place where no token begins. -/
theorem Lexes.not_over {before ls : List Lexeme} {gap v left : Text} {c : Char}
    (hgap : ∀ d ∈ gap, Text.isBlank d = true) (hc : Text.isBlank c = false)
    (hmark : ¬ MarkerFirst (c :: v)) (hread : Token.readPlain? (c :: v) = none)
    (hleft : ∀ d ∈ left, Text.isBlank d = true) : ¬ Lexes before (gap ++ c :: v) ls left := by
  intro h
  cases ls with
  | nil =>
    rw [Lexes.nil_iff.1 h] at hleft
    rw [hleft c (by simp)] at hc
    cases hc
  | cons l ls =>
    obtain ⟨markers, hmarkers⟩ := exists_markers before
    obtain ⟨rest, hnext, -⟩ := (cons_iff hmarkers).1 h
    have hnone : Token.read? markers (c :: v) = none := by
      rw [Token.read?_eq_readPlain? fun hboth => hmark hboth.2, hread]
    have hdrop : (gap ++ c :: v).dropWhile Text.isBlank = c :: v := by
      rw [List.dropWhile_append_of_pos hgap, List.dropWhile_cons_of_neg (by simp [hc])]
    simp [nextToken, hdrop, hnone] at hnext

namespace Broken

variable {source : Text}

/-- A broken text has no derivation. -/
theorem not_derives {gap : Text} {d : Derivation} (h : Broken source) :
    ¬ Lexed source d.lexemes gap := by
  intro hls
  have hrun := Phase.run_derivation d
  have hprefix : ∀ {before : List Lexeme} {rest : Text}, Lexes [] source before rest →
      ∃ bs m, d.lexemes = before ++ bs ∧ Lexes before rest bs gap ∧
        Phase.between.run before = some m := by
    intro before rest hbefore
    obtain ⟨bs, hbs, hrest⟩ := hls.lexes.extend hls.blank hbefore
    rw [hbs, Phase.run_append] at hrun
    obtain ⟨m, hm, -⟩ := Option.bind_eq_some_iff.1 hrun
    exact ⟨bs, m, hbs, hrest, hm⟩
  cases h with
  | openString h hgap hq hopen =>
    obtain ⟨bs, -, -, hrest, -⟩ := hprefix h
    refine Lexes.not_over hgap ?_ ?_ (Token.readPlain?_openString hq hopen) hls.blank hrest
    · rcases hq with rfl | rfl <;> rfl
    · rcases hq with rfl | rfl <;> simp [MarkerFirst]
  | openComment h hgap hopen =>
    obtain ⟨bs, -, -, hrest, -⟩ := hprefix h
    exact Lexes.not_over hgap rfl (by simp [MarkerFirst]) (Token.readPlain?_openComment hopen)
      hls.blank hrest
  | openBlock h hmore =>
    obtain ⟨rfl, -⟩ := hls.unique h
    have hdepth := Phase.depth_run hrun
    omega
  | strayBrace h hmore =>
    obtain ⟨-, m, -, -, hm⟩ := hprefix h
    have hdepth := Phase.depth_run hm
    simp only [Phase.depth] at hdepth
    omega
  | @cutRule d' first tail _ _ hfirst h =>
    obtain ⟨-, m, -, -, hm⟩ := hprefix h
    rw [Phase.run_append_of_run (Phase.run_derivation d'),
      Phase.run_cons (Phase.step_startsRule hfirst),
      Phase.run_append_of_run (Phase.run_tail rfl tail.plain)] at hm
    cases hm
  | @openAtRule d' tail keyword _ _ h =>
    obtain ⟨heq, -⟩ := hls.unique h
    have hstep : Phase.step .between (.atKeyword keyword) = some .atRuleHead := rfl
    rw [heq, Phase.run_append_of_run (Phase.run_derivation d'), Phase.run_cons hstep,
      Phase.run_tail rfl tail.plain] at hrun
    cases hrun

end Broken

/-! ## Acceptance -/

namespace Stylesheet

/-- The grammar accepts the texts that are lexed into tokens with a derivation, and no others. The
derivation is unique and gives the statements, and a broken text is refused. -/
theorem parse_accepts (source : Text) :
    ((∃ outline, Outline.parse source = .ok outline) ↔
        ∃ ls gap, ∃ d : Derivation, Lexed source ls gap ∧ d.lexemes = ls) ∧
      (∀ ls gap, ∀ d : Derivation, Lexed source ls gap → d.lexemes = ls →
        Statement.readAll source = .ok (d.statements [] gap) ∧
          (∀ ls' gap', Lexed source ls' gap' → ls' = ls ∧ gap' = gap) ∧
            ∀ d' : Derivation, d'.lexemes = ls → d' = d) ∧
      (Broken source → ∃ e, parse source = .error (.grammar e)) := by
  have hread : ∀ {ls gap} {d : Derivation}, Lexed source ls gap → d.lexemes = ls →
      Statement.readAll source = .ok (d.statements [] gap) :=
    fun hls hd => Statement.readAll_eq_ok_iff_derives.2 ⟨_, _, _, hls, hd, rfl⟩
  have hderives : ∀ {found}, Statement.readAll source = .ok found →
      ∃ ls gap, ∃ d : Derivation, Lexed source ls gap ∧ d.lexemes = ls := by
    intro found h
    obtain ⟨ls, gap, d, hls, hd, -⟩ := Statement.readAll_eq_ok_iff_derives.1 h
    exact ⟨ls, gap, d, hls, hd⟩
  refine ⟨⟨?_, ?_⟩, ?_, ?_⟩
  · rintro ⟨outline, h⟩
    rw [Outline.parse] at h
    split at h
    · cases h
    · rename_i hfound
      exact hderives hfound
  · rintro ⟨ls, gap, d, hls, hd⟩
    rw [Outline.parse, hread hls hd]
    exact ⟨_, rfl⟩
  · intro ls gap d hls hd
    refine ⟨hread hls hd, fun ls' gap' hls' => hls'.unique hls, fun d' hd' => ?_⟩
    exact Derivation.lexemes_injective (hd'.trans hd.symm)
  · intro hbroken
    cases hfound : Statement.readAll source with
    | ok found =>
      obtain ⟨ls, gap, d, hls, rfl⟩ := hderives hfound
      exact absurd hls hbroken.not_derives
    | error e => exact ⟨e, by rw [parse, Outline.parse, hfound]⟩

/-- A marker before a rule is a token of its own, and a semicolon in the head of one is refused. -/
theorem parse_accepts_marker :
    let ls : List Lexeme :=
      [⟨[], .openMarker⟩, ⟨[], .chunk ['a']⟩, ⟨[' '], .openBrace⟩, ⟨[], .closeBrace⟩]
    let d : Derivation :=
      [.stray ⟨[], .openMarker⟩ rfl, .rule ⟨[], .chunk ['a']⟩ rfl ⟨[], by simp⟩ ⟨[' '], .done, []⟩]
    Lexed "<!--a {}\n".toList ls ['\n'] ∧ d.lexemes = ls ∧
      Statement.readAll "<!--a {}\n".toList =
        .ok ([.rule "<!--".toList ['a', ' '] []], ['\n']) ∧
      Broken "a;".toList ∧ ∃ e, parse "a;".toList = .error (.grammar e) := by
  intro ls d
  have hlexes : Lexes [] "<!--a {}\n".toList ls ['\n'] := by
    refine (Lexes.between_cons_iff rfl).2 ⟨"a {}\n".toList, by decide, ?_⟩
    refine (Lexes.between_cons_iff rfl).2 ⟨" {}\n".toList, by decide, ?_⟩
    refine (Lexes.head_cons_iff (m := .ruleHead) rfl rfl).2 ⟨['}', '\n'], by decide, ?_⟩
    have hopen : false = true ↔ BehindBrace
        ([] ++ [⟨[], .openMarker⟩] ++ [⟨[], .chunk ['a']⟩] ++ [⟨[' '], .openBrace⟩]) := by
      simp [BehindBrace]
    exact (Lexes.block_cons_iff rfl hopen).2 ⟨['\n'], by decide, .nil _ _⟩
  have hlexed : Lexed "<!--a {}\n".toList ls ['\n'] := ⟨hlexes, List.forall_mem_singleton.2 rfl⟩
  have hcut : Lexes [] "a;".toList ([] ++ [⟨[], .chunk ['a']⟩, ⟨[], .semicolon⟩]) [] := by
    refine (Lexes.between_cons_iff rfl).2 ⟨";".toList, by decide, ?_⟩
    exact (Lexes.head_cons_iff (m := .ruleHead) rfl rfl).2 ⟨[], by decide, .nil _ _⟩
  have hbroken : Broken "a;".toList := @Broken.cutRule _ [] _ ⟨[], by simp⟩ _ _ rfl hcut
  exact ⟨hlexed, rfl, ((parse_accepts _).2.1 ls _ d hlexed rfl).1, hbroken,
    (parse_accepts _).2.2 hbroken⟩

end Stylesheet

end StylePrune
