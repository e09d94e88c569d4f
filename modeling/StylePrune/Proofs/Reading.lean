import StylePrune.Proofs.Lexing

/-!
# Reading by the grammar

The reader of statements goes from token to token, skips blanks and keeps the text of heads and
bodies. Here it is compared with the grammar: a text is read as statements exactly when it is lexed
into tokens that have a derivation, and the statements are those of that derivation
(`Statement.readAll_eq_ok_iff_derives`).

One direction follows the derivation: each reader, at a place where lexemes are lexed, takes their
text (`readHead_of_lexes`, `readBody_filling`, `readFrom_of_lexes`). The other one follows the
phases: where a reader succeeds, lexemes lead from the phase it begins in to the one behind it
(`lexes_of_readHead`, `lexes_of_readBody`, `lexes_of_readFrom`). Since the readers await markers
where lexing does, both are about the same tokens.
-/

namespace StylePrune

open Lexeme (textOf)

namespace Statement

variable {before : List Lexeme} {last s rest gap : Text}

/-! ## Heads -/

section

variable {m : Phase} (hm : m.isHead = true)
include hm

/-- A head is read where one is lexed. Induction on its tokens. -/
theorem readHead_of_lexes (hrun : Phase.between.run before = some m) {tail : List Lexeme}
    (htail : ∀ l ∈ tail, l.token.isPlain = true) {stop : HeadEnd} {x : Char} {r : Text}
    (hstop : stop.remaining = x :: r)
    (h : Lexes before s (tail ++ [⟨gap, Token.separator x⟩]) r) :
    readHead last s = .ok (textOf tail ++ gap, stop) := by
  induction tail generalizing before last s with
  | nil =>
    obtain ⟨r', hnext, hr'⟩ := (Lexes.head_cons_iff hm hrun).1 h
    cases hr'
    exact readHead_stop hstop hnext
  | cons l tail ih =>
    obtain ⟨hl, htail⟩ := List.forall_mem_cons.1 htail
    obtain ⟨rest, hnext, hrest⟩ := (Lexes.head_cons_iff hm hrun).1 h
    have hrun' := Phase.run_snoc hrun (Phase.step_plain (Phase.isInside_of_isHead hm) hl)
    rw [readHead_plain hnext hl, ih hrun' htail hrest, Text.prepend, Lexeme.textOf_cons,
      List.append_assoc l.text]
    rfl

/-- Where a head is read, one is lexed. -/
theorem lexes_of_readHead (hrun : Phase.between.run before = some m) {head : Text} {stop : HeadEnd}
    (h : readHead last s = .ok (head, stop)) :
    ∃ (tail : List Lexeme) (gap : Text) (x : Char) (r : Text),
      (∀ l ∈ tail, l.token.isPlain = true) ∧ stop.remaining = x :: r ∧
        Lexes before s (tail ++ [⟨gap, Token.separator x⟩]) r := by
  fun_induction readHead last s generalizing before head with
  | case1 | case2 | case5 => simp at h
  | case3 last s gap rest hs =>
    cases h
    exact ⟨[], gap, '{', rest, by simp, rfl,
      (Lexes.head_cons_iff hm hrun).2 ⟨rest, hs, .nil _ _⟩⟩
  | case4 last s gap rest hs =>
    cases h
    exact ⟨[], gap, ';', rest, by simp, rfl,
      (Lexes.head_cons_iff hm hrun).2 ⟨rest, hs, .nil _ _⟩⟩
  | case6 last s gap token rest hopen hsemi hclose hs ih =>
    obtain ⟨u, hu, rfl⟩ := Text.prepend_eq_ok_iff.1 h
    have ht : token.isPlain = true := nextToken_plain hs hopen hclose hsemi
    have hstep := Phase.step_plain (Phase.isInside_of_isHead hm) ht
    obtain ⟨tail, gap', x, r, htail, hstop, hlexes⟩ :=
      ih (Phase.run_snoc hrun (l := ⟨gap, token⟩) hstep) hu
    exact ⟨⟨gap, token⟩ :: tail, gap', x, r, List.forall_mem_cons.2 ⟨ht, htail⟩, hstop,
      (Lexes.head_cons_iff hm hrun).2 ⟨rest, hs, hlexes⟩⟩

end

/-! ## Blocks -/

/-- A filling is read where one is lexed, and behind it the block is read on. Induction on the
filling. -/
theorem readBody_filling (f : Filling) {d : Nat} {closed : Bool}
    (hrun : Phase.between.run before = some (.block d))
    (hclosed : closed = true ↔ BehindBrace before) {left : Text}
    (h : Lexes before s f.lexemes left) :
    ∃ closed' last', (closed' = true ↔ BehindBrace (before ++ f.lexemes)) ∧
      readBody d closed last s =
        Text.prepend (textOf f.lexemes) (readBody d closed' last' left) := by
  induction f generalizing d before closed last s left with
  | done =>
    cases h
    exact ⟨closed, last, by simpa [Filling.lexemes] using hclosed, (Text.prepend_nil _).symm⟩
  | token l hl next ih =>
    obtain ⟨rest, hnext, hrest⟩ := (Lexes.block_cons_iff hrun hclosed).1 h
    have hplain : l.token.isPlain = true ∨ l.token = .semicolon := by
      simpa [Token.isFilling] using hl
    have hopen : false = true ↔ BehindBrace (before ++ [l]) := by
      rw [behindBrace_append]
      refine iff_of_false (by simp) fun hbrace => ?_
      rw [hbrace] at hl
      cases hl
    obtain ⟨closed', last', hclosed', hbody⟩ :=
      ih (Phase.run_snoc hrun (Phase.step_filling hl)) hopen hrest
    refine ⟨closed', last', by simpa [Filling.lexemes] using hclosed', ?_⟩
    rw [readBody_token hnext hplain, hbody, Text.prepend_prepend]
    rfl
  | block opening inner closing next ihinner ihnext =>
    obtain ⟨rest, hopen, hrest⟩ := (Lexes.block_cons_iff hrun hclosed).1 h
    obtain ⟨behind, hinner, hbehind⟩ := Lexes.append_iff.1 hrest
    have hrunOpen := Phase.run_snoc hrun (l := ⟨opening, .openBrace⟩) (k := .block (d + 1)) rfl
    obtain ⟨closed₁, last₁, hclosed₁, hbody₁⟩ :=
      @ihinner _ ('{' :: rest) _ _ false hrunOpen (by simp [behindBrace_append]) _ hinner
    -- the brace behind the inner block is read at the depth of that block
    have hrunInner : Phase.between.run (before ++ [⟨opening, .openBrace⟩] ++ inner.lexemes) =
        some (.block (d + 1)) := by
      rw [Phase.run_append_of_run hrunOpen, Phase.run_filling]
    obtain ⟨rest', hclose, hnext⟩ := (Lexes.block_cons_iff hrunInner hclosed₁).1 hbehind
    have hrunClose := Phase.run_snoc hrunInner (l := ⟨closing, .closeBrace⟩) (k := .block d) rfl
    obtain ⟨closed₂, last₂, hclosed₂, hbody₂⟩ :=
      @ihnext _ ('}' :: rest') _ _ true hrunClose
        (iff_of_true rfl (behindBrace_append.2 rfl)) _ hnext
    refine ⟨closed₂, last₂, by simpa [Filling.lexemes] using hclosed₂, ?_⟩
    rw [readBody_open hopen, hbody₁, readBody_close hclose, hbody₂]
    simp [Text.prepend_prepend, Filling.lexemes, Lexeme.text, Token.text]

/-- A body is read where one is lexed. -/
theorem readBody_of_lexes {f : Filling} {closed : Bool}
    (hrun : Phase.between.run before = some (.block 0))
    (hclosed : closed = true ↔ BehindBrace before)
    (h : Lexes before s (f.lexemes ++ [⟨gap, .closeBrace⟩]) rest) :
    readBody 0 closed last s = .ok (textOf f.lexemes ++ gap, rest) := by
  obtain ⟨left, hfilling, hbrace⟩ := Lexes.append_iff.1 h
  obtain ⟨closed', last', hclosed', hbody⟩ := readBody_filling f hrun hclosed hfilling
  have hrun' : Phase.between.run (before ++ f.lexemes) = some (.block 0) := by
    rw [Phase.run_append_of_run hrun, Phase.run_filling]
  obtain ⟨rest', hnext, hrest⟩ := (Lexes.block_cons_iff hrun' hclosed').1 hbrace
  cases hrest
  rw [hbody, readBody_end hnext, Text.prepend]

/-- A token in a block and a way out behind it are a way out. -/
theorem exists_out {d : Nat} {closed : Bool} {l : Lexeme} {m : Phase} {r : Text}
    (hrun : Phase.between.run before = some (.block d))
    (hclosed : closed = true ↔ BehindBrace before)
    (hnext : nextToken closed s = .found l.gap l.token r)
    (hstep : Phase.step (.block d) l.token = some m)
    (h : ∃ ls, Lexes (before ++ [l]) r ls rest ∧ m.run ls = some .between) :
    ∃ ls, Lexes before s ls rest ∧ (Phase.block d).run ls = some .between := by
  obtain ⟨ls, hls, hout⟩ := h
  exact ⟨l :: ls, (Lexes.block_cons_iff hrun hclosed).2 ⟨r, hnext, hls⟩,
    by rw [Phase.run_cons hstep, hout]⟩

/-- Where a body is read, the lexemes lead out of the block. -/
theorem lexes_of_readBody {d : Nat} {closed : Bool} {body : Text}
    (hrun : Phase.between.run before = some (.block d))
    (hclosed : closed = true ↔ BehindBrace before)
    (h : readBody d closed last s = .ok (body, rest)) :
    ∃ ls, Lexes before s ls rest ∧ (Phase.block d).run ls = some .between := by
  fun_induction readBody d closed last s generalizing before body with
  | case1 | case2 | case6 | case7 => simp at h
  | case3 closed last s gap rest hs =>
    cases h
    exact exists_out hrun hclosed (l := ⟨gap, .closeBrace⟩) hs rfl ⟨[], .nil _ _, rfl⟩
  | case4 closed last s gap rest hs depth ih =>
    obtain ⟨u, hu, -⟩ := Text.prepend_eq_ok_iff.1 h
    have hrun' := Phase.run_snoc hrun (l := ⟨gap, .closeBrace⟩) (k := .block depth) rfl
    exact exists_out hrun hclosed hs rfl (ih hrun' (by simp [behindBrace_append]) hu)
  | case5 depth closed last s gap rest hs ih =>
    obtain ⟨u, hu, -⟩ := Text.prepend_eq_ok_iff.1 h
    have hrun' := Phase.run_snoc hrun (l := ⟨gap, .openBrace⟩) (k := .block (depth + 1)) rfl
    exact exists_out hrun hclosed hs rfl (ih hrun' (by simp [behindBrace_append]) hu)
  | case8 depth closed last s gap token rest hclose hopen hcdo hcdc hs ih =>
    obtain ⟨u, hu, -⟩ := Text.prepend_eq_ok_iff.1 h
    have htoken : token.isFilling = true := Token.isFilling_of_ne hclose hopen hcdo hcdc
    have hstep := Phase.step_filling (d := depth) htoken
    have hrun' := Phase.run_snoc hrun (l := ⟨gap, token⟩) hstep
    exact exists_out hrun hclosed hs hstep
      (ih hrun' (by simpa [behindBrace_append] using hclose) hu)

/-! ## Statements -/

section

variable {m : Phase} (hm : m.isHead = true)
  (hrun : Phase.between.run before = some m)
include hm hrun

/-- Behind the first token of a rule, or the keyword of an at-rule, the head and the block are read
where they are lexed. -/
theorem readHead_block_of_lexes (last : Text) {tail : Tail} {b : Block}
    (h : Lexes before s (tail.lexemes ++ b.lexemes) rest) :
    ∃ r, readHead last s = .ok (textOf tail.lexemes ++ b.opening, .block r) ∧
      readBody 0 false ('{' :: r) r = .ok (b.body, rest) := by
  have happ : tail.lexemes ++ b.lexemes = tail.lexemes ++ [⟨b.opening, .openBrace⟩] ++
      (b.filling.lexemes ++ [⟨b.closing, .closeBrace⟩]) := by simp [Block.lexemes]
  rw [happ] at h
  obtain ⟨r, hhead, hbody⟩ := Lexes.append_iff.1 h
  refine ⟨r, readHead_of_lexes hm hrun tail.plain rfl hhead, readBody_of_lexes ?_ ?_ hbody⟩
  · rw [Phase.run_append_of_run hrun, Phase.run_headOpen hm tail.plain]
  · rw [← List.append_assoc, behindBrace_append]
    simp

/-- Where a head is read up to a brace, lexemes lead into the block that the brace opens. -/
theorem lexes_of_readHead_open {head r : Text} (hhead : readHead last s = .ok (head, .block r)) :
    ∃ ls, Lexes before s ls r ∧ m.run ls = some (.block 0) ∧ ¬ BehindBrace (before ++ ls) := by
  obtain ⟨tail, gap, x, r', htail, hstop, hlexes⟩ := lexes_of_readHead hm hrun hhead
  cases hstop
  refine ⟨_, hlexes, Phase.run_headOpen hm htail gap, ?_⟩
  rw [← List.append_assoc, behindBrace_append]
  intro hbrace
  cases hbrace

/-- Where a head and a block are read, lexemes lead out of them. -/
theorem lexes_of_readHead_block {head r body : Text}
    (hhead : readHead last s = .ok (head, .block r))
    (hbody : readBody 0 false ('{' :: r) r = .ok (body, rest)) :
    ∃ ls, Lexes before s ls rest ∧ m.run ls = some .between := by
  obtain ⟨opening, hlexes, hopen, hbrace⟩ := lexes_of_readHead_open hm hrun hhead
  have hrunBlock : Phase.between.run (before ++ opening) = some (.block 0) := by
    rw [Phase.run_append_of_run hrun, hopen]
  obtain ⟨ls, hls, hout⟩ :=
    lexes_of_readBody hrunBlock (iff_of_false (by decide) hbrace) hbody
  exact ⟨opening ++ ls, Lexes.append_iff.2 ⟨r, hlexes, hls⟩,
    by rw [Phase.run_append_of_run hopen, hout]⟩

end

/-- Where a rule is read, lexemes lead out of it. -/
theorem lexes_of_readRule {leading first : Text} {st : Statement}
    (hrun : Phase.between.run before = some .ruleHead)
    (h : readRule leading first s = .ok (st, rest)) :
    ∃ ls, Lexes before s ls rest ∧ Phase.ruleHead.run ls = some .between := by
  unfold readRule at h
  split at h
  · cases h
  · cases h
  · rename_i head r hhead
    split at h
    · cases h
    · rename_i body r' hbody
      cases h
      exact lexes_of_readHead_block rfl hrun hhead hbody

/-- Where an at-rule is read, lexemes lead out of it. -/
theorem lexes_of_readAtRule {leading keyword : Text} {st : Statement}
    (hrun : Phase.between.run before = some .atRuleHead)
    (h : readAtRule leading keyword s = .ok (st, rest)) :
    ∃ ls, Lexes before s ls rest ∧ Phase.atRuleHead.run ls = some .between := by
  unfold readAtRule at h
  split at h
  · cases h
  · rename_i head r hhead
    cases h
    obtain ⟨tail, gap, x, r', htail, hstop, hlexes⟩ := lexes_of_readHead rfl hrun hhead
    cases hstop
    refine ⟨_, hlexes, ?_⟩
    rw [Phase.run_append_of_run (Phase.run_tail rfl htail)]
    rfl
  · rename_i head r hhead
    split at h
    · cases h
    · rename_i body r' hbody
      cases h
      exact lexes_of_readHead_block rfl hrun hhead hbody

/-! ## Stylesheets -/

section

variable (hrun : Phase.between.run before = some .between)
include hrun

/-- What is read from a text that a phrase is lexed from: the statement that the phrase is, or a
stray token to be skipped, and then the rest. -/
theorem readFrom_phrase {skipped : Text} (p : Phrase) (h : Lexes before s p.lexemes rest) :
    readFrom skipped s =
      match p.statement? skipped.reverse with
      | none => readFrom ((textOf p.lexemes).reverse ++ skipped) rest
      | some st => cons st (readFrom [] rest) := by
  cases p with
  | stray l hl =>
    obtain ⟨r, hnext, ⟨⟩⟩ := (Lexes.between_cons_iff hrun).1 h
    have hskip : readToken (skipped.reverse ++ l.gap) l.token rest =
        readFrom (skipped.reverse ++ l.gap ++ l.token.text).reverse rest := by
      cases ht : l.token <;> rw [ht] at hl <;> first | rfl | cases hl
    rw [readFrom_found hnext, hskip]
    simp [Phrase.statement?, Phrase.lexemes, Lexeme.text]
  | comment gap t =>
    obtain ⟨r, hnext, ⟨⟩⟩ := (Lexes.between_cons_iff hrun).1 h
    rw [readFrom_found hnext]
    rfl
  | rule first hfirst tail block =>
    obtain ⟨r, hnext, hr⟩ := (Lexes.between_cons_iff hrun).1 h
    obtain ⟨r', hhead, hbody⟩ := readHead_block_of_lexes rfl
      (Phase.run_snoc hrun (Phase.step_startsRule hfirst)) (first.token.text ++ r) hr
    have hrule : readRule (skipped.reverse ++ first.gap) first.token.text r =
        .ok (.rule (skipped.reverse ++ first.gap)
          (first.token.text ++ (textOf tail.lexemes ++ block.opening)) block.body, rest) := by
      simp only [readRule, hhead, hbody]
    rw [readFrom_found hnext, readToken_rule hfirst hrule]
    rfl
  | atRule gap keyword tail block =>
    obtain ⟨r, hnext, hr⟩ := (Lexes.between_cons_iff hrun).1 h
    obtain ⟨r', hhead, hbody⟩ := readHead_block_of_lexes rfl
      (Phase.run_snoc hrun rfl) (keyword ++ r) hr
    have hrule : readAtRule (skipped.reverse ++ gap) keyword r =
        .ok (.atRule (skipped.reverse ++ gap) keyword (textOf tail.lexemes ++ block.opening)
          (some block.body), rest) := by
      simp only [readAtRule, hhead, hbody]
    rw [readFrom_found hnext]
    simp only [readToken, hrule, Phrase.statement?]
  | blockless gap keyword tail stop =>
    obtain ⟨r, hnext, hr⟩ := (Lexes.between_cons_iff hrun).1 h
    have hhead : readHead (keyword ++ r) r = .ok (textOf tail.lexemes ++ stop, .semicolon rest) :=
      readHead_of_lexes rfl (Phase.run_snoc hrun rfl) tail.plain rfl hr
    have hrule : readAtRule (skipped.reverse ++ gap) keyword r =
        .ok (.atRule (skipped.reverse ++ gap) keyword (textOf tail.lexemes ++ stop) none,
          rest) := by
      simp only [readAtRule, hhead]
    rw [readFrom_found hnext]
    simp only [readToken, hrule, Phrase.statement?]

/-- A stylesheet is read where one is lexed, and its statements are those of the derivation.
Induction on the phrases. -/
theorem readFrom_of_lexes {skipped : Text} (d : Derivation) (h : Lexes before s d.lexemes gap)
    (hblank : ∀ c ∈ gap, Text.isBlank c = true) :
    readFrom skipped s = .ok (d.statements skipped.reverse gap) := by
  induction d generalizing before skipped s with
  | nil =>
    cases h
    exact readFrom_finished (nextToken_eq_finished_iff.2 ⟨rfl, hblank⟩)
  | cons p d ih =>
    obtain ⟨r, hp, hd⟩ := Lexes.append_iff.1 h
    have hrun' : Phase.between.run (before ++ p.lexemes) = some .between := by
      rw [Phase.run_append_of_run hrun, Phase.run_phrase]
    rw [readFrom_phrase hrun p hp, Derivation.statements]
    cases p.statement? skipped.reverse with
    | none =>
      simp only [ih hrun' hd]
      simp
    | some st =>
      simp only [ih hrun' hd]
      rfl

/-- Where statements are read behind a token, that token and further lexemes lead to the next
phrase, and statements are read from there. -/
theorem lexes_of_readToken {lead : Text} {t : Token} {found : List Statement × Text}
    (h : readToken lead t rest = .ok found) :
    ∃ (m : Phase) (ls : List Lexeme) (rest' skipped : Text) (found' : List Statement × Text),
      Phase.step .between t = some m ∧ Lexes (before ++ [⟨gap, t⟩]) rest ls rest' ∧
        m.run ls = some .between ∧ readFrom skipped rest' = .ok found' := by
  have hbegin : ∀ {m : Phase}, Phase.step .between t = some m →
      Phase.between.run (before ++ [⟨gap, t⟩]) = some m :=
    fun hstep => Phase.run_snoc hrun hstep
  cases t with
  | comment t =>
    obtain ⟨sts, hread, -⟩ := cons_eq_ok_iff.1 h
    exact ⟨_, [], _, _, _, rfl, .nil _ _, rfl, hread⟩
  | semicolon | openMarker | closeMarker => exact ⟨_, [], _, _, _, rfl, .nil _ _, rfl, h⟩
  | openBrace | closeBrace => cases h
  | atKeyword keyword =>
    simp only [readToken] at h
    split at h
    · cases h
    · rename_i hst
      obtain ⟨sts, hread, -⟩ := cons_eq_ok_iff.1 h
      obtain ⟨ls, hls, hout⟩ := lexes_of_readAtRule (hbegin rfl) hst
      exact ⟨_, ls, _, _, _, rfl, hls, hout, hread⟩
  | string | slash | chunk =>
    simp only [readToken] at h
    split at h
    · cases h
    · rename_i hst
      obtain ⟨sts, hread, -⟩ := cons_eq_ok_iff.1 h
      obtain ⟨ls, hls, hout⟩ := lexes_of_readRule (hbegin rfl) hst
      exact ⟨_, ls, _, _, _, rfl, hls, hout, hread⟩

/-- Where a stylesheet is read, lexemes lead through it. Induction on the length of the text, which
every phrase shortens. -/
theorem lexes_of_readFrom {skipped : Text} {found : List Statement × Text}
    (h : readFrom skipped s = .ok found) :
    ∃ ls gap, Lexes before s ls gap ∧ (∀ c ∈ gap, Text.isBlank c = true) ∧
      Phase.between.run ls = some .between := by
  induction hlen : s.length using Nat.strong_induction_on generalizing before skipped s found with
  | _ k ih =>
    rcases hnext : nextToken true s with gap | rest | ⟨gap, t, rest⟩
    · obtain ⟨-, hblank⟩ := nextToken_eq_finished_iff.1 hnext
      exact ⟨[], s, .nil _ _, hblank, rfl⟩
    · rw [readFrom_stuck hnext] at h
      cases h
    · rw [readFrom_found hnext] at h
      obtain ⟨m, ls, rest', skipped', found', hstep, hls, hout, hread⟩ :=
        @lexes_of_readToken _ _ gap hrun _ _ _ h
      have hphrase : Phase.between.run (⟨gap, t⟩ :: ls) = some .between := by
        rw [Phase.run_cons hstep, hout]
      have hrun' : Phase.between.run (before ++ ⟨gap, t⟩ :: ls) = some .between := by
        rw [Phase.run_append_of_run hrun, hphrase]
      have hlexes : Lexes before s (⟨gap, t⟩ :: ls) rest' :=
        (Lexes.between_cons_iff hrun).2 ⟨rest, hnext, hls⟩
      have hlt : rest'.length < k :=
        hlen ▸ hls.length_le.trans_lt (nextToken_length_lt hnext)
      obtain ⟨more, gap', hmore, hblank, hmoreRun⟩ := ih rest'.length hlt hrun' hread rfl
      exact ⟨_, gap', Lexes.append_iff.2 ⟨rest', hlexes, hmore⟩, hblank,
        by rw [Phase.run_append_of_run hphrase, hmoreRun]⟩

end

/-- The statements of a text are those of its derivation, and there are none without one. -/
theorem readAll_eq_ok_iff_derives {source trailing : Text} {sts : List Statement} :
    readAll source = .ok (sts, trailing) ↔
      ∃ ls gap, ∃ d : Derivation, Lexed source ls gap ∧ d.lexemes = ls ∧
        d.statements [] gap = (sts, trailing) := by
  have hread : ∀ {ls gap} {d : Derivation}, Lexed source ls gap → d.lexemes = ls →
      readFrom [] source = .ok (d.statements [] gap) := by
    rintro ls gap d hls rfl
    exact readFrom_of_lexes rfl d hls.lexes hls.blank
  rw [readAll_eq_ok_iff]
  constructor
  · intro h
    obtain ⟨ls, gap, hls, hblank, hrun⟩ := @lexes_of_readFrom [] _ rfl _ _ h
    obtain ⟨d, hd⟩ := Phase.run_between_iff.1 hrun
    have hsts := hread ⟨hls, hblank⟩ hd
    rw [h] at hsts
    exact ⟨ls, gap, d, ⟨hls, hblank⟩, hd, (Except.ok.inj hsts).symm⟩
  · rintro ⟨ls, gap, d, hls, hd, hsts⟩
    rw [hread hls hd, hsts]

end Statement

end StylePrune
