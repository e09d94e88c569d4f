import StylePrune.Proofs.Blocks

/-!
# Which statements are read

A statement is *readable* when its pieces could have been cut by the reader: a rule begins as
nothing else does, a keyword is as long as it can be, heads and blocks can be read character by
character. The reader gives readable statements only, and readable statements, written in a row, are
read as those statements again, whatever stands behind them (`Statement.readFrom_statement`).

* **`Statement.Readable`** — the pieces of a statement fit together.
* **`Statement.readFrom_eq_ok_iff`** — reading statements is the inverse of writing readable ones.
-/

namespace StylePrune

open Mode

/-! ## Pieces that were cut -/

/-- What was cut as a run is a run. -/
theorem Token.takeEscaped_self {isMember : Char → Bool} (hback : isMember '\\' = false)
    {s u rest : Text} (h : takeEscaped isMember s = (u, rest)) :
    takeEscaped isMember u = (u, []) := by
  fun_induction takeEscaped isMember s generalizing u rest with
  | case1 =>
    cases h
    rfl
  | case2 c r run behind heq ih =>
    cases h
    rw [takeEscaped.eq_2, ih heq]
  | case3 c r hne hc run behind heq ih =>
    cases h
    have hback' : c ≠ '\\' := by
      rintro rfl
      rw [hback] at hc
      cases hc
    rw [takeEscaped.eq_3 _ _ _ (fun _ _ h => absurd h hback'), if_pos hc, ih heq]
  | case4 =>
    cases h
    rfl

/-- How a rule may begin: with a character that is no blank, and as no comment, at-rule or marker
does. -/
structure RuleStart (head : Text) : Prop where
  first : ∃ c v, head = c :: v ∧ Text.isBlank c = false ∧ c ≠ '@'
  comment : ¬ ['/', '*'] <+: head
  marker : ¬ MarkerFirst head

/-- A keyword that ends where a head begins. -/
def KeywordEnds (keyword head : Text) : Prop :=
  ∃ k, keyword = '@' :: k ∧ k ≠ [] ∧ Token.takeEscaped Token.isKeywordChar k = (k, []) ∧
    ∀ c ∈ head.head?, Token.isKeywordChar c = false ∧ c ≠ '\\'

namespace Token

/-- A token with which a rule may begin. -/
def startsRule : Token → Bool
  | .string _ | .slash | .chunk _ => true
  | _ => false

theorem isPlain_of_startsRule {t : Token} (h : t.startsRule = true) : t.isPlain = true := by
  cases t with
  | string | slash | chunk => rfl
  | _ => cases h

/-- A token of a head begins a rule unless its text begins as a comment or an at-rule does. -/
theorem readPlain?_startsRule {s rest : Text} {t : Token} (h : readPlain? s = some (t, rest))
    (ht : t.isPlain = true) :
    t.startsRule = true ↔ s.head? ≠ some '@' ∧ ¬ ['/', '*'] <+: s := by
  cases cut_of_readPlain? h with
  | openBrace | closeBrace | semicolon => cases ht
  | comment | atKeyword => simp [startsRule]
  | slash hstar =>
    simp only [startsRule, true_iff]
    refine ⟨by simp, fun hpre => ?_⟩
    obtain ⟨r, hr⟩ := hpre
    cases hr
    exact hstar rfl
  | string hq =>
    rcases hq with rfl | rfl <;> simp [startsRule]
  | chunk hslash hat =>
    simp only [startsRule, true_iff]
    refine ⟨by simpa using hat, fun hpre => ?_⟩
    obtain ⟨r, hr⟩ := hpre
    cases hr
    exact hslash rfl

end Token

namespace Statement

/-- The pieces of a statement fit together. What leads it is left out. -/
inductive Readable : Statement → Prop where
  | comment (leading : Text) {body : Text} (hbody : closeComment body = some (body, [])) :
      Readable (.comment leading ('/' :: '*' :: body))
  | rule (leading : Text) {head body : Text} (hstart : RuleStart head) (hhead : Flat .fresh head)
      (hbody : Content body) : Readable (.rule leading head body)
  | atRule (leading : Text) {keyword head : Text} {body : Option Text}
      (hkeyword : KeywordEnds keyword head) (hhead : Flat .fresh head)
      (hbody : ∀ b ∈ body, Content b) : Readable (.atRule leading keyword head body)

/-! ## Reading a token after the other -/

/-- Reads on behind the first token of a text, with what stands before it. -/
def readToken (lead : Text) (t : Token) (rest : Text) :
    Except GrammarFault (List Statement × Text) :=
  match t with
  | .comment t => cons (.comment lead t) (readFrom [] rest)
  | .semicolon | .openMarker | .closeMarker => readFrom (lead ++ t.text).reverse rest
  | .openBrace => .error (.unexpected .openBrace ('{' :: rest))
  | .closeBrace => .error (.unexpected .closeBrace ('}' :: rest))
  | .atKeyword t =>
    match readAtRule lead t rest with
    | .error fault => .error fault
    | .ok (st, rest') => cons st (readFrom [] rest')
  | .string _ | .slash | .chunk _ =>
    match readRule lead t.text rest with
    | .error fault => .error fault
    | .ok (st, rest') => cons st (readFrom [] rest')

/-- Statements are read from the first token on. -/
theorem readFrom_found {skipped s gap rest : Text} {t : Token}
    (h : nextToken true s = .found gap t rest) :
    readFrom skipped s = readToken (skipped.reverse ++ gap) t rest := by
  rw [readFrom]
  split <;> rename_i heq <;> rw [h] at heq <;> cases heq
  · rfl
  · simp [readToken, Token.text]
  · simp [readToken, Token.text]
  · simp [readToken, Token.text]
  · rfl
  · rfl
  · simp only [readToken]
    split <;> rename_i hst <;> rw [hst]
  · rename_i hcomment hsemi hcdo hcdc hopen hclose hkeyword
    cases t with
    | comment t => exact absurd rfl (hcomment t)
    | semicolon => exact absurd rfl hsemi
    | openMarker => exact absurd rfl hcdo
    | closeMarker => exact absurd rfl hcdc
    | openBrace => exact absurd rfl hopen
    | closeBrace => exact absurd rfl hclose
    | atKeyword t => exact absurd rfl (hkeyword t)
    | string t | slash | chunk t =>
      simp only [readToken]
      split <;> rename_i hst <;> rw [hst]

theorem readFrom_finished {skipped s gap : Text} (h : nextToken true s = .finished gap) :
    readFrom skipped s = .ok ([], skipped.reverse ++ gap) := by
  rw [readFrom]
  split <;> rename_i heq <;> rw [h] at heq <;> cases heq
  rfl

theorem readFrom_stuck {skipped s rest : Text} (h : nextToken true s = .stuck rest) :
    readFrom skipped s = .error (.noToken rest) := by
  rw [readFrom]
  split <;> rename_i heq <;> rw [h] at heq <;> cases heq
  rfl

/-! ## Gaps are skipped -/

/-- Statements are read alike from two texts that begin with the same token, with the same text
before it. -/
theorem readFrom_congr {skipped skipped' s s' gap gap' rest : Text} {t : Token}
    (h : nextToken true s = .found gap t rest) (h' : nextToken true s' = .found gap' t rest)
    (hlead : skipped.reverse ++ gap = skipped'.reverse ++ gap') :
    readFrom skipped s = readFrom skipped' s' := by
  rw [readFrom_found h, readFrom_found h', hlead]

theorem nextToken_blank_cons {markers : Bool} {c : Char} (hc : Text.isBlank c = true) (s : Text) :
    nextToken markers (c :: s) =
      match nextToken markers s with
      | .finished gap => .finished (c :: gap)
      | .stuck rest => .stuck rest
      | .found gap t rest => .found (c :: gap) t rest := by
  unfold nextToken
  rw [List.dropWhile_cons_of_pos hc, List.takeWhile_cons_of_pos hc]
  rcases s.dropWhile Text.isBlank with _ | ⟨d, r⟩
  · rfl
  · simp only
    cases Token.read? markers (d :: r) <;> rfl

theorem readFrom_blank {skipped : Text} {c : Char} (hc : Text.isBlank c = true) (s : Text) :
    readFrom skipped (c :: s) = readFrom (c :: skipped) s := by
  have hnext := @nextToken_blank_cons true c hc s
  rcases h : nextToken true s with gap | rest | ⟨gap, t, rest⟩ <;> rw [h] at hnext
  · rw [readFrom_finished hnext, readFrom_finished h]
    simp
  · rw [readFrom_stuck hnext, readFrom_stuck h]
  · exact readFrom_congr hnext h (by simp)

/-- A gap is skipped, and kept for the statement behind it. -/
theorem readFrom_gap_append {gap : Text} (h : Gap gap) (skipped s : Text) :
    readFrom skipped (gap ++ s) = readFrom (gap.reverse ++ skipped) s := by
  have hskip : ∀ (t : Token) (skipped s : Text), nextToken true (t.text ++ s) = .found [] t s →
      (t = .semicolon ∨ t = .openMarker ∨ t = .closeMarker) →
      readFrom skipped (t.text ++ s) = readFrom (t.text.reverse ++ skipped) s := by
    intro t skipped s hnext ht
    rw [readFrom_found hnext]
    rcases ht with rfl | rfl | rfl <;> simp [readToken]
  induction h generalizing skipped with
  | nil => rfl
  | blank hc _ ih =>
    rw [List.cons_append, readFrom_blank hc, ih]
    simp
  | @semicolon g _ ih =>
    have hstep := hskip .semicolon skipped (g ++ s) rfl (.inl rfl)
    refine hstep.trans ?_
    rw [ih]
    simp [Token.text]
  | @openMarker g _ ih =>
    have hstep := hskip .openMarker skipped (g ++ s) rfl (.inr (.inl rfl))
    refine hstep.trans ?_
    rw [ih]
    simp [Token.text]
  | @closeMarker g _ ih =>
    have hstep := hskip .closeMarker skipped (g ++ s) rfl (.inr (.inr rfl))
    refine hstep.trans ?_
    rw [ih]
    simp [Token.text]

/-- A gap that ends the text trails the last statement. -/
theorem readFrom_gap_end {gap : Text} (h : Gap gap) : readFrom [] gap = .ok ([], gap) := by
  have hskip := readFrom_gap_append h [] []
  rw [List.append_nil, List.append_nil] at hskip
  rw [hskip, readFrom_finished rfl, List.reverse_reverse, List.append_nil]

/-! ## Readable statements -/

theorem readRule_eq_ok_iff {leading first s rest : Text} {st : Statement} :
    readRule leading first s = .ok (st, rest) ↔
      ∃ u body, st = .rule leading (first ++ u) body ∧ s = u ++ braced body ++ rest ∧
        Flat .fresh u ∧ Content body := by
  constructor
  · intro h
    unfold readRule at h
    split at h
    · cases h
    · cases h
    · rename_i u r hhead
      split at h
      · cases h
      · rename_i body r' hbody
        cases h
        obtain ⟨rfl, hu⟩ := readHead_eq_ok_iff.1 hhead
        obtain ⟨rfl, hflow, -⟩ := readBody_eq_ok_iff.1 hbody
        exact ⟨u, body, rfl, by simp [HeadEnd.remaining, braced], hu, hflow⟩
  · rintro ⟨u, body, rfl, rfl, hu, hbody⟩
    have hhead := @readHead_of_flat (first ++ (u ++ braced body ++ rest)) u
      (.block (body ++ '}' :: rest)) hu
    have heq : u ++ braced body ++ rest = u ++ (HeadEnd.block (body ++ '}' :: rest)).remaining := by
      simp [HeadEnd.remaining, braced]
    rw [← heq] at hhead
    have hend := fun last => @readBody_of_flows 0 false last rest body hbody (by simp)
    simp only [readRule, hhead, hend]

/-- What stands behind the head of an at-rule: a block or a semicolon. -/
def ending (body : Option Text) : Text := (body.map braced).getD [';']

theorem text_atRule (leading keyword head : Text) (body : Option Text) :
    text (.atRule leading keyword head body) = leading ++ keyword ++ head ++ ending body := by
  cases body <;> rfl

theorem readAtRule_eq_ok_iff {leading keyword s rest : Text} {st : Statement} :
    readAtRule leading keyword s = .ok (st, rest) ↔
      ∃ u body, st = .atRule leading keyword u body ∧ s = u ++ ending body ++ rest ∧
        Flat .fresh u ∧ ∀ b ∈ body, Content b := by
  constructor
  · intro h
    unfold readAtRule at h
    split at h
    · cases h
    · rename_i u r hhead
      cases h
      obtain ⟨rfl, hu⟩ := readHead_eq_ok_iff.1 hhead
      exact ⟨u, none, rfl, by simp [HeadEnd.remaining, ending], hu, by simp⟩
    · rename_i u r hhead
      split at h
      · cases h
      · rename_i body r' hbody
        cases h
        obtain ⟨rfl, hu⟩ := readHead_eq_ok_iff.1 hhead
        obtain ⟨rfl, hflow, -⟩ := readBody_eq_ok_iff.1 hbody
        exact ⟨u, some body, rfl, by simp [HeadEnd.remaining, ending, braced], hu, by simpa⟩
  · rintro ⟨u, body, rfl, rfl, hu, hbody⟩
    cases body with
    | none =>
      have hhead := @readHead_of_flat (keyword ++ (u ++ ending none ++ rest)) u (.semicolon rest) hu
      have heq : u ++ ending none ++ rest = u ++ (HeadEnd.semicolon rest).remaining := by
        simp [HeadEnd.remaining, ending]
      rw [← heq] at hhead
      simp only [readAtRule, hhead]
    | some body =>
      have hhead := @readHead_of_flat (keyword ++ (u ++ ending (some body) ++ rest)) u
        (.block (body ++ '}' :: rest)) hu
      have heq : u ++ ending (some body) ++ rest =
          u ++ (HeadEnd.block (body ++ '}' :: rest)).remaining := by
        simp [HeadEnd.remaining, ending, braced]
      rw [← heq] at hhead
      have hend := fun last => @readBody_of_flows 0 false last rest body (hbody body rfl) (by simp)
      simp only [readAtRule, hhead, hend]

/-- A head is followed by a brace or a semicolon. -/
theorem ending_eq (body : Option Text) :
    ∃ x r, isStructural x = true ∧ ending body = x :: r := by
  cases body with
  | none => exact ⟨';', [], rfl, rfl⟩
  | some b => exact ⟨'{', b ++ ['}'], rfl, rfl⟩

theorem readToken_rule {lead rest rest' : Text} {t : Token} {st : Statement}
    (ht : t.startsRule = true) (h : readRule lead t.text rest = .ok (st, rest')) :
    readToken lead t rest = cons st (readFrom [] rest') := by
  cases t with
  | string t | slash | chunk t => simp only [readToken, h]
  | _ => cases ht

/-- A keyword is read as the first token of an at-rule when it ends where a head begins. -/
theorem readFrom_keyword {leading keyword head r : Text} {x : Char} (hlead : Gap leading)
    (hkeyword : KeywordEnds keyword head) (hx : isStructural x = true) :
    readFrom [] (leading ++ (keyword ++ (head ++ x :: r))) =
      readToken leading (.atKeyword keyword) (head ++ x :: r) := by
  obtain ⟨k, rfl, hk, hself, hends⟩ := hkeyword
  -- the keyword is not continued: by the head if there is one, else by the brace behind it
  have hcut : Token.takeEscaped Token.isKeywordChar (k ++ (head ++ x :: r)) =
      (k, head ++ x :: r) := by
    have hstop : ∀ c ∈ (head ++ x :: r).head?, Token.isKeywordChar c = false ∧ c ≠ '\\' := by
      cases head with
      | nil => simpa using (Token.run_stop hx).2
      | cons c head => exact hends
    have hcut := Token.takeEscaped_append_right (s := k) (by decide) hstop (by simp [hself])
    rw [hcut, hself]
    rfl
  have hnext : nextToken true ('@' :: (k ++ (head ++ x :: r))) =
      .found [] (.atKeyword ('@' :: k)) (head ++ x :: r) := by
    refine nextToken_first rfl ?_
    exact Token.readRun?_eq_some_iff.2 ⟨k, hcut, hk, rfl⟩
  rw [readFrom_gap_append hlead, List.cons_append, readFrom_found hnext]
  simp

/-- A comment is read as it was written. -/
theorem readFrom_comment {leading body : Text} (hlead : Gap leading)
    (hbody : closeComment body = some (body, [])) (s : Text) :
    readFrom [] (text (.comment leading ('/' :: '*' :: body)) ++ s) =
      cons (.comment leading ('/' :: '*' :: body)) (readFrom [] s) := by
  have hnext : nextToken true ('/' :: '*' :: (body ++ s)) =
      .found [] (.comment ('/' :: '*' :: body)) s := by
    refine nextToken_first rfl ?_
    show (closeComment (body ++ s)).map _ = _
    rw [closeComment_append_right hbody]
    rfl
  have heq : text (.comment leading ('/' :: '*' :: body)) ++ s =
      leading ++ '/' :: '*' :: (body ++ s) := by
    simp [text]
  rw [heq, readFrom_gap_append hlead, readFrom_found hnext]
  simp [readToken]

/-- A rule is read as it was written. -/
theorem readFrom_rule {leading head body : Text} (hlead : Gap leading) (hstart : RuleStart head)
    (hhead : Flat .fresh head) (hbody : Content body) (s : Text) :
    readFrom [] (text (.rule leading head body) ++ s) =
      cons (.rule leading head body) (readFrom [] s) := by
  obtain ⟨⟨c, v, rfl, hc, hat⟩, hcomment, hmarker⟩ := hstart
  -- the first token of the head, up to the brace
  have hx : isStructural '{' = true := rfl
  obtain ⟨t, u, ht, heq, hu, hread⟩ :=
    Token.readPlain?_of_flat hx (body ++ '}' :: s) hc hhead
  have hnext : nextToken true (c :: v ++ '{' :: (body ++ '}' :: s)) =
      .found [] t (u ++ '{' :: (body ++ '}' :: s)) := by
    have hnot : ¬ MarkerAhead (c :: v ++ '{' :: (body ++ '}' :: s)) := by
      rw [markerAhead_append_iff hx, markerAhead_iff_markerFirst (by simpa using hc)]
      exact hmarker
    rw [nextToken_of_not_markerAhead hnot]
    exact nextToken_first hc hread
  -- that token begins neither a comment nor an at-rule, since the head does not
  have hstarts : t.startsRule = true := by
    refine (Token.readPlain?_startsRule hread ht).2 ⟨by simpa using hat, ?_⟩
    rwa [prefix_append_iff (by decide)]
  have hrule : readRule leading t.text (u ++ '{' :: (body ++ '}' :: s)) =
      .ok (.rule leading (c :: v) body, s) := by
    refine readRule_eq_ok_iff.2 ⟨u, body, by rw [heq], ?_, hu, hbody⟩
    simp [braced]
  have htext : text (.rule leading (c :: v) body) ++ s =
      leading ++ (c :: v ++ '{' :: (body ++ '}' :: s)) := by
    simp [text, braced]
  rw [htext, readFrom_gap_append hlead, readFrom_found hnext, readToken_rule hstarts]
  simpa using hrule

/-- An at-rule is read as it was written, with a block or without. -/
theorem readFrom_atRule {leading keyword head : Text} {body : Option Text} (hlead : Gap leading)
    (hkeyword : KeywordEnds keyword head) (hhead : Flat .fresh head) (hbody : ∀ b ∈ body, Content b)
    (s : Text) :
    readFrom [] (text (.atRule leading keyword head body) ++ s) =
      cons (.atRule leading keyword head body) (readFrom [] s) := by
  obtain ⟨x, r, hx, hend⟩ := ending_eq body
  have hat : readAtRule leading keyword (head ++ x :: (r ++ s)) =
      .ok (.atRule leading keyword head body, s) := by
    refine readAtRule_eq_ok_iff.2 ⟨head, body, rfl, ?_, hhead, hbody⟩
    rw [hend]
    simp
  have htext : text (.atRule leading keyword head body) ++ s =
      leading ++ (keyword ++ (head ++ x :: (r ++ s))) := by
    rw [text_atRule, hend]
    simp
  rw [htext, readFrom_keyword hlead hkeyword hx]
  simp only [readToken, hat]

/-- A readable statement is read as it was written, whatever stands behind it. -/
theorem readFrom_statement {st : Statement} (h : Readable st) (hlead : Gap st.leading) (s : Text) :
    readFrom [] (st.text ++ s) = cons st (readFrom [] s) := by
  cases h with
  | comment leading hbody => exact readFrom_comment hlead hbody s
  | rule leading hstart hhead hbody => exact readFrom_rule hlead hstart hhead hbody s
  | atRule leading hkeyword hhead hbody => exact readFrom_atRule hlead hkeyword hhead hbody s

/-- An at-rule whose block is interrupted is not read. -/
theorem readFrom_interrupted {leading keyword head body : Text} (hlead : Gap leading)
    (hkeyword : KeywordEnds keyword head) (hhead : Flat .fresh head) (hbody : Interrupted 0 body)
    (s : Text) (found : List Statement × Text) :
    readFrom [] (leading ++ (keyword ++ head) ++ braced body ++ s) ≠ .ok found := by
  have heq : leading ++ (keyword ++ head) ++ braced body ++ s =
      leading ++ (keyword ++ (head ++ '{' :: (body ++ '}' :: s))) := by
    simp [braced]
  have hx : isStructural '{' = true := rfl
  have hstop := @readHead_of_flat (keyword ++ (head ++ '{' :: (body ++ '}' :: s))) head
    (.block (body ++ '}' :: s)) hhead
  rw [HeadEnd.remaining] at hstop
  rw [heq, readFrom_keyword hlead hkeyword hx]
  simp only [readToken, readAtRule, hstop]
  cases hread : readBody 0 false ('{' :: (body ++ '}' :: s)) (body ++ '}' :: s) with
  | error fault => simp
  | ok found => exact absurd hread (readBody_of_interrupted hbody found)

/-- What is read as a comment is readable. -/
theorem readable_comment {s gap t rest : Text} (h : nextToken true s = .found gap (.comment t) rest)
    (leading : Text) : Readable (.comment leading t) := by
  have hplain := (nextToken_unmarked h (by simp) (by simp)).1
  obtain ⟨c, v, -, -, hread⟩ := nextToken_found hplain
  obtain ⟨r, body, -, rfl, hbody⟩ := Token.readPlain?_comment hread
  exact .comment _ (closeComment_self hbody)

/-- What is read as an at-rule is readable: the keyword ends where the reader stopped. -/
theorem readable_atRule {s gap t rest leading rest' : Text} {st : Statement}
    (h : nextToken true s = .found gap (.atKeyword t) rest)
    (hst : readAtRule leading t rest = .ok (st, rest')) : Readable st := by
  have hplain := (nextToken_unmarked h (by simp) (by simp)).1
  obtain ⟨c, v, -, -, hread⟩ := nextToken_found hplain
  obtain ⟨r, k, -, rfl, hk, hcut⟩ := Token.readPlain?_atKeyword hread
  obtain ⟨u, body, rfl, hrest, hu, hbody⟩ := readAtRule_eq_ok_iff.1 hst
  obtain ⟨x, e, hx, hend⟩ := ending_eq body
  rw [hend, List.append_assoc, List.cons_append] at hrest
  -- what stopped the keyword is the first character of the head
  have hstop := @Token.takeEscaped_rest Token.isKeywordChar r
  rw [hcut] at hstop
  have hself := Token.takeEscaped_self (by decide) hcut
  exact .atRule _ ⟨k, rfl, hk, hself, behind_token hrest hstop⟩ hu hbody

/-- What is read as a rule is readable. -/
theorem readable_rule {s gap rest leading rest' : Text} {token : Token} {st : Statement}
    (h : nextToken true s = .found gap token rest) (hstarts : token.startsRule = true)
    (hst : readRule leading token.text rest = .ok (st, rest')) : Readable st := by
  have hcdo : token ≠ .openMarker := by
    rintro rfl
    cases hstarts
  have hcdc : token ≠ .closeMarker := by
    rintro rfl
    cases hstarts
  have ht := Token.isPlain_of_startsRule hstarts
  obtain ⟨hplain, hmarker⟩ := nextToken_unmarked h hcdo hcdc
  obtain ⟨c, v, rfl, hc, hread⟩ := nextToken_found hplain
  obtain ⟨u, body, rfl, hrest, hu, hbody⟩ := readRule_eq_ok_iff.1 hst
  rw [braced, List.append_assoc, List.append_assoc, List.cons_append] at hrest
  -- the head is the token and what was read behind it, and `s` goes on behind the head
  obtain ⟨happ, hne⟩ := Token.readPlain?_append hread
  obtain ⟨w, hw⟩ : ∃ w, token.text = c :: w := by
    cases htext : token.text with
    | nil => exact absurd htext hne
    | cons d w =>
      rw [htext] at happ
      cases happ
      exact ⟨w, rfl⟩
  have hs' : c :: v = token.text ++ u ++ '{' :: (body ++ (['}'] ++ rest')) := by
    rw [happ, hrest, List.append_assoc]
  obtain ⟨hat, hstar⟩ := (Token.readPlain?_startsRule hread ht).1 hstarts
  have hflat : Flat .fresh (token.text ++ u) := by
    have hfirst : nextToken false (c :: v) = .found [] token rest := nextToken_first hc hread
    exact flat_token hfirst ht hrest hu
  refine .rule _ ⟨⟨c, w ++ u, by rw [hw]; rfl, hc, by simpa using hat⟩, ?_, ?_⟩ hflat hbody
  · rwa [hs', prefix_append_iff (by decide)] at hstar
  · -- a marker at the front of the head would have been read as a marker
    have hnot := hmarker rfl
    rwa [markerAhead_blanks_append (nextToken_gap_blank hplain),
      markerAhead_iff_markerFirst (by simpa using hc), hs',
      markerFirst_append_iff (by decide)] at hnot

/-- The reader gives readable statements only. -/
theorem readFrom_readable {skipped s trailing : Text} {sts : List Statement}
    (h : readFrom skipped s = .ok (sts, trailing)) : ∀ st ∈ sts, Readable st := by
  fun_induction readFrom skipped s generalizing sts trailing with
  | case1 skipped s gap hs =>
    cases h
    simp
  | case2 | case7 | case8 | case9 | case11 => simp at h
  | case3 skipped s gap t rest hs ih =>
    obtain ⟨sts', hsts, rfl⟩ := cons_eq_ok_iff.1 h
    exact List.forall_mem_cons.2 ⟨readable_comment hs _, ih hsts⟩
  | case4 skipped s gap rest hs ih => exact ih h
  | case5 skipped s gap rest hs ih => exact ih h
  | case6 skipped s gap rest hs ih => exact ih h
  | case10 skipped s gap t rest hs st rest' hst ih =>
    obtain ⟨sts', hsts, rfl⟩ := cons_eq_ok_iff.1 h
    exact List.forall_mem_cons.2 ⟨readable_atRule hs hst, ih hsts⟩
  | case12 skipped s gap token rest hcomment hsemi hcdo hcdc hopen hclose hkeyword hs st rest' hst
      ih =>
    obtain ⟨sts', hsts, rfl⟩ := cons_eq_ok_iff.1 h
    have hstarts : token.startsRule = true := by
      cases token with
      | comment t => exact absurd rfl (hcomment t)
      | atKeyword t => exact absurd rfl (hkeyword t)
      | semicolon => exact absurd rfl hsemi
      | openMarker => exact absurd rfl hcdo
      | closeMarker => exact absurd rfl hcdc
      | openBrace => exact absurd rfl hopen
      | closeBrace => exact absurd rfl hclose
      | string | slash | chunk => rfl
    exact List.forall_mem_cons.2 ⟨readable_rule hs hstarts hst, ih hsts⟩

/-- Statements are read exactly where readable ones are written, with gaps between them. -/
theorem readFrom_eq_ok_iff {s trailing : Text} {sts : List Statement} :
    readFrom [] s = .ok (sts, trailing) ↔
      s = sts.flatMap text ++ trailing ∧ (∀ st ∈ sts, Readable st ∧ Gap st.leading) ∧
        Gap trailing := by
  constructor
  · intro h
    obtain ⟨hlead, htrailing⟩ := readFrom_gap h .nil
    have hread := readFrom_readable h
    exact ⟨(readFrom_append h).symm, fun st hst => ⟨hread st hst, hlead st hst⟩, htrailing⟩
  · rintro ⟨rfl, hread, htrailing⟩
    induction sts with
    | nil => exact readFrom_gap_end htrailing
    | cons st sts ih =>
      obtain ⟨⟨hst, hlead⟩, hread⟩ := List.forall_mem_cons.1 hread
      rw [List.flatMap_cons, List.append_assoc, readFrom_statement hst hlead, ih hread]
      rfl

end Statement

end StylePrune
