import StylePrune.Grammar.Error
import StylePrune.Text.Prepend

/-!
# Statements

A stylesheet is a sequence of comments, rules and at-rules. A rule is a head and a block, an at-rule
a keyword, a head, and a block or a semicolon. A head is a run of tokens without braces and
semicolons; blocks nest, and anything but a marker may stand in them. Between statements stray
semicolons and markers are skipped.

`Statement.readAll` reads all statements of a text and keeps every character of it
(`Statement.readAll_append`): what stands between two statements leads the second one, and what
stands behind the last one trails.
-/

namespace StylePrune

/-- One statement, with the text between the statement before it and itself. -/
inductive Statement where
  | comment (leading text : Text)
  /-- A head, and what stands between the braces of its block. -/
  | rule (leading head body : Text)
  /-- A keyword and a head, and what stands between the braces if there is a block. -/
  | atRule (leading keyword head : Text) (body : Option Text)
deriving DecidableEq, Repr

namespace Statement

def braced (body : Text) : Text := '{' :: body ++ ['}']

def text : Statement → Text
  | .comment leading t => leading ++ t
  | .rule leading head body => leading ++ head ++ braced body
  | .atRule leading keyword head (some body) => leading ++ keyword ++ head ++ braced body
  | .atRule leading keyword head none => leading ++ keyword ++ head ++ [';']

/-- How a head ends, and what is left behind its end. -/
inductive HeadEnd where
  | block (rest : Text)
  | semicolon (rest : Text)
deriving DecidableEq, Repr

/-- What is left from the end of a head on. -/
def HeadEnd.remaining : HeadEnd → Text
  | .block rest => '{' :: rest
  | .semicolon rest => ';' :: rest

/-- Reads a head up to the brace or semicolon that ends it. `last` is what was left when the token
before was read. -/
def readHead (last s : Text) : Except GrammarFault (Text × HeadEnd) :=
  match _h : nextToken false s with
  | .finished _ => .error (.unfinished last)
  | .stuck rest => .error (.noToken rest)
  | .found gap .openBrace rest => .ok (gap, .block rest)
  | .found gap .semicolon rest => .ok (gap, .semicolon rest)
  | .found _ .closeBrace rest => .error (.unexpected .closeBrace ('}' :: rest))
  | .found gap token rest =>
    Text.prepend (gap ++ token.text) (readHead (token.text ++ rest) rest)
termination_by s.length
decreasing_by exact nextToken_length_lt _h

/-- Reads a block up to the brace that closes it, with `depth` blocks open inside it. Gives what
stands before that brace and what is left behind it. Right behind the end of an inner block, when
`closed` is set, a marker is told from a chunk, and refused. -/
def readBody (depth : Nat) (closed : Bool) (last s : Text) :
    Except GrammarFault (Text × Text) :=
  match _h : nextToken closed s with
  | .finished _ => .error (.unfinished last)
  | .stuck rest => .error (.noToken rest)
  | .found gap .closeBrace rest =>
    match depth with
    | 0 => .ok (gap, rest)
    | depth + 1 => Text.prepend (gap ++ ['}']) (readBody depth true ('}' :: rest) rest)
  | .found gap .openBrace rest =>
    Text.prepend (gap ++ ['{']) (readBody (depth + 1) false ('{' :: rest) rest)
  | .found _ .openMarker rest =>
    .error (.unexpected .openMarker (Token.openMarker.text ++ rest))
  | .found _ .closeMarker rest =>
    .error (.unexpected .closeMarker (Token.closeMarker.text ++ rest))
  | .found gap token rest =>
    Text.prepend (gap ++ token.text) (readBody depth false (token.text ++ rest) rest)
termination_by s.length
decreasing_by all_goals exact nextToken_length_lt _h

/-- A head, joined with what is left from its end on, is the text it was taken from. -/
theorem readHead_append {last s head : Text} {stop : HeadEnd}
    (h : readHead last s = .ok (head, stop)) : s = head ++ stop.remaining := by
  fun_induction readHead last s generalizing head with
  | case1 | case2 | case5 => simp at h
  | case3 last s gap rest hs =>
    simp only [Except.ok.injEq, Prod.mk.injEq] at h
    obtain ⟨rfl, rfl⟩ := h
    exact nextToken_append hs
  | case4 last s gap rest hs =>
    simp only [Except.ok.injEq, Prod.mk.injEq] at h
    obtain ⟨rfl, rfl⟩ := h
    exact nextToken_append hs
  | case6 last s gap token rest _ _ _ hs ih =>
    obtain ⟨u, hu, rfl⟩ := Text.prepend_eq_ok_iff.1 h
    rw [nextToken_append hs, ih hu]
    simp only [List.append_assoc]

/-- A body, its brace and what is left behind them make up the text it was taken from. -/
theorem readBody_append {depth : Nat} {closed : Bool} {last s body rest : Text}
    (h : readBody depth closed last s = .ok (body, rest)) : s = body ++ '}' :: rest := by
  fun_induction readBody depth closed last s generalizing body with
  | case1 | case2 | case6 | case7 => simp at h
  | case3 closed last s gap rest hs =>
    simp only [Except.ok.injEq, Prod.mk.injEq] at h
    obtain ⟨rfl, rfl⟩ := h
    exact nextToken_append hs
  | case4 closed last s gap rest hs depth ih =>
    obtain ⟨u, hu, rfl⟩ := Text.prepend_eq_ok_iff.1 h
    rw [nextToken_append hs, ih hu]
    simp [Token.text]
  | case5 depth closed last s gap rest hs ih =>
    obtain ⟨u, hu, rfl⟩ := Text.prepend_eq_ok_iff.1 h
    rw [nextToken_append hs, ih hu]
    simp [Token.text]
  | case8 depth closed last s gap token rest _ _ _ _ hs ih =>
    obtain ⟨u, hu, rfl⟩ := Text.prepend_eq_ok_iff.1 h
    rw [nextToken_append hs, ih hu]
    simp only [List.append_assoc]

/-- Reads the rest of a rule whose first token has been read, from the second token on. -/
def readRule (leading first s : Text) : Except GrammarFault (Statement × Text) :=
  match readHead (first ++ s) s with
  | .error fault => .error fault
  | .ok (_, .semicolon rest) => .error (.unexpected .semicolon (';' :: rest))
  | .ok (head, .block rest) =>
    match readBody 0 false ('{' :: rest) rest with
    | .error fault => .error fault
    | .ok (body, rest) => .ok (.rule leading (first ++ head) body, rest)

/-- Reads the rest of an at-rule whose keyword has been read. -/
def readAtRule (leading keyword s : Text) : Except GrammarFault (Statement × Text) :=
  match readHead (keyword ++ s) s with
  | .error fault => .error fault
  | .ok (head, .semicolon rest) => .ok (.atRule leading keyword head none, rest)
  | .ok (head, .block rest) =>
    match readBody 0 false ('{' :: rest) rest with
    | .error fault => .error fault
    | .ok (body, rest) => .ok (.atRule leading keyword head (some body), rest)

/-- What is read as a rule has the given beginning, and loses nothing of the text. -/
theorem exists_of_readRule {leading first s rest : Text} {st : Statement}
    (h : readRule leading first s = .ok (st, rest)) :
    ∃ head body, st = .rule leading (first ++ head) body ∧
      s = head ++ (braced body ++ rest) := by
  unfold readRule at h
  split at h
  · cases h
  · cases h
  · rename_i head r hhead
    split at h
    · cases h
    · rename_i body r' hbody
      cases h
      refine ⟨head, body, rfl, ?_⟩
      rw [readHead_append hhead, HeadEnd.remaining, readBody_append hbody]
      simp [braced]

/-- What is read as an at-rule has the given keyword, and loses nothing of the text. -/
theorem exists_of_readAtRule {leading keyword s rest : Text} {st : Statement}
    (h : readAtRule leading keyword s = .ok (st, rest)) :
    ∃ head body, st = .atRule leading keyword head body ∧
      s = head ++ ((body.map braced).getD [';'] ++ rest) := by
  unfold readAtRule at h
  split at h
  · cases h
  · rename_i head r hhead
    cases h
    exact ⟨head, none, rfl, readHead_append hhead⟩
  · rename_i head r hhead
    split at h
    · cases h
    · rename_i body r' hbody
      cases h
      refine ⟨head, some body, rfl, ?_⟩
      rw [readHead_append hhead, HeadEnd.remaining, readBody_append hbody]
      simp [braced]

theorem readRule_append {leading first s rest : Text} {st : Statement}
    (h : readRule leading first s = .ok (st, rest)) : leading ++ first ++ s = st.text ++ rest := by
  obtain ⟨head, body, rfl, rfl⟩ := exists_of_readRule h
  simp [text]

theorem readAtRule_append {leading keyword s rest : Text} {st : Statement}
    (h : readAtRule leading keyword s = .ok (st, rest)) :
    leading ++ keyword ++ s = st.text ++ rest := by
  obtain ⟨head, body, rfl, rfl⟩ := exists_of_readAtRule h
  cases body <;> simp [text]

theorem readRule_length_le {leading first s rest : Text} {st : Statement}
    (h : readRule leading first s = .ok (st, rest)) : rest.length ≤ s.length := by
  obtain ⟨head, body, -, rfl⟩ := exists_of_readRule h
  simp only [List.length_append]
  omega

theorem readAtRule_length_le {leading keyword s rest : Text} {st : Statement}
    (h : readAtRule leading keyword s = .ok (st, rest)) : rest.length ≤ s.length := by
  obtain ⟨head, body, -, rfl⟩ := exists_of_readAtRule h
  simp only [List.length_append]
  omega

/-- Puts a statement in front of those that were read behind it. -/
def cons (st : Statement) :
    Except GrammarFault (List Statement × Text) → Except GrammarFault (List Statement × Text)
  | .error fault => .error fault
  | .ok (sts, trailing) => .ok (st :: sts, trailing)

theorem cons_eq_ok_iff {st : Statement} {sts : List Statement} {trailing : Text}
    {x : Except GrammarFault (List Statement × Text)} :
    cons st x = .ok (sts, trailing) ↔ ∃ rest, x = .ok (rest, trailing) ∧ sts = st :: rest := by
  cases x with
  | error e => simp [cons]
  | ok p =>
    obtain ⟨rest, t⟩ := p
    simp only [cons, Except.ok.injEq, Prod.mk.injEq]
    constructor
    · rintro ⟨rfl, rfl⟩
      exact ⟨rest, ⟨rfl, rfl⟩, rfl⟩
    · rintro ⟨rest', ⟨rfl, rfl⟩, rfl⟩
      exact ⟨rfl, rfl⟩

/-- Reads all statements that are left. `skipped` is the text skipped since the statement before,
its last character first. Gives the statements and the text behind the last of them. -/
def readFrom (skipped s : Text) : Except GrammarFault (List Statement × Text) :=
  match _h : nextToken true s with
  | .finished gap => .ok ([], skipped.reverse ++ gap)
  | .stuck rest => .error (.noToken rest)
  | .found gap (.comment t) rest => cons (.comment (skipped.reverse ++ gap) t) (readFrom [] rest)
  | .found gap .semicolon rest => readFrom ((gap ++ [';']).reverse ++ skipped) rest
  | .found gap .openMarker rest =>
    readFrom ((gap ++ Token.openMarker.text).reverse ++ skipped) rest
  | .found gap .closeMarker rest =>
    readFrom ((gap ++ Token.closeMarker.text).reverse ++ skipped) rest
  | .found _ .openBrace rest => .error (.unexpected .openBrace ('{' :: rest))
  | .found _ .closeBrace rest => .error (.unexpected .closeBrace ('}' :: rest))
  | .found gap (.atKeyword t) rest =>
    match _hs : readAtRule (skipped.reverse ++ gap) t rest with
    | .error fault => .error fault
    | .ok (st, rest') => cons st (readFrom [] rest')
  | .found gap token rest =>
    match _hs : readRule (skipped.reverse ++ gap) token.text rest with
    | .error fault => .error fault
    | .ok (st, rest') => cons st (readFrom [] rest')
termination_by s.length
decreasing_by
  all_goals
    have hlt := nextToken_length_lt _h
    first
      | exact hlt
      | exact Nat.lt_of_le_of_lt (readAtRule_length_le _hs) hlt
      | exact Nat.lt_of_le_of_lt (readRule_length_le _hs) hlt

/-- The statements and what stands behind them make up the text. -/
theorem readFrom_append {skipped s trailing : Text} {sts : List Statement}
    (h : readFrom skipped s = .ok (sts, trailing)) :
    sts.flatMap Statement.text ++ trailing = skipped.reverse ++ s := by
  fun_induction readFrom skipped s generalizing sts trailing with
  | case1 skipped s gap hs =>
    simp only [Except.ok.injEq, Prod.mk.injEq] at h
    obtain ⟨rfl, rfl⟩ := h
    rw [nextToken_finished hs]
    rfl
  | case2 | case7 | case8 | case9 | case11 => simp at h
  | case3 skipped s gap t rest hs ih =>
    obtain ⟨sts', hsts, rfl⟩ := cons_eq_ok_iff.1 h
    have hrest := ih hsts
    rw [nextToken_append hs, List.flatMap_cons, List.append_assoc, hrest]
    simp [text, Token.text]
  | case4 skipped s gap rest hs ih =>
    rw [ih h, nextToken_append hs]
    simp [Token.text]
  | case5 skipped s gap rest hs ih =>
    rw [ih h, nextToken_append hs]
    simp
  | case6 skipped s gap rest hs ih =>
    rw [ih h, nextToken_append hs]
    simp
  | case10 skipped s gap t rest hs st rest' hst ih =>
    obtain ⟨sts', hsts, rfl⟩ := cons_eq_ok_iff.1 h
    rw [nextToken_append hs, List.flatMap_cons, List.append_assoc, ih hsts, List.reverse_nil,
      List.nil_append, ← readAtRule_append hst]
    simp [Token.text]
  | case12 skipped s gap token rest _ _ _ _ _ _ _ hs st rest' hst ih =>
    obtain ⟨sts', hsts, rfl⟩ := cons_eq_ok_iff.1 h
    rw [nextToken_append hs, List.flatMap_cons, List.append_assoc, ih hsts, List.reverse_nil,
      List.nil_append, ← readRule_append hst]
    simp

def readAll (text : Text) : Except GrammarError (List Statement × Text) :=
  match readFrom [] text with
  | .error fault => .error (fault.toError text)
  | .ok found => .ok found

theorem readAll_append {source trailing : Text} {sts : List Statement}
    (h : readAll source = .ok (sts, trailing)) :
    sts.flatMap Statement.text ++ trailing = source := by
  unfold readAll at h
  split at h
  · simp at h
  · rename_i found hfound
    simp only [Except.ok.injEq] at h
    subst h
    exact readFrom_append hfound

end Statement

end StylePrune
