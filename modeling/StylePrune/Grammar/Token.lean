import StylePrune.Delimited
import StylePrune.Text.Word

/-!
# Tokens

A stylesheet is read in tokens, with blanks between them. A *chunk* is a run of characters that
mean nothing to the structure of a stylesheet; a backslash takes the character behind it along.
`<!--` and `-->` are *markers* where the grammar awaits one, and part of a chunk everywhere else.

`nextToken` loses no character of the text (`nextToken_append`) and never takes an empty token
(`Token.read?_append`), so reading on always shortens what is left.
-/

namespace StylePrune

/-- What a stylesheet is made of, blanks apart. -/
inductive Token where
  | comment (text : Text)
  | string (text : Text)
  | slash
  | atKeyword (text : Text)
  | chunk (text : Text)
  | openBrace
  | closeBrace
  | semicolon
  | openMarker
  | closeMarker
deriving DecidableEq, Repr

namespace Token

def text : Token → Text
  | .comment t | .string t | .atKeyword t | .chunk t => t
  | .slash => ['/']
  | .openBrace => ['{']
  | .closeBrace => ['}']
  | .semicolon => [';']
  | .openMarker => ['<', '!', '-', '-']
  | .closeMarker => ['-', '-', '>']

/-- The name of a token's kind in error messages. -/
def label : Token → String
  | .comment _ => "COMMENT"
  | .string _ => "STRING"
  | .slash => "SLASH"
  | .atKeyword _ => "AT_KEYWORD"
  | .chunk _ => "CHUNK"
  | .openBrace => "LBRACE"
  | .closeBrace => "RBRACE"
  | .semicolon => "SEMI"
  | .openMarker => "CDO"
  | .closeMarker => "CDC"

def isKeywordChar (c : Char) : Bool := Text.isWordChar c || c == '-'

/-- A character that may stand in a chunk, behind its first one. -/
def isChunkChar (c : Char) : Bool :=
  !(Text.isBlank c || c == '{' || c == '}' || c == ';' || c == '\x22' || c == '\x27' ||
    c == '/' || c == '\\')

/-- Takes characters of a class, and every backslash with the character behind it. -/
def takeEscaped (isMember : Char → Bool) : Text → Text × Text
  | [] => ([], [])
  | '\\' :: c :: rest =>
    let (run, behind) := takeEscaped isMember rest
    ('\\' :: c :: run, behind)
  | c :: rest =>
    if isMember c then
      let (run, behind) := takeEscaped isMember rest
      (c :: run, behind)
    else ([], c :: rest)

def readMarker? : Text → Option (Token × Text)
  | '<' :: '!' :: '-' :: '-' :: rest => some (.openMarker, rest)
  | '-' :: '-' :: '>' :: rest => some (.closeMarker, rest)
  | _ => none

/-- Reads a run that must not be empty as a token, with `lead` in front of it. -/
def readRun? (token : Text → Token) (isMember : Char → Bool) (lead : Text) (s : Text) :
    Option (Token × Text) :=
  match takeEscaped isMember s with
  | ([], _) => none
  | (run, rest) => some (token (lead ++ run), rest)

/-- Reads the token at the start of a text that does not begin with a blank and is no marker. -/
def readPlain? : Text → Option (Token × Text)
  | [] => none
  | '{' :: rest => some (.openBrace, rest)
  | '}' :: rest => some (.closeBrace, rest)
  | ';' :: rest => some (.semicolon, rest)
  | '/' :: '*' :: rest =>
    (closeComment rest).map fun (body, rest) => (.comment ('/' :: '*' :: body), rest)
  | '/' :: rest => some (.slash, rest)
  | '@' :: rest => readRun? .atKeyword isKeywordChar ['@'] rest
  | c :: rest =>
    if c == '\x22' || c == '\x27' then
      (closeString false c rest).map fun (body, rest) => (.string (c :: body), rest)
    else readRun? .chunk isChunkChar [] (c :: rest)

/-- Reads the token at the start of a text that does not begin with a blank. -/
def read? (markers : Bool) (s : Text) : Option (Token × Text) :=
  match if markers then readMarker? s else none with
  | some found => some found
  | none => readPlain? s

/-- A run, joined with the text behind it, is the text it was taken from. -/
theorem takeEscaped_append (isMember : Char → Bool) (s : Text) :
    (takeEscaped isMember s).1 ++ (takeEscaped isMember s).2 = s := by
  fun_induction takeEscaped isMember s with
  | case1 => rfl
  | case2 c rest run behind heq ih =>
    rw [heq] at ih
    rw [← ih]
    rfl
  | case3 c rest _ _ run behind heq ih =>
    rw [heq] at ih
    rw [← ih]
    rfl
  | case4 => rfl

theorem readRun?_append {token : Text → Token} {isMember : Char → Bool} {lead s rest : Text}
    {t : Token} (htext : ∀ u, (token u).text = u)
    (h : readRun? token isMember lead s = some (t, rest)) :
    lead ++ s = t.text ++ rest ∧ t.text ≠ [] := by
  have happ := takeEscaped_append isMember s
  unfold readRun? at h
  split at h
  · simp at h
  · rename_i run r hne heq
    simp only [Option.some.injEq, Prod.mk.injEq] at h
    obtain ⟨rfl, rfl⟩ := h
    rw [heq] at happ
    rw [htext, List.append_assoc, happ]
    refine ⟨rfl, fun hnil => ?_⟩
    exact hne (List.append_eq_nil_iff.1 hnil).2

theorem readMarker?_append {s rest : Text} {t : Token} (h : readMarker? s = some (t, rest)) :
    s = t.text ++ rest ∧ t.text ≠ [] := by
  unfold readMarker? at h
  split at h <;> simp only [Option.some.injEq, Prod.mk.injEq, reduceCtorEq] at h <;>
    obtain ⟨rfl, rfl⟩ := h <;> simp [text]

theorem readPlain?_append {s rest : Text} {t : Token} (h : readPlain? s = some (t, rest)) :
    s = t.text ++ rest ∧ t.text ≠ [] := by
  unfold readPlain? at h
  split at h
  · simp at h
  · simp only [Option.some.injEq, Prod.mk.injEq] at h
    obtain ⟨rfl, rfl⟩ := h
    simp [text]
  · simp only [Option.some.injEq, Prod.mk.injEq] at h
    obtain ⟨rfl, rfl⟩ := h
    simp [text]
  · simp only [Option.some.injEq, Prod.mk.injEq] at h
    obtain ⟨rfl, rfl⟩ := h
    simp [text]
  · simp only [Option.map_eq_some_iff, Prod.mk.injEq, Prod.exists] at h
    obtain ⟨body, r, hbody, rfl, rfl⟩ := h
    rw [closeComment_append hbody]
    simp [text]
  · simp only [Option.some.injEq, Prod.mk.injEq] at h
    obtain ⟨rfl, rfl⟩ := h
    simp [text]
  · exact readRun?_append (fun _ => rfl) h
  · split at h
    · simp only [Option.map_eq_some_iff, Prod.mk.injEq, Prod.exists] at h
      obtain ⟨body, r, hbody, rfl, rfl⟩ := h
      rw [closeString_append hbody]
      simp [text]
    · have happ := readRun?_append (fun _ => rfl) h
      exact happ

/-- A token, joined with the text behind it, is the text it was taken from. -/
theorem read?_append {markers : Bool} {s rest : Text} {t : Token}
    (h : read? markers s = some (t, rest)) : s = t.text ++ rest ∧ t.text ≠ [] := by
  unfold read? at h
  split at h
  · rename_i found heq
    simp only [Option.some.injEq] at h
    subst h
    split at heq
    · exact readMarker?_append heq
    · simp at heq
  · exact readPlain?_append h

end Token

/-- What stands at the start of a text, blanks skipped. -/
inductive NextToken where
  /-- Nothing but blanks. -/
  | finished (gap : Text)
  /-- Characters with which no token begins. -/
  | stuck (rest : Text)
  /-- A token behind blanks. -/
  | found (gap : Text) (token : Token) (rest : Text)
deriving DecidableEq, Repr

/-- Reads the next token of a text; a marker only where one is awaited. -/
def nextToken (markers : Bool) (s : Text) : NextToken :=
  match s.dropWhile Text.isBlank with
  | [] => .finished s
  | c :: rest =>
    match Token.read? markers (c :: rest) with
    | some (token, rest) => .found (s.takeWhile Text.isBlank) token rest
    | none => .stuck (c :: rest)

/-- A token that is found is read behind the blanks at the start of the text. -/
theorem exists_of_nextToken {markers : Bool} {s gap rest : Text} {t : Token}
    (h : nextToken markers s = .found gap t rest) :
    ∃ c v, s = gap ++ c :: v ∧ (∀ d ∈ gap, Text.isBlank d = true) ∧ Text.isBlank c = false ∧
      Token.read? markers (c :: v) = some (t, rest) := by
  have happ := List.takeWhile_append_dropWhile (p := Text.isBlank) (l := s)
  have hfirst := List.head?_dropWhile_not Text.isBlank s
  unfold nextToken at h
  split at h
  · cases h
  · rename_i c v hdrop
    rw [hdrop] at happ hfirst
    split at h
    · rename_i hread
      cases h
      exact ⟨c, v, happ.symm, List.all_eq_true.1 List.all_takeWhile, by simpa using hfirst, hread⟩
    · cases h

/-- What stands before a token is blank. -/
theorem nextToken_gap_blank {markers : Bool} {s gap rest : Text} {t : Token}
    (h : nextToken markers s = .found gap t rest) : ∀ c ∈ gap, Text.isBlank c = true := by
  obtain ⟨c, v, -, hgap, -⟩ := exists_of_nextToken h
  exact hgap

/-- Blanks, token and the text behind them make up the text. -/
theorem nextToken_append {markers : Bool} {s gap rest : Text} {t : Token}
    (h : nextToken markers s = .found gap t rest) : s = gap ++ (t.text ++ rest) := by
  obtain ⟨c, v, rfl, -, -, hread⟩ := exists_of_nextToken h
  rw [(Token.read?_append hread).1]

theorem nextToken_length_lt {markers : Bool} {s gap rest : Text} {t : Token}
    (h : nextToken markers s = .found gap t rest) : rest.length < s.length := by
  obtain ⟨c, v, rfl, -, -, hread⟩ := exists_of_nextToken h
  obtain ⟨happ, hne⟩ := Token.read?_append hread
  have hpos := List.length_pos_iff.2 hne
  rw [happ, List.length_append, List.length_append]
  omega

theorem nextToken_finished {markers : Bool} {s gap : Text}
    (h : nextToken markers s = .finished gap) : s = gap := by
  unfold nextToken at h
  split at h
  · simpa using h
  · split at h <;> simp at h

end StylePrune
