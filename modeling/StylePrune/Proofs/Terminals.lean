import StylePrune.Proofs.Blocks

/-!
# Terminals

The readers of tokens go from character to character. Here the tokens are said without them: which
texts a token of each kind may have (`Token.Terminal`), and which of the tokens that a text begins
with is taken from it (`Token.Taken`). Comments end with the first `*/`, all other tokens are as
long as they can be, and a marker is taken before anything else, but only where one is awaited.

* **`Token.read?_eq_some_iff`** — the reader of tokens takes what is to be taken.
* **`nextToken_eq_found_iff`** — so it does behind blanks.
-/

namespace StylePrune

/-- Characters of a class, and backslashes that each have a character behind them. -/
inductive Escaped (isMember : Char → Bool) : Text → Prop where
  | nil : Escaped isMember []
  | member {c : Char} {s : Text} (hc : isMember c = true) (hs : Escaped isMember s) :
      Escaped isMember (c :: s)
  | escape (c : Char) {s : Text} (hs : Escaped isMember s) : Escaped isMember ('\\' :: c :: s)

/-- A character that may stand in a string without a backslash before it. -/
def isStringChar (quote c : Char) : Bool := !(c == quote || c == '\\' || Text.isLineEnd c)

/-! ## Comments -/

/-- A comment ends with the first `*/` behind its beginning. -/
theorem closeComment_eq_some_iff {s body rest : Text} :
    closeComment s = some (body, rest) ↔
      ∃ b, body = b ++ ['*', '/'] ∧ s = body ++ rest ∧ ¬ ['*', '/'] <:+: b ++ ['*'] := by
  constructor
  · intro h
    have happ := closeComment_append h
    fun_induction closeComment s generalizing body rest with
    | case1 => cases h
    | case2 r =>
      cases h
      exact ⟨[], rfl, rfl, by decide⟩
    | case3 c r hne ih =>
      obtain ⟨⟨body', r'⟩, hbody, heq⟩ := Option.map_eq_some_iff.1 h
      cases heq
      obtain ⟨b, rfl, rfl, hb⟩ := ih hbody (closeComment_append hbody)
      refine ⟨c :: b, rfl, rfl, fun hend => ?_⟩
      rcases List.infix_cons_iff.1 hend with hpre | hin
      · -- then the reader would have stopped at this character
        obtain ⟨rfl, hslash⟩ := List.cons_prefix_cons.1 hpre
        cases b with
        | nil => simp at hslash
        | cons d b =>
          obtain ⟨rfl, -⟩ := List.cons_prefix_cons.1 hslash
          exact hne _ rfl rfl
      · exact hb hin
  · rintro ⟨b, rfl, rfl, hb⟩
    induction b with
    | nil => rfl
    | cons c b ih =>
      refine closeComment_cons ?_ (ih fun hin => hb (hin.trans (List.suffix_cons c _).isInfix))
      rintro r rfl hslash
      cases b with
      | nil => cases hslash
      | cons d b =>
        cases hslash
        exact hb ⟨[], b ++ ['*'], rfl⟩

/-- A body without `*/` is closed by the mark behind it: an asterisk at its end opens none. -/
theorem closeComment_body {body : Text} (h : ¬ ['*', '/'] <:+: body) :
    closeComment (body ++ ['*', '/']) = some (body ++ ['*', '/'], []) := by
  have hopen : ¬ ['*', '/'] <:+: body ++ ['*'] := by
    rw [List.infix_concat_iff, not_or]
    refine ⟨?_, h⟩
    rintro ⟨t, ht⟩
    have hlast := congrArg List.getLast? ht
    simp at hlast
  exact closeComment_eq_some_iff.2 ⟨body, rfl, (List.append_nil _).symm, hopen⟩

/-! ## Strings -/

/-- A character that may stand in a string without a backslash before it, in a string that a line
end leaves open or in one that may go over lines. -/
def staysOpen (multiline : Bool) (quote c : Char) : Bool :=
  !(c == quote || c == '\\' || (!multiline && Text.isLineEnd c))

/-- A string ends with the first of its quotes that no backslash takes along, over lines or not. -/
theorem closeString_iff {multiline : Bool} {q : Char} (hq : q ≠ '\\') {s body rest : Text} :
    closeString multiline q s = some (body, rest) ↔
      ∃ b, body = b ++ [q] ∧ s = body ++ rest ∧ Escaped (staysOpen multiline q) b := by
  constructor
  · intro h
    have happ := closeString_append h
    fun_induction closeString multiline q s generalizing body rest with
    | case1 => cases h
    | case2 c r ih =>
      obtain ⟨⟨body', r'⟩, hbody, heq⟩ := Option.map_eq_some_iff.1 h
      cases heq
      obtain ⟨b, rfl, rfl, hb⟩ := ih hbody (closeString_append hbody)
      exact ⟨'\\' :: c :: b, rfl, rfl, .escape c hb⟩
    | case3 c r _ hquote =>
      cases h
      rw [beq_iff_eq] at hquote
      exact ⟨[], by rw [hquote]; rfl, rfl, .nil⟩
    | case4 => cases h
    | case5 c r _ hquote hplain ih =>
      obtain ⟨⟨body', r'⟩, hbody, heq⟩ := Option.map_eq_some_iff.1 h
      cases heq
      obtain ⟨b, rfl, rfl, hb⟩ := ih hbody (closeString_append hbody)
      refine ⟨c :: b, rfl, rfl, .member ?_ hb⟩
      cases multiline <;> simp_all [staysOpen]
  · rintro ⟨b, rfl, rfl, hb⟩
    induction hb with
    | nil =>
      rw [List.nil_append, List.singleton_append, closeString.eq_3 _ _ _ _ (by simp [hq])]
      simp
    | @member c s hc hs ih =>
      simp only [staysOpen, Bool.not_eq_true', Bool.or_eq_false_iff] at hc
      obtain ⟨⟨hquote, hback⟩, hline⟩ := hc
      have hne : c ≠ '\\' := by simpa using hback
      rw [List.cons_append, List.cons_append, closeString.eq_3 _ _ _ _ (by simp [hne]), ih]
      simp [hquote, hback, hline]
    | escape c hs ih =>
      simp only [List.cons_append, closeString, ih, Option.map_some]

/-- A string on one line ends with the first of its quotes that no backslash takes along. -/
theorem closeString_eq_some_iff {q : Char} (hq : q ≠ '\\') {s body rest : Text} :
    closeString false q s = some (body, rest) ↔
      ∃ b, body = b ++ [q] ∧ s = body ++ rest ∧ Escaped (isStringChar q) b :=
  closeString_iff hq

/-! ## Runs -/

namespace Token

section

variable {isMember : Char → Bool}

theorem takeEscaped_escaped (s : Text) : Escaped isMember (takeEscaped isMember s).1 := by
  fun_induction takeEscaped isMember s with
  | case1 => exact .nil
  | case2 c rest run behind heq ih =>
    rw [heq] at ih
    exact .escape c ih
  | case3 c rest _ hc run behind heq ih =>
    rw [heq] at ih
    exact .member hc ih
  | case4 => exact .nil

/-- A run goes on over what it may hold. -/
theorem takeEscaped_of_escaped (hback : isMember '\\' = false) {u : Text} (h : Escaped isMember u)
    (r : Text) :
    takeEscaped isMember (u ++ r) =
      (u ++ (takeEscaped isMember r).1, (takeEscaped isMember r).2) := by
  induction h with
  | nil => rfl
  | @member c s hc hs ih =>
    have hne : c ≠ '\\' := by
      rintro rfl
      rw [hback] at hc
      cases hc
    rw [List.cons_append, takeEscaped.eq_3 _ _ _ (fun _ _ h => absurd h hne), if_pos hc, ih]
    rfl
  | escape c hs ih =>
    rw [List.cons_append, List.cons_append, takeEscaped.eq_2, ih]
    rfl

/-- A run is the longest one at the start of a text. -/
theorem takeEscaped_eq_iff (hback : isMember '\\' = false) {s u rest : Text} :
    takeEscaped isMember s = (u, rest) ↔
      s = u ++ rest ∧ Escaped isMember u ∧
        ∀ u' rest', Escaped isMember u' → s = u' ++ rest' → rest.length ≤ rest'.length := by
  constructor
  · intro h
    have happ := takeEscaped_append isMember s
    have hu : Escaped isMember (takeEscaped isMember s).1 := takeEscaped_escaped s
    rw [h] at happ hu
    refine ⟨happ.symm, hu, ?_⟩
    rintro u' rest' hu' rfl
    rw [takeEscaped_of_escaped hback hu'] at h
    cases h
    have hlen := congrArg List.length (takeEscaped_append isMember rest')
    rw [List.length_append] at hlen
    omega
  · rintro ⟨rfl, hu, hlongest⟩
    have hrest := takeEscaped_of_escaped hback hu rest
    have happ := takeEscaped_append isMember rest
    have hmore := hlongest _ (takeEscaped isMember rest).2 (takeEscaped_escaped (u ++ rest))
      (by rw [hrest, List.append_assoc, happ])
    -- what the run would take in addition is empty
    have hlen := congrArg List.length happ
    rw [List.length_append] at hlen
    have hnil : (takeEscaped isMember rest).1 = [] := List.eq_nil_of_length_eq_zero (by omega)
    rw [hnil, List.nil_append] at happ
    rw [hrest, hnil, happ, List.append_nil]

/-- A run is taken if no run that is not empty leaves less behind it. -/
theorem takeEscaped_of_longest (hback : isMember '\\' = false) {u rest : Text}
    (hu : Escaped isMember u)
    (h : ∀ u' rest', Escaped isMember u' → u' ≠ [] → u ++ rest = u' ++ rest' →
      rest.length ≤ rest'.length) : takeEscaped isMember (u ++ rest) = (u, rest) := by
  refine (takeEscaped_eq_iff hback).2 ⟨rfl, hu, fun u' rest' hu' happ => ?_⟩
  by_cases hnil : u' = []
  · rw [hnil, List.nil_append] at happ
    rw [← happ, List.length_append]
    omega
  · exact h u' rest' hu' hnil happ

end

/-! ## Terminals -/

/-- A token with a text that its terminal allows. -/
inductive Terminal : Token → Prop where
  | comment {body : Text} (h : ¬ ['*', '/'] <:+: body ++ ['*']) :
      Terminal (.comment ('/' :: '*' :: (body ++ ['*', '/'])))
  | string {q : Char} {body : Text} (hq : q = '\x22' ∨ q = '\x27')
      (h : Escaped (isStringChar q) body) : Terminal (.string (q :: (body ++ [q])))
  | slash : Terminal .slash
  | atKeyword {name : Text} (h : Escaped isKeywordChar name) (hne : name ≠ []) :
      Terminal (.atKeyword ('@' :: name))
  | chunk {u : Text} (h : Escaped isChunkChar u) (hne : u ≠ []) (hat : u.head? ≠ some '@') :
      Terminal (.chunk u)
  | openBrace : Terminal .openBrace
  | closeBrace : Terminal .closeBrace
  | semicolon : Terminal .semicolon
  | openMarker : Terminal .openMarker
  | closeMarker : Terminal .closeMarker

def isMarker : Token → Bool
  | .openMarker | .closeMarker => true
  | _ => false

/-- The token that is taken from the start of a text. -/
structure Taken (awaited : Prop) (s : Text) (t : Token) (rest : Text) : Prop where
  append : s = t.text ++ rest
  terminal : t.Terminal
  /-- No other text of the same terminal is longer. -/
  longest : ∀ (t' : Token) (rest' : Text), t'.Terminal → t'.label = t.label → s = t'.text ++ rest' →
    rest.length ≤ rest'.length
  /-- A slash does not begin a comment. -/
  noComment : t = .slash → rest.head? ≠ some '*'
  /-- Where a marker is awaited, the text of one is a marker, and elsewhere none is. -/
  marker : t.isMarker = true ↔ awaited ∧ MarkerFirst s

/-- The text of a token is not empty and does not begin with a blank. -/
theorem Terminal.text_eq_cons {t : Token} (h : t.Terminal) :
    ∃ c v, t.text = c :: v ∧ Text.isBlank c = false := by
  cases h with
  | chunk h hne hat =>
    cases h with
    | nil => exact absurd rfl hne
    | member hc hs =>
      refine ⟨_, _, rfl, ?_⟩
      simp only [isChunkChar, Bool.not_eq_true', Bool.or_eq_false_iff] at hc
      exact hc.1.1.1.1.1.1.1
    | escape c hs => exact ⟨'\\', _, rfl, rfl⟩
  | @string q body hq h =>
    refine ⟨q, body ++ [q], rfl, ?_⟩
    rcases hq with rfl | rfl <;> rfl
  | comment | slash | atKeyword => exact ⟨_, _, rfl, rfl⟩
  | openBrace | closeBrace | semicolon | openMarker | closeMarker => exact ⟨_, _, rfl, rfl⟩

/-! ## The reader takes what is to be taken -/

theorem ne_backslash_of_quote {q : Char} (hq : q = '\x22' ∨ q = '\x27') : q ≠ '\\' := by
  rcases hq with rfl | rfl <;> decide

/-- A chunk begins with a character that no other token begins with. -/
theorem first_of_chunk {c : Char} {u s : Text} (h : Escaped isChunkChar u) (hu : u = c :: s) :
    isStructural c = false ∧ c ≠ '/' ∧ ¬ (c = '\x22' ∨ c = '\x27') := by
  subst hu
  cases h with
  | member hc =>
    simp only [isChunkChar, Bool.not_eq_true', Bool.or_eq_false_iff, beq_eq_false_iff_ne] at hc
    simp [isStructural, hc]
  | escape => decide

theorem terminal_of_cut {s rest : Text} {t : Token} (h : Cut s t rest) : t.Terminal := by
  cases h with
  | openBrace => exact .openBrace
  | closeBrace => exact .closeBrace
  | semicolon => exact .semicolon
  | slash => exact .slash
  | comment hbody =>
    obtain ⟨b, rfl, -, hb⟩ := closeComment_eq_some_iff.1 hbody
    exact .comment hb
  | string hq hbody =>
    obtain ⟨b, rfl, -, hb⟩ := (closeString_eq_some_iff (ne_backslash_of_quote hq)).1 hbody
    exact .string hq hb
  | atKeyword hk hne => exact .atKeyword ((takeEscaped_eq_iff (by decide)).1 hk).2.1 hne
  | chunk _ hat hu hne =>
    obtain ⟨c, v, w, heq, rfl, -⟩ := takeEscaped_ne_nil hu hne
    cases heq
    exact .chunk ((takeEscaped_eq_iff (by decide)).1 hu).2.1 hne (by simpa using hat)

/-- What was cut leaves no more behind it than any other text of the same terminal would. -/
theorem longest_of_cut {s rest rest' : Text} {t t' : Token} (h : Cut s t rest) (ht : t'.Terminal)
    (hlabel : t'.label = t.label) (happ : s = t'.text ++ rest') : rest.length ≤ rest'.length := by
  cases h with
  | openBrace | closeBrace | semicolon | slash =>
    cases ht <;> simp_all [label, text]
  | comment hbody =>
    cases ht with
    | @comment b hb =>
      simp only [text, List.cons_append, List.cons.injEq, true_and] at happ
      rw [happ, closeComment_eq_some_iff.2 ⟨b, rfl, rfl, hb⟩] at hbody
      cases hbody
      exact le_rfl
    | _ => simp [label] at hlabel
  | @string q _ _ _ hq hbody =>
    cases ht with
    | @string q' b hq' hb =>
      simp only [text, List.cons_append, List.cons.injEq] at happ
      obtain ⟨rfl, happ⟩ := happ
      rw [happ, (closeString_eq_some_iff (ne_backslash_of_quote hq)).2 ⟨b, rfl, rfl, hb⟩] at hbody
      cases hbody
      exact le_rfl
    | _ => simp [label] at hlabel
  | atKeyword hk _ =>
    cases ht with
    | atKeyword hname =>
      simp only [text, List.cons_append, List.cons.injEq, true_and] at happ
      exact ((takeEscaped_eq_iff (by decide)).1 hk).2.2 _ _ hname happ
    | _ => simp [label] at hlabel
  | chunk _ _ hu _ =>
    cases ht with
    | chunk hrun => exact ((takeEscaped_eq_iff (by decide)).1 hu).2.2 _ _ hrun happ
    | _ => simp [label] at hlabel

/-- A token that is no marker is read where it is to be taken. -/
theorem readPlain?_of_taken {awaited : Prop} {s rest : Text} {t : Token}
    (h : Taken awaited s t rest) (ht : t.isMarker = false) : readPlain? s = some (t, rest) := by
  have hlongest := h.longest
  have hslash := h.noComment
  obtain rfl := h.append
  cases h.terminal with
  | @comment b hb =>
    show (closeComment (b ++ ['*', '/'] ++ rest)).map _ = _
    rw [closeComment_eq_some_iff.2 ⟨b, rfl, rfl, hb⟩]
    rfl
  | @string q b hq hb =>
    show readPlain? (q :: (b ++ [q] ++ rest)) = _
    rw [readPlain?_quote hq,
      (closeString_eq_some_iff (ne_backslash_of_quote hq)).2 ⟨b, rfl, rfl, hb⟩]
    rfl
  | slash => exact readPlain?_slash (hslash rfl)
  | @atKeyword name hname hne =>
    show readRun? .atKeyword isKeywordChar ['@'] (name ++ rest) = _
    refine readRun?_eq_some_iff.2 ⟨name, takeEscaped_of_longest (by decide) hname ?_, hne, rfl⟩
    intro u' rest' hu' hnil happ
    exact hlongest _ rest' (.atKeyword hu' hnil) rfl (congrArg ('@' :: ·) happ)
  | @chunk u hu hne hat =>
    obtain ⟨c, v, rfl⟩ := List.exists_cons_of_ne_nil hne
    obtain ⟨hstruct, hslash, hquote⟩ := first_of_chunk hu rfl
    have hat' : c ≠ '@' := by simpa using hat
    show readPlain? (c :: (v ++ rest)) = _
    rw [readPlain?_chunk _ hstruct hslash hat' hquote]
    refine readRun?_eq_some_iff.2 ⟨_, takeEscaped_of_longest (by decide) hu ?_, hne, rfl⟩
    intro u' rest' hu' hnil happ
    -- the longer run begins with the same character
    have hat'' : u'.head? ≠ some '@' := by
      obtain ⟨d, w, rfl⟩ := List.exists_cons_of_ne_nil hnil
      obtain ⟨rfl, -⟩ := List.cons.inj happ
      simpa using hat'
    exact hlongest _ rest' (.chunk hu' hnil hat'') rfl happ
  | openBrace | closeBrace | semicolon => rfl
  | openMarker | closeMarker => cases ht

theorem readMarker?_eq_some_iff {s rest : Text} {t : Token} :
    readMarker? s = some (t, rest) ↔ t.isMarker = true ∧ s = t.text ++ rest := by
  constructor
  · intro h
    refine ⟨?_, (readMarker?_append h).1⟩
    unfold readMarker? at h
    split at h <;> cases h <;> rfl
  · rintro ⟨ht, rfl⟩
    cases t with
    | openMarker | closeMarker => rfl
    | _ => cases ht

theorem read?_eq_readPlain? {markers : Bool} {s : Text} (h : ¬ (markers = true ∧ MarkerFirst s)) :
    read? markers s = readPlain? s := by
  cases markers with
  | false => rfl
  | true =>
    have hnone := readMarker?_eq_none_iff.2 fun hmark => h ⟨rfl, hmark⟩
    simp only [read?, if_true, hnone]

theorem read?_eq_readMarker? {s : Text} (h : MarkerFirst s) : read? true s = readMarker? s := by
  cases hread : readMarker? s with
  | none => exact absurd h (readMarker?_eq_none_iff.1 hread)
  | some found => simp only [read?, if_true, hread]

/-- The reader of tokens takes the token that is to be taken. -/
theorem read?_eq_some_iff {markers : Bool} {s rest : Text} {t : Token} :
    read? markers s = some (t, rest) ↔ Taken (markers = true) s t rest := by
  by_cases hmark : markers = true ∧ MarkerFirst s
  · obtain ⟨rfl, hfirst⟩ := hmark
    rw [read?_eq_readMarker? hfirst, readMarker?_eq_some_iff]
    constructor
    · rintro ⟨ht, rfl⟩
      cases t with
      | openMarker | closeMarker =>
        refine ⟨rfl, by constructor, fun t' rest' _ hlabel happ => ?_, by simp, by simpa [isMarker]⟩
        cases t' <;> simp_all [label, text]
      | _ => cases ht
    · intro h
      exact ⟨h.marker.2 ⟨rfl, hfirst⟩, h.append⟩
  · rw [read?_eq_readPlain? hmark]
    constructor
    · intro h
      have hcut := cut_of_readPlain? h
      refine ⟨(readPlain?_append h).1, terminal_of_cut hcut, fun t' rest' => longest_of_cut hcut,
        ?_, ?_⟩
      · rintro rfl
        cases hcut with
        | slash hrest => exact hrest
      · refine iff_of_false (fun ht => ?_) hmark
        cases hcut <;> cases ht
    · intro h
      refine readPlain?_of_taken h ?_
      by_contra ht
      exact hmark (h.marker.1 (by simpa using ht))

end Token

/-- The token behind blanks is the one that is to be taken there. -/
theorem nextToken_eq_found_iff {markers : Bool} {s gap rest : Text} {t : Token} :
    nextToken markers s = .found gap t rest ↔
      ∃ v, s = gap ++ v ∧ (∀ c ∈ gap, Text.isBlank c = true) ∧
        Token.Taken (markers = true) v t rest := by
  constructor
  · intro h
    obtain ⟨c, v, rfl, hgap, -, hread⟩ := exists_of_nextToken h
    exact ⟨c :: v, rfl, hgap, Token.read?_eq_some_iff.1 hread⟩
  · rintro ⟨v, rfl, hgap, h⟩
    obtain ⟨c, w, htext, hc⟩ := h.terminal.text_eq_cons
    have hv : v = c :: (w ++ rest) := by rw [h.append, htext, List.cons_append]
    rw [hv] at h ⊢
    exact nextToken_blanks hgap hc (Token.read?_eq_some_iff.2 h)

end StylePrune
