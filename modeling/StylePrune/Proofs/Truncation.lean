import StylePrune.Proofs.Lexing

/-!
# Cutting a text off between two tokens

Where a text is cut off between two of its tokens, and goes on with a brace or a semicolon instead,
the tokens before the cut stay what they were (`Lexes.cutOff`): no run goes on over such a
character, and none of them is part of a marker. In particular the text before the cut can be
brought to the end of a phrase with braces and semicolons alone (`Phase.lexes_closing`).

* `Token.Taken.cutOff`: one token, with text cut off behind it.
* `Lexes.cutOff`: all tokens before the cut.
* `Phase.lexes_closing`: what closes a phase is lexed and leads back between two phrases.
-/

namespace StylePrune

open Lexeme (textOf)

/-! ## One token -/

namespace Token

section

variable {x : Char} {u w : Text} {t : Token}

/-- A run ends where it ended, unless what stands there is a backslash with nothing left behind
it. -/
theorem takeEscaped_cutOff {isMember : Char → Bool} (hback : isMember '\\' = false)
    (hx : isMember x = false ∧ x ≠ '\\') (hu : u ≠ ['\\']) {k : Text}
    (h : takeEscaped isMember (k ++ (u ++ w)) = (k, u ++ w)) (r : Text) :
    takeEscaped isMember (k ++ (u ++ x :: r)) = (k, u ++ x :: r) := by
  have hk : Escaped isMember k := ((takeEscaped_eq_iff hback).1 h).2.1
  rw [takeEscaped_of_escaped hback hk] at h ⊢
  have hnone : (takeEscaped isMember (u ++ w)).1 = [] := by
    have hfst : k ++ (takeEscaped isMember (u ++ w)).1 = k := congrArg Prod.fst h
    simpa using hfst
  have hstop : takeEscaped isMember (u ++ x :: r) = ([], u ++ x :: r) := by
    cases u with
    | nil =>
      rw [List.nil_append, takeEscaped.eq_3 _ _ _ (fun _ _ hc => absurd hc hx.2),
        if_neg (by simp [hx.1])]
    | cons c u =>
      have hc : c ≠ '\\' := by
        intro hc
        subst hc
        cases u with
        | nil => exact hu rfl
        | cons d u =>
          rw [List.cons_append, List.cons_append, takeEscaped.eq_2] at hnone
          cases hnone
      rw [List.cons_append, takeEscaped.eq_3 _ _ _ (fun _ _ h => absurd h hc)] at hnone ⊢
      by_cases hmember : isMember c = true
      · rw [if_pos hmember] at hnone
        cases hnone
      · rw [if_neg hmember]
  rw [hstop, List.append_nil]

section

variable (hx : isStructural x = true)
include hx

/-- What was cut from a text is read again where the text behind it is cut off. -/
theorem Cut.cutOff {s rest : Text} (h : Cut s t rest) (hrest : rest = u ++ w) (hu : u ≠ ['\\'])
    (r : Text) : readPlain? (t.text ++ (u ++ x :: r)) = some (t, u ++ x :: r) := by
  obtain ⟨hchunk, hkeyword, hback⟩ := run_stop hx
  cases h with
  | openBrace | closeBrace | semicolon => rfl
  | @comment s body _ hbody =>
    show (closeComment (body ++ (u ++ x :: r))).map _ = _
    rw [closeComment_append_right (closeComment_self hbody)]
    rfl
  | slash hstar =>
    apply readPlain?_slash
    cases u with
    | nil =>
      intro hhead
      cases hhead
      cases hx
    | cons c u =>
      rw [hrest] at hstar
      exact hstar
  | @atKeyword s k _ hk hne =>
    have happ := takeEscaped_append isKeywordChar s
    rw [hk] at happ
    show readRun? .atKeyword isKeywordChar ['@'] (k ++ (u ++ x :: r)) = _
    rw [← happ, hrest] at hk
    have hagain := takeEscaped_cutOff rfl ⟨hkeyword, hback⟩ hu hk r
    exact readRun?_eq_some_iff.2 ⟨k, hagain, hne, rfl⟩
  | @string q s body _ hq hbody =>
    show readPlain? (q :: (body ++ (u ++ x :: r))) = _
    rw [readPlain?_quote hq,
      closeString_append_right (ne_backslash_of_quote hq) (closeString_self hbody)]
    rfl
  | @chunk c s k _ hslash hat hk hne =>
    have happ := takeEscaped_append isChunkChar (c :: s)
    have hrun : Escaped isChunkChar k := ((takeEscaped_eq_iff rfl).1 hk).2.1
    rw [hk] at happ
    rw [← happ, hrest] at hk
    have hagain := takeEscaped_cutOff rfl ⟨hchunk, hback⟩ hu hk r
    obtain ⟨d, v, rfl⟩ := List.exists_cons_of_ne_nil hne
    obtain ⟨rfl, -⟩ := List.cons.inj happ
    obtain ⟨hstruct, -, hquote⟩ := first_of_chunk hrun rfl
    show readPlain? (d :: (v ++ (u ++ x :: r))) = _
    rw [readPlain?_chunk _ hstruct hslash hat hquote]
    exact readRun?_eq_some_iff.2 ⟨d :: v, hagain, hne, rfl⟩

theorem text_separator : (separator x).text = [x] := by
  simp only [isStructural, Bool.or_eq_true, beq_iff_eq] at hx
  rcases hx with (rfl | rfl) | rfl <;> rfl

theorem not_mem_marker : x ∉ ['<', '!', '-', '>'] := by
  simp only [isStructural, Bool.or_eq_true, beq_iff_eq] at hx
  rcases hx with (rfl | rfl) | rfl <;> decide

end

/-- The text of a marker is one. -/
theorem markerFirst_of_isMarker (ht : t.isMarker = true) (s : Text) :
    MarkerFirst (t.text ++ s) := by
  cases t with
  | openMarker => exact .inl ⟨s, rfl⟩
  | closeMarker => exact .inr ⟨s, rfl⟩
  | _ => cases ht

theorem read?_marker (ht : t.isMarker = true) (s : Text) :
    read? true (t.text ++ s) = some (t, s) := by
  rw [read?_eq_readMarker? (markerFirst_of_isMarker ht s)]
  exact readMarker?_eq_some_iff.2 ⟨ht, rfl⟩

theorem read?_separator (hx : isStructural x = true) (markers : Bool) (r : Text) :
    read? markers (x :: r) = some (separator x, r) := by
  have hmark : ¬ MarkerFirst (x :: r) := by
    have hnone := markerFirst_append_iff (not_mem_marker hx) [] r
    rw [← List.nil_append (x :: r), hnone]
    simp [MarkerFirst]
  rw [read?_eq_readPlain? fun hboth => hmark hboth.2, readPlain?_separator hx]

theorem read?_cutOff {markers : Bool} (hx : isStructural x = true) (hu : u ≠ ['\\'])
    (h : read? markers (t.text ++ (u ++ w)) = some (t, u ++ w)) (r : Text) :
    read? markers (t.text ++ (u ++ x :: r)) = some (t, u ++ x :: r) := by
  by_cases hmark : markers = true ∧ MarkerFirst (t.text ++ (u ++ w))
  · have ht : t.isMarker = true := (read?_eq_some_iff.1 h).marker.2 hmark
    rw [hmark.1]
    exact read?_marker ht _
  · have hmark' : ¬ (markers = true ∧ MarkerFirst (t.text ++ (u ++ x :: r))) := by
      intro hboth
      have hfirst := hboth.2
      rw [← List.append_assoc, markerFirst_append_iff (not_mem_marker hx)] at hfirst
      refine hmark ⟨hboth.1, ?_⟩
      rw [← List.append_assoc]
      exact hfirst.imp (fun hp => hp.trans (List.prefix_append _ w))
        fun hp => hp.trans (List.prefix_append _ w)
    rw [read?_eq_readPlain? hmark] at h
    rw [read?_eq_readPlain? hmark']
    exact (cut_of_readPlain? h).cutOff hx rfl hu r

/-- A token is taken still where the text behind it is cut off. -/
theorem Taken.cutOff {markers : Bool} (hx : isStructural x = true) (hu : u ≠ ['\\'])
    (h : Taken (markers = true) (t.text ++ (u ++ w)) t (u ++ w)) (r : Text) :
    Taken (markers = true) (t.text ++ (u ++ x :: r)) t (u ++ x :: r) := by
  rw [← read?_eq_some_iff] at h ⊢
  exact read?_cutOff hx hu h r

end

/-- No token is a backslash. -/
theorem Terminal.text_ne_backslash {t : Token} (h : t.Terminal) : t.text ≠ ['\\'] := by
  intro htext
  cases h with
  | chunk hrun =>
    rw [text] at htext
    rw [htext] at hrun
    cases hrun with
    | member hc => cases hc
  | @string q body hq => simp [text] at htext
  | _ => cases htext

end Token

/-! ## The tokens before the cut -/

namespace Lexes

variable {before ls : List Lexeme} {s w gap left : Text} {x : Char}

theorem textOf_ne_backslash (h : Lexes before s ls left)
    (hgap : ∀ c ∈ gap, Text.isBlank c = true) : textOf ls ++ gap ≠ ['\\'] := by
  have hblank : ∀ {g : Text}, (∀ c ∈ g, Text.isBlank c = true) → g ≠ ['\\'] := by
    intro g hg heq
    have hback := hg '\\' (by simp [heq])
    cases hback
  cases h with
  | nil => exact hblank hgap
  | @cons _ _ _ _ l ls hlgap htaken _ =>
    intro heq
    rw [Lexeme.textOf_cons, Lexeme.text, List.append_assoc, List.append_assoc] at heq
    have hne : l.token.text ≠ [] := by
      obtain ⟨c, v, htext, -⟩ := htaken.terminal.text_eq_cons
      simp [htext]
    rcases List.append_eq_singleton_iff.1 heq with ⟨-, htoken⟩ | ⟨hlback, -⟩
    · rcases List.append_eq_singleton_iff.1 htoken with ⟨hnil, -⟩ | ⟨hback, -⟩
      · exact hne hnil
      · exact htaken.terminal.text_ne_backslash hback
    · exact hblank hlgap hlback

/-- What was lexed is lexed again where the text behind it is cut off. Induction on the lexemes: a
token depends on the text behind it, but not beyond the cut. -/
theorem cutOff (hx : isStructural x = true) (hgap : ∀ c ∈ gap, Text.isBlank c = true)
    (h : Lexes before s ls (gap ++ w)) (r : Text) :
    Lexes before (textOf ls ++ (gap ++ x :: r)) ls (gap ++ x :: r) := by
  generalize hleft : gap ++ w = left at h
  induction h with
  | nil => exact .nil _ _
  | @cons before s rest left l ls hlgap htaken hrest ih =>
    subst hleft
    have hs : s = l.token.text ++ rest := htaken.append
    have hsplit : rest = textOf ls ++ gap ++ w := by
      rw [hrest.append_eq, List.append_assoc]
    obtain ⟨markers, hmarkers⟩ := exists_markers before
    rw [← propext hmarkers, hs, hsplit] at htaken
    have hagain := htaken.cutOff hx (hrest.textOf_ne_backslash hgap) r
    rw [propext hmarkers, List.append_assoc] at hagain
    rw [Lexeme.textOf_cons, Lexeme.text, List.append_assoc, List.append_assoc]
    exact .cons hlgap hagain (ih rfl)

theorem singleton_iff {l : Lexeme} :
    Lexes before s [l] left ↔
      ∃ v, s = l.gap ++ v ∧ (∀ c ∈ l.gap, Text.isBlank c = true) ∧
        Token.Taken (Awaits before) v l.token left := by
  constructor
  · intro h
    cases h with
    | cons hgap htaken hrest =>
      cases hrest
      exact ⟨_, rfl, hgap, htaken⟩
  · intro h
    obtain ⟨v, rfl, hgap, htaken⟩ := h
    exact .cons hgap htaken (.nil _ _)

/-- A structural character is lexed wherever it stands. -/
theorem separator (hx : isStructural x = true) (before : List Lexeme)
    (hgap : ∀ c ∈ gap, Text.isBlank c = true) (r : Text) :
    Lexes before (gap ++ x :: r) [⟨gap, Token.separator x⟩] r := by
  obtain ⟨markers, hmarkers⟩ := exists_markers before
  have hnext : nextToken markers (gap ++ x :: r) = .found gap (Token.separator x) r :=
    nextToken_blanks hgap (Token.isBlank_structural hx) (Token.read?_separator hx markers r)
  exact (cons_iff hmarkers).2 ⟨r, hnext, .nil _ _⟩

/-- Behind a closing brace any other text may stand. -/
theorem behind_brace (h : Lexes before s ls left) (hbrace : BehindBrace ls) (r : Text) :
    Lexes before (textOf ls ++ r) ls r := by
  obtain ⟨⟨gap, t⟩, hlast, hclose⟩ := hbrace
  obtain ⟨init, rfl⟩ := List.getLast?_eq_some_iff.1 hlast
  obtain rfl : t = .closeBrace := hclose
  obtain ⟨v, hinit, hl⟩ := append_iff.1 h
  obtain ⟨w, rfl, hgap, -⟩ := singleton_iff.1 hl
  have hagain := hinit.cutOff (x := '}') rfl hgap r
  have htext : textOf (init ++ [⟨gap, .closeBrace⟩]) ++ r = textOf init ++ (gap ++ '}' :: r) := by
    simp [Lexeme.text, Token.text]
  rw [htext]
  exact append_iff.2 ⟨_, hagain, separator (x := '}') rfl _ hgap r⟩

/-- A marker is lexed where one is awaited, whatever stands behind it. -/
theorem marker {t : Token} (ht : t.isMarker = true) (hawaits : Awaits before)
    (hgap : ∀ c ∈ gap, Text.isBlank c = true) (r : Text) :
    Lexes before (gap ++ (t.text ++ r)) [⟨gap, t⟩] r := by
  have htaken := Token.read?_eq_some_iff.1 (Token.read?_marker ht r)
  rw [propext (iff_of_true rfl hawaits : true = true ↔ Awaits before)] at htaken
  exact singleton_iff.2 ⟨_, rfl, hgap, htaken⟩

end Lexes

/-! ## Closing what is open -/

namespace Phase

/-- What brings the phase to the end of a phrase. -/
def closing : Phase → Text
  | .between => [';']
  | .ruleHead | .atRuleHead => ['{', '}']
  | .block d => List.replicate (d + 1) '}'

theorem closing_eq_cons (m : Phase) : ∃ x r, m.closing = x :: r ∧ isStructural x = true := by
  cases m with
  | between => exact ⟨';', [], rfl, rfl⟩
  | ruleHead | atRuleHead => exact ⟨'{', ['}'], rfl, rfl⟩
  | block d => exact ⟨'}', List.replicate d '}', rfl, rfl⟩

/-- What closes a phase is lexed, and leads back between two phrases. -/
theorem lexes_closing (m : Phase) (before : List Lexeme) {gap : Text}
    (hgap : ∀ c ∈ gap, Text.isBlank c = true) :
    ∃ ls, Lexes before (gap ++ m.closing) ls [] ∧ m.run ls = some .between := by
  have hnil : ∀ c ∈ ([] : Text), Text.isBlank c = true := by simp
  cases m with
  | between => exact ⟨[⟨gap, .semicolon⟩], .separator (x := ';') rfl _ hgap [], rfl⟩
  | ruleHead | atRuleHead =>
    have hopen := Lexes.separator (x := '{') rfl before hgap ['}']
    have hclose := Lexes.separator (x := '}') rfl (before ++ [⟨gap, .openBrace⟩]) hnil []
    exact ⟨[⟨gap, .openBrace⟩, ⟨[], .closeBrace⟩], Lexes.append_iff.2 ⟨['}'], hopen, hclose⟩, rfl⟩
  | block d =>
    induction d generalizing before gap with
    | zero => exact ⟨[⟨gap, .closeBrace⟩], .separator (x := '}') rfl _ hgap [], rfl⟩
    | succ d ih =>
      have hclose := Lexes.separator (x := '}') rfl before hgap (closing (.block d))
      obtain ⟨ls, hls, hrun⟩ := ih (before ++ [⟨gap, .closeBrace⟩]) hnil
      refine ⟨⟨gap, .closeBrace⟩ :: ls, Lexes.append_iff.2 ⟨_, hclose, hls⟩, ?_⟩
      rw [run_cons (step_closeBrace (d + 1))]
      exact hrun

end Phase

end StylePrune
