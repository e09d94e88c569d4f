import StylePrune.Proofs.Scan

/-!
# Tokens and modes

The reader of stylesheets takes whole tokens, the modes read one character after the other. Here the
two are brought together, for each kind of token and then for heads. What the reader accepts is then
said without it:

* **`nextToken_run`**, **`nextToken_of_flat`** — a token that is read, and a token to be read.
* **`readHead_eq_ok_iff`** — a head is what can be read in a row from between two tokens on, up to
  a brace or a semicolon.

A reader is given the text behind a piece too, so each lemma about a piece says which texts may
follow it. Behind a head stands a character that structures the stylesheet, and no other token takes
it.
-/

namespace StylePrune

open Mode

/-- A text is read alike in two modes in which a token may end, when its first character is. -/
theorem Mode.flat_iff_of_step {m n : Mode} {s : Text} (hm : m.rests = true) (hn : n.rests = true)
    (hstep : ∀ c ∈ s.head?, m.step c = n.step c) : Flat m s ↔ Flat n s := by
  cases s with
  | nil => exact ⟨fun _ => ⟨n, rfl, hn⟩, fun _ => ⟨m, rfl, hm⟩⟩
  | cons c s => simp only [Flat, run_cons, hstep c rfl]

/-! ## Comments and strings -/

/-- A comment is found again when more text stands behind it. -/
theorem closeComment_append_right {s body rest : Text} (h : closeComment s = some (body, rest))
    (y : Text) : closeComment (s ++ y) = some (body, rest ++ y) := by
  fun_induction closeComment s generalizing body rest with
  | case1 => simp at h
  | case2 r =>
    cases h
    rfl
  | case3 c r hne ih =>
    obtain ⟨⟨b, t⟩, hb, heq⟩ := Option.map_eq_some_iff.1 h
    cases heq
    -- an asterisk at the end of `r` cannot close the comment: then none would close it in `r`
    have hends : ∀ z, c = '*' → r ++ y = '/' :: z → False := by
      rintro z rfl hz
      cases r with
      | nil => simp [closeComment] at hb
      | cons d r =>
        rw [List.cons_append, List.cons.injEq] at hz
        exact hne r rfl (by rw [hz.1])
    rw [List.cons_append, closeComment.eq_3 c (r ++ y) hends, ih hb]
    rfl

theorem closeComment_self {s body rest : Text} (h : closeComment s = some (body, rest)) :
    closeComment body = some (body, []) := by
  fun_induction closeComment s generalizing body rest with
  | case1 => simp at h
  | case2 r =>
    cases h
    rfl
  | case3 c r hne ih =>
    obtain ⟨⟨b, t⟩, hb, heq⟩ := Option.map_eq_some_iff.1 h
    cases heq
    rw [closeComment.eq_3 c b ?_, ih hb]
    · rfl
    · rintro z rfl rfl
      exact hne (z ++ rest) rfl (closeComment_append hb)

/-- A comment that is closed is read to its end. Behind an asterisk the same holds, unless a slash
comes first. -/
theorem closeComment_run {s body rest : Text} (h : closeComment s = some (body, rest)) :
    run .comment body = some .fresh ∧
      (s.head? ≠ some '/' → run .commentStar body = some .fresh) := by
  fun_induction closeComment s generalizing body rest with
  | case1 => simp at h
  | case2 r =>
    cases h
    exact ⟨rfl, fun _ => rfl⟩
  | case3 c r hne ih =>
    obtain ⟨⟨b, t⟩, hb, heq⟩ := Option.map_eq_some_iff.1 h
    cases heq
    have hb' := ih hb
    by_cases hc : c = '*'
    · subst hc
      have hslash : r.head? ≠ some '/' := by
        intro hr
        cases r with
        | nil => cases hr
        | cons d r =>
          cases hr
          exact hne r rfl rfl
      have hstar := hb'.2 hslash
      exact ⟨by simp [step, hstar], fun _ => by simp [step, hstar]⟩
    · refine ⟨by simp [step, hc, hb'.1], fun hslash => ?_⟩
      have hc' : c ≠ '/' := fun hc' => hslash (by rw [hc']; rfl)
      simp [step, hc, hc', hb'.1]

/-- A character in front of a comment belongs to it, unless it ends the comment right away. -/
theorem closeComment_cons {c : Char} {s body rest : Text}
    (hne : ∀ r, c = '*' → s = '/' :: r → False) (h : closeComment s = some (body, rest)) :
    closeComment (c :: s) = some (c :: body, rest) := by
  rw [closeComment.eq_3 c s hne, h]
  rfl

/-- What is read inside a comment, to where a token may end, holds the end of that comment. The
second part is about what stands behind an asterisk. Induction on the text. -/
theorem closeComment_of_run {u : Text} {n : Mode} (hn : n.rests = true) :
    (run .comment u = some n →
      ∃ body u', closeComment u = some (body, u') ∧ run .fresh u' = some n) ∧
    (run .commentStar u = some n →
      ∃ body u', closeComment ('*' :: u) = some (body, u') ∧ run .fresh u' = some n) := by
  induction u with
  | nil =>
    constructor
    · intro h
      cases h
      cases hn
    · intro h
      cases h
      cases hn
  | cons c u ih =>
    constructor
    · intro h
      by_cases hc : c = '*'
      · subst hc
        exact ih.2 h
      · obtain ⟨body, u', hbody, hrun⟩ := ih.1 (by simpa [step, hc] using h)
        exact ⟨c :: body, u', closeComment_cons (by simp [hc]) hbody, hrun⟩
    · intro h
      by_cases hslash : c = '/'
      · subst hslash
        exact ⟨['*', '/'], u, rfl, h⟩
      · -- the asterisk does not end the comment, so what follows it is looked at as before
        have hbehind : ∃ body u', closeComment (c :: u) = some (body, u') ∧
            run .fresh u' = some n := by
          by_cases hc : c = '*'
          · subst hc
            exact ih.2 h
          · obtain ⟨body, u', hbody, hrun⟩ := ih.1 (by simpa [step, hc, hslash] using h)
            exact ⟨c :: body, u', closeComment_cons (by simp [hc]) hbody, hrun⟩
        obtain ⟨body, u', hbody, hrun⟩ := hbehind
        exact ⟨'*' :: body, u', closeComment_cons (by simp [hslash]) hbody, hrun⟩

theorem closeString_append_right {multiline : Bool} {q : Char} {s body rest : Text} (hq : q ≠ '\\')
    (h : closeString multiline q s = some (body, rest)) (y : Text) :
    closeString multiline q (s ++ y) = some (body, rest ++ y) := by
  fun_induction closeString multiline q s generalizing body rest with
  | case1 => simp at h
  | case2 c r ih =>
    obtain ⟨⟨b, t⟩, hb, heq⟩ := Option.map_eq_some_iff.1 h
    cases heq
    rw [List.cons_append, List.cons_append, closeString.eq_2, ih hb]
    rfl
  | case3 c r hne hc =>
    cases h
    have hc' : c = q := by simpa using hc
    subst hc'
    rw [List.cons_append, closeString.eq_3 _ _ _ _ (fun _ _ h => absurd h hq), if_pos hc]
  | case4 => simp at h
  | case5 c r hne hc hstop ih =>
    obtain ⟨⟨b, t⟩, hb, heq⟩ := Option.map_eq_some_iff.1 h
    cases heq
    have hc' : c ≠ '\\' := by
      rintro rfl
      simp at hstop
    rw [List.cons_append, closeString.eq_3 _ _ _ _ (fun _ _ h => absurd h hc'), if_neg hc,
      if_neg hstop, ih hb]
    rfl

theorem closeString_self {multiline : Bool} {q : Char} {s body rest : Text}
    (h : closeString multiline q s = some (body, rest)) :
    closeString multiline q body = some (body, []) := by
  fun_induction closeString multiline q s generalizing body rest with
  | case1 => simp at h
  | case2 c r ih =>
    obtain ⟨⟨b, t⟩, hb, heq⟩ := Option.map_eq_some_iff.1 h
    cases heq
    rw [closeString.eq_2, ih hb]
    rfl
  | case3 c r hne hc =>
    cases h
    rw [closeString.eq_3 _ _ _ _ (by simp), if_pos hc]
  | case4 => simp at h
  | case5 c r hne hc hstop ih =>
    obtain ⟨⟨b, t⟩, hb, heq⟩ := Option.map_eq_some_iff.1 h
    cases heq
    have hc' : c ≠ '\\' := by
      rintro rfl
      simp at hstop
    rw [closeString.eq_3 _ _ _ _ (fun _ _ h => absurd h hc'), if_neg hc, if_neg hstop, ih hb]
    rfl

/-- A string that is closed on its line is closed where lines do not matter. -/
theorem closeString_multiline {q : Char} {s body rest : Text}
    (h : closeString false q s = some (body, rest)) :
    closeString true q s = some (body, rest) := by
  fun_induction closeString false q s generalizing body rest with
  | case1 => simp at h
  | case2 c r ih =>
    obtain ⟨⟨b, t⟩, hb, heq⟩ := Option.map_eq_some_iff.1 h
    rw [closeString.eq_2, ih hb, ← heq]
    rfl
  | case3 c r hne hc => rw [closeString.eq_3 _ _ _ _ hne, if_pos hc, h]
  | case4 => simp at h
  | case5 c r hne hc hstop ih =>
    obtain ⟨⟨b, t⟩, hb, heq⟩ := Option.map_eq_some_iff.1 h
    have hc' : c ≠ '\\' := by
      rintro rfl
      simp at hstop
    rw [closeString.eq_3 _ _ _ _ hne, if_neg hc, if_neg (by simp [hc']), ih hb, ← heq]
    rfl

/-- A string that is closed is read to its end. -/
theorem closeString_run {q : Char} {s body rest : Text} (hq : q ≠ '\\')
    (h : closeString false q s = some (body, rest)) : run (.string q) body = some .fresh := by
  fun_induction closeString false q s generalizing body rest with
  | case1 => simp at h
  | case2 c r ih =>
    obtain ⟨⟨b, t⟩, hb, heq⟩ := Option.map_eq_some_iff.1 h
    cases heq
    simp [step, ih hb]
  | case3 c r hne hc =>
    cases h
    have hc' : c = q := by simpa using hc
    subst hc'
    simp [step, hq]
  | case4 => simp at h
  | case5 c r hne hc hstop ih =>
    obtain ⟨⟨b, t⟩, hb, heq⟩ := Option.map_eq_some_iff.1 h
    cases heq
    simp only [Bool.or_eq_true, beq_iff_eq, Bool.not_false, Bool.true_and, not_or] at hc hstop
    simp [step, hc, hstop, ih hb]

/-- What is read inside a string, to where a token may end, holds the end of that string. -/
theorem closeString_of_run {q : Char} {u : Text} {n : Mode} (hq : q ≠ '\\') (hn : n.rests = true)
    (h : run (.string q) u = some n) :
    ∃ body u', closeString false q u = some (body, u') ∧ run .fresh u' = some n := by
  fun_induction closeString false q u with
  | case1 =>
    cases h
    cases hn
  | case2 c r ih =>
    obtain ⟨body, u', hbody, hrun⟩ := ih (by simpa [step] using h)
    exact ⟨'\\' :: c :: body, u', by rw [hbody]; rfl, hrun⟩
  | case3 c r hne hc =>
    have hc' : c = q := by simpa using hc
    subst hc'
    exact ⟨[c], r, rfl, by simpa [step, hq] using h⟩
  | case4 c r hne hc hstop =>
    -- a backslash is the last character, and a line end is not read
    simp only [Bool.or_eq_true, beq_iff_eq, Bool.not_false, Bool.true_and] at hc hstop
    by_cases hc' : c = '\\'
    · subst hc'
      cases r with
      | nil =>
        cases h
        cases hn
      | cons d r => exact absurd rfl (hne d r rfl)
    · have hline : Text.isLineEnd c = true := hstop.resolve_left hc'
      simp [step, hc, hc', hline] at h
  | case5 c r hne hc hstop ih =>
    simp only [Bool.or_eq_true, beq_iff_eq, Bool.not_false, Bool.true_and, not_or] at hc hstop
    obtain ⟨body, u', hbody, hrun⟩ := ih (by simpa [step, hc, hstop] using h)
    exact ⟨c :: body, u', by rw [hbody]; rfl, hrun⟩

/-! ## Chunks and keywords -/

namespace Token

/-- The characters of a class are those that are read in a mode without leaving it. Behind the
backslash of an escape any character is. -/
structure Runs (isMember : Char → Bool) (m e : Mode) : Prop where
  member : ∀ c, isMember c = true → m.step c = some m
  other : ∀ c, isMember c = false → c ≠ '\\' → m.step c = step .fresh c
  backslash : isMember '\\' = false
  opens : m.step '\\' = some e
  closes : ∀ c, e.step c = some m
  rests : m.rests = true
  open_rests : e.rests = false

section

variable {isMember : Char → Bool}

/-- A run that is not empty begins as the text does, with a member or an escape. -/
theorem takeEscaped_ne_nil {s u rest : Text} (h : takeEscaped isMember s = (u, rest))
    (hu : u ≠ []) :
    ∃ c v w, s = c :: v ∧ u = c :: w ∧ (c = '\\' ∨ isMember c = true) := by
  fun_cases takeEscaped isMember s with
  | case1 =>
    cases h
    exact absurd rfl hu
  | case2 c r run behind heq =>
    rw [takeEscaped.eq_2, heq] at h
    cases h
    exact ⟨'\\', c :: r, c :: run, rfl, rfl, .inl rfl⟩
  | case3 c r hne hc run behind heq =>
    rw [takeEscaped.eq_3 _ _ _ hne, if_pos hc, heq] at h
    cases h
    exact ⟨c, r, run, rfl, rfl, .inr hc⟩
  | case4 c r hne hc =>
    rw [takeEscaped.eq_3 _ _ _ hne, if_neg hc] at h
    cases h
    exact absurd rfl hu

/-- A run ends where a character stands that is none of it, or at a backslash that ends the text. -/
theorem takeEscaped_rest (s : Text) :
    (takeEscaped isMember s).2 = ['\\'] ∨
      ∀ c ∈ (takeEscaped isMember s).2.head?, isMember c = false ∧ c ≠ '\\' := by
  fun_induction takeEscaped isMember s with
  | case1 => exact .inr (by simp)
  | case2 c rest run behind heq ih => simpa only [heq] using ih
  | case3 c rest _ _ run behind heq ih => simpa only [heq] using ih
  | case4 c rest hne hc =>
    by_cases hback : c = '\\'
    · subst hback
      cases rest with
      | nil => exact .inl rfl
      | cons d rest => exact absurd rfl (hne d rest rfl)
    · refine .inr fun d hd => ?_
      cases hd
      exact ⟨by simpa using hc, hback⟩

/-- A run is found again when text stands behind it that begins with none of its characters. -/
theorem takeEscaped_append_right {s y : Text} (hback : isMember '\\' = false)
    (hy : ∀ c ∈ y.head?, isMember c = false ∧ c ≠ '\\')
     (hs : (takeEscaped isMember s).2 ≠ ['\\']) :
    takeEscaped isMember (s ++ y) =
      ((takeEscaped isMember s).1, (takeEscaped isMember s).2 ++ y) := by
  fun_induction takeEscaped isMember s with
  | case1 =>
    cases y with
    | nil => rfl
    | cons c y =>
      obtain ⟨hc, hc'⟩ := hy c rfl
      rw [List.nil_append, takeEscaped.eq_3 _ _ _ (fun _ _ h => absurd h hc'),
        if_neg (by simp [hc])]
  | case2 c rest run behind heq ih =>
    rw [heq] at ih
    rw [List.cons_append, List.cons_append, takeEscaped.eq_2, ih hs]
  | case3 c rest hne hc run behind heq ih =>
    rw [heq] at ih
    have hback' : c ≠ '\\' := by
      rintro rfl
      rw [hback] at hc
      cases hc
    rw [List.cons_append, takeEscaped.eq_3 _ _ _ (fun _ _ h => absurd h hback'), if_pos hc, ih hs]
  | case4 c rest hne hc =>
    have hback' : c ≠ '\\' := by
      rintro rfl
      cases rest with
      | nil => exact hs rfl
      | cons d rest => exact hne d rest rfl rfl
    rw [List.cons_append, takeEscaped.eq_3 _ _ _ (fun _ _ h => absurd h hback'), if_neg hc]

end

theorem readRun?_eq_some_iff {token : Text → Token} {isMember : Char → Bool} {lead s rest : Text}
    {t : Token} :
    readRun? token isMember lead s = some (t, rest) ↔
      ∃ u, takeEscaped isMember s = (u, rest) ∧ u ≠ [] ∧ t = token (lead ++ u) := by
  rcases hs : takeEscaped isMember s with ⟨_ | ⟨c, u⟩, r⟩
  · simp only [readRun?, hs, reduceCtorEq, Prod.mk.injEq, false_iff]
    rintro ⟨u, ⟨rfl, -⟩, hne, -⟩
    exact hne rfl
  · simp only [readRun?, hs, Option.some.injEq, Prod.mk.injEq]
    constructor
    · rintro ⟨rfl, rfl⟩
      exact ⟨c :: u, ⟨rfl, rfl⟩, by simp, rfl⟩
    · rintro ⟨v, ⟨rfl, rfl⟩, -, rfl⟩
      exact ⟨rfl, rfl⟩

section

variable {isMember : Char → Bool} {m e n : Mode} (hm : Runs isMember m e)
include hm

theorem Runs.run (s : Text) : m.run (takeEscaped isMember s).1 = some m := by
  fun_induction takeEscaped isMember s with
  | case1 => rfl
  | case2 c rest run behind heq ih =>
    rw [heq] at ih
    simp [hm.opens, hm.closes, ih]
  | case3 c rest _ hc run behind heq ih =>
    rw [heq] at ih
    simp [hm.member c hc, ih]
  | case4 => rfl

/-- Behind a run the text is read as between two tokens, unless a single backslash is left. -/
theorem Runs.behind (s : Text) :
    (takeEscaped isMember s).2 = ['\\'] ∨
      ∀ c ∈ (takeEscaped isMember s).2.head?, m.step c = step .fresh c := by
  refine (takeEscaped_rest s).imp_right fun h c hc => ?_
  exact hm.other c (h c hc).1 (h c hc).2

/-- A run is read from a text that can be read to where a token may end, and from that text with
more behind it. -/
theorem Runs.readRun? {c x : Char} {s : Text} (hx : isMember x = false ∧ x ≠ '\\') (r : Text)
    (hc : c = '\\' ∨ isMember c = true) (hn : m.run (c :: s) = some n) (hrest : n.rests = true)
    (token : Text → Token) (lead : Text) :
    ∃ u v, c :: s = u ++ v ∧ Flat .fresh v ∧
      readRun? token isMember lead (c :: s ++ x :: r) = some (token (lead ++ u), v ++ x :: r) := by
  have happ := takeEscaped_append isMember (c :: s)
  have hsnd : m.run (takeEscaped isMember (c :: s)).2 = some n := by
    rw [← run_append_of_run (hm.run (c :: s)), happ, hn]
  -- a single backslash would leave the reader in an escape, where no token ends
  have hback : (takeEscaped isMember (c :: s)).2 ≠ ['\\'] := by
    intro hback
    rw [hback, run_cons, hm.opens] at hsnd
    cases hsnd
    rw [hm.open_rests] at hrest
    cases hrest
  have hne : (takeEscaped isMember (c :: s)).1 ≠ [] := by
    intro hnil
    rw [hnil, List.nil_append] at happ
    have hstop := (takeEscaped_rest (c :: s)).resolve_left hback
    rw [happ] at hstop
    have hc' := hstop c rfl
    rcases hc with rfl | hc
    · exact hc'.2 rfl
    · rw [hc'.1] at hc
      cases hc
  refine ⟨_, _, happ.symm, ?_, ?_⟩
  · have hbehind := (hm.behind (c :: s)).resolve_left hback
    exact (flat_iff_of_step hm.rests rfl hbehind).1 ⟨n, hsnd, hrest⟩
  · refine readRun?_eq_some_iff.2 ⟨_, ?_, hne, rfl⟩
    exact takeEscaped_append_right hm.backslash (by simpa using hx) hback

end

theorem runs_word : Runs isChunkChar .word (.escape false) where
  member c h := by
    simp only [isChunkChar, Bool.not_eq_true', Bool.or_eq_false_iff, beq_eq_false_iff_ne] at h
    obtain ⟨⟨⟨⟨⟨⟨⟨hblank, hopen⟩, hclose⟩, hsemi⟩, hdouble⟩, hsingle⟩, hslash⟩, hback⟩ := h
    by_cases hat : c = '@'
    · simp [step, goOn, hat]
    · simp [step, goOn, begin, isStructural, *]
  other c h _ := by
    refine goOn_eq_begin ?_
    rintro rfl
    exact absurd h (by decide)
  backslash := by decide
  opens := rfl
  closes _ := rfl
  rests := rfl
  open_rests := rfl

/-- Inside a keyword the characters of a keyword are read. -/
theorem runs_keyword : Runs isKeywordChar .keyword (.escape true) where
  member c h := by
    have hback : c ≠ '\\' := by
      rintro rfl
      exact absurd h (by decide)
    simp [step, h, hback]
  other c h hback := by simp [step, h, hback]
  backslash := by decide
  opens := rfl
  closes _ := rfl
  rests := rfl
  open_rests := rfl

/-- Behind the `@` a keyword begins as it goes on. -/
theorem run_atSign {c : Char} (h : c = '\\' ∨ isKeywordChar c = true) (s : Text) :
    run .atSign (c :: s) = run .keyword (c :: s) := by
  have hstep : step .atSign c = step .keyword c := by
    rcases h with rfl | hc
    · rfl
    · simp [step, hc]
  rw [run_cons, hstep, run_cons]

/-! ## Tokens -/

def separator (c : Char) : Token :=
  if c == '{' then .openBrace else if c == '}' then .closeBrace else .semicolon

def isPlain : Token → Bool
  | .comment _ | .string _ | .slash | .atKeyword _ | .chunk _ => true
  | _ => false

section

variable {x : Char} (hx : isStructural x = true)
include hx

theorem isBlank_structural : Text.isBlank x = false := by
  simp only [isStructural, Bool.or_eq_true, beq_iff_eq] at hx
  rcases hx with (rfl | rfl) | rfl <;> rfl

theorem readPlain?_separator (r : Text) : readPlain? (x :: r) = some (separator x, r) := by
  simp only [isStructural, Bool.or_eq_true, beq_iff_eq] at hx
  rcases hx with (rfl | rfl) | rfl <;> rfl

/-- No run goes on over a character that structures the stylesheet. -/
theorem run_stop : isChunkChar x = false ∧ isKeywordChar x = false ∧ x ≠ '\\' := by
  simp only [isStructural, Bool.or_eq_true, beq_iff_eq] at hx
  rcases hx with (rfl | rfl) | rfl <;> decide

end

/-- How a token is cut from the start of a text, and what is left. -/
inductive Cut : Text → Token → Text → Prop where
  | openBrace (rest : Text) : Cut ('{' :: rest) .openBrace rest
  | closeBrace (rest : Text) : Cut ('}' :: rest) .closeBrace rest
  | semicolon (rest : Text) : Cut (';' :: rest) .semicolon rest
  | comment {s body rest : Text} (h : closeComment s = some (body, rest)) :
      Cut ('/' :: '*' :: s) (.comment ('/' :: '*' :: body)) rest
  | slash {rest : Text} (h : rest.head? ≠ some '*') : Cut ('/' :: rest) .slash rest
  | atKeyword {s k rest : Text} (h : takeEscaped isKeywordChar s = (k, rest)) (hk : k ≠ []) :
      Cut ('@' :: s) (.atKeyword ('@' :: k)) rest
  | string {q : Char} {s body rest : Text} (hq : q = '\x22' ∨ q = '\x27')
      (h : closeString false q s = some (body, rest)) : Cut (q :: s) (.string (q :: body)) rest
  | chunk {c : Char} {s u rest : Text} (hslash : c ≠ '/') (hat : c ≠ '@')
      (h : takeEscaped isChunkChar (c :: s) = (u, rest)) (hu : u ≠ []) :
      Cut (c :: s) (.chunk u) rest

/-- Every token that is read was cut in one of these ways. -/
theorem cut_of_readPlain? {s rest : Text} {t : Token} (h : readPlain? s = some (t, rest)) :
    Cut s t rest := by
  unfold readPlain? at h
  split at h
  · cases h
  · cases h
    exact .openBrace rest
  · cases h
    exact .closeBrace rest
  · cases h
    exact .semicolon rest
  · obtain ⟨⟨body, r⟩, hbody, heq⟩ := Option.map_eq_some_iff.1 h
    cases heq
    exact .comment hbody
  · rename_i hstar
    cases h
    refine .slash fun hhead => ?_
    obtain ⟨r, rfl⟩ := List.head?_eq_some_iff.1 hhead
    exact hstar r rfl
  · obtain ⟨k, hk, hne, rfl⟩ := readRun?_eq_some_iff.1 h
    exact .atKeyword hk hne
  · rename_i c s _ _ _ _ hslash hat
    split at h
    · rename_i hquote
      obtain ⟨⟨body, r⟩, hbody, heq⟩ := Option.map_eq_some_iff.1 h
      cases heq
      exact .string (by simpa using hquote) hbody
    · obtain ⟨u, hu, hne, rfl⟩ := readRun?_eq_some_iff.1 h
      exact .chunk hslash hat hu hne

theorem readPlain?_isPlain {s rest : Text} {t : Token} (h : readPlain? s = some (t, rest))
    (hopen : t ≠ .openBrace) (hclose : t ≠ .closeBrace) (hsemi : t ≠ .semicolon) :
    t.isPlain = true := by
  cases cut_of_readPlain? h with
  | openBrace => exact absurd rfl hopen
  | closeBrace => exact absurd rfl hclose
  | semicolon => exact absurd rfl hsemi
  | comment | slash | atKeyword | string | chunk => rfl

/-- A token of a head is read to where a token may end, and what stands behind it is read as it is
between two tokens, unless that is a single backslash. -/
theorem readPlain?_run {s rest : Text} {t : Token} (h : readPlain? s = some (t, rest))
    (ht : t.isPlain = true) :
    ∃ m, run .fresh t.text = some m ∧ m.rests = true ∧
      (rest = ['\\'] ∨ ∀ c ∈ rest.head?, m.step c = step .fresh c) := by
  cases cut_of_readPlain? h with
  | openBrace | closeBrace | semicolon => cases ht
  | comment hbody => exact ⟨.fresh, (closeComment_run hbody).1, rfl, .inr fun _ _ => rfl⟩
  | slash hstar =>
    refine ⟨.slash, rfl, rfl, .inr fun c hc => ?_⟩
    have hc' : c ≠ '*' := by
      rintro rfl
      exact hstar hc
    simp [step, hc']
  | @atKeyword s k _ hk hne =>
    have hrun : run .keyword k = some .keyword := by
      have hrun := runs_keyword.run s
      rwa [hk] at hrun
    obtain ⟨c, v, w, -, rfl, hc⟩ := takeEscaped_ne_nil hk hne
    -- behind the `@` the first character of the keyword is read as the others are
    have hstart : run .fresh ('@' :: c :: w) = some .keyword := (run_atSign hc w).trans hrun
    refine ⟨.keyword, hstart, rfl, ?_⟩
    have hbehind := runs_keyword.behind s
    rwa [hk] at hbehind
  | @string q s body _ hq hbody =>
    have hback : q ≠ '\\' := by
      rcases hq with rfl | rfl <;> decide
    have hstep : step .fresh q = some (.string q) := by
      rcases hq with rfl | rfl <;> rfl
    refine ⟨.fresh, ?_, rfl, .inr fun _ _ => rfl⟩
    show run .fresh (q :: body) = some .fresh
    rw [run_cons, hstep, Option.bind_some, closeString_run hback hbody]
  | @chunk c s u _ _ hat hu hne =>
    have hrun : run .word u = some .word := by
      have hrun := runs_word.run (c :: s)
      rwa [hu] at hrun
    obtain ⟨d, v, w, heq, rfl, -⟩ := takeEscaped_ne_nil hu hne
    cases heq
    -- a chunk that does not begin with `@` is read from between two tokens as from inside of it
    have hstart : step .fresh c = step .word c := (goOn_eq_begin hat).symm
    refine ⟨.word, ?_, rfl, ?_⟩
    · show run .fresh (c :: w) = some .word
      rw [run_cons, hstart, ← run_cons, hrun]
    · have hbehind := runs_word.behind (c :: s)
      rwa [hu] at hbehind

theorem readPlain?_comment {s t rest : Text} (h : readPlain? s = some (.comment t, rest)) :
    ∃ r body, s = '/' :: '*' :: r ∧ t = '/' :: '*' :: body ∧
      closeComment r = some (body, rest) := by
  cases cut_of_readPlain? h with
  | comment hbody => exact ⟨_, _, rfl, rfl, hbody⟩

theorem readPlain?_atKeyword {s t rest : Text} (h : readPlain? s = some (.atKeyword t, rest)) :
    ∃ r k, s = '@' :: r ∧ t = '@' :: k ∧ k ≠ [] ∧ takeEscaped isKeywordChar r = (k, rest) := by
  cases cut_of_readPlain? h with
  | atKeyword hk hne => exact ⟨_, _, rfl, rfl, hne, hk⟩

/-- A slash that no asterisk follows is a token. -/
theorem readPlain?_slash {s : Text} (h : s.head? ≠ some '*') :
    readPlain? ('/' :: s) = some (.slash, s) := by
  cases s with
  | nil => rfl
  | cons d s =>
    refine readPlain?.eq_6 (d :: s) ?_
    rintro z hz
    cases hz
    exact h rfl

theorem readPlain?_quote {q : Char} (hq : q = '\x22' ∨ q = '\x27') (s : Text) :
    readPlain? (q :: s) =
      (closeString false q s).map fun (body, rest) => (.string (q :: body), rest) := by
  rcases hq with rfl | rfl <;> rfl

/-- A text that begins as no other token does begins with a chunk. -/
theorem readPlain?_chunk {c : Char} (s : Text) (hstruct : isStructural c = false) (hslash : c ≠ '/')
    (hat : c ≠ '@') (hquote : ¬ (c = '\x22' ∨ c = '\x27')) :
    readPlain? (c :: s) = readRun? .chunk isChunkChar [] (c :: s) := by
  simp only [isStructural, Bool.or_eq_false_iff, beq_eq_false_iff_ne] at hstruct
  rw [readPlain?.eq_8 c s hstruct.1.1 hstruct.1.2 hstruct.2 (fun _ h => absurd h hslash) hslash hat,
    if_neg (by simpa using hquote)]

/-- A token of a head is read from a text that `y` stands behind, and it leaves a text that can be
read as a head. -/
def FirstToken (s y : Text) : Prop :=
  ∃ t u, t.isPlain = true ∧ s = t.text ++ u ∧ Flat .fresh u ∧ readPlain? (s ++ y) = some (t, u ++ y)

theorem firstToken_comment {v : Text} (h : Flat .fresh ('/' :: '*' :: v)) (y : Text) :
    FirstToken ('/' :: '*' :: v) y := by
  obtain ⟨n, hn, hrest⟩ := h
  have hrun : run .comment v = some n := hn
  obtain ⟨body, u, hbody, hu⟩ := (closeComment_of_run hrest).1 hrun
  refine ⟨.comment ('/' :: '*' :: body), u, rfl, ?_, ⟨n, hu, hrest⟩, ?_⟩
  · rw [closeComment_append hbody]
    rfl
  · show (closeComment (v ++ y)).map _ = _
    rw [closeComment_append_right hbody]
    rfl

theorem firstToken_slash {v y : Text} (h : Flat .fresh ('/' :: v)) (hy : y.head? ≠ some '*')
    (hstar : v.head? ≠ some '*') : FirstToken ('/' :: v) y := by
  have hstep : ∀ d ∈ v.head?, step .slash d = step .fresh d := by
    intro d hd
    have hd' : d ≠ '*' := fun hd' => hstar (by rw [← hd']; exact hd)
    simp [step, hd']
  have hv : Flat .slash v := h
  refine ⟨.slash, v, rfl, rfl, (flat_iff_of_step rfl rfl hstep).1 hv, readPlain?_slash ?_⟩
  cases v with
  | nil => exact hy
  | cons d w => exact hstar

theorem firstToken_string {c : Char} {v : Text} (hquote : c = '\x22' ∨ c = '\x27')
    (h : Flat .fresh (c :: v)) (y : Text) : FirstToken (c :: v) y := by
  have hq : c ≠ '\\' := by
    rintro rfl
    exact absurd hquote (by decide)
  have hstep : step .fresh c = some (.string c) := by
    rcases hquote with rfl | rfl <;> rfl
  obtain ⟨n, hn, hrest⟩ := h
  rw [run_cons, hstep, Option.bind_some] at hn
  obtain ⟨body, u, hbody, hu⟩ := closeString_of_run hq hrest hn
  refine ⟨.string (c :: body), u, rfl, ?_, ⟨n, hu, hrest⟩, ?_⟩
  · rw [closeString_append hbody]
    rfl
  · rw [List.cons_append, readPlain?_quote hquote, closeString_append_right hq hbody]
    rfl

section

variable {c x : Char} {v : Text} (hx : isStructural x = true) (r : Text)
include hx

theorem firstToken_keyword (h : Flat .fresh ('@' :: v)) : FirstToken ('@' :: v) (x :: r) := by
  obtain ⟨n, hn, hrest⟩ := h
  obtain ⟨-, hkeyword, hback⟩ := run_stop hx
  cases v with
  | nil =>
    cases hn
    cases hrest
  | cons d w =>
    -- behind the `@` nothing but a keyword can be read
    have hd : d = '\\' ∨ isKeywordChar d = true := by
      by_contra hd
      rw [not_or] at hd
      have hnone : step .atSign d = none := by simp [step, hd]
      have hrun : run .atSign (d :: w) = some n := hn
      rw [run_cons, hnone] at hrun
      cases hrun
    have hrun : run .keyword (d :: w) = some n := (run_atSign hd w).symm.trans hn
    obtain ⟨a, u, hu, hflat, hread⟩ :=
      runs_keyword.readRun? ⟨hkeyword, hback⟩ r hd hrun hrest .atKeyword ['@']
    exact ⟨.atKeyword ('@' :: a), u, rfl, by rw [hu]; rfl, hflat, hread⟩

theorem firstToken_chunk (h : Flat .fresh (c :: v)) (hc : Text.isBlank c = false) (hslash : c ≠ '/')
    (hat : c ≠ '@') (hquote : ¬ (c = '\x22' ∨ c = '\x27')) : FirstToken (c :: v) (x :: r) := by
  obtain ⟨n, hn, hrest⟩ := h
  obtain ⟨hchunk, -, hback⟩ := run_stop hx
  -- no head goes on with a character that structures the stylesheet
  have hstruct : isStructural c = false := by
    by_contra hs
    have hnone : step .fresh c = none := begin_structural (by simpa using hs)
    rw [run_cons, hnone] at hn
    cases hn
  have hrun : run .word (c :: v) = some n := by
    have hstep : step .word c = step .fresh c := goOn_eq_begin hat
    rw [run_cons, hstep, ← run_cons, hn]
  have hchar : c = '\\' ∨ isChunkChar c = true := by
    rw [or_iff_not_imp_left]
    intro hc'
    simp only [isStructural, Bool.or_eq_false_iff, beq_eq_false_iff_ne] at hstruct
    rw [not_or] at hquote
    simp [isChunkChar, hc, hstruct, hslash, hquote, hc']
  obtain ⟨a, u, hu, hflat, hread⟩ :=
    runs_word.readRun? ⟨hchunk, hback⟩ r hchar hrun hrest .chunk []
  refine ⟨.chunk a, u, rfl, hu, hflat, ?_⟩
  rw [List.cons_append, readPlain?_chunk _ hstruct hslash hat hquote]
  exact hread

/-- Of a text that can be read as a head, up to a character that structures the stylesheet, a token
is read that ends before that character, and the rest of the text can be read as a head too. -/
theorem readPlain?_of_flat (hc : Text.isBlank c = false) (h : Flat .fresh (c :: v)) :
    FirstToken (c :: v) (x :: r) := by
  by_cases hslash : c = '/'
  · subst hslash
    by_cases hstar : v.head? = some '*'
    · obtain ⟨w, rfl⟩ := List.head?_eq_some_iff.1 hstar
      exact firstToken_comment h (x :: r)
    · refine firstToken_slash h ?_ hstar
      rintro ⟨⟩
      cases hx
  by_cases hat : c = '@'
  · subst hat
    exact firstToken_keyword hx r h
  by_cases hquote : c = '\x22' ∨ c = '\x27'
  · exact firstToken_string hquote h (x :: r)
  exact firstToken_chunk hx r h hc hslash hat hquote

end

end Token

/-! ## Heads -/

theorem Mode.run_blanks {s : Text} (h : ∀ c ∈ s, Text.isBlank c = true) :
    run .fresh s = some .fresh := by
  induction s with
  | nil => rfl
  | cons c s ih =>
    have hc : Text.isBlank c = true := h c List.mem_cons_self
    have hs := ih fun d hd => h d (List.mem_cons_of_mem c hd)
    have hstep : step .fresh c = some .fresh := by simp [step, begin, hc]
    rw [run_cons, hstep, Option.bind_some, hs]

theorem Mode.run_blanks_append {gap : Text} (h : ∀ c ∈ gap, Text.isBlank c = true) (s : Text) :
    run .fresh (gap ++ s) = run .fresh s :=
  run_append_of_run (run_blanks h) s

/-- A text is a run of characters of a class and, behind them, a text that does not begin with one.
-/
theorem Text.exists_run (p : Char → Bool) (s : Text) :
    ∃ a v, s = a ++ v ∧ (∀ c ∈ a, p c = true) ∧ ∀ c ∈ v.head?, p c = false := by
  refine ⟨_, _, List.takeWhile_append_dropWhile.symm, fun c => List.mem_takeWhile_imp, ?_⟩
  intro c hc
  have hhead := List.head?_dropWhile_not p s
  rw [Option.mem_def] at hc
  rw [hc] at hhead
  simpa using hhead

theorem Text.exists_blanks (s : Text) :
    ∃ gap v, s = gap ++ v ∧ (∀ c ∈ gap, isBlank c = true) ∧ ∀ c ∈ v.head?, isBlank c = false :=
  exists_run isBlank s

theorem nextToken_blanks {markers : Bool} {gap v rest : Text} {c : Char} {t : Token}
    (hgap : ∀ d ∈ gap, Text.isBlank d = true) (hc : Text.isBlank c = false)
    (h : Token.read? markers (c :: v) = some (t, rest)) :
    nextToken markers (gap ++ c :: v) = .found gap t rest := by
  have hdrop : (gap ++ c :: v).dropWhile Text.isBlank = c :: v := by
    rw [List.dropWhile_append_of_pos hgap, List.dropWhile_cons_of_neg (by simp [hc])]
  have htake : (gap ++ c :: v).takeWhile Text.isBlank = gap := by
    rw [List.takeWhile_append_of_pos hgap, List.takeWhile_cons_of_neg (by simp [hc]),
      List.append_nil]
  simp only [nextToken, hdrop, h, htake]

theorem nextToken_first {markers : Bool} {v rest : Text} {c : Char} {t : Token}
    (hc : Text.isBlank c = false) (h : Token.read? markers (c :: v) = some (t, rest)) :
    nextToken markers (c :: v) = .found [] t rest :=
  nextToken_blanks (List.forall_mem_nil _) hc h

/-- The next token of a text that can be read as a head, up to a character that structures the
stylesheet: it is the token of that character if nothing but blanks stands before it. -/
theorem nextToken_of_flat {u : Text} {x : Char} (hx : isStructural x = true) (r : Text)
    (h : Flat .fresh u) :
    nextToken false (u ++ x :: r) = .found u (Token.separator x) r ∨
      ∃ gap t v, t.isPlain = true ∧ u = gap ++ (t.text ++ v) ∧ Flat .fresh v ∧
        nextToken false (u ++ x :: r) = .found gap t (v ++ x :: r) := by
  obtain ⟨gap, w, rfl, hgap, hw⟩ := Text.exists_blanks u
  cases w with
  | nil =>
    left
    rw [List.append_nil]
    exact nextToken_blanks hgap (Token.isBlank_structural hx) (Token.readPlain?_separator hx r)
  | cons c w =>
    right
    have hflat : Flat .fresh (c :: w) := by
      obtain ⟨n, hn, hrest⟩ := h
      rw [run_blanks_append hgap] at hn
      exact ⟨n, hn, hrest⟩
    obtain ⟨t, v, ht, heq, hv, hread⟩ := Token.readPlain?_of_flat hx r (hw c rfl) hflat
    refine ⟨gap, t, v, ht, by rw [heq], hv, ?_⟩
    rw [List.append_assoc]
    exact nextToken_blanks hgap (hw c rfl) hread

/-- A token that is read where no marker is awaited is the plain token at the start of the text,
blanks skipped. -/
theorem nextToken_found {s gap rest : Text} {t : Token}
    (h : nextToken false s = .found gap t rest) :
    ∃ c v, s = gap ++ c :: v ∧ Text.isBlank c = false ∧
      Token.readPlain? (c :: v) = some (t, rest) := by
  obtain ⟨c, v, rfl, -, hc, hread⟩ := exists_of_nextToken h
  exact ⟨c, v, rfl, hc, hread⟩

/-- Where no marker is awaited, a token belongs in a head or separates. -/
theorem nextToken_plain {s gap rest : Text} {t : Token} (h : nextToken false s = .found gap t rest)
    (hopen : t ≠ .openBrace) (hclose : t ≠ .closeBrace) (hsemi : t ≠ .semicolon) :
    t.isPlain = true := by
  obtain ⟨c, v, -, -, hread⟩ := nextToken_found h
  exact Token.readPlain?_isPlain hread hopen hclose hsemi

/-- A token of a head is read, with the blanks before it, to where a token may end. -/
theorem nextToken_run {s gap rest : Text} {t : Token} (h : nextToken false s = .found gap t rest)
    (ht : t.isPlain = true) :
    ∃ m, run .fresh (gap ++ t.text) = some m ∧ m.rests = true ∧
      (rest = ['\\'] ∨ ∀ c ∈ rest.head?, m.step c = step .fresh c) := by
  obtain ⟨c, v, -, -, hread⟩ := nextToken_found h
  rw [run_blanks_append (nextToken_gap_blank h)]
  exact Token.readPlain?_run hread ht

namespace Statement

/-- A piece that stands before a character that structures the stylesheet, and begins with a
backslash, does not end with it. -/
theorem behind_token {p : Char → Prop} {u rest : Text} {x : Char} {r : Text}
    (heq : rest = u ++ x :: r) (h : rest = ['\\'] ∨ ∀ c ∈ rest.head?, p c) :
    ∀ c ∈ u.head?, p c := by
  subst heq
  cases u with
  | nil => simp
  | cons c u =>
    intro d hd
    exact h.resolve_left (by simp) d hd

theorem HeadEnd.remaining_eq (stop : HeadEnd) :
    ∃ x r, isStructural x = true ∧ stop.remaining = x :: r := by
  cases stop with
  | block rest => exact ⟨'{', rest, rfl, rfl⟩
  | semicolon rest => exact ⟨';', rest, rfl, rfl⟩

/-- A token in front of a head makes a longer head. -/
theorem flat_token {s gap rest u r : Text} {t : Token} {x : Char}
    (h : nextToken false s = .found gap t rest) (ht : t.isPlain = true) (hrest : rest = u ++ x :: r)
    (hu : Flat .fresh u) : Flat .fresh (gap ++ t.text ++ u) := by
  obtain ⟨m, hrun, hm, hbehind⟩ := nextToken_run h ht
  exact .prepend hrun ((flat_iff_of_step hm rfl (behind_token hrest hbehind)).2 hu)

theorem readHead_flat {last s head : Text} {stop : HeadEnd}
    (h : readHead last s = .ok (head, stop)) : Flat .fresh head := by
  fun_induction readHead last s generalizing head with
  | case1 | case2 | case5 => simp at h
  | case3 last s gap rest hs | case4 last s gap rest hs =>
    cases h
    exact ⟨.fresh, run_blanks (nextToken_gap_blank hs), rfl⟩
  | case6 last s gap token rest hopen hsemi hclose hs ih =>
    obtain ⟨u, hu, rfl⟩ := Text.prepend_eq_ok_iff.1 h
    have ht : token.isPlain = true := nextToken_plain hs hopen hclose hsemi
    obtain ⟨x, r, -, hstop⟩ := stop.remaining_eq
    have hrest := readHead_append hu
    rw [hstop] at hrest
    exact flat_token hs ht hrest (ih hu)

theorem readHead_plain {last s gap rest : Text} {t : Token}
    (h : nextToken false s = .found gap t rest) (ht : t.isPlain = true) :
    readHead last s = Text.prepend (gap ++ t.text) (readHead (t.text ++ rest) rest) := by
  rw [readHead]
  split <;> rename_i heq <;> rw [h] at heq <;> cases heq
  · cases ht
  · cases ht
  · cases ht
  · rfl

theorem readHead_stop {last s gap : Text} {stop : HeadEnd} {x : Char} {r : Text}
    (hstop : stop.remaining = x :: r)
    (h : nextToken false s = .found gap (Token.separator x) r) :
    readHead last s = .ok (gap, stop) := by
  cases stop with
  | block rest =>
    cases hstop
    rw [readHead]
    split <;> rename_i heq <;> rw [h] at heq <;> cases heq
    · rfl
    · rename_i hopen _ _
      exact absurd rfl hopen
  | semicolon rest =>
    cases hstop
    rw [readHead]
    split <;> rename_i heq <;> rw [h] at heq <;> cases heq
    · rfl
    · rename_i hsemi _
      exact absurd rfl hsemi

/-- A text that can be read as a head is read as one, token by token. Induction on its length. -/
theorem readHead_of_flat {last head : Text} {stop : HeadEnd} (h : Flat .fresh head) :
    readHead last (head ++ stop.remaining) = .ok (head, stop) := by
  induction hlen : head.length using Nat.strong_induction_on generalizing last head with
  | _ k ih =>
    obtain ⟨x, r, hx, hstop⟩ := stop.remaining_eq
    rw [hstop]
    rcases nextToken_of_flat hx r h with hnext | ⟨gap, t, v, ht, rfl, hv, hnext⟩
    · exact readHead_stop hstop hnext
    · -- what the token leaves of the head is shorter
      have hlt : v.length < k := by
        have := nextToken_length_lt hnext
        simp only [List.length_append] at this hlen
        omega
      rw [readHead_plain hnext ht, ← hstop, ih v.length hlt hv rfl]
      simp [Text.prepend]

/-- A head is what can be read in a row from between two tokens on. -/
theorem readHead_eq_ok_iff {last s head : Text} {stop : HeadEnd} :
    readHead last s = .ok (head, stop) ↔ s = head ++ stop.remaining ∧ Flat .fresh head := by
  constructor
  · intro h
    exact ⟨readHead_append h, readHead_flat h⟩
  · rintro ⟨rfl, h⟩
    exact readHead_of_flat h

end Statement

end StylePrune
