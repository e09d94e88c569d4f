import StylePrune.Proofs.Nodes
import StylePrune.Proofs.RoundTrip

/-!
# Addresses without quotes

The argument of `url(...)` may stand without quotes. The grammar has no token for that: strings and
comments shield what they hold, and the characters of an address count as they do anywhere else. So
an address with a semicolon ends the at-rule it stands in, one with `/*` begins a comment, and one
with an `@` may begin a keyword. Here is told which addresses are *inert*, that is, leave the
structure around them alone.

* **`Inert`** — an inert address, piece by piece.
* **`completes_iff_inert`** — the reader gets to the end of inert addresses, and of no others.
* **`Stylesheet.parse_address_iff`** — an at-rule and a rule are read around an address exactly when
  it is inert.
-/

namespace StylePrune

open Mode

/-- What an address without quotes is made of: all of ASCII that is printed, but for spaces, quotes,
parentheses and backslashes. -/
def isAddressChar (c : Char) : Bool :=
  0x21 ≤ c.toNat && c.toNat ≤ 0x7E && c ∉ ['\x22', '\x27', '(', ')', '\\']

/-- A rest of an address that can be read on to its end, in the middle of a chunk or between two
tokens, with so many braces open in it. In the block of a rule there may be braces and semicolons in
it, in a head there may not. -/
inductive Inert (inBlock : Bool) : (inChunk : Bool) → (depth : Nat) → Text → Prop where
  | nil (inChunk : Bool) : Inert inBlock inChunk 0 []
  | plain {inChunk : Bool} {depth : Nat} {c : Char} {s : Text} (hc : c ∉ ['/', '@', '{', '}', ';'])
      (hs : Inert inBlock true depth s) : Inert inBlock inChunk depth (c :: s)
  /-- Inside a chunk an `@` is like any other character. -/
  | atSign {depth : Nat} {s : Text} (hs : Inert inBlock true depth s) :
      Inert inBlock true depth ('@' :: s)
  /-- Between two tokens a keyword has to follow it. -/
  | keyword {depth : Nat} {k s : Text} (hk : k ≠ [])
      (hmember : ∀ c ∈ k, Token.isKeywordChar c = true)
      (hstop : ∀ c ∈ s.head?, Token.isKeywordChar c = false)
      (hs : Inert inBlock false depth s) : Inert inBlock false depth ('@' :: (k ++ s))
  | slash {inChunk : Bool} {depth : Nat} {s : Text} (hstar : s.head? ≠ some '*')
      (hs : Inert inBlock false depth s) : Inert inBlock inChunk depth ('/' :: s)
  | comment {inChunk : Bool} {depth : Nat} {body s : Text}
      (hbody : closeComment body = some (body, [])) (hs : Inert inBlock false depth s) :
      Inert inBlock inChunk depth ('/' :: '*' :: (body ++ s))
  | semicolon {inChunk : Bool} {depth : Nat} {s : Text} (hblock : inBlock = true)
      (hs : Inert inBlock false depth s) : Inert inBlock inChunk depth (';' :: s)
  | openBrace {inChunk : Bool} {depth : Nat} {s : Text} (hblock : inBlock = true)
      (hs : Inert inBlock false (depth + 1) s) : Inert inBlock inChunk depth ('{' :: s)
  /-- Right behind a closing brace no marker may stand. -/
  | closeBrace {inChunk : Bool} {depth : Nat} {s : Text} (hblock : inBlock = true)
      (hmarker : ¬ MarkerFirst s) (hs : Inert inBlock false depth s) :
      Inert inBlock inChunk (depth + 1) ('}' :: s)

/-! ## Heads and blocks alike -/

/-- A text can be read to the end of what it stands in: of a block, where so many more blocks are
open, or of a head, where none is. -/
def Completes (inBlock : Bool) (m : Mode) (depth : Nat) (s : Text) : Prop :=
  if inBlock then Flows m depth 0 s else depth = 0 ∧ Flat m s

section

variable {inBlock : Bool} {m n : Mode} {depth : Nat} {c : Char} {s : Text}

theorem completes_inBlock (h : inBlock = true) :
    Completes inBlock m depth s ↔ Flows m depth 0 s := by
  rw [h]
  rfl

theorem completes_nil (hm : m.rests = true) : Completes inBlock m depth [] ↔ depth = 0 := by
  cases inBlock <;> simp [Completes, Flows, Flat, hm]

theorem completes_append {a : Text} (h : m.run a = some n) (s : Text) :
    Completes inBlock m depth (a ++ s) ↔ Completes inBlock n depth s := by
  cases inBlock with
  | true => exact flows_append (flow_of_run h depth) s
  | false => exact and_congr_right fun _ => by simp only [Flat, run_append_of_run h]

theorem completes_cons (h : m.step c = some n) (s : Text) :
    Completes inBlock m depth (c :: s) ↔ Completes inBlock n depth s := by
  have hrun : m.run [c] = some n := by simp [h]
  exact completes_append hrun s

theorem not_completes_cons (h : m.step c = none) (hc : m.rests = false ∨ isStructural c = false)
    (s : Text) : ¬ Completes inBlock m depth (c :: s) := by
  cases inBlock with
  | true => rcases hc with hc | hc <;> simp [Completes, Flows, flowStep, h, hc]
  | false => simp [Completes, Flat, h]

theorem completes_iff_of_step (hm : m.rests = true) (hn : n.rests = true)
    (hstep : ∀ c ∈ s.head?, m.step c = n.step c) :
    Completes inBlock m depth s ↔ Completes inBlock n depth s := by
  cases inBlock with
  | true => exact flows_iff_of_step hm hn hstep
  | false => exact and_congr_right fun _ => flat_iff_of_step hm hn hstep

/-- No head goes on over a character that structures the stylesheet. -/
theorem completes_structural (hm : m.rests = true) (hc : isStructural c = true) (s : Text) :
    Completes inBlock m depth (c :: s) ↔ inBlock = true ∧ Flows m depth 0 (c :: s) := by
  cases inBlock with
  | true => simp [Completes]
  | false => simp [Completes, Flat, step_structural hm hc]

theorem completes_semicolon (hm : m.rests = true) (s : Text) :
    Completes inBlock m depth (';' :: s) ↔ inBlock = true ∧ Completes inBlock .fresh depth s := by
  rw [completes_structural hm rfl, flows_cons (flowStep_semicolon hm depth)]
  exact and_congr_right fun hblock => (completes_inBlock hblock).symm

theorem completes_openBrace (hm : m.rests = true) (s : Text) :
    Completes inBlock m depth ('{' :: s) ↔
      inBlock = true ∧ Completes inBlock .fresh (depth + 1) s := by
  rw [completes_structural hm rfl, flows_cons (flowStep_open hm depth)]
  exact and_congr_right fun hblock => (completes_inBlock hblock).symm

theorem completes_closeBrace (hm : m.rests = true) (s : Text) :
    Completes inBlock m (depth + 1) ('}' :: s) ↔
      inBlock = true ∧ ¬ MarkerAhead s ∧ Completes inBlock .fresh depth s := by
  rw [completes_structural hm rfl, flows_cons (flowStep_close hm depth), flows_closed_iff]
  exact and_congr_right fun hblock =>
    and_congr_right fun _ => (completes_inBlock hblock).symm

theorem not_completes_closeBrace (hm : m.rests = true) (s : Text) :
    ¬ Completes inBlock m 0 ('}' :: s) := by
  rw [completes_structural hm rfl]
  simp [Flows, flowStep_close_zero hm]

theorem closeComment_of_flat (h : Flat .comment s) :
    ∃ body rest, closeComment s = some (body, rest) := by
  obtain ⟨n, hn, hrest⟩ := h
  obtain ⟨body, rest, hbody, -⟩ := (closeComment_of_run hrest).1 hn
  exact ⟨body, rest, hbody⟩

/-- A comment is closed before a brace or a semicolon counts. -/
theorem closeComment_of_completes (h : Completes inBlock .comment depth s) :
    ∃ body rest, closeComment s = some (body, rest) := by
  cases inBlock with
  | false => exact closeComment_of_flat h.2
  | true =>
    rcases Flows.split h with ⟨hs, -⟩ | ⟨u, x, v, n, e, rfl, -, hu, -⟩
    · exact closeComment_of_flat hs
    · obtain ⟨body, rest, hbody⟩ := closeComment_of_flat hu
      exact ⟨body, _, closeComment_append_right hbody (x :: v)⟩

/-- A comment is closed, and behind it the text goes on. -/
theorem completes_comment :
    Completes inBlock .comment depth s ↔
      ∃ body rest, closeComment s = some (body, rest) ∧ Completes inBlock .fresh depth rest := by
  constructor
  · intro h
    obtain ⟨body, rest, hbody⟩ := closeComment_of_completes h
    refine ⟨body, rest, hbody, ?_⟩
    rwa [closeComment_append hbody, completes_append (closeComment_run hbody).1] at h
  · rintro ⟨body, rest, hbody, h⟩
    rwa [closeComment_append hbody, completes_append (closeComment_run hbody).1]

theorem run_keyword {k : Text} (hk : ∀ c ∈ k, Token.isKeywordChar c = true) :
    run .keyword k = some .keyword := by
  induction k with
  | nil => rfl
  | cons c k ih =>
    obtain ⟨hc, hk⟩ := List.forall_mem_cons.1 hk
    rw [run_cons, Token.runs_keyword.member c hc, Option.bind_some, ih hk]

/-- Behind its `@` a keyword is read, as long as it can be. -/
theorem completes_keyword {k : Text} (hne : k ≠ []) (hk : ∀ c ∈ k, Token.isKeywordChar c = true)
    (hstop : ∀ c ∈ s.head?, Token.isKeywordChar c = false ∧ c ≠ '\\') :
    Completes inBlock .atSign depth (k ++ s) ↔ Completes inBlock .fresh depth s := by
  obtain ⟨c, k', rfl⟩ := List.exists_cons_of_ne_nil hne
  have hrun : run .atSign (c :: k') = some .keyword := by
    rw [Token.run_atSign (.inr (hk c List.mem_cons_self)), run_keyword hk]
  rw [completes_append hrun]
  refine completes_iff_of_step rfl rfl fun c hc => ?_
  obtain ⟨hmember, hback⟩ := hstop c hc
  exact Token.runs_keyword.other c hmember hback

end

/-! ## Addresses -/

section

variable {inBlock inChunk : Bool} {depth : Nat} {c : Char} {u : Text}

theorem ne_of_isAddressChar (hc : isAddressChar c = true) {d : Char}
    (hd : isAddressChar d = false) : c ≠ d := by
  rintro rfl
  rw [hc] at hd
  cases hd

theorem isBlank_addressChar (hc : isAddressChar c = true) : Text.isBlank c = false := by
  have hne : ∀ d, isAddressChar d = false → c ≠ d := fun d => ne_of_isAddressChar hc
  simp [Text.isBlank, hne ' ' (by decide), hne '\t' (by decide), hne '\n' (by decide),
    hne '\r' (by decide), hne '\x0c' (by decide)]

theorem begin_addressChar (hc : isAddressChar c = true) (hplain : c ∉ ['/', '@', '{', '}', ';']) :
    begin c = some .word := by
  have hne : ∀ d, isAddressChar d = false → c ≠ d := fun d => ne_of_isAddressChar hc
  simp only [List.mem_cons, List.not_mem_nil, or_false, not_or] at hplain
  obtain ⟨hslash, hat, hopen, hclose, hsemi⟩ := hplain
  simp [begin, isStructural, isBlank_addressChar hc, hne '\\' (by decide),
    hne '\x22' (by decide), hne '\x27' (by decide), hslash, hat, hopen, hclose, hsemi]

/-- Addresses hold no blanks, so a marker is ahead where it comes first. -/
theorem markerAhead_address (hu : ∀ c ∈ u, isAddressChar c = true) :
    MarkerAhead (u ++ [')']) ↔ MarkerFirst u := by
  rw [markerAhead_append_iff_of (by decide) (by decide), markerAhead_iff_markerFirst]
  exact fun c hc => isBlank_addressChar (hu c (List.mem_of_mem_head? hc))

/-- The parenthesis behind an address ends a keyword. -/
theorem keyword_stops (hu : ∀ c ∈ u, isAddressChar c = true)
    (hstop : ∀ c ∈ u.head?, Token.isKeywordChar c = false) :
    ∀ c ∈ (u ++ [')']).head?, Token.isKeywordChar c = false ∧ c ≠ '\\' := by
  intro c hc
  cases u with
  | nil =>
    cases hc
    decide
  | cons d u =>
    cases hc
    exact ⟨hstop c rfl, ne_of_isAddressChar (hu c List.mem_cons_self) (by decide)⟩

/-- Where an address is read on: inside a chunk, or between two tokens. -/
def place (inChunk : Bool) : Mode := if inChunk then .word else .fresh

theorem rests_place (inChunk : Bool) : (place inChunk).rests = true := by
  cases inChunk <;> rfl

theorem step_place (hc : c ≠ '@') : (place inChunk).step c = begin c := by
  cases inChunk with
  | true => exact goOn_eq_begin hc
  | false => rfl

theorem completes_slash (hstar : u.head? ≠ some '*') :
    Completes inBlock .slash depth (u ++ [')']) ↔ Completes inBlock .fresh depth (u ++ [')']) := by
  refine completes_iff_of_step rfl rfl fun c hc => ?_
  have hne : c ≠ '*' := by
    rintro rfl
    cases u with
    | nil => cases hc
    | cons d u => exact hstar hc
  simp [step, hne]

/-- An inert address is read to its end, with the parenthesis behind it. -/
theorem Inert.completes (h : Inert inBlock inChunk depth u)
    (hu : ∀ c ∈ u, isAddressChar c = true) :
    Completes inBlock (place inChunk) depth (u ++ [')']) := by
  have hslash : ∀ inChunk, (place inChunk).step '/' = some .slash := fun inChunk =>
    step_place (by decide)
  induction h with
  | nil inChunk =>
    have hstep : (place inChunk).step ')' = some .word := step_place (by decide)
    rw [List.nil_append, completes_cons hstep, completes_nil rfl]
  | @plain inChunk _ c s hc _ ih =>
    obtain ⟨haddress, hs⟩ := List.forall_mem_cons.1 hu
    have hstep : (place inChunk).step c = some .word := by
      rw [step_place fun hat => hc (by simp [hat]), begin_addressChar haddress hc]
    exact (completes_cons hstep _).2 (ih hs)
  | atSign _ ih => exact (completes_cons rfl _).2 (ih (List.forall_mem_cons.1 hu).2)
  | @keyword _ k s hk hmember hstop _ ih =>
    rw [List.cons_append, List.append_assoc, completes_cons (n := .atSign) rfl]
    have hs : ∀ c ∈ s, isAddressChar c = true := fun c hc => hu c (by simp [hc])
    exact (completes_keyword hk hmember (keyword_stops hs hstop)).2 (ih hs)
  | @slash inChunk _ s hstar _ ih =>
    rw [List.cons_append, completes_cons (hslash inChunk), completes_slash hstar]
    exact ih (List.forall_mem_cons.1 hu).2
  | @comment inChunk _ body s hbody _ ih =>
    have hs : ∀ c ∈ s, isAddressChar c = true := fun c hc => hu c (by simp [hc])
    rw [List.cons_append, List.cons_append, List.append_assoc, completes_cons (hslash inChunk),
      completes_cons (n := .comment) rfl, completes_append (closeComment_run hbody).1]
    exact ih hs
  | semicolon hblock _ ih =>
    exact (completes_semicolon (rests_place _) _).2 ⟨hblock, ih (List.forall_mem_cons.1 hu).2⟩
  | openBrace hblock _ ih =>
    exact (completes_openBrace (rests_place _) _).2 ⟨hblock, ih (List.forall_mem_cons.1 hu).2⟩
  | closeBrace hblock hmarker _ ih =>
    have hs := (List.forall_mem_cons.1 hu).2
    refine (completes_closeBrace (rests_place _) _).2 ⟨hblock, ?_, ih hs⟩
    exact fun hahead => hmarker ((markerAhead_address hs).1 hahead)

/-- Behind an `@` between two tokens stands a keyword, or the address is not read on. -/
theorem exists_keyword (hu : ∀ c ∈ u, isAddressChar c = true)
    (h : Completes inBlock .atSign depth (u ++ [')'])) :
    ∃ k s, u = k ++ s ∧ k ≠ [] ∧ (∀ c ∈ k, Token.isKeywordChar c = true) ∧
      (∀ c ∈ s.head?, Token.isKeywordChar c = false) ∧
      Completes inBlock .fresh depth (s ++ [')']) := by
  obtain ⟨k, s, rfl, hk, hstop⟩ := Text.exists_run Token.isKeywordChar u
  have hs : ∀ c ∈ s, isAddressChar c = true := fun c hc => hu c (by simp [hc])
  have hne : k ≠ [] := by
    rintro rfl
    obtain ⟨c, v, hcv⟩ := List.exists_cons_of_ne_nil (l := s ++ [')']) (by simp)
    obtain ⟨hmember, hback⟩ := keyword_stops hs hstop c (by rw [hcv]; rfl)
    have hstep : step .atSign c = none := by simp [step, hmember, hback]
    rw [List.nil_append, hcv] at h
    exact not_completes_cons hstep (.inl rfl) v h
  rw [List.append_assoc, completes_keyword hne hk (keyword_stops hs hstop)] at h
  exact ⟨k, s, rfl, hne, hk, hstop, h⟩

/-- Behind the `/*` of a comment stands its end, inside the address, or that is not read on. -/
theorem exists_comment (h : Completes inBlock .comment depth (u ++ [')'])) :
    ∃ body s, u = body ++ s ∧ closeComment body = some (body, []) ∧
      Completes inBlock .fresh depth (s ++ [')']) := by
  obtain ⟨body, rest, hbody, hrest⟩ := completes_comment.1 h
  have happ := closeComment_append hbody
  -- the comment does not end in the parenthesis, so that is left
  rcases List.eq_nil_or_concat rest with rfl | ⟨s, c, rfl⟩
  · obtain ⟨b, rfl⟩ := closeComment_last hbody
    simp at happ
  · rw [List.concat_eq_append, ← List.append_assoc] at happ
    obtain ⟨rfl, hc⟩ := List.append_inj' happ rfl
    cases hc
    rw [List.concat_eq_append] at hrest
    exact ⟨body, s, rfl, closeComment_self hbody, hrest⟩

/-- An address that is read to its end is inert. Induction on its length; the first character tells
which piece comes first. -/
theorem inert_of_completes (hu : ∀ c ∈ u, isAddressChar c = true)
    (h : Completes inBlock (place inChunk) depth (u ++ [')'])) :
    Inert inBlock inChunk depth u := by
  induction hlen : u.length using Nat.strong_induction_on generalizing u inChunk depth with
  | _ n ih =>
  subst hlen
  have hrec : ∀ (inChunk : Bool) (depth : Nat) (v : Text), v.length < u.length →
      (∀ c ∈ v, isAddressChar c = true) →
      Completes inBlock (place inChunk) depth (v ++ [')']) → Inert inBlock inChunk depth v :=
    fun _ _ v hlt hv h => ih v.length hlt hv h rfl
  cases u with
  | nil =>
    have hstep : (place inChunk).step ')' = some .word := step_place (by decide)
    rw [List.nil_append, completes_cons hstep, completes_nil rfl] at h
    subst h
    exact .nil inChunk
  | cons c v =>
    obtain ⟨hc, hv⟩ := List.forall_mem_cons.1 hu
    rw [List.cons_append] at h
    by_cases hplain : c ∈ ['/', '@', '{', '}', ';']
    · simp only [List.mem_cons, List.not_mem_nil, or_false] at hplain
      rcases hplain with rfl | rfl | rfl | rfl | rfl
      · -- a slash, which may begin a comment
        rw [completes_cons (n := .slash) (step_place (by decide))] at h
        by_cases hstar : v.head? = some '*'
        · obtain ⟨w, rfl⟩ := List.head?_eq_some_iff.1 hstar
          rw [List.cons_append, completes_cons (n := .comment) rfl] at h
          obtain ⟨body, s, rfl, hbody, h⟩ := exists_comment h
          have hs : ∀ c ∈ s, isAddressChar c = true := fun c hc => hv c (by simp [hc])
          have hlt : s.length < ('/' :: '*' :: (body ++ s)).length := by
            simp only [List.length_cons, List.length_append]
            omega
          exact .comment hbody (hrec false _ _ hlt hs h)
        · rw [completes_slash hstar] at h
          exact .slash hstar (hrec false _ _ (by simp) hv h)
      · cases inChunk with
        | true =>
          rw [completes_cons (n := .word) rfl] at h
          exact .atSign (hrec true _ _ (by simp) hv h)
        | false =>
          rw [completes_cons (n := .atSign) rfl] at h
          obtain ⟨k, s, rfl, hne, hk, hstop, h⟩ := exists_keyword hv h
          have hs : ∀ c ∈ s, isAddressChar c = true := fun c hc => hv c (by simp [hc])
          have hlt : s.length < ('@' :: (k ++ s)).length := by
            simp only [List.length_cons, List.length_append]
            omega
          exact .keyword hne hk hstop (hrec false _ _ hlt hs h)
      · obtain ⟨hblock, h⟩ := (completes_openBrace (rests_place _) _).1 h
        exact .openBrace hblock (hrec false _ _ (by simp) hv h)
      · cases depth with
        | zero => exact absurd h (not_completes_closeBrace (rests_place _) _)
        | succ depth =>
          obtain ⟨hblock, hahead, h⟩ := (completes_closeBrace (rests_place _) _).1 h
          rw [markerAhead_address hv] at hahead
          exact .closeBrace hblock hahead (hrec false _ _ (by simp) hv h)
      · obtain ⟨hblock, h⟩ := (completes_semicolon (rests_place _) _).1 h
        exact .semicolon hblock (hrec false _ _ (by simp) hv h)
    · have hstep : (place inChunk).step c = some .word := by
        rw [step_place fun hat => hplain (by simp [hat]), begin_addressChar hc hplain]
      rw [completes_cons hstep] at h
      exact .plain hplain (hrec true _ _ (by simp) hv h)

theorem completes_iff_inert (hu : ∀ c ∈ u, isAddressChar c = true) :
    Completes inBlock (place inChunk) depth (u ++ [')']) ↔ Inert inBlock inChunk depth u :=
  ⟨inert_of_completes hu, fun h => h.completes hu⟩

end

/-! ## Sheets of one node -/

namespace Stylesheet

open Selector

/-- A text is a stylesheet of one node, and of nothing else, when it is a statement that is read as
that node. -/
theorem parse_eq_node_iff {source : Text} {n : Node (List Selector)} :
    parse source = .ok (Sheet.cons n (.done [])) ↔
      ∃ st : Statement, source = st.text ∧ st.Readable ∧ Gap st.leading ∧ st.ReadAs n := by
  rw [parse_eq_cons_iff]
  simp only [parse_eq_done_iff]
  constructor
  · rintro ⟨st, rest, rfl, hread, hgap, hst, rfl, -⟩
    exact ⟨st, List.append_nil _, hread, hgap, hst⟩
  · rintro ⟨st, rfl, hread, hgap, hst⟩
    exact ⟨st, [], (List.append_nil _).symm, hread, hgap, hst, rfl, .nil⟩

/-- An at-rule without a block is read when its head can be. -/
theorem parse_atRule_iff {keyword head : Text} (hkeyword : KeywordEnds keyword head) :
    parse (keyword ++ head ++ [';']) = .ok (.atRule [] keyword head none (.done [])) ↔
      Flat .fresh head := by
  refine (parse_eq_node_iff (n := .atRule [] keyword head none)).trans ⟨?_, ?_⟩
  · rintro ⟨st, -, hread, -, hst⟩
    generalize hn : Node.atRule [] keyword head none = n at hst
    cases hst with
    | atRule leading keyword' head' hbody =>
      rw [Node.atRule.injEq] at hn
      obtain ⟨-, -, rfl, -⟩ := hn
      cases hread with
      | atRule _ _ hhead => exact hhead
    | _ => cases hn
  · intro hhead
    refine ⟨.atRule [] keyword head none, by simp [Statement.text], ?_, .nil, ?_⟩
    · exact .atRule [] hkeyword hhead (by simp)
    · exact Statement.ReadAs.atRule [] keyword head (by simp : ∀ b ∈ (none : Option Text), _)

/-- A rule with a head that can be read is read when its block can be. -/
theorem parse_rule_iff {head body : Text} {selectors : List Selector}
    (hhead : parseList head = .ok selectors) (hstart : RuleStart head) (hflat : Flat .fresh head) :
    parse (head ++ Statement.braced body) =
        .ok (.rule [] selectors (Statement.braced body) (.done [])) ↔ Content body := by
  refine (parse_eq_node_iff (n := .rule [] selectors (Statement.braced body))).trans ⟨?_, ?_⟩
  · rintro ⟨st, -, hread, -, hst⟩
    generalize hn : Node.rule [] selectors (Statement.braced body) = n at hst
    cases hst with
    | rule leading body' hhead' =>
      rw [Node.rule.injEq] at hn
      obtain ⟨-, -, hbraced⟩ := hn
      obtain rfl : body = body' := by simpa [Statement.braced] using hbraced
      cases hread with
      | rule _ _ _ hbody => exact hbody
    | _ => cases hn
  · intro hbody
    refine ⟨.rule [] head body, by simp [Statement.text], ?_, .nil, .rule [] body hhead⟩
    exact .rule [] hstart hflat hbody

theorem flat_address_iff {u : Text} (hu : ∀ c ∈ u, isAddressChar c = true) :
    Flat .fresh (" url(".toList ++ u ++ [')']) ↔ Inert false true 0 u := by
  have hrun : Mode.run .fresh " url(".toList = some (place true) := rfl
  rw [← completes_iff_inert hu, ← completes_append hrun, List.append_assoc]
  simp [Completes]

theorem content_address_iff {u : Text} (hu : ∀ c ∈ u, isAddressChar c = true) :
    Content ("b:url(".toList ++ u ++ [')']) ↔ Inert true true 0 u := by
  have hrun : Mode.run .fresh "b:url(".toList = some (place true) := rfl
  rw [← completes_iff_inert hu, ← completes_append hrun, List.append_assoc]
  rfl

/-- An at-rule without a block, and a rule in its block, are read around an address without quotes
exactly when it is inert: in the at-rule, without braces and semicolons outside of comments; in the
rule, with such as leave the block balanced. -/
theorem parse_address_iff {u : Text} (hu : ∀ c ∈ u, isAddressChar c = true) :
    (parse ("@import url(".toList ++ u ++ ");".toList) =
        .ok (.atRule [] "@import".toList (" url(".toList ++ u ++ [')']) none (.done [])) ↔
      Inert false true 0 u) ∧
    (parse (['a'] ++ Statement.braced ("b:url(".toList ++ u ++ [')'])) =
        .ok (.rule [] [⟨[⟨.tag, ['a'], ['a']⟩], [], []⟩]
          (Statement.braced ("b:url(".toList ++ u ++ [')'])) (.done [])) ↔
      Inert true true 0 u) := by
  constructor
  · have hkeyword : KeywordEnds "@import".toList (" url(".toList ++ u ++ [')']) := by
      refine ⟨"import".toList, rfl, by simp, by decide +kernel, ?_⟩
      rintro c ⟨⟩
      decide
    have htext : "@import url(".toList ++ u ++ ");".toList =
        "@import".toList ++ (" url(".toList ++ u ++ [')']) ++ [';'] := by simp
    rw [htext, parse_atRule_iff hkeyword, flat_address_iff hu]
  · have hhead : parseList ['a'] = .ok [⟨[⟨.tag, ['a'], ['a']⟩], [], []⟩] := by decide +kernel
    have hstart : RuleStart ['a'] :=
      ⟨⟨'a', [], rfl, by decide, by decide⟩, by decide, by decide⟩
    have hflat : Flat .fresh ['a'] := ⟨.word, rfl, rfl⟩
    rw [parse_rule_iff hhead hstart hflat, content_address_iff hu]

/-- An address with two slashes, a keyword and a comment that holds a semicolon. -/
theorem parse_address_iff_comment :
    let u : Text := "//h/@k/*;*/x".toList
    (∀ c ∈ u, isAddressChar c = true) ∧
      parse ("@import url(".toList ++ u ++ ");".toList) =
        .ok (.atRule [] "@import".toList (" url(".toList ++ u ++ [')']) none (.done [])) ∧
      parse (['a'] ++ Statement.braced ("b:url(".toList ++ u ++ [')'])) =
        .ok (.rule [] [⟨[⟨.tag, ['a'], ['a']⟩], [], []⟩]
          (Statement.braced ("b:url(".toList ++ u ++ [')'])) (.done [])) := by
  intro u
  have hu : ∀ c ∈ u, isAddressChar c = true := List.all_eq_true.1 (by decide)
  have hinert : ∀ inBlock, Inert inBlock true 0 u := by
    intro inBlock
    have hx : Inert inBlock false 0 ['x'] := .plain (by decide) (.nil true)
    have hcomment : Inert inBlock false 0 "/*;*/x".toList :=
      Inert.comment (rfl : closeComment ";*/".toList = some (";*/".toList, [])) hx
    have hkeyword : Inert inBlock false 0 "@k/*;*/x".toList :=
      .keyword (k := ['k']) (by simp) (List.all_eq_true.1 (by decide)) (by rintro c ⟨⟩; decide)
        hcomment
    have hpath : Inert inBlock false 0 "h/@k/*;*/x".toList :=
      .plain (by decide) (.slash (by decide) hkeyword)
    exact .slash (by decide) (.slash (by decide) hpath)
  obtain ⟨himport, hrule⟩ := parse_address_iff hu
  exact ⟨hu, himport.2 (hinert false), hrule.2 (hinert true)⟩

/-- A semicolon in an address ends the at-rule, a brace ends the block of the rule, and what is left
of the address is refused. -/
theorem not_parse_address :
    ((∀ c ∈ "a;b".toList, isAddressChar c = true) ∧
        ∀ s, parse ("@import url(".toList ++ "a;b".toList ++ ");".toList) ≠ .ok s) ∧
      (∀ c ∈ ['}'], isAddressChar c = true) ∧
        ∀ s, parse (['a'] ++ Statement.braced ("b:url(".toList ++ ['}'] ++ [')'])) ≠ .ok s :=
  ⟨⟨List.all_eq_true.1 (by decide), parse_ne_ok_of_refused (by decide +kernel)⟩,
    List.all_eq_true.1 (by decide), parse_ne_ok_of_refused (by decide +kernel)⟩

end Stylesheet

end StylePrune
