import StylePrune.Grammar.Statement
import StylePrune.Proofs.Tiling

/-!
# Reading one character at a time

The reader of stylesheets cuts a text into tokens, each as long as it can be. What a piece of text
means to it then depends on what stands around the piece, which makes it hard to say what happens
when pieces are taken out and the rest is joined again.

A *mode* is all that such a reader has to remember between two characters, so reading a text that is
put together is reading its pieces one after the other (`Mode.run_append`, `flow_append`). Chunks
are the most permissive place to be in: what can be read from anywhere else outside of strings and
comments can be read from within a chunk (`Mode.step_le`).

* **`Mode`**, **`Mode.step`** — the reader of heads, which have no braces and no semicolons.
* **`flow`** — the reader of what stands between two braces, where blocks nest and where a marker
  right behind a closing brace is refused.
-/

namespace StylePrune

/-! ## Modes -/

/-- What a reader is in the middle of. -/
inductive Mode where
  /-- Between two tokens. -/
  | fresh
  /-- Between two tokens, with nothing but blanks since a closing brace. -/
  | closed
  /-- Behind the blanks that follow a closing brace, at what may become `<!--`. -/
  | lt
  | ltBang
  | ltBangDash
  /-- Behind the blanks that follow a closing brace, at what may become `-->`. -/
  | dash
  | dashDash
  /-- In a chunk. -/
  | word
  /-- Behind the `@` of a keyword. -/
  | atSign
  | keyword
  /-- Behind a slash, which may begin a comment. -/
  | slash
  /-- Behind the backslash of an escape, in a keyword or in a chunk. -/
  | escape (inKeyword : Bool)
  | string (quote : Char)
  /-- In a string, behind a backslash. -/
  | stringEscape (quote : Char)
  | comment
  /-- In a comment, behind an asterisk that may end it. -/
  | commentStar
deriving DecidableEq, Repr

/-- The characters that structure a stylesheet. -/
def isStructural (c : Char) : Bool := c == '{' || c == '}' || c == ';'

namespace Mode

/-- Whether a token may end here. -/
def rests : Mode → Bool
  | .fresh | .closed | .lt | .ltBang | .ltBangDash | .dash | .dashDash => true
  | .word | .keyword | .slash => true
  | .atSign | .escape _ | .string _ | .stringEscape _ | .comment | .commentStar => false

def begin (c : Char) : Option Mode :=
  if Text.isBlank c then some .fresh
  else if c == '/' then some .slash
  else if c == '@' then some .atSign
  else if c == '\\' then some (.escape false)
  else if c == '\x22' || c == '\x27' then some (.string c)
  else if isStructural c then none
  else some .word

/-- Reads a character inside a chunk. -/
def goOn (c : Char) : Option Mode := if c == '@' then some .word else begin c

/-- Reads a character. There is no mode behind a character that structures the stylesheet, none
behind one with which no token begins or goes on, and none at the end of a marker that follows a
closing brace. -/
def step : Mode → Char → Option Mode
  | .fresh, c => begin c
  | .closed, c =>
    if Text.isBlank c then some .closed
    else if c == '<' then some .lt
    else if c == '-' then some .dash
    else begin c
  | .lt, c => if c == '!' then some .ltBang else goOn c
  | .ltBang, c => if c == '-' then some .ltBangDash else goOn c
  | .ltBangDash, c => if c == '-' then none else goOn c
  | .dash, c => if c == '-' then some .dashDash else goOn c
  | .dashDash, c => if c == '>' then none else goOn c
  | .word, c => goOn c
  | .atSign, c =>
    if c == '\\' then some (.escape true)
    else if Token.isKeywordChar c then some .keyword
    else none
  | .keyword, c =>
    if c == '\\' then some (.escape true)
    else if Token.isKeywordChar c then some .keyword
    else begin c
  | .slash, c => if c == '*' then some .comment else begin c
  | .escape inKeyword, _ => some (if inKeyword then .keyword else .word)
  | .string quote, c =>
    if c == '\\' then some (.stringEscape quote)
    else if c == quote then some .fresh
    else if Text.isLineEnd c then none
    else some (.string quote)
  | .stringEscape quote, _ => some (.string quote)
  | .comment, c => some (if c == '*' then .commentStar else .comment)
  | .commentStar, c =>
    some (if c == '/' then .fresh else if c == '*' then .commentStar else .comment)

def run (m : Mode) : Text → Option Mode
  | [] => some m
  | c :: s => (m.step c).bind fun n => n.run s

@[simp] theorem run_nil (m : Mode) : m.run [] = some m := rfl

@[simp] theorem run_cons (m : Mode) (c : Char) (s : Text) :
    m.run (c :: s) = (m.step c).bind fun n => n.run s := rfl

theorem run_append (m : Mode) (a b : Text) :
    m.run (a ++ b) = (m.run a).bind fun n => n.run b := by
  induction a generalizing m with
  | nil => rfl
  | cons c a ih =>
    cases h : m.step c with
    | none => simp [h]
    | some n => simp [h, ih]

theorem run_append_eq_some {m n : Mode} {a b : Text} (h : m.run (a ++ b) = some n) :
    ∃ k, m.run a = some k ∧ k.run b = some n := by
  rw [run_append] at h
  exact Option.bind_eq_some_iff.1 h

theorem run_append_of_run {m k : Mode} {a : Text} (h : m.run a = some k) (b : Text) :
    m.run (a ++ b) = k.run b := by
  rw [run_append, h, Option.bind_some]

/-! ### Single characters -/

theorem begin_structural {c : Char} (h : isStructural c = true) : begin c = none := by
  simp only [isStructural, Bool.or_eq_true, beq_iff_eq] at h
  rcases h with (rfl | rfl) | rfl <;> rfl

theorem goOn_eq_begin {c : Char} (h : c ≠ '@') : goOn c = begin c := by
  simp [goOn, h]

theorem begin_keywordChar {c : Char} (h : Token.isKeywordChar c = true) : begin c = some .word := by
  have hne : ∀ d, Token.isKeywordChar d = false → c ≠ d := by
    rintro d hd rfl
    rw [h] at hd
    cases hd
  have hblank : Text.isBlank c = false := by
    simp [Text.isBlank, hne ' ' (by decide), hne '\t' (by decide), hne '\n' (by decide),
      hne '\r' (by decide), hne '\x0c' (by decide)]
  have hstruct : isStructural c = false := by
    simp [isStructural, hne '{' (by decide), hne '}' (by decide), hne ';' (by decide)]
  simp [begin, hblank, hstruct, hne '/' (by decide), hne '@' (by decide), hne '\\' (by decide),
    hne '\x22' (by decide), hne '\x27' (by decide)]

/-- No token goes on over a character that structures the stylesheet. -/
theorem step_structural {m : Mode} {c : Char} (hm : m.rests = true) (hc : isStructural c = true) :
    m.step c = none := by
  have hbegin := begin_structural hc
  have hkeyword : Token.isKeywordChar c = false := by
    by_contra hk
    rw [begin_keywordChar (by simpa using hk)] at hbegin
    cases hbegin
  simp only [isStructural, Bool.or_eq_true, beq_iff_eq] at hc
  rcases hc with (rfl | rfl) | rfl <;> cases m <;> simp_all [step, goOn, rests, Text.isBlank]

/-! ### The order of modes -/

/-- The second mode is at least as permissive as the first. -/
inductive Le : Mode → Mode → Prop where
  | refl (m : Mode) : Le m m
  | closed : Le .closed .fresh
  | escape : Le (.escape true) (.escape false)
  /-- Outside of strings, comments and escapes nothing is as permissive as a chunk. -/
  | word {m : Mode} (h : m.rests = true ∨ m = .atSign) (hs : m ≠ .slash) : Le m .word

theorem Le.rests {m n : Mode} (h : Le m n) (hm : m.rests = true) : n.rests = true := by
  cases h with
  | refl => exact hm
  | closed => rfl
  | escape => exact hm
  | word => rfl

theorem begin_le {m : Mode} {c : Char} (h : begin c = some m) : ∃ n, goOn c = some n ∧ Le m n := by
  by_cases hc : c = '@'
  · subst hc
    cases h
    exact ⟨.word, rfl, .word (.inr rfl) (by decide)⟩
  · exact ⟨m, (goOn_eq_begin hc).trans h, .refl m⟩

theorem Le.trans {m n k : Mode} (hmn : Le m n) (hnk : Le n k) : Le m k := by
  cases hmn with
  | refl => exact hnk
  | closed =>
    cases hnk with
    | refl => exact .closed
    | word => exact .word (.inl rfl) (by decide)
  | escape =>
    cases hnk with
    | refl => exact .escape
    | word h => simp [Mode.rests] at h
  | word h hs =>
    cases hnk with
    | refl => exact .word h hs
    | word => exact .word h hs

/-- Behind a closing brace only a marker is refused that is read elsewhere. -/
theorem step_closed_le {m : Mode} {c : Char} (h : step .closed c = some m) :
    ∃ n, step .fresh c = some n ∧ Le m n := by
  simp only [step] at h ⊢
  by_cases hb : Text.isBlank c = true
  · simp only [hb, if_true, Option.some.injEq] at h
    subst h
    exact ⟨.fresh, by simp [begin, hb], .closed⟩
  · by_cases hlt : c = '<'
    · subst hlt
      cases h
      exact ⟨.word, rfl, .word (.inl rfl) (by decide)⟩
    · by_cases hd : c = '-'
      · subst hd
        cases h
        exact ⟨.word, rfl, .word (.inl rfl) (by decide)⟩
      · simp only [hb, hlt, hd, beq_iff_eq, if_false] at h
        exact ⟨m, h, .refl m⟩

/-- One more character of what may become a marker is one more character of a chunk. -/
theorem marker_le_word {c d : Char} {k : Option Mode} {m : Mode} (hd : goOn d = some .word)
    (hk : ∀ m ∈ k, Le m .word) (h : (if c == d then k else goOn c) = some m) :
    ∃ n, goOn c = some n ∧ Le m n := by
  by_cases hc : c = d
  · subst hc
    simp only [beq_self_eq_true, if_true] at h
    exact ⟨.word, hd, hk m h⟩
  · simp only [hc, beq_iff_eq, if_false] at h
    exact ⟨m, h, .refl m⟩

/-- A character of a keyword, or one that may follow a keyword, is read inside a chunk. -/
theorem keyword_le_word {c : Char} {k : Option Mode} {m : Mode} (hk : ∀ m ∈ k, begin c = some m)
    (h : (if c == '\\' then some (Mode.escape true)
      else if Token.isKeywordChar c then some .keyword else k) = some m) :
    ∃ n, goOn c = some n ∧ Le m n := by
  by_cases hc : c = '\\'
  · subst hc
    cases h
    exact ⟨.escape false, rfl, .escape⟩
  · by_cases hkc : Token.isKeywordChar c = true
    · have hne : c ≠ '@' := by
        rintro rfl
        exact absurd hkc (by decide)
      simp only [hc, hkc, beq_iff_eq, if_false, if_true, Option.some.injEq] at h
      subst h
      have hword := (goOn_eq_begin hne).trans (begin_keywordChar hkc)
      exact ⟨.word, hword, .word (.inl rfl) (by decide)⟩
    · simp only [hc, hkc, beq_iff_eq, if_false] at h
      exact begin_le (hk m h)

/-- A character that is read outside of strings, comments and escapes is read inside a chunk. -/
theorem step_le_word {m m' : Mode} {c : Char} (hrest : m.rests = true ∨ m = .atSign)
    (hs : m ≠ .slash) (h : m.step c = some m') : ∃ n, goOn c = some n ∧ Le m' n := by
  have hbang : Le .ltBang .word := .word (.inl rfl) (by decide)
  have hbangDash : Le .ltBangDash .word := .word (.inl rfl) (by decide)
  have hdash : Le .dashDash .word := .word (.inl rfl) (by decide)
  cases m with
  | fresh => exact begin_le h
  | closed =>
    obtain ⟨n, hn, hle⟩ := step_closed_le h
    obtain ⟨k, hk, hle'⟩ := begin_le hn
    exact ⟨k, hk, hle.trans hle'⟩
  | lt => exact marker_le_word rfl (by simpa using hbang) h
  | ltBang => exact marker_le_word rfl (by simpa using hbangDash) h
  | ltBangDash => exact marker_le_word rfl (by simp) h
  | dash => exact marker_le_word rfl (by simpa using hdash) h
  | dashDash => exact marker_le_word rfl (by simp) h
  | word => exact ⟨m', h, .refl m'⟩
  | atSign => exact keyword_le_word (by simp) h
  | keyword => exact keyword_le_word (by simp) h
  | slash => exact absurd rfl hs
  | escape | string | stringEscape | comment | commentStar => simp [rests] at hrest

/-- A character that is read in one mode is read in every more permissive one, and the order
stays. -/
theorem step_le {m n m' : Mode} {c : Char} (h : Le m n) (hm : m.step c = some m') :
    ∃ n', n.step c = some n' ∧ Le m' n' := by
  cases h with
  | refl => exact ⟨m', hm, .refl m'⟩
  | closed => exact step_closed_le hm
  | escape =>
    cases hm
    exact ⟨.word, rfl, .word (.inl rfl) (by decide)⟩
  | word hrest hs => exact step_le_word hrest hs hm

/-- A text that is read in one mode is read in every more permissive one. Induction on the text. -/
theorem run_le {m n m' : Mode} {s : Text} (h : Le m n) (hm : m.run s = some m') :
    ∃ n', n.run s = some n' ∧ Le m' n' := by
  induction s generalizing m n with
  | nil =>
    cases hm
    exact ⟨n, rfl, h⟩
  | cons c s ih =>
    obtain ⟨k, hk, hrun⟩ := Option.bind_eq_some_iff.1 hm
    obtain ⟨k', hk', hle⟩ := step_le h hk
    obtain ⟨n', hn', hle'⟩ := ih hle hrun
    exact ⟨n', by rw [run_cons, hk', Option.bind_some, hn'], hle'⟩

/-- A head can be read to its end, where a token may end, and neither braces nor semicolons stand in
it outside of strings, comments and escapes. -/
def Flat (m : Mode) (s : Text) : Prop := ∃ n, m.run s = some n ∧ n.rests = true

/-- Text that is read to a mode goes on with any head that is read from there. -/
theorem Flat.prepend {m k : Mode} {a b : Text} (ha : m.run a = some k) (hb : k.Flat b) :
    m.Flat (a ++ b) := by
  obtain ⟨n, hn, hrest⟩ := hb
  exact ⟨n, (run_append_of_run ha b).trans hn, hrest⟩

theorem Flat.of_le {m n : Mode} {s : Text} (hm : m.Flat s) (h : Le m n) : n.Flat s := by
  obtain ⟨k, hk, hrest⟩ := hm
  obtain ⟨k', hk', hle⟩ := run_le h hk
  exact ⟨k', hk', hle.rests hrest⟩

/-- Reading inside a chunk and reading between two tokens differ in the `@` alone. -/
theorem Flat.fresh_of_word {s : Text} (h : Flat .word s) (hat : s.head? ≠ some '@') :
    Flat .fresh s := by
  cases s with
  | nil => exact ⟨.fresh, rfl, rfl⟩
  | cons c s =>
    have hc : c ≠ '@' := fun hc => hat (by rw [hc]; rfl)
    obtain ⟨n, hrun, hrest⟩ := h
    have hstep : step .fresh c = step .word c := (goOn_eq_begin hc).symm
    exact ⟨n, by rw [run_cons, hstep, ← run_cons, hrun], hrest⟩

end Mode

/-! ## Blocks -/

/-- Reads a character of a block with `depth` blocks open inside it. Nothing is read behind the
brace that closes the block itself. -/
def flowStep (m : Mode) (depth : Nat) (c : Char) : Option (Mode × Nat) :=
  if m.rests && isStructural c then
    if c == '{' then some (.fresh, depth + 1)
    else if c == ';' then some (.fresh, depth)
    else match depth with
      | 0 => none
      | depth + 1 => some (.closed, depth)
  else (m.step c).map fun n => (n, depth)

def flow (m : Mode) (depth : Nat) : Text → Option (Mode × Nat)
  | [] => some (m, depth)
  | c :: s => (flowStep m depth c).bind fun st => flow st.1 st.2 s

@[simp] theorem flow_nil (m : Mode) (d : Nat) : flow m d [] = some (m, d) := rfl

@[simp] theorem flow_cons (m : Mode) (d : Nat) (c : Char) (s : Text) :
    flow m d (c :: s) = (flowStep m d c).bind fun st => flow st.1 st.2 s := rfl

theorem flow_append (m : Mode) (d : Nat) (a b : Text) :
    flow m d (a ++ b) = (flow m d a).bind fun st => flow st.1 st.2 b := by
  induction a generalizing m d with
  | nil => rfl
  | cons c a ih =>
    cases h : flowStep m d c with
    | none => simp [h]
    | some st => simp [h, ih]

theorem flow_append_of_flow {m k : Mode} {d e : Nat} {a : Text} (h : flow m d a = some (k, e))
    (b : Text) : flow m d (a ++ b) = flow k e b := by
  rw [flow_append, h, Option.bind_some]

/-! ### Single characters -/

theorem flowStep_of_step {m n : Mode} {c : Char} (h : m.step c = some n) (d : Nat) :
    flowStep m d c = some (n, d) := by
  -- where a token may end, a character with a step does not structure the stylesheet
  have hns : (m.rests && isStructural c) = false := by
    by_contra hs
    simp only [Bool.not_eq_false, Bool.and_eq_true] at hs
    rw [Mode.step_structural hs.1 hs.2] at h
    cases h
  simp only [flowStep, hns, Bool.false_eq_true, if_false, h, Option.map_some]

theorem flowStep_open {m : Mode} (h : m.rests = true) (d : Nat) :
    flowStep m d '{' = some (.fresh, d + 1) := by
  simp [flowStep, h, isStructural]

theorem flowStep_semicolon {m : Mode} (h : m.rests = true) (d : Nat) :
    flowStep m d ';' = some (.fresh, d) := by
  simp [flowStep, h, isStructural]

theorem flowStep_close {m : Mode} (h : m.rests = true) (d : Nat) :
    flowStep m (d + 1) '}' = some (.closed, d) := by
  simp [flowStep, h, isStructural]

theorem flowStep_close_zero {m : Mode} (h : m.rests = true) : flowStep m 0 '}' = none := by
  simp [flowStep, h, isStructural]

/-- A head is read in a block as it is outside of it. -/
theorem flow_of_run {m n : Mode} {s : Text} (h : m.run s = some n) (d : Nat) :
    flow m d s = some (n, d) := by
  induction s generalizing m with
  | nil =>
    cases h
    rfl
  | cons c s ih =>
    obtain ⟨k, hk, hrun⟩ := Option.bind_eq_some_iff.1 h
    rw [flow_cons, flowStep_of_step hk, Option.bind_some, ih hrun]

theorem flowStep_le {m n m' : Mode} {d e : Nat} {c : Char} (h : Mode.Le m n)
    (hm : flowStep m d c = some (m', e)) :
    ∃ n', flowStep n d c = some (n', e) ∧ Mode.Le m' n' := by
  by_cases hs : (m.rests && isStructural c) = true
  · have hs' : (n.rests && isStructural c) = true := by
      simp only [Bool.and_eq_true] at hs ⊢
      exact ⟨h.rests hs.1, hs.2⟩
    refine ⟨m', ?_, .refl m'⟩
    unfold flowStep at hm ⊢
    rw [if_pos hs] at hm
    rw [if_pos hs', hm]
  · unfold flowStep at hm
    rw [if_neg hs] at hm
    obtain ⟨k, hk, heq⟩ := Option.map_eq_some_iff.1 hm
    cases heq
    obtain ⟨n', hn', hle⟩ := Mode.step_le h hk
    exact ⟨n', flowStep_of_step hn' d, hle⟩

/-- A text of a block that is read in one mode is read in every more permissive one. -/
theorem flow_le {m n m' : Mode} {d e : Nat} {s : Text} (h : Mode.Le m n)
    (hm : flow m d s = some (m', e)) : ∃ n', flow n d s = some (n', e) ∧ Mode.Le m' n' := by
  induction s generalizing m n d with
  | nil =>
    cases hm
    exact ⟨n, rfl, h⟩
  | cons c s ih =>
    obtain ⟨⟨k, d'⟩, hk, hrun⟩ := Option.bind_eq_some_iff.1 hm
    obtain ⟨k', hk', hle⟩ := flowStep_le h hk
    obtain ⟨n', hn', hle'⟩ := ih hle hrun
    exact ⟨n', by rw [flow_cons, hk', Option.bind_some, hn'], hle'⟩

theorem flowStep_add {m n : Mode} {d e : Nat} {c : Char} (h : flowStep m d c = some (n, e))
    (k : Nat) : flowStep m (d + k) c = some (n, e + k) := by
  unfold flowStep at h ⊢
  split at h
  · rename_i hs
    rw [if_pos hs]
    split at h
    · rename_i hc
      cases h
      rw [if_pos hc, Nat.add_right_comm]
    · rename_i hc
      rw [if_neg hc]
      split at h
      · rename_i hc'
        cases h
        rw [if_pos hc']
      · rename_i hc'
        rw [if_neg hc']
        cases d with
        | zero => cases h
        | succ d =>
          cases h
          rw [Nat.add_right_comm]
  · rename_i hs
    rw [if_neg hs]
    obtain ⟨n', hn', heq⟩ := Option.map_eq_some_iff.1 h
    cases heq
    rw [hn', Option.map_some]

/-- What is read in a block is read in a block inside of others too. -/
theorem flow_add {m n : Mode} {d e : Nat} {s : Text} (h : flow m d s = some (n, e)) (k : Nat) :
    flow m (d + k) s = some (n, e + k) := by
  induction s generalizing m d with
  | nil =>
    cases h
    rfl
  | cons c s ih =>
    obtain ⟨⟨m', d'⟩, hstep, hrun⟩ := Option.bind_eq_some_iff.1 h
    rw [flow_cons, flowStep_add hstep k, Option.bind_some, ih hrun]

/-- A text of a block can be read to where a token may end, with so many blocks open before it and
so many behind it. -/
def Flows (m : Mode) (before behind : Nat) (s : Text) : Prop :=
  ∃ n, flow m before s = some (n, behind) ∧ n.rests = true

theorem Flows.of_le {m n : Mode} {d e : Nat} {s : Text} (h : Flows m d e s) (hle : Mode.Le m n) :
    Flows n d e s := by
  obtain ⟨k, hk, hrest⟩ := h
  obtain ⟨k', hk', hle'⟩ := flow_le hle hk
  exact ⟨k', hk', hle'.rests hrest⟩

/-- What may stand between the braces of a block. -/
def Content (s : Text) : Prop := Flows .fresh 0 0 s

end StylePrune
