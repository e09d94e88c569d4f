import StylePrune.Proofs.Joining
import StylePrune.Proofs.Pieces

/-!
# The commas of a head

The grammar takes a head apart into tokens, and the reader of selectors cuts it at commas without
them. Here the two are compared. Each character of a head is *marked*: it is live when it stands in
a chunk and no backslash takes it along, and idle in blanks, strings, comments, slashes, keywords
and escapes. Brackets and commas count where they are live.

* **`Marked`** — a text in items whose brackets and commas are the live ones;
  `RuleHead.marked`: the head of a rule is such a text, with the marks its tokens give.
* **`Marked.splitCommas`** — the cuts of such a text are its live commas outside all brackets.
* **`Outline.splitCommas_heads`** — so are the cuts of the head of every rule.
-/

namespace StylePrune

open Lexeme (textOf)

/-! ## Marks -/

/-- The characters of a text, each with whether it is live. -/
abbrev Marks := List (Char × Bool)

namespace Marks

def idle (s : Text) : Marks := s.map fun c => (c, false)

/-- The marks of a chunk: a backslash and the character behind it are idle. -/
def ofChunk : Text → Marks
  | [] => []
  | '\\' :: c :: s => ('\\', false) :: (c, false) :: ofChunk s
  | c :: s => (c, true) :: ofChunk s

def text (ms : Marks) : Text := ms.map Prod.fst

/-- The number of open brackets behind a character, given the number before it. A bracket that
closes none leaves none open. -/
def deepen (depth : Nat) : Char × Bool → Nat
  | (_, false) => depth
  | (c, true) =>
    if c = '(' ∨ c = '[' then depth + 1 else if c = ')' ∨ c = ']' then depth - 1 else depth

/-- The number of open brackets behind a text, given the number before it. -/
def depthFrom (depth : Nat) (ms : Marks) : Nat := ms.foldl deepen depth

/-- With so many brackets open before the text, there is a live comma at the offset, and no bracket
is open there. -/
def Separates (depth : Nat) (ms : Marks) (k : Nat) : Prop :=
  ms[k]? = some (',', true) ∧ depthFrom depth (ms.take k) = 0

@[simp] theorem idle_nil : idle [] = [] := rfl

@[simp] theorem idle_cons (c : Char) (s : Text) : idle (c :: s) = (c, false) :: idle s := rfl

@[simp] theorem text_idle (s : Text) : (idle s).text = s := by
  simp [idle, text, Function.comp_def]

@[simp] theorem text_cons (m : Char × Bool) (ms : Marks) : text (m :: ms) = m.1 :: text ms := rfl

@[simp] theorem text_append (as bs : Marks) : text (as ++ bs) = text as ++ text bs :=
  List.map_append

variable {d k : Nat} {m : Char × Bool} {ms ns : Marks} {s : Text}

@[simp] theorem depthFrom_cons : depthFrom d (m :: ms) = depthFrom (deepen d m) ms := rfl

theorem separates_nil : ¬ Separates d [] k := by simp [Separates]

theorem separates_cons :
    Separates d (m :: ms) k ↔
      (k = 0 ∧ m = (',', true) ∧ d = 0) ∨ ∃ j, k = j + 1 ∧ Separates (deepen d m) ms j := by
  cases k with
  | zero => simp [Separates, depthFrom]
  | succ j => simp [Separates]

/-- A comma that counts has no bracket open before it. -/
theorem separates_of_ne (hm : m ≠ (',', true) ∨ d ≠ 0) :
    Separates d (m :: ms) k ↔ ∃ j, k = j + 1 ∧ Separates (deepen d m) ms j := by
  rw [separates_cons, or_iff_right]
  rintro ⟨-, hcomma, hzero⟩
  rcases hm with hm | hm
  · exact hm hcomma
  · exact hm hzero

theorem separates_idle :
    Separates d (idle s ++ ms) k ↔ ∃ j, k = s.length + j ∧ Separates d ms j := by
  induction s generalizing k with
  | nil => simp
  | cons c s ih =>
    have hidle : ((c, false) : Char × Bool) ≠ (',', true) := by simp
    rw [idle_cons, List.cons_append, separates_of_ne (.inl hidle)]
    simp only [deepen, ih, List.length_cons]
    constructor
    · rintro ⟨_, rfl, j, rfl, h⟩
      exact ⟨j, by omega, h⟩
    · rintro ⟨j, rfl, h⟩
      exact ⟨s.length + j, by omega, j, rfl, h⟩

/-- The brackets that are open before the text are closed with its end, and not before. -/
def Closes (d : Nat) (ms : Marks) : Prop :=
  depthFrom d ms = 0 ∧ ∀ k < ms.length, 0 < depthFrom d (ms.take k)

theorem Closes.cons (hd : 0 < d) (h : Closes (deepen d m) ms) : Closes d (m :: ms) := by
  refine ⟨h.1, fun k hk => ?_⟩
  cases k with
  | zero => exact hd
  | succ k => exact h.2 k (by simpa using hk)

theorem Closes.idle (hd : 0 < d) (h : Closes d ms) : Closes d (Marks.idle s ++ ms) := by
  induction s with
  | nil => exact h
  | cons c s ih => exact .cons hd ih

theorem Closes.pos (h : Closes d ms) (hne : ms ≠ []) : 0 < d :=
  h.2 0 (List.length_pos_iff.2 hne)

/-- Where brackets are closed no comma counts before their end. -/
theorem Closes.separates (h : Closes d ms) :
    Separates d (ms ++ ns) k ↔ ∃ j, k = ms.length + j ∧ Separates 0 ns j := by
  induction ms generalizing d k with
  | nil =>
    obtain rfl : d = 0 := h.1
    simp
  | cons m ms ih =>
    -- a bracket is open before the first character, so no comma counts there
    have hd : d ≠ 0 := Nat.pos_iff_ne_zero.1 (h.pos (List.cons_ne_nil m ms))
    have hrest : Closes (deepen d m) ms :=
      ⟨h.1, fun k hk => by simpa using h.2 (k + 1) (by simpa using hk)⟩
    rw [List.cons_append, separates_of_ne (.inr hd)]
    simp only [ih hrest, List.length_cons]
    constructor
    · rintro ⟨_, rfl, j, rfl, h⟩
      exact ⟨j, by omega, h⟩
    · rintro ⟨j, rfl, h⟩
      exact ⟨ms.length + j, by omega, j, rfl, h⟩

end Marks

/-! ## The marks of tokens -/

theorem Marks.text_ofChunk (s : Text) : (ofChunk s).text = s := by
  fun_induction ofChunk s with
  | case1 => rfl
  | case2 c s ih => rw [text_cons, text_cons, ih]
  | case3 c s _ ih => rw [text_cons, ih]

def Token.marks : Token → Marks
  | .chunk t => .ofChunk t
  | t => .idle t.text

theorem Token.text_marks (t : Token) : t.marks.text = t.text := by
  cases t with
  | chunk t => exact Marks.text_ofChunk t
  | _ => exact Marks.text_idle _

namespace Lexeme

def marks (l : Lexeme) : Marks := .idle l.gap ++ l.token.marks

/-- The marks of a head: of its lexemes, and of the blanks before its opening brace. -/
def headMarks (ls : List Lexeme) (opening : Text) : Marks := ls.flatMap marks ++ .idle opening

theorem text_marks (ls : List Lexeme) : Marks.text (ls.flatMap marks) = textOf ls := by
  induction ls with
  | nil => rfl
  | cons l ls ih =>
    rw [List.flatMap_cons, Marks.text_append, ih, marks, Marks.text_append, Marks.text_idle,
      Token.text_marks]
    rfl

/-- A comma that counts does not stand in the text of a token that is no chunk. -/
theorem outside_of_separates {before after : List Lexeme} {l : Lexeme} {opening : Text} {d k : Nat}
    (hl : ∀ t, l.token ≠ .chunk t)
    (h : Marks.Separates d (headMarks (before ++ l :: after) opening) k) :
    k < (textOf before ++ l.gap).length ∨ (textOf before ++ l.text).length ≤ k := by
  have hidle : l.token.marks = .idle l.token.text := by
    cases ht : l.token with
    | chunk t => exact absurd ht (hl t)
    | _ => rfl
  have hmarks : headMarks (before ++ l :: after) opening =
      (before.flatMap marks ++ .idle l.gap) ++
        (.idle l.token.text ++ headMarks after opening) := by
    simp [headMarks, marks, hidle]
  have hbefore : (before.flatMap marks ++ Marks.idle l.gap).length =
      (textOf before ++ l.gap).length := by
    rw [← text_marks before]
    simp [Marks.text, Marks.idle]
  have hlength : (textOf before ++ l.text).length =
      (textOf before ++ l.gap).length + (Marks.idle l.token.text).length := by
    simp [text, Marks.idle, Nat.add_assoc]
  -- an offset in between falls on an idle character, which is no live comma
  by_contra hinside
  rw [not_or, Nat.not_lt, Nat.not_le] at hinside
  obtain ⟨hge, hlt⟩ := hinside
  have hcomma := h.1
  rw [hmarks, List.getElem?_append_right (by omega), List.getElem?_append_left (by omega),
    Marks.idle, List.getElem?_map, Option.map_eq_some_iff] at hcomma
  obtain ⟨c, -, heq⟩ := hcomma
  cases heq

end Lexeme

/-! ## Marked texts -/

/-- A character at which a text is cut or grouped. -/
def countsForCommas (c : Char) : Bool := [',', '(', '[', ')', ']'].contains c

namespace Marks

section

variable {c closer : Char} {live : Bool} {d : Nat}

theorem deepen_open (hlive : countsForCommas c = true → live = true)
    (hc : closerOf? c = some closer) : deepen d (c, live) = d + 1 := by
  have hopen : c = '(' ∨ c = '[' := by
    unfold closerOf? at hc
    split at hc <;> simp_all
  have hcounts : countsForCommas c = true := by rcases hopen with rfl | rfl <;> rfl
  simp [hlive hcounts, deepen, hopen]

theorem deepen_close (hlive : countsForCommas c = true → live = true) (hc : c = ')' ∨ c = ']') :
    deepen d (c, live) = d - 1 := by
  have hcounts : countsForCommas c = true := by rcases hc with rfl | rfl <;> rfl
  rcases hc with rfl | rfl <;> simp [hlive hcounts, deepen]

/-- Whether live or not, other characters change nothing, and neither does a bracket that closes
none. -/
theorem deepen_other (hc : closerOf? c = none) (hclose : c = ')' ∨ c = ']' → d = 0) :
    deepen d (c, live) = d := by
  have hopen : ¬ (c = '(' ∨ c = '[') := by
    rintro (rfl | rfl) <;> cases hc
  by_cases hbracket : c = ')' ∨ c = ']'
  · cases live <;> simp [deepen, hopen, hclose hbracket]
  · cases live <;> simp [deepen, hopen, hbracket]

end

end Marks

open Item in
/-- The text is scanned in items over which the marks are live at every bare bracket and comma, and
idle in shielded text. -/
inductive Marked : Text → Marks → Prop
  | nil : Marked [] []
  | bare {c : Char} {live : Bool} {rest : Text} {ms : Marks}
      (hnext : next (c :: rest) = .ok (some (.bare c, rest)))
      (hlive : countsForCommas c = true → live = true) (h : Marked rest ms) :
      Marked (c :: rest) ((c, live) :: ms)
  | shielded {t rest : Text} {ms : Marks}
      (hnext : next (t ++ rest) = .ok (some (.shielded t, rest))) (h : Marked rest ms) :
      Marked (t ++ rest) (.idle t ++ ms)

namespace Marked

variable {s rest : Text} {ms : Marks}

theorem text_eq (h : Marked s ms) : ms.text = s := by
  induction h with
  | nil => rfl
  | bare _ _ _ ih => rw [Marks.text_cons, ih]
  | shielded _ _ ih => rw [Marks.text_append, Marks.text_idle, ih]

/-- A marked text has an item at its start, or is at its end. -/
theorem not_fault (h : Marked s ms) (fault : ScanFault) : Item.next s ≠ .error fault := by
  intro hfault
  cases h with
  | nil => cases hfault
  | bare hnext | shielded hnext => cases hnext.symm.trans hfault

theorem of_bare {c : Char} (h : Marked s ms) (hnext : Item.next s = .ok (some (.bare c, rest))) :
    ∃ live ns, ms = (c, live) :: ns ∧ (countsForCommas c = true → live = true) ∧
      Marked rest ns := by
  cases h with
  | nil => cases hnext
  | bare hbare hlive h =>
    cases hbare.symm.trans hnext
    exact ⟨_, _, rfl, hlive, h⟩
  | shielded hshielded => cases hshielded.symm.trans hnext

theorem of_shielded {t : Text} (h : Marked s ms)
    (hnext : Item.next s = .ok (some (.shielded t, rest))) :
    ∃ ns, ms = .idle t ++ ns ∧ Marked rest ns := by
  cases h with
  | nil => cases hnext
  | bare hbare => cases hbare.symm.trans hnext
  | shielded hshielded h =>
    cases hshielded.symm.trans hnext
    exact ⟨_, rfl, h⟩

/-! ### Groups -/

/-- What goes wrong in a group of a marked text are its brackets. -/
theorem closeGroup_fault {awaited : Char} {outer : List Char} {fault : ScanFault}
    (hm : Marked s ms) (h : closeGroup awaited outer s = .error fault) :
    fault ≠ .openString ∧ fault ≠ .openComment := by
  fun_induction closeGroup awaited outer s generalizing ms with
  | case1 awaited outer s fault' hs => exact absurd hs (hm.not_fault fault')
  | case2 | case7 =>
    cases h
    simp
  | case5 => cases h
  | case3 awaited outer s t r hs ih =>
    obtain ⟨ns, -, hns⟩ := hm.of_shielded hs
    exact ih hns (Text.prepend_eq_error_iff.1 h)
  | case4 _ _ _ _ _ hs _ _ ih | case6 _ _ _ _ hs _ _ _ _ _ ih | case8 _ _ _ _ _ hs _ _ ih =>
    obtain ⟨-, ns, -, -, hns⟩ := hm.of_bare hs
    exact ih hns (Text.prepend_eq_error_iff.1 h)

/-- A bare character in front of a group: behind it the group goes on with as many open brackets as
the character leaves. -/
theorem closes_bare {c : Char} {group left : Text} {d e : Nat} (hm : Marked s ms)
    (hnext : Item.next s = .ok (some (.bare c, rest))) (hd : 0 < d)
    (hdeepen : ∀ {live}, (countsForCommas c = true → live = true) → Marks.deepen d (c, live) = e)
    (hrest : ∀ {ns}, Marked rest ns → ∃ as bs, ns = as ++ bs ∧ as.length = group.length ∧
      Marks.Closes e as ∧ Marked left bs) :
    ∃ as bs, ms = as ++ bs ∧ as.length = (c :: group).length ∧ Marks.Closes d as ∧
      Marked left bs := by
  obtain ⟨live, ns, rfl, hlive, hns⟩ := hm.of_bare hnext
  obtain ⟨as, bs, rfl, hlength, hcloses, hbs⟩ := hrest hns
  refine ⟨(c, live) :: as, bs, rfl, by simp [hlength], .cons hd ?_, hbs⟩
  rw [hdeepen hlive]
  exact hcloses

/-- A group of a marked text ends where the brackets are closed that are open at its start. -/
theorem closeGroup {awaited : Char} {outer : List Char} {group : Text} (hm : Marked s ms)
    (h : StylePrune.closeGroup awaited outer s = .ok (group, rest)) :
    ∃ ns more, ms = ns ++ more ∧ ns.length = group.length ∧ Marks.Closes (outer.length + 1) ns ∧
      Marked rest more := by
  fun_induction StylePrune.closeGroup awaited outer s generalizing group ms with
  | case1 | case2 | case7 => simp at h
  | case3 awaited outer s t r hs ih =>
    obtain ⟨u, hu, rfl⟩ := Text.prepend_eq_ok_iff.1 h
    obtain ⟨ns, rfl, hns⟩ := hm.of_shielded hs
    obtain ⟨as, bs, rfl, hlength, hcloses, hbs⟩ := ih hns hu
    refine ⟨.idle t ++ as, bs, by simp, ?_, hcloses.idle (Nat.succ_pos _), hbs⟩
    simp [Marks.idle, hlength]
  | case4 awaited outer s c r hs closer hc ih =>
    -- the bracket opens a group in the group
    obtain ⟨u, hu, rfl⟩ := Text.prepend_eq_ok_iff.1 h
    exact hm.closes_bare hs (Nat.succ_pos _) (fun hlive => Marks.deepen_open hlive hc)
      fun hns => ih hns hu
  | case5 awaited s c r hs hc hb ha =>
    -- it is the outermost group that ends
    cases h
    refine hm.closes_bare hs Nat.one_pos
      (fun hlive => Marks.deepen_close hlive (by simpa using hb)) fun hns => ?_
    exact ⟨[], _, rfl, rfl, ⟨rfl, fun k hk => absurd hk (Nat.not_lt_zero k)⟩, hns⟩
  | case6 awaited s c r hs hc hb ha next outer ih =>
    obtain ⟨u, hu, rfl⟩ := Text.prepend_eq_ok_iff.1 h
    exact hm.closes_bare hs (Nat.succ_pos _)
      (fun hlive => Marks.deepen_close hlive (by simpa using hb)) fun hns => ih hns hu
  | case8 awaited outer s c r hs hc hb ih =>
    obtain ⟨u, hu, rfl⟩ := Text.prepend_eq_ok_iff.1 h
    have hclose : ¬ (c = ')' ∨ c = ']') := by simpa using hb
    exact hm.closes_bare hs (Nat.succ_pos _)
      (fun _ => Marks.deepen_other hc fun h => absurd h hclose) fun hns => ih hns hu

end Marked

/-! ## Cuts -/

/-- The pieces meet at a comma at the offset in their joined text. -/
def CutAt (pieces : List Text) (k : Nat) : Prop :=
  ∃ as bs, as ≠ [] ∧ bs ≠ [] ∧ pieces = as ++ bs ∧ k = ([','].intercalate as).length

section

variable {piece t : Text} {pieces : List Text} {k : Nat}

theorem not_cutAt_singleton : ¬ CutAt [piece] k := by
  rintro ⟨as, bs, has, hbs, happ, -⟩
  have hlength := congrArg List.length happ
  have hpos := List.length_pos_iff.2 has
  have hpos' := List.length_pos_iff.2 hbs
  simp only [List.length_append, List.length_singleton] at hlength
  omega

/-- Text in front of the first piece shifts the cuts. -/
theorem cutAt_prepend :
    CutAt ((t ++ piece) :: pieces) k ↔ ∃ j, k = t.length + j ∧ CutAt (piece :: pieces) j := by
  constructor
  · rintro ⟨as, bs, has, hbs, happ, rfl⟩
    obtain ⟨a, as, rfl⟩ := List.exists_cons_of_ne_nil has
    obtain ⟨rfl, rfl⟩ := List.cons.inj happ
    refine ⟨_, ?_, piece :: as, bs, List.cons_ne_nil _ _, hbs, rfl, rfl⟩
    rw [intercalate_append_cons, List.length_append]
  · rintro ⟨j, rfl, as, bs, has, hbs, happ, rfl⟩
    obtain ⟨a, as, rfl⟩ := List.exists_cons_of_ne_nil has
    obtain ⟨rfl, rfl⟩ := List.cons.inj happ
    refine ⟨(t ++ piece) :: as, bs, List.cons_ne_nil _ _, hbs, rfl, ?_⟩
    rw [intercalate_append_cons, List.length_append]

/-- An empty piece in front of the others is a cut at the start. -/
theorem cutAt_comma :
    CutAt ([] :: piece :: pieces) k ↔ k = 0 ∨ ∃ j, k = j + 1 ∧ CutAt (piece :: pieces) j := by
  constructor
  · rintro ⟨as, bs, has, hbs, happ, rfl⟩
    obtain ⟨a, as, rfl⟩ := List.exists_cons_of_ne_nil has
    obtain ⟨rfl, hbehind⟩ := List.cons.inj happ
    cases as with
    | nil => exact .inl rfl
    | cons b as =>
      refine .inr ⟨_, ?_, b :: as, bs, List.cons_ne_nil _ _, hbs, hbehind, rfl⟩
      simp [List.intercalate]
  · rintro (rfl | ⟨j, rfl, as, bs, has, hbs, happ, rfl⟩)
    · exact ⟨[[]], piece :: pieces, by simp, by simp, rfl, rfl⟩
    · obtain ⟨a, as, rfl⟩ := List.exists_cons_of_ne_nil has
      refine ⟨[] :: a :: as, bs, List.cons_ne_nil _ _, hbs, by rw [happ]; rfl, ?_⟩
      simp [List.intercalate]

end

namespace Marked

variable {s : Text} {ms : Marks}

theorem splitCommas_fault {fault : ScanFault} (hm : Marked s ms)
    (h : splitCommas s = .error fault) : fault ≠ .openString ∧ fault ≠ .openComment := by
  fun_induction splitCommas s generalizing ms with
  | case1 s fault' hs => exact absurd hs (hm.not_fault fault')
  | case2 => cases h
  | case3 s t r hs ih =>
    obtain ⟨ns, -, hns⟩ := hm.of_shielded hs
    exact ih hns (Text.prepend_eq_error_iff.1 h)
  | case4 s c r hs hc ih =>
    obtain ⟨-, ns, -, -, hns⟩ := hm.of_bare hs
    cases hr : StylePrune.splitCommas r with
    | ok found =>
      rw [hr] at h
      cases h
    | error e =>
      rw [hr] at h ih
      cases h
      exact ih hns rfl
  | case5 s c r hs hc hn ih =>
    obtain ⟨-, ns, -, -, hns⟩ := hm.of_bare hs
    exact ih hns (Text.prepend_eq_error_iff.1 h)
  | case6 s c r hs hc closer hn fault' hg =>
    cases h
    obtain ⟨-, ns, -, -, hns⟩ := hm.of_bare hs
    exact hns.closeGroup_fault hg
  | case7 s c r hs hc closer hn group r' hg ih =>
    obtain ⟨-, ns, -, -, hns⟩ := hm.of_bare hs
    obtain ⟨-, more, -, -, -, hmore⟩ := hns.closeGroup hg
    exact ih hmore (Text.prepend_eq_error_iff.1 h)

/-- A marked text is cut at its live commas outside all brackets. Item by item: behind each item, or
group, no bracket is open. -/
theorem splitCommas {piece : Text} {pieces : List Text} (hm : Marked s ms)
    (h : StylePrune.splitCommas s = .ok (piece, pieces)) (k : Nat) :
    CutAt (piece :: pieces) k ↔ ms.Separates 0 k := by
  fun_induction StylePrune.splitCommas s generalizing piece pieces ms k with
  | case1 | case6 => simp at h
  | case2 s hs =>
    cases h
    obtain rfl := Item.next_eq_none_iff.1 hs
    obtain rfl : ms = [] := List.map_eq_nil_iff.1 hm.text_eq
    exact iff_of_false not_cutAt_singleton Marks.separates_nil
  | case3 s t r hs ih =>
    obtain ⟨u, hu, rfl⟩ := Text.prepend_eq_ok_iff.1 h
    obtain ⟨ns, rfl, hns⟩ := hm.of_shielded hs
    simp only [cutAt_prepend, Marks.separates_idle, ih hns hu]
  | case4 s c r hs hc ih =>
    obtain ⟨first, others, hr, rfl, rfl⟩ := splitCommas_map_eq_ok_iff.1 h
    obtain ⟨live, ns, rfl, hlive, hns⟩ := hm.of_bare hs
    obtain rfl : c = ',' := beq_iff_eq.1 hc
    rw [hlive rfl, cutAt_comma, Marks.separates_cons]
    simp [ih hns hr, Marks.deepen]
  | case5 s c r hs hc hn ih =>
    obtain ⟨u, hu, rfl⟩ := Text.prepend_eq_ok_iff.1 h
    obtain ⟨live, ns, rfl, hlive, hns⟩ := hm.of_bare hs
    have hcomma : c ≠ ',' := by simpa using hc
    rw [cutAt_prepend, Marks.separates_of_ne (.inl (by simp [hcomma])),
      Marks.deepen_other hn fun _ => rfl]
    simp only [ih hns hu, List.length_singleton, Nat.add_comm]
  | case7 s c r hs hc closer hn group r' hg ih =>
    obtain ⟨u, hu, rfl⟩ := Text.prepend_eq_ok_iff.1 h
    obtain ⟨live, ns, rfl, hlive, hns⟩ := hm.of_bare hs
    obtain ⟨as, more, rfl, hlength, hcloses, hmore⟩ := hns.closeGroup hg
    have hcomma : c ≠ ',' := by simpa using hc
    have hgroup : Marks.Closes (0 + 1) as := hcloses
    rw [cutAt_prepend, Marks.separates_of_ne (.inl (by simp [hcomma])), Marks.deepen_open hlive hn]
    -- no comma of the group counts
    simp only [hgroup.separates, ih hmore hu, List.length_cons, hlength]
    constructor
    · rintro ⟨j, rfl, h⟩
      exact ⟨group.length + j, by omega, j, rfl, h⟩
    · rintro ⟨_, rfl, j, rfl, h⟩
      exact ⟨j, by omega, h⟩

end Marked

/-! ## Heads are marked -/

namespace Marked

variable {s : Text} {ms : Marks}

/-- A character that shields nothing is an item, if it begins no comment. -/
theorem cons {c : Char} {live : Bool} (hback : c ≠ '\\') (hquote : ¬ (c = '\x22' ∨ c = '\x27'))
    (hslash : c = '/' → s.head? ≠ some '*') (hlive : countsForCommas c = true → live = true)
    (h : Marked s ms) : Marked (c :: s) ((c, live) :: ms) :=
  .bare (Item.Taken.bare hback hquote hslash).next hlive h

/-- So is a character of a class that holds none of those that shield or begin a comment. -/
theorem of_class {p : Char → Bool} {c : Char} {live : Bool}
    (hp : ['\\', '\x22', '\x27', '/'].any p = false) (hc : p c = true)
    (hlive : live = true ∨ [',', '(', '[', ')', ']'].any p = false) (h : Marked s ms) :
    Marked (c :: s) ((c, live) :: ms) := by
  have hne : ∀ d ∈ ['\\', '\x22', '\x27', '/'], c ≠ d := by
    rintro d hd rfl
    exact List.any_eq_false.1 hp c hd hc
  refine .cons (hne _ (by simp)) ?_ (fun h => absurd h (hne _ (by simp))) ?_ h
  · rintro (h | h)
    · exact hne _ (by simp) h
    · exact hne _ (by simp) h
  · intro hcounts
    refine hlive.resolve_right fun hnone => ?_
    exact List.any_eq_false.1 hnone c (by simpa [countsForCommas] using hcounts) hc

theorem escape (c : Char) (h : Marked s ms) :
    Marked ('\\' :: c :: s) (('\\', false) :: (c, false) :: ms) :=
  .shielded (t := ['\\', c]) (Item.Taken.escape c s).next h

theorem gap {gap : Text} (hgap : ∀ c ∈ gap, Text.isBlank c = true) (h : Marked s ms) :
    Marked (gap ++ s) (.idle gap ++ ms) := by
  induction gap with
  | nil => exact h
  | cons c gap ih =>
    obtain ⟨hc, hgap⟩ := List.forall_mem_cons.1 hgap
    exact (ih hgap).of_class (by decide) hc (.inr (by decide))

theorem chunk {u : Text} (hu : Escaped Token.isChunkChar u) (h : Marked s ms) :
    Marked (u ++ s) (.ofChunk u ++ ms) := by
  induction hu with
  | nil => exact h
  | @member c u hc _ ih =>
    have hback : c ≠ '\\' := by
      rintro rfl
      cases hc
    rw [Marks.ofChunk.eq_3 c u fun _ _ h => absurd h hback]
    exact ih.of_class (by decide) hc (.inl rfl)
  | escape c _ ih => exact ih.escape c

theorem keyword {u : Text} (hu : Escaped Token.isKeywordChar u) (h : Marked s ms) :
    Marked (u ++ s) (.idle u ++ ms) := by
  induction hu with
  | nil => exact h
  | member hc _ ih => exact ih.of_class (by decide) hc (.inr (by decide))
  | escape c _ ih => exact ih.escape c

/-- A token of a head is scanned in items with its marks. -/
theorem token {t : Token} (ht : t.Terminal) (hplain : t.isPlain = true)
    (hslash : t = .slash → s.head? ≠ some '*') (h : Marked s ms) :
    Marked (t.text ++ s) (t.marks ++ ms) := by
  cases ht with
  | @comment body hbody =>
    have hclose := closeComment_eq_some_iff.2 ⟨body, rfl, (List.append_nil _).symm, hbody⟩
    exact .shielded (Item.Taken.comment hclose s).next h
  | @string q body hq hbody =>
    have hclose := (closeString_eq_some_iff (Token.ne_backslash_of_quote hq)).2
      ⟨body, rfl, (List.append_nil _).symm, hbody⟩
    exact .shielded (Item.Taken.string hq (closeString_multiline hclose) s).next h
  | slash => exact .cons (by decide) (by decide) (fun _ => hslash rfl) nofun h
  | atKeyword hname _ =>
    exact .cons (by decide) (by decide) (fun h => absurd h (by decide)) nofun (h.keyword hname)
  | chunk hu _ _ => exact h.chunk hu
  | openBrace | closeBrace | semicolon | openMarker | closeMarker => cases hplain

/-- A token is scanned so in front of the lexemes of a head that are lexed behind it: what stands
behind a slash in the head stands behind it in the text. -/
theorem token_lexemes {awaited : Prop} {before ls more : List Lexeme} {t : Token}
    {rest opening left : Text} (htaken : Token.Taken awaited s t rest) (hplain : t.isPlain = true)
    (hrest : Lexes before rest (ls ++ ⟨opening, .openBrace⟩ :: more) left)
    (h : Marked (textOf ls ++ opening) ms) :
    Marked (t.text ++ (textOf ls ++ opening)) (t.marks ++ ms) := by
  refine token htaken.terminal hplain (fun ht hstar => htaken.noComment ht ?_) h
  -- an asterisk that the head goes on with is the one behind the slash in the text
  have happ : rest = textOf ls ++ opening ++ '{' :: (textOf more ++ left) := by
    rw [hrest.append_eq]
    simp [Lexeme.text, Token.text]
  rw [happ]
  exact List.mem_head?_append_of_mem_head? hstar

/-- Lexemes in front of an opening brace are scanned in items with their marks. Induction on the
lexemes. -/
theorem lexemes {before ls more : List Lexeme} {opening left : Text}
    (hplain : ∀ l ∈ ls, l.token.isPlain = true)
    (h : Lexes before s (ls ++ ⟨opening, .openBrace⟩ :: more) left) :
    Marked (textOf ls ++ opening) (Lexeme.headMarks ls opening) := by
  induction ls generalizing before s with
  | nil =>
    cases h with
    | cons hgap _ _ => simpa [Lexeme.headMarks] using Marked.nil.gap hgap
  | cons l ls ih =>
    obtain ⟨hl, hplain⟩ := List.forall_mem_cons.1 hplain
    cases h with
    | cons hgap htaken hrest =>
      have hlexeme := (token_lexemes htaken hl hrest (ih hplain hrest)).gap hgap
      simpa [Lexeme.headMarks, Lexeme.marks, Lexeme.text] using hlexeme

end Marked

/-! ## The heads of a stylesheet -/

/-- The phrase is one of those that the text is derived as, or stands in the block of a conditional
at-rule among them in the same way. -/
inductive Phrase.In : Text → Phrase → Prop
  | here {source gap : Text} {d : Derivation} {p : Phrase} (hlexed : Lexed source d.lexemes gap)
      (hp : p ∈ d) : In source p
  | inside {source gap leading keyword : Text} {d : Derivation} {tail : Tail} {block : Block}
      {p : Phrase} (hlexed : Lexed source d.lexemes gap)
      (hgroup : .atRule leading keyword tail block ∈ d)
      (hconditional : AtRule.isConditional keyword = true) (h : In block.body p) : In source p

/-- The lexemes of the head of a rule in a text, without the blanks before it, and the blanks before
its opening brace. -/
inductive RuleHead (source : Text) : List Lexeme → Text → Prop
  | intro {first : Lexeme} {hfirst : first.token.startsRule = true} {tail : Tail} {block : Block}
      (h : Phrase.In source (.rule first hfirst tail block)) :
      RuleHead source (⟨[], first.token⟩ :: tail.lexemes) block.opening

variable {source : Text} {ls : List Lexeme} {opening : Text}

/-- A phrase is lexed somewhere. -/
theorem Phrase.In.lexes {p : Phrase} (h : In source p) :
    ∃ before s left, Lexes before s p.lexemes left := by
  induction h with
  | @here source gap d p hlexed hp =>
    obtain ⟨d₁, d₂, rfl⟩ := List.append_of_mem hp
    have hlexes := hlexed.lexes
    rw [Derivation.lexemes, List.flatMap_append, List.flatMap_cons] at hlexes
    obtain ⟨s, -, hbehind⟩ := Lexes.append_iff.1 hlexes
    obtain ⟨left, hp, -⟩ := Lexes.append_iff.1 hbehind
    exact ⟨_, s, left, hp⟩
  | inside _ _ _ _ ih => exact ih

/-- The head of a rule is scanned in items with the marks of its tokens. -/
theorem RuleHead.marked (h : RuleHead source ls opening) :
    Marked (textOf ls ++ opening) (Lexeme.headMarks ls opening) := by
  obtain @⟨first, hfirst, tail, block, hin⟩ := h
  obtain ⟨before, s, left, hlexes⟩ := hin.lexes
  cases hlexes with
  | cons hgap htaken hrest =>
    have hfirst' := Token.isPlain_of_startsRule hfirst
    have htoken := Marked.token_lexemes htaken hfirst' hrest (.lexemes tail.plain hrest)
    simpa [Lexeme.headMarks, Lexeme.marks, Lexeme.text] using htoken

namespace Outline

theorem exists_phrase_of_mem {skipped gap : Text} {d : Derivation} {st : Statement}
    (h : st ∈ (d.statements skipped gap).1) : ∃ p ∈ d, ∃ skipped', p.statement? skipped' = some st := by
  induction d generalizing skipped with
  | nil => cases h
  | cons p d ih =>
    rw [Derivation.statements] at h
    split at h
    · obtain ⟨q, hq, hst⟩ := ih h
      exact ⟨q, List.mem_cons_of_mem p hq, hst⟩
    · rename_i hp
      rcases List.mem_cons.1 h with rfl | h
      · exact ⟨p, List.mem_cons_self, skipped, hp⟩
      · obtain ⟨q, hq, hst⟩ := ih h
        exact ⟨q, List.mem_cons_of_mem p hq, hst⟩

/-- The heads of an outline are those of the rules that the grammar derives. -/
theorem exists_ruleHead {sts : List Statement} {trailing gap : Text} {d : Derivation}
    (hlexed : Lexed source d.lexemes gap)
    (hsts : ∀ st ∈ sts, ∃ p ∈ d, ∃ skipped, p.statement? skipped = some st) :
    ∀ head ∈ (ofStatements sts trailing).heads,
      ∃ ls opening, RuleHead source ls opening ∧ head = textOf ls ++ opening := by
  fun_induction ofStatements sts trailing generalizing source d gap with
  | case1 => simp [Sheet.heads]
  | case2 trailing leading t sts ih =>
    exact ih hlexed fun st hst => hsts st (List.mem_cons_of_mem _ hst)
  | case3 trailing leading head body sts ih =>
    obtain ⟨hrule, hsts⟩ := List.forall_mem_cons.1 hsts
    refine List.forall_mem_cons.2 ⟨?_, ih hlexed hsts⟩
    obtain ⟨p, hp, skipped, hst⟩ := hrule
    cases p with
    | rule first hfirst tail block =>
      cases hst
      exact ⟨_, _, .intro (.here hlexed hp), by simp [Lexeme.text]⟩
    | stray | comment | atRule | blockless => cases hst
  | case4 trailing leading keyword prelude sts ih =>
    exact ih hlexed fun st hst => hsts st (List.mem_cons_of_mem _ hst)
  | case5 trailing leading keyword prelude body sts hconditional inner innerTrailing hread
      ihinner ih =>
    obtain ⟨hgroup, hsts⟩ := List.forall_mem_cons.1 hsts
    intro head hhead
    rcases List.mem_append.1 hhead with hin | hbehind
    · -- the block of the group is a text with a derivation of its own
      obtain ⟨p, hp, skipped, hst⟩ := hgroup
      cases p with
      | atRule gap' keyword' tail block =>
        cases hst
        obtain ⟨_, gap', d', hlexed', rfl, hstatements⟩ :=
          Statement.readAll_eq_ok_iff_derives.1 hread
        have hinner : inner = (d'.statements [] gap').1 := by rw [hstatements]
        obtain ⟨ls, opening, hrule, heq⟩ :=
          ihinner hlexed' (fun st hst => exists_phrase_of_mem (hinner ▸ hst)) head hin
        obtain @⟨first, hfirst, tail', block', hphrase⟩ := hrule
        exact ⟨_, _, .intro (.inside hlexed hp hconditional hphrase), heq⟩
      | stray | comment | rule | blockless => cases hst
    · exact ih hlexed hsts head hbehind
  | case6 trailing leading keyword prelude body sts hconditional e hread ih =>
    exact ih hlexed fun st hst => hsts st (List.mem_cons_of_mem _ hst)
  | case7 trailing leading keyword prelude body sts hconditional ih =>
    exact ih hlexed fun st hst => hsts st (List.mem_cons_of_mem _ hst)

/-- The head of every rule, in the text or in the block of a conditional at-rule, is cut at the
commas of its chunks that no backslash takes along and that stand outside all brackets of its chunks,
and nowhere else. Strings and comments in it are closed. -/
theorem splitCommas_heads {outline : Outline} (h : parse source = .ok outline) :
    (∀ head ∈ outline.heads,
        ∃ ls opening, RuleHead source ls opening ∧ head = textOf ls ++ opening) ∧
      ∀ ls opening, RuleHead source ls opening →
        let head := textOf ls ++ opening
        let marks := Lexeme.headMarks ls opening
        marks.text = head ∧
          splitCommas head ≠ .error .openString ∧ splitCommas head ≠ .error .openComment ∧
          ∀ piece pieces, splitCommas head = .ok (piece, pieces) →
            (∀ k, CutAt (piece :: pieces) k ↔ marks.Separates 0 k) ∧
              ∀ before l after, ls = before ++ l :: after → (∀ t, l.token ≠ .chunk t) →
                ∀ k, CutAt (piece :: pieces) k →
                  k < (textOf before ++ l.gap).length ∨ (textOf before ++ l.text).length ≤ k := by
  refine ⟨?_, ?_⟩
  · obtain ⟨sts, trailing, hread, rfl⟩ := parse_eq_ok_iff.1 h
    obtain ⟨_, gap, d, hlexed, rfl, hsts⟩ := Statement.readAll_eq_ok_iff_derives.1 hread
    have hsts' : sts = (d.statements [] gap).1 := by rw [hsts]
    exact exists_ruleHead hlexed fun st hst => exists_phrase_of_mem (hsts' ▸ hst)
  · intro ls opening hhead head marks
    have hmarked := hhead.marked
    refine ⟨hmarked.text_eq, fun hfault => (hmarked.splitCommas_fault hfault).1 rfl,
      fun hfault => (hmarked.splitCommas_fault hfault).2 rfl, fun piece pieces hpieces => ?_⟩
    have hcuts := hmarked.splitCommas hpieces
    refine ⟨hcuts, ?_⟩
    rintro before l after rfl hchunk k hk
    exact Lexeme.outside_of_separates hchunk ((hcuts k).1 hk)

/-- The comma behind the brackets cuts, the one in them and the one in the string do not. -/
theorem splitCommas_heads_brackets :
    let source := "a[b,c],d\",\"{}".toList
    let head := "a[b,c],d\",\"".toList
    ∃ ls opening, RuleHead source ls opening ∧ head = textOf ls ++ opening ∧
      ∀ k, CutAt ["a[b,c]".toList, "d\",\"".toList] k ↔
        (Lexeme.headMarks ls opening).Separates 0 k := by
  intro source head
  have hread : Statement.readAll source = .ok ([.rule [] head []], []) := by decide +kernel
  obtain ⟨hheads, hcuts⟩ := splitCommas_heads (parse_eq_ok_iff.2 ⟨_, _, hread, rfl⟩)
  have hmem : head ∈ (ofStatements [.rule [] head []] []).heads := by
    simp [ofStatements, Sheet.heads]
  obtain ⟨ls, opening, hrule, heq⟩ := hheads head hmem
  refine ⟨ls, opening, hrule, heq, ?_⟩
  have hpieces : splitCommas (textOf ls ++ opening) =
      .ok ("a[b,c]".toList, ["d\",\"".toList]) := by
    rw [← heq]
    decide +kernel
  exact ((hcuts ls opening hrule).2.2.2 _ _ hpieces).1

end Outline

end StylePrune
