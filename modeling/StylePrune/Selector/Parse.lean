import StylePrune.Selector.Combinator
import StylePrune.Selector.Part

/-!
# Reading selectors

`Selector.parse` reads one selector, `Selector.parseList` the list that stands before the block of
a rule. A selector is a run of combinators and other parts. Spacing at its start belongs to no
part, unless a symbol follows; spacing at its end belongs to none either. Both readers keep every
character of what they are given (`Selector.parse_raw`, `Selector.parseList_joined`).
-/

namespace StylePrune.Selector

/-- The error that a fault is reported as, with `s` left of `text` where it was met. -/
def faultError (text s : Text) : PartFault → SelectorError
  | .unexpected c => .unexpected c (text.length - s.length) text
  | .scan fault => .scan fault text

/-- Puts a part in front of those that were read behind it. -/
def consPart (part : Part) :
    Except SelectorError (List Part × Text) → Except SelectorError (List Part × Text)
  | .error e => .error e
  | .ok (parts, after) => .ok (part :: parts, after)

/-- Reads all parts that are left in `s`, the end of `text`, and the spacing behind them. -/
def parseParts (text s : Text) : Except SelectorError (List Part × Text) :=
  match s with
  | [] => .ok ([], [])
  | c :: rest =>
    match _hc : Combinator.read (c :: rest) with
    | (combinator, behind) =>
      if _hr : combinator.raw = [] then
        match _h : Part.read c rest with
        | .error fault => .error (faultError text (c :: rest) fault)
        | .ok (part, rest) => consPart part (parseParts text rest)
      else if combinator.symbol.isEmpty && behind.isEmpty then .ok ([], combinator.raw)
      else
        consPart ⟨.combinator, combinator.value, combinator.raw⟩ (parseParts text behind)
termination_by s.length
decreasing_by
  · have := Part.read_length_le _h
    simp only [List.length_cons]
    omega
  · have := Combinator.read_length_lt (s := c :: rest) (by rw [_hc]; exact _hr)
    rwa [_hc] at this

/-- An empty text has no parts. -/
theorem parseParts_nil (text : Text) : parseParts text [] = .ok ([], []) := by
  rw [parseParts]

/-- Takes the spacing at the start of a text, unless it belongs to a combinator with a symbol. -/
def takeLead (text : Text) : Text × Text :=
  let (combinator, behind) := Combinator.read text
  if combinator.symbol.isEmpty then (combinator.raw, behind) else ([], text)

def parse (text : Text) : Except SelectorError Selector :=
  match parseParts text (takeLead text).2 with
  | .error e => .error e
  | .ok ([], _) => .error (.empty text)
  | .ok (parts, after) => .ok ⟨parts, (takeLead text).1, after⟩

/-- Reads one selector from each of several texts; the first that is refused decides. -/
def parseEach : List Text → Except SelectorError (List Selector)
  | [] => .ok []
  | text :: texts =>
    match parse text with
    | .error e => .error e
    | .ok selector =>
      match parseEach texts with
      | .error e => .error e
      | .ok selectors => .ok (selector :: selectors)

/-- Reads the selectors between the commas of a text. -/
def parseList (text : Text) : Except SelectorError (List Selector) :=
  match splitCommas text with
  | .error fault => .error (.scan fault text)
  | .ok (piece, pieces) => parseEach (piece :: pieces)

theorem consPart_eq_ok_iff {part : Part} {parts : List Part} {after : Text}
    {x : Except SelectorError (List Part × Text)} :
    consPart part x = .ok (parts, after) ↔ ∃ ps, x = .ok (ps, after) ∧ parts = part :: ps := by
  cases x with
  | error e => simp [consPart]
  | ok p =>
    obtain ⟨ps, a⟩ := p
    simp only [consPart, Except.ok.injEq, Prod.mk.injEq]
    constructor
    · rintro ⟨rfl, rfl⟩
      exact ⟨ps, ⟨rfl, rfl⟩, rfl⟩
    · rintro ⟨qs, ⟨rfl, rfl⟩, rfl⟩
      exact ⟨rfl, rfl⟩

/-- The parts that are read and the spacing behind them make up the text. -/
theorem parseParts_raw {text s after : Text} {parts : List Part}
    (h : parseParts text s = .ok (parts, after)) : parts.flatMap Part.raw ++ after = s := by
  fun_induction parseParts text s generalizing parts after with
  | case1 =>
    simp only [Except.ok.injEq, Prod.mk.injEq] at h
    obtain ⟨rfl, rfl⟩ := h
    rfl
  | case2 => simp at h
  | case3 c rest combinator behind hc hr part rest' hp ih =>
    obtain ⟨ps, hps, rfl⟩ := consPart_eq_ok_iff.1 h
    rw [List.flatMap_cons, List.append_assoc, ih hps, Part.read_append hp]
  | case4 c rest combinator behind hc hr hend =>
    simp only [Except.ok.injEq, Prod.mk.injEq] at h
    obtain ⟨rfl, rfl⟩ := h
    have happ := Combinator.read_append (c :: rest)
    simp only [Bool.and_eq_true, List.isEmpty_iff] at hend
    rw [hc, hend.2, List.append_nil] at happ
    exact happ
  | case5 c rest combinator behind hc hr hend ih =>
    obtain ⟨ps, hps, rfl⟩ := consPart_eq_ok_iff.1 h
    have happ := Combinator.read_append (c :: rest)
    rw [hc] at happ
    rw [List.flatMap_cons, List.append_assoc, ih hps]
    exact happ

theorem takeLead_append (text : Text) : (takeLead text).1 ++ (takeLead text).2 = text := by
  have happ := Combinator.read_append text
  unfold takeLead
  split
  rename_i combinator behind heq
  rw [heq] at happ
  split
  · exact happ
  · rfl

/-- The text of a selector is the text it was read from. -/
theorem parse_raw {text : Text} {s : Selector} (h : parse text = .ok s) : s.raw = text := by
  unfold parse at h
  split at h
  · simp at h
  · simp at h
  · rename_i parts after _ hparts
    simp only [Except.ok.injEq] at h
    subst h
    rw [raw, List.append_assoc, parseParts_raw hparts, takeLead_append]

/-- Selectors read one by one have the texts they were read from. -/
theorem parseEach_raw {texts : List Text} {selectors : List Selector}
    (h : parseEach texts = .ok selectors) : selectors.map raw = texts := by
  induction texts generalizing selectors with
  | nil =>
    simp only [parseEach, Except.ok.injEq] at h
    subst h
    rfl
  | cons text texts ih =>
    unfold parseEach at h
    split at h
    · simp at h
    · rename_i selector hs
      split at h
      · simp at h
      · rename_i rest hrest
        simp only [Except.ok.injEq] at h
        subst h
        rw [List.map_cons, parse_raw hs, ih hrest]

/-- The selectors of a list, joined by commas, are the text the list was read from. -/
theorem parseList_joined {text : Text} {selectors : List Selector}
    (h : parseList text = .ok selectors) : joined selectors = text := by
  unfold parseList at h
  split at h
  · simp at h
  · rename_i piece pieces hsplit
    rw [joined, parseEach_raw h, splitCommas_append hsplit]

end StylePrune.Selector
