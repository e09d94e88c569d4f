import StylePrune.Proofs.Lowercase
import StylePrune.Usage

/-!
# The verdict of a content

The names in use are collected from the whole stylesheet, in lists of several kinds, yet whether a
part of it may match is a matter of the part and the content alone (`Usage.allows_ofContent`): it is
searched for by its name, in lower case and, unless it is a tag, without escapes (`Part.needle?`).
So a selector that is kept is kept in every stylesheet that holds it (`Usage.keeps_ofContent_iff`).

A tag that is in use stays in use when the spaces at its start are cut off
(`Corpus.mentions_of_space`).
-/

namespace StylePrune

/-- What a content is searched for to tell whether a part may match: the name in lower case, its
escapes decoded first unless it is a tag. Parts that are not checked are not searched for. -/
def Part.needle? (p : Part) : Option Text :=
  match p.kind with
  | .className | .idName | .attribute => some (Identifier.decode p.value).lower
  | .tag => some p.value.lower
  | .combinator | .pseudoClass | .pseudoElement | .universal => none

namespace Corpus

/-- Whether a part may match, by the content: its value is mentioned, or the part is not checked. -/
def allows (c : Corpus) (p : Part) : Bool :=
  match p.kind with
  | .className | .idName | .attribute => c.mentionsDecoded p.value
  | .tag => c.mentions p.value
  | .combinator | .pseudoClass | .pseudoElement | .universal => true

/-- Whether a selector may match, by the content. -/
def keeps (c : Corpus) (s : Selector) : Bool := s.parts.all c.allows

theorem mentions_ofContent_iff {content name : Text} :
    (ofContent content).mentions name = true ↔ name.lower ≠ [] ∧ name.lower <:+: content.lower := by
  simp [mentions, ofContent, Text.occursIn_iff]

/-- A part may match when what it is searched for by occurs in the content in lower case. -/
theorem allows_ofContent_iff {content : Text} {p : Part} :
    (ofContent content).allows p = true ↔
      ∀ needle ∈ p.needle?, needle ≠ [] ∧ needle <:+: content.lower := by
  unfold allows Part.needle?
  cases p.kind <;> simp [mentionsDecoded, mentions_ofContent_iff]

end Corpus

namespace Usage

variable {s : Stylesheet} {content : Text}

/-- Classes and ids without escapes are looked up as they stand, the others decoded; either way the
decoded name decides. A value is never in both lists, since its escapes tell them apart. -/
theorem mem_mentionedOf {c : Corpus} {kind : PartKind} {p : Part} (hp : p ∈ s.parts)
    (hkind : p.kind = kind) (hspecial : kind = .className ∨ kind = .idName) :
    p.value ∈ mentionedOf c kind s ↔ c.mentionsDecoded p.value = true := by
  have hescaped : ∀ q : Part, q.kind = kind → (q.isSpecial = true ↔ '\\' ∈ q.value) := by
    rintro q rfl
    rcases hspecial with h | h <;> simp [Part.isSpecial, h]
  simp only [mentionedOf, Corpus.mentioned, Corpus.mentionedDecoded, List.mem_append,
    Text.mem_firstSeen, List.mem_filter, Stylesheet.mem_valuesSpecial]
  constructor
  · rintro (⟨⟨q, -, hq, hplain, hvalue⟩, hmention⟩ | ⟨-, hmention⟩)
    · have hback : '\\' ∉ p.value := by
        rw [← hvalue, ← hescaped q hq, hplain]
        simp
      rwa [Corpus.mentionsDecoded, Identifier.decode_eq_self hback]
    · exact hmention
  · intro hmention
    cases hplain : p.isSpecial with
    | true => exact .inr ⟨⟨p, hp, hkind, hplain, rfl⟩, hmention⟩
    | false =>
      have hback : '\\' ∉ p.value := by
        rw [← hescaped p hkind, hplain]
        simp
      rw [Corpus.mentionsDecoded, Identifier.decode_eq_self hback] at hmention
      exact .inl ⟨⟨p, hp, hkind, hplain, rfl⟩, hmention⟩

theorem allows_ofContent {p : Part} (hp : p ∈ s.parts) :
    (ofContent s content).allows p = (Corpus.ofContent content).allows p := by
  have hvalue : ∀ kind, p.kind = kind → p.value ∈ s.values kind :=
    fun kind hkind => Stylesheet.mem_values.2 ⟨p, hp, hkind, rfl⟩
  unfold allows Corpus.allows
  cases hkind : p.kind with
  | className => simp [namesOf?, ofContent, mem_mentionedOf hp hkind]
  | idName => simp [namesOf?, ofContent, mem_mentionedOf hp hkind]
  | «attribute» => simp [namesOf?, ofContent, Corpus.mentionedDecoded, hvalue _ hkind]
  | tag => simp [namesOf?, ofContent, Corpus.mentioned, hvalue _ hkind]
  | combinator | pseudoClass | pseudoElement | universal => rfl

/-- A selector of the stylesheet is kept when the content says so. -/
theorem keeps_ofContent {selector : Selector} (h : selector ∈ s.selectors) :
    (ofContent s content).keeps selector = (Corpus.ofContent content).keeps selector := by
  have hparts : ∀ p ∈ selector.parts,
      (ofContent s content).allows p = (Corpus.ofContent content).allows p :=
    fun p hp => allows_ofContent (List.mem_flatMap.2 ⟨selector, h, hp⟩)
  unfold keeps Corpus.keeps
  rw [Bool.eq_iff_iff, List.all_eq_true, List.all_eq_true]
  exact forall₂_congr fun p hp => by rw [hparts p hp]

/-- A selector of a stylesheet is kept exactly when all that its parts are searched for by occurs in
the content in lower case, so every stylesheet that holds it decides on it alike. -/
theorem keeps_ofContent_iff {selector : Selector} (h : selector ∈ s.selectors) :
    ((ofContent s content).keeps selector = true ↔
        ∀ p ∈ selector.parts, ∀ needle ∈ p.needle?, needle ≠ [] ∧ needle <:+: content.lower) ∧
      ∀ s' : Stylesheet, selector ∈ s'.selectors →
        (ofContent s' content).keeps selector = (ofContent s content).keeps selector := by
  constructor
  · rw [keeps_ofContent h, Corpus.keeps, List.all_eq_true]
    exact forall₂_congr fun p _ => Corpus.allows_ofContent_iff
  · intro s' h'
    rw [keeps_ofContent h', keeps_ofContent h]

/-- A class written with an escape, inside a group, and a tag in capitals: the content holds them
without the escape and in other cases. -/
theorem keeps_ofContent_iff_escaped :
    let selector : Selector :=
      ⟨[⟨.tag, "P".toList, "P".toList⟩, ⟨.className, "a\\:b".toList, ".a\\:b".toList⟩], [], []⟩
    let s : Stylesheet :=
      .group [] "@media".toList [] none (.rule [] [selector] ['{', '}'] (.done [])) (.done [])
    selector ∈ s.selectors ∧ (ofContent s "<p class=A:b>".toList).keeps selector = true := by
  intro selector s
  have hmem : selector ∈ s.selectors := by simp [s, Stylesheet.selectors, Sheet.heads]
  have hdecode : Identifier.decode "a\\:b".toList = "a:b".toList := by
    simp [Identifier.decode, Identifier.isHexDigit, Text.isLineEnd]
  have hcontent : Text.lower "<p class=A:b>".toList = "<p class=a:b>".toList := by decide +kernel
  refine ⟨hmem, (keeps_ofContent_iff hmem).1.2 ?_⟩
  rw [hcontent]
  simp only [selector, List.forall_mem_cons, Part.needle?, hdecode, Option.mem_some_iff,
    forall_eq', List.not_mem_nil, false_imp_iff, implies_true, and_true]
  decide +kernel

end Usage

/-! ## Spaces at the start -/

namespace Text

/-- The code points of all spaces. -/
def spaceCodes : List Nat :=
  [0x09, 0x0A, 0x0B, 0x0C, 0x0D, 0x1C, 0x1D, 0x1E, 0x1F, 0x20, 0x85, 0xA0, 0x1680, 0x2000, 0x2001,
    0x2002, 0x2003, 0x2004, 0x2005, 0x2006, 0x2007, 0x2008, 0x2009, 0x200A, 0x2028, 0x2029, 0x202F,
    0x205F, 0x3000]

theorem mem_spaceCodes {c : Char} (h : isSpace c = true) : c.toNat ∈ spaceCodes := by
  simp only [isSpace, Bool.or_eq_true, Bool.and_eq_true, decide_eq_true_eq, beq_iff_eq] at h
  simp only [spaceCodes, List.mem_cons, List.not_mem_nil, or_false]
  omega

theorem space_ne {c d : Char} (hc : isSpace c = true) (hd : isSpace d = false) : c ≠ d := by
  rintro rfl
  rw [hd] at hc
  cases hc

theorem trimStart_space {c : Char} (hc : isSpace c = true) (s : Text) :
    trimStart (c :: s) = trimStart s := by
  simp [trimStart, hc]

theorem trimStart_other {c : Char} (hc : isSpace c = false) (s : Text) :
    trimStart (c :: s) = c :: s := by
  simp [trimStart, hc]

/-- What holds of a text and is not lost with a space at its start holds of the trimmed text. -/
theorem trimStart_induction {P : Text → Prop}
    (hspace : ∀ {c s}, isSpace c = true → P (c :: s) → P s) {s : Text} (h : P s) :
    P (trimStart s) := by
  induction s with
  | nil => exact h
  | cons c s ih =>
    by_cases hc : isSpace c = true
    · rw [trimStart_space hc]
      exact ih (hspace hc h)
    · rwa [trimStart_other (by simpa using hc)]

/-- A property that every space has. -/
theorem forall_space {p : Char → Bool} (h : ∀ n ∈ spaceCodes, p (Char.ofNat n) = true) {c : Char}
    (hc : isSpace c = true) : p c = true := by
  have hp := h c.toNat (mem_spaceCodes hc)
  rwa [Char.ofNat_toNat] at hp

/-- A space is no letter with a case, so the text behind it is lower-cased as it is alone. -/
theorem lower_cons_space {c : Char} (hc : isSpace c = true) (s : Text) :
    lower (c :: s) = lowerChar c ++ lower s := by
  have hsigma : (c.toNat == 0x3A3) = false := by
    have hne := forall_space (p := fun c => !(c.toNat == 0x3A3)) (by decide) hc
    simpa using hne
  have hcased : isCased c = false := by
    have hnot := forall_space (p := fun c => !isCased c) (by decide +kernel) hc
    simpa using hnot
  rw [lower, lowerFrom, hsigma, hcased, ite_self]
  rfl

end Text

/-- A name that is mentioned with a space at its start is mentioned without it. -/
theorem Corpus.mentions_of_space {corpus : Corpus} {c : Char} {name : Text}
    (hc : Text.isSpace c = true) (hne : name ≠ []) (h : corpus.mentions (c :: name) = true) :
    corpus.mentions name = true := by
  simp only [mentions, Bool.and_eq_true, Bool.not_eq_true', List.isEmpty_eq_false_iff,
    Text.occursIn_iff, Text.lower_cons_space hc] at h ⊢
  have hsuffix : name.lower <:+: Text.lowerChar c ++ name.lower :=
    (List.suffix_append _ _).isInfix
  exact ⟨hne, hsuffix.trans h.2⟩

end StylePrune
