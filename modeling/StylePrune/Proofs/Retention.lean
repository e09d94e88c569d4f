import StylePrune.Proofs.Conservation
import StylePrune.Proofs.RoundTrip
import StylePrune.Proofs.Verdict

/-!
# What pruning retains

An element of the content carries names without escapes, so a selector is safe when its names,
decoded, are all found there. Classes, ids and attributes are looked up in just that way. A tag is
looked up as the stylesheet writes it, and one with an escape is lost when the content does not
spell it in the same way.

* **`Part.isName_of_read`**, **`IsName.decode_ne_nil`** — the value of a checked part is a name, and
  a name stands for at least one character.
* **`Stylesheet.filter_retains_iff`** — a selector whose names are all found, decoded, is retained
  exactly when its tags with escapes are found as they are written, too.
-/

namespace StylePrune

/-! ## Identifiers -/

namespace Identifier

/-- An escape is decoded by its first character, unless that is the first half of a line end. -/
theorem decode_escape {c : Char} (hc : c ≠ '\r') (rest : Text) :
    decode ('\\' :: c :: rest) =
      if isHexDigit c then
        charOfCode (hexNumber (hexRun (c :: rest))) ::
          decode (takeTerminator endsCode ((c :: rest).drop (hexRun (c :: rest)).length)).2
      else if Text.isLineEnd c then decode rest
      else c :: decode rest :=
  decode.eq_3 c rest fun _ hreturn => absurd hreturn hc

/-- An atom stands for a character, whatever follows it. -/
theorem Atom.Formed.decode_ne_nil {a : Atom} (h : a.Formed) (t : Text) :
    decode (a.text ++ t) ≠ [] := by
  cases h with
  | @plain c hname =>
    have hback : c ≠ '\\' := by
      rintro rfl
      cases hname
    have hdecode : decode (c :: t) = c :: decode t :=
      decode.eq_4 c t (fun _ hc => absurd hc hback) (fun _ _ hc => absurd hc hback)
    simp [Atom.text, hdecode]
  | @code d digits terminator hdigits hblank =>
    have hd := hdigits d List.mem_cons_self
    have hreturn : d ≠ '\r' := by
      rintro rfl
      cases hd
    simp [Atom.text, decode_escape hreturn, hd]
  | @escaped c hhex hline =>
    have hreturn : c ≠ '\r' := by
      rintro rfl
      cases hline
    simp [Atom.text, decode_escape hreturn, hhex, hline]

theorem decode_read_ne_nil {s : Text} (h : (read s).1 ≠ []) : decode (read s).1 ≠ [] := by
  revert h
  unfold read
  fun_cases atoms s with
  | case1 => exact fun h => absurd rfl h
  | case2 a rest hread as rest' heq =>
    intro _
    simp only [List.flatMap_cons]
    exact (Atom.formed_of_read? hread).decode_ne_nil _

end Identifier

/-! ## Checked parts -/

/-- A text is a name when it is read as one somewhere. -/
def IsName (name : Text) : Prop := ∃ s rest, readName? s = some (name, rest)

theorem IsName.ne_nil {name : Text} (h : IsName name) : name ≠ [] := by
  obtain ⟨_, _, h⟩ := h
  exact readName?_ne_nil h

/-- A name stands for at least one character. -/
theorem IsName.decode_ne_nil {name : Text} (h : IsName name) : Identifier.decode name ≠ [] := by
  have hne := h.ne_nil
  obtain ⟨s, rest, h⟩ := h
  have hdecode := Identifier.decode_read_ne_nil (s := s)
  unfold readName? at h
  split at h
  · cases h
  · rename_i heq
    cases h
    rw [heq] at hdecode
    exact hdecode hne

theorem isName_of_attributeName? {group name : Text} (h : attributeName? group = some name) :
    IsName name := by
  unfold attributeName? at h
  split at h
  · rename_i hqualified
    split at h <;> cases h
    rcases readQualified?_eq_some hqualified with ⟨_, -, hname⟩ | ⟨-, hname⟩
    · exact ⟨_, _, hname⟩
    · exact ⟨_, _, hname⟩
  · cases h

theorem isName_of_readTypeName? {s name rest : Text} (h : readTypeName? s = some (name, rest)) :
    name = ['*'] ∨ IsName name := by
  unfold readTypeName? at h
  split at h
  · cases h
    exact .inl rfl
  · exact .inr ⟨_, _, h⟩

namespace Part

variable {s rest : Text} {p : Part}

theorem isName_of_readMarked {kind : PartKind} {mark : Char}
    (h : readMarked kind mark s = .ok (p, rest)) : IsName p.value := by
  obtain ⟨name, hname, rfl⟩ := exists_of_readMarked h
  exact ⟨_, _, hname⟩

theorem isName_of_readAttribute (h : readAttribute s = .ok (p, rest)) : IsName p.value := by
  obtain ⟨group, name, -, hname, rfl⟩ := exists_of_readAttribute h
  exact isName_of_attributeName? hname

theorem kind_of_readPseudo {kind : PartKind} {colons : Text}
    (h : readPseudo kind colons s = .ok (p, rest)) : p.kind = kind := by
  obtain ⟨name, argument, -, rfl, -⟩ := exists_of_readPseudo h
  rfl

theorem isName_of_readType {c : Char} (h : readType c s = .ok (p, rest))
    (hp : p.isChecked = true) : IsName p.value := by
  obtain ⟨space, name, hqualified, rfl⟩ := exists_of_readType h
  -- the universal selector is not checked
  have hstar : name ≠ ['*'] := by
    rintro rfl
    cases hp
  rcases readQualified?_eq_some hqualified with ⟨_, -, hname⟩ | ⟨-, hname⟩
  · exact (isName_of_readTypeName? hname).resolve_left hstar
  · exact (isName_of_readTypeName? hname).resolve_left hstar

/-- The value of a checked part is a name. -/
theorem isName_of_read {c : Char} (h : read c s = .ok (p, rest)) (hp : p.isChecked = true) :
    IsName p.value := by
  unfold read at h
  split at h
  · exact isName_of_readMarked h
  · split at h
    · exact isName_of_readMarked h
    · split at h
      · exact isName_of_readAttribute h
      · split at h
        · split at h
          · simp [isChecked, kind_of_readPseudo h] at hp
          · simp [isChecked, kind_of_readPseudo h] at hp
        · split at h
          · cases h
            cases hp
          · exact isName_of_readType h hp

end Part

namespace Selector

theorem isName_of_parseParts {text s after : Text} {parts : List Part}
    (h : parseParts text s = .ok (parts, after)) :
    ∀ p ∈ parts, p.isChecked = true → IsName p.value := by
  fun_induction parseParts text s generalizing parts after with
  | case1 | case4 =>
    cases h
    simp
  | case2 => cases h
  | case3 c rest combinator behind hc hr part rest' hp ih =>
    obtain ⟨ps, hps, rfl⟩ := consPart_eq_ok_iff.1 h
    exact List.forall_mem_cons.2 ⟨Part.isName_of_read hp, ih hps⟩
  | case5 c rest combinator behind hc hr hend ih =>
    obtain ⟨ps, hps, rfl⟩ := consPart_eq_ok_iff.1 h
    refine List.forall_mem_cons.2 ⟨fun hchecked => ?_, ih hps⟩
    -- a combinator is not checked
    cases hchecked

theorem isName_of_parse {text : Text} {s : Selector} (h : parse text = .ok s) :
    ∀ p ∈ s.parts, p.isChecked = true → IsName p.value := by
  unfold parse at h
  split at h
  · cases h
  · cases h
  · rename_i hparts
    cases h
    exact isName_of_parseParts hparts

end Selector

/-! ## Retention -/

namespace Corpus

/-- A part whose name occurs in the content, decoded, may match unless it is a tag with an escape
that does not occur as it is written. -/
theorem allows_iff_of_found {content : Text} {p : Part}
    (hname : p.isChecked = true → IsName p.value)
    (hfound : p.isChecked = true → (Identifier.decode p.value).lower <:+: content.lower) :
    (ofContent content).allows p = true ↔
      (p.kind = .tag → '\\' ∈ p.value → p.value.lower <:+: content.lower) := by
  rw [allows_ofContent_iff]
  unfold Part.isChecked at hname hfound
  unfold Part.needle?
  cases hkind : p.kind with
  | className | idName | «attribute» =>
    simp only [hkind] at hname hfound
    simp [(hname rfl).decode_ne_nil, hfound rfl]
  | tag =>
    simp only [hkind] at hname hfound
    have hdecode := hfound rfl
    simp only [Option.mem_some_iff, forall_eq', ne_eq, Text.lower_eq_nil_iff, (hname rfl).ne_nil,
      not_false_eq_true, true_and, forall_const]
    refine ⟨fun hvalue _ => hvalue, fun hvalue => ?_⟩
    by_cases hback : '\\' ∈ p.value
    · exact hvalue hback
    · rwa [Identifier.decode_eq_self hback] at hdecode
  | combinator | pseudoClass | pseudoElement | universal => simp

end Corpus

namespace Stylesheet

variable {css : Text} {s : Stylesheet}

/-- The selectors of a stylesheet are read from their own texts. -/
theorem parse_of_mem_selectors (h : parse css = .ok s) {selector : Selector}
    (hs : selector ∈ s.selectors) : Selector.parse selector.raw = .ok selector := by
  obtain ⟨head, hhead, hmem⟩ := List.mem_flatten.1 hs
  exact (((formed_of_parse h).1.head hhead).sound selector hmem).parse

/-- Of the selectors of a stylesheet those that are kept are left, and the others are rejected. -/
theorem mem_filter_iff (h : parse css = .ok s) (u : Usage) {selector : Selector}
    (hs : selector ∈ s.selectors) :
    ∃ rejected, (filter u s).result = .ok rejected ∧
      (selector ∈ (filter u s).sheet.selectors ↔ u.keeps selector = true) ∧
      (selector ∉ rejected ↔ u.keeps selector = true) := by
  rw [filter_of_nodes u (formed_of_parse h).1.firstUnknown?]
  refine ⟨_, rfl, ?_, ?_⟩
  · simp [selectors_prune, List.mem_filter, hs]
  · simp [mem_rejected_iff, hs]

/-- A selector whose names all occur in the content, decoded, is retained exactly when those of its
tags that are written with an escape also occur as they are written. -/
theorem filter_retains_iff (h : parse css = .ok s) (content : Text) {selector : Selector}
    (hs : selector ∈ s.selectors)
    (hfound : ∀ p ∈ selector.parts, p.isChecked = true →
      (Identifier.decode p.value).lower <:+: content.lower) :
    let pruned := filter (Usage.ofContent s content) s
    let spelled := ∀ p ∈ selector.parts,
      p.kind = .tag → '\\' ∈ p.value → p.value.lower <:+: content.lower
    ∃ rejected, pruned.result = .ok rejected ∧
      (selector ∈ pruned.sheet.selectors ↔ spelled) ∧ (selector ∉ rejected ↔ spelled) := by
  intro pruned spelled
  have hnames := Selector.isName_of_parse (parse_of_mem_selectors h hs)
  have hkeeps : (Usage.ofContent s content).keeps selector = true ↔ spelled := by
    rw [Usage.keeps_ofContent hs, Corpus.keeps, List.all_eq_true]
    exact forall₂_congr fun p hp => Corpus.allows_iff_of_found (hnames p hp) (hfound p hp)
  obtain ⟨rejected, hresult, hkept, hrejected⟩ := mem_filter_iff h (Usage.ofContent s content) hs
  exact ⟨rejected, hresult, hkept.trans hkeeps, hrejected.trans hkeeps⟩

/-- A class written with an escape, and a tag whose escape the content spells too. -/
theorem filter_retains_iff_spelled :
    let css : Text := ".a\\:b \\g{}".toList
    let content : Text := "A:b \\G".toList
    let selector : Selector := ⟨[⟨.className, "a\\:b".toList, ".a\\:b".toList⟩,
      ⟨.combinator, [' '], [' ']⟩, ⟨.tag, "\\g".toList, "\\g".toList⟩], [], []⟩
    let s : Stylesheet := .rule [] [selector] ['{', '}'] (.done [])
    parse css = .ok s ∧
      (∀ p ∈ selector.parts, p.isChecked = true →
        (Identifier.decode p.value).lower <:+: content.lower) ∧
      selector ∈ (filter (Usage.ofContent s content) s).sheet.selectors := by
  intro css content selector s
  have hread : Statement.readAll css = .ok ([.rule [] ".a\\:b \\g".toList []], []) := by
    decide +kernel
  have hparse : parse css = .ok s := by
    refine parse_of_statements hread (o := s.mapHeads Selector.joined) ?_ (by decide +kernel)
    simp only [Outline.ofStatements]
    rfl
  have hmem : selector ∈ s.selectors := by simp [s, Stylesheet.selectors, Sheet.heads]
  have hfound : ∀ p ∈ selector.parts, p.isChecked = true →
      (Identifier.decode p.value).lower <:+: content.lower := by decide +kernel
  obtain ⟨rejected, -, hkept, -⟩ := filter_retains_iff hparse content hmem hfound
  refine ⟨hparse, hfound, hkept.2 ?_⟩
  decide +kernel

/-- A tag that is written with an escape is lost, although the content holds an element of its
name. -/
theorem filter_loses_escaped_tag :
    let selector : Selector := ⟨[⟨.tag, "\\61".toList, "\\61".toList⟩], [], []⟩
    let s : Stylesheet := .rule [] [selector] ['{', '}'] (.done [])
    let content : Text := "<a>".toList
    parse "\\61{}".toList = .ok s ∧
      (∀ p ∈ selector.parts, p.isChecked = true →
        (Identifier.decode p.value).lower <:+: content.lower) ∧
      selector ∉ (filter (Usage.ofContent s content) s).sheet.selectors := by
  intro selector s content
  have hread : Statement.readAll "\\61{}".toList = .ok ([.rule [] "\\61".toList []], []) := by
    decide +kernel
  have hparse : parse "\\61{}".toList = .ok s := by
    refine parse_of_statements hread (o := s.mapHeads Selector.joined) ?_ (by decide +kernel)
    simp only [Outline.ofStatements]
    rfl
  exact ⟨hparse, by decide +kernel, by decide +kernel⟩

end Stylesheet

end StylePrune
