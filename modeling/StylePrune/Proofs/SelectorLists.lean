import StylePrune.Proofs.Pieces

/-!
# Lists of selectors

A list of selectors is cut at its commas by one reader, and its pieces are read by another one that
knows of names, namespaces and combinators. The two agree on every list that is read: no piece ends
in half an escape, so each is one piece wherever it stands.

* **`parseList_sublist`** — a list of selectors is written as it was read, and whichever of its
  selectors are left out, the others are read as they were.
-/

namespace StylePrune.Selector

/-- The selectors of a list, joined by commas, are its text. Around the parts of each stands spacing
alone, each is one piece, and any of them, joined by commas, are read as those selectors. -/
theorem parseList_sublist {text : Text} {selectors : List Selector}
    (h : parseList text = .ok selectors) :
    joined selectors = text ∧
      (∀ s ∈ selectors,
        Spacing s.before ∧ Spacing s.after ∧ splitCommas s.raw = .ok (s.raw, [])) ∧
      ∀ chosen, chosen.Sublist selectors → chosen ≠ [] →
        parseList (joined chosen) = .ok chosen := by
  obtain ⟨-, -, -, -, hall⟩ := pieces_of_parseList h
  refine ⟨parseList_joined h, fun s hs => ?_, fun chosen hsub hne => ?_⟩
  · obtain ⟨hparse, halone⟩ := hall s hs
    obtain ⟨hbefore, hafter⟩ := spacing_parse hparse
    exact ⟨hbefore, hafter, halone.splitCommas_self⟩
  · exact parseList_of_alone hne fun s hs => hall s (hsub.subset hs)

/-- Commas in an escape, a string, a group and a comment: three selectors, and the second left
out. -/
theorem parseList_sublist_shielded :
    let first : Selector := ⟨[⟨.className, "a\\,".toList, ".a\\,".toList⟩], [], "/*,*/".toList⟩
    let second : Selector := ⟨[⟨.attribute, ['b'], "[b=',']".toList⟩], [' '], []⟩
    let third : Selector := ⟨[⟨.pseudoClass, "is".toList, ":is(c,d)".toList⟩], [], []⟩
    parseList ".a\\,/*,*/, [b=','],:is(c,d)".toList = .ok [first, second, third] ∧
      parseList ".a\\,/*,*/,:is(c,d)".toList = .ok [first, third] := by
  intro first second third
  have hread : parseList ".a\\,/*,*/, [b=','],:is(c,d)".toList = .ok [first, second, third] := by
    decide +kernel
  obtain ⟨-, -, hsub⟩ := parseList_sublist hread
  exact ⟨hread, hsub [first, third] (by decide) (by simp)⟩

end StylePrune.Selector
