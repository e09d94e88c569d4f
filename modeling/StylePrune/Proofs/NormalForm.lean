import Mathlib.Data.List.Chain
import StylePrune.Proofs.Decoding
import StylePrune.Proofs.Openings

/-!
# The normal form of a selector

Every part of a selector shows in its text what it is. A combinator is spacing, or a symbol with
spacing around it; any other part is made of its value and of the signs of its kind, with brackets
that close one another where it has an argument. Spacing is a combinator of its own only between two
parts that are none, since a combinator takes all the spacing around its symbol and what leads or
trails a selector belongs to no part. A name is as long as it can be.

* **`balanced_of_closeGroup`** — what is cut off as a group is balanced.
* **`Part.Simple`**, **`Part.Combines`** — the shapes of parts.
* **`Selector.normal_of_parse`** — the parts of a selector that is read.
-/

namespace StylePrune

/-! ## Groups -/

/-- A text in which all brackets close one another. Brackets inside escapes, strings and comments do
not count. -/
inductive Balanced : Text → Prop where
  | nil : Balanced []
  | bare {c : Char} {s : Text} (hbracket : c ∉ ['(', ')', '[', ']'])
      (hshield : c ∉ ['\\', '\x22', '\x27']) (hcomment : c = '/' → s.head? ≠ some '*')
      (hs : Balanced s) : Balanced (c :: s)
  | escape (c : Char) {s : Text} (hs : Balanced s) : Balanced ('\\' :: c :: s)
  | string {q : Char} {body s : Text} (hq : q = '\x22' ∨ q = '\x27')
      (hbody : closeString true q body = some (body, [])) (hs : Balanced s) :
      Balanced (q :: body ++ s)
  | comment {body s : Text} (hbody : closeComment body = some (body, [])) (hs : Balanced s) :
      Balanced ('/' :: '*' :: body ++ s)
  | group {opening closing : Char} {inner s : Text} (hopening : closerOf? opening = some closing)
      (hinner : Balanced inner) (hs : Balanced s) :
      Balanced (opening :: inner ++ closing :: s)

/-- A text that closes the groups that are open, from the innermost on, and ends with the outermost
one. -/
def ClosesGroups (awaited : Char) : List Char → Text → Prop
  | [], group => ∃ inner, group = inner ++ [awaited] ∧ Balanced inner
  | next :: outer, group =>
    ∃ inner rest, group = inner ++ awaited :: rest ∧ Balanced inner ∧ ClosesGroups next outer rest

section

variable {awaited : Char} {outer : List Char} {t u : Text}

/-- What may stand in front of any balanced beginning of a text may stand in front of the text. -/
theorem ClosesGroups.prepend (h : ClosesGroups awaited outer u)
    (ht : ∀ inner, inner <+: u → Balanced inner → Balanced (t ++ inner)) :
    ClosesGroups awaited outer (t ++ u) := by
  cases outer with
  | nil =>
    obtain ⟨inner, rfl, hinner⟩ := h
    exact ⟨t ++ inner, (List.append_assoc _ _ _).symm,
      ht inner (List.prefix_append _ _) hinner⟩
  | cons next outer =>
    obtain ⟨inner, rest, rfl, hinner, hrest⟩ := h
    exact ⟨t ++ inner, rest, (List.append_assoc _ _ _).symm,
      ht inner (List.prefix_append _ _) hinner, hrest⟩

/-- An item that is no bracket may stand in front of a balanced text. -/
theorem Item.Taken.balanced {item : Item} {rest inner : Text} (h : Item.Taken item rest)
    (hbracket : ∀ c, item = .bare c → c ∉ ['(', ')', '[', ']']) (hinner : inner <+: rest)
    (hbalanced : Balanced inner) : Balanced (item.text ++ inner) := by
  cases h with
  | @bare c rest hback hquote hslash =>
    have hcomment : c = '/' → inner.head? ≠ some '*' := by
      intro hc hstar
      obtain ⟨v, rfl⟩ := hinner
      exact hslash hc (List.mem_head?_append_of_mem_head? hstar)
    have hshield : c ∉ ['\\', '\x22', '\x27'] := by simpa [hback] using hquote
    exact .bare (hbracket c rfl) hshield hcomment hbalanced
  | escape c => exact .escape c hbalanced
  | comment hbody => exact .comment hbody hbalanced
  | string hq hbody => exact .string hq hbody hbalanced

/-- An item in front of what closes a group is not the single backslash that ends a text. -/
theorem Item.taken_of_closeGroup {item : Item} {s r rest : Text}
    (h : Item.next s = .ok (some (item, r))) (hu : closeGroup awaited outer r = .ok (u, rest)) :
    Item.Taken item r := by
  apply Item.taken_of_next h
  rintro rfl
  cases h
  exact absurd (closeGroup_append hu) (by simp [closeGroup_ne_nil hu])

theorem ClosesGroups.item {item : Item} {s r rest : Text} (h : Item.next s = .ok (some (item, r)))
    (hu : closeGroup awaited outer r = .ok (u, rest))
    (hbracket : ∀ c, item = .bare c → c ∉ ['(', ')', '[', ']'])
    (hcloses : ClosesGroups awaited outer u) : ClosesGroups awaited outer (item.text ++ u) := by
  have htaken := Item.taken_of_closeGroup h hu
  refine hcloses.prepend fun inner hinner => htaken.balanced hbracket ?_
  rw [closeGroup_append hu]
  exact hinner.trans (List.prefix_append u rest)

/-- What is cut off as a group closes the groups that are open, with balanced texts between. -/
theorem closesGroups_of_closeGroup {s group rest : Text}
    (h : closeGroup awaited outer s = .ok (group, rest)) : ClosesGroups awaited outer group := by
  fun_induction closeGroup awaited outer s generalizing group with
  | case1 | case2 | case7 => simp at h
  | case3 awaited outer s t r hs ih =>
    obtain ⟨u, hu, rfl⟩ := Text.prepend_eq_ok_iff.1 h
    exact .item hs hu (fun c hc => by cases hc) (ih hu)
  | case4 awaited outer s c r hs closer hc ih =>
    -- the group inside is closed first, and is one piece of the text that the outer one holds
    obtain ⟨u, hu, rfl⟩ := Text.prepend_eq_ok_iff.1 h
    obtain ⟨inner, rest', rfl, hinner, hrest⟩ := ih hu
    have hgroup : ClosesGroups awaited outer (c :: inner ++ [closer] ++ rest') := by
      refine hrest.prepend fun behind _ hbehind => ?_
      rw [List.append_assoc]
      exact .group hc hinner hbehind
    rwa [List.append_assoc] at hgroup
  | case5 awaited s c r hs hc hb ha =>
    cases h
    rw [beq_iff_eq] at ha
    exact ⟨[], by rw [ha]; rfl, .nil⟩
  | case6 awaited s c r hs hc hb ha next outer ih =>
    obtain ⟨u, hu, rfl⟩ := Text.prepend_eq_ok_iff.1 h
    rw [beq_iff_eq] at ha
    exact ⟨[], u, by rw [ha]; rfl, .nil, ih hu⟩
  | case8 awaited outer s c r hs hc hb ih =>
    obtain ⟨u, hu, rfl⟩ := Text.prepend_eq_ok_iff.1 h
    refine .item hs hu (fun d hd => ?_) (ih hu)
    cases hd
    have hopening : c ≠ '(' ∧ c ≠ '[' := by
      refine ⟨?_, ?_⟩ <;> rintro rfl <;> cases hc
    simp_all

/-- A group that was opened by one bracket ends with the bracket that closes it. -/
theorem balanced_of_closeGroup {s group rest : Text}
    (h : closeGroup awaited [] s = .ok (group, rest)) :
    ∃ inner, group = inner ++ [awaited] ∧ Balanced inner :=
  closesGroups_of_closeGroup h

end

/-! ## The shapes of parts -/

/-- One atom or more, each as long as it can be. -/
def IsIdentifier (name : Text) : Prop := name ≠ [] ∧ ∃ as, Identifier.Spells name as

/-- Nothing, or a bar behind an identifier, behind an asterisk or behind nothing. -/
def IsNamespace (space : Text) : Prop :=
  space = [] ∨ ∃ name, space = name ++ ['|'] ∧ (name = [] ∨ name = ['*'] ∨ IsIdentifier name)

/-- The symbol of a combinator. -/
def IsSymbol (symbol : Text) : Prop :=
  symbol ∈ [['>'], ['+'], ['~'], ['>', '>', '>']] ∨
    ∃ word, symbol = '/' :: word ++ ['/'] ∧ word ≠ [] ∧ ∀ c ∈ word, isSlashedChar c = true

/-- Nothing, or a balanced text in parentheses. -/
def IsArgument (group : Text) : Prop :=
  group = [] ∨ ∃ inner, group = '(' :: inner ++ [')'] ∧ Balanced inner

namespace Part

/-- A combinator: spacing that is its own combinator, or a symbol with spacing around it. -/
inductive Combines : Part → Prop where
  | descendant {raw : Text} (hne : raw ≠ []) (hraw : Spacing raw) :
      Combines ⟨.combinator, [' '], raw⟩
  | symbol {before symbol after : Text} (hbefore : Spacing before) (hsymbol : IsSymbol symbol)
      (hafter : Spacing after) : Combines ⟨.combinator, symbol, before ++ symbol ++ after⟩

/-- A part that is no combinator: its text is made of its value and of what its kind adds. -/
inductive Simple : Part → Prop where
  | className {name : Text} (hname : IsIdentifier name) : Simple ⟨.className, name, '.' :: name⟩
  | idName {name : Text} (hname : IsIdentifier name) : Simple ⟨.idName, name, '#' :: name⟩
  | attribute {name inner : Text} (hname : IsIdentifier name) (hinner : Balanced inner) :
      Simple ⟨.attribute, name, '[' :: inner ++ [']']⟩
  | pseudoClass {name argument : Text} (hname : IsIdentifier name)
      (hargument : IsArgument argument) :
      Simple ⟨.pseudoClass, name, [':'] ++ name ++ argument⟩
  | pseudoElement {name argument : Text} (hname : IsIdentifier name)
      (hargument : IsArgument argument) :
      Simple ⟨.pseudoElement, name, [':', ':'] ++ name ++ argument⟩
  | tag {space name : Text} (hspace : IsNamespace space) (hname : IsIdentifier name) :
      Simple ⟨.tag, name, space ++ name⟩
  | universal {space : Text} (hspace : IsNamespace space) :
      Simple ⟨.universal, ['*'], space ++ ['*']⟩
  | nesting : Simple ⟨.universal, ['&'], ['&']⟩

theorem Simple.kind_ne {p : Part} (h : p.Simple) : p.kind ≠ .combinator := by
  intro hkind
  cases h <;> cases hkind

end Part

section

variable {s name rest : Text}

theorem isIdentifier_of_readName? (h : readName? s = some (name, rest)) : IsIdentifier name :=
  ⟨readName?_ne_nil h, Identifier.spells_of_isName ⟨s, rest, h⟩⟩

theorem isIdentifier_of_readTypeName? (h : readTypeName? s = some (name, rest))
    (hname : name ≠ ['*']) : IsIdentifier name := by
  obtain ⟨s', rest', h'⟩ := (isName_of_readTypeName? h).resolve_left hname
  exact isIdentifier_of_readName? h'

theorem isNamespace_of_readNamespace? {space : Text} (h : readNamespace? s = some (space, rest)) :
    IsNamespace space := by
  obtain ⟨n, r, hread⟩ : ∃ n r, readNamespaceName s = (n, r) := ⟨_, _, rfl⟩
  obtain ⟨rfl, -, -⟩ := (Selector.readNamespace?_eq_some_iff hread).1 h
  refine .inr ⟨n, rfl, ?_⟩
  unfold readNamespaceName at hread
  split at hread
  · cases hread
    exact .inr (.inl rfl)
  · by_cases hn : n = []
    · exact .inl hn
    · have hspells := Identifier.spells_atoms s
      rw [hread] at hspells
      exact .inr (.inr ⟨hn, _, hspells⟩)

theorem isSymbol_takeSymbol (s : Text) : (takeSymbol s).1 = [] ∨ IsSymbol (takeSymbol s).1 := by
  unfold takeSymbol
  split
  · exact .inr (.inl (by simp))
  · rename_i rest
    split
    · rename_i c word behind hword hbehind
      refine .inr (.inr ⟨c :: word, rfl, by simp, ?_⟩)
      rw [← hword]
      exact fun d hd => List.mem_takeWhile_imp hd
    · exact .inl rfl
  · split
    · rename_i c rest _ _ hc
      refine .inr (.inl ?_)
      simpa [or_assoc] using hc
    · exact .inl rfl
  · exact .inl rfl

end

/-! ## Parts as they are read -/

namespace Part

variable {s rest : Text} {p : Part}

theorem simple_of_readAttribute (h : readAttribute s = .ok (p, rest)) : p.Simple := by
  have hname := isName_of_readAttribute h
  obtain ⟨group, name, hgroup, -, rfl⟩ := exists_of_readAttribute h
  obtain ⟨inner, rfl, hinner⟩ := balanced_of_closeGroup hgroup
  exact .attribute ⟨hname.ne_nil, Identifier.spells_of_isName hname⟩ hinner

/-- A pseudo-class or pseudo-element is its colons, its name, and its argument if it has one. -/
theorem of_readPseudo {kind : PartKind} {colons : Text}
    (h : readPseudo kind colons s = .ok (p, rest)) :
    ∃ name argument, p = ⟨kind, name, colons ++ name ++ argument⟩ ∧ IsIdentifier name ∧
      IsArgument argument := by
  obtain ⟨name, argument, hname, hp, hargument⟩ := exists_of_readPseudo h
  refine ⟨name, argument, hp, isIdentifier_of_readName? hname, ?_⟩
  rcases hargument with rfl | ⟨t, group, hgroup, rfl⟩
  · exact .inl rfl
  · obtain ⟨inner, rfl, hinner⟩ := balanced_of_closeGroup hgroup
    exact .inr ⟨inner, rfl, hinner⟩

theorem simple_of_readType {c : Char} (h : readType c s = .ok (p, rest)) : p.Simple := by
  obtain ⟨space, name, hqualified, rfl⟩ := exists_of_readType h
  have hread : IsNamespace space ∧ ∃ t, readTypeName? t = some (name, rest) := by
    rcases readQualified?_eq_some hqualified with ⟨t, hspace, hname⟩ | ⟨rfl, hname⟩
    · exact ⟨isNamespace_of_readNamespace? hspace, t, hname⟩
    · exact ⟨.inl rfl, _, hname⟩
  obtain ⟨hspace, t, hname⟩ := hread
  by_cases hstar : name = ['*']
  · rw [if_pos hstar, hstar]
    exact .universal hspace
  · rw [if_neg hstar]
    exact .tag hspace (isIdentifier_of_readTypeName? hname hstar)

theorem simple_of_read {c : Char} (h : read c s = .ok (p, rest)) : p.Simple := by
  unfold read at h
  split at h
  · rename_i hc
    obtain ⟨name, hname, rfl⟩ := exists_of_readMarked h
    rw [hc]
    exact .className (isIdentifier_of_readName? hname)
  · split at h
    · rename_i hc
      obtain ⟨name, hname, rfl⟩ := exists_of_readMarked h
      rw [hc]
      exact .idName (isIdentifier_of_readName? hname)
    · split at h
      · exact simple_of_readAttribute h
      · split at h
        · split at h
          · obtain ⟨name, argument, rfl, hname, hargument⟩ := of_readPseudo h
            exact .pseudoElement hname hargument
          · obtain ⟨name, argument, rfl, hname, hargument⟩ := of_readPseudo h
            exact .pseudoClass hname hargument
        · split at h
          · cases h
            exact .nesting
          · exact simple_of_readType h

end Part

/-! ## Combinators as they are read -/

theorem takeSymbol_eq_self {s : Text} (h : (takeSymbol s).1 = []) : (takeSymbol s).2 = s := by
  have happ := takeSymbol_append s
  rwa [h, List.nil_append] at happ

namespace Combinator

variable {s : Text}

/-- No symbol is a space, so a space stands for the combinator without a symbol. -/
theorem value_eq_space_iff : (read s).1.value = [' '] ↔ (read s).1.symbol = [] := by
  unfold value
  simp only [List.isEmpty_iff]
  split
  · rename_i hnone
    exact iff_of_true rfl hnone
  · rename_i hsome
    refine iff_of_false (fun heq => ?_) hsome
    rcases isSymbol_takeSymbol (takeSpacing s).2 with hnone | hsymbol
    · exact hsome hnone
    · have hspace : (takeSymbol (takeSpacing s).2).1 = [' '] := heq
      rw [hspace] at hsymbol
      rcases hsymbol with hmem | ⟨word, hword, -⟩
      · revert hmem
        decide
      · cases hword

theorem combines_read (hne : (read s).1.raw ≠ []) :
    Part.Combines ⟨.combinator, (read s).1.value, (read s).1.raw⟩ := by
  by_cases hnone : (read s).1.symbol = []
  · rw [value_eq_space_iff.2 hnone]
    exact .descendant hne (spacing_read hnone)
  · have hvalue : (read s).1.value = (read s).1.symbol := by
      rw [value, if_neg (by rwa [List.isEmpty_iff])]
    rw [hvalue]
    exact .symbol (spacing_takeSpacing _) ((isSymbol_takeSymbol _).resolve_left hnone)
      (spacing_takeSpacing _)

/-- Behind a combinator there is no spacing. -/
theorem takeSpacing_read (s : Text) : (takeSpacing (read s).2).1 = [] := by
  show (takeSpacing (takeSpacing (takeSymbol (takeSpacing s).2).2).2).1 = []
  rw [Selector.takeSpacing_behind]

/-- Without spacing and without a symbol there is no combinator. -/
theorem raw_eq_nil (hspacing : (takeSpacing s).1 = []) (hsymbol : (read s).1.symbol = []) :
    (read s).1.raw = [] := by
  have hself : (takeSpacing s).2 = s := Selector.takeSpacing_eq_self hspacing
  have hnone : (takeSymbol s).1 = [] := by
    rw [← hself]
    exact hsymbol
  show (takeSpacing s).1 ++ (takeSymbol (takeSpacing s).2).1 ++
    (takeSpacing (takeSymbol (takeSpacing s).2).2).1 = []
  rw [hself, takeSymbol_eq_self hnone, hspacing, hnone]
  rfl

/-- Behind spacing that is a combinator of its own there is no combinator. -/
theorem raw_behind_eq_nil (h : (read s).1.symbol = []) : (read (read s).2).1.raw = [] := by
  have hbehind : (read s).2 = (takeSpacing s).2 := by
    show (takeSpacing (takeSymbol (takeSpacing s).2).2).2 = _
    rw [takeSymbol_eq_self h, Selector.takeSpacing_behind]
  apply raw_eq_nil (takeSpacing_read s)
  show (takeSymbol (takeSpacing (read s).2).2).1 = []
  rw [hbehind, Selector.takeSpacing_behind]
  exact h

end Combinator

/-! ## Sequences of parts -/

/-- A combinator that has no symbol. -/
def Part.IsDescendant (p : Part) : Prop := p.kind = .combinator ∧ p.value = [' ']

namespace Selector

variable {text s after : Text} {parts : List Part}

/-- Where there is no combinator, another part is read. -/
theorem exists_of_parseParts (h : parseParts text s = .ok (parts, after)) (hs : s ≠ [])
    (hnone : (Combinator.read s).1.raw = []) :
    ∃ p ps, parts = p :: ps ∧ p.kind ≠ .combinator := by
  obtain ⟨c, rest, rfl⟩ := List.exists_cons_of_ne_nil hs
  rw [parseParts_part hnone] at h
  split at h
  · cases h
  · rename_i part rest' hpart
    obtain ⟨ps, -, rfl⟩ := consPart_eq_ok_iff.1 h
    exact ⟨part, ps, rfl, (Part.simple_of_read hpart).kind_ne⟩

/-- A combinator without a symbol comes first only where spacing does, with no symbol behind it. -/
theorem spacing_of_descendant {p : Part} {ps : List Part}
    (h : parseParts text s = .ok (p :: ps, after)) (hp : p.IsDescendant) :
    (takeSpacing s).1 ≠ [] ∧ (Combinator.read s).1.symbol = [] := by
  have hne : s ≠ [] := by
    rintro rfl
    rw [parseParts_nil] at h
    cases h
  have hraw : (Combinator.read s).1.raw ≠ [] := by
    intro hnone
    obtain ⟨q, qs, heq, hq⟩ := exists_of_parseParts h hne hnone
    cases heq
    exact hq hp.1
  rw [parseParts_combinator hraw] at h
  split at h
  · cases h
  · obtain ⟨_, -, heq⟩ := consPart_eq_ok_iff.1 h
    cases heq
    have hsymbol := Combinator.value_eq_space_iff.1 hp.2
    exact ⟨fun hspacing => hraw (Combinator.raw_eq_nil hspacing hsymbol), hsymbol⟩

/-- Behind spacing that is a combinator of its own another part is read. -/
theorem exists_behind_space {combinator : Combinator} {behind : Text}
    (hread : Combinator.read s = (combinator, behind)) (hvalue : combinator.value = [' '])
    (hend : ¬ (combinator.symbol.isEmpty && behind.isEmpty) = true)
    (h : parseParts text behind = .ok (parts, after)) :
    ∃ p ps, parts = p :: ps ∧ p.kind ≠ .combinator := by
  have hsymbol : (Combinator.read s).1.symbol = [] := by
    rw [← Combinator.value_eq_space_iff, hread]
    exact hvalue
  have hnone := Combinator.raw_behind_eq_nil hsymbol
  rw [hread] at hsymbol hnone
  have hempty : combinator.symbol.isEmpty = true := List.isEmpty_iff.2 hsymbol
  apply exists_of_parseParts h ?_ hnone
  rintro rfl
  simp [hempty] at hend

/-- Two parts of which neither is a combinator without a symbol next to another combinator. -/
def Separate (p q : Part) : Prop :=
  p.kind = .combinator → q.kind = .combinator → p.value ≠ [' '] ∧ q.value ≠ [' ']

/-- Combinators without a symbol stand next to no combinator: behind spacing alone another part is
read, and no combinator leaves spacing behind it. -/
theorem isChain_of_parseParts (h : parseParts text s = .ok (parts, after)) :
    parts.IsChain Separate := by
  fun_induction parseParts text s generalizing parts after with
  | case1 | case4 =>
    cases h
    exact .nil
  | case2 => cases h
  | case3 c rest combinator behind hread hr part rest' hpart ih =>
    obtain ⟨ps, hps, rfl⟩ := consPart_eq_ok_iff.1 h
    refine List.isChain_cons.2 ⟨fun q _ hcombinator => ?_, ih hps⟩
    exact absurd hcombinator (Part.simple_of_read hpart).kind_ne
  | case5 c rest combinator behind hread hr hend ih =>
    obtain ⟨ps, hps, rfl⟩ := consPart_eq_ok_iff.1 h
    refine List.isChain_cons.2 ⟨fun q hq _ hcombinator => ⟨?_, ?_⟩, ih hps⟩
    · intro hvalue
      obtain ⟨p, ps', rfl, hp⟩ := exists_behind_space hread hvalue hend hps
      cases hq
      exact hp hcombinator
    · intro hvalue
      obtain ⟨ps', rfl⟩ := List.head?_eq_some_iff.1 hq
      have hspacing := (spacing_of_descendant hps ⟨hcombinator, hvalue⟩).1
      have hnone := Combinator.takeSpacing_read (c :: rest)
      rw [hread] at hnone
      exact hspacing hnone

/-- A combinator without a symbol does not come last. -/
theorem last_of_parseParts (h : parseParts text s = .ok (parts, after)) :
    ∀ p ∈ parts.getLast?, ¬ p.IsDescendant := by
  fun_induction parseParts text s generalizing parts after with
  | case1 | case4 =>
    cases h
    simp
  | case2 => cases h
  | case3 c rest combinator behind hread hr part rest' hpart ih =>
    obtain ⟨ps, hps, rfl⟩ := consPart_eq_ok_iff.1 h
    intro p hp hdescendant
    cases ps with
    | nil =>
      cases hp
      exact (Part.simple_of_read hpart).kind_ne hdescendant.1
    | cons q ps => exact ih hps p (by simpa using hp) hdescendant
  | case5 c rest combinator behind hread hr hend ih =>
    obtain ⟨ps, hps, rfl⟩ := consPart_eq_ok_iff.1 h
    intro p hp hdescendant
    cases ps with
    | nil =>
      cases hp
      obtain ⟨q, qs, heq, -⟩ := exists_behind_space hread hdescendant.2 hend hps
      cases heq
    | cons q ps => exact ih hps p (by simpa using hp) hdescendant

/-- Every part has text, and the text is made of what its kind asks for. -/
theorem shaped_of_parseParts (h : parseParts text s = .ok (parts, after)) :
    ∀ p ∈ parts, p.raw ≠ [] ∧ (p.Simple ∨ p.Combines) := by
  fun_induction parseParts text s generalizing parts after with
  | case1 | case4 =>
    cases h
    simp
  | case2 => cases h
  | case3 c rest combinator behind hread hr part rest' hpart ih =>
    obtain ⟨ps, hps, rfl⟩ := consPart_eq_ok_iff.1 h
    refine List.forall_mem_cons.2 ⟨⟨Part.read_raw_ne_nil hpart, ?_⟩, ih hps⟩
    exact .inl (Part.simple_of_read hpart)
  | case5 c rest combinator behind hread hr hend ih =>
    obtain ⟨ps, hps, rfl⟩ := consPart_eq_ok_iff.1 h
    have hcombines := Combinator.combines_read (s := c :: rest)
    rw [hread] at hcombines
    exact List.forall_mem_cons.2 ⟨⟨hr, .inr (hcombines hr)⟩, ih hps⟩

end Selector

/-! ## Names that are as long as they can be -/

namespace Identifier

variable {s : Text}

/-- No atom is read exactly where no atom stands. -/
theorem Atom.read?_eq_none_iff :
    Atom.read? s = none ↔ ∀ a : Atom, a.Formed → ¬ a.text <+: s := by
  constructor
  · rintro hnone a ha ⟨rest, rfl⟩
    cases ha with
    | @plain c hname => cases (Selector.atom_plain hname rest).symm.trans hnone
    | @code d digits terminator hdigits hblank =>
      have hd := hdigits d List.mem_cons_self
      simp [text, read?, hd] at hnone
    | @escaped c hhex hline => simp [text, read?, hhex, hline] at hnone
  · intro h
    cases hread : Atom.read? s with
    | none => rfl
    | some found =>
      obtain ⟨a, rest⟩ := found
      exact absurd ⟨rest, (Atom.read?_append hread).symm⟩ (h a (Atom.formed_of_read? hread))

/-- Behind the atoms that are read there is none. -/
theorem read?_atoms (s : Text) : Atom.read? (atoms s).2 = none := by
  fun_induction atoms s with
  | case1 s hnone => exact hnone
  | case2 s a rest hread as rest' heq ih =>
    rw [heq] at ih
    exact ih

end Identifier

section

open Identifier

variable {s name rest : Text}

theorem stops_of_readName? (h : readName? s = some (name, rest)) : Atom.read? rest = none := by
  have hbehind := read?_atoms s
  unfold readName? at h
  split at h
  · cases h
  · rename_i hread
    cases h
    unfold Identifier.read at hread
    cases hread
    exact hbehind

namespace Part

variable {c : Char} {p : Part}

theorem stops_of_readMarked {kind : PartKind} {mark : Char}
    (h : readMarked kind mark s = .ok (p, rest)) : Atom.read? rest = none := by
  obtain ⟨name, hname, -⟩ := exists_of_readMarked h
  exact stops_of_readName? hname

theorem stops_of_readType (h : readType c s = .ok (p, rest)) (hp : p.kind ≠ .universal) :
    Atom.read? rest = none := by
  obtain ⟨space, name, hqualified, rfl⟩ := exists_of_readType h
  have hstar : name ≠ ['*'] := by
    rintro rfl
    exact hp rfl
  have hstops : ∀ t, readTypeName? t = some (name, rest) → Atom.read? rest = none := by
    intro t hname
    unfold readTypeName? at hname
    split at hname
    · cases hname
      exact absurd rfl hstar
    · exact stops_of_readName? hname
  rcases readQualified?_eq_some hqualified with ⟨t, -, hname⟩ | ⟨-, hname⟩
  · exact hstops t hname
  · exact hstops _ hname

/-- Behind a class, an id or a tag no atom is left. -/
theorem stops_of_read (h : read c s = .ok (p, rest))
    (hp : p.kind ∈ [.className, .idName, .tag]) : Atom.read? rest = none := by
  unfold read at h
  split at h
  · exact stops_of_readMarked h
  · split at h
    · exact stops_of_readMarked h
    · split at h
      · obtain ⟨group, name, -, -, rfl⟩ := exists_of_readAttribute h
        simp at hp
      · split at h
        · split at h
          · rw [kind_of_readPseudo h] at hp
            simp at hp
          · rw [kind_of_readPseudo h] at hp
            simp at hp
        · split at h
          · cases h
            simp at hp
          · refine stops_of_readType h fun hkind => ?_
            rw [hkind] at hp
            simp at hp

end Part

end

namespace Selector

variable {text s after : Text} {parts : List Part}

/-- Behind a class, an id or a tag, what is left of the text begins with no atom. -/
theorem stops_of_parseParts (h : parseParts text s = .ok (parts, after)) {before behind : List Part}
    {p : Part} (hparts : parts = before ++ p :: behind)
    (hp : p.kind ∈ [.className, .idName, .tag]) :
    Identifier.Atom.read? (behind.flatMap Part.raw ++ after) = none := by
  fun_induction parseParts text s generalizing parts after before with
  | case1 | case4 =>
    cases h
    simp at hparts
  | case2 => cases h
  | case3 c rest combinator _ hread hr part rest' hpart ih =>
    obtain ⟨ps, hps, rfl⟩ := consPart_eq_ok_iff.1 h
    cases before with
    | nil =>
      cases hparts
      rw [parseParts_raw hps]
      exact Part.stops_of_read hpart hp
    | cons q before =>
      cases hparts
      exact ih hps rfl
  | case5 c rest combinator _ hread hr hend ih =>
    obtain ⟨ps, hps, rfl⟩ := consPart_eq_ok_iff.1 h
    cases before with
    | nil =>
      cases hparts
      simp at hp
    | cons q before =>
      cases hparts
      exact ih hps rfl

/-- A selector does not begin with spacing: what leads it is taken, and no spacing is left behind
it, unless a symbol follows. -/
theorem first_of_takeLead (text : Text) :
    (takeSpacing (takeLead text).2).1 = [] ∨ (Combinator.read (takeLead text).2).1.symbol ≠ [] := by
  unfold takeLead
  split
  rename_i combinator behind hread
  split
  · left
    have hspacing := Combinator.takeSpacing_read text
    rwa [hread] at hspacing
  · rename_i hsymbol
    right
    rw [hread]
    simpa using hsymbol

/-! ## Selectors -/

/-- What is read as a selector is of this form. -/
structure Normal (s : Selector) : Prop where
  /-- Every part has text, and the text is made of what its kind asks for. -/
  shaped : ∀ p ∈ s.parts, p.raw ≠ [] ∧ (p.Simple ∨ p.Combines)
  /-- Spacing alone is a combinator only between two parts that are none. -/
  first : ∀ p ∈ s.parts.head?, ¬ p.IsDescendant
  last : ∀ p ∈ s.parts.getLast?, ¬ p.IsDescendant
  separate : s.parts.IsChain Separate
  /-- No atom stands behind a class, an id or a tag: its name is as long as it can be. -/
  maximal : ∀ before p behind, s.parts = before ++ p :: behind →
    p.kind ∈ [.className, .idName, .tag] →
      ∀ a : Identifier.Atom, a.Formed → ¬ a.text <+: behind.flatMap Part.raw ++ s.after

/-- A selector is its text, cut into parts in normal form. -/
theorem normal_of_parse {selector : Selector} (h : parse text = .ok selector) :
    selector.raw = text ∧ selector.Normal := by
  obtain ⟨-, hread⟩ := parseParts_of_parse h
  have hparts := hread text
  refine ⟨parse_raw h, shaped_of_parseParts hparts, ?_, last_of_parseParts hparts,
    isChain_of_parseParts hparts, fun before p behind hsplit hp => ?_⟩
  · intro p hp hdescendant
    obtain ⟨ps, hps⟩ := List.head?_eq_some_iff.1 hp
    rw [hps] at hparts
    obtain ⟨hspacing, hsymbol⟩ := spacing_of_descendant hparts hdescendant
    rcases first_of_takeLead text with hnone | hsome
    · exact hspacing hnone
    · exact hsome hsymbol
  · exact Identifier.Atom.read?_eq_none_iff.1 (stops_of_parseParts hparts hsplit hp)

/-- A selector with spacing, a symbol and a pseudo-class among its parts. -/
theorem normal_of_parse_spaced :
    let text : Text := " ul /**/ > li .a:not(.b) ".toList
    let parts : List Part :=
      [⟨.tag, "ul".toList, "ul".toList⟩, ⟨.combinator, ['>'], " /**/ > ".toList⟩,
        ⟨.tag, "li".toList, "li".toList⟩, ⟨.combinator, [' '], [' ']⟩,
        ⟨.className, ['a'], ".a".toList⟩, ⟨.pseudoClass, "not".toList, ":not(.b)".toList⟩]
    parse text = .ok ⟨parts, [' '], [' ']⟩ ∧ parts.IsChain Separate ∧
      Identifier.Atom.read? ":not(.b) ".toList = none := by
  intro text parts
  have hparse : parse text = .ok ⟨parts, [' '], [' ']⟩ := by decide +kernel
  obtain ⟨-, hnormal⟩ := normal_of_parse hparse
  refine ⟨hparse, hnormal.separate, Identifier.Atom.read?_eq_none_iff.2 ?_⟩
  exact hnormal.maximal (parts.take 4) (parts.get ⟨4, by decide⟩) (parts.drop 5) rfl (by decide)

end Selector

end StylePrune
