import StylePrune.Proofs.Pieces
import StylePrune.Proofs.Reread
import StylePrune.Proofs.Verdict

/-!
# Selectors without their beginnings

A selector that comes to the front of a rule may lose characters there: writing the rule trims the
spaces, and reading it skips blanks, comments and `-->`. What is left of a selector can still be
read, and whatever is left of its parts is still used.

* **`ReadsAs`**, **`Reads`** — a text is read as parts with a property, or as parts that a content
  allows.
* **`ReadsAs.opening`** — blanks, comments and `-->` at the start of a text may be lost.
* **`Reads.behind_space`** — so may any other space.
-/

namespace StylePrune

namespace Selector

/-! ## Spacing -/

theorem takeSpacing_blank {c : Char} (hc : Text.isBlank c = true) (s : Text) :
    takeSpacing (c :: s) = (c :: (takeSpacing s).1, (takeSpacing s).2) := by
  rw [takeSpacing.eq_3, if_pos hc]
  rintro r rfl
  cases hc

theorem takeSpacing_comment {rest body rest' : Text} (h : closeComment rest = some (body, rest')) :
    takeSpacing ('/' :: '*' :: rest) =
      ('/' :: '*' :: body ++ (takeSpacing rest').1, (takeSpacing rest').2) := by
  rw [takeSpacing]
  split <;> rename_i heq <;> rw [h] at heq <;> cases heq
  rfl

/-- A text that begins neither with a blank nor with a comment has no spacing. -/
theorem takeSpacing_first {c : Char} {s : Text} (hc : Text.isBlank c = false)
    (hcomment : ¬ ['/', '*'] <+: c :: s) : takeSpacing (c :: s) = ([], c :: s) := by
  rw [takeSpacing.eq_3, if_neg (by simp [hc])]
  rintro r rfl rfl
  exact hcomment ⟨r, rfl⟩

/-- Behind the spacing there is none. -/
theorem takeSpacing_behind (s : Text) :
    takeSpacing (takeSpacing s).2 = ([], (takeSpacing s).2) := by
  fun_induction takeSpacing s with
  | case1 => rw [takeSpacing]
  | case2 rest body rest' h spacing behind heq ih =>
    rw [heq] at ih
    exact ih
  | case3 rest h =>
    rw [takeSpacing]
    split
    · rename_i heq
      rw [h] at heq
      cases heq
    · rfl
  | case4 c rest _ _ spacing behind heq ih =>
    rw [heq] at ih
    exact ih
  | case5 c rest hcomment hc =>
    rw [takeSpacing.eq_3 _ _ hcomment, if_neg hc]

theorem takeSpacing_eq_self {s : Text} (h : (takeSpacing s).1 = []) : (takeSpacing s).2 = s := by
  have happ := takeSpacing_append s
  rwa [h, List.nil_append] at happ

/-- Spacing in front of a combinator is part of it. -/
theorem read_spacing (s : Text) :
    Combinator.read s =
      ({ (Combinator.read (takeSpacing s).2).1 with before := (takeSpacing s).1 },
        (Combinator.read (takeSpacing s).2).2) := by
  simp only [Combinator.read, takeSpacing_behind]

/-! ## Parts that are read -/

/-- A text is read as parts with a property, with spacing behind them. -/
def ReadsAs (P : List Part → Prop) (s : Text) : Prop :=
  ∃ parts after, (∀ text, parseParts text s = .ok (parts, after)) ∧ P parts

/-- A text is read as parts, whatever they are. -/
abbrev Legible (s : Text) : Prop := ReadsAs (fun _ => True) s

/-- A text is read as parts that a content allows, with spacing behind them. -/
def Reads (corpus : Corpus) (s : Text) : Prop :=
  ∃ parts after, (∀ text, parseParts text s = .ok (parts, after)) ∧
    parts.all corpus.allows = true

/-- The type selector with a name, in a namespace if it is given one with its bar. -/
def typePart (space name : Text) : Part :=
  ⟨if name = ['*'] then .universal else .tag, name, space ++ name⟩

/-- A property of parts that does not ask for those that a lost beginning is read as: combinators,
and the tag before the last character of `-->`. -/
structure IgnoresLead (P : List Part → Prop) : Prop where
  combinator : ∀ s ps,
    P (⟨.combinator, (Combinator.read s).1.value, (Combinator.read s).1.raw⟩ :: ps) ↔ P ps
  dashes : ∀ ps, P (typePart [] ['-', '-'] :: ps) → P ps

theorem ignoresLead_true : IgnoresLead fun _ => True := ⟨fun _ _ => Iff.rfl, fun _ => id⟩

variable {corpus : Corpus} {P Q : List Part → Prop}

/-- Combinators are not checked, and where a tag is allowed the parts behind it decide. -/
theorem ignoresLead_allows : IgnoresLead fun parts => parts.all corpus.allows = true := by
  refine ⟨fun s ps => by simp [Corpus.allows], fun ps h => ?_⟩
  rw [List.all_cons, Bool.and_eq_true] at h
  exact h.2

section

variable {s : Text}

theorem ReadsAs.mono (h : ReadsAs P s) (hmono : ∀ ps, P ps → Q ps) : ReadsAs Q s := by
  obtain ⟨parts, after, hparts, hP⟩ := h
  exact ⟨parts, after, hparts, hmono parts hP⟩

theorem ReadsAs.legible (h : ReadsAs P s) : Legible s := h.mono fun _ _ => trivial

/-- A text is read as the same parts whatever is asked of them. -/
theorem ReadsAs.both (hP : ReadsAs P s) (hQ : ReadsAs Q s) : ∃ ps, P ps ∧ Q ps := by
  obtain ⟨parts, after, hparts, hP⟩ := hP
  obtain ⟨parts', after', hparts', hQ⟩ := hQ
  have heq := (hparts []).symm.trans (hparts' [])
  cases heq
  exact ⟨parts, hP, hQ⟩

theorem readsAs_nil_iff : ReadsAs P [] ↔ P [] := by
  constructor
  · rintro ⟨parts, after, hparts, hP⟩
    have heq := (parseParts_nil []).symm.trans (hparts [])
    cases heq
    exact hP
  · exact fun hP => ⟨[], [], parseParts_nil, hP⟩

theorem parseParts_part {c : Char} {rest : Text}
    (h : (Combinator.read (c :: rest)).1.raw = []) (text : Text) :
    parseParts text (c :: rest) =
      match Part.read c rest with
      | .error fault => .error (faultError text (c :: rest) fault)
      | .ok (part, rest) => consPart part (parseParts text rest) := by
  rw [parseParts]
  split
  rename_i combinator behind heq
  rw [heq] at h
  rw [dif_pos h]
  split <;> rename_i hread <;> rw [hread]

theorem parseParts_combinator (h : (Combinator.read s).1.raw ≠ []) (text : Text) :
    parseParts text s =
      if (Combinator.read s).1.symbol.isEmpty && (Combinator.read s).2.isEmpty then
        .ok ([], (Combinator.read s).1.raw)
      else
        consPart ⟨.combinator, (Combinator.read s).1.value, (Combinator.read s).1.raw⟩
          (parseParts text (Combinator.read s).2) := by
  cases s with
  | nil => simp [Combinator.read, takeSpacing, takeSymbol, Combinator.raw] at h
  | cons c rest =>
    rw [parseParts]
    split
    rename_i combinator behind heq
    rw [heq] at h ⊢
    rw [dif_neg h]

/-- A text is read with a part in front when what stands behind the part is read. -/
theorem readsAs_cons_iff {part : Part} {rest : Text}
    (h : ∀ text, parseParts text s = consPart part (parseParts text rest)) :
    ReadsAs P s ↔ ReadsAs (fun ps => P (part :: ps)) rest := by
  constructor
  · rintro ⟨parts, after, hparts, hP⟩
    obtain ⟨ps, -, rfl⟩ := consPart_eq_ok_iff.1 ((h []).symm.trans (hparts []))
    refine ⟨ps, after, fun text => ?_, hP⟩
    obtain ⟨qs, hqs, heq⟩ := consPart_eq_ok_iff.1 ((h text).symm.trans (hparts text))
    cases heq
    exact hqs
  · rintro ⟨ps, after, hps, hP⟩
    refine ⟨part :: ps, after, fun text => ?_, hP⟩
    rw [h]
    exact consPart_eq_ok_iff.2 ⟨ps, hps text, rfl⟩

/-- Nothing is read where no part is. -/
theorem not_legible_of_fault {c : Char} {rest : Text} {fault : PartFault}
    (h : (Combinator.read (c :: rest)).1.raw = []) (hfault : Part.read c rest = .error fault) :
    ¬ Legible (c :: rest) := by
  rintro ⟨parts, after, hok, -⟩
  have hparts := hok []
  rw [parseParts_part h, hfault] at hparts
  cases hparts

/-- Only what stands behind a combinator decides. -/
theorem readsAs_combinator_iff (hP : IgnoresLead P) (h : (Combinator.read s).1.raw ≠ []) :
    ReadsAs P s ↔ ReadsAs P (Combinator.read s).2 := by
  have hparts := parseParts_combinator h
  by_cases hend : ((Combinator.read s).1.symbol.isEmpty && (Combinator.read s).2.isEmpty) = true
  · -- spacing alone ends the text: it is no part, and nothing is left behind it
    have hnil : (Combinator.read s).2 = [] := by
      rw [Bool.and_eq_true, List.isEmpty_iff, List.isEmpty_iff] at hend
      exact hend.2
    simp only [if_pos hend] at hparts
    rw [hnil, readsAs_nil_iff]
    refine ⟨?_, fun hP => ⟨[], _, hparts, hP⟩⟩
    rintro ⟨parts, after, hok, hP⟩
    cases (hparts []).symm.trans (hok [])
    exact hP
  · simp only [if_neg hend] at hparts
    rw [readsAs_cons_iff hparts]
    simp only [hP.combinator]

/-- Spacing at the start of a text does not matter: with a symbol behind it, it is part of the
combinator, and without one it is a combinator of its own. -/
theorem readsAs_spacing_iff (hP : IgnoresLead P) (s : Text) :
    ReadsAs P s ↔ ReadsAs P (takeSpacing s).2 := by
  by_cases hnone : (takeSpacing s).1 = []
  · rw [takeSpacing_eq_self hnone]
  · have hread := read_spacing s
    -- the spacing makes the combinator, whatever its symbol is
    have hraw : (Combinator.read s).1.raw ≠ [] := by
      rw [hread]
      simp [Combinator.raw, hnone]
    have hiff : ReadsAs P s ↔ ReadsAs P (Combinator.read s).2 := readsAs_combinator_iff hP hraw
    rw [hread] at hiff
    rw [hiff]
    by_cases hsymbol : (Combinator.read (takeSpacing s).2).1.raw = []
    · have happ := Combinator.read_append (takeSpacing s).2
      rw [hsymbol, List.nil_append] at happ
      rw [happ]
    · exact (readsAs_combinator_iff hP hsymbol).symm

theorem readsAs_blank (hP : IgnoresLead P) {c : Char} (hc : Text.isBlank c = true) (s : Text) :
    ReadsAs P (c :: s) ↔ ReadsAs P s := by
  rw [readsAs_spacing_iff hP, takeSpacing_blank hc, ← readsAs_spacing_iff hP]

theorem readsAs_comment (hP : IgnoresLead P) {rest body rest' : Text}
    (h : closeComment rest = some (body, rest')) :
    ReadsAs P ('/' :: '*' :: rest) ↔ ReadsAs P rest' := by
  rw [readsAs_spacing_iff hP, takeSpacing_comment h, ← readsAs_spacing_iff hP]

/-- A text that begins with a symbol is read as what stands behind it. -/
theorem readsAs_symbol (hP : IgnoresLead P) {behind symbol : Text}
    (hspacing : takeSpacing s = ([], s)) (h : takeSymbol s = (symbol, behind))
    (hne : symbol ≠ []) : ReadsAs P s ↔ ReadsAs P behind := by
  have hraw : (Combinator.read s).1.raw ≠ [] := by
    simp [Combinator.read, hspacing, h, Combinator.raw, hne]
  rw [readsAs_combinator_iff hP hraw]
  simp only [Combinator.read, hspacing, h]
  rw [← readsAs_spacing_iff hP]

theorem readsAs_greater (hP : IgnoresLead P) (s : Text) : ReadsAs P ('>' :: s) ↔ ReadsAs P s := by
  induction hlen : s.length using Nat.strong_induction_on generalizing s with
  | _ n ih =>
  have hspacing : takeSpacing ('>' :: s) = ([], '>' :: s) := takeSpacing_first rfl (by simp)
  by_cases htriple : ∃ r, s = '>' :: '>' :: r
  · obtain ⟨r, rfl⟩ := htriple
    simp only [List.length_cons] at hlen
    -- three of them are one symbol, and each of the two behind the first is one
    have htwo := ih (r.length + 1) (by omega) ('>' :: r) rfl
    have hone := ih r.length (by omega) r rfl
    have hsymbol : takeSymbol ('>' :: '>' :: '>' :: r) = (['>', '>', '>'], r) := rfl
    rw [readsAs_symbol hP hspacing hsymbol (by simp), htwo, hone]
  · have hsymbol : takeSymbol ('>' :: s) = (['>'], s) := by
      rw [takeSymbol.eq_3]
      · rfl
      · intro r _ heq
        exact htriple ⟨r, heq⟩
      · rintro ⟨⟩
    exact readsAs_symbol hP hspacing hsymbol (by simp)

end

/-! ## Names -/

/-- A character that begins a type selector, or nothing at all. -/
def isOrdinary (c : Char) : Bool :=
  !Text.isBlank c && !(['.', '#', '[', ':', '&', '*', '/', '>', '+', '~'].contains c)

theorem isOrdinary_nameChar {c : Char} (h : Identifier.isNameChar c = true) :
    isOrdinary c = true := by
  simp only [isOrdinary, Text.isBlank, Bool.and_eq_true, Bool.not_eq_true', Bool.or_eq_false_iff,
    beq_eq_false_iff_ne, List.contains_eq_mem, decide_eq_false_iff_not, List.mem_cons,
    List.not_mem_nil, or_false, not_or]
  refine ⟨⟨⟨⟨⟨?_, ?_⟩, ?_⟩, ?_⟩, ?_⟩, ?_, ?_, ?_, ?_, ?_, ?_, ?_, ?_, ?_, ?_⟩ <;> rintro rfl <;>
    revert h <;> decide

section

variable {c : Char} {s name rest : Text}

theorem atoms_some {a : Identifier.Atom} (h : Identifier.Atom.read? s = some (a, rest)) :
    Identifier.atoms s = (a :: (Identifier.atoms rest).1, (Identifier.atoms rest).2) := by
  rw [Identifier.atoms]
  split <;> rename_i heq <;> rw [h] at heq <;> cases heq
  rfl

theorem atom_plain (hc : Identifier.isNameChar c = true) (s : Text) :
    Identifier.Atom.read? (c :: s) = some (.plain c, s) := by
  have hback : c ≠ '\\' := by
    rintro rfl
    cases hc
  rw [Identifier.Atom.read?.eq_3 c s fun _ _ hslash => absurd hslash hback, if_pos hc]

theorem read_nameChar (hc : Identifier.isNameChar c = true) :
    Identifier.read (c :: s) = (c :: (Identifier.read s).1, (Identifier.read s).2) := by
  rw [Identifier.read, atoms_some (atom_plain hc s)]
  rfl

theorem read_stop (h : Identifier.Atom.read? s = none) : Identifier.read s = ([], s) := by
  have hatoms : Identifier.atoms s = ([], s) := by
    rw [Identifier.atoms]
    split
    · rfl
    · rename_i heq
      rw [h] at heq
      cases heq
  rw [Identifier.read, hatoms]
  rfl

theorem atom_none (hname : Identifier.isNameChar c = false) (hback : c ≠ '\\') :
    Identifier.Atom.read? (c :: s) = none := by
  rw [Identifier.Atom.read?.eq_3, if_neg (by simp [hname])]
  rintro d r rfl
  exact absurd rfl hback

theorem takeSpacing_ordinary (hc : isOrdinary c = true) : takeSpacing (c :: s) = ([], c :: s) := by
  have hblank : Text.isBlank c = false := by
    simp only [isOrdinary, Bool.and_eq_true, Bool.not_eq_true'] at hc
    exact hc.1
  refine takeSpacing_first hblank ?_
  rintro ⟨r, heq⟩
  cases heq
  cases hc

/-- An ordinary character begins no combinator. -/
theorem combinator_ordinary (hc : isOrdinary c = true) :
    Combinator.read (c :: s) = (⟨[], [], []⟩, c :: s) := by
  have hspacing := takeSpacing_ordinary (s := s) hc
  simp only [isOrdinary, Bool.and_eq_true, Bool.not_eq_true', List.contains_eq_mem,
    decide_eq_false_iff_not, List.mem_cons, List.not_mem_nil, or_false, not_or] at hc
  obtain ⟨-, -, -, -, -, -, -, hslash, hgreater, hplus, htilde⟩ := hc
  have hsymbol : takeSymbol (c :: s) = ([], c :: s) := by
    rw [takeSymbol.eq_3]
    · simp [hgreater, hplus, htilde]
    · intro r hc _
      exact hgreater hc
    · exact hslash
  simp only [Combinator.read, hspacing, hsymbol]

theorem partRead_ordinary (hc : isOrdinary c = true) : Part.read c s = Part.readType c s := by
  simp only [isOrdinary, Bool.and_eq_true, Bool.not_eq_true', List.contains_eq_mem,
    decide_eq_false_iff_not, List.mem_cons, List.not_mem_nil, or_false, not_or] at hc
  obtain ⟨-, hdot, hhash, hbracket, hcolon, hamp, -⟩ := hc
  simp [Part.read, hdot, hhash, hbracket, hcolon, hamp]

theorem combinator_raw_ordinary (hc : isOrdinary c = true) :
    (Combinator.read (c :: s)).1.raw = [] := by
  rw [combinator_ordinary hc]
  rfl

/-- A text with an ordinary character in front is read as a type selector and what follows it. -/
theorem parseParts_type {space : Text} (hc : isOrdinary c = true)
    (h : readQualified? readTypeName? (c :: s) = some (space, name, rest)) (text : Text) :
    parseParts text (c :: s) = consPart (typePart space name) (parseParts text rest) := by
  rw [parseParts_part (combinator_raw_ordinary hc), partRead_ordinary hc, Part.readType, h]
  rfl

theorem readName?_of_read {n r : Text} (h : Identifier.read s = (n, r)) :
    readName? s = if n = [] then none else some (n, r) := by
  unfold readName?
  rw [h]
  cases n <;> rfl

theorem readTypeName?_of_read {n r : Text} (hc : c ≠ '*')
    (h : Identifier.read (c :: s) = (n, r)) :
    readTypeName? (c :: s) = if n = [] then none else some (n, r) := by
  rw [readTypeName?.eq_2, readName?_of_read h]
  rintro r ⟨⟩
  exact hc rfl

theorem readNamespaceName_of_ne (hc : c ≠ '*') :
    readNamespaceName (c :: s) = Identifier.read (c :: s) := by
  rw [readNamespaceName.eq_2]
  rintro r ⟨⟩
  exact hc rfl

theorem readNamespace?_eq_some_iff {n r space t : Text} (h : readNamespaceName s = (n, r)) :
    readNamespace? s = some (space, t) ↔
      space = n ++ ['|'] ∧ r = '|' :: t ∧ t.head? ≠ some '=' := by
  unfold readNamespace?
  rw [h]
  split
  · rename_i heq
    cases heq
    refine iff_of_false (by simp) ?_
    rintro ⟨-, heq, hne⟩
    cases heq
    exact hne rfl
  · rename_i hequal heq
    cases heq
    simp only [Option.some.injEq, Prod.mk.injEq, List.cons.injEq, true_and]
    constructor
    · rintro ⟨rfl, rfl⟩
      refine ⟨rfl, rfl, fun hhead => ?_⟩
      obtain ⟨u, rfl⟩ := List.head?_eq_some_iff.1 hhead
      exact hequal u rfl
    · rintro ⟨rfl, rfl, -⟩
      exact ⟨rfl, rfl⟩
  · rename_i hno
    refine iff_of_false (by simp) ?_
    rintro ⟨-, rfl, -⟩
    exact hno n t rfl

/-- The name of a type selector behind a bar, and the text behind that. -/
def behindBar? : Text → Option (Text × Text)
  | '|' :: r => readTypeName? r
  | _ => none

theorem behindBar?_eq_none {r : Text} (hr : r.head? ≠ some '|') : behindBar? r = none := by
  rw [behindBar?.eq_2]
  rintro r' rfl
  exact hr rfl

theorem behindBar?_eq_some {r : Text} (h : behindBar? r = some (name, rest)) :
    ∃ t, r = '|' :: t ∧ readTypeName? t = some (name, rest) := by
  unfold behindBar? at h
  split at h
  · exact ⟨_, rfl, h⟩
  · cases h

section

variable {n r : Text} (hc : c ≠ '*') (h : Identifier.read (c :: s) = (n, r))
include hc h

/-- An identifier is the namespace of the name behind it if a bar stands between them. -/
theorem readQualified?_bar (hbar : behindBar? r = some (name, rest)) :
    readQualified? readTypeName? (c :: s) = some (n ++ ['|'], name, rest) := by
  have hname : readNamespaceName (c :: s) = (n, r) := by rw [readNamespaceName_of_ne hc, h]
  obtain ⟨t, rfl, ht⟩ := behindBar?_eq_some hbar
  -- no name begins with the sign that may not stand behind the bar
  have hequal : t.head? ≠ some '=' := by
    intro hhead
    obtain ⟨u, rfl⟩ := List.head?_eq_some_iff.1 hhead
    rw [readTypeName?_of_read (by decide) (read_stop rfl), if_pos rfl] at ht
    cases ht
  have hspace := (readNamespace?_eq_some_iff hname).2 ⟨rfl, rfl, hequal⟩
  simp only [readQualified?, hspace, ht]

/-- Without a bar and a name behind it, an identifier is the name itself. -/
theorem readQualified?_name (hbar : behindBar? r = none) :
    readQualified? readTypeName? (c :: s) = if n = [] then none else some ([], n, r) := by
  have hname : readNamespaceName (c :: s) = (n, r) := by rw [readNamespaceName_of_ne hc, h]
  have hlocal := readTypeName?_of_read hc h
  cases hfound : readNamespace? (c :: s) with
  | none =>
    simp only [readQualified?, hfound, hlocal]
    split <;> rfl
  | some found =>
    obtain ⟨space, t⟩ := found
    obtain ⟨rfl, rfl, -⟩ := (readNamespace?_eq_some_iff hname).1 hfound
    have ht : readTypeName? t = none := hbar
    simp only [readQualified?, hfound, ht, hlocal]
    split <;> rfl

end

section

variable {n r : Text} (hc : isOrdinary c = true) (h : Identifier.read (c :: s) = (n, r))
include hc h

/-- A name behind a bar is that of a type selector, whatever namespace stands before the bar. -/
theorem readsAs_bar_iff (hbar : behindBar? r = some (name, rest)) :
    ReadsAs P (c :: s) ↔ ReadsAs (fun ps => P (typePart (n ++ ['|']) name :: ps)) rest := by
  have hstar : c ≠ '*' := by
    rintro rfl
    cases hc
  exact readsAs_cons_iff (parseParts_type hc (readQualified?_bar hstar h hbar))

theorem readsAs_name_iff (hbar : behindBar? r = none) :
    ReadsAs P (c :: s) ↔ n ≠ [] ∧ ReadsAs (fun ps => P (typePart [] n :: ps)) r := by
  have hstar : c ≠ '*' := by
    rintro rfl
    cases hc
  have hqualified := readQualified?_name hstar h hbar
  by_cases hnil : n = []
  · have hfault : Part.read c s = .error (.unexpected c) := by
      rw [partRead_ordinary hc, Part.readType, hqualified, if_pos hnil]
    exact iff_of_false
      (fun hreads => not_legible_of_fault (combinator_raw_ordinary hc) hfault hreads.legible)
      fun hreads => hreads.1 hnil
  · rw [if_neg hnil] at hqualified
    rw [readsAs_cons_iff (parseParts_type hc hqualified), and_iff_right hnil]

end

/-! ## Lost beginnings -/

/-- Some characters begin nothing that is read. -/
theorem not_legible (hc : isOrdinary c = true) (hname : Identifier.isNameChar c = false)
    (hback : c ≠ '\\') (hbar : c ≠ '|') : ¬ Legible (c :: s) := by
  have hread : Identifier.read (c :: s) = ([], c :: s) := read_stop (atom_none hname hback)
  intro h
  exact ((readsAs_name_iff hc hread (behindBar?_eq_none (by simpa using hbar))).1 h).1 rfl

/-- What an identifier or a bar begins, an ordinary character begins. -/
theorem ordinary_of_read {n r : Text} (h : Identifier.read s = (n, r))
    (hne : n ≠ [] ∨ behindBar? r ≠ none) : ∃ c t, s = c :: t ∧ isOrdinary c = true := by
  cases s with
  | nil =>
    rw [read_stop rfl] at h
    cases h
    simp [behindBar?] at hne
  | cons c t =>
    refine ⟨c, t, rfl, ?_⟩
    by_cases hname : Identifier.isNameChar c = true
    · exact isOrdinary_nameChar hname
    · by_cases hback : c = '\\'
      · rw [hback]
        rfl
      · rw [read_stop (atom_none (by simpa using hname) hback)] at h
        cases h
        obtain ⟨found, hbar⟩ := Option.ne_none_iff_exists'.1 (hne.resolve_left fun hn => hn rfl)
        obtain ⟨u, heq, -⟩ := behindBar?_eq_some hbar
        cases heq
        rfl

/-- A character of a name is cut off the name, or off the namespace if there is one; what follows is
read as before. -/
theorem ReadsAs.behind_nameChar {n r : Text} (hname : Identifier.isNameChar c = true)
    (hread : Identifier.read s = (n, r)) (h : ReadsAs P (c :: s))
    (hnil : n = [] → ∀ ps, P (typePart [] [c] :: ps) → Q ps)
    (hlocal : n ≠ [] → ∀ ps, P (typePart [] (c :: n) :: ps) → Q (typePart [] n :: ps))
    (hspace : ∀ name rest ps, behindBar? r = some (name, rest) →
      P (typePart (c :: n ++ ['|']) name :: ps) → Q (typePart (n ++ ['|']) name :: ps)) :
    ReadsAs Q s := by
  have hordinary := isOrdinary_nameChar hname
  have hlonger : Identifier.read (c :: s) = (c :: n, r) := by rw [read_nameChar hname, hread]
  cases hbar : behindBar? r with
  | some found =>
    obtain ⟨name, rest⟩ := found
    obtain ⟨d, t, rfl, hd⟩ := ordinary_of_read hread (.inr (by simp [hbar]))
    rw [readsAs_bar_iff hordinary hlonger hbar] at h
    exact (readsAs_bar_iff hd hread hbar).2 (h.mono fun ps => hspace name rest ps hbar)
  | none =>
    have hrest := ((readsAs_name_iff hordinary hlonger hbar).1 h).2
    by_cases hn : n = []
    · have happ := Identifier.read_append s
      rw [hread, hn, List.nil_append] at happ
      rw [hn] at hrest
      rw [← happ]
      exact hrest.mono (hnil hn)
    · obtain ⟨d, t, rfl, hd⟩ := ordinary_of_read hread (.inl hn)
      exact (readsAs_name_iff hd hread hbar).2 ⟨hn, hrest.mono (hlocal hn)⟩

/-- The identifier at the start of a marker. -/
theorem read_marker (rest : Text) :
    Identifier.read ('-' :: '-' :: '>' :: rest) = (['-', '-'], '>' :: rest) := by
  have hstop : Identifier.read ('>' :: rest) = ([], '>' :: rest) := read_stop rfl
  rw [read_nameChar rfl, read_nameChar rfl, hstop]

theorem ReadsAs.behind_marker (hP : IgnoresLead P) (h : ReadsAs P ('-' :: '-' :: '>' :: rest)) :
    ReadsAs P rest := by
  rw [readsAs_name_iff rfl (read_marker rest) (behindBar?_eq_none (by simp))] at h
  exact (readsAs_greater hP rest).1 (h.2.mono hP.dashes)

/-- What opens a text is read as the text is. -/
theorem ReadsAs.opening (hP : IgnoresLead P) (h : ReadsAs P s) : ReadsAs P (opening s) := by
  fun_induction StylePrune.opening s with
  | case1 rest ih => exact ih (h.behind_marker hP)
  | case2 rest body rest' hbody ih => exact ih ((readsAs_comment hP hbody).1 h)
  | case3 => exact h
  | case4 c rest _ _ hc ih => exact ih ((readsAs_blank hP hc rest).1 h)
  | case5 => exact h
  | case6 => exact h

/-! ### Spaces -/

/-- The name of a type selector is in use. -/
def Used (corpus : Corpus) (name : Text) : Prop := name = ['*'] ∨ corpus.mentions name = true

/-- A universal selector is not checked, a tag is. -/
theorem all_typePart_iff {space : Text} {ps : List Part} :
    (typePart space name :: ps).all corpus.allows = true ↔
      Used corpus name ∧ ps.all corpus.allows = true := by
  by_cases hstar : name = ['*'] <;> simp [typePart, Used, Corpus.allows, hstar]

/-- A space that is a character of a name is cut off the name: what is left of it is in use, and
what follows it is read as before. -/
theorem Reads.behind_nameSpace (hc : Text.isSpace c = true)
    (hname : Identifier.isNameChar c = true) (h : Reads corpus (c :: s)) : Reads corpus s := by
  refine ReadsAs.behind_nameChar hname rfl h ?_ ?_ ?_
  · exact fun _ ps hall => (all_typePart_iff.1 hall).2
  · intro hne ps hall
    obtain ⟨huse, hall⟩ := all_typePart_iff.1 hall
    refine all_typePart_iff.2 ⟨?_, hall⟩
    rcases huse with heq | hmention
    · rw [List.cons.injEq] at heq
      exact absurd heq.1 (Text.space_ne hc rfl)
    · exact .inr (Corpus.mentions_of_space hc hne hmention)
  · -- only the namespace gets shorter, and that is not checked
    exact fun _ _ ps _ hall => all_typePart_iff.2 (all_typePart_iff.1 hall)

theorem Reads.behind_space (hc : Text.isSpace c = true) (h : Reads corpus (c :: s)) :
    Reads corpus s := by
  by_cases hblank : Text.isBlank c = true
  · exact (readsAs_blank ignoresLead_allows hblank s).1 h
  have hother : ∀ d, Text.isSpace d = false → c ≠ d := fun d hd => Text.space_ne hc hd
  have hordinary : isOrdinary c = true := by
    simp [isOrdinary, hblank, hother '.' rfl, hother '#' rfl, hother '[' rfl, hother ':' rfl,
      hother '&' rfl, hother '*' rfl, hother '/' rfl, hother '>' rfl, hother '+' rfl,
      hother '~' rfl]
  by_cases hname : Identifier.isNameChar c = true
  · exact h.behind_nameSpace hc hname
  · -- no other character of the kind begins anything that is read
    have hread : ReadsAs (fun ps => ps.all corpus.allows = true) (c :: s) := h
    exact absurd hread.legible
      (not_legible hordinary (by simpa using hname) (hother '\\' rfl) (hother '|' rfl))

theorem Reads.trimStart (h : Reads corpus s) : Reads corpus (Text.trimStart s) :=
  Text.trimStart_induction (P := Reads corpus) Reads.behind_space h

theorem Reads.opening (h : Reads corpus s) : Reads corpus (opening s) :=
  ReadsAs.opening ignoresLead_allows h

theorem Reads.legible (h : Reads corpus s) : Legible s :=
  ReadsAs.legible (P := fun ps => ps.all corpus.allows = true) h

end

end Selector

end StylePrune
